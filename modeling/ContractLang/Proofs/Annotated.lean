import Mathlib.Data.List.Nodup
import ContractLang.Proofs.Lookup
/-!
A table with other notes on its nodes. Binding names and checking types change a table in no other
way, so that everything else can be asked of the table with which they began.
-/
namespace ContractLang

theorem keys_sublist {κ α β : Type} (key : β → κ) (value : β → Option α) (xs : List β) :
    ((xs.filterMap fun x => (value x).map (key x, ·)).map Prod.fst).Sublist (xs.map key) := by
  induction xs with
  | nil => exact .slnil
  | cons x rest ih =>
    cases h : value x with
    | none => simpa [h] using ih.cons (key x)
    | some a => simpa [h] using ih.cons_cons (key x)

theorem exists_of_forall₂ {α β : Type} {R : α → β → Prop} {xs : List α} {ys : List β}
    (h : List.Forall₂ R xs ys) {x : α} (hx : x ∈ xs) : ∃ y ∈ ys, R x y := by
  induction h with
  | nil => cases hx
  | cons hr _ ih =>
    rcases List.mem_cons.1 hx with rfl | hx
    · exact ⟨_, List.mem_cons_self .., hr⟩
    · obtain ⟨y, hy, hr⟩ := ih hx
      exact ⟨y, List.mem_cons_of_mem _ hy, hr⟩

namespace Assoc
variable {κ α : Type} [DecidableEq κ]

/-- Writes pairs one after the other. -/
def insertAll (m : Assoc κ α) (pairs : List (κ × α)) : Assoc κ α :=
  pairs.foldl (fun m p => m.insert p.1 p.2) m

@[simp] theorem insertAll_nil (m : Assoc κ α) : m.insertAll [] = m := rfl

theorem insertAll_append (m : Assoc κ α) (xs ys : List (κ × α)) :
    m.insertAll (xs ++ ys) = (m.insertAll xs).insertAll ys := List.foldl_append

theorem get?_insertAll_of_not_mem {m : Assoc κ α} {pairs : List (κ × α)} {k : κ}
    (h : k ∉ pairs.map Prod.fst) : (m.insertAll pairs).get? k = m.get? k := by
  induction pairs generalizing m with
  | nil => rfl
  | cons p rest ih =>
    simp only [List.map_cons, List.mem_cons, not_or] at h
    have hrest : ((m.insert p.1 p.2).insertAll rest).get? k = (m.insert p.1 p.2).get? k := ih h.2
    exact hrest.trans (by rw [get?_insert, if_neg (Ne.symm h.1)])

theorem get?_insertAll_of_mem {m : Assoc κ α} {pairs : List (κ × α)} {k : κ} {a : α}
    (hn : (pairs.map Prod.fst).Nodup) (h : (k, a) ∈ pairs) :
    (m.insertAll pairs).get? k = some a := by
  induction pairs generalizing m with
  | nil => cases h
  | cons p rest ih =>
    simp only [List.map_cons, List.nodup_cons] at hn
    change ((m.insert p.1 p.2).insertAll rest).get? k = some a
    rcases List.mem_cons.1 h with rfl | h
    · rw [get?_insertAll_of_not_mem hn.1, get?_insert_self]
    · exact ih hn.2 h

theorem insertAll_eq_self {m : Assoc κ α} {pairs : List (κ × α)}
    (h : ∀ p ∈ pairs, m.get? p.1 = some p.2) : m.insertAll pairs = m := by
  induction pairs with
  | nil => rfl
  | cons p rest ih =>
    change (m.insert p.1 p.2).insertAll rest = m
    rw [insert_of_get? (h p (.head _))]
    exact ih fun q hq => h q (.tail _ hq)

/-- An entry that is found has come in with the pairs or has been there before. -/
theorem mem_or_of_get?_insertAll {m : Assoc κ α} {pairs : List (κ × α)} {k : κ} {a : α}
    (h : (m.insertAll pairs).get? k = some a) : (k, a) ∈ pairs ∨ m.get? k = some a := by
  induction pairs generalizing m with
  | nil => exact .inr h
  | cons p rest ih =>
    have hrest : (k, a) ∈ rest ∨ (m.insert p.1 p.2).get? k = some a := ih h
    rcases hrest with hmem | hget
    · exact .inl (.tail _ hmem)
    · rw [get?_insert] at hget
      split at hget
      · rename_i hk
        cases hget
        subst hk
        exact .inl (.head _)
      · exact .inr hget

/-- What was written of an item can be read back, if no two items have one key. -/
theorem get?_insertAll_filterMap {β : Type} {key : β → κ} (value : β → Option α) {xs : List β}
    (hn : (xs.map key).Nodup) {x : β} (hx : x ∈ xs) (m : Assoc κ α) :
    (m.insertAll (xs.filterMap fun x => (value x).map (key x, ·))).get? (key x) =
      (value x).or (m.get? (key x)) := by
  cases h : value x with
  | some a =>
    refine get?_insertAll_of_mem (hn.sublist (keys_sublist key value xs)) ?_
    exact List.mem_filterMap.2 ⟨x, hx, by rw [h]; rfl⟩
  | none =>
    refine get?_insertAll_of_not_mem fun hmem => ?_
    obtain ⟨pair, hpair, he⟩ := List.mem_map.1 hmem
    obtain ⟨y, hy, hpair⟩ := List.mem_filterMap.1 hpair
    obtain ⟨a, ha, rfl⟩ := Option.map_eq_some_iff.1 hpair
    obtain rfl := List.inj_on_of_nodup_map hn hy hx he
    rw [h] at ha
    cases ha

end Assoc

namespace Table
variable {t : Table}

/-! ### Answers about symbols that the table holds -/

def shownName (t : Table) (id : SymbolId) : String := (t.symbols[id.index]?.map (·.name)).getD ""

def valueType (t : Table) (id : SymbolId) : Option SymbolId := (t.kind? id).bind (·.valueType?)

def elementType (t : Table) (id : SymbolId) : Option SymbolId := (t.kind? id).bind (·.element?)

def functionAt (t : Table) (id : SymbolId) : Option FunctionRecord := (t.kind? id).bind (·.function?)

theorem nameOf_eq {id : SymbolId} (h : t.Holds id) : t.nameOf id = .ok (t.shownName id) := by
  have hs : t.symbols[id.index]? = some _ := List.getElem?_eq_getElem h
  rw [nameOf, symbol_eq_ok.2 hs, shownName, hs]
  rfl

theorem valueType?_eq {id : SymbolId} (h : t.Holds id) :
    t.valueType? id = .ok (t.valueType id) := by
  obtain ⟨k, hk⟩ := holds_iff_kind?.1 h
  rw [valueType?, kindOf_eq_ok.2 hk, valueType, hk]
  rfl

theorem element?_eq {id : SymbolId} (h : t.Holds id) : t.element? id = .ok (t.elementType id) := by
  obtain ⟨k, hk⟩ := holds_iff_kind?.1 h
  rw [element?, kindOf_eq_ok.2 hk, elementType, hk]
  rfl

theorem function?_eq {id : SymbolId} (h : t.Holds id) : t.function? id = .ok (t.functionAt id) := by
  obtain ⟨k, hk⟩ := holds_iff_kind?.1 h
  rw [function?, kindOf_eq_ok.2 hk, functionAt, hk]
  rfl

theorem valueType_proper (h : t.Valid) {id type : SymbolId} (ht : t.valueType id = some type) :
    t.Holds type ∧ type ≠ .void := by
  obtain ⟨k, hk, hv⟩ := Option.bind_eq_some_iff.1 ht
  have hvalid := h.kind hk
  cases k with
  | field τ => exact ⟨(hvalid type hv).1, (hvalid type hv).2.2⟩
  | parameter τ => exact ⟨(hvalid type hv).1, (hvalid type hv).2.2⟩
  | localVar τ v => exact ⟨(hvalid type hv).1, (hvalid type hv).2.2⟩
  | constant τ =>
    cases hv
    exact hvalid
  | _ => cases hv

theorem valueType_holds (h : t.Valid) {id type : SymbolId} (ht : t.valueType id = some type) :
    t.Holds type := (valueType_proper h ht).1

theorem elementType_denotable (h : t.Valid) {id type : SymbolId}
    (ht : t.elementType id = some type) : t.Denotable type := by
  obtain ⟨k, hk, hv⟩ := Option.bind_eq_some_iff.1 ht
  have hvalid := h.kind hk
  cases k with
  | array e => cases hv; exact hvalid
  | _ => cases hv

theorem functionAt_valid (h : t.Valid) {id : SymbolId} {info : FunctionRecord}
    (hf : t.functionAt id = some info) : (SymbolKind.function info).ValidIn t := by
  obtain ⟨k, hk, hv⟩ := Option.bind_eq_some_iff.1 hf
  have hvalid := h.kind hk
  cases k with
  | function i => cases hv; exact hvalid
  | _ => cases hv

/-! ### Other notes -/

/-- The table with these bindings and types of nodes. -/
def annotated (t : Table) (b y : Assoc NodeId SymbolId) : Table :=
  { t with bindings := b, types := y }

variable (b y : Assoc NodeId SymbolId)

@[simp] theorem boundTo?_annotated (n : NodeId) : (t.annotated b y).boundTo? n = b.get? n := rfl

@[simp] theorem typeAt?_annotated (n : NodeId) : (t.annotated b y).typeAt? n = y.get? n := rfl

@[simp] theorem noteType_annotated (n : NodeId) (type : SymbolId) :
    (t.annotated b y).noteType n type = t.annotated b (y.insert n type) := rfl

@[simp] theorem noteBinding_annotated (n : NodeId) (id : SymbolId) :
    (t.annotated b y).noteBinding n id = t.annotated (b.insert n id) y := rfl

@[simp] theorem nearest_annotated (id : ScopeId) (name : String) :
    (t.annotated b y).nearest id name = t.nearest id name :=
  nearest_congr (show (t.annotated b y).scopes = t.scopes from rfl) id name

@[simp] theorem lookup_annotated (id : ScopeId) (name : String) :
    (t.annotated b y).lookup id name = t.lookup id name := by
  unfold lookup
  rw [nearest_annotated]
  rfl

theorem firstVisible_annotated (stmt : NodeId) (ids : List SymbolId) :
    (t.annotated b y).firstVisible stmt ids = t.firstVisible stmt ids := by
  induction ids with
  | nil => rfl
  | cons id rest ih =>
    simp only [firstVisible, ih]
    rfl

@[simp] theorem firstVisible?_annotated (stmt : Option NodeId) (ids : List SymbolId) :
    (t.annotated b y).firstVisible? stmt ids = t.firstVisible? stmt ids := by
  cases stmt with
  | none => rfl
  | some stmt => exact firstVisible_annotated b y stmt ids

end Table

theorem Pass.run_query_annotated {t : Table} (b y : Assoc NodeId SymbolId) {α : Type}
    {f : Table → Except Dangling α} {a : α} (h : f (t.annotated b y) = .ok a) :
    (query f).run (t.annotated b y) = .ok ⟨a, t.annotated b y, []⟩ :=
  run_query_eq_ok.2 ⟨a, h, rfl⟩

end ContractLang
