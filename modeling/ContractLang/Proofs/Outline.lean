import ContractLang.Proofs.Annotated
/-!
What declaring leaves behind, as a list of declarations. A symbol keeps the outline with which it was
declared: its name, place and sort, but not its type or members. `Declares` says that a table has come
from another by such declarations, in this order, with these scopes opened for them.
-/
namespace ContractLang

/-- A symbol as it is first declared, with its node. -/
structure Decl where
  node : NodeId
  symbol : Symbol

/-- What a symbol is when it is declared. Types, members and visibility come later. -/
def SymbolKind.outline : SymbolKind → SymbolKind
  | struct inner _ => struct inner []
  | contract info => contract ⟨info.inner, [], [], none, []⟩
  | field _ => field none
  | function info => function ⟨info.inner, info.isConstructor, [], [], []⟩
  | parameter _ => parameter none
  | localVar _ _ => localVar none []
  | k => k

def Symbol.outline (s : Symbol) : Symbol := { s with kind := s.kind.outline }

/-- The scope that the members of a symbol lie in. -/
def SymbolKind.inner? : SymbolKind → Option ScopeId
  | struct inner _ => some inner
  | contract info => some info.inner
  | function info => some info.inner
  | _ => none

/-- A scope as it is opened, without an owner and without declarations. -/
def Scope.outline (s : Scope) : Scope := .new s.kind s.parent

/-- Declarations with the numbers of their symbols, counted from `n`. -/
def numbered (n : Nat) (ds : List Decl) : List (Decl × SymbolId) :=
  (ds.zipIdx n).map fun p => (p.1, ⟨p.2⟩)

theorem numbered_append (n : Nat) (ds es : List Decl) :
    numbered n (ds ++ es) = numbered n ds ++ numbered (n + ds.length) es := by
  simp [numbered, List.zipIdx_append]

theorem numbered_cons (n : Nat) (d : Decl) (ds : List Decl) :
    numbered n (d :: ds) = (d, ⟨n⟩) :: numbered (n + 1) ds := by
  simp [numbered, List.zipIdx_cons]

theorem mem_numbered {n : Nat} {ds : List Decl} {d : Decl} {id : SymbolId} :
    (d, id) ∈ numbered n ds ↔ ∃ i, ds[i]? = some d ∧ id = ⟨n + i⟩ := by
  simp only [numbered, List.mem_map, Prod.mk.injEq, Prod.exists, List.mem_zipIdx_iff_le_and_getElem?_sub]
  constructor
  · rintro ⟨e, j, ⟨hj, he⟩, rfl, rfl⟩
    exact ⟨j - n, he, by rw [Nat.add_sub_cancel' hj]⟩
  · rintro ⟨i, hi, rfl⟩
    exact ⟨d, n + i, ⟨Nat.le_add_right .., by rw [Nat.add_sub_cancel_left]; exact hi⟩, rfl, rfl⟩

theorem exists_numbered (n : Nat) (ds : List Decl) {d : Decl} (h : d ∈ ds) :
    ∃ id, (d, id) ∈ numbered n ds := by
  obtain ⟨i, hi⟩ := List.getElem?_of_mem h
  exact ⟨_, mem_numbered.2 ⟨i, hi, rfl⟩⟩

theorem numbered_unique {n : Nat} {ds : List Decl} {d e : Decl} {id : SymbolId}
    (hd : (d, id) ∈ numbered n ds) (he : (e, id) ∈ numbered n ds) : d = e := by
  obtain ⟨i, hi, rfl⟩ := mem_numbered.1 hd
  obtain ⟨j, hj, hij⟩ := mem_numbered.1 he
  obtain rfl : i = j := Nat.add_left_cancel (congrArg SymbolId.index hij)
  rw [hi] at hj
  exact Option.some.inj hj

theorem nodes_numbered (n : Nat) (ds : List Decl) :
    ((numbered n ds).map fun p => (p.1.node, p.2)).map Prod.fst = ds.map (·.node) := by
  induction ds generalizing n with
  | nil => rfl
  | cons d ds ih =>
    rw [numbered_cons, List.map_cons, List.map_cons, ih]
    rfl

/-- The declarations that one scope gets. -/
def listed (n : Nat) (ds : List Decl) (scope : ScopeId) : List (String × SymbolId) :=
  ((numbered n ds).filter (·.1.symbol.scope = scope)).map fun p => (p.1.symbol.name, p.2)

theorem listed_append (n : Nat) (ds es : List Decl) (scope : ScopeId) :
    listed n (ds ++ es) scope = listed n ds scope ++ listed (n + ds.length) es scope := by
  simp [listed, numbered_append]

/-- Those of some declarations that lie in a scope. -/
def declsIn (scope : ScopeId) (ds : List Decl) : List Decl := ds.filter (·.symbol.scope = scope)

theorem declsIn_append (scope : ScopeId) (ds es : List Decl) :
    declsIn scope (ds ++ es) = declsIn scope ds ++ declsIn scope es := List.filter_append ..

theorem declsIn_cons_of_ne {scope : ScopeId} {d : Decl} (h : d.symbol.scope ≠ scope)
    (ds : List Decl) : declsIn scope (d :: ds) = declsIn scope ds :=
  List.filter_cons_of_neg (by simpa using h)

theorem declsIn_cons_of_eq {scope : ScopeId} {d : Decl} (h : d.symbol.scope = scope)
    (ds : List Decl) : declsIn scope (d :: ds) = d :: declsIn scope ds :=
  List.filter_cons_of_pos (by simpa using h)

theorem declsIn_eq_nil {scope : ScopeId} {ds : List Decl} (h : ∀ d ∈ ds, d.symbol.scope ≠ scope) :
    declsIn scope ds = [] :=
  List.filter_eq_nil_iff.2 fun d hd => by simpa using h d hd

theorem declsIn_eq_self {scope : ScopeId} {ds : List Decl} (h : ∀ d ∈ ds, d.symbol.scope = scope) :
    declsIn scope ds = ds :=
  List.filter_eq_self.2 fun d hd => by simpa using h d hd

theorem listed_eq {n : Nat} {ds : List Decl} {f : Decl → SymbolId}
    (hf : ∀ d id, (d, id) ∈ numbered n ds → id = f d) (scope : ScopeId) :
    listed n ds scope = (declsIn scope ds).map fun d => (d.symbol.name, f d) := by
  induction ds generalizing n with
  | nil => rfl
  | cons d ds ih =>
    have hrest : listed (n + 1) ds scope = _ :=
      ih fun e id he => hf e id (by rw [numbered_cons]; exact List.mem_cons_of_mem _ he)
    have hd : (⟨n⟩ : SymbolId) = f d := hf d ⟨n⟩ (by rw [numbered_cons]; exact List.mem_cons_self ..)
    unfold listed at hrest ⊢
    unfold declsIn at hrest ⊢
    by_cases h : d.symbol.scope = scope
    · simp [numbered_cons, h, hrest, hd]
    · simp [numbered_cons, h, hrest]

theorem listed_names (n : Nat) (ds : List Decl) (scope : ScopeId) :
    (listed n ds scope).map Prod.fst = (declsIn scope ds).map (·.symbol.name) := by
  induction ds generalizing n with
  | nil => rfl
  | cons d ds ih =>
    have hrest := ih (n + 1)
    unfold listed declsIn at hrest ⊢
    by_cases h : d.symbol.scope = scope
    · simp [numbered_cons, h, ← hrest]
    · simp [numbered_cons, h, ← hrest]

/-! ### Members with scopes of their own -/

/-- A member with the number of its own scope and that of its symbol. -/
structure Placement (α : Type) where
  member : α
  scope : ScopeId
  symbol : Nat

/-- Members one after the other: each takes one scope and as many symbols as it declares. -/
def placements {α : Type} (size : α → Nat) (scope symbol : Nat) : List α → List (Placement α)
  | [] => []
  | x :: rest => ⟨x, ⟨scope⟩, symbol⟩ :: placements size (scope + 1) (symbol + size x) rest

section
variable {α : Type} {size : α → Nat} {decls : ScopeId → α → List Decl}

theorem exists_placement {x : α} {xs : List α} (h : x ∈ xs) (k n : Nat) :
    ∃ p ∈ placements size k n xs, p.member = x := by
  induction xs generalizing k n with
  | nil => cases h
  | cons y xs ih =>
    rcases List.mem_cons.1 h with rfl | h
    · exact ⟨_, List.mem_cons_self .., rfl⟩
    · obtain ⟨p, hp, hx⟩ := ih h (k + 1) (n + size y)
      exact ⟨p, List.mem_cons_of_mem _ hp, hx⟩

theorem placements_flatMap {β : Type} (g : α → List β) (k n : Nat) (xs : List α) :
    ((placements size k n xs).flatMap fun p => g p.member) = xs.flatMap g := by
  induction xs generalizing k n with
  | nil => rfl
  | cons x xs ih => rw [placements, List.flatMap_cons, List.flatMap_cons, ih]

theorem placement_member {p : Placement α} {xs : List α} {k n : Nat}
    (h : p ∈ placements size k n xs) : p.member ∈ xs := by
  induction xs generalizing k n with
  | nil => cases h
  | cons y xs ih =>
    rcases List.mem_cons.1 h with rfl | h
    · exact List.mem_cons_self ..
    · exact List.mem_cons_of_mem _ (ih h)

theorem mem_numbered_placement (hsize : ∀ i x, (decls i x).length = size x) {xs : List α}
    {k n : Nat} {p : Placement α} (hp : p ∈ placements size k n xs) {d : Decl} {id : SymbolId}
    (hd : (d, id) ∈ numbered p.symbol (decls p.scope p.member)) :
    (d, id) ∈ numbered n ((placements size k n xs).flatMap fun p => decls p.scope p.member) := by
  induction xs generalizing k n with
  | nil => cases hp
  | cons y xs ih =>
    rw [placements, List.flatMap_cons, numbered_append, List.mem_append, hsize]
    rcases List.mem_cons.1 hp with rfl | hp
    · exact .inl hd
    · exact .inr (ih hp)

theorem exists_numbered_placement (hsize : ∀ i x, (decls i x).length = size x) {xs : List α}
    {k n : Nat} {d : Decl} {id : SymbolId}
    (h : (d, id) ∈ numbered n ((placements size k n xs).flatMap fun p => decls p.scope p.member)) :
    ∃ p ∈ placements size k n xs, (d, id) ∈ numbered p.symbol (decls p.scope p.member) := by
  induction xs generalizing k n with
  | nil => cases h
  | cons y xs ih =>
    rw [placements, List.flatMap_cons, numbered_append, List.mem_append, hsize] at h
    rcases h with h | h
    · exact ⟨_, List.mem_cons_self .., h⟩
    · obtain ⟨p, hp, hd⟩ := ih h
      exact ⟨p, List.mem_cons_of_mem _ hp, hd⟩

theorem placements_members (k n : Nat) (xs : List α) :
    (placements size k n xs).map (·.member) = xs := by
  induction xs generalizing k n with
  | nil => rfl
  | cons x xs ih => rw [placements, List.map_cons, ih]

theorem placement_scope {p : Placement α} {xs : List α} {k n : Nat}
    (h : p ∈ placements size k n xs) : k ≤ p.scope.index := by
  induction xs generalizing k n with
  | nil => cases h
  | cons y xs ih =>
    rcases List.mem_cons.1 h with rfl | h
    · exact Nat.le_refl k
    · exact Nat.le_of_succ_le (ih h)

/-- No two members have one scope. -/
theorem placement_unique {p q : Placement α} {xs : List α} {k n : Nat}
    (hp : p ∈ placements size k n xs) (hq : q ∈ placements size k n xs) (h : p.scope = q.scope) :
    p = q := by
  induction xs generalizing k n with
  | nil => cases hp
  | cons y xs ih =>
    have hlater : ∀ r ∈ placements size (k + 1) (n + size y) xs, r.scope ≠ ⟨k⟩ := by
      rintro r hr he
      have hge := placement_scope hr
      rw [he] at hge
      exact Nat.not_succ_le_self k hge
    rcases List.mem_cons.1 hp with rfl | hp
    · rcases List.mem_cons.1 hq with rfl | hq
      · rfl
      · exact absurd h.symm (hlater q hq)
    · rcases List.mem_cons.1 hq with rfl | hq
      · exact absurd h (hlater p hp)
      · exact ih hp hq

theorem placement_scope_lt {p : Placement α} {xs : List α} {k n : Nat}
    (h : p ∈ placements size k n xs) : p.scope.index < k + xs.length := by
  induction xs generalizing k n with
  | nil => cases h
  | cons y xs ih =>
    rw [List.length_cons]
    rcases List.mem_cons.1 h with rfl | h
    · exact Nat.lt_add_of_pos_right (Nat.succ_pos _)
    · have hrest := ih h
      omega

theorem declsIn_placement {outer : ScopeId}
    (hscope : ∀ i x, ∀ d ∈ decls i x, d.symbol.scope = outer ∨ d.symbol.scope = i) {xs : List α}
    {k n : Nat} (ho : outer.index < k) {p : Placement α} (hp : p ∈ placements size k n xs) :
    declsIn p.scope ((placements size k n xs).flatMap fun p => decls p.scope p.member) =
      declsIn p.scope (decls p.scope p.member) := by
  induction xs generalizing k n with
  | nil => cases hp
  | cons y xs ih =>
    rw [placements, List.flatMap_cons, declsIn_append]
    rcases List.mem_cons.1 hp with rfl | hp
    · -- The members after this one lie further on.
      have hrest : declsIn ⟨k⟩ ((placements size (k + 1) (n + size y) xs).flatMap
          fun p => decls p.scope p.member) = [] := by
        refine declsIn_eq_nil fun d hd he => ?_
        obtain ⟨q, hq, hdq⟩ := List.mem_flatMap.1 hd
        have hge := placement_scope hq
        rcases hscope _ _ d hdq with h | h
        · rw [← h, he] at ho
          exact Nat.lt_irrefl _ ho
        · rw [← h, he] at hge
          exact Nat.lt_irrefl _ hge
      rw [hrest, List.append_nil]
    · have hge := placement_scope hp
      have hhead : declsIn p.scope (decls ⟨k⟩ y) = [] := by
        refine declsIn_eq_nil fun d hd he => ?_
        rw [← he] at hge
        rcases hscope _ _ d hd with h | h
        · rw [h] at hge
          omega
        · rw [h] at hge
          exact Nat.lt_irrefl _ hge
      rw [hhead, List.nil_append, ih (Nat.lt_succ_of_lt ho) hp]

theorem declsIn_members {β : Type} {outer : ScopeId} {f : Decl → β} {g : α → β}
    (hmember : ∀ i x, i ≠ outer → (declsIn outer (decls i x)).map f = [g x]) {xs : List α}
    {k n : Nat} (ho : outer.index < k) :
    (declsIn outer ((placements size k n xs).flatMap fun p => decls p.scope p.member)).map f =
      xs.map g := by
  induction xs generalizing k n with
  | nil => rfl
  | cons y xs ih =>
    have hne : (⟨k⟩ : ScopeId) ≠ outer := by
      rintro rfl
      exact Nat.lt_irrefl _ ho
    rw [placements, List.flatMap_cons, declsIn_append, List.map_append, hmember ⟨k⟩ y hne,
      ih (Nat.lt_succ_of_lt ho)]
    rfl

end

namespace Table

def outlines (t : Table) : List Symbol := t.symbols.map Symbol.outline

def scopeOutlines (t : Table) : List Scope := t.scopes.map Scope.outline

/-- The declarations of a scope, none where there is no such scope. -/
def entries (t : Table) (scope : ScopeId) : List (String × SymbolId) :=
  (t.scopes[scope.index]?.map (·.declarations)).getD []

/-- The symbol whose members lie in a scope. -/
def ownerOf? (t : Table) (scope : ScopeId) : Option SymbolId :=
  t.scopes[scope.index]?.bind (·.owner)

/-- The statements that see a local. -/
def visibleIn (t : Table) (id : SymbolId) : List NodeId := ((t.kind? id).map (·.visibility)).getD []

theorem getElem?_outlines (t : Table) (i : Nat) :
    t.outlines[i]? = t.symbols[i]?.map Symbol.outline := List.getElem?_map

theorem length_outlines (t : Table) : t.outlines.length = t.symbols.length := List.length_map _

theorem holdsScope_of_owner {t : Table} {scope : ScopeId} {owner : SymbolId}
    (h : t.ownerOf? scope = some owner) : t.HoldsScope scope := by
  obtain ⟨s, hs, -⟩ := Option.bind_eq_some_iff.1 h
  exact (List.getElem?_eq_some_iff.1 hs).1

/-- The symbols declared are new and stand in this order; each scope lists those that lie in it, and
a symbol with members owns their scope. No value has a type yet. Apart from that the locals have
become visible where `shown` says. -/
structure Declares (t t' : Table) (decls : List Decl) (opened : List Scope)
    (shown : SymbolId → NodeId → Prop) : Prop where
  outlines : t'.outlines = t.outlines ++ decls.map (·.symbol)
  scopes : t'.scopeOutlines = t.scopeOutlines ++ opened
  entries : ∀ scope, t'.entries scope = t.entries scope ++ listed t.symbols.length decls scope
  names : ∀ name, name ∈ t'.names ↔ name ∈ t.names ∨ ∃ d ∈ decls, d.symbol.name = name
  declared : t'.declared =
    t.declared.insertAll ((numbered t.symbols.length decls).map fun p => (p.1.node, p.2))
  nodes : t'.nodes =
    t.nodes.insertAll ((numbered t.symbols.length decls).map fun p => (p.2, p.1.node))
  owners : ∀ scope, t.HoldsScope scope → t'.ownerOf? scope = t.ownerOf? scope
  owned : ∀ d id, (d, id) ∈ numbered t.symbols.length decls → ∀ inner ∈ d.symbol.kind.inner?,
    t'.ownerOf? inner = some id
  values : ∀ id, t'.valueType id = t.valueType id
  visible : ∀ id stmt, stmt ∈ t'.visibleIn id ↔ stmt ∈ t.visibleIn id ∨ shown id stmt
  contract : t'.contract = t.contract
  bindings : t'.bindings = t.bindings
  types : t'.types = t.types

/-- Nothing becomes visible. -/
def nowhere (_ : SymbolId) (_ : NodeId) : Prop := False

namespace Declares
variable {t t' t'' : Table} {ds es : List Decl} {opened opened' : List Scope}
  {shown shown' : SymbolId → NodeId → Prop}

theorem length (h : Declares t t' ds opened shown) :
    t'.symbols.length = t.symbols.length + ds.length := by
  simpa [Table.outlines] using congrArg List.length h.outlines

theorem scopes_length (h : Declares t t' ds opened shown) :
    t'.scopes.length = t.scopes.length + opened.length := by
  simpa [scopeOutlines] using congrArg List.length h.scopes

theorem holdsScope (h : Declares t t' ds opened shown) {scope : ScopeId} (hs : t.HoldsScope scope) :
    t'.HoldsScope scope := by
  have hlen := h.scopes_length
  unfold HoldsScope at hs ⊢
  omega

theorem trans (h₁ : Declares t t' ds opened shown) (h₂ : Declares t' t'' es opened' shown') :
    Declares t t'' (ds ++ es) (opened ++ opened') fun id stmt => shown id stmt ∨ shown' id stmt where
  outlines := by rw [h₂.outlines, h₁.outlines, List.map_append, List.append_assoc]
  scopes := by rw [h₂.scopes, h₁.scopes, List.append_assoc]
  entries scope := by
    rw [h₂.entries, h₁.entries, h₁.length, listed_append, List.append_assoc]
  names name := by
    rw [h₂.names, h₁.names, or_assoc]
    simp only [List.mem_append, or_and_right, exists_or]
  declared := by
    rw [h₂.declared, h₁.declared, h₁.length, numbered_append, List.map_append,
      Assoc.insertAll_append]
  nodes := by
    rw [h₂.nodes, h₁.nodes, h₁.length, numbered_append, List.map_append, Assoc.insertAll_append]
  owners scope h := (h₂.owners scope (h₁.holdsScope h)).trans (h₁.owners scope h)
  owned d id hd inner hinner := by
    rw [numbered_append, List.mem_append, ← h₁.length] at hd
    rcases hd with hd | hd
    · have howner := h₁.owned d id hd inner hinner
      exact (h₂.owners inner (holdsScope_of_owner howner)).trans howner
    · exact h₂.owned d id hd inner hinner
  values id := (h₂.values id).trans (h₁.values id)
  visible id stmt := by rw [h₂.visible, h₁.visible, or_assoc]
  contract := h₂.contract.trans h₁.contract
  bindings := h₂.bindings.trans h₁.bindings
  types := h₂.types.trans h₁.types

theorem congr {ds' : List Decl} (h : Declares t t' ds opened shown) (hd : ds = ds')
    (ho : opened = opened') (hs : ∀ id stmt, shown id stmt ↔ shown' id stmt) :
    Declares t t' ds' opened' shown' := by
  subst hd ho
  exact { h with visible := fun id stmt => by rw [h.visible, hs] }

theorem trans_nowhere (h₁ : Declares t t' ds opened nowhere)
    (h₂ : Declares t' t'' es opened' nowhere) :
    Declares t t'' (ds ++ es) (opened ++ opened') nowhere :=
  (h₁.trans h₂).congr rfl rfl fun _ _ => or_self_iff

theorem trans_nothing (h₁ : Declares t t' ds opened shown) (h₂ : Declares t' t'' [] [] nowhere) :
    Declares t t'' ds opened shown :=
  (h₁.trans h₂).congr (List.append_nil _) (List.append_nil _) fun _ _ => or_iff_left id

theorem setContract (h : Declares t t' ds opened shown) (id : SymbolId) :
    Declares (t.setContract id) (t'.setContract id) ds opened shown := { h with contract := rfl }

theorem refl (t : Table) : Declares t t [] [] nowhere := by
  constructor <;> simp [listed, numbered, nowhere]

theorem old (h : Declares t t' ds opened shown) {i : Nat} (hi : i < t.symbols.length) :
    t'.outlines[i]? = t.outlines[i]? := by
  rw [h.outlines, List.getElem?_append_left (by rw [length_outlines]; exact hi)]

theorem new (h : Declares t t' ds opened shown) (i : Nat) :
    t'.outlines[t.symbols.length + i]? = ds[i]?.map (·.symbol) := by
  rw [h.outlines, ← t.length_outlines, List.getElem?_append_right (Nat.le_add_right ..),
    Nat.add_sub_cancel_left, List.getElem?_map]

theorem holds (h : Declares t t' ds opened shown) {id : SymbolId} (hid : t.Holds id) :
    t'.Holds id := by
  have hlen := h.length
  unfold Holds at hid ⊢
  omega

end Declares

/-- What sort of thing a symbol is, if the table holds it. -/
def sort? (t : Table) (id : SymbolId) : Option SymbolKind := (t.kind? id).map SymbolKind.outline

theorem sort?_eq (t : Table) (id : SymbolId) :
    t.sort? id = t.outlines[id.index]?.map (·.kind) := by
  rw [getElem?_outlines, sort?, kind?, Option.map_map, Option.map_map]
  rfl

theorem isValue_outline (k : SymbolKind) : k.outline.isValue = k.isValue := by
  cases k <;> rfl

theorem isLocal_outline (k : SymbolKind) : k.outline.isLocal = k.isLocal := by
  cases k <;> rfl

theorem any_isValue {t : Table} {id : SymbolId} {k : SymbolKind} (h : t.sort? id = some k) :
    (t.kind? id).any (·.isValue) = k.isValue := by
  obtain ⟨k', hk, rfl⟩ := Option.map_eq_some_iff.1 h
  rw [hk, isValue_outline]
  rfl

theorem any_isLocal {t : Table} {id : SymbolId} {k : SymbolKind} (h : t.sort? id = some k) :
    (t.kind? id).any (·.isLocal) = k.isLocal := by
  obtain ⟨k', hk, rfl⟩ := Option.map_eq_some_iff.1 h
  rw [hk, isLocal_outline]
  rfl

theorem shownName_eq (t : Table) (id : SymbolId) :
    t.shownName id = (t.outlines[id.index]?.map (·.name)).getD "" := by
  rw [getElem?_outlines, shownName, Option.map_map]
  rfl

theorem holds_of_sort {t : Table} {id : SymbolId} {k : SymbolKind} (h : t.sort? id = some k) :
    t.Holds id := by
  obtain ⟨k', hk, -⟩ := Option.map_eq_some_iff.1 h
  exact holds_iff_kind?.2 ⟨k', hk⟩

namespace Declares
variable {t t' : Table} {ds : List Decl} {opened : List Scope} {shown : SymbolId → NodeId → Prop}

theorem sort_old (h : Declares t t' ds opened shown) {id : SymbolId} {k : SymbolKind}
    (hs : t.sort? id = some k) : t'.sort? id = some k := by
  rw [sort?_eq, h.old (holds_of_sort hs), ← sort?_eq, hs]

theorem sort_new (h : Declares t t' ds opened shown) {i : Nat} {d : Decl} (hi : ds[i]? = some d) :
    t'.sort? ⟨t.symbols.length + i⟩ = some d.symbol.kind := by
  rw [sort?_eq, h.new, hi]
  rfl

/-- A new symbol is as it was declared but for what came to be known of it later. -/
theorem symbol_new (h : Declares t t' ds opened shown) {d : Decl} {id : SymbolId}
    (hd : (d, id) ∈ numbered t.symbols.length ds) :
    ∃ k, t'.symbol id = .ok ⟨d.symbol.name, d.symbol.scope, d.symbol.span, k⟩ ∧
      k.outline = d.symbol.kind := by
  obtain ⟨i, hi, rfl⟩ := mem_numbered.1 hd
  have hnew := h.new i
  rw [hi, getElem?_outlines] at hnew
  obtain ⟨s, hs, he⟩ := Option.map_eq_some_iff.1 hnew
  have he : d.symbol = s.outline := he.symm
  rw [he]
  exact ⟨s.kind, symbol_eq_ok.2 hs, rfl⟩

theorem name_old (h : Declares t t' ds opened shown) {id : SymbolId} (hid : t.Holds id) :
    t'.shownName id = t.shownName id := by
  rw [shownName_eq, shownName_eq, h.old hid]

theorem name_new (h : Declares t t' ds opened shown) {i : Nat} {d : Decl} (hi : ds[i]? = some d) :
    t'.shownName ⟨t.symbols.length + i⟩ = d.symbol.name := by
  rw [shownName_eq, h.new, hi]
  rfl

theorem names_old (h : Declares t t' ds opened shown) {ids : List SymbolId}
    (hids : ∀ id ∈ ids, t.Holds id) : ids.map t'.shownName = ids.map t.shownName :=
  List.map_congr_left fun id hid => h.name_old (hids id hid)

theorem declaredBy (h : Declares t t' ds opened shown) (hn : (ds.map (·.node)).Nodup) {d : Decl}
    {id : SymbolId} (hd : (d, id) ∈ numbered t.symbols.length ds) :
    t'.declaredBy? d.node = some id ∧ t'.sort? id = some d.symbol.kind := by
  have hmem : (d.node, id) ∈ (numbered t.symbols.length ds).map fun p => (p.1.node, p.2) :=
    List.mem_map_of_mem (f := fun p : Decl × SymbolId => (p.1.node, p.2)) hd
  constructor
  · rw [declaredBy?, h.declared]
    refine Assoc.get?_insertAll_of_mem ?_ hmem
    rw [nodes_numbered]
    exact hn
  · obtain ⟨i, hi, rfl⟩ := mem_numbered.1 hd
    exact h.sort_new hi

end Declares

/-! ### The operations -/

variable {t : Table}

theorem outline_modify (scopes : List Scope) (i : Nat) {f : Scope → Scope}
    (hf : ∀ s, (f s).outline = s.outline) :
    (scopes.modify i f).map Scope.outline = scopes.map Scope.outline := by
  refine List.ext_getElem? fun j => ?_
  simp only [List.getElem?_map, List.getElem?_modify, Option.map_eq_map, Option.map_map]
  congr 1
  funext s
  by_cases h : i = j <;> simp [h, hf]

theorem entries_of_le {scope : ScopeId} (h : t.scopes.length ≤ scope.index) :
    t.entries scope = [] := by
  rw [entries, List.getElem?_eq_none h]
  rfl

theorem entries_place (s : Symbol) (hs : t.HoldsScope s.scope) (scope : ScopeId) :
    (t.place s).entries scope =
      t.entries scope ++ if s.scope = scope then [(s.name, ⟨t.symbols.length⟩)] else [] := by
  unfold entries place
  simp only [List.getElem?_modify, Option.map_eq_map]
  by_cases h : s.scope = scope
  · subst h
    have hget : t.scopes[s.scope.index]? = some _ := List.getElem?_eq_getElem hs
    simp [hget, Scope.add]
  · have hne : s.scope.index ≠ scope.index := fun he => h (congrArg ScopeId.mk he)
    simp [h, hne]

theorem visibleIn_of_kind {id : SymbolId} {k : SymbolKind} (h : t.kind? id = some k) :
    t.visibleIn id = k.visibility := by
  rw [visibleIn, h]
  rfl

/-- Entering a symbol leaves what every other one is. -/
theorem kind?_enter_cases (t : Table) (node : Node) (name : String) (scope : ScopeId)
    (kind : SymbolKind) (id : SymbolId) :
    (t.kind? id = none ∧ (t.enter node name scope kind).kind? id = some kind) ∨
      (t.enter node name scope kind).kind? id = t.kind? id := by
  have hkind : (t.enter node name scope kind).kind? id =
      if id.index = t.symbols.length then some kind else t.kind? id :=
    kind?_place t ⟨name, scope, node.span, kind⟩ id
  by_cases hid : id.index = t.symbols.length
  · refine .inl ⟨?_, hkind.trans (if_pos hid)⟩
    rw [kind?, hid, List.getElem?_eq_none (Nat.le_refl _)]
    rfl
  · exact .inr (hkind.trans (if_neg hid))

theorem ownerOf?_enter (t : Table) (node : Node) (name : String) (scope : ScopeId)
    (kind : SymbolKind) (i : ScopeId) : (t.enter node name scope kind).ownerOf? i = t.ownerOf? i := by
  simp only [ownerOf?, enter, place, noteDeclaration, List.getElem?_modify, Option.map_eq_map,
    Option.bind_map]
  congr 1
  funext s
  by_cases h : scope.index = i.index <;> simp [h, Scope.add]

theorem declares_enter {scope : ScopeId} (hs : t.HoldsScope scope) (kind : SymbolKind)
    (ho : kind.outline = kind) (hv : kind.visibility = []) (hy : kind.valueType? = none)
    (hi : ∀ inner ∈ kind.inner?, t.ownerOf? inner = some ⟨t.symbols.length⟩) (node : Node)
    (name : String) :
    t.Declares (t.enter node name scope kind) [⟨node.id, ⟨name, scope, node.span, kind⟩⟩] []
      nowhere where
  outlines := by simp [enter, place, noteDeclaration, outlines, Symbol.outline, ho]
  scopes := by
    rw [List.append_nil]
    exact outline_modify _ _ fun _ => rfl
  entries i := by
    refine (entries_place ⟨name, scope, node.span, kind⟩ hs i).trans ?_
    by_cases h : scope = i <;> simp [listed, numbered, h]
  names n := by simp [enter, place, noteDeclaration, mem_mention, eq_comm]
  declared := rfl
  nodes := rfl
  owners i _ := ownerOf?_enter ..
  owned d id hd inner hinner := by
    obtain ⟨rfl, rfl⟩ : d = ⟨node.id, ⟨name, scope, node.span, kind⟩⟩ ∧ id = ⟨t.symbols.length⟩ := by
      simpa [numbered] using hd
    exact (ownerOf?_enter ..).trans (hi inner hinner)
  values id := by
    rcases kind?_enter_cases t node name scope kind id with ⟨hnone, hkind⟩ | hkind
    · simp [valueType, hkind, hnone, hy]
    · rw [valueType, hkind, valueType]
  visible id stmt := by
    rcases kind?_enter_cases t node name scope kind id with ⟨hnone, hkind⟩ | hkind
    · simp [visibleIn, hkind, hv, hnone, nowhere]
    · simp [visibleIn, hkind, nowhere]
  contract := rfl
  bindings := rfl
  types := rfl

/-- The table with one more scope, whose owner is known. -/
def openScope (t : Table) (kind : ScopeKind) (parent : Option ScopeId) (owner : SymbolId) : Table :=
  { t with scopes := t.scopes ++ [⟨kind, some owner, parent, []⟩] }

theorem declares_openScope (kind : ScopeKind) (parent : Option ScopeId) (owner : SymbolId) :
    t.Declares (t.openScope kind parent owner) [] [.new kind parent] nowhere where
  outlines := by simp [openScope, outlines]
  scopes := by simp [openScope, scopeOutlines, Scope.outline, Scope.new]
  entries i := by
    simp only [entries, openScope, List.getElem?_append]
    split
    · simp [listed, numbered]
    · rename_i hlt
      rw [List.getElem?_eq_none (Nat.not_lt.1 hlt), List.getElem?_singleton]
      split <;> simp [listed, numbered]
  names n := by simp [openScope]
  declared := rfl
  nodes := rfl
  owners i hi := by rw [ownerOf?, openScope, List.getElem?_append_left hi, ownerOf?]
  owned := by simp [numbered]
  values _ := rfl
  visible id stmt := by simp [nowhere, visibleIn, kind?, openScope]
  contract := rfl
  bindings := rfl
  types := rfl

/-- It makes no difference whether the owner of a new scope is known before its symbol is entered. -/
theorem setOwner_enter (t : Table) (scopeKind : ScopeKind) (parent : Option ScopeId)
    (owner : SymbolId) (node : Node) (name : String) (scope : ScopeId) (kind : SymbolKind) :
    { (t.addScope scopeKind parent).2.enter node name scope kind with
      scopes := ((t.addScope scopeKind parent).2.enter node name scope kind).scopes.modify
        t.scopes.length fun s => { s with owner := some owner } } =
    (t.openScope scopeKind parent owner).enter node name scope kind := by
  simp only [enter, place, noteDeclaration, addScope, openScope, Table.mk.injEq, true_and, and_true]
  refine List.ext_getElem? fun j => ?_
  simp only [List.getElem?_modify, List.getElem?_append, List.getElem?_singleton]
  rcases Nat.lt_trichotomy j t.scopes.length with hlt | rfl | hgt
  · simp [hlt, Nat.ne_of_gt hlt]
  · by_cases h : scope.index = t.scopes.length <;> simp [h, Scope.new, Scope.add]
  · have hpos : j - t.scopes.length ≠ 0 := by omega
    simp [Nat.not_lt.2 (Nat.le_of_lt hgt), Nat.ne_of_lt hgt, hpos]

theorem outlines_amend (id : SymbolId) {f : SymbolKind → SymbolKind}
    (hf : ∀ k, t.kind? id = some k → (f k).outline = k.outline) :
    (t.amend id f).outlines = t.outlines := by
  refine List.ext_getElem? fun j => ?_
  simp only [outlines, amend, List.getElem?_map, List.getElem?_modify, Option.map_eq_map]
  cases hs : t.symbols[j]? with
  | none => rfl
  | some s =>
    by_cases h : id.index = j
    · have hk : t.kind? id = some s.kind := by rw [kind?, h, hs]; rfl
      simp [h, Symbol.outline, hf s.kind hk]
    · simp [h]

theorem valueType_amend (id : SymbolId) {f : SymbolKind → SymbolKind}
    (hf : ∀ k, t.kind? id = some k → (f k).valueType? = k.valueType?) (j : SymbolId) :
    (t.amend id f).valueType j = t.valueType j := by
  rw [valueType, kind?_amend, valueType]
  cases hk : t.kind? j with
  | none => rfl
  | some k =>
    by_cases h : id = j
    · subst h
      simp [hf k hk]
    · simp [h]

theorem declares_amend (id : SymbolId) {f : SymbolKind → SymbolKind}
    (hf : ∀ k, t.kind? id = some k → (f k).outline = k.outline ∧ (f k).visibility = k.visibility ∧
      (f k).valueType? = k.valueType?) :
    t.Declares (t.amend id f) [] [] nowhere where
  outlines := by
    rw [outlines_amend id fun k hk => (hf k hk).1]
    simp
  scopes := by simp [amend, scopeOutlines]
  entries i := by simp [entries, amend, listed, numbered]
  names n := by simp [amend]
  declared := rfl
  nodes := rfl
  owners _ _ := rfl
  owned := by simp [numbered]
  values := valueType_amend id fun k hk => (hf k hk).2.2
  visible j stmt := by
    simp only [visibleIn, kind?_amend, nowhere, or_false]
    cases hk : t.kind? j with
    | none => simp
    | some k =>
      by_cases h : id = j
      · subst h
        simp [(hf k hk).2.1]
      · simp [h]
  contract := rfl
  bindings := rfl
  types := rfl

theorem declares_show {id : SymbolId} {type : Option SymbolId} {seen : List NodeId}
    (hk : t.kind? id = some (.localVar type seen)) (stmt : NodeId) :
    t.Declares (t.amend id (·.addVisibility stmt)) [] [] fun i s => i = id ∧ s = stmt where
  outlines := by
    rw [outlines_amend id fun k hk' => by cases hk.symm.trans hk'; rfl]
    simp
  scopes := by simp [amend, scopeOutlines]
  entries i := by simp [entries, amend, listed, numbered]
  names n := by simp [amend]
  declared := rfl
  nodes := rfl
  owners _ _ := rfl
  owned := by simp [numbered]
  values := valueType_amend id fun k hk' => by
    cases hk.symm.trans hk'
    rfl
  visible j s := by
    simp only [visibleIn, kind?_amend]
    by_cases h : id = j
    · subst h
      simp only [hk, Option.map_some, if_true, Option.getD_some, SymbolKind.addVisibility,
        SymbolKind.visibility, true_and]
      split
      · rename_i hmem
        constructor
        · exact Or.inl
        · rintro (hs | rfl)
          · exact hs
          · exact hmem
      · simp
    · have hne : j ≠ id := fun he => h he.symm
      cases t.kind? j <;> simp [h, hne]
  contract := rfl
  bindings := rfl
  types := rfl

end Table
end ContractLang
