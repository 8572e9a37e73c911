import ContractLang.Proofs.Steps
/-!
Tables in which every reference leads somewhere. `Table.Valid` collects what holds of every table
that an analysis can reach, `Table.Grows` how such a table can change, and each operation that
changes a table is shown to keep the one and respect the other.
-/
namespace ContractLang
namespace Table

/-- What a symbol is, if the table holds it. -/
def kind? (t : Table) (id : SymbolId) : Option SymbolKind := t.symbols[id.index]?.map (·.kind)

theorem kindOf_eq_ok {t : Table} {id : SymbolId} {k : SymbolKind} :
    t.kindOf id = .ok k ↔ t.kind? id = some k := by
  unfold kindOf symbol kind?
  cases t.symbols[id.index]? <;> simp [Except.map]

def Holds (t : Table) (id : SymbolId) : Prop := id.index < t.symbols.length

def HoldsScope (t : Table) (id : ScopeId) : Prop := id.index < t.scopes.length

theorem holds_iff_kind? {t : Table} {id : SymbolId} : t.Holds id ↔ ∃ k, t.kind? id = some k := by
  unfold Holds kind?
  constructor
  · intro h
    exact ⟨_, by rw [List.getElem?_eq_getElem h, Option.map_some]⟩
  · rintro ⟨k, hk⟩
    obtain ⟨s, hs, -⟩ := Option.map_eq_some_iff.1 hk
    exact (List.getElem?_eq_some_iff.1 hs).1

/-- A symbol of the program, not one of the ten built-in ones. -/
def Own (t : Table) (id : SymbolId) : Prop := 10 ≤ id.index ∧ t.Holds id

/-- A type that can be written: the two internal types have no name. -/
def Denotable (t : Table) (id : SymbolId) : Prop := t.Holds id ∧ id ≠ .null ∧ id ≠ .void

theorem Own.denotable {t : Table} {id : SymbolId} (h : t.Own id) : t.Denotable id := by
  refine ⟨h.2, ?_, ?_⟩ <;> rintro rfl <;> exact absurd h.1 (by decide)

end Table

def ContractRecord.members (c : ContractRecord) : List SymbolId :=
  c.fields ++ c.structs ++ c.ctor.toList ++ c.functions

namespace ContractRecord
variable {c : ContractRecord} {id j : SymbolId}

theorem mem_members_addField (h : j ∈ (c.addField id).members) : j ∈ c.members ∨ j = id := by
  simp only [members, addField, List.mem_append, List.mem_singleton] at h ⊢
  grind

theorem mem_members_addStruct (h : j ∈ (c.addStruct id).members) : j ∈ c.members ∨ j = id := by
  simp only [members, addStruct, List.mem_append, List.mem_singleton] at h ⊢
  grind

theorem mem_members_addCallable {isConstructor : Bool}
    (h : j ∈ (c.addCallable isConstructor id).members) : j ∈ c.members ∨ j = id := by
  cases isConstructor with
  | true =>
    simp only [members, addCallable, ite_true, List.mem_append, Option.toList_some,
      List.mem_singleton] at h ⊢
    grind
  | false =>
    simp only [members, addCallable, Bool.false_eq_true, ite_false, List.mem_append,
      List.mem_singleton] at h ⊢
    grind

theorem inner_addCallable (c : ContractRecord) (isConstructor : Bool) (id : SymbolId) :
    (c.addCallable isConstructor id).inner = c.inner := by
  cases isConstructor <;> rfl

end ContractRecord

/-- Everything that a symbol refers to is in the table, and no value is of the void type. -/
def SymbolKind.ValidIn (t : Table) : SymbolKind → Prop
  | basic _ => True
  | struct inner fields => t.HoldsScope inner ∧ ∀ id ∈ fields, t.Holds id
  | array element => t.Denotable element
  | map key value => t.Denotable key ∧ t.Denotable value
  | contract info => t.HoldsScope info.inner ∧ ∀ id ∈ info.members, t.Holds id
  | field type | parameter type | localVar type _ => ∀ id ∈ type, t.Denotable id
  | constant type => t.Holds type ∧ type ≠ .void
  | function info => t.HoldsScope info.inner ∧ (∀ id ∈ info.returns, t.Denotable id) ∧
      (∀ id ∈ info.params, ∃ type, t.kind? id = some (.parameter type)) ∧
      ∀ id ∈ info.locals, t.Holds id

/-- An array or a map type. -/
def SymbolKind.IsStructural : SymbolKind → Prop
  | array _ | map _ _ => True
  | _ => False

theorem SymbolKind.isStructural_iff (k : SymbolKind) :
    k.IsStructural ↔ k.noun = "array type" ∨ k.noun = "map type" := by
  cases k <;> simp [IsStructural, noun]

/-- The map type with these components. -/
def SymbolKind.mapOf (e : SymbolId × SymbolId) : SymbolKind := .map e.1 e.2

/-- A change of kinds that leaves array and map types as they are. -/
def SymbolKind.SparesTypes (f : SymbolKind → SymbolKind) : Prop :=
  (∀ e, f (array e) = array e) ∧ ∀ k v, f (map k v) = map k v

theorem SymbolKind.SparesTypes.eq_self {f : SymbolKind → SymbolKind} (h : SparesTypes f)
    {k : SymbolKind} (hk : k.IsStructural) : f k = k := by
  cases k with
  | array e => exact h.1 e
  | map k v => exact h.2 k v
  | _ => cases hk

namespace Table

/-- A declaration as scopes hold them: its name is known, and its symbol is one that was declared
and not made from other types. -/
def Listed (t : Table) (d : String × SymbolId) : Prop :=
  d.1 ∈ t.names ∧ t.Denotable d.2 ∧ ∀ k, t.kind? d.2 = some k → ¬k.IsStructural

/-- No map of the table holds a key twice. -/
structure Keyed (t : Table) : Prop where
  arrays : t.arrays.Keyed
  maps : t.maps.Keyed
  declared : t.declared.Keyed
  nodes : t.nodes.Keyed
  bindings : t.bindings.Keyed
  types : t.types.Keyed

/-- The symbols of one form are found by their components. -/
def Finds {κ : Type} [DecidableEq κ] (t : Table) (m : Assoc κ SymbolId) (kind : κ → SymbolKind) :
    Prop := ∀ e id, m.get? e = some id ↔ t.kind? id = some (kind e)

structure Valid (t : Table) : Prop where
  builtins : ∀ i < 10, t.symbols[i]? = initial.symbols[i]?
  global : t.HoldsScope .global
  symbols : ∀ (i : Nat) (s : Symbol), t.symbols[i]? = some s → t.HoldsScope s.scope ∧ s.kind.ValidIn t
  parents : ∀ (i : Nat) (s : Scope), t.scopes[i]? = some s → ∀ p ∈ s.parent, p.index < i
  owners : ∀ (i : Nat) (s : Scope), t.scopes[i]? = some s → ∀ id ∈ s.owner, t.Holds id
  declarations : ∀ (i : Nat) (s : Scope), t.scopes[i]? = some s → ∀ d ∈ s.declarations, t.Listed d
  contract : ∀ id ∈ t.contract, t.Own id
  arrays : t.Finds t.arrays .array
  maps : t.Finds t.maps .mapOf
  declared : ∀ n id, t.declared.get? n = some id → t.Own id
  nodes : ∀ id n, t.nodes.get? id = some n → t.Holds id
  bindings : ∀ n id, t.bindings.get? n = some id → t.Holds id
  types : ∀ n id, t.types.get? n = some id → t.Holds id
  keyed : t.Keyed

theorem plain_initial {id : SymbolId} {k : SymbolKind} (h : initial.kind? id = some k) :
    ¬k.IsStructural := by
  obtain ⟨s, hs, rfl⟩ := Option.map_eq_some_iff.1 h
  have hall : ∀ s ∈ initial.symbols, ¬s.kind.IsStructural := by
    simp [initial, builtins, SymbolKind.IsStructural]
  exact hall s (List.mem_of_getElem? hs)

theorem listed_initial : ∀ d ∈ initial.scopes.flatMap (·.declarations), initial.Listed d := by
  have hden : ∀ d ∈ initial.scopes.flatMap (·.declarations),
      d.1 ∈ initial.names ∧ initial.Denotable d.2 := by
    simp [initial, builtins, List.zipIdx, Denotable, Holds, SymbolId.null, SymbolId.void, mention]
  intro d hd
  exact ⟨(hden d hd).1, (hden d hd).2, fun _ hk => plain_initial hk⟩

theorem valid_initial : initial.Valid where
  builtins _ _ := rfl
  global := Nat.zero_lt_one
  symbols := by
    have h : ∀ s ∈ initial.symbols, initial.HoldsScope s.scope ∧ s.kind.ValidIn initial := by
      simp [initial, builtins, HoldsScope, SymbolKind.ValidIn, ScopeId.global, Denotable, Holds,
        SymbolId.bool, SymbolId.null, SymbolId.int, SymbolId.void]
    intro i s hs
    exact h s (List.mem_of_getElem? hs)
  parents i s hs p hp := by
    cases i with
    | zero => cases hs; cases hp
    | succ i => cases hs
  owners i s hs id hid := by
    cases i with
    | zero => cases hs; cases hid
    | succ i => cases hs
  declarations i s hs := by
    cases i with
    | zero =>
      cases hs
      exact listed_initial
    | succ i => cases hs
  contract _ h := by cases h
  arrays e id := by
    constructor
    · intro h
      cases h
    · intro h
      exact absurd trivial (plain_initial h)
  maps e id := by
    constructor
    · intro h
      cases h
    · intro h
      exact absurd trivial (plain_initial h)
  declared _ _ h := by cases h
  nodes _ _ h := by cases h
  bindings _ _ h := by cases h
  types _ _ h := by cases h
  keyed := ⟨Assoc.keyed_empty, Assoc.keyed_empty, Assoc.keyed_empty, Assoc.keyed_empty,
    Assoc.keyed_empty, Assoc.keyed_empty⟩

theorem Valid.ten_le {t : Table} (h : t.Valid) : 10 ≤ t.symbols.length := by
  have h9 : t.symbols[9]? = initial.symbols[9]? := h.builtins 9 (by decide)
  have : 9 < t.symbols.length := (List.getElem?_eq_some_iff.1 (h9.trans rfl)).1
  omega

theorem Valid.holds {t : Table} (h : t.Valid) {i : Nat} (hi : i < 10) : t.Holds ⟨i⟩ := by
  exact Nat.lt_of_lt_of_le hi h.ten_le

theorem Valid.kind {t : Table} (h : t.Valid) {id : SymbolId} {k : SymbolKind}
    (hk : t.kind? id = some k) : k.ValidIn t := by
  obtain ⟨s, hs, rfl⟩ := Option.map_eq_some_iff.1 hk
  exact (h.symbols _ s hs).2

theorem Valid.kind?_builtin {t : Table} (h : t.Valid) {id : SymbolId} (hid : id.index < 10) :
    t.kind? id = initial.kind? id := by
  rw [kind?, kind?, h.builtins _ hid]

/-- A structural type is none of the built-in symbols. -/
theorem Valid.own_of_structural {t : Table} (h : t.Valid) {id : SymbolId} {k : SymbolKind}
    (hk : t.kind? id = some k) (hs : k.IsStructural) : t.Own id := by
  refine ⟨?_, holds_iff_kind?.2 ⟨k, hk⟩⟩
  apply Nat.not_lt.1
  intro hlt
  rw [h.kind?_builtin hlt] at hk
  exact plain_initial hk hs

/-! ### Growth -/

/-- Nothing goes away, and a symbol stays what sort of thing it is. -/
structure Grows (t t' : Table) : Prop where
  kinds : ∀ id k, t.kind? id = some k → ∃ k', t'.kind? id = some k' ∧ k'.noun = k.noun
  scopes : t.scopes.length ≤ t'.scopes.length
  names : t.names ⊆ t'.names

namespace Grows
variable {t t' t'' : Table}

theorem refl (t : Table) : t.Grows t :=
  ⟨fun _ k h => ⟨k, h, rfl⟩, Nat.le_refl _, List.Subset.refl _⟩

theorem trans (h₁ : t.Grows t') (h₂ : t'.Grows t'') : t.Grows t'' where
  kinds id k hk := by
    obtain ⟨k', hk', hn'⟩ := h₁.kinds id k hk
    obtain ⟨k'', hk'', hn''⟩ := h₂.kinds id k' hk'
    exact ⟨k'', hk'', hn''.trans hn'⟩
  scopes := Nat.le_trans h₁.scopes h₂.scopes
  names := List.Subset.trans h₁.names h₂.names

theorem holds (h : t.Grows t') {id : SymbolId} (hid : t.Holds id) : t'.Holds id := by
  obtain ⟨k, hk⟩ := holds_iff_kind?.1 hid
  obtain ⟨k', hk', -⟩ := h.kinds id k hk
  exact holds_iff_kind?.2 ⟨k', hk'⟩

theorem holdsScope (h : t.Grows t') {id : ScopeId} (hid : t.HoldsScope id) : t'.HoldsScope id :=
  Nat.lt_of_lt_of_le hid h.scopes

theorem own (h : t.Grows t') {id : SymbolId} (hid : t.Own id) : t'.Own id := ⟨hid.1, h.holds hid.2⟩

theorem denotable (h : t.Grows t') {id : SymbolId} (hid : t.Denotable id) : t'.Denotable id :=
  ⟨h.holds hid.1, hid.2⟩

theorem listed (h : t.Grows t') {d : String × SymbolId} (hd : t.Listed d) : t'.Listed d := by
  obtain ⟨hname, hden, hplain⟩ := hd
  refine ⟨h.names hname, h.denotable hden, ?_⟩
  intro k' hk' hs
  obtain ⟨k, hk⟩ := holds_iff_kind?.1 hden.1
  obtain ⟨k'', hk'', hn⟩ := h.kinds d.2 k hk
  cases hk'.symm.trans hk''
  rw [SymbolKind.isStructural_iff, hn, ← SymbolKind.isStructural_iff] at hs
  exact hplain k hk hs

theorem parameter (h : t.Grows t') {id : SymbolId}
    (hid : ∃ type, t.kind? id = some (.parameter type)) :
    ∃ type, t'.kind? id = some (.parameter type) := by
  obtain ⟨type, hk⟩ := hid
  obtain ⟨k', hk', hn⟩ := h.kinds id _ hk
  cases k' with
  | parameter type' => exact ⟨type', hk'⟩
  | _ => exact absurd hn (by simp [SymbolKind.noun])

theorem validIn (h : t.Grows t') {k : SymbolKind} (hk : k.ValidIn t) : k.ValidIn t' := by
  cases k with
  | basic type => trivial
  | struct inner fields => exact ⟨h.holdsScope hk.1, fun id hid => h.holds (hk.2 id hid)⟩
  | array element => exact h.denotable hk
  | map key value => exact ⟨h.denotable hk.1, h.denotable hk.2⟩
  | contract info => exact ⟨h.holdsScope hk.1, fun id hid => h.holds (hk.2 id hid)⟩
  | field type => exact fun id hid => h.denotable (hk id hid)
  | constant type => exact ⟨h.holds hk.1, hk.2⟩
  | function info =>
    obtain ⟨hi, hr, hp, hl⟩ := hk
    exact ⟨h.holdsScope hi, fun id hid => h.denotable (hr id hid),
      fun id hid => h.parameter (hp id hid), fun id hid => h.holds (hl id hid)⟩
  | parameter type => exact fun id hid => h.denotable (hk id hid)
  | localVar type visibility => exact fun id hid => h.denotable (hk id hid)

end Grows

/-! ### Symbols -/

/-- The table with one more symbol, which the symbol's scope declares. -/
def place (t : Table) (s : Symbol) : Table :=
  { t with names := mention t.names s.name, symbols := t.symbols ++ [s],
           scopes := t.scopes.modify s.scope.index (·.add s.name ⟨t.symbols.length⟩) }

/-- The table in which a symbol has become something else. -/
def amend (t : Table) (id : SymbolId) (f : SymbolKind → SymbolKind) : Table :=
  { t with symbols := t.symbols.modify id.index fun s => { s with kind := f s.kind } }

theorem declare_eq_ok {t t' : Table} {scope : ScopeId} {name : String} {span : Span}
    {kind : SymbolKind} {id : SymbolId} :
    t.declare scope name span kind = .ok (id, t') ↔
      t.HoldsScope scope ∧ id = ⟨t.symbols.length⟩ ∧ t' = t.place ⟨name, scope, span, kind⟩ := by
  unfold declare updateScope addSymbol HoldsScope place
  by_cases h : scope.index < t.scopes.length
  · simp [h, bind, Except.bind, pure, Except.pure, eq_comm]
  · simp [h, bind, Except.bind]

theorem updateKind_eq_ok {t t' : Table} {id : SymbolId} {f : SymbolKind → SymbolKind} :
    t.updateKind id f = .ok t' ↔ t.Holds id ∧ t' = t.amend id f := by
  unfold updateKind Holds amend
  by_cases h : id.index < t.symbols.length <;> simp [h, eq_comm]

theorem kind?_of_le {t : Table} {id : SymbolId} (h : t.symbols.length ≤ id.index) :
    t.kind? id = none := by
  rw [kind?, List.getElem?_eq_none h]
  rfl

theorem kind?_addSymbol (t : Table) (s : Symbol) (id : SymbolId) :
    (t.addSymbol s).2.kind? id =
      if id.index = t.symbols.length then some s.kind else t.kind? id := by
  simp only [kind?, addSymbol]
  rcases Nat.lt_trichotomy id.index t.symbols.length with hlt | heq | hgt
  · rw [List.getElem?_append_left hlt, if_neg (Nat.ne_of_lt hlt)]
  · simp [heq]
  · rw [if_neg (Nat.ne_of_gt hgt), List.getElem?_eq_none (by simp; omega),
      List.getElem?_eq_none (by omega)]

theorem kind?_place (t : Table) (s : Symbol) (id : SymbolId) :
    (t.place s).kind? id = if id.index = t.symbols.length then some s.kind else t.kind? id :=
  kind?_addSymbol t s id

theorem kind?_amend (t : Table) (id j : SymbolId) (f : SymbolKind → SymbolKind) :
    (t.amend id f).kind? j = (t.kind? j).map fun k => if id = j then f k else k := by
  unfold kind? amend
  simp only [List.getElem?_modify, Option.map_eq_map, Option.map_map]
  congr 1
  funext s
  by_cases h : id = j
  · subst h
    simp
  · have hne : id.index ≠ j.index := fun he => h (congrArg SymbolId.mk he)
    simp [h, hne]

theorem grows_addSymbol (t : Table) (s : Symbol) : t.Grows (t.addSymbol s).2 where
  kinds id k hk := by
    have hlt : id.index < t.symbols.length := holds_iff_kind?.2 ⟨k, hk⟩
    rw [kind?_addSymbol, if_neg (Nat.ne_of_lt hlt)]
    exact ⟨k, hk, rfl⟩
  scopes := Nat.le_refl _
  names _ hn := mem_mention.2 (.inl hn)

theorem grows_modifyScope (t : Table) (i : Nat) (f : Scope → Scope) :
    t.Grows { t with scopes := t.scopes.modify i f } :=
  ⟨fun _ k hk => ⟨k, hk, rfl⟩, by simp, List.Subset.refl _⟩

theorem grows_place (t : Table) (s : Symbol) : t.Grows (t.place s) :=
  (grows_addSymbol t s).trans (grows_modifyScope (t.addSymbol s).2 s.scope.index _)

theorem grows_amend {t : Table} {id : SymbolId} {f : SymbolKind → SymbolKind}
    (hf : ∀ k, t.kind? id = some k → (f k).noun = k.noun) : t.Grows (t.amend id f) where
  kinds j k hk := by
    rw [kind?_amend, hk, Option.map_some]
    by_cases h : id = j
    · subst h
      exact ⟨f k, by rw [if_pos rfl], hf k hk⟩
    · exact ⟨k, by rw [if_neg h], rfl⟩
  scopes := Nat.le_refl _
  names := List.Subset.refl _

namespace Finds
variable {κ : Type} [DecidableEq κ] {t t' : Table} {m : Assoc κ SymbolId} {kind : κ → SymbolKind}

theorem congr (h : t.Finds m kind)
    (hk : ∀ id e, t'.kind? id = some (kind e) ↔ t.kind? id = some (kind e)) : t'.Finds m kind := by
  intro e id
  rw [hk id e]
  exact h e id

theorem addSymbol (h : t.Finds m kind) {s : Symbol} (hs : ∀ e, s.kind ≠ kind e) :
    (t.addSymbol s).2.Finds m kind := by
  apply h.congr
  intro id e
  rw [kind?_addSymbol]
  split
  · rename_i hid
    rw [kind?_of_le (Nat.le_of_eq hid.symm)]
    simp [hs e]
  · rfl

/-- The symbol of a type that was just made is found by the type's components. -/
theorem insert (h : t.Finds m kind) (hinj : Function.Injective kind) {s : Symbol} {e : κ}
    (hs : s.kind = kind e) (hfresh : m.get? e = none) :
    (t.addSymbol s).2.Finds (m.insert e ⟨t.symbols.length⟩) kind := by
  intro e' id
  rw [Assoc.get?_insert, kind?_addSymbol, hs]
  by_cases hid : id.index = t.symbols.length
  · -- The new symbol is made from `e` and from nothing else.
    have hold : m.get? e' ≠ some id := by
      rw [Ne, h e' id, kind?_of_le (Nat.le_of_eq hid.symm)]
      simp
    have heq : id = ⟨t.symbols.length⟩ := congrArg SymbolId.mk hid
    rw [if_pos hid]
    by_cases he : e = e'
    · simp [he, heq]
    · have hkind : kind e ≠ kind e' := fun hk => he (hinj hk)
      simp [he, hold, hkind]
  · rw [if_neg hid, ← h e' id]
    by_cases he : e = e'
    · have hne : (⟨t.symbols.length⟩ : SymbolId) ≠ id := by
        rintro rfl
        exact hid rfl
      subst he
      simp [hfresh, hne]
    · rw [if_neg he]

end Finds

/-- What a change of one symbol makes of it is a structural type only if it was this one. -/
theorem structural_amend {t : Table} {id : SymbolId} {f : SymbolKind → SymbolKind}
    (hs : SymbolKind.SparesTypes f) (hf : ∀ k, t.kind? id = some k → (f k).noun = k.noun)
    (j : SymbolId) (k : SymbolKind) (hk : k.IsStructural) :
    (t.amend id f).kind? j = some k ↔ t.kind? j = some k := by
  rw [kind?_amend, Option.map_eq_some_iff]
  by_cases hj : id = j
  · subst hj
    simp only [if_true]
    constructor
    · rintro ⟨k₀, hk₀, rfl⟩
      rw [SymbolKind.isStructural_iff, hf k₀ hk₀, ← SymbolKind.isStructural_iff] at hk
      rw [hs.eq_self hk, hk₀]
    · intro h
      exact ⟨k, h, hs.eq_self hk⟩
  · simp [hj]

namespace Valid
variable {t t' : Table}

/-- What only the symbols and scopes of a table decide is all that a change of these has to keep. -/
theorem of_grows (h : t.Valid) (g : t.Grows t')
    (builtins : ∀ i < 10, t'.symbols[i]? = initial.symbols[i]?)
    (symbols : ∀ (i : Nat) (s : Symbol), t'.symbols[i]? = some s →
      t'.HoldsScope s.scope ∧ s.kind.ValidIn t')
    (scopes : ∀ (i : Nat) (s : Scope), t'.scopes[i]? = some s → (∀ p ∈ s.parent, p.index < i) ∧
      (∀ id ∈ s.owner, t'.Holds id) ∧ ∀ d ∈ s.declarations, t'.Listed d)
    (arrays : t'.Finds t'.arrays .array) (maps : t'.Finds t'.maps .mapOf) (keyed : t'.Keyed)
    (contract : t'.contract = t.contract) (declared : t'.declared = t.declared)
    (nodes : t'.nodes = t.nodes) (bindings : t'.bindings = t.bindings)
    (types : t'.types = t.types) : t'.Valid where
  builtins := builtins
  global := g.holdsScope h.global
  symbols := symbols
  parents i s hs := (scopes i s hs).1
  owners i s hs := (scopes i s hs).2.1
  declarations i s hs := (scopes i s hs).2.2
  contract id hid := g.own (h.contract id (contract ▸ hid))
  arrays := arrays
  maps := maps
  declared n id hn := g.own (h.declared n id (declared ▸ hn))
  nodes id n hn := g.holds (h.nodes id n (nodes ▸ hn))
  bindings n id hn := g.holds (h.bindings n id (bindings ▸ hn))
  types n id hn := g.holds (h.types n id (types ▸ hn))
  keyed := keyed

theorem scope_grows (h : t.Valid) (g : t.Grows t') {i : Nat} {s : Scope}
    (hs : t.scopes[i]? = some s) : (∀ p ∈ s.parent, p.index < i) ∧
      (∀ id ∈ s.owner, t'.Holds id) ∧ ∀ d ∈ s.declarations, t'.Listed d :=
  ⟨h.parents i s hs, fun id hid => g.holds (h.owners i s hs id hid),
    fun d hd => g.listed (h.declarations i s hs d hd)⟩

theorem symbol_grows (h : t.Valid) (g : t.Grows t') {i : Nat} {s : Symbol}
    (hs : t.symbols[i]? = some s) : t'.HoldsScope s.scope ∧ s.kind.ValidIn t' :=
  ⟨g.holdsScope (h.symbols i s hs).1, g.validIn (h.symbols i s hs).2⟩

/-- One more symbol. If it is a structural type, the table has to find it by its components. -/
theorem withSymbol (h : t.Valid) {s : Symbol} (hs : t.HoldsScope s.scope) (hk : s.kind.ValidIn t)
    {arrays : Assoc SymbolId SymbolId} {maps : Assoc (SymbolId × SymbolId) SymbolId}
    (ha : (t.addSymbol s).2.Finds arrays .array) (hm : (t.addSymbol s).2.Finds maps .mapOf)
    (hka : arrays.Keyed) (hkm : maps.Keyed) :
    { (t.addSymbol s).2 with arrays := arrays, maps := maps }.Valid := by
  have g : t.Grows { (t.addSymbol s).2 with arrays := arrays, maps := maps } :=
    { grows_addSymbol t s with }
  have hlen := h.ten_le
  refine h.of_grows g ?_ ?_ (fun i s hs => h.scope_grows g hs) ha hm
    { h.keyed with arrays := hka, maps := hkm } rfl rfl rfl rfl rfl
  · intro i hi
    have : (t.symbols ++ [s])[i]? = t.symbols[i]? := List.getElem?_append_left (by omega)
    exact this.trans (h.builtins i hi)
  · intro i s' hs'
    rcases List.mem_append.1 (List.mem_of_getElem? hs') with hm | hm
    · obtain ⟨j, hj⟩ := List.getElem?_of_mem hm
      exact h.symbol_grows g hj
    · rw [List.mem_singleton.1 hm]
      exact ⟨g.holdsScope hs, g.validIn hk⟩

theorem own_addSymbol (h : t.Valid) (s : Symbol) : (t.addSymbol s).2.Own ⟨t.symbols.length⟩ :=
  ⟨h.ten_le, by simp [Holds, Table.addSymbol]⟩

theorem addSymbol (h : t.Valid) {s : Symbol} (hs : t.HoldsScope s.scope)
    (hk : s.kind.ValidIn t) (hp : ¬s.kind.IsStructural) : (t.addSymbol s).2.Valid := by
  have ha : (t.addSymbol s).2.Finds t.arrays .array := by
    apply h.arrays.addSymbol
    intro e he
    exact hp (he ▸ trivial)
  have hm : (t.addSymbol s).2.Finds t.maps .mapOf := by
    apply h.maps.addSymbol
    intro e he
    exact hp (he ▸ trivial)
  exact h.withSymbol hs hk ha hm h.keyed.arrays h.keyed.maps

theorem modifyScope (h : t.Valid) {i : Nat} {f : Scope → Scope}
    (hf : ∀ s, t.scopes[i]? = some s → (f s).parent = s.parent ∧
      (∀ id ∈ (f s).owner, t.Holds id) ∧ ∀ d ∈ (f s).declarations, t.Listed d) :
    { t with scopes := t.scopes.modify i f }.Valid := by
  have g := grows_modifyScope t i f
  refine h.of_grows g h.builtins (fun i s hs => h.symbol_grows g hs) ?_ h.arrays h.maps
    { h.keyed with } rfl rfl rfl rfl rfl
  intro j s hs
  simp only [List.getElem?_modify, Option.map_eq_map, Option.map_eq_some_iff] at hs
  obtain ⟨s₀, hs₀, rfl⟩ := hs
  obtain ⟨hp, ho, hd⟩ := h.scope_grows g hs₀
  by_cases hi : i = j
  · subst hi
    rw [if_pos rfl]
    obtain ⟨hp', ho', hd'⟩ := hf s₀ hs₀
    exact ⟨hp' ▸ hp, fun id hid => g.holds (ho' id hid), fun d hm => g.listed (hd' d hm)⟩
  · rw [if_neg hi]
    exact ⟨hp, ho, hd⟩

theorem place (h : t.Valid) {s : Symbol} (hs : t.HoldsScope s.scope) (hk : s.kind.ValidIn t)
    (hp : ¬s.kind.IsStructural) : (t.place s).Valid := by
  have h' := h.addSymbol hs hk hp
  refine h'.modifyScope fun s₀ hs₀ => ⟨rfl, h'.owners _ s₀ hs₀, fun d hd => ?_⟩
  rcases List.mem_append.1 hd with hd | hd
  · exact h'.declarations _ s₀ hs₀ d hd
  · rw [List.mem_singleton.1 hd]
    refine ⟨mem_mention.2 (.inr rfl), (h.own_addSymbol s).denotable, fun k hk' => ?_⟩
    rw [kind?_addSymbol, if_pos rfl] at hk'
    cases hk'
    exact hp

theorem amend (h : t.Valid) {id : SymbolId} {f : SymbolKind → SymbolKind} (hid : 10 ≤ id.index)
    (hs : SymbolKind.SparesTypes f)
    (hf : ∀ k, t.kind? id = some k → (f k).noun = k.noun ∧ (f k).ValidIn t) :
    (t.amend id f).Valid := by
  have g := grows_amend fun k hk => (hf k hk).1
  have hsame : ∀ j k, k.IsStructural → ((t.amend id f).kind? j = some k ↔ t.kind? j = some k) :=
    structural_amend hs fun k hk => (hf k hk).1
  refine h.of_grows g ?_ ?_ (fun i s hs => h.scope_grows g hs)
    (h.arrays.congr fun j e => hsame j (.array e) trivial)
    (h.maps.congr fun j e => hsame j (.mapOf e) trivial) { h.keyed with } rfl rfl rfl rfl rfl
  · intro i hi
    have : (t.amend id f).symbols[i]? = t.symbols[i]? := List.getElem?_modify_ne _ _ (by omega)
    exact this.trans (h.builtins i hi)
  · intro i s hs
    simp only [Table.amend, List.getElem?_modify, Option.map_eq_map, Option.map_eq_some_iff] at hs
    obtain ⟨s₀, hs₀, rfl⟩ := hs
    obtain ⟨hscope, hkind⟩ := h.symbol_grows g hs₀
    by_cases hi : id.index = i
    · subst hi
      rw [if_pos rfl]
      exact ⟨hscope, g.validIn (hf s₀.kind (by rw [kind?, hs₀, Option.map_some])).2⟩
    · rw [if_neg hi]
      exact ⟨hscope, hkind⟩

end Valid

/-! ### Scopes -/

theorem grows_addScope (t : Table) (kind : ScopeKind) (parent : Option ScopeId) :
    t.Grows (t.addScope kind parent).2 :=
  ⟨fun _ k hk => ⟨k, hk, rfl⟩, by simp [addScope], List.Subset.refl _⟩

theorem updateScope_eq_ok {t t' : Table} {id : ScopeId} {f : Scope → Scope} :
    t.updateScope id f = .ok t' ↔
      t.HoldsScope id ∧ t' = { t with scopes := t.scopes.modify id.index f } := by
  unfold updateScope HoldsScope
  by_cases h : id.index < t.scopes.length <;> simp [h, eq_comm]

namespace Valid
variable {t : Table}

theorem addScope (h : t.Valid) (kind : ScopeKind) {parent : Option ScopeId}
    (hp : ∀ p ∈ parent, t.HoldsScope p) : (t.addScope kind parent).2.Valid := by
  have g := grows_addScope t kind parent
  refine h.of_grows g h.builtins (fun i s hs => h.symbol_grows g hs) ?_ h.arrays h.maps
    { h.keyed with } rfl rfl rfl rfl rfl
  intro i s hs
  by_cases hi : i < t.scopes.length
  · have hold : t.scopes[i]? = some s := (List.getElem?_append_left hi).symm.trans hs
    exact h.scope_grows g hold
  · have hlen : i < (t.scopes ++ [Scope.new kind parent]).length := (List.getElem?_eq_some_iff.1 hs).1
    have hi : i = t.scopes.length := by
      simp only [List.length_append, List.length_singleton] at hlen
      omega
    subst hi
    have hnew : Scope.new kind parent = s := by simpa [Table.addScope] using hs
    subst hnew
    exact ⟨hp, by simp [Scope.new], by simp [Scope.new]⟩

theorem setOwner (h : t.Valid) {id : ScopeId} {owner : SymbolId} (ho : t.Holds owner) :
    { t with scopes := t.scopes.modify id.index fun s => { s with owner := some owner } }.Valid := by
  refine h.modifyScope fun s hs => ⟨rfl, fun j hj => ?_, h.declarations _ s hs⟩
  cases hj
  exact ho

/-! ### Nodes and the contract -/

theorem setContract (h : t.Valid) {id : SymbolId} (hid : t.Own id) : (t.setContract id).Valid :=
  { h with
    contract := fun j hj => by cases hj; exact hid
    keyed := { h.keyed with } }

theorem noteDeclaration (h : t.Valid) {id : SymbolId} (hid : t.Own id) (node : NodeId) :
    (t.noteDeclaration node id).Valid :=
  { h with
    declared := fun n j hn => by
      rw [Table.noteDeclaration, Assoc.get?_insert] at hn
      split at hn
      · cases hn
        exact hid
      · exact h.declared n j hn
    nodes := fun j n hn => by
      rw [Table.noteDeclaration, Assoc.get?_insert] at hn
      split at hn
      · rename_i he
        cases he
        exact hid.2
      · exact h.nodes j n hn
    keyed := { h.keyed with
      declared := h.keyed.declared.insert node id
      nodes := h.keyed.nodes.insert id node } }

end Valid

/-- The table in which a node has a symbol, which its scope declares. -/
def enter (t : Table) (node : Node) (name : String) (scope : ScopeId) (kind : SymbolKind) : Table :=
  (t.place ⟨name, scope, node.span, kind⟩).noteDeclaration node.id ⟨t.symbols.length⟩

theorem grows_enter (t : Table) (node : Node) (name : String) (scope : ScopeId)
    (kind : SymbolKind) : t.Grows (t.enter node name scope kind) :=
  (grows_place t ⟨name, scope, node.span, kind⟩).trans
    ⟨fun _ k hk => ⟨k, hk, rfl⟩, Nat.le_refl _, List.Subset.refl _⟩

theorem kind?_enter_self (t : Table) (node : Node) (name : String) (scope : ScopeId)
    (kind : SymbolKind) : (t.enter node name scope kind).kind? ⟨t.symbols.length⟩ = some kind :=
  (kind?_place t ⟨name, scope, node.span, kind⟩ ⟨t.symbols.length⟩).trans (if_pos rfl)

theorem Valid.own_enter {t : Table} (h : t.Valid) (node : Node) (name : String) (scope : ScopeId)
    (kind : SymbolKind) : (t.enter node name scope kind).Own ⟨t.symbols.length⟩ :=
  h.own_addSymbol ⟨name, scope, node.span, kind⟩

theorem Valid.enter {t : Table} (h : t.Valid) {scope : ScopeId} {kind : SymbolKind}
    (hs : t.HoldsScope scope) (hk : kind.ValidIn t) (hp : ¬kind.IsStructural) (node : Node)
    (name : String) : (t.enter node name scope kind).Valid :=
  (h.place hs hk hp).noteDeclaration (h.own_addSymbol ⟨name, scope, node.span, kind⟩) node.id

end Table
end ContractLang
