import ContractLang.Proofs.Lookup
/-!
Making types. A written type may bring new array and map symbols into the table, at its end and in
no scope; nothing else of the table changes but the lists by which those types are found again.
-/
namespace ContractLang

namespace Table

/-- Only structural types have come in. -/
structure Interns (t t' : Table) : Prop where
  symbols : ∃ new, t'.symbols = t.symbols ++ new ∧ ∀ s ∈ new, s.kind.IsStructural
  scopes : t'.scopes = t.scopes
  names : t.names ⊆ t'.names
  contract : t'.contract = t.contract
  declared : t'.declared = t.declared
  nodes : t'.nodes = t.nodes
  bindings : t'.bindings = t.bindings
  types : t'.types = t.types

namespace Interns
variable {t t' t'' : Table}

theorem refl (t : Table) : t.Interns t :=
  ⟨⟨[], by simp⟩, rfl, List.Subset.refl _, rfl, rfl, rfl, rfl, rfl⟩

theorem trans (h₁ : t.Interns t') (h₂ : t'.Interns t'') : t.Interns t'' where
  symbols := by
    obtain ⟨new₁, e₁, s₁⟩ := h₁.symbols
    obtain ⟨new₂, e₂, s₂⟩ := h₂.symbols
    refine ⟨new₁ ++ new₂, by rw [e₂, e₁, List.append_assoc], fun s hs => ?_⟩
    rcases List.mem_append.1 hs with hs | hs
    · exact s₁ s hs
    · exact s₂ s hs
  scopes := h₂.scopes.trans h₁.scopes
  names := List.Subset.trans h₁.names h₂.names
  contract := h₂.contract.trans h₁.contract
  declared := h₂.declared.trans h₁.declared
  nodes := h₂.nodes.trans h₁.nodes
  bindings := h₂.bindings.trans h₁.bindings
  types := h₂.types.trans h₁.types

theorem symbol (h : t.Interns t') {i : Nat} {s : Symbol} (hs : t.symbols[i]? = some s) :
    t'.symbols[i]? = some s := by
  obtain ⟨new, e, -⟩ := h.symbols
  have hi : i < t.symbols.length := (List.getElem?_eq_some_iff.1 hs).1
  rw [e, List.getElem?_append_left hi, hs]

theorem kind (h : t.Interns t') {id : SymbolId} {k : SymbolKind} (hk : t.kind? id = some k) :
    t'.kind? id = some k := by
  obtain ⟨s, hs, rfl⟩ := Option.map_eq_some_iff.1 hk
  rw [kind?, h.symbol hs, Option.map_some]

theorem grows (h : t.Interns t') : t.Grows t' :=
  ⟨fun _ k hk => ⟨k, h.kind hk, rfl⟩, Nat.le_of_eq (congrArg List.length h.scopes.symm), h.names⟩

end Interns

theorem interns_addSymbol (t : Table) {s : Symbol} (hs : s.kind.IsStructural) :
    t.Interns (t.addSymbol s).2 :=
  ⟨⟨[s], rfl, fun _ h => List.mem_singleton.1 h ▸ hs⟩, rfl,
    fun _ hn => mem_mention.2 (.inl hn), rfl, rfl, rfl, rfl, rfl⟩

variable {t : Table}

theorem exists_arrayOf (h : t.Valid) {element : SymbolId} (he : t.Denotable element) :
    ∃ id t', t.arrayOf element = .ok (id, t') ∧ t'.Valid ∧ t.Interns t' ∧
      t'.kind? id = some (.array element) := by
  cases hfound : t.arrays.get? element with
  | some id =>
    exact ⟨id, t, by rw [arrayOf, hfound], h, .refl t, (h.arrays element id).1 hfound⟩
  | none =>
    obtain ⟨name, hname⟩ := exists_nameOf he.1
    let s : Symbol := ⟨Table.arrayName name, .global, .zero, .array element⟩
    let t' : Table := { (t.addSymbol s).2 with arrays := t.arrays.insert element ⟨t.symbols.length⟩ }
    have hi : t.Interns t' := { t.interns_addSymbol (s := s) trivial with }
    have harrays : (t.addSymbol s).2.Finds t'.arrays .array :=
      h.arrays.insert (fun _ _ he => SymbolKind.array.inj he) rfl hfound
    have hmaps : (t.addSymbol s).2.Finds t.maps .mapOf :=
      h.maps.addSymbol fun _ he => SymbolKind.noConfusion he
    have hv : t'.Valid := h.withSymbol (s := s) h.global he harrays hmaps
      (h.keyed.arrays.insert ..) h.keyed.maps
    refine ⟨⟨t.symbols.length⟩, t', ?_, hv, hi, ?_⟩
    · rw [arrayOf, hfound]
      simp only [hname, bind, Except.bind]
      rfl
    · exact (kind?_addSymbol t s _).trans (if_pos rfl)

theorem exists_mapOf (h : t.Valid) {key value : SymbolId} (hk : t.Denotable key)
    (hval : t.Denotable value) :
    ∃ id t', t.mapOf key value = .ok (id, t') ∧ t'.Valid ∧ t.Interns t' ∧
      t'.kind? id = some (.map key value) := by
  cases hfound : t.maps.get? (key, value) with
  | some id =>
    exact ⟨id, t, by rw [mapOf, hfound], h, .refl t, (h.maps (key, value) id).1 hfound⟩
  | none =>
    obtain ⟨keyName, hkey⟩ := exists_nameOf hk.1
    obtain ⟨valueName, hvalue⟩ := exists_nameOf hval.1
    let s : Symbol := ⟨Table.mapName keyName valueName, .global, .zero, .map key value⟩
    let t' : Table := { (t.addSymbol s).2 with maps := t.maps.insert (key, value) ⟨t.symbols.length⟩ }
    have hi : t.Interns t' := { t.interns_addSymbol (s := s) trivial with }
    have harrays : (t.addSymbol s).2.Finds t.arrays .array :=
      h.arrays.addSymbol fun _ he => SymbolKind.noConfusion he
    have hmaps : (t.addSymbol s).2.Finds t'.maps .mapOf := by
      apply h.maps.insert _ (e := (key, value)) rfl hfound
      intro e e' he
      exact Prod.ext (SymbolKind.map.inj he).1 (SymbolKind.map.inj he).2
    have hv : t'.Valid := h.withSymbol (s := s) h.global ⟨hk, hval⟩ harrays hmaps
      h.keyed.arrays (h.keyed.maps.insert ..)
    refine ⟨⟨t.symbols.length⟩, t', ?_, hv, hi, ?_⟩
    · rw [mapOf, hfound]
      simp only [hkey, hvalue, bind, Except.bind]
      rfl
    · exact (kind?_addSymbol t s _).trans (if_pos rfl)

/-! ### What a written type means -/

/-- Inside the contract this name stands for this type. -/
def Means (t : Table) (name : String) (id : SymbolId) : Prop :=
  ∃ scope, t.memberScope = .ok scope ∧ t.lookup scope name = .ok (some id) ∧
    ∃ k, t.kind? id = some k ∧ k.isType = true

/-- The symbol has the structure of a written type, with what the names in it stand for. -/
inductive Denotes (t : Table) : TypeName → SymbolId → Prop where
  | named {span : Span} {name : String} {id : SymbolId} :
      t.Means name id → t.Denotes (.named span name) id
  | array {span : Span} {element : TypeName} {e id : SymbolId} : t.Denotes element e →
      t.kind? id = some (.array e) → t.Denotes (.array span element) id
  | map {span : Span} {key value : TypeName} {k v id : SymbolId} : t.Denotes key k →
      t.Denotes value v → t.kind? id = some (.map k v) → t.Denotes (.map span key value) id

/-- Every name in a written type stands for a type, and nothing in it is marked as void. -/
def Meaningful (t : Table) : TypeName → Prop
  | .named _ name => ∃ id, t.Means name id
  | .array _ element => t.Meaningful element
  | .map _ key value => t.Meaningful key ∧ t.Meaningful value
  | .void _ => False

theorem Means.unique {name : String} {x y : SymbolId} (hx : t.Means name x) (hy : t.Means name y) :
    x = y := by
  obtain ⟨scope, hscope, hlookup, -⟩ := hx
  obtain ⟨scope', hscope', hlookup', -⟩ := hy
  rw [hscope] at hscope'
  cases hscope'
  rw [hlookup] at hlookup'
  cases hlookup'
  rfl

theorem Means.listed (h : t.Valid) {name : String} {id : SymbolId} (hm : t.Means name id) :
    t.Listed (name, id) := by
  obtain ⟨scope, hscope, hlookup, -⟩ := hm
  obtain ⟨scope', hscope', hheld⟩ := exists_memberScope h
  rw [hscope] at hscope'
  cases hscope'
  obtain ⟨found, hfound, hlisted⟩ := exists_lookup h hheld name
  rw [hlookup] at hfound
  cases hfound
  exact hlisted id rfl

theorem Denotes.denotable (h : t.Valid) {type : TypeName} {id : SymbolId} (hd : t.Denotes type id) :
    t.Denotable id := by
  cases hd with
  | named hm => exact (hm.listed h).2.1
  | array _ hk => exact (h.own_of_structural hk trivial).denotable
  | map _ _ hk => exact (h.own_of_structural hk trivial).denotable

namespace Interns
variable {t' : Table}

theorem memberScope_eq (hi : t.Interns t') (h : t.Valid) : t'.memberScope = t.memberScope :=
  memberScope_congr h hi.contract fun _ k hk => ⟨k, hi.kind hk, rfl⟩

theorem lookup_eq (hi : t.Interns t') (h : t.Valid) (h' : t'.Valid) {id : ScopeId}
    (hid : t.HoldsScope id) (name : String) : t'.lookup id name = t.lookup id name :=
  lookup_congr h h' hi.scopes hid name

theorem means_iff (hi : t.Interns t') (h : t.Valid) (h' : t'.Valid) {name : String}
    {id : SymbolId} : t'.Means name id ↔ t.Means name id := by
  obtain ⟨scope, hscope, hheld⟩ := exists_memberScope h
  have hscope' : t'.memberScope = .ok scope := (hi.memberScope_eq h).trans hscope
  have hlookup := hi.lookup_eq h h' hheld name
  constructor
  · rintro ⟨s, hs, hl, k, hk, htype⟩
    cases hscope'.symm.trans hs
    rw [hlookup] at hl
    obtain ⟨found, hfound, hlisted⟩ := exists_lookup h hheld name
    cases hl.symm.trans hfound
    obtain ⟨k', hk'⟩ := holds_iff_kind?.1 (hlisted id rfl).2.1.1
    cases hk.symm.trans (hi.kind hk')
    exact ⟨scope, hscope, hl, k, hk', htype⟩
  · rintro ⟨s, hs, hl, k, hk, htype⟩
    cases hscope.symm.trans hs
    exact ⟨scope, hscope', hlookup.trans hl, k, hi.kind hk, htype⟩

theorem denotes (hi : t.Interns t') (h : t.Valid) (h' : t'.Valid) {type : TypeName}
    {id : SymbolId} (hd : t.Denotes type id) : t'.Denotes type id := by
  induction hd with
  | named hm => exact .named ((hi.means_iff h h').2 hm)
  | array _ hk ih => exact .array ih (hi.kind hk)
  | map _ _ hk ihk ihv => exact .map ihk ihv (hi.kind hk)

theorem meaningful_iff (hi : t.Interns t') (h : t.Valid) (h' : t'.Valid) (type : TypeName) :
    t'.Meaningful type ↔ t.Meaningful type := by
  induction type with
  | named span name => exact exists_congr fun id => hi.means_iff h h'
  | array span element ih => exact ih
  | map span key value ihk ihv => exact and_congr ihk ihv
  | void span => exact Iff.rfl

end Interns

/-- A written type is looked up without fail. If it has a meaning then a symbol of its structure is
found, otherwise none. -/
theorem exists_typeNamed (h : t.Valid) (type : TypeName) :
    ∃ found t', t.typeNamed type = .ok (found, t') ∧ t'.Valid ∧ t.Interns t' ∧
      (∀ id ∈ found, t'.Denotes type id) ∧ (found.isSome ↔ t.Meaningful type) := by
  induction type generalizing t with
  | named span name =>
    obtain ⟨scope, hscope, hheld⟩ := exists_memberScope h
    obtain ⟨found, hfound, hlisted⟩ := exists_lookup h hheld name
    have hmeans : ∀ id, t.Means name id → found = some id := by
      rintro id ⟨s, hs, hl, -⟩
      cases hscope.symm.trans hs
      cases hfound.symm.trans hl
      rfl
    cases found with
    | none =>
      refine ⟨none, t, ?_, h, .refl t, by simp, ?_⟩
      · simp only [typeNamed, hscope, hfound, bind, Except.bind]
        rfl
      · simp only [Option.isSome_none, Bool.false_eq_true, false_iff]
        rintro ⟨id, hid⟩
        cases hmeans id hid
    | some id =>
      obtain ⟨k, hk⟩ := holds_iff_kind?.1 (hlisted id rfl).2.1.1
      have hrun : t.typeNamed (.named span name) = .ok (if k.isType then some id else none, t) := by
        simp only [typeNamed, hscope, hfound, kindOf_eq_ok.2 hk, bind, Except.bind]
        rfl
      cases htype : k.isType with
      | true =>
        have hm : t.Means name id := ⟨scope, hscope, hfound, k, hk, htype⟩
        rw [htype, if_pos rfl] at hrun
        refine ⟨some id, t, hrun, h, .refl t, ?_, ?_⟩
        · rintro _ ⟨⟩
          exact .named hm
        · exact iff_of_true rfl ⟨id, hm⟩
      | false =>
        rw [htype, if_neg Bool.false_ne_true] at hrun
        refine ⟨none, t, hrun, h, .refl t, by simp, ?_⟩
        simp only [Option.isSome_none, Bool.false_eq_true, false_iff]
        rintro ⟨j, hj⟩
        cases hmeans j hj
        obtain ⟨_, _, _, k', hk', htype'⟩ := hj
        cases hk.symm.trans hk'
        rw [htype] at htype'
        cases htype'
  | array span element ih =>
    obtain ⟨found, t₁, h₁, hv₁, hi₁, hd₁, hm₁⟩ := ih h
    cases found with
    | none =>
      refine ⟨none, t₁, ?_, hv₁, hi₁, by simp, hm₁⟩
      simp only [typeNamed, h₁, bind, Except.bind]
      rfl
    | some e =>
      have hd : t₁.Denotes element e := hd₁ e rfl
      obtain ⟨a, t₂, h₂, hv₂, hi₂, ha⟩ := exists_arrayOf hv₁ (hd.denotable hv₁)
      refine ⟨some a, t₂, ?_, hv₂, hi₁.trans hi₂, ?_, hm₁⟩
      · simp only [typeNamed, h₁, h₂, bind, Except.bind]
        rfl
      · rintro _ ⟨⟩
        exact .array (hi₂.denotes hv₁ hv₂ hd) ha
  | map span key value ihk ihv =>
    obtain ⟨found, t₁, h₁, hv₁, hi₁, hd₁, hm₁⟩ := ihk h
    cases found with
    | none =>
      refine ⟨none, t₁, ?_, hv₁, hi₁, by simp, ?_⟩
      · simp only [typeNamed, h₁, bind, Except.bind]
        rfl
      · exact iff_of_false Bool.false_ne_true fun hm => Bool.false_ne_true (hm₁.2 hm.1)
    | some k =>
      have hk : t.Meaningful key := hm₁.1 rfl
      obtain ⟨found, t₂, h₂, hv₂, hi₂, hd₂, hm₂⟩ := ihv hv₁
      rw [hi₁.meaningful_iff h hv₁] at hm₂
      cases found with
      | none =>
        refine ⟨none, t₂, ?_, hv₂, hi₁.trans hi₂, by simp, ?_⟩
        · simp only [typeNamed, h₁, h₂, bind, Except.bind]
          rfl
        · exact iff_of_false Bool.false_ne_true fun hm => Bool.false_ne_true (hm₂.2 hm.2)
      | some v =>
        have hdk : t₂.Denotes key k := hi₂.denotes hv₁ hv₂ (hd₁ k rfl)
        have hdv : t₂.Denotes value v := hd₂ v rfl
        obtain ⟨m, t₃, h₃, hv₃, hi₃, hm⟩ :=
          exists_mapOf hv₂ (hdk.denotable hv₂) (hdv.denotable hv₂)
        refine ⟨some m, t₃, ?_, hv₃, (hi₁.trans hi₂).trans hi₃, ?_, iff_of_true rfl ⟨hk, hm₂.1 rfl⟩⟩
        · simp only [typeNamed, h₁, h₂, h₃, bind, Except.bind]
          rfl
        · rintro _ ⟨⟩
          exact .map (hi₃.denotes hv₂ hv₃ hdk) (hi₃.denotes hv₂ hv₃ hdv) hm
  | void span => exact ⟨none, t, rfl, h, .refl t, by simp, iff_of_false Bool.false_ne_true id⟩

end Table
end ContractLang
