import ContractLang.Phase
import ContractLang.Proofs.Noting
/-!
No reference dangles. The phases can run in any order, any number of times, on one program after
another, also where nodes share a number: every run ends well, every number that the table then holds
is one that it gave out, and every walk from a scope to its parents comes to an end.
-/
namespace ContractLang

open Pass

/-! ### References -/

/-- The symbols that a symbol refers to. -/
def SymbolKind.symbolRefs : SymbolKind → List SymbolId
  | basic _ => []
  | struct _ fields => fields
  | array element => [element]
  | map key value => [key, value]
  | contract info => info.members
  | field type | parameter type | localVar type _ => type.toList
  | constant type => [type]
  | function info => info.returns ++ info.params ++ info.locals

def SymbolKind.scopeRefs : SymbolKind → List ScopeId
  | struct inner _ => [inner]
  | contract info => [info.inner]
  | function info => [info.inner]
  | _ => []

def Scope.symbolRefs (s : Scope) : List SymbolId := s.owner.toList ++ s.declarations.map Prod.snd

namespace Table

/-- Every symbol number in the table, wherever it stands. -/
def symbolRefs (t : Table) : List SymbolId :=
  t.symbols.flatMap (·.kind.symbolRefs) ++ t.scopes.flatMap Scope.symbolRefs ++ t.contract.toList ++
    t.arrays.entries.flatMap (fun e => [e.1, e.2]) ++
    t.maps.entries.flatMap (fun e => [e.1.1, e.1.2, e.2]) ++
    t.declared.entries.map Prod.snd ++ t.nodes.entries.map Prod.fst ++
    t.bindings.entries.map Prod.snd ++ t.types.entries.map Prod.snd

/-- Every scope number in the table. -/
def scopeRefs (t : Table) : List ScopeId :=
  t.symbols.flatMap (fun s => s.scope :: s.kind.scopeRefs) ++ t.scopes.flatMap (·.parent.toList)

structure Closed (t : Table) : Prop where
  symbols : ∀ id ∈ t.symbolRefs, id.index < t.symbols.length
  scopes : ∀ id ∈ t.scopeRefs, id.index < t.scopes.length
  parents : ∀ (i : Nat) (s : Scope), t.scopes[i]? = some s → ∀ p ∈ s.parent, p.index < i

/-- The walk from a scope to its parents comes to a scope without one. -/
inductive WalkEnds (t : Table) : ScopeId → Prop where
  | root {id : ScopeId} {s : Scope} : t.scopes[id.index]? = some s → s.parent = none → t.WalkEnds id
  | up {id p : ScopeId} {s : Scope} : t.scopes[id.index]? = some s → s.parent = some p →
      t.WalkEnds p → t.WalkEnds id

variable {t : Table}

theorem holds_symbolRefs {k : SymbolKind} (h : k.ValidIn t) : ∀ id ∈ k.symbolRefs, t.Holds id := by
  intro id hid
  cases k with
  | basic type => cases hid
  | struct inner fields => exact h.2 id hid
  | array element =>
    cases List.mem_singleton.1 hid
    exact h.1
  | map key value =>
    simp only [SymbolKind.symbolRefs, List.mem_cons, List.not_mem_nil, or_false] at hid
    rcases hid with rfl | rfl
    · exact h.1.1
    · exact h.2.1
  | contract info => exact h.2 id hid
  | field type => exact (h id (Option.mem_toList.1 hid)).1
  | constant type =>
    cases List.mem_singleton.1 hid
    exact h.1
  | function info =>
    obtain ⟨-, hreturns, hparams, hlocals⟩ := h
    simp only [SymbolKind.symbolRefs, List.mem_append] at hid
    rcases hid with (hid | hid) | hid
    · exact (hreturns id hid).1
    · exact holds_iff_kind?.2 ⟨_, (hparams id hid).choose_spec⟩
    · exact hlocals id hid
  | parameter type => exact (h id (Option.mem_toList.1 hid)).1
  | localVar type visibility => exact (h id (Option.mem_toList.1 hid)).1

theorem holds_scopeRefs {k : SymbolKind} (h : k.ValidIn t) :
    ∀ id ∈ k.scopeRefs, t.HoldsScope id := by
  intro id hid
  cases k with
  | struct inner fields =>
    cases List.mem_singleton.1 hid
    exact h.1
  | contract info =>
    cases List.mem_singleton.1 hid
    exact h.1
  | function info =>
    cases List.mem_singleton.1 hid
    exact h.1
  | _ => cases hid

namespace Valid

theorem scope_symbolRefs (h : t.Valid) {i : Nat} {s : Scope} (hs : t.scopes[i]? = some s) :
    ∀ id ∈ s.symbolRefs, t.Holds id := by
  intro id hid
  rcases List.mem_append.1 hid with hid | hid
  · exact h.owners i s hs id (Option.mem_toList.1 hid)
  · obtain ⟨d, hd, rfl⟩ := List.mem_map.1 hid
    exact (h.declarations i s hs d hd).2.1.1

/-- The components of a structural type are held because the type itself is. -/
theorem intern_refs (h : t.Valid) {κ : Type} [DecidableEq κ] {m : Assoc κ SymbolId}
    {kind : κ → SymbolKind} (hm : t.Finds m kind) (hk : m.Keyed) {e : κ × SymbolId}
    (he : e ∈ m.entries) : t.Holds e.2 ∧ ∀ id ∈ (kind e.1).symbolRefs, t.Holds id := by
  have hkind : t.kind? e.2 = some (kind e.1) := (hm e.1 e.2).1 (hk.get?_of_mem he)
  exact ⟨holds_iff_kind?.2 ⟨_, hkind⟩, holds_symbolRefs (h.kind hkind)⟩

theorem holds_refs (h : t.Valid) : ∀ id ∈ t.symbolRefs, t.Holds id := by
  intro id hid
  simp only [symbolRefs, List.mem_append, List.mem_flatMap, List.mem_map] at hid
  -- One case for each place of the table, in the order of `symbolRefs`.
  rcases hid with (((((((hs | hs) | hs) | hs) | hs) | hs) | hs) | hs) | hs
  · obtain ⟨s, hs, hid⟩ := hs
    obtain ⟨i, hi⟩ := List.getElem?_of_mem hs
    exact holds_symbolRefs (h.symbols i s hi).2 id hid
  · obtain ⟨s, hs, hid⟩ := hs
    obtain ⟨i, hi⟩ := List.getElem?_of_mem hs
    exact h.scope_symbolRefs hi id hid
  · exact (h.contract id (Option.mem_toList.1 hs)).2
  · obtain ⟨e, he, hid⟩ := hs
    have href := h.intern_refs h.arrays h.keyed.arrays he
    simp only [List.mem_cons, List.not_mem_nil, or_false] at hid
    rcases hid with rfl | rfl
    · exact href.2 _ (by simp [SymbolKind.symbolRefs])
    · exact href.1
  · obtain ⟨e, he, hid⟩ := hs
    have href := h.intern_refs h.maps h.keyed.maps he
    simp only [List.mem_cons, List.not_mem_nil, or_false] at hid
    rcases hid with rfl | rfl | rfl
    · exact href.2 _ (by simp [SymbolKind.mapOf, SymbolKind.symbolRefs])
    · exact href.2 _ (by simp [SymbolKind.mapOf, SymbolKind.symbolRefs])
    · exact href.1
  · obtain ⟨e, he, rfl⟩ := hs
    exact (h.declared e.1 e.2 (h.keyed.declared.get?_of_mem he)).2
  · obtain ⟨e, he, rfl⟩ := hs
    exact h.nodes e.1 e.2 (h.keyed.nodes.get?_of_mem he)
  · obtain ⟨e, he, rfl⟩ := hs
    exact h.bindings e.1 e.2 (h.keyed.bindings.get?_of_mem he)
  · obtain ⟨e, he, rfl⟩ := hs
    exact h.types e.1 e.2 (h.keyed.types.get?_of_mem he)

theorem holdsScope_refs (h : t.Valid) : ∀ id ∈ t.scopeRefs, t.HoldsScope id := by
  intro id hid
  simp only [scopeRefs, List.mem_append, List.mem_flatMap] at hid
  rcases hid with ⟨s, hs, hid⟩ | ⟨s, hs, hid⟩
  · obtain ⟨i, hi⟩ := List.getElem?_of_mem hs
    have hsymbol := h.symbols i s hi
    rcases List.mem_cons.1 hid with rfl | hid
    · exact hsymbol.1
    · exact holds_scopeRefs hsymbol.2 id hid
  · obtain ⟨i, hi⟩ := List.getElem?_of_mem hs
    have hlt : id.index < i := h.parents i s hi id (Option.mem_toList.1 hid)
    exact Nat.lt_trans hlt (List.getElem?_eq_some_iff.1 hi).1

theorem closed (h : t.Valid) : t.Closed := ⟨h.holds_refs, h.holdsScope_refs, h.parents⟩

theorem walkEnds (h : t.Valid) {id : ScopeId} (hid : t.HoldsScope id) : t.WalkEnds id := by
  obtain ⟨i⟩ := id
  induction i using Nat.strongRecOn with
  | ind i ih =>
    obtain ⟨s, hs⟩ := exists_scope hid
    cases hp : s.parent with
    | none => exact .root hs hp
    | some p =>
      have hlt : p.index < i := h.parents i s hs p hp
      exact .up hs hp (ih p.index hlt (Nat.lt_trans hlt hid))

/-- A search never runs out of steps: it has more than there are scopes on the way. -/
theorem nearestWithin_eq_nearest (h : t.Valid) {id : ScopeId} (hid : t.HoldsScope id)
    (name : String) {fuel : Nat} (hf : t.scopes.length ≤ fuel) :
    t.nearestWithin name fuel id = t.nearest id name := by
  have hlt : id.index < t.scopes.length := hid
  rw [nearest, nearestWithin_of_lt h.parents name hid (by omega : id.index < fuel),
    nearestWithin_of_lt h.parents name hid (by omega : id.index < t.scopes.length + 1)]

end Valid
end Table

/-! ### Runs -/

theorem Phase.pass_safe {t : Table} (ht : t.Valid) (phase : Phase) (p : Program) :
    (phase.pass p).Safe t fun _ _ => True := by
  cases phase with
  | symbolConstruction => exact p.declareSymbols_safe ht
  | typeResolution => exact p.resolveTypes_safe ht
  | designatorResolution => exact p.bindNames_safe ht
  | typeChecking => exact p.check_safe ht

/-- Runs phases one after the other, each on a program of its own, whatever they report. -/
def runAll (steps : List (Phase × Program)) : Pass Unit := steps.forM fun s => s.1.pass s.2

theorem runAll_safe {t : Table} (ht : t.Valid) (steps : List (Phase × Program)) :
    (runAll steps).Safe t fun _ _ => True :=
  safe_forM ht fun s _ _ ht' _ => s.1.pass_safe ht' s.2

/-- Each expression of a list gets an answer of its own, whatever the table. -/
theorem checkEach_length {es : List Expr} {t t' : Table} {found : List (Option SymbolId)}
    {ds : List Diagnostic} (h : (checkEach es).run t = .ok ⟨found, t', ds⟩) :
    found.length = es.length := by
  induction es generalizing t t' found ds with
  | nil =>
    obtain ⟨rfl, -, -⟩ := run_pure_iff.1 h
    rfl
  | cons e rest ih =>
    obtain ⟨type, t₁, ds₁, _, -, hrest, -⟩ := run_bind_iff.1 h
    obtain ⟨types, t₂, ds₂, _, htypes, hpure, -⟩ := run_bind_iff.1 hrest
    obtain ⟨rfl, -, -⟩ := run_pure_iff.1 hpure
    rw [List.length_cons, List.length_cons, ih htypes]

/-- Whatever phases run on whatever programs, they end well and leave no dangling reference. From
every scope the walk to the parents ends, so a search gives an answer that more steps do not change.
Checking a list of expressions gives as many answers as there are expressions, so that arguments and
returned values are found at their positions. -/
theorem runAll_closed (steps : List (Phase × Program)) :
    ∃ o, (runAll steps).run .initial = .ok o ∧ o.table.Closed ∧
      (∀ id, o.table.HoldsScope id → o.table.WalkEnds id ∧
        ∀ name, ∃ found, o.table.nearest id name = .ok found ∧
          ∀ fuel, o.table.scopes.length ≤ fuel → o.table.nearestWithin name fuel id = .ok found) ∧
      ∀ es t u, (checkEach es).run t = .ok u → u.value.length = es.length := by
  obtain ⟨_, t, ⟨ds, hrun⟩, ht, -, -⟩ := runAll_safe Table.valid_initial steps
  refine ⟨_, hrun, ht.closed, ?_, fun _ _ _ => checkEach_length⟩
  intro id hid
  refine ⟨ht.walkEnds hid, ?_⟩
  intro name
  obtain ⟨found, hfound, -⟩ := Table.exists_nearest ht hid name
  exact ⟨found, hfound, fun fuel hf => (ht.nearestWithin_eq_nearest hid name hf).trans hfound⟩

end ContractLang
