import ContractLang.Proofs.Lexical
import ContractLang.Proofs.Resolving
/-!
Which written types can be resolved. A name can if its first declaration, in the contract or else in
the global scope, is a type, and a structure if all its parts can. Resolving gives each value the type
that is written with it and none where that cannot be resolved, in whatever company it stands.
-/
namespace ContractLang

open Pass Table

/-- A type with a name of its own: one that is built in, a struct type or the contract. -/
def SymbolKind.isNominal : SymbolKind → Bool
  | basic _ | struct _ _ | contract _ => true
  | _ => false

namespace Table

/-- The type that a name stands for: its first declaration in the contract, or else in the global
scope, if that is a type. -/
def nominal? (t : Table) (x : String) : Option SymbolId :=
  (t.declarationsIn .members x ++ t.declarationsIn .global x).head?.filter
    fun id => (t.kind? id).any (·.isNominal)

def resolvable (t : Table) : TypeName → Bool
  | .named _ x => (t.nominal? x).isSome
  | .array _ element => t.resolvable element
  | .map _ key value => t.resolvable key && t.resolvable value
  | .void _ => false

end Table

theorem SymbolKind.isNominal_of_plain {k : SymbolKind} (h : ¬k.IsStructural) :
    k.isNominal = k.isType := by
  cases k <;> first | rfl | exact absurd trivial h

theorem SymbolKind.isType_of_isNominal (k : SymbolKind) (h : k.isNominal = true) :
    k.isType = true := by
  cases k <;> first | rfl | cases h

namespace ContractDecl.Founded
variable {c : ContractDecl} {t t' : Table}

theorem head?_candidates (h : c.Founded t) (x : String) : (t.candidates .members x).head? =
    (t.declarationsIn .members x ++ t.declarationsIn .global x).head? := by
  have hglobal : t.candidates .global x = t.declarationsIn .global x := by
    rw [h.candidates_global, declarationsIn, h.entries_global]
  rw [candidates_eq h.valid h.holdsScope_members, h.parent_members]
  by_cases hnone : t.declarationsIn .members x = []
  · rw [if_pos hnone, hnone, List.nil_append, ← hglobal]
    rfl
  · rw [if_neg hnone]
    obtain ⟨id, ids, hids⟩ := List.exists_cons_of_ne_nil hnone
    rw [hids]
    rfl

/-- A look-up ends at the first declaration, and what it finds is never an array or map type. -/
theorem means_iff_nominal (h : c.Founded t) {x : String} {id : SymbolId} :
    t.Means x id ↔ t.nominal? x = some id := by
  have hlookup : t.lookup .members x =
      .ok (t.declarationsIn .members x ++ t.declarationsIn .global x).head? := by
    rw [h.lookup_eq, h.head?_candidates]
  rw [nominal?, Option.filter_eq_some_iff]
  constructor
  · intro hm
    have hplain := fun k => hm.plain h.valid (k := k)
    obtain ⟨scope, hscope, hfound, k, hk, htype⟩ := hm
    rw [h.memberScope] at hscope
    cases hscope
    refine ⟨Except.ok.inj (hlookup.symm.trans hfound), ?_⟩
    rw [hk, Option.any_some, SymbolKind.isNominal_of_plain (hplain k hk), htype]
  · rintro ⟨hfirst, hnominal⟩
    obtain ⟨k, hk, htype⟩ : ∃ k, t.kind? id = some k ∧ k.isType = true := by
      cases hk : t.kind? id with
      | none =>
        rw [hk] at hnominal
        cases hnominal
      | some k =>
        rw [hk] at hnominal
        exact ⟨k, rfl, k.isType_of_isNominal hnominal⟩
    exact ⟨.members, h.memberScope, by rw [hlookup, hfirst], k, hk, htype⟩

/-- A written type can be resolved exactly if it has a meaning. -/
theorem resolvable_eq (h : c.Founded t) (type : TypeName) :
    t.resolvable type = (c.env.denote type).isSome := by
  rw [Bool.eq_iff_iff, ← h.meaningful_iff]
  induction type with
  | named span x =>
    rw [resolvable, Option.isSome_iff_exists]
    exact exists_congr fun id => h.means_iff_nominal.symm
  | array span element ih => exact ih
  | map span key value ihk ihv =>
    rw [resolvable, Bool.and_eq_true]
    exact and_congr ihk ihv
  | void span => simp [resolvable, Meaningful]

/-- Resolving types leaves what names stand for. -/
theorem means_iff_of_advances (h : c.Founded t) (ha : c.Advances t t') {x : String} {id : SymbolId} :
    t'.Means x id ↔ t.nominal? x = some id := by
  rw [← h.means_iff_nominal]
  have hkeeps : ∀ j, t.Means x j → t'.Means x j := by
    intro j hj
    obtain ⟨type, htype, hid⟩ := Option.bind_eq_some_iff.1 (h.means_iff.1 hj)
    rw [ha.founded.means_iff, htype]
    exact ha.retypes.typeOf?_eq_some hid
  constructor
  · intro hm
    obtain ⟨j, hj⟩ := h.exists_means_iff.2 (ha.founded.exists_means_iff.1 ⟨id, hm⟩)
    rw [hm.unique (hkeeps j hj)]
    exact hj
  · exact hkeeps id

/-- The symbols returned are those of the written types that can be resolved. -/
theorem returns_denoted (h : c.Founded t) {returns : List TypeName} {ids : List SymbolId}
    (hr : List.Forall₂ (fun type id => t.typeOf? type = some id) (c.env.returned returns) ids) :
    List.Forall₂ t.Denotes (returns.filter fun type => (c.env.denote type).isSome) ids := by
  have hreturned : c.env.returned returns = returns.filterMap c.env.denote := by
    rw [Env.returned, List.filterMap_filter]
    refine congrArg (List.filterMap · returns) (funext fun type => ?_)
    cases type <;> rfl
  rw [hreturned] at hr
  clear hreturned
  induction returns generalizing ids with
  | nil => exact List.forall₂_nil_left_iff.2 (List.forall₂_nil_left_iff.1 hr)
  | cons type rest ih =>
    cases hdenote : c.env.denote type with
    | none =>
      rw [List.filterMap_cons_none hdenote] at hr
      rw [List.filter_cons_of_neg (by simp [hdenote])]
      exact ih hr
    | some m =>
      rw [List.filterMap_cons_some hdenote] at hr
      obtain ⟨id, ids, hid, hrest, rfl⟩ := List.forall₂_cons_left_iff.1 hr
      rw [List.filter_cons_of_pos (by simp [hdenote])]
      exact .cons (h.denotes_iff.2 (by rw [hdenote]; exact hid)) (ih hrest)

end ContractDecl.Founded

/-! ### Values without a type -/

/-- When all is declared, no value of the contract has a type. -/
theorem ContractDecl.untyped {c : ContractDecl} {t : Table} {u : Unit} {ds : List Diagnostic}
    (h : c.declare.run .initial = .ok ⟨u, t, ds⟩) (hv : t.Valid) (node : NodeId) :
    t.declaredType node = none := by
  rw [Table.declaredType, Option.bind_eq_none_iff]
  intro id hid
  rw [(declare_inv h).1.values]
  have hge : 10 ≤ id.index := (hv.declared node id hid).1
  have hnone : (initial.setContract .contract).kind? id = none := by
    rw [kind?, List.getElem?_eq_none hge]
    rfl
  rw [valueType, hnone]
  rfl

/-- Where values had no types, each now has the one that is written with it, if that has a meaning,
and otherwise none. -/
theorem ContractDecl.Advances.settled {c : ContractDecl} {t t' : Table} (h : c.Advances t t')
    (hnone : ∀ node, t.declaredType node = none) {a : NodeId × TypeName} (ha : a ∈ c.annotations)
    (hassigned : c.Assigned t' a) :
    (t'.declaredType a.1).isSome = (c.env.denote a.2).isSome ∧
      ∀ type ∈ t'.declaredType a.1, t'.Denotes a.2 type := by
  cases htype : t'.declaredType a.1 with
  | none =>
    refine ⟨?_, nofun⟩
    cases hdenote : c.env.denote a.2 with
    | none => rfl
    | some m =>
      obtain ⟨_, id, -, -, hid⟩ := hassigned (by rw [hdenote]; rfl)
      rw [htype] at hid
      cases hid
  | some type =>
    have hsome : t'.declaredType a.1 ≠ none := by simp [htype]
    obtain hold | ⟨m, id, hdenote, hid, hown⟩ := h.own a ha hsome
    · exact absurd (hnone a.1) hold
    · obtain rfl : type = id := Option.some.inj (htype.symm.trans hown)
      refine ⟨by rw [hdenote]; rfl, fun _ hmem => ?_⟩
      cases hmem
      exact h.founded.denotes_iff.2 (by rw [hdenote]; exact hid)

/-- Resolving types is exact. It reports what is wrong with the written types, and the table before
says which of them can be resolved; afterwards each value has the type that is written with it, and
none where that cannot be resolved, and each callable returns those of its types that can be. -/
theorem Program.resolveTypes_exact {p : Program} {c : ContractDecl} (hc : p.contract = some c)
    (hn : c.declarationIds.Nodup) : ∃ t t',
      p.declareSymbols.run .initial = .ok ⟨(), t, c.declFaults⟩ ∧
      p.resolveTypes.run t = .ok ⟨(), t', c.typeFaults⟩ ∧
      (∀ type, (c.env.denote type).isSome = t.resolvable type) ∧
      (∀ x id, t'.Means x id ↔ t.nominal? x = some id) ∧
      (∀ a ∈ c.annotations, ∃ id found, t'.declaredBy? a.1 = some id ∧
        t'.valueType? id = .ok found ∧ found.isSome = t.resolvable a.2 ∧
        ∀ type ∈ found, t'.Denotes a.2 type) ∧
      ∀ f ∈ c.callables, ∃ id info, t'.declaredBy? f.node.id = some id ∧
        t'.function? id = .ok (some info) ∧
        List.Forall₂ t'.Denotes (f.returns.filter t.resolvable) info.returns := by
  obtain ⟨t, hdeclare, hv⟩ := c.exists_declared
  have h := ContractDecl.founded_of_declares hv hn (ContractDecl.declare_inv hdeclare).1
  obtain ⟨t', hresolve, ha, hvalues, hcallables⟩ := ContractDecl.resolveTypes_run hn h
  refine ⟨t, t', ?_, ?_, fun type => (h.resolvable_eq type).symm, fun _ _ => h.means_iff_of_advances ha,
    fun a hmem => ?_, fun f hf => ?_⟩
  · rw [Program.declareSymbols, hc]
    exact hdeclare
  · rw [Program.resolveTypes, hc]
    exact hresolve
  · obtain ⟨id, k, hid, hsort, -⟩ := ha.founded.awaits hmem
    have htype : t'.declaredType a.1 = t'.valueType id := by rw [Table.declaredType, hid, Option.bind_some]
    have hsettled := ha.settled (ContractDecl.untyped hdeclare hv) hmem (hvalues a hmem)
    rw [htype, ← h.resolvable_eq] at hsettled
    exact ⟨id, t'.valueType id, hid, valueType?_eq (holds_of_sort hsort), hsettled⟩
  · obtain ⟨info, hinfo, hreturns⟩ := hcallables f hf
    obtain ⟨id, hid, hfun⟩ := Option.bind_eq_some_iff.1 hinfo
    refine ⟨id, info, hid, ?_, ?_⟩
    · rw [function?_eq (ha.founded.valid.declared _ id hid).2, hfun]
    · rw [funext h.resolvable_eq]
      exact ha.founded.returns_denoted hreturns

section
open Build

/-- Types that can be resolved stand beside and inside of some that cannot. -/
def mistyped : Program := program (some (Id.run (StateT.run' (do
  let xs ← field (← arrayType (← namedType "int")) "xs" none
  let lost ← field (← mapType (← arrayType (← namedType "int")) (← namedType "Nowhere")) "S" none
  let hidden ← field (← namedType "S") "hidden" none
  let nothing ← field (← arrayType (← voidType)) "nothing" none
  let inner ← field (← mapType (← namedType "P") (← namedType "C")) "m" none
  let s ← struct "S" []
  let pair ← struct "P" [inner]
  let param ← varDecl (← voidType) "v"
  let onTrue ← varDecl (← arrayType (← namedType "P")) "w"
  let choice ← branch (← literal (.bool true)) [← declare [onTrue] none] none
  let returns := [← namedType "int", ← voidType, ← namedType "null", ← arrayType (← namedType "C")]
  let f ← function "f" returns [param] [choice]
  return { ← contract "C" with
    fields := [xs, lost, hidden, nothing], structs := [s, pair], functions := [f] }) 0)))

end

theorem mistyped_exact : ∃ c, mistyped.contract = some c ∧ c.declarationIds.Nodup ∧
    c.typeFaults.length = 7 ∧ ∃ t t',
      mistyped.declareSymbols.run .initial = .ok ⟨(), t, c.declFaults⟩ ∧
      mistyped.resolveTypes.run t = .ok ⟨(), t', c.typeFaults⟩ ∧
      (∀ type, (c.env.denote type).isSome = t.resolvable type) ∧
      (∀ x id, t'.Means x id ↔ t.nominal? x = some id) ∧
      (∀ a ∈ c.annotations, ∃ id found, t'.declaredBy? a.1 = some id ∧
        t'.valueType? id = .ok found ∧ found.isSome = t.resolvable a.2 ∧
        ∀ type ∈ found, t'.Denotes a.2 type) ∧
      ∀ f ∈ c.callables, ∃ id info, t'.declaredBy? f.node.id = some id ∧
        t'.function? id = .ok (some info) ∧
        List.Forall₂ t'.Denotes (f.returns.filter t.resolvable) info.returns := by
  have hn : ∀ c ∈ mistyped.contract, c.declarationIds.Nodup ∧ c.typeFaults.length = 7 := by
    decide +kernel
  obtain ⟨c, hc⟩ : ∃ c, mistyped.contract = some c := ⟨_, rfl⟩
  obtain ⟨hnodup, hlength⟩ := hn c hc
  exact ⟨c, hc, hnodup, hlength, Program.resolveTypes_exact hc hnodup⟩

end ContractLang
