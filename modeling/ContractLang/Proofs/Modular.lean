import ContractLang.Proofs.Accepting
/-!
Bodies are judged apart from each other. What callables know of each other are names and signatures,
so a program is accepted exactly if it is with every body but one left empty, whichever that one is.
-/
namespace ContractLang

/-! ### One body kept -/

/-- The callable as it is, if it is that of the node, and else without its body. -/
def ConstructorDecl.isolate (n : NodeId) (f : ConstructorDecl) : ConstructorDecl :=
  if f.node.id = n then f else { f with body := Build.block [] }

@[inherit_doc ConstructorDecl.isolate]
def FunctionDecl.isolate (n : NodeId) (f : FunctionDecl) : FunctionDecl :=
  if f.node.id = n then f else { f with body := Build.block [] }

@[inherit_doc ConstructorDecl.isolate]
def Callable.isolate (n : NodeId) (f : Callable) : Callable :=
  if f.node.id = n then f else { f with body := Build.block [] }

/-- The contract with the body of one callable only. -/
def ContractDecl.isolate (n : NodeId) (c : ContractDecl) : ContractDecl :=
  { c with
    ctor := c.ctor.map (·.isolate n)
    functions := c.functions.map (·.isolate n) }

def Program.isolate (n : NodeId) (p : Program) : Program :=
  { p with contract := p.contract.map (·.isolate n) }

namespace Callable
variable {n : NodeId} {f : Callable}

theorem isolate_self : f.isolate f.node.id = f := if_pos rfl

theorem isolate_cases (n : NodeId) (f : Callable) :
    f.isolate n = f ∨ f.isolate n = { f with body := Build.block [] } := by
  unfold isolate
  split
  · exact .inl rfl
  · exact .inr rfl

/-- Others see nothing of a body. -/
theorem entity_isolate : (f.isolate n).entity = f.entity := by
  rcases f.isolate_cases n with h | h
  · rw [h]
  · rw [h]
    rfl

theorem declaredName_isolate : (f.isolate n).declaredName = f.declaredName := by
  rcases f.isolate_cases n with h | h
  · rw [h]
  · rw [h]
    rfl

end Callable

theorem ConstructorDecl.callable_isolate (n : NodeId) (f : ConstructorDecl) :
    (f.isolate n).callable = f.callable.isolate n := by
  unfold ConstructorDecl.isolate Callable.isolate
  exact apply_ite ConstructorDecl.callable ..

theorem FunctionDecl.callable_isolate (n : NodeId) (f : FunctionDecl) :
    (f.isolate n).callable = f.callable.isolate n := by
  unfold FunctionDecl.isolate Callable.isolate
  exact apply_ite FunctionDecl.callable ..

theorem FunctionDecl.name_isolate (n : NodeId) (f : FunctionDecl) : (f.isolate n).name = f.name := by
  unfold FunctionDecl.isolate
  split <;> rfl

namespace ContractDecl
variable (c : ContractDecl) (n : NodeId)

theorem callables_isolate : (c.isolate n).callables = c.callables.map (·.isolate n) := by
  have hctor : (c.ctor.map (·.isolate n)).toList.map ConstructorDecl.callable =
      (c.ctor.toList.map ConstructorDecl.callable).map (·.isolate n) := by
    cases c.ctor with
    | none => rfl
    | some f => exact congrArg (fun g => [g]) (f.callable_isolate n)
  have hfunctions : (c.functions.map (·.isolate n)).map FunctionDecl.callable =
      (c.functions.map FunctionDecl.callable).map (·.isolate n) := by
    rw [List.map_map, List.map_map]
    exact List.map_congr_left fun f _ => f.callable_isolate n
  change (c.ctor.map (·.isolate n)).toList.map _ ++ (c.functions.map (·.isolate n)).map _ = _
  rw [hctor, hfunctions, ← List.map_append]
  rfl

theorem env_isolate : (c.isolate n).env = c.env := by
  have hmembers : (c.isolate n).memberEntities = c.memberEntities := by
    simp only [memberEntities, members, callables_isolate, List.map_append, List.map_map]
    refine congrArg _ (List.map_congr_left fun f _ => ?_)
    exact Prod.ext f.declaredName_isolate f.entity_isolate
  unfold ContractDecl.env
  rw [hmembers]
  rfl

theorem nodeIds_isolate : ((c.isolate n).nodeIds).Sublist c.nodeIds := by
  have hids : ∀ {α : Type} (g : Callable → List α),
      (∀ f, (g { f with body := Build.block [] }).Sublist (g f)) →
      ((c.isolate n).callables.flatMap g).Sublist (c.callables.flatMap g) := by
    intro α g hg
    rw [callables_isolate, List.flatMap_map]
    refine List.Sublist.flatMap_right _ fun f _ => ?_
    rcases f.isolate_cases n with h | h <;> rw [h]
    exact hg f
  have hstmts : (c.isolate n).stmts.Sublist c.stmts := hids _ fun f => List.nil_sublist _
  refine .append (.append (.append (.append (List.Sublist.refl _) (hids _ fun f => ?_))
    (hstmts.map _)) (.map _ (.append (List.Sublist.refl _) ?_))) (.map _ (.append (List.Sublist.refl _) ?_))
  · exact List.Sublist.append (List.Sublist.refl _) (List.nil_sublist _)
  · exact hstmts.flatMap _
  · exact hstmts.flatMap _

theorem wellNamed_isolate : (c.isolate n).WellNamed ↔ c.WellNamed := by
  have hnames : (c.isolate n).functions.map (·.name.text) = c.functions.map (·.name.text) := by
    change (c.functions.map (·.isolate n)).map _ = _
    rw [List.map_map]
    exact List.map_congr_left fun f _ => congrArg Ident.text (f.name_isolate n)
  have hall : ∀ P : String → Prop, (∀ f ∈ (c.isolate n).functions, P f.name.text) ↔
      ∀ f ∈ c.functions, P f.name.text := by
    intro P
    rw [← List.forall_mem_map (f := fun f : FunctionDecl => f.name.text), hnames, List.forall_mem_map]
  have hctor : (c.isolate n).ctor.isSome = c.ctor.isSome := Option.isSome_map
  constructor
  · intro h
    exact ⟨h.name, h.fields, h.structs, (hall (· ∉ reservedWords)).1 h.functions, hnames ▸ h.apart,
      fun hsome => (hall (· ≠ constructorName)).1 (h.ctor (hctor.trans hsome))⟩
  · intro h
    refine ⟨h.name, h.fields, h.structs, (hall (· ∉ reservedWords)).2 h.functions, ?_,
      fun hsome => (hall (· ≠ constructorName)).2 (h.ctor (hctor.symm.trans hsome))⟩
    rw [hnames]
    exact h.apart

end ContractDecl

/-! ### What is asked of one callable -/

/-- Nothing is asked of an empty body. -/
theorem Callable.Admitted.emptied {c : ContractDecl} {f : Callable} (h : f.Admitted c) :
    Callable.Admitted c { f with body := Build.block [] } where
  names := List.append_eq_nil_iff.2 ⟨(List.append_eq_nil_iff.1 h.names).1, rfl⟩
  typed := {
    vars := fun v hv => by
      rcases List.mem_append.1 hv with hv | hv
      · exact h.typed.vars v (List.mem_append_left _ hv)
      · cases hv
    few := h.typed.few
    void := h.typed.void
    returns := h.typed.returns }
  accepted _ hs := by cases hs

theorem Callable.Admitted.isolate {c : ContractDecl} {f : Callable} (h : f.Admitted c) (n : NodeId) :
    (f.isolate n).Admitted c := by
  rcases f.isolate_cases n with he | he
  · rwa [he]
  · rw [he]
    exact h.emptied

/-- A callable is judged by the names and signatures of the others. -/
theorem Callable.admitted_isolate (c : ContractDecl) (n : NodeId) (f : Callable) :
    f.Admitted (c.isolate n) ↔ f.Admitted c := by
  have henv := c.env_isolate n
  have hnames : (c.isolate n).structNames = c.structNames := rfl
  exact ⟨fun h => h.transfer (List.Subset.refl _) henv.symm,
    fun h => h.transfer (hnames ▸ List.Subset.refl _) henv⟩

namespace ContractDecl
variable {c : ContractDecl}

theorem framed_isolate (n : NodeId) : (c.isolate n).Framed ↔ c.Framed := by
  have hfield : (c.isolate n).fieldSpot = c.fieldSpot := by
    unfold fieldSpot
    rw [c.env_isolate n]
  have hstruct : ∀ s, (c.isolate n).structSpot s = c.structSpot s := by
    intro s
    unfold structSpot
    rw [c.env_isolate n]
  constructor
  · intro h
    exact ⟨(c.wellNamed_isolate n).1 h.names, c.env_isolate n ▸ h.fieldTypes, hfield ▸ h.fields,
      fun s hs f hf => hstruct s ▸ h.structFields s hs f hf⟩
  · intro h
    exact ⟨(c.wellNamed_isolate n).2 h.names, (c.env_isolate n).symm ▸ h.fieldTypes,
      hfield.symm ▸ h.fields, fun s hs f hf => (hstruct s).symm ▸ h.structFields s hs f hf⟩

theorem accepted_isolate_iff (n : NodeId) :
    (c.isolate n).Accepted ↔ c.Framed ∧ ∀ f ∈ c.callables, (f.isolate n).Admitted c := by
  rw [accepted_iff_admitted, framed_isolate, callables_isolate, List.forall_mem_map]
  exact and_congr_right fun _ => forall₂_congr fun f _ => Callable.admitted_isolate c n _

/-- A contract is accepted exactly if it is with each of its bodies alone. -/
theorem accepted_iff_isolated (hne : c.callables ≠ []) :
    c.Accepted ↔ ∀ f ∈ c.callables, (c.isolate f.node.id).Accepted := by
  rw [accepted_iff_admitted]
  constructor
  · rintro ⟨hframed, hcallables⟩ f _
    exact (accepted_isolate_iff _).2 ⟨hframed, fun g hg => (hcallables g hg).isolate _⟩
  · intro h
    obtain ⟨first, hfirst⟩ := List.exists_mem_of_ne_nil _ hne
    refine ⟨((accepted_isolate_iff _).1 (h first hfirst)).1, fun f hf => ?_⟩
    have hself := ((accepted_isolate_iff _).1 (h f hf)).2 f hf
    rwa [Callable.isolate_self] at hself

end ContractDecl

theorem Program.Distinct.isolate {p : Program} (hp : p.Distinct) (n : NodeId) :
    (p.isolate n).Distinct := by
  unfold Program.Distinct Program.nodeIds at hp ⊢
  change ((p.contract.map (·.isolate n)).toList.flatMap _).Nodup
  cases hc : p.contract with
  | none => exact List.nodup_nil
  | some c =>
    rw [hc, Option.toList_some, List.flatMap_singleton] at hp
    rw [Option.map_some, Option.toList_some, List.flatMap_singleton]
    exact hp.sublist (c.nodeIds_isolate n)

/-- An analysis is complete exactly if it is for each callable with the bodies of the others left
empty. -/
theorem Program.complete_iff_isolated {p : Program} (hp : p.Distinct) {c : ContractDecl}
    (hc : p.contract = some c) (hne : c.callables ≠ []) :
    p.Complete ↔ ∀ f ∈ c.callables, (p.isolate f.node.id).Complete := by
  rw [Program.complete_iff hp hc, ContractDecl.accepted_iff_isolated hne]
  refine forall₂_congr fun f _ => ?_
  have hisolated : (p.isolate f.node.id).contract = some (c.isolate f.node.id) := by
    rw [Program.isolate, hc]
    rfl
  exact (Program.complete_iff (hp.isolate _) hisolated).symm

theorem ledger_modular : ledger.Distinct ∧ ∃ c, ledger.contract = some c ∧ c.callables ≠ [] ∧
    ledger.Complete ∧ ∀ f ∈ c.callables, (ledger.isolate f.node.id).Complete := by
  have hd : ledger.Distinct := by decide +kernel
  have hthree : (ledger.contract.map (·.callables.length)) = some 3 := by decide +kernel
  obtain ⟨c, hc, hlen⟩ := Option.map_eq_some_iff.1 hthree
  have hne : c.callables ≠ [] := by
    rintro hnil
    rw [hnil] at hlen
    cases hlen
  have hcomplete : ledger.Complete := Program.complete_of_any (by decide +kernel)
  exact ⟨hd, c, hc, hne, hcomplete, (Program.complete_iff_isolated hd hc hne).1 hcomplete⟩

end ContractLang
