import Mathlib.Data.List.Basic
import ContractLang.Proofs.Declaring
import ContractLang.Proofs.Settling
import ContractLang.Proofs.Stages
/-!
The table when the first two phases have reported nothing. It describes the contract and nothing else:
every declaration has its symbol, every value its type, and no use has been looked at yet.
-/
namespace ContractLang

open Table

/-- The table that some phases leave, if none of them reports anything. -/
def Program.quietTable? (p : Program) : List Phase → Table → Option Table
  | [], t => some t
  | phase :: rest, t =>
    match (phase.pass p).run t with
    | .ok ⟨_, t', []⟩ => p.quietTable? rest t'
    | _ => none

theorem Program.quietTable?_cons {p : Program} {phase : Phase} {rest : List Phase} {t t' : Table} :
    p.quietTable? (phase :: rest) t = some t' ↔
      ∃ s, (phase.pass p).run t = .ok ⟨(), s, []⟩ ∧ p.quietTable? rest s = some t' := by
  rw [Program.quietTable?]
  constructor
  · intro h
    split at h
    · rename_i s hs
      exact ⟨s, hs, h⟩
    · cases h
  · rintro ⟨s, hs, h⟩
    rw [hs]
    exact h

theorem Program.declareSymbols_of_quiet {p : Program} {t t' : Table}
    (h : p.quietTable? [.symbolConstruction] t = some t') :
    p.declareSymbols.run t = .ok ⟨(), t', []⟩ := by
  obtain ⟨s, hrun, he⟩ := Program.quietTable?_cons.1 h
  cases he
  exact hrun

theorem Program.quietTable?_append {p : Program} {phases rest : List Phase} {t t' : Table} :
    p.quietTable? (phases ++ rest) t = some t' ↔
      ∃ s, p.quietTable? phases t = some s ∧ p.quietTable? rest s = some t' := by
  induction phases generalizing t with
  | nil => simp [Program.quietTable?]
  | cons phase phases ih =>
    simp only [List.cons_append, Program.quietTable?_cons, ih]
    constructor
    · rintro ⟨s, hs, s', hs', h⟩
      exact ⟨s', ⟨s, hs, hs'⟩, h⟩
    · rintro ⟨s', ⟨s, hs, hs'⟩, h⟩
      exact ⟨s, hs, s', hs', h⟩

theorem Phase.run_of_analyze {phase : Phase} {p : Program} {t : Table} {a : Analysis}
    (h : phase.analyze p t = .ok a) (hok : a.isOk = true) :
    (phase.pass p).run t = .ok ⟨(), a.table, []⟩ := by
  obtain ⟨⟨-, hfaithful⟩, hrun⟩ := Phase.analyze_eq_ok.1 h
  rw [Analysis.outcome, hfaithful.isOk_iff.1 hok] at hrun
  exact hrun

/-- If the last of some phases has reported nothing, then they have all run and reported nothing. -/
theorem runPhases_quiet {p : Program} {phase : Phase} {rest : List Phase} {t : Table} {r : Trace}
    (h : runPhases none p phase t rest = .ok r) (hok : r.last.isOk = true) :
    p.quietTable? (phase :: rest) t = some r.last.table := by
  induction rest generalizing phase t r with
  | nil =>
    obtain ⟨a, ha, rfl⟩ := runPhases_nil.1 h
    exact Program.quietTable?_cons.2 ⟨_, Phase.run_of_analyze ha hok, rfl⟩
  | cons next rest ih =>
    obtain ⟨a, ha, hgate⟩ := runPhases_cons.1 h
    have hquiet := (Phase.analyze_eq_ok.1 ha).1.2.isOk_iff
    rcases hgate with ⟨hends, rfl⟩ | ⟨hends, later, hlater, rfl⟩
    · simp [Analysis.ends, hquiet.1 hok] at hends
    · have hok₁ := hquiet.2 (Analysis.ends_eq_false.1 hends).1
      exact Program.quietTable?_cons.2 ⟨_, Phase.run_of_analyze ha hok₁, ih (r := later) hlater hok⟩

theorem Program.quietTable?_of_complete {p : Program} {a : Analysis} (h : p.analyze = .ok a)
    (hc : a.isComplete = true) :
    p.quietTable? (.symbolConstruction :: Phase.afterFirst) .initial = some a.table := by
  unfold Program.analyze Config.analyze at h
  cases htrace : Config.default.trace p with
  | error e =>
    rw [htrace] at h
    cases h
  | ok r =>
    rw [htrace] at h
    cases h
    exact runPhases_quiet htrace (Bool.and_eq_true_iff.1 hc).1

/-! ### Declarations by their nodes -/

def Decl.label (d : Decl) : Node × String := (⟨d.node, d.symbol.span⟩, d.symbol.name)

namespace ContractDecl
variable {c : ContractDecl}

/-- The declarations by their nodes and names, in order. -/
def labels (c : ContractDecl) : List (Node × String) :=
  (c.node, c.name.text) :: c.fields.map (fun f => (f.node, f.name.text)) ++
    c.structs.flatMap (fun s => (s.node, s.name.text) :: s.fields.map fun f => (f.node, f.name.text)) ++
    c.callables.flatMap fun f =>
      (f.node, f.declaredName) :: f.params.map (fun v => (v.node, v.name.text)) ++
        (localsOf f.body.stmts).map fun v => (v.node, v.name.text)

theorem labels_decls (c : ContractDecl) : c.decls.map Decl.label = c.labels := by
  have hstructs : c.structDecls.map Decl.label = c.structs.flatMap fun s =>
      (s.node, s.name.text) :: s.fields.map fun f => (f.node, f.name.text) := by
    simp only [structDecls, List.map_flatMap, StructDecl.decls, List.map_cons, List.map_map]
    exact placements_flatMap (fun s : StructDecl =>
      (s.node, s.name.text) :: s.fields.map fun f => (f.node, f.name.text)) ..
  have hcallables : c.callableDecls.map Decl.label = c.callables.flatMap fun f =>
      (f.node, f.declaredName) :: f.params.map (fun v => (v.node, v.name.text)) ++
        (localsOf f.body.stmts).map fun v => (v.node, v.name.text) := by
    simp only [callableDecls, List.map_flatMap, Callable.decls, List.map_cons, List.map_append,
      List.map_map]
    exact placements_flatMap (fun f : Callable =>
      (f.node, f.declaredName) :: (f.params.map (fun v => (v.node, v.name.text)) ++
        (localsOf f.body.stmts).map fun v => (v.node, v.name.text))) ..
  simp only [decls, List.map_cons, List.map_append, List.map_map, hstructs, hcallables]
  rfl

theorem nodes_labels (c : ContractDecl) : c.labels.map (·.1.id) = c.declarationIds := by
  simp [labels, declarationIds, List.map_flatMap, Function.comp_def]

theorem nodes_decls (c : ContractDecl) : c.decls.map (·.node) = c.declarationIds := by
  rw [← nodes_labels, ← labels_decls, List.map_map]
  rfl

theorem struct_numbered {p : Placement StructDecl} (hp : p ∈ c.structPlaces) {d : Decl}
    {id : SymbolId} (hd : (d, id) ∈ numbered p.symbol (p.member.decls .members p.scope)) :
    (d, id) ∈ numbered 10 c.decls := by
  have hmem : (d, id) ∈ numbered (11 + c.fields.length) c.structDecls :=
    mem_numbered_placement (fun i s => s.length_decls .members i) hp hd
  rw [decls, numbered_cons, numbered_append, numbered_append, List.length_map]
  exact List.mem_cons_of_mem _ (List.mem_append_left _ (List.mem_append_right _ hmem))

theorem callable_numbered {p : Placement Callable} (hp : p ∈ c.callablePlaces) {d : Decl}
    {id : SymbolId} (hd : (d, id) ∈ numbered p.symbol (p.member.decls .members p.scope)) :
    (d, id) ∈ numbered 10 c.decls := by
  have hmem : (d, id) ∈ numbered (11 + c.fields.length + c.structDecls.length) c.callableDecls :=
    mem_numbered_placement (fun i f => f.length_decls .members i) hp hd
  rw [decls, numbered_cons, numbered_append, List.length_append, List.length_map, ← Nat.add_assoc]
  exact List.mem_cons_of_mem _ (List.mem_append_right _ hmem)

theorem exists_structPlace {s : StructDecl} (h : s ∈ c.structs) :
    ∃ p ∈ c.structPlaces, p.member = s := exists_placement h ..

theorem exists_callablePlace {f : Callable} (h : f ∈ c.callables) :
    ∃ p ∈ c.callablePlaces, p.member = f := exists_placement h ..

theorem field_numbered {f : FieldDecl} (h : f ∈ c.allFields) :
    ∃ scope id, (f.decl scope, id) ∈ numbered 10 c.decls := by
  rcases List.mem_append.1 h with h | h
  · refine ⟨.members, exists_numbered 10 c.decls ?_⟩
    simp [decls, List.mem_map_of_mem h]
  · obtain ⟨s, hs, hf⟩ := List.mem_flatMap.1 h
    obtain ⟨p, hp, rfl⟩ := exists_structPlace hs
    obtain ⟨id, hid⟩ := exists_numbered p.symbol (p.member.decls .members p.scope)
      (List.mem_cons_of_mem _ (List.mem_map_of_mem hf))
    exact ⟨p.scope, id, struct_numbered hp hid⟩

theorem var_numbered {p : Placement Callable} (hp : p ∈ c.callablePlaces) {v : VarDecl}
    (hv : v ∈ p.member.vars) : ∃ kind id, (v.decl p.scope kind, id) ∈ numbered 10 c.decls ∧
      kind.isValue ∧ kind.valueType? = none := by
  rcases List.mem_append.1 hv with hv | hv
  · obtain ⟨id, hid⟩ := exists_numbered p.symbol (p.member.decls .members p.scope)
      (List.mem_cons_of_mem _ (List.mem_append_left _ (List.mem_map_of_mem hv)))
    exact ⟨_, id, callable_numbered hp hid, rfl, rfl⟩
  · obtain ⟨id, hid⟩ := exists_numbered p.symbol (p.member.decls .members p.scope)
      (List.mem_cons_of_mem _ (List.mem_append_right _ (List.mem_map_of_mem hv)))
    exact ⟨_, id, callable_numbered hp hid, rfl, rfl⟩

theorem value_of_mem_decls {d : Decl} (h : d ∈ c.decls) (hv : d.symbol.kind.isValue = true) :
    (∃ f ∈ c.allFields, d.node = f.node.id) ∨
      ∃ f ∈ c.callables, ∃ v ∈ f.vars, d.node = v.node.id := by
  simp only [decls, List.mem_cons, List.mem_append, List.mem_map] at h
  rcases h with rfl | (⟨f, hf, rfl⟩ | h) | h
  · cases hv
  · exact .inl ⟨f, List.mem_append_left _ hf, rfl⟩
  · obtain ⟨p, hp, hd⟩ := List.mem_flatMap.1 h
    rcases List.mem_cons.1 hd with rfl | hd
    · cases hv
    · obtain ⟨f, hf, rfl⟩ := List.mem_map.1 hd
      have hmem := List.mem_flatMap.2 ⟨p.member, placement_member hp, hf⟩
      exact .inl ⟨f, List.mem_append_right _ hmem, rfl⟩
  · obtain ⟨p, hp, hd⟩ := List.mem_flatMap.1 h
    rcases List.mem_cons.1 hd with rfl | hd
    · cases hv
    · rcases List.mem_append.1 hd with hd | hd
      · obtain ⟨v, hmem, rfl⟩ := List.mem_map.1 hd
        exact .inr ⟨p.member, placement_member hp, v, List.mem_append_left _ hmem, rfl⟩
      · obtain ⟨v, hmem, rfl⟩ := List.mem_map.1 hd
        exact .inr ⟨p.member, placement_member hp, v, List.mem_append_right _ hmem, rfl⟩

end ContractDecl

/-! ### After two phases -/

/-- The table has the declarations of the contract and no others. -/
structure ContractDecl.Founded (c : ContractDecl) (t : Table) : Prop where
  valid : t.Valid
  outlines : ∃ new, t.outlines = initial.outlines ++ c.decls.map (·.symbol) ++ new ∧
    ∀ s ∈ new, s.kind.IsStructural
  scopes : t.scopeOutlines = initial.scopeOutlines ++ c.scopes
  entries : ∀ scope, t.entries scope = initial.entries scope ++ listed 10 c.decls scope
  declared : ∀ d id, (d, id) ∈ numbered 10 c.decls →
    t.declaredBy? d.node = some id ∧ t.sort? id = some d.symbol.kind
  origin : ∀ n id, t.declaredBy? n = some id → ∃ d, (d, id) ∈ numbered 10 c.decls ∧ d.node = n
  visible : ∀ id stmt, stmt ∈ t.visibleIn id ↔ c.shown id stmt
  contract : t.contract = some .contract
  bindings : t.bindings = .empty
  types : t.types = .empty

/-- Besides, each value has its type. -/
structure ContractDecl.Prepared (c : ContractDecl) (t : Table) : Prop extends c.Founded t where
  distinct : c.nodeIds.Nodup
  settled : c.Settled t
  quiet : ∀ f ∈ c.callables, f.varFaults c.structNames = []

theorem Table.visibleIn_initial (id : SymbolId) : initial.visibleIn id = [] := by
  have hall : ∀ s ∈ initial.symbols, s.kind.visibility = [] := by decide
  cases hs : initial.symbols[id.index]? with
  | none =>
    rw [visibleIn, kind?, hs]
    rfl
  | some s =>
    rw [visibleIn, kind?, hs]
    exact hall s (List.mem_of_getElem? hs)

theorem ContractDecl.declared_of_declares {c : ContractDecl} {t : Table}
    (hn : c.declarationIds.Nodup)
    (h : (initial.setContract .contract).Declares t c.decls c.scopes c.shown) : c.Declared t := by
  have hdeclared : ∀ d id, (d, id) ∈ numbered 10 c.decls →
      t.declaredBy? d.node = some id ∧ t.sort? id = some d.symbol.kind :=
    fun _ _ hd => h.declaredBy (c.nodes_decls ▸ hn) hd
  refine ⟨fun f hf => ?_, fun f hf => ?_⟩
  · obtain ⟨scope, id, hid⟩ := field_numbered hf
    obtain ⟨hd, hs⟩ := hdeclared _ _ hid
    exact ⟨id, _, hd, hs, rfl, rfl⟩
  · obtain ⟨p, hp, rfl⟩ := exists_callablePlace hf
    constructor
    · obtain ⟨id, hid⟩ := exists_numbered p.symbol (p.member.decls .members p.scope)
        (List.mem_cons_self ..)
      exact ⟨id, (hdeclared _ _ (callable_numbered hp hid)).1⟩
    · intro v hv
      obtain ⟨kind, id, hid, hvalue, hnone⟩ := var_numbered hp hv
      obtain ⟨hd, hs⟩ := hdeclared _ _ hid
      exact ⟨id, kind, hd, hs, hvalue, hnone⟩

/-- A contract can always be declared, whatever is reported of it. -/
theorem ContractDecl.exists_declared (c : ContractDecl) :
    ∃ t, c.declare.run .initial = .ok ⟨(), t, c.declFaults⟩ ∧ t.Valid := by
  obtain ⟨_, t, ⟨ds, hrun⟩, hv, -⟩ := c.declare_safe valid_initial
  obtain ⟨-, rfl⟩ := declare_inv hrun
  exact ⟨t, hrun, hv⟩

/-- After the first phase, whatever it reports, the table has the declarations. -/
theorem ContractDecl.founded_of_declares {c : ContractDecl} {t : Table} (hv : t.Valid)
    (hn : c.declarationIds.Nodup)
    (h : (initial.setContract .contract).Declares t c.decls c.scopes c.shown) : c.Founded t where
  valid := hv
  outlines := ⟨[], by rw [h.outlines, List.append_nil]; rfl, by simp⟩
  scopes := h.scopes
  entries := h.entries
  declared _ _ hd := h.declaredBy (c.nodes_decls ▸ hn) hd
  origin n id hid := by
    rw [declaredBy?, h.declared] at hid
    obtain hmem | hold := Assoc.mem_or_of_get?_insertAll hid
    · obtain ⟨p, hp, he⟩ := List.mem_map.1 hmem
      cases he
      exact ⟨p.1, hp, rfl⟩
    · cases hold
  visible id stmt := by
    have hnone : (initial.setContract .contract).visibleIn id = [] := visibleIn_initial id
    rw [h.visible, hnone]
    simp
  contract := h.contract
  bindings := h.bindings
  types := h.types

/-- Settling types leaves the declarations as they are. -/
theorem ContractDecl.Founded.settles {c : ContractDecl} {t t' : Table} (h : c.Founded t)
    (hv : t'.Valid) (hs : t.Settles t') : c.Founded t' where
  valid := hv
  outlines := by
    obtain ⟨old, hold, hstruct⟩ := h.outlines
    obtain ⟨new, hnew, hstruct'⟩ := hs.outlines
    refine ⟨old ++ new, ?_, List.forall_mem_append.2 ⟨hstruct, hstruct'⟩⟩
    rw [hnew, hold, List.append_assoc]
  scopes := by
    have hsame : t'.scopeOutlines = t.scopeOutlines := by
      rw [scopeOutlines, hs.scopes]
      rfl
    exact hsame.trans h.scopes
  entries scope := by
    have hsame : t'.entries scope = t.entries scope := by
      rw [Table.entries, hs.scopes]
      rfl
    exact hsame.trans (h.entries scope)
  declared d id hid := by
    obtain ⟨hdec, hsort⟩ := h.declared d id hid
    exact ⟨(congrArg (Assoc.get? · d.node) hs.declared).trans hdec, hs.sort_old hsort⟩
  origin n id hid := h.origin n id ((congrArg (Assoc.get? · n) hs.declared).symm.trans hid)
  visible id stmt := by rw [hs.visible, h.visible]
  contract := hs.contract.trans h.contract
  bindings := hs.bindings.trans h.bindings
  types := hs.types.trans h.types

theorem Program.Distinct.nodup {p : Program} (hp : p.Distinct) {c : ContractDecl}
    (hc : p.contract = some c) : c.nodeIds.Nodup := by
  rw [Program.Distinct, Program.nodeIds, hc, Option.toList_some, List.flatMap_singleton] at hp
  exact hp

theorem Program.prepared {p : Program} {t : Table} (hp : p.Distinct)
    (h : p.quietTable? [.symbolConstruction, .typeResolution] .initial = some t) :
    ∃ c, p.contract = some c ∧ c.Prepared t := by
  obtain ⟨t₁, h₁, k₁⟩ := Program.quietTable?_cons.1 h
  obtain ⟨t₂, h₂, k₂⟩ := Program.quietTable?_cons.1 k₁
  cases k₂
  have hv₁ := ((p.declareSymbols_safe valid_initial).of_run h₁).1
  change p.declareSymbols.run .initial = _ at h₁
  change p.resolveTypes.run t₁ = _ at h₂
  unfold Program.declareSymbols at h₁
  unfold Program.resolveTypes at h₂
  cases hcontract : p.contract with
  | none =>
    rw [hcontract] at h₁
    cases h₁
  | some c =>
    rw [hcontract] at h₁ h₂
    have hn := hp.nodup hcontract
    have hdn := ContractDecl.nodup_declarationIds hn
    obtain ⟨hd, hq⟩ := ContractDecl.declare_inv h₁
    obtain ⟨hv, hs, hsettled⟩ := ContractDecl.resolveTypes_inv hv₁ h₂
    have hfounded := (ContractDecl.founded_of_declares hv₁ hdn hd).settles hv hs
    refine ⟨c, rfl, ?_⟩
    exact { hfounded with
      distinct := hn
      settled := hsettled rfl (ContractDecl.declared_of_declares hdn hd)
      quiet := ContractDecl.varFaults_of_declFaults hq.symm }

/-- The table with what binding notes. -/
def ContractDecl.boundTable (c : ContractDecl) (t : Table) : Table :=
  t.annotated (Assoc.empty.insertAll (t.boundPairs (c.placed t .members)))
    (Assoc.empty.insertAll (t.typedPairs (c.placed t .members)))

namespace ContractDecl.Founded
variable {c : ContractDecl} {t : Table}

/-- A symbol of the program that is no array or map comes from a declaration. -/
theorem exists_decl (h : c.Founded t) {id : SymbolId} (hid : 10 ≤ id.index) {k : SymbolKind}
    (hk : t.sort? id = some k) (hs : ¬k.IsStructural) :
    ∃ d, (d, id) ∈ numbered 10 c.decls ∧ d.symbol.kind = k := by
  obtain ⟨new, hnew, hstruct⟩ := h.outlines
  have hlen : initial.outlines.length = 10 := rfl
  rw [sort?_eq, hnew, List.append_assoc, List.getElem?_append_right (by omega), hlen] at hk
  by_cases hlt : id.index - 10 < (c.decls.map (·.symbol)).length
  · rw [List.getElem?_append_left hlt, List.getElem?_map] at hk
    obtain ⟨s, hget, rfl⟩ := Option.map_eq_some_iff.1 hk
    obtain ⟨d, hd, rfl⟩ := Option.map_eq_some_iff.1 hget
    refine ⟨d, mem_numbered.2 ⟨id.index - 10, hd, ?_⟩, rfl⟩
    exact congrArg SymbolId.mk (by omega : id.index = 10 + (id.index - 10))
  · rw [List.getElem?_append_right (Nat.not_lt.1 hlt)] at hk
    obtain ⟨s, hget, rfl⟩ := Option.map_eq_some_iff.1 hk
    exact absurd (hstruct s (List.mem_of_getElem? hget)) hs

theorem memberScope (h : c.Founded t) : t.memberScope = .ok .members := by
  have hsort : t.sort? .contract = some (.contract ⟨.members, [], [], none, []⟩) := by
    refine (h.declared _ .contract (mem_numbered.2 ⟨0, rfl, rfl⟩)).2
  obtain ⟨k, hk, ho⟩ := Option.map_eq_some_iff.1 hsort
  rw [Table.memberScope, contractRecord?, h.contract]
  cases k with
  | contract info =>
    simp only [SymbolKind.outline, SymbolKind.contract.injEq, ContractRecord.mk.injEq] at ho
    simp [kindOf_eq_ok.2 hk, Except.map, SymbolKind.contract?, ho.1]
  | _ => cases ho

theorem functionOf (h : c.Founded t) {p : Placement Callable} (hp : p ∈ c.callablePlaces) :
    ∃ info, t.functionOf p.member = some info ∧ info.inner = p.scope := by
  obtain ⟨hd, hsort⟩ := h.declared _ ⟨p.symbol⟩
    (callable_numbered hp (mem_numbered.2 ⟨0, rfl, rfl⟩))
  obtain ⟨k, hk, ho⟩ := Option.map_eq_some_iff.1 hsort
  rw [Table.functionOf, hd, Option.bind_some, functionAt, hk]
  cases k with
  | function info =>
    simp only [SymbolKind.outline, SymbolKind.function.injEq, FunctionRecord.mk.injEq] at ho
    exact ⟨info, rfl, ho.1⟩
  | _ => cases ho

theorem fieldScope (h : c.Founded t) {p : Placement StructDecl} (hp : p ∈ c.structPlaces) :
    t.fieldScope p.member = some p.scope := by
  obtain ⟨hd, hsort⟩ := h.declared _ ⟨p.symbol⟩
    (struct_numbered hp (mem_numbered.2 ⟨0, rfl, rfl⟩))
  obtain ⟨k, hk, ho⟩ := Option.map_eq_some_iff.1 hsort
  rw [Table.fieldScope, hd, Option.bind_some, hk]
  cases k with
  | struct inner fields =>
    simp only [SymbolKind.outline, SymbolKind.struct.injEq] at ho
    exact congrArg some ho.1
  | _ => cases ho

/-- No use is passed over. -/
theorem placed_uses (h : c.Founded t) :
    (c.placed t .members).map Prod.snd = c.uses := by
  -- All struct types and callables have been declared, so that none is passed over.
  have hstructs : ∀ s ∈ c.structs, ((t.fieldScope s).toList.flatMap fun scope =>
      s.fields.flatMap (·.placed scope)).map Prod.snd = s.fields.flatMap FieldDecl.uses := by
    intro s hs
    obtain ⟨p, hp, rfl⟩ := exists_structPlace hs
    rw [h.fieldScope hp]
    simp [List.map_flatMap, FieldDecl.placed_snd]
  have hcallables : ∀ f ∈ c.callables, ((t.functionOf f).toList.flatMap fun info =>
      (allOf f.body.stmts).flatMap (·.placed info.inner)).map Prod.snd =
        (allOf f.body.stmts).flatMap Stmt.uses := by
    intro f hf
    obtain ⟨p, hp, rfl⟩ := exists_callablePlace hf
    obtain ⟨info, hinfo, -⟩ := h.functionOf hp
    rw [hinfo]
    simp [List.map_flatMap, Stmt.placed_snd]
  rw [ContractDecl.placed, List.map_append, List.map_append, List.map_flatMap, List.map_flatMap,
    List.map_flatMap, List.flatMap_congr hstructs, List.flatMap_congr hcallables]
  simp [ContractDecl.uses, ContractDecl.allFields, ContractDecl.stmts, List.flatMap_assoc,
    FieldDecl.placed_snd]

theorem placed_ids (h : c.Founded t) :
    (c.placed t .members).map (·.2.id) = c.uses.map Use.id := by
  rw [← h.placed_uses, List.map_map]
  rfl

theorem mem_placed (h : c.Founded t) {p : Placement Callable} (hp : p ∈ c.callablePlaces)
    {s : Stmt} (hs : s ∈ allOf p.member.body.stmts) {u : Use} (hu : u ∈ s.uses) :
    (⟨p.scope, some s.id⟩, u) ∈ c.placed t .members := by
  obtain ⟨info, hinfo, hinner⟩ := h.functionOf hp
  refine List.mem_append_right _ (List.mem_flatMap.2 ⟨p.member, placement_member hp, ?_⟩)
  rw [hinfo, Option.toList_some, List.flatMap_singleton, hinner]
  exact List.mem_flatMap.2 ⟨s, hs, List.mem_map_of_mem hu⟩

end ContractDecl.Founded

namespace ContractDecl.Prepared
variable {c : ContractDecl} {t : Table}

theorem exists_valueType (h : c.Prepared t) {id : SymbolId} {k : SymbolKind}
    (hk : t.kind? id = some k) (hv : k.isValue = true) : ∃ type, t.valueType id = some type := by
  by_cases hid : id.index < 10
  · -- The built-in values are constants and the length of arrays.
    have hall : ∀ i < 10, ∀ k ∈ initial.kind? ⟨i⟩, k.isValue = true → k.valueType?.isSome := by
      decide
    have hold : initial.kind? id = some k := (h.valid.kind?_builtin hid).symm.trans hk
    rw [valueType, hk]
    exact Option.isSome_iff_exists.1 (hall id.index hid k hold hv)
  · have hsort : t.sort? id = some k.outline := by rw [sort?, hk]; rfl
    have hplain : ¬k.outline.IsStructural ∧ k.outline.isValue = true := by
      cases k <;> simp_all [SymbolKind.isValue, SymbolKind.outline, SymbolKind.IsStructural]
    obtain ⟨d, hd, hkind⟩ := h.exists_decl (Nat.not_lt.1 hid) hsort hplain.1
    obtain ⟨i, hi, -⟩ := mem_numbered.1 hd
    have hdecl := (h.declared d id hd).1
    have htyped : t.Typed d.node := by
      rcases value_of_mem_decls (List.mem_of_getElem? hi) (hkind ▸ hplain.2) with
        ⟨f, hf, hnode⟩ | ⟨f, hf, v, hv, hnode⟩
      · rw [hnode]
        exact h.settled.1 f hf
      · rw [hnode]
        exact h.settled.2 f hf v hv
    obtain ⟨id', type, hid', htype⟩ := htyped
    rw [hdecl] at hid'
    cases hid'
    exact ⟨type, htype⟩

/-- Binding notes what each use stands for and its type, and nothing else. -/
theorem bindNames_run (h : c.Prepared t) :
    c.bindNames.run t =
      .ok ⟨(), c.boundTable t, (c.placed t .members).flatMap fun q => q.2.fault t q.1⟩ := by
  have hrun := c.bindNames_binds h.valid h.memberScope (nodup_useIds h.distinct) .empty .empty
  have hself : t.annotated .empty .empty = t :=
    congrArg₂ t.annotated h.bindings.symm h.types.symm
  rw [hself] at hrun
  exact hrun

theorem nodup_placed (h : c.Prepared t) : ((c.placed t .members).map (·.2.id)).Nodup := by
  rw [h.placed_ids]
  exact nodup_useIds h.distinct

theorem boundTo?_eq (h : c.Prepared t) {q : Site × Use} (hq : q ∈ c.placed t .members) :
    (c.boundTable t).boundTo? q.2.id = q.2.referent t q.1 :=
  (Assoc.get?_insertAll_filterMap (fun q : Site × Use => q.2.referent t q.1) h.nodup_placed hq .empty).trans
    Option.or_none

theorem typeAt?_eq (h : c.Prepared t) {q : Site × Use} (hq : q ∈ c.placed t .members) :
    (c.boundTable t).typeAt? q.2.id = q.2.typeFrom t q.1 :=
  (Assoc.get?_insertAll_filterMap (fun q : Site × Use => q.2.typeFrom t q.1) h.nodup_placed hq .empty).trans
    Option.or_none

end ContractDecl.Prepared
end ContractLang
