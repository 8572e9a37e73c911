import ContractLang.Proofs.Judgement
/-!
Checking decides whether a program is well typed. What checking reports falls into one share for
each statement and each initial value; such a share is empty exactly if the rules admit the
statement or the value. The main statement is `Program.check_decides`.
-/
namespace ContractLang

section
variable {t : Table}

/-- If each of some things is decided by what is reported of its parts and by one type, then so are
all together. -/
theorem forall₂_iff_quiet {α : Type} {R : α → SymbolId → Prop} {parts : α → List Expr}
    {f : α → Option SymbolId} {xs : List α}
    (h : ∀ x ∈ xs, ∀ type, R x type ↔ t.Quiet (parts x) ∧ f x = some type)
    {types : List SymbolId} :
    List.Forall₂ R xs types ↔ t.Quiet (xs.flatMap parts) ∧ xs.map f = types.map some := by
  induction xs generalizing types with
  | nil => cases types <;> simp [Table.Quiet]
  | cons x rest ih =>
    cases types with
    | nil => simp
    | cons type types =>
      have hrest : List.Forall₂ R rest types ↔
          t.Quiet (rest.flatMap parts) ∧ rest.map f = types.map some :=
        ih fun y hy => h y (List.mem_cons_of_mem _ hy)
      rw [List.forall₂_cons, h x (List.mem_cons_self ..), hrest, List.flatMap_cons,
        Table.quiet_append, List.map_cons, List.map_cons, List.cons.injEq]
      tauto

theorem hasTypes_iff (hr : t.Ready) {es : List Expr} (hn : ∀ u ∈ usesOf es, u.Noted t)
    {types : List SymbolId} :
    List.Forall₂ (Expr.HasType t) es types ↔
      t.Quiet (partsOf es) ∧ es.map (·.typeIn t) = types.map some := by
  rw [partsOf_eq_flatMap]
  rw [usesOf_eq_flatMap] at hn
  exact forall₂_iff_quiet fun e he type =>
    Expr.hasType_iff hr fun u hu => hn u (List.mem_flatMap.2 ⟨e, he, hu⟩)

theorem targets_iff (hr : t.Ready) {targets : List Designator}
    (hn : ∀ u ∈ targets.flatMap Designator.uses, u.Noted t) {types : List SymbolId} :
    List.Forall₂ (Designator.HasType t) targets types ↔
      t.Quiet (targets.flatMap Designator.parts) ∧
        targets.map (fun d => t.typeAt? d.id) = types.map some :=
  forall₂_iff_quiet fun d hd _ =>
    Designator.hasType_iff hr fun u hu => hn u (List.mem_flatMap.2 ⟨d, hd, hu⟩)

theorem fits_iff (hr : t.Ready) {e : Expr} (hn : ∀ u ∈ e.uses, u.Noted t) {type : SymbolId}
    (cause : String → String → Cause) (span : Span) :
    e.HasType t type ↔ t.Quiet e.parts ∧ t.mismatch (some type) (e.typeIn t) cause span = [] := by
  rw [Expr.hasType_iff hr hn]
  refine and_congr_right fun hq => ?_
  obtain ⟨found, hfound⟩ := Expr.exists_hasType hr hn hq
  rw [(hfound.sound hr hn).1, Table.mismatch_eq_nil rfl rfl]
  exact eq_comm

theorem exists_declaredType {node : NodeId} (h : t.Typed node) :
    ∃ type, t.declaredType node = some type := by
  obtain ⟨id, type, hid, htype⟩ := h
  exact ⟨type, by rw [Table.declaredType, hid]; exact htype⟩

theorem init_iff (hr : t.Ready) {node : NodeId} (hnode : t.Typed node) {init : Expr}
    (hn : ∀ u ∈ init.uses, u.Noted t) (name : String) :
    (∃ type, t.DeclaresValue node type ∧ init.HasType t type) ↔
      t.Quiet init.parts ∧ t.initFault node name init = [] := by
  obtain ⟨declared, htype⟩ := exists_declaredType hnode
  simp only [Table.declaresValue_iff, htype, Option.some.injEq, exists_eq_left', Table.initFault]
  exact fits_iff hr hn _ _

theorem targetFault_eq_nil {node : Node} {callee : Designator} {args : List Expr} {id : SymbolId}
    {info : FunctionRecord} (hb : t.boundTo? callee.id = some id) (hf : t.functionAt id = some info)
    {types : List SymbolId} (span : Span) :
    t.targetFault (types.map some) (.call node callee args) span = [] ↔ types = info.returns := by
  have hexpected : ∀ e ∈ types.map some, e.isSome := List.forall_mem_map.2 fun _ _ => rfl
  have hfound : ∀ f ∈ info.returns.map fun r => (some r, span), f.1.isSome :=
    List.forall_mem_map.2 fun _ _ => rfl
  have hfit := Table.fit_eq_nil (t := t) hexpected hfound .valueMismatch 1
    ⟨.valueCount callee.text (types.map some).length info.returns.length, span⟩
  rw [List.zipWith_map_right, List.map_map] at hfit
  simp only [List.length_map, eq_comm (a := types.length)] at hfit
  simp only [Table.targetFault, hb, Option.bind_some, hf, List.length_map]
  exact hfit.trans (List.map_inj_right fun _ _ => Option.some.inj)

theorem yields_iff (hr : t.Ready) {source : Expr} (hn : ∀ u ∈ source.uses, u.Noted t)
    {types : List SymbolId} (span : Span) :
    source.Yields t types ↔
      t.Quiet source.parts ∧ t.targetFault (types.map some) source span = [] := by
  constructor
  · intro h
    cases h with
    | call hbound hinfo htype =>
      exact ⟨(htype.sound hr hn).2,
        (targetFault_eq_nil hbound (Table.function?_eq_some.1 hinfo) span).2 rfl⟩
  · rintro ⟨hq, hfault⟩
    cases source with
    | call node callee args =>
      obtain ⟨type, htype⟩ := Expr.exists_hasType hr hn hq
      obtain ⟨id, info, -, hb, hf, -⟩ := Expr.hasType_call.1 htype
      rw [(targetFault_eq_nil hb hf span).1 hfault]
      exact .call hb (Table.function?_eq_some.2 hf) htype
    | _ => cases hfault

theorem returnFault_eq_nil {function : Option SymbolId} {info : FunctionRecord}
    (hinfo : function.bind t.functionAt = some info) {values : List Expr} {types : List SymbolId}
    (htypes : values.map (·.typeIn t) = types.map some) (span : Span) :
    t.returnFault function values span = [] ↔ types = info.returns := by
  have hexpected : ∀ e ∈ info.returns.map some, e.isSome := List.forall_mem_map.2 fun _ _ => rfl
  have hfound : ∀ a ∈ values.map fun a => (a.typeIn t, a.span), a.1.isSome :=
    List.forall_mem_map.2 (isSome_of_map_eq htypes)
  have hfit := Table.fit_eq_nil (t := t) hexpected hfound .returnMismatch 1
    ⟨.returnCount info.returns.length values.length, span⟩
  have hsame : info.returns.map some = types.map some ↔ types = info.returns :=
    (List.map_inj_right fun _ _ => Option.some.inj).trans eq_comm
  have hcomp : (values.map fun a => (a.typeIn t, a.span)).map Prod.fst = types.map some := by
    rw [List.map_map]
    exact htypes
  rw [List.length_map, List.length_map, List.zipWith_map_left, hcomp] at hfit
  simp only [Table.returnFault, hinfo]
  -- A function that returns nothing is asked only whether there are values.
  by_cases hreturns : info.returns = []
  · have hnil : values = [] ↔ types = [] := by
      rw [← List.map_eq_nil_iff (f := (·.typeIn t)), htypes, List.map_eq_nil_iff]
    by_cases hvalues : values = [] <;> simp [hreturns, hvalues, ← hnil]
  · simp only [hreturns, if_false]
    exact hfit.trans hsame

namespace Stmt
variable {function : Option SymbolId} {info : FunctionRecord} {node : Node}

theorem declare_iff (hr : t.Ready) {vars : List VarDecl} {init : Option Expr}
    (hn : ∀ e ∈ init, ∀ u ∈ e.uses, u.Noted t) (hvars : ∀ v ∈ vars, t.Typed v.node.id)
    (returns : List SymbolId) :
    (declare node vars init).WellTyped t returns ↔ t.Quiet (declare node vars init).parts ∧
      (declare node vars init).fault t function = [] := by
  cases init with
  | none => exact ⟨fun _ => ⟨List.forall_mem_nil _, rfl⟩, fun _ => .declare⟩
  | some init =>
    have hinit := hn init rfl
    -- One variable takes the value itself, any other number the results of a call.
    by_cases hone : vars.length = 1
    · obtain ⟨v, rfl⟩ := List.length_eq_one_iff.1 hone
      refine Iff.trans ?_ (init_iff hr (hvars v (List.mem_singleton_self v)) hinit v.name.text)
      constructor
      · intro h
        cases h with
        | declareOne hvar hinit => exact ⟨_, hvar, hinit⟩
        | declareAll hmany => exact absurd hone hmany
      · rintro ⟨type, hvar, hinit⟩
        exact .declareOne hvar hinit
    · have hfault : (declare node vars (some init)).fault t function =
          t.targetFault (vars.map fun v => t.declaredType v.node.id) init node.span := by
        match vars, hone with
        | [], _ => rfl
        | _ :: _ :: _, _ => rfl
      obtain ⟨types, htypes⟩ := exists_map_eq fun v hv => exists_declaredType (hvars v hv)
      rw [hfault, htypes, Stmt.parts, ← yields_iff hr hinit]
      constructor
      · intro h
        cases h with
        | declareOne => exact absurd rfl hone
        | declareAll _ hvars' hsource =>
          simp only [Table.declaresValue_iff, forall₂_eq_some] at hvars'
          rw [htypes] at hvars'
          rw [(List.map_inj_right fun _ _ => Option.some.inj).1 hvars']
          exact hsource
      · intro h
        refine .declareAll hone ?_ h
        simp only [Table.declaresValue_iff, forall₂_eq_some]
        exact htypes

theorem assign_iff (hr : t.Ready) {target : Designator} {value : Expr}
    (hn : ∀ u ∈ target.uses ++ value.uses, u.Noted t) (returns : List SymbolId) :
    (assign node target value).WellTyped t returns ↔ t.Quiet (assign node target value).parts ∧
      (assign node target value).fault t function = [] := by
  obtain ⟨hntarget, hnvalue⟩ := List.forall_mem_append.1 hn
  obtain ⟨type, htype⟩ := (hntarget _ target.mem_uses : target.Noted t).exists_typed
  rw [Stmt.parts, Stmt.fault, Table.quiet_append, htype, and_assoc, ← fits_iff hr hnvalue]
  constructor
  · intro h
    cases h with
    | assign htarget hvalue =>
      obtain ⟨htype', hquiet⟩ := htarget.sound hr hntarget
      cases htype.symm.trans htype'
      exact ⟨hquiet, hvalue⟩
  · rintro ⟨hquiet, hvalue⟩
    exact .assign ((Designator.hasType_iff hr hntarget).2 ⟨hquiet, htype⟩) hvalue

theorem assignAll_iff (hr : t.Ready) {targets : List Designator} {source : Expr}
    (hn : ∀ u ∈ targets.flatMap Designator.uses ++ source.uses, u.Noted t)
    (returns : List SymbolId) :
    (assignAll node targets source).WellTyped t returns ↔
      t.Quiet (assignAll node targets source).parts ∧
        (assignAll node targets source).fault t function = [] := by
  obtain ⟨hntargets, hnsource⟩ := List.forall_mem_append.1 hn
  have hknown : ∀ d ∈ targets, ∃ type, t.typeAt? d.id = some type := by
    intro d hd
    exact Designator.Noted.exists_typed (hntargets _ (List.mem_flatMap.2 ⟨d, hd, d.mem_uses⟩))
  obtain ⟨types, htypes⟩ := exists_map_eq hknown
  rw [Stmt.parts, Stmt.fault, Table.quiet_append, htypes, and_assoc, ← yields_iff hr hnsource]
  constructor
  · intro h
    cases h with
    | assignAll htargets hsource =>
      obtain ⟨hquiet, htypes'⟩ := (targets_iff hr hntargets).1 htargets
      rw [htypes] at htypes'
      rw [(List.map_inj_right fun _ _ => Option.some.inj).1 htypes']
      exact ⟨hquiet, hsource⟩
  · rintro ⟨hquiet, hsource⟩
    exact .assignAll ((targets_iff hr hntargets).2 ⟨hquiet, htypes⟩) hsource

theorem giveBack_iff (hr : t.Ready) (hinfo : function.bind t.functionAt = some info)
    {values : List Expr} (hn : ∀ u ∈ usesOf values, u.Noted t) :
    (giveBack node values).WellTyped t info.returns ↔ t.Quiet (giveBack node values).parts ∧
      (giveBack node values).fault t function = [] := by
  rw [Stmt.parts, Stmt.fault]
  constructor
  · intro h
    cases h with
    | giveBack hvalues =>
      obtain ⟨hquiet, htypes⟩ := (hasTypes_iff hr hn).1 hvalues
      exact ⟨hquiet, (returnFault_eq_nil hinfo htypes node.span).2 rfl⟩
  · rintro ⟨hquiet, hfault⟩
    obtain ⟨types, htypes⟩ := exists_hasTypes hr hn hquiet
    rw [returnFault_eq_nil hinfo ((hasTypes_iff hr hn).1 htypes).2] at hfault
    exact .giveBack (hfault ▸ htypes)

/-- The rules admit a statement if nothing is reported of it and its expressions and if they admit
what stands in its blocks. -/
theorem wellTyped_iff (hr : t.Ready) (hinfo : function.bind t.functionAt = some info) {s : Stmt}
    (hn : ∀ u ∈ s.uses, u.Noted t) (hvars : ∀ v ∈ s.vars, t.Typed v.node.id) :
    s.WellTyped t info.returns ↔ (t.Quiet s.parts ∧ s.fault t function = []) ∧
      ∀ b ∈ s.blocks, ∀ q ∈ b.stmts, q.WellTyped t info.returns := by
  have hleaf : ∀ b ∈ ([] : List Block), ∀ q ∈ b.stmts, q.WellTyped t info.returns :=
    List.forall_mem_nil _
  cases s with
  | declare node vars init =>
    refine (declare_iff hr (fun e he => ?_) hvars info.returns).trans (and_iff_left hleaf).symm
    cases he
    exact hn
  | assign node target value => exact (assign_iff hr hn _).trans (and_iff_left hleaf).symm
  | assignAll node targets source => exact (assignAll_iff hr hn _).trans (and_iff_left hleaf).symm
  | giveBack node values => exact (giveBack_iff hr hinfo hn).trans (and_iff_left hleaf).symm
  | branch node condition onTrue onFalse =>
    rw [Stmt.parts, Stmt.fault, ← fits_iff hr hn]
    constructor
    · intro h
      cases h with
      | branch hcondition htrue hfalse =>
        cases onFalse with
        | none => simpa [Stmt.blocks] using ⟨hcondition, htrue⟩
        | some onFalse => simpa [Stmt.blocks] using ⟨hcondition, htrue, hfalse onFalse rfl⟩
    · rintro ⟨hcondition, hblocks⟩
      cases onFalse with
      | none => exact .branch hcondition (hblocks onTrue (by simp [Stmt.blocks])) nofun
      | some onFalse =>
        refine .branch hcondition (hblocks onTrue (by simp [Stmt.blocks])) ?_
        rintro _ ⟨⟩
        exact hblocks onFalse (by simp [Stmt.blocks])

end Stmt

theorem Stmt.WellTyped.blocks {returns : List SymbolId} {s : Stmt} (h : s.WellTyped t returns) :
    ∀ b ∈ s.blocks, ∀ q ∈ b.stmts, q.WellTyped t returns := by
  cases h with
  | branch hcondition htrue hfalse =>
    rename_i onTrue onFalse
    cases onFalse with
    | none => simpa [Stmt.blocks] using htrue
    | some onFalse => simpa [Stmt.blocks] using ⟨htrue, hfalse onFalse rfl⟩
  | _ => exact List.forall_mem_nil _

theorem Block.wellTyped_all {returns : List SymbolId} {b : List Stmt}
    (h : ∀ s ∈ b, s.WellTyped t returns) : ∀ s ∈ allOf b, s.WellTyped t returns := by
  induction b using Block.induction with
  | nil => exact List.forall_mem_nil _
  | cons s rest hblocks hrest =>
    obtain ⟨hs, htail⟩ := List.forall_mem_cons.1 h
    rw [allOf, Stmt.all_eq, Stmt.inner_eq, List.cons_append, List.forall_mem_cons,
      List.forall_mem_append, List.forall_mem_flatMap]
    exact ⟨hs, fun b hb => hblocks b hb (hs.blocks b hb), hrest htail⟩

theorem Block.wellTyped_iff (hr : t.Ready) {function : Option SymbolId} {info : FunctionRecord}
    (hinfo : function.bind t.functionAt = some info) {b : List Stmt}
    (hn : ∀ s ∈ allOf b, ∀ u ∈ s.uses, u.Noted t) (hvars : ∀ v ∈ localsOf b, t.Typed v.node.id) :
    (∀ s ∈ b, s.WellTyped t info.returns) ↔
      ∀ s ∈ allOf b, t.Quiet s.parts ∧ s.fault t function = [] := by
  induction b using Block.induction with
  | nil => simp [allOf]
  | cons s rest hblocks hrest =>
    rw [allOf, Stmt.all_eq, Stmt.inner_eq, List.cons_append] at hn ⊢
    rw [localsOf, Stmt.locals_eq] at hvars
    obtain ⟨hns, hn⟩ := List.forall_mem_cons.1 hn
    obtain ⟨hninner, hnrest⟩ := List.forall_mem_append.1 hn
    obtain ⟨hvars, hvrest⟩ := List.forall_mem_append.1 hvars
    obtain ⟨hvs, hvinner⟩ := List.forall_mem_append.1 hvars
    -- All statements inside `s` are those of its blocks, to which the hypothesis applies.
    have hinner : (∀ b ∈ s.blocks, ∀ q ∈ b.stmts, q.WellTyped t info.returns) ↔
        ∀ q ∈ s.blocks.flatMap (allOf ·.stmts), t.Quiet q.parts ∧ q.fault t function = [] := by
      rw [List.forall_mem_flatMap]
      refine forall₂_congr fun b hb => hblocks b hb (fun q hq => ?_) fun v hv => ?_
      · exact hninner q (List.mem_flatMap.2 ⟨b, hb, hq⟩)
      · exact hvinner v (List.mem_flatMap.2 ⟨b, hb, hv⟩)
    rw [List.forall_mem_cons, List.forall_mem_cons, List.forall_mem_append,
      Stmt.wellTyped_iff hr hinfo hns hvs, hinner, hrest hnrest hvrest, and_assoc]

end

namespace ContractDecl
variable {c : ContractDecl} {t : Table}

theorem quiet_iff {es : List Expr} : es.flatMap (·.fault t) = [] ↔ t.Quiet es :=
  List.flatMap_eq_nil_iff

namespace Bound

theorem field_noted (h : c.Bound t) {f : FieldDecl} (hf : f ∈ c.allFields) {init : Expr}
    (hi : init ∈ f.init) : ∀ u ∈ init.uses, u.Noted t := fun u hu =>
  h.noted u ((init_within hf hi).2 hu)

theorem stmt_noted (h : c.Bound t) {f : Callable} (hf : f ∈ c.callables) {s : Stmt}
    (hs : s ∈ allOf f.body.stmts) : ∀ u ∈ s.uses, u.Noted t := fun u hu =>
  h.noted u (uses_subset (mem_stmts hf hs) hu)

theorem expr_noted (h : c.Bound t) {e : Expr} (he : e ∈ c.exprs) : ∀ u ∈ e.uses, u.Noted t :=
  fun u hu => h.noted u ((within_exprs he).2 hu)

/-- The rules admit a contract if checking it reports nothing. -/
theorem wellTyped_iff (h : c.Bound t) : c.WellTyped t ↔ c.faults t = [] := by
  have hfields : (∀ f ∈ c.allFields, ∀ init ∈ f.init, ∃ type, t.DeclaresValue f.node.id type ∧
      init.HasType t type) ↔ c.allFields.flatMap (·.faults t) = [] := by
    rw [List.flatMap_eq_nil_iff]
    refine forall₂_congr fun f hf => ?_
    rw [FieldDecl.faults, List.flatMap_eq_nil_iff]
    simp only [Option.mem_toList, List.append_eq_nil_iff, quiet_iff]
    exact forall₂_congr fun init hi =>
      init_iff h.toReady (h.settled.1 f hf) (h.field_noted hf hi) f.name.text
  have hbodies : (∀ f ∈ c.callables, ∃ id info, t.declaredBy? f.node.id = some id ∧
      t.function? id = .ok (some info) ∧ ∀ s ∈ f.body.stmts, s.WellTyped t info.returns) ↔
      c.callables.flatMap (·.faults t) = [] := by
    rw [List.flatMap_eq_nil_iff]
    refine forall₂_congr fun f hf => ?_
    obtain ⟨info, hinfo⟩ := h.functions f hf
    obtain ⟨id, hid, hf'⟩ := Option.bind_eq_some_iff.1 hinfo
    have hbody := Block.wellTyped_iff h.toReady hinfo (fun s hs => h.stmt_noted hf hs) fun v hv =>
      h.settled.2 f hf v (List.mem_append_right _ hv)
    simp only [Table.function?_eq_some, hid, Option.some.injEq, exists_and_left, exists_eq_left',
      hf', hbody, Callable.faults, List.flatMap_eq_nil_iff, Stmt.faults, List.append_eq_nil_iff,
      Table.Quiet]
  rw [ContractDecl.faults, List.append_eq_nil_iff, ← hfields, ← hbodies]
  exact ⟨fun h => ⟨h.fields, h.bodies⟩, fun h => ⟨h.1, h.2⟩⟩

end Bound

theorem quiet_exprs (hq : c.faults t = []) : t.Quiet c.exprs := by
  obtain ⟨hfields, hbodies⟩ := List.append_eq_nil_iff.1 hq
  intro e he
  rcases List.mem_append.1 he with he | he
  · obtain ⟨f, hf, he⟩ := List.mem_flatMap.1 he
    obtain ⟨init, hi, he⟩ := List.mem_flatMap.1 he
    have hshare := List.flatMap_eq_nil_iff.1 (List.flatMap_eq_nil_iff.1 hfields f hf) init hi
    exact List.flatMap_eq_nil_iff.1 (List.append_eq_nil_iff.1 hshare).1 e he
  · obtain ⟨s, hs, he⟩ := List.mem_flatMap.1 he
    obtain ⟨f, hf, hs⟩ := List.mem_flatMap.1 hs
    have hshare := List.flatMap_eq_nil_iff.1 (List.flatMap_eq_nil_iff.1 hbodies f hf) s hs
    exact List.flatMap_eq_nil_iff.1 (List.append_eq_nil_iff.1 hshare).1 e he

/-- The table with what checking notes. -/
def checkedTable (c : ContractDecl) (t : Table) : Table :=
  t.annotated t.bindings (t.types.insertAll (t.typings c.exprs))

namespace Bound

theorem check_run (h : c.Bound t) :
    c.check.run t = .ok ⟨(), c.checkedTable t, c.faults t⟩ :=
  ContractDecl.check_run h.valid c fun _ he => expr_not_use h.distinct he

/-- After checking an expression is noted with its type, if it has one. -/
theorem typeAt?_checked (h : c.Bound t) {e : Expr} (he : e ∈ c.exprs) :
    (c.checkedTable t).typeAt? e.id = e.typeIn t := by
  have hget := Assoc.get?_insertAll_filterMap (Expr.typeIn t) (nodup_exprIds h.distinct) he t.types
  have hfresh : t.types.get? e.id = none := h.fresh e he
  rw [hfresh, Option.or_none] at hget
  exact hget

theorem exists_judged (h : c.Bound t) (hq : c.faults t = []) {e : Expr} (he : e ∈ c.exprs) :
    ∃ type, (c.checkedTable t).typeAt? e.id = some type ∧ ∀ other, e.HasType t other ↔ other = type := by
  have hquiet : t.Quiet e.parts := fun p hp => quiet_exprs hq p ((within_exprs he).1 hp)
  have hn := h.expr_noted he
  obtain ⟨type, htype⟩ := Expr.exists_hasType h.toReady hn hquiet
  have hin := (htype.sound h.toReady hn).1
  refine ⟨type, (h.typeAt?_checked he).trans hin, fun other => ?_⟩
  rw [Expr.hasType_iff h.toReady hn, hin, Option.some.injEq]
  exact ⟨fun hother => hother.2.symm, fun hother => ⟨hquiet, hother.symm⟩⟩

end Bound
end ContractDecl

theorem Program.check_eq {p : Program} {c : ContractDecl} (h : p.contract = some c) :
    p.check = c.check := by rw [Program.check, h]

/-- Checking reports nothing exactly of the programs that the rules admit, and then it notes every
expression with the type that the rules give it. -/
theorem Program.check_decides {p : Program} {t : Table} (hp : p.Distinct)
    (h : p.quietTable? [.symbolConstruction, .typeResolution, .designatorResolution] .initial =
      some t) :
    ∃ c u, p.contract = some c ∧ p.check.run t = .ok u ∧
      (u.diagnostics = [] ↔ p.WellTyped t) ∧
      (u.diagnostics = [] → ∀ e ∈ c.exprs, ∃ type, u.table.typeAt? e.id = some type ∧
        ∀ other, e.HasType t other ↔ other = type) := by
  obtain ⟨c, hcontract, hc⟩ := Program.bound hp h
  refine ⟨c, _, hcontract, Program.check_eq hcontract ▸ hc.check_run, ?_, fun hq e he => ?_⟩
  · simp only [Program.WellTyped, hcontract, Option.mem_def, Option.some.injEq, forall_eq']
    exact hc.wellTyped_iff.symm
  · exact hc.exists_judged hq he

section
open Build

/-- A contract in which most rules are used: a function with two results, an index, the length of
an array, and a call of a function that returns nothing with an argument that it does not take. -/
def ledger : Program := program (some (Id.run (StateT.run' (do
  let total ← field (← namedType "int") "total" (some (← literal (.int 0)))
  let rows ← field (← arrayType (← namedType "int")) "rows" none
  let seen ← field (← namedType "bool") "seen" (some (← literal (.bool false)))
  let entry ← struct "Entry" [seen]
  let n ← varDecl (← namedType "int") "n"
  let split ← function "split" [← namedType "int", ← namedType "bool"] [n]
    [← giveBack [← load (← name "n"),
      ← binary .lt (← load (← name "n")) (← load (← member (← name "rows") "length"))]]
  let log ← function "log" [← voidType] [] []
  let a ← varDecl (← namedType "int") "a"
  let b ← varDecl (← namedType "bool") "b"
  let row ← load (← index (← name "rows") (← literal (.int 0)))
  let both ← declare [a, b] (some (← call (← name "split") [row]))
  let sum ← binary .add (← load (← name "total")) (← unary .neg (← load (← name "a")))
  let store ← assign (← name "total") sum
  let choice ← branch (← binary .and (← load (← name "b")) (← unary .not (← load (← name "true"))))
    [store] (some [← assignAll [← name "a", ← name "b"] (← call (← name "split") [← load (← name "a")])])
  let nothing ← declare [] (some (← call (← name "log") [← literal (.char 'x')]))
  let main ← function "main" [] [] [both, choice, nothing]
  return { ← contract "Ledger" with
    fields := [total, rows], structs := [entry], functions := [split, log, main] }) 0)))

end

theorem ledger_wellTyped : ledger.Distinct ∧
    ∃ t, ledger.quietTable? [.symbolConstruction, .typeResolution, .designatorResolution] .initial =
      some t ∧ ledger.WellTyped t ∧
    ∃ c u, ledger.contract = some c ∧ ledger.check.run t = .ok u ∧
      (u.diagnostics = [] ↔ ledger.WellTyped t) ∧
      (u.diagnostics = [] → ∀ e ∈ c.exprs, ∃ type, u.table.typeAt? e.id = some type ∧
        ∀ other, e.HasType t other ↔ other = type) := by
  have hd : ledger.Distinct := by decide +kernel
  have hq : (ledger.quietTable? ([.symbolConstruction, .typeResolution, .designatorResolution] ++
      [.typeChecking]) .initial).isSome = true := by decide +kernel
  obtain ⟨s, hs⟩ := Option.isSome_iff_exists.1 hq
  obtain ⟨t, ht, hcheck⟩ := Program.quietTable?_append.1 hs
  obtain ⟨c, u, hcontract, hu, hiff, htypes⟩ := Program.check_decides hd ht
  obtain ⟨s', hrun, -⟩ := Program.quietTable?_cons.1 hcheck
  have hsilent : u.diagnostics = [] := by
    cases hu.symm.trans hrun
    rfl
  exact ⟨hd, t, ht, hiff.1 hsilent, c, u, hcontract, hu, hiff, htypes⟩

end ContractLang
