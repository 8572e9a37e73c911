import ContractLang.Proofs.Elaborated
import ContractLang.Proofs.Naming
import ContractLang.Proofs.WellTyped
/-!
An analysis is complete exactly for the contracts that are accepted. Checking reports an expression
or a statement exactly if it does not fit; with what the earlier phases report, `Program.complete_iff`
says of a program whose nodes are distinct when nothing is reported, and `Program.Elaborates` what
the table of a complete analysis holds.
-/
namespace ContractLang

open Table

/-! ### Types that agree -/

namespace ContractDecl.Elaborated
variable {c : ContractDecl} {t : Table} (h : c.Elaborated t)
include h

/-- A mismatch is reported exactly if the types do not agree. -/
theorem mismatch_eq_nil {a b : Option Ty} {x y : Option SymbolId} (ha : t.Realizes a x)
    (hb : t.Realizes b y) (s : Table) (cause : String → String → Cause) (span : Span) :
    s.mismatch x y cause span = [] ↔ Agree a b := by
  unfold Table.mismatch Agree
  cases ha with
  | none => simp
  | @some a x ha =>
    cases hb with
    | none => simp
    | @some b y hb =>
      have hsame : x = y ↔ a = b := by
        constructor
        · rintro rfl
          exact h.typeOf?_inj ha hb
        · rintro rfl
          exact Option.some.inj (ha.symm.trans hb)
      by_cases hab : a = b
      · simp [hab, hsame.2 hab]
      · simp [hab, mt hsame.1 hab]

theorem mismatches_eq_nil {as bs : List (Option Ty)} {es : List (Option SymbolId)}
    {fs : List (Option SymbolId × Span)} (hes : List.Forall₂ t.Realizes as es)
    (hfs : List.Forall₂ (fun b f => t.Realizes b f.1) bs fs) (s : Table)
    (cause : Nat → String → String → Cause) (position : Nat) (d : Diagnostic) :
    (if es.length = fs.length then
      s.mismatches cause position (es.zipWith (fun e f => ⟨e, f.1, f.2⟩) fs) else [d]) = [] ↔
      List.Forall₂ Agree as bs := by
  induction hes generalizing bs fs position with
  | nil =>
    cases hfs with
    | nil => simp [Table.mismatches]
    | cons _ _ => simp
  | @cons a e as es ha _ ih =>
    cases hfs with
    | nil => simp
    | @cons b f bs fs hb hfs =>
      have hrest := ih hfs (position + 1)
      rw [List.forall₂_cons, ← h.mismatch_eq_nil ha hb s (cause position) f.2, ← hrest]
      by_cases hlen : es.length = fs.length
      · simp [hlen, Table.mismatches]
      · simp [hlen]

theorem joins_eq {a b : Ty} {l r : SymbolId} (ha : t.typeOf? a = some l) (hb : t.typeOf? b = some r)
    (op : BinaryOp) : op.joins a b = op.accepts l r := by
  have hbuiltin : ∀ {type : Ty} {id j : SymbolId}, t.typeOf? type = some id → j.index < 10 →
      (type = .builtin j ↔ id = j) := by
    intro type id j hid hj
    constructor
    · rintro rfl
      exact Option.some.inj (hid.symm.trans (t.typeOf?_builtin hj))
    · rintro rfl
      exact h.typeOf?_inj hid (t.typeOf?_builtin hj)
  have hsame : a = b ↔ l = r := by
    constructor
    · rintro rfl
      exact Option.some.inj (ha.symm.trans hb)
    · rintro rfl
      exact h.typeOf?_inj ha hb
  have hint : SymbolId.int.index < 10 := by decide
  have hbool : SymbolId.bool.index < 10 := by decide
  have hchar : SymbolId.char.index < 10 := by decide
  simp only [BinaryOp.joins, BinaryOp.accepts, hbuiltin ha hint, hbuiltin hb hint, hbuiltin ha hbool,
    hbuiltin hb hbool, hbuiltin ha hchar, hsame]

end ContractDecl.Elaborated

/-! ### Expressions -/

theorem Literal.type_index (value : Literal) : value.type.index < 10 := by
  cases value <;> exact Nat.le_of_ble_eq_true rfl

theorem BinaryOp.resultType_index (op : BinaryOp) : op.resultType.index < 10 := by
  cases op <;> decide

theorem UnaryOp.operandType_index (op : UnaryOp) : op.operandType.index < 10 := by
  cases op <;> decide

/-- The spot says what counts at the site, and these uses stand there. -/
structure ContractDecl.Sited (c : ContractDecl) (t : Table) (site : Site) (sp : Spot)
    (us : List Use) : Prop extends c.Hosts t site sp where
  placed : ∀ u ∈ us, (site, u) ∈ c.placed t .members

theorem ContractDecl.Sited.mono {c : ContractDecl} {t : Table} {site : Site} {sp : Spot}
    {us vs : List Use} (h : c.Sited t site sp us) (hv : vs ⊆ us) : c.Sited t site sp vs :=
  { h with placed := fun u hu => h.placed u (hv hu) }

section
variable {c : ContractDecl} {t : Table} (h : c.Elaborated t) {site : Site} {sp : Spot}
include h

theorem Designator.realizes_bound {d : Designator} (hs : c.Sited t site sp d.uses) :
    t.Realizes (d.ty sp) ((c.boundTable t).typeAt? d.id) := by
  rw [show (c.boundTable t).typeAt? d.id = d.typeFrom t site from
    h.typeAt?_eq (hs.placed (.value d) d.mem_uses)]
  exact d.realizes h hs.toHosts

/-- What is called has the signature that its name stands for. -/
theorem Spot.signed_called {node : Node} {callee : Designator} {args : List Expr}
    (hs : c.Sited t site sp (Expr.call node callee args).uses) :
    Option.Rel t.Signed (sp.called callee)
      (((c.boundTable t).boundTo? callee.id).bind t.functionAt) := by
  have hvalue : .value callee ∈ (Expr.call node callee args).uses →
      ((c.boundTable t).boundTo? callee.id).bind t.functionAt = none := by
    intro hmem
    rw [show (c.boundTable t).boundTo? callee.id = callee.referent t site from
      h.boundTo?_eq (hs.placed _ hmem), Option.bind_eq_none_iff]
    exact callee.functionAt_referent h hs.toHosts
  cases callee with
  | name n x =>
    have hcallee := hs.callee h.valid x
    rw [show (c.boundTable t).boundTo? (Designator.name n x).id = t.callee site x from
      h.boundTo?_eq (hs.placed (.callee n x) (.head _)), Spot.called, hs.types]
    generalize (sp.names x).head? = a at hcallee ⊢
    generalize t.callee site x = b at hcallee ⊢
    cases hcallee with
    | none => exact .none
    | some hd => exact h.signed hd.1 hd.2
  | index n base position =>
    rw [hvalue (List.mem_append_left _ (Designator.mem_uses _))]
    exact .none
  | member n base m =>
    rw [hvalue (List.mem_append_left _ (Designator.mem_uses _))]
    exact .none

/-- An expression is typed with the symbol of its type. -/
theorem Expr.realizes {e : Expr} (hs : c.Sited t site sp e.uses) :
    t.Realizes (e.ty sp) (e.typeIn (c.boundTable t)) := by
  cases e with
  | literal node value => exact t.realizes_builtin value.type_index
  | load node source => exact Designator.realizes_bound h hs
  | call node callee args =>
    have hcalled := Spot.signed_called h hs
    change t.Realizes _ ((((c.boundTable t).boundTo? callee.id).bind t.functionAt).map _)
    rw [Expr.ty]
    generalize sp.called callee = a at hcalled ⊢
    generalize ((c.boundTable t).boundTo? callee.id).bind t.functionAt = b at hcalled ⊢
    cases hcalled with
    | none => exact .none
    | @some g info hsigned =>
      have hreturns := hsigned.returns
      rw [Option.map_some, Option.map_some]
      generalize g.returns = as at hreturns ⊢
      generalize info.returns = ids at hreturns ⊢
      cases hreturns with
      | nil => exact t.realizes_builtin (by decide)
      | cons hfirst _ => exact .some hfirst
  | binary node op left right => exact t.realizes_builtin op.resultType_index
  | unary node op operand => exact t.realizes_builtin op.operandType_index

theorem realizes_args {es : List Expr} (hs : c.Sited t site sp (usesOf es)) :
    List.Forall₂ (fun b f => t.Realizes b f.1) (es.map (·.ty sp))
      (es.map fun e => (e.typeIn (c.boundTable t), e.span)) := by
  rw [List.forall₂_map_left_iff, List.forall₂_map_right_iff, List.forall₂_same]
  intro e he
  refine Expr.realizes h (hs.mono fun u hu => ?_)
  rw [usesOf_eq_flatMap]
  exact List.mem_flatMap.2 ⟨e, he, hu⟩

theorem callFault_eq_nil_iff {node : Node} {callee : Designator} {args : List Expr}
    (hs : c.Sited t site sp (Expr.call node callee args).uses)
    (hbound : ∃ id, (c.boundTable t).boundTo? callee.id = some id) :
    (c.boundTable t).callFault callee args node.span = [] ↔ (Expr.call node callee args).Fits sp := by
  have hcalled := Spot.signed_called h hs
  have hargs := realizes_args h (hs.mono Expr.usesOf_subset_call)
  obtain ⟨id, hid⟩ := hbound
  rw [hid, Option.bind_some] at hcalled
  rw [Expr.Fits, Table.callFault, hid]
  dsimp only
  rw [show (c.boundTable t).functionAt = t.functionAt from rfl]
  generalize sp.called callee = a at hcalled ⊢
  generalize t.functionAt id = b at hcalled ⊢
  cases hcalled with
  | none => simp
  | @some g info hsigned =>
    have hfit := h.mismatches_eq_nil hsigned.params hargs (c.boundTable t)
      (.argumentMismatch callee.text) 1
      ⟨.argumentCount callee.text info.params.length args.length, node.span⟩
    rw [List.length_map, List.length_map] at hfit
    have hnil : info.returns = [] ↔ g.returns = [] := by
      rw [← List.length_eq_zero_iff, ← hsigned.returns.length_eq, List.length_eq_zero_iff]
    simp only [Option.mem_def, Option.some.injEq, exists_eq_left']
    by_cases hreturns : info.returns = []
    · simp [hreturns, hnil.1 hreturns]
    · rw [if_neg hreturns, ← hfit]
      simp only [mt hnil.2 hreturns, false_or]
      rfl

/-- An expression is reported exactly if it does not fit. -/
theorem Expr.fault_eq_nil {e : Expr} (hs : c.Sited t site sp e.uses)
    (hnoted : ∀ u ∈ e.uses, u.Noted (c.boundTable t)) :
    e.fault (c.boundTable t) = [] ↔ e.Fits sp := by
  cases e with
  | literal node value => simp [Expr.fault, Expr.Fits]
  | load node source => simp [Expr.fault, Expr.Fits]
  | call node callee args => exact callFault_eq_nil_iff h hs (exists_callee hnoted)
  | binary node op left right =>
    have hleft := Expr.realizes h (hs.mono (List.subset_append_left _ _))
    have hright := Expr.realizes h (hs.mono (List.subset_append_right _ _))
    rw [Expr.fault, Expr.Fits]
    unfold Table.operandFault
    generalize left.ty sp = a at hleft ⊢
    generalize left.typeIn (c.boundTable t) = x at hleft ⊢
    generalize right.ty sp = b at hright ⊢
    generalize right.typeIn (c.boundTable t) = y at hright ⊢
    cases hleft with
    | none => simp
    | some ha =>
      cases hright with
      | none => simp
      | some hb =>
        simp [h.joins_eq ha hb]
  | unary node op operand =>
    have hoperand : t.Realizes (operand.ty sp) (operand.typeIn (c.boundTable t)) :=
      Expr.realizes h hs
    exact h.mismatch_eq_nil (t.realizes_builtin op.operandType_index) hoperand _ _ _

/-! ### Statements -/

theorem Expr.targetFault_eq_nil {source : Expr} {as : List (Option Ty)}
    {targets : List (Option SymbolId)} (htargets : List.Forall₂ t.Realizes as targets)
    (hs : c.Sited t site sp source.uses) (span : Span) :
    (c.boundTable t).targetFault targets source span = [] ↔ source.Fills sp as := by
  cases source with
  | call node callee args =>
    have hcalled := Spot.signed_called h hs
    rw [Table.targetFault, show (c.boundTable t).functionAt = t.functionAt from rfl, Expr.Fills]
    generalize sp.called callee = a at hcalled ⊢
    generalize ((c.boundTable t).boundTo? callee.id).bind t.functionAt = b at hcalled ⊢
    cases hcalled with
    | none => simp
    | @some g info hsigned =>
      have hreturns : List.Forall₂ (fun b f => t.Realizes b f.1) (g.returns.map some)
          (info.returns.map fun r => (some r, span)) := by
        rw [List.forall₂_map_left_iff, List.forall₂_map_right_iff]
        exact hsigned.returns.imp fun _ _ hid => .some hid
      have hfit := h.mismatches_eq_nil htargets hreturns (c.boundTable t) .valueMismatch 1
        ⟨.valueCount callee.text targets.length info.returns.length, span⟩
      rw [List.length_map, List.zipWith_map_right] at hfit
      simp only [Option.mem_def, Option.some.injEq, forall_eq', ← hfit, eq_comm (b := targets.length)]
  | _ => simp [Table.targetFault, Expr.Fills]

theorem Callable.returnFault_eq_nil {f : Callable} (hf : f ∈ c.callables) {values : List Expr}
    (hs : c.Sited t site sp (usesOf values)) (span : Span) :
    (c.boundTable t).returnFault (t.declaredBy? f.node.id) values span = [] ↔
      List.Forall₂ Agree ((c.env.returned f.returns).map some) (values.map (·.ty sp)) := by
  obtain ⟨info, hinfo, hreturns⟩ := h.resolved.callables f hf
  have hexpected : List.Forall₂ t.Realizes ((c.env.returned f.returns).map some)
      (info.returns.map some) := by
    rw [List.forall₂_map_left_iff, List.forall₂_map_right_iff]
    exact hreturns.imp fun _ _ hid => .some hid
  have hfit := h.mismatches_eq_nil hexpected (realizes_args h hs) (c.boundTable t) .returnMismatch 1
    ⟨.returnCount info.returns.length values.length, span⟩
  rw [List.length_map, List.length_map, List.zipWith_map_left] at hfit
  unfold Table.returnFault
  rw [show (t.declaredBy? f.node.id).bind (c.boundTable t).functionAt = some info from hinfo]
  dsimp only
  by_cases hnil : info.returns = []
  · have hnone : c.env.returned f.returns = [] := by
      rw [hnil, List.forall₂_nil_right_iff] at hreturns
      exact hreturns
    rw [if_pos hnil, hnone]
    cases values with
    | nil => simp
    | cons value rest => simp
  · rw [if_neg hnil]
    exact hfit

omit h in
theorem vars_subset_localsOf {b : List Stmt} {s : Stmt} (hs : s ∈ allOf b) :
    s.vars ⊆ localsOf b := by
  induction b using Block.induction with
  | nil => cases hs
  | cons first rest hblocks hrest =>
    rw [localsOf, Stmt.locals_eq]
    rcases List.mem_append.1 hs with hs | hs
    · rw [Stmt.all_eq, Stmt.inner_eq] at hs
      rcases List.mem_cons.1 hs with rfl | hs
      · exact fun v hv => List.mem_append_left _ (List.mem_append_left _ hv)
      · obtain ⟨b, hb, hs⟩ := List.mem_flatMap.1 hs
        refine fun v hv => List.mem_append_left _ (List.mem_append_right _ ?_)
        exact List.mem_flatMap.2 ⟨b, hb, hblocks b hb hs hv⟩
    · exact fun v hv => List.mem_append_right _ (hrest hs hv)

/-- A statement is reported exactly if it does not fit. -/
theorem Stmt.fault_eq_nil {f : Callable} (hf : f ∈ c.callables) {s : Stmt}
    (hmem : s ∈ allOf f.body.stmts)
    (hs : c.Sited t site sp s.uses) :
    s.fault (c.boundTable t) (t.declaredBy? f.node.id) = [] ↔
      s.Fits sp (c.env.returned f.returns) := by
  have hvar : ∀ v ∈ s.vars, t.Realizes (sp.types.denote v.type) (t.declaredType v.node.id) := by
    intro v hv
    rw [hs.types]
    refine h.realizes_declared (List.mem_append_right _ (List.mem_flatMap.2 ⟨f, hf, ?_⟩))
    exact List.mem_map.2 ⟨v, List.mem_append_right _ (vars_subset_localsOf hmem hv), rfl⟩
  cases s with
  | declare node vars init =>
    cases init with
    | none => simp [Stmt.fault, Stmt.Fits]
    | some init =>
      have hall : List.Forall₂ t.Realizes (vars.map fun v => sp.types.denote v.type)
          (vars.map fun v => t.declaredType v.node.id) := by
        rw [List.forall₂_map_left_iff, List.forall₂_map_right_iff, List.forall₂_same]
        exact hvar
      -- One variable takes the value itself, any other number the results of a call.
      have hinit : c.Sited t site sp init.uses := hs
      cases vars with
      | nil => exact Expr.targetFault_eq_nil h hall hinit _
      | cons v more =>
        cases more with
        | nil => exact h.mismatch_eq_nil (hvar v (.head _)) (Expr.realizes h hinit) _ _ _
        | cons w rest => exact Expr.targetFault_eq_nil h hall hinit _
  | assign node target value =>
    have htarget := Designator.realizes_bound h (hs.mono (List.subset_append_left _ _))
    have hvalue := Expr.realizes h (hs.mono (List.subset_append_right _ _))
    exact h.mismatch_eq_nil htarget hvalue _ _ _
  | assignAll node targets source =>
    have htargets : List.Forall₂ t.Realizes (targets.map (·.ty sp))
        (targets.map fun d => (c.boundTable t).typeAt? d.id) := by
      rw [List.forall₂_map_left_iff, List.forall₂_map_right_iff, List.forall₂_same]
      intro d hd
      refine Designator.realizes_bound h (hs.mono fun u hu => List.mem_append_left _ ?_)
      exact List.mem_flatMap.2 ⟨d, hd, hu⟩
    exact Expr.targetFault_eq_nil h htargets (hs.mono (List.subset_append_right _ _)) _
  | branch node condition onTrue onFalse =>
    have hcondition : t.Realizes (condition.ty sp) (condition.typeIn (c.boundTable t)) :=
      Expr.realizes h hs
    have hbool : SymbolId.bool.index < 10 := by decide
    rw [Stmt.fault, Stmt.Fits]
    exact h.mismatch_eq_nil (t.realizes_builtin hbool) hcondition _ _ _
  | giveBack node values => exact Callable.returnFault_eq_nil h hf hs _

end

/-! ### Contracts -/

namespace ContractDecl.Elaborated
variable {c : ContractDecl} {t : Table}

theorem sited_field (h : c.Elaborated t) {f : FieldDecl} (hf : f ∈ c.fields) :
    c.Sited t ⟨.members, none⟩ c.fieldSpot f.uses :=
  { h.hosts_field with
    placed := fun u hu => List.mem_append_left _ (List.mem_append_left _
      (List.mem_flatMap.2 ⟨f, hf, List.mem_map.2 ⟨u, hu, rfl⟩⟩)) }

theorem sited_structField (h : c.Elaborated t) {p : Placement StructDecl} (hp : p ∈ c.structPlaces)
    {f : FieldDecl} (hf : f ∈ p.member.fields) :
    c.Sited t ⟨p.scope, none⟩ (c.structSpot p.member) f.uses :=
  { h.hosts_struct hp with
    placed := fun u hu => by
      refine List.mem_append_left _ (List.mem_append_right _ ?_)
      refine List.mem_flatMap.2 ⟨p.member, placement_member hp, List.mem_flatMap.2 ⟨p.scope, ?_, ?_⟩⟩
      · rw [h.fieldScope hp]
        exact List.mem_singleton_self _
      · exact List.mem_flatMap.2 ⟨f, hf, List.mem_map.2 ⟨u, hu, rfl⟩⟩ }

theorem sited_stmt (h : c.Elaborated t) {p : Placement Callable} (hp : p ∈ c.callablePlaces)
    {s : Stmt} (hs : s ∈ allOf p.member.body.stmts) :
    c.Sited t ⟨p.scope, some s.id⟩ (c.stmtSpot p.member s.id) s.uses :=
  { h.hosts_stmt hp s.id with placed := fun _ hu => h.mem_placed hp hs hu }

/-- Binding reports nothing exactly if all uses fit. -/
theorem bindFaults_eq_nil (h : c.Elaborated t) :
    ((c.placed t .members).flatMap fun q => q.2.fault t q.1) = [] ↔
      ∀ r ∈ c.spottedUses, r.2.Fits r.1 := by
  rw [List.flatMap_eq_nil_iff]
  have hpairs := h.placed
  generalize c.spottedUses = rs at hpairs ⊢
  generalize c.placed t .members = qs at hpairs ⊢
  induction hpairs with
  | nil => simp
  | @cons r q rs qs hd _ ih =>
    rw [List.forall_mem_cons, List.forall_mem_cons, ← hd.1]
    exact and_congr (r.2.fault_eq_nil h hd.2) ih

end ContractDecl.Elaborated

section
variable {c : ContractDecl} {t : Table} (h : c.Elaborated t)
  (hnoted : ∀ u ∈ c.uses, u.Noted (c.boundTable t)) {site : Site} {sp : Spot}
include h hnoted

theorem FieldDecl.faults_eq_nil {f : FieldDecl} (hf : f ∈ c.allFields)
    (hs : c.Sited t site sp f.uses) :
    f.faults (c.boundTable t) = [] ↔
      (∀ e ∈ f.parts, e.Fits sp) ∧ ∀ e ∈ f.init, Agree (sp.types.denote f.type) (e.ty sp) := by
  have hdeclared : t.Realizes (sp.types.denote f.type) (t.declaredType f.node.id) := by
    rw [hs.types]
    exact h.realizes_declared (List.mem_append_left _ (List.mem_map.2 ⟨f, hf, rfl⟩))
  have hin : ∀ u ∈ f.uses, u.Noted (c.boundTable t) := fun u hu =>
    hnoted u (List.mem_append_left _ (List.mem_flatMap.2 ⟨f, hf, hu⟩))
  unfold FieldDecl.faults FieldDecl.parts
  unfold FieldDecl.uses at hs hin
  cases hinit : f.init with
  | none => simp
  | some init =>
    rw [hinit, Option.toList_some, List.flatMap_singleton] at hs hin
    rw [Option.toList_some, List.flatMap_singleton, List.flatMap_singleton, List.append_eq_nil_iff,
      List.flatMap_eq_nil_iff]
    refine and_congr (forall₂_congr fun e he => ?_) ?_
    · have huses := (Expr.within_parts he).2
      exact Expr.fault_eq_nil h (hs.mono huses) fun u hu => hin u (huses hu)
    · simp only [Option.mem_def, Option.some.injEq, forall_eq']
      exact h.mismatch_eq_nil hdeclared (Expr.realizes h hs) _ _ _

theorem Stmt.faults_eq_nil {f : Callable} (hf : f ∈ c.callables) {s : Stmt}
    (hmem : s ∈ allOf f.body.stmts)
    (hs : c.Sited t site sp s.uses) :
    s.faults (c.boundTable t) (t.declaredBy? f.node.id) = [] ↔
      (∀ e ∈ s.parts, e.Fits sp) ∧ s.Fits sp (c.env.returned f.returns) := by
  rw [Stmt.faults, List.append_eq_nil_iff, List.flatMap_eq_nil_iff]
  refine and_congr (forall₂_congr fun e he => ?_) (Stmt.fault_eq_nil h hf hmem hs)
  have huses := (Stmt.within_parts he).2
  exact Expr.fault_eq_nil h (hs.mono huses) fun u hu =>
    hnoted u (ContractDecl.uses_subset (ContractDecl.mem_stmts hf hmem) (huses hu))

/-- Checking reports nothing exactly if all expressions, initial values and statements fit. -/
theorem ContractDecl.faults_eq_nil :
    c.faults (c.boundTable t) = [] ↔
      (∀ f ∈ c.fields, (∀ e ∈ f.parts, e.Fits c.fieldSpot) ∧
        ∀ e ∈ f.init, Agree (c.env.denote f.type) (e.ty c.fieldSpot)) ∧
      (∀ s ∈ c.structs, ∀ f ∈ s.fields, (∀ e ∈ f.parts, e.Fits (c.structSpot s)) ∧
        ∀ e ∈ f.init, Agree (c.env.denote f.type) (e.ty (c.structSpot s))) ∧
      ∀ f ∈ c.callables, ∀ s ∈ allOf f.body.stmts, (∀ e ∈ s.parts, e.Fits (c.stmtSpot f s.id)) ∧
        s.Fits (c.stmtSpot f s.id) (c.env.returned f.returns) := by
  rw [ContractDecl.faults, List.append_eq_nil_iff, List.flatMap_eq_nil_iff, List.flatMap_eq_nil_iff,
    ContractDecl.allFields, List.forall_mem_append, List.forall_mem_flatMap, and_assoc]
  refine and_congr (forall₂_congr fun f hf => ?_) (and_congr (forall₂_congr fun s hs => ?_)
    (forall₂_congr fun f hf => ?_))
  · exact FieldDecl.faults_eq_nil h hnoted (List.mem_append_left _ hf) (h.sited_field hf)
  · obtain ⟨p, hp, rfl⟩ := exists_structPlace hs
    refine forall₂_congr fun f hf => ?_
    have hmem := List.mem_append_right c.fields (List.mem_flatMap.2 ⟨p.member, hs, hf⟩)
    exact FieldDecl.faults_eq_nil h hnoted hmem (h.sited_structField hp hf)
  · obtain ⟨p, hp, rfl⟩ := exists_callablePlace hf
    rw [Callable.faults, List.flatMap_eq_nil_iff]
    exact forall₂_congr fun s hs => Stmt.faults_eq_nil h hnoted hf hs (h.sited_stmt hp hs)

end

/-- A contract is accepted if no phase has anything to report of it. -/
theorem ContractDecl.Elaborated.accepted_iff {c : ContractDecl} {t : Table} (h : c.Elaborated t) :
    ((∀ q ∈ c.placed t .members, q.2.fault t q.1 = []) ∧ c.faults (c.boundTable t) = []) ↔
      (∀ f ∈ c.fields, f.Accepted c.fieldSpot) ∧
      (∀ s ∈ c.structs, ∀ f ∈ s.fields, f.Accepted (c.structSpot s)) ∧
      ∀ f ∈ c.callables, f.Accepted c := by
  rw [← List.flatMap_eq_nil_iff, h.bindFaults_eq_nil]
  constructor
  · rintro ⟨huses, hfaults⟩
    have hquiet := List.flatMap_eq_nil_iff.1 (h.bindFaults_eq_nil.2 huses)
    rw [ContractDecl.faults_eq_nil h (h.bound hquiet).noted] at hfaults
    obtain ⟨hfields, hstructs, hbodies⟩ := hfaults
    obtain ⟨ufields, ustructs, ubodies⟩ := forall_spotted.1 huses
    exact ⟨fun f hf => ⟨ufields f hf, (hfields f hf).1, (hfields f hf).2⟩,
      fun s hs f hf => ⟨ustructs s hs f hf, (hstructs s hs f hf).1, (hstructs s hs f hf).2⟩,
      fun f hf s hs => ⟨ubodies f hf s hs, (hbodies f hf s hs).1, (hbodies f hf s hs).2⟩⟩
  · rintro ⟨hfields, hstructs, hbodies⟩
    have huses : ∀ r ∈ c.spottedUses, r.2.Fits r.1 := forall_spotted.2
      ⟨fun f hf => (hfields f hf).uses, fun s hs f hf => (hstructs s hs f hf).uses,
        fun f hf s hs => (hbodies f hf s hs).uses⟩
    have hquiet := List.flatMap_eq_nil_iff.1 (h.bindFaults_eq_nil.2 huses)
    refine ⟨huses, (ContractDecl.faults_eq_nil h (h.bound hquiet).noted).2 ⟨?_, ?_, ?_⟩⟩
    · exact fun f hf => ⟨(hfields f hf).parts, (hfields f hf).init⟩
    · exact fun s hs f hf => ⟨(hstructs s hs f hf).parts, (hstructs s hs f hf).init⟩
    · exact fun f hf s hs => ⟨(hbodies f hf s hs).parts, (hbodies f hf s hs).fits⟩

/-! ### Callables by themselves -/

/-- What is asked of a callable by itself. -/
structure Callable.Admitted (c : ContractDecl) (f : Callable) : Prop where
  names : f.varFaults c.structNames = []
  typed : f.Typed c.env
  accepted : f.Accepted c

/-- A callable is judged by what names stand for outside of it, and by which of them are those of
struct types. -/
theorem Callable.Admitted.transfer {c c' : ContractDecl} {f : Callable} (h : f.Admitted c)
    (hs : c'.structNames ⊆ c.structNames) (he : c'.env = c.env) : f.Admitted c' where
  names := f.varFaults_mono hs h.names
  typed := he ▸ h.typed
  accepted := by
    have haccepted := h.accepted
    unfold Callable.Accepted ContractDecl.stmtSpot at haccepted ⊢
    rwa [he]

/-- What is asked of a contract apart from its callables. -/
structure ContractDecl.Framed (c : ContractDecl) : Prop where
  names : c.WellNamed
  fieldTypes : ∀ f ∈ c.allFields, (c.env.denote f.type).isSome
  fields : ∀ f ∈ c.fields, f.Accepted c.fieldSpot
  structFields : ∀ s ∈ c.structs, ∀ f ∈ s.fields, f.Accepted (c.structSpot s)

theorem ContractDecl.accepted_iff_admitted {c : ContractDecl} :
    c.Accepted ↔ c.Framed ∧ ∀ f ∈ c.callables, f.Admitted c := by
  constructor
  · intro h
    obtain ⟨hnames, hvars⟩ := ContractDecl.declFaults_eq_nil.1 h.names
    exact ⟨⟨hnames, h.fieldTypes, h.fields, h.structFields⟩,
      fun f hf => ⟨hvars f hf, h.callableTypes f hf, h.bodies f hf⟩⟩
  · rintro ⟨h, hcallables⟩
    exact ⟨ContractDecl.declFaults_eq_nil.2 ⟨h.names, fun f hf => (hcallables f hf).names⟩, h.fieldTypes,
      fun f hf => (hcallables f hf).typed, h.fields, h.structFields,
      fun f hf => (hcallables f hf).accepted⟩

/-! ### Programs -/

theorem runPhases_of_quiet {p : Program} {phase : Phase} {rest : List Phase} {t t' : Table}
    (h : p.quietTable? (phase :: rest) t = some t') :
    ∃ r, runPhases none p phase t rest = .ok r ∧
      r.last = ⟨(phase :: rest).getLast (List.cons_ne_nil _ _), t', [], none⟩ := by
  obtain ⟨s, hrun, hrest⟩ := Program.quietTable?_cons.1 h
  have hanalyze : phase.analyze p t = .ok ⟨phase, s, [], none⟩ :=
    Phase.analyze_eq_ok.2 ⟨⟨rfl, rfl⟩, hrun⟩
  cases rest with
  | nil =>
    cases hrest
    exact ⟨_, runPhases_nil.2 ⟨_, hanalyze, rfl⟩, rfl⟩
  | cons next rest =>
    obtain ⟨r, hr, hlast⟩ := runPhases_of_quiet hrest
    exact ⟨_, runPhases_cons.2 ⟨_, hanalyze, .inr ⟨rfl, r, hr, rfl⟩⟩, hlast⟩

theorem Program.analyze_of_quiet {p : Program} {t : Table}
    (h : p.quietTable? (.symbolConstruction :: Phase.afterFirst) .initial = some t) :
    p.analyze = .ok ⟨.typeChecking, t, [], none⟩ := by
  obtain ⟨r, hr, hlast⟩ := runPhases_of_quiet h
  have htrace : Config.default.trace p = .ok r := hr
  rw [Program.analyze, Config.analyze, htrace]
  exact congrArg Except.ok hlast

namespace Program
variable {p : Program} {c : ContractDecl}

theorem quietTable?_of_run {phase : Phase} {rest : List Phase} {t s t' : Table}
    {ds : List Diagnostic} (h : (phase.pass p).run t = .ok ⟨(), s, ds⟩) :
    p.quietTable? (phase :: rest) t = some t' ↔ ds = [] ∧ p.quietTable? rest s = some t' := by
  rw [quietTable?_cons, h]
  constructor
  · rintro ⟨s', hrun, hrest⟩
    cases hrun
    exact ⟨rfl, hrest⟩
  · rintro ⟨rfl, hrest⟩
    exact ⟨s, rfl, hrest⟩

/-- Declaring and resolving report nothing exactly if names and types are as they should be. -/
theorem exists_quiet_elaborated (hp : p.Distinct) (hc : p.contract = some c) :
    ∃ t, (c.declFaults = [] → c.typeFaults = [] → c.Elaborated t) ∧
      ∀ s, p.quietTable? [.symbolConstruction, .typeResolution] .initial = some s ↔
        (c.declFaults = [] ∧ c.typeFaults = []) ∧ s = t := by
  obtain ⟨t₁, t₂, hdeclare, hresolve, helaborated⟩ := ContractDecl.exists_elaborated (hp.nodup hc)
  have hphase₁ : (Phase.pass .symbolConstruction p).run .initial = .ok ⟨(), t₁, c.declFaults⟩ := by
    change p.declareSymbols.run .initial = _
    rw [Program.declareSymbols, hc]
    exact hdeclare
  have hphase₂ : (Phase.pass .typeResolution p).run t₁ = .ok ⟨(), t₂, c.typeFaults⟩ := by
    change p.resolveTypes.run t₁ = _
    rw [Program.resolveTypes, hc]
    exact hresolve
  refine ⟨t₂, helaborated, fun s => ?_⟩
  rw [quietTable?_of_run hphase₁, quietTable?_of_run hphase₂, quietTable?, Option.some.injEq,
    and_assoc, eq_comm (a := t₂)]

/-- Binding and checking report nothing exactly if all that they look at fits. -/
theorem quiet_later_iff (hc : p.contract = some c) {t : Table} (h : c.Elaborated t) {t' : Table} :
    p.quietTable? [.designatorResolution, .typeChecking] t = some t' ↔
      ((∀ q ∈ c.placed t .members, q.2.fault t q.1 = []) ∧ c.faults (c.boundTable t) = []) ∧
        t' = c.checkedTable (c.boundTable t) := by
  have hbind : (Phase.pass .designatorResolution p).run t = .ok ⟨(), c.boundTable t,
      (c.placed t .members).flatMap fun q => q.2.fault t q.1⟩ := by
    change p.bindNames.run t = _
    rw [Program.bindNames, hc]
    exact h.bindNames_run
  have hcheck : (∀ q ∈ c.placed t .members, q.2.fault t q.1 = []) →
      (Phase.pass .typeChecking p).run (c.boundTable t) =
        .ok ⟨(), c.checkedTable (c.boundTable t), c.faults (c.boundTable t)⟩ := by
    intro hquiet
    change p.check.run _ = _
    rw [Program.check_eq hc]
    exact (h.bound hquiet).check_run
  rw [quietTable?_of_run hbind, List.flatMap_eq_nil_iff]
  constructor
  · rintro ⟨hquiet, hlast⟩
    obtain ⟨hfaults, hend⟩ := (quietTable?_of_run (hcheck hquiet)).1 hlast
    cases hend
    exact ⟨⟨hquiet, hfaults⟩, rfl⟩
  · rintro ⟨⟨hquiet, hfaults⟩, rfl⟩
    exact ⟨hquiet, (quietTable?_of_run (hcheck hquiet)).2 ⟨hfaults, rfl⟩⟩

/-- All phases run and report nothing exactly if the contract is accepted. -/
theorem exists_quiet_iff (hp : p.Distinct) (hc : p.contract = some c) :
    ∃ t, (c.Accepted → c.Elaborated t) ∧
      ∀ s, p.quietTable? (.symbolConstruction :: Phase.afterFirst) .initial = some s ↔
        c.Accepted ∧ s = c.checkedTable (c.boundTable t) := by
  obtain ⟨t, helaborated, ht⟩ := exists_quiet_elaborated hp hc
  have hfirst : c.Accepted → (c.declFaults = [] ∧ c.typeFaults = []) ∧ c.Elaborated t := by
    intro h
    have htypes := ContractDecl.typeFaults_eq_nil.2 ⟨h.fieldTypes, h.callableTypes⟩
    exact ⟨⟨h.names, htypes⟩, helaborated h.names htypes⟩
  refine ⟨t, fun h => (hfirst h).2, fun s => ?_⟩
  have hsplit : (.symbolConstruction :: Phase.afterFirst : List Phase) =
      [.symbolConstruction, .typeResolution] ++ [.designatorResolution, .typeChecking] := rfl
  rw [hsplit, quietTable?_append]
  constructor
  · rintro ⟨_, hquiet, hlater⟩
    obtain ⟨⟨hnames, htypes⟩, rfl⟩ := (ht _).1 hquiet
    have h := helaborated hnames htypes
    obtain ⟨hfaults, rfl⟩ := (quiet_later_iff hc h).1 hlater
    obtain ⟨hfields, hstructs, hbodies⟩ := h.accepted_iff.1 hfaults
    obtain ⟨hfieldTypes, hcallableTypes⟩ := ContractDecl.typeFaults_eq_nil.1 htypes
    exact ⟨⟨hnames, hfieldTypes, hcallableTypes, hfields, hstructs, hbodies⟩, rfl⟩
  · rintro ⟨haccepted, rfl⟩
    obtain ⟨hquiet, h⟩ := hfirst haccepted
    refine ⟨t, (ht t).2 ⟨hquiet, rfl⟩, (quiet_later_iff hc h).2 ⟨?_, rfl⟩⟩
    exact h.accepted_iff.2 ⟨haccepted.fields, haccepted.structFields, haccepted.bodies⟩

/-- The analysis is complete. -/
def Complete (p : Program) : Prop := ∃ a, p.analyze = .ok a ∧ a.isComplete = true

theorem complete_of_any (h : p.analyze.toOption.any (·.isComplete) = true) : p.Complete := by
  unfold Complete
  cases ha : p.analyze with
  | error e =>
    rw [ha] at h
    cases h
  | ok a =>
    rw [ha] at h
    exact ⟨a, rfl, h⟩

/-- An analysis is complete exactly if the contract is accepted. -/
theorem complete_iff (hp : p.Distinct) (hc : p.contract = some c) : p.Complete ↔ c.Accepted := by
  obtain ⟨t, -, ht⟩ := exists_quiet_iff hp hc
  constructor
  · rintro ⟨a, ha, hcomplete⟩
    exact ((ht a.table).1 (quietTable?_of_complete ha hcomplete)).1
  · intro h
    exact ⟨_, analyze_of_quiet ((ht _).2 ⟨h, rfl⟩), rfl⟩

/-- The table of a complete analysis is one with all types, to which bindings and types are noted. -/
theorem exists_elaborated (hp : p.Distinct) (hc : p.contract = some c) {a : Analysis}
    (ha : p.analyze = .ok a) (hcomplete : a.isComplete = true) :
    ∃ t, c.Elaborated t ∧ a.table = c.checkedTable (c.boundTable t) := by
  obtain ⟨t, helaborated, ht⟩ := exists_quiet_iff hp hc
  obtain ⟨haccepted, htable⟩ := (ht a.table).1 (quietTable?_of_complete ha hcomplete)
  exact ⟨t, helaborated haccepted, htable⟩

end Program
end ContractLang
