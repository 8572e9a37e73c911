import ContractLang.Proofs.Mirroring
import ContractLang.Proofs.Stages
/-!
What the numbers of nodes and the places of a program mean to its analysis. Binding and checking a
renamed program mirror those of the program, as declaring and resolving do. So it runs through the
same phases, to the renamed table and the renamed diagnostics.
-/
namespace ContractLang

/-! ### Names -/

def Site.rename (ρ : Renaming) (site : Site) : Site := ⟨site.scope, site.stmt.map ρ.node⟩

namespace Pass
variable {ρ : Renaming}

theorem mirrors_visibleLocal (site : Site) (name : String) (span : Span) (locals : List SymbolId) :
    Mirrors ρ (visibleLocal site name span locals)
      (visibleLocal (site.rename ρ) name (ρ.span span) locals) := by
  apply mirrors_bind (mirrors_query fun t => t.firstVisible?_rename ρ site.stmt locals)
  intro visible
  apply mirrors_bind (mirrors_reportIf _ _ span)
  intro _
  exact mirrors_pure visible

theorem mirrors_reportNone (cause : Cause) (span : Span) :
    Mirrors ρ (do report cause span; return (none : Option SymbolId))
      (do report cause (ρ.span span); return none) := by
  apply mirrors_bind (mirrors_report cause span)
  intro _
  exact mirrors_pure none

theorem mirrors_valueNamed (site : Site) (name : String) (span : Span) :
    Mirrors ρ (valueNamed site name span) (valueNamed (site.rename ρ) name (ρ.span span)) := by
  apply mirrors_bind (mirrors_query fun t => t.nearest_rename ρ site.scope name)
  intro found
  cases found with
  | nil => exact mirrors_reportNone _ span
  | cons first rest =>
    apply mirrors_kindOf first
    intro k
    rw [k.isValue_rename, k.isLocal_rename]
    split
    · exact mirrors_reportNone _ span
    · split
      · exact mirrors_pure (some first)
      · exact mirrors_visibleLocal site name span (first :: rest)

theorem mirrors_bindTo (node : NodeId) (id : SymbolId) :
    Mirrors ρ (bindTo node id) (bindTo (ρ.node node) id) :=
  mirrors_adjust (fun t => t.rename_noteBinding ρ node id) fun _ => rfl

theorem mirrors_bindCallee (site : Site) (node : Node) (name : String) :
    Mirrors ρ (bindCallee site node name) (bindCallee (site.rename ρ) (node.rename ρ) name) := by
  apply mirrors_bind (mirrors_query fun t => t.lookup_rename ρ site.scope name)
  intro found
  cases found with
  | none => exact mirrors_report _ node.span
  | some id => exact mirrors_bindTo node.id id

theorem mirrors_bindElement (node : Node) (base : Designator) (type : Option SymbolId) :
    Mirrors ρ (bindElement node base type) (bindElement (node.rename ρ) (base.rename ρ) type) := by
  cases type with
  | none => exact mirrors_pure none
  | some type =>
    unfold bindElement
    rw [base.text_rename, base.id_rename]
    apply mirrors_bind (mirrors_element type)
    intro element
    cases element with
    | none =>
      apply mirrors_bind (mirrors_nameOf type)
      intro name
      exact mirrors_reportNone _ node.span
    | some element =>
      have hcopy : Mirrors ρ (adjust (·.copyBinding node.id base.id))
          (adjust (·.copyBinding (ρ.node node.id) (ρ.node base.id))) := by
        refine mirrors_adjust (fun t => t.rename_copyBinding ρ node.id base.id) ?_
        intro t
        unfold Table.copyBinding
        split <;> rfl
      apply mirrors_bind hcopy
      intro _
      exact mirrors_noteType node.id element

theorem mirrors_bindMember (node : Node) (member : Ident) (type : Option SymbolId) :
    Mirrors ρ (bindMember node member type) (bindMember (node.rename ρ) (member.rename ρ) type) := by
  cases type with
  | none => exact mirrors_pure none
  | some type =>
    apply mirrors_bind (mirrors_element type)
    intro element
    change Mirrors ρ (if element.isSome ∧ member.text = lengthMember then _ else _)
      (if element.isSome ∧ member.text = lengthMember then _ else _)
    split
    · apply mirrors_bind (mirrors_bindTo node.id .length)
      intro _
      exact mirrors_noteType node.id .int
    · apply mirrors_bind (mirrors_nameOf type)
      intro name
      exact mirrors_reportNone _ member.span

end Pass

open Pass

section
variable (ρ : Renaming)

mutual
theorem Expr.bindNames_mirrors (site : Site) (e : Expr) :
    Mirrors ρ (e.bindNames site) ((e.rename ρ).bindNames (site.rename ρ)) := by
  cases e with
  | literal node value => exact mirrors_pure ()
  | load node source =>
    apply mirrors_bind (source.bindNames_mirrors site)
    intro _
    exact mirrors_pure ()
  | call node callee args =>
    have hargs := bindNamesOf_mirrors site args
    cases callee with
    | name node' name => exact mirrors_bind (mirrors_bindCallee site node' name) fun _ => hargs
    | index node' base position =>
      exact mirrors_bind ((Designator.index node' base position).bindNames_mirrors site) fun _ => hargs
    | member node' base m =>
      exact mirrors_bind ((Designator.member node' base m).bindNames_mirrors site) fun _ => hargs
  | binary node op left right =>
    apply mirrors_bind (left.bindNames_mirrors site)
    intro _
    exact right.bindNames_mirrors site
  | unary node op operand => exact operand.bindNames_mirrors site

theorem Designator.bindNames_mirrors (site : Site) (d : Designator) :
    Mirrors ρ (d.bindNames site) ((d.rename ρ).bindNames (site.rename ρ)) := by
  cases d with
  | name node name =>
    apply mirrors_bind (mirrors_valueNamed site name node.span)
    intro found
    cases found with
    | none => exact mirrors_pure none
    | some id =>
      apply mirrors_bind (mirrors_bindTo node.id id)
      intro _
      apply mirrors_bind (mirrors_valueType id)
      intro type
      cases type with
      | none => exact mirrors_pure none
      | some type => exact mirrors_noteType node.id type
  | index node base position =>
    apply mirrors_bind (base.bindNames_mirrors site)
    intro type
    apply mirrors_bind (position.bindNames_mirrors site)
    intro _
    exact mirrors_bindElement node base type
  | member node base m =>
    apply mirrors_bind (base.bindNames_mirrors site)
    intro type
    exact mirrors_bindMember node m type

theorem bindNamesOf_mirrors (site : Site) (es : List Expr) :
    Mirrors ρ (bindNamesOf site es) (bindNamesOf (site.rename ρ) (renameExprs ρ es)) := by
  cases es with
  | nil => exact mirrors_pure ()
  | cons e rest =>
    apply mirrors_bind (e.bindNames_mirrors site)
    intro _
    exact bindNamesOf_mirrors site rest
end

mutual
theorem Stmt.bindNames_mirrors (scope : ScopeId) (s : Stmt) :
    Mirrors ρ (s.bindNames scope) ((s.rename ρ).bindNames scope) := by
  cases s with
  | declare node vars init =>
    exact mirrors_option (·.rename ρ) (Expr.bindNames_mirrors ρ ⟨scope, some node.id⟩) init
  | assign node target value =>
    apply mirrors_bind (target.bindNames_mirrors ρ ⟨scope, some node.id⟩)
    intro _
    exact value.bindNames_mirrors ρ ⟨scope, some node.id⟩
  | assignAll node targets source =>
    have htarget : ∀ d : Designator, Mirrors ρ
        (do let _ ← d.bindNames ⟨scope, some node.id⟩)
        (do let _ ← (d.rename ρ).bindNames ⟨scope, some (ρ.node node.id)⟩) := by
      intro d
      apply mirrors_bind (d.bindNames_mirrors ρ ⟨scope, some node.id⟩)
      intro _
      exact mirrors_pure ()
    apply mirrors_bind (mirrors_forM (·.rename ρ) htarget targets)
    intro _
    exact source.bindNames_mirrors ρ ⟨scope, some node.id⟩
  | branch node condition onTrue onFalse =>
    have hcondition := condition.bindNames_mirrors ρ ⟨scope, some node.id⟩
    cases onFalse with
    | none =>
      apply mirrors_bind hcondition
      intro _
      exact bindNamesIn_mirrors scope onTrue.stmts
    | some onFalse =>
      apply mirrors_bind hcondition
      intro _
      apply mirrors_bind (bindNamesIn_mirrors scope onTrue.stmts)
      intro _
      exact bindNamesIn_mirrors scope onFalse.stmts
  | giveBack node values => exact bindNamesOf_mirrors ρ ⟨scope, some node.id⟩ values

theorem bindNamesIn_mirrors (scope : ScopeId) (b : List Stmt) :
    Mirrors ρ (bindNamesIn scope b) (bindNamesIn scope (renameStmts ρ b)) := by
  cases b with
  | nil => exact mirrors_pure ()
  | cons s rest =>
    apply mirrors_bind (s.bindNames_mirrors scope)
    intro _
    exact bindNamesIn_mirrors scope rest
end

theorem FieldDecl.bindNames_mirrors (scope : ScopeId) (f : FieldDecl) :
    Mirrors ρ (f.bindNames scope) ((f.rename ρ).bindNames scope) :=
  mirrors_option (·.rename ρ) (Expr.bindNames_mirrors ρ ⟨scope, none⟩) f.init

theorem StructDecl.bindNames_mirrors (s : StructDecl) :
    Mirrors ρ s.bindNames (s.rename ρ).bindNames := by
  apply mirrors_bind (mirrors_declaredBy s.node.id)
  intro declared
  cases declared with
  | none => exact mirrors_pure ()
  | some id =>
    apply mirrors_kindOf id
    intro k
    rw [k.structScope?_rename]
    cases k.structScope? with
    | none => exact mirrors_pure ()
    | some scope => exact mirrors_forM (·.rename ρ) (FieldDecl.bindNames_mirrors ρ scope) s.fields

theorem Callable.bindNames_mirrors (c : Callable) :
    Mirrors ρ c.bindNames (c.rename ρ).bindNames := by
  apply mirrors_bind (mirrors_declaredBy c.node.id)
  intro declared
  cases declared with
  | none => exact mirrors_pure ()
  | some id =>
    apply mirrors_bind (mirrors_function id)
    intro function
    cases function with
    | none => exact mirrors_pure ()
    | some function => exact bindNamesIn_mirrors ρ function.inner c.body.stmts

theorem Program.bindNames_mirrors (p : Program) :
    Mirrors ρ p.bindNames (p.rename ρ).bindNames := by
  unfold Program.bindNames Program.rename
  cases p.contract with
  | none => exact mirrors_pure ()
  | some c =>
    dsimp only [Option.map]
    unfold ContractDecl.bindNames
    rw [c.callables_rename ρ]
    apply mirrors_bind (mirrors_query fun t => t.memberScope_rename ρ)
    intro scope
    apply mirrors_bind (mirrors_forM (·.rename ρ) (FieldDecl.bindNames_mirrors ρ scope) c.fields)
    intro _
    apply mirrors_bind (mirrors_forM (·.rename ρ) (StructDecl.bindNames_mirrors ρ) c.structs)
    intro _
    exact mirrors_forM (·.rename ρ) (Callable.bindNames_mirrors ρ) c.callables

end

/-! ### Checks -/

namespace Pass
variable {ρ : Renaming}

def Slot.rename (ρ : Renaming) (s : Slot) : Slot := ⟨s.expected, s.found, ρ.span s.span⟩

theorem mirrors_expect (expected found : Option SymbolId) (cause : String → String → Cause)
    (span : Span) :
    Mirrors ρ (expect expected found cause span) (expect expected found cause (ρ.span span)) := by
  unfold expect
  split
  · split
    · exact mirrors_pure ()
    · apply mirrors_bind (mirrors_nameOf _)
      intro expectedName
      apply mirrors_bind (mirrors_nameOf _)
      intro foundName
      exact mirrors_report _ span
  · exact mirrors_pure ()

theorem mirrors_expectAll (cause : Nat → String → String → Cause) (position : Nat)
    (slots : List Slot) :
    Mirrors ρ (expectAll cause position slots)
      (expectAll cause position (slots.map (·.rename ρ))) := by
  induction slots generalizing position with
  | nil => exact mirrors_pure ()
  | cons s rest ih =>
    apply mirrors_bind (mirrors_expect s.expected s.found (cause position) s.span)
    intro _
    exact ih (position + 1)

theorem mirrors_expectAll_zipWith {α β : Type} (cause : Nat → String → String → Cause)
    {slot slot' : α → β → Slot} (hslot : ∀ a b, (slot a b).rename ρ = slot' a b) (as : List α)
    (bs : List β) :
    Mirrors ρ (expectAll cause 1 (as.zipWith slot bs)) (expectAll cause 1 (as.zipWith slot' bs)) := by
  have hslots : (as.zipWith slot bs).map (·.rename ρ) = as.zipWith slot' bs := by
    rw [List.map_zipWith]
    simp only [hslot]
  rw [← hslots]
  exact mirrors_expectAll cause 1 (as.zipWith slot bs)

theorem mirrors_checkOperands (op : BinaryOp) (left right : Option SymbolId) (span : Span) :
    Mirrors ρ (checkOperands op left right span) (checkOperands op left right (ρ.span span)) := by
  unfold checkOperands
  split
  · split
    · exact mirrors_pure ()
    · apply mirrors_bind (mirrors_nameOf _)
      intro leftName
      apply mirrors_bind (mirrors_nameOf _)
      intro rightName
      exact mirrors_report _ span
  · exact mirrors_pure ()

theorem mirrors_declaredType (node : NodeId) :
    Mirrors ρ (declaredType node) (declaredType (ρ.node node)) := by
  apply mirrors_bind (mirrors_declaredBy node)
  intro declared
  cases declared with
  | none => exact mirrors_pure none
  | some id => exact mirrors_valueType id

theorem mirrors_fitArguments (callee : String) (params : List SymbolId)
    (args : List (Option SymbolId × Span)) (span : Span) :
    Mirrors ρ (fitArguments callee params args span)
      (fitArguments callee params (args.map fun a => (a.1, ρ.span a.2)) (ρ.span span)) := by
  have htypes : ∀ t : Table, params.mapM (t.rename ρ).valueType? = params.mapM t.valueType? :=
    fun t => congrArg params.mapM (funext (t.valueType?_rename ρ))
  unfold fitArguments
  rw [List.length_map]
  split
  · apply mirrors_bind (mirrors_query htypes)
    intro expected
    rw [List.zipWith_map_right]
    exact mirrors_expectAll_zipWith _ (fun _ _ => rfl) expected args
  · exact mirrors_report _ span

theorem mirrors_callType (callee : Designator) (args : List (Option SymbolId × Span)) (span : Span) :
    Mirrors ρ (callType callee args span)
      (callType (callee.rename ρ) (args.map fun a => (a.1, ρ.span a.2)) (ρ.span span)) := by
  unfold callType
  rw [callee.id_rename, callee.text_rename, callee.span_rename]
  apply mirrors_bind (mirrors_boundTo callee.id)
  intro bound
  cases bound with
  | none => exact mirrors_pure none
  | some id =>
    apply mirrors_bind (mirrors_function id)
    intro function
    cases function with
    | none => exact mirrors_reportNone _ callee.span
    | some function =>
      dsimp only
      cases function.returns with
      | nil => exact mirrors_pure (some SymbolId.void)
      | cons first rest =>
        apply mirrors_bind (mirrors_fitArguments callee.text function.params args span)
        intro _
        exact mirrors_pure (some first)

end Pass

section
variable (ρ : Renaming)

/-- Expressions with their places, as they are held to what is expected of them. -/
theorem zip_spans_rename (found : List (Option SymbolId)) (es : List Expr) :
    found.zip ((renameExprs ρ es).map Expr.span) =
      (found.zip (es.map Expr.span)).map fun a => (a.1, ρ.span a.2) := by
  have hspans : (renameExprs ρ es).map Expr.span = (es.map Expr.span).map ρ.span := by
    rw [renameExprs_eq, List.map_map, List.map_map]
    exact List.map_congr_left fun e _ => e.span_rename ρ
  rw [hspans, List.zip_map_right]
  rfl

mutual
theorem Expr.check_mirrors (e : Expr) : Mirrors ρ e.check (e.rename ρ).check := by
  cases e with
  | literal node value => exact mirrors_noteType node.id value.type
  | load node source =>
    apply mirrors_bind source.check_mirrors
    intro type
    cases type with
    | none => exact mirrors_pure none
    | some type => exact mirrors_noteType node.id type
  | call node callee args =>
    unfold Expr.rename Expr.check
    apply mirrors_bind (checkEach_mirrors args)
    intro found
    apply mirrors_bind callee.check_mirrors
    intro _
    rw [zip_spans_rename]
    apply mirrors_bind (mirrors_callType callee (found.zip (args.map Expr.span)) node.span)
    intro type
    cases type with
    | none => exact mirrors_pure none
    | some type => exact mirrors_noteType node.id type
  | binary node op left right =>
    apply mirrors_bind left.check_mirrors
    intro leftType
    apply mirrors_bind right.check_mirrors
    intro rightType
    apply mirrors_bind (mirrors_checkOperands op leftType rightType node.span)
    intro _
    exact mirrors_noteType node.id op.resultType
  | unary node op operand =>
    apply mirrors_bind operand.check_mirrors
    intro found
    apply mirrors_bind (mirrors_expect (some op.operandType) found (.unaryOperand op) node.span)
    intro _
    exact mirrors_noteType node.id op.operandType

theorem Designator.check_mirrors (d : Designator) : Mirrors ρ d.check (d.rename ρ).check := by
  cases d with
  | name node name => exact mirrors_typeAt node.id
  | index node base position =>
    apply mirrors_bind base.check_mirrors
    intro _
    apply mirrors_bind position.check_mirrors
    intro _
    exact mirrors_typeAt node.id
  | member node base m =>
    apply mirrors_bind base.check_mirrors
    intro _
    exact mirrors_typeAt node.id

theorem checkEach_mirrors (es : List Expr) :
    Mirrors ρ (checkEach es) (checkEach (renameExprs ρ es)) := by
  cases es with
  | nil => exact mirrors_pure []
  | cons e rest =>
    apply mirrors_bind e.check_mirrors
    intro type
    apply mirrors_bind (checkEach_mirrors rest)
    intro types
    exact mirrors_pure (type :: types)
end

theorem checkInit_mirrors (node : NodeId) (name : String) (init : Expr) :
    Mirrors ρ (checkInit node name init) (checkInit (ρ.node node) name (init.rename ρ)) := by
  unfold checkInit
  rw [init.span_rename]
  apply mirrors_bind (mirrors_declaredType node)
  intro declared
  apply mirrors_bind (init.check_mirrors ρ)
  intro found
  exact mirrors_expect declared found (.initMismatch name) init.span

theorem checkTargets_mirrors (targets : List (Option SymbolId)) (source : Expr) (span : Span) :
    Mirrors ρ (checkTargets targets source span)
      (checkTargets targets (source.rename ρ) (ρ.span span)) := by
  apply mirrors_bind (source.check_mirrors ρ)
  intro _
  cases source with
  | call node callee args =>
    change Mirrors ρ (view (·.boundTo? callee.id) >>= _) (view (·.boundTo? (callee.rename ρ).id) >>= _)
    rw [callee.id_rename]
    apply mirrors_bind (mirrors_boundTo callee.id)
    intro bound
    cases bound with
    | none => exact mirrors_pure ()
    | some id =>
      apply mirrors_bind (mirrors_function id)
      intro function
      cases function with
      | none => exact mirrors_pure ()
      | some function =>
        dsimp only
        rw [callee.text_rename]
        split
        · exact mirrors_expectAll_zipWith _ (fun _ _ => rfl) targets function.returns
        · exact mirrors_report _ span
  | literal node value => exact mirrors_report _ node.span
  | load node source => exact mirrors_report _ node.span
  | binary node op left right => exact mirrors_report _ node.span
  | unary node op operand => exact mirrors_report _ node.span

theorem checkGivenBack_mirrors (function : Option SymbolId) (values : List Expr) (span : Span) :
    Mirrors ρ (checkGivenBack function values span)
      (checkGivenBack function (renameExprs ρ values) (ρ.span span)) := by
  have hlength : (renameExprs ρ values).length = values.length := by
    rw [renameExprs_eq, List.length_map]
  have hempty : (renameExprs ρ values).isEmpty = values.isEmpty := by
    cases values <;> rfl
  unfold checkGivenBack
  rw [hlength, hempty]
  apply mirrors_bind (checkEach_mirrors ρ values)
  intro found
  cases function with
  | none => exact mirrors_pure ()
  | some id =>
    apply mirrors_bind (mirrors_function id)
    intro info
    cases info with
    | none => exact mirrors_pure ()
    | some info =>
      dsimp only
      rw [zip_spans_rename]
      split
      · split
        · exact mirrors_pure ()
        · exact mirrors_report .valueFromVoid span
      · split
        · rw [List.zipWith_map_right]
          exact mirrors_expectAll_zipWith _ (fun _ _ => rfl) info.returns _
        · exact mirrors_report _ span

theorem condition_mirrors (condition : Expr) {rest rest' : Pass Unit}
    (hrest : Mirrors ρ rest rest') :
    Mirrors ρ
      (do
        expect (some .bool) (← condition.check) (fun _ found => .conditionNotBool found)
          condition.span
        rest)
      (do
        expect (some .bool) (← (condition.rename ρ).check) (fun _ found => .conditionNotBool found)
          (condition.rename ρ).span
        rest') := by
  rw [condition.span_rename]
  apply mirrors_bind (condition.check_mirrors ρ)
  intro found
  apply mirrors_bind (mirrors_expect (some .bool) found _ condition.span)
  intro _
  exact hrest

mutual
theorem Stmt.check_mirrors (function : Option SymbolId) (s : Stmt) :
    Mirrors ρ (s.check function) ((s.rename ρ).check function) := by
  cases s with
  | declare node vars init =>
    have hdeclared : Mirrors ρ (vars.mapM fun v => declaredType v.node.id)
        ((vars.map (·.rename ρ)).mapM fun v => declaredType v.node.id) :=
      mirrors_mapM (VarDecl.rename ρ) (fun v => mirrors_declaredType v.node.id) vars
    cases init with
    | none => exact mirrors_pure ()
    | some init =>
      match vars, hdeclared with
      | [v], _ => exact checkInit_mirrors ρ v.node.id v.name.text init
      | [], hdeclared | _ :: _ :: _, hdeclared =>
        apply mirrors_bind hdeclared
        intro targets
        exact checkTargets_mirrors ρ targets init node.span
  | assign node target value =>
    unfold Stmt.rename Stmt.check
    rw [target.text_rename, value.span_rename]
    apply mirrors_bind (target.check_mirrors ρ)
    intro expected
    apply mirrors_bind (value.check_mirrors ρ)
    intro found
    exact mirrors_expect expected found (.assignMismatch target.text) value.span
  | assignAll node targets source =>
    apply mirrors_bind (mirrors_mapM (·.rename ρ) (Designator.check_mirrors ρ) targets)
    intro types
    exact checkTargets_mirrors ρ types source node.span
  | branch node condition onTrue onFalse =>
    cases onFalse with
    | none => exact condition_mirrors ρ condition (checkStmts_mirrors function onTrue.stmts)
    | some onFalse =>
      apply condition_mirrors ρ condition
      apply mirrors_bind (checkStmts_mirrors function onTrue.stmts)
      intro _
      exact checkStmts_mirrors function onFalse.stmts
  | giveBack node values => exact checkGivenBack_mirrors ρ function values node.span

theorem checkStmts_mirrors (function : Option SymbolId) (b : List Stmt) :
    Mirrors ρ (checkStmts function b) (checkStmts function (renameStmts ρ b)) := by
  cases b with
  | nil => exact mirrors_pure ()
  | cons s rest =>
    apply mirrors_bind (s.check_mirrors function)
    intro _
    exact checkStmts_mirrors function rest
end

theorem FieldDecl.check_mirrors (f : FieldDecl) : Mirrors ρ f.check (f.rename ρ).check :=
  mirrors_option (·.rename ρ) (checkInit_mirrors ρ f.node.id f.name.text) f.init

theorem Callable.check_mirrors (c : Callable) : Mirrors ρ c.check (c.rename ρ).check := by
  apply mirrors_bind (mirrors_declaredBy c.node.id)
  intro function
  exact checkStmts_mirrors ρ function c.body.stmts

theorem Program.check_mirrors (p : Program) : Mirrors ρ p.check (p.rename ρ).check := by
  unfold Program.check Program.rename
  cases p.contract with
  | none => exact mirrors_pure ()
  | some c =>
    dsimp only [Option.map]
    unfold ContractDecl.check
    rw [c.callables_rename ρ]
    apply mirrors_bind (mirrors_forM (·.rename ρ) (FieldDecl.check_mirrors ρ) c.fields)
    intro _
    apply mirrors_bind (mirrors_forM (StructDecl.rename ρ) (fun s =>
      mirrors_forM (·.rename ρ) (FieldDecl.check_mirrors ρ) s.fields) c.structs)
    intro _
    exact mirrors_forM (·.rename ρ) (Callable.check_mirrors ρ) c.callables

/-! ### Whole analyses -/

theorem Phase.pass_mirrors (phase : Phase) (p : Program) :
    Mirrors ρ (phase.pass p) (phase.pass (p.rename ρ)) := by
  cases phase with
  | symbolConstruction => exact p.declareSymbols_mirrors ρ
  | typeResolution => exact p.resolveTypes_mirrors ρ
  | designatorResolution => exact p.bindNames_mirrors ρ
  | typeChecking => exact p.check_mirrors ρ

def Analysis.rename (a : Analysis) : Analysis :=
  { a with table := a.table.rename ρ, diagnostics := a.diagnostics.map (·.rename ρ) }

def Trace.rename (r : Trace) : Trace := ⟨r.earlier.map (·.rename ρ), r.last.rename ρ⟩

theorem Phase.analyze_mirrors (phase : Phase) (p : Program) {t : Table} (ht : t.Started) :
    phase.analyze (p.rename ρ) (t.rename ρ) = (phase.analyze p t).map (·.rename ρ) ∧
      ∀ a, phase.analyze p t = .ok a → a.table.Started := by
  obtain ⟨hrun, hstarted⟩ := phase.pass_mirrors ρ p t ht
  unfold Phase.analyze
  rw [hrun]
  cases ho : (phase.pass p).run t with
  | error e => exact ⟨rfl, fun _ ha => nomatch ha⟩
  | ok o =>
    refine ⟨congrArg Except.ok ?_, ?_⟩
    · simp [Analysis.rename, Outcome.rename]
    intro a ha
    cases ha
    exact hstarted o ho

theorem runPhases_rename (stopAfter : Option Phase) (p : Program) (phase : Phase) {t : Table}
    (ht : t.Started) (rest : List Phase) :
    runPhases stopAfter (p.rename ρ) phase (t.rename ρ) rest =
      (runPhases stopAfter p phase t rest).map (·.rename ρ) := by
  induction rest generalizing phase t with
  | nil =>
    rw [runPhases, runPhases, (phase.analyze_mirrors ρ p ht).1]
    cases phase.analyze p t <;> rfl
  | cons next rest ih =>
    obtain ⟨hrename, hstarted⟩ := phase.analyze_mirrors ρ p ht
    rw [runPhases, runPhases, hrename]
    cases ha : phase.analyze p t with
    | error e => rfl
    | ok a =>
      have hquiet : (a.rename ρ).diagnostics.isEmpty = a.diagnostics.isEmpty := List.isEmpty_map
      dsimp only [Except.map, bind, Except.bind]
      rw [hquiet]
      split
      · rfl
      · have hlater := ih next (hstarted a ha)
        change Except.bind (runPhases stopAfter (p.rename ρ) next (a.table.rename ρ) rest) _ = _
        rw [hlater]
        cases runPhases stopAfter p next a.table rest <;> rfl

end

/-- Nodes are only told apart by their numbers, which may clash, and places are only carried along.
With other numbers and other places an analysis gets as far as before and fails in the same phase.
It reports the same causes in the same order, each at the new place of the old one. Its table is the
old one with the new numbers of nodes, and with declared symbols at their new places. -/
theorem Config.analyze_parametric (ρ : Renaming) (c : Config) (p : Program) :
    ∃ a a', c.analyze p = .ok a ∧ c.analyze (p.rename ρ) = .ok a' ∧
      a'.lastPhase = a.lastPhase ∧ a'.failedPhase = a.failedPhase ∧
      a'.diagnostics = a.diagnostics.map (·.rename ρ) ∧ a'.table = a.table.rename ρ := by
  obtain ⟨r, hr⟩ := exists_runPhases c.stopAfter p .symbolConstruction Table.valid_initial
    Phase.afterFirst
  have hr' : c.trace (p.rename ρ) = .ok (r.rename ρ) := by
    have hrename := runPhases_rename ρ c.stopAfter p .symbolConstruction
      (Nat.le_refl Table.initial.symbols.length) Phase.afterFirst
    rw [Table.rename_initial, hr] at hrename
    exact hrename
  refine ⟨r.last, r.last.rename ρ, ?_, ?_, rfl, rfl, rfl, rfl⟩
  · exact congrArg (Except.map (·.last)) hr
  · exact congrArg (Except.map (·.last)) hr'

end ContractLang
