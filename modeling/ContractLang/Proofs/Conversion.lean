import ContractLang.Proofs.Reach
/-!
Another name for a variable. A conversion gives one variable a new name, where it is declared and
in the designators that stand for it; all nodes and all else that is written stay as they are.
-/
namespace ContractLang

/-- The node that declares the variable, its new name, and which designators stand for it. -/
structure Conversion where
  node : NodeId
  name : String
  refers : NodeId → Bool

/-- The name that a node declares after the conversion. -/
def Conversion.declares (α : Conversion) (n : NodeId) (x : String) : String :=
  if n = α.node then α.name else x

/-- The name that stands at a node after the conversion. -/
def Conversion.mentions (α : Conversion) (n : NodeId) (x : String) : String :=
  if α.refers n then α.name else x

mutual
def Expr.convert (α : Conversion) : Expr → Expr
  | .literal node value => .literal node value
  | .load node source => .load node (source.convert α)
  | .call node callee args => .call node (callee.convert α) (convertExprs α args)
  | .binary node op left right => .binary node op (left.convert α) (right.convert α)
  | .unary node op operand => .unary node op (operand.convert α)

def Designator.convert (α : Conversion) : Designator → Designator
  | .name node x => .name node (α.mentions node.id x)
  | .index node base position => .index node (base.convert α) (position.convert α)
  | .member node base m => .member node (base.convert α) m

def convertExprs (α : Conversion) : List Expr → List Expr
  | [] => []
  | e :: rest => e.convert α :: convertExprs α rest
end

def VarDecl.convert (α : Conversion) (v : VarDecl) : VarDecl :=
  { v with name := ⟨α.declares v.node.id v.name.text, v.name.span⟩ }

mutual
def Stmt.convert (α : Conversion) : Stmt → Stmt
  | .declare node vars init => .declare node (vars.map (·.convert α)) (init.map (·.convert α))
  | .assign node target value => .assign node (target.convert α) (value.convert α)
  | .assignAll node targets source => .assignAll node (targets.map (·.convert α)) (source.convert α)
  | .branch node condition ⟨onTrue, spanTrue⟩ none =>
    .branch node (condition.convert α) ⟨convertStmts α onTrue, spanTrue⟩ none
  | .branch node condition ⟨onTrue, spanTrue⟩ (some ⟨onFalse, spanFalse⟩) =>
    .branch node (condition.convert α) ⟨convertStmts α onTrue, spanTrue⟩
      (some ⟨convertStmts α onFalse, spanFalse⟩)
  | .giveBack node values => .giveBack node (convertExprs α values)

def convertStmts (α : Conversion) : List Stmt → List Stmt
  | [] => []
  | s :: rest => s.convert α :: convertStmts α rest
end

def BlockOf.convert (α : Conversion) (b : Block) : Block :=
  { b with stmts := convertStmts α b.stmts }

def FieldDecl.convert (α : Conversion) (f : FieldDecl) : FieldDecl :=
  { f with init := f.init.map (·.convert α) }

def StructDecl.convert (α : Conversion) (s : StructDecl) : StructDecl :=
  { s with fields := s.fields.map (·.convert α) }

def ConstructorDecl.convert (α : Conversion) (f : ConstructorDecl) : ConstructorDecl :=
  { f with params := f.params.map (·.convert α), body := f.body.convert α }

def FunctionDecl.convert (α : Conversion) (f : FunctionDecl) : FunctionDecl :=
  { f with params := f.params.map (·.convert α), body := f.body.convert α }

def Callable.convert (α : Conversion) (f : Callable) : Callable :=
  { f with params := f.params.map (·.convert α), body := f.body.convert α }

def ContractDecl.convert (α : Conversion) (c : ContractDecl) : ContractDecl :=
  { c with
    fields := c.fields.map (·.convert α)
    structs := c.structs.map (·.convert α)
    ctor := c.ctor.map (·.convert α)
    functions := c.functions.map (·.convert α) }

def Program.convert (α : Conversion) (p : Program) : Program :=
  { p with contract := p.contract.map (·.convert α) }

def Use.convert (α : Conversion) : Use → Use
  | .callee node x => .callee node (α.mentions node.id x)
  | .value d => .value (d.convert α)

variable (α : Conversion)

/-! ### Expressions -/

theorem Expr.id_convert (e : Expr) : (e.convert α).id = e.id := by
  cases e <;> rfl

theorem Designator.id_convert (d : Designator) : (d.convert α).id = d.id := by
  cases d <;> rfl

theorem Use.id_convert (u : Use) : (u.convert α).id = u.id := by
  cases u with
  | callee node x => rfl
  | value d => exact d.id_convert α

theorem convertExprs_eq (es : List Expr) : convertExprs α es = es.map (·.convert α) := by
  induction es with
  | nil => rfl
  | cons e rest ih => rw [convertExprs, ih, List.map_cons]

mutual
theorem Expr.parts_convert (e : Expr) : (e.convert α).parts = e.parts.map (·.convert α) := by
  cases e with
  | literal node value => rfl
  | load node source =>
    rw [Expr.convert, Expr.parts, Expr.parts, source.parts_convert, List.map_append]
    rfl
  | call node callee args =>
    rw [Expr.convert, Expr.parts, Expr.parts, callee.parts_convert, partsOf_convert args,
      List.map_append, List.map_append]
    rfl
  | binary node op left right =>
    rw [Expr.convert, Expr.parts, Expr.parts, left.parts_convert, right.parts_convert,
      List.map_append, List.map_append]
    rfl
  | unary node op operand =>
    rw [Expr.convert, Expr.parts, Expr.parts, operand.parts_convert, List.map_append]
    rfl

theorem Designator.parts_convert (d : Designator) :
    (d.convert α).parts = d.parts.map (·.convert α) := by
  cases d with
  | name node x => rfl
  | index node base position =>
    rw [Designator.convert, Designator.parts, Designator.parts, base.parts_convert,
      position.parts_convert, List.map_append]
  | member node base m => exact base.parts_convert

theorem partsOf_convert (es : List Expr) :
    partsOf (convertExprs α es) = (partsOf es).map (·.convert α) := by
  cases es with
  | nil => rfl
  | cons e rest =>
    rw [convertExprs, partsOf, partsOf, e.parts_convert, partsOf_convert rest, List.map_append]
end

mutual
theorem Expr.uses_convert (e : Expr) : (e.convert α).uses = e.uses.map (·.convert α) := by
  cases e with
  | literal node value => rfl
  | load node source => exact source.uses_convert
  | call node callee args =>
    have hargs := usesOf_convert args
    cases callee with
    | name n x => exact congrArg (_ :: ·) hargs
    | index n base position =>
      have hcallee := Designator.uses_convert (.index n base position)
      rw [Designator.convert] at hcallee
      rw [Expr.convert, Designator.convert, Expr.uses, Expr.uses, hcallee, hargs, List.map_append]
      all_goals exact nofun
    | member n base m =>
      have hcallee := Designator.uses_convert (.member n base m)
      rw [Designator.convert] at hcallee
      rw [Expr.convert, Designator.convert, Expr.uses, Expr.uses, hcallee, hargs, List.map_append]
      all_goals exact nofun
  | binary node op left right =>
    rw [Expr.convert, Expr.uses, Expr.uses, left.uses_convert, right.uses_convert, List.map_append]
  | unary node op operand => exact operand.uses_convert

theorem Designator.uses_convert (d : Designator) : (d.convert α).uses = d.uses.map (·.convert α) := by
  cases d with
  | name node x => rfl
  | index node base position =>
    rw [Designator.convert, Designator.uses, Designator.uses, base.uses_convert,
      position.uses_convert, List.map_append, List.map_append]
    rfl
  | member node base m =>
    rw [Designator.convert, Designator.uses, Designator.uses, base.uses_convert, List.map_append]
    rfl

theorem usesOf_convert (es : List Expr) :
    usesOf (convertExprs α es) = (usesOf es).map (·.convert α) := by
  cases es with
  | nil => rfl
  | cons e rest =>
    rw [convertExprs, usesOf, usesOf, e.uses_convert, usesOf_convert rest, List.map_append]
end

/-! ### Statements -/

namespace Stmt

theorem id_convert (s : Stmt) : (s.convert α).id = s.id := by
  cases s with
  | branch node condition onTrue onFalse => cases onFalse <;> rfl
  | _ => rfl

theorem vars_convert (s : Stmt) : (s.convert α).vars = s.vars.map (·.convert α) := by
  cases s with
  | branch node condition onTrue onFalse => cases onFalse <;> rfl
  | _ => rfl

theorem blocks_convert (s : Stmt) : (s.convert α).blocks = s.blocks.map (·.convert α) := by
  cases s with
  | branch node condition onTrue onFalse => cases onFalse <;> rfl
  | _ => rfl

theorem parts_convert (s : Stmt) : (s.convert α).parts = s.parts.map (·.convert α) := by
  cases s with
  | declare node vars init =>
    cases init with
    | none => rfl
    | some init => exact init.parts_convert α
  | assign node target value =>
    rw [convert, parts, parts, target.parts_convert, value.parts_convert, List.map_append]
  | assignAll node targets source =>
    rw [convert, parts, parts, source.parts_convert, List.map_append, List.flatMap_map, List.map_flatMap]
    simp only [Designator.parts_convert]
  | branch node condition onTrue onFalse => cases onFalse <;> exact condition.parts_convert α
  | giveBack node values => exact partsOf_convert α values

theorem uses_convert (s : Stmt) : (s.convert α).uses = s.uses.map (·.convert α) := by
  cases s with
  | declare node vars init =>
    cases init with
    | none => rfl
    | some init => exact init.uses_convert α
  | assign node target value =>
    rw [convert, uses, uses, target.uses_convert, value.uses_convert, List.map_append]
  | assignAll node targets source =>
    rw [convert, uses, uses, source.uses_convert, List.map_append, List.flatMap_map, List.map_flatMap]
    simp only [Designator.uses_convert]
  | branch node condition onTrue onFalse => cases onFalse <;> exact condition.uses_convert α
  | giveBack node values => exact usesOf_convert α values

end Stmt

theorem BlockOf.stmts_convert (b : Block) : (b.convert α).stmts = convertStmts α b.stmts := rfl

theorem allOf_convert (b : List Stmt) : allOf (convertStmts α b) = (allOf b).map (·.convert α) := by
  induction b using Block.induction with
  | nil => rfl
  | cons s rest hblocks hrest =>
    rw [convertStmts, allOf, allOf, hrest, List.map_append, Stmt.all_eq, Stmt.all_eq, Stmt.inner_eq,
      Stmt.inner_eq, s.blocks_convert, List.flatMap_map, List.map_cons, List.map_flatMap]
    simp only [BlockOf.stmts_convert, List.flatMap_congr hblocks]

theorem localsOf_convert (b : List Stmt) :
    localsOf (convertStmts α b) = (localsOf b).map (·.convert α) := by
  induction b using Block.induction with
  | nil => rfl
  | cons s rest hblocks hrest =>
    rw [convertStmts, localsOf, localsOf, hrest, List.map_append, Stmt.locals_eq, Stmt.locals_eq,
      s.vars_convert, s.blocks_convert, List.flatMap_map, List.map_append, List.map_flatMap]
    simp only [BlockOf.stmts_convert, List.flatMap_congr hblocks]

theorem viewsOf_convert (b : List Stmt) :
    viewsOf (convertStmts α b) = (viewsOf b).map fun view => (view.1.convert α, view.2) := by
  induction b using Block.induction with
  | nil => rfl
  | cons s rest hblocks hrest =>
    have hafter : (allOf (convertStmts α rest)).map Stmt.id = (allOf rest).map Stmt.id := by
      rw [allOf_convert, List.map_map]
      exact List.map_congr_left fun s _ => s.id_convert α
    rw [convertStmts, viewsOf, viewsOf, hrest, hafter, List.map_append, Stmt.views_eq, Stmt.views_eq,
      s.vars_convert, s.blocks_convert, List.flatMap_map, List.map_append, List.map_flatMap,
      List.map_map, List.map_map]
    simp only [BlockOf.stmts_convert, List.flatMap_congr hblocks]
    rfl

/-! ### Declarations -/

theorem FieldDecl.parts_convert (f : FieldDecl) : (f.convert α).parts = f.parts.map (·.convert α) := by
  unfold FieldDecl.parts FieldDecl.convert
  cases f.init with
  | none => rfl
  | some init => simp [Expr.parts_convert]

theorem FieldDecl.uses_convert (f : FieldDecl) : (f.convert α).uses = f.uses.map (·.convert α) := by
  unfold FieldDecl.uses FieldDecl.convert
  cases f.init with
  | none => rfl
  | some init => simp [Expr.uses_convert]

namespace Callable
variable (f : Callable)

theorem locals_convert : localsOf (f.convert α).body.stmts = (localsOf f.body.stmts).map (·.convert α) :=
  localsOf_convert α f.body.stmts

theorem all_convert : allOf (f.convert α).body.stmts = (allOf f.body.stmts).map (·.convert α) :=
  allOf_convert α f.body.stmts

end Callable

theorem StructDecl.fields_convert (s : StructDecl) :
    (s.convert α).fields = s.fields.map (·.convert α) := rfl

namespace ContractDecl
variable (c : ContractDecl)

theorem fields_convert : (c.convert α).fields = c.fields.map (·.convert α) := rfl

theorem structs_convert : (c.convert α).structs = c.structs.map (·.convert α) := rfl

theorem callables_convert : (c.convert α).callables = c.callables.map (·.convert α) := by
  have hctor : (c.convert α).ctor.toList = c.ctor.toList.map (·.convert α) := Option.toList_map
  have hfunctions : (c.convert α).functions = c.functions.map (·.convert α) := rfl
  unfold callables
  rw [hctor, hfunctions, List.map_append, List.map_map, List.map_map, List.map_map, List.map_map]
  rfl

theorem allFields_convert : (c.convert α).allFields = c.allFields.map (·.convert α) := by
  unfold allFields
  rw [List.map_append, List.map_flatMap]
  refine congrArg (_ ++ ·) ?_
  exact List.flatMap_map ..

theorem stmts_convert : (c.convert α).stmts = c.stmts.map (·.convert α) := by
  unfold stmts
  rw [callables_convert, List.flatMap_map, List.map_flatMap]
  exact List.flatMap_congr fun f _ => f.all_convert α

theorem declarationIds_convert : (c.convert α).declarationIds = c.declarationIds := by
  have hvars : ∀ vs : List VarDecl, (vs.map (·.convert α)).map (·.node.id) = vs.map (·.node.id) :=
    fun vs => List.map_map
  have hfields : ∀ fs : List FieldDecl, (fs.map (·.convert α)).map (·.node.id) = fs.map (·.node.id) :=
    fun fs => List.map_map
  have hstructs : (c.structs.map (·.convert α)).flatMap
      (fun s => s.node.id :: s.fields.map (·.node.id)) =
        c.structs.flatMap fun s => s.node.id :: s.fields.map (·.node.id) := by
    rw [List.flatMap_map]
    exact List.flatMap_congr fun s _ => congrArg (_ :: ·) (hfields s.fields)
  have hcallables : (c.callables.map (·.convert α)).flatMap (fun f => f.node.id ::
      f.params.map (·.node.id) ++ (localsOf f.body.stmts).map (·.node.id)) = c.callables.flatMap fun f =>
        f.node.id :: f.params.map (·.node.id) ++ (localsOf f.body.stmts).map (·.node.id) := by
    rw [List.flatMap_map]
    refine List.flatMap_congr fun f _ => ?_
    rw [f.locals_convert, hvars]
    exact congrArg (_ :: · ++ _) (hvars f.params)
  unfold declarationIds
  rw [callables_convert, hcallables, fields_convert, structs_convert, hfields, hstructs]
  rfl

theorem nodeIds_convert : (c.convert α).nodeIds = c.nodeIds := by
  have hexprs : (c.convert α).exprs = c.exprs.map (·.convert α) := by
    unfold exprs
    rw [allFields_convert, stmts_convert, List.map_append, List.flatMap_map, List.flatMap_map,
      List.map_flatMap, List.map_flatMap]
    simp only [FieldDecl.parts_convert, Stmt.parts_convert]
  have huses : (c.convert α).uses = c.uses.map (·.convert α) := by
    unfold uses
    rw [allFields_convert, stmts_convert, List.map_append, List.flatMap_map, List.flatMap_map,
      List.map_flatMap, List.map_flatMap]
    simp only [FieldDecl.uses_convert, Stmt.uses_convert]
  unfold nodeIds
  rw [declarationIds_convert, stmts_convert, hexprs, huses, List.map_map, List.map_map, List.map_map]
  simp only [Function.comp_def, Stmt.id_convert, Expr.id_convert, Use.id_convert]

end ContractDecl
end ContractLang
