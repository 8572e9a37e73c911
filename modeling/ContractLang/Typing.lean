import ContractLang.Pass
import ContractLang.Syntax.Program
/-!
Expressions get types and statements are held to them. Types are compared by number. Where a type
is not known nothing more is reported, so that one mistake is reported once.

In `contractc`: `TypeChecker`, with `check_initializer` (`checkInit`), `check_multi_target`
(`checkTargets`), `check_return` (`checkGivenBack`), `check_call` (`callType`), `check_arguments`
(`fitArguments`) and `check_binary` (`checkOperands`). The functions `check` are `check`,
`check_stmt`, `check_expr` (with `check_unary`) and `check_designator`, and `check_block` is
`checkStmts`.
-/
namespace ContractLang

def Literal.type : Literal → SymbolId
  | .int _ => .int
  | .bool _ => .bool
  | .char _ => .char
  | .string _ => .string

namespace BinaryOp

/-- The type of the whole, whatever the operands are. -/
def resultType (op : BinaryOp) : SymbolId := if op.isArithmetic then .int else .bool

/-- Whether operands of these types may be joined. -/
def accepts (op : BinaryOp) (left right : SymbolId) : Bool :=
  if op.isArithmetic then left = .int ∧ right = .int
  else if op.isLogical then left = .bool ∧ right = .bool
  else if op.isRelational then left = right ∧ (left = .int ∨ left = .char)
  else left = right

end BinaryOp

/-- The type of the operand, which is also that of the whole. -/
def UnaryOp.operandType : UnaryOp → SymbolId
  | .plus | .neg => .int
  | .not => .bool

namespace Pass

/-- Reports two types that are both known and differ. -/
def expect (expected found : Option SymbolId) (cause : String → String → Cause) (span : Span) :
    Pass Unit :=
  match expected, found with
  | some e, some f =>
    if e = f then pure ()
    else do
      let expectedName ← query (·.nameOf e)
      let foundName ← query (·.nameOf f)
      report (cause expectedName foundName) span
  | _, _ => pure ()

/-- One place of a list where a type is expected and another may be found. -/
structure Slot where
  expected : Option SymbolId
  found : Option SymbolId
  span : Span

/-- Compares slot by slot; `position` is that of the first. -/
def expectAll (cause : Nat → String → String → Cause) (position : Nat) : List Slot → Pass Unit
  | [] => pure ()
  | s :: rest => do
    expect s.expected s.found (cause position) s.span
    expectAll cause (position + 1) rest

def checkOperands (op : BinaryOp) (left right : Option SymbolId) (span : Span) : Pass Unit :=
  match left, right with
  | some l, some r =>
    if op.accepts l r then pure ()
    else do
      let leftName ← query (·.nameOf l)
      let rightName ← query (·.nameOf r)
      report (.binaryOperands op leftName rightName) span
  | _, _ => pure ()

/-- The type of the value that a node declares, as far as it is resolved. -/
def declaredType (node : NodeId) : Pass (Option SymbolId) := do
  match ← view (·.declaredBy? node) with
  | none => return none
  | some id => query (·.valueType? id)

/-- Arguments are held to parameters in number and in type. -/
def fitArguments (callee : String) (params : List SymbolId) (args : List (Option SymbolId × Span))
    (span : Span) : Pass Unit := do
  if params.length = args.length then
    let expected ← query fun t => params.mapM t.valueType?
    expectAll (.argumentMismatch callee) 1 (expected.zipWith (fun e a => ⟨e, a.1, a.2⟩) args)
  else report (.argumentCount callee params.length args.length) span

/-- The type of a call: what the function returns first, or void. The arguments of a function
that returns nothing are not looked at. -/
def callType (callee : Designator) (args : List (Option SymbolId × Span)) (span : Span) :
    Pass (Option SymbolId) := do
  match ← view (·.boundTo? callee.id) with
  | none => return none
  | some id =>
    match ← query (·.function? id) with
    | none =>
      report (.notFunction callee.text) callee.span
      return none
    | some function =>
      match function.returns with
      | [] => return some .void
      | first :: _ =>
        fitArguments callee.text function.params args span
        return some first

end Pass

open Pass

mutual
def Expr.check : Expr → Pass (Option SymbolId)
  | .literal node value => noteType node.id value.type
  | .load node source => do
    match ← source.check with
    | none => return none
    | some type => noteType node.id type
  | .call node callee args => do
    let found ← checkEach args
    let _ ← callee.check
    match ← callType callee (found.zip (args.map Expr.span)) node.span with
    | none => return none
    | some type => noteType node.id type
  | .binary node op left right => do
    let leftType ← left.check
    let rightType ← right.check
    checkOperands op leftType rightType node.span
    noteType node.id op.resultType
  | .unary node op operand => do
    let found ← operand.check
    expect (some op.operandType) found (.unaryOperand op) node.span
    noteType node.id op.operandType

/-- Checks the expressions inside a designator and gives the type it was bound with. -/
def Designator.check : Designator → Pass (Option SymbolId)
  | .name node _ => view (·.typeAt? node.id)
  | .index node base position => do
    let _ ← base.check
    let _ ← position.check
    view (·.typeAt? node.id)
  | .member node base _ => do
    let _ ← base.check
    view (·.typeAt? node.id)

def checkEach : List Expr → Pass (List (Option SymbolId))
  | [] => return []
  | e :: rest => do
    let type ← e.check
    return type :: (← checkEach rest)
end

/-- An initial value has the type that is declared with the name. -/
def checkInit (node : NodeId) (name : String) (init : Expr) : Pass Unit := do
  let declared ← declaredType node
  let found ← init.check
  expect declared found (.initMismatch name) init.span

/-- Several targets take the values of one call. -/
def checkTargets (targets : List (Option SymbolId)) (source : Expr) (span : Span) : Pass Unit := do
  let _ ← source.check
  match source with
  | .call _ callee _ =>
    match ← view (·.boundTo? callee.id) with
    | none => pure ()
    | some id =>
      match ← query (·.function? id) with
      | none => pure ()
      | some function =>
        if function.returns.length = targets.length then
          expectAll .valueMismatch 1
            (targets.zipWith (fun e f => ⟨e, some f, span⟩) function.returns)
        else report (.valueCount callee.text targets.length function.returns.length) span
  | _ => report (.sourceNotCall targets.length) source.span

/-- The values given back are held to what the function returns. -/
def checkGivenBack (function : Option SymbolId) (values : List Expr) (span : Span) : Pass Unit := do
  let found ← checkEach values
  match function with
  | none => pure ()
  | some id =>
    match ← query (·.function? id) with
    | none => pure ()
    | some info =>
      if info.returns.isEmpty then
        if values.isEmpty then pure () else report .valueFromVoid span
      else if info.returns.length = values.length then
        expectAll .returnMismatch 1
          (info.returns.zipWith (fun e f => ⟨some e, f.1, f.2⟩) (found.zip (values.map Expr.span)))
      else report (.returnCount info.returns.length values.length) span

mutual
def Stmt.check (function : Option SymbolId) : Stmt → Pass Unit
  | .declare _ _ none => pure ()
  | .declare _ [v] (some init) => checkInit v.node.id v.name.text init
  | .declare node vars (some init) => do
    let targets ← vars.mapM fun v => declaredType v.node.id
    checkTargets targets init node.span
  | .assign _ target value => do
    let expected ← target.check
    let found ← value.check
    expect expected found (.assignMismatch target.text) value.span
  | .assignAll node targets source => do
    let types ← targets.mapM Designator.check
    checkTargets types source node.span
  | .branch _ condition ⟨onTrue, _⟩ none => do
    expect (some .bool) (← condition.check) (fun _ found => .conditionNotBool found) condition.span
    checkStmts function onTrue
  | .branch _ condition ⟨onTrue, _⟩ (some ⟨onFalse, _⟩) => do
    expect (some .bool) (← condition.check) (fun _ found => .conditionNotBool found) condition.span
    checkStmts function onTrue
    checkStmts function onFalse
  | .giveBack node values => checkGivenBack function values node.span

def checkStmts (function : Option SymbolId) : List Stmt → Pass Unit
  | [] => pure ()
  | s :: rest => do
    s.check function
    checkStmts function rest
end

def FieldDecl.check (f : FieldDecl) : Pass Unit :=
  f.init.forM (checkInit f.node.id f.name.text ·)

def Callable.check (c : Callable) : Pass Unit := do
  checkStmts (← view (·.declaredBy? c.node.id)) c.body.stmts

def ContractDecl.check (c : ContractDecl) : Pass Unit := do
  c.fields.forM (·.check)
  c.structs.forM fun s => s.fields.forM (·.check)
  c.callables.forM (·.check)

def Program.check (p : Program) : Pass Unit :=
  match p.contract with
  | none => pure ()
  | some c => c.check

end ContractLang
