import ContractLang.Pass
import ContractLang.Syntax.Program
/-!
Designators are bound to declarations. A name stands for the nearest value of that name; of the
locals of a function, for one that the statement sees. A position in an array is bound to what
the array is bound to, and the length of an array to the built-in field.

In `contractc`: `DesignatorResolver`, with `lookup_value` (`valueNamed`), `select_candidate`
(`visibleLocal`) and `resolve_callee` (`bindCallee`). The functions `bindNames` are `resolve`,
`resolve_stmt`, `resolve_expr` and `resolve_designator`, and `resolve_block` is `bindNamesIn`.
-/
namespace ContractLang

/-- Where a designator stands: in which scope, and in which statement, if any. -/
structure Site where
  scope : ScopeId
  stmt : Option NodeId

/-- The one member that a type can have. -/
def lengthMember : String := "length"

namespace Pass

/-- Of the locals of one name, the first that the statement sees. -/
def visibleLocal (site : Site) (name : String) (span : Span) (locals : List SymbolId) :
    Pass (Option SymbolId) := do
  let visible ← query (·.firstVisible? site.stmt locals)
  reportIf (visible = none) (.hiddenLocal name) span
  return visible

/-- The value that a name stands for. -/
def valueNamed (site : Site) (name : String) (span : Span) : Pass (Option SymbolId) := do
  match ← query (·.nearest site.scope name) with
  | [] => do
    report (.undefinedName name) span
    return none
  | first :: rest =>
    let kind ← query (·.kindOf first)
    if !kind.isValue then
      report (.undefinedName name) span
      return none
    else if !kind.isLocal then return some first
    else visibleLocal site name span (first :: rest)

def bindTo (node : NodeId) (id : SymbolId) : Pass Unit := adjust (·.noteBinding node id)

/-- A function is called by the nearest declaration of its name, whatever that is. -/
def bindCallee (site : Site) (node : Node) (name : String) : Pass Unit := do
  match ← query (·.lookup site.scope name) with
  | none => report (.undefinedName name) node.span
  | some id => bindTo node.id id

/-- Binds a position in an array, given the type of the array if that is known. -/
def bindElement (node : Node) (base : Designator) : Option SymbolId → Pass (Option SymbolId)
  | none => return none
  | some type => do
    match ← query (·.element? type) with
    | none =>
      report (.notIndexable base.text (← query (·.nameOf type))) node.span
      return none
    | some element =>
      adjust (·.copyBinding node.id base.id)
      noteType node.id element

/-- Binds a member, given the type that has it if that is known. Only arrays have one. -/
def bindMember (node : Node) (member : Ident) : Option SymbolId → Pass (Option SymbolId)
  | none => return none
  | some type => do
    let element ← query (·.element? type)
    if element.isSome ∧ member.text = lengthMember then
      bindTo node.id .length
      noteType node.id .int
    else
      report (.noMember (← query (·.nameOf type)) member.text) member.span
      return none

end Pass

open Pass

mutual
def Expr.bindNames (site : Site) : Expr → Pass Unit
  | .literal .. => pure ()
  | .load _ source => do
    let _ ← source.bindNames site
    pure ()
  | .call _ (.name node name) args => do
    bindCallee site node name
    bindNamesOf site args
  | .call _ callee args => do
    let _ ← callee.bindNames site
    bindNamesOf site args
  | .binary _ _ left right => do
    left.bindNames site
    right.bindNames site
  | .unary _ _ operand => operand.bindNames site

/-- Gives the type of the designator if all of it could be bound. -/
def Designator.bindNames (site : Site) : Designator → Pass (Option SymbolId)
  | .name node name => do
    match ← valueNamed site name node.span with
    | none => return none
    | some id =>
      bindTo node.id id
      match ← query (·.valueType? id) with
      | none => return none
      | some type => noteType node.id type
  | .index node base position => do
    let type ← base.bindNames site
    position.bindNames site
    bindElement node base type
  | .member node base member => do
    bindMember node member (← base.bindNames site)

def bindNamesOf (site : Site) : List Expr → Pass Unit
  | [] => pure ()
  | e :: rest => do
    e.bindNames site
    bindNamesOf site rest
end

mutual
def Stmt.bindNames (scope : ScopeId) : Stmt → Pass Unit
  | .declare node _ init => init.forM (·.bindNames ⟨scope, some node.id⟩)
  | .assign node target value => do
    let _ ← target.bindNames ⟨scope, some node.id⟩
    value.bindNames ⟨scope, some node.id⟩
  | .assignAll node targets source => do
    targets.forM fun d => do
      let _ ← d.bindNames ⟨scope, some node.id⟩
      pure ()
    source.bindNames ⟨scope, some node.id⟩
  | .branch node condition ⟨onTrue, _⟩ none => do
    condition.bindNames ⟨scope, some node.id⟩
    bindNamesIn scope onTrue
  | .branch node condition ⟨onTrue, _⟩ (some ⟨onFalse, _⟩) => do
    condition.bindNames ⟨scope, some node.id⟩
    bindNamesIn scope onTrue
    bindNamesIn scope onFalse
  | .giveBack node values => bindNamesOf ⟨scope, some node.id⟩ values

def bindNamesIn (scope : ScopeId) : List Stmt → Pass Unit
  | [] => pure ()
  | s :: rest => do
    s.bindNames scope
    bindNamesIn scope rest
end

/-- An initial value stands in the scope of its field and in no statement. -/
def FieldDecl.bindNames (scope : ScopeId) (f : FieldDecl) : Pass Unit :=
  f.init.forM (·.bindNames ⟨scope, none⟩)

def StructDecl.bindNames (s : StructDecl) : Pass Unit := do
  match ← view (·.declaredBy? s.node.id) with
  | none => pure ()
  | some id =>
    match (← query (·.kindOf id)).structScope? with
    | none => pure ()
    | some scope => s.fields.forM (·.bindNames scope)

def Callable.bindNames (c : Callable) : Pass Unit := do
  match ← view (·.declaredBy? c.node.id) with
  | none => pure ()
  | some id =>
    match ← query (·.function? id) with
    | none => pure ()
    | some function => bindNamesIn function.inner c.body.stmts

def ContractDecl.bindNames (c : ContractDecl) : Pass Unit := do
  let scope ← query (·.memberScope)
  c.fields.forM (·.bindNames scope)
  c.structs.forM (·.bindNames)
  c.callables.forM (·.bindNames)

def Program.bindNames (p : Program) : Pass Unit :=
  match p.contract with
  | none => pure ()
  | some c => c.bindNames

end ContractLang
