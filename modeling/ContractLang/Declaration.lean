import ContractLang.Pass
import ContractLang.Syntax.Program
/-!
Declarations become symbols. Names are checked as they come, scopes are opened for the contract,
its struct types and its functions, and each local variable is given the statements that see it:
those that follow its declaration in the same block, and all that lie inside these.

In `contractc`: `SymbolCollector`, with `collect` (`Program.declareSymbols`), `check_identifier`
(`checkName`), `check_unique` (`checkUntaken`), `record_visibility` (`showTo`) and `declare_local`
(`declareAsLocal`). The functions `declare` are `declare_field`, `collect_struct`,
`collect_callable` and `collect_contract`. The walk of `discover_block` and `discover_stmt` keeps
the stack `open_blocks`, which is `OpenBlocks` here.
-/
namespace ContractLang

/-- The words that no declaration may have as its name. -/
def reservedWords : List String := ["char", "int", "bool", "string", "this", "null", "void"]

/-- The name under which a constructor is declared. -/
def constructorName : String := "<constructor>"

namespace Pass

/-- Reports a reserved word, or else the name of one of these struct types. -/
def checkName (structs : List String) (name : String) (span : Span) : Pass Unit :=
  if name ∈ reservedWords then report (.reservedName name) span
  else if name ∈ structs then report (.structCollision name) span
  else pure ()

/-- Reports a name that the scope declares already. -/
def checkUntaken (scope : ScopeId) (name : String) (span : Span) : Pass Unit := do
  let earlier ← query (·.declaredIn scope name)
  reportIf (earlier ≠ []) (.duplicate name) span

/-- Declares the symbol of a node in a scope. -/
def declareNode (scope : ScopeId) (name : String) (node : Node) (kind : SymbolKind) :
    Pass SymbolId := do
  let id ← state (·.declare scope name node.span kind)
  adjust (·.noteDeclaration node.id id)
  return id

/-- A symbol with the scope of its members. -/
structure Owner where
  symbol : SymbolId
  inner : ScopeId

/-- Declares the symbol of a node that has members, and opens their scope. -/
def declareOwner (outer : ScopeId) (name : String) (node : Node) (scopeKind : ScopeKind)
    (kind : ScopeId → SymbolKind) : Pass Owner := do
  let inner ← state fun t => .ok (t.addScope scopeKind (some outer))
  let id ← declareNode outer name node (kind inner)
  update (·.setOwner inner id)
  return ⟨id, inner⟩

end Pass

open Pass

def FieldDecl.declare (structs : List String) (scope : ScopeId) (f : FieldDecl) :
    Pass SymbolId := do
  checkName structs f.name.text f.node.span
  checkUntaken scope f.name.text f.node.span
  declareNode scope f.name.text f.node (.field none)

def StructDecl.declare (structs : List String) (outer : ScopeId) (s : StructDecl) :
    Pass SymbolId := do
  checkName [] s.name.text s.node.span
  checkUntaken outer s.name.text s.node.span
  let owner ← declareOwner outer s.name.text s.node .struct (.struct · [])
  s.fields.forM fun f => do
    let field ← f.declare structs owner.inner
    update (·.updateKind owner.symbol (·.addStructField field))
  return owner.symbol

/-- Where the variables of a function go, and the struct names that they may not have. -/
structure BodyContext where
  structs : List String
  function : SymbolId
  scope : ScopeId

def VarDecl.declareAsParam (c : BodyContext) (v : VarDecl) : Pass Unit := do
  checkName c.structs v.name.text v.node.span
  checkUntaken c.scope v.name.text v.node.span
  let id ← declareNode c.scope v.name.text v.node (.parameter none)
  update (·.updateFunction c.function (·.addParam id))

/-- Declares a local variable. It may not have the name of a parameter, nor that of a local in
`reach`: these are the locals of the blocks that are still open. -/
def VarDecl.declareAsLocal (c : BodyContext) (reach : List SymbolId) (v : VarDecl) :
    Pass SymbolId := do
  checkName c.structs v.name.text v.node.span
  let taken ← query (·.takenNames c.function reach)
  reportIf (v.name.text ∈ taken) (.duplicate v.name.text) v.node.span
  let id ← declareNode c.scope v.name.text v.node (.localVar none [])
  update (·.updateFunction c.function (·.addLocal id))
  return id

/-- Every local in reach can be named in this statement. -/
def showTo (stmt : NodeId) (reach : List SymbolId) : Pass Unit :=
  reach.forM fun id => update (·.updateKind id (·.addVisibility stmt))

/-- The locals of the blocks that are open, block by block, the innermost block last. -/
abbrev OpenBlocks := List (List SymbolId)

namespace OpenBlocks

def reach (blocks : OpenBlocks) : List SymbolId := blocks.flatten

def enter (blocks : OpenBlocks) : OpenBlocks := blocks ++ [[]]

def leave (blocks : OpenBlocks) : OpenBlocks := blocks.dropLast

/-- A local belongs to the innermost block. -/
def add (id : SymbolId) : OpenBlocks → OpenBlocks
  | [] => []
  | [block] => [block ++ [id]]
  | block :: inner => block :: add id inner

end OpenBlocks

def discoverVars (c : BodyContext) (blocks : OpenBlocks) : List VarDecl → Pass OpenBlocks
  | [] => return blocks
  | v :: rest => do
    let id ← v.declareAsLocal c blocks.reach
    discoverVars c (blocks.add id) rest

mutual
/-- Declares the locals of a statement, and gives the open blocks after it. -/
def Stmt.discoverLocals (c : BodyContext) (blocks : OpenBlocks) : Stmt → Pass OpenBlocks
  | .declare _ vars _ => discoverVars c blocks vars
  | .branch _ _ onTrue none => discoverBlock c blocks onTrue
  | .branch _ _ onTrue (some onFalse) => do
    let blocks ← discoverBlock c blocks onTrue
    discoverBlock c blocks onFalse
  | .assign .. | .assignAll .. | .giveBack .. => return blocks

/-- What a block declares is not in reach behind it. -/
def discoverBlock (c : BodyContext) (blocks : OpenBlocks) : BlockOf Stmt → Pass OpenBlocks
  | ⟨stmts, _⟩ => do
    let blocks ← discoverStmts c blocks.enter stmts
    return blocks.leave

/-- A statement sees what is in reach before it, so not what it declares itself. -/
def discoverStmts (c : BodyContext) (blocks : OpenBlocks) : List Stmt → Pass OpenBlocks
  | [] => return blocks
  | s :: rest => do
    showTo s.id blocks.reach
    let blocks ← s.discoverLocals c blocks
    discoverStmts c blocks rest
end

/-- The name under which a callable is declared. -/
def Callable.declaredName (c : Callable) : String := (c.name.map (·.text)).getD constructorName

/-- The name of a function is checked; a constructor has none. -/
def Callable.checkName (outer : ScopeId) (c : Callable) : Pass Unit :=
  match c.name with
  | none => pure ()
  | some name => do
    Pass.checkName [] name.text c.node.span
    checkUntaken outer name.text c.node.span

/-- Declares a callable and its variables. No block is open where a body starts. -/
def Callable.declare (structs : List String) (outer : ScopeId) (c : Callable) :
    Pass SymbolId := do
  c.checkName outer
  let owner ← declareOwner outer c.declaredName c.node .function
    (.function ⟨·, c.name.isNone, [], [], []⟩)
  c.params.forM (·.declareAsParam ⟨structs, owner.symbol, owner.inner⟩)
  let _ ← discoverBlock ⟨structs, owner.symbol, owner.inner⟩ [] c.body
  return owner.symbol

def ContractDecl.declare (c : ContractDecl) : Pass Unit := do
  let structs := c.structs.map (·.name.text)
  checkName structs c.name.text c.node.span
  checkUntaken .global c.name.text c.node.span
  let owner ← declareOwner .global c.name.text c.node .contract
    (.contract ⟨·, [], [], none, []⟩)
  adjust (·.setContract owner.symbol)
  c.fields.forM fun f => do
    let id ← f.declare [] owner.inner
    update (·.updateContract (·.addField id))
  c.structs.forM fun s => do
    let id ← s.declare structs owner.inner
    update (·.updateContract (·.addStruct id))
  c.callables.forM fun f => do
    let id ← f.declare structs owner.inner
    update (·.updateContract (·.addCallable f.name.isNone id))

/-- Declares all that a program declares. Without a contract that is its only diagnostic. -/
def Program.declareSymbols (p : Program) : Pass Unit :=
  match p.contract with
  | none => report .noContract p.span
  | some c => c.declare

end ContractLang
