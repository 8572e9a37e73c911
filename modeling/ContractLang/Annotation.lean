import ContractLang.Pass
import ContractLang.Syntax.Program
/-!
The written types of declarations become type symbols. Every written type is looked up, also
after one that is unknown. Nodes that declare nothing are passed over.

In `contractc`: `TypeResolver`, with `resolve` (`Program.resolveTypes`), `lookup`
(`TypeName.resolve`), `resolve_declared` (`settleType`), `resolve_returns` (`settleReturns`) and
`resolve_block` (`resolveTypesIn`).
-/
namespace ContractLang

/-- How many types a function may return. -/
def maxReturns : Nat := 3

open Pass

/-- The type that is written here; reports one that is unknown. -/
def TypeName.resolve (type : TypeName) : Pass (Option SymbolId) := do
  let found ← state (·.typeNamed type)
  reportIf (found = none) (.unknownType type.text) type.span
  return found

/-- Those of some written types that are known. -/
def resolveTypes : List TypeName → Pass (List SymbolId)
  | [] => return []
  | type :: rest => do
    let found ← type.resolve
    return found.toList ++ (← resolveTypes rest)

/-- Gives the field, parameter or local of a node the type that is written with it. -/
def settleType (node : NodeId) (type : TypeName) : Pass Unit := do
  match ← view (·.declaredBy? node) with
  | none => pure ()
  | some id =>
    if type.isVoid then report .voidValue type.span
    else
      match ← type.resolve with
      | none => pure ()
      | some found => update (·.setValueType id found)

def FieldDecl.resolveType (f : FieldDecl) : Pass Unit := settleType f.node.id f.type

def VarDecl.resolveType (v : VarDecl) : Pass Unit := settleType v.node.id v.type

/-- A callable as messages name it. -/
def Callable.shownName (c : Callable) : String := (c.name.map (·.text)).getD "constructor"

/-- Void has to stand alone. -/
def Callable.checkVoid (c : Callable) : Pass Unit :=
  match c.returns.find? (·.isVoid) with
  | none => pure ()
  | some void => reportIf (1 < c.returns.length) (.voidAmongReturns c.shownName) void.span

/-- The types that a function returns: void counts as none. -/
def Callable.settleReturns (c : Callable) (id : SymbolId) : Pass Unit := do
  reportIf (maxReturns < c.returns.length)
    (.tooManyReturns c.shownName c.returns.length maxReturns) c.node.span
  c.checkVoid
  let types ← ContractLang.resolveTypes (c.returns.filter (!·.isVoid))
  update (·.updateFunction id (·.setReturns types))

mutual
/-- Every variable of a declaration has a written type of its own. -/
def Stmt.resolveTypes : Stmt → Pass Unit
  | .declare _ vars _ => vars.forM (·.resolveType)
  | .branch _ _ ⟨onTrue, _⟩ none => resolveTypesIn onTrue
  | .branch _ _ ⟨onTrue, _⟩ (some ⟨onFalse, _⟩) => do
    resolveTypesIn onTrue
    resolveTypesIn onFalse
  | .assign .. | .assignAll .. | .giveBack .. => pure ()

def resolveTypesIn : List Stmt → Pass Unit
  | [] => pure ()
  | s :: rest => do
    s.resolveTypes
    resolveTypesIn rest
end

def Callable.resolveTypes (c : Callable) : Pass Unit := do
  match ← view (·.declaredBy? c.node.id) with
  | none => pure ()
  | some id =>
    c.params.forM (·.resolveType)
    c.settleReturns id
    resolveTypesIn c.body.stmts

def ContractDecl.resolveTypes (c : ContractDecl) : Pass Unit := do
  c.fields.forM (·.resolveType)
  c.structs.forM fun s => s.fields.forM (·.resolveType)
  c.callables.forM (·.resolveTypes)

def Program.resolveTypes (p : Program) : Pass Unit :=
  match p.contract with
  | none => pure ()
  | some c => c.resolveTypes

end ContractLang
