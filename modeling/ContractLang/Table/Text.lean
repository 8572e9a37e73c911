import ContractLang.Table.Types
/-!
A table as text: its scopes with their declarations, and a one-line summary of its size.

In `contractc`: the two texts of a `SymbolTable`, here `text` and `summary`.
-/
namespace ContractLang
namespace Table

/-- The type part of a declaration: what a function returns, or the type of a value. -/
def signatureText (t : Table) : SymbolKind → Except Dangling String
  | .function info => do
    let returns ← info.returns.mapM t.nameOf
    return " -> (" ++ ", ".intercalate returns ++ ")"
  | kind =>
    match kind.valueType? with
    | none => return ""
    | some type => return ": " ++ (← t.nameOf type)

def declarationText (t : Table) (id : SymbolId) : Except Dangling String := do
  let s ← t.symbol id
  return "  " ++ s.kind.noun ++ " " ++ s.name ++ (← t.signatureText s.kind) ++ "\n"

def ownerText (t : Table) : Option SymbolId → Except Dangling String
  | none => .ok "<global>"
  | some id => t.nameOf id

def scopeText (t : Table) (s : Scope) (i : Nat) : Except Dangling String := do
  let owner ← t.ownerText s.owner
  let lines ← s.declarations.mapM fun (_, id) => t.declarationText id
  return "scope " ++ toString i ++ " " ++ s.kind.name ++ " " ++ owner ++ "\n" ++ String.join lines

/-- All scopes in order, each with its declarations. -/
def text (t : Table) : Except Dangling String := do
  return String.join (← t.scopes.zipIdx.mapM fun (s, i) => t.scopeText s i)

/-- How many symbols, scopes, bindings and types there are. -/
def summary (t : Table) : String :=
  let symbols := t.symbols.length
  let scopes := t.scopes.length
  let bindings := t.bindings.size
  let types := t.types.size
  s!"SymbolTable \x7b symbols: {symbols}, scopes: {scopes}, designators: {bindings}, " ++
    s!"expr_types: {types}, .. \x7d"

end Table
end ContractLang
