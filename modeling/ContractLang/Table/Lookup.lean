import ContractLang.Table.Basic
/-!
Names looked up in scopes. A search goes from a scope to its parents and ends at the first scope
that declares the name.

In `contractc`: `find` (`lookup`) and `find_in` (`declaredIn`); `firstVisible?` is the search inside
`select_candidate`, and `takenNames` that inside `declare_local`.
-/
namespace ContractLang
namespace Table

/-- The declarations of a name in the nearest scope that has any, at most `fuel` scopes away. -/
def nearestWithin (t : Table) (name : String) : Nat → ScopeId → Except Dangling (List SymbolId)
  | 0, _ => .ok []
  | fuel + 1, id =>
    match t.scope id with
    | .error e => .error e
    | .ok s =>
      match s.declarationsOf name, s.parent with
      | [], some parent => t.nearestWithin name fuel parent
      | found, _ => .ok found

/-- The declarations of a name in the nearest scope that has any. No walk that ends visits more
scopes than there are. -/
def nearest (t : Table) (id : ScopeId) (name : String) : Except Dangling (List SymbolId) :=
  t.nearestWithin name (t.scopes.length + 1) id

/-- What a name stands for, seen from a scope. A name that was never mentioned stands for
nothing, whatever the scope. -/
def lookup (t : Table) (id : ScopeId) (name : String) : Except Dangling (Option SymbolId) :=
  if name ∈ t.names then (t.nearest id name).map List.head? else .ok none

/-- All declarations of a name in one scope. -/
def declaredIn (t : Table) (id : ScopeId) (name : String) : Except Dangling (List SymbolId) :=
  if name ∈ t.names then (t.scope id).map (·.declarationsOf name) else .ok []

/-- The first of some symbols that a statement sees. -/
def firstVisible (t : Table) (stmt : NodeId) : List SymbolId → Except Dangling (Option SymbolId)
  | [] => .ok none
  | id :: rest => do
    let seen ← t.isSeenBy id stmt
    if seen then return some id else t.firstVisible stmt rest

/-- Outside all statements none is seen. -/
def firstVisible? (t : Table) (stmt : Option NodeId) (ids : List SymbolId) :
    Except Dangling (Option SymbolId) :=
  match stmt with
  | none => .ok none
  | some stmt => t.firstVisible stmt ids

/-- The names of a function's parameters and of some locals. -/
def takenNames (t : Table) (function : SymbolId) (locals : List SymbolId) :
    Except Dangling (List String) := do
  let record ← t.function? function
  ((record.map (·.params)).getD [] ++ locals).mapM t.nameOf

end Table
end ContractLang
