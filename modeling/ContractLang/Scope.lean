import ContractLang.Symbol
/-!
Scopes: the declarations of one region of a program, in order. One name may be declared more than
once.

In `contractc`: `Scope`, with `push` (`add`), `lookup_local` (`first?`) and `lookup_all`
(`declarationsOf`).
-/
namespace ContractLang

inductive ScopeKind where
  | global | contract | struct | function
deriving DecidableEq, Repr

def ScopeKind.name : ScopeKind → String
  | global => "Global" | contract => "Contract" | struct => "Struct" | function => "Function"

structure Scope where
  kind : ScopeKind
  owner : Option SymbolId
  parent : Option ScopeId
  declarations : List (String × SymbolId)
deriving DecidableEq, Repr

namespace Scope

def new (kind : ScopeKind) (parent : Option ScopeId) : Scope := ⟨kind, none, parent, []⟩

/-- All declarations of a name, in order. -/
def declarationsOf (s : Scope) (name : String) : List SymbolId :=
  (s.declarations.filter (·.1 = name)).map Prod.snd

/-- The first declaration of a name. -/
def first? (s : Scope) (name : String) : Option SymbolId := (s.declarationsOf name).head?

def add (s : Scope) (name : String) (id : SymbolId) : Scope :=
  { s with declarations := s.declarations ++ [(name, id)] }

theorem declarationsOf_add (s : Scope) (name n : String) (id : SymbolId) :
    (s.add n id).declarationsOf name = s.declarationsOf name ++ if n = name then [id] else [] := by
  by_cases h : n = name <;> simp [declarationsOf, add, List.filter_append, h]

end Scope
end ContractLang
