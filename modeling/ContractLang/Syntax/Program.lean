import ContractLang.Syntax.Stmt
/-!
Declarations and whole programs: at most one contract, with fields, struct types, a constructor
and functions.

In `contractc`: `Contract` (`ContractDecl`), with `callables`, `with_field`, `with_struct`,
`with_constructor` (`withCtor`) and `with_function`.
-/
namespace ContractLang

structure FieldDecl where
  node : Node
  name : Ident
  type : TypeName
  init : Option Expr

structure StructDecl where
  node : Node
  name : Ident
  fields : List FieldDecl

structure ConstructorDecl where
  node : Node
  params : List VarDecl
  body : Block

structure FunctionDecl where
  node : Node
  name : Ident
  returns : List TypeName
  params : List VarDecl
  body : Block

/-- A constructor or a function; only a function has a name, and only a function returns. -/
structure Callable where
  node : Node
  name : Option Ident
  returns : List TypeName
  params : List VarDecl
  body : Block

def ConstructorDecl.callable (c : ConstructorDecl) : Callable :=
  ⟨c.node, none, [], c.params, c.body⟩

def FunctionDecl.callable (f : FunctionDecl) : Callable :=
  ⟨f.node, some f.name, f.returns, f.params, f.body⟩

structure ContractDecl where
  node : Node
  name : Ident
  fields : List FieldDecl
  structs : List StructDecl
  ctor : Option ConstructorDecl
  functions : List FunctionDecl

/-- The constructor first, then the functions in order. -/
def ContractDecl.callables (c : ContractDecl) : List Callable :=
  c.ctor.toList.map ConstructorDecl.callable ++ c.functions.map FunctionDecl.callable

namespace ContractDecl

def withField (c : ContractDecl) (f : FieldDecl) : ContractDecl :=
  { c with fields := c.fields ++ [f] }

def withStruct (c : ContractDecl) (s : StructDecl) : ContractDecl :=
  { c with structs := c.structs ++ [s] }

/-- A contract has one constructor: an earlier one is given up. -/
def withCtor (c : ContractDecl) (ctor : ConstructorDecl) : ContractDecl :=
  { c with ctor := some ctor }

def withFunction (c : ContractDecl) (f : FunctionDecl) : ContractDecl :=
  { c with functions := c.functions ++ [f] }

end ContractDecl

structure Program where
  contract : Option ContractDecl
  span : Span

end ContractLang
