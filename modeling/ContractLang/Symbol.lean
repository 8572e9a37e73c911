import ContractLang.Syntax.Node
/-!
Symbols: what a declaration, a built-in or a structural type stands for, with the scope that a
symbol lies in. Symbols and scopes refer to each other by number.

In `contractc`: `SymbolKind` with `describe` (`noun`), `ContractInfo` (`ContractRecord`) and
`FunctionInfo` (`FunctionRecord`).
-/
namespace ContractLang

structure SymbolId where
  index : Nat
deriving DecidableEq, Repr

structure ScopeId where
  index : Nat
deriving DecidableEq, Repr

inductive BasicType where
  | bool | char | int | string | null | void
deriving DecidableEq, Repr

def BasicType.name : BasicType → String
  | bool => "bool" | char => "char" | int => "int" | string => "string"
  | null => "null" | void => "void"

structure ContractRecord where
  inner : ScopeId
  fields : List SymbolId
  structs : List SymbolId
  ctor : Option SymbolId
  functions : List SymbolId
deriving DecidableEq, Repr

namespace ContractRecord

def addField (c : ContractRecord) (id : SymbolId) : ContractRecord :=
  { c with fields := c.fields ++ [id] }

def addStruct (c : ContractRecord) (id : SymbolId) : ContractRecord :=
  { c with structs := c.structs ++ [id] }

/-- Adds a function, or sets the constructor. -/
def addCallable (c : ContractRecord) (isConstructor : Bool) (id : SymbolId) : ContractRecord :=
  if isConstructor then { c with ctor := some id } else { c with functions := c.functions ++ [id] }

end ContractRecord

structure FunctionRecord where
  inner : ScopeId
  isConstructor : Bool
  returns : List SymbolId
  params : List SymbolId
  locals : List SymbolId
deriving DecidableEq, Repr

namespace FunctionRecord

def addParam (f : FunctionRecord) (id : SymbolId) : FunctionRecord :=
  { f with params := f.params ++ [id] }

def addLocal (f : FunctionRecord) (id : SymbolId) : FunctionRecord :=
  { f with locals := f.locals ++ [id] }

def setReturns (f : FunctionRecord) (types : List SymbolId) : FunctionRecord :=
  { f with returns := types }

end FunctionRecord

/-- What a symbol is. The type of a field, parameter or local is absent until it is resolved;
`visibility` holds the statements in which a local can be named, each once. -/
inductive SymbolKind where
  | basic (type : BasicType)
  | struct (inner : ScopeId) (fields : List SymbolId)
  | array (element : SymbolId)
  | map (key value : SymbolId)
  | contract (info : ContractRecord)
  | field (type : Option SymbolId)
  | constant (type : SymbolId)
  | function (info : FunctionRecord)
  | parameter (type : Option SymbolId)
  | localVar (type : Option SymbolId) (visibility : List NodeId)
deriving DecidableEq, Repr

namespace SymbolKind

def noun : SymbolKind → String
  | basic _ => "basic type"
  | struct _ _ => "struct type"
  | array _ => "array type"
  | map _ _ => "map type"
  | contract _ => "contract"
  | field _ => "field"
  | constant _ => "constant"
  | function _ => "function"
  | parameter _ => "parameter"
  | localVar _ _ => "local variable"

/-- A contract counts as a type. -/
def isType : SymbolKind → Bool
  | basic _ | struct _ _ | array _ | map _ _ | contract _ => true
  | _ => false

def isValue : SymbolKind → Bool
  | field _ | constant _ | parameter _ | localVar _ _ => true
  | _ => false

def isLocal : SymbolKind → Bool
  | localVar _ _ => true
  | _ => false

/-- The type of a value, as far as it is resolved. -/
def valueType? : SymbolKind → Option SymbolId
  | field t | parameter t | localVar t _ => t
  | constant t => some t
  | _ => none

/-- Gives a field, parameter or local its type. -/
def withValueType (t : SymbolId) : SymbolKind → SymbolKind
  | field _ => field (some t)
  | parameter _ => parameter (some t)
  | localVar _ v => localVar (some t) v
  | k => k

def element? : SymbolKind → Option SymbolId
  | array e => some e
  | _ => none

def contract? : SymbolKind → Option ContractRecord
  | contract info => some info
  | _ => none

def function? : SymbolKind → Option FunctionRecord
  | function info => some info
  | _ => none

/-- The scope that the members of a struct type lie in. -/
def structScope? : SymbolKind → Option ScopeId
  | struct inner _ => some inner
  | _ => none

/-- The statements that see a local; none are recorded of anything else. -/
def visibility : SymbolKind → List NodeId
  | localVar _ v => v
  | _ => []

/-- A local is visible where recorded, everything else everywhere. -/
def isSeenBy (stmt : NodeId) : SymbolKind → Bool
  | localVar _ v => v.contains stmt
  | _ => true

def mapContract (f : ContractRecord → ContractRecord) : SymbolKind → SymbolKind
  | contract info => contract (f info)
  | k => k

def mapFunction (f : FunctionRecord → FunctionRecord) : SymbolKind → SymbolKind
  | function info => function (f info)
  | k => k

def addStructField (s : SymbolId) : SymbolKind → SymbolKind
  | struct inner fields => struct inner (fields ++ [s])
  | k => k

/-- Records one more statement that sees a local. -/
def addVisibility (stmt : NodeId) : SymbolKind → SymbolKind
  | localVar t v => localVar t (if stmt ∈ v then v else v ++ [stmt])
  | k => k

end SymbolKind

structure Symbol where
  name : String
  scope : ScopeId
  span : Span
  kind : SymbolKind
deriving DecidableEq, Repr

end ContractLang
