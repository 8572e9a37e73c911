import ContractLang.Syntax.Program
/-!
Trees made from their parts. A counter gives each node the next number, and the number also
places the node: number `n` stands at the byte `n`. Names and types take a number for their place
only. The parts of a node are made before it, so a node's number is larger than any below it.

In `contractc`: `TreeBuilder`, with `ty` (`namedType`), `array_of` (`arrayType`), `map_of`
(`mapType`), `void` (`voidType`), `param` and `local` (`varDecl`), `vars` (`declare`),
`multi_assign` (`assignAll`), `if_stmt` (`branch`), `ret` (`giveBack`), `call` (`callNamed`), and
`int`, `boolean`, `chr` and `string` (`literal`).
-/
namespace ContractLang

/-- Steps that take numbers from one counter. -/
abbrev Build := StateM Nat

namespace Build

/-- The next number, as a node of one byte. -/
def fresh : Build Node := fun n => (⟨⟨n⟩, ⟨n, n + 1⟩⟩, n + 1)

/-- The place of something that is no node. -/
def place : Build Span := return (← fresh).span

def ident (name : String) : Build Ident := return ⟨name, ← place⟩

def namedType (name : String) : Build TypeName := return .named (← place) name

def arrayType (element : TypeName) : Build TypeName := return .array (← place) element

def mapType (key value : TypeName) : Build TypeName := return .map (← place) key value

def voidType : Build TypeName := return .void (← place)

def name (s : String) : Build Designator := return .name (← fresh) s

def index (base : Designator) (position : Expr) : Build Designator :=
  return .index (← fresh) base position

def member (base : Designator) (m : String) : Build Designator := do
  let node ← fresh
  return .member node base (← ident m)

def literal (value : Literal) : Build Expr := return .literal (← fresh) value

def load (source : Designator) : Build Expr := return .load (← fresh) source

def call (callee : Designator) (args : List Expr) : Build Expr :=
  return .call (← fresh) callee args

/-- The value under a plain name. -/
def read (s : String) : Build Expr := do load (← name s)

/-- The call of a function under its plain name. -/
def callNamed (s : String) (args : List Expr) : Build Expr := do call (← name s) args

def binary (op : BinaryOp) (left right : Expr) : Build Expr :=
  return .binary (← fresh) op left right

def unary (op : UnaryOp) (operand : Expr) : Build Expr := return .unary (← fresh) op operand

/-- A parameter or a local variable. -/
def varDecl (type : TypeName) (s : String) : Build VarDecl := do
  let node ← fresh
  return ⟨node, ← ident s, type⟩

def declare (vars : List VarDecl) (init : Option Expr) : Build Stmt :=
  return .declare (← fresh) vars init

/-- The declaration of one variable. -/
def var (type : TypeName) (s : String) (init : Option Expr) : Build Stmt := do
  declare [← varDecl type s] init

def assign (target : Designator) (value : Expr) : Build Stmt :=
  return .assign (← fresh) target value

def assignAll (targets : List Designator) (source : Expr) : Build Stmt :=
  return .assignAll (← fresh) targets source

/-- A block stands from the first start to the last end of its statements. -/
def block (stmts : List Stmt) : Block := ⟨stmts, Span.cover (stmts.map Stmt.span)⟩

def branch (condition : Expr) (onTrue : List Stmt) (onFalse : Option (List Stmt)) : Build Stmt :=
  return .branch (← fresh) condition (block onTrue) (onFalse.map block)

def giveBack (values : List Expr) : Build Stmt := return .giveBack (← fresh) values

def field (type : TypeName) (s : String) (init : Option Expr) : Build FieldDecl := do
  let node ← fresh
  return ⟨node, ← ident s, type, init⟩

def struct (s : String) (fields : List FieldDecl) : Build StructDecl := do
  let node ← fresh
  return ⟨node, ← ident s, fields⟩

def ctor (params : List VarDecl) (body : List Stmt) : Build ConstructorDecl :=
  return ⟨← fresh, params, block body⟩

def function (s : String) (returns : List TypeName) (params : List VarDecl) (body : List Stmt) :
    Build FunctionDecl := do
  let node ← fresh
  return ⟨node, ← ident s, returns, params, block body⟩

/-- A contract without members. Its number is taken before those of its members. -/
def contract (s : String) : Build ContractDecl := do
  let node ← fresh
  return ⟨node, ← ident s, [], [], none, []⟩

/-- A program stands where its contract stands. -/
def program (contract : Option ContractDecl) : Program :=
  ⟨contract, (contract.map (·.node.span)).getD Span.zero⟩

end Build
end ContractLang
