import ContractLang.Span
import ContractLang.Syntax.Operator
/-!
What an analysis can find wrong with a program. A diagnostic is a cause and a place; the wording
of every cause is in `Cause.message`.

In `contractc`: `CompileError` is `Notice`, with the texts that the phases pass to it as `Cause`s, and
`ErrorKind` is `Category`.
-/
namespace ContractLang

/-- The classes of diagnostics, one for each thing that is examined. -/
inductive Category where
  | structural | declaration | typeResolution | nameResolution | typing
deriving DecidableEq, Repr

namespace Category

/-- The class as it opens the one-line text of a diagnostic. -/
def label : Category → String
  | structural => "Structural error"
  | declaration => "Declaration error"
  | typeResolution => "Type resolution error"
  | nameResolution => "Name resolution error"
  | typing => "Type error"

/-- The class as it heads a rendered report. -/
def title : Category → String
  | typeResolution => "Unresolved type"
  | c => c.label

end Category

/-- A classified message at a place. -/
structure Notice where
  category : Category
  message : String
  span : Span
deriving DecidableEq, Repr

/-- The notice on one line. -/
def Notice.text (n : Notice) : String :=
  n.category.label ++ " at " ++ n.span.text ++ ": " ++ n.message

/-- Why a program is refused. Types stand as their names, positions count from one. -/
inductive Cause where
  | noContract
  | reservedName (name : String)
  | structCollision (name : String)
  | duplicate (name : String)
  | voidValue
  | unknownType (type : String)
  | tooManyReturns (function : String) (count limit : Nat)
  | voidAmongReturns (function : String)
  | undefinedName (name : String)
  | hiddenLocal (name : String)
  | notIndexable (base type : String)
  | noMember (type member : String)
  | initMismatch (name declared found : String)
  | assignMismatch (target expected found : String)
  | sourceNotCall (targets : Nat)
  | valueCount (callee : String) (expected returned : Nat)
  | valueMismatch (position : Nat) (expected found : String)
  | conditionNotBool (found : String)
  | valueFromVoid
  | returnCount (expected given : Nat)
  | returnMismatch (position : Nat) (expected found : String)
  | notFunction (callee : String)
  | argumentCount (callee : String) (expected given : Nat)
  | argumentMismatch (callee : String) (position : Nat) (expected found : String)
  | binaryOperands (op : BinaryOp) (left right : String)
  | unaryOperand (op : UnaryOp) (expected found : String)
deriving DecidableEq, Repr

namespace Cause

def category : Cause → Category
  | noContract => .structural
  | reservedName _ | structCollision _ | duplicate _ => .declaration
  | voidValue | unknownType _ | tooManyReturns .. | voidAmongReturns _ => .typeResolution
  | undefinedName _ | hiddenLocal _ | notIndexable .. | noMember .. => .nameResolution
  | _ => .typing

/-- What the operands of a binary operator have to be, in words. -/
def operandRule (op : BinaryOp) : String :=
  if op.isArithmetic then "int operands"
  else if op.isLogical then "bool operands"
  else if op.isRelational then "two int or two char operands"
  else "operands of the same type"

def message : Cause → String
  | noContract => "program does not declare a contract"
  | reservedName n => s!"'{n}' is a reserved keyword and cannot be used as an identifier"
  | structCollision n => s!"'{n}' collides with the struct type of the same name"
  | duplicate n => s!"duplicate declaration of '{n}'"
  | voidValue => "void is only allowed as a return type"
  | unknownType t => s!"unknown type '{t}'"
  | tooManyReturns f n limit =>
    s!"function '{f}' declares {n} return types, at most {limit} are allowed"
  | voidAmongReturns f => s!"void must be the only return type of function '{f}'"
  | undefinedName n => s!"undefined designator '{n}'"
  | hiddenLocal n => s!"local variable '{n}' is not visible here"
  | notIndexable b t => s!"cannot index '{b}' of type {t}, only arrays can be indexed"
  | noMember t m => s!"type {t} has no member '{m}'"
  | initMismatch n d f => s!"type mismatch: '{n}' is declared as {d} but initialized with {f}"
  | assignMismatch t e f => s!"cannot assign {f} to '{t}' of type {e}"
  | sourceNotCall n => s!"{n} targets need a function call as their source"
  | valueCount c e r => s!"expected {e} values, but '{c}' returns {r}"
  | valueMismatch i e f => s!"value {i}: expected {e}, found {f}"
  | conditionNotBool f => s!"if condition must be bool, found {f}"
  | valueFromVoid => "void function cannot return a value"
  | returnCount e g => s!"wrong number of return values: expected {e}, given {g}"
  | returnMismatch i e f => s!"return value {i}: expected {e}, found {f}"
  | notFunction c => s!"'{c}' is not a function"
  | argumentCount c e g => s!"function '{c}' expects {e} arguments, given {g}"
  | argumentMismatch c i e f => s!"argument {i} of '{c}': expected {e}, found {f}"
  | binaryOperands op l r =>
    s!"operator '{op.text}' requires {operandRule op}, found {l} and {r}"
  | unaryOperand op e f => s!"operator '{op.text}' requires a {e} operand, found {f}"

end Cause

structure Diagnostic where
  cause : Cause
  span : Span
deriving DecidableEq, Repr

def Diagnostic.notice (d : Diagnostic) : Notice := ⟨d.cause.category, d.cause.message, d.span⟩

end ContractLang
