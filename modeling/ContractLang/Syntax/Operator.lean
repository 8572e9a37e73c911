/-!
Operators of expressions, with the families that share a typing rule.

In `contractc`: `BinaryOp` and `UnaryOp`, with `as_str` (`text`), `is_arithmetic`, `is_logical` and
`is_relational`.
-/
namespace ContractLang

inductive BinaryOp where
  | add | sub | mul | div | mod | pow
  | and | or
  | eq | ne
  | lt | le | gt | ge
deriving DecidableEq, Repr

namespace BinaryOp

def text : BinaryOp → String
  | add => "+" | sub => "-" | mul => "*" | div => "/" | mod => "%" | pow => "**"
  | and => "&&" | or => "||"
  | eq => "==" | ne => "!="
  | lt => "<" | le => "<=" | gt => ">" | ge => ">="

def isArithmetic : BinaryOp → Bool
  | add | sub | mul | div | mod | pow => true
  | _ => false

def isLogical : BinaryOp → Bool
  | and | or => true
  | _ => false

/-- The order comparisons; `eq` and `ne` compare any one type and are not among them. -/
def isRelational : BinaryOp → Bool
  | lt | le | gt | ge => true
  | _ => false

end BinaryOp

inductive UnaryOp where
  | plus | neg | not
deriving DecidableEq, Repr

namespace UnaryOp

def text : UnaryOp → String
  | plus => "+" | neg => "-" | not => "!"

end UnaryOp
end ContractLang
