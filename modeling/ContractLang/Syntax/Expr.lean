import ContractLang.Syntax.Node
import ContractLang.Syntax.Operator
/-!
Expressions, and the designators that name what an expression reads, calls or assigns.

In `contractc`: `ExprKind`, whose `Designator` is `load` here, and `DesignatorKind`, with `describe`
(`Designator.text`).
-/
namespace ContractLang

inductive Literal where
  | int (value : Int)
  | bool (value : Bool)
  | char (value : Char)
  | string (value : String)
deriving DecidableEq, Repr

mutual
inductive Expr where
  | literal (node : Node) (value : Literal)
  | load (node : Node) (source : Designator)
  | call (node : Node) (callee : Designator) (args : List Expr)
  | binary (node : Node) (op : BinaryOp) (left right : Expr)
  | unary (node : Node) (op : UnaryOp) (operand : Expr)

inductive Designator where
  | name (node : Node) (name : String)
  | index (node : Node) (base : Designator) (position : Expr)
  | member (node : Node) (base : Designator) (member : Ident)
end

namespace Expr

def node : Expr → Node
  | literal n _ | load n _ | call n _ _ | binary n _ _ _ | unary n _ _ => n

def withNode (n : Node) : Expr → Expr
  | literal _ v => literal n v
  | load _ d => load n d
  | call _ c as => call n c as
  | binary _ op l r => binary n op l r
  | unary _ op e => unary n op e

def id (e : Expr) : NodeId := e.node.id

def span (e : Expr) : Span := e.node.span

end Expr

namespace Designator

def node : Designator → Node
  | name n _ | index n _ _ | member n _ _ => n

def withNode (n : Node) : Designator → Designator
  | name _ s => name n s
  | index _ b p => index n b p
  | member _ b m => member n b m

def id (d : Designator) : NodeId := d.node.id

def span (d : Designator) : Span := d.node.span

/-- A designator as messages show it: what stands between brackets is left out. -/
def text : Designator → String
  | name _ s => s
  | index _ base _ => base.text ++ "[..]"
  | member _ base m => base.text ++ "." ++ m.text

end Designator
end ContractLang
