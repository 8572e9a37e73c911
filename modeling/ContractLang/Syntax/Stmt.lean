import ContractLang.Syntax.Expr
import ContractLang.Syntax.TypeName
/-!
Statements and blocks. A block has a place in the source of its own.

In `contractc`: `StmtKind`, with `MultiAssign` (`assignAll`), `If` (`branch`) and `Return`
(`giveBack`); `Param` and `LocalDecl` are both `VarDecl`.
-/
namespace ContractLang

/-- The declaration of a parameter or of a local variable. -/
structure VarDecl where
  node : Node
  name : Ident
  type : TypeName
deriving DecidableEq, Repr

/-- Statements in order, with their place in the source. -/
structure BlockOf (σ : Type) where
  stmts : List σ
  span : Span

inductive Stmt where
  | declare (node : Node) (vars : List VarDecl) (init : Option Expr)
  | assign (node : Node) (target : Designator) (value : Expr)
  | assignAll (node : Node) (targets : List Designator) (source : Expr)
  | branch (node : Node) (condition : Expr) (onTrue : BlockOf Stmt)
    (onFalse : Option (BlockOf Stmt))
  | giveBack (node : Node) (values : List Expr)

namespace Stmt

def node : Stmt → Node
  | declare n _ _ | assign n _ _ | assignAll n _ _ | branch n _ _ _ | giveBack n _ => n

def withNode (n : Node) : Stmt → Stmt
  | declare _ vs i => declare n vs i
  | assign _ t v => assign n t v
  | assignAll _ ts s => assignAll n ts s
  | branch _ c t f => branch n c t f
  | giveBack _ vs => giveBack n vs

def id (s : Stmt) : NodeId := s.node.id

def span (s : Stmt) : Span := s.node.span

end Stmt

abbrev Block := BlockOf Stmt

mutual
/-- The local variables that a statement declares, those of its blocks included, in order. -/
def Stmt.locals : Stmt → List VarDecl
  | .declare _ vars _ => vars
  | .branch _ _ ⟨onTrue, _⟩ none => localsOf onTrue
  | .branch _ _ ⟨onTrue, _⟩ (some ⟨onFalse, _⟩) => localsOf onTrue ++ localsOf onFalse
  | .assign .. | .assignAll .. | .giveBack .. => []

def localsOf : List Stmt → List VarDecl
  | [] => []
  | s :: rest => s.locals ++ localsOf rest
end

end ContractLang
