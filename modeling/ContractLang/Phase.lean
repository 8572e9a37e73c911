import ContractLang.Declaration
import ContractLang.Annotation
import ContractLang.Binding
import ContractLang.Typing
/-!
The four phases of an analysis, in the order in which they build on each other.

In `contractc`: `Phase` with `as_str` (`name`), and `run_phase` (`pass`).
-/
namespace ContractLang

inductive Phase where
  | symbolConstruction | typeResolution | designatorResolution | typeChecking
deriving DecidableEq, Repr

namespace Phase

/-- All phases but the first, in order. -/
def afterFirst : List Phase := [typeResolution, designatorResolution, typeChecking]

def name : Phase → String
  | symbolConstruction => "symbol construction"
  | typeResolution => "type resolution"
  | designatorResolution => "designator resolution"
  | typeChecking => "type checking"

/-- The place of a phase in the order. -/
def rank : Phase → Nat
  | symbolConstruction => 0
  | typeResolution => 1
  | designatorResolution => 2
  | typeChecking => 3

/-- What a phase does with a program. -/
def pass : Phase → Program → Pass Unit
  | symbolConstruction, p => p.declareSymbols
  | typeResolution, p => p.resolveTypes
  | designatorResolution, p => p.bindNames
  | typeChecking, p => p.check

end Phase
end ContractLang
