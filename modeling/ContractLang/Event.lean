import ContractLang.Analysis
import ContractLang.Table.Text
/-!
The log of an analysis: what each phase did, that it ended, and the table if it is asked for.

In `contractc`: `log_phase` and `dump` of `Pipeline`, and what the phases log of their own work.
-/
namespace ContractLang

inductive Level where
  | debug | info
deriving DecidableEq, Repr

inductive Datum where
  | count (n : Nat)
  | text (s : String)
deriving DecidableEq, Repr

inductive Event where
  | membersDeclared (contract : String) (fields structs functions : Nat)
  | symbolsConstructed (errors : Nat)
  | typesResolved (errors : Nat)
  | designatorsResolved (bindings errors : Nat)
  | typesChecked (typed errors : Nat)
  | phaseFinished (level : Level) (phase : Phase) (errors : Nat)
  | tableDump (text : String)
deriving DecidableEq, Repr

namespace Event

def level : Event → Level
  | phaseFinished l _ _ => l
  | _ => .debug

def message : Event → String
  | membersDeclared .. => "declared contract members"
  | symbolsConstructed _ => "symbol construction finished"
  | typesResolved _ => "type resolution finished"
  | designatorsResolved _ _ => "designator resolution finished"
  | typesChecked _ _ => "type checking finished"
  | phaseFinished _ _ _ => "phase finished"
  | tableDump text => "symbol table:\n" ++ text

def fields : Event → List (String × Datum)
  | membersDeclared c fs ss fns =>
    [("contract", .text c), ("fields", .count fs), ("structs", .count ss), ("functions", .count fns)]
  | symbolsConstructed n => [("errors", .count n)]
  | typesResolved n => [("errors", .count n)]
  | designatorsResolved b n => [("bindings", .count b), ("errors", .count n)]
  | typesChecked ty n => [("typed", .count ty), ("errors", .count n)]
  | phaseFinished _ phase n => [("phase", .text phase.name), ("errors", .count n)]
  | tableDump _ => []

/-- The activities that were going on, the outermost first. -/
def activities : Event → List String
  | membersDeclared .. | symbolsConstructed _ => ["run", "collect"]
  | typesResolved _ | designatorsResolved _ _ => ["run", "resolve"]
  | typesChecked _ _ => ["run", "check"]
  | phaseFinished _ _ _ | tableDump _ => ["run"]

end Event

/-- What a phase says of its own work. Without a contract there is none. -/
def Analysis.ownEvents (a : Analysis) (p : Program) : List Event :=
  match p.contract with
  | none => []
  | some c =>
    let errors := a.diagnostics.length
    match a.lastPhase with
    | .symbolConstruction =>
      [.membersDeclared c.name.text c.fields.length c.structs.length c.functions.length,
       .symbolsConstructed errors]
    | .typeResolution => [.typesResolved errors]
    | .designatorResolution => [.designatorsResolved a.table.bindings.size errors]
    | .typeChecking => [.typesChecked a.table.types.size errors]

def Analysis.events (a : Analysis) (c : Config) (p : Program) : List Event :=
  a.ownEvents p ++
    [.phaseFinished (if c.verbose then .info else .debug) a.lastPhase a.diagnostics.length]

/-- The table after the last phase, if it is to be shown. -/
def Config.dump (c : Config) (t : Table) : Except Dangling (List Event) :=
  if c.dumpSymbols then t.text.map fun text => [.tableDump text] else .ok []

/-- All that is logged during an analysis. -/
def Trace.log (r : Trace) (c : Config) (p : Program) : Except Dangling (List Event) :=
  (c.dump r.last.table).map fun dump => r.steps.flatMap (·.events c p) ++ dump

end ContractLang
