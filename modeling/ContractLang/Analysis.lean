import ContractLang.Phase
/-!
Whole analyses. Phases run in order on one table, from the initial one, until a phase reports
something or the last phase that is wanted has run.

In `contractc`: `Analysis` with `failed_phase` and `into_result` (`result`), `PhaseFailure`
(`Failure`), `AnalysisConfig` (`Config`), and the loop of `run` in `Pipeline` (`runPhases`).
-/
namespace ContractLang

/-- The verdict of the last phase that ran. If that phase reported something, it is the one that
failed. -/
structure Analysis where
  lastPhase : Phase
  table : Table
  diagnostics : List Diagnostic
  failedPhase : Option Phase

/-- What the phase that ended an analysis early had to report. -/
structure Failure where
  phase : Phase
  diagnostics : List Diagnostic

/-- The failure in one line. -/
def Failure.text (f : Failure) : String :=
  f.phase.name ++ " failed with " ++ toString f.diagnostics.length ++ " error(s)"

namespace Analysis

def isOk (a : Analysis) : Bool := a.failedPhase.isNone

/-- Whether every phase ran and none failed. -/
def isComplete (a : Analysis) : Bool := a.isOk && a.lastPhase = .typeChecking

/-- The table of an analysis in which no phase failed, and the failure of any other. -/
def result (a : Analysis) : Except Failure Table :=
  match a.failedPhase with
  | some phase => .error ⟨phase, a.diagnostics⟩
  | none => .ok a.table

/-- The text of the failure, if there is one. -/
def failure? (a : Analysis) : Option String :=
  match a.result with
  | .error f => some f.text
  | .ok _ => none

end Analysis

structure Config where
  verbose : Bool
  dumpSymbols : Bool
  stopAfter : Option Phase
deriving DecidableEq, Repr

/-- Nothing is logged beyond the default, and all phases are wanted. -/
def Config.default : Config := ⟨false, false, none⟩

/-- The verdicts of all phases that ran, the last one apart. -/
structure Trace where
  earlier : List Analysis
  last : Analysis

def Trace.steps (r : Trace) : List Analysis := r.earlier ++ [r.last]

/-- Runs one phase on a table. It fails if it reports something. -/
def Phase.analyze (phase : Phase) (p : Program) (t : Table) : Except Dangling Analysis :=
  ((phase.pass p).run t).map fun o =>
    ⟨phase, o.table, o.diagnostics, if o.diagnostics.isEmpty then none else some phase⟩

/-- Runs a phase and, unless it ends the analysis, those after it. -/
def runPhases (stopAfter : Option Phase) (p : Program) (phase : Phase) (t : Table) :
    List Phase → Except Dangling Trace
  | [] => do
    return ⟨[], ← phase.analyze p t⟩
  | next :: rest => do
    let a ← phase.analyze p t
    if !a.diagnostics.isEmpty || stopAfter = some phase then return ⟨[], a⟩
    else
      let later ← runPhases stopAfter p next a.table rest
      return { later with earlier := a :: later.earlier }

def Config.trace (c : Config) (p : Program) : Except Dangling Trace :=
  runPhases c.stopAfter p .symbolConstruction .initial Phase.afterFirst

def Config.analyze (c : Config) (p : Program) : Except Dangling Analysis :=
  (c.trace p).map (·.last)

/-- Runs all phases. -/
def Program.analyze (p : Program) : Except Dangling Analysis := Config.default.analyze p

end ContractLang
