import ContractLang.Diagnostic
import ContractLang.Table.Types
/-!
Steps of an analysis. A step reads and updates the table, may report diagnostics, and fails at a
dangling reference. The diagnostics of a sequence of steps stand in the order of the steps.

In `contractc`: each phase (`SymbolCollector`, `TypeResolver`, `DesignatorResolver`, `TypeChecker`)
holds the table and gathers its errors in a list.
-/
namespace ContractLang

/-- What a step ends with. -/
structure Outcome (α : Type) where
  value : α
  table : Table
  diagnostics : List Diagnostic

structure Pass (α : Type) where
  run : Table → Except Dangling (Outcome α)

namespace Pass
variable {α β : Type}

/-- A step that reports nothing. -/
def state (f : Table → Except Dangling (α × Table)) : Pass α where
  run t := (f t).map fun (a, t) => ⟨a, t, []⟩

/-- The second step runs on the table of the first and reports after it. -/
def andThen (x : Pass α) (f : α → Pass β) : Pass β where
  run t :=
    match x.run t with
    | .error e => .error e
    | .ok u =>
      match (f u.value).run u.table with
      | .error e => .error e
      | .ok v => .ok { v with diagnostics := u.diagnostics ++ v.diagnostics }

instance : Monad Pass where
  pure a := ⟨fun t => .ok ⟨a, t, []⟩⟩
  bind := andThen

/-- Looks something up that may fail. -/
def query (f : Table → Except Dangling α) : Pass α := state fun t => (f t).map (·, t)

/-- Looks something up that cannot fail. -/
def view (f : Table → α) : Pass α := state fun t => .ok (f t, t)

/-- Changes the table in a way that may fail. -/
def update (f : Table → Except Dangling Table) : Pass Unit := state fun t => (f t).map ((), ·)

/-- Changes the table in a way that cannot fail. -/
def adjust (f : Table → Table) : Pass Unit := state fun t => .ok ((), f t)

/-- Records the type of a node and gives it back. -/
def noteType (node : NodeId) (type : SymbolId) : Pass (Option SymbolId) :=
  state fun t => .ok (some type, t.noteType node type)

def report (cause : Cause) (span : Span) : Pass Unit := ⟨fun t => .ok ⟨(), t, [⟨cause, span⟩]⟩⟩

/-- Reports something only where it is the case. -/
def reportIf (p : Prop) [Decidable p] (cause : Cause) (span : Span) : Pass Unit :=
  if p then report cause span else pure ()

theorem run_pure (a : α) (t : Table) : (pure a : Pass α).run t = .ok ⟨a, t, []⟩ := rfl

theorem run_report (cause : Cause) (span : Span) (t : Table) :
    (report cause span).run t = .ok ⟨(), t, [⟨cause, span⟩]⟩ := rfl

theorem run_reportIf (p : Prop) [Decidable p] (cause : Cause) (span : Span) (t : Table) :
    (reportIf p cause span).run t = .ok ⟨(), t, if p then [⟨cause, span⟩] else []⟩ := by
  by_cases h : p <;> simp [reportIf, h, run_pure, run_report]

/-- A sequence ends well exactly if both its steps do, one after the other. -/
theorem run_bind_eq_ok {x : Pass α} {f : α → Pass β} {t : Table} {w : Outcome β} :
    (x >>= f).run t = .ok w ↔ ∃ u v, x.run t = .ok u ∧ (f u.value).run u.table = .ok v ∧
      w = { v with diagnostics := u.diagnostics ++ v.diagnostics } := by
  change (x.andThen f).run t = .ok w ↔ _
  cases hx : x.run t with
  | error e => simp [andThen, hx]
  | ok u =>
    cases hf : (f u.value).run u.table with
    | error e => simp [andThen, hx, hf]
    | ok v => simp [andThen, hx, hf, eq_comm]

instance : LawfulMonad Pass := LawfulMonad.mk' Pass
  (fun x => by
    change x.andThen (fun a => pure a) = x
    cases x with
    | mk f =>
      simp only [andThen, mk.injEq]
      funext t
      cases f t <;> simp [run_pure])
  (fun a f => by
    change (pure a : Pass _).andThen f = f a
    cases hf : f a with
    | mk g =>
      simp only [andThen, run_pure, hf, mk.injEq]
      funext t
      cases g t <;> simp)
  (fun x f g => by
    change (x.andThen f).andThen g = x.andThen fun a => (f a).andThen g
    simp only [andThen, mk.injEq]
    funext t
    cases hx : x.run t with
    | error e => simp
    | ok u =>
      cases hf : (f u.value).run u.table with
      | error e => simp [hf]
      | ok v => cases hg : (g v.value).run v.table <;> simp [hf, hg])

end Pass
end ContractLang
