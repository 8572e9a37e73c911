import Mathlib.Data.List.Basic
import ContractLang.Analysis
import ContractLang.Proofs.Closed
/-!
Phases one behind the other. Without a gate each phase runs on the table that the one before it
leaves, whatever that one reports. An analysis is a prefix of these runs: it ends at the first that
reports something or is the last that is wanted.
-/
namespace ContractLang

/-! ### One phase -/

namespace Analysis

/-- The phase that failed is the last one, if that one reported something. -/
def Faithful (a : Analysis) : Prop :=
  a.failedPhase = if a.diagnostics.isEmpty then none else some a.lastPhase

/-- What the last phase ended with. -/
def outcome (a : Analysis) : Outcome Unit := ⟨(), a.table, a.diagnostics⟩

variable {a : Analysis}

theorem Faithful.failedPhase_eq_none (h : a.Faithful) :
    a.failedPhase = none ↔ a.diagnostics = [] := by
  rw [h, ← List.isEmpty_iff]
  cases a.diagnostics.isEmpty <;> simp

theorem Faithful.failedPhase_eq_some (h : a.Faithful) {k : Phase} :
    a.failedPhase = some k ↔ a.diagnostics ≠ [] ∧ a.lastPhase = k := by
  rw [h, ne_eq, ← List.isEmpty_iff]
  cases a.diagnostics.isEmpty <;> simp

theorem Faithful.isOk_iff (h : a.Faithful) : a.isOk = true ↔ a.diagnostics = [] := by
  rw [isOk, Option.isNone_iff_eq_none, h.failedPhase_eq_none]

theorem result_eq_error {f : Failure} :
    a.result = .error f ↔ a.failedPhase = some f.phase ∧ f.diagnostics = a.diagnostics := by
  unfold result
  cases a.failedPhase with
  | none => simp
  | some k =>
    obtain ⟨phase, ds⟩ := f
    simp [eq_comm]

theorem isSome_failedPhase_iff : a.failedPhase.isSome ↔ ∃ f, a.result = .error f := by
  rw [Option.isSome_iff_exists]
  constructor
  · rintro ⟨k, hk⟩
    exact ⟨⟨k, a.diagnostics⟩, result_eq_error.2 ⟨hk, rfl⟩⟩
  · rintro ⟨f, hf⟩
    exact ⟨f.phase, (result_eq_error.1 hf).1⟩

end Analysis

theorem Phase.analyze_eq_ok {phase : Phase} {p : Program} {t : Table} {a : Analysis} :
    phase.analyze p t = .ok a ↔
      (a.lastPhase = phase ∧ a.Faithful) ∧ (phase.pass p).run t = .ok a.outcome := by
  unfold Phase.analyze
  cases hrun : (phase.pass p).run t with
  | error e => simp [Except.map]
  | ok o =>
    obtain ⟨lastPhase, table, diagnostics, failedPhase⟩ := a
    simp only [Except.map, Except.ok.injEq, Analysis.mk.injEq, Analysis.Faithful, Analysis.outcome]
    constructor
    · rintro ⟨rfl, rfl, rfl, rfl⟩
      exact ⟨⟨rfl, rfl⟩, rfl⟩
    · rintro ⟨⟨rfl, rfl⟩, rfl⟩
      exact ⟨rfl, rfl, rfl, rfl⟩

/-- On a valid table a phase ends well and leaves a valid table. -/
theorem Phase.exists_analyze (phase : Phase) (p : Program) {t : Table} (ht : t.Valid) :
    ∃ a, phase.analyze p t = .ok a ∧ a.lastPhase = phase ∧ a.table.Valid := by
  obtain ⟨_, t', ⟨ds, hrun⟩, ht', -⟩ := phase.pass_safe ht p
  refine ⟨⟨phase, t', ds, if ds.isEmpty then none else some phase⟩, ?_, rfl, ht'⟩
  exact analyze_eq_ok.2 ⟨⟨rfl, rfl⟩, hrun⟩

/-! ### Runs without a gate -/

namespace Program
variable {p : Program} {phase : Phase} {rest : List Phase} {t : Table}

/-- Runs phases one behind the other, whatever they report. -/
def stages (p : Program) : List Phase → Table → Except Dangling (List Analysis)
  | [], _ => return []
  | phase :: rest, t => do
    let a ← phase.analyze p t
    return a :: (← p.stages rest a.table)

theorem stages_cons {runs : List Analysis} : p.stages (phase :: rest) t = .ok runs ↔
    ∃ a later, phase.analyze p t = .ok a ∧ p.stages rest a.table = .ok later ∧ runs = a :: later := by
  rw [stages]
  cases ha : phase.analyze p t with
  | error e => simp [bind, Except.bind]
  | ok a =>
    cases hlater : p.stages rest a.table with
    | error e => simp [bind, Except.bind, hlater]
    | ok later => simp [bind, Except.bind, pure, Except.pure, hlater, eq_comm]

/-- From a valid table all the phases end well. -/
theorem exists_stages (p : Program) (phases : List Phase) (ht : t.Valid) :
    ∃ runs, p.stages phases t = .ok runs ∧ runs.map (·.lastPhase) = phases ∧
      ∀ a ∈ runs, a.table.Valid := by
  induction phases generalizing t with
  | nil => exact ⟨[], rfl, rfl, by simp⟩
  | cons phase rest ih =>
    obtain ⟨a, ha, hphase, hvalid⟩ := phase.exists_analyze p ht
    obtain ⟨later, hlater, hphases, hvalids⟩ := ih hvalid
    refine ⟨a :: later, stages_cons.2 ⟨a, later, ha, hlater, rfl⟩, ?_, ?_⟩
    · rw [List.map_cons, hphase, hphases]
    · exact List.forall_mem_cons.2 ⟨hvalid, hvalids⟩

end Program

/-! ### The gate -/

/-- Whether an analysis ends with this run, though there are phases left. -/
def Analysis.ends (a : Analysis) (stopAfter : Option Phase) : Bool :=
  !a.diagnostics.isEmpty || stopAfter = some a.lastPhase

theorem Analysis.ends_eq_false {a : Analysis} {stopAfter : Option Phase} :
    a.ends stopAfter = false ↔ a.diagnostics = [] ∧ stopAfter ≠ some a.lastPhase := by
  simp [ends]

section
variable {stopAfter : Option Phase} {p : Program} {phase next : Phase} {rest : List Phase}
  {t : Table} {r : Trace}

theorem runPhases_nil : runPhases stopAfter p phase t [] = .ok r ↔
    ∃ a, phase.analyze p t = .ok a ∧ r = ⟨[], a⟩ := by
  rw [runPhases]
  cases ha : phase.analyze p t with
  | error e => simp [bind, Except.bind]
  | ok a => simp [bind, Except.bind, pure, Except.pure, eq_comm]

theorem runPhases_cons : runPhases stopAfter p phase t (next :: rest) = .ok r ↔
    ∃ a, phase.analyze p t = .ok a ∧
      (a.ends stopAfter = true ∧ r = ⟨[], a⟩ ∨
        a.ends stopAfter = false ∧ ∃ later, runPhases stopAfter p next a.table rest = .ok later ∧
          r = ⟨a :: later.earlier, later.last⟩) := by
  rw [runPhases]
  cases ha : phase.analyze p t with
  | error e => simp [bind, Except.bind]
  | ok a =>
    obtain ⟨⟨rfl, -⟩, -⟩ := Phase.analyze_eq_ok.1 ha
    have hgate : (!a.diagnostics.isEmpty || decide (stopAfter = some a.lastPhase)) =
      a.ends stopAfter := rfl
    simp only [bind, Except.bind, hgate, Except.ok.injEq, exists_eq_left']
    cases a.ends stopAfter with
    | true => simp [pure, Except.pure, eq_comm]
    | false =>
      cases runPhases stopAfter p next a.table rest with
      | error e => simp
      | ok later => simp [pure, Except.pure, eq_comm]

/-- An analysis makes the first of the runs without a gate, up to one that ends it or to the last. -/
theorem runPhases_stages {runs : List Analysis} (h : p.stages (phase :: rest) t = .ok runs) :
    ∃ r, runPhases stopAfter p phase t rest = .ok r ∧ r.steps <+: runs ∧
      (runs.find? (·.ends stopAfter)).or runs.getLast? = some r.last := by
  induction rest generalizing phase t runs with
  | nil =>
    obtain ⟨a, later, ha, hlater, rfl⟩ := Program.stages_cons.1 h
    cases hlater
    refine ⟨⟨[], a⟩, runPhases_nil.2 ⟨a, ha, rfl⟩, List.prefix_refl _, ?_⟩
    cases hends : a.ends stopAfter <;> simp [hends]
  | cons next rest ih =>
    obtain ⟨a, later, ha, hlater, rfl⟩ := Program.stages_cons.1 h
    cases hends : a.ends stopAfter with
    | true =>
      refine ⟨⟨[], a⟩, runPhases_cons.2 ⟨a, ha, .inl ⟨hends, rfl⟩⟩, ?_, by simp [hends]⟩
      simp [Trace.steps]
    | false =>
      obtain ⟨r, hr, hprefix, hlast⟩ := ih hlater
      refine ⟨⟨a :: r.earlier, r.last⟩, runPhases_cons.2 ⟨a, ha, .inr ⟨hends, r, hr, rfl⟩⟩,
        List.cons_prefix_cons.2 ⟨rfl, hprefix⟩, ?_⟩
      have hmore : later ≠ [] := by
        rintro rfl
        cases hlast
      rw [List.find?_cons_of_neg (by simp [hends]), List.getLast?_cons_of_ne_nil hmore]
      exact hlast

/-- In the runs of an analysis the phase that failed is stored as it should be, and none before the
last one has failed. -/
theorem runPhases_faithful (h : runPhases stopAfter p phase t rest = .ok r) :
    (∀ a ∈ r.earlier, a.diagnostics = [] ∧ a.failedPhase = none) ∧ r.last.Faithful := by
  induction rest generalizing phase t r with
  | nil =>
    obtain ⟨a, ha, rfl⟩ := runPhases_nil.1 h
    exact ⟨by simp, (Phase.analyze_eq_ok.1 ha).1.2⟩
  | cons next rest ih =>
    obtain ⟨a, ha, hgate⟩ := runPhases_cons.1 h
    have hfaithful := (Phase.analyze_eq_ok.1 ha).1.2
    rcases hgate with ⟨-, rfl⟩ | ⟨hends, later, hlater, rfl⟩
    · exact ⟨by simp, hfaithful⟩
    · obtain ⟨hearlier, hlast⟩ := ih hlater
      have hnone := (Analysis.ends_eq_false.1 hends).1
      have hhead : a.diagnostics = [] ∧ a.failedPhase = none :=
        ⟨hnone, hfaithful.failedPhase_eq_none.2 hnone⟩
      exact ⟨List.forall_mem_cons.2 ⟨hhead, hearlier⟩, hlast⟩

/-- There are diagnostics exactly if a phase has failed, which is then the last one that ran, and
exactly then the result of an analysis is that failure. -/
theorem runPhases_failed_iff (h : runPhases stopAfter p phase t rest = .ok r) :
    (r.last.diagnostics ≠ [] ↔ r.last.failedPhase = some r.last.lastPhase) ∧
      (r.last.diagnostics ≠ [] ↔ r.last.failedPhase.isSome) ∧
      (r.last.failedPhase.isSome ↔ ∃ f, r.last.result = .error f) := by
  obtain ⟨-, hlast⟩ := runPhases_faithful h
  refine ⟨by simp [hlast.failedPhase_eq_some], ?_, Analysis.isSome_failedPhase_iff⟩
  rw [Option.isSome_iff_ne_none, ne_eq, ne_eq, hlast.failedPhase_eq_none]

end

/-- On a valid table the phases end well, however far they get. -/
theorem exists_runPhases (stopAfter : Option Phase) (p : Program) (phase : Phase) {t : Table}
    (ht : t.Valid) (rest : List Phase) : ∃ r, runPhases stopAfter p phase t rest = .ok r := by
  obtain ⟨runs, hruns, -, -⟩ := p.exists_stages (phase :: rest) ht
  obtain ⟨r, hr, -, -⟩ := runPhases_stages hruns
  exact ⟨r, hr⟩

end ContractLang
