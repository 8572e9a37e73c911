import ContractLang.Event
import ContractLang.Proofs.Persistence
import ContractLang.Proofs.Stages
/-!
How far an analysis gets. It is the run of the first phase that reports something, or else of the
last phase that is wanted, and each phase reports diagnostics of its own class. What is logged along
the way changes nothing: a table of an analysis can always be shown.
-/
namespace ContractLang

open Pass Table

/-! ### Classes of diagnostics -/

/-- The classes of what a phase can report. -/
def Phase.categories : Phase → List Category
  | symbolConstruction => [.structural, .declaration]
  | typeResolution => [.typeResolution]
  | designatorResolution => [.nameResolution]
  | typeChecking => [.typing]

/-- Only the lack of a contract is structural, and it is all that is then reported. -/
theorem Program.declareSymbols_reports {p : Program} {t t' : Table} {ds : List Diagnostic}
    (h : p.declareSymbols.run t = .ok ⟨(), t', ds⟩) :
    (p.contract = none ∧ ds = [⟨.noContract, p.span⟩]) ∨
      p.contract ≠ none ∧ ∀ d ∈ ds, d.cause.category = .declaration := by
  unfold Program.declareSymbols at h
  cases hp : p.contract with
  | none =>
    rw [hp] at h
    exact .inl ⟨rfl, (run_report_iff.1 h).2⟩
  | some c =>
    rw [hp] at h
    exact .inr ⟨by simp, c.declare_enlarges.reports h⟩

theorem Phase.pass_reports {phase : Phase} {p : Program} {t t' : Table} {ds : List Diagnostic}
    (h : (phase.pass p).run t = .ok ⟨(), t', ds⟩) : ∀ d ∈ ds, d.cause.category ∈ phase.categories := by
  intro d hd
  cases phase with
  | symbolConstruction =>
    rcases p.declareSymbols_reports h with ⟨-, rfl⟩ | ⟨-, hds⟩
    · cases List.mem_singleton.1 hd
      exact .head _
    · rw [hds d hd]
      exact .tail _ (.head _)
  | typeResolution => exact List.mem_singleton.2 (p.resolveTypes_keeps.reports h d hd)
  | designatorResolution => exact List.mem_singleton.2 (p.bindNames_keeps.reports h d hd)
  | typeChecking => exact List.mem_singleton.2 (p.check_keeps.reports h d hd)

theorem Phase.contract_of_structural {phase : Phase} {p : Program} {t t' : Table}
    {ds : List Diagnostic} (h : (phase.pass p).run t = .ok ⟨(), t', ds⟩) {d : Diagnostic} (hd : d ∈ ds)
    (hs : d.cause.category = .structural) : p.contract = none ∧ ds = [d] := by
  have hclass := Phase.pass_reports h d hd
  rw [hs] at hclass
  cases phase with
  | symbolConstruction =>
    rcases p.declareSymbols_reports h with ⟨hp, rfl⟩ | ⟨-, hds⟩
    · exact ⟨hp, by rw [List.mem_singleton.1 hd]⟩
    · cases hs.symm.trans (hds d hd)
  | typeResolution => cases List.mem_singleton.1 hclass
  | designatorResolution => cases List.mem_singleton.1 hclass
  | typeChecking => cases List.mem_singleton.1 hclass

/-! ### Tables as text -/

namespace Table
variable {t : Table}

theorem exists_signatureText {k : SymbolKind} (hk : k.ValidIn t) :
    ∃ text, t.signatureText k = .ok text := by
  have hrefs := holds_symbolRefs hk
  have hvalue : ∀ type ∈ k.valueType?, type ∈ k.symbolRefs := by
    intro type htype
    cases k <;> simp_all [SymbolKind.valueType?, SymbolKind.symbolRefs]
  unfold signatureText
  split
  · rename_i info
    have hnames : ∀ id ∈ info.returns, ∃ name, t.nameOf id = .ok name := fun id hid =>
      exists_nameOf (hrefs id (List.mem_append_left _ (List.mem_append_left _ hid)))
    obtain ⟨names, hnames⟩ := exists_mapM hnames
    rw [hnames]
    exact ⟨_, rfl⟩
  · split
    · exact ⟨_, rfl⟩
    · rename_i type htype
      obtain ⟨name, hname⟩ := exists_nameOf (hrefs type (hvalue type htype))
      rw [hname]
      exact ⟨_, rfl⟩

theorem exists_declarationText (ht : t.Valid) {id : SymbolId} (hid : t.Holds id) :
    ∃ text, t.declarationText id = .ok text := by
  have hs : t.symbols[id.index]? = some _ := List.getElem?_eq_getElem hid
  obtain ⟨signature, hsignature⟩ := exists_signatureText (ht.symbols id.index _ hs).2
  rw [declarationText, symbol_eq_ok.2 hs]
  simp only [bind, Except.bind, hsignature]
  exact ⟨_, rfl⟩

theorem exists_scopeText (ht : t.Valid) {i : Nat} {s : Scope} (hs : t.scopes[i]? = some s) (n : Nat) :
    ∃ text, t.scopeText s n = .ok text := by
  have howner : ∃ owner, t.ownerText s.owner = .ok owner := by
    cases ho : s.owner with
    | none => exact ⟨_, rfl⟩
    | some id => exact exists_nameOf (ht.owners i s hs id ho)
  obtain ⟨owner, howner⟩ := howner
  have hlines : ∀ d ∈ s.declarations, ∃ line, t.declarationText d.2 = .ok line := fun d hd =>
    exists_declarationText ht (ht.declarations i s hs d hd).2.1.1
  obtain ⟨lines, hlines⟩ := exists_mapM hlines
  simp only [scopeText, bind, Except.bind, howner, hlines]
  exact ⟨_, rfl⟩

/-- A valid table can be shown. -/
theorem exists_text (ht : t.Valid) : ∃ text, t.text = .ok text := by
  have hscopes : ∀ q ∈ t.scopes.zipIdx, ∃ text, t.scopeText q.1 q.2 = .ok text := by
    intro q hq
    obtain ⟨i, hi⟩ := List.getElem?_of_mem (List.mem_map_of_mem (f := Prod.fst) hq)
    rw [List.zipIdx_map_fst] at hi
    exact exists_scopeText ht hi q.2
  obtain ⟨texts, htexts⟩ := exists_mapM hscopes
  simp only [text, bind, Except.bind, htexts]
  exact ⟨_, rfl⟩

end Table

theorem Trace.exists_log {r : Trace} (h : r.last.table.Valid) (c : Config) (p : Program) :
    ∃ log, r.log c p = .ok log := by
  have hdump : ∃ events, c.dump r.last.table = .ok events := by
    unfold Config.dump
    split
    · obtain ⟨text, htext⟩ := exists_text h
      rw [htext]
      exact ⟨_, rfl⟩
    · exact ⟨_, rfl⟩
  obtain ⟨events, hevents⟩ := hdump
  rw [Trace.log, hevents]
  exact ⟨_, rfl⟩

/-! ### The gate -/

/-- The last phase that is wanted. -/
def Config.lastWanted (c : Config) : Phase := c.stopAfter.getD .typeChecking

/-- All phases, in order. -/
def Phase.all : List Phase := symbolConstruction :: afterFirst

theorem Phase.all_split (k : Phase) :
    ∃ before after, Phase.all = before ++ k :: after ∧ ∀ j ∈ before, j.rank < k.rank := by
  cases k with
  | symbolConstruction => exact ⟨[], afterFirst, rfl, by simp⟩
  | typeResolution =>
    exact ⟨[symbolConstruction], [designatorResolution, typeChecking], rfl, by simp [rank]⟩
  | designatorResolution =>
    exact ⟨[symbolConstruction, typeResolution], [typeChecking], rfl, by simp [rank]⟩
  | typeChecking =>
    exact ⟨[symbolConstruction, typeResolution, designatorResolution], [], rfl, by simp [rank]⟩

/-- Where a phase begins, if all phases run in order. -/
def Phase.start (stage : Phase → Analysis) : Phase → Table
  | symbolConstruction => .initial
  | typeResolution => (stage symbolConstruction).table
  | designatorResolution => (stage typeResolution).table
  | typeChecking => (stage designatorResolution).table

/-- The run of each phase behind those before it. -/
theorem Program.exists_stage (p : Program) : ∃ stage : Phase → Analysis,
    p.stages Phase.all .initial = .ok (Phase.all.map stage) ∧
      ∀ k, ((stage k).lastPhase = k ∧ (stage k).Faithful) ∧ (stage k).table.Valid ∧
        (k.pass p).run (k.start stage) = .ok (stage k).outcome := by
  obtain ⟨_, h, -, hvalid⟩ := p.exists_stages Phase.all valid_initial
  obtain ⟨a₁, _, h₁, hrest₁, rfl⟩ := Program.stages_cons.1 h
  obtain ⟨a₂, _, h₂, hrest₂, rfl⟩ := Program.stages_cons.1 hrest₁
  obtain ⟨a₃, _, h₃, hrest₃, rfl⟩ := Program.stages_cons.1 hrest₂
  obtain ⟨a₄, _, h₄, hrest₄, rfl⟩ := Program.stages_cons.1 hrest₃
  cases hrest₄
  simp only [List.forall_mem_cons] at hvalid
  obtain ⟨hv₁, hv₂, hv₃, hv₄, -⟩ := hvalid
  refine ⟨fun
    | .symbolConstruction => a₁
    | .typeResolution => a₂
    | .designatorResolution => a₃
    | .typeChecking => a₄, h, fun k => ?_⟩
  cases k with
  | symbolConstruction => exact ⟨(Phase.analyze_eq_ok.1 h₁).1, hv₁, (Phase.analyze_eq_ok.1 h₁).2⟩
  | typeResolution => exact ⟨(Phase.analyze_eq_ok.1 h₂).1, hv₂, (Phase.analyze_eq_ok.1 h₂).2⟩
  | designatorResolution => exact ⟨(Phase.analyze_eq_ok.1 h₃).1, hv₃, (Phase.analyze_eq_ok.1 h₃).2⟩
  | typeChecking => exact ⟨(Phase.analyze_eq_ok.1 h₄).1, hv₄, (Phase.analyze_eq_ok.1 h₄).2⟩

/-- The first phase of some kind is found. -/
theorem Phase.find?_all {α : Type} {stage : Phase → α} {q : α → Bool} {k : Phase}
    (hk : q (stage k) = true) (hbefore : ∀ j, j.rank < k.rank → q (stage j) = false) :
    (Phase.all.map stage).find? q = some (stage k) := by
  obtain ⟨before, after, hall, hlt⟩ := k.all_split
  have hnone : (before.map stage).find? q = none := by
    rw [List.find?_eq_none]
    intro a ha
    obtain ⟨j, hj, rfl⟩ := List.mem_map.1 ha
    simp [hbefore j (hlt j hj)]
  rw [hall, List.map_append, List.find?_append, hnone, Option.none_or, List.map_cons,
    List.find?_cons_of_pos hk]

section
variable {stage : Phase → Analysis} {stopAfter : Option Phase} {a : Analysis}

/-- A phase that reports something ends the analysis, if none before it does. -/
theorem gate_of_reports (hstage : ∀ k, (stage k).lastPhase = k)
    (ha : ((Phase.all.map stage).find? (·.ends stopAfter)).or (Phase.all.map stage).getLast? = some a)
    {k : Phase} (hk : (stage k).diagnostics ≠ [])
    (hbefore : ∀ j, j.rank < k.rank → (stage j).diagnostics = [])
    (hwanted : k.rank ≤ (stopAfter.getD .typeChecking).rank) : a = stage k := by
  have hfound : (Phase.all.map stage).find? (·.ends stopAfter) = some (stage k) := by
    refine Phase.find?_all ?_ fun j hj => ?_
    · simp [Analysis.ends, hk]
    · have hgo : stopAfter ≠ some j := by
        rintro rfl
        exact absurd hwanted (Nat.not_le.2 hj)
      simp [Analysis.ends, hbefore j hj, hstage, hgo]
  rw [hfound] at ha
  exact (Option.some.inj ha).symm

/-- Otherwise it ends with the last phase that is wanted. -/
theorem gate_of_quiet (hstage : ∀ k, (stage k).lastPhase = k)
    (ha : ((Phase.all.map stage).find? (·.ends stopAfter)).or (Phase.all.map stage).getLast? = some a)
    (hquiet : ∀ j, j.rank ≤ (stopAfter.getD .typeChecking).rank → (stage j).diagnostics = []) :
    a = stage (stopAfter.getD .typeChecking) := by
  cases stopAfter with
  | none =>
    have hlast : ∀ j : Phase, j.rank ≤ Phase.typeChecking.rank := by
      intro j
      cases j <;> decide
    have hfound : (Phase.all.map stage).find? (·.ends none) = none := by
      simp [Analysis.ends, fun j => hquiet j (hlast j)]
    rw [hfound] at ha
    exact (Option.some.inj ha).symm
  | some k =>
    have hfound : (Phase.all.map stage).find? (·.ends (some k)) = some (stage k) := by
      refine Phase.find?_all ?_ fun j hj => ?_
      · simp [Analysis.ends, hstage]
      · have hne : k ≠ j := by
          rintro rfl
          exact Nat.lt_irrefl _ hj
        simp [Analysis.ends, hquiet j (Nat.le_of_lt hj), hstage, hne]
    rw [hfound] at ha
    exact (Option.some.inj ha).symm

/-- Without a contract the first phase reports that, and so no other runs. -/
theorem structural_iff {p : Program} (hstage : ∀ k, (stage k).lastPhase = k)
    (hfirst : p.declareSymbols.run .initial = .ok (stage .symbolConstruction).outcome)
    (ha : ((Phase.all.map stage).find? (·.ends stopAfter)).or (Phase.all.map stage).getLast? = some a)
    {k : Phase} {t : Table} (hrun : (k.pass p).run t = .ok a.outcome) :
    (∃ d ∈ a.diagnostics, d.cause.category = .structural) ↔ p.contract = none := by
  constructor
  · rintro ⟨d, hd, hs⟩
    exact (Phase.contract_of_structural hrun hd hs).1
  · intro hp
    rcases p.declareSymbols_reports hfirst with ⟨-, hds⟩ | ⟨hne, -⟩
    · have heq : a = stage .symbolConstruction :=
        gate_of_reports hstage ha (by rw [hds]; simp) (fun j hj => absurd hj (Nat.not_lt_zero _))
          (Nat.zero_le _)
      rw [heq, hds]
      exact ⟨_, List.mem_singleton.2 rfl, rfl⟩
    · exact absurd hp hne

end

/-- An analysis is a prefix of the phases. These declare symbols, resolve types, bind names and check,
each on the table that the one before it leaves. The analysis is the run of the first phase that
reports something, if that one is wanted, and otherwise that of the last phase that is wanted. So there
are diagnostics exactly if a phase has failed, they are of the classes of that phase, and the lack of
a contract is the only structural one and stands alone. Whatever is to be logged can be logged, and
the analysis stays the same. -/
theorem Config.analyze_gated (c : Config) (p : Program) :
    ∃ (stage : Phase → Analysis) (a : Analysis),
      p.stages Phase.all .initial = .ok (Phase.all.map stage) ∧ (∀ k, (stage k).lastPhase = k) ∧
      p.declareSymbols.run .initial = .ok (stage .symbolConstruction).outcome ∧
      p.resolveTypes.run (stage .symbolConstruction).table = .ok (stage .typeResolution).outcome ∧
      p.bindNames.run (stage .typeResolution).table = .ok (stage .designatorResolution).outcome ∧
      p.check.run (stage .designatorResolution).table = .ok (stage .typeChecking).outcome ∧
      c.analyze p = .ok a ∧
      (∀ k, (stage k).diagnostics ≠ [] → (∀ j, j.rank < k.rank → (stage j).diagnostics = []) →
        k.rank ≤ c.lastWanted.rank → a = stage k ∧ a.failedPhase = some k) ∧
      ((∀ k, k.rank ≤ c.lastWanted.rank → (stage k).diagnostics = []) →
        a = stage c.lastWanted ∧ a.diagnostics = [] ∧ a.failedPhase = none) ∧
      (a.diagnostics ≠ [] ↔ a.failedPhase.isSome) ∧
      (a.failedPhase.isSome ↔ ∃ f, a.result = .error f) ∧
      (∀ k, a.failedPhase = some k → ∀ d ∈ a.diagnostics, d.cause.category ∈ k.categories) ∧
      (∀ d ∈ a.diagnostics, d.cause.category = .structural → a.diagnostics = [d]) ∧
      ((∃ d ∈ a.diagnostics, d.cause.category = .structural) ↔ p.contract = none) ∧
      ∀ verbose dumpSymbols, ∃ r log, Config.trace ⟨verbose, dumpSymbols, c.stopAfter⟩ p = .ok r ∧
        r.last = a ∧ r.log ⟨verbose, dumpSymbols, c.stopAfter⟩ p = .ok log := by
  obtain ⟨stage, hstages, hstage⟩ := p.exists_stage
  have hphase : ∀ k, (stage k).lastPhase = k := fun k => (hstage k).1.1
  obtain ⟨r, hr, hfirst, hgate⟩ : ∃ r, c.trace p = .ok r ∧ r.steps <+: Phase.all.map stage ∧
      ((Phase.all.map stage).find? (·.ends c.stopAfter)).or (Phase.all.map stage).getLast? =
        some r.last := runPhases_stages hstages
  -- The analysis is the run of one of the phases, so it has what such a run has.
  obtain ⟨k, -, hk⟩ : ∃ k ∈ Phase.all, stage k = r.last :=
    List.mem_map.1 (hfirst.subset (List.mem_append_right _ (List.mem_singleton.2 rfl)))
  obtain ⟨-, hvalid, hrun⟩ := hstage k
  rw [hk] at hvalid hrun
  have hlast : r.last.lastPhase = k := hk ▸ hphase k
  have hfaithful : r.last.Faithful := (runPhases_faithful hr).2
  obtain ⟨-, hfailed, hresult⟩ := runPhases_failed_iff hr
  refine ⟨stage, r.last, hstages, hphase, (hstage .symbolConstruction).2.2,
    (hstage .typeResolution).2.2, (hstage .designatorResolution).2.2, (hstage .typeChecking).2.2,
    by rw [Config.analyze, hr]; rfl, ?_, ?_, hfailed, hresult, ?_, ?_, ?_, ?_⟩
  · intro j hj hbefore hwanted
    have heq : r.last = stage j := gate_of_reports hphase hgate hj hbefore hwanted
    exact ⟨heq, hfaithful.failedPhase_eq_some.2 ⟨heq ▸ hj, heq ▸ hphase j⟩⟩
  · intro hquiet
    have heq : r.last = stage c.lastWanted := gate_of_quiet hphase hgate hquiet
    have hnone : r.last.diagnostics = [] := heq ▸ hquiet c.lastWanted (Nat.le_refl _)
    exact ⟨heq, hnone, hfaithful.failedPhase_eq_none.2 hnone⟩
  · intro j hj
    obtain rfl : k = j := hlast.symm.trans (hfaithful.failedPhase_eq_some.1 hj).2
    exact Phase.pass_reports hrun
  · intro d hd hs
    exact (Phase.contract_of_structural hrun hd hs).2
  · exact structural_iff hphase (hstage .symbolConstruction).2.2 hgate hrun
  · intro verbose dumpSymbols
    obtain ⟨log, hlog⟩ := Trace.exists_log hvalid ⟨verbose, dumpSymbols, c.stopAfter⟩ p
    exact ⟨r, log, hr, rfl, hlog⟩

end ContractLang
