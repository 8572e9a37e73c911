import ContractLang.Pass
/-!
How the primitive steps of an analysis run. Each run is taken apart into the runs of its steps, and
`Leads` says where a step leads whatever it reports.
-/
namespace ContractLang
namespace Pass
variable {α β : Type}

theorem run_state_eq_ok {f : Table → Except Dangling (α × Table)} {t : Table} {u : Outcome α} :
    (state f).run t = .ok u ↔ ∃ a t', f t = .ok (a, t') ∧ u = ⟨a, t', []⟩ := by
  cases h : f t with
  | error e => simp [state, h, Except.map]
  | ok r =>
    simp only [state, h, Except.map, Except.ok.injEq]
    constructor
    · rintro rfl
      exact ⟨r.1, r.2, rfl, rfl⟩
    · rintro ⟨a, t', rfl, rfl⟩
      rfl

theorem run_query_eq_ok {f : Table → Except Dangling α} {t : Table} {u : Outcome α} :
    (query f).run t = .ok u ↔ ∃ a, f t = .ok a ∧ u = ⟨a, t, []⟩ := by
  cases h : f t with
  | error e => simp [query, state, h, Except.map]
  | ok a => simp [query, state, h, Except.map, eq_comm]

theorem run_update_eq_ok {f : Table → Except Dangling Table} {t : Table} {u : Outcome Unit} :
    (update f).run t = .ok u ↔ ∃ t', f t = .ok t' ∧ u = ⟨(), t', []⟩ := by
  cases h : f t with
  | error e => simp [update, state, h, Except.map]
  | ok a => simp [update, state, h, Except.map, eq_comm]

theorem run_view (f : Table → α) (t : Table) : (view f).run t = .ok ⟨f t, t, []⟩ := rfl

theorem run_adjust (f : Table → Table) (t : Table) : (adjust f).run t = .ok ⟨(), f t, []⟩ := rfl

theorem run_noteType (node : NodeId) (type : SymbolId) (t : Table) :
    (noteType node type).run t = .ok ⟨some type, t.noteType node type, []⟩ := rfl

theorem run_bind_ok {x : Pass α} {f : α → Pass β} {t s t' : Table} {a : α} {b : β}
    {ds es : List Diagnostic} (hx : x.run t = .ok ⟨a, s, ds⟩) (hf : (f a).run s = .ok ⟨b, t', es⟩) :
    (x >>= f).run t = .ok ⟨b, t', ds ++ es⟩ :=
  run_bind_eq_ok.2 ⟨_, _, hx, hf, rfl⟩

/-! ### What a run has come from -/

theorem run_bind_iff {x : Pass α} {f : α → Pass β} {t t' : Table} {b : β} {ds : List Diagnostic} :
    (x >>= f).run t = .ok ⟨b, t', ds⟩ ↔ ∃ a s es fs,
      x.run t = .ok ⟨a, s, es⟩ ∧ (f a).run s = .ok ⟨b, t', fs⟩ ∧ ds = es ++ fs := by
  rw [run_bind_eq_ok]
  constructor
  · rintro ⟨⟨a, s, es⟩, ⟨b', t'', fs⟩, hx, hf, h⟩
    cases h
    exact ⟨a, s, es, fs, hx, hf, rfl⟩
  · rintro ⟨a, s, es, fs, hx, hf, rfl⟩
    exact ⟨_, _, hx, hf, rfl⟩

theorem run_pure_iff {a b : α} {t t' : Table} {ds : List Diagnostic} :
    (pure a : Pass α).run t = .ok ⟨b, t', ds⟩ ↔ b = a ∧ t' = t ∧ ds = [] := by
  simp [run_pure, eq_comm]

theorem run_query_iff {f : Table → Except Dangling α} {t t' : Table} {a : α}
    {ds : List Diagnostic} :
    (query f).run t = .ok ⟨a, t', ds⟩ ↔ f t = .ok a ∧ t' = t ∧ ds = [] := by
  rw [run_query_eq_ok]
  constructor
  · rintro ⟨b, hb, h⟩
    cases h
    exact ⟨hb, rfl, rfl⟩
  · rintro ⟨ha, rfl, rfl⟩
    exact ⟨a, ha, rfl⟩

theorem run_update_iff {f : Table → Except Dangling Table} {t t' : Table} {a : Unit}
    {ds : List Diagnostic} : (update f).run t = .ok ⟨a, t', ds⟩ ↔ f t = .ok t' ∧ ds = [] := by
  rw [run_update_eq_ok]
  constructor
  · rintro ⟨s, hs, h⟩
    cases h
    exact ⟨hs, rfl⟩
  · rintro ⟨hs, rfl⟩
    exact ⟨t', hs, rfl⟩

theorem run_state_iff {f : Table → Except Dangling (α × Table)} {t t' : Table} {a : α}
    {ds : List Diagnostic} :
    (state f).run t = .ok ⟨a, t', ds⟩ ↔ f t = .ok (a, t') ∧ ds = [] := by
  rw [run_state_eq_ok]
  constructor
  · rintro ⟨b, s, hs, h⟩
    cases h
    exact ⟨hs, rfl⟩
  · rintro ⟨hs, rfl⟩
    exact ⟨a, t', hs, rfl⟩

theorem run_view_iff {f : Table → α} {t t' : Table} {a : α} {ds : List Diagnostic} :
    (view f).run t = .ok ⟨a, t', ds⟩ ↔ a = f t ∧ t' = t ∧ ds = [] := by
  simp [run_view, eq_comm]

theorem run_adjust_iff {f : Table → Table} {t t' : Table} {a : Unit} {ds : List Diagnostic} :
    (adjust f).run t = .ok ⟨a, t', ds⟩ ↔ t' = f t ∧ ds = [] := by
  simp [run_adjust, eq_comm]

theorem run_report_iff {cause : Cause} {span : Span} {t t' : Table} {a : Unit}
    {ds : List Diagnostic} :
    (report cause span).run t = .ok ⟨a, t', ds⟩ ↔ t' = t ∧ ds = [⟨cause, span⟩] := by
  simp [run_report, eq_comm]

theorem run_reportIf_iff {p : Prop} [Decidable p] {cause : Cause} {span : Span} {t t' : Table}
    {a : Unit} {ds : List Diagnostic} : (reportIf p cause span).run t = .ok ⟨a, t', ds⟩ ↔
      t' = t ∧ ds = if p then [⟨cause, span⟩] else [] := by
  simp [run_reportIf, eq_comm]

/-! ### Where a step leads -/

/-- The step ends well, with this value and this table. -/
def Leads (x : Pass α) (t : Table) (a : α) (t' : Table) : Prop := ∃ ds, x.run t = .ok ⟨a, t', ds⟩

theorem leads_unique {x : Pass α} {t t₁ t₂ : Table} {a b : α} (h₁ : x.Leads t a t₁)
    (h₂ : x.Leads t b t₂) : a = b ∧ t₁ = t₂ := by
  obtain ⟨ds, h₁⟩ := h₁
  obtain ⟨es, h₂⟩ := h₂
  rw [h₁] at h₂
  cases h₂
  exact ⟨rfl, rfl⟩

theorem leads_bind {x : Pass α} {f : α → Pass β} {t t' : Table} {b : β} :
    (x >>= f).Leads t b t' ↔ ∃ a s, x.Leads t a s ∧ (f a).Leads s b t' := by
  constructor
  · rintro ⟨ds, h⟩
    obtain ⟨⟨a, s, ds⟩, ⟨b', t'', es⟩, hx, hf, h⟩ := run_bind_eq_ok.1 h
    cases h
    exact ⟨a, s, ⟨ds, hx⟩, es, hf⟩
  · rintro ⟨a, s, ⟨ds, hx⟩, es, hf⟩
    exact ⟨ds ++ es, run_bind_ok hx hf⟩

theorem leads_pure {a b : α} {t t' : Table} : (pure a : Pass α).Leads t b t' ↔ b = a ∧ t' = t := by
  simp [Leads, run_pure, eq_comm]

theorem leads_state {f : Table → Except Dangling (α × Table)} {t t' : Table} {a : α} :
    (state f).Leads t a t' ↔ f t = .ok (a, t') := by
  simp only [Leads, run_state_eq_ok]
  constructor
  · rintro ⟨ds, b, s, h, hu⟩
    cases hu
    exact h
  · intro h
    exact ⟨[], a, t', h, rfl⟩

theorem leads_query {f : Table → Except Dangling α} {t t' : Table} {a : α} :
    (query f).Leads t a t' ↔ f t = .ok a ∧ t' = t := by
  simp only [Leads, run_query_eq_ok]
  constructor
  · rintro ⟨ds, b, h, hu⟩
    cases hu
    exact ⟨h, rfl⟩
  · rintro ⟨h, rfl⟩
    exact ⟨[], a, h, rfl⟩

theorem leads_update {f : Table → Except Dangling Table} {t t' : Table} {a : Unit} :
    (update f).Leads t a t' ↔ f t = .ok t' := by
  simp only [Leads, run_update_eq_ok]
  constructor
  · rintro ⟨ds, s, h, hu⟩
    cases hu
    exact h
  · intro h
    exact ⟨[], t', h, rfl⟩

theorem leads_view {f : Table → α} {t t' : Table} {a : α} :
    (view f).Leads t a t' ↔ a = f t ∧ t' = t := by
  simp [Leads, run_view, eq_comm]

theorem leads_adjust {f : Table → Table} {t t' : Table} {a : Unit} :
    (adjust f).Leads t a t' ↔ t' = f t := by
  simp [Leads, run_adjust, eq_comm]

theorem leads_report {cause : Cause} {span : Span} {t t' : Table} {a : Unit} :
    (report cause span).Leads t a t' ↔ t' = t := by
  simp [Leads, run_report, eq_comm]

theorem leads_reportIf {p : Prop} [Decidable p] {cause : Cause} {span : Span} {t t' : Table}
    {a : Unit} : (reportIf p cause span).Leads t a t' ↔ t' = t := by
  simp [Leads, run_reportIf, eq_comm]

/-! ### Written types -/

-- To look up a written type is itself a sequence of steps, by the form of the type.

theorem state_typeNamed_named (span : Span) (name : String) :
    state (·.typeNamed (.named span name)) = (do
      let scope ← query (·.memberScope)
      match ← query (·.lookup scope name) with
      | none => return none
      | some id => return if (← query (·.kindOf id)).isType then some id else none) := by
  apply congrArg Pass.mk
  funext t
  simp only [Table.typeNamed, bind, andThen, query, state]
  cases t.memberScope with
  | error e => rfl
  | ok scope =>
    dsimp only [Except.bind, Except.map]
    cases t.lookup scope name with
    | error e => rfl
    | ok found =>
      cases found with
      | none => rfl
      | some id =>
        dsimp only
        cases t.kindOf id <;> rfl

theorem state_typeNamed_array (span : Span) (element : TypeName) :
    state (·.typeNamed (.array span element)) = (do
      match ← state (·.typeNamed element) with
      | none => return none
      | some id => return some (← state (·.arrayOf id))) := by
  apply congrArg Pass.mk
  funext t
  simp only [Table.typeNamed, bind, andThen, state]
  cases t.typeNamed element with
  | error e => rfl
  | ok p =>
    obtain ⟨found, t₁⟩ := p
    cases found with
    | none => rfl
    | some id =>
      dsimp only [Except.bind, Except.map]
      cases t₁.arrayOf id <;> rfl

theorem state_typeNamed_map (span : Span) (key value : TypeName) :
    state (·.typeNamed (.map span key value)) = (do
      match ← state (·.typeNamed key) with
      | none => return none
      | some k =>
        match ← state (·.typeNamed value) with
        | none => return none
        | some v => return some (← state (·.mapOf k v))) := by
  apply congrArg Pass.mk
  funext t
  simp only [Table.typeNamed, bind, andThen, state]
  cases t.typeNamed key with
  | error e => rfl
  | ok p =>
    obtain ⟨found, t₁⟩ := p
    cases found with
    | none => rfl
    | some k =>
      dsimp only [Except.bind, Except.map]
      cases t₁.typeNamed value with
      | error e => rfl
      | ok p =>
        obtain ⟨found, t₂⟩ := p
        cases found with
        | none => rfl
        | some v =>
          dsimp only
          cases t₂.mapOf k v <;> rfl

end Pass
end ContractLang
