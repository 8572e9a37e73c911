import ContractLang.Proofs.Nodes
import ContractLang.Proofs.Outline
import ContractLang.Proofs.Safety
/-!
What resolving types does, without its steps. Array and map types come in at the end of the table;
apart from that only the types of values and the types that functions return can change, and a
value that has a type keeps one. If nothing is reported then every value has got its type.
-/
namespace ContractLang

open Pass

namespace Table

/-- Only types have been settled. -/
structure Settles (t t' : Table) : Prop where
  outlines : ∃ new, t'.outlines = t.outlines ++ new ∧ ∀ s ∈ new, s.kind.IsStructural
  scopes : t'.scopes = t.scopes
  contract : t'.contract = t.contract
  declared : t'.declared = t.declared
  bindings : t'.bindings = t.bindings
  types : t'.types = t.types
  visible : ∀ id, t'.visibleIn id = t.visibleIn id
  typed : ∀ id type, t.valueType id = some type → ∃ type', t'.valueType id = some type'

namespace Settles
variable {t t' t'' : Table}

theorem refl (t : Table) : t.Settles t :=
  ⟨⟨[], by simp⟩, rfl, rfl, rfl, rfl, rfl, fun _ => rfl, fun _ type h => ⟨type, h⟩⟩

theorem trans (h₁ : t.Settles t') (h₂ : t'.Settles t'') : t.Settles t'' where
  outlines := by
    obtain ⟨new₁, e₁, s₁⟩ := h₁.outlines
    obtain ⟨new₂, e₂, s₂⟩ := h₂.outlines
    refine ⟨new₁ ++ new₂, by rw [e₂, e₁, List.append_assoc], fun s hs => ?_⟩
    rcases List.mem_append.1 hs with hs | hs
    · exact s₁ s hs
    · exact s₂ s hs
  scopes := h₂.scopes.trans h₁.scopes
  contract := h₂.contract.trans h₁.contract
  declared := h₂.declared.trans h₁.declared
  bindings := h₂.bindings.trans h₁.bindings
  types := h₂.types.trans h₁.types
  visible id := (h₂.visible id).trans (h₁.visible id)
  typed id type h := by
    obtain ⟨type', h'⟩ := h₁.typed id type h
    exact h₂.typed id type' h'

theorem sort_old (h : t.Settles t') {id : SymbolId} {k : SymbolKind} (hs : t.sort? id = some k) :
    t'.sort? id = some k := by
  obtain ⟨new, e, -⟩ := h.outlines
  have hid : id.index < t.outlines.length := by
    rw [length_outlines]
    exact holds_of_sort hs
  rw [sort?_eq, e, List.getElem?_append_left hid, ← sort?_eq, hs]

end Settles

theorem Interns.settles {t t' : Table} (h : t.Interns t') : t.Settles t' where
  outlines := by
    obtain ⟨new, e, hs⟩ := h.symbols
    refine ⟨new.map Symbol.outline, by rw [Table.outlines, e, List.map_append]; rfl, ?_⟩
    intro s hm
    obtain ⟨s', hs', rfl⟩ := List.mem_map.1 hm
    have hstruct := hs s' hs'
    unfold Symbol.outline
    cases hk : s'.kind <;> simp_all [SymbolKind.IsStructural, SymbolKind.outline]
  scopes := h.scopes
  contract := h.contract
  declared := h.declared
  bindings := h.bindings
  types := h.types
  visible id := by
    cases hk : t.kind? id with
    | some k => rw [visibleIn_of_kind hk, visibleIn_of_kind (h.kind hk)]
    | none =>
      obtain ⟨new, e, hs⟩ := h.symbols
      have hge : t.symbols.length ≤ id.index := by
        refine Nat.not_lt.1 fun hlt => ?_
        obtain ⟨k, hk'⟩ := holds_iff_kind?.1 hlt
        rw [hk] at hk'
        cases hk'
      have hnone : t.visibleIn id = [] := by rw [visibleIn, hk]; rfl
      rw [hnone, visibleIn, kind?, e, List.getElem?_append_right hge]
      cases hget : new[id.index - t.symbols.length]? with
      | none => rfl
      | some s =>
        have hstruct := hs s (List.mem_of_getElem? hget)
        cases hkind : s.kind <;> simp_all [SymbolKind.IsStructural, SymbolKind.visibility]
  typed id type ht := by
    obtain ⟨k, hk, hv⟩ := Option.bind_eq_some_iff.1 ht
    exact ⟨type, by rw [valueType, h.kind hk]; exact hv⟩

theorem settles_amend {t : Table} (id : SymbolId) {f : SymbolKind → SymbolKind}
    (hf : ∀ k, t.kind? id = some k → (f k).outline = k.outline ∧ (f k).visibility = k.visibility ∧
      (k.valueType?.isSome → (f k).valueType?.isSome)) : t.Settles (t.amend id f) where
  outlines := ⟨[], by rw [outlines_amend id fun k hk => (hf k hk).1, List.append_nil], by simp⟩
  scopes := rfl
  contract := rfl
  declared := rfl
  bindings := rfl
  types := rfl
  visible j := by
    simp only [visibleIn, kind?_amend]
    cases hk : t.kind? j with
    | none => rfl
    | some k =>
      by_cases h : id = j
      · subst h
        simp [(hf k hk).2.1]
      · simp [h]
  typed j type ht := by
    obtain ⟨k, hk, hv⟩ := Option.bind_eq_some_iff.1 ht
    rw [valueType, kind?_amend, hk, Option.map_some, Option.bind_some]
    by_cases h : id = j
    · subst h
      rw [if_pos rfl]
      exact Option.isSome_iff_exists.1 ((hf k hk).2.2 (by rw [hv]; rfl))
    · rw [if_neg h]
      exact ⟨type, hv⟩

theorem settles_withValueType (t : Table) (id type : SymbolId) :
    t.Settles (t.amend id (·.withValueType type)) := by
  refine settles_amend id fun k _ => ?_
  cases k <;> simp [SymbolKind.withValueType, SymbolKind.outline, SymbolKind.visibility,
    SymbolKind.valueType?]

theorem settles_setReturns (t : Table) (id : SymbolId) (types : List SymbolId) :
    t.Settles (t.amend id (·.mapFunction (·.setReturns types))) := by
  refine settles_amend id fun k _ => ?_
  cases k <;> exact ⟨rfl, rfl, fun h => h⟩

/-- The node declares a field, a parameter or a local. -/
def AwaitsType (t : Table) (node : NodeId) : Prop :=
  ∃ id k, t.declaredBy? node = some id ∧ t.sort? id = some k ∧ k.isValue ∧ k.valueType? = none

/-- The node declares a value that has a type. -/
def Typed (t : Table) (node : NodeId) : Prop :=
  ∃ id type, t.declaredBy? node = some id ∧ t.valueType id = some type

theorem withValueType_of_awaits {k : SymbolKind} (hv : k.outline.isValue)
    (hn : k.outline.valueType? = none) (type : SymbolId) :
    (k.withValueType type).valueType? = some type := by
  cases k with
  | field _ => rfl
  | parameter _ => rfl
  | localVar _ _ => rfl
  | constant _ => cases hn
  | _ => cases hv

theorem AwaitsType.settles {t t' : Table} {node : NodeId} (h : t.AwaitsType node) (hs : t.Settles t') :
    t'.AwaitsType node := by
  obtain ⟨id, k, hd, hk, hvalue⟩ := h
  exact ⟨id, k, (congrArg (Assoc.get? · node) hs.declared).trans hd, hs.sort_old hk, hvalue⟩

theorem Typed.settles {t t' : Table} {node : NodeId} (h : t.Typed node) (hs : t.Settles t') :
    t'.Typed node := by
  obtain ⟨id, type, hd, ht⟩ := h
  obtain ⟨type', ht'⟩ := hs.typed id type ht
  exact ⟨id, type', (congrArg (Assoc.get? · node) hs.declared).trans hd, ht'⟩

end Table

/-! ### Steps -/

theorem TypeName.resolve_inv {type : TypeName} {t t' : Table} {found : Option SymbolId}
    {ds : List Diagnostic} (ht : t.Valid) (h : type.resolve.run t = .ok ⟨found, t', ds⟩) :
    t.Settles t' ∧ (ds = [] → found ≠ none) := by
  obtain ⟨a, t₁, es₁, fs₁, h₁, k₁, rfl⟩ := run_bind_iff.1 h
  obtain ⟨hnamed, rfl⟩ := run_state_iff.1 h₁
  obtain ⟨b, s, hb, -, hi, -⟩ := Table.exists_typeNamed ht type
  rw [hnamed] at hb
  cases hb
  obtain ⟨_, t₂, es₂, fs₂, h₂, h₃, rfl⟩ := run_bind_iff.1 k₁
  obtain ⟨rfl, rfl⟩ := run_reportIf_iff.1 h₂
  obtain ⟨rfl, rfl, rfl⟩ := run_pure_iff.1 h₃
  refine ⟨hi.settles, fun hsilent hnone => ?_⟩
  rw [if_pos hnone] at hsilent
  cases hsilent

theorem resolveTypes_inv {types : List TypeName} {t t' : Table} {found : List SymbolId}
    {ds : List Diagnostic} (ht : t.Valid) (h : (resolveTypes types).run t = .ok ⟨found, t', ds⟩) :
    t.Settles t' := by
  induction types generalizing t found ds with
  | nil =>
    obtain ⟨rfl, rfl, rfl⟩ := run_pure_iff.1 h
    exact .refl _
  | cons type types ih =>
    obtain ⟨a, t₁, es₁, fs₁, h₁, k₁, rfl⟩ := run_bind_iff.1 h
    obtain ⟨rest, t₂, es₂, fs₂, h₂, h₃, rfl⟩ := run_bind_iff.1 k₁
    obtain ⟨rfl, rfl, rfl⟩ := run_pure_iff.1 h₃
    have ht₁ := ((type.resolve_safe ht).of_run h₁).1
    exact (TypeName.resolve_inv ht h₁).1.trans (ih ht₁ h₂)

theorem settleType_inv {node : NodeId} {type : TypeName} {t t' : Table} {u : Unit}
    {ds : List Diagnostic} (ht : t.Valid) (h : (settleType node type).run t = .ok ⟨u, t', ds⟩) :
    t.Settles t' ∧ (ds = [] → t.AwaitsType node → t'.Typed node) := by
  obtain ⟨r, t₁, es₁, fs₁, h₁, k₁, rfl⟩ := run_bind_iff.1 h
  obtain ⟨rfl, rfl, rfl⟩ := run_view_iff.1 h₁
  cases hd : t₁.declaredBy? node with
  | none =>
    rw [hd] at k₁
    obtain ⟨-, rfl, rfl⟩ := run_pure_iff.1 k₁
    refine ⟨.refl _, fun _ hslot => ?_⟩
    obtain ⟨id, k, hid, -⟩ := hslot
    rw [hd] at hid
    cases hid
  | some id =>
    rw [hd] at k₁
    by_cases hvoid : type.isVoid
    · simp only [hvoid, if_true] at k₁
      obtain ⟨rfl, rfl⟩ := run_report_iff.1 k₁
      exact ⟨.refl _, fun hsilent => by cases hsilent⟩
    · simp only [hvoid, Bool.false_eq_true, if_false] at k₁
      obtain ⟨found, t₂, es₂, fs₂, h₂, h₃, rfl⟩ := run_bind_iff.1 k₁
      obtain ⟨hs₂, hfound⟩ := TypeName.resolve_inv ht h₂
      cases found with
      | none =>
        obtain ⟨-, rfl, rfl⟩ := run_pure_iff.1 h₃
        refine ⟨hs₂, fun hsilent => ?_⟩
        rw [List.nil_append, List.append_nil] at hsilent
        exact absurd rfl (hfound hsilent)
      | some type =>
        obtain ⟨hu, rfl⟩ := run_update_iff.1 h₃
        obtain ⟨-, rfl⟩ := Table.updateKind_eq_ok.1 hu
        have hs := hs₂.trans (t₂.settles_withValueType id type)
        refine ⟨hs, fun _ hslot => ?_⟩
        obtain ⟨j, k, hj, hk, hvalue, hnone⟩ := hslot
        rw [hd] at hj
        cases hj
        obtain ⟨k₂, hk₂, rfl⟩ := Option.map_eq_some_iff.1 (hs₂.sort_old hk)
        refine ⟨id, type, (congrArg (Assoc.get? · node) hs.declared).trans hd, ?_⟩
        rw [Table.valueType, Table.kind?_amend, hk₂, Option.map_some, Option.bind_some, if_pos rfl]
        exact Table.withValueType_of_awaits hvalue hnone type

/-- A loop in which every step settles types; what a step needs and what it reaches stay. -/
theorem forM_settles {α : Type} {step : α → Pass Unit} {P Q : α → Table → Prop}
    (hP : ∀ x t t', Table.Settles t t' → P x t → P x t')
    (hQ : ∀ x t t', Table.Settles t t' → Q x t → Q x t')
    (hsafe : ∀ x t, Table.Valid t → (step x).Safe t fun _ _ => True)
    (hstep : ∀ x t t' u ds, Table.Valid t → (step x).run t = .ok ⟨u, t', ds⟩ →
      t.Settles t' ∧ (ds = [] → P x t → Q x t'))
    {xs : List α} {t t' : Table} {u : Unit} {ds : List Diagnostic} (ht : t.Valid)
    (h : (xs.forM step).run t = .ok ⟨u, t', ds⟩) :
    t'.Valid ∧ t.Settles t' ∧ (ds = [] → (∀ x ∈ xs, P x t) → ∀ x ∈ xs, Q x t') := by
  induction xs generalizing t ds with
  | nil =>
    obtain ⟨-, rfl, rfl⟩ := run_pure_iff.1 h
    exact ⟨ht, .refl _, by simp⟩
  | cons x xs ih =>
    obtain ⟨_, t₁, es, fs, h₁, h₂, rfl⟩ := run_bind_iff.1 h
    obtain ⟨hs₁, hq₁⟩ := hstep x t t₁ _ es ht h₁
    have ht₁ := ((hsafe x t ht).of_run h₁).1
    obtain ⟨ht', hs₂, hq₂⟩ := ih ht₁ h₂
    refine ⟨ht', hs₁.trans hs₂, fun hsilent hp => ?_⟩
    obtain ⟨hes, hfs⟩ := List.append_eq_nil_iff.1 hsilent
    intro y hy
    rcases List.mem_cons.1 hy with rfl | hy
    · exact hQ y t₁ t' hs₂ (hq₁ hes (hp y (List.mem_cons_self ..)))
    · exact hq₂ hfs (fun z hz => hP z t t₁ hs₁ (hp z (List.mem_cons_of_mem _ hz))) y hy

theorem settleTypes_inv {α : Type} {node : α → NodeId} {type : α → TypeName} {xs : List α}
    {t t' : Table} {u : Unit} {ds : List Diagnostic} (ht : t.Valid)
    (h : (xs.forM fun x => settleType (node x) (type x)).run t = .ok ⟨u, t', ds⟩) :
    t'.Valid ∧ t.Settles t' ∧
      (ds = [] → (∀ x ∈ xs, t.AwaitsType (node x)) → ∀ x ∈ xs, t'.Typed (node x)) :=
  forM_settles (P := fun x t => t.AwaitsType (node x)) (Q := fun x t => t.Typed (node x))
    (fun _ _ _ hs hp => hp.settles hs) (fun _ _ _ hs hq => hq.settles hs)
    (fun x _ ht => settleType_safe ht (node x) (type x)) (fun _ _ _ _ _ ht h => settleType_inv ht h)
    ht h

theorem Callable.settleReturns_inv {f : Callable} {id : SymbolId} {t t' : Table} {u : Unit}
    {ds : List Diagnostic} (ht : t.Valid) (h : (f.settleReturns id).run t = .ok ⟨u, t', ds⟩) :
    t.Settles t' := by
  obtain ⟨_, t₁, es₁, fs₁, h₁, k₁, rfl⟩ := run_bind_iff.1 h
  obtain ⟨rfl, rfl⟩ := run_reportIf_iff.1 h₁
  obtain ⟨_, t₂, es₂, fs₂, h₂, k₂, rfl⟩ := run_bind_iff.1 k₁
  have hsame : t₂ = t₁ := by
    unfold Callable.checkVoid at h₂
    split at h₂
    · exact (run_pure_iff.1 h₂).2.1
    · exact (run_reportIf_iff.1 h₂).1
  subst hsame
  obtain ⟨types, t₃, es₃, fs₃, h₃, h₄, rfl⟩ := run_bind_iff.1 k₂
  obtain ⟨hu, rfl⟩ := run_update_iff.1 h₄
  obtain ⟨-, rfl⟩ := Table.updateKind_eq_ok.1 hu
  exact (ContractLang.resolveTypes_inv ht h₃).trans (t₃.settles_setReturns id types)

/-- The variables of a callable, which are declared by now. -/
def Callable.vars (f : Callable) : List VarDecl := f.params ++ localsOf f.body.stmts

theorem Callable.resolveTypes_inv {f : Callable} {t t' : Table} {u : Unit} {ds : List Diagnostic}
    (ht : t.Valid) (h : f.resolveTypes.run t = .ok ⟨u, t', ds⟩) :
    t.Settles t' ∧ (ds = [] → (∃ id, t.declaredBy? f.node.id = some id) ∧
      (∀ v ∈ f.vars, t.AwaitsType v.node.id) → ∀ v ∈ f.vars, t'.Typed v.node.id) := by
  obtain ⟨r, t₁, es₁, fs₁, h₁, k₁, rfl⟩ := run_bind_iff.1 h
  obtain ⟨rfl, rfl, rfl⟩ := run_view_iff.1 h₁
  cases hd : t₁.declaredBy? f.node.id with
  | none =>
    rw [hd] at k₁
    obtain ⟨-, rfl, rfl⟩ := run_pure_iff.1 k₁
    exact ⟨.refl _, fun _ hpre => by obtain ⟨⟨_, hid⟩, -⟩ := hpre; cases hid⟩
  | some id =>
    rw [hd] at k₁
    obtain ⟨_, t₂, es₂, fs₂, h₂, k₂, rfl⟩ := run_bind_iff.1 k₁
    obtain ⟨ht₂, hs₂, hq₂⟩ := settleTypes_inv ht h₂
    obtain ⟨_, t₃, es₃, fs₃, h₃, h₄, rfl⟩ := run_bind_iff.1 k₂
    have hown : t₂.Own id := by
      refine ht₂.declared f.node.id id ?_
      rw [hs₂.declared]
      exact hd
    have hs₃ := Callable.settleReturns_inv ht₂ h₃
    have ht₃ := ((f.settleReturns_safe ht₂ hown).of_run h₃).1
    rw [resolveTypesIn_eq] at h₄
    obtain ⟨ht₄, hs₄, hq₄⟩ := settleTypes_inv ht₃ h₄
    refine ⟨hs₂.trans (hs₃.trans hs₄), fun hsilent hpre v hv => ?_⟩
    simp only [List.nil_append, List.append_eq_nil_iff] at hsilent
    obtain ⟨hes₂, -, hfs₃⟩ := hsilent
    have hslot := hpre.2
    rcases List.mem_append.1 hv with hv | hv
    · have htyped := hq₂ hes₂ (fun w hw => hslot w (List.mem_append_left _ hw)) v hv
      exact htyped.settles (hs₃.trans hs₄)
    · refine hq₄ hfs₃ (fun w hw => ?_) v hv
      exact (hslot w (List.mem_append_right _ hw)).settles (hs₂.trans hs₃)

/-- Every field, parameter and local of a contract has been declared, and so have its callables. -/
def ContractDecl.Declared (c : ContractDecl) (t : Table) : Prop :=
  (∀ f ∈ c.allFields, t.AwaitsType f.node.id) ∧
    ∀ f ∈ c.callables, (∃ id, t.declaredBy? f.node.id = some id) ∧ ∀ v ∈ f.vars, t.AwaitsType v.node.id

/-- Every field, parameter and local of a contract has a type. -/
def ContractDecl.Settled (c : ContractDecl) (t : Table) : Prop :=
  (∀ f ∈ c.allFields, t.Typed f.node.id) ∧ ∀ f ∈ c.callables, ∀ v ∈ f.vars, t.Typed v.node.id

theorem ContractDecl.resolveTypes_inv {c : ContractDecl} {t t' : Table} {u : Unit}
    {ds : List Diagnostic} (ht : t.Valid) (h : c.resolveTypes.run t = .ok ⟨u, t', ds⟩) :
    t'.Valid ∧ t.Settles t' ∧ (ds = [] → c.Declared t → c.Settled t') := by
  obtain ⟨_, t₁, es₁, fs₁, h₁, k₁, rfl⟩ := run_bind_iff.1 h
  obtain ⟨ht₁, hs₁, hq₁⟩ := settleTypes_inv ht h₁
  obtain ⟨_, t₂, es₂, fs₂, h₂, h₃, rfl⟩ := run_bind_iff.1 k₁
  obtain ⟨ht₂, hs₂, hq₂⟩ := forM_settles
    (P := fun (s : StructDecl) t => ∀ f ∈ s.fields, t.AwaitsType f.node.id)
    (Q := fun (s : StructDecl) t => ∀ f ∈ s.fields, t.Typed f.node.id)
    (fun _ _ _ hs hp f hf => (hp f hf).settles hs) (fun _ _ _ hs hq f hf => (hq f hf).settles hs)
    (fun s t ht => safe_forM ht fun f _ _ ht' _ => settleType_safe ht' _ _)
    (fun s t t' u ds ht h => (settleTypes_inv ht h).2) ht₁ h₂
  have hdeclared : ∀ (f : Callable) (t t' : Table), t.Settles t' →
      (∃ id, t.declaredBy? f.node.id = some id) ∧ (∀ v ∈ f.vars, t.AwaitsType v.node.id) →
      (∃ id, t'.declaredBy? f.node.id = some id) ∧ ∀ v ∈ f.vars, t'.AwaitsType v.node.id := by
    rintro f t t' hs ⟨⟨id, hid⟩, hp⟩
    exact ⟨⟨id, (congrArg (Assoc.get? · f.node.id) hs.declared).trans hid⟩,
      fun v hv => (hp v hv).settles hs⟩
  obtain ⟨ht₃, hs₃, hq₃⟩ := forM_settles (Q := fun (f : Callable) t => ∀ v ∈ f.vars, t.Typed v.node.id)
    hdeclared (fun _ _ _ hs hq v hv => (hq v hv).settles hs) (fun f t ht => f.resolveTypes_safe ht)
    (fun f t t' u ds ht h => f.resolveTypes_inv ht h) ht₂ h₃
  refine ⟨ht₃, hs₁.trans (hs₂.trans hs₃), fun hsilent hc => ?_⟩
  simp only [List.append_eq_nil_iff] at hsilent
  obtain ⟨hes₁, hes₂, hfs₂⟩ := hsilent
  obtain ⟨hfields, hcallables⟩ := hc
  refine ⟨fun f hf => ?_, ?_⟩
  · rcases List.mem_append.1 hf with hf | hf
    · have htyped := hq₁ hes₁ (fun g hg => hfields g (List.mem_append_left _ hg)) f hf
      exact htyped.settles (hs₂.trans hs₃)
    · obtain ⟨s, hs, hf⟩ := List.mem_flatMap.1 hf
      refine (hq₂ hes₂ (fun s' hs' g hg => ?_) s hs f hf).settles hs₃
      exact (hfields g (List.mem_append_right _ (List.mem_flatMap.2 ⟨s', hs', hg⟩))).settles hs₁
  · exact hq₃ hfs₂ fun f hf => hdeclared f t t₂ (hs₁.trans hs₂) (hcallables f hf)

end ContractLang
