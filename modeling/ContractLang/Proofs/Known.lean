import ContractLang.Proofs.Frames
import ContractLang.Proofs.Safety
/-!
Written types that have been looked up before. Every type that is made on the way is kept by its
components, so that a second look finds all of them and makes none, in the same table and in every
later one.
-/
namespace ContractLang

open Pass

namespace Table

/-- All types that there are can still be found, under the same numbers. -/
structure KeepsTypes (t t' : Table) : Prop where
  scopes : t'.scopes = t.scopes
  memberScope : t'.memberScope = t.memberScope
  kinds : ∀ id k, t.kind? id = some k → ∃ k', t'.kind? id = some k' ∧ k'.isType = k.isType
  arrays : t.arrays.Extends t'.arrays
  maps : t.maps.Extends t'.maps

theorem KeepsTypes.trans {t t' t'' : Table} (h₁ : t.KeepsTypes t') (h₂ : t'.KeepsTypes t'') :
    t.KeepsTypes t'' where
  scopes := h₂.scopes.trans h₁.scopes
  memberScope := h₂.memberScope.trans h₁.memberScope
  kinds id k hk := by
    obtain ⟨k', hk', he'⟩ := h₁.kinds id k hk
    obtain ⟨k'', hk'', he''⟩ := h₂.kinds id k' hk'
    exact ⟨k'', hk'', he''.trans he'⟩
  arrays := h₁.arrays.trans h₂.arrays
  maps := h₁.maps.trans h₂.maps

theorem Retypes.keepsTypes {t t' : Table} (h : t.Retypes t') (ht : t.Valid) : t.KeepsTypes t' := by
  have hkinds : ∀ id k, t.kind? id = some k →
      ∃ k', t'.kind? id = some k' ∧ k'.isType = k.isType ∧ k'.contract? = k.contract? := by
    intro id k hk
    obtain ⟨s, hs, hkind⟩ := Option.map_eq_some_iff.1 hk
    obtain ⟨k', hs', hr⟩ := h.old _ s hs
    rw [hkind] at hr
    refine ⟨k', by rw [kind?, hs']; rfl, ?_⟩
    cases hr <;> exact ⟨rfl, rfl⟩
  refine ⟨h.scopes, memberScope_congr ht h.contract fun id k hk => ?_, fun id k hk => ?_, h.arrays,
    h.maps⟩
  · obtain ⟨k', hk', -, hrecord⟩ := hkinds id k hk
    exact ⟨k', hk', hrecord⟩
  · obtain ⟨k', hk', htype, -⟩ := hkinds id k hk
    exact ⟨k', hk', htype⟩

theorem keepsTypes_annotated (t : Table) (b y : Assoc NodeId SymbolId) :
    t.KeepsTypes (t.annotated b y) :=
  ⟨rfl, rfl, fun _ k hk => ⟨k, hk, rfl⟩, .refl _, .refl _⟩

variable {t t' t'' : Table}

/-- An array type that has been made is found in every later table. -/
theorem arrayOf_again {element id : SymbolId} (h : (state (·.arrayOf element)).Leads t id t')
    (hk : t'.KeepsTypes t'') : (state (·.arrayOf element)).Leads t'' id t'' := by
  have hfound : t'.arrays.get? element = some id := by
    rcases arrayOf_cases (leads_state.1 h) with ⟨hfound, rfl⟩ | ⟨-, name, -, rfl, rfl⟩
    · exact hfound
    · exact Assoc.get?_insert_self ..
  exact leads_state.2 (by rw [arrayOf, hk.arrays _ _ hfound])

theorem mapOf_again {key value id : SymbolId} (h : (state (·.mapOf key value)).Leads t id t')
    (hk : t'.KeepsTypes t'') : (state (·.mapOf key value)).Leads t'' id t'' := by
  have hfound : t'.maps.get? (key, value) = some id := by
    rcases mapOf_cases (leads_state.1 h) with ⟨hfound, rfl⟩ | ⟨-, keyName, valueName, -, -, rfl, rfl⟩
    · exact hfound
    · exact Assoc.get?_insert_self ..
  exact leads_state.2 (by rw [mapOf, hk.maps _ _ hfound])

theorem typeNamed_valid (ht : t.Valid) {type : TypeName} {found : Option SymbolId}
    (h : (state (·.typeNamed type)).Leads t found t') : t'.Valid := by
  obtain ⟨_, _, hrun, hv, -⟩ := exists_typeNamed ht type
  rw [leads_state, hrun] at h
  cases h
  exact hv

theorem typeNamed_keepsTypes (ht : t.Valid) {type : TypeName} {found : Option SymbolId}
    (h : (state (·.typeNamed type)).Leads t found t') : t.KeepsTypes t' :=
  ((type.state_keeps keptBySettling_retypes).leads h).keepsTypes ht

/-- A written type that has been looked up is found again in every later table, which stays as it
is. -/
theorem typeNamed_again (ht : t.Valid) (ht'' : t''.Valid) {type : TypeName}
    {found : Option SymbolId} (h : (state (·.typeNamed type)).Leads t found t')
    (hk : t'.KeepsTypes t'') : (state (·.typeNamed type)).Leads t'' found t'' := by
  induction type generalizing t t' found with
  | named span name =>
    rw [state_typeNamed_named] at h ⊢
    obtain ⟨scope, _, h₁, k₁⟩ := leads_bind.1 h
    obtain ⟨hscope, rfl⟩ := leads_query.1 h₁
    obtain ⟨r, _, h₂, k₂⟩ := leads_bind.1 k₁
    obtain ⟨hr, rfl⟩ := leads_query.1 h₂
    obtain ⟨scope', hscope', hheld⟩ := exists_memberScope ht
    cases hscope.symm.trans hscope'
    cases r with
    | none =>
      obtain ⟨rfl, rfl⟩ := leads_pure.1 k₂
      exact leads_bind.2 ⟨scope, t'', leads_query.2 ⟨hk.memberScope.trans hscope, rfl⟩,
        leads_bind.2 ⟨none, t'', leads_query.2 ⟨(lookup_congr ht ht'' hk.scopes hheld name).trans hr, rfl⟩,
          leads_pure.2 ⟨rfl, rfl⟩⟩⟩
    | some id =>
      obtain ⟨k, _, h₃, k₃⟩ := leads_bind.1 k₂
      obtain ⟨hkind, rfl⟩ := leads_query.1 h₃
      obtain ⟨rfl, rfl⟩ := leads_pure.1 k₃
      obtain ⟨k', hkind', htype⟩ := hk.kinds id k (kindOf_eq_ok.1 hkind)
      exact leads_bind.2 ⟨scope, t'', leads_query.2 ⟨hk.memberScope.trans hscope, rfl⟩,
        leads_bind.2 ⟨some id, t'', leads_query.2 ⟨(lookup_congr ht ht'' hk.scopes hheld name).trans hr, rfl⟩,
          leads_bind.2 ⟨k', t'', leads_query.2 ⟨kindOf_eq_ok.2 hkind', rfl⟩,
            leads_pure.2 ⟨by rw [htype], rfl⟩⟩⟩⟩
  | array span element ih =>
    rw [state_typeNamed_array] at h ⊢
    obtain ⟨x, t₁, h₁, k₁⟩ := leads_bind.1 h
    cases x with
    | none =>
      obtain ⟨rfl, rfl⟩ := leads_pure.1 k₁
      exact leads_bind.2 ⟨none, t'', ih ht h₁ hk, leads_pure.2 ⟨rfl, rfl⟩⟩
    | some x =>
      obtain ⟨id, _, h₂, k₂⟩ := leads_bind.1 k₁
      obtain ⟨rfl, rfl⟩ := leads_pure.1 k₂
      have hkeeps : t₁.KeepsTypes t' :=
        ((keeps_arrayOf (C := .typing) x).leads h₂).keepsTypes (typeNamed_valid ht h₁)
      exact leads_bind.2 ⟨some x, t'', ih ht h₁ (hkeeps.trans hk),
        leads_bind.2 ⟨id, t'', arrayOf_again h₂ hk, leads_pure.2 ⟨rfl, rfl⟩⟩⟩
  | map span key value ihk ihv =>
    rw [state_typeNamed_map] at h ⊢
    obtain ⟨k, t₁, h₁, k₁⟩ := leads_bind.1 h
    have ht₁ := typeNamed_valid ht h₁
    cases k with
    | none =>
      obtain ⟨rfl, rfl⟩ := leads_pure.1 k₁
      exact leads_bind.2 ⟨none, t'', ihk ht h₁ hk, leads_pure.2 ⟨rfl, rfl⟩⟩
    | some k =>
      obtain ⟨v, t₂, h₂, k₂⟩ := leads_bind.1 k₁
      have hkeeps₂ : t₁.KeepsTypes t₂ := typeNamed_keepsTypes ht₁ h₂
      cases v with
      | none =>
        obtain ⟨rfl, rfl⟩ := leads_pure.1 k₂
        exact leads_bind.2 ⟨some k, t'', ihk ht h₁ (hkeeps₂.trans hk),
          leads_bind.2 ⟨none, t'', ihv ht₁ h₂ hk, leads_pure.2 ⟨rfl, rfl⟩⟩⟩
      | some v =>
        obtain ⟨id, _, h₃, k₃⟩ := leads_bind.1 k₂
        obtain ⟨rfl, rfl⟩ := leads_pure.1 k₃
        have hkeeps₃ : t₂.KeepsTypes t' :=
          ((keeps_mapOf (C := .typing) k v).leads h₃).keepsTypes (typeNamed_valid ht₁ h₂)
        exact leads_bind.2 ⟨some k, t'', ihk ht h₁ (hkeeps₂.trans (hkeeps₃.trans hk)),
          leads_bind.2 ⟨some v, t'', ihv ht₁ h₂ (hkeeps₃.trans hk),
            leads_bind.2 ⟨id, t'', mapOf_again h₃ hk, leads_pure.2 ⟨rfl, rfl⟩⟩⟩⟩
  | void span =>
    rw [leads_state] at h ⊢
    cases h
    rfl

end Table

section
variable {t t' t'' : Table} (ht : t.Valid) (ht'' : t''.Valid)
include ht ht''

/-- A written type is also reported again, if it is unknown. -/
theorem TypeName.resolve_again {type : TypeName} {found : Option SymbolId} {ds : List Diagnostic}
    (h : type.resolve.run t = .ok ⟨found, t', ds⟩) (hk : t'.KeepsTypes t'') :
    type.resolve.run t'' = .ok ⟨found, t'', ds⟩ := by
  obtain ⟨x, t₁, _, _, h₁, k₁, rfl⟩ := run_bind_iff.1 h
  obtain ⟨_, t₂, _, _, h₂, k₂, rfl⟩ := run_bind_iff.1 k₁
  cases (run_reportIf ..).symm.trans h₂
  obtain ⟨rfl, rfl, rfl⟩ := run_pure_iff.1 k₂
  obtain ⟨-, rfl⟩ := run_state_iff.1 h₁
  have hfound := leads_state.1 (Table.typeNamed_again ht ht'' ⟨_, h₁⟩ hk)
  exact run_bind_ok (run_state_iff.2 ⟨hfound, rfl⟩) (run_bind_ok (run_reportIf ..) (run_pure ..))

theorem resolveTypes_again {types : List TypeName} {found : List SymbolId} {ds : List Diagnostic}
    (h : (resolveTypes types).run t = .ok ⟨found, t', ds⟩) (hk : t'.KeepsTypes t'') :
    (resolveTypes types).run t'' = .ok ⟨found, t'', ds⟩ := by
  induction types generalizing t t' found ds with
  | nil =>
    obtain ⟨rfl, -, rfl⟩ := run_pure_iff.1 h
    exact run_pure ..
  | cons type rest ih =>
    obtain ⟨x, t₁, _, _, h₁, k₁, rfl⟩ := run_bind_iff.1 h
    obtain ⟨more, t₂, _, _, h₂, k₂, rfl⟩ := run_bind_iff.1 k₁
    obtain ⟨rfl, rfl, rfl⟩ := run_pure_iff.1 k₂
    have ht₁ : t₁.Valid := ((type.resolve_safe ht).of_run h₁).1
    have hrest : t₁.KeepsTypes t' :=
      ((resolveTypes_keeps keptBySettling_retypes rest).run h₂).1.keepsTypes ht₁
    exact run_bind_ok (type.resolve_again ht ht'' h₁ (hrest.trans hk))
      (run_bind_ok (ih ht₁ h₂ hk) (run_pure ..))

end
end ContractLang
