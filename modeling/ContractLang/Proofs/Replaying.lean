import Mathlib.Control.Traversable.Basic
import Mathlib.Data.List.Forall2
import ContractLang.Syntax.Build
import ContractLang.Proofs.Gating
import ContractLang.Proofs.Known
import ContractLang.Proofs.Resolving
/-!
Running phases again. After all phases have run on a table, whatever they reported, each of those
after the first finds everything there that it would add: it leaves the table as it is and reports
what it reported before. So any number of further runs does the same, in any order.
-/
namespace ContractLang

open Pass Table

namespace Table
variable {t : Table}

theorem amend_eq_self {id : SymbolId} {f : SymbolKind → SymbolKind}
    (h : ∀ k, t.kind? id = some k → f k = k) : t.amend id f = t := by
  have hsymbols : (t.amend id f).symbols = t.symbols := by
    refine List.ext_getElem? fun i => ?_
    rw [amend, List.getElem?_modify]
    cases hs : t.symbols[i]? with
    | none => rfl
    | some s =>
      rw [Option.map_eq_map, Option.map_some]
      split
      · rename_i hi
        have hk : f s.kind = s.kind := h s.kind (by rw [kind?, hi, hs]; rfl)
        exact congrArg (fun k => some { s with kind := k }) hk
      · rfl
  exact congrArg (fun symbols => { t with symbols := symbols }) hsymbols

theorem withValueType_again {node : NodeId} {id type : SymbolId} (hid : t.declaredBy? node = some id)
    (htype : t.declaredType node = some type) : t.amend id (·.withValueType type) = t := by
  refine amend_eq_self fun k hk => ?_
  rw [declaredType, hid, Option.bind_some, valueType, hk, Option.bind_some] at htype
  cases k <;> cases htype <;> rfl

theorem setReturns_again {id : SymbolId} {info : FunctionRecord} (h : t.functionAt id = some info) :
    t.amend id (·.mapFunction (·.setReturns info.returns)) = t := by
  refine amend_eq_self fun k hk => ?_
  rw [functionAt, hk, Option.bind_some] at h
  cases k <;> cases h
  rfl

end Table

/-! ### Resolving types -/

namespace ContractDecl

/-- A later table, which may also have other notes on its nodes: all that resolving types has found
or made is there still. -/
structure Precedes (c : ContractDecl) (t t' : Table) : Prop where
  valid : t'.Valid
  keeps : t.KeepsTypes t'
  declared : t'.declared = t.declared
  carries : ∀ a ∈ c.annotations, c.Carries t a → c.Carries t' a
  returns : ∀ f ∈ c.callables, c.Returns t f → c.Returns t' f

variable {c : ContractDecl} {t t' t'' : Table}

namespace Precedes

theorem trans (h₁ : c.Precedes t t') (h₂ : c.Precedes t' t'') : c.Precedes t t'' where
  valid := h₂.valid
  keeps := h₁.keeps.trans h₂.keeps
  declared := h₂.declared.trans h₁.declared
  carries a ha hc := h₂.carries a ha (h₁.carries a ha hc)
  returns f hf hr := h₂.returns f hf (h₁.returns f hf hr)

theorem declaredBy?_eq (h : c.Precedes t t') (node : NodeId) : t'.declaredBy? node = t.declaredBy? node :=
  congrArg (Assoc.get? · node) h.declared

theorem typeOf?_eq_some (h : c.Precedes t t') {type : Ty} {id : SymbolId}
    (hid : t.typeOf? type = some id) : t'.typeOf? type = some id :=
  typeOf?_mono h.declared h.keeps.arrays h.keeps.maps hid

end Precedes

theorem Advances.precedes (h : c.Advances t t') (ht : t.Valid) : c.Precedes t t' :=
  ⟨h.founded.valid, h.retypes.keepsTypes ht, h.retypes.declared, h.carries, h.returns⟩

theorem precedes_annotated {b y : Assoc NodeId SymbolId} (hv : (t.annotated b y).Valid) :
    c.Precedes t (t.annotated b y) := by
  have hkeeps := t.keepsTypes_annotated b y
  have htype : ∀ type id, t.typeOf? type = some id → (t.annotated b y).typeOf? type = some id :=
    fun _ _ => typeOf?_mono (show (t.annotated b y).declared = t.declared from rfl) hkeeps.arrays
      hkeeps.maps
  refine ⟨hv, hkeeps, rfl, ?_, ?_⟩
  · rintro a - ⟨type, id, hdenote, hid, hdeclared⟩
    exact ⟨type, id, hdenote, htype type id hid, hdeclared⟩
  · rintro f - ⟨info, hinfo, hreturns⟩
    exact ⟨info, hinfo, hreturns.imp htype⟩

/-- After the step has been taken here it does nothing new in any later table: there it gives and
reports the same again. -/
def Repeats (c : ContractDecl) {α : Type} (x : Pass α) (t : Table) : Prop :=
  ∀ a t' ds, x.run t = .ok ⟨a, t', ds⟩ →
    c.Advances t t' ∧ ∀ t'', c.Precedes t' t'' → x.run t'' = .ok ⟨a, t'', ds⟩

namespace Repeats
variable {α β : Type}

theorem bind {x : Pass α} {f : α → Pass β} (hx : c.Repeats x t)
    (hf : ∀ a t' ds, x.run t = .ok ⟨a, t', ds⟩ → c.Advances t t' → c.Repeats (f a) t') :
    c.Repeats (x >>= f) t := by
  intro b t₂ _ hrun
  obtain ⟨a, t₁, ds, es, h₁, h₂, rfl⟩ := run_bind_iff.1 hrun
  obtain ⟨ha₁, again₁⟩ := hx a t₁ ds h₁
  obtain ⟨ha₂, again₂⟩ := hf a t₁ ds h₁ ha₁ b t₂ es h₂
  have hp := ha₂.precedes ha₁.founded.valid
  exact ⟨ha₁.trans ha₂, fun t'' h => run_bind_ok (again₁ t'' (hp.trans h)) (again₂ t'' h)⟩

/-- A step that neither depends on the table nor changes it. -/
theorem static (h : c.Founded t) {x : Pass α} {a : α} {ds : List Diagnostic}
    (hx : ∀ t, x.run t = .ok ⟨a, t, ds⟩) : c.Repeats x t := by
  intro b t' es hrun
  cases (hx t).symm.trans hrun
  exact ⟨.refl h, fun t'' _ => hx t''⟩

theorem declaredBy (h : c.Founded t) (node : NodeId) :
    c.Repeats (view (·.declaredBy? node)) t := by
  intro b t' es hrun
  obtain ⟨rfl, rfl, rfl⟩ := run_view_iff.1 hrun
  refine ⟨.refl h, fun t'' hp => ?_⟩
  rw [run_view, hp.declaredBy?_eq]

theorem forM {xs : List α} {step : α → Pass Unit}
    (hstep : ∀ x ∈ xs, ∀ t, c.Founded t → c.Repeats (step x) t) (h : c.Founded t) :
    c.Repeats (xs.forM step) t := by
  induction xs generalizing t with
  | nil => exact .static h fun t => run_pure () t
  | cons x rest ih =>
    exact .bind (hstep x (.head _) t h) fun _ _ _ _ ha =>
      ih (fun y hy => hstep y (.tail _ hy)) ha.founded

end Repeats
end ContractDecl

section
variable {c : ContractDecl} {t : Table}

/-- A value that has its type is given it without effect. -/
theorem ContractDecl.Carries.run_setValueType {node : NodeId} {type : TypeName}
    (h : c.Carries t (node, type)) (ht : t.Valid) {id symbol : SymbolId}
    (hid : t.declaredBy? node = some id) {m : Ty} (hdenote : c.env.denote type = some m)
    (hsymbol : t.typeOf? m = some symbol) :
    (update (·.setValueType id symbol)).run t = .ok ⟨(), t, []⟩ := by
  obtain ⟨m', symbol', hdenote', hsymbol', hdeclared⟩ := h
  cases hdenote.symm.trans hdenote'
  cases hsymbol.symm.trans hsymbol'
  refine run_update_iff.2 ⟨updateKind_eq_ok.2 ⟨(ht.declared node id hid).2, ?_⟩, rfl⟩
  exact (withValueType_again hid hdeclared).symm

theorem settleType_repeats (hn : c.declarationIds.Nodup) (h : c.Founded t) {node : NodeId}
    {type : TypeName} (ha : (node, type) ∈ c.annotations) : c.Repeats (settleType node type) t := by
  intro _ t' ds hrun
  obtain ⟨_, hrun', hadvances, hcarries⟩ := settleType_run hn h ha
  cases hrun'.symm.trans hrun
  refine ⟨hadvances, fun t'' hp => ?_⟩
  obtain ⟨id, _, hid, -⟩ := h.awaits ha
  have hid'' : t''.declaredBy? node = some id :=
    (((hadvances.precedes h.valid).trans hp).declaredBy?_eq node).trans hid
  -- The first run is taken apart, and each of its steps is taken again in the later table.
  obtain ⟨_, _, _, _, h₁, k₁, hds⟩ := run_bind_iff.1 hrun
  obtain ⟨rfl, rfl, rfl⟩ := run_view_iff.1 h₁
  rw [hds]
  refine run_bind_ok (run_view ..) ?_
  rw [hid] at k₁
  rw [hid'']
  dsimp only at k₁ ⊢
  by_cases hvoid : type.isVoid = true
  · rw [if_pos hvoid] at k₁ ⊢
    obtain ⟨-, rfl⟩ := run_report_iff.1 k₁
    exact run_report ..
  · rw [if_neg hvoid] at k₁ ⊢
    obtain ⟨found, s, _, _, h₂, k₂, rfl⟩ := run_bind_iff.1 k₁
    obtain ⟨_, h₂', hs, -⟩ := type.resolve_run h
    cases h₂'.symm.trans h₂
    cases hfound : (c.env.denote type).bind s.typeOf? with
    | none =>
      rw [hfound] at h₂ k₂
      obtain ⟨-, rfl, rfl⟩ := run_pure_iff.1 k₂
      exact run_bind_ok (type.resolve_again h.valid hp.valid h₂ hp.keeps) (run_pure ..)
    | some symbol =>
      -- The symbol that is found again is the one that the value has.
      rw [hfound] at h₂ k₂
      obtain ⟨m, hdenote, hsymbol⟩ := Option.bind_eq_some_iff.1 hfound
      have hquiet : type.valueFault c.env = [] := TypeName.valueFault_eq_nil.2 (by rw [hdenote]; rfl)
      have hretypes : s.Retypes t' := ((keeps_setValueType (C := .typing) id symbol).run k₂).1
      have hk := (hretypes.keepsTypes hs.founded.valid).trans hp.keeps
      have hset := (hp.carries _ ha (hcarries hquiet)).run_setValueType hp.valid hid'' hdenote
        (hp.typeOf?_eq_some (hretypes.typeOf?_eq_some hsymbol))
      obtain ⟨-, rfl⟩ := run_update_iff.1 k₂
      exact run_bind_ok (type.resolve_again h.valid hp.valid h₂ hk) hset

/-- A callable that returns its types is made to return them without effect. -/
theorem ContractDecl.Returns.run_setReturns {f : Callable} (h : c.Returns t f) (ht : t.Valid)
    {id : SymbolId} (hid : t.declaredBy? f.node.id = some id) {types : List SymbolId}
    (htypes : List.Forall₂ (fun type id => t.typeOf? type = some id) (c.env.returned f.returns) types) :
    (update (·.updateFunction id (·.setReturns types))).run t = .ok ⟨(), t, []⟩ := by
  obtain ⟨info, hinfo, hreturns⟩ := h
  have hunique : Relator.RightUnique fun type id => t.typeOf? type = some id := by
    intro type a b ha hb
    exact Option.some.inj (ha.symm.trans hb)
  obtain rfl := List.right_unique_forall₂' hunique hreturns htypes
  have hfunction : t.functionAt id = some info := by
    rw [functionOf, hid, Option.bind_some] at hinfo
    exact hinfo
  refine run_update_iff.2 ⟨updateKind_eq_ok.2 ⟨(ht.declared _ id hid).2, ?_⟩, rfl⟩
  exact (setReturns_again hfunction).symm

theorem Callable.settleReturns_repeats (hn : c.declarationIds.Nodup) (h : c.Founded t) {f : Callable}
    (hf : f ∈ c.callables) {id : SymbolId} (hid : t.declaredBy? f.node.id = some id) :
    c.Repeats (f.settleReturns id) t := by
  intro _ t' ds hrun
  obtain ⟨_, hrun', hadvances, hreturns⟩ := Callable.settleReturns_run hn h hf hid
  cases hrun'.symm.trans hrun
  refine ⟨hadvances, fun t'' hp => ?_⟩
  have hid'' : t''.declaredBy? f.node.id = some id :=
    (((hadvances.precedes h.valid).trans hp).declaredBy?_eq _).trans hid
  obtain ⟨_, t₁, _, _, h₁, k₁, hds⟩ := run_bind_iff.1 hrun
  cases (run_reportIf ..).symm.trans h₁
  obtain ⟨_, t₂, _, _, h₂, k₂, rfl⟩ := run_bind_iff.1 k₁
  cases (f.checkVoid_run _).symm.trans h₂
  obtain ⟨types, s, _, _, h₃, k₃, rfl⟩ := run_bind_iff.1 k₂
  obtain ⟨_, _, h₃', hs, htypes⟩ := ContractLang.resolveTypes_run h (f.returns.filter (!·.isVoid))
  cases h₃'.symm.trans h₃
  have hretypes : s.Retypes t' := ((keeps_setReturns (C := .typing) id types).run k₃).1
  have hk := (hretypes.keepsTypes hs.founded.valid).trans hp.keeps
  have hset := (hp.returns f hf hreturns).run_setReturns hp.valid hid''
    (htypes.imp fun _ _ hid => hp.typeOf?_eq_some (hretypes.typeOf?_eq_some hid))
  obtain ⟨-, rfl⟩ := run_update_iff.1 k₃
  rw [hds]
  exact run_bind_ok (run_reportIf ..) (run_bind_ok (f.checkVoid_run _)
    (run_bind_ok (ContractLang.resolveTypes_again h.valid hp.valid h₃ hk) hset))

theorem Callable.resolveTypes_repeats (hn : c.declarationIds.Nodup) (h : c.Founded t) {f : Callable}
    (hf : f ∈ c.callables) : c.Repeats f.resolveTypes t := by
  have hvars : ∀ v ∈ f.vars, ∀ t, c.Founded t → c.Repeats v.resolveType t := fun v hv _ h =>
    settleType_repeats hn h
      (List.mem_append_right _ (List.mem_flatMap.2 ⟨f, hf, List.mem_map.2 ⟨v, hv, rfl⟩⟩))
  refine .bind (.declaredBy h _) fun found t₀ _ hview _ => ?_
  obtain ⟨rfl, rfl, -⟩ := run_view_iff.1 hview
  cases hid : t₀.declaredBy? f.node.id with
  | none => exact .static h fun t => run_pure () t
  | some id =>
    refine .bind (.forM (fun v hv => hvars v (List.mem_append_left _ hv)) h) fun _ _ _ _ ha₁ => ?_
    refine .bind (Callable.settleReturns_repeats hn ha₁.founded hf ?_) fun _ _ _ _ ha₂ => ?_
    · exact ((ha₁.precedes h.valid).declaredBy?_eq _).trans hid
    · rw [resolveTypesIn_eq]
      exact .forM (fun v hv => hvars v (List.mem_append_right _ hv)) ha₂.founded

/-- Types can be resolved again, with the same reports and to no effect. -/
theorem ContractDecl.resolveTypes_repeats (hn : c.declarationIds.Nodup) (h : c.Founded t) :
    c.Repeats c.resolveTypes t := by
  have hfields : ∀ f ∈ c.allFields, ∀ t, c.Founded t → c.Repeats f.resolveType t := fun f hf _ h =>
    settleType_repeats hn h (List.mem_append_left _ (List.mem_map.2 ⟨f, hf, rfl⟩))
  refine .bind (.forM (fun f hf => hfields f (List.mem_append_left _ hf)) h) fun _ _ _ _ ha₁ => ?_
  refine .bind (.forM (fun s hs _ h => .forM (fun f hf => hfields f ?_) h) ha₁.founded)
    fun _ _ _ _ ha₂ => ?_
  · exact List.mem_append_right _ (List.mem_flatMap.2 ⟨s, hs, hf⟩)
  · exact .forM (fun f hf _ h => Callable.resolveTypes_repeats hn h hf) ha₂.founded

end

/-! ### Binding names and checking types -/

theorem Binds.run_noted {t : Table} {α : Type} {x : Pass α} {a : α} {us : List (Site × Use)}
    (h : Binds t x a us) {b y : Assoc NodeId SymbolId}
    (hb : ∀ p ∈ t.boundPairs us, b.get? p.1 = some p.2)
    (hy : ∀ p ∈ t.typedPairs us, y.get? p.1 = some p.2) :
    x.run (t.annotated b y) = .ok ⟨a, t.annotated b y, us.flatMap fun p => p.2.fault t p.1⟩ := by
  rw [h b y, Assoc.insertAll_eq_self hb, Assoc.insertAll_eq_self hy]

theorem Checks.run_noted {t : Table} {ds : List NodeId} {α : Type} {x : Pass α} {a : α}
    {es : List Expr} {r : List Diagnostic} (h : Checks t ds x a es r) {y : Assoc NodeId SymbolId}
    (hds : ∀ n ∈ ds, y.get? n = t.types.get? n) (hy : ∀ p ∈ t.typings es, y.get? p.1 = some p.2) :
    x.run (t.annotated t.bindings y) = .ok ⟨a, t.annotated t.bindings y, r⟩ := by
  rw [h.run y hds, Assoc.insertAll_eq_self hy]

/-- Names are bound and types are checked again to no effect: each finds its own notes, and the
other has not written over them. -/
theorem ContractDecl.notes_again {c : ContractDecl} {t t₁ t₂ : Table} (hn : c.nodeIds.Nodup)
    (h : c.Founded t) {ds es : List Diagnostic} (hbind : c.bindNames.run t = .ok ⟨(), t₁, ds⟩)
    (hcheck : c.check.run t₁ = .ok ⟨(), t₂, es⟩) :
    (∃ b y, t₂ = t.annotated b y) ∧ c.bindNames.run t₂ = .ok ⟨(), t₂, ds⟩ ∧
      c.check.run t₂ = .ok ⟨(), t₂, es⟩ := by
  have hbinds := c.bindNames_binds h.valid h.memberScope (nodup_useIds hn)
  have hv₁ : t₁.Valid := ((c.bindNames_safe h.valid).of_run hbind).1
  have hchecks := c.check_checks hv₁ fun e he => expr_not_use hn he
  have hids : ((c.placed t .members).map (·.2.id)).Nodup := h.placed_ids ▸ nodup_useIds hn
  have huses : ∀ p ∈ t.typedPairs (c.placed t .members), p.1 ∈ c.useIds := by
    intro p hp
    rw [useIds, ← h.placed_ids]
    exact (t.keys_typedPairs _).subset (List.mem_map_of_mem hp)
  -- Checking notes nothing at a use.
  have hkept : ∀ m : Assoc NodeId SymbolId, ∀ n ∈ c.useIds,
      (m.insertAll (t₁.typings c.exprs)).get? n = m.get? n := by
    intro m n huse
    refine Assoc.get?_insertAll_of_not_mem fun hmem => ?_
    obtain ⟨e, he, rfl⟩ := mem_typings_keys hmem
    exact expr_not_use hn he huse
  cases (hbinds t.bindings t.types).symm.trans hbind
  cases (hchecks.run _ fun _ _ => rfl).symm.trans hcheck
  refine ⟨⟨_, _, rfl⟩, hbinds.run_noted ?_ ?_, hchecks.run_noted (hkept _) ?_⟩
  · exact fun p hp => Assoc.get?_insertAll_of_mem (hids.sublist (t.keys_boundPairs _)) hp
  · intro p hp
    have hown := Assoc.get?_insertAll_of_mem (m := t.types) (hids.sublist (t.keys_typedPairs _)) hp
    exact (hkept _ p.1 (huses p hp)).trans hown
  · exact fun p hp => Assoc.get?_insertAll_of_mem ((nodup_exprIds hn).sublist (keys_sublist ..)) hp

/-! ### Whole programs -/

/-- Phases that each leave a table as it is do so one after the other. -/
theorem Program.stages_still {p : Program} {t : Table} {stage : Phase → Analysis}
    (hstage : ∀ k, (stage k).lastPhase = k ∧ (stage k).Faithful) {steps : List Phase}
    (h : ∀ k ∈ steps, (k.pass p).run t = .ok ⟨(), t, (stage k).diagnostics⟩) :
    p.stages steps t =
      .ok (steps.map fun k => ⟨k, t, (stage k).diagnostics, (stage k).failedPhase⟩) := by
  induction steps with
  | nil => rfl
  | cons k rest ih =>
    obtain ⟨hphase, hfaithful⟩ := hstage k
    rw [Analysis.Faithful, hphase] at hfaithful
    exact stages_cons.2 ⟨⟨k, t, _, _⟩, _, Phase.analyze_eq_ok.2 ⟨⟨rfl, hfaithful⟩, h k (.head _)⟩,
      ih fun j hj => h j (.tail _ hj), rfl⟩

/-- The table with which the four phases end is left as it is by each of the later three. -/
theorem Program.later_again {p : Program} (hp : p.Distinct) {t₁ t₂ t₃ t₄ : Table}
    {d₁ d₂ d₃ d₄ : List Diagnostic} (h₁ : p.declareSymbols.run .initial = .ok ⟨(), t₁, d₁⟩)
    (h₂ : p.resolveTypes.run t₁ = .ok ⟨(), t₂, d₂⟩) (h₃ : p.bindNames.run t₂ = .ok ⟨(), t₃, d₃⟩)
    (h₄ : p.check.run t₃ = .ok ⟨(), t₄, d₄⟩) (hv : t₄.Valid) :
    p.resolveTypes.run t₄ = .ok ⟨(), t₄, d₂⟩ ∧ p.bindNames.run t₄ = .ok ⟨(), t₄, d₃⟩ ∧
      p.check.run t₄ = .ok ⟨(), t₄, d₄⟩ := by
  unfold Program.declareSymbols at h₁
  unfold Program.resolveTypes at h₂ ⊢
  unfold Program.bindNames at h₃ ⊢
  unfold Program.check at h₄ ⊢
  cases hc : p.contract with
  | none =>
    simp only [hc] at h₂ h₃ h₄ ⊢
    obtain ⟨-, rfl, rfl⟩ := run_pure_iff.1 h₂
    obtain ⟨-, rfl, rfl⟩ := run_pure_iff.1 h₃
    obtain ⟨-, rfl, rfl⟩ := run_pure_iff.1 h₄
    exact ⟨run_pure .., run_pure .., run_pure ..⟩
  | some c =>
    simp only [hc] at h₁ h₂ h₃ h₄ ⊢
    have hn := hp.nodup hc
    have hdn := ContractDecl.nodup_declarationIds hn
    have hfounded : c.Founded t₁ := ContractDecl.founded_of_declares
      ((c.declare_safe valid_initial).of_run h₁).1 hdn (ContractDecl.declare_inv h₁).1
    obtain ⟨hadvances, hagain⟩ := ContractDecl.resolveTypes_repeats hdn hfounded _ _ _ h₂
    obtain ⟨⟨b, y, rfl⟩, hbind, hcheck⟩ := ContractDecl.notes_again hn hadvances.founded h₃ h₄
    exact ⟨hagain _ (ContractDecl.precedes_annotated hv), hbind, hcheck⟩

/-- After all phases have run once, those behind the first can run again, as often as one likes and
in any order: the table stays as it is, and each phase reports what it reported the first time. -/
theorem Program.stages_again {p : Program} (hp : p.Distinct) : ∃ stage : Phase → Analysis,
    p.stages Phase.all .initial = .ok (Phase.all.map stage) ∧
    ∀ steps : List Phase, .symbolConstruction ∉ steps →
      p.stages steps (stage .typeChecking).table =
        .ok (steps.map fun k =>
          ⟨k, (stage .typeChecking).table, (stage k).diagnostics, (stage k).failedPhase⟩) := by
  obtain ⟨stage, hstages, hstage⟩ := p.exists_stage
  have hrun := fun k => (hstage k).2.2
  obtain ⟨htypes, hnames, hcheck⟩ := Program.later_again hp (hrun .symbolConstruction)
    (hrun .typeResolution) (hrun .designatorResolution) (hrun .typeChecking) (hstage .typeChecking).2.1
  refine ⟨stage, hstages, fun steps hsteps => ?_⟩
  refine stages_still (fun k => (hstage k).1) fun k hk => ?_
  cases k with
  | symbolConstruction => exact absurd hk hsteps
  | typeResolution => exact htypes
  | designatorResolution => exact hnames
  | typeChecking => exact hcheck

section
open Build

/-- Something is wrong for each phase, and types are made that are not declared. -/
def misused : Program := program (some (Id.run (StateT.run' (do
  let x ← field (← namedType "int") "x" none
  let again ← field (← arrayType (← namedType "bool")) "x" none
  let xs ← field (← arrayType (← namedType "int")) "xs" none
  let lost ← field (← namedType "Nowhere") "lost" none
  let first ← assign (← name "y") (← load (← name "x"))
  let second ← assign (← index (← name "xs") (← literal (.int 0))) (← literal (.bool true))
  let f ← function "f" [] [] [first, second]
  return { ← contract "C" with fields := [x, again, xs, lost], functions := [f] }) 0)))

end

theorem misused_again : misused.Distinct ∧ ∃ stage : Phase → Analysis,
    misused.stages Phase.all .initial = .ok (Phase.all.map stage) ∧
    (∀ steps : List Phase, .symbolConstruction ∉ steps →
      misused.stages steps (stage .typeChecking).table =
        .ok (steps.map fun k =>
          ⟨k, (stage .typeChecking).table, (stage k).diagnostics, (stage k).failedPhase⟩)) ∧
    ∀ k, (stage k).diagnostics ≠ [] := by
  have hd : misused.Distinct := by decide +kernel
  have hq : (misused.stages Phase.all .initial).toOption.any (·.all (!·.diagnostics.isEmpty)) = true := by
    decide +kernel
  obtain ⟨stage, hstages, hagain⟩ := Program.stages_again hd
  refine ⟨hd, stage, hstages, hagain, fun k => ?_⟩
  rw [hstages] at hq
  have hk : stage k ∈ Phase.all.map stage := List.mem_map_of_mem (by cases k <;> decide)
  have hreports : (!(stage k).diagnostics.isEmpty) = true := List.all_eq_true.1 hq _ hk
  intro hnil
  simp [hnil] at hreports

end ContractLang
