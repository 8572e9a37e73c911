import Mathlib.Data.List.Forall2
import ContractLang.Proofs.Bound
/-!
Each failure to bind a designator is reported once, where it begins. A designator that is built on
another one is not bound if that one is not, but then nothing is said of it; otherwise each designator
that is left without a binding has a diagnostic of its own, in the order in which they are bound.
-/
namespace ContractLang

open Table

namespace Designator

/-- What a designator is built on. -/
def base? : Designator → Option Designator
  | .name .. => none
  | .index _ base _ | .member _ base _ => some base

/-- Nothing inside the designator keeps it from being bound, and yet it is not. -/
def isRootCause (t : Table) (d : Designator) : Bool :=
  (t.boundTo? d.id).isNone && d.base?.all fun base => (t.boundTo? base.id).isSome

theorem isRootCause_name (t : Table) (node : Node) (x : String) :
    (Designator.name node x).isRootCause t = (t.boundTo? node.id).isNone := Bool.and_true _

/-- What a diagnostic says of a designator that cannot be bound. -/
def BlamedBy (t : Table) (report : Diagnostic) : Designator → Prop
  | .name node x => report.span = node.span ∧
      (report.cause = .undefinedName x ∨ report.cause = .hiddenLocal x)
  | .index node base _ => ∃ type, t.typeAt? base.id = some type ∧
      report = ⟨.notIndexable base.text (t.shownName type), node.span⟩
  | .member _ base m => ∃ type, t.typeAt? base.id = some type ∧
      report = ⟨.noMember (t.shownName type) m.text, m.span⟩

end Designator

/-- Some items give one result each and the others none. -/
theorem forall₂_filter_flatMap {α β : Type} {R : α → β → Prop} {p : α → Bool} {f : α → List β}
    {xs : List α} (h : ∀ x ∈ xs, (p x = true ∧ ∃ y, f x = [y] ∧ R x y) ∨ (p x = false ∧ f x = [])) :
    List.Forall₂ R (xs.filter p) (xs.flatMap f) := by
  induction xs with
  | nil => exact .nil
  | cons x rest ih =>
    have hrest := ih fun y hy => h y (.tail _ hy)
    rw [List.flatMap_cons]
    rcases h x (.head _) with ⟨hp, y, hf, hr⟩ | ⟨hp, hf⟩
    · rw [List.filter_cons_of_pos hp, hf]
      exact .cons hr hrest
    · rw [List.filter_cons_of_neg (by simp [hp]), hf]
      exact hrest

theorem Table.referent_error {t : Table} {site : Site} {x : String} {cause : Cause}
    (h : t.referent site x = .error cause) : cause = .undefinedName x ∨ cause = .hiddenLocal x := by
  unfold Table.referent at h
  split at h
  · cases h
    exact .inl rfl
  · split at h
    · cases h
      exact .inl rfl
    · split at h
      · cases h
      · split at h
        · cases h
          exact .inr rfl
        · cases h

namespace ContractDecl.Prepared
variable {c : ContractDecl} {t : Table}

theorem placed_base (h : c.Prepared t) {site : Site} {d base : Designator}
    (hd : (site, .value d) ∈ c.placed t .members) (hb : d.base? = some base) :
    (site, .value base) ∈ c.placed t .members := by
  refine h.placed_of_value hd ?_
  cases d with
  | name node x => cases hb
  | index node b position =>
    cases hb
    simp [Designator.uses, base.mem_uses]
  | member node b m =>
    cases hb
    simp [Designator.uses, base.mem_uses]

/-- A value is bound exactly if it has a type. -/
theorem bound_iff_typed (h : c.Prepared t) {site : Site} {d : Designator}
    (hd : (site, .value d) ∈ c.placed t .members) :
    ((c.boundTable t).boundTo? d.id).isSome ↔ (d.typeFrom t site).isSome := by
  rw [show (c.boundTable t).boundTo? d.id = d.referent t site from h.boundTo?_eq hd]
  constructor
  · intro hsome
    obtain ⟨id, hid⟩ := Option.isSome_iff_exists.1 hsome
    cases d with
    | name node x =>
      have hr : t.referent site x = .ok id := by
        cases hr : t.referent site x with
        | error cause =>
          rw [Designator.referent, hr] at hid
          cases hid
        | ok j =>
          rw [Designator.referent, hr] at hid
          cases hid
          rfl
      obtain ⟨type, htype⟩ := h.exists_type hd hr
      rw [Designator.typeFrom, hr]
      exact Option.isSome_iff_exists.2 ⟨type, htype⟩
    | index node base position =>
      obtain ⟨type, htype, -⟩ := Option.bind_eq_some_iff.1 hid
      rw [htype]
      rfl
    | member node base m =>
      obtain ⟨type, htype, -⟩ := Option.map_eq_some_iff.1 hid
      rw [htype]
      rfl
  · intro hsome
    obtain ⟨type, htype⟩ := Option.isSome_iff_exists.1 hsome
    exact Option.isSome_iff_exists.2 (Designator.exists_referent htype)

/-- What is built on a designator without a binding has none either, and no type. -/
theorem unbound_of_base (h : c.Prepared t) {q : Site × Use} (hq : q ∈ c.placed t .members)
    {base : Designator} (hb : q.2.designator.base? = some base)
    (hnone : (c.boundTable t).boundTo? base.id = none) :
    (c.boundTable t).boundTo? q.2.id = none ∧ (c.boundTable t).typeAt? q.2.id = none := by
  obtain ⟨site, u⟩ := q
  cases u with
  | callee node x => cases hb
  | value d =>
    have huntyped : base.typeFrom t site = none := by
      have hiff := h.bound_iff_typed (h.placed_base hq hb)
      rw [hnone] at hiff
      exact Option.not_isSome_iff_eq_none.1 (mt hiff.2 Bool.false_ne_true)
    have htype : d.typeFrom t site = none := by
      cases d with
      | name node x => cases hb
      | index node b position =>
        cases hb
        rw [Designator.typeFrom, huntyped]
        rfl
      | member node b m =>
        cases hb
        rw [Designator.typeFrom, huntyped]
        rfl
    refine ⟨?_, (h.typeAt?_eq hq).trans htype⟩
    have hiff := h.bound_iff_typed hq
    rw [htype] at hiff
    exact Option.not_isSome_iff_eq_none.1 (mt hiff.1 Bool.false_ne_true)

theorem isRootCause_eq (h : c.Prepared t) {site : Site} {d base : Designator}
    (hd : (site, .value d) ∈ c.placed t .members) (hb : d.base? = some base) :
    d.isRootCause (c.boundTable t) =
      ((d.typeFrom t site).isNone && (base.typeFrom t site).isSome) := by
  have hown : ((c.boundTable t).boundTo? d.id).isSome = (d.typeFrom t site).isSome :=
    Bool.eq_iff_iff.2 (h.bound_iff_typed hd)
  have hbase : ((c.boundTable t).boundTo? base.id).isSome = (base.typeFrom t site).isSome :=
    Bool.eq_iff_iff.2 (h.bound_iff_typed (h.placed_base hd hb))
  rw [Designator.isRootCause, hb, Option.all_some, hbase, ← Option.not_isSome, hown, Option.not_isSome]

/-- A designator that is the root of a failure is reported once, and every other one is not. -/
theorem fault_cases (h : c.Prepared t) {q : Site × Use} (hq : q ∈ c.placed t .members) :
    (q.2.designator.isRootCause (c.boundTable t) = true ∧
        ∃ d, q.2.fault t q.1 = [d] ∧ q.2.designator.BlamedBy (c.boundTable t) d) ∨
      (q.2.designator.isRootCause (c.boundTable t) = false ∧ q.2.fault t q.1 = []) := by
  obtain ⟨site, u⟩ := q
  cases u with
  | callee node x =>
    have hroot : (Designator.name node x).isRootCause (c.boundTable t) = (t.callee site x).isNone :=
      (Designator.isRootCause_name ..).trans (congrArg Option.isNone (h.boundTo?_eq hq))
    simp only [Use.designator, Use.fault, hroot]
    cases t.callee site x with
    | none => exact .inl ⟨rfl, _, rfl, rfl, .inl rfl⟩
    | some id => exact .inr ⟨rfl, rfl⟩
  | value d =>
    cases d with
    | name node x =>
      have hroot : (Designator.name node x).isRootCause (c.boundTable t) =
          (t.referent site x).toOption.isNone :=
        (Designator.isRootCause_name ..).trans (congrArg Option.isNone (h.boundTo?_eq hq))
      simp only [Use.designator, Use.fault, Designator.fault, Table.nameFault, hroot]
      cases hr : t.referent site x with
      | error cause => exact .inl ⟨rfl, _, rfl, rfl, referent_error hr⟩
      | ok id => exact .inr ⟨rfl, rfl⟩
    | index node base position =>
      have hroot := h.isRootCause_eq hq rfl
      have htype := h.typeAt?_eq (h.placed_base hq rfl)
      simp only [Use.designator, Use.fault, Designator.fault, hroot, Designator.typeFrom]
      cases hbase : base.typeFrom t site with
      | none => exact .inr ⟨rfl, rfl⟩
      | some type =>
        simp only [Option.bind_some]
        cases t.elementType type with
        | none => exact .inl ⟨rfl, _, rfl, type, htype.trans hbase, rfl⟩
        | some element => exact .inr ⟨rfl, rfl⟩
    | member node base m =>
      have hroot := h.isRootCause_eq hq rfl
      have htype := h.typeAt?_eq (h.placed_base hq rfl)
      simp only [Use.designator, Use.fault, Designator.fault, hroot, Designator.typeFrom]
      cases hbase : base.typeFrom t site with
      | none => exact .inr ⟨rfl, rfl⟩
      | some type =>
        simp only [Option.bind_some]
        by_cases hlength : (t.elementType type).isSome ∧ m.text = lengthMember
        · rw [if_pos hlength, if_pos hlength]
          exact .inr ⟨rfl, rfl⟩
        · rw [if_neg hlength, if_neg hlength]
          exact .inl ⟨rfl, _, rfl, type, htype.trans hbase, rfl⟩

theorem blamed (h : c.Prepared t) : List.Forall₂
    (fun (w : Use) d => w.designator.BlamedBy (c.boundTable t) d)
    (c.uses.filter fun w => w.designator.isRootCause (c.boundTable t))
    ((c.placed t .members).flatMap fun q => q.2.fault t q.1) := by
  rw [← h.placed_uses, List.filter_map, List.forall₂_map_left_iff]
  exact forall₂_filter_flatMap fun q hq => h.fault_cases hq

end ContractDecl.Prepared

/-- One diagnostic for each root cause. What cannot be bound although nothing inside it fails is
reported, in order; what is built on something that is not bound has no binding and no type. -/
theorem Program.bindNames_rootCauses {p : Program} {t : Table} (hp : p.Distinct)
    (h : p.quietTable? [.symbolConstruction, .typeResolution] .initial = some t) :
    ∃ c u, p.contract = some c ∧ p.bindNames.run t = .ok u ∧
      List.Forall₂ (fun (w : Use) d => w.designator.BlamedBy u.table d)
        (c.uses.filter fun w => w.designator.isRootCause u.table) u.diagnostics ∧
      (∀ w ∈ c.uses, ∀ base ∈ w.designator.base?, u.table.boundTo? base.id = none →
        u.table.boundTo? w.id = none ∧ u.table.typeAt? w.id = none) ∧
      (u.diagnostics = [] ↔ ∀ w ∈ c.uses, (u.table.boundTo? w.id).isSome) := by
  obtain ⟨c, hcontract, hc⟩ := Program.prepared hp h
  have hpass : p.bindNames = c.bindNames := by rw [Program.bindNames, hcontract]
  refine ⟨c, _, hcontract, hpass ▸ hc.bindNames_run, hc.blamed, fun w hw base hb hnone => ?_, ?_, ?_⟩
  · rw [← hc.placed_uses] at hw
    obtain ⟨q, hq, rfl⟩ := List.mem_map.1 hw
    exact hc.unbound_of_base hq hb hnone
  · intro hnil w hw
    obtain ⟨q, hq, rfl⟩ := List.mem_map.1 (hc.placed_uses ▸ hw)
    exact Option.isSome_iff_exists.2
      (hc.noted_use (List.flatMap_eq_nil_iff.1 hnil) hq).exists_bound
  · intro hall
    have hnone : (c.uses.filter fun w => w.designator.isRootCause (c.boundTable t)) = [] := by
      refine List.filter_eq_nil_iff.2 fun w hw => ?_
      obtain ⟨id, hid⟩ := Option.isSome_iff_exists.1 (hall w hw)
      have hbound : (c.boundTable t).boundTo? w.designator.id = some id := hid
      simp [Designator.isRootCause, hbound]
    have hblamed := hc.blamed
    rw [hnone] at hblamed
    exact List.forall₂_nil_left_iff.1 hblamed

section
open Build

/-- Failures inside of failures: a chain on an unknown name with further unknown names between its
brackets, one on a value that has no elements, and an unknown callee. -/
def entangled : Program := program (some (Id.run (StateT.run' (do
  let x ← field (← namedType "int") "x" none
  let xs ← field (← arrayType (← namedType "int")) "xs" none
  let inner ← index (← name "xs") (← load (← name "lost"))
  let chain ← member (← index (← index (← name "ys") (← load (← name "zs"))) (← load inner)) "length"
  let first ← assign chain (← call (← name "g") [← load (← member (← name "xs") "size")])
  let deep ← index (← index (← name "x") (← literal (.int 0))) (← load (← name "x"))
  let second ← assign deep (← load (← index (← name "xs") (← load (← name "x"))))
  let f ← function "f" [] [] [first, second]
  return { ← contract "C" with fields := [x, xs], functions := [f] }) 0)))

end

theorem entangled_rootCauses : entangled.Distinct ∧
    ∃ t, entangled.quietTable? [.symbolConstruction, .typeResolution] .initial = some t ∧
    ∃ c u, entangled.contract = some c ∧ entangled.bindNames.run t = .ok u ∧
      List.Forall₂ (fun (w : Use) d => w.designator.BlamedBy u.table d)
        (c.uses.filter fun w => w.designator.isRootCause u.table) u.diagnostics ∧
      (∀ w ∈ c.uses, ∀ base ∈ w.designator.base?, u.table.boundTo? base.id = none →
        u.table.boundTo? w.id = none ∧ u.table.typeAt? w.id = none) ∧
      (u.diagnostics = [] ↔ ∀ w ∈ c.uses, (u.table.boundTo? w.id).isSome) := by
  have hd : entangled.Distinct := by decide +kernel
  have hq : (entangled.quietTable? [.symbolConstruction, .typeResolution] .initial).isSome = true := by
    decide +kernel
  obtain ⟨t, ht⟩ := Option.isSome_iff_exists.1 hq
  exact ⟨hd, t, ht, Program.bindNames_rootCauses hd ht⟩

end ContractLang
