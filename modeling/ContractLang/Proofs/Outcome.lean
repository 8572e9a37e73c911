import ContractLang.Proofs.Accepting
/-!
What a complete analysis notes: each designator is bound to the symbol of what it stands for, and
each expression has the symbol of its type.
-/
namespace ContractLang

open Table

theorem filterMap_eq_of_forall₂ {α β γ : Type} {f : α → Option γ} {g : β → Option γ} {xs : List α}
    {ys : List β} (h : List.Forall₂ (fun x y => f x = g y) xs ys) : xs.filterMap f = ys.filterMap g := by
  induction h with
  | nil => rfl
  | cons hd _ ih => rw [List.filterMap_cons, List.filterMap_cons, hd, ih]

theorem eq_bind_of_rel {α β : Type} {f : α → Option β} {a : Option α} {b : Option β}
    (h : Option.Rel (fun x y => f x = some y) a b) : b = a.bind f := by
  cases h with
  | none => rfl
  | some hd => exact hd.symm

/-- The type of a use. What is called has none of its own. -/
def Use.ty (sp : Spot) : Use → Option Ty
  | .callee .. => none
  | .value d => d.ty sp

/-- The table gives the designators and expressions of a contract the symbols, as they are before
they are noted, of what they stand for and of their types. -/
structure ContractDecl.Notes (c : ContractDecl) (before t : Table) : Prop where
  bound : ∀ r ∈ c.spottedUses, ∃ ref id, r.2.ref r.1 = some ref ∧ before.symbolOf? ref = some id ∧
    t.boundTo? r.2.id = some id
  typed : ∀ r ∈ c.spottedExprs, ∃ type id, r.2.ty r.1 = some type ∧ before.typeOf? type = some id ∧
    t.typeAt? r.2.id = some id

namespace ContractDecl.Elaborated
variable {c : ContractDecl} {t : Table}

theorem sited_expr (h : c.Elaborated t) :
    ∀ r ∈ c.spottedExprs, ∃ site, c.Sited t site r.1 r.2.uses := by
  refine forall_spotted.2 ⟨fun f hf e he => ?_, fun s hs f hf e he => ?_, fun f hf s hs e he => ?_⟩
  · exact ⟨_, (h.sited_field hf).mono (FieldDecl.within_parts he).2⟩
  · obtain ⟨p, hp, rfl⟩ := exists_structPlace hs
    exact ⟨_, (h.sited_structField hp hf).mono (FieldDecl.within_parts he).2⟩
  · obtain ⟨p, hp, rfl⟩ := exists_callablePlace hf
    exact ⟨_, (h.sited_stmt hp hs).mono (Stmt.within_parts he).2⟩

theorem notes (h : c.Elaborated t)
    (hquiet : ∀ q ∈ c.placed t .members, q.2.fault t q.1 = [])
    (hfaults : c.faults (c.boundTable t) = []) : c.Notes t (c.checkedTable (c.boundTable t)) where
  bound r hr := by
    have hbound := h.bound hquiet
    have huse : r.2 ∈ c.uses := by
      rw [uses, ← map_snd_spotted]
      exact List.mem_map_of_mem hr
    obtain ⟨id, hid⟩ := (hbound.noted r.2 huse).exists_bound
    obtain ⟨⟨site, u⟩, hq, rfl, hh⟩ := exists_of_forall₂ h.placed hr
    have hrep := r.2.represents h hh
    rw [← h.boundTo?_eq hq, hid] at hrep
    generalize r.2.ref r.1 = ref at hrep ⊢
    cases hrep with
    | @some ref _ hsymbol => exact ⟨ref, id, rfl, hsymbol, hid⟩
  typed r hr := by
    have hbound := h.bound hquiet
    have hexpr : r.2 ∈ c.exprs := by
      rw [exprs, ← map_snd_spotted]
      exact List.mem_map_of_mem hr
    obtain ⟨id, hid, -⟩ := hbound.exists_judged hfaults hexpr
    obtain ⟨site, hs⟩ := h.sited_expr r hr
    have hrep := Expr.realizes h hs
    rw [← hbound.typeAt?_checked hexpr, hid] at hrep
    generalize r.2.ty r.1 = type at hrep ⊢
    cases hrep with
    | @some type _ hsymbol => exact ⟨type, id, rfl, hsymbol, hid⟩

/-! ### All that is noted, in order -/

theorem boundPairs_eq (h : c.Elaborated t) :
    t.boundPairs (c.placed t .members) =
      c.spottedUses.filterMap fun r => ((r.2.ref r.1).bind t.symbolOf?).map (r.2.id, ·) := by
  refine (filterMap_eq_of_forall₂ (h.placed.imp fun r q hq => ?_)).symm
  rw [← hq.1, eq_bind_of_rel (r.2.represents h hq.2)]

theorem typedPairs_eq (h : c.Elaborated t) :
    t.typedPairs (c.placed t .members) =
      c.spottedUses.filterMap fun r => ((r.2.ty r.1).bind t.typeOf?).map (r.2.id, ·) := by
  refine (filterMap_eq_of_forall₂ (h.placed.imp fun r q hq => ?_)).symm
  have hrealizes : t.Realizes (r.2.ty r.1) (r.2.typeFrom t q.1) := by
    cases r.2 with
    | callee node x => exact .none
    | value d => exact d.realizes h hq.2
  rw [← hq.1, eq_bind_of_rel hrealizes]

theorem typings_eq (h : c.Elaborated t) :
    (c.boundTable t).typings c.exprs =
      c.spottedExprs.filterMap fun r => ((r.2.ty r.1).bind t.typeOf?).map (r.2.id, ·) := by
  rw [exprs, ← map_snd_spotted, typings, List.filterMap_map]
  refine List.filterMap_congr fun r hr => ?_
  obtain ⟨site, hs⟩ := h.sited_expr r hr
  rw [Function.comp_apply, eq_bind_of_rel (Expr.realizes h hs)]

end ContractDecl.Elaborated

/-- What the analysis notes if it is complete, over the table that the first two phases make. -/
theorem Program.exists_notes {p : Program} {c : ContractDecl} (hp : p.Distinct)
    (hc : p.contract = some c) {a : Analysis} (ha : p.analyze = .ok a) (hcomplete : a.isComplete = true) :
    ∃ t, c.Elaborated t ∧ a.table = c.checkedTable (c.boundTable t) ∧ c.Notes t a.table := by
  obtain ⟨t, h, htable⟩ := exists_elaborated hp hc ha hcomplete
  have haccepted := (complete_iff hp hc).1 ⟨a, ha, hcomplete⟩
  obtain ⟨hquiet, hfaults⟩ :=
    h.accepted_iff.2 ⟨haccepted.fields, haccepted.structFields, haccepted.bodies⟩
  exact ⟨t, h, htable, htable ▸ h.notes hquiet hfaults⟩

end ContractLang
