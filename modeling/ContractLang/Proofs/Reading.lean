import ContractLang.Proofs.Nameless
import ContractLang.Proofs.Outcome
/-!
What is read from names after a conversion. Where the names of a statement stand for what they stood
for, its designators and expressions have the types that they had, and what fits still fits. What is
declared in a callable is looked up under the new name exactly if it is the variable that is renamed.
-/
namespace ContractLang

/-! ### Designators and expressions -/

/-- The names that are used stand for the same after the conversion. -/
structure Conversion.Reads (α : Conversion) (sp sp' : Spot) (us : List Use) : Prop where
  types : sp'.types = sp.types
  value : ∀ node x, .value (.name node x) ∈ us → sp'.value (α.mentions node.id x) = sp.value x
  callee : ∀ node x, .callee node x ∈ us →
    (sp'.names (α.mentions node.id x)).head? = (sp.names x).head?

theorem Conversion.Reads.mono {α : Conversion} {sp sp' : Spot} {us vs : List Use}
    (h : α.Reads sp sp' us) (hv : vs ⊆ us) : α.Reads sp sp' vs where
  types := h.types
  value node x hx := h.value node x (hv hx)
  callee node x hx := h.callee node x (hv hx)

theorem Conversion.Reads.index_base {α : Conversion} {sp sp' : Spot} {node : Node} {base : Designator}
    {position : Expr} (h : α.Reads sp sp' (Designator.index node base position).uses) :
    α.Reads sp sp' base.uses :=
  h.mono (List.Subset.trans (List.subset_append_left _ _) (List.subset_append_left _ _))

theorem Conversion.Reads.member_base {α : Conversion} {sp sp' : Spot} {node : Node} {base : Designator}
    {m : Ident} (h : α.Reads sp sp' (Designator.member node base m).uses) :
    α.Reads sp sp' base.uses := h.mono (List.subset_append_left _ _)

/-- A use with those inside it. -/
def Use.uses : Use → List Use
  | .callee node x => [.callee node x]
  | .value d => d.uses

section
variable {α : Conversion} {sp sp' : Spot}

theorem Designator.ty_convert {d : Designator} (h : α.Reads sp sp' d.uses) :
    (d.convert α).ty sp' = d.ty sp := by
  cases d with
  | name node x =>
    rw [Designator.convert, Designator.ty, Designator.ty, h.types, h.value node x (.head _)]
  | index node base position =>
    have hbase := Designator.ty_convert h.index_base
    rw [Designator.convert, Designator.ty, Designator.ty, hbase]
  | member node base m =>
    have hbase := Designator.ty_convert h.member_base
    rw [Designator.convert, Designator.ty, Designator.ty, hbase]

theorem Designator.ref_convert {d : Designator} (h : α.Reads sp sp' d.uses) :
    (d.convert α).ref sp' = d.ref sp := by
  have hty := Designator.ty_convert h
  cases d with
  | name node x => rw [Designator.convert, Designator.ref, Designator.ref, h.value node x (.head _)]
  | index node base position =>
    have hbase := Designator.ref_convert h.index_base
    rw [Designator.convert] at hty ⊢
    rw [Designator.ref, Designator.ref, hty, hbase]
  | member node base m =>
    rw [Designator.convert] at hty ⊢
    rw [Designator.ref, Designator.ref, hty]

theorem Use.ref_convert {u : Use} (h : α.Reads sp sp' u.uses) : (u.convert α).ref sp' = u.ref sp := by
  cases u with
  | callee node x => exact congrArg (Option.map Entity.ref) (h.callee node x (.head _))
  | value d => exact Designator.ref_convert h

theorem Use.ty_convert {u : Use} (h : α.Reads sp sp' u.uses) : (u.convert α).ty sp' = u.ty sp := by
  cases u with
  | callee node x => rfl
  | value d => exact Designator.ty_convert h

theorem Use.fits_convert {u : Use} (h : α.Reads sp sp' u.uses) :
    (u.convert α).Fits sp' ↔ u.Fits sp := by
  cases u with
  | callee node x =>
    have hhead := h.callee node x (.head _)
    rw [Use.convert, Use.Fits, Use.Fits, ne_eq, ne_eq, ← List.head?_eq_none_iff, hhead,
      List.head?_eq_none_iff]
  | value d =>
    cases d with
    | name node x => rw [Use.convert, Designator.convert, Use.Fits, Use.Fits, h.value node x (.head _)]
    | index node base position =>
      have hbase := Designator.ty_convert (Conversion.Reads.index_base h)
      rw [Use.convert, Designator.convert, Use.Fits, Use.Fits, hbase]
    | member node base m =>
      have hbase := Designator.ty_convert (Conversion.Reads.member_base h)
      rw [Use.convert, Designator.convert, Use.Fits, Use.Fits, hbase]

theorem Spot.called_convert {node : Node} {callee : Designator} {args : List Expr}
    (h : α.Reads sp sp' (Expr.call node callee args).uses) :
    sp'.called (callee.convert α) = sp.called callee := by
  cases callee with
  | name n x => rw [Designator.convert, Spot.called, Spot.called, h.types, h.callee n x (.head _)]
  | index n base position => rfl
  | member n base m => rfl

theorem Expr.ty_convert {e : Expr} (h : α.Reads sp sp' e.uses) : (e.convert α).ty sp' = e.ty sp := by
  cases e with
  | load node source => exact Designator.ty_convert h
  | call node callee args => rw [Expr.convert, Expr.ty, Expr.ty, Spot.called_convert h]
  | _ => rfl

theorem map_ty_convert {es : List Expr} (h : α.Reads sp sp' (usesOf es)) :
    (convertExprs α es).map (·.ty sp') = es.map (·.ty sp) := by
  rw [convertExprs_eq, List.map_map]
  refine List.map_congr_left fun e he => Expr.ty_convert (h.mono fun u hu => ?_)
  rw [usesOf_eq_flatMap]
  exact List.mem_flatMap.2 ⟨e, he, hu⟩

theorem Expr.fits_convert {e : Expr} (h : α.Reads sp sp' e.uses) :
    (e.convert α).Fits sp' ↔ e.Fits sp := by
  cases e with
  | literal node value => exact Iff.rfl
  | load node source => exact Iff.rfl
  | call node callee args =>
    rw [Expr.convert, Expr.Fits, Expr.Fits, Spot.called_convert h,
      map_ty_convert (h.mono Expr.usesOf_subset_call)]
  | binary node op left right =>
    rw [Expr.convert, Expr.Fits, Expr.Fits, Expr.ty_convert (h.mono (List.subset_append_left _ _)),
      Expr.ty_convert (h.mono (List.subset_append_right _ _))]
  | unary node op operand =>
    have hoperand : (operand.convert α).ty sp' = operand.ty sp := Expr.ty_convert h
    rw [Expr.convert, Expr.Fits, Expr.Fits, hoperand]

theorem Expr.fills_convert {e : Expr} (h : α.Reads sp sp' e.uses) {targets : List (Option Ty)} :
    (e.convert α).Fills sp' targets ↔ e.Fills sp targets := by
  cases e with
  | call node callee args => rw [Expr.convert, Expr.Fills, Expr.Fills, Spot.called_convert h]
  | _ => exact Iff.rfl

/-! ### Statements and fields -/

theorem Stmt.fits_convert {s : Stmt} (h : α.Reads sp sp' s.uses) {returns : List Ty} :
    (s.convert α).Fits sp' returns ↔ s.Fits sp returns := by
  cases s with
  | declare node vars init =>
    cases init with
    | none => exact Iff.rfl
    | some init =>
      have hinit : α.Reads sp sp' init.uses := h
      rw [Stmt.convert, Option.map_some]
      cases vars with
      | nil =>
        change (init.convert α).Fills sp' [] ↔ init.Fills sp []
        exact Expr.fills_convert hinit
      | cons v more =>
        cases more with
        | nil =>
          change Agree (sp'.types.denote v.type) ((init.convert α).ty sp') ↔
            Agree (sp.types.denote v.type) (init.ty sp)
          rw [h.types, Expr.ty_convert hinit]
        | cons w rest =>
          have hvars : ((v :: w :: rest).map (·.convert α)).map (fun v => sp'.types.denote v.type) =
              (v :: w :: rest).map fun v => sp.types.denote v.type := by
            rw [List.map_map, h.types]
            rfl
          change (init.convert α).Fills sp' (((v :: w :: rest).map (·.convert α)).map _) ↔
            init.Fills sp ((v :: w :: rest).map _)
          rw [hvars]
          exact Expr.fills_convert hinit
  | assign node target value =>
    rw [Stmt.convert, Stmt.Fits, Stmt.Fits,
      Designator.ty_convert (h.mono (List.subset_append_left _ _)),
      Expr.ty_convert (h.mono (List.subset_append_right _ _))]
  | assignAll node targets source =>
    have htargets : (targets.map (·.convert α)).map (·.ty sp') = targets.map (·.ty sp) := by
      rw [List.map_map]
      refine List.map_congr_left fun d hd => Designator.ty_convert (h.mono fun u hu => ?_)
      exact List.mem_append_left _ (List.mem_flatMap.2 ⟨d, hd, hu⟩)
    rw [Stmt.convert, Stmt.Fits, Stmt.Fits, htargets]
    exact Expr.fills_convert (h.mono (List.subset_append_right _ _))
  | branch node condition onTrue onFalse =>
    have hcondition : (condition.convert α).ty sp' = condition.ty sp := Expr.ty_convert h
    cases onFalse <;> rw [Stmt.convert, Stmt.Fits, Stmt.Fits, hcondition]
  | giveBack node values => rw [Stmt.convert, Stmt.Fits, Stmt.Fits, map_ty_convert h]

theorem Stmt.uses_of_mem {s : Stmt} {u : Use} (h : u ∈ s.uses) : u.uses ⊆ s.uses := by
  cases u with
  | callee node x => exact List.cons_subset.2 ⟨h, List.nil_subset _⟩
  | value d => exact fun _ hw => Stmt.uses_of_value h hw

theorem FieldDecl.uses_of_mem {f : FieldDecl} {u : Use} (h : u ∈ f.uses) : u.uses ⊆ f.uses := by
  cases u with
  | callee node x => exact List.cons_subset.2 ⟨h, List.nil_subset _⟩
  | value d => exact fun _ hw => FieldDecl.uses_of_value h hw

theorem Stmt.Accepted.convert {s : Stmt} {returns : List Ty} (h : s.Accepted sp returns)
    (hr : α.Reads sp sp' s.uses) : (s.convert α).Accepted sp' returns where
  uses := by
    rw [s.uses_convert, List.forall_mem_map]
    exact fun u hu => (Use.fits_convert (hr.mono (Stmt.uses_of_mem hu))).2 (h.uses u hu)
  parts := by
    rw [s.parts_convert, List.forall_mem_map]
    exact fun e he => (Expr.fits_convert (hr.mono (Stmt.within_parts he).2)).2 (h.parts e he)
  fits := (Stmt.fits_convert hr).2 h.fits

theorem FieldDecl.Accepted.convert {f : FieldDecl} (h : f.Accepted sp)
    (hr : α.Reads sp sp' f.uses) : (f.convert α).Accepted sp' where
  uses := by
    rw [f.uses_convert, List.forall_mem_map]
    exact fun u hu => (Use.fits_convert (hr.mono (FieldDecl.uses_of_mem hu))).2 (h.uses u hu)
  parts := by
    rw [f.parts_convert, List.forall_mem_map]
    exact fun e he => (Expr.fits_convert (hr.mono (FieldDecl.within_parts he).2)).2 (h.parts e he)
  init e' he' := by
    obtain ⟨e, he, rfl⟩ := Option.map_eq_some_iff.1 he'
    have huses : e.uses ⊆ f.uses := fun u hu =>
      List.mem_flatMap.2 ⟨e, Option.mem_toList.2 he, hu⟩
    rw [Expr.ty_convert (hr.mono huses), hr.types]
    exact h.init e he

end

/-! ### Values -/

namespace Spot
variable {sp : Spot} {x : String}

theorem value_eq_some {e : Entity} (h : sp.value x = some e) : e ∈ sp.names x ∧ sp.shows e = true := by
  unfold Spot.value at h
  split at h
  · cases h
  · rename_i first rest hnames
    rw [hnames]
    split at h
    · cases h
    · split at h
      · rename_i hlocal
        cases h
        refine ⟨.head _, ?_⟩
        cases e with
        | localVar node type => cases hlocal
        | _ => rfl
      · exact ⟨List.mem_of_find?_eq_some h, List.find?_some h⟩

theorem value_eq_find? (h : ∀ e ∈ sp.names x, e.isLocal = true) :
    sp.value x = (sp.names x).find? sp.shows := by
  have hvalue : ∀ e : Entity, e.isLocal = true → e.isValue = true := by
    intro e he
    cases e with
    | localVar node type => rfl
    | _ => cases he
  unfold Spot.value
  cases hnames : sp.names x with
  | nil => rfl
  | cons first rest =>
    have hfirst : first.isLocal = true := h first (hnames ▸ .head _)
    simp [hvalue first hfirst, hfirst]

/-- A name of one variable alone stands for it where it can be seen. -/
theorem value_eq_of_forall {e : Entity} (hmem : e ∈ sp.names x) (hall : ∀ e' ∈ sp.names x, e' = e)
    (hvar : e.isVariable = true) (hshows : sp.shows e = true) : sp.value x = some e := by
  unfold Spot.value
  cases hnames : sp.names x with
  | nil =>
    rw [hnames] at hmem
    cases hmem
  | cons first rest =>
    obtain rfl : first = e := hall first (hnames ▸ .head _)
    cases first with
    | param node type => rfl
    | localVar node type => exact List.find?_cons_of_pos hshows
    | _ => cases hvar

theorem value_congr {sp' : Spot} (hnames : sp'.names x = sp.names x) (hsees : sp'.sees = sp.sees) :
    sp'.value x = sp.value x := by
  have hshows : sp'.shows = sp.shows := by
    funext e
    cases e with
    | localVar node type => exact congrFun hsees node
    | _ => rfl
  unfold Spot.value
  rw [hnames, hshows]

end Spot

/-! ### Entities -/

theorem find?_filter_of_pos {β : Type} {p q : β → Bool} {xs : List β} {b : β}
    (h : xs.find? q = some b) (hp : p b = true) : (xs.filter p).find? q = some b := by
  obtain ⟨hq, before, after, rfl, hbefore⟩ := List.find?_eq_some_iff_append.1 h
  rw [List.find?_filter, List.find?_eq_some_iff_append]
  refine ⟨by simp [hp, hq], before, after, rfl, fun a ha => ?_⟩
  have hnot := hbefore a ha
  simp only [Bool.not_eq_true'] at hnot
  simp [hnot]

theorem Callable.vars_convert (α : Conversion) (f : Callable) :
    (f.convert α).vars = f.vars.map (·.convert α) := by
  unfold Callable.vars
  rw [f.locals_convert, List.map_append]
  rfl

/-- What is declared, under the name that it has after the conversion. -/
def Conversion.entry (α : Conversion) (p : String × Entity) : String × Entity :=
  (if p.2.ref = .declared α.node then α.name else p.1, p.2)

theorem Callable.entities_convert (α : Conversion) (f : Callable) :
    (f.convert α).entities = f.entities.map α.entry := by
  have hname : ∀ v : VarDecl, (v.convert α).name.text =
      if Ref.declared v.node.id = .declared α.node then α.name else v.name.text := by
    intro v
    simp only [Ref.declared.injEq]
    rfl
  unfold Callable.entities
  rw [f.locals_convert, List.map_append, List.map_map, List.map_map]
  change (f.params.map (·.convert α)).map _ ++ _ = _
  rw [List.map_map]
  refine congrArg₂ _ ?_ ?_
  · exact List.map_congr_left fun v _ => Prod.ext (hname v) rfl
  · rw [List.map_map]
    exact List.map_congr_left fun v _ => Prod.ext (hname v) rfl

section
variable {α : Conversion} {es : List (String × Entity)} {x : String}

theorem namedIn_entry (hx : x ≠ α.name) :
    namedIn (es.map α.entry) x = (namedIn es x).filter (·.ref ≠ .declared α.node) := by
  induction es with
  | nil => rfl
  | cons p rest ih =>
    unfold namedIn at ih ⊢
    by_cases href : p.2.ref = .declared α.node
    · have hentry : (α.entry p).1 ≠ x := by
        rw [Conversion.entry, if_pos href]
        exact hx.symm
      rw [List.map_cons, List.filter_cons_of_neg (by simpa using hentry), ih]
      by_cases hp : p.1 = x
      · rw [List.filter_cons_of_pos (by simpa using hp), List.map_cons,
          List.filter_cons_of_neg (by simpa using href)]
      · rw [List.filter_cons_of_neg (by simpa using hp)]
    · have hentry : α.entry p = p := by
        rw [Conversion.entry, if_neg href]
      rw [List.map_cons, hentry]
      by_cases hp : p.1 = x
      · rw [List.filter_cons_of_pos (by simpa using hp), List.filter_cons_of_pos (by simpa using hp),
          List.map_cons, List.map_cons, ih, List.filter_cons_of_pos (by simpa using href)]
      · rw [List.filter_cons_of_neg (by simpa using hp), List.filter_cons_of_neg (by simpa using hp), ih]

/-- Under the new name there is only what the node declares. -/
theorem mem_map_entry (hfresh : ∀ p ∈ es, p.1 ≠ α.name) {e : Entity} :
    (α.name, e) ∈ es.map α.entry ↔ e.ref = .declared α.node ∧ ∃ x, (x, e) ∈ es := by
  rw [List.mem_map]
  constructor
  · rintro ⟨⟨x, e⟩, hmem, hentry⟩
    obtain ⟨hname, rfl⟩ := Prod.ext_iff.1 hentry
    by_cases href : e.ref = .declared α.node
    · exact ⟨href, x, hmem⟩
    · rw [Conversion.entry, if_neg href] at hname
      exact absurd hname (hfresh _ hmem)
  · rintro ⟨href, x, hmem⟩
    refine ⟨(x, e), hmem, ?_⟩
    rw [Conversion.entry, if_pos href]

end

theorem Callable.shows_convert (α : Conversion) (f : Callable) (stmt : NodeId) :
    (f.convert α).shows stmt = f.shows stmt := by
  funext node
  have hviews : viewsOf (f.convert α).body.stmts =
      (viewsOf f.body.stmts).map fun v => (v.1.convert α, v.2) :=
    viewsOf_convert α f.body.stmts
  unfold Callable.shows
  rw [hviews, List.any_map]
  rfl

namespace ContractDecl
variable (α : Conversion) (c : ContractDecl)

theorem fieldSpot_convert : (c.convert α).fieldSpot = c.fieldSpot := by
  unfold ContractDecl.fieldSpot
  rw [c.env_convert]

theorem structSpot_convert (s : StructDecl) :
    (c.convert α).structSpot (s.convert α) = c.structSpot s := by
  have hentities : (s.convert α).entities = s.entities := List.map_map
  unfold ContractDecl.structSpot
  rw [c.env_convert, hentities]

end ContractDecl

theorem ContractDecl.stmtSpot_convert (α : Conversion) (c : ContractDecl) (f : Callable)
    (stmt : NodeId) : (c.convert α).stmtSpot (f.convert α) stmt =
      ⟨c.env, c.env.within (f.entities.map α.entry), f.shows stmt⟩ := by
  rw [ContractDecl.stmtSpot, c.env_convert, f.entities_convert, f.shows_convert]

/-- Variables of one name are locals, of blocks that stand side by side. -/
theorem Callable.isLocal_of_same_name {f : Callable} {structs : List String}
    (h : f.varFaults structs = []) {x : String} {e e' : Entity} (he : (x, e) ∈ f.entities)
    (he' : (x, e') ∈ f.entities) (hne : e ≠ e') : e.isLocal = true := by
  obtain ⟨hparams, hlocals⟩ := List.append_eq_nil_iff.1 h
  rcases List.mem_append.1 he with he | he
  · obtain ⟨v, hv, hve⟩ := List.mem_map.1 he
    cases hve
    rcases List.mem_append.1 he' with he' | he'
    · obtain ⟨w, hw, hwe⟩ := List.mem_map.1 he'
      obtain ⟨hname, rfl⟩ := Prod.ext_iff.1 hwe
      obtain rfl := List.inj_on_of_nodup_map (names_of_varFaults hparams).2 hw hv hname
      exact absurd rfl hne
    · obtain ⟨w, hw, hwe⟩ := List.mem_map.1 he'
      obtain ⟨hname, rfl⟩ := Prod.ext_iff.1 hwe
      exact absurd (List.mem_map.2 ⟨v, hv, hname.symm⟩) (names_of_localFaults hlocals w hw)
  · obtain ⟨v, hv, hve⟩ := List.mem_map.1 he
    cases hve
    rfl

/-! ### Names that keep their meaning -/

namespace ContractDecl
variable {α : Conversion} {c : ContractDecl} {f : Callable} {stmt : NodeId} {x : String}

theorem names_kept (hx : x ≠ α.name)
    (hkept : ∀ e ∈ namedIn f.entities x, e.ref ≠ .declared α.node) :
    ((c.convert α).stmtSpot (f.convert α) stmt).names x = (c.stmtSpot f stmt).names x := by
  have hsame : namedIn (f.entities.map α.entry) x = namedIn f.entities x := by
    rw [namedIn_entry hx, List.filter_eq_self]
    simpa using hkept
  rw [c.stmtSpot_convert]
  change c.env.within _ x = c.env.within _ x
  rw [Env.within, Env.within, hsame]

/-- Where another local has the name of the variable, it is found as before. -/
theorem value_beside {structs : List String} (hq : f.varFaults structs = []) (hx : x ≠ α.name)
    {e e₀ : Entity} (he₀ : (x, e₀) ∈ f.entities) (href₀ : e₀.ref = .declared α.node)
    (hvalue : (c.stmtSpot f stmt).value x = some e) (href : e.ref ≠ .declared α.node) :
    ((c.convert α).stmtSpot (f.convert α) stmt).value x = some e := by
  have hnames : (c.stmtSpot f stmt).names x = namedIn f.entities x := Env.within_of_mem he₀
  obtain ⟨hmem, -⟩ := Spot.value_eq_some hvalue
  rw [hnames, mem_namedIn] at hmem
  have hlocal : ∀ e' ∈ namedIn f.entities x, e'.isLocal = true := by
    intro e' he'
    by_cases heq : e' = e
    · have hne : e' ≠ e₀ := fun he => href (heq ▸ he ▸ href₀)
      exact Callable.isLocal_of_same_name hq (mem_namedIn.1 he') he₀ hne
    · exact Callable.isLocal_of_same_name hq (mem_namedIn.1 he') hmem heq
  rw [Spot.value_eq_find? (hnames ▸ hlocal), hnames] at hvalue
  have hrest : (x, e) ∈ f.entities.map α.entry := by
    rw [← mem_namedIn, namedIn_entry hx, List.mem_filter, mem_namedIn]
    exact ⟨hmem, by simpa using href⟩
  have hnames' : c.env.within (f.entities.map α.entry) x =
      (namedIn f.entities x).filter (·.ref ≠ .declared α.node) :=
    (Env.within_of_mem hrest).trans (namedIn_entry hx)
  rw [c.stmtSpot_convert]
  refine (Spot.value_eq_find? fun e' he' => ?_).trans ?_
  · change e' ∈ c.env.within _ x at he'
    rw [hnames'] at he'
    exact hlocal e' (List.mem_of_mem_filter he')
  · change (c.env.within (f.entities.map α.entry) x).find? _ = _
    rw [hnames']
    exact find?_filter_of_pos hvalue (by simpa using href)

/-- A name that stands for something else than the variable stands for it still. -/
theorem value_kept {structs : List String} (hq : f.varFaults structs = []) (hx : x ≠ α.name)
    {e : Entity} (hvalue : (c.stmtSpot f stmt).value x = some e) (href : e.ref ≠ .declared α.node) :
    ((c.convert α).stmtSpot (f.convert α) stmt).value x = some e := by
  by_cases hkept : ∀ e' ∈ namedIn f.entities x, e'.ref ≠ .declared α.node
  · rw [← hvalue]
    exact Spot.value_congr (names_kept hx hkept) (f.shows_convert α stmt)
  · push Not at hkept
    obtain ⟨e₀, he₀, href₀⟩ := hkept
    exact value_beside hq hx (mem_namedIn.1 he₀) href₀ hvalue href

end ContractDecl

/-! ### Calls -/

mutual
/-- What is named as a callee is called. -/
theorem Expr.call_of_callee {e : Expr} {node : Node} {x : String} (h : .callee node x ∈ e.uses) :
    ∃ n args, .call n (.name node x) args ∈ e.parts := by
  cases e with
  | literal n value => cases h
  | load n source =>
    obtain ⟨m, args, hmem⟩ := Designator.call_of_callee (d := source) h
    exact ⟨m, args, List.mem_append_left _ hmem⟩
  | call n callee args =>
    have hargs : .callee node x ∈ usesOf args →
        ∃ m args', .call m (.name node x) args' ∈ (Expr.call n callee args).parts := by
      intro hin
      obtain ⟨m, args', hmem⟩ := call_of_calleeOf hin
      exact ⟨m, args', List.mem_append_left _ (List.mem_append_left _ hmem)⟩
    have hcallee : .callee node x ∈ callee.uses →
        ∃ m args', .call m (.name node x) args' ∈ (Expr.call n callee args).parts := by
      intro hin
      obtain ⟨m, args', hmem⟩ := Designator.call_of_callee hin
      exact ⟨m, args', List.mem_append_left _ (List.mem_append_right _ hmem)⟩
    cases callee with
    | name n' y =>
      rcases List.mem_cons.1 h with hfirst | h
      · cases hfirst
        exact ⟨n, args, Expr.mem_parts _⟩
      · exact hargs h
    | index n' base position => exact (List.mem_append.1 h).elim hcallee hargs
    | member n' base field => exact (List.mem_append.1 h).elim hcallee hargs
  | binary n op left right =>
    rcases List.mem_append.1 h with h | h
    · obtain ⟨m, args, hmem⟩ := Expr.call_of_callee h
      exact ⟨m, args, List.mem_append_left _ (List.mem_append_left _ hmem)⟩
    · obtain ⟨m, args, hmem⟩ := Expr.call_of_callee h
      exact ⟨m, args, List.mem_append_left _ (List.mem_append_right _ hmem)⟩
  | unary n op operand =>
    obtain ⟨m, args, hmem⟩ := Expr.call_of_callee (e := operand) h
    exact ⟨m, args, List.mem_append_left _ hmem⟩

theorem Designator.call_of_callee {d : Designator} {node : Node} {x : String}
    (h : .callee node x ∈ d.uses) : ∃ n args, .call n (.name node x) args ∈ d.parts := by
  cases d with
  | name n y => cases List.mem_singleton.1 h
  | index n base position =>
    rcases List.mem_append.1 h with h | h
    · rcases List.mem_append.1 h with h | h
      · obtain ⟨m, args, hmem⟩ := Designator.call_of_callee h
        exact ⟨m, args, List.mem_append_left _ hmem⟩
      · obtain ⟨m, args, hmem⟩ := Expr.call_of_callee h
        exact ⟨m, args, List.mem_append_right _ hmem⟩
    · cases List.mem_singleton.1 h
  | member n base field =>
    rcases List.mem_append.1 h with h | h
    · exact Designator.call_of_callee (d := base) h
    · cases List.mem_singleton.1 h

theorem call_of_calleeOf {es : List Expr} {node : Node} {x : String}
    (h : .callee node x ∈ usesOf es) : ∃ n args, .call n (.name node x) args ∈ partsOf es := by
  cases es with
  | nil => cases h
  | cons e rest =>
    rcases List.mem_append.1 h with h | h
    · obtain ⟨m, args, hmem⟩ := Expr.call_of_callee h
      exact ⟨m, args, List.mem_append_left _ hmem⟩
    · obtain ⟨m, args, hmem⟩ := call_of_calleeOf h
      exact ⟨m, args, List.mem_append_right _ hmem⟩
end

theorem Stmt.call_of_callee {s : Stmt} {node : Node} {x : String} (h : .callee node x ∈ s.uses) :
    ∃ n args, .call n (.name node x) args ∈ s.parts := by
  cases s with
  | declare n vars init =>
    cases init with
    | none => cases h
    | some init => exact Expr.call_of_callee (e := init) h
  | assign n target value =>
    rcases List.mem_append.1 h with h | h
    · obtain ⟨m, args, hmem⟩ := Designator.call_of_callee h
      exact ⟨m, args, List.mem_append_left _ hmem⟩
    · obtain ⟨m, args, hmem⟩ := Expr.call_of_callee h
      exact ⟨m, args, List.mem_append_right _ hmem⟩
  | assignAll n targets source =>
    rcases List.mem_append.1 h with h | h
    · obtain ⟨d, hd, h⟩ := List.mem_flatMap.1 h
      obtain ⟨m, args, hmem⟩ := Designator.call_of_callee h
      exact ⟨m, args, List.mem_append_left _ (List.mem_flatMap.2 ⟨d, hd, hmem⟩)⟩
    · obtain ⟨m, args, hmem⟩ := Expr.call_of_callee h
      exact ⟨m, args, List.mem_append_right _ hmem⟩
  | branch n condition onTrue onFalse => exact Expr.call_of_callee (e := condition) h
  | giveBack n values => exact call_of_calleeOf h

/-- Variables are not called where all is accepted. -/
theorem Stmt.Accepted.called {s : Stmt} {sp : Spot} {returns : List Ty} (h : s.Accepted sp returns)
    {node : Node} {x : String} (hu : .callee node x ∈ s.uses) :
    ∃ e, (sp.names x).head? = some e ∧ e.isVariable = false := by
  obtain ⟨n, args, hcall⟩ := Stmt.call_of_callee hu
  obtain ⟨g, hg, -⟩ := h.parts _ hcall
  obtain ⟨e, hhead, hsignature⟩ := Option.bind_eq_some_iff.1 hg
  refine ⟨e, hhead, ?_⟩
  cases e with
  | param node type => cases hsignature
  | localVar node type => cases hsignature
  | _ => rfl

end ContractLang
