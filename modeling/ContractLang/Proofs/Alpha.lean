import ContractLang.Proofs.Reading
/-!
A variable may have any name. If a parameter or local is given a name that is not reserved and
stands nowhere in a program, and with it each plain name that is bound to it, then the program is
accepted as before, and the analysis comes to the same bindings, types and symbols, which is
`Program.analyze_renamed`.
-/
namespace ContractLang

open Table

/-! ### Names -/

/-- Variables of different names have different names after the conversion. -/
def Conversion.Separates (α : Conversion) (vs : List VarDecl) : Prop :=
  ∀ v ∈ vs, ∀ w ∈ vs, (v.convert α).name.text = (w.convert α).name.text → v.name.text = w.name.text

section
variable {α : Conversion} {structs : List String} (hr : α.name ∉ reservedWords)
  (hs : α.name ∉ structs)
include hr hs

theorem VarDecl.nameFault_convert {v : VarDecl} {span : Span}
    (h : nameFault structs v.name.text span = []) :
    nameFault structs (v.convert α).name.text span = [] := by
  rw [nameFault_eq_nil] at h ⊢
  change α.declares _ _ ∉ _ ∧ α.declares _ _ ∉ _
  rw [Conversion.declares]
  split
  · exact ⟨hr, hs⟩
  · exact h

theorem varFaults_convert {seen vs : List VarDecl} (hsep : α.Separates (seen ++ vs))
    (h : varFaults structs (seen.map (·.name.text)) vs = []) :
    varFaults structs ((seen.map (·.convert α)).map (·.name.text)) (vs.map (·.convert α)) = [] := by
  induction vs generalizing seen with
  | nil => rfl
  | cons v rest ih =>
    simp only [List.map_cons, varFaults, List.append_eq_nil_iff, takenFault_eq_nil] at h ⊢
    obtain ⟨⟨hname, htaken⟩, hrest⟩ := h
    refine ⟨⟨VarDecl.nameFault_convert hr hs hname, fun hmem => ?_⟩, ?_⟩
    · rw [List.map_map, List.mem_map] at hmem
      obtain ⟨w, hw, he⟩ := hmem
      refine htaken (List.mem_map.2 ⟨w, hw, ?_⟩)
      exact hsep w (List.mem_append_left _ hw) v (List.mem_append_right _ (.head _)) he
    · have hseen : (seen.map (·.convert α)).map (·.name.text) ++ [(v.convert α).name.text] =
          ((seen ++ [v]).map (·.convert α)).map (·.name.text) := by simp
      rw [hseen]
      refine ih ?_ ?_
      · rwa [List.append_assoc]
      · simpa using hrest

theorem localFaultsOf_convert {seen : List VarDecl} {b : List Stmt}
    (hsep : α.Separates (seen ++ localsOf b))
    (h : localFaultsOf structs (seen.map (·.name.text)) b = []) :
    localFaultsOf structs ((seen.map (·.convert α)).map (·.name.text)) (convertStmts α b) = [] := by
  have hmono : ∀ {vs ws : List VarDecl}, vs ⊆ ws → α.Separates ws → α.Separates vs :=
    fun hsub hsep v hv w hw => hsep v (hsub hv) w (hsub hw)
  induction b using Block.induction generalizing seen with
  | nil => rfl
  | cons s rest hblocks hrest =>
    rw [localFaultsOf, Stmt.localFaults_eq] at h
    rw [convertStmts, localFaultsOf, Stmt.localFaults_eq, s.vars_convert, s.blocks_convert]
    rw [localsOf, Stmt.locals_eq] at hsep
    simp only [List.append_eq_nil_iff, List.flatMap_eq_nil_iff, List.forall_mem_map] at h ⊢
    obtain ⟨⟨hvars, hinner⟩, htail⟩ := h
    refine ⟨⟨?_, fun b hb => ?_⟩, ?_⟩
    · refine varFaults_convert hr hs (hmono ?_ hsep) hvars
      intro v hv
      simp only [List.mem_append] at hv ⊢
      tauto
    · refine hblocks b hb (hmono ?_ hsep) (hinner b hb)
      intro v hv
      simp only [List.mem_append, List.mem_flatMap] at hv ⊢
      exact hv.imp_right fun hv => .inl (.inr ⟨b, hb, hv⟩)
    · rw [← List.map_append, ← List.map_append]
      rw [← List.map_append] at htail
      refine hrest (hmono ?_ hsep) htail
      intro v hv
      simp only [List.mem_append] at hv ⊢
      tauto

theorem Callable.varFaults_convert {f : Callable} (hsep : α.Separates f.vars)
    (h : f.varFaults structs = []) : (f.convert α).varFaults structs = [] := by
  obtain ⟨hparams, hlocals⟩ := List.append_eq_nil_iff.1 h
  refine List.append_eq_nil_iff.2 ⟨?_, localFaultsOf_convert hr hs hsep hlocals⟩
  have hsepParams : α.Separates ([] ++ f.params) := fun v hv w hw =>
    hsep v (List.mem_append_left _ hv) w (List.mem_append_left _ hw)
  exact ContractLang.varFaults_convert hr hs hsepParams hparams

end

theorem ContractDecl.structNames_convert (α : Conversion) (c : ContractDecl) :
    (c.convert α).structNames = c.structNames := List.map_map

theorem ContractDecl.WellNamed.convert {c : ContractDecl} (h : c.WellNamed) (α : Conversion) :
    (c.convert α).WellNamed := by
  have hfields : (c.convert α).fieldNames = c.fieldNames := List.map_map
  have hfunctions : (c.convert α).functions.map (·.name.text) = c.functions.map (·.name.text) :=
    List.map_map
  refine ⟨?_, ?_, ?_, ?_, ?_, ?_⟩
  · rw [c.structNames_convert]
    exact h.name
  · exact List.forall_mem_map.2 h.fields
  · rw [c.structNames_convert]
    refine List.forall_mem_map.2 fun s hs => ⟨(h.structs s hs).name, ?_, ?_⟩
    · exact List.forall_mem_map.2 (h.structs s hs).fields
    · exact (congrArg List.Nodup List.map_map).mpr (h.structs s hs).apart
  · exact List.forall_mem_map.2 h.functions
  · rw [hfields, c.structNames_convert, hfunctions]
    exact h.apart
  · intro hctor
    exact List.forall_mem_map.2 (h.ctor (by simpa [ContractDecl.convert] using hctor))

/-! ### Suitable conversions -/

/-- The name that is used, of one that is not made up of others. -/
def Use.name? : Use → Option String
  | .callee _ x => some x
  | .value (.name _ x) => some x
  | _ => none

/-- The conversion renames a variable of the contract wherever the variable is meant, and its new name
is in nobody's way. -/
structure Conversion.Suits (α : Conversion) (c : ContractDecl) : Prop where
  declared : ∃ f ∈ c.callables, ∃ v ∈ f.vars, v.node.id = α.node
  reserved : α.name ∉ reservedWords
  structs : α.name ∉ c.structNames
  vars : ∀ f ∈ c.callables, ∀ v ∈ f.vars, v.name.text ≠ α.name
  uses : ∀ u ∈ c.uses, ∀ x ∈ u.name?, x ≠ α.name
  refers : ∀ r ∈ c.spottedUses, α.refers r.2.id = true ↔ r.2.ref r.1 = some (.declared α.node)

namespace Conversion.Suits
variable {α : Conversion} {c : ContractDecl} {t : Table}

/-- What is declared by the node of a variable is a variable. -/
theorem isVariable (hα : α.Suits c) (h : c.Elaborated t) {e : Entity} (he : c.Has e)
    (href : e.ref = .declared α.node) : e.isVariable = true := by
  obtain ⟨f, hf, v, hv, hnode⟩ := hα.declared
  rcases List.mem_append.1 hv with hv | hv
  · rw [h.eq_of_ref he (.param hf hv) rfl (hnode ▸ href)]
    rfl
  · rw [h.eq_of_ref he (.localVar hf hv) rfl (hnode ▸ href)]
    rfl

theorem refers_iff_value (hα : α.Suits c) {sp : Spot} {node : Node} {x : String}
    (hr : (sp, .value (.name node x)) ∈ c.spottedUses) :
    α.refers node.id = true ↔ ∃ e, sp.value x = some e ∧ e.ref = .declared α.node :=
  (hα.refers _ hr).trans Option.map_eq_some_iff

theorem refers_iff_callee (hα : α.Suits c) {sp : Spot} {node : Node} {x : String}
    (hr : (sp, .callee node x) ∈ c.spottedUses) :
    α.refers node.id = true ↔ ∃ e, (sp.names x).head? = some e ∧ e.ref = .declared α.node :=
  (hα.refers _ hr).trans Option.map_eq_some_iff

/-- Outside of callables no name stands for the variable. -/
theorem reads_outside (hα : α.Suits c) (h : c.Elaborated t) {sp : Spot} {us : List Use}
    (hus : ∀ u ∈ us, (sp, u) ∈ c.spottedUses)
    (hnames : ∀ x, ∀ e ∈ sp.names x, c.Has e ∧ e.isVariable = false) : α.Reads sp sp us := by
  have hnot : ∀ x, ∀ e ∈ sp.names x, e.ref ≠ .declared α.node := by
    intro x e he href
    have hvar := hα.isVariable h (hnames x e he).1 href
    rw [(hnames x e he).2] at hvar
    cases hvar
  refine ⟨rfl, fun node x hx => ?_, fun node x hx => ?_⟩
  · rw [Conversion.mentions, if_neg]
    intro hrefers
    obtain ⟨e, hvalue, href⟩ := (hα.refers_iff_value (hus _ hx)).1 hrefers
    exact hnot x e (Spot.value_eq_some hvalue).1 href
  · rw [Conversion.mentions, if_neg]
    intro hrefers
    obtain ⟨e, hhead, href⟩ := (hα.refers_iff_callee (hus _ hx)).1 hrefers
    exact hnot x e (List.mem_of_head? hhead) href

section
variable (hα : α.Suits c) (h : c.Elaborated t) {f : Callable} (hf : f ∈ c.callables) {stmt : NodeId}
include hα h hf

/-- A designator that stands for the variable finds it under the new name. -/
theorem value_renamed {x : String} {e : Entity} (hvalue : (c.stmtSpot f stmt).value x = some e)
    (href : e.ref = .declared α.node) :
    ((c.convert α).stmtSpot (f.convert α) stmt).value α.name = some e := by
  obtain ⟨hmem, hshows⟩ := Spot.value_eq_some hvalue
  have hhas : ∀ {x e}, e ∈ (c.stmtSpot f stmt).names x → c.Has e := ContractDecl.has_of_mem_callable hf
  have hvar := hα.isVariable h (hhas hmem) href
  have hentity : (x, e) ∈ f.entities := by
    refine (Env.mem_within hmem).resolve_left fun henv => ?_
    rw [ContractDecl.isVariable_of_mem_env henv] at hvar
    cases hvar
  have hfresh : ∀ p ∈ f.entities, p.1 ≠ α.name := by
    intro p hp
    obtain ⟨-, v, hv, hname⟩ := Callable.exists_of_mem_entities hp
    exact hname ▸ hα.vars f hf v hv
  have hnamed := (mem_map_entry hfresh).2 ⟨href, x, hentity⟩
  have hnames : ∀ e', e' ∈ c.env.within (f.entities.map α.entry) α.name ↔
      (α.name, e') ∈ f.entities.map α.entry := by
    intro e'
    rw [Env.within_of_mem hnamed, mem_namedIn]
  rw [c.stmtSpot_convert]
  refine Spot.value_eq_of_forall ((hnames e).2 hnamed) (fun e' he' => ?_) hvar ?_
  · obtain ⟨href', x', hx'⟩ := (mem_map_entry hfresh).1 ((hnames e').1 he')
    exact h.eq_of_ref (ContractDecl.has_of_mem_entities hf hx') (hhas hmem) hvar
      (href'.trans href.symm)
  · cases e with
    | localVar node type => exact hshows
    | _ => rfl

/-- Names inside an accepted callable stand for what they stood for. -/
theorem reads_stmt {structs : List String} (hq : f.varFaults structs = []) {s : Stmt}
    (hs : s ∈ allOf f.body.stmts) {returns : List Ty}
    (hacc : s.Accepted (c.stmtSpot f s.id) returns) :
    α.Reads (c.stmtSpot f s.id) ((c.convert α).stmtSpot (f.convert α) s.id) s.uses := by
  have hspot : ∀ u ∈ s.uses, (c.stmtSpot f s.id, u) ∈ c.spottedUses := fun u hu =>
    List.mem_append_right _ (List.mem_flatMap.2 ⟨f, hf, List.mem_flatMap.2 ⟨s, hs,
      List.mem_map_of_mem hu⟩⟩)
  have hfresh : ∀ u ∈ s.uses, ∀ x ∈ u.name?, x ≠ α.name := fun u hu =>
    hα.uses u (ContractDecl.uses_subset (ContractDecl.mem_stmts hf hs) hu)
  refine ⟨c.env_convert α, fun node x hu => ?_, fun node x hu => ?_⟩
  · obtain ⟨e, hvalue⟩ := Option.isSome_iff_exists.1 (hacc.uses _ hu)
    rw [hvalue, Conversion.mentions]
    by_cases href : e.ref = .declared α.node
    · rw [if_pos ((hα.refers_iff_value (hspot _ hu)).2 ⟨e, hvalue, href⟩)]
      exact hα.value_renamed h hf hvalue href
    · have hrefers : ¬α.refers node.id = true := by
        intro hrefers
        obtain ⟨e', hvalue', href'⟩ := (hα.refers_iff_value (hspot _ hu)).1 hrefers
        exact href (Option.some.inj (hvalue.symm.trans hvalue') ▸ href')
      rw [if_neg hrefers]
      exact ContractDecl.value_kept hq (hfresh _ hu x rfl) hvalue href
  · obtain ⟨e, hhead, hvar⟩ := hacc.called hu
    have hmem := List.mem_of_head? hhead
    have hkept : ∀ e' ∈ namedIn f.entities x, e'.ref ≠ .declared α.node := by
      -- No variable of the callable has the name, or it would be the one that is called.
      intro e' he'
      have hnames : (c.stmtSpot f s.id).names x = namedIn f.entities x :=
        Env.within_of_mem (mem_namedIn.1 he')
      rw [hnames] at hmem
      rw [(Callable.exists_of_mem_entities (mem_namedIn.1 hmem)).1] at hvar
      cases hvar
    rw [Conversion.mentions, if_neg, ContractDecl.names_kept (hfresh _ hu x rfl) hkept]
    intro hrefers
    obtain ⟨e', hhead', href⟩ := (hα.refers_iff_callee (hspot _ hu)).1 hrefers
    obtain rfl := Option.some.inj (hhead.symm.trans hhead')
    rw [hα.isVariable h (ContractDecl.has_of_mem_callable hf hmem) href] at hvar
    cases hvar

end

theorem reads_field (hα : α.Suits c) (h : c.Elaborated t) {f : FieldDecl} (hf : f ∈ c.fields) :
    α.Reads c.fieldSpot (c.convert α).fieldSpot f.uses := by
  rw [c.fieldSpot_convert]
  refine hα.reads_outside h (fun u hu => ?_) fun x e he => ?_
  · exact List.mem_append_left _ (List.mem_append_left _
      (List.mem_flatMap.2 ⟨f, hf, List.mem_map_of_mem hu⟩))
  · exact ⟨ContractDecl.has_of_mem_env he, ContractDecl.isVariable_of_mem_env he⟩

theorem reads_structField (hα : α.Suits c) (h : c.Elaborated t) {s : StructDecl} (hs : s ∈ c.structs)
    {f : FieldDecl} (hf : f ∈ s.fields) :
    α.Reads (c.structSpot s) ((c.convert α).structSpot (s.convert α)) f.uses := by
  rw [c.structSpot_convert]
  refine hα.reads_outside h (fun u hu => ?_) fun x e he => ?_
  · exact List.mem_append_left _ (List.mem_append_right _ (List.mem_flatMap.2 ⟨s, hs,
      List.mem_flatMap.2 ⟨f, hf, List.mem_map_of_mem hu⟩⟩))
  · refine ⟨ContractDecl.has_of_mem_struct hs he, ?_⟩
    rcases Env.mem_within he with he | he
    · exact ContractDecl.isVariable_of_mem_env he
    · obtain ⟨g, -, hg⟩ := List.mem_map.1 he
      cases hg
      rfl

/-! ### Acceptance -/

theorem separates (hα : α.Suits c) (hn : c.nodeIds.Nodup) {f : Callable} (hf : f ∈ c.callables) :
    α.Separates f.vars := by
  intro v hv w hw he
  change α.declares v.node.id v.name.text = α.declares w.node.id w.name.text at he
  unfold Conversion.declares at he
  split at he
  · rename_i hnode
    split at he
    · rename_i hnode'
      rw [(ContractDecl.vars_unique hn hf hf hv hw (hnode.trans hnode'.symm)).2]
    · exact absurd he.symm (hα.vars f hf w hw)
  · split at he
    · exact absurd he (hα.vars f hf v hv)
    · exact he

theorem admitted (hα : α.Suits c) (h : c.Elaborated t) {f : Callable} (hf : f ∈ c.callables)
    (ha : f.Admitted c) : (f.convert α).Admitted (c.convert α) where
  names := by
    rw [c.structNames_convert]
    exact Callable.varFaults_convert hα.reserved hα.structs (hα.separates h.distinct hf) ha.names
  typed := by
    rw [c.env_convert]
    refine ⟨?_, ha.typed.few, ha.typed.void, ha.typed.returns⟩
    rw [f.vars_convert, List.forall_mem_map]
    exact ha.typed.vars
  accepted := by
    unfold Callable.Accepted
    rw [f.all_convert, List.forall_mem_map]
    intro s hs
    rw [s.id_convert, c.env_convert]
    exact (ha.accepted s hs).convert (hα.reads_stmt h hf ha.names hs (ha.accepted s hs))

theorem framed (hα : α.Suits c) (h : c.Elaborated t) (ha : c.Framed) : (c.convert α).Framed where
  names := ha.names.convert α
  fieldTypes := by
    rw [c.allFields_convert, c.env_convert, List.forall_mem_map]
    exact ha.fieldTypes
  fields := by
    rw [c.fields_convert, List.forall_mem_map]
    exact fun f hf => (ha.fields f hf).convert (hα.reads_field h hf)
  structFields := by
    rw [c.structs_convert, List.forall_mem_map]
    intro s hs
    rw [s.fields_convert, List.forall_mem_map]
    exact fun f hf => (ha.structFields s hs f hf).convert (hα.reads_structField h hs hf)

/-- A contract that is accepted is accepted with its variable renamed. -/
theorem accepted (hα : α.Suits c) (h : c.Elaborated t) (ha : c.Accepted) : (c.convert α).Accepted := by
  rw [ContractDecl.accepted_iff_admitted] at ha ⊢
  refine ⟨hα.framed h ha.1, ?_⟩
  rw [c.callables_convert, List.forall_mem_map]
  exact fun f hf => hα.admitted h hf (ha.2 f hf)

/-! ### Tables -/

/-- What is written in the contract and in its conversion stands at spots that read alike. -/
theorem forall₂_spotted (hα : α.Suits c) (h : c.Elaborated t) (ha : c.Accepted) {β : Type}
    {ofField : FieldDecl → List β} {ofStmt : Stmt → List β} {g : β → β} {uses : β → List Use}
    (hfield : ∀ f, ofField (f.convert α) = (ofField f).map g)
    (hstmt : ∀ s, ofStmt (s.convert α) = (ofStmt s).map g)
    (hin : ∀ f, ∀ x ∈ ofField f, uses x ⊆ f.uses) (hin' : ∀ s, ∀ x ∈ ofStmt s, uses x ⊆ s.uses) :
    List.Forall₂ (fun r r' => r'.2 = g r.2 ∧ α.Reads r.1 r'.1 (uses r.2)) (c.spotted ofField ofStmt)
      ((c.convert α).spotted ofField ofStmt) := by
  have hsame : ∀ {sp sp' : Spot} {xs : List β}, (∀ x ∈ xs, α.Reads sp sp' (uses x)) →
      List.Forall₂ (fun r r' => r'.2 = g r.2 ∧ α.Reads r.1 r'.1 (uses r.2)) (xs.map (sp, ·))
        ((xs.map g).map (sp', ·)) := by
    intro sp sp' xs hreads
    rw [List.map_map, List.forall₂_map_left_iff, List.forall₂_map_right_iff, List.forall₂_same]
    exact fun x hx => ⟨rfl, hreads x hx⟩
  unfold ContractDecl.spotted
  rw [c.fields_convert, c.structs_convert, c.callables_convert, List.flatMap_map, List.flatMap_map,
    List.flatMap_map]
  refine List.rel_append (List.rel_append ?_ ?_) ?_
  · refine forall₂_flatMap fun f hf => ?_
    rw [hfield]
    exact hsame fun x hx => (hα.reads_field h hf).mono (hin f x hx)
  · refine forall₂_flatMap fun s hs => ?_
    rw [s.fields_convert, List.flatMap_map]
    refine forall₂_flatMap fun f hf => ?_
    rw [hfield]
    exact hsame fun x hx => (hα.reads_structField h hs hf).mono (hin f x hx)
  · refine forall₂_flatMap fun f hf => ?_
    rw [f.all_convert, List.flatMap_map]
    refine forall₂_flatMap fun s hs => ?_
    rw [hstmt, s.id_convert]
    have hreads := hα.reads_stmt h hf (h.quiet f hf) hs (ha.bodies f hf s hs)
    exact hsame fun x hx => hreads.mono (hin' s x hx)

/-- After all phases the tables differ only in names. -/
theorem alike_checked (hα : α.Suits c) (h : c.Elaborated t) (ha : c.Accepted) {t' : Table}
    (h' : (c.convert α).Elaborated t') :
    (c.checkedTable (c.boundTable t)).Alike
      ((c.convert α).checkedTable ((c.convert α).boundTable t')) := by
  obtain ⟨u, v, t₀, hdeclare, hresolve⟩ := h.made
  obtain ⟨u', v', t₀', hdeclare', hresolve'⟩ := h'.made
  have hl : t.Alike t' := ContractDecl.alike_convert α (ContractDecl.nodup_declarationIds h.distinct)
    hdeclare hresolve hdeclare' hresolve'
  have hsymbol : t'.symbolOf? = t.symbolOf? := funext hl.symbolOf?_eq
  have htype : t'.typeOf? = t.typeOf? := funext hl.typeOf?_eq
  have huses := hα.forall₂_spotted h ha (fun f => f.uses_convert α) (fun s => s.uses_convert α)
    (fun _ _ => FieldDecl.uses_of_mem) fun _ _ => Stmt.uses_of_mem
  have hexprs := hα.forall₂_spotted h ha (fun f => f.parts_convert α) (fun s => s.parts_convert α)
    (fun _ _ he => (FieldDecl.within_parts he).2) fun _ _ he => (Stmt.within_parts he).2
  have hbound : t'.boundPairs ((c.convert α).placed t' .members) =
      t.boundPairs (c.placed t .members) := by
    rw [h.boundPairs_eq, h'.boundPairs_eq, hsymbol]
    refine (filterMap_eq_of_forall₂ (huses.imp fun r r' hr => ?_)).symm
    rw [hr.1, Use.ref_convert hr.2, Use.id_convert]
  have htyped : t'.typedPairs ((c.convert α).placed t' .members) =
      t.typedPairs (c.placed t .members) := by
    rw [h.typedPairs_eq, h'.typedPairs_eq, htype]
    refine (filterMap_eq_of_forall₂ (huses.imp fun r r' hr => ?_)).symm
    rw [hr.1, Use.ty_convert hr.2, Use.id_convert]
  have htypings : ((c.convert α).boundTable t').typings (c.convert α).exprs =
      (c.boundTable t).typings c.exprs := by
    rw [h.typings_eq, h'.typings_eq, htype]
    refine (filterMap_eq_of_forall₂ (hexprs.imp fun r r' hr => ?_)).symm
    rw [hr.1, Expr.ty_convert hr.2, Expr.id_convert]
  exact { hl with
    bindings := congrArg Assoc.empty.insertAll hbound
    types := congrArg₂ Assoc.insertAll (congrArg Assoc.empty.insertAll htyped) htypings }

end Conversion.Suits

/-! ### Programs -/

/-- The names in a written type. -/
def TypeName.names : TypeName → List String
  | .named _ x => [x]
  | .array _ element => element.names
  | .map _ key value => key.names ++ value.names
  | .void _ => []

namespace ContractDecl
variable (c : ContractDecl)

def declaredNames : List String :=
  c.name.text :: c.allFields.map (·.name.text) ++ c.structNames ++ c.functions.map (·.name.text) ++
    c.callables.flatMap fun f => f.vars.map (·.name.text)

def typeNames : List String :=
  (c.annotations.map Prod.snd ++ c.callables.flatMap (·.returns)).flatMap TypeName.names

/-- The names that are declared, used as designators or written as types. What follows a dot is
never looked up and does not count. -/
def writtenNames : List String := c.declaredNames ++ c.uses.filterMap Use.name? ++ c.typeNames

end ContractDecl

/-- Another name for what a node declares, and for each designator that the table binds to it. -/
def Table.conversion (t : Table) (node : NodeId) (name : String) : Conversion :=
  ⟨node, name, fun n => t.boundTo? n = t.declaredBy? node⟩

theorem ContractDecl.Elaborated.suits {c : ContractDecl} {t s : Table} (h : c.Elaborated t)
    (hnotes : c.Notes t s) (hs : s.declared = t.declared) {f : Callable} (hf : f ∈ c.callables)
    {v : VarDecl} (hv : v ∈ f.vars) {name : String} (hreserved : name ∉ reservedWords)
    (hfresh : name ∉ c.writtenNames) : (s.conversion v.node.id name).Suits c where
  declared := ⟨f, hf, v, hv, rfl⟩
  reserved := hreserved
  structs hmem := by
    refine hfresh (List.mem_append_left _ (List.mem_append_left _ ?_))
    exact List.mem_append_left _ (List.mem_append_left _ (List.mem_append_right _ hmem))
  vars g hg w hw he := by
    refine hfresh (List.mem_append_left _ (List.mem_append_left _ (List.mem_append_right _ ?_)))
    exact List.mem_flatMap.2 ⟨g, hg, List.mem_map.2 ⟨w, hw, he⟩⟩
  uses u hu x hx he := by
    obtain rfl : x = name := he
    exact hfresh (List.mem_append_left _ (List.mem_append_right _ (List.mem_filterMap.2 ⟨u, hu, hx⟩)))
  refers r hr := by
    obtain ⟨ref, id, href, hsymbol, hbound⟩ := hnotes.bound r hr
    have hdeclared : s.declaredBy? v.node.id = t.symbolOf? (.declared v.node.id) :=
      congrArg (Assoc.get? · v.node.id) hs
    change decide (s.boundTo? r.2.id = s.declaredBy? v.node.id) = true ↔
      r.2.ref r.1 = some (.declared v.node.id)
    rw [decide_eq_true_iff, hbound, href, hdeclared, Option.some.injEq]
    constructor
    · exact fun he => h.symbolOf?_inj hsymbol he.symm
    · rintro rfl
      exact hsymbol.symm

theorem Program.Distinct.convert {p : Program} (hp : p.Distinct) (α : Conversion) :
    (p.convert α).Distinct := by
  unfold Program.Distinct Program.nodeIds at hp ⊢
  change ((p.contract.map (·.convert α)).toList.flatMap _).Nodup
  cases hc : p.contract with
  | none => exact List.nodup_nil
  | some c =>
    rw [hc, Option.toList_some, List.flatMap_singleton] at hp
    rw [Option.map_some, Option.toList_some, List.flatMap_singleton, c.nodeIds_convert]
    exact hp

/-- If a variable is given a name that is not reserved and not written anywhere, where it is declared
and in all plain names that are bound to it, then the analysis is complete as before, and its table
differs in names alone. -/
theorem Program.analyze_renamed {p : Program} (hp : p.Distinct) {c : ContractDecl}
    (hc : p.contract = some c) {a : Analysis} (ha : p.analyze = .ok a) (hcomplete : a.isComplete = true)
    {f : Callable} (hf : f ∈ c.callables) {v : VarDecl} (hv : v ∈ f.vars) {name : String}
    (hreserved : name ∉ reservedWords) (hfresh : name ∉ c.writtenNames) :
    ∃ a', (p.convert (a.table.conversion v.node.id name)).analyze = .ok a' ∧ a'.isComplete = true ∧
      a.table.Alike a'.table := by
  obtain ⟨t, h, htable, hnotes⟩ := exists_notes hp hc ha hcomplete
  have hα := h.suits hnotes (htable ▸ rfl) hf hv hreserved hfresh
  have haccepted := (complete_iff hp hc).1 ⟨a, ha, hcomplete⟩
  have hc' : (p.convert (a.table.conversion v.node.id name)).contract = some (c.convert _) :=
    congrArg (Option.map _) hc
  obtain ⟨a', ha', hcomplete'⟩ := (complete_iff (hp.convert _) hc').2 (hα.accepted h haccepted)
  obtain ⟨t', h', htable'⟩ := exists_elaborated (hp.convert _) hc' ha' hcomplete'
  refine ⟨a', ha', hcomplete', ?_⟩
  have halike := hα.alike_checked h haccepted h'
  rwa [← htable, ← htable'] at halike

section
open Build

/-- A field and a local of each branch have one name, and each is used. -/
def branches : Program := program (some (Id.run (StateT.run' (do
  let field ← field (← namedType "int") "x" none
  let onTrue ← varDecl (← arrayType (← namedType "int")) "x"
  let onFalse ← varDecl (← namedType "bool") "x"
  let param ← varDecl (← namedType "int") "a"
  let inTrue := [← declare [onTrue] none,
    ← assign (← index (← name "x") (← load (← name "a"))) (← load (← member (← name "x") "length"))]
  let inFalse := [← declare [onFalse] none, ← assign (← name "x") (← load (← name "true"))]
  let choice ← branch (← literal (.bool true)) inTrue (some inFalse)
  let f ← function "f" [] [param] [choice]
  let g ← function "g" [← namedType "int"] [] [← giveBack [← load (← name "x")]]
  return { ← contract "C" with fields := [field], functions := [f, g] }) 0)))

end

/-- The local of one branch is renamed, and neither the other local nor the field takes its place. -/
theorem branches_renamed : branches.Distinct ∧ ∃ c a f v, branches.contract = some c ∧
    branches.analyze = .ok a ∧ a.isComplete = true ∧ f ∈ c.callables ∧ v ∈ f.vars ∧
    v.name.text = "x" ∧ "y" ∉ reservedWords ∧ "y" ∉ c.writtenNames ∧
    ∃ a', (branches.convert (a.table.conversion v.node.id "y")).analyze = .ok a' ∧
      a'.isComplete = true ∧ a.table.Alike a'.table := by
  have hd : branches.Distinct := by decide +kernel
  have hfound : branches.contract.any (fun c => decide ("y" ∉ c.writtenNames) &&
      c.callables.any fun f => f.vars.any fun v => v.name.text = "x") = true := by
    decide +kernel
  have hreserved : "y" ∉ reservedWords := by decide
  obtain ⟨c, hc, hboth⟩ := (Option.any_eq_true ..).1 hfound
  obtain ⟨hfresh, hvar⟩ := Bool.and_eq_true_iff.1 hboth
  obtain ⟨f, hf, hvar⟩ := List.any_eq_true.1 hvar
  obtain ⟨v, hv, hname⟩ := List.any_eq_true.1 hvar
  obtain ⟨a, ha, hcomplete⟩ : branches.Complete := Program.complete_of_any (by decide +kernel)
  exact ⟨hd, c, a, f, v, hc, ha, hcomplete, hf, hv, of_decide_eq_true hname, hreserved,
    of_decide_eq_true hfresh,
    Program.analyze_renamed hd hc ha hcomplete hf hv hreserved (of_decide_eq_true hfresh)⟩

end ContractLang
