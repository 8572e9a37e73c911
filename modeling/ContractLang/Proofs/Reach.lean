import Mathlib.Data.List.Nodup
import Mathlib.Data.List.Pairwise
import ContractLang.Declaration
import ContractLang.Proofs.Nodes
/-!
Where a local variable can be named, read off the tree. A local is in reach of the statements that
follow its declaration in the same block and of all that lie inside these. Where no name is taken
twice, no two locals of one name are in reach of one statement.
-/
namespace ContractLang

namespace Stmt

/-- The variables that a statement itself declares. -/
def vars : Stmt → List VarDecl
  | declare _ vars _ => vars
  | _ => []

/-- The statements inside a statement. -/
def inner : Stmt → List Stmt
  | branch _ _ ⟨onTrue, _⟩ none => allOf onTrue
  | branch _ _ ⟨onTrue, _⟩ (some ⟨onFalse, _⟩) => allOf onTrue ++ allOf onFalse
  | _ => []

theorem all_eq (s : Stmt) : s.all = s :: s.inner := by
  cases s with
  | branch node condition onTrue onFalse => cases onFalse <;> rfl
  | _ => rfl

/-- The blocks that a statement consists of. -/
def blocks : Stmt → List Block
  | branch _ _ onTrue none => [onTrue]
  | branch _ _ onTrue (some onFalse) => [onTrue, onFalse]
  | _ => []

theorem inner_eq (s : Stmt) : s.inner = s.blocks.flatMap (allOf ·.stmts) := by
  cases s with
  | branch node condition onTrue onFalse => cases onFalse <;> simp [inner, blocks]
  | _ => rfl

end Stmt

mutual
theorem Stmt.blocks_induction {P : List Stmt → Prop} (nil : P [])
    (cons : ∀ (s : Stmt) (rest : List Stmt), (∀ b ∈ s.blocks, P b.stmts) → P rest → P (s :: rest))
    (s : Stmt) : ∀ b ∈ s.blocks, P b.stmts := by
  cases s with
  | branch node condition onTrue onFalse =>
    have htrue := Block.induction nil cons onTrue.stmts
    cases onFalse with
    | none => simpa [Stmt.blocks] using htrue
    | some onFalse =>
      have hfalse := Block.induction nil cons onFalse.stmts
      simpa [Stmt.blocks] using ⟨htrue, hfalse⟩
  | _ => simp [Stmt.blocks]

/-- What holds of a block if it holds of the statements after the first and of the blocks in the
first holds of every block. -/
theorem Block.induction {P : List Stmt → Prop} (nil : P [])
    (cons : ∀ (s : Stmt) (rest : List Stmt), (∀ b ∈ s.blocks, P b.stmts) → P rest → P (s :: rest))
    (b : List Stmt) : P b := by
  cases b with
  | nil => exact nil
  | cons s rest => exact cons s rest (s.blocks_induction nil cons) (Block.induction nil cons rest)
end

mutual
/-- The locals of a statement, each with the statements that see it. Those that the statement
itself declares are seen by the statements `after` it. -/
def Stmt.views (after : List NodeId) : Stmt → List (VarDecl × List NodeId)
  | .declare _ vars _ => vars.map (·, after)
  | .branch _ _ ⟨onTrue, _⟩ none => viewsOf onTrue
  | .branch _ _ ⟨onTrue, _⟩ (some ⟨onFalse, _⟩) => viewsOf onTrue ++ viewsOf onFalse
  | .assign .. | .assignAll .. | .giveBack .. => []

def viewsOf : List Stmt → List (VarDecl × List NodeId)
  | [] => []
  | s :: rest => s.views ((allOf rest).map Stmt.id) ++ viewsOf rest
end

mutual
theorem Stmt.views_fst (after : List NodeId) (s : Stmt) :
    (s.views after).map Prod.fst = s.locals := by
  cases s with
  | declare node vars init =>
    rw [Stmt.views, List.map_map, Stmt.locals]
    exact List.map_id vars
  | branch node condition onTrue onFalse =>
    cases onFalse with
    | none => exact viewsOf_fst onTrue.stmts
    | some onFalse =>
      rw [Stmt.views, List.map_append, viewsOf_fst onTrue.stmts, viewsOf_fst onFalse.stmts,
        Stmt.locals]
  | _ => rfl

theorem viewsOf_fst (b : List Stmt) : (viewsOf b).map Prod.fst = localsOf b := by
  cases b with
  | nil => rfl
  | cons s rest => rw [viewsOf, List.map_append, s.views_fst, viewsOf_fst rest, localsOf]
end

/-! ### Names that may not be declared -/

/-- What is reported of a name by itself. -/
def nameFault (structs : List String) (name : String) (span : Span) : List Diagnostic :=
  if name ∈ reservedWords then [⟨.reservedName name, span⟩]
  else if name ∈ structs then [⟨.structCollision name, span⟩]
  else []

/-- What is reported of a name that is declared where others are taken. -/
def takenFault (taken : List String) (name : String) (span : Span) : List Diagnostic :=
  if name ∈ taken then [⟨.duplicate name, span⟩] else []

/-- What is reported of variables that are declared one after the other. -/
def varFaults (structs taken : List String) : List VarDecl → List Diagnostic
  | [] => []
  | v :: rest =>
    nameFault structs v.name.text v.node.span ++ takenFault taken v.name.text v.node.span ++
      varFaults structs (taken ++ [v.name.text]) rest

mutual
/-- What is reported of the locals of a statement, where some names are taken. -/
def Stmt.localFaults (structs taken : List String) : Stmt → List Diagnostic
  | .declare _ vars _ => varFaults structs taken vars
  | .branch _ _ ⟨onTrue, _⟩ none => localFaultsOf structs taken onTrue
  | .branch _ _ ⟨onTrue, _⟩ (some ⟨onFalse, _⟩) =>
    localFaultsOf structs taken onTrue ++ localFaultsOf structs taken onFalse
  | .assign .. | .assignAll .. | .giveBack .. => []

/-- The names of a statement's own variables are taken in the statements after it. -/
def localFaultsOf (structs taken : List String) : List Stmt → List Diagnostic
  | [] => []
  | s :: rest =>
    s.localFaults structs taken ++ localFaultsOf structs (taken ++ s.vars.map (·.name.text)) rest
end

/-! ### Statements by their parts -/

theorem Stmt.views_eq (after : List NodeId) (s : Stmt) :
    s.views after = s.vars.map (·, after) ++ s.blocks.flatMap (viewsOf ·.stmts) := by
  cases s with
  | branch node condition onTrue onFalse => cases onFalse <;> simp [Stmt.views, Stmt.vars, Stmt.blocks]
  | _ => simp [Stmt.views, Stmt.vars, Stmt.blocks]

theorem Stmt.locals_eq (s : Stmt) : s.locals = s.vars ++ s.blocks.flatMap (localsOf ·.stmts) := by
  cases s with
  | branch node condition onTrue onFalse => cases onFalse <;> simp [Stmt.locals, Stmt.vars, Stmt.blocks]
  | _ => simp [Stmt.locals, Stmt.vars, Stmt.blocks]

theorem Stmt.localFaults_eq (structs taken : List String) (s : Stmt) :
    s.localFaults structs taken =
      varFaults structs taken s.vars ++ s.blocks.flatMap (localFaultsOf structs taken ·.stmts) := by
  cases s with
  | branch node condition onTrue onFalse =>
    cases onFalse <;> simp [Stmt.localFaults, Stmt.vars, Stmt.blocks, varFaults]
  | _ => simp [Stmt.localFaults, Stmt.vars, Stmt.blocks, varFaults]

/-! ### Lexical reach -/

/-- The blocks of a body: the body itself and those inside its statements. -/
inductive BlockIn (body : List Stmt) : List Stmt → Prop where
  | whole : BlockIn body body
  | inside {b : List Stmt} {s : Stmt} {b' : Block} :
    BlockIn body b → s ∈ b → b' ∈ s.blocks → BlockIn body b'.stmts

/-- A statement can name a local if it stands, alone or inside another statement, behind the
declaration in one block. -/
def InReach (body : List Stmt) (s : Stmt) (v : VarDecl) : Prop :=
  ∃ before declaring after, BlockIn body (before ++ declaring :: after) ∧ v ∈ declaring.vars ∧
    ∃ next ∈ after, s ∈ next.all

theorem mem_viewsOf_append {view : VarDecl × List NodeId} (before : List Stmt) (s : Stmt)
    (after : List Stmt) (h : view ∈ s.views ((allOf after).map Stmt.id)) :
    view ∈ viewsOf (before ++ s :: after) := by
  induction before with
  | nil => exact List.mem_append_left _ h
  | cons s' before ih => exact List.mem_append_right _ ih

theorem BlockIn.views {body b : List Stmt} (hb : BlockIn body b) {view : VarDecl × List NodeId}
    (h : view ∈ viewsOf b) : view ∈ viewsOf body := by
  induction hb with
  | whole => exact h
  | inside hb hs hb' ih =>
    obtain ⟨before, after, rfl⟩ := List.append_of_mem hs
    refine ih (mem_viewsOf_append before _ after ?_)
    rw [Stmt.views_eq]
    exact List.mem_append_right _ (List.mem_flatMap.2 ⟨_, hb', h⟩)

theorem BlockIn.all {body b : List Stmt} (hb : BlockIn body b) {s : Stmt} (h : s ∈ allOf b) :
    s ∈ allOf body := by
  induction hb with
  | whole => exact h
  | inside hb hs hb' ih =>
    refine ih ?_
    rw [allOf_eq_flatMap]
    refine List.mem_flatMap.2 ⟨_, hs, ?_⟩
    rw [Stmt.all_eq, Stmt.inner_eq]
    exact List.mem_cons_of_mem _ (List.mem_flatMap.2 ⟨_, hb', h⟩)

theorem exists_declaring {body : List Stmt} {v : VarDecl} {ids : List NodeId} (b before : List Stmt)
    (hb : BlockIn body (before ++ b)) (h : (v, ids) ∈ viewsOf b) :
    ∃ before declaring after, BlockIn body (before ++ declaring :: after) ∧ v ∈ declaring.vars ∧
      ids = (allOf after).map Stmt.id := by
  -- `before` are the statements of the same block that stand before `b`.
  induction b using Block.induction generalizing before with
  | nil => cases h
  | cons s rest hblocks hrest =>
    rcases List.mem_append.1 h with h | h
    · rw [Stmt.views_eq] at h
      rcases List.mem_append.1 h with h | h
      · obtain ⟨w, hw, he⟩ := List.mem_map.1 h
        cases he
        exact ⟨before, s, rest, hb, hw, rfl⟩
      · obtain ⟨b', hb', h⟩ := List.mem_flatMap.1 h
        have hs : s ∈ before ++ s :: rest := by simp
        exact hblocks b' hb' [] (.inside hb hs hb') h
    · refine hrest (before ++ [s]) ?_ h
      rwa [List.append_assoc]

/-- The statements that see a local are those that can name it. -/
theorem inReach_iff {body : List Stmt} (hn : ((allOf body).map Stmt.id).Nodup) {s : Stmt}
    (hs : s ∈ allOf body) {v : VarDecl} :
    InReach body s v ↔ ∃ ids, (v, ids) ∈ viewsOf body ∧ s.id ∈ ids := by
  constructor
  · rintro ⟨before, declaring, after, hb, hv, next, hnext, hmem⟩
    refine ⟨(allOf after).map Stmt.id, hb.views (mem_viewsOf_append before declaring after ?_),
      List.mem_map_of_mem ?_⟩
    · rw [Stmt.views_eq]
      exact List.mem_append_left _ (List.mem_map_of_mem hv)
    · rw [allOf_eq_flatMap]
      exact List.mem_flatMap.2 ⟨next, hnext, hmem⟩
  · rintro ⟨ids, hview, hid⟩
    obtain ⟨before, declaring, after, hb, hv, rfl⟩ := exists_declaring body [] .whole hview
    obtain ⟨s', hs', he⟩ := List.mem_map.1 hid
    have hall : s' ∈ allOf (before ++ declaring :: after) := by
      rw [allOf_eq_flatMap, List.flatMap_append, List.flatMap_cons, ← allOf_eq_flatMap after]
      exact List.mem_append_right _ (List.mem_append_right _ hs')
    -- No two statements have one number, so it is `s` that stands behind the declaration.
    obtain rfl := List.inj_on_of_nodup_map hn (hb.all hall) hs he
    rw [allOf_eq_flatMap] at hs'
    obtain ⟨next, hnext, hmem⟩ := List.mem_flatMap.1 hs'
    exact ⟨before, declaring, after, hb, hv, next, hnext, hmem⟩

theorem InReach.mem_locals {body : List Stmt} {s : Stmt} {v : VarDecl} (h : InReach body s v) :
    v ∈ localsOf body := by
  obtain ⟨before, declaring, after, hb, hv, -⟩ := h
  rw [← viewsOf_fst]
  refine List.mem_map.2 ⟨(v, (allOf after).map Stmt.id), ?_, rfl⟩
  refine hb.views (mem_viewsOf_append before declaring after ?_)
  rw [Stmt.views_eq]
  exact List.mem_append_left _ (List.mem_map_of_mem hv)

/-! ### Names that are taken once -/

theorem names_of_varFaults {structs taken : List String} {vars : List VarDecl}
    (h : varFaults structs taken vars = []) :
    (∀ v ∈ vars, v.name.text ∉ taken) ∧ (vars.map (·.name.text)).Nodup := by
  induction vars generalizing taken with
  | nil => simp
  | cons v rest ih =>
    simp only [varFaults, List.append_eq_nil_iff] at h
    obtain ⟨⟨-, htaken⟩, hrest⟩ := h
    obtain ⟨hnot, hnodup⟩ := ih hrest
    have hv : v.name.text ∉ taken := by
      intro hmem
      rw [takenFault, if_pos hmem] at htaken
      cases htaken
    constructor
    · intro w hw
      rcases List.mem_cons.1 hw with rfl | hw
      · exact hv
      · exact fun hmem => hnot w hw (List.mem_append_left _ hmem)
    · refine List.nodup_cons.2 ⟨fun hmem => ?_, hnodup⟩
      obtain ⟨w, hw, he⟩ := List.mem_map.1 hmem
      exact hnot w hw (by simp [he])

theorem names_of_localFaults {structs : List String} {taken : List String} {b : List Stmt}
    (h : localFaultsOf structs taken b = []) : ∀ v ∈ localsOf b, v.name.text ∉ taken := by
  induction b using Block.induction generalizing taken with
  | nil => simp [localsOf]
  | cons s rest hblocks hrest =>
    rw [localFaultsOf, Stmt.localFaults_eq] at h
    simp only [List.append_eq_nil_iff, List.flatMap_eq_nil_iff] at h
    obtain ⟨⟨hvars, hinner⟩, htail⟩ := h
    intro v hv
    rcases List.mem_append.1 hv with hv | hv
    · rw [Stmt.locals_eq] at hv
      rcases List.mem_append.1 hv with hv | hv
      · exact (names_of_varFaults hvars).1 v hv
      · obtain ⟨b', hb', hv⟩ := List.mem_flatMap.1 hv
        exact hblocks b' hb' (hinner b' hb') v hv
    · exact fun hmem => hrest htail v hv (List.mem_append_left _ hmem)

theorem views_subset {b : List Stmt} {view : VarDecl × List NodeId} (h : view ∈ viewsOf b) :
    ∀ id ∈ view.2, id ∈ (allOf b).map Stmt.id := by
  obtain ⟨v, ids⟩ := view
  obtain ⟨before, declaring, after, hb, -, rfl⟩ := exists_declaring b [] .whole h
  intro id hid
  obtain ⟨s, hs, rfl⟩ := List.mem_map.1 hid
  refine List.mem_map_of_mem (hb.all ?_)
  rw [allOf_eq_flatMap, List.flatMap_append, List.flatMap_cons, ← allOf_eq_flatMap after]
  exact List.mem_append_right _ (List.mem_append_right _ hs)

/-- No statement sees both. -/
def Separate (view view' : VarDecl × List NodeId) : Prop :=
  view.1.name.text = view'.1.name.text → ∀ id ∈ view.2, id ∉ view'.2

theorem views_separate {structs : List String} {taken : List String} {b : List Stmt}
    (h : localFaultsOf structs taken b = []) (hn : ((allOf b).map Stmt.id).Nodup) :
    (viewsOf b).Pairwise Separate := by
  induction b using Block.induction generalizing taken with
  | nil => exact .nil
  | cons s rest hblocks hrest =>
    rw [localFaultsOf, Stmt.localFaults_eq] at h
    simp only [List.append_eq_nil_iff, List.flatMap_eq_nil_iff] at h
    obtain ⟨⟨hvars, hinner⟩, htail⟩ := h
    rw [allOf, Stmt.all_eq, Stmt.inner_eq, List.cons_append, List.map_cons, List.map_append] at hn
    obtain ⟨hnin, hnrest, hapart⟩ := List.nodup_append.1 (List.nodup_cons.1 hn).2
    rw [List.map_flatMap, List.nodup_flatMap] at hnin
    have hin : ∀ view ∈ s.blocks.flatMap (viewsOf ·.stmts), ∀ id ∈ view.2,
        id ∈ (s.blocks.flatMap (allOf ·.stmts)).map Stmt.id := by
      intro view hview id hid
      obtain ⟨b, hb, hview⟩ := List.mem_flatMap.1 hview
      rw [List.map_flatMap]
      exact List.mem_flatMap.2 ⟨b, hb, views_subset hview id hid⟩
    have hown : (s.vars.map (·, (allOf rest).map Stmt.id)).Pairwise Separate := by
      refine List.pairwise_map.2 ((List.pairwise_map.1 (names_of_varFaults hvars).2).imp ?_)
      exact fun hne he => absurd he hne
    have hnested : (s.blocks.flatMap (viewsOf ·.stmts)).Pairwise Separate := by
      refine List.pairwise_flatMap.2 ⟨fun b hb => hblocks b hb (hinner b hb) (hnin.1 b hb), ?_⟩
      refine hnin.2.imp fun hdisjoint view hview view' hview' _ id hid hid' => ?_
      exact hdisjoint (views_subset hview id hid) (views_subset hview' id hid')
    have hlater : (viewsOf rest).Pairwise Separate := hrest htail hnrest
    rw [viewsOf, Stmt.views_eq]
    refine List.pairwise_append.2 ⟨List.pairwise_append.2 ⟨hown, hnested, ?_⟩, hlater, ?_⟩
    · -- The variables of a statement are seen behind it, those of its blocks inside it.
      intro view hview view' hview' _ id hid hid'
      obtain ⟨v, -, rfl⟩ := List.mem_map.1 hview
      exact hapart id (hin view' hview' id hid') id hid rfl
    · -- Behind a statement its own names are taken, and what its blocks declare is not seen.
      intro view hview view' hview' he id hid hid'
      rcases List.mem_append.1 hview with hview | hview
      · obtain ⟨v, hv, rfl⟩ := List.mem_map.1 hview
        have hlocal : view'.1 ∈ localsOf rest := by
          rw [← viewsOf_fst]
          exact List.mem_map_of_mem hview'
        refine names_of_localFaults htail view'.1 hlocal (List.mem_append_right _ ?_)
        exact List.mem_map.2 ⟨v, hv, he⟩
      · exact hapart id (hin view hview id hid) id (views_subset hview' id hid') rfl

/-- No two locals of one name are in reach of one statement. -/
theorem inReach_unique {structs taken : List String} {body : List Stmt}
    (h : localFaultsOf structs taken body = []) (hn : ((allOf body).map Stmt.id).Nodup) {s : Stmt}
    (hs : s ∈ allOf body) {v w : VarDecl} (hv : InReach body s v) (hw : InReach body s w)
    (he : v.name.text = w.name.text) : v = w := by
  obtain ⟨ids, hview, hid⟩ := (inReach_iff hn hs).1 hv
  obtain ⟨ids', hview', hid'⟩ := (inReach_iff hn hs).1 hw
  refine Classical.byContradiction fun hne => ?_
  have hsym : Std.Symm Separate := ⟨fun _ _ hsep he id hid hid' => hsep he.symm id hid' hid⟩
  have hpair : (v, ids) ≠ (w, ids') := fun heq => hne (congrArg Prod.fst heq)
  exact (views_separate h hn).forall hview hview' hpair he s.id hid hid'

end ContractLang
