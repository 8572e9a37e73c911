import ContractLang.Declaration
import ContractLang.Annotation
/-!
Walks over the bodies of functions in simpler words. Of the blocks that are open while locals are
declared only the locals in reach matter, so the walk can hand these down and needs no stack. The
walk that gives locals their types comes by the locals in the order of their declarations.
-/
namespace ContractLang

open Pass

/-! ### Steps that agree -/

/-- Two steps that do the same and give values that belong together. -/
def Pass.Agrees {α β : Type} (R : α → β → Prop) (x : Pass α) (y : Pass β) : Prop :=
  ∀ t, (∃ a b t' ds, x.run t = .ok ⟨a, t', ds⟩ ∧ y.run t = .ok ⟨b, t', ds⟩ ∧ R a b) ∨
    ∃ e, x.run t = .error e ∧ y.run t = .error e

namespace Pass
variable {α β γ δ : Type} {R : α → β → Prop} {S : γ → δ → Prop}

theorem agrees_refl (x : Pass α) : Agrees Eq x x := by
  intro t
  cases hx : x.run t with
  | error e => exact .inr ⟨e, rfl, rfl⟩
  | ok u => exact .inl ⟨u.value, u.value, u.table, u.diagnostics, rfl, rfl, rfl⟩

theorem agrees_pure {a : α} {b : β} (h : R a b) : Agrees R (pure a) (pure b) := fun t =>
  .inl ⟨a, b, t, [], rfl, rfl, h⟩

theorem agrees_bind {x : Pass α} {y : Pass β} {f : α → Pass γ} {g : β → Pass δ}
    (hxy : Agrees R x y) (hfg : ∀ a b, R a b → Agrees S (f a) (g b)) :
    Agrees S (x >>= f) (y >>= g) := by
  intro t
  change (∃ a b t' ds, (x.andThen f).run t = _ ∧ (y.andThen g).run t = _ ∧ _) ∨
    ∃ e, (x.andThen f).run t = _ ∧ (y.andThen g).run t = _
  rcases hxy t with ⟨a, b, t₁, ds₁, hx, hy, hab⟩ | ⟨e, hx, hy⟩
  · rcases hfg a b hab t₁ with ⟨c, d, t₂, ds₂, hf, hg, hcd⟩ | ⟨e, hf, hg⟩
    · exact .inl ⟨c, d, t₂, ds₁ ++ ds₂, by simp [andThen, hx, hf], by simp [andThen, hy, hg], hcd⟩
    · exact .inr ⟨e, by simp [andThen, hx, hf], by simp [andThen, hy, hg]⟩
  · exact .inr ⟨e, by simp [andThen, hx], by simp [andThen, hy]⟩

theorem eq_of_agrees {x y : Pass α} (h : Agrees Eq x y) : x = y := by
  cases x with
  | mk f =>
    cases y with
    | mk g =>
      refine congrArg Pass.mk (funext fun t => ?_)
      rcases h t with ⟨a, _, t', ds, hx, hy, rfl⟩ | ⟨e, hx, hy⟩
      · exact hx.trans hy.symm
      · exact hx.trans hy.symm

end Pass

/-! ### Locals in reach -/

/-- Declares the variables of one statement, and gives the locals in reach after it. -/
def declareLocals (c : BodyContext) (reach : List SymbolId) : List VarDecl → Pass (List SymbolId)
  | [] => return reach
  | v :: rest => do
    let id ← v.declareAsLocal c reach
    declareLocals c (reach ++ [id]) rest

mutual
/-- Declares the locals of a statement, and gives those in reach after it. What an inner block
declares is not in reach behind that block. -/
def Stmt.declareLocals (c : BodyContext) (reach : List SymbolId) : Stmt → Pass (List SymbolId)
  | .declare _ vars _ => ContractLang.declareLocals c reach vars
  | .branch _ _ ⟨onTrue, _⟩ none => do
    declareLocalsIn c reach onTrue
    return reach
  | .branch _ _ ⟨onTrue, _⟩ (some ⟨onFalse, _⟩) => do
    declareLocalsIn c reach onTrue
    declareLocalsIn c reach onFalse
    return reach
  | .assign .. | .assignAll .. | .giveBack .. => return reach

def declareLocalsIn (c : BodyContext) (reach : List SymbolId) : List Stmt → Pass Unit
  | [] => pure ()
  | s :: rest => do
    showTo s.id reach
    let reach ← s.declareLocals c reach
    declareLocalsIn c reach rest
end

/-! ### Open blocks as the locals in reach -/

namespace OpenBlocks

theorem reach_append (outer : OpenBlocks) (inner : List SymbolId) :
    reach (outer ++ [inner]) = outer.reach ++ inner := by
  simp [reach]

theorem leave_append (outer : OpenBlocks) (inner : List SymbolId) :
    leave (outer ++ [inner]) = outer := List.dropLast_concat

theorem add_append (id : SymbolId) (outer : OpenBlocks) (inner : List SymbolId) :
    add id (outer ++ [inner]) = outer ++ [inner ++ [id]] := by
  induction outer with
  | nil => rfl
  | cons block outer ih => cases outer <;> simp_all [add]

/-- Inside a block the blocks around it stay as they are, and the locals of all are in reach. -/
structure Inside (outer blocks : OpenBlocks) (reach : List SymbolId) : Prop where
  same_outer : ∃ inner, blocks = outer ++ [inner]
  reach_eq : blocks.reach = reach

variable {outer blocks : OpenBlocks} {reach : List SymbolId}

theorem inside_enter (blocks : OpenBlocks) : Inside blocks blocks.enter blocks.reach :=
  ⟨⟨[], rfl⟩, (reach_append blocks []).trans (List.append_nil _)⟩

theorem Inside.add (h : Inside outer blocks reach) (id : SymbolId) :
    Inside outer (blocks.add id) (reach ++ [id]) := by
  obtain ⟨⟨inner, rfl⟩, rfl⟩ := h
  refine ⟨⟨inner ++ [id], add_append id outer inner⟩, ?_⟩
  rw [add_append, reach_append, reach_append, List.append_assoc]

theorem Inside.leave_eq (h : Inside outer blocks reach) : blocks.leave = outer := by
  obtain ⟨⟨inner, rfl⟩, -⟩ := h
  exact leave_append outer inner

end OpenBlocks

open OpenBlocks

theorem discoverVars_agrees (c : BodyContext) (vs : List VarDecl) {outer blocks : OpenBlocks}
    {reach : List SymbolId} (h : Inside outer blocks reach) :
    Agrees (Inside outer) (discoverVars c blocks vs) (declareLocals c reach vs) := by
  induction vs generalizing blocks reach with
  | nil => exact agrees_pure h
  | cons v rest ih =>
    rw [discoverVars, declareLocals, h.reach_eq]
    apply agrees_bind (agrees_refl _)
    rintro id _ rfl
    exact ih (h.add id)

-- Each inner block is entered with the blocks around it open and leaves them as they were, so
-- behind it the statement is still inside `outer`.
mutual
theorem Stmt.discoverLocals_agrees (c : BodyContext) (s : Stmt) {outer blocks : OpenBlocks}
    {reach : List SymbolId} (h : Inside outer blocks reach) :
    Agrees (Inside outer) (s.discoverLocals c blocks) (s.declareLocals c reach) := by
  cases s with
  | declare node vars init => exact discoverVars_agrees c vars h
  | assign node target value => exact agrees_pure h
  | assignAll node targets source => exact agrees_pure h
  | branch node condition onTrue onFalse =>
    have htrue := discoverBlock_agrees c onTrue blocks
    rw [h.reach_eq] at htrue
    cases onFalse with
    | none =>
      rw [Stmt.discoverLocals, Stmt.declareLocals, ← bind_pure (discoverBlock c blocks onTrue)]
      apply agrees_bind htrue
      rintro _ _ rfl
      exact agrees_pure h
    | some onFalse =>
      have hfalse := discoverBlock_agrees c onFalse blocks
      rw [h.reach_eq] at hfalse
      rw [Stmt.discoverLocals, Stmt.declareLocals]
      apply agrees_bind htrue
      rintro _ _ rfl
      rw [← bind_pure (discoverBlock c _ onFalse)]
      apply agrees_bind hfalse
      rintro _ _ rfl
      exact agrees_pure h
  | giveBack node values => exact agrees_pure h

/-- Behind a block just those blocks are open that were open before it. -/
theorem discoverBlock_agrees (c : BodyContext) (b : Block) (blocks : OpenBlocks) :
    Agrees (fun after _ => after = blocks) (discoverBlock c blocks b)
      (declareLocalsIn c blocks.reach b.stmts) := by
  cases b with
  | mk stmts span =>
    rw [discoverBlock, ← bind_pure (declareLocalsIn c blocks.reach stmts)]
    exact agrees_bind (discoverStmts_agrees c stmts (inside_enter blocks))
      fun _ _ h => agrees_pure h

theorem discoverStmts_agrees (c : BodyContext) (b : List Stmt) {outer blocks : OpenBlocks}
    {reach : List SymbolId} (h : Inside outer blocks reach) :
    Agrees (fun after _ => after.leave = outer) (discoverStmts c blocks b)
      (declareLocalsIn c reach b) := by
  cases b with
  | nil => exact agrees_pure h.leave_eq
  | cons s rest =>
    rw [discoverStmts, declareLocalsIn, h.reach_eq]
    apply agrees_bind (agrees_refl _)
    rintro _ _ -
    exact agrees_bind (s.discoverLocals_agrees c h) fun _ _ h => discoverStmts_agrees c rest h
end

/-- No block is open around the body of a function, so nothing is in reach where it starts. -/
theorem Callable.declare_eq (structs : List String) (outer : ScopeId) (c : Callable) :
    c.declare structs outer = (do
      c.checkName outer
      let owner ← declareOwner outer c.declaredName c.node .function
        (.function ⟨·, c.name.isNone, [], [], []⟩)
      c.params.forM (·.declareAsParam ⟨structs, owner.symbol, owner.inner⟩)
      declareLocalsIn ⟨structs, owner.symbol, owner.inner⟩ [] c.body.stmts
      return owner.symbol) := by
  unfold Callable.declare
  congr 1; funext _
  congr 1; funext owner
  congr 1; funext _
  apply eq_of_agrees
  exact agrees_bind (discoverBlock_agrees _ c.body []) fun _ _ _ => agrees_pure rfl

/-! ### Types in the order of the locals -/

mutual
theorem Stmt.resolveTypes_eq (s : Stmt) : s.resolveTypes = s.locals.forM (·.resolveType) := by
  cases s with
  | declare node vars init => rfl
  | assign node target value => rfl
  | assignAll node targets source => rfl
  | branch node condition onTrue onFalse =>
    cases onFalse with
    | none => exact resolveTypesIn_eq onTrue.stmts
    | some onFalse =>
      rw [Stmt.resolveTypes, resolveTypesIn_eq onTrue.stmts, resolveTypesIn_eq onFalse.stmts]
      exact List.forM_append.symm
  | giveBack node values => rfl

theorem resolveTypesIn_eq (b : List Stmt) :
    resolveTypesIn b = (localsOf b).forM (·.resolveType) := by
  cases b with
  | nil => rfl
  | cons s rest =>
    rw [resolveTypesIn, s.resolveTypes_eq, resolveTypesIn_eq rest]
    exact List.forM_append.symm
end

end ContractLang
