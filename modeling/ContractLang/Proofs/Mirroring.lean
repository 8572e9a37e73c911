import ContractLang.Proofs.Renaming
import ContractLang.Proofs.Steps
import ContractLang.Proofs.Walks
/-!
Two runs side by side, one on a table and one on the renamed table. `Pass.Mirrors` says that they end
in the same way. It passes from steps to their sequences, and so to declaring and resolving a program
and its renamed twin.
-/
namespace ContractLang

def Diagnostic.rename (ρ : Renaming) (d : Diagnostic) : Diagnostic := ⟨d.cause, ρ.span d.span⟩

def Outcome.rename {α : Type} (ρ : Renaming) (u : Outcome α) : Outcome α :=
  ⟨u.value, u.table.rename ρ, u.diagnostics.map (·.rename ρ)⟩

namespace Pass
variable {ρ : Renaming} {α β γ : Type}

/-- The second step does to renamed tables what the first does to tables. -/
def Mirrors (ρ : Renaming) (x x' : Pass α) : Prop :=
  ∀ t, t.Started → x'.run (t.rename ρ) = (x.run t).map (·.rename ρ) ∧
    ∀ u, x.run t = .ok u → u.table.Started

/-! ### Sequences of steps -/

theorem mirrors_pure (a : α) : Mirrors ρ (pure a) (pure a) := by
  intro t ht
  refine ⟨rfl, ?_⟩
  intro u hu
  cases hu
  exact ht

theorem mirrors_bind {x x' : Pass α} {f f' : α → Pass β} (hx : Mirrors ρ x x')
    (hf : ∀ a, Mirrors ρ (f a) (f' a)) : Mirrors ρ (x >>= f) (x' >>= f') := by
  intro t ht
  obtain ⟨hrun, hstarted⟩ := hx t ht
  constructor
  · change (x'.andThen f').run (t.rename ρ) = ((x.andThen f).run t).map (·.rename ρ)
    unfold andThen
    dsimp only
    rw [hrun]
    cases hu : x.run t with
    | error e => rfl
    | ok u =>
      have hnext := (hf u.value u.table (hstarted u hu)).1
      dsimp only [Except.map, Outcome.rename]
      rw [hnext]
      cases (f u.value).run u.table with
      | error e => rfl
      | ok v => simp only [Except.map, Outcome.rename, List.map_append]
  · intro w hw
    obtain ⟨u, v, hu, hv, rfl⟩ := run_bind_eq_ok.1 hw
    exact (hf u.value u.table (hstarted u hu)).2 v hv

theorem mirrors_forM {f : α → Pass Unit} {f' : β → Pass Unit} (r : α → β)
    (hf : ∀ a, Mirrors ρ (f a) (f' (r a))) (xs : List α) :
    Mirrors ρ (xs.forM f) ((xs.map r).forM f') := by
  induction xs with
  | nil => exact mirrors_pure ()
  | cons a rest ih => exact mirrors_bind (hf a) fun _ => ih

theorem mirrors_mapM {f : α → Pass γ} {f' : β → Pass γ} (r : α → β)
    (hf : ∀ a, Mirrors ρ (f a) (f' (r a))) (xs : List α) :
    Mirrors ρ (xs.mapM f) ((xs.map r).mapM f') := by
  induction xs with
  | nil => exact mirrors_pure []
  | cons a rest ih =>
    rw [List.map_cons, List.mapM_cons, List.mapM_cons]
    apply mirrors_bind (hf a)
    intro c
    exact mirrors_bind ih fun cs => mirrors_pure (c :: cs)

theorem mirrors_option {f : α → Pass Unit} {f' : β → Pass Unit} (r : α → β)
    (hf : ∀ a, Mirrors ρ (f a) (f' (r a))) (a : Option α) :
    Mirrors ρ (a.forM f) ((a.map r).forM f') := by
  cases a with
  | none => exact mirrors_pure ()
  | some a => exact hf a

/-! ### Single steps -/

theorem mirrors_report (cause : Cause) (span : Span) :
    Mirrors ρ (report cause span) (report cause (ρ.span span)) := by
  intro t ht
  refine ⟨rfl, ?_⟩
  intro u hu
  cases hu
  exact ht

theorem mirrors_reportIf (p : Prop) [Decidable p] (cause : Cause) (span : Span) :
    Mirrors ρ (reportIf p cause span) (reportIf p cause (ρ.span span)) := by
  unfold reportIf
  split
  · exact mirrors_report cause span
  · exact mirrors_pure ()

theorem mirrors_state {f f' : Table → Except Dangling (α × Table)}
    (hf : ∀ t, t.Started → f' (t.rename ρ) = (f t).map fun p => (p.1, p.2.rename ρ))
    (hlen : ∀ t p, f t = .ok p → t.symbols.length ≤ p.2.symbols.length) :
    Mirrors ρ (state f) (state f') := by
  intro t ht
  constructor
  · unfold state
    dsimp only
    rw [hf t ht]
    cases f t <;> rfl
  · intro u hu
    obtain ⟨a, t', hfa, rfl⟩ := run_state_eq_ok.1 hu
    exact Nat.le_trans ht (hlen t _ hfa)

theorem mirrors_update {f f' : Table → Except Dangling Table}
    (hf : ∀ t, f' (t.rename ρ) = (f t).map (·.rename ρ))
    (hlen : ∀ t t', f t = .ok t' → t'.symbols.length = t.symbols.length) :
    Mirrors ρ (update f) (update f') := by
  apply mirrors_state
  · intro t _
    rw [hf t]
    cases f t <;> rfl
  · intro t p hp
    cases h : f t with
    | error e =>
      rw [h] at hp
      cases hp
    | ok t' =>
      rw [h] at hp
      cases hp
      exact Nat.le_of_eq (hlen t t' h).symm

/-- A step that cannot fail and leaves the symbols alone. -/
theorem mirrors_ok {f f' : Table → α × Table}
    (hf : ∀ t, f' (t.rename ρ) = ((f t).1, (f t).2.rename ρ))
    (hsymbols : ∀ t, (f t).2.symbols = t.symbols) :
    Mirrors ρ (state fun t => .ok (f t)) (state fun t => .ok (f' t)) := by
  apply mirrors_state
  · intro t _
    rw [hf t]
    rfl
  · intro t p hp
    cases hp
    exact Nat.le_of_eq (congrArg List.length (hsymbols t).symm)

theorem mirrors_adjust {f f' : Table → Table} (hf : ∀ t, f' (t.rename ρ) = (f t).rename ρ)
    (hsymbols : ∀ t, (f t).symbols = t.symbols) : Mirrors ρ (adjust f) (adjust f') :=
  mirrors_ok (fun t => congrArg ((), ·) (hf t)) hsymbols

/-- What is asked of the renamed table may be another answer, as long as the rest depends on it in
the same way. -/
theorem mirrors_query_bind {g g' : Table → Except Dangling α} {r : α → α} {f f' : α → Pass β}
    (hg : ∀ t, g' (t.rename ρ) = (g t).map r) (hf : ∀ a, Mirrors ρ (f a) (f' (r a))) :
    Mirrors ρ (query g >>= f) (query g' >>= f') := by
  have hrun : ∀ (k : Table → Except Dangling α) (h : α → Pass β) (t : Table),
      (query k >>= h).run t = (k t).bind fun a => (h a).run t := by
    intro k h t
    change ((query k).andThen h).run t = _
    dsimp only [andThen, query, state]
    cases k t with
    | error e => rfl
    | ok a =>
      dsimp only [Except.map, Except.bind]
      cases (h a).run t <;> rfl
  intro t ht
  rw [hrun, hrun, hg t]
  cases g t with
  | error e => exact ⟨rfl, fun _ hu => nomatch hu⟩
  | ok a => exact hf a t ht

theorem mirrors_query {g g' : Table → Except Dangling α} (hg : ∀ t, g' (t.rename ρ) = g t) :
    Mirrors ρ (query g) (query g') := by
  have hid : ∀ t, g' (t.rename ρ) = (g t).map id := by
    intro t
    rw [hg t]
    cases g t <;> rfl
  have hbind : Mirrors ρ (query g >>= pure) (query g' >>= pure) := mirrors_query_bind hid mirrors_pure
  rwa [bind_pure, bind_pure] at hbind

theorem mirrors_view {g g' : Table → α} (hg : ∀ t, g' (t.rename ρ) = g t) :
    Mirrors ρ (view g) (view g') :=
  mirrors_ok (fun t => congrArg (·, t.rename ρ) (hg t)) fun _ => rfl

theorem mirrors_updateKind (id : SymbolId) {f f' : SymbolKind → SymbolKind}
    (hf : SymbolKind.Matches ρ f f') :
    Mirrors ρ (update (·.updateKind id f)) (update (·.updateKind id f')) :=
  mirrors_update (fun t => t.rename_updateKind ρ id hf) fun _ _ => Table.length_updateKind

theorem mirrors_updateContract (f : ContractRecord → ContractRecord) :
    Mirrors ρ (update (·.updateContract f)) (update (·.updateContract f)) :=
  mirrors_update (fun t => t.rename_updateContract ρ f) fun _ _ => Table.length_updateContract

theorem mirrors_noteType (node : NodeId) (type : SymbolId) :
    Mirrors ρ (noteType node type) (noteType (ρ.node node) type) :=
  mirrors_ok (fun t => congrArg (some type, ·) (t.rename_noteType ρ node type)) fun _ => rfl

theorem mirrors_declaredBy (node : NodeId) :
    Mirrors ρ (view (·.declaredBy? node)) (view (·.declaredBy? (ρ.node node))) :=
  mirrors_view fun t => t.declaredBy?_rename ρ node

theorem mirrors_boundTo (node : NodeId) :
    Mirrors ρ (view (·.boundTo? node)) (view (·.boundTo? (ρ.node node))) :=
  mirrors_view fun t => t.boundTo?_rename ρ node

theorem mirrors_typeAt (node : NodeId) :
    Mirrors ρ (view (·.typeAt? node)) (view (·.typeAt? (ρ.node node))) :=
  mirrors_view fun t => t.typeAt?_rename ρ node

theorem mirrors_kindOf (id : SymbolId) {f f' : SymbolKind → Pass α}
    (hf : ∀ k, Mirrors ρ (f k) (f' (k.rename ρ))) :
    Mirrors ρ (query (·.kindOf id) >>= f) (query (·.kindOf id) >>= f') :=
  mirrors_query_bind (fun t => t.kindOf_rename ρ id) hf

theorem mirrors_nameOf (id : SymbolId) :
    Mirrors ρ (query (·.nameOf id)) (query (·.nameOf id)) :=
  mirrors_query fun t => t.nameOf_rename ρ id

theorem mirrors_function (id : SymbolId) :
    Mirrors ρ (query (·.function? id)) (query (·.function? id)) :=
  mirrors_query fun t => t.function?_rename ρ id

theorem mirrors_valueType (id : SymbolId) :
    Mirrors ρ (query (·.valueType? id)) (query (·.valueType? id)) :=
  mirrors_query fun t => t.valueType?_rename ρ id

theorem mirrors_element (type : SymbolId) :
    Mirrors ρ (query (·.element? type)) (query (·.element? type)) :=
  mirrors_query fun t => t.element?_rename ρ type

/-! ### Written types -/

theorem mirrors_typeNamed (type : TypeName) :
    Mirrors ρ (state (·.typeNamed type)) (state (·.typeNamed (type.rename ρ))) := by
  induction type with
  | named span name =>
    rw [TypeName.rename, state_typeNamed_named, state_typeNamed_named]
    apply mirrors_bind (mirrors_query fun t => t.memberScope_rename ρ)
    intro scope
    apply mirrors_bind (mirrors_query fun t => t.lookup_rename ρ scope name)
    intro found
    cases found with
    | none => exact mirrors_pure none
    | some id =>
      apply mirrors_kindOf id
      intro k
      rw [k.isType_rename ρ]
      exact mirrors_pure _
  | array span element ih =>
    rw [TypeName.rename, state_typeNamed_array, state_typeNamed_array]
    apply mirrors_bind ih
    intro found
    cases found with
    | none => exact mirrors_pure none
    | some id =>
      apply mirrors_bind
        (mirrors_state (fun t _ => t.rename_arrayOf ρ id) fun _ _ => Table.length_arrayOf)
      intro array
      exact mirrors_pure (some array)
  | map span key value ihk ihv =>
    rw [TypeName.rename, state_typeNamed_map, state_typeNamed_map]
    apply mirrors_bind ihk
    intro found
    cases found with
    | none => exact mirrors_pure none
    | some k =>
      apply mirrors_bind ihv
      intro found
      cases found with
      | none => exact mirrors_pure none
      | some v =>
        apply mirrors_bind
          (mirrors_state (fun t _ => t.rename_mapOf ρ k v) fun _ _ => Table.length_mapOf)
        intro map
        exact mirrors_pure (some map)
  | void span => exact mirrors_ok (f := fun t => (none, t)) (fun _ => rfl) fun _ => rfl

/-! ### Declarations -/

theorem mirrors_checkName (structs : List String) (name : String) (span : Span) :
    Mirrors ρ (checkName structs name span) (checkName structs name (ρ.span span)) := by
  unfold checkName
  split
  · exact mirrors_report _ span
  · split
    · exact mirrors_report _ span
    · exact mirrors_pure ()

theorem mirrors_checkUntaken (scope : ScopeId) (name : String) (span : Span) :
    Mirrors ρ (checkUntaken scope name span) (checkUntaken scope name (ρ.span span)) := by
  apply mirrors_bind (mirrors_query fun t => rfl)
  intro earlier
  exact mirrors_reportIf _ _ span

theorem mirrors_declareNode (scope : ScopeId) (name : String) (node : Node) (kind : SymbolKind)
    (hk : ¬kind.IsStructural) :
    Mirrors ρ (declareNode scope name node kind)
      (declareNode scope name (node.rename ρ) (kind.rename ρ)) := by
  have hdeclare : Mirrors ρ (state (·.declare scope name node.span kind))
      (state (·.declare scope name (ρ.span node.span) (kind.rename ρ))) := by
    apply mirrors_state
    · intro t ht
      exact Table.rename_declare ρ ht scope name node.span hk
    · intro t p hp
      have hlen := Table.length_declare hp
      omega
  apply mirrors_bind hdeclare
  intro id
  have hnote : Mirrors ρ (adjust (·.noteDeclaration node.id id))
      (adjust (·.noteDeclaration (ρ.node node.id) id)) :=
    mirrors_adjust (fun t => t.rename_noteDeclaration ρ node.id id) fun _ => rfl
  apply mirrors_bind hnote
  intro _
  exact mirrors_pure id

theorem mirrors_declareOwner (outer : ScopeId) (name : String) (node : Node) (scopeKind : ScopeKind)
    {kind : ScopeId → SymbolKind} (hk : ∀ i, (kind i).rename ρ = kind i ∧ ¬(kind i).IsStructural) :
    Mirrors ρ (declareOwner outer name node scopeKind kind)
      (declareOwner outer name (node.rename ρ) scopeKind kind) := by
  have hopen : Mirrors ρ (state fun t => .ok (t.addScope scopeKind (some outer)))
      (state fun t => .ok (t.addScope scopeKind (some outer))) :=
    mirrors_ok (fun _ => rfl) fun _ => rfl
  apply mirrors_bind hopen
  intro inner
  have hnode : Mirrors ρ (declareNode outer name node (kind inner))
      (declareNode outer name (node.rename ρ) ((kind inner).rename ρ)) :=
    mirrors_declareNode outer name node (kind inner) (hk inner).2
  rw [(hk inner).1] at hnode
  apply mirrors_bind hnode
  intro id
  apply mirrors_bind (mirrors_update (fun t => t.rename_updateScope ρ inner _) fun _ _ =>
    Table.length_updateScope)
  intro _
  exact mirrors_pure _

end Pass

open Pass

section
variable (ρ : Renaming)

theorem FieldDecl.declare_mirrors (structs : List String) (scope : ScopeId) (f : FieldDecl) :
    Mirrors ρ (f.declare structs scope) ((f.rename ρ).declare structs scope) := by
  apply mirrors_bind (mirrors_checkName structs f.name.text f.node.span)
  intro _
  apply mirrors_bind (mirrors_checkUntaken scope f.name.text f.node.span)
  intro _
  exact mirrors_declareNode scope f.name.text f.node (.field none) id

theorem StructDecl.declare_mirrors (structs : List String) (outer : ScopeId) (s : StructDecl) :
    Mirrors ρ (s.declare structs outer) ((s.rename ρ).declare structs outer) := by
  apply mirrors_bind (mirrors_checkName [] s.name.text s.node.span)
  intro _
  apply mirrors_bind (mirrors_checkUntaken outer s.name.text s.node.span)
  intro _
  apply mirrors_bind (mirrors_declareOwner outer s.name.text s.node .struct fun _ => ⟨rfl, id⟩)
  intro owner
  have hfield : ∀ f : FieldDecl, Mirrors ρ
      (do
        let field ← f.declare structs owner.inner
        update (·.updateKind owner.symbol (·.addStructField field)))
      (do
        let field ← (f.rename ρ).declare structs owner.inner
        update (·.updateKind owner.symbol (·.addStructField field))) := by
    intro f
    apply mirrors_bind (f.declare_mirrors ρ structs owner.inner)
    intro field
    exact mirrors_updateKind owner.symbol (SymbolKind.matches_addStructField ρ field)
  apply mirrors_bind (mirrors_forM (·.rename ρ) hfield s.fields)
  intro _
  exact mirrors_pure owner.symbol

theorem VarDecl.declareAsParam_mirrors (c : BodyContext) (v : VarDecl) :
    Mirrors ρ (v.declareAsParam c) ((v.rename ρ).declareAsParam c) := by
  apply mirrors_bind (mirrors_checkName c.structs v.name.text v.node.span)
  intro _
  apply mirrors_bind (mirrors_checkUntaken c.scope v.name.text v.node.span)
  intro _
  apply mirrors_bind (mirrors_declareNode c.scope v.name.text v.node (.parameter none) id)
  intro param
  exact mirrors_updateKind c.function (SymbolKind.matches_mapFunction ρ (·.addParam param))

theorem VarDecl.declareAsLocal_mirrors (c : BodyContext) (reach : List SymbolId) (v : VarDecl) :
    Mirrors ρ (v.declareAsLocal c reach) ((v.rename ρ).declareAsLocal c reach) := by
  apply mirrors_bind (mirrors_checkName c.structs v.name.text v.node.span)
  intro _
  apply mirrors_bind (mirrors_query fun t => t.takenNames_rename ρ c.function reach)
  intro taken
  apply mirrors_bind (mirrors_reportIf (v.name.text ∈ taken) _ v.node.span)
  intro _
  apply mirrors_bind (mirrors_declareNode c.scope v.name.text v.node (.localVar none []) id)
  intro var
  apply mirrors_bind
    (mirrors_updateKind c.function (SymbolKind.matches_mapFunction ρ (·.addLocal var)))
  intro _
  exact mirrors_pure var

theorem declareLocals_mirrors (c : BodyContext) (reach : List SymbolId) (vars : List VarDecl) :
    Mirrors ρ (declareLocals c reach vars) (declareLocals c reach (vars.map (·.rename ρ))) := by
  induction vars generalizing reach with
  | nil => exact mirrors_pure reach
  | cons v rest ih =>
    apply mirrors_bind (v.declareAsLocal_mirrors ρ c reach)
    intro id
    exact ih (reach ++ [id])

theorem showTo_mirrors (stmt : NodeId) (reach : List SymbolId) :
    Mirrors ρ (showTo stmt reach) (showTo (ρ.node stmt) reach) := by
  induction reach with
  | nil => exact mirrors_pure ()
  | cons i rest ih =>
    apply mirrors_bind (mirrors_updateKind i (SymbolKind.matches_addVisibility ρ stmt))
    intro _
    exact ih

mutual
theorem Stmt.declareLocals_mirrors (c : BodyContext) (reach : List SymbolId) (s : Stmt) :
    Mirrors ρ (s.declareLocals c reach) ((s.rename ρ).declareLocals c reach) := by
  cases s with
  | declare node vars init => exact ContractLang.declareLocals_mirrors ρ c reach vars
  | branch node condition onTrue onFalse =>
    cases onFalse with
    | none =>
      apply mirrors_bind (declareLocalsIn_mirrors c reach onTrue.stmts)
      intro _
      exact mirrors_pure reach
    | some onFalse =>
      apply mirrors_bind (declareLocalsIn_mirrors c reach onTrue.stmts)
      intro _
      apply mirrors_bind (declareLocalsIn_mirrors c reach onFalse.stmts)
      intro _
      exact mirrors_pure reach
  | assign node target value => exact mirrors_pure reach
  | assignAll node targets source => exact mirrors_pure reach
  | giveBack node values => exact mirrors_pure reach

theorem declareLocalsIn_mirrors (c : BodyContext) (reach : List SymbolId) (b : List Stmt) :
    Mirrors ρ (declareLocalsIn c reach b) (declareLocalsIn c reach (renameStmts ρ b)) := by
  cases b with
  | nil => exact mirrors_pure ()
  | cons s rest =>
    have hshow := showTo_mirrors ρ s.id reach
    rw [← s.id_rename ρ] at hshow
    apply mirrors_bind hshow
    intro _
    apply mirrors_bind (s.declareLocals_mirrors c reach)
    intro reach'
    exact declareLocalsIn_mirrors c reach' rest
end

theorem Callable.checkName_mirrors (outer : ScopeId) (c : Callable) :
    Mirrors ρ (c.checkName outer) ((c.rename ρ).checkName outer) := by
  unfold Callable.checkName Callable.rename
  cases c.name with
  | none => exact mirrors_pure ()
  | some name =>
    apply mirrors_bind (mirrors_checkName [] name.text c.node.span)
    intro _
    exact mirrors_checkUntaken outer name.text c.node.span

theorem Callable.isNone_rename (c : Callable) : (c.rename ρ).name.isNone = c.name.isNone :=
  Option.isNone_map ..

theorem Callable.declare_mirrors (structs : List String) (outer : ScopeId) (c : Callable) :
    Mirrors ρ (c.declare structs outer) ((c.rename ρ).declare structs outer) := by
  have hname : (c.rename ρ).declaredName = c.declaredName := by
    unfold Callable.declaredName Callable.rename
    cases c.name <;> rfl
  rw [c.declare_eq, (c.rename ρ).declare_eq, hname, c.isNone_rename]
  apply mirrors_bind (c.checkName_mirrors ρ outer)
  intro _
  apply mirrors_bind (mirrors_declareOwner outer c.declaredName c.node .function fun _ => ⟨rfl, id⟩)
  intro owner
  apply mirrors_bind (mirrors_forM (·.rename ρ)
    (VarDecl.declareAsParam_mirrors ρ ⟨structs, owner.symbol, owner.inner⟩) c.params)
  intro _
  apply mirrors_bind (declareLocalsIn_mirrors ρ ⟨structs, owner.symbol, owner.inner⟩ [] c.body.stmts)
  intro _
  exact mirrors_pure owner.symbol

/-- A member is declared and then added to the contract. -/
theorem member_mirrors {α : Type} (r : α → α) {f : α → Pass SymbolId}
    (hf : ∀ a, Mirrors ρ (f a) (f (r a))) {add : α → SymbolId → ContractRecord → ContractRecord}
    (hadd : ∀ a, add (r a) = add a) (members : List α) :
    Mirrors ρ (members.forM fun a => do update (·.updateContract (add a (← f a))))
      ((members.map r).forM fun a => do update (·.updateContract (add a (← f a)))) := by
  apply mirrors_forM
  intro a
  apply mirrors_bind (hf a)
  intro id
  rw [hadd a]
  exact mirrors_updateContract (add a id)

theorem ContractDecl.declare_mirrors (c : ContractDecl) :
    Mirrors ρ c.declare (c.rename ρ).declare := by
  have hstructs : (c.rename ρ).structs.map (·.name.text) = c.structs.map (·.name.text) :=
    List.map_map
  unfold ContractDecl.declare
  rw [hstructs, c.callables_rename ρ]
  apply mirrors_bind (mirrors_checkName _ c.name.text c.node.span)
  intro _
  apply mirrors_bind (mirrors_checkUntaken .global c.name.text c.node.span)
  intro _
  apply mirrors_bind (mirrors_declareOwner .global c.name.text c.node .contract fun _ => ⟨rfl, id⟩)
  intro owner
  have hset : Mirrors ρ (adjust (·.setContract owner.symbol)) (adjust (·.setContract owner.symbol)) :=
    mirrors_adjust (fun _ => rfl) fun _ => rfl
  apply mirrors_bind hset
  intro _
  apply mirrors_bind (member_mirrors ρ (·.rename ρ) (FieldDecl.declare_mirrors ρ [] owner.inner)
    (fun _ => rfl) c.fields)
  intro _
  apply mirrors_bind (member_mirrors ρ (·.rename ρ) (StructDecl.declare_mirrors ρ _ owner.inner)
    (fun _ => rfl) c.structs)
  intro _
  refine member_mirrors ρ (Callable.rename ρ) (Callable.declare_mirrors ρ _ owner.inner) ?_
    c.callables
  intro f
  rw [f.isNone_rename]

theorem Program.declareSymbols_mirrors (p : Program) :
    Mirrors ρ p.declareSymbols (p.rename ρ).declareSymbols := by
  unfold Program.declareSymbols Program.rename
  cases p.contract with
  | none => exact mirrors_report .noContract p.span
  | some c => exact c.declare_mirrors ρ

/-! ### Types of declarations -/

theorem TypeName.resolve_mirrors (type : TypeName) :
    Mirrors ρ type.resolve (type.rename ρ).resolve := by
  unfold TypeName.resolve
  rw [type.text_rename, type.span_rename]
  apply mirrors_bind (mirrors_typeNamed type)
  intro found
  apply mirrors_bind (mirrors_reportIf _ _ type.span)
  intro _
  exact mirrors_pure found

theorem resolveTypes_mirrors (types : List TypeName) :
    Mirrors ρ (resolveTypes types) (resolveTypes (types.map (·.rename ρ))) := by
  induction types with
  | nil => exact mirrors_pure []
  | cons type rest ih =>
    apply mirrors_bind (type.resolve_mirrors ρ)
    intro found
    apply mirrors_bind ih
    intro others
    exact mirrors_pure (found.toList ++ others)

theorem settleType_mirrors (node : NodeId) (type : TypeName) :
    Mirrors ρ (settleType node type) (settleType (ρ.node node) (type.rename ρ)) := by
  unfold settleType
  rw [type.isVoid_rename, type.span_rename]
  apply mirrors_bind (mirrors_declaredBy node)
  intro declared
  cases declared with
  | none => exact mirrors_pure ()
  | some id =>
    dsimp only
    split
    · exact mirrors_report .voidValue type.span
    · apply mirrors_bind (type.resolve_mirrors ρ)
      intro found
      cases found with
      | none => exact mirrors_pure ()
      | some found => exact mirrors_updateKind id (SymbolKind.matches_withValueType ρ found)

theorem FieldDecl.resolveType_mirrors (f : FieldDecl) :
    Mirrors ρ f.resolveType (f.rename ρ).resolveType := settleType_mirrors ρ f.node.id f.type

theorem VarDecl.resolveType_mirrors (v : VarDecl) :
    Mirrors ρ v.resolveType (v.rename ρ).resolveType := settleType_mirrors ρ v.node.id v.type

namespace Callable

theorem shownName_rename (c : Callable) : (c.rename ρ).shownName = c.shownName := by
  unfold shownName rename
  cases c.name <;> rfl

theorem returns_length_rename (c : Callable) : (c.rename ρ).returns.length = c.returns.length :=
  List.length_map ..

theorem checkVoid_mirrors (c : Callable) : Mirrors ρ c.checkVoid (c.rename ρ).checkVoid := by
  have hfind : (c.rename ρ).returns.find? (·.isVoid) =
      (c.returns.find? (·.isVoid)).map (·.rename ρ) := by
    have hvoid : (fun type => type.isVoid) ∘ TypeName.rename ρ = fun type => type.isVoid :=
      funext (TypeName.isVoid_rename ρ)
    change (c.returns.map (TypeName.rename ρ)).find? (·.isVoid) = _
    rw [List.find?_map, hvoid]
  unfold checkVoid
  rw [hfind, shownName_rename, returns_length_rename]
  cases c.returns.find? (·.isVoid) with
  | none => exact mirrors_pure ()
  | some void =>
    dsimp only [Option.map]
    rw [void.span_rename]
    exact mirrors_reportIf _ _ void.span

theorem settleReturns_mirrors (c : Callable) (id : SymbolId) :
    Mirrors ρ (c.settleReturns id) ((c.rename ρ).settleReturns id) := by
  have hfilter : (c.rename ρ).returns.filter (!·.isVoid) =
      (c.returns.filter (!·.isVoid)).map (·.rename ρ) := by
    have hvoid : (fun type => !type.isVoid) ∘ TypeName.rename ρ = fun type => !type.isVoid :=
      funext fun type => congrArg (!·) (TypeName.isVoid_rename ρ type)
    change (c.returns.map (TypeName.rename ρ)).filter (!·.isVoid) = _
    rw [List.filter_map, hvoid]
  unfold settleReturns
  rw [hfilter, shownName_rename, returns_length_rename]
  apply mirrors_bind (mirrors_reportIf _ _ c.node.span)
  intro _
  apply mirrors_bind (c.checkVoid_mirrors ρ)
  intro _
  apply mirrors_bind (resolveTypes_mirrors ρ _)
  intro types
  exact mirrors_updateKind id (SymbolKind.matches_mapFunction ρ (·.setReturns types))

theorem resolveTypes_mirrors (c : Callable) :
    Mirrors ρ c.resolveTypes (c.rename ρ).resolveTypes := by
  have hlocals : localsOf (c.rename ρ).body.stmts = (localsOf c.body.stmts).map (·.rename ρ) :=
    localsOf_rename ρ c.body.stmts
  unfold Callable.resolveTypes
  rw [resolveTypesIn_eq, resolveTypesIn_eq, hlocals]
  apply mirrors_bind (mirrors_declaredBy c.node.id)
  intro declared
  cases declared with
  | none => exact mirrors_pure ()
  | some id =>
    apply mirrors_bind (mirrors_forM (·.rename ρ) (VarDecl.resolveType_mirrors ρ) c.params)
    intro _
    apply mirrors_bind (c.settleReturns_mirrors ρ id)
    intro _
    exact mirrors_forM (·.rename ρ) (VarDecl.resolveType_mirrors ρ) (localsOf c.body.stmts)

end Callable

theorem Program.resolveTypes_mirrors (p : Program) :
    Mirrors ρ p.resolveTypes (p.rename ρ).resolveTypes := by
  unfold Program.resolveTypes Program.rename
  cases p.contract with
  | none => exact mirrors_pure ()
  | some c =>
    dsimp only [Option.map]
    unfold ContractDecl.resolveTypes
    rw [c.callables_rename ρ]
    apply mirrors_bind (mirrors_forM (·.rename ρ) (FieldDecl.resolveType_mirrors ρ) c.fields)
    intro _
    apply mirrors_bind (mirrors_forM (StructDecl.rename ρ) (fun s =>
      mirrors_forM (·.rename ρ) (FieldDecl.resolveType_mirrors ρ) s.fields) c.structs)
    intro _
    exact mirrors_forM (·.rename ρ) (Callable.resolveTypes_mirrors ρ) c.callables

end

end ContractLang
