import ContractLang.Proofs.Interning
import ContractLang.Proofs.Walks
/-!
Safe steps. On a valid table a safe step ends well, keeps the table valid and lets it only grow.
Declaring symbols and resolving types are safe for every program.
-/
namespace ContractLang
namespace Pass
variable {α β : Type}

/-- The step ends well in a valid table that has only grown, with a value as described. -/
def Safe (x : Pass α) (t : Table) (Q : α → Table → Prop) : Prop :=
  ∃ a t', x.Leads t a t' ∧ t'.Valid ∧ t.Grows t' ∧ Q a t'

theorem safe_pure {t : Table} {a : α} {Q : α → Table → Prop} (ht : t.Valid) (h : Q a t) :
    (pure a : Pass α).Safe t Q :=
  ⟨a, t, leads_pure.2 ⟨rfl, rfl⟩, ht, .refl t, h⟩

theorem safe_bind {x : Pass α} {f : α → Pass β} {t : Table} {Q : α → Table → Prop}
    {R : β → Table → Prop} (hx : x.Safe t Q)
    (hf : ∀ a t', t'.Valid → t.Grows t' → Q a t' → (f a).Safe t' R) : (x >>= f).Safe t R := by
  obtain ⟨a, s, hl, hs, hg, hq⟩ := hx
  obtain ⟨b, t', hl', ht', hg', hr⟩ := hf a s hs hg hq
  exact ⟨b, t', leads_bind.2 ⟨a, s, hl, hl'⟩, ht', hg.trans hg', hr⟩

theorem Safe.imp {x : Pass α} {t : Table} {Q R : α → Table → Prop} (h : x.Safe t Q)
    (hqr : ∀ a t', Q a t' → R a t') : x.Safe t R := by
  obtain ⟨a, t', hl, ht', hg, hq⟩ := h
  exact ⟨a, t', hl, ht', hg, hqr a t' hq⟩

theorem Safe.of_run {x : Pass α} {t t' : Table} {a : α} {ds : List Diagnostic}
    {Q : α → Table → Prop} (hs : x.Safe t Q) (h : x.run t = .ok ⟨a, t', ds⟩) :
    t'.Valid ∧ t.Grows t' ∧ Q a t' := by
  obtain ⟨b, s, hl, hv, hg, hq⟩ := hs
  obtain ⟨rfl, rfl⟩ := leads_unique hl ⟨ds, h⟩
  exact ⟨hv, hg, hq⟩

theorem safe_query {f : Table → Except Dangling α} {t : Table} {a : α} (ht : t.Valid)
    (hf : f t = .ok a) : (query f).Safe t fun b t' => b = a ∧ t' = t :=
  ⟨a, t, leads_query.2 ⟨hf, rfl⟩, ht, .refl t, rfl, rfl⟩

theorem safe_view {f : Table → α} {t : Table} (ht : t.Valid) :
    (view f).Safe t fun a t' => a = f t ∧ t' = t :=
  ⟨f t, t, leads_view.2 ⟨rfl, rfl⟩, ht, .refl t, rfl, rfl⟩

theorem safe_update {f : Table → Except Dangling Table} {t t' : Table} (hf : f t = .ok t')
    (ht' : t'.Valid) (hg : t.Grows t') : (update f).Safe t fun _ s => s = t' :=
  ⟨(), t', leads_update.2 hf, ht', hg, rfl⟩

theorem safe_report {t : Table} (cause : Cause) (span : Span) (ht : t.Valid) :
    (report cause span).Safe t fun _ _ => True :=
  ⟨(), t, leads_report.2 rfl, ht, .refl t, trivial⟩

theorem safe_reportIf {t : Table} (p : Prop) [Decidable p] (cause : Cause) (span : Span)
    (ht : t.Valid) : (reportIf p cause span).Safe t fun _ _ => True :=
  ⟨(), t, leads_reportIf.2 rfl, ht, .refl t, trivial⟩

/-- A loop is safe if each of its rounds is, on whatever the rounds before it leave. -/
theorem safe_forM {xs : List α} {f : α → Pass Unit} {t : Table} (ht : t.Valid)
    (h : ∀ x ∈ xs, ∀ t', t'.Valid → t.Grows t' → (f x).Safe t' fun _ _ => True) :
    (xs.forM f).Safe t fun _ _ => True := by
  induction xs generalizing t with
  | nil => exact safe_pure ht trivial
  | cons x xs ih =>
    refine safe_bind (h x (List.mem_cons_self ..) t ht (.refl t)) fun _ s hs hg _ => ?_
    exact ih hs fun y hy t' ht' hg' => h y (List.mem_cons_of_mem _ hy) t' ht' (hg.trans hg')

/-! ### Declarations -/

theorem safe_checkName {t : Table} (ht : t.Valid) (structs : List String) (name : String)
    (span : Span) : (checkName structs name span).Safe t fun _ _ => True := by
  unfold checkName
  split
  · exact safe_report _ _ ht
  · split
    · exact safe_report _ _ ht
    · exact safe_pure ht trivial

theorem safe_checkUntaken {t : Table} (ht : t.Valid) {scope : ScopeId} (hs : t.HoldsScope scope)
    (name : String) (span : Span) : (checkUntaken scope name span).Safe t fun _ _ => True := by
  obtain ⟨found, hf⟩ := Table.exists_declaredIn hs name
  exact safe_bind (safe_query ht hf) fun _ t' ht' _ _ => safe_reportIf _ _ _ ht'

theorem leads_declareNode {scope : ScopeId} {name : String} {node : Node} {kind : SymbolKind}
    {t t' : Table} {id : SymbolId} :
    (declareNode scope name node kind).Leads t id t' ↔ t.HoldsScope scope ∧
      id = ⟨t.symbols.length⟩ ∧ t' = t.enter node name scope kind := by
  simp only [declareNode, leads_bind, leads_state, leads_adjust, leads_pure, Table.declare_eq_ok]
  constructor
  · rintro ⟨_, _, ⟨hs, rfl, rfl⟩, _, _, rfl, rfl, rfl⟩
    exact ⟨hs, rfl, rfl⟩
  · rintro ⟨hs, rfl, rfl⟩
    exact ⟨_, _, ⟨hs, rfl, rfl⟩, (), _, rfl, rfl, rfl⟩

theorem safe_declareNode {t : Table} (ht : t.Valid) {scope : ScopeId} {kind : SymbolKind}
    (hs : t.HoldsScope scope) (hk : kind.ValidIn t) (hp : ¬kind.IsStructural) (name : String)
    (node : Node) : (declareNode scope name node kind).Safe t fun id t' =>
      t'.Own id ∧ t'.kind? id = some kind :=
  ⟨_, _, leads_declareNode.2 ⟨hs, rfl, rfl⟩, ht.enter hs hk hp node name,
    t.grows_enter node name scope kind, ht.own_enter node name scope kind,
    t.kind?_enter_self node name scope kind⟩

theorem safe_declareOwner {t : Table} (ht : t.Valid) {outer : ScopeId} (ho : t.HoldsScope outer)
    (name : String) (node : Node) (scopeKind : ScopeKind) {kind : ScopeId → SymbolKind}
    (hk : ∀ inner t', Table.HoldsScope t' inner → (kind inner).ValidIn t')
    (hp : ∀ inner, ¬(kind inner).IsStructural) :
    (declareOwner outer name node scopeKind kind).Safe t fun owner t' =>
      t'.Own owner.symbol ∧ t'.HoldsScope owner.inner := by
  have hadd : (state fun t => .ok (t.addScope scopeKind (some outer))).Safe t
      fun inner t' => t'.HoldsScope inner :=
    ⟨_, _, leads_state.2 rfl, ht.addScope scopeKind (by rintro _ ⟨⟩; exact ho),
      t.grows_addScope scopeKind (some outer), by simp [Table.HoldsScope]⟩
  refine safe_bind hadd fun inner t₁ h₁ g₁ hinner => ?_
  refine safe_bind (safe_declareNode h₁ (g₁.holdsScope ho) (hk inner t₁ hinner) (hp inner) name node)
    fun id t₂ h₂ g₂ hid => ?_
  have hset : t₂.setOwner inner id = .ok _ :=
    Table.updateScope_eq_ok.2 ⟨g₂.holdsScope hinner, rfl⟩
  refine safe_bind (safe_update hset (h₂.setOwner hid.1.2) (t₂.grows_modifyScope _ _))
    fun _ t₃ h₃ g₃ _ => ?_
  exact safe_pure h₃ ⟨g₃.own hid.1, g₃.holdsScope (g₂.holdsScope hinner)⟩

theorem safe_updateKind {t : Table} (ht : t.Valid) {id : SymbolId} (hid : t.Own id)
    {f : SymbolKind → SymbolKind} (hs : SymbolKind.SparesTypes f)
    (hf : ∀ k, t.kind? id = some k → (f k).noun = k.noun ∧ (f k).ValidIn t) :
    (update (·.updateKind id f)).Safe t fun _ _ => True :=
  (safe_update (Table.updateKind_eq_ok.2 ⟨hid.2, rfl⟩) (ht.amend hid.1 hs hf)
    (Table.grows_amend fun k hk => (hf k hk).1)).imp fun _ _ _ => trivial

theorem safe_updateFunction {t : Table} (ht : t.Valid) {id : SymbolId} (hid : t.Own id)
    {f : FunctionRecord → FunctionRecord}
    (hf : ∀ info, (SymbolKind.function info).ValidIn t → (SymbolKind.function (f info)).ValidIn t) :
    (update (·.updateFunction id f)).Safe t fun _ _ => True := by
  refine safe_updateKind ht hid ⟨fun _ => rfl, fun _ _ => rfl⟩ fun k hk => ?_
  have hv := ht.kind hk
  cases k with
  | function info => exact ⟨rfl, hf info hv⟩
  | _ => exact ⟨rfl, hv⟩

theorem safe_updateContract {t : Table} (ht : t.Valid) {f : ContractRecord → ContractRecord}
    {id : SymbolId} (hid : t.Own id) (hi : ∀ info, (f info).inner = info.inner)
    (hm : ∀ info, ∀ j ∈ (f info).members, j ∈ info.members ∨ j = id) :
    (update (·.updateContract f)).Safe t fun _ _ => True := by
  cases hc : t.contract with
  | none =>
    have h : t.updateContract f = .ok t := by rw [Table.updateContract, hc]
    exact (safe_update h ht (.refl t)).imp fun _ _ _ => trivial
  | some c =>
    have hown := ht.contract c hc
    have hkinds : ∀ k, t.kind? c = some k →
        (k.mapContract f).noun = k.noun ∧ (k.mapContract f).ValidIn t := by
      intro k hk
      have hv := ht.kind hk
      cases k with
      | contract info =>
        refine ⟨rfl, (hi info).symm ▸ hv.1, fun j hj => ?_⟩
        rcases hm info j hj with hj | rfl
        · exact hv.2 j hj
        · exact hid.2
      | _ => exact ⟨rfl, hv⟩
    have h : t.updateContract f = .ok (t.amend c (·.mapContract f)) := by
      rw [Table.updateContract, hc]
      exact Table.updateKind_eq_ok.2 ⟨hown.2, rfl⟩
    exact (safe_update h (ht.amend hown.1 ⟨fun _ => rfl, fun _ _ => rfl⟩ hkinds)
      (Table.grows_amend fun k hk => (hkinds k hk).1)).imp fun _ _ _ => trivial

end Pass

open Pass

theorem FieldDecl.declare_safe {t : Table} (ht : t.Valid) {scope : ScopeId}
    (hs : t.HoldsScope scope) (structs : List String) (f : FieldDecl) :
    (f.declare structs scope).Safe t fun id t' => t'.Own id := by
  refine safe_bind (safe_checkName ht structs f.name.text f.node.span) fun _ t₁ h₁ g₁ _ => ?_
  have hs₁ := g₁.holdsScope hs
  refine safe_bind (safe_checkUntaken h₁ hs₁ f.name.text f.node.span) fun _ t₂ h₂ g₂ _ => ?_
  have hkind : (SymbolKind.field none).ValidIn t₂ := by simp [SymbolKind.ValidIn]
  exact (safe_declareNode h₂ (g₂.holdsScope hs₁) hkind id f.name.text f.node).imp
    fun _ _ hid => hid.1

theorem StructDecl.declare_safe {t : Table} (ht : t.Valid) {outer : ScopeId}
    (ho : t.HoldsScope outer) (structs : List String) (s : StructDecl) :
    (s.declare structs outer).Safe t fun id t' => t'.Own id := by
  refine safe_bind (safe_checkName ht [] s.name.text s.node.span) fun _ t₁ h₁ g₁ _ => ?_
  have ho₁ := g₁.holdsScope ho
  refine safe_bind (safe_checkUntaken h₁ ho₁ s.name.text s.node.span) fun _ t₂ h₂ g₂ _ => ?_
  have hkind : ∀ inner t', Table.HoldsScope t' inner → (SymbolKind.struct inner []).ValidIn t' :=
    fun _ _ hi => ⟨hi, by simp⟩
  refine safe_bind (safe_declareOwner h₂ (g₂.holdsScope ho₁) s.name.text s.node .struct hkind
    fun _ => id)
    fun owner t₃ h₃ g₃ howner => ?_
  refine safe_bind (safe_forM h₃ fun f _ t₄ h₄ g₄ => ?_)
    fun _ t₄ h₄ g₄ _ => safe_pure h₄ (g₄.own howner.1)
  refine safe_bind (f.declare_safe h₄ (g₄.holdsScope howner.2) structs) fun id t₅ h₅ g₅ hid => ?_
  refine safe_updateKind h₅ (g₅.own (g₄.own howner.1)) ⟨fun _ => rfl, fun _ _ => rfl⟩
    fun k hk => ?_
  have hv := h₅.kind hk
  cases k with
  | struct inner fields =>
    refine ⟨rfl, hv.1, fun j hj => ?_⟩
    rcases List.mem_append.1 hj with hj | hj
    · exact hv.2 j hj
    · exact List.mem_singleton.1 hj ▸ hid.2
  | _ => exact ⟨rfl, hv⟩

/-- The function and the scope of a body are in the table. -/
def BodyContext.In (c : BodyContext) (t : Table) : Prop := t.Own c.function ∧ t.HoldsScope c.scope

theorem BodyContext.In.grows {c : BodyContext} {t t' : Table} (h : c.In t) (g : t.Grows t') :
    c.In t' := ⟨g.own h.1, g.holdsScope h.2⟩

theorem VarDecl.declareAsParam_safe {t : Table} (ht : t.Valid) {c : BodyContext} (hc : c.In t)
    (v : VarDecl) : (v.declareAsParam c).Safe t fun _ _ => True := by
  refine safe_bind (safe_checkName ht c.structs v.name.text v.node.span) fun _ t₁ h₁ g₁ _ => ?_
  have hc₁ := hc.grows g₁
  refine safe_bind (safe_checkUntaken h₁ hc₁.2 v.name.text v.node.span) fun _ t₂ h₂ g₂ _ => ?_
  have hc₂ := hc₁.grows g₂
  have hkind : (SymbolKind.parameter none).ValidIn t₂ := by simp [SymbolKind.ValidIn]
  refine safe_bind (safe_declareNode h₂ hc₂.2 hkind id v.name.text v.node)
    fun id t₃ h₃ g₃ hid => ?_
  refine safe_updateFunction h₃ (hc₂.grows g₃).1 fun info hv => ?_
  obtain ⟨hi, hr, hp, hl⟩ := hv
  refine ⟨hi, hr, fun j hj => ?_, hl⟩
  rcases List.mem_append.1 hj with hj | hj
  · exact hp j hj
  · exact List.mem_singleton.1 hj ▸ ⟨none, hid.2⟩

theorem VarDecl.declareAsLocal_safe {t : Table} (ht : t.Valid) {c : BodyContext} (hc : c.In t)
    {reach : List SymbolId} (hr : ∀ id ∈ reach, t.Own id) (v : VarDecl) :
    (v.declareAsLocal c reach).Safe t fun id t' => t'.Own id := by
  refine safe_bind (safe_checkName ht c.structs v.name.text v.node.span) fun _ t₁ h₁ g₁ _ => ?_
  have hc₁ := hc.grows g₁
  obtain ⟨names, hnames⟩ :=
    Table.exists_takenNames h₁ hc₁.1.2 fun id hid => (g₁.own (hr id hid)).2
  refine safe_bind (safe_query h₁ hnames) fun _ t₂ h₂ g₂ _ => ?_
  refine safe_bind (safe_reportIf _ _ _ h₂) fun _ t₃ h₃ g₃ _ => ?_
  have hc₃ := (hc₁.grows g₂).grows g₃
  have hkind : (SymbolKind.localVar none []).ValidIn t₃ := by simp [SymbolKind.ValidIn]
  refine safe_bind (safe_declareNode h₃ hc₃.2 hkind id v.name.text v.node)
    fun id t₄ h₄ g₄ hid => ?_
  refine safe_bind (safe_updateFunction h₄ (hc₃.grows g₄).1 fun info hv => ?_)
    fun _ t₅ h₅ g₅ _ => safe_pure h₅ (g₅.own hid.1)
  obtain ⟨hi, hr, hp, hl⟩ := hv
  refine ⟨hi, hr, hp, fun j hj => ?_⟩
  rcases List.mem_append.1 hj with hj | hj
  · exact hl j hj
  · exact List.mem_singleton.1 hj ▸ hid.1.2

theorem declareLocals_safe {t : Table} (ht : t.Valid) {c : BodyContext} (hc : c.In t)
    {reach : List SymbolId} (hr : ∀ id ∈ reach, t.Own id) (vars : List VarDecl) :
    (declareLocals c reach vars).Safe t fun reach' t' => ∀ id ∈ reach', t'.Own id := by
  induction vars generalizing t reach with
  | nil => exact safe_pure ht hr
  | cons v vars ih =>
    refine safe_bind (v.declareAsLocal_safe ht hc hr) fun id t₁ h₁ g₁ hid => ?_
    refine ih h₁ (hc.grows g₁) fun j hj => ?_
    rcases List.mem_append.1 hj with hj | hj
    · exact g₁.own (hr j hj)
    · exact List.mem_singleton.1 hj ▸ hid

theorem showTo_safe {t : Table} (ht : t.Valid) {reach : List SymbolId}
    (hr : ∀ id ∈ reach, t.Own id) (stmt : NodeId) : (showTo stmt reach).Safe t fun _ _ => True := by
  refine safe_forM ht fun id hid t₁ h₁ g₁ =>
    safe_updateKind h₁ (g₁.own (hr id hid)) ⟨fun _ => rfl, fun _ _ => rfl⟩ fun k hk => ?_
  have hv := h₁.kind hk
  cases k <;> exact ⟨rfl, hv⟩

mutual
theorem Stmt.declareLocals_safe {t : Table} (ht : t.Valid) {c : BodyContext} (hc : c.In t)
    {reach : List SymbolId} (hr : ∀ id ∈ reach, t.Own id) (s : Stmt) :
    (s.declareLocals c reach).Safe t fun reach' t' => ∀ id ∈ reach', t'.Own id := by
  cases s with
  | declare node vars init => exact ContractLang.declareLocals_safe ht hc hr vars
  | assign node target value => exact safe_pure ht hr
  | assignAll node targets source => exact safe_pure ht hr
  | giveBack node values => exact safe_pure ht hr
  | branch node condition onTrue onFalse =>
    cases onFalse with
    | none =>
      refine safe_bind (declareLocalsIn_safe ht hc hr onTrue.stmts) fun _ t₁ h₁ g₁ _ => ?_
      exact safe_pure h₁ fun id hid => g₁.own (hr id hid)
    | some onFalse =>
      refine safe_bind (declareLocalsIn_safe ht hc hr onTrue.stmts) fun _ t₁ h₁ g₁ _ => ?_
      have hr₁ : ∀ id ∈ reach, t₁.Own id := fun id hid => g₁.own (hr id hid)
      refine safe_bind (declareLocalsIn_safe h₁ (hc.grows g₁) hr₁ onFalse.stmts) fun _ t₂ h₂ g₂ _ => ?_
      exact safe_pure h₂ fun id hid => g₂.own (hr₁ id hid)

theorem declareLocalsIn_safe {t : Table} (ht : t.Valid) {c : BodyContext} (hc : c.In t)
    {reach : List SymbolId} (hr : ∀ id ∈ reach, t.Own id) (stmts : List Stmt) :
    (declareLocalsIn c reach stmts).Safe t fun _ _ => True := by
  cases stmts with
  | nil => exact safe_pure ht trivial
  | cons s rest =>
    refine safe_bind (showTo_safe ht hr s.id) fun _ t₁ h₁ g₁ _ => ?_
    have hr₁ : ∀ id ∈ reach, t₁.Own id := fun id hid => g₁.own (hr id hid)
    refine safe_bind (s.declareLocals_safe h₁ (hc.grows g₁) hr₁) fun reach' t₂ h₂ g₂ hr₂ => ?_
    exact declareLocalsIn_safe h₂ ((hc.grows g₁).grows g₂) hr₂ rest
end

theorem Callable.checkName_safe {t : Table} (ht : t.Valid) {outer : ScopeId}
    (ho : t.HoldsScope outer) (c : Callable) : (c.checkName outer).Safe t fun _ _ => True := by
  unfold Callable.checkName
  cases c.name with
  | none => exact safe_pure ht trivial
  | some name =>
    refine safe_bind (safe_checkName ht [] name.text c.node.span) fun _ t₁ h₁ g₁ _ => ?_
    exact safe_checkUntaken h₁ (g₁.holdsScope ho) name.text c.node.span

theorem Callable.declare_safe {t : Table} (ht : t.Valid) {outer : ScopeId}
    (ho : t.HoldsScope outer) (structs : List String) (c : Callable) :
    (c.declare structs outer).Safe t fun id t' => t'.Own id := by
  rw [c.declare_eq]
  refine safe_bind (c.checkName_safe ht ho) fun _ t₁ h₁ g₁ _ => ?_
  have hkind : ∀ inner t', Table.HoldsScope t' inner →
      (SymbolKind.function ⟨inner, c.name.isNone, [], [], []⟩).ValidIn t' :=
    fun _ _ hi => ⟨hi, by simp, by simp, by simp⟩
  refine safe_bind (safe_declareOwner h₁ (g₁.holdsScope ho) c.declaredName c.node .function hkind
    fun _ => id) fun owner t₂ h₂ g₂ howner => ?_
  have hc : BodyContext.In ⟨structs, owner.symbol, owner.inner⟩ t₂ := howner
  refine safe_bind (safe_forM h₂ fun v _ t₃ h₃ g₃ => v.declareAsParam_safe h₃ (hc.grows g₃))
    fun _ t₃ h₃ g₃ _ => ?_
  refine safe_bind (declareLocalsIn_safe h₃ (hc.grows g₃) (by simp) c.body.stmts)
    fun _ t₄ h₄ g₄ _ => ?_
  exact safe_pure h₄ (g₄.own (g₃.own hc.1))

theorem ContractDecl.declare_safe {t : Table} (ht : t.Valid) (c : ContractDecl) :
    c.declare.Safe t fun _ _ => True := by
  refine safe_bind (safe_checkName ht _ c.name.text c.node.span) fun _ t₁ h₁ g₁ _ => ?_
  refine safe_bind (safe_checkUntaken h₁ h₁.global c.name.text c.node.span) fun _ t₂ h₂ g₂ _ => ?_
  have hkind : ∀ inner t', Table.HoldsScope t' inner →
      (SymbolKind.contract ⟨inner, [], [], none, []⟩).ValidIn t' :=
    fun _ _ hi => ⟨hi, by simp [ContractRecord.members]⟩
  refine safe_bind (safe_declareOwner h₂ h₂.global c.name.text c.node .contract hkind
    fun _ => id) fun owner t₃ h₃ g₃ howner => ?_
  have hset : (adjust (·.setContract owner.symbol)).Safe t₃ fun _ _ => True :=
    ⟨(), _, leads_adjust.2 rfl, h₃.setContract howner.1,
      ⟨fun _ k hk => ⟨k, hk, rfl⟩, Nat.le_refl _, List.Subset.refl _⟩, trivial⟩
  refine safe_bind hset fun _ t₄ h₄ g₄ _ => ?_
  have hi₄ := g₄.holdsScope howner.2
  -- Each member is entered in the contract's record after it has been declared.
  refine safe_bind (safe_forM h₄ fun f _ t₅ h₅ g₅ => ?_) fun _ t₅ h₅ g₅ _ => ?_
  · refine safe_bind (f.declare_safe h₅ (g₅.holdsScope hi₄) []) fun id t₆ h₆ _ hid => ?_
    exact safe_updateContract h₆ hid (fun _ => rfl) fun _ _ => ContractRecord.mem_members_addField
  have hi₅ := g₅.holdsScope hi₄
  refine safe_bind (safe_forM h₅ fun s _ t₆ h₆ g₆ => ?_) fun _ t₆ h₆ g₆ _ => ?_
  · refine safe_bind (s.declare_safe h₆ (g₆.holdsScope hi₅) _) fun id t₇ h₇ _ hid => ?_
    exact safe_updateContract h₇ hid (fun _ => rfl) fun _ _ => ContractRecord.mem_members_addStruct
  have hi₆ := g₆.holdsScope hi₅
  refine safe_forM h₆ fun f _ t₇ h₇ g₇ => ?_
  refine safe_bind (f.declare_safe h₇ (g₇.holdsScope hi₆) _) fun id t₈ h₈ _ hid => ?_
  exact safe_updateContract h₈ hid (fun _ => ContractRecord.inner_addCallable ..)
    fun _ _ => ContractRecord.mem_members_addCallable

theorem Program.declareSymbols_safe {t : Table} (ht : t.Valid) (p : Program) :
    p.declareSymbols.Safe t fun _ _ => True := by
  unfold Program.declareSymbols
  cases p.contract with
  | none => exact safe_report _ _ ht
  | some c => exact c.declare_safe ht

/-! ### Written types -/

theorem TypeName.resolve_safe {t : Table} (ht : t.Valid) (type : TypeName) :
    type.resolve.Safe t fun found t' => ∀ id ∈ found, t'.Denotable id := by
  obtain ⟨found, t₁, h, h₁, hi, hden, -⟩ := Table.exists_typeNamed ht type
  have hstate : (state (·.typeNamed type)).Safe t fun a t' => a = found ∧ t' = t₁ :=
    ⟨found, t₁, leads_state.2 h, h₁, hi.grows, rfl, rfl⟩
  refine safe_bind hstate fun a s hs _ ha => ?_
  obtain ⟨rfl, rfl⟩ := ha
  refine safe_bind (safe_reportIf _ _ _ hs) fun _ t₂ h₂ g₂ _ => ?_
  exact safe_pure h₂ fun id hid => g₂.denotable ((hden id hid).denotable hs)

theorem resolveTypes_safe {t : Table} (ht : t.Valid) (types : List TypeName) :
    (resolveTypes types).Safe t fun found t' => ∀ id ∈ found, t'.Denotable id := by
  induction types generalizing t with
  | nil => exact safe_pure ht (by simp)
  | cons type types ih =>
    refine safe_bind (type.resolve_safe ht) fun found t₁ h₁ g₁ hf => ?_
    refine safe_bind (ih h₁) fun rest t₂ h₂ g₂ hr => safe_pure h₂ fun id hid => ?_
    rcases List.mem_append.1 hid with hid | hid
    · exact g₂.denotable (hf id (Option.mem_toList.1 hid))
    · exact hr id hid

theorem settleType_safe {t : Table} (ht : t.Valid) (node : NodeId) (type : TypeName) :
    (settleType node type).Safe t fun _ _ => True := by
  refine safe_bind (safe_view ht) fun r t₁ h₁ g₁ hr => ?_
  obtain ⟨rfl, rfl⟩ := hr
  cases hd : t₁.declaredBy? node with
  | none => exact safe_pure h₁ trivial
  | some id =>
    by_cases hvoid : type.isVoid
    · simp only [hvoid, if_true]
      exact safe_report _ _ h₁
    · simp only [hvoid, Bool.false_eq_true, if_false]
      refine safe_bind (type.resolve_safe h₁) fun found t₂ h₂ g₂ hf => ?_
      cases found with
      | none => exact safe_pure h₂ trivial
      | some found =>
        have hown : t₂.Own id := g₂.own (h₁.declared node id hd)
        refine safe_updateKind h₂ hown ⟨fun _ => rfl, fun _ _ => rfl⟩ fun k hk => ?_
        have hv := h₂.kind hk
        have hden : ∀ j ∈ some found, t₂.Denotable j := hf
        cases k with
        | field type => exact ⟨rfl, hden⟩
        | parameter type => exact ⟨rfl, hden⟩
        | localVar type visibility => exact ⟨rfl, hden⟩
        | _ => exact ⟨rfl, hv⟩

theorem Callable.checkVoid_safe {t : Table} (ht : t.Valid) (c : Callable) :
    c.checkVoid.Safe t fun _ _ => True := by
  unfold Callable.checkVoid
  split
  · exact safe_pure ht trivial
  · exact safe_reportIf _ _ _ ht

theorem Callable.settleReturns_safe {t : Table} (ht : t.Valid) {id : SymbolId} (hid : t.Own id)
    (c : Callable) : (c.settleReturns id).Safe t fun _ _ => True := by
  refine safe_bind (safe_reportIf _ _ _ ht) fun _ t₁ h₁ g₁ _ => ?_
  refine safe_bind (c.checkVoid_safe h₁) fun _ t₂ h₂ g₂ _ => ?_
  refine safe_bind (ContractLang.resolveTypes_safe h₂ _) fun types t₃ h₃ g₃ hden => ?_
  refine safe_updateFunction h₃ (g₃.own (g₂.own (g₁.own hid))) fun info hv => ?_
  exact ⟨hv.1, hden, hv.2.2⟩

theorem Callable.resolveTypes_safe {t : Table} (ht : t.Valid) (c : Callable) :
    c.resolveTypes.Safe t fun _ _ => True := by
  refine safe_bind (safe_view ht) fun r t₁ h₁ g₁ hr => ?_
  obtain ⟨rfl, rfl⟩ := hr
  cases hd : t₁.declaredBy? c.node.id with
  | none => exact safe_pure h₁ trivial
  | some id =>
    have hown := h₁.declared _ id hd
    refine safe_bind (safe_forM h₁ fun v _ t₂ h₂ _ => settleType_safe h₂ _ _) fun _ t₂ h₂ g₂ _ => ?_
    refine safe_bind (c.settleReturns_safe h₂ (g₂.own hown)) fun _ t₃ h₃ _ _ => ?_
    rw [resolveTypesIn_eq]
    exact safe_forM h₃ fun v _ t₄ h₄ _ => settleType_safe h₄ _ _

theorem Program.resolveTypes_safe {t : Table} (ht : t.Valid) (p : Program) :
    p.resolveTypes.Safe t fun _ _ => True := by
  unfold Program.resolveTypes
  cases p.contract with
  | none => exact safe_pure ht trivial
  | some c =>
    refine safe_bind (safe_forM ht fun f _ t₁ h₁ _ => settleType_safe h₁ _ _) fun _ t₁ h₁ _ _ => ?_
    refine safe_bind (safe_forM h₁ fun s _ t₂ h₂ _ =>
      safe_forM h₂ fun f _ t₃ h₃ _ => settleType_safe h₃ _ _) fun _ t₂ h₂ _ _ => ?_
    exact safe_forM h₂ fun f _ t₃ h₃ _ => f.resolveTypes_safe h₃

end ContractLang
