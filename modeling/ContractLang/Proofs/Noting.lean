import ContractLang.Proofs.Checking
import ContractLang.Proofs.Designating
import ContractLang.Proofs.Safety
/-!
Binding names and checking types are safe for every program, also where nodes share a number. What
these phases note of a node is a symbol that the table holds.
-/
namespace ContractLang

/-! ### Notes on nodes -/

namespace Table
variable {t : Table} {id : SymbolId}

theorem Valid.noteBinding (h : t.Valid) (hid : t.Holds id) (node : NodeId) :
    (t.noteBinding node id).Valid :=
  { h with
    bindings := by
      intro n j hn
      rw [Table.noteBinding, Assoc.get?_insert] at hn
      split at hn
      · cases hn
        exact hid
      · exact h.bindings n j hn
    keyed := { h.keyed with bindings := h.keyed.bindings.insert node id } }

theorem Valid.noteType (h : t.Valid) (hid : t.Holds id) (node : NodeId) :
    (t.noteType node id).Valid :=
  { h with
    types := by
      intro n j hn
      rw [Table.noteType, Assoc.get?_insert] at hn
      split at hn
      · cases hn
        exact hid
      · exact h.types n j hn
    keyed := { h.keyed with types := h.keyed.types.insert node id } }

theorem grows_noteBinding (t : Table) (node : NodeId) (id : SymbolId) :
    t.Grows (t.noteBinding node id) :=
  ⟨fun _ k hk => ⟨k, hk, rfl⟩, Nat.le_refl _, List.Subset.refl _⟩

theorem grows_noteType (t : Table) (node : NodeId) (id : SymbolId) : t.Grows (t.noteType node id) :=
  ⟨fun _ k hk => ⟨k, hk, rfl⟩, Nat.le_refl _, List.Subset.refl _⟩

/-- A type that may be unknown; if it is known, the table holds it. -/
def Knows (t : Table) (type : Option SymbolId) : Prop := ∀ id ∈ type, t.Holds id

theorem knows_none (t : Table) : t.Knows none := by
  intro id hid
  cases hid

theorem Holds.knows (h : t.Holds id) : t.Knows (some id) := by
  intro j hj
  cases hj
  exact h

theorem Knows.grows {t' : Table} {type : Option SymbolId} (h : t.Knows type) (g : t.Grows t') :
    t'.Knows type := fun id hid => g.holds (h id hid)

end Table

namespace Pass
variable {α β : Type} {t : Table}

theorem safe_of_run {x : Pass α} {a : α} {t' : Table} {ds : List Diagnostic}
    {Q : α → Table → Prop} (h : x.run t = .ok ⟨a, t', ds⟩) (ht' : t'.Valid) (g : t.Grows t')
    (hq : Q a t') : x.Safe t Q := ⟨a, t', ⟨ds, h⟩, ht', g, hq⟩

theorem safe_bindTo (ht : t.Valid) {id : SymbolId} (hid : t.Holds id) (node : NodeId) :
    (bindTo node id).Safe t fun _ _ => True :=
  safe_of_run (run_adjust ..) (ht.noteBinding hid node) (t.grows_noteBinding node id) trivial

theorem safe_noteType (ht : t.Valid) {type : SymbolId} (h : t.Holds type) (node : NodeId) :
    (noteType node type).Safe t fun found t' => t'.Knows found := by
  have g := t.grows_noteType node type
  exact safe_of_run (run_noteType ..) (ht.noteType h node) g (g.holds h).knows

theorem safe_copyBinding (ht : t.Valid) (node other : NodeId) :
    (adjust (·.copyBinding node other)).Safe t fun _ _ => True := by
  have hcopy : (t.copyBinding node other).Valid ∧ t.Grows (t.copyBinding node other) := by
    unfold Table.copyBinding
    split
    · exact ⟨ht, .refl t⟩
    · rename_i id hid
      exact ⟨ht.noteBinding (ht.bindings other id hid) node, t.grows_noteBinding node id⟩
  exact safe_of_run (run_adjust ..) hcopy.1 hcopy.2 trivial

theorem safe_reportNone (ht : t.Valid) (cause : Cause) (span : Span) :
    (do report cause span; return none : Pass (Option SymbolId)).Safe t fun found t' =>
      t'.Knows found :=
  safe_of_run (run_bind_ok (run_report ..) (run_pure ..)) ht (.refl t) t.knows_none

/-- What each round gives stays true while the later rounds run. -/
theorem safe_mapM {xs : List α} {f : α → Pass β} {P : β → Table → Prop} (ht : t.Valid)
    (hP : ∀ b t t', P b t → t.Grows t' → P b t')
    (h : ∀ x ∈ xs, ∀ t', t'.Valid → t.Grows t' → (f x).Safe t' P) :
    (xs.mapM f).Safe t fun bs t' => ∀ b ∈ bs, P b t' := by
  induction xs generalizing t with
  | nil => exact safe_pure ht (by simp)
  | cons x xs ih =>
    rw [List.mapM_cons]
    apply safe_bind (h x (List.mem_cons_self ..) t ht (.refl t))
    intro b s hs hg hb
    have hxs : ∀ y ∈ xs, ∀ t', t'.Valid → s.Grows t' → (f y).Safe t' P := fun y hy t' ht' g =>
      h y (List.mem_cons_of_mem _ hy) t' ht' (hg.trans g)
    apply safe_bind (ih hs hxs)
    intro bs s' hs' hg' hbs
    apply safe_pure hs'
    intro c hc
    rcases List.mem_cons.1 hc with rfl | hc
    · exact hP c s s' hb hg'
    · exact hbs c hc

/-! ### Binding -/

theorem safe_valueNamed (ht : t.Valid) {site : Site} (hs : t.HoldsScope site.scope)
    (name : String) (span : Span) :
    (valueNamed site name span).Safe t fun found t' => t'.Knows found := by
  refine safe_of_run (run_valueNamed ht hs t.bindings t.types name span) ht (.refl t) ?_
  intro id hid
  cases hr : t.referent site name with
  | error cause =>
    rw [hr] at hid
    cases hid
  | ok found =>
    rw [hr] at hid
    cases hid
    exact Table.referent_holds ht hs hr

theorem safe_bindCallee (ht : t.Valid) {site : Site} (hs : t.HoldsScope site.scope) (node : Node)
    (name : String) : (bindCallee site node name).Safe t fun _ _ => True := by
  apply safe_bind (safe_query ht (Table.lookup_eq_callee ht hs name))
  intro found t₁ h₁ g₁ hfound
  cases found with
  | none => exact safe_report _ _ h₁
  | some id => exact safe_bindTo h₁ (g₁.holds (Table.callee_holds ht hs hfound.1.symm)) node.id

theorem safe_bindElement (ht : t.Valid) (node : Node) (base : Designator) {type : Option SymbolId}
    (h : t.Knows type) : (bindElement node base type).Safe t fun found t' => t'.Knows found := by
  cases type with
  | none => exact safe_pure ht t.knows_none
  | some type =>
    have hheld : t.Holds type := h type rfl
    apply safe_bind (safe_query ht (Table.element?_eq hheld))
    rintro found t₁ h₁ g₁ ⟨rfl, rfl⟩
    cases he : t₁.elementType type with
    | none =>
      apply safe_bind (safe_query h₁ (Table.nameOf_eq hheld))
      rintro name t₂ h₂ g₂ -
      exact safe_reportNone h₂ ..
    | some element =>
      apply safe_bind (safe_copyBinding h₁ node.id base.id)
      rintro _ t₂ h₂ g₂ -
      exact safe_noteType h₂ (g₂.holds (Table.elementType_denotable h₁ he).1) node.id

theorem safe_bindMember (ht : t.Valid) (node : Node) (member : Ident) {type : Option SymbolId}
    (h : t.Knows type) : (bindMember node member type).Safe t fun found t' => t'.Knows found := by
  cases type with
  | none => exact safe_pure ht t.knows_none
  | some type =>
    have hheld : t.Holds type := h type rfl
    apply safe_bind (safe_query ht (Table.element?_eq hheld))
    rintro found t₁ h₁ g₁ ⟨rfl, rfl⟩
    split
    · apply safe_bind (safe_bindTo h₁ (h₁.holds (by decide)) node.id)
      rintro _ t₂ h₂ g₂ -
      exact safe_noteType h₂ (h₂.holds (by decide)) node.id
    · apply safe_bind (safe_query h₁ (Table.nameOf_eq hheld))
      rintro name t₂ h₂ g₂ -
      exact safe_reportNone h₂ ..

end Pass

open Pass

mutual
theorem Expr.bindNames_safe {t : Table} (ht : t.Valid) {site : Site}
    (hs : t.HoldsScope site.scope) (e : Expr) : (e.bindNames site).Safe t fun _ _ => True := by
  cases e with
  | literal node value => exact safe_pure ht trivial
  | load node source =>
    apply safe_bind (source.bindNames_safe ht hs)
    intro _ t₁ h₁ _ _
    exact safe_pure h₁ trivial
  | call node callee args =>
    have hargs : ∀ t', t'.Valid → t.Grows t' → (bindNamesOf site args).Safe t' fun _ _ => True :=
      fun t' ht' g => bindNamesOf_safe ht' (g.holdsScope hs) args
    cases callee with
    | name node' name =>
      apply safe_bind (safe_bindCallee ht hs node' name)
      intro _ t₁ h₁ g₁ _
      exact hargs t₁ h₁ g₁
    | index node' base position =>
      apply safe_bind ((Designator.index node' base position).bindNames_safe ht hs)
      intro _ t₁ h₁ g₁ _
      exact hargs t₁ h₁ g₁
    | member node' base m =>
      apply safe_bind ((Designator.member node' base m).bindNames_safe ht hs)
      intro _ t₁ h₁ g₁ _
      exact hargs t₁ h₁ g₁
  | binary node op left right =>
    apply safe_bind (left.bindNames_safe ht hs)
    intro _ t₁ h₁ g₁ _
    exact right.bindNames_safe h₁ (g₁.holdsScope hs)
  | unary node op operand => exact operand.bindNames_safe ht hs

theorem Designator.bindNames_safe {t : Table} (ht : t.Valid) {site : Site}
    (hs : t.HoldsScope site.scope) (d : Designator) :
    (d.bindNames site).Safe t fun found t' => t'.Knows found := by
  cases d with
  | name node name =>
    apply safe_bind (safe_valueNamed ht hs name node.span)
    intro found t₁ h₁ g₁ hfound
    cases found with
    | none => exact safe_pure h₁ t₁.knows_none
    | some id =>
      have hheld : t₁.Holds id := hfound id rfl
      apply safe_bind (safe_bindTo h₁ hheld node.id)
      intro _ t₂ h₂ g₂ _
      apply safe_bind (safe_query h₂ (Table.valueType?_eq (g₂.holds hheld)))
      rintro type t₃ h₃ g₃ ⟨rfl, rfl⟩
      cases htype : t₃.valueType id with
      | none => exact safe_pure h₃ t₃.knows_none
      | some type => exact safe_noteType h₃ (Table.valueType_holds h₃ htype) node.id
  | index node base position =>
    apply safe_bind (base.bindNames_safe ht hs)
    intro type t₁ h₁ g₁ htype
    apply safe_bind (position.bindNames_safe h₁ (g₁.holdsScope hs))
    intro _ t₂ h₂ g₂ _
    exact safe_bindElement h₂ node base (htype.grows g₂)
  | member node base m =>
    apply safe_bind (base.bindNames_safe ht hs)
    intro type t₁ h₁ _ htype
    exact safe_bindMember h₁ node m htype

theorem bindNamesOf_safe {t : Table} (ht : t.Valid) {site : Site} (hs : t.HoldsScope site.scope)
    (es : List Expr) : (bindNamesOf site es).Safe t fun _ _ => True := by
  cases es with
  | nil => exact safe_pure ht trivial
  | cons e rest =>
    apply safe_bind (e.bindNames_safe ht hs)
    intro _ t₁ h₁ g₁ _
    exact bindNamesOf_safe h₁ (g₁.holdsScope hs) rest
end

/-- A step on something that may be absent. -/
theorem Pass.safe_option {α : Type} {t : Table} (ht : t.Valid) {f : α → Pass Unit}
    (h : ∀ x, (f x).Safe t fun _ _ => True) (o : Option α) : (o.forM f).Safe t fun _ _ => True := by
  cases o with
  | none => exact safe_pure ht trivial
  | some x => exact h x

mutual
theorem Stmt.bindNames_safe {t : Table} (ht : t.Valid) {scope : ScopeId} (hs : t.HoldsScope scope)
    (s : Stmt) : (s.bindNames scope).Safe t fun _ _ => True := by
  cases s with
  | declare node vars init => exact safe_option ht (fun e => e.bindNames_safe ht hs) init
  | assign node target value =>
    apply safe_bind (target.bindNames_safe ht hs)
    intro _ t₁ h₁ g₁ _
    exact value.bindNames_safe h₁ (g₁.holdsScope hs)
  | assignAll node targets source =>
    have htargets : (targets.forM fun d => do
        let _ ← d.bindNames ⟨scope, some node.id⟩
        pure ()).Safe t fun _ _ => True := by
      apply safe_forM ht
      intro d _ t₁ h₁ g₁
      apply safe_bind (d.bindNames_safe h₁ (g₁.holdsScope hs))
      intro _ t₂ h₂ _ _
      exact safe_pure h₂ trivial
    apply safe_bind htargets
    intro _ t₁ h₁ g₁ _
    exact source.bindNames_safe h₁ (g₁.holdsScope hs)
  | branch node condition onTrue onFalse =>
    have hcondition : (condition.bindNames ⟨scope, some node.id⟩).Safe t fun _ _ => True :=
      condition.bindNames_safe ht hs
    cases onFalse with
    | none =>
      apply safe_bind hcondition
      intro _ t₁ h₁ g₁ _
      exact bindNamesIn_safe h₁ (g₁.holdsScope hs) onTrue.stmts
    | some onFalse =>
      apply safe_bind hcondition
      intro _ t₁ h₁ g₁ _
      apply safe_bind (bindNamesIn_safe h₁ (g₁.holdsScope hs) onTrue.stmts)
      intro _ t₂ h₂ g₂ _
      exact bindNamesIn_safe h₂ (g₂.holdsScope (g₁.holdsScope hs)) onFalse.stmts
  | giveBack node values => exact bindNamesOf_safe ht hs values

theorem bindNamesIn_safe {t : Table} (ht : t.Valid) {scope : ScopeId} (hs : t.HoldsScope scope)
    (b : List Stmt) : (bindNamesIn scope b).Safe t fun _ _ => True := by
  cases b with
  | nil => exact safe_pure ht trivial
  | cons s rest =>
    apply safe_bind (s.bindNames_safe ht hs)
    intro _ t₁ h₁ g₁ _
    exact bindNamesIn_safe h₁ (g₁.holdsScope hs) rest
end

theorem FieldDecl.bindNames_safe {t : Table} (ht : t.Valid) {scope : ScopeId}
    (hs : t.HoldsScope scope) (f : FieldDecl) : (f.bindNames scope).Safe t fun _ _ => True :=
  safe_option ht (fun e => e.bindNames_safe ht hs) f.init

theorem StructDecl.bindNames_safe {t : Table} (ht : t.Valid) (s : StructDecl) :
    s.bindNames.Safe t fun _ _ => True := by
  apply safe_bind (safe_view ht)
  rintro _ t₁ h₁ g₁ ⟨rfl, rfl⟩
  cases hd : t₁.declaredBy? s.node.id with
  | none => exact safe_pure h₁ trivial
  | some id =>
    obtain ⟨_, hk⟩ := Table.holds_iff_kind?.1 (h₁.declared _ id hd).2
    apply safe_bind (safe_query h₁ (Table.kindOf_eq_ok.2 hk))
    rintro k t₂ h₂ g₂ ⟨rfl, rfl⟩
    have hv := h₂.kind hk
    -- A node may be tied to a symbol of another sort, which has no fields to look at.
    cases k with
    | struct inner fields =>
      apply safe_forM h₂
      intro f _ t₃ h₃ g₃
      exact f.bindNames_safe h₃ (g₃.holdsScope hv.1)
    | _ => exact safe_pure h₂ trivial

theorem Callable.bindNames_safe {t : Table} (ht : t.Valid) (f : Callable) :
    f.bindNames.Safe t fun _ _ => True := by
  apply safe_bind (safe_view ht)
  rintro _ t₁ h₁ g₁ ⟨rfl, rfl⟩
  cases hd : t₁.declaredBy? f.node.id with
  | none => exact safe_pure h₁ trivial
  | some id =>
    apply safe_bind (safe_query h₁ (Table.function?_eq (h₁.declared _ id hd).2))
    rintro _ t₂ h₂ g₂ ⟨rfl, rfl⟩
    cases hf : t₂.functionAt id with
    | none => exact safe_pure h₂ trivial
    | some info => exact bindNamesIn_safe h₂ (Table.functionAt_valid h₂ hf).1 f.body.stmts

theorem ContractDecl.bindNames_safe {t : Table} (ht : t.Valid) (c : ContractDecl) :
    c.bindNames.Safe t fun _ _ => True := by
  obtain ⟨scope, hscope, hheld⟩ := Table.exists_memberScope ht
  apply safe_bind (safe_query ht hscope)
  rintro _ t₁ h₁ g₁ ⟨rfl, rfl⟩
  apply safe_bind (safe_forM h₁ fun f _ t₂ h₂ g₂ => f.bindNames_safe h₂ (g₂.holdsScope hheld))
  intro _ t₂ h₂ _ _
  apply safe_bind (safe_forM h₂ fun s _ t₃ h₃ _ => s.bindNames_safe h₃)
  intro _ t₃ h₃ _ _
  exact safe_forM h₃ fun f _ t₄ h₄ _ => f.bindNames_safe h₄

theorem Program.bindNames_safe {t : Table} (ht : t.Valid) (p : Program) :
    p.bindNames.Safe t fun _ _ => True := by
  unfold Program.bindNames
  cases p.contract with
  | none => exact safe_pure ht trivial
  | some c => exact c.bindNames_safe ht

/-! ### Checking -/

namespace Pass
variable {t : Table}

theorem safe_expect (ht : t.Valid) {expected found : Option SymbolId} (he : t.Knows expected)
    (hf : t.Knows found) (cause : String → String → Cause) (span : Span) :
    (expect expected found cause span).Safe t fun _ _ => True :=
  safe_of_run (run_expect t.bindings t.types he hf cause span) ht (.refl t) trivial

theorem safe_expectAll (ht : t.Valid) (cause : Nat → String → String → Cause) (position : Nat)
    {slots : List Slot} (h : ∀ s ∈ slots, t.Knows s.expected ∧ t.Knows s.found) :
    (expectAll cause position slots).Safe t fun _ _ => True :=
  safe_of_run (run_expectAll t.bindings t.types cause position h) ht (.refl t) trivial

theorem safe_checkOperands (ht : t.Valid) (op : BinaryOp) {left right : Option SymbolId}
    (hl : t.Knows left) (hr : t.Knows right) (span : Span) :
    (checkOperands op left right span).Safe t fun _ _ => True :=
  safe_of_run (run_checkOperands t.bindings t.types op hl hr span) ht (.refl t) trivial

theorem safe_viewType (ht : t.Valid) (node : NodeId) :
    (view (·.typeAt? node)).Safe t fun found t' => t'.Knows found :=
  safe_of_run (run_view ..) ht (.refl t) fun id hid => ht.types node id hid

theorem safe_declaredType (ht : t.Valid) (node : NodeId) :
    (declaredType node).Safe t fun found t' => t'.Knows found := by
  apply safe_bind (safe_view ht)
  rintro _ t₁ h₁ g₁ ⟨rfl, rfl⟩
  cases hd : t₁.declaredBy? node with
  | none => exact safe_pure h₁ t₁.knows_none
  | some id =>
    apply (safe_query h₁ (Table.valueType?_eq (h₁.declared _ id hd).2)).imp
    rintro _ _ ⟨rfl, rfl⟩
    exact fun type htype => Table.valueType_holds h₁ htype

/-- Slots of two lists, position by position. -/
theorem knows_zipWith {α β : Type} {xs : List α} {ys : List β} {slot : α → β → Slot}
    (hx : ∀ x ∈ xs, ∀ y, t.Knows (slot x y).expected) (hy : ∀ y ∈ ys, ∀ x, t.Knows (slot x y).found) :
    ∀ s ∈ xs.zipWith slot ys, t.Knows s.expected ∧ t.Knows s.found := by
  intro s hs
  obtain ⟨i, hi⟩ := List.getElem?_of_mem hs
  obtain ⟨x, y, hxi, hyi, rfl⟩ := List.getElem?_zipWith_eq_some.1 hi
  exact ⟨hx x (List.mem_of_getElem? hxi) y, hy y (List.mem_of_getElem? hyi) x⟩

theorem safe_fitArguments (ht : t.Valid) (callee : String) {params : List SymbolId}
    (hp : ∀ id ∈ params, t.Holds id) {args : List (Option SymbolId × Span)}
    (ha : ∀ a ∈ args, t.Knows a.1) (span : Span) :
    (fitArguments callee params args span).Safe t fun _ _ => True := by
  unfold fitArguments
  split
  · apply safe_bind (safe_query ht (mapM_valueType t.bindings t.types hp))
    rintro _ t₁ h₁ g₁ ⟨rfl, rfl⟩
    apply safe_expectAll h₁
    apply knows_zipWith
    · intro type htype _
      obtain ⟨p, -, rfl⟩ := List.mem_map.1 htype
      exact fun id hid => Table.valueType_holds h₁ hid
    · exact fun a hmem _ => ha a hmem
  · exact safe_report _ _ ht

theorem safe_callType (ht : t.Valid) (callee : Designator) {args : List (Option SymbolId × Span)}
    (ha : ∀ a ∈ args, t.Knows a.1) (span : Span) :
    (callType callee args span).Safe t fun found t' => t'.Knows found := by
  apply safe_bind (safe_view ht)
  rintro _ t₁ h₁ g₁ ⟨rfl, rfl⟩
  cases hb : t₁.boundTo? callee.id with
  | none => exact safe_pure h₁ t₁.knows_none
  | some id =>
    apply safe_bind (safe_query h₁ (Table.function?_eq (h₁.bindings _ id hb)))
    rintro _ t₂ h₂ g₂ ⟨rfl, rfl⟩
    cases hf : t₂.functionAt id with
    | none => exact safe_reportNone h₂ ..
    | some info =>
      obtain ⟨-, hr, hp, -⟩ := Table.functionAt_valid h₂ hf
      cases hret : info.returns with
      | nil =>
        have hvoid : t₂.Holds .void := h₂.holds (by decide)
        simp only [hret]
        exact safe_pure h₂ hvoid.knows
      | cons first rest =>
        have hparams : ∀ id ∈ info.params, t₂.Holds id := fun id hid =>
          Table.holds_iff_kind?.2 ⟨_, (hp id hid).choose_spec⟩
        have hfirst : t₂.Holds first := (hr first (by rw [hret]; exact List.mem_cons_self ..)).1
        simp only [hret]
        apply safe_bind (safe_fitArguments h₂ callee.text hparams ha span)
        intro _ t₃ h₃ g₃ _
        exact safe_pure h₃ (g₃.holds hfirst).knows

end Pass

theorem Literal.holds_type {t : Table} (ht : t.Valid) (value : Literal) : t.Holds value.type := by
  cases value <;> exact ht.holds (by decide)

theorem UnaryOp.holds_operandType {t : Table} (ht : t.Valid) (op : UnaryOp) :
    t.Holds op.operandType := by
  cases op <;> exact ht.holds (by decide)

theorem BinaryOp.holds_resultType {t : Table} (ht : t.Valid) (op : BinaryOp) :
    t.Holds op.resultType := by
  unfold BinaryOp.resultType
  split <;> exact ht.holds (by decide)

mutual
theorem Expr.check_safe {t : Table} (ht : t.Valid) (e : Expr) :
    e.check.Safe t fun found t' => t'.Knows found := by
  cases e with
  | literal node value => exact safe_noteType ht (value.holds_type ht) node.id
  | load node source =>
    apply safe_bind (source.check_safe ht)
    intro found t₁ h₁ _ hfound
    cases found with
    | none => exact safe_pure h₁ t₁.knows_none
    | some type => exact safe_noteType h₁ (hfound type rfl) node.id
  | call node callee args =>
    apply safe_bind (checkEach_safe ht args)
    intro found t₁ h₁ _ hfound
    apply safe_bind (callee.check_safe h₁)
    intro _ t₂ h₂ g₂ _
    have hargs : ∀ a ∈ found.zip (args.map Expr.span), t₂.Knows a.1 := fun a ha =>
      (hfound a.1 (List.of_mem_zip ha).1).grows g₂
    apply safe_bind (safe_callType h₂ callee hargs node.span)
    intro type t₃ h₃ _ htype
    cases type with
    | none => exact safe_pure h₃ t₃.knows_none
    | some type => exact safe_noteType h₃ (htype type rfl) node.id
  | binary node op left right =>
    apply safe_bind (left.check_safe ht)
    intro leftType t₁ h₁ _ hl
    apply safe_bind (right.check_safe h₁)
    intro rightType t₂ h₂ g₂ hr
    apply safe_bind (safe_checkOperands h₂ op (hl.grows g₂) hr node.span)
    intro _ t₃ h₃ _ _
    exact safe_noteType h₃ (op.holds_resultType h₃) node.id
  | unary node op operand =>
    apply safe_bind (operand.check_safe ht)
    intro found t₁ h₁ _ hfound
    apply safe_bind (safe_expect h₁ (op.holds_operandType h₁).knows hfound _ node.span)
    intro _ t₂ h₂ _ _
    exact safe_noteType h₂ (op.holds_operandType h₂) node.id

theorem Designator.check_safe {t : Table} (ht : t.Valid) (d : Designator) :
    d.check.Safe t fun found t' => t'.Knows found := by
  cases d with
  | name node name => exact safe_viewType ht node.id
  | index node base position =>
    apply safe_bind (base.check_safe ht)
    intro _ t₁ h₁ _ _
    apply safe_bind (position.check_safe h₁)
    intro _ t₂ h₂ _ _
    exact safe_viewType h₂ node.id
  | member node base m =>
    apply safe_bind (base.check_safe ht)
    intro _ t₁ h₁ _ _
    exact safe_viewType h₁ node.id

theorem checkEach_safe {t : Table} (ht : t.Valid) (es : List Expr) :
    (checkEach es).Safe t fun found t' => ∀ type ∈ found, t'.Knows type := by
  cases es with
  | nil => exact safe_pure ht (by simp)
  | cons e rest =>
    apply safe_bind (e.check_safe ht)
    intro type t₁ h₁ _ htype
    apply safe_bind (checkEach_safe h₁ rest)
    intro types t₂ h₂ g₂ htypes
    apply safe_pure h₂
    intro type' hmem
    rcases List.mem_cons.1 hmem with rfl | hmem
    · exact htype.grows g₂
    · exact htypes type' hmem
end

theorem checkInit_safe {t : Table} (ht : t.Valid) (node : NodeId) (name : String) (init : Expr) :
    (checkInit node name init).Safe t fun _ _ => True := by
  apply safe_bind (safe_declaredType ht node)
  intro declared t₁ h₁ _ hd
  apply safe_bind (init.check_safe h₁)
  intro found t₂ h₂ g₂ hf
  exact safe_expect h₂ (hd.grows g₂) hf _ init.span

theorem checkTargets_safe {t : Table} (ht : t.Valid) {targets : List (Option SymbolId)}
    (h : ∀ type ∈ targets, t.Knows type) (source : Expr) (span : Span) :
    (checkTargets targets source span).Safe t fun _ _ => True := by
  apply safe_bind (source.check_safe ht)
  intro _ t₁ h₁ g₁ _
  cases source with
  | call node callee args =>
    apply safe_bind (safe_view h₁)
    rintro _ t₂ h₂ g₂ ⟨rfl, rfl⟩
    cases hb : t₂.boundTo? callee.id with
    | none => exact safe_pure h₂ trivial
    | some id =>
      apply safe_bind (safe_query h₂ (Table.function?_eq (h₂.bindings _ id hb)))
      rintro _ t₃ h₃ g₃ ⟨rfl, rfl⟩
      cases hf : t₃.functionAt id with
      | none => exact safe_pure h₃ trivial
      | some info =>
        dsimp only
        split
        · apply safe_expectAll h₃
          apply knows_zipWith
          · exact fun type hmem _ => (h type hmem).grows g₁
          · exact fun f hmem _ => ((Table.functionAt_valid h₃ hf).2.1 f hmem).1.knows
        · exact safe_report _ _ h₃
  | literal node value => exact safe_report _ _ h₁
  | load node d => exact safe_report _ _ h₁
  | binary node op left right => exact safe_report _ _ h₁
  | unary node op operand => exact safe_report _ _ h₁

theorem checkGivenBack_safe {t : Table} (ht : t.Valid) {function : Option SymbolId}
    (hfun : t.Knows function) (values : List Expr) (span : Span) :
    (checkGivenBack function values span).Safe t fun _ _ => True := by
  apply safe_bind (checkEach_safe ht values)
  intro found t₁ h₁ g₁ hfound
  cases function with
  | none => exact safe_pure h₁ trivial
  | some id =>
    apply safe_bind (safe_query h₁ (Table.function?_eq (g₁.holds (hfun id rfl))))
    rintro _ t₂ h₂ g₂ ⟨rfl, rfl⟩
    cases hf : t₂.functionAt id with
    | none => exact safe_pure h₂ trivial
    | some info =>
      dsimp only
      split
      · split
        · exact safe_pure h₂ trivial
        · exact safe_report _ _ h₂
      · split
        · apply safe_expectAll h₂
          apply knows_zipWith
          · exact fun e hmem _ => ((Table.functionAt_valid h₂ hf).2.1 e hmem).1.knows
          · exact fun f hmem _ => hfound f.1 (List.of_mem_zip hmem).1
        · exact safe_report _ _ h₂

mutual
theorem Stmt.check_safe {t : Table} (ht : t.Valid) {function : Option SymbolId}
    (hfun : t.Knows function) (s : Stmt) : (s.check function).Safe t fun _ _ => True := by
  cases s with
  | declare node vars init =>
    have hdeclared : (vars.mapM fun v => declaredType v.node.id).Safe t fun types t' =>
        ∀ type ∈ types, t'.Knows type := by
      apply safe_mapM ht
      · exact fun _ _ _ hb g => hb.grows g
      · exact fun v _ t' ht' _ => safe_declaredType ht' v.node.id
    cases init with
    | none => exact safe_pure ht trivial
    | some init =>
      match vars with
      | [v] => exact checkInit_safe ht v.node.id v.name.text init
      | [] =>
        apply safe_bind hdeclared
        intro types t₁ h₁ _ htypes
        exact checkTargets_safe h₁ htypes init node.span
      | v :: w :: rest =>
        apply safe_bind hdeclared
        intro types t₁ h₁ _ htypes
        exact checkTargets_safe h₁ htypes init node.span
  | assign node target value =>
    apply safe_bind (target.check_safe ht)
    intro expected t₁ h₁ _ he
    apply safe_bind (value.check_safe h₁)
    intro found t₂ h₂ g₂ hf
    exact safe_expect h₂ (he.grows g₂) hf _ value.span
  | assignAll node targets source =>
    have htargets : (targets.mapM Designator.check).Safe t fun types t' =>
        ∀ type ∈ types, t'.Knows type := by
      apply safe_mapM ht
      · exact fun _ _ _ hb g => hb.grows g
      · exact fun d _ t' ht' _ => d.check_safe ht'
    apply safe_bind htargets
    intro types t₁ h₁ _ htypes
    exact checkTargets_safe h₁ htypes source node.span
  | branch node condition onTrue onFalse =>
    have hbool : ∀ found t₁, Table.Valid t₁ → t₁.Knows found →
        (expect (some .bool) found (fun _ found => .conditionNotBool found) condition.span).Safe t₁
          fun _ _ => True := by
      intro found t₁ h₁ hf
      have hb : t₁.Holds .bool := h₁.holds (by decide)
      exact safe_expect h₁ hb.knows hf _ condition.span
    cases onFalse with
    | none =>
      apply safe_bind (condition.check_safe ht)
      intro found t₁ h₁ g₁ hfound
      apply safe_bind (hbool found t₁ h₁ hfound)
      intro _ t₂ h₂ g₂ _
      exact checkStmts_safe h₂ (hfun.grows (g₁.trans g₂)) onTrue.stmts
    | some onFalse =>
      apply safe_bind (condition.check_safe ht)
      intro found t₁ h₁ g₁ hfound
      apply safe_bind (hbool found t₁ h₁ hfound)
      intro _ t₂ h₂ g₂ _
      apply safe_bind (checkStmts_safe h₂ (hfun.grows (g₁.trans g₂)) onTrue.stmts)
      intro _ t₃ h₃ g₃ _
      exact checkStmts_safe h₃ (hfun.grows ((g₁.trans g₂).trans g₃)) onFalse.stmts
  | giveBack node values => exact checkGivenBack_safe ht hfun values node.span

theorem checkStmts_safe {t : Table} (ht : t.Valid) {function : Option SymbolId}
    (hfun : t.Knows function) (b : List Stmt) : (checkStmts function b).Safe t fun _ _ => True := by
  cases b with
  | nil => exact safe_pure ht trivial
  | cons s rest =>
    apply safe_bind (s.check_safe ht hfun)
    intro _ t₁ h₁ g₁ _
    exact checkStmts_safe h₁ (hfun.grows g₁) rest
end

theorem FieldDecl.check_safe {t : Table} (ht : t.Valid) (f : FieldDecl) :
    f.check.Safe t fun _ _ => True :=
  safe_option ht (fun e => checkInit_safe ht f.node.id f.name.text e) f.init

theorem Callable.check_safe {t : Table} (ht : t.Valid) (f : Callable) :
    f.check.Safe t fun _ _ => True := by
  apply safe_bind (safe_view ht)
  rintro _ t₁ h₁ g₁ ⟨rfl, rfl⟩
  exact checkStmts_safe h₁ (fun id hid => (h₁.declared _ id hid).2) f.body.stmts

theorem Program.check_safe {t : Table} (ht : t.Valid) (p : Program) :
    p.check.Safe t fun _ _ => True := by
  unfold Program.check
  cases p.contract with
  | none => exact safe_pure ht trivial
  | some c =>
    apply safe_bind (safe_forM ht fun f _ t₁ h₁ _ => f.check_safe h₁)
    intro _ t₁ h₁ _ _
    apply safe_bind (safe_forM h₁ fun s _ t₂ h₂ _ =>
      safe_forM h₂ fun f _ t₃ h₃ _ => f.check_safe h₃)
    intro _ t₂ h₂ _ _
    exact safe_forM h₂ fun f _ t₃ h₃ _ => f.check_safe h₃

end ContractLang
