import Mathlib.Data.List.Flatten
import ContractLang.Proofs.Realizing
/-!
Resolving types, exactly. What is reported depends on the written types and on what they mean, not
on the table; afterwards each value has the symbol of the type that is written with it, and each
callable returns the symbols of what it is written to return.
-/
namespace ContractLang

open Pass Table

/-! ### What is reported -/

namespace TypeName

def fault (E : Env) (type : TypeName) : List Diagnostic :=
  if E.denote type = none then [⟨.unknownType type.text, type.span⟩] else []

/-- What is reported of the type of a value, which may not be void. -/
def valueFault (E : Env) (type : TypeName) : List Diagnostic :=
  if type.isVoid then [⟨.voidValue, type.span⟩] else type.fault E

theorem fault_eq_nil {E : Env} {type : TypeName} : type.fault E = [] ↔ (E.denote type).isSome := by
  unfold fault
  cases E.denote type <;> simp

theorem valueFault_eq_nil {E : Env} {type : TypeName} :
    type.valueFault E = [] ↔ (E.denote type).isSome := by
  unfold valueFault
  cases type with
  | void span => simp [isVoid, Env.denote]
  | _ => exact fault_eq_nil

end TypeName

namespace Callable

def countFault (f : Callable) : List Diagnostic :=
  if maxReturns < f.returns.length then
    [⟨.tooManyReturns f.shownName f.returns.length maxReturns, f.node.span⟩]
  else []

def voidFault (f : Callable) : List Diagnostic :=
  match f.returns.find? (·.isVoid) with
  | none => []
  | some void => if 1 < f.returns.length then [⟨.voidAmongReturns f.shownName, void.span⟩] else []

def returnFaults (E : Env) (f : Callable) : List Diagnostic :=
  f.countFault ++ (f.voidFault ++ (f.returns.filter (!·.isVoid)).flatMap (·.fault E))

def typeFaults (E : Env) (f : Callable) : List Diagnostic :=
  f.params.flatMap (·.type.valueFault E) ++
    (f.returnFaults E ++ (localsOf f.body.stmts).flatMap (·.type.valueFault E))

theorem voidFault_eq_nil {f : Callable} :
    f.voidFault = [] ↔ ∀ r ∈ f.returns, r.isVoid → f.returns.length ≤ 1 := by
  unfold voidFault
  cases hfind : f.returns.find? (·.isVoid) with
  | none =>
    have hnone := List.find?_eq_none.1 hfind
    exact ⟨fun _ r hr hvoid => absurd hvoid (hnone r hr), fun _ => rfl⟩
  | some void =>
    have hvoid := List.find?_some hfind
    have hmem := List.mem_of_find?_eq_some hfind
    simp only [ite_eq_right_iff, List.cons_ne_nil, imp_false, Nat.not_lt]
    exact ⟨fun h _ _ _ => h, fun h => h void hmem hvoid⟩

/-- Nothing is reported of the types of a callable exactly if they are as they should be. -/
theorem typeFaults_eq_nil {E : Env} {f : Callable} : f.typeFaults E = [] ↔ f.Typed E := by
  have hcount : f.countFault = [] ↔ f.returns.length ≤ maxReturns := by
    unfold countFault
    simp
  simp only [typeFaults, returnFaults, List.append_eq_nil_iff, List.flatMap_eq_nil_iff,
    TypeName.valueFault_eq_nil, TypeName.fault_eq_nil, hcount, voidFault_eq_nil, List.mem_filter,
    Bool.not_eq_true', and_imp]
  constructor
  · rintro ⟨hparams, ⟨hfew, hvoid, hreturns⟩, hlocals⟩
    exact ⟨fun v hv => (List.mem_append.1 hv).elim (hparams v) (hlocals v), hfew, hvoid, hreturns⟩
  · intro h
    exact ⟨fun v hv => h.vars v (List.mem_append_left _ hv), ⟨h.few, h.void, h.returns⟩,
      fun v hv => h.vars v (List.mem_append_right _ hv)⟩

end Callable

/-- What resolving types reports of a contract. -/
def ContractDecl.typeFaults (c : ContractDecl) : List Diagnostic :=
  c.fields.flatMap (·.type.valueFault c.env) ++
    (c.structs.flatMap (fun s => s.fields.flatMap (·.type.valueFault c.env)) ++
      c.callables.flatMap (·.typeFaults c.env))

theorem ContractDecl.typeFaults_eq_nil {c : ContractDecl} : c.typeFaults = [] ↔
    (∀ f ∈ c.allFields, (c.env.denote f.type).isSome) ∧ ∀ f ∈ c.callables, f.Typed c.env := by
  simp only [typeFaults, List.append_eq_nil_iff, List.flatMap_eq_nil_iff, TypeName.valueFault_eq_nil,
    Callable.typeFaults_eq_nil]
  constructor
  · rintro ⟨hfields, hstructs, hcallables⟩
    refine ⟨fun f hf => ?_, hcallables⟩
    rcases List.mem_append.1 hf with hf | hf
    · exact hfields f hf
    · obtain ⟨s, hs, hf⟩ := List.mem_flatMap.1 hf
      exact hstructs s hs f hf
  · rintro ⟨hfields, hcallables⟩
    exact ⟨fun f hf => hfields f (List.mem_append_left _ hf),
      fun s hs f hf => hfields f (List.mem_append_right _ (List.mem_flatMap.2 ⟨s, hs, hf⟩)), hcallables⟩

/-! ### What has been settled -/

namespace ContractDecl
variable (c : ContractDecl)

/-- The nodes of values with the types that are written there. -/
def annotations : List (NodeId × TypeName) :=
  c.allFields.map (fun f => (f.node.id, f.type)) ++
    c.callables.flatMap fun f => f.vars.map fun v => (v.node.id, v.type)

/-- The value has the symbol of its type. -/
def Carries (t : Table) (a : NodeId × TypeName) : Prop :=
  ∃ type id, c.env.denote a.2 = some type ∧ t.typeOf? type = some id ∧ t.declaredType a.1 = some id

/-- The callable returns the symbols of its types. -/
def Returns (t : Table) (f : Callable) : Prop :=
  ∃ info, t.functionOf f = some info ∧
    List.Forall₂ (fun type id => t.typeOf? type = some id) (c.env.returned f.returns) info.returns

/-- Types have been settled, and what was settled before is so still. A value has got no type but the
one that is written with it. -/
structure Advances (t t' : Table) : Prop where
  founded : c.Founded t'
  retypes : t.Retypes t'
  carries : ∀ a ∈ c.annotations, c.Carries t a → c.Carries t' a
  returns : ∀ f ∈ c.callables, c.Returns t f → c.Returns t' f
  own : ∀ a ∈ c.annotations, t'.declaredType a.1 ≠ none →
    t.declaredType a.1 ≠ none ∨ c.Carries t' a

variable {c} {t t' t'' : Table}

theorem Advances.refl (h : c.Founded t) : c.Advances t t :=
  ⟨h, .refl t, fun _ _ h => h, fun _ _ h => h, fun _ _ h => .inl h⟩

theorem Advances.trans (h₁ : c.Advances t t') (h₂ : c.Advances t' t'') : c.Advances t t'' where
  founded := h₂.founded
  retypes := h₁.retypes.trans h₂.retypes
  carries a ha hc := h₂.carries a ha (h₁.carries a ha hc)
  returns f hf hr := h₂.returns f hf (h₁.returns f hf hr)
  own a ha hsome := by
    rcases h₂.own a ha hsome with hsome | hcarries
    · exact (h₁.own a ha hsome).imp_right (h₂.carries a ha)
    · exact .inr hcarries

theorem Carries.of_declaredType {a : NodeId × TypeName} (h : c.Carries t a) (hr : t.Retypes t')
    (ht : ∀ type, t.declaredType a.1 = some type → t'.declaredType a.1 = some type) :
    c.Carries t' a := by
  obtain ⟨type, id, hdenote, hid, hdeclared⟩ := h
  exact ⟨type, id, hdenote, hr.typeOf?_eq_some hid, ht id hdeclared⟩

theorem Returns.of_functionOf {f : Callable} (h : c.Returns t f) (hr : t.Retypes t')
    (ht : ∀ info, t.functionOf f = some info → t'.functionOf f = some info) : c.Returns t' f := by
  obtain ⟨info, hinfo, hreturns⟩ := h
  exact ⟨info, ht info hinfo, hreturns.imp fun _ _ hid => hr.typeOf?_eq_some hid⟩

theorem nodup_annotations (hn : c.declarationIds.Nodup) : (c.annotations.map Prod.fst).Nodup := by
  refine hn.sublist ?_
  have hfields : (c.structs.flatMap (·.fields)).map (·.node.id) =
      c.structs.flatMap fun s => s.fields.map (·.node.id) := List.map_flatMap
  have hvars : (c.callables.flatMap fun f => f.vars.map fun v => (v.node.id, v.type)).map Prod.fst =
      c.callables.flatMap fun f => f.vars.map (·.node.id) := by
    simp only [List.map_flatMap, List.map_map]
    rfl
  rw [annotations, List.map_append, List.map_map, hvars, allFields, List.map_append,
    declarationIds, List.append_assoc, List.append_assoc]
  refine List.Sublist.append ?_ (List.Sublist.append ?_ ?_)
  · exact List.sublist_cons_self ..
  · change ((c.structs.flatMap (·.fields)).map (·.node.id)).Sublist _
    rw [hfields]
    exact List.Sublist.flatMap_right _ fun s _ => List.sublist_cons_self ..
  · refine List.Sublist.flatMap_right _ fun f _ => ?_
    rw [Callable.vars, List.map_append]
    exact List.sublist_cons_self ..

theorem annotation_unique (hn : c.declarationIds.Nodup) {node : NodeId} {a b : TypeName}
    (ha : (node, a) ∈ c.annotations) (hb : (node, b) ∈ c.annotations) : a = b :=
  congrArg Prod.snd (List.inj_on_of_nodup_map (nodup_annotations hn) ha hb rfl)

theorem callable_unique (hn : c.declarationIds.Nodup) {f g : Callable} (hf : f ∈ c.callables)
    (hg : g ∈ c.callables) (he : f.node.id = g.node.id) : f = g := by
  refine List.inj_on_of_nodup_map (f := fun f : Callable => f.node.id) ?_ hf hg he
  refine hn.sublist ?_
  rw [declarationIds]
  refine List.Sublist.trans ?_ (List.sublist_append_right _ _)
  rw [← List.flatMap_singleton' (c.callables.map _), List.flatMap_map]
  exact List.Sublist.flatMap_right _ fun f _ => by simp

theorem Founded.awaits (h : c.Founded t) {a : NodeId × TypeName} (ha : a ∈ c.annotations) :
    t.AwaitsType a.1 := by
  rcases List.mem_append.1 ha with ha | ha
  · obtain ⟨f, hf, rfl⟩ := List.mem_map.1 ha
    obtain ⟨scope, id, hid⟩ := field_numbered hf
    obtain ⟨hdeclared, hsort⟩ := h.declared _ id hid
    exact ⟨id, _, hdeclared, hsort, rfl, rfl⟩
  · obtain ⟨f, hf, ha⟩ := List.mem_flatMap.1 ha
    obtain ⟨v, hv, rfl⟩ := List.mem_map.1 ha
    obtain ⟨p, hp, rfl⟩ := exists_callablePlace hf
    obtain ⟨kind, id, hid, hvalue, hnone⟩ := var_numbered hp hv
    obtain ⟨hdeclared, hsort⟩ := h.declared _ id hid
    exact ⟨id, kind, hdeclared, hsort, hvalue, hnone⟩

/-! ### Changes to the table -/

theorem Founded.declaredType_interns (h : c.Founded t) (hi : t.Interns t') (node : NodeId) :
    t'.declaredType node = t.declaredType node := by
  rw [Table.declaredType, Table.declaredType, declaredBy?, hi.declared, ← declaredBy?]
  cases hid : t.declaredBy? node with
  | none => rfl
  | some id =>
    obtain ⟨k, hk⟩ := holds_iff_kind?.1 (h.valid.declared node id hid).2
    rw [Option.bind_some, Option.bind_some, valueType, valueType, hi.kind hk, hk]

theorem advances_of_interns (h : c.Founded t) (hv : t'.Valid) (hi : t.Interns t')
    (hr : t.Retypes t') : c.Advances t t' where
  founded := h.settles hv hi.settles
  retypes := hr
  carries a _ hc :=
    hc.of_declaredType hr fun type htype => (h.declaredType_interns hi a.1).trans htype
  returns f _ hf := by
    refine hf.of_functionOf hr fun info hinfo => ?_
    obtain ⟨id, hid, hfun⟩ := Option.bind_eq_some_iff.1 hinfo
    obtain ⟨k, hk, hk'⟩ := Option.bind_eq_some_iff.1 hfun
    rw [functionOf, declaredBy?, hi.declared]
    exact Option.bind_eq_some_iff.2 ⟨id, hid, Option.bind_eq_some_iff.2 ⟨k, hi.kind hk, hk'⟩⟩
  own a _ hsome := .inl (h.declaredType_interns hi a.1 ▸ hsome)

/-- A change to one symbol that leaves the types of values alone, or is made to another symbol. -/
theorem declaredType_amend {id : SymbolId} {f : SymbolKind → SymbolKind} {node : NodeId}
    (h : t.declaredBy? node = some id → ∀ k, (f k).valueType? = k.valueType?) :
    (t.amend id f).declaredType node = t.declaredType node := by
  change (t.declaredBy? node).bind _ = (t.declaredBy? node).bind _
  cases hj : t.declaredBy? node with
  | none => rfl
  | some j =>
    rw [Option.bind_some, Option.bind_some, valueType, valueType, kind?_amend]
    by_cases hid : id = j
    · subst hid
      cases t.kind? id with
      | none => rfl
      | some k => simp [h hj]
    · cases t.kind? j <;> simp [hid]

theorem advances_withValueType (hn : c.declarationIds.Nodup) (h : c.Founded t)
    {a : NodeId × TypeName} (ha : a ∈ c.annotations) {id symbol : SymbolId}
    (hid : t.declaredBy? a.1 = some id) (hv : (t.amend id (·.withValueType symbol)).Valid)
    {type : Ty} (hdenote : c.env.denote a.2 = some type) (hsymbol : t.typeOf? type = some symbol) :
    c.Advances t (t.amend id (·.withValueType symbol)) ∧
      c.Carries (t.amend id (·.withValueType symbol)) a := by
  have hr : t.Retypes (t.amend id (·.withValueType symbol)) :=
    t.retypes_amend id (SymbolKind.retyped_withValueType symbol)
  have hself : c.Carries (t.amend id (·.withValueType symbol)) a := by
    obtain ⟨j, k, hj, hk, hvalue, hnone⟩ := h.awaits ha
    rw [hid] at hj
    cases hj
    obtain ⟨k', hk', rfl⟩ := Option.map_eq_some_iff.1 hk
    refine ⟨type, symbol, hdenote, hr.typeOf?_eq_some hsymbol, ?_⟩
    change ((t.declaredBy? a.1).bind _) = _
    rw [hid, Option.bind_some, valueType, kind?_amend, hk', Option.map_some, if_pos rfl]
    exact withValueType_of_awaits hvalue hnone symbol
  -- The value that is written to may be this one, but then its type is the same.
  have hcases : ∀ b ∈ c.annotations, c.Carries (t.amend id (·.withValueType symbol)) b ∨
      (t.amend id (·.withValueType symbol)).declaredType b.1 = t.declaredType b.1 := by
    rintro ⟨node, written⟩ hb
    by_cases hsame : node = a.1
    · subst hsame
      rw [annotation_unique hn hb (show (a.1, a.2) ∈ _ from ha)]
      exact .inl hself
    · exact .inr (declaredType_amend fun hj => absurd (h.declaredBy?_inj hj hid) hsame)
  refine ⟨⟨h.settles hv (t.settles_withValueType id symbol), hr, ?_, ?_, ?_⟩, hself⟩
  · intro b hb hcarries
    rcases hcases b hb with hown | hsame
    · exact hown
    · exact hcarries.of_declaredType hr fun type htype => hsame.trans htype
  · intro f _ hreturns
    refine hreturns.of_functionOf hr fun info hinfo => ?_
    obtain ⟨j, hj, hfun⟩ := Option.bind_eq_some_iff.1 hinfo
    obtain ⟨k, hk, hk'⟩ := Option.bind_eq_some_iff.1 hfun
    refine Option.bind_eq_some_iff.2 ⟨j, hj, ?_⟩
    rw [functionAt, kind?_amend, hk, Option.map_some, Option.bind_some]
    cases k with
    | function info' => split <;> exact hk'
    | _ => cases hk'
  · intro b hb hsome
    rcases hcases b hb with hown | hsame
    · exact .inr hown
    · exact .inl (hsame ▸ hsome)

theorem advances_setReturns (hn : c.declarationIds.Nodup) (h : c.Founded t) {f : Callable}
    (hf : f ∈ c.callables) {id : SymbolId} {types : List SymbolId}
    (hid : t.declaredBy? f.node.id = some id)
    (hv : (t.amend id (·.mapFunction (·.setReturns types))).Valid)
    (htypes : List.Forall₂ (fun type id => t.typeOf? type = some id) (c.env.returned f.returns) types) :
    c.Advances t (t.amend id (·.mapFunction (·.setReturns types))) ∧
      c.Returns (t.amend id (·.mapFunction (·.setReturns types))) f := by
  have hr : t.Retypes (t.amend id (·.mapFunction (·.setReturns types))) :=
    t.retypes_amend id (SymbolKind.retyped_setReturns types)
  have hself : c.Returns (t.amend id (·.mapFunction (·.setReturns types))) f := by
    obtain ⟨p, hp, rfl⟩ := exists_callablePlace hf
    obtain ⟨info, hinfo, -⟩ := h.functionOf hp
    obtain ⟨j, hj, hfun⟩ := Option.bind_eq_some_iff.1 hinfo
    rw [hid] at hj
    cases hj
    refine ⟨info.setReturns types, ?_, htypes.imp fun _ _ hid => hr.typeOf?_eq_some hid⟩
    exact Option.bind_eq_some_iff.2 ⟨id, hid, functionAt_updated hfun _⟩
  have hvalues : ∀ node, (t.amend id (·.mapFunction (·.setReturns types))).declaredType node =
      t.declaredType node := fun node => declaredType_amend fun _ k => by cases k <;> rfl
  refine ⟨⟨h.settles hv (t.settles_setReturns id types), hr, ?_, ?_, ?_⟩, hself⟩
  · intro a _ hcarries
    exact hcarries.of_declaredType hr fun type htype => (hvalues a.1).trans htype
  · intro g hg hreturns
    by_cases hsame : g.node.id = f.node.id
    · rw [callable_unique hn hg hf hsame]
      exact hself
    · refine hreturns.of_functionOf hr fun info hinfo => ?_
      obtain ⟨j, hj, hfun⟩ := Option.bind_eq_some_iff.1 hinfo
      have hne : id ≠ j := by
        rintro rfl
        exact hsame (h.declaredBy?_inj hj hid)
      obtain ⟨k, hk, hk'⟩ := Option.bind_eq_some_iff.1 hfun
      refine Option.bind_eq_some_iff.2 ⟨j, hj, ?_⟩
      rw [functionAt, kind?_amend, hk, Option.map_some, if_neg hne]
      exact hk'
  · intro a _ hsome
    exact .inl (hvalues a.1 ▸ hsome)

end ContractDecl

/-! ### Steps -/

section
variable {c : ContractDecl} {t : Table}

theorem TypeName.resolve_run (h : c.Founded t) (type : TypeName) :
    ∃ t', type.resolve.run t = .ok ⟨(c.env.denote type).bind t'.typeOf?, t', type.fault c.env⟩ ∧
      c.Advances t t' ∧ ∀ m ∈ c.env.denote type, (t'.typeOf? m).isSome := by
  obtain ⟨found, t', hnamed, hv, hi, hdenotes, hmeaningful⟩ := exists_typeNamed h.valid type
  have hr : t.Retypes t' := (type.state_keeps keptBySettling_retypes).leads (leads_state.2 hnamed)
  have hadvances := ContractDecl.advances_of_interns h hv hi hr
  rw [h.meaningful_iff] at hmeaningful
  have hfound : found = (c.env.denote type).bind t'.typeOf? := by
    cases found with
    | none =>
      rw [Option.not_isSome_iff_eq_none.1 (mt hmeaningful.2 Bool.false_ne_true)]
      rfl
    | some id => exact (hadvances.founded.denotes_iff.1 (hdenotes id rfl)).symm
  have hnone : found = none ↔ c.env.denote type = none := by
    rw [← Option.not_isSome_iff_eq_none, ← Option.not_isSome_iff_eq_none, hmeaningful]
  have hfault : type.fault c.env =
      if found = none then [⟨.unknownType type.text, type.span⟩] else [] :=
    ite_congr (propext hnone.symm) (fun _ => rfl) fun _ => rfl
  refine ⟨t', ?_, hadvances, ?_⟩
  · rw [← hfound, hfault]
    have hstate : (state (·.typeNamed type)).run t = .ok ⟨found, t', []⟩ :=
      run_state_iff.2 ⟨hnamed, rfl⟩
    refine run_bind_ok hstate ?_
    have hreport := run_reportIf (found = none) (.unknownType type.text) type.span t'
    have hrest := run_bind_ok (f := fun _ => pure found) hreport (run_pure found t')
    rwa [List.append_nil] at hrest
  · intro m hm
    rw [show c.env.denote type = some m from hm] at hmeaningful hfound
    rw [← Option.bind_some (f := t'.typeOf?), ← hfound]
    exact hmeaningful.2 rfl

theorem resolveTypes_run (h : c.Founded t) (types : List TypeName) :
    ∃ found t', (resolveTypes types).run t = .ok ⟨found, t', types.flatMap (·.fault c.env)⟩ ∧
      c.Advances t t' ∧
      List.Forall₂ (fun type id => t'.typeOf? type = some id) (types.filterMap c.env.denote) found := by
  induction types generalizing t with
  | nil => exact ⟨[], t, rfl, .refl h, .nil⟩
  | cons type rest ih =>
    obtain ⟨t₁, hrun₁, ha₁, hsome⟩ := type.resolve_run h
    obtain ⟨more, t₂, hrun₂, ha₂, hmore⟩ := ih ha₁.founded
    refine ⟨((c.env.denote type).bind t₁.typeOf?).toList ++ more, t₂, ?_, ha₁.trans ha₂, ?_⟩
    · have hrest := run_bind_ok
        (f := fun more => pure (((c.env.denote type).bind t₁.typeOf?).toList ++ more)) hrun₂
        (run_pure _ t₂)
      rw [List.append_nil] at hrest
      exact run_bind_ok hrun₁ hrest
    · cases hdenote : c.env.denote type with
      | none =>
        rw [List.filterMap_cons_none hdenote]
        exact hmore
      | some m =>
        obtain ⟨id, hid⟩ := Option.isSome_iff_exists.1 (hsome m hdenote)
        rw [List.filterMap_cons_some hdenote, Option.bind_some, hid]
        exact .cons (ha₂.retypes.typeOf?_eq_some hid) hmore

theorem Callable.checkVoid_run (f : Callable) (t : Table) :
    f.checkVoid.run t = .ok ⟨(), t, f.voidFault⟩ := by
  unfold Callable.checkVoid Callable.voidFault
  cases f.returns.find? (·.isVoid) with
  | none => rfl
  | some void => exact run_reportIf ..

variable (hn : c.declarationIds.Nodup)
include hn

theorem settleType_run (h : c.Founded t) {node : NodeId} {type : TypeName}
    (ha : (node, type) ∈ c.annotations) :
    ∃ t', (settleType node type).run t = .ok ⟨(), t', type.valueFault c.env⟩ ∧ c.Advances t t' ∧
      (type.valueFault c.env = [] → c.Carries t' (node, type)) := by
  obtain ⟨id, _, hid, -⟩ := h.awaits ha
  have hview : (view (·.declaredBy? node)).run t = .ok ⟨some id, t, []⟩ := by rw [run_view, hid]
  by_cases hvoid : type.isVoid = true
  · have hfault : type.valueFault c.env = [⟨.voidValue, type.span⟩] := if_pos hvoid
    refine ⟨t, ?_, .refl h, fun hnil => ?_⟩
    · rw [hfault]
      refine run_bind_ok hview ?_
      dsimp only
      rw [if_pos hvoid]
      rfl
    · rw [hfault] at hnil
      cases hnil
  · have hfault : type.valueFault c.env = type.fault c.env := if_neg hvoid
    obtain ⟨t₁, hresolve, hadvances, hsome⟩ := type.resolve_run h
    have hid₁ : t₁.declaredBy? node = some id :=
      (congrArg (Assoc.get? · node) hadvances.retypes.declared).trans hid
    cases hdenote : c.env.denote type with
    | none =>
      rw [hdenote] at hresolve
      refine ⟨t₁, ?_, hadvances, fun hnil => ?_⟩
      · rw [hfault, ← List.nil_append (type.fault c.env)]
        refine run_bind_ok hview ?_
        dsimp only
        rw [if_neg hvoid]
        exact run_bind_iff.2 ⟨_, _, _, _, hresolve, run_pure () t₁, (List.append_nil _).symm⟩
      · rw [hfault, TypeName.fault_eq_nil, hdenote] at hnil
        cases hnil
    | some m =>
      obtain ⟨symbol, hsymbol⟩ := Option.isSome_iff_exists.1 (hsome m hdenote)
      rw [hdenote, Option.bind_some, hsymbol] at hresolve
      have hset : (update (·.setValueType id symbol)).run t₁ =
          .ok ⟨(), t₁.amend id (·.withValueType symbol), []⟩ :=
        run_update_iff.2 ⟨updateKind_eq_ok.2 ⟨(hadvances.founded.valid.declared node id hid₁).2, rfl⟩, rfl⟩
      have hrun : (settleType node type).run t =
          .ok ⟨(), t₁.amend id (·.withValueType symbol), type.valueFault c.env⟩ := by
        rw [hfault, ← List.nil_append (type.fault c.env)]
        refine run_bind_ok hview ?_
        dsimp only
        rw [if_neg hvoid]
        exact run_bind_iff.2 ⟨_, _, _, _, hresolve, hset, (List.append_nil _).symm⟩
      have hv := ((settleType_safe h.valid node type).of_run hrun).1
      obtain ⟨hadvances', hcarries⟩ :=
        ContractDecl.advances_withValueType hn hadvances.founded ha hid₁ hv hdenote hsymbol
      exact ⟨_, hrun, hadvances.trans hadvances', fun _ => hcarries⟩

end

/-- A loop in which every step settles types; what one step has reached stays. -/
theorem forM_advances {c : ContractDecl} {α : Type} {step : α → Pass Unit}
    {faults : α → List Diagnostic} (Q : α → Table → Prop) {xs : List α}
    (hQ : ∀ x ∈ xs, ∀ t t', c.Advances t t' → Q x t → Q x t')
    (hstep : ∀ x ∈ xs, ∀ t, c.Founded t → ∃ t', (step x).run t = .ok ⟨(), t', faults x⟩ ∧
      c.Advances t t' ∧ Q x t') {t : Table} (h : c.Founded t) :
    ∃ t', (xs.forM step).run t = .ok ⟨(), t', xs.flatMap faults⟩ ∧ c.Advances t t' ∧
      ∀ x ∈ xs, Q x t' := by
  induction xs generalizing t with
  | nil => exact ⟨t, rfl, .refl h, by simp⟩
  | cons x rest ih =>
    obtain ⟨t₁, hrun₁, ha₁, hq₁⟩ := hstep x (.head _) t h
    obtain ⟨t₂, hrun₂, ha₂, hq₂⟩ := ih (fun y hy => hQ y (.tail _ hy)) (fun y hy => hstep y (.tail _ hy))
      ha₁.founded
    refine ⟨t₂, run_bind_ok hrun₁ hrun₂, ha₁.trans ha₂, fun y hy => ?_⟩
    rcases List.mem_cons.1 hy with rfl | hy
    · exact hQ y (.head _) t₁ t₂ ha₂ hq₁
    · exact hq₂ y hy

namespace ContractDecl
variable {c : ContractDecl} {t t' : Table}

/-- The value has the symbol of its type, if that is known. -/
def Assigned (c : ContractDecl) (t : Table) (a : NodeId × TypeName) : Prop :=
  (c.env.denote a.2).isSome → c.Carries t a

theorem Advances.assigned (h : c.Advances t t') {a : NodeId × TypeName} (ha : a ∈ c.annotations)
    (ht : c.Assigned t a) : c.Assigned t' a := fun hsome => h.carries a ha (ht hsome)

/-- The types of all values and callables have been settled. -/
structure Resolved (c : ContractDecl) (t : Table) : Prop where
  values : ∀ a ∈ c.annotations, c.Carries t a
  callables : ∀ f ∈ c.callables, c.Returns t f

end ContractDecl

section
variable {c : ContractDecl} (hn : c.declarationIds.Nodup) {t : Table}
include hn

theorem settleTypes_run (h : c.Founded t) {α : Type} (node : α → NodeId) (type : α → TypeName)
    {xs : List α} (hxs : ∀ x ∈ xs, (node x, type x) ∈ c.annotations) :
    ∃ t', (xs.forM fun x => settleType (node x) (type x)).run t =
        .ok ⟨(), t', xs.flatMap fun x => (type x).valueFault c.env⟩ ∧ c.Advances t t' ∧
      ∀ x ∈ xs, c.Assigned t' (node x, type x) :=
  forM_advances (fun x t => c.Assigned t (node x, type x))
    (fun x hx _ _ ha hq => ha.assigned (hxs x hx) hq)
    (fun x hx _ h => by
      obtain ⟨t', hrun, ha, hq⟩ := settleType_run hn h (hxs x hx)
      exact ⟨t', hrun, ha, fun hsome => hq (TypeName.valueFault_eq_nil.2 hsome)⟩) h

theorem Callable.settleReturns_run (h : c.Founded t) {f : Callable} (hf : f ∈ c.callables)
    {id : SymbolId} (hid : t.declaredBy? f.node.id = some id) :
    ∃ t', (f.settleReturns id).run t = .ok ⟨(), t', f.returnFaults c.env⟩ ∧ c.Advances t t' ∧
      c.Returns t' f := by
  obtain ⟨types, t₁, hresolve, hadvances, htypes⟩ :=
    ContractLang.resolveTypes_run h (f.returns.filter (!·.isVoid))
  have hid₁ : t₁.declaredBy? f.node.id = some id :=
    (congrArg (Assoc.get? · f.node.id) hadvances.retypes.declared).trans hid
  have hset : (update (·.updateFunction id (·.setReturns types))).run t₁ =
      .ok ⟨(), t₁.amend id (·.mapFunction (·.setReturns types)), []⟩ :=
    run_update_iff.2
      ⟨updateKind_eq_ok.2 ⟨(hadvances.founded.valid.declared f.node.id id hid₁).2, rfl⟩, rfl⟩
  have hrun : (f.settleReturns id).run t =
      .ok ⟨(), t₁.amend id (·.mapFunction (·.setReturns types)), f.returnFaults c.env⟩ := by
    refine run_bind_ok (run_reportIf ..) (run_bind_ok (f.checkVoid_run t) ?_)
    have hrest := run_bind_ok
      (f := fun types => update (·.updateFunction id (·.setReturns types))) hresolve hset
    rwa [List.append_nil] at hrest
  have hv := ((f.settleReturns_safe h.valid (h.valid.declared _ id hid)).of_run hrun).1
  obtain ⟨hadvances', hreturns⟩ :=
    ContractDecl.advances_setReturns hn hadvances.founded hf hid₁ hv htypes
  exact ⟨_, hrun, hadvances.trans hadvances', hreturns⟩

theorem Callable.resolveTypes_run (h : c.Founded t) {f : Callable} (hf : f ∈ c.callables) :
    ∃ t', f.resolveTypes.run t = .ok ⟨(), t', f.typeFaults c.env⟩ ∧ c.Advances t t' ∧
      (∀ v ∈ f.vars, c.Assigned t' (v.node.id, v.type)) ∧ c.Returns t' f := by
  have hvars : ∀ v ∈ f.vars, (v.node.id, v.type) ∈ c.annotations := fun v hv =>
    List.mem_append_right _ (List.mem_flatMap.2 ⟨f, hf, List.mem_map.2 ⟨v, hv, rfl⟩⟩)
  obtain ⟨info, hinfo⟩ : ∃ info, t.functionOf f = some info := by
    obtain ⟨p, hp, rfl⟩ := ContractDecl.exists_callablePlace hf
    obtain ⟨info, hinfo, -⟩ := h.functionOf hp
    exact ⟨info, hinfo⟩
  obtain ⟨id, hid, -⟩ := Option.bind_eq_some_iff.1 hinfo
  have hview : (view (·.declaredBy? f.node.id)).run t = .ok ⟨some id, t, []⟩ := by rw [run_view, hid]
  obtain ⟨t₁, hrun₁, ha₁, hq₁⟩ := settleTypes_run hn h (·.node.id) VarDecl.type
    fun v hv => hvars v (List.mem_append_left _ hv)
  have hid₁ : t₁.declaredBy? f.node.id = some id :=
    (congrArg (Assoc.get? · f.node.id) ha₁.retypes.declared).trans hid
  obtain ⟨t₂, hrun₂, ha₂, hq₂⟩ := Callable.settleReturns_run hn ha₁.founded hf hid₁
  obtain ⟨t₃, hrun₃, ha₃, hq₃⟩ := settleTypes_run hn ha₂.founded (·.node.id) VarDecl.type
    fun v hv => hvars v (List.mem_append_right _ hv)
  have hrun : f.resolveTypes.run t = .ok ⟨(), t₃, f.typeFaults c.env⟩ := by
    rw [← List.nil_append (f.typeFaults c.env)]
    refine run_bind_ok hview (run_bind_ok hrun₁ (run_bind_ok hrun₂ ?_))
    rw [resolveTypesIn_eq]
    exact hrun₃
  refine ⟨t₃, hrun, ha₁.trans (ha₂.trans ha₃), fun v hv => ?_, ha₃.returns f hf hq₂⟩
  rcases List.mem_append.1 hv with hp | hl
  · exact (ha₂.trans ha₃).assigned (hvars v hv) (hq₁ v hp)
  · exact hq₃ v hl

/-- Resolving types reports what is wrong with the written types. Afterwards all types that are known
have been settled, whatever is reported of others. -/
theorem ContractDecl.resolveTypes_run (h : c.Founded t) :
    ∃ t', c.resolveTypes.run t = .ok ⟨(), t', c.typeFaults⟩ ∧ c.Advances t t' ∧
      (∀ a ∈ c.annotations, c.Assigned t' a) ∧ ∀ f ∈ c.callables, c.Returns t' f := by
  have hfield : ∀ f ∈ c.allFields, (f.node.id, f.type) ∈ c.annotations := fun f hf =>
    List.mem_append_left _ (List.mem_map.2 ⟨f, hf, rfl⟩)
  have hinner : ∀ s ∈ c.structs, ∀ f ∈ s.fields, (f.node.id, f.type) ∈ c.annotations := fun s hs f hf =>
    hfield f (List.mem_append_right _ (List.mem_flatMap.2 ⟨s, hs, hf⟩))
  obtain ⟨t₁, hrun₁, ha₁, hq₁⟩ := settleTypes_run hn h (·.node.id) FieldDecl.type
    fun f hf => hfield f (List.mem_append_left _ hf)
  obtain ⟨t₂, hrun₂, ha₂, hq₂⟩ := forM_advances
    (fun (s : StructDecl) t => ∀ f ∈ s.fields, c.Assigned t (f.node.id, f.type))
    (fun s hs _ _ ha hq f hf => ha.assigned (hinner s hs f hf) (hq f hf))
    (fun s hs _ h => settleTypes_run hn h (·.node.id) FieldDecl.type (hinner s hs)) ha₁.founded
  obtain ⟨t₃, hrun₃, ha₃, hq₃⟩ := forM_advances
    (fun (f : Callable) t => (∀ v ∈ f.vars, c.Assigned t (v.node.id, v.type)) ∧ c.Returns t f)
    (fun f hf _ _ ha hq => ⟨fun v hv => ha.assigned (List.mem_append_right _
      (List.mem_flatMap.2 ⟨f, hf, List.mem_map.2 ⟨v, hv, rfl⟩⟩)) (hq.1 v hv), ha.returns f hf hq.2⟩)
    (fun f hf _ h => Callable.resolveTypes_run hn h hf) ha₂.founded
  refine ⟨t₃, run_bind_ok hrun₁ (run_bind_ok hrun₂ hrun₃), ha₁.trans (ha₂.trans ha₃),
    fun a ha => ?_, fun f hf => (hq₃ f hf).2⟩
  have hmem := ha
  rcases List.mem_append.1 ha with ha | ha
  · obtain ⟨f, hf, rfl⟩ := List.mem_map.1 ha
    rcases List.mem_append.1 hf with hf | hf
    · exact (ha₂.trans ha₃).assigned hmem (hq₁ f hf)
    · obtain ⟨s, hs, hf⟩ := List.mem_flatMap.1 hf
      exact ha₃.assigned hmem (hq₂ s hs f hf)
  · obtain ⟨f, hf, ha⟩ := List.mem_flatMap.1 ha
    obtain ⟨v, hv, rfl⟩ := List.mem_map.1 ha
    exact (hq₃ f hf).1 v hv

end

/-- Where no type is unknown, all have been settled. -/
theorem ContractDecl.resolved_of_quiet {c : ContractDecl} {t : Table} (hnil : c.typeFaults = [])
    (hvalues : ∀ a ∈ c.annotations, c.Assigned t a) (hcallables : ∀ f ∈ c.callables, c.Returns t f) :
    c.Resolved t := by
  obtain ⟨hfields, hvars⟩ := typeFaults_eq_nil.1 hnil
  refine ⟨fun a ha => hvalues a ha ?_, hcallables⟩
  rcases List.mem_append.1 ha with ha | ha
  · obtain ⟨f, hf, rfl⟩ := List.mem_map.1 ha
    exact hfields f hf
  · obtain ⟨f, hf, ha⟩ := List.mem_flatMap.1 ha
    obtain ⟨v, hv, rfl⟩ := List.mem_map.1 ha
    exact (hvars f hf).vars v hv

end ContractLang
