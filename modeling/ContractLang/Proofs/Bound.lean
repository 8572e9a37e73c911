import ContractLang.Proofs.Lexical
import ContractLang.Proofs.Noting
/-!
The table when the first three phases have reported nothing. Every designator stands for something, and
every one that is used as a value has the type that its parts give it; expressions have no type yet.
-/
namespace ContractLang

open Table

/-- What is noted at a designator agrees with what is noted inside it. -/
def Designator.Noted (t : Table) : Designator → Prop
  | .name node _ => ∃ id type, t.boundTo? node.id = some id ∧ t.valueType id = some type ∧
      t.typeAt? node.id = some type
  | .index node base _ => ∃ id array type, t.boundTo? base.id = some id ∧
      t.typeAt? base.id = some array ∧ t.elementType array = some type ∧
      t.boundTo? node.id = some id ∧ t.typeAt? node.id = some type
  | .member node base m => ∃ array type, t.typeAt? base.id = some array ∧
      t.elementType array = some type ∧ m.text = lengthMember ∧
      t.boundTo? node.id = some .length ∧ t.typeAt? node.id = some .int

/-- A callee stands for something and has no type of its own. -/
def Use.Noted (t : Table) : Use → Prop
  | .callee node _ => (∃ id, t.boundTo? node.id = some id) ∧ t.typeAt? node.id = none
  | .value d => d.Noted t

theorem Designator.Noted.exists_bound {t : Table} {d : Designator} (h : d.Noted t) :
    ∃ id, t.boundTo? d.id = some id := by
  cases d with
  | name node x =>
    obtain ⟨id, -, hid, -⟩ := h
    exact ⟨id, hid⟩
  | index node base position =>
    obtain ⟨id, -, -, -, -, -, hid, -⟩ := h
    exact ⟨id, hid⟩
  | member node base m =>
    obtain ⟨-, -, -, -, -, hid, -⟩ := h
    exact ⟨.length, hid⟩

theorem Designator.Noted.exists_typed {t : Table} {d : Designator} (h : d.Noted t) :
    ∃ type, t.typeAt? d.id = some type := by
  cases d with
  | name node x =>
    obtain ⟨-, type, -, -, htype⟩ := h
    exact ⟨type, htype⟩
  | index node base position =>
    obtain ⟨-, -, type, -, -, -, -, htype⟩ := h
    exact ⟨type, htype⟩
  | member node base m =>
    obtain ⟨-, -, -, -, -, -, htype⟩ := h
    exact ⟨.int, htype⟩

theorem Use.Noted.exists_bound {t : Table} {u : Use} (h : u.Noted t) :
    ∃ id, t.boundTo? u.id = some id := by
  cases u with
  | callee node x => exact h.1
  | value d => exact Designator.Noted.exists_bound h

/-- Whatever is declared as a value has a type. -/
structure Table.Ready (t : Table) : Prop where
  valid : t.Valid
  values : ∀ {id k}, t.kind? id = some k → k.isValue = true → ∃ type, t.valueType id = some type

/-- All that the check of a contract relies on. -/
structure ContractDecl.Bound (c : ContractDecl) (t : Table) : Prop extends t.Ready where
  distinct : c.nodeIds.Nodup
  noted : ∀ u ∈ c.uses, u.Noted t
  fresh : ∀ e ∈ c.exprs, t.typeAt? e.id = none
  settled : c.Settled t
  functions : ∀ f ∈ c.callables, ∃ info, t.functionOf f = some info

/-! ### Designators inside designators -/

mutual
/-- What lies inside a designator that is used is used, too. -/
theorem Expr.uses_of_value {e : Expr} {d : Designator} (h : .value d ∈ e.uses) {u : Use}
    (hu : u ∈ d.uses) : u ∈ e.uses := by
  cases e with
  | literal node value => cases h
  | load node source => exact Designator.uses_of_value (e := source) h hu
  | call node callee args =>
    cases callee with
    | name n x =>
      rcases List.mem_cons.1 h with h | h
      · cases h
      · exact List.mem_cons_of_mem _ (usesOf_of_value h hu)
    | index n base position =>
      rcases List.mem_append.1 h with h | h
      · exact List.mem_append_left _ (Designator.uses_of_value (e := .index n base position) h hu)
      · exact List.mem_append_right _ (usesOf_of_value h hu)
    | member n base m =>
      rcases List.mem_append.1 h with h | h
      · exact List.mem_append_left _ (Designator.uses_of_value (e := .member n base m) h hu)
      · exact List.mem_append_right _ (usesOf_of_value h hu)
  | binary node op left right =>
    rcases List.mem_append.1 h with h | h
    · exact List.mem_append_left _ (Expr.uses_of_value h hu)
    · exact List.mem_append_right _ (Expr.uses_of_value h hu)
  | unary node op operand => exact Expr.uses_of_value (e := operand) h hu

theorem Designator.uses_of_value {e : Designator} {d : Designator} (h : .value d ∈ e.uses) {u : Use}
    (hu : u ∈ d.uses) : u ∈ e.uses := by
  cases e with
  | name node x =>
    cases List.mem_singleton.1 h
    exact hu
  | index node base position =>
    rcases List.mem_append.1 h with h | h
    · refine List.mem_append_left _ ?_
      rcases List.mem_append.1 h with h | h
      · exact List.mem_append_left _ (Designator.uses_of_value h hu)
      · exact List.mem_append_right _ (Expr.uses_of_value h hu)
    · cases List.mem_singleton.1 h
      exact hu
  | member node base m =>
    rcases List.mem_append.1 h with h | h
    · exact List.mem_append_left _ (Designator.uses_of_value h hu)
    · cases List.mem_singleton.1 h
      exact hu

theorem usesOf_of_value {es : List Expr} {d : Designator} (h : .value d ∈ usesOf es) {u : Use}
    (hu : u ∈ d.uses) : u ∈ usesOf es := by
  cases es with
  | nil => cases h
  | cons e rest =>
    rcases List.mem_append.1 h with h | h
    · exact List.mem_append_left _ (Expr.uses_of_value h hu)
    · exact List.mem_append_right _ (usesOf_of_value h hu)
end

theorem Stmt.uses_of_value {s : Stmt} {d : Designator} (h : .value d ∈ s.uses) {u : Use}
    (hu : u ∈ d.uses) : u ∈ s.uses := by
  cases s with
  | declare node vars init =>
    cases init with
    | none => cases h
    | some init => exact Expr.uses_of_value (e := init) h hu
  | assign node target value =>
    rcases List.mem_append.1 h with h | h
    · exact List.mem_append_left _ (Designator.uses_of_value h hu)
    · exact List.mem_append_right _ (Expr.uses_of_value h hu)
  | assignAll node targets source =>
    rcases List.mem_append.1 h with h | h
    · obtain ⟨target, ht, h⟩ := List.mem_flatMap.1 h
      refine List.mem_append_left _ (List.mem_flatMap.2 ⟨target, ht, ?_⟩)
      exact Designator.uses_of_value h hu
    · exact List.mem_append_right _ (Expr.uses_of_value h hu)
  | branch node condition onTrue onFalse => exact Expr.uses_of_value (e := condition) h hu
  | giveBack node values => exact usesOf_of_value h hu

theorem FieldDecl.uses_of_value {f : FieldDecl} {d : Designator} (h : .value d ∈ f.uses) {u : Use}
    (hu : u ∈ d.uses) : u ∈ f.uses := by
  obtain ⟨e, he, h⟩ := List.mem_flatMap.1 h
  exact List.mem_flatMap.2 ⟨e, he, Expr.uses_of_value h hu⟩

theorem Table.fieldScope_holds {t : Table} (ht : t.Valid) {s : StructDecl} {scope : ScopeId}
    (h : t.fieldScope s = some scope) : t.HoldsScope scope := by
  obtain ⟨k, hk, hscope⟩ := Option.bind_eq_some_iff.1 h
  obtain ⟨id, -, hk⟩ := Option.bind_eq_some_iff.1 hk
  have hvalid := ht.kind hk
  cases k with
  | struct inner fields =>
    cases hscope
    exact hvalid.1
  | _ => cases hscope

namespace ContractDecl.Prepared
variable {c : ContractDecl} {t : Table}

theorem placed_cases (h : c.Prepared t) {q : Site × Use} (hq : q ∈ c.placed t .members) :
    (∃ f ∈ c.allFields, ∃ scope, t.HoldsScope scope ∧ q ∈ f.placed scope ∧
        ∀ r ∈ f.placed scope, r ∈ c.placed t .members) ∨
      ∃ p ∈ c.callablePlaces, ∃ s ∈ allOf p.member.body.stmts, q ∈ s.placed p.scope ∧
        ∀ r ∈ s.placed p.scope, r ∈ c.placed t .members := by
  rcases List.mem_append.1 hq with hq | hq
  · rcases List.mem_append.1 hq with hq | hq
    · obtain ⟨f, hf, hq⟩ := List.mem_flatMap.1 hq
      refine .inl ⟨f, List.mem_append_left _ hf, .members, h.holdsScope_members, hq, fun r hr => ?_⟩
      exact List.mem_append_left _ (List.mem_append_left _ (List.mem_flatMap.2 ⟨f, hf, hr⟩))
    · obtain ⟨s, hs, hq⟩ := List.mem_flatMap.1 hq
      obtain ⟨scope, hscope, hq⟩ := List.mem_flatMap.1 hq
      obtain ⟨f, hf, hq⟩ := List.mem_flatMap.1 hq
      have hmem := List.mem_append_right c.fields (List.mem_flatMap.2 ⟨s, hs, hf⟩)
      have hheld := fieldScope_holds h.valid (Option.mem_toList.1 hscope)
      refine .inl ⟨f, hmem, scope, hheld, hq, fun r hr => ?_⟩
      refine List.mem_append_left _ (List.mem_append_right _ (List.mem_flatMap.2 ⟨s, hs, ?_⟩))
      exact List.mem_flatMap.2 ⟨scope, hscope, List.mem_flatMap.2 ⟨f, hf, hr⟩⟩
  · obtain ⟨f, hf, hq⟩ := List.mem_flatMap.1 hq
    obtain ⟨p, hp, rfl⟩ := exists_callablePlace hf
    obtain ⟨info, hinfo, hinner⟩ := h.functionOf hp
    rw [hinfo, Option.toList_some, List.flatMap_singleton, hinner] at hq
    obtain ⟨s, hs, hq⟩ := List.mem_flatMap.1 hq
    refine .inr ⟨p, hp, s, hs, hq, fun r hr => ?_⟩
    obtain ⟨u, hu, rfl⟩ := List.mem_map.1 hr
    exact h.mem_placed hp hs hu

theorem placed_of_value (h : c.Prepared t) {site : Site} {d : Designator}
    (hd : (site, .value d) ∈ c.placed t .members) {u : Use} (hu : u ∈ d.uses) :
    (site, u) ∈ c.placed t .members := by
  rcases h.placed_cases hd with ⟨f, -, scope, -, hmem, hall⟩ | ⟨p, -, s, -, hmem, hall⟩
  · obtain ⟨w, hw, he⟩ := List.mem_map.1 hmem
    cases he
    exact hall _ (List.mem_map_of_mem (FieldDecl.uses_of_value hw hu))
  · obtain ⟨w, hw, he⟩ := List.mem_map.1 hmem
    cases he
    exact hall _ (List.mem_map_of_mem (Stmt.uses_of_value hw hu))

theorem isValue_of_resolves (h : c.Prepared t) {p : Placement Callable} (hp : p ∈ c.callablePlaces)
    {s : Stmt} {x : String} {r : Referent} (hr : Resolves c p.member s x r) {id : SymbolId}
    (ho : r.outcome t x = .ok id) : ∃ k, t.sort? id = some k ∧ k.isValue = true := by
  cases hr with
  | param hv _ =>
    cases ho
    exact ⟨_, (h.sort_param hp hv).2, rfl⟩
  | visibleLocal _ _ hreach =>
    cases ho
    exact ⟨_, (h.sort_local hp hreach.mem_locals).2, rfl⟩
  | field _ hfind =>
    cases ho
    obtain ⟨-, k, hk, hvalue, -⟩ := h.sort_member (List.mem_of_find?_eq_some hfind)
    exact ⟨k, hk, hvalue⟩
  | constant _ _ hmem =>
    cases ho
    have hglobal := List.mem_of_find?_eq_some (find_constant hmem c)
    obtain ⟨k, hk, -, hvalue⟩ := h.sort_global hglobal
    exact ⟨k, hk, hvalue.2 hmem⟩
  | hiddenLocal => cases ho
  | otherMember => cases ho
  | unknown => cases ho

theorem isValue_of_field {scope : ScopeId} {x : String} {id : SymbolId}
    (hr : t.referent ⟨scope, none⟩ x = .ok id) : (t.kind? id).any (·.isValue) = true := by
  unfold referent at hr
  split at hr
  · cases hr
  · split at hr
    · cases hr
    · split at hr
      · rename_i hvalue _
        cases hr
        simpa using hvalue
      · cases hr

theorem exists_type (h : c.Prepared t) {q : Site × Use} (hq : q ∈ c.placed t .members) {x : String}
    {id : SymbolId} (hr : t.referent q.1 x = .ok id) : ∃ type, t.valueType id = some type := by
  have hany : (t.kind? id).any (·.isValue) = true := by
    rcases h.placed_cases hq with ⟨f, -, scope, -, hmem, -⟩ | ⟨p, hp, s, hs, hmem, -⟩
    · obtain ⟨w, -, rfl⟩ := List.mem_map.1 hmem
      exact isValue_of_field hr
    · obtain ⟨w, -, rfl⟩ := List.mem_map.1 hmem
      obtain ⟨r, hres, ho⟩ := h.exists_resolves hp hs x
      obtain ⟨k, hk, hvalue⟩ := h.isValue_of_resolves hp hres (ho.symm.trans hr)
      rw [any_isValue hk]
      exact hvalue
  obtain ⟨k, hk, hvalue⟩ := (Option.any_eq_true _ _).1 hany
  exact h.exists_valueType hk hvalue

theorem exists_typeFrom (h : c.Prepared t)
    (hquiet : ∀ q ∈ c.placed t .members, q.2.fault t q.1 = []) {site : Site} {d : Designator}
    (hd : (site, .value d) ∈ c.placed t .members) : ∃ type, d.typeFrom t site = some type := by
  have hfault := hquiet _ hd
  -- The base of a designator stands where the designator stands, so nothing is reported of it.
  induction d using Designator.typeFrom.induct with
  | case1 node x =>
    simp only [Use.fault, Designator.fault, Table.nameFault] at hfault
    cases hr : t.referent site x with
    | error cause =>
      rw [hr] at hfault
      cases hfault
    | ok id =>
      obtain ⟨type, htype⟩ := h.exists_type hd hr
      exact ⟨type, by rw [Designator.typeFrom, hr]; exact htype⟩
  | case2 node base position ih =>
    have hbase := h.placed_of_value hd (u := .value base) (by simp [Designator.uses, base.mem_uses])
    obtain ⟨array, harray⟩ := ih hbase (hquiet _ hbase)
    simp only [Use.fault, Designator.fault, harray] at hfault
    split at hfault
    · rename_i hsome
      obtain ⟨type, htype⟩ := Option.isSome_iff_exists.1 hsome
      exact ⟨type, by rw [Designator.typeFrom, harray]; exact htype⟩
    · cases hfault
  | case3 node base m ih =>
    have hbase := h.placed_of_value hd (u := .value base) (by simp [Designator.uses, base.mem_uses])
    obtain ⟨array, harray⟩ := ih hbase (hquiet _ hbase)
    simp only [Use.fault, Designator.fault, harray] at hfault
    split at hfault
    · rename_i hlength
      exact ⟨.int, by rw [Designator.typeFrom, harray, Option.bind_some, if_pos hlength]⟩
    · cases hfault

theorem valid_boundTable (h : c.Prepared t) : (c.boundTable t).Valid :=
  ((c.bindNames_safe h.valid).of_run h.bindNames_run).1

theorem noted_use (h : c.Prepared t)
    (hquiet : ∀ q ∈ c.placed t .members, q.2.fault t q.1 = []) {q : Site × Use}
    (hq : q ∈ c.placed t .members) : q.2.Noted (c.boundTable t) := by
  obtain ⟨site, u⟩ := q
  have hbound := h.boundTo?_eq hq
  have htyped := h.typeAt?_eq hq
  cases u with
  | callee node x =>
    have hfault := hquiet _ hq
    simp only [Use.fault] at hfault
    cases hcallee : t.callee site x with
    | none =>
      rw [if_pos hcallee] at hfault
      cases hfault
    | some id => exact ⟨⟨id, hbound.trans hcallee⟩, htyped⟩
  | value d =>
    obtain ⟨type, htype⟩ := h.exists_typeFrom hquiet hq
    simp only [Use.typeFrom, htype] at htyped
    cases d with
    | name node x =>
      obtain ⟨id, hid, hvalue⟩ := Option.bind_eq_some_iff.1 htype
      exact ⟨id, type, hbound.trans hid, hvalue, htyped⟩
    | index node base position =>
      have hbase := h.placed_of_value hq (u := .value base)
        (by simp [Designator.uses, base.mem_uses])
      obtain ⟨array, harray, helement⟩ := Option.bind_eq_some_iff.1 htype
      obtain ⟨id, hid⟩ := Designator.exists_referent harray
      refine ⟨id, array, type, (h.boundTo?_eq hbase).trans hid, (h.typeAt?_eq hbase).trans harray,
        helement, hbound.trans ?_, htyped⟩
      rw [Use.referent, Designator.referent, htype]
      exact hid
    | member node base m =>
      have hbase := h.placed_of_value hq (u := .value base)
        (by simp [Designator.uses, base.mem_uses])
      obtain ⟨array, harray, hlength⟩ := Option.bind_eq_some_iff.1 htype
      split at hlength
      · rename_i hcond
        cases hlength
        obtain ⟨element, helement⟩ := Option.isSome_iff_exists.1 hcond.1
        refine ⟨array, element, (h.typeAt?_eq hbase).trans harray, helement, hcond.2,
          hbound.trans ?_, htyped⟩
        rw [Use.referent, Designator.referent, htype]
        rfl
      · cases hlength

theorem bound (h : c.Prepared t) (hquiet : ∀ q ∈ c.placed t .members, q.2.fault t q.1 = []) :
    c.Bound (c.boundTable t) where
  distinct := h.distinct
  valid := h.valid_boundTable
  noted u hu := by
    rw [← h.placed_uses] at hu
    obtain ⟨q, hq, rfl⟩ := List.mem_map.1 hu
    exact h.noted_use hquiet hq
  fresh e he := by
    refine Assoc.get?_insertAll_of_not_mem fun hmem => ?_
    have hid := (t.keys_typedPairs (c.placed t .members)).subset hmem
    rw [h.placed_ids] at hid
    exact expr_not_use h.distinct he hid
  settled := h.settled
  values := h.exists_valueType
  functions f hf := by
    obtain ⟨p, hp, rfl⟩ := exists_callablePlace hf
    obtain ⟨info, hinfo, -⟩ := h.functionOf hp
    exact ⟨info, hinfo⟩

end ContractDecl.Prepared

/-- After three quiet phases the table is the one that binding makes of a prepared one. -/
theorem Program.prepared_bound {p : Program} {t : Table} (hp : p.Distinct)
    (h : p.quietTable? [.symbolConstruction, .typeResolution, .designatorResolution] .initial =
      some t) : ∃ c t₀, p.contract = some c ∧ c.Prepared t₀ ∧ t = c.boundTable t₀ ∧ c.Bound t := by
  obtain ⟨t₁, h₁, k₁⟩ := Program.quietTable?_cons.1 h
  obtain ⟨t₂, h₂, k₂⟩ := Program.quietTable?_cons.1 k₁
  obtain ⟨t₃, h₃, k₃⟩ := Program.quietTable?_cons.1 k₂
  cases k₃
  have hquiet : p.quietTable? [.symbolConstruction, .typeResolution] .initial = some t₂ :=
    Program.quietTable?_cons.2 ⟨t₁, h₁, Program.quietTable?_cons.2 ⟨t₂, h₂, rfl⟩⟩
  obtain ⟨c, hcontract, hc⟩ := Program.prepared hp hquiet
  have hpass : p.bindNames = c.bindNames := by rw [Program.bindNames, hcontract]
  change p.bindNames.run t₂ = _ at h₃
  rw [hpass, hc.bindNames_run] at h₃
  simp only [Except.ok.injEq, Outcome.mk.injEq, true_and, List.flatMap_eq_nil_iff] at h₃
  obtain ⟨rfl, hfaults⟩ := h₃
  exact ⟨c, t₂, hcontract, hc, rfl, hc.bound hfaults⟩

theorem Program.bound {p : Program} {t : Table} (hp : p.Distinct)
    (h : p.quietTable? [.symbolConstruction, .typeResolution, .designatorResolution] .initial =
      some t) : ∃ c, p.contract = some c ∧ c.Bound t := by
  obtain ⟨c, -, hcontract, -, -, hc⟩ := Program.prepared_bound hp h
  exact ⟨c, hcontract, hc⟩

end ContractLang
