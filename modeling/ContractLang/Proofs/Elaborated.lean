import ContractLang.Proofs.Bound
import ContractLang.Proofs.Records
import ContractLang.Proofs.Resolving
import ContractLang.Proofs.Spelling
/-!
The table after types have been resolved, exactly: what each value is typed as, what each callable
returns and takes. In such a table designators are bound to the symbols of what they stand for and
typed with the symbols of their types, and one is reported exactly if it does not fit.
-/
namespace ContractLang

open Pass Table

/-! ### Parameters -/

/-- The callable has the symbols of its parameters, which follow its own. -/
def Table.Takes (t : Table) (p : Placement Callable) : Prop :=
  ∃ info, t.functionAt ⟨p.symbol⟩ = some info ∧
    info.params = symbolsFrom (p.symbol + 1) p.member.params.length

theorem ContractDecl.declare_takes {c : ContractDecl} {t : Table} {u : Unit} {ds : List Diagnostic}
    (h : c.declare.run .initial = .ok ⟨u, t, ds⟩) : ∀ p ∈ c.callablePlaces, t.Takes p :=
  fun p hp => ⟨_, declare_records h p hp, rfl⟩

theorem Table.Retypes.takes {t t' : Table} (h : t.Retypes t') {p : Placement Callable}
    (hp : t.Takes p) : t'.Takes p := by
  obtain ⟨info, hinfo, hparams⟩ := hp
  obtain ⟨k, hk, hk'⟩ := Option.bind_eq_some_iff.1 hinfo
  obtain ⟨s, hs, rfl⟩ := Option.map_eq_some_iff.1 hk
  obtain ⟨k, hs', hretyped⟩ := h.old _ s hs
  have hkind : t'.kind? ⟨p.symbol⟩ = some k := by rw [kind?, hs']; rfl
  unfold Takes
  rw [functionAt, hkind, Option.bind_some]
  generalize s.kind = old at hk' hretyped
  cases hretyped with
  | same => exact ⟨info, hk', hparams⟩
  | function => exact ⟨_, rfl, by cases hk'; exact hparams⟩
  | _ => cases hk'

/-! ### Declared and resolved -/

/-- All that is declared has its types, and nothing has been reported. -/
structure ContractDecl.Elaborated (c : ContractDecl) (t : Table) : Prop extends c.Prepared t where
  resolved : c.Resolved t
  takes : ∀ p ∈ c.callablePlaces, t.Takes p
  spelled : t.Spelled
  made : ∃ u v t₀, c.declare.Leads .initial u t₀ ∧ c.resolveTypes.Leads t₀ v t

/-- What declaring and resolving report, and that without a report all has been settled. -/
theorem ContractDecl.exists_elaborated {c : ContractDecl} (hn : c.nodeIds.Nodup) :
    ∃ t₁ t₂, c.declare.run .initial = .ok ⟨(), t₁, c.declFaults⟩ ∧
      c.resolveTypes.run t₁ = .ok ⟨(), t₂, c.typeFaults⟩ ∧
      (c.declFaults = [] → c.typeFaults = [] → c.Elaborated t₂) := by
  have hdn := nodup_declarationIds hn
  obtain ⟨t₁, hdeclare, hv₁⟩ := c.exists_declared
  obtain ⟨hd, -⟩ := declare_inv hdeclare
  have hfounded := founded_of_declares hv₁ hdn hd
  obtain ⟨t₂, hresolve, hadvances, hvalues, hcallables⟩ := resolveTypes_run hdn hfounded
  obtain ⟨-, -, hsettled⟩ := resolveTypes_inv hv₁ hresolve
  refine ⟨t₁, t₂, hdeclare, hresolve, fun hnames htypes => ?_⟩
  exact { hadvances.founded with
    distinct := hn
    settled := hsettled htypes (declared_of_declares hdn hd)
    quiet := varFaults_of_declFaults hnames
    resolved := resolved_of_quiet htypes hvalues hcallables
    takes := fun p hp => hadvances.retypes.takes (declare_takes hdeclare p hp)
    spelled := resolveTypes_spelled (spelled_of_declares hd) hresolve
    made := ⟨(), (), t₁, ⟨_, hdeclare⟩, _, hresolve⟩ }

/-! ### Entities -/

/-- The symbol of the type, if there is one. -/
def Table.Realizes (t : Table) : Option Ty → Option SymbolId → Prop :=
  Option.Rel fun type id => t.typeOf? type = some id

theorem Table.realizes_builtin (t : Table) {id : SymbolId} (hid : id.index < 10) :
    t.Realizes (some (.builtin id)) (some id) := .some (t.typeOf?_builtin hid)

/-- The record of a callable has the symbols of its signature. -/
structure Table.Signed (t : Table) (g : Signature) (info : FunctionRecord) : Prop where
  returns : List.Forall₂ (fun type id => t.typeOf? type = some id) g.returns info.returns
  params : List.Forall₂ t.Realizes g.params (info.params.map t.valueType)

/-- The entity is built in or one of this contract's. -/
inductive ContractDecl.Has (c : ContractDecl) : Entity → Prop
  | builtin {id : SymbolId} (h : id.index < 10) : c.Has (.builtin id)
  | contract : c.Has (.contract c.node.id)
  | struct {s : StructDecl} (h : s ∈ c.structs) : c.Has (.struct s.node.id)
  | callable {f : Callable} (h : f ∈ c.callables) : c.Has f.entity
  | field {f : FieldDecl} (h : f ∈ c.allFields) : c.Has f.entity
  | param {f : Callable} {v : VarDecl} (h : f ∈ c.callables) (hv : v ∈ f.params) :
    c.Has (.param v.node.id v.type)
  | localVar {f : Callable} {v : VarDecl} (h : f ∈ c.callables) (hv : v ∈ localsOf f.body.stmts) :
    c.Has (.localVar v.node.id v.type)

/-- Whether the entity is declared inside a callable. -/
def Entity.isVariable : Entity → Bool
  | param .. | localVar .. => true
  | _ => false

theorem mem_namedIn {es : List (String × Entity)} {x : String} {e : Entity} :
    e ∈ namedIn es x ↔ (x, e) ∈ es := by
  simp [namedIn]

theorem Callable.exists_of_mem_entities {f : Callable} {x : String} {e : Entity}
    (h : (x, e) ∈ f.entities) : e.isVariable = true ∧ ∃ v ∈ f.vars, v.name.text = x := by
  rcases List.mem_append.1 h with h | h
  · obtain ⟨v, hv, he⟩ := List.mem_map.1 h
    cases he
    exact ⟨rfl, v, List.mem_append_left _ hv, rfl⟩
  · obtain ⟨v, hv, he⟩ := List.mem_map.1 h
    cases he
    exact ⟨rfl, v, List.mem_append_right _ hv, rfl⟩

theorem Env.within_of_mem {outer : Env} {es : List (String × Entity)} {x : String} {e : Entity}
    (h : (x, e) ∈ es) : outer.within es x = namedIn es x :=
  if_neg (List.ne_nil_of_mem (mem_namedIn.2 h))

theorem Env.mem_within {outer : Env} {es : List (String × Entity)} {x : String} {e : Entity}
    (h : e ∈ outer.within es x) : e ∈ outer x ∨ (x, e) ∈ es := by
  unfold Env.within at h
  split at h
  · exact .inl h
  · exact .inr (mem_namedIn.1 h)

namespace ContractDecl
variable {c : ContractDecl} {t : Table}

theorem Member.has {m : Member} (h : m ∈ c.members) : c.Has m.entity := by
  simp only [members, List.mem_append, List.mem_map] at h
  rcases h with (⟨f, hf, rfl⟩ | ⟨s, hs, rfl⟩) | ⟨f, hf, rfl⟩
  · exact .field (List.mem_append_left _ hf)
  · exact .struct hs
  · exact .callable hf

theorem has_of_mem_env {x : String} {e : Entity} (h : e ∈ c.env x) : c.Has e := by
  rcases Env.mem_within h with h | h
  · have hsmall : ∀ d ∈ initial.entries .global, d.2.index < 10 := by decide
    rcases List.mem_append.1 (mem_namedIn.1 h) with h | h
    · obtain ⟨d, hd, he⟩ := List.mem_map.1 h
      cases he
      exact .builtin (hsmall d hd)
    · cases List.mem_singleton.1 h
      exact .contract
  · obtain ⟨m, hm, he⟩ := List.mem_map.1 h
    cases he
    exact Member.has hm

theorem has_of_mem_struct {s : StructDecl} (hs : s ∈ c.structs) {x : String} {e : Entity}
    (h : e ∈ c.env.within s.entities x) : c.Has e := by
  rcases Env.mem_within h with h | h
  · exact has_of_mem_env h
  · obtain ⟨f, hf, he⟩ := List.mem_map.1 h
    cases he
    exact .field (List.mem_append_right _ (List.mem_flatMap.2 ⟨s, hs, hf⟩))

theorem has_of_mem_entities {f : Callable} (hf : f ∈ c.callables) {x : String} {e : Entity}
    (h : (x, e) ∈ f.entities) : c.Has e := by
  rcases List.mem_append.1 h with h | h
  · obtain ⟨v, hv, he⟩ := List.mem_map.1 h
    cases he
    exact .param hf hv
  · obtain ⟨v, hv, he⟩ := List.mem_map.1 h
    cases he
    exact .localVar hf hv

theorem has_of_mem_callable {f : Callable} (hf : f ∈ c.callables) {x : String} {e : Entity}
    (h : e ∈ c.env.within f.entities x) : c.Has e :=
  (Env.mem_within h).elim has_of_mem_env (has_of_mem_entities hf)

/-- Callables know nothing of the variables of others, so no name of a member stands for one. -/
theorem isVariable_of_mem_env {x : String} {e : Entity} (h : e ∈ c.env x) : e.isVariable = false := by
  rcases Env.mem_within h with h | h
  · rcases List.mem_append.1 (mem_namedIn.1 h) with h | h
    · obtain ⟨d, hd, he⟩ := List.mem_map.1 h
      cases he
      rfl
    · cases List.mem_singleton.1 h
      rfl
  · obtain ⟨m, hm, he⟩ := List.mem_map.1 h
    cases he
    cases m <;> rfl

theorem isLocal_of_mem_env {x : String} {e : Entity} (h : e ∈ c.env x) : e.isLocal = false := by
  have hnot := isVariable_of_mem_env h
  cases e with
  | localVar node type => cases hnot
  | _ => rfl

theorem Founded.represents_of_has (h : c.Founded t) {e : Entity} (he : c.Has e) :
    ∃ id, t.Represents e id := by
  cases he with
  | builtin hid => exact ⟨_, h.represents_builtin hid⟩
  | contract => exact ⟨_, h.represents_contract⟩
  | @struct s hs =>
    have hm : .struct s ∈ c.members :=
      List.mem_append_left _ (List.mem_append_right _ (List.mem_map_of_mem hs))
    exact ⟨_, h.represents_member hm⟩
  | @callable f hf =>
    have hm : .callable f ∈ c.members := List.mem_append_right _ (List.mem_map_of_mem hf)
    exact ⟨_, h.represents_member hm⟩
  | field hf => exact ⟨_, h.represents_field hf⟩
  | param hf hv =>
    obtain ⟨p, hp, rfl⟩ := exists_callablePlace hf
    exact ⟨_, h.represents_param hp hv⟩
  | localVar hf hv =>
    obtain ⟨p, hp, rfl⟩ := exists_callablePlace hf
    exact ⟨_, h.represents_local hp hv⟩

namespace Elaborated

/-- No two entities, of which one is a variable, are declared by one node. -/
theorem eq_of_ref (h : c.Elaborated t) {e e' : Entity} (he : c.Has e) (he' : c.Has e')
    (hvar : e'.isVariable = true) (href : e.ref = e'.ref) : e = e' := by
  obtain ⟨id, hr⟩ := h.represents_of_has he
  obtain ⟨id', hr'⟩ := h.represents_of_has he'
  obtain rfl : id = id' := Option.some.inj (hr.symbol.symm.trans (href ▸ hr'.symbol))
  obtain ⟨k, hk, hd⟩ := hr.kind
  obtain ⟨k', hk', hd'⟩ := hr'.kind
  obtain rfl : k = k' := Option.some.inj (hk.symm.trans hk')
  -- The kind of the symbol tells what sort of entity it stands for.
  cases he' with
  | @param g w hg hw =>
    cases he with
    | builtin _ => cases href
    | @param f v hf hv =>
      have hnode : v.node.id = w.node.id := Ref.declared.inj href
      obtain ⟨-, rfl⟩ := vars_unique h.distinct hf hg (List.mem_append_left _ hv)
        (List.mem_append_left _ hw) hnode
      rfl
    | _ => cases k <;> first | exact hd.elim | exact hd'.elim
  | @localVar g w hg hw =>
    cases he with
    | builtin _ => cases href
    | @localVar f v hf hv =>
      have hnode : v.node.id = w.node.id := Ref.declared.inj href
      obtain ⟨-, rfl⟩ := vars_unique h.distinct hf hg (List.mem_append_right _ hv)
        (List.mem_append_right _ hw) hnode
      rfl
    | _ => cases k <;> first | exact hd.elim | exact hd'.elim
  | _ => cases hvar

theorem realizes_declared (h : c.Elaborated t) {node : NodeId} {type : TypeName}
    (ha : (node, type) ∈ c.annotations) : t.Realizes (c.env.denote type) (t.declaredType node) := by
  obtain ⟨m, symbol, hdenote, hsymbol, hdeclared⟩ := h.resolved.values _ ha
  rw [show c.env.denote type = some m from hdenote, hdeclared]
  exact .some hsymbol

theorem realizes_value (h : c.Elaborated t) {node : NodeId} {type : TypeName} {id : SymbolId}
    (ha : (node, type) ∈ c.annotations) (hid : t.declaredBy? node = some id) :
    t.Realizes (c.env.denote type) (t.valueType id) := by
  have hdeclared := h.realizes_declared ha
  rwa [Table.declaredType, hid] at hdeclared

theorem realizes_valueTy (h : c.Elaborated t) {e : Entity} (he : c.Has e) {id : SymbolId}
    (hr : t.Represents e id) : t.Realizes (c.env.valueTy e) (t.valueType id) := by
  obtain ⟨k, hk, hdescribes⟩ := hr.kind
  have hnone : k.valueType? = none → t.valueType id = none := fun hk' => by
    rw [valueType, hk]
    exact hk'
  have hvar : ∀ {f : Callable} {v : VarDecl}, f ∈ c.callables → v ∈ f.vars →
      (v.node.id, v.type) ∈ c.annotations := fun hf hv =>
    List.mem_append_right _ (List.mem_flatMap.2 ⟨_, hf, List.mem_map.2 ⟨_, hv, rfl⟩⟩)
  cases he with
  | @builtin j hlt =>
    obtain rfl : j = id := Option.some.inj ((if_pos hlt).symm.trans hr.symbol)
    have hsmall : ∀ s ∈ initial.symbols, ∀ type ∈ s.kind.valueType?, type.index < 10 := by decide
    have hsame : t.valueType j = initial.valueType j := by
      rw [valueType, hk, valueType, show initial.kind? j = some k from hdescribes]
    rw [hsame, Env.valueTy]
    cases hvalue : initial.valueType j with
    | none => exact .none
    | some type =>
      obtain ⟨k', hk', htype⟩ := Option.bind_eq_some_iff.1 hvalue
      obtain ⟨s, hs, rfl⟩ := Option.map_eq_some_iff.1 hk'
      exact .some (t.typeOf?_builtin (hsmall s (List.mem_of_getElem? hs) type htype))
  | contract =>
    rw [hnone (by cases k <;> first | rfl | cases hdescribes)]
    exact .none
  | struct =>
    rw [hnone (by cases k <;> first | rfl | cases hdescribes)]
    exact .none
  | callable =>
    rw [hnone (by cases k <;> first | rfl | cases hdescribes)]
    exact .none
  | @field f hf =>
    exact h.realizes_value (List.mem_append_left _ (List.mem_map.2 ⟨f, hf, rfl⟩)) hr.symbol
  | param hf hv => exact h.realizes_value (hvar hf (List.mem_append_left _ hv)) hr.symbol
  | localVar hf hv => exact h.realizes_value (hvar hf (List.mem_append_right _ hv)) hr.symbol

theorem params_eq (h : c.Elaborated t) {p : Placement Callable} (hp : p ∈ c.callablePlaces) :
    ∃ info, t.functionOf p.member = some info ∧
      info.params = p.member.params.map fun v => t.declaredAs v.node.id := by
  obtain ⟨info, hinfo, hparams⟩ := h.takes p hp
  have hself : (⟨p.member.node.id, _⟩, ⟨p.symbol⟩) ∈ numbered 10 c.decls :=
    callable_numbered hp (mem_numbered.2 ⟨0, rfl, rfl⟩)
  refine ⟨info, Option.bind_eq_some_iff.2 ⟨_, (h.declared _ _ hself).1, hinfo⟩, ?_⟩
  rw [hparams]
  refine List.ext_getElem? fun i => ?_
  rw [symbolsFrom, List.getElem?_map, List.getElem?_map]
  cases hv : p.member.params[i]? with
  | none => simpa using hv
  | some v =>
    have hlt := (List.getElem?_eq_some_iff.1 hv).1
    have hdecl : (v.decl p.scope (.parameter none), ⟨p.symbol + 1 + i⟩) ∈ numbered 10 c.decls := by
      refine callable_numbered hp (mem_numbered.2 ⟨i + 1, ?_, ?_⟩)
      · rw [Callable.decls, List.getElem?_cons_succ, List.getElem?_append_left (by simpa using hlt),
          List.getElem?_map, hv]
        rfl
      · rw [Nat.add_assoc, Nat.add_comm 1 i]
    rw [List.getElem?_range' hlt, Option.map_some, Option.map_some, Nat.one_mul,
      h.declaredAs_eq hdecl]
    rfl

theorem signed (h : c.Elaborated t) {e : Entity} (he : c.Has e) {id : SymbolId}
    (hr : t.Represents e id) : Option.Rel t.Signed (c.env.signature? e) (t.functionAt id) := by
  obtain ⟨k, hk, hdescribes⟩ := hr.kind
  by_cases hcallable : ∃ node returns params, e = .callable node returns params
  · obtain ⟨node, returns, params, rfl⟩ := hcallable
    cases he with
    | @callable f hf =>
      obtain ⟨info, hinfo, hreturns⟩ := h.resolved.callables f hf
      have hfun : t.functionAt id = some info := by
        rw [← hinfo, Table.functionOf, show t.declaredBy? f.node.id = some id from hr.symbol]
        rfl
      rw [hfun]
      refine .some ⟨hreturns, ?_⟩
      obtain ⟨p, hp, rfl⟩ := exists_callablePlace hf
      obtain ⟨info', hinfo', hparams⟩ := h.params_eq hp
      rw [hinfo] at hinfo'
      cases hinfo'
      rw [hparams, List.map_map, List.map_map, List.forall₂_map_left_iff, List.forall₂_map_right_iff,
        List.forall₂_same]
      intro v hv
      exact h.realizes_valueTy (.param hf hv) (h.represents_param hp hv)
  · have hne : ∀ n rs ps, e ≠ .callable n rs ps := fun n rs ps he => hcallable ⟨n, rs, ps, he⟩
    have hnone : t.functionAt id = none := by
      rw [functionAt, hk]
      exact hdescribes.function?_eq_none hne
    have hsignature : c.env.signature? e = none := by
      cases e with
      | callable n rs ps => exact absurd rfl (hne n rs ps)
      | _ => rfl
    rw [hnone, hsignature]
    exact .none

end Elaborated

/-! ### Sites -/

/-- The spot says what counts at the site. -/
structure Hosts (c : ContractDecl) (t : Table) (site : Site) (sp : Spot) : Prop where
  scope : t.HoldsScope site.scope
  types : sp.types = c.env
  names : ∀ x, List.Forall₂ (fun e id => c.Has e ∧ t.Represents e id) (sp.names x)
    (t.candidates site.scope x)
  sees : ∀ x, ∀ e ∈ sp.names x, e.isLocal = true → ∃ s ∈ site.stmt, ∀ e' ∈ sp.names x,
    e'.isValue = true ∧ ∀ id, t.Represents e' id → t.sees s id = sp.shows e'

namespace Elaborated

theorem hosts_field (h : c.Elaborated t) : c.Hosts t ⟨.members, none⟩ c.fieldSpot where
  scope := h.holdsScope_members
  types := rfl
  names x := (List.forall₂_and_left ..).2 ⟨fun _ => has_of_mem_env, h.candidates_env x⟩
  sees x e he hlocal := by
    rw [isLocal_of_mem_env he] at hlocal
    cases hlocal

theorem hosts_struct (h : c.Elaborated t) {p : Placement StructDecl} (hp : p ∈ c.structPlaces) :
    c.Hosts t ⟨p.scope, none⟩ (c.structSpot p.member) where
  scope := h.holdsScope_struct hp
  types := rfl
  names x := (List.forall₂_and_left ..).2
    ⟨fun _ => has_of_mem_struct (placement_member hp), h.candidates_inStruct hp x⟩
  sees x e he hlocal := by
    have hnone : e.isLocal = false := by
      rcases Env.mem_within he with he | he
      · exact isLocal_of_mem_env he
      · obtain ⟨f, -, hf⟩ := List.mem_map.1 he
        cases hf
        rfl
    rw [hnone] at hlocal
    cases hlocal

/-- A statement sees the symbol of a local exactly if it sees the local. -/
theorem sees_eq (h : c.Elaborated t) {p : Placement Callable} (hp : p ∈ c.callablePlaces)
    {v : VarDecl} (hv : v ∈ localsOf p.member.body.stmts) (stmt : NodeId) :
    t.sees stmt (t.declaredAs v.node.id) = p.member.shows stmt v.node.id := by
  have hshown : t.sees stmt (t.declaredAs v.node.id) = true ↔
      c.shown (t.declaredAs v.node.id) stmt := by
    obtain ⟨k, hk, ho⟩ := Option.map_eq_some_iff.1 (h.sort_local hp hv).2
    rw [← h.visible, visibleIn_of_kind hk, Table.sees, hk]
    cases k with
    | localVar type seen => simp [SymbolKind.isSeenBy, SymbolKind.visibility]
    | _ => cases ho
  have hshows : p.member.shows stmt v.node.id = true ↔
      ∃ ids, (v, ids) ∈ viewsOf p.member.body.stmts ∧ stmt ∈ ids := by
    simp only [Callable.shows, List.any_eq_true, Bool.and_eq_true, decide_eq_true_eq,
      List.contains_iff_mem]
    constructor
    · rintro ⟨⟨w, ids⟩, hw, hnode, hstmt⟩
      have hmem : w ∈ localsOf p.member.body.stmts := by
        rw [← viewsOf_fst]
        exact List.mem_map_of_mem hw
      have hcallable := placement_member hp
      obtain ⟨-, rfl⟩ := vars_unique h.distinct hcallable hcallable (List.mem_append_right _ hmem)
        (List.mem_append_right _ hv) hnode
      exact ⟨ids, hw, hstmt⟩
    · rintro ⟨ids, hview, hstmt⟩
      exact ⟨(v, ids), hview, rfl, hstmt⟩
  rw [Bool.eq_iff_iff, hshown, hshows, h.shown_iff hp hv]

theorem hosts_stmt (h : c.Elaborated t) {p : Placement Callable} (hp : p ∈ c.callablePlaces)
    (s : NodeId) : c.Hosts t ⟨p.scope, some s⟩ (c.stmtSpot p.member s) where
  scope := h.holdsScope_callable hp
  types := rfl
  names x := (List.forall₂_and_left ..).2
    ⟨fun _ => has_of_mem_callable (placement_member hp), h.candidates_inCallable hp x⟩
  sees x e he hlocal := by
    have hown : (c.stmtSpot p.member s).names x = namedIn p.member.entities x := by
      refine if_neg fun hnil => ?_
      have houter : e ∈ c.env x := by
        have hmem : e ∈ c.env.within p.member.entities x := he
        rwa [Env.within, if_pos hnil] at hmem
      rw [isLocal_of_mem_env houter] at hlocal
      cases hlocal
    refine ⟨s, rfl, fun e' he' => ?_⟩
    rw [hown] at he'
    rcases List.mem_append.1 (mem_namedIn.1 he') with he' | he'
    · obtain ⟨v, -, hv⟩ := List.mem_map.1 he'
      cases hv
      refine ⟨rfl, fun id hr => ?_⟩
      obtain ⟨k, hk, hdescribes⟩ := hr.kind
      rw [Table.sees, hk]
      cases k <;> first | rfl | cases hdescribes
    · obtain ⟨v, hmem, hv⟩ := List.mem_map.1 he'
      cases hv
      refine ⟨rfl, fun id hr => ?_⟩
      have hid : t.declaredAs v.node.id = id := by
        rw [declaredAs, show t.declaredBy? v.node.id = some id from hr.symbol]
        rfl
      rw [← hid]
      exact h.sees_eq hp hmem s

end Elaborated

namespace Hosts
variable {site : Site} {sp : Spot}

/-- A name refers to the symbol of the value that it stands for. -/
theorem referent (hh : c.Hosts t site sp) (x : String) :
    Option.Rel (fun e id => (c.Has e ∧ t.Represents e id) ∧ e.isValue = true) (sp.value x)
      (t.referent site x).toOption := by
  have hnames := hh.names x
  have hsees := hh.sees x
  unfold Spot.value Table.referent
  generalize sp.names x = es at hnames hsees
  generalize t.candidates site.scope x = ids at hnames
  cases hnames with
  | nil => exact .none
  | @cons e id es ids hfirst hrest =>
    obtain ⟨k, hk, hdescribes⟩ := hfirst.2.kind
    dsimp only
    rw [hk, Option.any_some, Option.any_some, hdescribes.isValue_eq, hdescribes.isLocal_eq]
    by_cases hvalue : e.isValue = true
    · by_cases hlocal : e.isLocal = true
      · obtain ⟨s, hs, hall⟩ := hsees e (.head _) hlocal
        have hfind : ∀ {es ids}, List.Forall₂ (fun e id => c.Has e ∧ t.Represents e id) es ids →
            (∀ e' ∈ es, e'.isValue = true ∧ ∀ id, t.Represents e' id → t.sees s id = sp.shows e') →
            Option.Rel (fun e id => (c.Has e ∧ t.Represents e id) ∧ e.isValue = true)
              (es.find? sp.shows) (ids.find? (t.sees s)) := by
          intro es ids hpairs hall
          induction hpairs with
          | nil => exact .none
          | @cons e id es ids hd _ ih =>
            obtain ⟨hv, hsame⟩ := hall e (.head _)
            rw [List.find?_cons, List.find?_cons, hsame id hd.2]
            cases sp.shows e with
            | true => exact .some ⟨hd, hv⟩
            | false => exact ih fun e' he' => hall e' (.tail _ he')
        have hfound := hfind (.cons hfirst hrest) hall
        rw [show site.stmt = some s from hs]
        simp only [hvalue, hlocal, Bool.not_true, Bool.false_eq_true, if_false, Table.firstSeen,
          Option.bind_some]
        generalize (e :: es).find? sp.shows = a at hfound ⊢
        generalize (id :: ids).find? (t.sees s) = b at hfound ⊢
        cases hfound with
        | none => exact .none
        | some hd => exact .some hd
      · simp only [hvalue, hlocal, Bool.not_true, Bool.not_false, Bool.false_eq_true, if_false, if_true]
        exact .some ⟨hfirst, hvalue⟩
    · simp only [hvalue, Bool.not_false, if_true]
      exact .none

/-- What is called is the first that the name stands for. -/
theorem callee (ht : t.Valid) (hh : c.Hosts t site sp) (x : String) :
    Option.Rel (fun e id => c.Has e ∧ t.Represents e id) (sp.names x).head? (t.callee site x) := by
  have hhead : t.callee site x = (t.candidates site.scope x).head? := by
    have hlookup := lookup_eq_callee ht hh.scope x
    rw [lookup_eq_nearest ht hh.scope, nearest_eq_candidates ht hh.scope] at hlookup
    exact (Except.ok.inj hlookup).symm
  have hnames := hh.names x
  rw [hhead]
  generalize sp.names x = es at hnames ⊢
  generalize t.candidates site.scope x = ids at hnames ⊢
  cases hnames with
  | nil => exact .none
  | cons hfirst _ => exact .some hfirst

end Hosts
end ContractDecl

/-! ### Designators -/

section
variable {c : ContractDecl} {t : Table} (h : c.Elaborated t)
include h

theorem ContractDecl.Elaborated.realizes_element {type : Ty} {id : SymbolId}
    (hid : t.typeOf? type = some id) : t.Realizes type.element? (t.elementType id) := by
  rw [h.elementType_eq hid]
  cases type with
  | array element =>
    obtain ⟨e, he, -⟩ := h.kind_array hid
    rw [Ty.element?, Option.bind_some, he]
    exact .some he
  | _ => exact .none

variable {site : Site} {sp : Spot} (hh : c.Hosts t site sp)
include hh

theorem Designator.realizes : (d : Designator) → t.Realizes (d.ty sp) (d.typeFrom t site)
  | .name node x => by
    have href := hh.referent x
    rw [Designator.ty, Designator.typeFrom, hh.types]
    generalize sp.value x = a at href ⊢
    generalize (t.referent site x).toOption = b at href ⊢
    cases href with
    | none => exact .none
    | some hd => exact h.realizes_valueTy hd.1.1 hd.1.2
  | .index node base position => by
    have hbase := Designator.realizes base
    rw [Designator.ty, Designator.typeFrom]
    generalize base.ty sp = a at hbase ⊢
    generalize base.typeFrom t site = b at hbase ⊢
    cases hbase with
    | none => exact .none
    | some hid => exact h.realizes_element hid
  | .member node base m => by
    have hbase := Designator.realizes base
    rw [Designator.ty, Designator.typeFrom]
    generalize base.ty sp = a at hbase ⊢
    generalize base.typeFrom t site = b at hbase ⊢
    cases hbase with
    | none => exact .none
    | @some type id hid =>
      have helement := h.realizes_element hid
      rw [Option.bind_some, Option.bind_some]
      generalize type.element? = a at helement ⊢
      generalize t.elementType id = b at helement ⊢
      cases helement with
      | none => exact .none
      | some _ =>
        by_cases hm : m.text = lengthMember
        · rw [if_pos ⟨rfl, hm⟩, if_pos ⟨rfl, hm⟩]
          exact t.realizes_builtin (by decide)
        · rw [if_neg fun hboth => hm hboth.2, if_neg fun hboth => hm hboth.2]
          exact .none

/-- A designator is bound to the symbol of what it stands for. -/
theorem Designator.represents : (d : Designator) →
    Option.Rel (fun ref id => t.symbolOf? ref = some id) (d.ref sp) (d.referent t site)
  | .name node x => by
    have href := hh.referent x
    rw [Designator.ref, Designator.referent]
    generalize sp.value x = a at href ⊢
    generalize (t.referent site x).toOption = b at href ⊢
    cases href with
    | none => exact .none
    | some hd => exact .some hd.1.2.symbol
  | .index node base position => by
    have htype := Designator.realizes h hh (.index node base position)
    have hbase := Designator.represents base
    rw [Designator.ref, Designator.referent]
    generalize (Designator.index node base position).ty sp = a at htype ⊢
    generalize (Designator.index node base position).typeFrom t site = b at htype ⊢
    cases htype with
    | none => exact .none
    | some _ => exact hbase
  | .member node base m => by
    have htype := Designator.realizes h hh (.member node base m)
    rw [Designator.ref, Designator.referent]
    generalize (Designator.member node base m).ty sp = a at htype ⊢
    generalize (Designator.member node base m).typeFrom t site = b at htype ⊢
    cases htype with
    | none => exact .none
    | some _ => exact .some (t.typeOf?_builtin (by decide))

/-- No value is a callable. -/
theorem Designator.functionAt_referent : (d : Designator) →
    ∀ id ∈ d.referent t site, t.functionAt id = none
  | .name node x => by
    intro id hid
    have href := hh.referent x
    rw [show (t.referent site x).toOption = some id from hid] at href
    generalize sp.value x = a at href
    cases href with
    | some hd =>
      obtain ⟨k, hk, hdescribes⟩ := hd.1.2.kind
      rw [functionAt, hk]
      refine hdescribes.function?_eq_none ?_
      rintro n rs ps rfl
      cases hd.2
  | .index node base position => by
    intro id hid
    obtain ⟨_, -, hbase⟩ := Option.bind_eq_some_iff.1 hid
    exact Designator.functionAt_referent base id hbase
  | .member node base m => by
    intro id hid
    obtain ⟨_, -, rfl⟩ := Option.map_eq_some_iff.1 hid
    have hsmall : SymbolId.length.index < 10 := by decide
    obtain ⟨k, hk, hdescribes⟩ := (h.represents_builtin hsmall).kind
    rw [functionAt, hk]
    exact hdescribes.function?_eq_none fun _ _ _ => by rintro ⟨⟩

theorem Use.represents (u : Use) :
    Option.Rel (fun ref id => t.symbolOf? ref = some id) (u.ref sp) (u.referent t site) := by
  cases u with
  | callee node x =>
    have hcallee := hh.callee h.valid x
    rw [Use.ref, Use.referent]
    generalize (sp.names x).head? = a at hcallee ⊢
    generalize t.callee site x = b at hcallee ⊢
    cases hcallee with
    | none => exact .none
    | some hd => exact .some hd.2.symbol
  | value d => exact d.represents h hh

/-- A use is reported exactly if it does not fit. -/
theorem Use.fault_eq_nil (u : Use) : u.fault t site = [] ↔ u.Fits sp := by
  cases u with
  | callee node x =>
    have hcallee := hh.callee h.valid x
    rw [Use.fault, Use.Fits]
    generalize t.callee site x = b at hcallee ⊢
    generalize sp.names x = es at hcallee ⊢
    cases es with
    | nil => cases hcallee; simp
    | cons e es => cases hcallee; simp
  | value d =>
    cases d with
    | name node x =>
      have href := hh.referent x
      change t.nameFault site x node.span = [] ↔ (sp.value x).isSome
      unfold Table.nameFault
      generalize sp.value x = a at href ⊢
      cases hout : t.referent site x with
      | error cause =>
        rw [hout] at href
        cases href
        simp
      | ok id =>
        rw [hout] at href
        cases href
        simp
    | index node base position =>
      have hbase := base.realizes h hh
      rw [Use.fault, Designator.fault, Use.Fits]
      generalize base.ty sp = a at hbase ⊢
      generalize base.typeFrom t site = b at hbase ⊢
      cases hbase with
      | none => simp
      | @some type id hid =>
        have helement := h.realizes_element hid
        simp only [Option.mem_some_iff, forall_eq']
        generalize type.element? = a at helement ⊢
        generalize t.elementType id = b at helement ⊢
        cases helement <;> simp
    | member node base m =>
      have hbase := base.realizes h hh
      rw [Use.fault, Designator.fault, Use.Fits]
      generalize base.ty sp = a at hbase ⊢
      generalize base.typeFrom t site = b at hbase ⊢
      cases hbase with
      | none => simp
      | @some type id hid =>
        have helement := h.realizes_element hid
        simp only [Option.mem_some_iff, forall_eq']
        generalize type.element? = a at helement ⊢
        generalize t.elementType id = b at helement ⊢
        cases helement <;> simp

end

/-! ### Uses in their places -/

namespace ContractDecl
variable {c : ContractDecl} {t : Table}

/-- What fields and statements hold, with what counts where it stands. -/
def spotted {α : Type} (c : ContractDecl) (ofField : FieldDecl → List α) (ofStmt : Stmt → List α) :
    List (Spot × α) :=
  c.fields.flatMap (fun f => (ofField f).map (c.fieldSpot, ·)) ++
    c.structs.flatMap (fun s => s.fields.flatMap fun f => (ofField f).map (c.structSpot s, ·)) ++
    c.callables.flatMap fun f =>
      (allOf f.body.stmts).flatMap fun s => (ofStmt s).map (c.stmtSpot f s.id, ·)

def spottedUses (c : ContractDecl) : List (Spot × Use) := c.spotted FieldDecl.uses Stmt.uses

def spottedExprs (c : ContractDecl) : List (Spot × Expr) := c.spotted FieldDecl.parts Stmt.parts

theorem forall_spotted {α : Type} {ofField : FieldDecl → List α} {ofStmt : Stmt → List α}
    {P : Spot × α → Prop} :
    (∀ r ∈ c.spotted ofField ofStmt, P r) ↔
      (∀ f ∈ c.fields, ∀ x ∈ ofField f, P (c.fieldSpot, x)) ∧
      (∀ s ∈ c.structs, ∀ f ∈ s.fields, ∀ x ∈ ofField f, P (c.structSpot s, x)) ∧
      ∀ f ∈ c.callables, ∀ s ∈ allOf f.body.stmts, ∀ x ∈ ofStmt s, P (c.stmtSpot f s.id, x) := by
  simp only [spotted, List.forall_mem_append, List.forall_mem_flatMap, List.forall_mem_map, and_assoc]

theorem map_snd_spotted {α : Type} (c : ContractDecl) (ofField : FieldDecl → List α)
    (ofStmt : Stmt → List α) :
    (c.spotted ofField ofStmt).map Prod.snd = c.allFields.flatMap ofField ++ c.stmts.flatMap ofStmt := by
  simp [spotted, allFields, stmts, List.map_flatMap, List.flatMap_assoc, Function.comp_def]

theorem Hosts.forall₂ {site : Site} {sp : Spot} (hh : c.Hosts t site sp) (us : List Use) :
    List.Forall₂ (fun r q => r.2 = q.2 ∧ c.Hosts t q.1 r.1) (us.map (sp, ·)) (us.map (site, ·)) := by
  rw [List.forall₂_map_left_iff, List.forall₂_map_right_iff, List.forall₂_same]
  exact fun u _ => ⟨rfl, hh⟩

end ContractDecl

theorem forall₂_flatMap {α β γ : Type} {R : β → γ → Prop} {f : α → List β} {g : α → List γ}
    {xs : List α} (h : ∀ x ∈ xs, List.Forall₂ R (f x) (g x)) :
    List.Forall₂ R (xs.flatMap f) (xs.flatMap g) := by
  induction xs with
  | nil => exact .nil
  | cons x xs ih =>
    rw [List.flatMap_cons, List.flatMap_cons]
    exact List.rel_append (h x (.head _)) (ih fun y hy => h y (.tail _ hy))

theorem ContractDecl.Elaborated.placed {c : ContractDecl} {t : Table} (h : c.Elaborated t) :
    List.Forall₂ (fun r q => r.2 = q.2 ∧ c.Hosts t q.1 r.1) c.spottedUses (c.placed t .members) := by
  refine List.rel_append (List.rel_append ?_ ?_) ?_
  · exact forall₂_flatMap fun f _ => h.hosts_field.forall₂ f.uses
  · refine forall₂_flatMap fun s hs => ?_
    obtain ⟨p, hp, rfl⟩ := exists_structPlace hs
    rw [h.fieldScope hp, Option.toList_some, List.flatMap_singleton]
    exact forall₂_flatMap fun f _ => (h.hosts_struct hp).forall₂ f.uses
  · refine forall₂_flatMap fun f hf => ?_
    obtain ⟨p, hp, rfl⟩ := exists_callablePlace hf
    obtain ⟨info, hinfo, hinner⟩ := h.functionOf hp
    rw [hinfo, Option.toList_some, List.flatMap_singleton, hinner]
    exact forall₂_flatMap fun s _ => (h.hosts_stmt hp s.id).forall₂ s.uses

end ContractLang
