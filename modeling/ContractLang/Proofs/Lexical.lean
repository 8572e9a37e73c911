import Mathlib.Control.Traversable.Basic
import ContractLang.Syntax.Build
import ContractLang.Proofs.Scopes
/-!
Names are resolved lexically. Inside a callable a name stands for the parameter of that name, else for
the local in reach, else for the first member of the contract, else for a constant; which of these it is
can be read off the tree. The table reaches the same answer through one scope for each callable and a
list of statements for each local.
-/
namespace ContractLang

/-- What a name can stand for: a declaration, by its node, something built in, or nothing. -/
inductive Referent where
  | declared (node : NodeId)
  | builtin (id : SymbolId)
  | hidden
  | undefined

/-- The values that are there without a declaration. -/
def constants : List (String × SymbolId) := [("true", ⟨6⟩), ("false", ⟨7⟩), ("null", ⟨8⟩)]

/-- What a name stands for in a statement of a callable. -/
inductive Resolves (c : ContractDecl) (f : Callable) (s : Stmt) (x : String) : Referent → Prop where
  | param {v : VarDecl} : v ∈ f.params → v.name.text = x → Resolves c f s x (.declared v.node.id)
  | visibleLocal {v : VarDecl} : (∀ w ∈ f.params, w.name.text ≠ x) → v.name.text = x →
      InReach f.body.stmts s v → Resolves c f s x (.declared v.node.id)
  | hiddenLocal {v : VarDecl} : (∀ w ∈ f.params, w.name.text ≠ x) → v ∈ localsOf f.body.stmts →
      v.name.text = x → (∀ w, InReach f.body.stmts s w → w.name.text ≠ x) → Resolves c f s x .hidden
  | field {g : FieldDecl} : (∀ w ∈ f.vars, w.name.text ≠ x) →
      c.members.find? (·.name = x) = some (.field g) → Resolves c f s x (.declared g.node.id)
  | otherMember {m : Member} : (∀ w ∈ f.vars, w.name.text ≠ x) →
      c.members.find? (·.name = x) = some m → m.isField = false → Resolves c f s x .undefined
  | constant {id : SymbolId} : (∀ w ∈ f.vars, w.name.text ≠ x) → (∀ m ∈ c.members, m.name ≠ x) →
      (x, id) ∈ constants → Resolves c f s x (.builtin id)
  | unknown : (∀ w ∈ f.vars, w.name.text ≠ x) → (∀ m ∈ c.members, m.name ≠ x) →
      (∀ k ∈ constants, k.1 ≠ x) → Resolves c f s x .undefined

theorem Resolves.unique {c : ContractDecl} {f : Callable} {s : Stmt} {x : String}
    {structs : List String} (hq : f.varFaults structs = [])
    (hn : ((allOf f.body.stmts).map Stmt.id).Nodup) (hs : s ∈ allOf f.body.stmts) {r r' : Referent}
    (h : Resolves c f s x r) (h' : Resolves c f s x r') : r = r' := by
  obtain ⟨hparams, hlocals⟩ := List.append_eq_nil_iff.1 hq
  have hparam : ∀ v ∈ f.params, ∀ w ∈ f.params, v.name.text = w.name.text → v = w :=
    fun v hv w hw he => List.inj_on_of_nodup_map (names_of_varFaults hparams).2 hv hw he
  have hlocal : ∀ v w, InReach f.body.stmts s v → InReach f.body.stmts s w →
      v.name.text = w.name.text → v = w :=
    fun v w hv hw he => inReach_unique hlocals hn hs hv hw he
  have hreach : ∀ v, InReach f.body.stmts s v → v ∈ f.vars :=
    fun v hv => List.mem_append_right _ hv.mem_locals
  have hconstants : ∀ k ∈ constants, ∀ k' ∈ constants, k.1 = k'.1 → k = k' := by decide
  cases h <;> cases h' <;> grind [Callable.vars, Member.isField]

open Table

theorem eq_of_nodup_flatMap {α β : Type} {f : α → List β} {l : List α} (h : (l.flatMap f).Nodup)
    {a b : α} (ha : a ∈ l) (hb : b ∈ l) {x : β} (hxa : x ∈ f a) (hxb : x ∈ f b) : a = b := by
  have hsym : Std.Symm (Function.onFun List.Disjoint f) := ⟨fun _ _ hd _ hx hx' => hd hx' hx⟩
  refine Classical.byContradiction fun hne => ?_
  exact (List.nodup_flatMap.1 h).2.forall ha hb hne hxa hxb

namespace ContractDecl
variable {c : ContractDecl}

theorem vars_unique (h : c.nodeIds.Nodup) {f g : Callable} (hf : f ∈ c.callables)
    (hg : g ∈ c.callables) {v w : VarDecl} (hv : v ∈ f.vars) (hw : w ∈ g.vars)
    (he : v.node.id = w.node.id) : f = g ∧ v = w := by
  have hall := (List.nodup_append.1 (nodup_declarationIds h)).2.1
  have hmem : ∀ {f : Callable} {v : VarDecl}, v ∈ f.vars → v.node.id ∈
      f.node.id :: f.params.map (·.node.id) ++ (localsOf f.body.stmts).map (·.node.id) := by
    intro f v hv
    rw [List.cons_append, ← List.map_append]
    exact List.mem_cons_of_mem _ (List.mem_map_of_mem hv)
  obtain rfl := eq_of_nodup_flatMap hall hf hg (hmem hv) (he ▸ hmem hw)
  have hvars := (List.nodup_flatMap.1 hall).1 f hf
  rw [List.cons_append, ← List.map_append] at hvars
  exact ⟨rfl, List.inj_on_of_nodup_map (List.nodup_cons.1 hvars).2 hv hw he⟩

theorem nodup_stmtIdsOf (h : c.nodeIds.Nodup) {f : Callable} (hf : f ∈ c.callables) :
    ((allOf f.body.stmts).map Stmt.id).Nodup :=
  (nodup_stmtIds h).sublist
    ((sublist_flatMap_of_mem (f := fun f : Callable => allOf f.body.stmts) hf).map _)

theorem view_numbered {p : Placement Callable} (hp : p ∈ c.callablePlaces) {i : Nat}
    {view : VarDecl × List NodeId} (hi : (viewsOf p.member.body.stmts)[i]? = some view) :
    (view.1.decl p.scope (.localVar none []), ⟨p.symbol + 1 + p.member.params.length + i⟩) ∈
      numbered 10 c.decls := by
  refine callable_numbered hp (mem_numbered.2 ⟨1 + p.member.params.length + i, ?_, ?_⟩)
  · have hlocal : (localsOf p.member.body.stmts)[i]? = some view.1 := by
      rw [← viewsOf_fst, List.getElem?_map, hi]
      rfl
    have hlen : (p.member.params.map (·.decl p.scope (.parameter none))).length =
        p.member.params.length := List.length_map _
    rw [Callable.decls, Nat.add_assoc, Nat.add_comm 1, List.getElem?_cons_succ,
      List.getElem?_append_right (by omega), hlen, Nat.add_sub_cancel_left, List.getElem?_map,
      hlocal]
    rfl
  · rw [← Nat.add_assoc, ← Nat.add_assoc]

/-- The symbol of a local tells which declaration it belongs to, so that nothing else is shown of it. -/
theorem shown_numbered {p : Placement Callable} (hp : p ∈ c.callablePlaces) {i : Nat}
    {view : VarDecl × List NodeId} (hi : (viewsOf p.member.body.stmts)[i]? = some view) (stmt : NodeId) :
    c.shown ⟨p.symbol + 1 + p.member.params.length + i⟩ stmt ↔ stmt ∈ view.2 := by
  constructor
  · rintro ⟨q, hq, ⟨other, n⟩, hother, hid, hstmt⟩
    obtain ⟨hle, hj⟩ := List.mem_zipIdx_iff_le_and_getElem?_sub.1 hother
    have hown := view_numbered hp hi
    have hsame := view_numbered hq hj
    rw [Nat.add_sub_cancel' hle, ← hid] at hsame
    have hscope : p.scope = q.scope :=
      congrArg (fun d : Decl => d.symbol.scope) (numbered_unique hown hsame)
    obtain rfl := placement_unique hp hq hscope
    obtain rfl : _ = n := congrArg SymbolId.index hid
    rw [Nat.add_sub_cancel_left, hi] at hj
    cases hj
    exact hstmt
  · intro hstmt
    refine ⟨p, hp, (view, _), ?_, rfl, hstmt⟩
    rw [List.mem_zipIdx_iff_le_and_getElem?_sub, Nat.add_sub_cancel_left]
    exact ⟨Nat.le_add_right .., hi⟩

end ContractDecl

namespace ContractDecl.Prepared
variable {c : ContractDecl} {t : Table}

/-- What the table records of a local are the statements that see it. -/
theorem shown_iff (h : c.Prepared t) {p : Placement Callable} (hp : p ∈ c.callablePlaces)
    {v : VarDecl} (hv : v ∈ localsOf p.member.body.stmts) (stmt : NodeId) :
    c.shown (t.declaredAs v.node.id) stmt ↔
      ∃ ids, (v, ids) ∈ viewsOf p.member.body.stmts ∧ stmt ∈ ids := by
  -- The symbol is that of one variable only, so the one that is shown is `v`.
  have hshown : ∀ (i : Nat) (view : VarDecl × List NodeId),
      (viewsOf p.member.body.stmts)[i]? = some view → view.1 = v →
        (c.shown (t.declaredAs v.node.id) stmt ↔ stmt ∈ view.2) := by
    rintro i view hi rfl
    rw [← shown_numbered hp hi]
    exact iff_of_eq (congrArg (c.shown · stmt) (h.declaredAs_eq (view_numbered hp hi)).symm)
  constructor
  · intro hstmt
    rw [← viewsOf_fst] at hv
    obtain ⟨view, hview, rfl⟩ := List.mem_map.1 hv
    obtain ⟨i, hi⟩ := List.getElem?_of_mem hview
    exact ⟨view.2, hview, (hshown i view hi rfl).1 hstmt⟩
  · rintro ⟨ids, hview, hstmt⟩
    obtain ⟨i, hi⟩ := List.getElem?_of_mem hview
    exact (hshown i _ hi rfl).2 hstmt

theorem sees_local (h : c.Prepared t) {p : Placement Callable} (hp : p ∈ c.callablePlaces)
    {s : Stmt} (hs : s ∈ allOf p.member.body.stmts) {v : VarDecl}
    (hv : v ∈ localsOf p.member.body.stmts) :
    t.sees s.id (t.declaredAs v.node.id) = true ↔ InReach p.member.body.stmts s v := by
  rw [inReach_iff (nodup_stmtIdsOf h.distinct (placement_member hp)) hs, ← h.shown_iff hp hv,
    ← h.visible]
  obtain ⟨k, hk, ho⟩ := Option.map_eq_some_iff.1 (h.sort_local hp hv).2
  rw [visibleIn_of_kind hk, sees, hk]
  cases k with
  | localVar type seen => simp [SymbolKind.isSeenBy, SymbolKind.visibility]
  | _ => cases ho

end ContractDecl.Prepared

/-- What becomes of a name: the symbol that it is bound to, or what is wrong with it. -/
def Referent.outcome (t : Table) (x : String) : Referent → Except Cause SymbolId
  | declared node => .ok (t.declaredAs node)
  | builtin id => .ok id
  | hidden => .error (.hiddenLocal x)
  | undefined => .error (.undefinedName x)

namespace Table
variable {t : Table} {site : Site} {x : String}

theorem referent_of_nil (h : t.candidates site.scope x = []) :
    t.referent site x = .error (.undefinedName x) := by
  rw [referent, h]

theorem referent_of_cons {first : SymbolId} {rest : List SymbolId} {k : SymbolKind}
    (h : t.candidates site.scope x = first :: rest) (hk : t.sort? first = some k)
    (hl : k.isLocal = false) :
    t.referent site x = if k.isValue then .ok first else .error (.undefinedName x) := by
  rw [referent, h]
  simp only [any_isValue hk, any_isLocal hk, hl]
  cases k.isValue <;> rfl

theorem referent_of_local {first : SymbolId} {rest : List SymbolId} {k : SymbolKind}
    (h : t.candidates site.scope x = first :: rest) (hk : t.sort? first = some k)
    (hv : k.isValue = true) (hl : k.isLocal = true) :
    t.referent site x = ((t.firstSeen site.stmt (first :: rest)).elim
      (.error (.hiddenLocal x)) .ok) := by
  rw [referent, h]
  simp only [any_isValue hk, any_isLocal hk, hl, hv]
  cases t.firstSeen site.stmt (first :: rest) <;> rfl

end Table

namespace ContractDecl.Prepared
variable {c : ContractDecl} {t : Table}

theorem sort_builtin (h : c.Prepared t) {id : SymbolId} (hid : id.index < 10) :
    t.sort? id = initial.sort? id := by
  rw [sort?, sort?, h.valid.kind?_builtin hid]

theorem sort_global (h : c.Prepared t) {e : String × SymbolId} (he : e ∈ c.globals) :
    ∃ k, t.sort? e.2 = some k ∧ k.isLocal = false ∧ (k.isValue = true ↔ e ∈ constants) := by
  rcases List.mem_append.1 he with he | he
  · have hall : ∀ e ∈ initial.entries .global, e.2.index < 10 ∧ ∃ k ∈ initial.sort? e.2,
        k.isLocal = false ∧ (k.isValue = true ↔ e ∈ constants) := by decide
    obtain ⟨hlt, k, hk, hkind⟩ := hall e he
    exact ⟨k, (h.sort_builtin hlt).trans hk, hkind⟩
  · obtain rfl := List.mem_singleton.1 he
    have hsort := (h.declared _ .contract (mem_numbered.2 ⟨0, rfl, rfl⟩)).2
    refine ⟨_, hsort, rfl, fun hv => (by cases hv), fun hmem => ?_⟩
    simp [constants, SymbolId.contract] at hmem

theorem find_constant {k : String × SymbolId} (hk : k ∈ constants) (c : ContractDecl) :
    c.globals.find? (·.1 = k.1) = some k := by
  have hall : ∀ k ∈ constants, (initial.entries .global).find? (·.1 = k.1) = some k := by decide
  rw [globals, List.find?_append, hall k hk]
  rfl

theorem exists_resolves_outside (h : c.Prepared t) {p : Placement Callable}
    (hp : p ∈ c.callablePlaces) (s : Stmt) {x : String}
    (hx : ∀ w ∈ p.member.vars, w.name.text ≠ x) :
    ∃ r, Resolves c p.member s x r ∧ t.referent ⟨p.scope, some s.id⟩ x = r.outcome t x := by
  have hnone : p.member.vars.filter (·.name.text = x) = [] :=
    List.filter_eq_nil_iff.2 fun w hw => by simpa using hx w hw
  have hc := h.candidates_callable hp x
  rw [if_pos hnone, h.candidates_members] at hc
  cases hm : c.members.filter (·.name = x) with
  | cons m rest =>
    -- The first member of that name decides, be it a value or not.
    rw [hm, if_neg (List.cons_ne_nil _ _), List.map_cons] at hc
    have hmem : m ∈ c.members.filter (·.name = x) := hm ▸ List.mem_cons_self ..
    have hfind : c.members.find? (·.name = x) = some m := by
      rw [← List.head?_filter, hm]
      rfl
    obtain ⟨-, k, hk, hvalue, hlocal⟩ := h.sort_member (List.mem_filter.1 hmem).1
    have hr : t.referent ⟨p.scope, some s.id⟩ x = _ := referent_of_cons hc hk hlocal
    rw [hvalue] at hr
    cases m with
    | field g => exact ⟨_, .field hx hfind, hr⟩
    | struct d => exact ⟨_, .otherMember hx hfind rfl, hr⟩
    | callable d => exact ⟨_, .otherMember hx hfind rfl, hr⟩
  | nil =>
    -- Only what is built in and the contract are left, and of these only constants are values.
    rw [hm, if_pos rfl, h.candidates_global] at hc
    have hmembers : ∀ m ∈ c.members, m.name ≠ x := fun m hmem => by
      simpa using List.filter_eq_nil_iff.1 hm m hmem
    cases hf : c.globals.filter (·.1 = x) with
    | nil =>
      rw [hf] at hc
      refine ⟨_, .unknown hx hmembers fun k hk he => ?_, referent_of_nil hc⟩
      have hfind := find_constant hk c
      rw [← List.head?_filter, he, hf] at hfind
      cases hfind
    | cons e rest =>
      rw [hf, List.map_cons] at hc
      have hmem : e ∈ c.globals.filter (·.1 = x) := hf ▸ List.mem_cons_self ..
      obtain ⟨hglobal, hname⟩ := List.mem_filter.1 hmem
      obtain ⟨k, hk, hlocal, hvalue⟩ := h.sort_global hglobal
      have hr : t.referent ⟨p.scope, some s.id⟩ x = _ := referent_of_cons hc hk hlocal
      by_cases hv : k.isValue = true
      · rw [if_pos hv] at hr
        have hconstant : (x, e.2) ∈ constants := by
          rw [← of_decide_eq_true hname]
          exact hvalue.1 hv
        exact ⟨_, .constant hx hmembers hconstant, hr⟩
      · rw [if_neg hv] at hr
        refine ⟨_, .unknown hx hmembers fun k' hk' he => ?_, hr⟩
        have hfind := find_constant hk' c
        rw [← List.head?_filter, he, hf] at hfind
        cases hfind
        exact hv (hvalue.2 hk')

/-- The table gives every name in a statement what it stands for. -/
theorem exists_resolves (h : c.Prepared t) {p : Placement Callable} (hp : p ∈ c.callablePlaces)
    {s : Stmt} (hs : s ∈ allOf p.member.body.stmts) (x : String) :
    ∃ r, Resolves c p.member s x r ∧ t.referent ⟨p.scope, some s.id⟩ x = r.outcome t x := by
  by_cases hx : ∀ w ∈ p.member.vars, w.name.text ≠ x
  · exact h.exists_resolves_outside hp s hx
  have hc := h.candidates_callable hp x
  have hsome : p.member.vars.filter (·.name.text = x) ≠ [] := by
    intro hnil
    exact hx fun w hw => by simpa using List.filter_eq_nil_iff.1 hnil w hw
  rw [if_neg hsome] at hc
  by_cases hparam : ∀ w ∈ p.member.params, w.name.text ≠ x
  · -- All candidates are locals.
    have hfilter : p.member.vars.filter (·.name.text = x) =
        (localsOf p.member.body.stmts).filter (·.name.text = x) := by
      rw [Callable.vars, List.filter_append, List.filter_eq_nil_iff.2, List.nil_append]
      exact fun w hw => by simpa using hparam w hw
    rw [hfilter] at hc hsome
    obtain ⟨first, rest, hl⟩ := List.exists_cons_of_ne_nil hsome
    have hmem : ∀ v ∈ first :: rest, v ∈ localsOf p.member.body.stmts ∧ v.name.text = x := by
      intro v hv
      rw [← hl] at hv
      exact ⟨(List.mem_filter.1 hv).1, by simpa using (List.mem_filter.1 hv).2⟩
    rw [hl] at hc
    obtain ⟨hfirst, hname⟩ := hmem first (List.mem_cons_self ..)
    have hr : t.referent ⟨p.scope, some s.id⟩ x = _ :=
      referent_of_local hc (h.sort_local hp hfirst).2 rfl rfl
    have hseen : t.firstSeen (some s.id) ((first :: rest).map fun v => t.declaredAs v.node.id) =
        ((first :: rest).find? fun v => t.sees s.id (t.declaredAs v.node.id)).map
          fun v => t.declaredAs v.node.id := List.find?_map ..
    rw [← List.map_cons (f := fun v : VarDecl => t.declaredAs v.node.id), hseen] at hr
    cases hfind : (first :: rest).find? fun v => t.sees s.id (t.declaredAs v.node.id) with
    | none =>
      rw [hfind] at hr
      refine ⟨_, .hiddenLocal hparam hfirst hname fun w hw he => ?_, hr⟩
      have hlocal := hw.mem_locals
      have hcandidate : w ∈ first :: rest := by
        rw [← hl]
        exact List.mem_filter.2 ⟨hlocal, by simpa using he⟩
      exact List.find?_eq_none.1 hfind w hcandidate ((h.sees_local hp hs hlocal).2 hw)
    | some v =>
      rw [hfind] at hr
      obtain ⟨hlocal, hv⟩ := hmem v (List.mem_of_find?_eq_some hfind)
      have hsees : t.sees s.id (t.declaredAs v.node.id) = true :=
        List.find?_some (p := fun v : VarDecl => t.sees s.id (t.declaredAs v.node.id)) hfind
      exact ⟨_, .visibleLocal hparam hv ((h.sees_local hp hs hlocal).1 hsees), hr⟩
  · -- The first candidate is a parameter.
    have hne : p.member.params.filter (·.name.text = x) ≠ [] := by
      intro hnil
      exact hparam fun w hw => by simpa using List.filter_eq_nil_iff.1 hnil w hw
    obtain ⟨first, rest, hl⟩ := List.exists_cons_of_ne_nil hne
    have hmem : first ∈ p.member.params.filter (·.name.text = x) := hl ▸ List.mem_cons_self ..
    obtain ⟨hfirst, hname⟩ := List.mem_filter.1 hmem
    rw [Callable.vars, List.filter_append, hl, List.cons_append, List.map_cons] at hc
    have hr : t.referent ⟨p.scope, some s.id⟩ x = _ :=
      referent_of_cons hc (h.sort_param hp hfirst).2 rfl
    exact ⟨_, .param hfirst (by simpa using hname), hr⟩

end ContractDecl.Prepared

/-! ### Binding -/

/-- What binding notes at a name, and what it reports of it. -/
def Referent.Noted (t : Table) (node : Node) (x : String) (reports : List Diagnostic) :
    Referent → Prop
  | declared decl =>
    reports = [] ∧ ∃ id, t.declaredBy? decl = some id ∧ t.boundTo? node.id = some id
  | builtin id => reports = [] ∧ t.boundTo? node.id = some id
  | hidden => reports = [⟨.hiddenLocal x, node.span⟩] ∧ t.boundTo? node.id = none
  | undefined => reports = [⟨.undefinedName x, node.span⟩] ∧ t.boundTo? node.id = none

def Cause.isAboutName : Cause → Bool
  | undefinedName _ | hiddenLocal _ => true
  | _ => false

theorem Use.fault_not_aboutName {t : Table} {site : Site} {u : Use}
    (hu : ∀ node x, u.designator ≠ .name node x) {d : Diagnostic} (hd : d ∈ u.fault t site) :
    d.cause.isAboutName = false := by
  cases u with
  | callee node x => exact absurd rfl (hu node x)
  | value designator =>
    cases designator with
    | name node x => exact absurd rfl (hu node x)
    | index node base position =>
      simp only [Use.fault, Designator.fault] at hd
      split at hd
      · cases hd
      · split at hd
        · cases hd
        · rw [List.mem_singleton.1 hd]
          rfl
    | member node base m =>
      simp only [Use.fault, Designator.fault] at hd
      split at hd
      · cases hd
      · split at hd
        · cases hd
        · rw [List.mem_singleton.1 hd]
          rfl

theorem Resolves.exists_declared {c : ContractDecl} {t : Table} (h : c.Prepared t)
    {p : Placement Callable} (hp : p ∈ c.callablePlaces) {s : Stmt} {x : String} {node : NodeId}
    (hr : Resolves c p.member s x (.declared node)) :
    t.declaredBy? node = some (t.declaredAs node) := by
  cases hr with
  | param hv _ => exact (h.sort_param hp hv).1
  | visibleLocal _ _ hreach => exact (h.sort_local hp hreach.mem_locals).1
  | field _ hfind => exact (h.sort_member (List.mem_of_find?_eq_some hfind)).1

namespace ContractDecl
variable {c : ContractDecl} {t : Table}

/-- What is reported of the use with this number. -/
def share (c : ContractDecl) (t : Table) (id : NodeId) : List Diagnostic :=
  (((c.placed t .members).find? (·.2.id = id)).map fun q => q.2.fault t q.1).getD []

theorem Prepared.share_eq (h : c.Prepared t) {q : Site × Use} (hq : q ∈ c.placed t .members) :
    c.share t q.2.id = q.2.fault t q.1 := by
  obtain ⟨q', hfind⟩ : ∃ q', (c.placed t .members).find? (·.2.id = q.2.id) = some q' :=
    Option.isSome_iff_exists.1 (List.find?_isSome.2 ⟨q, hq, by simp⟩)
  have hid : q'.2.id = q.2.id := by simpa using List.find?_some hfind
  obtain rfl := List.inj_on_of_nodup_map h.nodup_placed (List.mem_of_find?_eq_some hfind) hq hid
  rw [share, hfind]
  rfl

theorem Prepared.shares (h : c.Prepared t) :
    (c.placed t .members).flatMap (fun q => q.2.fault t q.1) =
      c.uses.flatMap fun u => c.share t u.id := by
  rw [← h.placed_uses, List.flatMap_map]
  exact List.flatMap_congr fun q hq => (h.share_eq hq).symm

theorem Prepared.noted (h : c.Prepared t) {p : Placement Callable} (hp : p ∈ c.callablePlaces)
    {s : Stmt} (hs : s ∈ allOf p.member.body.stmts) {node : Node} {x : String}
    (hu : .value (.name node x) ∈ s.uses) {r : Referent} (hr : Resolves c p.member s x r)
    (ho : t.referent ⟨p.scope, some s.id⟩ x = r.outcome t x) :
    r.Noted (c.boundTable t) node x (c.share t node.id) := by
  have hplaced := h.mem_placed hp hs hu
  have hbound := h.boundTo?_eq hplaced
  have hshare := h.share_eq hplaced
  simp only [Use.referent, Use.fault, Designator.referent, Designator.fault, Table.nameFault,
    ho] at hbound hshare
  cases r with
  | declared decl => exact ⟨hshare, _, hr.exists_declared h hp, hbound⟩
  | builtin id => exact ⟨hshare, hbound⟩
  | hidden => exact ⟨hshare, hbound⟩
  | undefined => exact ⟨hshare, hbound⟩

end ContractDecl

/-- Name resolution is lexical scoping: inside a callable every name in value position stands for one
thing, which the tree decides, and is bound to it or reported once. -/
theorem Program.bindNames_lexical {p : Program} {t : Table} (hp : p.Distinct)
    (h : p.quietTable? [.symbolConstruction, .typeResolution] .initial = some t) :
    ∃ c u, p.contract = some c ∧ p.bindNames.run t = .ok u ∧ ∃ share : NodeId → List Diagnostic,
      u.diagnostics = c.uses.flatMap (fun w => share w.id) ∧
      (∀ w ∈ c.uses, (∀ node x, w.designator ≠ .name node x) →
        ∀ d ∈ share w.id, d.cause.isAboutName = false) ∧
      ∀ f ∈ c.callables, ∀ s ∈ allOf f.body.stmts, ∀ node x, .value (.name node x) ∈ s.uses →
        ∃ r, Resolves c f s x r ∧ (∀ r', Resolves c f s x r' → r' = r) ∧
          r.Noted u.table node x (share node.id) := by
  obtain ⟨c, hcontract, hc⟩ := Program.prepared hp h
  have hpass : p.bindNames = c.bindNames := by rw [Program.bindNames, hcontract]
  refine ⟨c, _, hcontract, hpass ▸ hc.bindNames_run, c.share t, hc.shares, ?_, ?_⟩
  · intro w hw hname d hd
    rw [← hc.placed_uses] at hw
    obtain ⟨q, hq, rfl⟩ := List.mem_map.1 hw
    rw [hc.share_eq hq] at hd
    exact Use.fault_not_aboutName hname hd
  · intro f hf s hs node x hu
    obtain ⟨q, hq, rfl⟩ := ContractDecl.exists_callablePlace hf
    obtain ⟨r, hr, ho⟩ := hc.exists_resolves hq hs x
    have hstmts := ContractDecl.nodup_stmtIdsOf hc.distinct hf
    refine ⟨r, hr, fun r' hr' => hr'.unique (hc.quiet _ hf) hstmts hs hr, ?_⟩
    exact hc.noted hq hs hu hr ho

section
open Build

/-- Two blocks declare a local with the name of a field; behind them that name is hidden. -/
def siblings : Program := program (some (Id.run (StateT.run' (do
  let field ← field (← namedType "int") "x" none
  let onTrue ← varDecl (← namedType "int") "x"
  let onFalse ← varDecl (← namedType "bool") "x"
  let param ← varDecl (← namedType "int") "a"
  let inTrue := [← declare [onTrue] none, ← assign (← name "x") (← load (← name "a"))]
  let inFalse := [← declare [onFalse] none, ← assign (← name "x") (← load (← name "true"))]
  let choice ← branch (← literal (.bool true)) inTrue (some inFalse)
  let behind ← assign (← name "a") (← load (← name "x"))
  let unknown ← assign (← name "f") (← load (← name "y"))
  let f ← function "f" [] [param] [choice, behind, unknown]
  return { ← contract "C" with fields := [field], functions := [f] }) 0)))

end

theorem siblings_lexical : siblings.Distinct ∧
    ∃ t, siblings.quietTable? [.symbolConstruction, .typeResolution] .initial = some t ∧
    ∃ c u, siblings.contract = some c ∧ siblings.bindNames.run t = .ok u ∧
      ∃ share : NodeId → List Diagnostic, u.diagnostics = c.uses.flatMap (fun w => share w.id) ∧
      (∀ w ∈ c.uses, (∀ node x, w.designator ≠ .name node x) →
        ∀ d ∈ share w.id, d.cause.isAboutName = false) ∧
      ∀ f ∈ c.callables, ∀ s ∈ allOf f.body.stmts, ∀ node x, .value (.name node x) ∈ s.uses →
        ∃ r, Resolves c f s x r ∧ (∀ r', Resolves c f s x r' → r' = r) ∧
          r.Noted u.table node x (share node.id) := by
  have hd : siblings.Distinct := by decide +kernel
  have hq : (siblings.quietTable? [.symbolConstruction, .typeResolution] .initial).isSome = true := by
    decide +kernel
  obtain ⟨t, ht⟩ := Option.isSome_iff_exists.1 hq
  exact ⟨hd, t, ht, Program.bindNames_lexical hd ht⟩

end ContractLang
