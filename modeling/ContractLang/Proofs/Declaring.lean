import ContractLang.Proofs.Outline
import ContractLang.Proofs.Reach
import ContractLang.Proofs.Safety
/-!
What declaring symbols does, without its steps: which symbols come in, in which order and in which
scopes, where each local becomes visible, and what is reported of parameters and locals. The main
statements are `Callable.declare_inv` and `ContractDecl.declare_inv`.
-/
namespace ContractLang

open Pass Table

/-! ### Names -/

theorem run_checkName_iff {structs : List String} {name : String} {span : Span} {t t' : Table}
    {u : Unit} {ds : List Diagnostic} : (checkName structs name span).run t = .ok ⟨u, t', ds⟩ ↔
      t' = t ∧ ds = nameFault structs name span := by
  unfold checkName nameFault
  split
  · exact run_report_iff
  · split
    · exact run_report_iff
    · simp [run_pure_iff]

/-- Every name that a scope declares is known. -/
def Table.Named (t : Table) : Prop := ∀ scope, ∀ d ∈ t.entries scope, d.1 ∈ t.names

theorem Table.Declares.named {t t' : Table} {ds : List Decl} {opened : List Scope}
    {shown : SymbolId → NodeId → Prop} (h : t.Declares t' ds opened shown) (hn : t.Named) :
    t'.Named := by
  intro scope d hd
  rw [h.names]
  rw [h.entries] at hd
  rcases List.mem_append.1 hd with hd | hd
  · exact .inl (hn scope d hd)
  · obtain ⟨p, hp, rfl⟩ := List.mem_map.1 hd
    obtain ⟨i, hi, -⟩ := mem_numbered.1 (List.mem_filter.1 hp).1
    exact .inr ⟨p.1, List.mem_of_getElem? hi, rfl⟩

theorem Table.entries_eq {t : Table} {scope : ScopeId} {s : Scope}
    (h : t.scopes[scope.index]? = some s) : t.entries scope = s.declarations := by
  rw [Table.entries, h]
  rfl

theorem Scope.declarationsOf_eq_nil {s : Scope} {name : String} :
    s.declarationsOf name = [] ↔ name ∉ s.declarations.map Prod.fst := by
  simp only [Scope.declarationsOf, List.map_eq_nil_iff, List.filter_eq_nil_iff, decide_eq_true_eq,
    List.mem_map, not_exists, not_and]

theorem run_checkUntaken {scope : ScopeId} {name : String} {span : Span} {t t' : Table}
    {u : Unit} {ds : List Diagnostic} (hn : t.Named)
    (h : (checkUntaken scope name span).run t = .ok ⟨u, t', ds⟩) :
    t' = t ∧ ds = takenFault ((t.entries scope).map Prod.fst) name span := by
  obtain ⟨earlier, t₁, es, fs, h₁, h₂, rfl⟩ := run_bind_iff.1 h
  obtain ⟨hearlier, rfl, rfl⟩ := run_query_iff.1 h₁
  obtain ⟨rfl, rfl⟩ := run_reportIf_iff.1 h₂
  have hiff : earlier ≠ [] ↔ name ∈ (t'.entries scope).map Prod.fst := by
    unfold Table.declaredIn at hearlier
    split at hearlier
    · cases hs : t'.scope scope with
      | error e =>
        rw [hs] at hearlier
        cases hearlier
      | ok s =>
        rw [hs] at hearlier
        cases hearlier
        rw [Table.entries_eq (scope_eq_ok.1 hs), ne_eq, Scope.declarationsOf_eq_nil, Classical.not_not]
    · rename_i hmem
      cases hearlier
      simp only [ne_eq, not_true, false_iff]
      intro hname
      obtain ⟨d, hd, rfl⟩ := List.mem_map.1 hname
      exact hmem (hn scope d hd)
  refine ⟨rfl, ?_⟩
  unfold takenFault
  simp only [hiff, List.nil_append]

theorem run_declareNode_iff {scope : ScopeId} {name : String} {node : Node} {kind : SymbolKind}
    {t t' : Table} {id : SymbolId} {ds : List Diagnostic} :
    (declareNode scope name node kind).run t = .ok ⟨id, t', ds⟩ ↔ t.HoldsScope scope ∧
      id = ⟨t.symbols.length⟩ ∧ t' = t.enter node name scope kind ∧ ds = [] := by
  constructor
  · intro h
    obtain ⟨j, t₁, es, fs, h₁, k₁, rfl⟩ := run_bind_iff.1 h
    obtain ⟨_, t₂, es', fs', h₂, k₂, rfl⟩ := run_bind_iff.1 k₁
    obtain ⟨hd, rfl⟩ := run_state_iff.1 h₁
    obtain ⟨hs, rfl, rfl⟩ := declare_eq_ok.1 hd
    obtain ⟨rfl, rfl⟩ := run_adjust_iff.1 h₂
    obtain ⟨rfl, rfl, rfl⟩ := run_pure_iff.1 k₂
    exact ⟨hs, rfl, rfl, rfl⟩
  · rintro ⟨hs, rfl, rfl, rfl⟩
    have hd : t.declare scope name node.span kind = .ok (⟨t.symbols.length⟩, _) :=
      declare_eq_ok.2 ⟨hs, rfl, rfl⟩
    exact run_bind_ok (run_state_iff.2 ⟨hd, rfl⟩) rfl

/-! ### Owners -/

theorem declareOwner_inv {outer : ScopeId} {name : String} {node : Node} {scopeKind : ScopeKind}
    {kind : ScopeId → SymbolKind} {t t' : Table} {owner : Owner} {ds : List Diagnostic}
    (ho : ∀ i, (kind i).outline = kind i) (hv : ∀ i, (kind i).visibility = [])
    (hy : ∀ i, (kind i).valueType? = none) (hi : ∀ i, (kind i).inner? = some i)
    (h : (declareOwner outer name node scopeKind kind).run t = .ok ⟨owner, t', ds⟩) :
    owner = ⟨⟨t.symbols.length⟩, ⟨t.scopes.length⟩⟩ ∧ ds = [] ∧
      t'.kind? owner.symbol = some (kind owner.inner) ∧
      t.Declares t' [⟨node.id, ⟨name, outer, node.span, kind owner.inner⟩⟩]
        [.new scopeKind (some outer)] nowhere := by
  obtain ⟨inner, t₁, es, fs, h₁, k₁, rfl⟩ := run_bind_iff.1 h
  obtain ⟨id, t₂, es', fs', h₂, k₂, rfl⟩ := run_bind_iff.1 k₁
  obtain ⟨_, t₃, es'', fs'', h₃, k₃, rfl⟩ := run_bind_iff.1 k₂
  obtain ⟨he, rfl⟩ := run_state_iff.1 h₁
  cases he
  obtain ⟨hs, rfl, rfl, rfl⟩ := run_declareNode_iff.1 h₂
  obtain ⟨hset, rfl⟩ := run_update_iff.1 h₃
  obtain ⟨-, rfl⟩ := updateScope_eq_ok.1 hset
  obtain ⟨rfl, rfl, rfl⟩ := run_pure_iff.1 k₃
  refine ⟨rfl, rfl, kind?_enter_self _ node name outer _, ?_⟩
  have hopen := t.declares_openScope scopeKind (some outer) ⟨t.symbols.length⟩
  have hs' : (t.openScope scopeKind (some outer) ⟨t.symbols.length⟩).HoldsScope outer := by
    simpa [HoldsScope, openScope, addScope] using hs
  have henter := declares_enter hs' _ (ho ⟨t.scopes.length⟩) (hv _) (hy _)
    (by simp [hi, ownerOf?, openScope]) node name
  have htable := t.setOwner_enter scopeKind (some outer) ⟨t.symbols.length⟩ node name outer
    (kind ⟨t.scopes.length⟩)
  exact htable ▸ hopen.trans_nowhere henter

/-- What is opened for an owner declares nothing yet, since the owner itself lies outside. -/
theorem Table.Declares.entries_opened {t t' : Table} {d : Decl} {opened : List Scope}
    {shown : SymbolId → NodeId → Prop} (h : t.Declares t' [d] opened shown)
    (ho : t.HoldsScope d.symbol.scope) : t'.entries ⟨t.scopes.length⟩ = [] := by
  have hne : d.symbol.scope ≠ ⟨t.scopes.length⟩ := by
    intro he
    rw [he] at ho
    exact Nat.lt_irrefl _ ho
  rw [h.entries, entries_of_le (Nat.le_refl _)]
  simp [listed, numbered, hne]

/-! ### Parameters -/

def VarDecl.decl (scope : ScopeId) (kind : SymbolKind) (v : VarDecl) : Decl :=
  ⟨v.node.id, ⟨v.name.text, scope, v.node.span, kind⟩⟩

/-- So many symbols, numbered from `n`. -/
def symbolsFrom (n count : Nat) : List SymbolId := (List.range' n count).map SymbolId.mk

theorem symbolsFrom_succ (n count : Nat) :
    symbolsFrom n (count + 1) = ⟨n⟩ :: symbolsFrom (n + 1) count := by
  simp [symbolsFrom, List.range'_succ]

theorem symbolsFrom_add (n count more : Nat) :
    symbolsFrom n (count + more) = symbolsFrom n count ++ symbolsFrom (n + count) more := by
  rw [symbolsFrom, ← List.range'_append_1, List.map_append]
  rfl

namespace Table
variable {t : Table} {f : SymbolId} {info : FunctionRecord}

theorem functionAt_enter (h : t.functionAt f = some info) (node : Node) (name : String)
    (scope : ScopeId) (kind : SymbolKind) :
    (t.enter node name scope kind).functionAt f = some info := by
  obtain ⟨k, hk, hf⟩ := Option.bind_eq_some_iff.1 h
  have hne : f.index ≠ t.symbols.length := Nat.ne_of_lt (holds_iff_kind?.2 ⟨k, hk⟩)
  have hkind : (t.enter node name scope kind).kind? f = some k :=
    (kind?_place t ⟨name, scope, node.span, kind⟩ f).trans ((if_neg hne).trans hk)
  rw [functionAt, hkind]
  exact hf

theorem functionAt_updated (h : t.functionAt f = some info) (g : FunctionRecord → FunctionRecord) :
    (t.amend f (·.mapFunction g)).functionAt f = some (g info) := by
  obtain ⟨k, hk, hf⟩ := Option.bind_eq_some_iff.1 h
  rw [functionAt, kind?_amend, hk, Option.map_some, if_pos rfl]
  cases k with
  | function i =>
    cases hf
    rfl
  | _ => cases hf

theorem functionAt_shown (h : t.functionAt f = some info) (id : SymbolId) (stmt : NodeId) :
    (t.amend id (·.addVisibility stmt)).functionAt f = some info := by
  obtain ⟨k, hk, hf⟩ := Option.bind_eq_some_iff.1 h
  rw [functionAt, kind?_amend, hk, Option.map_some]
  cases k with
  | function i =>
    cases hf
    by_cases h : id = f <;> simp [h, SymbolKind.addVisibility, SymbolKind.function?]
  | _ => cases hf

theorem declares_mapFunction (t : Table) (f : SymbolId) {g : FunctionRecord → FunctionRecord}
    (hi : ∀ i, (g i).inner = i.inner) (hc : ∀ i, (g i).isConstructor = i.isConstructor) :
    t.Declares (t.amend f (·.mapFunction g)) [] [] nowhere := by
  refine declares_amend f fun k _ => ?_
  cases k with
  | function i => simp [SymbolKind.mapFunction, SymbolKind.outline, SymbolKind.visibility,
      SymbolKind.valueType?, hi, hc]
  | _ => exact ⟨rfl, rfl, rfl⟩

end Table

namespace FunctionRecord

def addParams (f : FunctionRecord) (ids : List SymbolId) : FunctionRecord :=
  { f with params := f.params ++ ids }

def addLocals (f : FunctionRecord) (ids : List SymbolId) : FunctionRecord :=
  { f with locals := f.locals ++ ids }

@[simp] theorem addParams_nil (f : FunctionRecord) : f.addParams [] = f := by simp [addParams]

@[simp] theorem addLocals_nil (f : FunctionRecord) : f.addLocals [] = f := by simp [addLocals]

theorem addParams_cons (f : FunctionRecord) (id : SymbolId) (ids : List SymbolId) :
    f.addParams (id :: ids) = (f.addParam id).addParams ids := by
  simp [addParams, addParam]

theorem addLocals_cons (f : FunctionRecord) (id : SymbolId) (ids : List SymbolId) :
    f.addLocals (id :: ids) = (f.addLocal id).addLocals ids := by
  simp [addLocals, addLocal]

@[simp] theorem params_addLocal (f : FunctionRecord) (id : SymbolId) :
    (f.addLocal id).params = f.params := rfl

@[simp] theorem params_addLocals (f : FunctionRecord) (ids : List SymbolId) :
    (f.addLocals ids).params = f.params := rfl

theorem addLocals_append (f : FunctionRecord) (ids ids' : List SymbolId) :
    f.addLocals (ids ++ ids') = (f.addLocals ids).addLocals ids' := by
  simp [addLocals]

end FunctionRecord

/-- The function whose variables are declared has this record so far. -/
structure BodyContext.Inside (c : BodyContext) (info : FunctionRecord) (t : Table) : Prop where
  function : t.functionAt c.function = some info
  params : ∀ id ∈ info.params, t.Holds id

theorem BodyContext.Inside.holds {c : BodyContext} {info : FunctionRecord} {reach : List SymbolId}
    {t : Table} (hc : c.Inside info t) (hr : ∀ id ∈ reach, t.Holds id) :
    ∀ id ∈ info.params ++ reach, t.Holds id :=
  List.forall_mem_append.2 ⟨hc.params, hr⟩

theorem VarDecl.declareAsParam_inv {c : BodyContext} {v : VarDecl} {t t' : Table} {u : Unit}
    {ds : List Diagnostic} {info : FunctionRecord} (hn : t.Named) (hc : c.Inside info t)
    (h : (v.declareAsParam c).run t = .ok ⟨u, t', ds⟩) :
    t.Declares t' [v.decl c.scope (.parameter none)] [] nowhere ∧
      c.Inside (info.addParam ⟨t.symbols.length⟩) t' ∧
      ds = nameFault c.structs v.name.text v.node.span ++
        takenFault ((t.entries c.scope).map Prod.fst) v.name.text v.node.span := by
  obtain ⟨_, t₁, es₁, fs₁, h₁, k₁, rfl⟩ := run_bind_iff.1 h
  obtain ⟨rfl, rfl⟩ := run_checkName_iff.1 h₁
  obtain ⟨_, t₂, es₂, fs₂, h₂, k₂, rfl⟩ := run_bind_iff.1 k₁
  obtain ⟨rfl, rfl⟩ := run_checkUntaken hn h₂
  obtain ⟨id, t₃, es₃, fs₃, h₃, h₄, rfl⟩ := run_bind_iff.1 k₂
  obtain ⟨hs, rfl, rfl, rfl⟩ := run_declareNode_iff.1 h₃
  obtain ⟨hu, rfl⟩ := run_update_iff.1 h₄
  obtain ⟨hheld, rfl⟩ := updateKind_eq_ok.1 hu
  obtain ⟨hinfo, hparams⟩ := hc
  have henter := declares_enter hs (.parameter none) rfl rfl rfl nofun v.node v.name.text
  have hadd := declares_mapFunction (t₂.enter v.node v.name.text c.scope (.parameter none))
    c.function (g := (·.addParam ⟨t₂.symbols.length⟩)) (fun _ => rfl) fun _ => rfl
  have hall := henter.trans_nowhere hadd
  refine ⟨hall, ⟨functionAt_updated (functionAt_enter hinfo ..) _, ?_⟩, by simp⟩
  intro id hid
  rcases List.mem_append.1 hid with hid | hid
  · exact hall.holds (hparams id hid)
  · rw [List.mem_singleton.1 hid, Table.Holds, hall.length]
    exact Nat.lt_succ_self _

theorem Table.Declares.entry_names {t t' : Table} {ds : List Decl} {opened : List Scope}
    {shown : SymbolId → NodeId → Prop} (h : t.Declares t' ds opened shown) (scope : ScopeId) :
    (t'.entries scope).map Prod.fst =
      (t.entries scope).map Prod.fst ++ (declsIn scope ds).map (·.symbol.name) := by
  rw [h.entries, List.map_append, listed_names]

theorem declareParams_inv {c : BodyContext} {vs : List VarDecl} {t t' : Table} {u : Unit}
    {ds : List Diagnostic} {info : FunctionRecord} (hn : t.Named) (hc : c.Inside info t)
    (h : (vs.forM (·.declareAsParam c)).run t = .ok ⟨u, t', ds⟩) :
    t.Declares t' (vs.map (·.decl c.scope (.parameter none))) [] nowhere ∧
      c.Inside (info.addParams (symbolsFrom t.symbols.length vs.length)) t' ∧
      ds = varFaults c.structs ((t.entries c.scope).map Prod.fst) vs := by
  induction vs generalizing t info ds with
  | nil =>
    obtain ⟨-, rfl, rfl⟩ := run_pure_iff.1 h
    exact ⟨.refl _, by simpa [symbolsFrom] using hc, rfl⟩
  | cons v vs ih =>
    obtain ⟨_, t₁, es, fs, h₁, h₂, rfl⟩ := run_bind_iff.1 h
    obtain ⟨hd₁, hc₁, rfl⟩ := v.declareAsParam_inv hn hc h₁
    obtain ⟨hd₂, hc₂, rfl⟩ := ih (hd₁.named hn) hc₁ h₂
    refine ⟨hd₁.trans_nowhere hd₂, ?_, ?_⟩
    · rw [hd₁.length] at hc₂
      rw [List.length_cons, symbolsFrom_succ, FunctionRecord.addParams_cons]
      exact hc₂
    · have hentries : (t₁.entries c.scope).map Prod.fst =
          (t.entries c.scope).map Prod.fst ++ [v.name.text] := by
        rw [hd₁.entry_names, declsIn_eq_self]
        · rfl
        · simp [VarDecl.decl]
      rw [hentries, varFaults]

/-! ### Locals -/

theorem Table.takenNames_eq {t : Table} {f : SymbolId} {info : FunctionRecord}
    (hf : t.functionAt f = some info) {locals : List SymbolId}
    (h : ∀ id ∈ info.params ++ locals, t.Holds id) :
    t.takenNames f locals = .ok ((info.params ++ locals).map t.shownName) := by
  obtain ⟨k, hk, hfun⟩ := Option.bind_eq_some_iff.1 hf
  have hfunction : t.function? f = .ok (some info) := by
    rw [function?_eq (holds_iff_kind?.2 ⟨k, hk⟩), hf]
  simp only [takenNames, hfunction, bind, Except.bind, Option.map_some, Option.getD_some]
  exact mapM_eq_ok fun id hid => nameOf_eq (h id hid)

theorem VarDecl.declareAsLocal_inv {c : BodyContext} {v : VarDecl} {t t' : Table} {id : SymbolId}
    {ds : List Diagnostic} {info : FunctionRecord} {reach : List SymbolId} (hc : c.Inside info t)
    (hr : ∀ id ∈ reach, t.Holds id)
    (h : (v.declareAsLocal c reach).run t = .ok ⟨id, t', ds⟩) :
    id = ⟨t.symbols.length⟩ ∧ t.Declares t' [v.decl c.scope (.localVar none [])] [] nowhere ∧
      c.Inside (info.addLocal ⟨t.symbols.length⟩) t' ∧
      ds = nameFault c.structs v.name.text v.node.span ++
        takenFault ((info.params ++ reach).map t.shownName) v.name.text v.node.span := by
  have hheld := hc.holds hr
  obtain ⟨hinfo, hparams⟩ := hc
  obtain ⟨_, t₁, es₁, fs₁, h₁, k₁, rfl⟩ := run_bind_iff.1 h
  obtain ⟨rfl, rfl⟩ := run_checkName_iff.1 h₁
  obtain ⟨taken, t₂, es₂, fs₂, h₂, k₂, rfl⟩ := run_bind_iff.1 k₁
  obtain ⟨htaken, rfl, rfl⟩ := run_query_iff.1 h₂
  rw [takenNames_eq hinfo hheld] at htaken
  cases htaken
  obtain ⟨_, t₃, es₃, fs₃, h₃, k₃, rfl⟩ := run_bind_iff.1 k₂
  obtain ⟨rfl, rfl⟩ := run_reportIf_iff.1 h₃
  obtain ⟨j, t₄, es₄, fs₄, h₄, k₄, rfl⟩ := run_bind_iff.1 k₃
  obtain ⟨hs, rfl, rfl, rfl⟩ := run_declareNode_iff.1 h₄
  obtain ⟨_, t₅, es₅, fs₅, h₅, h₆, rfl⟩ := run_bind_iff.1 k₄
  obtain ⟨hu, rfl⟩ := run_update_iff.1 h₅
  obtain ⟨-, rfl⟩ := updateKind_eq_ok.1 hu
  obtain ⟨rfl, rfl, rfl⟩ := run_pure_iff.1 h₆
  have henter := declares_enter hs (.localVar none []) rfl rfl rfl nofun v.node v.name.text
  have hadd := declares_mapFunction (t₃.enter v.node v.name.text c.scope (.localVar none []))
    c.function (g := (·.addLocal ⟨t₃.symbols.length⟩)) (fun _ => rfl) fun _ => rfl
  have hall := henter.trans_nowhere hadd
  refine ⟨rfl, hall, ⟨functionAt_updated (functionAt_enter hinfo ..) _, ?_⟩, ?_⟩
  · exact fun id hid => hall.holds (hparams id hid)
  · simp [takenFault]

/-- These symbols are locals of a function. -/
def Table.Locals (t : Table) (ids : List SymbolId) : Prop :=
  ∀ id ∈ ids, t.sort? id = some (.localVar none [])

theorem Table.Locals.declares {t t' : Table} {ids : List SymbolId} {ds : List Decl}
    {opened : List Scope} {shown : SymbolId → NodeId → Prop} (h : t.Locals ids)
    (hd : t.Declares t' ds opened shown) : t'.Locals ids := fun id hid => hd.sort_old (h id hid)

theorem Table.Locals.holds {t : Table} {ids : List SymbolId} (h : t.Locals ids) :
    ∀ id ∈ ids, t.Holds id := fun id hid => holds_of_sort (h id hid)

theorem declareLocals_inv {c : BodyContext} {vs : List VarDecl} {t t' : Table}
    {reach reach' : List SymbolId} {ds : List Diagnostic} {info : FunctionRecord}
    (hc : c.Inside info t) (hr : t.Locals reach)
    (h : (declareLocals c reach vs).run t = .ok ⟨reach', t', ds⟩) :
    reach' = reach ++ symbolsFrom t.symbols.length vs.length ∧
      t.Declares t' (vs.map (·.decl c.scope (.localVar none []))) [] nowhere ∧
      c.Inside (info.addLocals (symbolsFrom t.symbols.length vs.length)) t' ∧ t'.Locals reach' ∧
      ds = varFaults c.structs ((info.params ++ reach).map t.shownName) vs := by
  induction vs generalizing t reach info ds with
  | nil =>
    obtain ⟨rfl, rfl, rfl⟩ := run_pure_iff.1 h
    exact ⟨by simp [symbolsFrom], .refl _, by simpa [symbolsFrom] using hc, hr, rfl⟩
  | cons v vs ih =>
    obtain ⟨id, t₁, es, fs, h₁, h₂, rfl⟩ := run_bind_iff.1 h
    obtain ⟨rfl, hd₁, hc₁, rfl⟩ := v.declareAsLocal_inv hc hr.holds h₁
    have hlocals : t₁.Locals (reach ++ [⟨t.symbols.length⟩]) := by
      intro id hid
      rcases List.mem_append.1 hid with hid | hid
      · exact hd₁.sort_old (hr id hid)
      · rw [List.mem_singleton.1 hid]
        exact hd₁.sort_new (i := 0) rfl
    obtain ⟨rfl, hd₂, hc₂, hl₂, rfl⟩ := ih hc₁ hlocals h₂
    have hheld := hc.holds hr.holds
    -- The name of the variable is taken for those after it.
    have hname : t₁.shownName ⟨t.symbols.length⟩ = v.name.text := hd₁.name_new (i := 0) rfl
    have hnames : (info.params ++ (reach ++ [SymbolId.mk t.symbols.length])).map t₁.shownName =
        (info.params ++ reach).map t.shownName ++ [v.name.text] := by
      rw [← List.append_assoc, List.map_append, hd₁.names_old hheld, List.map_singleton, hname]
    rw [hd₁.length] at hc₂
    refine ⟨?_, hd₁.trans_nowhere hd₂, ?_, hl₂, ?_⟩
    · rw [hd₁.length, List.append_assoc]
      exact congrArg (reach ++ ·) (symbolsFrom_succ ..).symm
    · rw [List.length_cons, symbolsFrom_succ, FunctionRecord.addLocals_cons]
      exact hc₂
    · rw [FunctionRecord.params_addLocal, hnames, varFaults]

theorem showTo_inv {c : BodyContext} {stmt : NodeId} {reach : List SymbolId} {t t' : Table}
    {u : Unit} {ds : List Diagnostic} {info : FunctionRecord} (hc : c.Inside info t)
    (hr : t.Locals reach) (h : (showTo stmt reach).run t = .ok ⟨u, t', ds⟩) :
    t.Declares t' [] [] (fun id s => id ∈ reach ∧ s = stmt) ∧ c.Inside info t' ∧ ds = [] := by
  unfold showTo at h
  induction reach generalizing t ds with
  | nil =>
    obtain ⟨-, rfl, rfl⟩ := run_pure_iff.1 h
    exact ⟨(Declares.refl _).congr rfl rfl (by simp [nowhere]), hc, rfl⟩
  | cons id reach ih =>
    obtain ⟨_, t₁, es, fs, h₁, h₂, rfl⟩ := run_bind_iff.1 h
    obtain ⟨hu, rfl⟩ := run_update_iff.1 h₁
    obtain ⟨-, rfl⟩ := updateKind_eq_ok.1 hu
    obtain ⟨k, hk, hlocal⟩ := Option.map_eq_some_iff.1 (hr id (List.mem_cons_self ..))
    cases k with
    | localVar type seen =>
      have hd₁ := declares_show hk stmt
      have hc₁ : c.Inside info (t.amend id (·.addVisibility stmt)) :=
        ⟨functionAt_shown hc.function id stmt, fun j hj => hd₁.holds (hc.params j hj)⟩
      have hr₁ : Table.Locals (t.amend id (·.addVisibility stmt)) reach := fun j hj =>
        hd₁.sort_old (hr j (List.mem_cons_of_mem _ hj))
      obtain ⟨hd₂, hc₂, rfl⟩ := ih hc₁ hr₁ h₂
      refine ⟨(hd₁.trans hd₂).congr rfl rfl fun j s => ?_, hc₂, rfl⟩
      rw [List.mem_cons, or_and_right]
    | _ => cases hlocal

/-! ### Bodies -/

/-- What a list of locals says about where they are seen, if they are numbered from `n`. -/
def Viewed (n : Nat) (views : List (VarDecl × List NodeId)) (id : SymbolId) (stmt : NodeId) : Prop :=
  ∃ p ∈ views.zipIdx n, id = ⟨p.2⟩ ∧ stmt ∈ p.1.2

theorem viewed_append (n : Nat) (xs ys : List (VarDecl × List NodeId)) (id : SymbolId)
    (stmt : NodeId) : Viewed n (xs ++ ys) id stmt ↔
      Viewed n xs id stmt ∨ Viewed (n + xs.length) ys id stmt := by
  simp only [Viewed, List.zipIdx_append, List.mem_append, or_and_right, exists_or]

theorem viewed_cons (n : Nat) (x : VarDecl × List NodeId) (xs : List (VarDecl × List NodeId))
    (id : SymbolId) (stmt : NodeId) : Viewed n (x :: xs) id stmt ↔
      id = ⟨n⟩ ∧ stmt ∈ x.2 ∨ Viewed (n + 1) xs id stmt := by
  simp [Viewed, List.zipIdx_cons]

theorem viewed_map (n : Nat) (vars : List VarDecl) (after : List NodeId) (id : SymbolId)
    (stmt : NodeId) : Viewed n (vars.map (·, after)) id stmt ↔
      id ∈ symbolsFrom n vars.length ∧ stmt ∈ after := by
  induction vars generalizing n with
  | nil => simp [Viewed, symbolsFrom]
  | cons v vars ih =>
    rw [List.map_cons, viewed_cons, ih, List.length_cons, symbolsFrom_succ, List.mem_cons,
      or_and_right]

theorem viewed_after (n : Nat) (s : Stmt) (after : List NodeId) (id : SymbolId) (stmt : NodeId) :
    Viewed n (s.views after) id stmt ↔
      Viewed n (s.views []) id stmt ∨ id ∈ symbolsFrom n s.vars.length ∧ stmt ∈ after := by
  cases s with
  | declare node vars init => simp [Stmt.views, Stmt.vars, viewed_map]
  | branch node condition onTrue onFalse =>
    cases onFalse <;> simp [Stmt.views, Stmt.vars, symbolsFrom]
  | _ => simp [Stmt.views, Stmt.vars, symbolsFrom, Viewed]

/-- Where a block shows the locals in reach before it, and its own. -/
def ShownIn (n : Nat) (reach : List SymbolId) (stmts : List NodeId)
    (views : List (VarDecl × List NodeId)) (id : SymbolId) (stmt : NodeId) : Prop :=
  (id ∈ reach ∧ stmt ∈ stmts) ∨ Viewed n views id stmt

theorem shownIn_cons (n : Nat) (reach : List SymbolId) (s : Stmt) (rest : List Stmt)
    (id : SymbolId) (stmt : NodeId) :
    ((id ∈ reach ∧ stmt = s.id) ∨ ShownIn n reach (s.inner.map Stmt.id) (s.views []) id stmt) ∨
        ShownIn (n + s.locals.length) (reach ++ symbolsFrom n s.vars.length)
          ((allOf rest).map Stmt.id) (viewsOf rest) id stmt ↔
      ShownIn n reach ((allOf (s :: rest)).map Stmt.id) (viewsOf (s :: rest)) id stmt := by
  have hlen : (s.views ((allOf rest).map Stmt.id)).length = s.locals.length := by
    rw [← s.views_fst ((allOf rest).map Stmt.id), List.length_map]
  simp only [ShownIn, viewsOf, viewed_append, hlen, viewed_after n s ((allOf rest).map Stmt.id),
    allOf, s.all_eq, List.map_append, List.map_cons, List.mem_append, List.mem_cons]
  grind

theorem shownIn_append (n : Nat) (reach : List SymbolId) (stmts stmts' : List NodeId)
    (xs ys : List (VarDecl × List NodeId)) (id : SymbolId) (stmt : NodeId) :
    ShownIn n reach stmts xs id stmt ∨ ShownIn (n + xs.length) reach stmts' ys id stmt ↔
      ShownIn n reach (stmts ++ stmts') (xs ++ ys) id stmt := by
  simp only [ShownIn, viewed_append, List.mem_append]
  grind

theorem Table.Declares.names_new {t t' : Table} {ds : List Decl} {opened : List Scope}
    {shown : SymbolId → NodeId → Prop} (h : t.Declares t' ds opened shown) :
    (symbolsFrom t.symbols.length ds.length).map t'.shownName = ds.map (·.symbol.name) := by
  refine List.ext_getElem? fun i => ?_
  simp only [symbolsFrom, List.map_map, List.getElem?_map]
  by_cases hi : i < ds.length
  · obtain ⟨d, hd⟩ : ∃ d, ds[i]? = some d := ⟨_, List.getElem?_eq_getElem hi⟩
    rw [List.getElem?_range' hi, hd]
    simp [h.name_new hd]
  · have hi' : ds.length ≤ i := Nat.not_lt.1 hi
    rw [List.getElem?_eq_none hi', List.getElem?_eq_none (by simpa using hi')]
    rfl

theorem declares_plain (t : Table) (n : Nat) (reach : List SymbolId) :
    t.Declares t [] [] (ShownIn n reach [] []) :=
  (Declares.refl t).congr rfl rfl fun id stmt => by simp [nowhere, ShownIn, Viewed]

mutual
theorem Stmt.declareLocals_inv {c : BodyContext} (s : Stmt) {t t' : Table}
    {reach reach' : List SymbolId} {ds : List Diagnostic} {info : FunctionRecord}
    (hc : c.Inside info t) (hr : t.Locals reach)
    (h : (s.declareLocals c reach).run t = .ok ⟨reach', t', ds⟩) :
    reach' = reach ++ symbolsFrom t.symbols.length s.vars.length ∧
      t.Declares t' (s.locals.map (·.decl c.scope (.localVar none []))) []
        (ShownIn t.symbols.length reach (s.inner.map Stmt.id) (s.views [])) ∧
      c.Inside (info.addLocals (symbolsFrom t.symbols.length s.locals.length)) t' ∧
      t'.Locals reach' ∧
      (info.params ++ reach').map t'.shownName =
        (info.params ++ reach).map t.shownName ++ s.vars.map (·.name.text) ∧
      ds = s.localFaults c.structs ((info.params ++ reach).map t.shownName) := by
  have hheld := hc.holds hr.holds
  have hplain : c.Inside (info.addLocals (symbolsFrom t.symbols.length 0)) t := by
    simpa [symbolsFrom] using hc
  cases s with
  | declare node vars init =>
    obtain ⟨rfl, hd, hc', hl, rfl⟩ := ContractLang.declareLocals_inv hc hr h
    have hnew := hd.names_new
    rw [List.length_map] at hnew
    refine ⟨rfl, hd.congr rfl rfl fun id stmt => ?_, hc', hl, ?_, rfl⟩
    · simp [nowhere, ShownIn, Stmt.inner, Stmt.views, viewed_map]
    · rw [← List.append_assoc, List.map_append, hd.names_old hheld, hnew, List.map_map]
      rfl
  | branch node condition onTrue onFalse =>
    -- What the blocks declare is out of reach behind the statement.
    cases onFalse with
    | none =>
      obtain ⟨_, t₁, es, fs, h₁, h₂, rfl⟩ := run_bind_iff.1 h
      obtain ⟨hd, hc', rfl⟩ := declareLocalsIn_inv onTrue.stmts hc hr h₁
      obtain ⟨rfl, rfl, rfl⟩ := run_pure_iff.1 h₂
      refine ⟨(List.append_nil _).symm, hd, hc', hr.declares hd, ?_, List.append_nil _⟩
      rw [hd.names_old hheld]
      exact (List.append_nil _).symm
    | some onFalse =>
      obtain ⟨_, t₁, es₁, fs₁, h₁, k₁, rfl⟩ := run_bind_iff.1 h
      obtain ⟨hd₁, hc₁, rfl⟩ := declareLocalsIn_inv onTrue.stmts hc hr h₁
      obtain ⟨_, t₂, es₂, fs₂, h₂, h₃, rfl⟩ := run_bind_iff.1 k₁
      obtain ⟨hd₂, hc₂, rfl⟩ := declareLocalsIn_inv onFalse.stmts hc₁ (hr.declares hd₁) h₂
      obtain ⟨rfl, rfl, rfl⟩ := run_pure_iff.1 h₃
      have hlen : (viewsOf onTrue.stmts).length = (localsOf onTrue.stmts).length := by
        rw [← viewsOf_fst, List.length_map]
      have hd : t.Declares t' _ _ _ := hd₁.trans hd₂
      refine ⟨(List.append_nil _).symm, hd.congr ?_ rfl fun id stmt => ?_, ?_, hr.declares hd,
        ?_, ?_⟩
      · rw [Stmt.locals, List.map_append]
      · rw [hd₁.length, List.length_map, ← hlen, shownIn_append, Stmt.inner, List.map_append,
          Stmt.views]
      · rw [Stmt.locals, List.length_append, symbolsFrom_add, FunctionRecord.addLocals_append]
        rwa [hd₁.length, List.length_map] at hc₂
      · rw [hd.names_old hheld]
        exact (List.append_nil _).symm
      · rw [FunctionRecord.params_addLocals, hd₁.names_old hheld, List.append_nil, Stmt.localFaults]
  | assign node target value =>
    obtain ⟨rfl, rfl, rfl⟩ := run_pure_iff.1 h
    exact ⟨(List.append_nil _).symm, declares_plain .., hplain, hr, (List.append_nil _).symm, rfl⟩
  | assignAll node targets source =>
    obtain ⟨rfl, rfl, rfl⟩ := run_pure_iff.1 h
    exact ⟨(List.append_nil _).symm, declares_plain .., hplain, hr, (List.append_nil _).symm, rfl⟩
  | giveBack node values =>
    obtain ⟨rfl, rfl, rfl⟩ := run_pure_iff.1 h
    exact ⟨(List.append_nil _).symm, declares_plain .., hplain, hr, (List.append_nil _).symm, rfl⟩

theorem declareLocalsIn_inv {c : BodyContext} (b : List Stmt) {t t' : Table}
    {reach : List SymbolId} {u : Unit} {ds : List Diagnostic} {info : FunctionRecord}
    (hc : c.Inside info t) (hr : t.Locals reach)
    (h : (declareLocalsIn c reach b).run t = .ok ⟨u, t', ds⟩) :
    t.Declares t' ((localsOf b).map (·.decl c.scope (.localVar none []))) []
        (ShownIn t.symbols.length reach ((allOf b).map Stmt.id) (viewsOf b)) ∧
      c.Inside (info.addLocals (symbolsFrom t.symbols.length (localsOf b).length)) t' ∧
      ds = localFaultsOf c.structs ((info.params ++ reach).map t.shownName) b := by
  cases b with
  | nil =>
    obtain ⟨-, rfl, rfl⟩ := run_pure_iff.1 h
    exact ⟨declares_plain .., by simpa [localsOf, symbolsFrom] using hc, rfl⟩
  | cons s rest =>
    obtain ⟨_, t₁, es₁, fs₁, h₁, k₁, rfl⟩ := run_bind_iff.1 h
    obtain ⟨hd₁, hc₁, rfl⟩ := showTo_inv hc hr h₁
    obtain ⟨reach', t₂, es₂, fs₂, h₂, h₃, rfl⟩ := run_bind_iff.1 k₁
    obtain ⟨rfl, hd₂, hc₂, hl₂, hnames, rfl⟩ := s.declareLocals_inv hc₁ (hr.declares hd₁) h₂
    obtain ⟨hd₃, hc₃, rfl⟩ := declareLocalsIn_inv rest hc₂ hl₂ h₃
    have hlen₁ : t₁.symbols.length = t.symbols.length := hd₁.length
    have hlen₂ : t₂.symbols.length = t.symbols.length + s.locals.length := by
      rw [hd₂.length, hlen₁, List.length_map]
    refine ⟨((hd₁.trans hd₂).trans hd₃).congr ?_ rfl fun id stmt => ?_, ?_, ?_⟩
    · rw [localsOf, List.map_append, List.nil_append]
    · rw [hlen₁, hlen₂]
      exact shownIn_cons ..
    · rw [localsOf, List.length_append, symbolsFrom_add, FunctionRecord.addLocals_append]
      rwa [hlen₁, hlen₂] at hc₃
    · rw [FunctionRecord.params_addLocals, hnames, hd₁.names_old (hc.holds hr.holds), List.nil_append,
        localFaultsOf]
end

/-! ### Callables -/

namespace Callable

/-- The declarations of a callable whose variables lie in `inner`. -/
def decls (outer inner : ScopeId) (f : Callable) : List Decl :=
  ⟨f.node.id, ⟨f.declaredName, outer, f.node.span, .function ⟨inner, f.name.isNone, [], [], []⟩⟩⟩ ::
    (f.params.map (·.decl inner (.parameter none)) ++
      (localsOf f.body.stmts).map (·.decl inner (.localVar none [])))

/-- Where the locals of a callable can be named, if its own symbol has the number `n`. -/
def shown (n : Nat) (f : Callable) : SymbolId → NodeId → Prop :=
  Viewed (n + 1 + f.params.length) (viewsOf f.body.stmts)

/-- The record of a callable whose own symbol has the number `n` and whose variables lie in `inner`:
its parameters follow the callable, and its locals the parameters. -/
def record (n : Nat) (inner : ScopeId) (f : Callable) : FunctionRecord :=
  ⟨inner, f.name.isNone, [], symbolsFrom (n + 1) f.params.length,
    symbolsFrom (n + 1 + f.params.length) (localsOf f.body.stmts).length⟩

/-- What is reported of the parameters and locals of a callable. -/
def varFaults (structs : List String) (f : Callable) : List Diagnostic :=
  ContractLang.varFaults structs [] f.params ++
    localFaultsOf structs (f.params.map (·.name.text)) f.body.stmts

/-- What is reported of the name of a function where some names are taken. -/
def nameFaults (taken : List String) (f : Callable) : List Diagnostic :=
  match f.name with
  | none => []
  | some name => nameFault [] name.text f.node.span ++ takenFault taken name.text f.node.span

def declFaults (structs taken : List String) (f : Callable) : List Diagnostic :=
  f.nameFaults taken ++ f.varFaults structs

theorem checkName_inv {outer : ScopeId} {f : Callable} {t t' : Table} {u : Unit}
    {ds : List Diagnostic} (hn : t.Named) (h : (f.checkName outer).run t = .ok ⟨u, t', ds⟩) :
    t' = t ∧ ds = f.nameFaults ((t.entries outer).map Prod.fst) := by
  unfold Callable.checkName at h
  unfold nameFaults
  cases hname : f.name with
  | none =>
    rw [hname] at h
    exact (run_pure_iff.1 h).2
  | some name =>
    rw [hname] at h
    obtain ⟨_, t₁, es, fs, h₁, h₂, rfl⟩ := run_bind_iff.1 h
    obtain ⟨rfl, rfl⟩ := run_checkName_iff.1 h₁
    obtain ⟨rfl, rfl⟩ := run_checkUntaken hn h₂
    exact ⟨rfl, rfl⟩

theorem declare_inv {structs : List String} {outer : ScopeId} {f : Callable} {t t' : Table}
    {id : SymbolId} {ds : List Diagnostic} (hn : t.Named) (ho : t.HoldsScope outer)
    (h : (f.declare structs outer).run t = .ok ⟨id, t', ds⟩) :
    id = ⟨t.symbols.length⟩ ∧
      t.Declares t' (f.decls outer ⟨t.scopes.length⟩) [.new .function (some outer)]
        (f.shown t.symbols.length) ∧
      t'.functionAt ⟨t.symbols.length⟩ = some (f.record t.symbols.length ⟨t.scopes.length⟩) ∧
      ds = f.declFaults structs ((t.entries outer).map Prod.fst) := by
  rw [f.declare_eq] at h
  obtain ⟨_, t₁, es₁, fs₁, h₁, k₁, rfl⟩ := run_bind_iff.1 h
  obtain ⟨rfl, rfl⟩ := checkName_inv hn h₁
  obtain ⟨owner, t₂, es₂, fs₂, h₂, k₂, rfl⟩ := run_bind_iff.1 k₁
  obtain ⟨rfl, rfl, hkind, hd₂⟩ :=
    declareOwner_inv (fun _ => rfl) (fun _ => rfl) (fun _ => rfl) (fun _ => rfl) h₂
  have hentries : t₂.entries ⟨t₁.scopes.length⟩ = [] := hd₂.entries_opened ho
  have hc₂ : BodyContext.Inside ⟨structs, ⟨t₁.symbols.length⟩, ⟨t₁.scopes.length⟩⟩
      ⟨⟨t₁.scopes.length⟩, f.name.isNone, [], [], []⟩ t₂ :=
    ⟨by rw [functionAt, hkind]; rfl, by simp⟩
  obtain ⟨_, t₃, es₃, fs₃, h₃, k₃, rfl⟩ := run_bind_iff.1 k₂
  obtain ⟨hd₃, hc₃, rfl⟩ := declareParams_inv (hd₂.named hn) hc₂ h₃
  obtain ⟨_, t₄, es₄, fs₄, h₄, h₅, rfl⟩ := run_bind_iff.1 k₃
  have hnone : t₃.Locals [] := by simp [Table.Locals]
  obtain ⟨hd₄, hc₄, rfl⟩ := declareLocalsIn_inv f.body.stmts hc₃ hnone h₄
  obtain ⟨rfl, rfl, rfl⟩ := run_pure_iff.1 h₅
  have hnames := hd₃.names_new
  rw [List.length_map, List.map_map] at hnames
  have hrecord := hc₄.function
  rw [hd₃.length, hd₂.length, List.length_map] at hrecord
  refine ⟨rfl, ((hd₂.trans_nowhere hd₃).trans hd₄).congr rfl rfl fun id stmt => ?_, hrecord, ?_⟩
  · rw [hd₃.length, hd₂.length, List.length_map]
    simp [nowhere, ShownIn, Callable.shown]
  · simp only [hentries, List.nil_append, List.append_nil, FunctionRecord.addParams, hnames]
    rfl

end Callable

/-! ### Contracts -/

theorem updateContract_inv {t t' : Table} {g : ContractRecord → ContractRecord}
    (h : t.updateContract g = .ok t') (hg : ∀ i, (g i).inner = i.inner) :
    t.Declares t' [] [] nowhere := by
  unfold updateContract at h
  cases hc : t.contract with
  | none =>
    rw [hc] at h
    cases h
    exact .refl t
  | some c =>
    rw [hc] at h
    obtain ⟨-, rfl⟩ := updateKind_eq_ok.1 h
    refine declares_amend c fun k _ => ?_
    cases k with
    | contract i => simp [SymbolKind.mapContract, SymbolKind.outline, SymbolKind.visibility,
        SymbolKind.valueType?, hg]
    | _ => exact ⟨rfl, rfl, rfl⟩

def FieldDecl.decl (scope : ScopeId) (f : FieldDecl) : Decl :=
  ⟨f.node.id, ⟨f.name.text, scope, f.node.span, .field none⟩⟩

/-- What is reported of declarations that are made one after the other in one scope, if each of them
takes its name from those after it. -/
def faultsInTurn {α : Type} (name : α → String) (faults : List String → α → List Diagnostic)
    (taken : List String) : List α → List Diagnostic
  | [] => []
  | x :: rest => faults taken x ++ faultsInTurn name faults (taken ++ [name x]) rest

def FieldDecl.declFaults (structs taken : List String) (f : FieldDecl) : List Diagnostic :=
  nameFault structs f.name.text f.node.span ++ takenFault taken f.name.text f.node.span

def fieldFaults (structs taken : List String) : List FieldDecl → List Diagnostic :=
  faultsInTurn (·.name.text) (FieldDecl.declFaults structs) taken

theorem FieldDecl.declare_inv {structs : List String} {scope : ScopeId} {f : FieldDecl}
    {t t' : Table} {id : SymbolId} {ds : List Diagnostic} (hn : t.Named)
    (h : (f.declare structs scope).run t = .ok ⟨id, t', ds⟩) :
    id = ⟨t.symbols.length⟩ ∧ t.Declares t' [f.decl scope] [] nowhere ∧
      ds = f.declFaults structs ((t.entries scope).map Prod.fst) := by
  obtain ⟨_, t₁, es₁, fs₁, h₁, k₁, rfl⟩ := run_bind_iff.1 h
  obtain ⟨rfl, rfl⟩ := run_checkName_iff.1 h₁
  obtain ⟨_, t₂, es₂, fs₂, h₂, h₃, rfl⟩ := run_bind_iff.1 k₁
  obtain ⟨rfl, rfl⟩ := run_checkUntaken hn h₂
  obtain ⟨hs, rfl, rfl, rfl⟩ := run_declareNode_iff.1 h₃
  refine ⟨rfl, declares_enter hs (.field none) rfl rfl rfl nofun f.node f.name.text, ?_⟩
  rw [List.append_nil]
  rfl

/-- Fields one after the other, each entered in the record of what it belongs to. -/
theorem declareFields_inv {structs : List String} {scope : ScopeId} {fields : List FieldDecl}
    {g : SymbolId → Table → Except Dangling Table} {t t' : Table} {u : Unit} {ds : List Diagnostic}
    (hg : ∀ id t t', g id t = .ok t' → t.Declares t' [] [] nowhere) (hn : t.Named)
    (h : (fields.forM fun f => do
      let id ← f.declare structs scope
      update (g id)).run t = .ok ⟨u, t', ds⟩) :
    t.Declares t' (fields.map (·.decl scope)) [] nowhere ∧
      ds = fieldFaults structs ((t.entries scope).map Prod.fst) fields := by
  induction fields generalizing t ds with
  | nil =>
    obtain ⟨-, rfl, rfl⟩ := run_pure_iff.1 h
    exact ⟨.refl _, rfl⟩
  | cons f fields ih =>
    obtain ⟨_, t₁, es, fs, h₁, h₂, rfl⟩ := run_bind_iff.1 h
    obtain ⟨id, t₂, es', fs', h₃, h₄, rfl⟩ := run_bind_iff.1 h₁
    obtain ⟨-, hd₁, rfl⟩ := FieldDecl.declare_inv hn h₃
    obtain ⟨hu, rfl⟩ := run_update_iff.1 h₄
    have hd₂ := hd₁.trans_nowhere (hg id _ _ hu)
    obtain ⟨hd₃, rfl⟩ := ih (hd₂.named hn) h₂
    have hentries : (t₁.entries scope).map Prod.fst =
        (t.entries scope).map Prod.fst ++ [f.name.text] := by
      rw [hd₂.entry_names, List.append_nil, declsIn_eq_self]
      · rfl
      · simp [FieldDecl.decl]
    refine ⟨hd₂.trans_nowhere hd₃, ?_⟩
    rw [hentries, List.append_nil]
    rfl

/-- Members with scopes of their own one after the other. -/
theorem declareMembers_inv {α : Type} {step : α → Pass Unit} {size : α → Nat}
    {decls : ScopeId → α → List Decl} {outer : ScopeId} (kind : ScopeKind)
    (shown : Nat → α → SymbolId → NodeId → Prop) (name : α → String)
    (faults : List String → α → List Diagnostic) (hsize : ∀ i x, (decls i x).length = size x)
    (hname : ∀ i x, i ≠ outer → (declsIn outer (decls i x)).map (·.symbol.name) = [name x])
    (hstep : ∀ x t t' u ds, t.Named → t.HoldsScope outer → (step x).run t = .ok ⟨u, t', ds⟩ →
      t.Declares t' (decls ⟨t.scopes.length⟩ x) [.new kind (some outer)]
        (shown t.symbols.length x) ∧ ds = faults ((t.entries outer).map Prod.fst) x)
    {xs : List α} {t t' : Table} {u : Unit} {ds : List Diagnostic} (hn : t.Named)
    (ho : t.HoldsScope outer) (h : (xs.forM step).run t = .ok ⟨u, t', ds⟩) :
    t.Declares t' ((placements size t.scopes.length t.symbols.length xs).flatMap fun p =>
        decls p.scope p.member) (xs.map fun _ => .new kind (some outer))
      (fun id stmt => ∃ p ∈ placements size t.scopes.length t.symbols.length xs,
        shown p.symbol p.member id stmt) ∧
      ds = faultsInTurn name faults ((t.entries outer).map Prod.fst) xs := by
  induction xs generalizing t ds with
  | nil =>
    obtain ⟨-, rfl, rfl⟩ := run_pure_iff.1 h
    refine ⟨(Declares.refl _).congr rfl rfl fun id stmt => ?_, rfl⟩
    simp [nowhere, placements]
  | cons x xs ih =>
    obtain ⟨_, t₁, es, fs, h₁, h₂, rfl⟩ := run_bind_iff.1 h
    obtain ⟨hd₁, rfl⟩ := hstep x t t₁ _ es hn ho h₁
    obtain ⟨hd₂, rfl⟩ := ih (hd₁.named hn) (hd₁.holdsScope ho) h₂
    have hscopes : t₁.scopes.length = t.scopes.length + 1 := hd₁.scopes_length
    have hsymbols : t₁.symbols.length = t.symbols.length + size x := by
      rw [hd₁.length, hsize]
    have hne : (⟨t.scopes.length⟩ : ScopeId) ≠ outer := by
      rintro rfl
      exact Nat.lt_irrefl _ ho
    rw [hscopes, hsymbols] at hd₂
    refine ⟨(hd₁.trans hd₂).congr ?_ rfl fun id stmt => ?_, ?_⟩
    · rw [placements, List.flatMap_cons]
    · simp [placements]
    · rw [hd₁.entry_names, hname _ x hne, faultsInTurn]

/-- The declarations of a struct type whose fields lie in `inner`. -/
def StructDecl.decls (outer inner : ScopeId) (s : StructDecl) : List Decl :=
  ⟨s.node.id, ⟨s.name.text, outer, s.node.span, .struct inner []⟩⟩ :: s.fields.map (·.decl inner)

def StructDecl.size (s : StructDecl) : Nat := s.fields.length + 1

def Callable.size (f : Callable) : Nat := f.params.length + (localsOf f.body.stmts).length + 1

theorem StructDecl.length_decls (outer inner : ScopeId) (s : StructDecl) :
    (s.decls outer inner).length = s.size := by
  simp [StructDecl.decls, StructDecl.size]

theorem Callable.length_decls (outer inner : ScopeId) (f : Callable) :
    (f.decls outer inner).length = f.size := by
  simp [Callable.decls, Callable.size]

theorem StructDecl.declsIn_outer {outer inner : ScopeId} (h : inner ≠ outer) (s : StructDecl) :
    declsIn outer (s.decls outer inner) =
      [⟨s.node.id, ⟨s.name.text, outer, s.node.span, .struct inner []⟩⟩] := by
  have hrest : declsIn outer (s.fields.map (·.decl inner)) = [] := by
    refine declsIn_eq_nil fun d hd => ?_
    obtain ⟨f, -, rfl⟩ := List.mem_map.1 hd
    exact h
  rw [StructDecl.decls, declsIn_cons_of_eq, hrest]
  rfl

theorem Callable.declsIn_outer {outer inner : ScopeId} (h : inner ≠ outer) (f : Callable) :
    declsIn outer (f.decls outer inner) = [⟨f.node.id, ⟨f.declaredName, outer, f.node.span,
      .function ⟨inner, f.name.isNone, [], [], []⟩⟩⟩] := by
  have hrest : declsIn outer (f.params.map (·.decl inner (.parameter none)) ++
      (localsOf f.body.stmts).map (·.decl inner (.localVar none []))) = [] := by
    refine declsIn_eq_nil fun d hd => ?_
    rcases List.mem_append.1 hd with hd | hd
    · obtain ⟨v, -, rfl⟩ := List.mem_map.1 hd
      exact h
    · obtain ⟨v, -, rfl⟩ := List.mem_map.1 hd
      exact h
  rw [Callable.decls, declsIn_cons_of_eq, hrest]
  rfl

/-- The name of a struct type may be that of another one, which is then a duplicate. -/
def StructDecl.declFaults (structs taken : List String) (s : StructDecl) : List Diagnostic :=
  nameFault [] s.name.text s.node.span ++ takenFault taken s.name.text s.node.span ++
    fieldFaults structs [] s.fields

theorem Table.declares_addStructField (t : Table) (id field : SymbolId) :
    t.Declares (t.amend id (·.addStructField field)) [] [] nowhere := by
  refine declares_amend id fun k _ => ?_
  cases k <;> exact ⟨rfl, rfl, rfl⟩

theorem StructDecl.declare_inv {structs : List String} {outer : ScopeId} {s : StructDecl}
    {t t' : Table} {id : SymbolId} {ds : List Diagnostic} (hn : t.Named) (ho : t.HoldsScope outer)
    (h : (s.declare structs outer).run t = .ok ⟨id, t', ds⟩) :
    id = ⟨t.symbols.length⟩ ∧
      t.Declares t' (s.decls outer ⟨t.scopes.length⟩) [.new .struct (some outer)] nowhere ∧
      ds = s.declFaults structs ((t.entries outer).map Prod.fst) := by
  obtain ⟨_, t₁, es₁, fs₁, h₁, k₁, rfl⟩ := run_bind_iff.1 h
  obtain ⟨rfl, rfl⟩ := run_checkName_iff.1 h₁
  obtain ⟨_, t₂, es₂, fs₂, h₂, k₂, rfl⟩ := run_bind_iff.1 k₁
  obtain ⟨rfl, rfl⟩ := run_checkUntaken hn h₂
  obtain ⟨owner, t₃, es₃, fs₃, h₃, k₃, rfl⟩ := run_bind_iff.1 k₂
  obtain ⟨rfl, rfl, -, hd₃⟩ :=
    declareOwner_inv (fun _ => rfl) (fun _ => rfl) (fun _ => rfl) (fun _ => rfl) h₃
  have hentries : t₃.entries ⟨t₂.scopes.length⟩ = [] := hd₃.entries_opened ho
  obtain ⟨_, t₄, es₄, fs₄, h₄, h₅, rfl⟩ := run_bind_iff.1 k₃
  obtain ⟨rfl, rfl, rfl⟩ := run_pure_iff.1 h₅
  have hfields := declareFields_inv (fun id t t' hu => ?_) (hd₃.named hn) h₄
  · obtain ⟨hd₄, rfl⟩ := hfields
    refine ⟨rfl, hd₃.trans_nowhere hd₄, ?_⟩
    rw [hentries, List.nil_append, List.append_nil, ← List.append_assoc]
    rfl
  · obtain ⟨-, rfl⟩ := updateKind_eq_ok.1 hu
    exact declares_addStructField ..

/-! ### Whole contracts

The initial table has ten symbols and one scope, so the contract's symbol has the number 10 and its
scope the number 1. -/

def ScopeId.members : ScopeId := ⟨1⟩

def SymbolId.contract : SymbolId := ⟨10⟩

namespace ContractDecl
variable (c : ContractDecl)

def structNames : List String := c.structs.map (·.name.text)

def structPlaces : List (Placement StructDecl) :=
  placements StructDecl.size 2 (11 + c.fields.length) c.structs

def structDecls : List Decl := c.structPlaces.flatMap fun p => p.member.decls .members p.scope

def callablePlaces : List (Placement Callable) :=
  placements Callable.size (2 + c.structs.length) (11 + c.fields.length + c.structDecls.length)
    c.callables

def callableDecls : List Decl := c.callablePlaces.flatMap fun p => p.member.decls .members p.scope

/-- All declarations of a contract, in the order in which they are made. -/
def decls : List Decl :=
  ⟨c.node.id, ⟨c.name.text, .global, c.node.span, .contract ⟨.members, [], [], none, []⟩⟩⟩ ::
    (c.fields.map (·.decl .members) ++ c.structDecls ++ c.callableDecls)

def scopes : List Scope :=
  .new .contract (some .global) :: (c.structs.map (fun _ => .new .struct (some .members)) ++
    c.callables.map fun _ => .new .function (some .members))

def shown (id : SymbolId) (stmt : NodeId) : Prop :=
  ∃ p ∈ c.callablePlaces, p.member.shown p.symbol id stmt

def fieldNames : List String := c.fields.map (·.name.text)

/-- What is reported of the declarations of a contract. -/
def declFaults : List Diagnostic :=
  nameFault c.structNames c.name.text c.node.span ++
    takenFault ((Table.initial.entries .global).map Prod.fst) c.name.text c.node.span ++
    fieldFaults [] [] c.fields ++
    faultsInTurn (·.name.text) (StructDecl.declFaults c.structNames) c.fieldNames c.structs ++
    faultsInTurn (·.declaredName) (Callable.declFaults c.structNames) (c.fieldNames ++ c.structNames)
      c.callables

end ContractDecl

theorem Table.named_initial : Table.initial.Named := by
  intro scope d hd
  obtain ⟨i⟩ := scope
  cases i with
  | zero =>
    have hall : ∀ d ∈ Table.initial.entries ⟨0⟩, d.1 ∈ Table.initial.names := by decide
    exact hall d hd
  | succ i => cases hd

theorem declareStructs_inv {structs : List String} {outer : ScopeId} {xs : List StructDecl}
    {t t' : Table} {u : Unit} {ds : List Diagnostic} (hn : t.Named) (ho : t.HoldsScope outer)
    (h : (xs.forM fun s => do
      let id ← s.declare structs outer
      update (·.updateContract (·.addStruct id))).run t = .ok ⟨u, t', ds⟩) :
    t.Declares t' ((placements StructDecl.size t.scopes.length t.symbols.length xs).flatMap fun p =>
      p.member.decls outer p.scope) (xs.map fun _ => .new .struct (some outer)) nowhere ∧
      ds = faultsInTurn (·.name.text) (StructDecl.declFaults structs) ((t.entries outer).map Prod.fst)
        xs := by
  have hall := declareMembers_inv .struct (fun _ _ => nowhere) (·.name.text)
    (StructDecl.declFaults structs) (fun i s => s.length_decls outer i)
    (fun i s hi => by rw [s.declsIn_outer hi]; rfl) (fun s t t' u ds hn ho h => ?_) hn ho h
  · exact ⟨hall.1.congr rfl rfl fun id stmt => by simp [nowhere], hall.2⟩
  · obtain ⟨id, t₁, es, fs, h₁, h₂, rfl⟩ := run_bind_iff.1 h
    obtain ⟨hu, rfl⟩ := run_update_iff.1 h₂
    obtain ⟨-, hd, rfl⟩ := StructDecl.declare_inv hn ho h₁
    exact ⟨hd.trans_nothing (updateContract_inv hu fun _ => rfl), List.append_nil _⟩

theorem declareCallables_inv {structs : List String} {outer : ScopeId} {xs : List Callable}
    {t t' : Table} {u : Unit} {ds : List Diagnostic} (hn : t.Named) (ho : t.HoldsScope outer)
    (h : (xs.forM fun f => do
      let id ← f.declare structs outer
      update (·.updateContract (·.addCallable f.name.isNone id))).run t = .ok ⟨u, t', ds⟩) :
    t.Declares t' ((placements Callable.size t.scopes.length t.symbols.length xs).flatMap fun p =>
        p.member.decls outer p.scope) (xs.map fun _ => .new .function (some outer))
      (fun id stmt => ∃ p ∈ placements Callable.size t.scopes.length t.symbols.length xs,
        p.member.shown p.symbol id stmt) ∧
      ds = faultsInTurn (·.declaredName) (Callable.declFaults structs) ((t.entries outer).map Prod.fst)
        xs := by
  refine declareMembers_inv .function (fun n f => f.shown n) (·.declaredName)
    (Callable.declFaults structs) (fun i f => f.length_decls outer i)
    (fun i f hi => by rw [f.declsIn_outer hi]; rfl) (fun f t t' u ds hn ho h => ?_) hn ho h
  obtain ⟨id, t₁, es, fs, h₁, h₂, rfl⟩ := run_bind_iff.1 h
  obtain ⟨hu, rfl⟩ := run_update_iff.1 h₂
  obtain ⟨-, hd, -, rfl⟩ := Callable.declare_inv hn ho h₁
  have hrecord := updateContract_inv hu fun i => i.inner_addCallable _ _
  exact ⟨hd.trans_nothing hrecord, List.append_nil _⟩

/-- The symbol of the contract comes first, then those of its fields, struct types and callables. -/
theorem ContractDecl.declare_steps {c : ContractDecl} {t' : Table} {u : Unit} {ds : List Diagnostic}
    (h : c.declare.run .initial = .ok ⟨u, t', ds⟩) : ∃ t₀ t₁ t₂ ds₁ ds₂ ds₃,
    (Table.initial.setContract .contract).Declares t₀
        [⟨c.node.id, ⟨c.name.text, .global, c.node.span, .contract ⟨.members, [], [], none, []⟩⟩⟩]
        [.new .contract (some .global)] nowhere ∧
      t₀.kind? .contract = some (.contract ⟨.members, [], [], none, []⟩) ∧
      (c.fields.forM fun f => do
        let id ← f.declare [] .members
        update (·.updateContract (·.addField id))).run t₀ = .ok ⟨(), t₁, ds₁⟩ ∧
      (c.structs.forM fun s => do
        let id ← s.declare c.structNames .members
        update (·.updateContract (·.addStruct id))).run t₁ = .ok ⟨(), t₂, ds₂⟩ ∧
      (c.callables.forM fun f => do
        let id ← f.declare c.structNames .members
        update (·.updateContract (·.addCallable f.name.isNone id))).run t₂ = .ok ⟨u, t', ds₃⟩ ∧
      ds = nameFault c.structNames c.name.text c.node.span ++
        takenFault ((Table.initial.entries .global).map Prod.fst) c.name.text c.node.span ++
        ds₁ ++ ds₂ ++ ds₃ := by
  have hn := Table.named_initial
  obtain ⟨_, t₁, es₁, fs₁, h₁, k₁, rfl⟩ := run_bind_iff.1 h
  obtain ⟨rfl, rfl⟩ := run_checkName_iff.1 h₁
  obtain ⟨_, t₂, es₂, fs₂, h₂, k₂, rfl⟩ := run_bind_iff.1 k₁
  obtain ⟨rfl, rfl⟩ := run_checkUntaken hn h₂
  obtain ⟨owner, t₃, es₃, fs₃, h₃, k₃, rfl⟩ := run_bind_iff.1 k₂
  obtain ⟨howner, rfl, hkind, hd₃⟩ :=
    declareOwner_inv (fun _ => rfl) (fun _ => rfl) (fun _ => rfl) (fun _ => rfl) h₃
  obtain rfl : owner = ⟨.contract, .members⟩ := howner
  obtain ⟨_, t₄, es₄, fs₄, h₄, k₄, rfl⟩ := run_bind_iff.1 k₃
  obtain ⟨rfl, rfl⟩ := run_adjust_iff.1 h₄
  obtain ⟨_, t₅, es₅, fs₅, h₅, k₅, rfl⟩ := run_bind_iff.1 k₄
  obtain ⟨_, t₆, es₆, fs₆, h₆, h₇, rfl⟩ := run_bind_iff.1 k₅
  refine ⟨_, t₅, t₆, es₅, es₆, fs₆, hd₃.setContract .contract, hkind, h₅, h₆, h₇, ?_⟩
  simp [ContractDecl.structNames]

/-- Where the scopes and symbols of the struct types begin. -/
theorem ContractDecl.fields_lengths {c : ContractDecl} {t : Table} {d : Decl} {s : Scope}
    {shown : SymbolId → NodeId → Prop}
    (h : (Table.initial.setContract .contract).Declares t
      ([d] ++ c.fields.map (·.decl .members)) ([s] ++ []) shown) :
    t.scopes.length = 2 ∧ t.symbols.length = 11 + c.fields.length := by
  refine ⟨h.scopes_length, ?_⟩
  rw [h.length, List.length_append, List.length_map, ← Nat.add_assoc]
  rfl

/-- Before the callables, the contract, its fields and its struct types have been declared. -/
theorem ContractDecl.declare_outer {c : ContractDecl} {t' : Table} {u : Unit} {ds : List Diagnostic}
    (h : c.declare.run .initial = .ok ⟨u, t', ds⟩) : ∃ t ds₁ ds₂,
    (Table.initial.setContract .contract).Declares t
        (⟨c.node.id, ⟨c.name.text, .global, c.node.span, .contract ⟨.members, [], [], none, []⟩⟩⟩ ::
          (c.fields.map (·.decl .members) ++ c.structDecls))
        (.new .contract (some .global) :: c.structs.map fun _ => .new .struct (some .members))
        nowhere ∧
      t.Named ∧ (t.entries .members).map Prod.fst = c.fieldNames ++ c.structNames ∧
      (c.callables.forM fun f => do
        let id ← f.declare c.structNames .members
        update (·.updateContract (·.addCallable f.name.isNone id))).run t = .ok ⟨u, t', ds₂⟩ ∧
      ds = ds₁ ++ ds₂ ∧
      ds₁ = nameFault c.structNames c.name.text c.node.span ++
        takenFault ((Table.initial.entries .global).map Prod.fst) c.name.text c.node.span ++
        fieldFaults [] [] c.fields ++
        faultsInTurn (·.name.text) (StructDecl.declFaults c.structNames) c.fieldNames c.structs := by
  obtain ⟨t₄, t₅, t₆, ds₁, ds₂, ds₃, hd₄, -, h₅, h₆, h₇, rfl⟩ := declare_steps h
  have hn₄ : t₄.Named := hd₄.named Table.named_initial
  have hnames₄ : (t₄.entries .members).map Prod.fst = [] := by
    rw [hd₄.entry_names]
    rfl
  obtain ⟨hd₅, rfl⟩ := declareFields_inv (g := fun id t => t.updateContract (·.addField id))
    (fun _ _ _ hu => updateContract_inv hu fun _ => rfl) hn₄ h₅
  have hhead := hd₄.trans_nowhere hd₅
  have hn₅ := hd₅.named hn₄
  obtain ⟨hscopes₅, hsymbols₅⟩ := fields_lengths hhead
  have ho₅ : t₅.HoldsScope .members := by
    rw [HoldsScope, hscopes₅]
    decide
  have hnames₅ : (t₅.entries .members).map Prod.fst = c.fieldNames := by
    have hself : declsIn .members (c.fields.map (·.decl .members)) =
        c.fields.map (·.decl .members) := by
      refine declsIn_eq_self fun d hd => ?_
      obtain ⟨f, -, rfl⟩ := List.mem_map.1 hd
      rfl
    rw [hd₅.entry_names, hnames₄, hself, List.map_map]
    rfl
  obtain ⟨hd₆, rfl⟩ := declareStructs_inv hn₅ ho₅ h₆
  rw [hscopes₅, hsymbols₅] at hd₆
  have hnames₆ : (t₆.entries .members).map Prod.fst = c.fieldNames ++ c.structNames := by
    rw [hd₆.entry_names, hnames₅, declsIn_members (g := fun s => s.name.text) _ (by decide)]
    · rfl
    · intro i s hi
      rw [s.declsIn_outer hi]
      rfl
  refine ⟨t₆, _, _, (hhead.trans_nowhere hd₆).congr ?_ ?_ fun _ _ => Iff.rfl, hd₆.named hn₅, hnames₆,
    h₇, ?_, rfl⟩
  · simp [ContractDecl.structDecls, ContractDecl.structPlaces]
  · simp
  · rw [hnames₄, hnames₅]

/-- Where the scopes and symbols of the callables begin. -/
theorem ContractDecl.outer_lengths {c : ContractDecl} {t : Table} {d : Decl} {s : Scope}
    {shown : SymbolId → NodeId → Prop}
    (h : (Table.initial.setContract .contract).Declares t
      (d :: (c.fields.map (·.decl .members) ++ c.structDecls))
      (s :: c.structs.map fun _ => .new .struct (some .members)) shown) :
    t.scopes.length = 2 + c.structs.length ∧
      t.symbols.length = 11 + c.fields.length + c.structDecls.length := by
  rw [h.scopes_length, h.length]
  simp only [List.length_cons, List.length_append, List.length_map]
  constructor
  · change 1 + _ = _
    omega
  · change 10 + _ = _
    omega

theorem ContractDecl.declare_inv {c : ContractDecl} {t' : Table} {u : Unit} {ds : List Diagnostic}
    (h : c.declare.run .initial = .ok ⟨u, t', ds⟩) :
    (Table.initial.setContract .contract).Declares t' c.decls c.scopes c.shown ∧ ds = c.declFaults := by
  obtain ⟨t, ds₁, ds₂, hd, hn, hnames, hrun, rfl, rfl⟩ := c.declare_outer h
  obtain ⟨hscopes, hsymbols⟩ := outer_lengths hd
  have ho : t.HoldsScope .members := by
    rw [HoldsScope, hscopes]
    exact Nat.lt_of_lt_of_le (by decide) (Nat.le_add_right ..)
  obtain ⟨hcallables, rfl⟩ := declareCallables_inv hn ho hrun
  rw [hscopes, hsymbols] at hcallables
  refine ⟨(hd.trans hcallables).congr ?_ ?_ fun id stmt => ?_, ?_⟩
  · simp [ContractDecl.decls, ContractDecl.callableDecls, ContractDecl.callablePlaces]
  · simp [ContractDecl.scopes]
  · simp [nowhere, ContractDecl.shown, ContractDecl.callablePlaces]
  · rw [hnames, ContractDecl.declFaults]

theorem ContractDecl.varFaults_of_declFaults {c : ContractDecl} (h : c.declFaults = []) :
    ∀ f ∈ c.callables, f.varFaults c.structNames = [] := by
  have hall : ∀ (fs : List Callable) taken,
      faultsInTurn (·.declaredName) (Callable.declFaults c.structNames) taken fs = [] →
      ∀ f ∈ fs, f.varFaults c.structNames = [] := by
    intro fs
    induction fs with
    | nil => simp
    | cons f fs ih =>
      intro taken hnil g hg
      obtain ⟨hf, hrest⟩ := List.append_eq_nil_iff.1 hnil
      rcases List.mem_cons.1 hg with rfl | hg
      · exact (List.append_eq_nil_iff.1 hf).2
      · exact ih _ hrest g hg
  rw [ContractDecl.declFaults] at h
  exact hall _ _ (List.append_eq_nil_iff.1 h).2

end ContractLang
