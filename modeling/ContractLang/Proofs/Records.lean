import ContractLang.Proofs.Persistence
/-!
What the records of a contract and its members hold once all is declared. The contract knows its
fields, struct types and callables, each struct type its fields and each callable its parameters and
locals, all in the order in which they are written, whatever has been reported.
-/
namespace ContractLang

open Pass Table

/-! ### Records of struct types and callables -/

/-- Whatever is not a contract stays what it is. -/
def Table.KeepsKinds (t t' : Table) : Prop :=
  ∀ id k, t.kind? id = some k → k.contract? = none → t'.kind? id = some k

instance : IsPreorder Table Table.KeepsKinds where
  refl _ _ _ h _ := h
  trans _ _ _ h₁ h₂ id k h hk := h₂ id k (h₁ id k h hk) hk

theorem Table.Enlarges.kind?_eq {t t' : Table} (h : t.Enlarges t') {id : SymbolId} {k : SymbolKind}
    (hk : t.kind? id = some k) : t'.kind? id = some k := by
  obtain ⟨s, hs, rfl⟩ := Option.map_eq_some_iff.1 hk
  obtain ⟨more, hmore⟩ := h.symbols
  rw [kind?, ← hmore, List.getElem?_append_left (List.getElem?_eq_some_iff.1 hs).1, hs]
  rfl

theorem keepsKinds_updateContract (g : ContractRecord → ContractRecord) :
    Keeps KeepsKinds (update (·.updateContract g)) .declaration :=
  keeps_update fun {t t'} hupdate id k hk hplain => by
    unfold updateContract at hupdate
    cases hc : t.contract with
    | none =>
      rw [hc] at hupdate
      cases hupdate
      exact hk
    | some j =>
      rw [hc] at hupdate
      obtain ⟨-, rfl⟩ := updateKind_eq_ok.1 hupdate
      rw [kind?_amend, hk, Option.map_some]
      cases k with
      | contract info => cases hplain
      | _ => split <;> rfl

theorem keepsKinds_of_adds {x : Pass SymbolId} (hx : ∀ b : Table, Adds b b.New x) :
    Keeps KeepsKinds x .declaration where
  run {t _ _ _} h := by
    obtain ⟨hlarger, -, hds⟩ := (hx t).run (Enlarges.refl t) h
    exact ⟨fun id k hk _ => hlarger.kind?_eq hk, hds⟩

/-- Members that are declared one after the other and entered in the contract's record. Each is
complete once it is declared, and what follows leaves it alone. -/
theorem enterMembers_kinds {α : Type} {outer : ScopeId} (declare : α → Pass SymbolId)
    (enter : α → SymbolId → ContractRecord → ContractRecord) (size : α → Nat)
    (kind : Nat → ScopeId → α → SymbolKind) (hadds : ∀ x (b : Table), Adds b b.New (declare x))
    (henter : ∀ x id r, (enter x id r).inner = r.inner)
    (hplain : ∀ n i x, (kind n i x).contract? = none)
    (hstep : ∀ x t id t' ds, t.Named → t.HoldsScope outer → (declare x).run t = .ok ⟨id, t', ds⟩ →
      t'.kind? ⟨t.symbols.length⟩ = some (kind t.symbols.length ⟨t.scopes.length⟩ x) ∧
        ∃ decls opened shown, t.Declares t' decls [opened] shown ∧ decls.length = size x)
    {xs : List α} {t t' : Table} {u : Unit} {ds : List Diagnostic} (hn : t.Named)
    (ho : t.HoldsScope outer)
    (h : (xs.forM fun x => do
      let id ← declare x
      update (·.updateContract (enter x id))).run t = .ok ⟨u, t', ds⟩) :
    ∀ p ∈ placements size t.scopes.length t.symbols.length xs,
      t'.kind? ⟨p.symbol⟩ = some (kind p.symbol p.scope p.member) := by
  have hkeeps : ∀ x, Keeps KeepsKinds (do
      let id ← declare x
      update (·.updateContract (enter x id))) .declaration := fun x =>
    keeps_bind (keepsKinds_of_adds (hadds x)) fun _ => keepsKinds_updateContract _
  induction xs generalizing t ds with
  | nil => intro p hp; cases hp
  | cons x rest ih =>
    obtain ⟨_, t₂, es, fs, h₁, h₂, rfl⟩ := run_bind_iff.1 h
    obtain ⟨id, t₁, es₁, fs₁, hdeclare, hupdate, rfl⟩ := run_bind_iff.1 h₁
    obtain ⟨hkind, decls, opened, shown, hd, hsize⟩ := hstep x t id t₁ es₁ hn ho hdeclare
    have hd₂ := hd.trans_nothing (updateContract_inv (run_update_iff.1 hupdate).1 (henter x id))
    have hscopes : t₂.scopes.length = t.scopes.length + 1 := hd₂.scopes_length
    have hsymbols : t₂.symbols.length = t.symbols.length + size x := by rw [hd₂.length, hsize]
    intro p hp
    rcases List.mem_cons.1 hp with rfl | hp
    · have hlater : t₁.KeepsKinds t' := trans_of KeepsKinds
        ((keepsKinds_updateContract _).leads ⟨_, hupdate⟩)
        ((keeps_forM hkeeps rest).leads ⟨_, h₂⟩)
      exact hlater _ _ hkind (hplain ..)
    · rw [← hscopes, ← hsymbols] at hp
      exact ih (hd₂.named hn) (hd₂.holdsScope ho) h₂ p hp

theorem kind?_of_functionAt {t : Table} {id : SymbolId} {info : FunctionRecord}
    (h : t.functionAt id = some info) : t.kind? id = some (.function info) := by
  obtain ⟨k, hk, hf⟩ := Option.bind_eq_some_iff.1 h
  cases k with
  | function i =>
    cases hf
    exact hk
  | _ => cases hf

/-- A struct type when its fields have been declared. -/
def StructDecl.kind (n : Nat) (inner : ScopeId) (s : StructDecl) : SymbolKind :=
  .struct inner (symbolsFrom (n + 1) s.fields.length)

theorem declareFields_struct {structs : List String} {scope inner : ScopeId} {id : SymbolId}
    {fields : List FieldDecl} {ids : List SymbolId} {t t' : Table} {u : Unit} {ds : List Diagnostic}
    (hk : t.kind? id = some (.struct inner ids)) (hn : t.Named)
    (h : (fields.forM fun f => do
      let field ← f.declare structs scope
      update (·.updateKind id (·.addStructField field))).run t = .ok ⟨u, t', ds⟩) :
    t'.kind? id = some (.struct inner (ids ++ symbolsFrom t.symbols.length fields.length)) := by
  induction fields generalizing t ids ds with
  | nil =>
    obtain ⟨-, rfl, -⟩ := run_pure_iff.1 h
    rw [List.length_nil, show symbolsFrom _ 0 = [] from rfl, List.append_nil]
    exact hk
  | cons f rest ih =>
    obtain ⟨_, t₂, es, fs, h₁, h₂, rfl⟩ := run_bind_iff.1 h
    obtain ⟨field, t₁, es₁, fs₁, hdeclare, hupdate, rfl⟩ := run_bind_iff.1 h₁
    obtain ⟨rfl, hd, -⟩ := f.declare_inv hn hdeclare
    obtain ⟨-, rfl⟩ := updateKind_eq_ok.1 (run_update_iff.1 hupdate).1
    have hk₁ := ((f.declare_adds structs scope).run (Enlarges.refl t) hdeclare).1.kind?_eq hk
    have hk₂ : (t₁.amend id (·.addStructField ⟨t.symbols.length⟩)).kind? id =
        some (.struct inner (ids ++ [⟨t.symbols.length⟩])) := by
      rw [kind?_amend, hk₁, Option.map_some, if_pos rfl]
      rfl
    have hd₂ : t.Declares (t₁.amend id (·.addStructField ⟨t.symbols.length⟩)) _ _ _ :=
      hd.trans_nothing (declares_addStructField t₁ id _)
    have hrest := ih hk₂ (hd₂.named hn) h₂
    rwa [hd₂.length, List.append_assoc, List.singleton_append, List.length_singleton,
      ← symbolsFrom_succ, ← List.length_cons] at hrest

theorem StructDecl.declare_kind {structs : List String} {outer : ScopeId} {s : StructDecl}
    {t t' : Table} {id : SymbolId} {ds : List Diagnostic} (hn : t.Named)
    (h : (s.declare structs outer).run t = .ok ⟨id, t', ds⟩) :
    t'.kind? ⟨t.symbols.length⟩ = some (s.kind t.symbols.length ⟨t.scopes.length⟩) := by
  obtain ⟨_, t₁, es₁, fs₁, h₁, k₁, rfl⟩ := run_bind_iff.1 h
  obtain ⟨rfl, rfl⟩ := run_checkName_iff.1 h₁
  obtain ⟨_, t₂, es₂, fs₂, h₂, k₂, rfl⟩ := run_bind_iff.1 k₁
  obtain ⟨rfl, rfl⟩ := run_checkUntaken hn h₂
  obtain ⟨owner, t₃, es₃, fs₃, h₃, k₃, rfl⟩ := run_bind_iff.1 k₂
  obtain ⟨rfl, rfl, hkind, hd₃⟩ :=
    declareOwner_inv (fun _ => rfl) (fun _ => rfl) (fun _ => rfl) (fun _ => rfl) h₃
  obtain ⟨_, t₄, es₄, fs₄, h₄, h₅, rfl⟩ := run_bind_iff.1 k₃
  obtain ⟨rfl, rfl, rfl⟩ := run_pure_iff.1 h₅
  have hfields := declareFields_struct hkind (hd₃.named hn) h₄
  rwa [hd₃.length, List.nil_append] at hfields

/-! ### The record of the contract -/

namespace Table

/-- The record of the contract, if there is one. -/
def contractAt (t : Table) : Option ContractRecord :=
  t.contract.bind fun id => (t.kind? id).bind (·.contract?)

variable {t t' : Table} {r : ContractRecord}

theorem contractRecord?_eq (h : t.contractAt = some r) : t.contractRecord? = .ok (some r) := by
  obtain ⟨id, hid, h⟩ := Option.bind_eq_some_iff.1 h
  obtain ⟨k, hk, hr⟩ := Option.bind_eq_some_iff.1 h
  rw [contractRecord?, hid]
  simp only [kindOf_eq_ok.2 hk, Except.map, hr]

theorem Enlarges.contractAt_eq (h : t.Enlarges t') (hr : t.contractAt = some r) :
    t'.contractAt = some r := by
  obtain ⟨id, hid, hr⟩ := Option.bind_eq_some_iff.1 hr
  obtain ⟨k, hk, hr⟩ := Option.bind_eq_some_iff.1 hr
  rw [contractAt, h.contract, hid, Option.bind_some, h.kind?_eq hk]
  exact hr

theorem contractAt_updated {g : ContractRecord → ContractRecord} (hr : t.contractAt = some r)
    (h : t.updateContract g = .ok t') : t'.contractAt = some (g r) := by
  obtain ⟨id, hid, hr⟩ := Option.bind_eq_some_iff.1 hr
  obtain ⟨k, hk, hr⟩ := Option.bind_eq_some_iff.1 hr
  rw [updateContract, hid] at h
  obtain ⟨-, rfl⟩ := updateKind_eq_ok.1 h
  have hkind : (t.amend id (·.mapContract g)).kind? id = some (k.mapContract g) := by
    rw [kind?_amend, hk, Option.map_some, if_pos rfl]
  have hcontract : (t.amend id (·.mapContract g)).contract = some id := hid
  rw [contractAt, hcontract, Option.bind_some, hkind]
  cases k with
  | contract info =>
    cases hr
    rfl
  | _ => cases hr

end Table

/-- Members that are declared one after the other and entered in the contract's record. -/
theorem enterMembers_record {α : Type} {outer : ScopeId} (declare : α → Pass SymbolId)
    (enter : α → SymbolId → ContractRecord → ContractRecord) (size : α → Nat)
    (hadds : ∀ b x, Adds b b.New (declare x))
    (henter : ∀ x id r, (enter x id r).inner = r.inner)
    (hstep : ∀ x t id t' ds, t.Named → t.HoldsScope outer → (declare x).run t = .ok ⟨id, t', ds⟩ →
      id = ⟨t.symbols.length⟩ ∧ ∃ decls opened shown, t.Declares t' decls opened shown ∧
        decls.length = size x)
    {xs : List α} {t t' : Table} {u : Unit} {ds : List Diagnostic} {r : ContractRecord}
    (hn : t.Named) (ho : t.HoldsScope outer) (hr : t.contractAt = some r)
    (h : (xs.forM fun x => do
      let id ← declare x
      update (·.updateContract (enter x id))).run t = .ok ⟨u, t', ds⟩) (k : Nat) :
    t'.contractAt = some ((placements size k t.symbols.length xs).foldl
      (fun r p => enter p.member ⟨p.symbol⟩ r) r) := by
  induction xs generalizing t r ds k with
  | nil =>
    obtain ⟨-, rfl, -⟩ := run_pure_iff.1 h
    exact hr
  | cons x rest ih =>
    obtain ⟨_, t₂, es, fs, h₁, h₂, rfl⟩ := run_bind_iff.1 h
    obtain ⟨id, t₁, es₁, fs₁, hdeclare, hupdate, rfl⟩ := run_bind_iff.1 h₁
    obtain ⟨rfl, decls, opened, shown, hd, hsize⟩ := hstep x t _ t₁ es₁ hn ho hdeclare
    have hentered := (run_update_iff.1 hupdate).1
    have hd₂ := hd.trans_nothing (updateContract_inv hentered (henter x _))
    have hlarger := ((hadds t x).run (Enlarges.refl t) hdeclare).1
    have hr₂ := contractAt_updated (hlarger.contractAt_eq hr) hentered
    have hsymbols : t₂.symbols.length = t.symbols.length + size x := by rw [hd₂.length, hsize]
    have hrest := ih (hd₂.named hn) (hd₂.holdsScope ho) hr₂ h₂ (k + 1)
    rw [hsymbols] at hrest
    exact hrest

/-! ### What the contract's record holds -/

theorem placements_one {α : Type} (k n : Nat) (xs : List α) :
    ((placements (fun _ => 1) k n xs).map fun p => SymbolId.mk p.symbol) =
      symbolsFrom n xs.length := by
  induction xs generalizing k n with
  | nil => rfl
  | cons x xs ih => rw [placements, List.map_cons, ih, List.length_cons, symbolsFrom_succ]

theorem foldl_addField {α : Type} (ps : List (Placement α)) (r : ContractRecord) :
    ps.foldl (fun r p => r.addField ⟨p.symbol⟩) r =
      { r with fields := r.fields ++ ps.map (⟨·.symbol⟩) } := by
  induction ps generalizing r with
  | nil => simp
  | cons p ps ih =>
    rw [List.foldl_cons, ih]
    simp [ContractRecord.addField]

theorem foldl_addStruct {α : Type} (ps : List (Placement α)) (r : ContractRecord) :
    ps.foldl (fun r p => r.addStruct ⟨p.symbol⟩) r =
      { r with structs := r.structs ++ ps.map (⟨·.symbol⟩) } := by
  induction ps generalizing r with
  | nil => simp
  | cons p ps ih =>
    rw [List.foldl_cons, ih]
    simp [ContractRecord.addStruct]

theorem foldl_addFunction (fs : List FunctionDecl) (k n : Nat) (r : ContractRecord) :
    (placements Callable.size k n (fs.map FunctionDecl.callable)).foldl
        (fun r p => r.addCallable p.member.name.isNone ⟨p.symbol⟩) r =
      { r with functions := r.functions ++
        (placements Callable.size k n (fs.map FunctionDecl.callable)).map (⟨·.symbol⟩) } := by
  induction fs generalizing k n r with
  | nil => simp [placements]
  | cons f fs ih =>
    rw [List.map_cons, placements, List.foldl_cons, ih]
    simp [FunctionDecl.callable, ContractRecord.addCallable]

/-- The callables in the order in which they are declared. -/
def ContractRecord.callables (r : ContractRecord) : List SymbolId := r.ctor.toList ++ r.functions

namespace ContractDecl

def callableSymbols (c : ContractDecl) : List SymbolId := c.callablePlaces.map (⟨·.symbol⟩)

/-- The record of the contract when all is declared. -/
def record (c : ContractDecl) : ContractRecord where
  inner := .members
  fields := symbolsFrom 11 c.fields.length
  structs := c.structPlaces.map (⟨·.symbol⟩)
  ctor := c.ctor.bind fun _ => c.callableSymbols.head?
  functions := c.callableSymbols.drop c.ctor.toList.length

theorem callables_record (c : ContractDecl) : c.record.callables = c.callableSymbols := by
  unfold ContractRecord.callables record
  cases hctor : c.ctor with
  | none => rfl
  | some f => simp [callableSymbols, callablePlaces, callables, hctor, placements]

theorem foldl_addCallable (c : ContractDecl) (r : ContractRecord) (hctor : r.ctor = none)
    (hfunctions : r.functions = []) :
    c.callablePlaces.foldl (fun r p => r.addCallable p.member.name.isNone ⟨p.symbol⟩) r =
      { r with ctor := c.record.ctor, functions := c.record.functions } := by
  simp only [record, callableSymbols, callablePlaces, callables]
  cases c.ctor with
  | none => simp [foldl_addFunction, hctor, hfunctions]
  | some f =>
    rw [Option.toList_some, List.map_singleton, List.singleton_append, placements, List.foldl_cons,
      foldl_addFunction]
    simp [ContractRecord.addCallable, ConstructorDecl.callable, hfunctions]

variable {c : ContractDecl} {t : Table} {u : Unit} {ds : List Diagnostic}

/-- What is known of the tables before the struct types and before the callables. -/
theorem declare_stages (h : c.declare.run .initial = .ok ⟨u, t, ds⟩) : ∃ t₁ t₂ ds₂ ds₃,
    (t₁.Named ∧ t₁.HoldsScope .members ∧ t₁.scopes.length = 2 ∧
      t₁.symbols.length = 11 + c.fields.length ∧
      t₁.contractAt = some ⟨.members, symbolsFrom 11 c.fields.length, [], none, []⟩) ∧
    (c.structs.forM fun s => do
      let id ← s.declare c.structNames .members
      update (·.updateContract (·.addStruct id))).run t₁ = .ok ⟨(), t₂, ds₂⟩ ∧
    (t₂.Named ∧ t₂.HoldsScope .members ∧ t₂.scopes.length = 2 + c.structs.length ∧
      t₂.symbols.length = 11 + c.fields.length + c.structDecls.length) ∧
    (c.callables.forM fun f => do
      let id ← f.declare c.structNames .members
      update (·.updateContract (·.addCallable f.name.isNone id))).run t₂ = .ok ⟨u, t, ds₃⟩ := by
  obtain ⟨t₀, t₁, t₂, _, ds₂, ds₃, hd₀, hk₀, h₁, h₂, h₃, -⟩ := declare_steps h
  have hn₀ : t₀.Named := hd₀.named named_initial
  have ho₀ : t₀.HoldsScope .members := by
    rw [HoldsScope, hd₀.scopes_length]
    decide
  have hr₀ : t₀.contractAt = some ⟨.members, [], [], none, []⟩ := by
    rw [contractAt, hd₀.contract]
    exact Option.bind_eq_some_iff.2 ⟨_, rfl, Option.bind_eq_some_iff.2 ⟨_, hk₀, rfl⟩⟩
  have hr₁ := enterMembers_record (FieldDecl.declare [] .members) (fun _ id => (·.addField id))
    (fun _ => 1) (fun _ f => f.declare_adds ..) (fun _ _ _ => rfl)
    (fun f _ _ _ _ hn _ h => by
      obtain ⟨hid, hd, -⟩ := f.declare_inv hn h
      exact ⟨hid, _, _, _, hd, rfl⟩) hn₀ ho₀ hr₀ h₁ 0
  have hsymbols₀ : t₀.symbols.length = 11 := hd₀.length
  rw [hsymbols₀, foldl_addField, placements_one] at hr₁
  obtain ⟨hd₁, -⟩ := declareFields_inv (g := fun id t => t.updateContract (·.addField id))
    (fun _ _ _ hu => updateContract_inv hu fun _ => rfl) hn₀ h₁
  obtain ⟨hscopes₁, hsymbols₁⟩ := fields_lengths (hd₀.trans_nowhere hd₁)
  have hn₁ := hd₁.named hn₀
  have ho₁ := hd₁.holdsScope ho₀
  obtain ⟨hd₂, -⟩ := declareStructs_inv hn₁ ho₁ h₂
  refine ⟨t₁, t₂, ds₂, ds₃, ⟨hn₁, ho₁, hscopes₁, hsymbols₁, hr₁⟩, h₂,
    ⟨hd₂.named hn₁, hd₂.holdsScope ho₁, ?_, ?_⟩, h₃⟩
  · rw [hd₂.scopes_length, hscopes₁, List.length_map]
  · rw [hd₂.length, hscopes₁, hsymbols₁]
    rfl

theorem declare_record (h : c.declare.run .initial = .ok ⟨u, t, ds⟩) : t.contractAt = some c.record := by
  obtain ⟨t₁, t₂, _, _, ⟨hn₁, ho₁, -, hsymbols₁, hr₁⟩, h₂, ⟨hn₂, ho₂, -, hsymbols₂⟩, h₃⟩ :=
    declare_stages h
  have hr₂ := enterMembers_record (StructDecl.declare c.structNames .members)
    (fun _ id => (·.addStruct id)) StructDecl.size (fun _ s => s.declare_adds ..) (fun _ _ _ => rfl)
    (fun s _ _ _ _ hn ho h => by
      obtain ⟨hid, hd, -⟩ := s.declare_inv hn ho h
      exact ⟨hid, _, _, _, hd, s.length_decls ..⟩) hn₁ ho₁ hr₁ h₂ 2
  have hr₃ := enterMembers_record (Callable.declare c.structNames .members)
    (fun f id => (·.addCallable f.name.isNone id)) Callable.size (fun _ f => f.declare_adds ..)
    (fun f id r => r.inner_addCallable _ _)
    (fun f _ _ _ _ hn ho h => by
      obtain ⟨hid, hd, -⟩ := f.declare_inv hn ho h
      exact ⟨hid, _, _, _, hd, f.length_decls ..⟩) hn₂ ho₂ hr₂ h₃ (2 + c.structs.length)
  rw [hsymbols₁, hsymbols₂] at hr₃
  rw [hr₃, foldl_addStruct]
  exact congrArg some (c.foldl_addCallable _ rfl rfl)

/-- Each struct type has its fields, in order. -/
theorem declare_structs (h : c.declare.run .initial = .ok ⟨u, t, ds⟩) : ∀ p ∈ c.structPlaces,
    t.kind? ⟨p.symbol⟩ = some (p.member.kind p.symbol p.scope) := by
  obtain ⟨t₁, t₂, _, _, ⟨hn₁, ho₁, hscopes₁, hsymbols₁, -⟩, h₂, -, h₃⟩ := declare_stages h
  have hkinds := enterMembers_kinds (StructDecl.declare c.structNames .members)
    (fun _ id => (·.addStruct id)) StructDecl.size StructDecl.kind (fun s _ => s.declare_adds ..)
    (fun _ _ _ => rfl) (fun _ _ _ => rfl)
    (fun s _ _ _ _ hn ho h => by
      obtain ⟨-, hd, -⟩ := s.declare_inv hn ho h
      exact ⟨s.declare_kind hn h, _, _, _, hd, s.length_decls ..⟩) hn₁ ho₁ h₂
  rw [hscopes₁, hsymbols₁] at hkinds
  have hlater : t₂.KeepsKinds t := (keeps_forM (fun f : Callable => keeps_bind
    (keepsKinds_of_adds fun b => f.declare_adds c.structNames .members)
    fun _ => keepsKinds_updateContract _) c.callables).leads ⟨_, h₃⟩
  exact fun p hp => hlater _ _ (hkinds p hp) rfl

/-- Each callable has its parameters and locals, in order. -/
theorem declare_records (h : c.declare.run .initial = .ok ⟨u, t, ds⟩) : ∀ p ∈ c.callablePlaces,
    t.functionAt ⟨p.symbol⟩ = some (p.member.record p.symbol p.scope) := by
  obtain ⟨_, t₂, _, _, -, -, ⟨hn₂, ho₂, hscopes₂, hsymbols₂⟩, h₃⟩ := declare_stages h
  have hkinds := enterMembers_kinds (Callable.declare c.structNames .members)
    (fun f id => (·.addCallable f.name.isNone id)) Callable.size
    (fun n i f => .function (f.record n i)) (fun f _ => f.declare_adds ..)
    (fun f id r => r.inner_addCallable _ _) (fun _ _ _ => rfl)
    (fun f _ _ _ _ hn ho h => by
      obtain ⟨-, hd, hrecord, -⟩ := f.declare_inv hn ho h
      exact ⟨kind?_of_functionAt hrecord, _, _, _, hd, f.length_decls ..⟩) hn₂ ho₂ h₃
  rw [hscopes₂, hsymbols₂] at hkinds
  intro p hp
  rw [functionAt, hkinds p hp]
  rfl

end ContractDecl

end ContractLang
