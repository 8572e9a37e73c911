import ContractLang.Proofs.Declaring
import ContractLang.Proofs.Frames
/-!
Nothing is taken back. Declaring symbols leaves every symbol there was as it is and only appends to
the scopes; with what the later phases leave alone it follows that, from any table that can be
reached, no phase loses a symbol or a scope, and each touches only its own part of the table.
-/
namespace ContractLang

namespace Table

/-- The second table goes on from the first: symbols and scopes are added after those there were,
and the declarations of a scope may have become more. -/
structure Enlarges (b t : Table) : Prop where
  symbols : b.symbols <+: t.symbols
  scopes : ∀ (i : Nat) (s : Scope), b.scopes[i]? = some s →
    ∃ ds, t.scopes[i]? = some { s with declarations := s.declarations ++ ds }
  names : b.names <+: t.names
  contract : t.contract = b.contract
  arrays : t.arrays = b.arrays
  maps : t.maps = b.maps
  declared : b.declared.KeepsKeys t.declared
  nodes : b.nodes.KeepsKeys t.nodes
  bindings : t.bindings = b.bindings
  types : t.types = b.types

/-- Not a symbol of this table, but possibly one of a table that goes on from it. -/
def New (b : Table) (id : SymbolId) : Prop := b.symbols.length ≤ id.index

def NewScope (b : Table) (id : ScopeId) : Prop := b.scopes.length ≤ id.index

namespace Enlarges
variable {b t : Table}

theorem refl (t : Table) : t.Enlarges t where
  symbols := List.prefix_refl _
  scopes _ s hs := ⟨[], by rw [List.append_nil, hs]⟩
  names := List.prefix_refl _
  contract := rfl
  arrays := rfl
  maps := rfl
  declared := .refl _
  nodes := .refl _
  bindings := rfl
  types := rfl

theorem new (h : b.Enlarges t) : b.New ⟨t.symbols.length⟩ := h.symbols.length_le

theorem newScope (h : b.Enlarges t) : b.NewScope ⟨t.scopes.length⟩ := by
  by_contra hlt
  obtain ⟨ds, hds⟩ := h.scopes t.scopes.length _ (List.getElem?_eq_getElem (Nat.not_le.1 hlt))
  exact absurd (List.getElem?_eq_some_iff.1 hds).1 (Nat.lt_irrefl _)

theorem enter (h : b.Enlarges t) (node : Node) (name : String) (scope : ScopeId)
    (kind : SymbolKind) : b.Enlarges (t.enter node name scope kind) where
  symbols := h.symbols.trans (List.prefix_append ..)
  scopes i s hs := by
    obtain ⟨ds, hds⟩ := h.scopes i s hs
    have hget : (t.enter node name scope kind).scopes[i]? =
        (t.scopes.modify scope.index (·.add name ⟨t.symbols.length⟩))[i]? := rfl
    by_cases hi : scope.index = i
    · refine ⟨ds ++ [(name, ⟨t.symbols.length⟩)], ?_⟩
      rw [hget, hi, List.getElem?_modify_eq, hds, ← List.append_assoc]
      rfl
    · refine ⟨ds, ?_⟩
      rw [hget, List.getElem?_modify_ne _ _ hi, hds]
  names := h.names.trans (prefix_mention ..)
  contract := h.contract
  arrays := h.arrays
  maps := h.maps
  declared := h.declared.trans (Assoc.keepsKeys_insert t.declared node.id ⟨t.symbols.length⟩)
  nodes := h.nodes.trans (Assoc.keepsKeys_insert t.nodes ⟨t.symbols.length⟩ node.id)
  bindings := h.bindings
  types := h.types

theorem addScope (h : b.Enlarges t) (kind : ScopeKind) (parent : Option ScopeId) :
    b.Enlarges (t.addScope kind parent).2 :=
  { h with
    scopes := by
      intro i s hs
      obtain ⟨ds, hds⟩ := h.scopes i s hs
      refine ⟨ds, ?_⟩
      rw [← hds]
      exact List.getElem?_append_left (List.getElem?_eq_some_iff.1 hds).1 }

theorem setOwner (h : b.Enlarges t) {id : ScopeId} (hid : b.NewScope id) (owner : SymbolId) :
    b.Enlarges { t with scopes := t.scopes.modify id.index fun s => { s with owner := some owner } } :=
  { h with
    scopes := by
      intro i s hs
      obtain ⟨ds, hds⟩ := h.scopes i s hs
      refine ⟨ds, ?_⟩
      have hne : id.index ≠ i := by
        have hlt := (List.getElem?_eq_some_iff.1 hs).1
        have hle : b.scopes.length ≤ id.index := hid
        omega
      exact (List.getElem?_modify_ne _ _ hne).trans hds }

theorem amend (h : b.Enlarges t) {id : SymbolId} (hid : b.New id) (f : SymbolKind → SymbolKind) :
    b.Enlarges (t.amend id f) :=
  { h with
    symbols := by
      rw [List.prefix_iff_getElem?]
      intro i hi
      have hne : id.index ≠ i := by
        have hle : b.symbols.length ≤ id.index := hid
        omega
      exact (List.getElem?_modify_ne _ _ hne).trans (List.prefix_iff_getElem?.1 h.symbols i hi) }

theorem setContract (h : b.Enlarges t) (id : SymbolId) :
    (b.setContract id).Enlarges (t.setContract id) := { h with contract := rfl }

end Enlarges
end Table

namespace Pass
variable {α β : Type} {b : Table} {Q : α → Prop}

/-- From a table that goes on from `b` the step leads to such a table again, with a value as
described, and all that it reports is about declarations. -/
structure Adds (b : Table) (Q : α → Prop) (x : Pass α) : Prop where
  run : ∀ {t a t' ds}, b.Enlarges t → x.run t = .ok ⟨a, t', ds⟩ →
    b.Enlarges t' ∧ Q a ∧ ∀ d ∈ ds, d.cause.category = .declaration

namespace Adds
variable {x : Pass α} {t t' : Table} {a : α}

theorem leads (hx : Adds b Q x) (ht : b.Enlarges t) (h : x.Leads t a t') : b.Enlarges t' ∧ Q a := by
  obtain ⟨ds, hrun⟩ := h
  exact ⟨(hx.run ht hrun).1, (hx.run ht hrun).2.1⟩

end Adds

theorem adds_pure {a : α} (h : Q a) : Adds b Q (pure a) where
  run ht hrun := by
    obtain ⟨rfl, rfl, rfl⟩ := run_pure_iff.1 hrun
    exact ⟨ht, h, by simp⟩

theorem adds_bind {x : Pass α} {f : α → Pass β} {P : β → Prop} (hx : Adds b Q x)
    (hf : ∀ a, Q a → Adds b P (f a)) : Adds b P (x >>= f) where
  run ht hrun := by
    obtain ⟨a, s, es, fs, h₁, h₂, rfl⟩ := run_bind_iff.1 hrun
    obtain ⟨hs, ha, hes⟩ := hx.run ht h₁
    obtain ⟨ht', hb, hfs⟩ := (hf a ha).run hs h₂
    exact ⟨ht', hb, List.forall_mem_append.2 ⟨hes, hfs⟩⟩

/-- A step that leaves the table alone. -/
theorem adds_of_keeps {x : Pass α} (hx : Keeps Eq x .declaration) : Adds b (fun _ => True) x where
  run ht hrun := by
    obtain ⟨rfl, hds⟩ := hx.run hrun
    exact ⟨ht, trivial, hds⟩

theorem adds_forM {f : α → Pass Unit} (xs : List α) (h : ∀ x ∈ xs, Adds b (fun _ => True) (f x)) :
    Adds b (fun _ => True) (xs.forM f) := by
  induction xs with
  | nil => exact adds_pure trivial
  | cons x rest ih =>
    apply adds_bind (h x (.head _))
    intro _ _
    exact ih fun y hy => h y (.tail _ hy)

theorem adds_updateKind {id : SymbolId} (hid : b.New id) (f : SymbolKind → SymbolKind) :
    Adds b (fun _ => True) (update (·.updateKind id f)) where
  run ht hrun := by
    obtain ⟨hupdate, rfl⟩ := run_update_iff.1 hrun
    obtain ⟨-, rfl⟩ := Table.updateKind_eq_ok.1 hupdate
    exact ⟨ht.amend hid f, trivial, by simp⟩

/-- The contract's record may be written to if the contract is new. -/
theorem adds_updateContract {id : SymbolId} (hid : b.New id) (hb : b.contract = some id)
    (f : ContractRecord → ContractRecord) : Adds b (fun _ => True) (update (·.updateContract f)) where
  run {t _ _ _} ht hrun := by
    have hc : t.contract = some id := ht.contract.trans hb
    obtain ⟨hupdate, rfl⟩ := run_update_iff.1 hrun
    simp only [Table.updateContract, hc] at hupdate
    obtain ⟨-, rfl⟩ := Table.updateKind_eq_ok.1 hupdate
    exact ⟨ht.amend hid _, trivial, by simp⟩

theorem adds_checkName (structs : List String) (name : String) (span : Span) :
    Adds b (fun _ => True) (checkName structs name span) :=
  adds_of_keeps (checkName_still ..)

theorem adds_checkUntaken (scope : ScopeId) (name : String) (span : Span) :
    Adds b (fun _ => True) (checkUntaken scope name span) :=
  adds_of_keeps (checkUntaken_still ..)

theorem adds_declareNode (scope : ScopeId) (name : String) (node : Node) (kind : SymbolKind) :
    Adds b b.New (declareNode scope name node kind) where
  run ht hrun := by
    obtain ⟨-, rfl, rfl, rfl⟩ := run_declareNode_iff.1 hrun
    exact ⟨ht.enter .., ht.new, by simp⟩

theorem adds_declareOwner (outer : ScopeId) (name : String) (node : Node) (scopeKind : ScopeKind)
    (kind : ScopeId → SymbolKind) :
    Adds b (fun owner => b.New owner.symbol) (declareOwner outer name node scopeKind kind) where
  run ht hrun := by
    obtain ⟨inner, t₁, _, _, hscope, hrun₁, rfl⟩ := run_bind_iff.1 hrun
    obtain ⟨hadd, rfl⟩ := run_state_iff.1 hscope
    cases hadd
    obtain ⟨id, t₂, es, fs, hnode, hrun₂, rfl⟩ := run_bind_iff.1 hrun₁
    obtain ⟨ht₂, hid, hds⟩ := (adds_declareNode ..).run (ht.addScope scopeKind (some outer)) hnode
    obtain ⟨_, t₃, _, _, howner, hrun₃, rfl⟩ := run_bind_iff.1 hrun₂
    obtain ⟨hset, rfl⟩ := run_update_iff.1 howner
    obtain ⟨-, rfl⟩ := Table.updateScope_eq_ok.1 hset
    obtain ⟨rfl, rfl, rfl⟩ := run_pure_iff.1 hrun₃
    exact ⟨ht₂.setOwner ht.newScope id, hid, by simpa using hds⟩

end Pass

open Pass

/-! ### Declaring symbols -/

section
variable {b : Table}

theorem FieldDecl.declare_adds (structs : List String) (scope : ScopeId) (f : FieldDecl) :
    Adds b b.New (f.declare structs scope) := by
  apply adds_bind (adds_checkName ..)
  intro _ _
  apply adds_bind (adds_checkUntaken ..)
  intro _ _
  exact adds_declareNode ..

theorem StructDecl.declare_adds (structs : List String) (outer : ScopeId) (s : StructDecl) :
    Adds b b.New (s.declare structs outer) := by
  apply adds_bind (adds_checkName ..)
  intro _ _
  apply adds_bind (adds_checkUntaken ..)
  intro _ _
  apply adds_bind (adds_declareOwner ..)
  intro owner howner
  have hfields : Adds b (fun _ => True) (s.fields.forM fun f => do
      let field ← f.declare structs owner.inner
      update (·.updateKind owner.symbol (·.addStructField field))) :=
    adds_forM _ fun f _ => adds_bind (f.declare_adds ..) fun _ _ => adds_updateKind howner _
  exact adds_bind hfields fun _ _ => adds_pure howner

theorem VarDecl.declareAsParam_adds {c : BodyContext} (hc : b.New c.function) (v : VarDecl) :
    Adds b (fun _ => True) (v.declareAsParam c) := by
  apply adds_bind (adds_checkName ..)
  intro _ _
  apply adds_bind (adds_checkUntaken ..)
  intro _ _
  exact adds_bind (adds_declareNode ..) fun _ _ => adds_updateKind hc _

theorem VarDecl.declareAsLocal_adds {c : BodyContext} (hc : b.New c.function)
    (reach : List SymbolId) (v : VarDecl) : Adds b b.New (v.declareAsLocal c reach) := by
  apply adds_bind (adds_checkName ..)
  intro _ _
  apply adds_bind (adds_of_keeps (keeps_query _))
  intro taken _
  apply adds_bind (adds_of_keeps (keeps_reportIf ..))
  intro _ _
  apply adds_bind (adds_declareNode ..)
  intro id hid
  exact adds_bind (adds_updateKind hc _) fun _ _ => adds_pure hid

theorem declareLocals_adds {c : BodyContext} (hc : b.New c.function) (vars : List VarDecl)
    {reach : List SymbolId} (hreach : ∀ id ∈ reach, b.New id) :
    Adds b (fun reach => ∀ id ∈ reach, b.New id) (declareLocals c reach vars) := by
  induction vars generalizing reach with
  | nil => exact adds_pure hreach
  | cons v rest ih =>
    apply adds_bind (v.declareAsLocal_adds hc reach)
    intro id hid
    apply ih
    intro j hj
    rcases List.mem_append.1 hj with hj | hj
    · exact hreach j hj
    · rwa [List.mem_singleton.1 hj]

theorem showTo_adds (stmt : NodeId) {reach : List SymbolId} (hreach : ∀ id ∈ reach, b.New id) :
    Adds b (fun _ => True) (showTo stmt reach) :=
  adds_forM reach fun id hid => adds_updateKind (hreach id hid) _

mutual
theorem Stmt.declareLocals_adds {c : BodyContext} (hc : b.New c.function) (s : Stmt)
    {reach : List SymbolId} (hreach : ∀ id ∈ reach, b.New id) :
    Adds b (fun reach => ∀ id ∈ reach, b.New id) (s.declareLocals c reach) := by
  cases s with
  | declare node vars value =>
    rw [Stmt.declareLocals]
    exact ContractLang.declareLocals_adds hc vars hreach
  | branch node cond onTrue onFalse =>
    cases onFalse with
    | none =>
      rw [Stmt.declareLocals]
      exact adds_bind (declareLocalsIn_adds hc onTrue.stmts hreach) fun _ _ => adds_pure hreach
    | some onFalse =>
      rw [Stmt.declareLocals]
      apply adds_bind (declareLocalsIn_adds hc onTrue.stmts hreach)
      intro _ _
      exact adds_bind (declareLocalsIn_adds hc onFalse.stmts hreach) fun _ _ => adds_pure hreach
  | assign node targets value =>
    rw [Stmt.declareLocals]
    exact adds_pure hreach
  | assignAll node targets value =>
    rw [Stmt.declareLocals]
    exact adds_pure hreach
  | giveBack node values =>
    rw [Stmt.declareLocals]
    exact adds_pure hreach

theorem declareLocalsIn_adds {c : BodyContext} (hc : b.New c.function) (body : List Stmt)
    {reach : List SymbolId} (hreach : ∀ id ∈ reach, b.New id) :
    Adds b (fun _ => True) (declareLocalsIn c reach body) := by
  cases body with
  | nil =>
    rw [declareLocalsIn]
    exact adds_pure trivial
  | cons s rest =>
    rw [declareLocalsIn]
    apply adds_bind (showTo_adds s.id hreach)
    intro _ _
    apply adds_bind (s.declareLocals_adds hc hreach)
    intro reach' hreach'
    exact declareLocalsIn_adds hc rest hreach'
end

theorem Callable.declare_adds (structs : List String) (outer : ScopeId) (f : Callable) :
    Adds b b.New (f.declare structs outer) := by
  rw [f.declare_eq]
  apply adds_bind (adds_of_keeps (f.checkName_still outer))
  intro _ _
  apply adds_bind (adds_declareOwner ..)
  intro owner howner
  apply adds_bind (adds_forM _ fun v _ => v.declareAsParam_adds howner)
  intro _ _
  apply adds_bind (declareLocalsIn_adds howner f.body.stmts (by simp))
  intro _ _
  exact adds_pure howner

end

/-- The contract of a table that declares one is new, and so is all that is written to. -/
theorem ContractDecl.declare_enlarges (c : ContractDecl) :
    Keeps (fun t t' => ∃ id, t.New id ∧ (t.setContract id).Enlarges t') c.declare .declaration where
  run {t _ _ _} h := by
    obtain ⟨_, t₁, ds₁, _, hname, h₁, rfl⟩ := run_bind_iff.1 h
    obtain ⟨ht₁, -, hds₁⟩ := (adds_checkName ..).run (.refl t) hname
    obtain ⟨_, t₂, ds₂, _, huntaken, h₂, rfl⟩ := run_bind_iff.1 h₁
    obtain ⟨ht₂, -, hds₂⟩ := (adds_checkUntaken ..).run ht₁ huntaken
    obtain ⟨owner, t₃, ds₃, _, howner, h₃, rfl⟩ := run_bind_iff.1 h₂
    obtain ⟨ht₃, hnew, hds₃⟩ := (adds_declareOwner ..).run ht₂ howner
    obtain ⟨_, t₄, _, ds₄, hcontract, h₄, rfl⟩ := run_bind_iff.1 h₃
    obtain ⟨rfl, rfl⟩ := run_adjust_iff.1 hcontract
    have hnew' : (t.setContract owner.symbol).New owner.symbol := hnew
    -- From here on what has been there before and the contract's own symbol are told apart.
    have hmembers : Adds (t.setContract owner.symbol) (fun _ => True) (do
        c.fields.forM fun f => do
          let id ← f.declare [] owner.inner
          update (·.updateContract (·.addField id))
        c.structs.forM fun s => do
          let id ← s.declare (c.structs.map (·.name.text)) owner.inner
          update (·.updateContract (·.addStruct id))
        c.callables.forM fun f => do
          let id ← f.declare (c.structs.map (·.name.text)) owner.inner
          update (·.updateContract (·.addCallable f.name.isNone id))) := by
      apply adds_bind
        (adds_forM _ fun f _ => adds_bind (f.declare_adds ..) fun _ _ => adds_updateContract hnew' rfl _)
      intro _ _
      apply adds_bind
        (adds_forM _ fun s _ => adds_bind (s.declare_adds ..) fun _ _ => adds_updateContract hnew' rfl _)
      intro _ _
      exact adds_forM _ fun f _ =>
        adds_bind (f.declare_adds ..) fun _ _ => adds_updateContract hnew' rfl _
    obtain ⟨ht', -, hds₄⟩ := hmembers.run (ht₃.setContract owner.symbol) h₄
    refine ⟨⟨owner.symbol, hnew, ht'⟩, ?_⟩
    simp only [List.nil_append, List.forall_mem_append]
    exact ⟨hds₁, hds₂, hds₃, hds₄⟩

/-! ### All phases -/

theorem SymbolKind.Retyped.ctorIdx_eq {k k' : SymbolKind} (h : k.Retyped k') :
    k'.ctorIdx = k.ctorIdx := by
  cases h <;> rfl

namespace Table

/-- Every symbol and every scope is still there. Of a symbol only the contents of its kind may have
changed, and of a scope there may be more declarations after the old ones. -/
structure Persists (t t' : Table) : Prop where
  symbols : ∀ (i : Nat) (s : Symbol), t.symbols[i]? = some s →
    ∃ k, t'.symbols[i]? = some { s with kind := k } ∧ k.ctorIdx = s.kind.ctorIdx
  scopes : ∀ (i : Nat) (s : Scope), t.scopes[i]? = some s →
    ∃ ds, t'.scopes[i]? = some { s with declarations := s.declarations ++ ds }

variable {t t' : Table}

theorem persists_of_eq (hsymbols : t'.symbols = t.symbols) (hscopes : t'.scopes = t.scopes) :
    t.Persists t' where
  symbols i s hs := ⟨s.kind, by rw [hsymbols, hs], rfl⟩
  scopes i s hs := ⟨[], by rw [hscopes, hs, List.append_nil]⟩

theorem Enlarges.persists (h : t.Enlarges t') : t.Persists t' where
  symbols i s hs := by
    obtain ⟨hi, rfl⟩ := List.getElem?_eq_some_iff.1 hs
    exact ⟨_, List.prefix_iff_getElem?.1 h.symbols i hi, rfl⟩
  scopes := h.scopes

theorem Retypes.persists (h : t.Retypes t') : t.Persists t' where
  symbols i s hs := by
    obtain ⟨k, hk, hretyped⟩ := h.old i s hs
    exact ⟨k, hk, hretyped.ctorIdx_eq⟩
  scopes i s hs := ⟨[], by rw [h.scopes, hs, List.append_nil]⟩

theorem NotesUses.persists (h : t.NotesUses t') : t.Persists t' :=
  persists_of_eq (by rw [h.rest]; rfl) (by rw [h.rest]; rfl)

theorem NotesTypes.persists (h : t.NotesTypes t') : t.Persists t' :=
  persists_of_eq (by rw [h.rest]; rfl) (by rw [h.rest]; rfl)

/-- No scope lists a symbol that has come in between the two tables. -/
def ListsNothingNew (t t' : Table) : Prop :=
  ∀ s ∈ t'.scopes, ∀ d ∈ s.declarations, ¬t.New d.2

theorem Retypes.listsNothingNew (h : t.Retypes t') (ht : t.Valid) : t.ListsNothingNew t' := by
  intro s hs d hd hnew
  rw [h.scopes] at hs
  obtain ⟨i, hi⟩ := List.getElem?_of_mem hs
  have hholds : d.2.index < t.symbols.length := (ht.declarations i s hi d hd).2.1.1
  exact absurd hnew (Nat.not_le.2 hholds)

theorem Valid.builtins_prefix (ht : t.Valid) : initial.symbols <+: t.symbols := by
  rw [List.prefix_iff_getElem?]
  intro i hi
  rw [ht.builtins i hi, List.getElem?_eq_getElem hi]

end Table

/-- What each phase may touch. Only the first may replace the contract, and it writes to nothing
that was there. -/
def Phase.Touches : Phase → Table → Table → Prop
  | symbolConstruction, t, t' => ∃ contract, { t with contract := contract }.Enlarges t'
  | typeResolution, t, t' => t.Retypes t' ∧ t.ListsNothingNew t'
  | designatorResolution, t, t' => t.NotesUses t'
  | typeChecking, t, t' => t.NotesTypes t'

theorem Program.declareSymbols_enlarges {p : Program} {t t' : Table}
    (h : p.declareSymbols.Leads t () t') : ∃ contract, { t with contract := contract }.Enlarges t' := by
  unfold Program.declareSymbols at h
  cases hp : p.contract with
  | none =>
    rw [hp] at h
    cases leads_report.1 h
    exact ⟨t.contract, .refl t⟩
  | some c =>
    rw [hp] at h
    obtain ⟨id, -, henlarges⟩ := c.declare_enlarges.leads h
    exact ⟨some id, henlarges⟩

theorem Phase.touches_of_leads {phase : Phase} {p : Program} {t t' : Table} (ht : t.Valid)
    (h : (phase.pass p).Leads t () t') : phase.Touches t t' := by
  cases phase with
  | symbolConstruction => exact p.declareSymbols_enlarges h
  | typeResolution =>
    have hretypes := p.resolveTypes_keeps.leads h
    exact ⟨hretypes, hretypes.listsNothingNew ht⟩
  | designatorResolution => exact p.bindNames_keeps.leads h
  | typeChecking => exact p.check_keeps.leads h

theorem Phase.Touches.persists {phase : Phase} {t t' : Table} (h : phase.Touches t t') :
    t.Persists t' := by
  cases phase with
  | symbolConstruction =>
    obtain ⟨contract, h⟩ := h
    exact ⟨h.persists.symbols, h.persists.scopes⟩
  | typeResolution => exact h.1.persists
  | designatorResolution => exact Table.NotesUses.persists h
  | typeChecking => exact Table.NotesTypes.persists h

/-- From whatever table phases lead to, the next phase leads to one in which all symbols and scopes
are still there and the built-in symbols are as they were at first, and it touches no more than its
own part. -/
theorem phase_persists (steps : List (Phase × Program)) (phase : Phase) (p : Program) :
    ∃ o u, (runAll steps).run .initial = .ok o ∧ (phase.pass p).run o.table = .ok u ∧
      o.table.Persists u.table ∧ Table.initial.symbols <+: u.table.symbols ∧
      phase.Touches o.table u.table := by
  obtain ⟨_, t, ⟨ds, hrun⟩, ht, -, -⟩ := runAll_safe Table.valid_initial steps
  obtain ⟨_, t', ⟨ds', hrun'⟩, ht', -, -⟩ := phase.pass_safe ht p
  have htouches : phase.Touches t t' := Phase.touches_of_leads ht ⟨ds', hrun'⟩
  exact ⟨_, _, hrun, hrun', htouches.persists, ht'.builtins_prefix, htouches⟩

end ContractLang
