import ContractLang.Proofs.Persistence
import ContractLang.Proofs.Spelling
/-!
Types are printed as they are written. Scopes list a symbol under its own name, an array or a map
type is named for its components, and no phase renames a symbol; so the symbol that is found for a
written type is called what was written, then and ever after.
-/
namespace ContractLang

open Pass Table

namespace Table

/-- Scopes list symbols under their own names. -/
def Labelled (t : Table) : Prop :=
  ∀ s ∈ t.scopes, ∀ d ∈ s.declarations, t.nameOf d.2 = .ok d.1

/-- No symbol is renamed, and what is listed anew is listed under its own name. -/
structure Relabels (t t' : Table) : Prop where
  names : t.KeepsNames t'
  labelled : t.Labelled → t'.Labelled

instance : IsPreorder Table Relabels where
  refl _ := ⟨fun _ _ h => h, id⟩
  trans _ _ _ h₁ h₂ :=
    ⟨fun id name h => h₂.names id name (h₁.names id name h), h₂.labelled ∘ h₁.labelled⟩

variable {t t' : Table}

theorem labelled_initial : initial.Labelled := by
  unfold Labelled
  decide

theorem Persists.keepsNames (h : t.Persists t') : t.KeepsNames t' := by
  intro id name hid
  obtain ⟨s, hs, rfl⟩ := nameOf_eq_ok.1 hid
  obtain ⟨k, hk, -⟩ := h.symbols _ s hs
  exact nameOf_eq_ok.2 ⟨_, hk, rfl⟩

/-- If no scope lists more than before, only the names of symbols matter. -/
theorem Persists.relabels (h : t.Persists t') (hscopes : t'.scopes = t.scopes) :
    t.Relabels t' where
  names := h.keepsNames
  labelled ht s hs d hd := by
    rw [hscopes] at hs
    exact h.keepsNames _ _ (ht s hs d hd)

end Table

/-! ### Declaring symbols -/

namespace Pass
variable {α : Type} {R : Table → Table → Prop}

/-- The relation is kept by each of the steps that change a table while symbols are declared. -/
structure KeptByDeclaring (R : Table → Table → Prop) : Prop where
  declareNode : ∀ scope name node kind, Keeps R (declareNode scope name node kind) .declaration
  addScope : ∀ kind parent, Keeps R (state fun t => .ok (t.addScope kind parent)) .declaration
  setOwner : ∀ scope owner, Keeps R (update (·.setOwner scope owner)) .declaration
  setContract : ∀ id, Keeps R (adjust (·.setContract id)) .declaration
  updateKind : ∀ id f, Keeps R (update (·.updateKind id f)) .declaration

section
variable [IsPreorder Table R]

/-- A step that leaves the table alone. -/
theorem Keeps.of_still {x : Pass α} {C : Category} (hx : Keeps Eq x C) : Keeps R x C where
  run h := by
    obtain ⟨rfl, hC⟩ := hx.run h
    exact ⟨refl_of R _, hC⟩

variable (hR : KeptByDeclaring R)
include hR

theorem KeptByDeclaring.updateContract (f : ContractRecord → ContractRecord) :
    Keeps R (update (·.updateContract f)) .declaration :=
  keeps_update fun {t t'} h => by
    unfold Table.updateContract at h
    cases hc : t.contract with
    | none =>
      rw [hc] at h
      cases h
      exact refl_of R t
    | some c =>
      rw [hc] at h
      exact (hR.updateKind c _).leads (a := ()) (leads_update.2 h)

theorem declareOwner_keeps (outer : ScopeId) (name : String) (node : Node) (scopeKind : ScopeKind)
    (kind : ScopeId → SymbolKind) :
    Keeps R (declareOwner outer name node scopeKind kind) .declaration := by
  apply keeps_bind (hR.addScope scopeKind (some outer))
  intro inner
  apply keeps_bind (hR.declareNode outer name node (kind inner))
  intro id
  exact keeps_bind (hR.setOwner inner id) fun _ => keeps_pure _

end
end Pass

section
variable {R : Table → Table → Prop} [IsPreorder Table R] (hR : KeptByDeclaring R)
include hR

theorem FieldDecl.declare_keeps (structs : List String) (scope : ScopeId) (f : FieldDecl) :
    Keeps R (f.declare structs scope) .declaration := by
  apply keeps_bind (checkName_still ..).of_still
  intro _
  apply keeps_bind (checkUntaken_still ..).of_still
  intro _
  exact hR.declareNode ..

theorem StructDecl.declare_keeps (structs : List String) (outer : ScopeId) (s : StructDecl) :
    Keeps R (s.declare structs outer) .declaration := by
  apply keeps_bind (checkName_still ..).of_still
  intro _
  apply keeps_bind (checkUntaken_still ..).of_still
  intro _
  apply keeps_bind (declareOwner_keeps hR ..)
  intro owner
  have hfields : Keeps R (s.fields.forM fun f => do
      let field ← f.declare structs owner.inner
      update (·.updateKind owner.symbol (·.addStructField field))) .declaration :=
    keeps_forM (fun f => keeps_bind (f.declare_keeps hR ..) fun _ => hR.updateKind ..) _
  exact keeps_bind hfields fun _ => keeps_pure _

theorem VarDecl.declareAsParam_keeps (c : BodyContext) (v : VarDecl) :
    Keeps R (v.declareAsParam c) .declaration := by
  apply keeps_bind (checkName_still ..).of_still
  intro _
  apply keeps_bind (checkUntaken_still ..).of_still
  intro _
  exact keeps_bind (hR.declareNode ..) fun _ => hR.updateKind ..

theorem VarDecl.declareAsLocal_keeps (c : BodyContext) (reach : List SymbolId) (v : VarDecl) :
    Keeps R (v.declareAsLocal c reach) .declaration := by
  apply keeps_bind (checkName_still ..).of_still
  intro _
  apply keeps_bind (keeps_query _)
  intro taken
  apply keeps_bind (keeps_reportIf ..)
  intro _
  apply keeps_bind (hR.declareNode ..)
  intro id
  exact keeps_bind (hR.updateKind ..) fun _ => keeps_pure id

theorem declareLocals_keeps (c : BodyContext) (vars : List VarDecl) (reach : List SymbolId) :
    Keeps R (declareLocals c reach vars) .declaration := by
  induction vars generalizing reach with
  | nil => exact keeps_pure reach
  | cons v rest ih => exact keeps_bind (v.declareAsLocal_keeps hR c reach) fun id => ih _

theorem showTo_keeps (stmt : NodeId) (reach : List SymbolId) :
    Keeps R (showTo stmt reach) .declaration :=
  keeps_forM (fun id => hR.updateKind id _) reach

mutual
theorem Stmt.declareLocals_keeps (c : BodyContext) (s : Stmt) (reach : List SymbolId) :
    Keeps R (s.declareLocals c reach) .declaration := by
  cases s with
  | declare node vars value =>
    rw [Stmt.declareLocals]
    exact ContractLang.declareLocals_keeps hR c vars reach
  | branch node cond onTrue onFalse =>
    cases onFalse with
    | none =>
      rw [Stmt.declareLocals]
      exact keeps_bind (declareLocalsIn_keeps c onTrue.stmts reach) fun _ => keeps_pure reach
    | some onFalse =>
      rw [Stmt.declareLocals]
      apply keeps_bind (declareLocalsIn_keeps c onTrue.stmts reach)
      intro _
      exact keeps_bind (declareLocalsIn_keeps c onFalse.stmts reach) fun _ => keeps_pure reach
  | assign node target value =>
    rw [Stmt.declareLocals]
    exact keeps_pure reach
  | assignAll node targets source =>
    rw [Stmt.declareLocals]
    exact keeps_pure reach
  | giveBack node values =>
    rw [Stmt.declareLocals]
    exact keeps_pure reach

theorem declareLocalsIn_keeps (c : BodyContext) (body : List Stmt) (reach : List SymbolId) :
    Keeps R (declareLocalsIn c reach body) .declaration := by
  cases body with
  | nil =>
    rw [declareLocalsIn]
    exact keeps_pure ()
  | cons s rest =>
    rw [declareLocalsIn]
    apply keeps_bind (showTo_keeps hR s.id reach)
    intro _
    apply keeps_bind (s.declareLocals_keeps c reach)
    intro reach'
    exact declareLocalsIn_keeps c rest reach'
end

theorem Callable.declare_keeps (structs : List String) (outer : ScopeId) (f : Callable) :
    Keeps R (f.declare structs outer) .declaration := by
  rw [f.declare_eq]
  apply keeps_bind (f.checkName_still outer).of_still
  intro _
  apply keeps_bind (declareOwner_keeps hR ..)
  intro owner
  apply keeps_bind (keeps_forM (fun v => v.declareAsParam_keeps hR _) f.params)
  intro _
  apply keeps_bind (declareLocalsIn_keeps hR _ f.body.stmts [])
  intro _
  exact keeps_pure _

theorem ContractDecl.declare_keeps (c : ContractDecl) : Keeps R c.declare .declaration := by
  apply keeps_bind (checkName_still ..).of_still
  intro _
  apply keeps_bind (checkUntaken_still ..).of_still
  intro _
  apply keeps_bind (declareOwner_keeps hR ..)
  intro owner
  apply keeps_bind (hR.setContract owner.symbol)
  intro _
  apply keeps_bind
    (keeps_forM (fun f => keeps_bind (f.declare_keeps hR ..) fun _ => hR.updateContract _) c.fields)
  intro _
  apply keeps_bind
    (keeps_forM (fun s => keeps_bind (s.declare_keeps hR ..) fun _ => hR.updateContract _) c.structs)
  intro _
  exact keeps_forM (fun f => keeps_bind (f.declare_keeps hR ..) fun _ => hR.updateContract _) _

end

/-! ### Names through the phases -/

namespace Table
variable {t t' : Table}

theorem nameOf_place (t : Table) (s : Symbol) :
    (t.place s).nameOf ⟨t.symbols.length⟩ = .ok s.name :=
  nameOf_eq_ok.2 ⟨s, by simp [place], rfl⟩

theorem keepsNames_place (t : Table) (s : Symbol) : t.KeepsNames (t.place s) := by
  intro id name hid
  obtain ⟨s', hs', rfl⟩ := nameOf_eq_ok.1 hid
  have hlt : id.index < t.symbols.length := (List.getElem?_eq_some_iff.1 hs').1
  exact nameOf_eq_ok.2 ⟨s', (List.getElem?_append_left hlt).trans hs', rfl⟩

theorem relabels_place (t : Table) (s : Symbol) : t.Relabels (t.place s) where
  names := t.keepsNames_place s
  labelled ht scope hscope d hd := by
    obtain ⟨i, hi⟩ := List.getElem?_of_mem hscope
    have hget : (t.scopes.modify s.scope.index (·.add s.name ⟨t.symbols.length⟩))[i]? = some scope := hi
    rw [List.getElem?_modify, Option.map_eq_map, Option.map_eq_some_iff] at hget
    obtain ⟨old, hold, hnew⟩ := hget
    have hlisted : ∀ d ∈ old.declarations, (t.place s).nameOf d.2 = .ok d.1 := fun d hd =>
      t.keepsNames_place s _ _ (ht old (List.mem_of_getElem? hold) d hd)
    by_cases his : s.scope.index = i
    · rw [if_pos his] at hnew
      subst hnew
      rcases List.mem_append.1 hd with hd | hd
      · exact hlisted d hd
      · rw [List.mem_singleton.1 hd]
        exact t.nameOf_place s
    · rw [if_neg his] at hnew
      subst hnew
      exact hlisted d hd

theorem relabels_modifyScope (t : Table) (i : Nat) {f : Scope → Scope}
    (hf : ∀ s, (f s).declarations = s.declarations) :
    t.Relabels { t with scopes := t.scopes.modify i f } where
  names _ _ h := h
  labelled ht scope hscope d hd := by
    obtain ⟨j, hj⟩ := List.getElem?_of_mem hscope
    rw [List.getElem?_modify, Option.map_eq_map, Option.map_eq_some_iff] at hj
    obtain ⟨old, hold, rfl⟩ := hj
    refine ht old (List.mem_of_getElem? hold) d ?_
    split at hd
    · rwa [hf] at hd
    · exact hd

theorem relabels_addScope (t : Table) (kind : ScopeKind) (parent : Option ScopeId) :
    t.Relabels (t.addScope kind parent).2 where
  names _ _ h := h
  labelled ht scope hscope d hd := by
    rcases List.mem_append.1 hscope with hscope | hscope
    · exact ht scope hscope d hd
    · rw [List.mem_singleton.1 hscope] at hd
      cases hd

theorem relabels_amend (t : Table) (id : SymbolId) (f : SymbolKind → SymbolKind) :
    t.Relabels (t.amend id f) := by
  have hnames : t.KeepsNames (t.amend id f) := by
    intro j name hj
    obtain ⟨s, hs, rfl⟩ := nameOf_eq_ok.1 hj
    refine nameOf_eq_ok.2 ⟨if id.index = j.index then { s with kind := f s.kind } else s, ?_, ?_⟩
    · simp only [amend, List.getElem?_modify, hs, Option.map_eq_map, Option.map_some]
    · split <;> rfl
  exact ⟨hnames, fun ht scope hscope d hd => hnames _ _ (ht scope hscope d hd)⟩

end Table

namespace Pass

theorem keptByDeclaring_relabels : KeptByDeclaring Relabels where
  declareNode scope name node kind :=
    ⟨fun {t _ _ _} h => by
      obtain ⟨-, -, rfl, rfl⟩ := run_declareNode_iff.1 h
      have hplace := t.relabels_place ⟨name, scope, node.span, kind⟩
      exact ⟨⟨hplace.names, hplace.labelled⟩, by simp⟩⟩
  addScope kind parent := keeps_state fun {t _ _} h => by
    cases h
    exact t.relabels_addScope kind parent
  setOwner scope owner := keeps_update fun {t _} h => by
    obtain ⟨-, rfl⟩ := updateScope_eq_ok.1 h
    exact t.relabels_modifyScope scope.index fun _ => rfl
  setContract id := keeps_adjust fun t => ⟨fun _ _ h => h, fun h => h⟩
  updateKind id f := keeps_update fun {t _} h => by
    obtain ⟨-, rfl⟩ := updateKind_eq_ok.1 h
    exact t.relabels_amend id f

end Pass

theorem Program.declareSymbols_relabels {p : Program} {t t' : Table}
    (h : p.declareSymbols.Leads t () t') : t.Relabels t' := by
  unfold Program.declareSymbols at h
  cases hp : p.contract with
  | none =>
    rw [hp] at h
    cases leads_report.1 h
    exact refl_of Relabels t
  | some c =>
    rw [hp] at h
    exact (c.declare_keeps keptByDeclaring_relabels).leads h

theorem Phase.relabels {phase : Phase} {p : Program} {t t' : Table}
    (h : (phase.pass p).Leads t () t') : t.Relabels t' := by
  cases phase with
  | symbolConstruction => exact p.declareSymbols_relabels h
  | typeResolution =>
    have hretypes := p.resolveTypes_keeps.leads h
    exact hretypes.persists.relabels hretypes.scopes
  | designatorResolution =>
    have hnotes := p.bindNames_keeps.leads h
    refine hnotes.persists.relabels ?_
    rw [hnotes.rest]
    rfl
  | typeChecking =>
    have hnotes := p.check_keeps.leads h
    refine hnotes.persists.relabels ?_
    rw [hnotes.rest]
    rfl

namespace Table
variable {t t' : Table}

/-- Array and map types are found by their components, so a table that finds no more of them than
another has no new ones. -/
theorem Valid.kind?_of_structural (ht : t.Valid) (ht' : t'.Valid) (harrays : t'.arrays = t.arrays)
    (hmaps : t'.maps = t.maps) {id : SymbolId} {k : SymbolKind} (hk : t'.kind? id = some k)
    (hstruct : k.IsStructural) : t.kind? id = some k := by
  cases k with
  | array e =>
    have hget : t'.arrays.get? e = some id := (ht'.arrays e id).2 hk
    rw [harrays] at hget
    exact (ht.arrays e id).1 hget
  | map key value =>
    have hget : t'.maps.get? (key, value) = some id := (ht'.maps (key, value) id).2 hk
    rw [hmaps] at hget
    exact (ht.maps (key, value) id).1 hget
  | _ => cases hstruct

theorem Spelled.of_same_types (hs : t.Spelled) (ht : t.Valid) (ht' : t'.Valid)
    (hnames : t.KeepsNames t') (harrays : t'.arrays = t.arrays) (hmaps : t'.maps = t.maps) :
    t'.Spelled := by
  intro s' hs'
  obtain ⟨i, hi⟩ := List.getElem?_of_mem hs'
  by_cases hstruct : s'.kind.IsStructural
  · have hkind' : t'.kind? ⟨i⟩ = some s'.kind := by rw [kind?, hi, Option.map_some]
    have hkind := ht.kind?_of_structural ht' harrays hmaps hkind' hstruct
    obtain ⟨s, hsi, hsk⟩ := Option.map_eq_some_iff.1 hkind
    obtain ⟨s'', hs'', hname⟩ := nameOf_eq_ok.1 (hnames ⟨i⟩ s.name (nameOf_eq_ok.2 ⟨s, hsi, rfl⟩))
    cases hi.symm.trans hs''
    rw [hname, ← hsk]
    exact hnames.spells (hs s (List.mem_of_getElem? hsi))
  · exact t'.spells_of_plain _ hstruct

/-- What makes the names of types readable. -/
structure Legible (t : Table) : Prop where
  valid : t.Valid
  labelled : t.Labelled
  spelled : t.Spelled

theorem legible_initial : initial.Legible where
  valid := valid_initial
  labelled := labelled_initial
  spelled := by
    intro s hs
    obtain ⟨i, hi⟩ := List.getElem?_of_mem hs
    have hkind : initial.kind? ⟨i⟩ = some s.kind := by rw [kind?, hi, Option.map_some]
    exact initial.spells_of_plain _ (plain_initial hkind)

end Table

theorem Phase.spelled {phase : Phase} {p : Program} {t t' : Table} (ht : t.Legible)
    (ht' : t'.Valid) (h : (phase.pass p).Leads t () t') : t'.Spelled := by
  have hnames := (Phase.relabels h).names
  cases phase with
  | symbolConstruction =>
    obtain ⟨contract, henlarges⟩ := p.declareSymbols_enlarges h
    exact ht.spelled.of_same_types ht.valid ht' hnames henlarges.arrays henlarges.maps
  | typeResolution =>
    obtain ⟨ds, hrun⟩ := h
    cases hp : p.contract with
    | none =>
      rw [pass, Program.resolveTypes, hp] at hrun
      obtain ⟨-, rfl, -⟩ := run_pure_iff.1 hrun
      exact ht.spelled
    | some c =>
      rw [pass, Program.resolveTypes, hp] at hrun
      exact c.resolveTypes_spelled ht.spelled hrun
  | designatorResolution =>
    have hrest := (p.bindNames_keeps.leads h).rest
    exact ht.spelled.of_same_types ht.valid ht' hnames (by rw [hrest]; rfl) (by rw [hrest]; rfl)
  | typeChecking =>
    have hrest := (p.check_keeps.leads h).rest
    exact ht.spelled.of_same_types ht.valid ht' hnames (by rw [hrest]; rfl) (by rw [hrest]; rfl)

theorem Phase.legible {t : Table} (ht : t.Legible) (phase : Phase) (p : Program) :
    ∃ t', (phase.pass p).Leads t () t' ∧ t'.Legible ∧ t.KeepsNames t' := by
  obtain ⟨_, t', h, ht', -, -⟩ := phase.pass_safe ht.valid p
  have hrelabels := Phase.relabels h
  exact ⟨t', h, ⟨ht', hrelabels.labelled ht.labelled, Phase.spelled ht ht' h⟩, hrelabels.names⟩

theorem runAll_legible {t : Table} (ht : t.Legible) (steps : List (Phase × Program)) :
    ∃ t', (runAll steps).Leads t () t' ∧ t'.Legible ∧ t.KeepsNames t' := by
  induction steps generalizing t with
  | nil => exact ⟨t, leads_pure.2 ⟨rfl, rfl⟩, ht, fun _ _ h => h⟩
  | cons step rest ih =>
    obtain ⟨t₁, h₁, ht₁, hnames₁⟩ := step.1.legible ht step.2
    obtain ⟨t₂, h₂, ht₂, hnames₂⟩ := ih ht₁
    refine ⟨t₂, leads_bind.2 ⟨(), t₁, h₁, h₂⟩, ht₂, ?_⟩
    exact fun id name h => hnames₂ id name (hnames₁ id name h)

/-! ### Written types -/

namespace Table
variable {t t' : Table}

/-- What a search finds, some scope lists under the name that was searched for. -/
theorem nearestWithin_listed {name : String} {fuel : Nat} {id : ScopeId} {found : List SymbolId}
    (h : t.nearestWithin name fuel id = .ok found) :
    ∀ j ∈ found, ∃ s ∈ t.scopes, (name, j) ∈ s.declarations := by
  induction fuel generalizing id with
  | zero =>
    cases h
    simp
  | succ fuel ih =>
    cases hs : t.scopes[id.index]? with
    | none => simp [nearestWithin, scope, hs] at h
    | some s =>
      rw [nearestWithin_succ hs] at h
      split at h
      · exact ih h
      · cases h
        intro j hj
        obtain ⟨⟨n, i⟩, hd, rfl⟩ := List.mem_map.1 hj
        obtain ⟨hmem, hn⟩ := List.mem_filter.1 hd
        cases of_decide_eq_true hn
        exact ⟨s, List.mem_of_getElem? hs, hmem⟩

theorem Labelled.nameOf_lookup (ht : t.Labelled) {scope : ScopeId} {name : String} {id : SymbolId}
    (h : t.lookup scope name = .ok (some id)) : t.nameOf id = .ok name := by
  unfold lookup at h
  split at h
  · cases hnearest : t.nearest scope name with
    | error e => rw [hnearest] at h; cases h
    | ok found =>
      rw [hnearest] at h
      have hid : id ∈ found := List.mem_of_mem_head? (Except.ok.inj h)
      obtain ⟨s, hs, hd⟩ := nearestWithin_listed hnearest id hid
      exact ht s hs (name, id) hd
  · cases h

/-- The symbol of an array or map type is called what its kind says. -/
theorem Spelled.spells (ht : t.Spelled) {id : SymbolId} {k : SymbolKind}
    (hk : t.kind? id = some k) : ∃ name, t.nameOf id = .ok name ∧ t.Spells name k := by
  obtain ⟨s, hs, rfl⟩ := Option.map_eq_some_iff.1 hk
  exact ⟨s.name, nameOf_eq_ok.2 ⟨s, hs, rfl⟩, ht s (List.mem_of_getElem? hs)⟩

/-- By the form of the type: names are found under themselves, and the texts of components make up
the text of the whole. -/
theorem Denotes.nameOf (hl : t.Labelled) (hs : t.Spelled) {type : TypeName} {id : SymbolId}
    (hd : t.Denotes type id) : t.nameOf id = .ok type.text := by
  induction hd with
  | named hm =>
    obtain ⟨scope, -, hlookup, -⟩ := hm
    exact hl.nameOf_lookup hlookup
  | array _ hk ih =>
    obtain ⟨name, hname, text, htext, rfl⟩ := hs.spells hk
    cases htext.symm.trans ih
    rw [text_array]
    exact hname
  | map _ _ hk ihk ihv =>
    obtain ⟨name, hname, keyText, valueText, hkey, hvalue, rfl⟩ := hs.spells hk
    cases hkey.symm.trans ihk
    cases hvalue.symm.trans ihv
    rw [text_map]
    exact hname

theorem legible_typeNamed (ht : t.Legible) (ht' : t'.Valid) {type : TypeName}
    {found : Option SymbolId} (h : t.typeNamed type = .ok (found, t')) : t'.Legible := by
  have hrespells := (type.state_keeps keptBySettling_respells).leads (leads_state.2 h)
  have hrelabels := hrespells.retypes.persists.relabels hrespells.retypes.scopes
  exact ⟨ht', hrelabels.labelled ht.labelled, hrespells.spelled ht.spelled⟩

end Table

/-- In every table that phases reach, a written type is looked up without fail. A symbol is found
exactly if the type has a meaning; it is called what is written, and it still is after whatever phases
run from there. -/
theorem runAll_prints (steps : List (Phase × Program)) (type : TypeName) :
    ∃ o found t', (runAll steps).run .initial = .ok o ∧
      o.table.typeNamed type = .ok (found, t') ∧ (found.isSome ↔ o.table.Meaningful type) ∧
      ∀ id ∈ found, t'.nameOf id = .ok type.text ∧
        ∀ later, ∃ u, (runAll later).run t' = .ok u ∧ u.table.nameOf id = .ok type.text := by
  obtain ⟨t, ⟨ds, hrun⟩, ht, -⟩ := runAll_legible legible_initial steps
  obtain ⟨found, t', hfound, hvalid, -, hdenotes, hmeaningful⟩ := exists_typeNamed ht.valid type
  have ht' : t'.Legible := legible_typeNamed ht hvalid hfound
  refine ⟨_, found, t', hrun, hfound, hmeaningful, ?_⟩
  intro id hid
  have hname := (hdenotes id hid).nameOf ht'.labelled ht'.spelled
  refine ⟨hname, ?_⟩
  intro later
  obtain ⟨t'', ⟨ds', hlater⟩, -, hnames⟩ := runAll_legible ht' later
  exact ⟨_, hlater, hnames id _ hname⟩

/-- A contract with one struct type. -/
def bank : Program :=
  ⟨some ⟨⟨⟨0⟩, ⟨0, 1⟩⟩, ⟨"Bank", ⟨1, 2⟩⟩, [], [⟨⟨⟨2⟩, ⟨2, 3⟩⟩, ⟨"Account", ⟨3, 4⟩⟩, []⟩], none, []⟩, ⟨0, 1⟩⟩

/-- A map to arrays of that type. -/
def bankAccounts : TypeName :=
  .map .zero (.named .zero "string") (.array .zero (.named .zero "Account"))

theorem bank_prints : ∃ o id t', (runAll [(.symbolConstruction, bank)]).run .initial = .ok o ∧
    o.table.typeNamed bankAccounts = .ok (some id, t') ∧
    t'.nameOf id = .ok "mapping(string => Account[])" ∧
    ∃ u, (runAll [(.symbolConstruction, bank), (.typeResolution, bank)]).run t' = .ok u ∧
      u.table.nameOf id = .ok "mapping(string => Account[])" := by
  obtain ⟨o, found, t', hrun, hfound, -, hprints⟩ :=
    runAll_prints [(.symbolConstruction, bank)] bankAccounts
  have hsome : (((runAll [(.symbolConstruction, bank)]).run .initial).bind fun o =>
      (o.table.typeNamed bankAccounts).map (·.1.isSome)) = .ok true := by decide +kernel
  rw [hrun] at hsome
  dsimp only [Except.bind] at hsome
  rw [hfound] at hsome
  obtain ⟨id, rfl⟩ := Option.isSome_iff_exists.1 (Except.ok.inj hsome)
  obtain ⟨hname, hlater⟩ := hprints id rfl
  exact ⟨o, id, t', hrun, hfound, hname, hlater _⟩

end ContractLang
