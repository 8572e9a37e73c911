import Mathlib.Order.Defs.Unbundled
import ContractLang.Proofs.Closed
/-!
What the later phases leave alone, and of what class their diagnostics are. Checking types notes
types of nodes and nothing else, binding designators notes what they stand for besides, and resolving
types changes no more of a symbol than the type of a value or the types that a function returns.
-/
namespace ContractLang

namespace Assoc
variable {κ α : Type} [DecidableEq κ]

/-- No key is lost, whatever becomes of its value. -/
def KeepsKeys (m m' : Assoc κ α) : Prop := ∀ k, (m.get? k).isSome → (m'.get? k).isSome

/-- No entry is lost or changed. -/
def Extends (m m' : Assoc κ α) : Prop := ∀ k a, m.get? k = some a → m'.get? k = some a

theorem KeepsKeys.refl (m : Assoc κ α) : m.KeepsKeys m := fun _ h => h

theorem KeepsKeys.trans {m m' m'' : Assoc κ α} (h₁ : m.KeepsKeys m') (h₂ : m'.KeepsKeys m'') :
    m.KeepsKeys m'' := fun k h => h₂ k (h₁ k h)

theorem Extends.refl (m : Assoc κ α) : m.Extends m := fun _ _ h => h

theorem Extends.trans {m m' m'' : Assoc κ α} (h₁ : m.Extends m') (h₂ : m'.Extends m'') :
    m.Extends m'' := fun k a h => h₂ k a (h₁ k a h)

theorem keepsKeys_insert (m : Assoc κ α) (k : κ) (a : α) : m.KeepsKeys (m.insert k a) := by
  intro j hj
  rw [get?_insert]
  split
  · rfl
  · exact hj

theorem extends_insert {m : Assoc κ α} {k : κ} (h : m.get? k = none) (a : α) :
    m.Extends (m.insert k a) := by
  intro j b hj
  rw [get?_insert, if_neg]
  · exact hj
  · rintro rfl
    rw [h] at hj
    cases hj

end Assoc

namespace Table

/-- Only types of nodes have been noted. -/
structure NotesTypes (t t' : Table) : Prop where
  rest : t' = t.annotated t.bindings t'.types
  types : t.types.KeepsKeys t'.types

/-- Only what designators stand for and types of nodes have been noted. -/
structure NotesUses (t t' : Table) : Prop where
  rest : t' = t.annotated t'.bindings t'.types
  bindings : t.bindings.KeepsKeys t'.bindings
  types : t.types.KeepsKeys t'.types

instance : IsPreorder Table NotesTypes where
  refl _ := ⟨rfl, .refl _⟩
  trans t t' t'' h₁ h₂ := by
    have hbindings : t'.bindings = t.bindings := by
      rw [h₁.rest]
      rfl
    refine ⟨?_, h₁.types.trans h₂.types⟩
    calc t'' = t'.annotated t'.bindings t''.types := h₂.rest
      _ = (t.annotated t.bindings t'.types).annotated t'.bindings t''.types :=
        congrArg (·.annotated t'.bindings t''.types) h₁.rest
      _ = t.annotated t.bindings t''.types := by rw [hbindings]; rfl

instance : IsPreorder Table NotesUses where
  refl _ := ⟨rfl, .refl _, .refl _⟩
  trans t t' t'' h₁ h₂ := by
    refine ⟨?_, h₁.bindings.trans h₂.bindings, h₁.types.trans h₂.types⟩
    calc t'' = t'.annotated t''.bindings t''.types := h₂.rest
      _ = (t.annotated t'.bindings t'.types).annotated t''.bindings t''.types :=
        congrArg (·.annotated t''.bindings t''.types) h₁.rest

theorem notesTypes_noteType (t : Table) (node : NodeId) (type : SymbolId) :
    t.NotesTypes (t.noteType node type) := ⟨rfl, Assoc.keepsKeys_insert t.types node type⟩

theorem notesUses_noteType (t : Table) (node : NodeId) (type : SymbolId) :
    t.NotesUses (t.noteType node type) := ⟨rfl, .refl _, Assoc.keepsKeys_insert t.types node type⟩

theorem notesUses_noteBinding (t : Table) (node : NodeId) (id : SymbolId) :
    t.NotesUses (t.noteBinding node id) := ⟨rfl, Assoc.keepsKeys_insert t.bindings node id, .refl _⟩

theorem notesUses_copyBinding (t : Table) (node other : NodeId) :
    t.NotesUses (t.copyBinding node other) := by
  unfold copyBinding
  split
  · exact refl_of NotesUses t
  · exact notesUses_noteBinding ..

end Table

namespace Pass
variable {α β : Type} {R : Table → Table → Prop} {C : Category}

/-- Wherever the step leads, the tables before and after it are so related, and whatever it reports
is of one class. -/
structure Keeps (R : Table → Table → Prop) (x : Pass α) (C : Category) : Prop where
  run : ∀ {t a t' ds}, x.run t = .ok ⟨a, t', ds⟩ → R t t' ∧ ∀ d ∈ ds, d.cause.category = C

namespace Keeps
variable {x : Pass α} {t t' : Table} {a : α}

theorem leads (hx : Keeps R x C) (h : x.Leads t a t') : R t t' := by
  obtain ⟨ds, hrun⟩ := h
  exact (hx.run hrun).1

theorem reports (hx : Keeps R x C) {ds : List Diagnostic} (h : x.run t = .ok ⟨a, t', ds⟩) :
    ∀ d ∈ ds, d.cause.category = C := (hx.run h).2

end Keeps

theorem keeps_state {f : Table → Except Dangling (α × Table)}
    (h : ∀ {t a t'}, f t = .ok (a, t') → R t t') : Keeps R (state f) C where
  run hrun := by
    obtain ⟨hf, rfl⟩ := run_state_iff.1 hrun
    exact ⟨h hf, by simp⟩

theorem keeps_update {f : Table → Except Dangling Table} (h : ∀ {t t'}, f t = .ok t' → R t t') :
    Keeps R (update f) C where
  run hrun := by
    obtain ⟨hf, rfl⟩ := run_update_iff.1 hrun
    exact ⟨h hf, by simp⟩

theorem keeps_adjust {f : Table → Table} (h : ∀ t, R t (f t)) : Keeps R (adjust f) C where
  run hrun := by
    obtain ⟨rfl, rfl⟩ := run_adjust_iff.1 hrun
    exact ⟨h _, by simp⟩

theorem keeps_noteType (h : ∀ t node type, R t (Table.noteType t node type)) (node : NodeId)
    (type : SymbolId) : Keeps R (noteType node type) C :=
  keeps_state fun hf => by
    cases hf
    exact h ..

section
variable [IsPreorder Table R]

theorem keeps_pure (a : α) : Keeps R (pure a : Pass α) C where
  run h := by
    obtain ⟨-, rfl, rfl⟩ := run_pure_iff.1 h
    exact ⟨refl_of R _, by simp⟩

theorem keeps_bind {x : Pass α} {f : α → Pass β} (hx : Keeps R x C) (hf : ∀ a, Keeps R (f a) C) :
    Keeps R (x >>= f) C where
  run h := by
    obtain ⟨a, s, es, fs, h₁, h₂, rfl⟩ := run_bind_iff.1 h
    obtain ⟨hR₁, hC₁⟩ := hx.run h₁
    obtain ⟨hR₂, hC₂⟩ := (hf a).run h₂
    exact ⟨trans_of R hR₁ hR₂, List.forall_mem_append.2 ⟨hC₁, hC₂⟩⟩

theorem keeps_query (f : Table → Except Dangling α) : Keeps R (query f) C where
  run h := by
    obtain ⟨-, rfl, rfl⟩ := run_query_iff.1 h
    exact ⟨refl_of R _, by simp⟩

theorem keeps_view (f : Table → α) : Keeps R (view f) C where
  run h := by
    obtain ⟨-, rfl, rfl⟩ := run_view_iff.1 h
    exact ⟨refl_of R _, by simp⟩

theorem keeps_report (cause : Cause) (span : Span) : Keeps R (report cause span) cause.category where
  run h := by
    obtain ⟨rfl, rfl⟩ := run_report_iff.1 h
    exact ⟨refl_of R _, List.forall_mem_singleton.2 rfl⟩

theorem keeps_reportIf (p : Prop) [Decidable p] (cause : Cause) (span : Span) :
    Keeps R (reportIf p cause span) cause.category := by
  unfold reportIf
  split
  · exact keeps_report cause span
  · exact keeps_pure ()

theorem keeps_forM {f : α → Pass Unit} (h : ∀ x, Keeps R (f x) C) (xs : List α) :
    Keeps R (xs.forM f) C := by
  induction xs with
  | nil => exact keeps_pure ()
  | cons x rest ih => exact keeps_bind (h x) fun _ => ih

theorem keeps_mapM {f : α → Pass β} (h : ∀ x, Keeps R (f x) C) (xs : List α) :
    Keeps R (xs.mapM f) C := by
  induction xs with
  | nil => exact keeps_pure []
  | cons x rest ih =>
    rw [List.mapM_cons]
    apply keeps_bind (h x)
    intro b
    exact keeps_bind ih fun bs => keeps_pure (b :: bs)

theorem keeps_option {f : α → Pass Unit} (h : ∀ x, Keeps R (f x) C) (o : Option α) :
    Keeps R (o.forM f) C := by
  cases o with
  | none => exact keeps_pure ()
  | some x => exact h x

end

end Pass

open Pass Table

/-! ### Checking names -/

namespace Pass

theorem checkName_still (structs : List String) (name : String) (span : Span) :
    Keeps Eq (checkName structs name span) .declaration := by
  unfold checkName
  split
  · exact keeps_report ..
  · split
    · exact keeps_report ..
    · exact keeps_pure ()

theorem checkUntaken_still (scope : ScopeId) (name : String) (span : Span) :
    Keeps Eq (checkUntaken scope name span) .declaration :=
  keeps_bind (keeps_query _) fun _ => keeps_reportIf ..

end Pass

theorem Callable.checkName_still (outer : ScopeId) (f : Callable) :
    Keeps Eq (f.checkName outer) .declaration := by
  unfold Callable.checkName
  split
  · exact keeps_pure ()
  · exact keeps_bind (Pass.checkName_still ..) fun _ => checkUntaken_still ..

/-! ### Resolving types -/

/-- The same but for the type of a value or the types that a function returns. -/
inductive SymbolKind.Retyped : SymbolKind → SymbolKind → Prop
  | same {k : SymbolKind} : Retyped k k
  | field {a b : Option SymbolId} : Retyped (.field a) (.field b)
  | parameter {a b : Option SymbolId} : Retyped (.parameter a) (.parameter b)
  | localVar {a b : Option SymbolId} {visibility : List NodeId} :
    Retyped (.localVar a visibility) (.localVar b visibility)
  | function {info : FunctionRecord} {returns : List SymbolId} :
    Retyped (.function info) (.function (info.setReturns returns))

namespace SymbolKind
variable {k k' k'' : SymbolKind}

theorem Retyped.trans (h₁ : Retyped k k') (h₂ : Retyped k' k'') : Retyped k k'' := by
  cases h₁ with
  | same => exact h₂
  | field => cases h₂ <;> exact .field
  | parameter => cases h₂ <;> exact .parameter
  | localVar => cases h₂ <;> exact .localVar
  | function => cases h₂ <;> exact .function

theorem Retyped.eq_of_structural (h : Retyped k k') (hk : k.IsStructural) : k' = k := by
  cases h <;> trivial

theorem retyped_withValueType (type : SymbolId) (k : SymbolKind) : Retyped k (k.withValueType type) := by
  cases k with
  | field _ => exact .field
  | parameter _ => exact .parameter
  | localVar _ _ => exact .localVar
  | _ => exact .same

theorem retyped_setReturns (types : List SymbolId) (k : SymbolKind) :
    Retyped k (k.mapFunction (·.setReturns types)) := by
  cases k with
  | function _ => exact .function
  | _ => exact .same

end SymbolKind

namespace Table

/-- Only types have been settled, and what has come in are array and map types. -/
structure Retypes (t t' : Table) : Prop where
  old : ∀ (i : Nat) (s : Symbol), t.symbols[i]? = some s → ∃ k,
    t'.symbols[i]? = some { s with kind := k } ∧ s.kind.Retyped k
  new : ∀ (i : Nat) (s : Symbol), t.symbols.length ≤ i → t'.symbols[i]? = some s →
    s.kind.IsStructural
  names : t.names <+: t'.names
  scopes : t'.scopes = t.scopes
  contract : t'.contract = t.contract
  arrays : t.arrays.Extends t'.arrays
  maps : t.maps.Extends t'.maps
  declared : t'.declared = t.declared
  nodes : t'.nodes = t.nodes
  bindings : t'.bindings = t.bindings
  types : t'.types = t.types

namespace Retypes
variable {t t' t'' : Table}

theorem refl (t : Table) : t.Retypes t where
  old _ s hs := ⟨s.kind, hs, .same⟩
  new _ _ hi hs := absurd (List.getElem?_eq_some_iff.1 hs).1 (Nat.not_lt.2 hi)
  names := List.prefix_refl _
  scopes := rfl
  contract := rfl
  arrays := .refl _
  maps := .refl _
  declared := rfl
  nodes := rfl
  bindings := rfl
  types := rfl

theorem trans (h₁ : t.Retypes t') (h₂ : t'.Retypes t'') : t.Retypes t'' where
  old i s hs := by
    obtain ⟨k₁, hk₁, hr₁⟩ := h₁.old i s hs
    obtain ⟨k₂, hk₂, hr₂⟩ := h₂.old i _ hk₁
    exact ⟨k₂, hk₂, hr₁.trans hr₂⟩
  new i s hi hs := by
    by_cases hlt : i < t'.symbols.length
    · -- What came in with the first step is an array or a map type, which the second leaves alone.
      obtain ⟨s₁, hs₁⟩ : ∃ s₁, t'.symbols[i]? = some s₁ := ⟨_, List.getElem?_eq_getElem hlt⟩
      obtain ⟨k, hk, hr⟩ := h₂.old i s₁ hs₁
      have hstruct := h₁.new i s₁ hi hs₁
      rw [hs] at hk
      cases hk
      rwa [hr.eq_of_structural hstruct]
    · exact h₂.new i s (Nat.not_lt.1 hlt) hs
  names := h₁.names.trans h₂.names
  scopes := h₂.scopes.trans h₁.scopes
  contract := h₂.contract.trans h₁.contract
  arrays := h₁.arrays.trans h₂.arrays
  maps := h₁.maps.trans h₂.maps
  declared := h₂.declared.trans h₁.declared
  nodes := h₂.nodes.trans h₁.nodes
  bindings := h₂.bindings.trans h₁.bindings
  types := h₂.types.trans h₁.types

theorem holds (h : t.Retypes t') {id : SymbolId} (hid : t.Holds id) : t'.Holds id := by
  obtain ⟨k, hk, -⟩ := h.old id.index _ (List.getElem?_eq_getElem hid)
  exact (List.getElem?_eq_some_iff.1 hk).1

end Retypes

instance : IsPreorder Table Retypes where
  refl := .refl
  trans _ _ _ := .trans

/-- An array type is found again, or it is made with the next number. -/
theorem arrayOf_cases {t t' : Table} {element id : SymbolId} (h : t.arrayOf element = .ok (id, t')) :
    (t.arrays.get? element = some id ∧ t' = t) ∨
      t.arrays.get? element = none ∧ ∃ name, t.nameOf element = .ok name ∧ id = ⟨t.symbols.length⟩ ∧
        t' = { (t.addSymbol ⟨Table.arrayName name, .global, .zero, .array element⟩).2 with
          arrays := t.arrays.insert element ⟨t.symbols.length⟩ } := by
  unfold arrayOf at h
  cases hfound : t.arrays.get? element with
  | some found =>
    rw [hfound] at h
    cases h
    exact .inl ⟨rfl, rfl⟩
  | none =>
    rw [hfound] at h
    cases hname : t.nameOf element with
    | error e =>
      rw [hname] at h
      cases h
    | ok name =>
      rw [hname] at h
      cases h
      exact .inr ⟨rfl, name, rfl, rfl, rfl⟩

theorem mapOf_cases {t t' : Table} {key value id : SymbolId} (h : t.mapOf key value = .ok (id, t')) :
    (t.maps.get? (key, value) = some id ∧ t' = t) ∨
      t.maps.get? (key, value) = none ∧ ∃ keyName valueName, t.nameOf key = .ok keyName ∧
        t.nameOf value = .ok valueName ∧ id = ⟨t.symbols.length⟩ ∧
        t' = { (t.addSymbol
            ⟨Table.mapName keyName valueName, .global, .zero, .map key value⟩).2 with
          maps := t.maps.insert (key, value) ⟨t.symbols.length⟩ } := by
  unfold Table.mapOf at h
  cases hfound : t.maps.get? (key, value) with
  | some found =>
    rw [hfound] at h
    cases h
    exact .inl ⟨rfl, rfl⟩
  | none =>
    rw [hfound] at h
    cases hkey : t.nameOf key with
    | error e =>
      rw [hkey] at h
      cases h
    | ok keyName =>
      cases hvalue : t.nameOf value with
      | error e =>
        rw [hkey, hvalue] at h
        cases h
      | ok valueName =>
        rw [hkey, hvalue] at h
        cases h
        exact .inr ⟨rfl, keyName, valueName, rfl, rfl, rfl, rfl⟩

/-- A new array or map type, with the lists by which such types are found again. -/
theorem retypes_addSymbol (t : Table) {s : Symbol} (hs : s.kind.IsStructural)
    {arrays : Assoc SymbolId SymbolId} {maps : Assoc (SymbolId × SymbolId) SymbolId}
    (ha : t.arrays.Extends arrays) (hm : t.maps.Extends maps) :
    t.Retypes { (t.addSymbol s).2 with arrays := arrays, maps := maps } where
  old i s' hs' := by
    refine ⟨s'.kind, ?_, .same⟩
    exact (List.getElem?_append_left (List.getElem?_eq_some_iff.1 hs').1).trans hs'
  new i s' hi hs' := by
    have hget : [s][i - t.symbols.length]? = some s' := (List.getElem?_append_right hi).symm.trans hs'
    cases List.mem_singleton.1 (List.mem_of_getElem? hget)
    exact hs
  names := prefix_mention t.names s.name
  scopes := rfl
  contract := rfl
  arrays := ha
  maps := hm
  declared := rfl
  nodes := rfl
  bindings := rfl
  types := rfl

theorem retypes_amend (t : Table) (id : SymbolId) {f : SymbolKind → SymbolKind}
    (hf : ∀ k, SymbolKind.Retyped k (f k)) : t.Retypes (t.amend id f) :=
  { Retypes.refl t with
    old := by
      intro i s hs
      by_cases h : id.index = i
      · subst h
        refine ⟨f s.kind, ?_, hf s.kind⟩
        rw [amend, List.getElem?_modify_eq, hs]
        rfl
      · exact ⟨s.kind, (List.getElem?_modify_ne _ _ h).trans hs, .same⟩
    new := by
      intro i s hi hs
      have hlt := (List.getElem?_eq_some_iff.1 hs).1
      rw [amend, List.length_modify] at hlt
      exact absurd hlt (Nat.not_lt.2 hi) }

end Table

namespace Pass
variable {C : Category}

theorem keeps_arrayOf (element : SymbolId) : Keeps Retypes (state (·.arrayOf element)) C :=
  keeps_state fun {t a t'} h => by
    rcases arrayOf_cases h with ⟨-, rfl⟩ | ⟨hfound, name, -, -, rfl⟩
    · exact .refl t'
    · refine t.retypes_addSymbol ?_ (Assoc.extends_insert hfound _) (.refl _)
      trivial

theorem keeps_mapOf (key value : SymbolId) : Keeps Retypes (state (·.mapOf key value)) C :=
  keeps_state fun {t a t'} h => by
    rcases mapOf_cases h with ⟨-, rfl⟩ | ⟨hfound, keyName, valueName, -, -, -, rfl⟩
    · exact .refl t'
    · refine t.retypes_addSymbol ?_ (.refl _) (Assoc.extends_insert hfound _)
      trivial

theorem keeps_updateKind (id : SymbolId) {f : SymbolKind → SymbolKind}
    (hf : ∀ k, SymbolKind.Retyped k (f k)) : Keeps Retypes (update (·.updateKind id f)) C :=
  keeps_update fun {t t'} h => by
    obtain ⟨-, rfl⟩ := updateKind_eq_ok.1 h
    exact t.retypes_amend id hf

theorem keeps_setValueType (id type : SymbolId) :
    Keeps Retypes (update (·.setValueType id type)) C :=
  keeps_updateKind id (SymbolKind.retyped_withValueType type)

theorem keeps_setReturns (id : SymbolId) (types : List SymbolId) :
    Keeps Retypes (update (·.updateFunction id (·.setReturns types))) C :=
  keeps_updateKind id (SymbolKind.retyped_setReturns types)

/-- The relation is kept by each of the steps that change a table while types are resolved. -/
structure KeptBySettling (R : Table → Table → Prop) : Prop where
  arrayOf : ∀ element, Keeps R (state (·.arrayOf element)) .typeResolution
  mapOf : ∀ key value, Keeps R (state (·.mapOf key value)) .typeResolution
  setValueType : ∀ id type, Keeps R (update (·.setValueType id type)) .typeResolution
  setReturns : ∀ id types, Keeps R (update (·.updateFunction id (·.setReturns types))) .typeResolution

theorem keptBySettling_retypes : KeptBySettling Retypes :=
  ⟨keeps_arrayOf, keeps_mapOf, keeps_setValueType, keeps_setReturns⟩

end Pass

section
variable {R : Table → Table → Prop} [IsPreorder Table R] (hR : KeptBySettling R)
include hR

theorem TypeName.state_keeps (type : TypeName) : Keeps R (state (·.typeNamed type)) .typeResolution := by
  induction type with
  | named span name =>
    rw [state_typeNamed_named]
    apply keeps_bind (keeps_query _)
    intro scope
    apply keeps_bind (keeps_query _)
    intro found
    cases found with
    | none => exact keeps_pure none
    | some id => exact keeps_bind (keeps_query _) fun k => keeps_pure _
  | array span element ih =>
    rw [state_typeNamed_array]
    apply keeps_bind ih
    intro found
    cases found with
    | none => exact keeps_pure none
    | some id => exact keeps_bind (hR.arrayOf id) fun array => keeps_pure _
  | map span key value ihk ihv =>
    rw [state_typeNamed_map]
    apply keeps_bind ihk
    intro found
    cases found with
    | none => exact keeps_pure none
    | some k =>
      apply keeps_bind ihv
      intro found
      cases found with
      | none => exact keeps_pure none
      | some v => exact keeps_bind (hR.mapOf k v) fun map => keeps_pure _
  | void span => exact keeps_pure none

theorem TypeName.resolve_keeps (type : TypeName) : Keeps R type.resolve .typeResolution := by
  apply keeps_bind (type.state_keeps hR)
  intro found
  exact keeps_bind (keeps_reportIf ..) fun _ => keeps_pure found

theorem resolveTypes_keeps (types : List TypeName) : Keeps R (resolveTypes types) .typeResolution := by
  induction types with
  | nil => exact keeps_pure []
  | cons type rest ih =>
    apply keeps_bind (type.resolve_keeps hR)
    intro found
    exact keeps_bind ih fun more => keeps_pure _

theorem settleType_keeps (node : NodeId) (type : TypeName) :
    Keeps R (settleType node type) .typeResolution := by
  apply keeps_bind (keeps_view _)
  intro found
  cases found with
  | none => exact keeps_pure ()
  | some id =>
    dsimp only
    split
    · exact keeps_report ..
    · apply keeps_bind (type.resolve_keeps hR)
      intro resolved
      cases resolved with
      | none => exact keeps_pure ()
      | some resolved => exact hR.setValueType id resolved

theorem Callable.settleReturns_keeps (c : Callable) (id : SymbolId) :
    Keeps R (c.settleReturns id) .typeResolution := by
  apply keeps_bind (keeps_reportIf ..)
  intro _
  have hvoid : Keeps R c.checkVoid .typeResolution := by
    unfold Callable.checkVoid
    split
    · exact keeps_pure ()
    · exact keeps_reportIf ..
  apply keeps_bind hvoid
  intro _
  apply keeps_bind (ContractLang.resolveTypes_keeps hR _)
  intro types
  exact hR.setReturns id types

theorem Callable.resolveTypes_keeps (c : Callable) : Keeps R c.resolveTypes .typeResolution := by
  apply keeps_bind (keeps_view _)
  intro found
  cases found with
  | none => exact keeps_pure ()
  | some id =>
    apply keeps_bind (keeps_forM (fun v : VarDecl => settleType_keeps hR v.node.id v.type) c.params)
    intro _
    apply keeps_bind (c.settleReturns_keeps hR id)
    intro _
    rw [resolveTypesIn_eq]
    exact keeps_forM (fun v : VarDecl => settleType_keeps hR v.node.id v.type) _

theorem ContractDecl.resolveTypes_keeps (c : ContractDecl) : Keeps R c.resolveTypes .typeResolution := by
  apply keeps_bind (keeps_forM (fun f => settleType_keeps hR f.node.id f.type) c.fields)
  intro _
  apply keeps_bind
    (keeps_forM (fun s => keeps_forM (fun f => settleType_keeps hR f.node.id f.type) s.fields) c.structs)
  intro _
  exact keeps_forM (fun f => f.resolveTypes_keeps hR) c.callables

end

theorem Program.resolveTypes_keeps (p : Program) : Keeps Retypes p.resolveTypes .typeResolution := by
  unfold Program.resolveTypes
  cases p.contract with
  | none => exact keeps_pure ()
  | some c => exact c.resolveTypes_keeps keptBySettling_retypes

/-! ### Binding designators -/

namespace Pass

theorem keeps_reportNone {R : Table → Table → Prop} [IsPreorder Table R] (cause : Cause) (span : Span) :
    Keeps R (do report cause span; return (none : Option SymbolId)) cause.category :=
  keeps_bind (keeps_report cause span) fun _ => keeps_pure none

theorem keeps_visibleLocal (site : Site) (name : String) (span : Span) (locals : List SymbolId) :
    Keeps NotesUses (visibleLocal site name span locals) .nameResolution := by
  apply keeps_bind (keeps_query _)
  intro visible
  exact keeps_bind (keeps_reportIf ..) fun _ => keeps_pure visible

theorem keeps_valueNamed (site : Site) (name : String) (span : Span) :
    Keeps NotesUses (valueNamed site name span) .nameResolution := by
  apply keeps_bind (keeps_query _)
  intro found
  cases found with
  | nil => exact keeps_reportNone ..
  | cons first rest =>
    apply keeps_bind (keeps_query _)
    intro kind
    split
    · exact keeps_reportNone ..
    · split
      · exact keeps_pure _
      · exact keeps_visibleLocal ..

theorem keeps_bindTo (node : NodeId) (id : SymbolId) : Keeps NotesUses (bindTo node id) .nameResolution :=
  keeps_adjust fun t => t.notesUses_noteBinding node id

theorem keeps_noteUseType (node : NodeId) (type : SymbolId) :
    Keeps NotesUses (noteType node type) .nameResolution :=
  keeps_noteType notesUses_noteType node type

theorem keeps_bindCallee (site : Site) (node : Node) (name : String) :
    Keeps NotesUses (bindCallee site node name) .nameResolution := by
  apply keeps_bind (keeps_query _)
  intro found
  cases found with
  | none => exact keeps_report ..
  | some id => exact keeps_bindTo node.id id

theorem keeps_bindElement (node : Node) (base : Designator) (type : Option SymbolId) :
    Keeps NotesUses (bindElement node base type) .nameResolution := by
  cases type with
  | none => exact keeps_pure none
  | some type =>
    apply keeps_bind (keeps_query _)
    intro element
    cases element with
    | none => exact keeps_bind (keeps_query _) fun _ => keeps_reportNone ..
    | some element =>
      apply keeps_bind (keeps_adjust fun t => t.notesUses_copyBinding node.id base.id)
      intro _
      exact keeps_noteUseType node.id element

theorem keeps_bindMember (node : Node) (member : Ident) (type : Option SymbolId) :
    Keeps NotesUses (bindMember node member type) .nameResolution := by
  cases type with
  | none => exact keeps_pure none
  | some type =>
    apply keeps_bind (keeps_query _)
    intro element
    split
    · exact keeps_bind (keeps_bindTo ..) fun _ => keeps_noteUseType ..
    · exact keeps_bind (keeps_query _) fun _ => keeps_reportNone ..

end Pass

mutual
theorem Expr.bindNames_keeps (site : Site) (e : Expr) :
    Keeps NotesUses (e.bindNames site) .nameResolution := by
  cases e with
  | literal node value => exact keeps_pure ()
  | load node source => exact keeps_bind (source.bindNames_keeps site) fun _ => keeps_pure ()
  | call node callee args =>
    cases callee with
    | name node' name =>
      exact keeps_bind (keeps_bindCallee site node' name) fun _ => bindNamesOf_keeps site args
    | index node' base position =>
      exact keeps_bind ((Designator.index node' base position).bindNames_keeps site) fun _ =>
        bindNamesOf_keeps site args
    | member node' base m =>
      exact keeps_bind ((Designator.member node' base m).bindNames_keeps site) fun _ =>
        bindNamesOf_keeps site args
  | binary node op left right =>
    exact keeps_bind (left.bindNames_keeps site) fun _ => right.bindNames_keeps site
  | unary node op operand => exact operand.bindNames_keeps site

theorem Designator.bindNames_keeps (site : Site) (d : Designator) :
    Keeps NotesUses (d.bindNames site) .nameResolution := by
  cases d with
  | name node name =>
    apply keeps_bind (keeps_valueNamed site name node.span)
    intro found
    cases found with
    | none => exact keeps_pure none
    | some id =>
      apply keeps_bind (keeps_bindTo node.id id)
      intro _
      apply keeps_bind (keeps_query _)
      intro type
      cases type with
      | none => exact keeps_pure none
      | some type => exact keeps_noteUseType node.id type
  | index node base position =>
    apply keeps_bind (base.bindNames_keeps site)
    intro type
    exact keeps_bind (position.bindNames_keeps site) fun _ => keeps_bindElement node base type
  | member node base m =>
    exact keeps_bind (base.bindNames_keeps site) fun type => keeps_bindMember node m type

theorem bindNamesOf_keeps (site : Site) (es : List Expr) :
    Keeps NotesUses (bindNamesOf site es) .nameResolution := by
  cases es with
  | nil => exact keeps_pure ()
  | cons e rest => exact keeps_bind (e.bindNames_keeps site) fun _ => bindNamesOf_keeps site rest
end

mutual
theorem Stmt.bindNames_keeps (scope : ScopeId) (s : Stmt) :
    Keeps NotesUses (s.bindNames scope) .nameResolution := by
  cases s with
  | declare node vars init => exact keeps_option (fun e => e.bindNames_keeps _) init
  | assign node target value =>
    exact keeps_bind (target.bindNames_keeps _) fun _ => value.bindNames_keeps _
  | assignAll node targets source =>
    refine keeps_bind (keeps_forM (fun d => ?_) targets) fun _ => source.bindNames_keeps _
    exact keeps_bind (d.bindNames_keeps _) fun _ => keeps_pure ()
  | branch node condition onTrue onFalse =>
    cases onFalse with
    | none =>
      exact keeps_bind (condition.bindNames_keeps _) fun _ => bindNamesIn_keeps scope onTrue.stmts
    | some onFalse =>
      apply keeps_bind (condition.bindNames_keeps _)
      intro _
      exact keeps_bind (bindNamesIn_keeps scope onTrue.stmts)
        fun _ => bindNamesIn_keeps scope onFalse.stmts
  | giveBack node values => exact bindNamesOf_keeps _ values

theorem bindNamesIn_keeps (scope : ScopeId) (b : List Stmt) :
    Keeps NotesUses (bindNamesIn scope b) .nameResolution := by
  cases b with
  | nil => exact keeps_pure ()
  | cons s rest => exact keeps_bind (s.bindNames_keeps scope) fun _ => bindNamesIn_keeps scope rest
end

theorem FieldDecl.bindNames_keeps (scope : ScopeId) (f : FieldDecl) :
    Keeps NotesUses (f.bindNames scope) .nameResolution :=
  keeps_option (fun e => e.bindNames_keeps _) f.init

theorem StructDecl.bindNames_keeps (s : StructDecl) : Keeps NotesUses s.bindNames .nameResolution := by
  apply keeps_bind (keeps_view _)
  intro found
  cases found with
  | none => exact keeps_pure ()
  | some id =>
    apply keeps_bind (keeps_query _)
    intro kind
    split
    · exact keeps_pure ()
    · exact keeps_forM (fun f => f.bindNames_keeps _) s.fields

theorem Callable.bindNames_keeps (c : Callable) : Keeps NotesUses c.bindNames .nameResolution := by
  apply keeps_bind (keeps_view _)
  intro found
  cases found with
  | none => exact keeps_pure ()
  | some id =>
    apply keeps_bind (keeps_query _)
    intro function
    cases function with
    | none => exact keeps_pure ()
    | some info => exact bindNamesIn_keeps info.inner c.body.stmts

theorem Program.bindNames_keeps (p : Program) : Keeps NotesUses p.bindNames .nameResolution := by
  unfold Program.bindNames
  cases p.contract with
  | none => exact keeps_pure ()
  | some c =>
    apply keeps_bind (keeps_query _)
    intro scope
    apply keeps_bind (keeps_forM (fun f => f.bindNames_keeps scope) c.fields)
    intro _
    apply keeps_bind (keeps_forM (fun s => s.bindNames_keeps) c.structs)
    intro _
    exact keeps_forM (fun f => f.bindNames_keeps) c.callables

/-! ### Checking types -/

namespace Pass

theorem keeps_noteOnlyType (node : NodeId) (type : SymbolId) :
    Keeps NotesTypes (noteType node type) .typing :=
  keeps_noteType notesTypes_noteType node type

theorem keeps_expect (expected found : Option SymbolId) {cause : String → String → Cause}
    (hC : ∀ e f, (cause e f).category = .typing) (span : Span) :
    Keeps NotesTypes (expect expected found cause span) .typing := by
  unfold expect
  split
  · split
    · exact keeps_pure ()
    · apply keeps_bind (keeps_query _)
      intro expectedName
      apply keeps_bind (keeps_query _)
      intro foundName
      rw [← hC expectedName foundName]
      exact keeps_report ..
  · exact keeps_pure ()

theorem keeps_expectAll {cause : Nat → String → String → Cause}
    (hC : ∀ i e f, (cause i e f).category = .typing) (position : Nat) (slots : List Slot) :
    Keeps NotesTypes (expectAll cause position slots) .typing := by
  induction slots generalizing position with
  | nil => exact keeps_pure ()
  | cons s rest ih => exact keeps_bind (keeps_expect _ _ (hC position) _) fun _ => ih (position + 1)

theorem keeps_checkOperands (op : BinaryOp) (left right : Option SymbolId) (span : Span) :
    Keeps NotesTypes (checkOperands op left right span) .typing := by
  unfold checkOperands
  split
  · split
    · exact keeps_pure ()
    · apply keeps_bind (keeps_query _)
      intro _
      exact keeps_bind (keeps_query _) fun _ => keeps_report ..
  · exact keeps_pure ()

theorem keeps_declaredType (node : NodeId) : Keeps NotesTypes (declaredType node) .typing := by
  apply keeps_bind (keeps_view _)
  intro found
  cases found with
  | none => exact keeps_pure none
  | some id => exact keeps_query _

theorem keeps_fitArguments (callee : String) (params : List SymbolId)
    (args : List (Option SymbolId × Span)) (span : Span) :
    Keeps NotesTypes (fitArguments callee params args span) .typing := by
  unfold fitArguments
  split
  · exact keeps_bind (keeps_query _) fun _ => keeps_expectAll (fun _ _ _ => rfl) _ _
  · exact keeps_report ..

theorem keeps_callType (callee : Designator) (args : List (Option SymbolId × Span)) (span : Span) :
    Keeps NotesTypes (callType callee args span) .typing := by
  apply keeps_bind (keeps_view _)
  intro found
  cases found with
  | none => exact keeps_pure none
  | some id =>
    apply keeps_bind (keeps_query _)
    intro function
    cases function with
    | none => exact keeps_reportNone ..
    | some info =>
      dsimp only
      split
      · exact keeps_pure _
      · exact keeps_bind (keeps_fitArguments ..) fun _ => keeps_pure _

/-- What is left of checking an expression once its type is known or not. -/
theorem keeps_noteFound (node : NodeId) (type : Option SymbolId) :
    Keeps NotesTypes (match type with
      | none => return none
      | some type => noteType node type) .typing := by
  cases type with
  | none => exact keeps_pure none
  | some type => exact keeps_noteOnlyType node type

end Pass

mutual
theorem Expr.check_keeps (e : Expr) : Keeps NotesTypes e.check .typing := by
  cases e with
  | literal node value => exact keeps_noteOnlyType node.id value.type
  | load node source => exact keeps_bind source.check_keeps fun type => keeps_noteFound node.id type
  | call node callee args =>
    apply keeps_bind (checkEach_keeps args)
    intro found
    apply keeps_bind callee.check_keeps
    intro _
    exact keeps_bind (keeps_callType ..) fun type => keeps_noteFound node.id type
  | binary node op left right =>
    apply keeps_bind left.check_keeps
    intro leftType
    apply keeps_bind right.check_keeps
    intro rightType
    exact keeps_bind (keeps_checkOperands ..) fun _ => keeps_noteOnlyType ..
  | unary node op operand =>
    apply keeps_bind operand.check_keeps
    intro found
    exact keeps_bind (keeps_expect _ _ (fun _ _ => rfl) _) fun _ => keeps_noteOnlyType ..

theorem Designator.check_keeps (d : Designator) : Keeps NotesTypes d.check .typing := by
  cases d with
  | name node name => exact keeps_view _
  | index node base position =>
    apply keeps_bind base.check_keeps
    intro _
    exact keeps_bind position.check_keeps fun _ => keeps_view _
  | member node base m => exact keeps_bind base.check_keeps fun _ => keeps_view _

theorem checkEach_keeps (es : List Expr) : Keeps NotesTypes (checkEach es) .typing := by
  cases es with
  | nil => exact keeps_pure []
  | cons e rest =>
    apply keeps_bind e.check_keeps
    intro type
    exact keeps_bind (checkEach_keeps rest) fun types => keeps_pure (type :: types)
end

theorem checkInit_keeps (node : NodeId) (name : String) (init : Expr) :
    Keeps NotesTypes (checkInit node name init) .typing := by
  apply keeps_bind (keeps_declaredType node)
  intro declared
  exact keeps_bind init.check_keeps fun found => keeps_expect _ _ (fun _ _ => rfl) _

theorem checkTargets_keeps (targets : List (Option SymbolId)) (source : Expr) (span : Span) :
    Keeps NotesTypes (checkTargets targets source span) .typing := by
  apply keeps_bind source.check_keeps
  intro _
  cases source with
  | call node callee args =>
    apply keeps_bind (keeps_view _)
    intro found
    cases found with
    | none => exact keeps_pure ()
    | some id =>
      apply keeps_bind (keeps_query _)
      intro function
      cases function with
      | none => exact keeps_pure ()
      | some info =>
        dsimp only
        split
        · exact keeps_expectAll (fun _ _ _ => rfl) _ _
        · exact keeps_report ..
  | literal node value => exact keeps_report ..
  | load node d => exact keeps_report ..
  | binary node op left right => exact keeps_report ..
  | unary node op operand => exact keeps_report ..

theorem checkGivenBack_keeps (function : Option SymbolId) (values : List Expr) (span : Span) :
    Keeps NotesTypes (checkGivenBack function values span) .typing := by
  apply keeps_bind (checkEach_keeps values)
  intro found
  cases function with
  | none => exact keeps_pure ()
  | some id =>
    apply keeps_bind (keeps_query _)
    intro function
    cases function with
    | none => exact keeps_pure ()
    | some info =>
      dsimp only
      split
      · split
        · exact keeps_pure ()
        · exact keeps_report ..
      · split
        · exact keeps_expectAll (fun _ _ _ => rfl) _ _
        · exact keeps_report ..

mutual
theorem Stmt.check_keeps (function : Option SymbolId) (s : Stmt) :
    Keeps NotesTypes (s.check function) .typing := by
  cases s with
  | declare node vars init =>
    have hdeclared := keeps_mapM (fun v : VarDecl => keeps_declaredType v.node.id) vars
    cases init with
    | none => exact keeps_pure ()
    | some init =>
      match vars with
      | [v] => exact checkInit_keeps v.node.id v.name.text init
      | [] => exact keeps_bind hdeclared fun types => checkTargets_keeps types init node.span
      | v :: w :: rest => exact keeps_bind hdeclared fun types => checkTargets_keeps types init node.span
  | assign node target value =>
    apply keeps_bind target.check_keeps
    intro expected
    exact keeps_bind value.check_keeps fun found => keeps_expect _ _ (fun _ _ => rfl) _
  | assignAll node targets source =>
    exact keeps_bind (keeps_mapM (fun d => d.check_keeps) targets) fun types =>
      checkTargets_keeps types source node.span
  | branch node condition onTrue onFalse =>
    cases onFalse with
    | none =>
      apply keeps_bind condition.check_keeps
      intro found
      exact keeps_bind (keeps_expect _ _ (fun _ _ => rfl) _)
        fun _ => checkStmts_keeps function onTrue.stmts
    | some onFalse =>
      apply keeps_bind condition.check_keeps
      intro found
      apply keeps_bind (keeps_expect _ _ (fun _ _ => rfl) _)
      intro _
      exact keeps_bind (checkStmts_keeps function onTrue.stmts)
        fun _ => checkStmts_keeps function onFalse.stmts
  | giveBack node values => exact checkGivenBack_keeps function values node.span

theorem checkStmts_keeps (function : Option SymbolId) (b : List Stmt) :
    Keeps NotesTypes (checkStmts function b) .typing := by
  cases b with
  | nil => exact keeps_pure ()
  | cons s rest => exact keeps_bind (s.check_keeps function) fun _ => checkStmts_keeps function rest
end

theorem FieldDecl.check_keeps (f : FieldDecl) : Keeps NotesTypes f.check .typing :=
  keeps_option (fun e => checkInit_keeps f.node.id f.name.text e) f.init

theorem Program.check_keeps (p : Program) : Keeps NotesTypes p.check .typing := by
  unfold Program.check
  cases p.contract with
  | none => exact keeps_pure ()
  | some c =>
    apply keeps_bind (keeps_forM (fun f => f.check_keeps) c.fields)
    intro _
    apply keeps_bind (keeps_forM (fun s => keeps_forM (fun f => f.check_keeps) s.fields) c.structs)
    intro _
    refine keeps_forM (fun f => ?_) c.callables
    exact keeps_bind (keeps_view _) fun function => checkStmts_keeps function f.body.stmts

end ContractLang
