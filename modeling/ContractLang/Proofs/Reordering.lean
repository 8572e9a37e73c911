import Mathlib.Data.List.Perm.Basic
import ContractLang.Proofs.Outcome
/-!
The order of declarations does not count. Fields, struct types and functions may change places, as
may the fields inside a struct type: an analysis is complete in one order exactly if it is in any
other, and then all designators stand for the same declarations and all expressions have types of
the same names.
-/
namespace ContractLang

/-! ### The same declarations in another order -/

/-- The struct types differ at most in the order of their fields. -/
structure StructDecl.Reorders (s s' : StructDecl) : Prop where
  node : s'.node = s.node
  name : s'.name = s.name
  fields : s.fields.Perm s'.fields

/-- The contracts differ at most in the order of the fields, of the struct types, of the fields in
each of them, and of the functions. -/
structure ContractDecl.Reorders (c c' : ContractDecl) : Prop where
  node : c'.node = c.node
  name : c'.name = c.name
  ctor : c'.ctor = c.ctor
  fields : c.fields.Perm c'.fields
  structs : ∃ moved, c.structs.Perm moved ∧ List.Forall₂ StructDecl.Reorders moved c'.structs
  functions : c.functions.Perm c'.functions

structure Program.Reorders (p p' : Program) : Prop where
  span : p'.span = p.span
  contract : Option.Rel ContractDecl.Reorders p.contract p'.contract

theorem StructDecl.Reorders.symm {s s' : StructDecl} (h : s.Reorders s') : s'.Reorders s :=
  ⟨h.node.symm, h.name.symm, h.fields.symm⟩

namespace ContractDecl.Reorders
variable {c c' : ContractDecl}

theorem symm (h : c.Reorders c') : c'.Reorders c where
  node := h.node.symm
  name := h.name.symm
  ctor := h.ctor.symm
  fields := h.fields.symm
  structs := by
    obtain ⟨moved, hperm, hrel⟩ := h.structs
    obtain ⟨changed, hrel', hperm'⟩ := List.perm_comp_forall₂ hperm hrel
    exact ⟨changed, hperm'.symm, hrel'.flip.imp fun _ _ => StructDecl.Reorders.symm⟩
  functions := h.functions.symm

theorem exists_struct (h : c.Reorders c') {s : StructDecl} (hs : s ∈ c.structs) :
    ∃ s' ∈ c'.structs, s.Reorders s' := by
  obtain ⟨moved, hperm, hrel⟩ := h.structs
  exact exists_of_forall₂ hrel (hperm.mem_iff.1 hs)

theorem callables (h : c.Reorders c') : c.callables.Perm c'.callables := by
  unfold ContractDecl.callables
  rw [h.ctor]
  exact (h.functions.map _).append_left _

theorem map_structs {α : Type} (h : c.Reorders c') {f : StructDecl → α}
    (hf : ∀ s s', s.Reorders s' → f s = f s') : (c.structs.map f).Perm (c'.structs.map f) := by
  obtain ⟨moved, hperm, hrel⟩ := h.structs
  have hmap : moved.map f = c'.structs.map f := by
    rw [← List.forall₂_eq_eq_eq, List.forall₂_map_left_iff, List.forall₂_map_right_iff]
    exact hrel.imp hf
  exact hmap ▸ hperm.map f

theorem flatMap_structs {α : Type} (h : c.Reorders c') {f : StructDecl → List α}
    (hf : ∀ s s', s.Reorders s' → (f s).Perm (f s')) :
    (c.structs.flatMap f).Perm (c'.structs.flatMap f) := by
  obtain ⟨moved, hperm, hrel⟩ := h.structs
  refine (hperm.flatMap_right f).trans ?_
  clear hperm
  generalize c'.structs = structs at hrel
  induction hrel with
  | nil => exact .refl _
  | cons hd _ ih =>
    rw [List.flatMap_cons, List.flatMap_cons]
    exact (hf _ _ hd).append ih

theorem structNames (h : c.Reorders c') : c.structNames.Perm c'.structNames :=
  h.map_structs fun _ _ hs => congrArg Ident.text hs.name.symm

theorem allFields (h : c.Reorders c') : c.allFields.Perm c'.allFields :=
  h.fields.append (h.flatMap_structs fun _ _ hs => hs.fields)

theorem nodeIds (h : c.Reorders c') : c.nodeIds.Perm c'.nodeIds := by
  have hstmts : c.stmts.Perm c'.stmts := h.callables.flatMap_right _
  have hdeclarations : c.declarationIds.Perm c'.declarationIds := by
    unfold declarationIds
    rw [h.node]
    refine (((h.fields.map _).cons _).append (h.flatMap_structs fun s s' hs => ?_)).append
      (h.callables.flatMap_right _)
    rw [hs.node]
    exact (hs.fields.map _).cons _
  refine ((hdeclarations.append (hstmts.map _)).append (.map _ ?_)).append (.map _ ?_)
  · exact (h.allFields.flatMap_right _).append (hstmts.flatMap_right _)
  · exact (h.allFields.flatMap_right _).append (hstmts.flatMap_right _)

theorem labels (h : c.Reorders c') : c.labels.Perm c'.labels := by
  unfold ContractDecl.labels
  rw [h.node, h.name]
  refine (((h.fields.map _).cons _).append (h.flatMap_structs fun s s' hs => ?_)).append
    (h.callables.flatMap_right _)
  rw [hs.node, hs.name]
  exact (hs.fields.map _).cons _

/-- A node that declares something in both contracts does it under the same name. -/
theorem same_names (h : c.Reorders c') (hn : c'.nodeIds.Nodup) :
    ∀ d ∈ c.decls, ∀ d' ∈ c'.decls, d.node = d'.node → d.symbol.name = d'.symbol.name := by
  intro d hd d' hd' hnode
  have hlabel : d.label ∈ c'.decls.map Decl.label := by
    rw [labels_decls, ← h.labels.mem_iff, ← labels_decls]
    exact List.mem_map_of_mem hd
  obtain ⟨e, he, heq⟩ := List.mem_map.1 hlabel
  have hnodes : (c'.decls.map (·.node)).Nodup := c'.nodes_decls ▸ nodup_declarationIds hn
  obtain rfl : e = d' := List.inj_on_of_nodup_map hnodes he hd' ((congrArg (·.1.id) heq).trans hnode)
  exact (congrArg Prod.snd heq).symm

end ContractDecl.Reorders

/-! ### What names stand for -/

theorem eq_of_perm {α : Type} {xs ys : List α} (h : xs.Perm ys) (hlen : xs.length ≤ 1) : xs = ys := by
  match xs, hlen with
  | [], _ => exact h.nil_eq
  | [x], _ => exact List.singleton_perm.1 h

/-- Where each name is declared once, it does not matter in which order. -/
theorem namedIn_perm {es es' : List (String × Entity)} (h : es.Perm es')
    (hn : (es.map Prod.fst).Nodup) : namedIn es = namedIn es' := by
  funext x
  have honce : (es.filter (·.1 = x)).length ≤ 1 := by
    rw [← List.countP_eq_length_filter]
    have hcount := List.nodup_iff_count_le_one.1 hn x
    rw [List.count, List.countP_map] at hcount
    refine Nat.le_trans (Nat.le_of_eq (List.countP_congr fun e _ => ?_)) hcount
    simp
  exact congrArg (List.map Prod.snd) (eq_of_perm (h.filter _) honce)

theorem namedIn_append (es fs : List (String × Entity)) (x : String) :
    namedIn (es ++ fs) x = namedIn es x ++ namedIn fs x := by
  simp [namedIn]

namespace ContractDecl.Reorders
variable {c c' : ContractDecl}

theorem env (h : c.Reorders c') (hn : c.WellNamed) : c'.env = c.env := by
  have hsplit : ∀ c : ContractDecl, c.memberEntities =
      c.fields.map (fun f => (f.name.text, f.entity)) ++
        c.structs.map (fun s => (s.name.text, .struct s.node.id)) ++
        c.ctor.toList.map (fun f => (f.callable.declaredName, f.callable.entity)) ++
        c.functions.map fun f => (f.name.text, f.callable.entity) := by
    intro c
    simp [memberEntities, members, ContractDecl.callables, Member.name, Member.entity,
      Callable.declaredName, FunctionDecl.callable, Function.comp_def]
  obtain ⟨houter, hfunctions, -⟩ := List.nodup_append.1 hn.apart
  obtain ⟨hfields, hstructs, -⟩ := List.nodup_append.1 houter
  have hmembers : namedIn c'.memberEntities = namedIn c.memberEntities := by
    funext x
    rw [hsplit, hsplit]
    simp only [namedIn_append]
    rw [namedIn_perm (h.fields.map fun f => (f.name.text, f.entity)) (by rwa [List.map_map]),
      namedIn_perm (h.functions.map fun f => (f.name.text, f.callable.entity)) (by rwa [List.map_map]),
      namedIn_perm (h.map_structs (f := fun s => (s.name.text, Entity.struct s.node.id))
        fun s s' hs => by rw [hs.name, hs.node]) (by rwa [List.map_map]), h.ctor]
  have hglobals : c'.globalEntities = c.globalEntities := by
    unfold globalEntities
    rw [h.name, h.node]
  unfold ContractDecl.env Env.within
  rw [hmembers, hglobals]

theorem structSpot (h : c.Reorders c') (hn : c.WellNamed) {s s' : StructDecl} (hs : s ∈ c.structs)
    (hr : s.Reorders s') : c'.structSpot s' = c.structSpot s := by
  have hnames : namedIn s'.entities = namedIn s.entities := by
    refine (namedIn_perm (hr.fields.map fun f => (f.name.text, f.entity)) ?_).symm
    rw [List.map_map]
    exact (hn.structs s hs).apart
  unfold ContractDecl.structSpot Env.within
  rw [hnames, h.env hn]

theorem fieldSpot (h : c.Reorders c') (hn : c.WellNamed) : c'.fieldSpot = c.fieldSpot := by
  unfold ContractDecl.fieldSpot
  rw [h.env hn]

/-! ### What is accepted -/

theorem wellNamed (h : c.Reorders c') (hn : c.WellNamed) : c'.WellNamed where
  name := by
    rw [h.name, ← h.structNames.mem_iff]
    exact hn.name
  fields f hf := hn.fields f (h.fields.mem_iff.2 hf)
  structs s' hs' := by
    obtain ⟨s, hs, hr⟩ := h.symm.exists_struct hs'
    have hnamed := hn.structs s hs
    refine ⟨hr.name ▸ hnamed.name, fun f hf => ?_, ?_⟩
    · rw [← h.structNames.mem_iff]
      exact hnamed.fields f (hr.fields.mem_iff.1 hf)
    · exact ((hr.fields.map _).nodup_iff).2 hnamed.apart
  functions f hf := hn.functions f (h.functions.mem_iff.2 hf)
  apart := ((h.fields.map _).append h.structNames |>.append (h.functions.map _)).nodup_iff.1 hn.apart
  ctor hsome f hf := hn.ctor (h.ctor ▸ hsome) f (h.functions.mem_iff.2 hf)

theorem framed (h : c.Reorders c') (hc : c.Framed) : c'.Framed where
  names := h.wellNamed hc.names
  fieldTypes f hf := by
    rw [h.env hc.names]
    exact hc.fieldTypes f (h.allFields.mem_iff.2 hf)
  fields f hf := by
    rw [h.fieldSpot hc.names]
    exact hc.fields f (h.fields.mem_iff.2 hf)
  structFields s' hs' f hf := by
    obtain ⟨s, hs, hr⟩ := h.symm.exists_struct hs'
    rw [h.structSpot hc.names hs hr.symm]
    exact hc.structFields s hs f (hr.fields.mem_iff.1 hf)

theorem accepted (h : c.Reorders c') (hc : c.Accepted) : c'.Accepted := by
  obtain ⟨hframed, hcallables⟩ := accepted_iff_admitted.1 hc
  refine accepted_iff_admitted.2 ⟨h.framed hframed, fun f hf => ?_⟩
  exact (hcallables f (h.callables.mem_iff.2 hf)).transfer h.structNames.symm.subset
    (h.env hframed.names)

/-- What stands in one contract stands in the other, and the same counts there. -/
theorem spotted {α : Type} (h : c.Reorders c') (hn : c.WellNamed) (ofField : FieldDecl → List α)
    (ofStmt : Stmt → List α) :
    ∀ r ∈ c.spotted ofField ofStmt, r ∈ c'.spotted ofField ofStmt := by
  obtain ⟨hfields, hstructs, hbodies⟩ :=
    (forall_spotted (P := (· ∈ c'.spotted ofField ofStmt))).1 fun _ hr => hr
  refine forall_spotted.2 ⟨fun f hf x hx => ?_, fun s hs f hf x hx => ?_, fun f hf s hs x hx => ?_⟩
  · rw [← h.fieldSpot hn]
    exact hfields f (h.fields.mem_iff.1 hf) x hx
  · obtain ⟨s', hs', hr⟩ := h.exists_struct hs
    rw [← h.structSpot hn hs hr]
    exact hstructs s' hs' f (hr.fields.mem_iff.1 hf) x hx
  · have hspot : c'.stmtSpot f s.id = c.stmtSpot f s.id := by
      unfold ContractDecl.stmtSpot
      rw [h.env hn]
    rw [← hspot]
    exact hbodies f (h.callables.mem_iff.1 hf) s hs x hx

end ContractDecl.Reorders

/-! ### What is noted -/

namespace Table

/-- Both tables give the node a type, and its name is the same. -/
def TypedAlike (t t' : Table) (n : NodeId) : Prop :=
  ∃ id id' name, t.typeAt? n = some id ∧ t'.typeAt? n = some id' ∧ t.nameOf id = .ok name ∧
    t'.nameOf id' = .ok name

/-- Both tables bind the node, to what one node declares or to the same built-in symbol. -/
def BoundAlike (t t' : Table) (n : NodeId) : Prop :=
  ∃ id id', t.boundTo? n = some id ∧ t'.boundTo? n = some id' ∧
    ((∃ m, t.declaredBy? m = some id ∧ t'.declaredBy? m = some id') ∨ id = id' ∧ id.index < 10)

theorem same_origin {t t' : Table} {ref : Ref} {id id' : SymbolId} (h : t.symbolOf? ref = some id)
    (h' : t'.symbolOf? ref = some id') :
    (∃ m, t.declaredBy? m = some id ∧ t'.declaredBy? m = some id') ∨ id = id' ∧ id.index < 10 := by
  cases ref with
  | builtin j =>
    obtain ⟨hlt, rfl⟩ : j.index < 10 ∧ j = id := by simpa [symbolOf?] using h
    obtain ⟨-, rfl⟩ : j.index < 10 ∧ j = id' := by simpa [symbolOf?] using h'
    exact .inr ⟨rfl, hlt⟩
  | declared m => exact .inl ⟨m, h, h'⟩

end Table

namespace ContractDecl.Reorders
variable {c c' : ContractDecl} {t t' s s' : Table}

theorem boundAlike (h : c.Reorders c') (hn : c.WellNamed) (hs : c.Notes s t) (hs' : c'.Notes s' t')
    (hd : t.declared = s.declared) (hd' : t'.declared = s'.declared) {u : Use} (hu : u ∈ c.uses) :
    t.BoundAlike t' u.id := by
  rw [ContractDecl.uses, ← map_snd_spotted] at hu
  obtain ⟨r, hr, rfl⟩ := List.mem_map.1 hu
  obtain ⟨ref, id, href, hid, hbound⟩ := hs.bound r hr
  obtain ⟨ref', id', href', hid', hbound'⟩ := hs'.bound r (h.spotted hn _ _ r hr)
  obtain rfl : ref = ref' := Option.some.inj (href.symm.trans href')
  refine ⟨id, id', hbound, hbound', ?_⟩
  unfold Table.declaredBy?
  rw [hd, hd']
  exact Table.same_origin hid hid'

theorem typedAlike (h : c.Reorders c') (hn : c.WellNamed) (he : c.Elaborated s)
    (he' : c'.Elaborated s') (hs : c.Notes s t) (hs' : c'.Notes s' t')
    (ht : t.symbols = s.symbols) (ht' : t'.symbols = s'.symbols) {e : Expr} (hmem : e ∈ c.exprs) :
    t.TypedAlike t' e.id := by
  rw [ContractDecl.exprs, ← map_snd_spotted] at hmem
  obtain ⟨r, hr, rfl⟩ := List.mem_map.1 hmem
  obtain ⟨type, id, htype, hid, hnoted⟩ := hs.typed r hr
  obtain ⟨type', id', htype', hid', hnoted'⟩ := hs'.typed r (h.spotted hn _ _ r hr)
  obtain rfl : type = type' := Option.some.inj (htype.symm.trans htype')
  obtain ⟨name, hname, hname'⟩ := he.toFounded.same_name he'.toFounded he.spelled he'.spelled
    (h.same_names he'.distinct) hid hid'
  refine ⟨id, id', name, hnoted, hnoted', ?_, ?_⟩
  · rwa [Table.nameOf, Table.symbol, ht]
  · rwa [Table.nameOf, Table.symbol, ht']

end ContractDecl.Reorders

namespace Program
variable {p p' : Program}

theorem Reorders.nodeIds (h : p.Reorders p') : p.nodeIds.Perm p'.nodeIds := by
  have hcontract := h.contract
  unfold Program.nodeIds
  generalize p.contract = x at hcontract ⊢
  generalize p'.contract = y at hcontract ⊢
  cases hcontract with
  | none => exact .refl _
  | some hc =>
    rw [Option.toList_some, Option.toList_some, List.flatMap_singleton, List.flatMap_singleton]
    exact hc.nodeIds

theorem Reorders.symm (h : p.Reorders p') : p'.Reorders p := by
  refine ⟨h.span.symm, ?_⟩
  have hcontract := h.contract
  generalize p.contract = x at hcontract ⊢
  generalize p'.contract = y at hcontract ⊢
  cases hcontract with
  | none => exact .none
  | some hc => exact .some hc.symm

theorem Reorders.exists_contract (h : p.Reorders p') {c : ContractDecl} (hc : p.contract = some c) :
    ∃ c', p'.contract = some c' ∧ c.Reorders c' := by
  have hcontract := h.contract
  rw [hc] at hcontract
  generalize p'.contract = y at hcontract ⊢
  cases hcontract with
  | some hc => exact ⟨_, rfl, hc⟩

theorem Reorders.complete (h : p.Reorders p') (hp : p.Distinct) (hcomplete : p.Complete) :
    p'.Complete := by
  have hp' : p'.Distinct := h.nodeIds.nodup_iff.1 hp
  cases hc : p.contract with
  | none =>
    -- Without a contract there is nothing that could have moved.
    have hcontract := h.contract
    rw [hc] at hcontract
    obtain ⟨contract, span⟩ := p
    obtain ⟨contract', span'⟩ := p'
    cases hc
    cases h.span
    cases hcontract
    exact hcomplete
  | some c =>
    obtain ⟨c', hc', hr⟩ := h.exists_contract hc
    exact (complete_iff hp' hc').2 (hr.accepted ((complete_iff hp hc).1 hcomplete))

/-- The order of declarations counts neither for whether an analysis is complete, nor for what it
finds out about expressions and designators. -/
theorem complete_iff_reordered (hp : p.Distinct) (h : p.Reorders p') :
    (p.Complete ↔ p'.Complete) ∧
      ∀ a a', p.analyze = .ok a → a.isComplete = true → p'.analyze = .ok a' → a'.isComplete = true →
        ∀ c, p.contract = some c →
          (∀ e ∈ c.exprs, a.table.TypedAlike a'.table e.id) ∧
          ∀ u ∈ c.uses, a.table.BoundAlike a'.table u.id := by
  have hp' : p'.Distinct := h.nodeIds.nodup_iff.1 hp
  refine ⟨⟨h.complete hp, h.symm.complete hp'⟩, ?_⟩
  intro a a' ha hcomplete ha' hcomplete' c hc
  obtain ⟨c', hc', hr⟩ := h.exists_contract hc
  have haccepted := (complete_iff hp hc).1 ⟨a, ha, hcomplete⟩
  have hn := (ContractDecl.declFaults_eq_nil.1 haccepted.names).1
  obtain ⟨s, he, htable, hs⟩ := exists_notes hp hc ha hcomplete
  obtain ⟨s', he', htable', hs'⟩ := exists_notes hp' hc' ha' hcomplete'
  refine ⟨fun e hmem => ?_, fun u hu => ?_⟩
  · exact hr.typedAlike hn he he' hs hs' (htable ▸ rfl) (htable' ▸ rfl) hmem
  · exact hr.boundAlike hn hs hs' (htable ▸ rfl) (htable' ▸ rfl) hu

end Program

/-! ### From last to first -/

def StructDecl.reversed (s : StructDecl) : StructDecl := { s with fields := s.fields.reverse }

def ContractDecl.reversed (c : ContractDecl) : ContractDecl :=
  { c with
    fields := c.fields.reverse
    structs := c.structs.reverse.map StructDecl.reversed
    functions := c.functions.reverse }

/-- The program with its declarations from last to first. -/
def Program.reversed (p : Program) : Program :=
  { p with contract := p.contract.map ContractDecl.reversed }

theorem ContractDecl.reorders_reversed (c : ContractDecl) : c.Reorders c.reversed where
  node := rfl
  name := rfl
  ctor := rfl
  fields := c.fields.reverse_perm.symm
  structs := by
    refine ⟨c.structs.reverse, c.structs.reverse_perm.symm, ?_⟩
    change List.Forall₂ _ _ (c.structs.reverse.map _)
    rw [List.forall₂_map_right_iff, List.forall₂_same]
    exact fun s _ => ⟨rfl, rfl, s.fields.reverse_perm.symm⟩
  functions := c.functions.reverse_perm.symm

theorem Program.reorders_reversed (p : Program) : p.Reorders p.reversed := by
  refine ⟨rfl, ?_⟩
  change Option.Rel _ p.contract (p.contract.map _)
  cases p.contract with
  | none => exact .none
  | some c => exact .some c.reorders_reversed

section
open Build

/-- A contract in which struct types, fields and functions are used before they are declared,
whichever way it is read. -/
def catalog : Program := program (some (Id.run (StateT.run' (do
  let items ← field (← arrayType (← namedType "Item")) "items" none
  let count ← field (← namedType "int") "count" (some (← load (← member (← name "items") "length")))
  let price ← field (← namedType "int") "price" none
  let copies ← field (← namedType "int") "copies" (some (← load (← name "price")))
  let item ← struct "Item" [price, copies]
  let shelf ← field (← arrayType (← namedType "Item")) "shelf" none
  let next ← field (← namedType "Room") "next" none
  let room ← struct "Room" [next, shelf]
  let place ← varDecl (← namedType "int") "at"
  let pick ← function "pick" [← namedType "Item", ← namedType "int"] [place]
    [← giveBack [← load (← index (← name "items") (← load (← name "at"))),
      ← call (← name "size") []]]
  let found ← varDecl (← namedType "Item") "found"
  let left ← varDecl (← namedType "int") "left"
  let both ← declare [found, left] (some (← call (← name "pick") [← load (← name "count")]))
  let size ← function "size" [← namedType "int"] []
    [both, ← giveBack [← load (← name "left")]]
  return { ← contract "Catalog" with
    fields := [items, count], structs := [item, room], functions := [pick, size] }) 0)))

end

theorem catalog_reordered : catalog.Distinct ∧ catalog.Reorders catalog.reversed ∧
    (catalog.Complete ↔ catalog.reversed.Complete) ∧
    ∃ a a' c, catalog.analyze = .ok a ∧ catalog.reversed.analyze = .ok a' ∧
      a.isComplete = true ∧ a'.isComplete = true ∧ catalog.contract = some c ∧
      (∀ e ∈ c.exprs, a.table.TypedAlike a'.table e.id) ∧
      ∀ u ∈ c.uses, a.table.BoundAlike a'.table u.id := by
  have hd : catalog.Distinct := by decide +kernel
  have hc : catalog.contract.isSome = true := by decide +kernel
  obtain ⟨c, hc⟩ := Option.isSome_iff_exists.1 hc
  have hr := catalog.reorders_reversed
  obtain ⟨hiff, hnotes⟩ := Program.complete_iff_reordered hd hr
  obtain ⟨a, ha, hcomplete⟩ : catalog.Complete := Program.complete_of_any (by decide +kernel)
  obtain ⟨a', ha', hcomplete'⟩ := hiff.1 ⟨a, ha, hcomplete⟩
  exact ⟨hd, hr, hiff, a, a', c, ha, ha', hcomplete, hcomplete', hc,
    hnotes a a' ha hcomplete ha' hcomplete' c hc⟩

end ContractLang
