import ContractLang.Proofs.Declaring
/-!
When the names of a contract are as they should be. What is reported of declarations that are made
one after the other comes down to what is asked of each of them and to that their names differ, so
that their order no longer counts.
-/
namespace ContractLang

theorem nameFault_eq_nil {structs : List String} {name : String} {span : Span} :
    nameFault structs name span = [] ↔ name ∉ reservedWords ∧ name ∉ structs := by
  unfold nameFault
  by_cases hreserved : name ∈ reservedWords
  · simp [hreserved]
  · by_cases hstruct : name ∈ structs <;> simp [hreserved, hstruct]

theorem takenFault_eq_nil {taken : List String} {name : String} {span : Span} :
    takenFault taken name span = [] ↔ name ∉ taken := by
  unfold takenFault
  by_cases h : name ∈ taken <;> simp [h]

/-- In turn, each declaration is held to its own conditions, and if its name is looked at, to the
names before it. -/
theorem faultsInTurn_eq_nil {α : Type} {name : α → String} {faults : List String → α → List Diagnostic}
    (P checked : α → Prop)
    (h : ∀ taken x, faults taken x = [] ↔ P x ∧ (checked x → name x ∉ taken)) (taken : List String)
    (xs : List α) :
    faultsInTurn name faults taken xs = [] ↔
      (∀ x ∈ xs, P x ∧ (checked x → name x ∉ taken)) ∧
        xs.Pairwise fun x y => checked y → name y ≠ name x := by
  induction xs generalizing taken with
  | nil => simp [faultsInTurn]
  | cons x rest ih =>
    rw [faultsInTurn, List.append_eq_nil_iff, h, ih, List.pairwise_cons, List.forall_mem_cons]
    constructor
    · rintro ⟨hx, hrest, hapart⟩
      refine ⟨⟨hx, fun y hy => ⟨(hrest y hy).1, fun hc hmem => ?_⟩⟩, fun y hy hc he => ?_, hapart⟩
      · exact (hrest y hy).2 hc (List.mem_append_left _ hmem)
      · exact (hrest y hy).2 hc (List.mem_append_right _ (List.mem_singleton.2 he))
    · rintro ⟨⟨hx, hrest⟩, hfirst, hapart⟩
      refine ⟨hx, fun y hy => ⟨(hrest y hy).1, fun hc hmem => ?_⟩, hapart⟩
      rcases List.mem_append.1 hmem with hmem | hmem
      · exact (hrest y hy).2 hc hmem
      · exact hfirst y hy hc (List.mem_singleton.1 hmem)

theorem pairwise_names {α : Type} {name : α → String} {xs : List α} :
    (xs.Pairwise fun x y => True → name y ≠ name x) ↔ (xs.map name).Nodup := by
  rw [List.Nodup, List.pairwise_map]
  exact List.Pairwise.iff fun x y => by rw [true_imp_iff, ne_comm]

theorem fieldFaults_eq_nil {structs taken : List String} {fs : List FieldDecl} :
    fieldFaults structs taken fs = [] ↔
      (∀ f ∈ fs, (f.name.text ∉ reservedWords ∧ f.name.text ∉ structs) ∧ f.name.text ∉ taken) ∧
        (fs.map (·.name.text)).Nodup := by
  rw [fieldFaults, faultsInTurn_eq_nil
    (fun f => f.name.text ∉ reservedWords ∧ f.name.text ∉ structs) fun _ => True, pairwise_names]
  · simp only [true_imp_iff]
  · intro taken f
    rw [FieldDecl.declFaults, List.append_eq_nil_iff, nameFault_eq_nil, takenFault_eq_nil, true_imp_iff]

/-- The names in a struct type are as they should be, where some names are those of struct types. -/
structure StructDecl.WellNamed (structs : List String) (s : StructDecl) : Prop where
  name : s.name.text ∉ reservedWords
  fields : ∀ f ∈ s.fields, f.name.text ∉ reservedWords ∧ f.name.text ∉ structs
  apart : (s.fields.map (·.name.text)).Nodup

theorem StructDecl.declFaults_eq_nil {structs taken : List String} {s : StructDecl} :
    s.declFaults structs taken = [] ↔ s.WellNamed structs ∧ s.name.text ∉ taken := by
  rw [StructDecl.declFaults, List.append_eq_nil_iff, List.append_eq_nil_iff, nameFault_eq_nil,
    takenFault_eq_nil, fieldFaults_eq_nil]
  constructor
  · rintro ⟨⟨⟨hname, -⟩, htaken⟩, hfields, hapart⟩
    exact ⟨⟨hname, fun f hf => (hfields f hf).1, hapart⟩, htaken⟩
  · rintro ⟨h, htaken⟩
    exact ⟨⟨⟨h.name, List.not_mem_nil⟩, htaken⟩, fun f hf => ⟨h.fields f hf, List.not_mem_nil⟩, h.apart⟩

/-- Only the name of a function is looked at. -/
theorem Callable.declFaults_eq_nil {structs taken : List String} {f : Callable} :
    f.declFaults structs taken = [] ↔
      ((∀ name ∈ f.name, name.text ∉ reservedWords) ∧ f.varFaults structs = []) ∧
        (f.name.isSome → f.declaredName ∉ taken) := by
  unfold Callable.declFaults Callable.nameFaults Callable.declaredName
  cases f.name with
  | none => simp
  | some name =>
    simp only [List.append_eq_nil_iff, nameFault_eq_nil, takenFault_eq_nil, Option.mem_def,
      Option.some.injEq, forall_eq', Option.isSome_some, Option.map_some, Option.getD_some,
      true_imp_iff, List.not_mem_nil, not_false_iff, and_true]
    tauto

/-! ### Variables -/

theorem nameFault_mono {structs structs' : List String} (hs : structs' ⊆ structs) {name : String}
    {span : Span} (h : nameFault structs name span = []) : nameFault structs' name span = [] := by
  rw [nameFault_eq_nil] at h ⊢
  exact ⟨h.1, fun hmem => h.2 (hs hmem)⟩

theorem varFaults_mono {structs structs' taken : List String} (hs : structs' ⊆ structs)
    {vs : List VarDecl} (h : varFaults structs taken vs = []) : varFaults structs' taken vs = [] := by
  induction vs generalizing taken with
  | nil => rfl
  | cons v rest ih =>
    simp only [varFaults, List.append_eq_nil_iff] at h ⊢
    exact ⟨⟨nameFault_mono hs h.1.1, h.1.2⟩, ih h.2⟩

theorem localFaultsOf_mono {structs structs' taken : List String} (hs : structs' ⊆ structs)
    {b : List Stmt} (h : localFaultsOf structs taken b = []) : localFaultsOf structs' taken b = [] := by
  induction b using Block.induction generalizing taken with
  | nil => rfl
  | cons s rest hblocks hrest =>
    rw [localFaultsOf, Stmt.localFaults_eq] at h ⊢
    simp only [List.append_eq_nil_iff, List.flatMap_eq_nil_iff] at h ⊢
    obtain ⟨⟨hvars, hinner⟩, htail⟩ := h
    exact ⟨⟨varFaults_mono hs hvars, fun b hb => hblocks b hb (hinner b hb)⟩, hrest htail⟩

/-- Fewer struct types are in the way of fewer variables. -/
theorem Callable.varFaults_mono {structs structs' : List String} (f : Callable)
    (hs : structs' ⊆ structs) (h : f.varFaults structs = []) : f.varFaults structs' = [] := by
  obtain ⟨hparams, hlocals⟩ := List.append_eq_nil_iff.1 h
  exact List.append_eq_nil_iff.2 ⟨ContractLang.varFaults_mono hs hparams, localFaultsOf_mono hs hlocals⟩

/-! ### Contracts -/

/-- The names of a contract are as they should be, those inside its callables apart. A constructor has
none, but a function may not have the name under which it is declared. -/
structure ContractDecl.WellNamed (c : ContractDecl) : Prop where
  name : c.name.text ∉ reservedWords ∧ c.name.text ∉ c.structNames ∧
    c.name.text ∉ (Table.initial.entries .global).map Prod.fst
  fields : ∀ f ∈ c.fields, f.name.text ∉ reservedWords
  structs : ∀ s ∈ c.structs, s.WellNamed c.structNames
  functions : ∀ f ∈ c.functions, f.name.text ∉ reservedWords
  apart : (c.fieldNames ++ c.structNames ++ c.functions.map (·.name.text)).Nodup
  ctor : c.ctor.isSome → ∀ f ∈ c.functions, f.name.text ≠ constructorName

namespace ContractDecl
variable {c : ContractDecl}

theorem callableFaults_eq_nil {structs taken : List String} :
    faultsInTurn (·.declaredName) (Callable.declFaults structs) taken c.callables = [] ↔
      (∀ f ∈ c.functions, f.name.text ∉ reservedWords ∧ f.name.text ∉ taken) ∧
      (c.functions.map (·.name.text)).Nodup ∧
      (c.ctor.isSome → ∀ f ∈ c.functions, f.name.text ≠ constructorName) ∧
      ∀ f ∈ c.callables, f.varFaults structs = [] := by
  have hfunctions : (c.functions.map FunctionDecl.callable).Pairwise (fun x y =>
      y.name.isSome → y.declaredName ≠ x.declaredName) ↔ (c.functions.map (·.name.text)).Nodup := by
    rw [List.pairwise_map, ← pairwise_names]
    exact List.Pairwise.iff fun f g => ⟨fun h _ => h rfl, fun h _ => h trivial⟩
  have hctor : (c.ctor.toList.map ConstructorDecl.callable).Pairwise fun x y =>
      y.name.isSome → y.declaredName ≠ x.declaredName := by
    cases c.ctor <;> simp
  have hcross : (∀ x ∈ c.ctor.toList.map ConstructorDecl.callable,
      ∀ y ∈ c.functions.map FunctionDecl.callable, y.name.isSome → y.declaredName ≠ x.declaredName) ↔
      (c.ctor.isSome → ∀ f ∈ c.functions, f.name.text ≠ constructorName) := by
    cases c.ctor with
    | none => simp
    | some ctor =>
      simp only [Option.toList_some, List.map_cons, List.map_nil, List.mem_singleton, forall_eq,
        List.forall_mem_map, Option.isSome_some, true_imp_iff]
      exact forall₂_congr fun f _ => ⟨fun h => h rfl, fun h _ => h⟩
  have heach : (∀ f ∈ c.callables, ((∀ name ∈ f.name, name.text ∉ reservedWords) ∧
      f.varFaults structs = []) ∧ (f.name.isSome → f.declaredName ∉ taken)) ↔
      (∀ f ∈ c.functions, f.name.text ∉ reservedWords ∧ f.name.text ∉ taken) ∧
        ∀ f ∈ c.callables, f.varFaults structs = [] := by
    constructor
    · intro h
      refine ⟨fun f hf => ?_, fun f hf => (h f hf).1.2⟩
      have hmem : f.callable ∈ c.callables := List.mem_append_right _ (List.mem_map_of_mem hf)
      exact ⟨(h _ hmem).1.1 f.name rfl, (h _ hmem).2 rfl⟩
    · rintro ⟨hnames, hvars⟩ f hf
      refine ⟨⟨?_, hvars f hf⟩, ?_⟩
      · rintro name hname
        rcases List.mem_append.1 hf with hf | hf
        · obtain ⟨g, -, rfl⟩ := List.mem_map.1 hf
          cases hname
        · obtain ⟨g, hg, rfl⟩ := List.mem_map.1 hf
          cases hname
          exact (hnames g hg).1
      · intro hchecked
        rcases List.mem_append.1 hf with hf | hf
        · obtain ⟨g, -, rfl⟩ := List.mem_map.1 hf
          cases hchecked
        · obtain ⟨g, hg, rfl⟩ := List.mem_map.1 hf
          exact (hnames g hg).2
  rw [faultsInTurn_eq_nil (fun f : Callable => (∀ name ∈ f.name, name.text ∉ reservedWords) ∧
    f.varFaults structs = []) (fun f => f.name.isSome) fun _ _ => Callable.declFaults_eq_nil, heach]
  unfold ContractDecl.callables
  rw [List.pairwise_append, hfunctions, hcross]
  tauto

/-- Nothing is reported of the names exactly if they are as they should be. -/
theorem declFaults_eq_nil : c.declFaults = [] ↔
    c.WellNamed ∧ ∀ f ∈ c.callables, f.varFaults c.structNames = [] := by
  have hstructs : faultsInTurn (·.name.text) (StructDecl.declFaults c.structNames) c.fieldNames
      c.structs = [] ↔ (∀ s ∈ c.structs, s.WellNamed c.structNames ∧ s.name.text ∉ c.fieldNames) ∧
        c.structNames.Nodup := by
    rw [faultsInTurn_eq_nil (StructDecl.WellNamed c.structNames) fun _ => True, pairwise_names]
    · simp only [true_imp_iff]
      rfl
    · intro taken s
      rw [StructDecl.declFaults_eq_nil, true_imp_iff]
  rw [ContractDecl.declFaults]
  simp only [List.append_eq_nil_iff, nameFault_eq_nil, takenFault_eq_nil, fieldFaults_eq_nil, hstructs,
    callableFaults_eq_nil]
  constructor
  · rintro ⟨⟨⟨⟨hname, hglobal⟩, hfields, hfieldsApart⟩, hall, hstructsApart⟩, hfunctions,
      hfunctionsApart, hctor, hvars⟩
    refine ⟨⟨⟨hname.1, hname.2, hglobal⟩, fun f hf => (hfields f hf).1.1, fun s hs => (hall s hs).1,
      fun f hf => (hfunctions f hf).1, ?_, hctor⟩, hvars⟩
    refine List.nodup_append.2 ⟨List.nodup_append.2 ⟨hfieldsApart, hstructsApart, ?_⟩,
      hfunctionsApart, ?_⟩
    · rintro _ hx _ hy rfl
      obtain ⟨s, hs, rfl⟩ := List.mem_map.1 hy
      exact (hall s hs).2 hx
    · rintro _ hx _ hy rfl
      obtain ⟨f, hf, rfl⟩ := List.mem_map.1 hy
      exact (hfunctions f hf).2 hx
  · rintro ⟨h, hvars⟩
    obtain ⟨houter, hfunctions, hcross⟩ := List.nodup_append.1 h.apart
    obtain ⟨hfields, hstructNames, hinner⟩ := List.nodup_append.1 houter
    refine ⟨⟨⟨⟨⟨h.name.1, h.name.2.1⟩, h.name.2.2⟩, fun f hf => ?_, hfields⟩, fun s hs => ?_, hstructNames⟩,
      fun f hf => ?_, hfunctions, h.ctor, hvars⟩
    · exact ⟨⟨h.fields f hf, List.not_mem_nil⟩, List.not_mem_nil⟩
    · exact ⟨h.structs s hs, fun hx => hinner _ hx _ (List.mem_map_of_mem hs) rfl⟩
    · exact ⟨h.functions f hf, fun hx => hcross _ hx _ (List.mem_map_of_mem hf) rfl⟩

end ContractDecl
end ContractLang
