import ContractLang.Proofs.Visibility
/-!
The table of a declared contract mirrors its tree. Symbols, scopes and records stand in the order of
the declarations, each symbol with members owns their scope, and the lists of the scopes and records
hold these symbols and no others, whatever has been reported.
-/
namespace ContractLang

open Pass Table

namespace Table

/-- The symbols that lie in a scope, with their names. -/
def symbolsIn (t : Table) (scope : ScopeId) : List (String × SymbolId) :=
  (t.symbols.zipIdx.filter (·.1.scope = scope)).map fun p => (p.1.name, ⟨p.2⟩)

def HasField (t : Table) (scope : ScopeId) (f : FieldDecl) (id : SymbolId) : Prop :=
  ∃ type, t.symbol id = .ok ⟨f.name.text, scope, f.node.span, .field type⟩

/-- The symbol of a struct type, with its fields in order. -/
structure HasStruct (t : Table) (s : StructDecl) (id : SymbolId) (inner : ScopeId)
    (fields : List SymbolId) : Prop where
  symbol : t.symbol id = .ok ⟨s.name.text, .members, s.node.span, .struct inner fields⟩
  fields : List.Forall₂ (t.HasField inner) s.fields fields

end Table

/-- The fields of a struct type, or the parameters and locals of a function. -/
def SymbolKind.parts : SymbolKind → List SymbolId
  | struct _ fields => fields
  | function info => info.params ++ info.locals
  | _ => []

/-- A symbol, followed by its fields, or its parameters and locals. -/
def Table.withParts (t : Table) (id : SymbolId) : List SymbolId :=
  id :: ((t.kind? id).map SymbolKind.parts).getD []

/-- The table has the symbols, scopes and records of the contract, and nothing else besides what is
built in. -/
structure ContractDecl.LaidOut (c : ContractDecl) (t : Table) (r : ContractRecord) : Prop where
  symbols : (t.symbols.drop 10).map (fun s => (s.name, s.span)) =
    c.labels.map fun l => (l.2, l.1.span)
  contract : t.symbol .contract = .ok ⟨c.name.text, .global, c.node.span, .contract r⟩
  fields : List.Forall₂ (t.HasField .members) c.fields r.fields
  structs : List.Forall₂ (fun s id => ∃ inner fields, t.HasStruct s id inner fields) c.structs r.structs
  -- The constructor, if there is one, comes before the functions.
  ctor : r.ctor.isSome = c.ctor.isSome
  callables : List.Forall₂ (fun f id => ∃ info, t.HasCallable f id info) c.callables r.callables
  -- The records leave no symbol out and name none twice.
  order : .contract :: (r.fields ++ (r.structs ++ r.callables).flatMap t.withParts) =
    symbolsFrom 10 c.labels.length
  scopes : t.scopes.map (fun s => (s.kind, s.parent)) =
    (.global, none) :: (.contract, some .global) ::
      (c.structs.map (fun _ => (.struct, some .members)) ++
        c.callables.map fun _ => (.function, some .members))
  owners : t.scopes.map (·.owner) = none :: some .contract :: (r.structs ++ r.callables).map some
  inner : ∀ id k, t.kind? id = some k → ∀ inner ∈ k.inner?, t.ownerOf? inner = some id
  global : t.entries .global =
    [("bool", .bool), ("char", .char), ("int", .int), ("string", .string)] ++ constants ++
      [(c.name.text, .contract)]
  others : ∀ scope, scope ≠ .global → t.entries scope = t.symbolsIn scope

/-- Declarations and symbols belong to each other one to one, in order. -/
structure ContractDecl.Paired (c : ContractDecl) (t : Table) : Prop where
  order : c.declarationIds.map t.declaredBy? = (symbolsFrom 10 c.declarationIds.length).map some
  inverse : ∀ n id, t.declaredBy? n = some id ↔ t.declaringNode? id = some n
  nodes : ∀ n, (t.declaredBy? n).isSome ↔ n ∈ c.declarationIds
  symbols : ∀ id, (t.declaringNode? id).isSome ↔ 10 ≤ id.index ∧ id.index < t.symbols.length

/-! ### Numbers and places -/

theorem symbols_numbered (n : Nat) (ds : List Decl) :
    (numbered n ds).map Prod.snd = symbolsFrom n ds.length := by
  rw [numbered, symbolsFrom, ← List.zipIdx_map_snd n ds, List.map_map, List.map_map]
  rfl

theorem placements_symbols {α : Type} {size : α → Nat} {decls : ScopeId → α → List Decl}
    (hsize : ∀ i x, (decls i x).length = size x) (k n : Nat) (xs : List α) :
    ((placements size k n xs).flatMap fun p => symbolsFrom p.symbol (size p.member)) =
      symbolsFrom n ((placements size k n xs).flatMap fun p => decls p.scope p.member).length := by
  induction xs generalizing k n with
  | nil => rfl
  | cons x xs ih =>
    rw [placements, List.flatMap_cons, List.flatMap_cons, ih, List.length_append, hsize, symbolsFrom_add]

theorem placements_scopes {α : Type} (size : α → Nat) (k n : Nat) (xs : List α) :
    (placements size k n xs).map (·.scope) = (List.range' k xs.length).map ScopeId.mk := by
  induction xs generalizing k n with
  | nil => rfl
  | cons x xs ih => rw [placements, List.map_cons, ih, List.length_cons, List.range'_succ, List.map_cons]

theorem Table.owners_eq (t : Table) :
    t.scopes.map (·.owner) = (List.range' 0 t.scopes.length).map (t.ownerOf? ⟨·⟩) := by
  refine List.ext_getElem (by simp) fun i hi _ => ?_
  have hlt : i < t.scopes.length := by simpa using hi
  simp [ownerOf?, hlt]

theorem owners_placed {α : Type} (size : α → Nat) (t : Table) (k n : Nat) (xs : List α) :
    (placements size k n xs).map (fun p => t.ownerOf? p.scope) =
      (List.range' k xs.length).map (t.ownerOf? ⟨·⟩) := by
  have hscopes := congrArg (List.map t.ownerOf?) (placements_scopes size k n xs)
  rwa [List.map_map, List.map_map] at hscopes

theorem SymbolKind.inner?_outline (k : SymbolKind) : k.outline.inner? = k.inner? := by
  cases k <;> rfl

namespace ContractDecl
variable {c : ContractDecl} {t : Table} {u : Unit} {ds : List Diagnostic}

/-! ### Symbols -/

theorem length_labels (c : ContractDecl) : c.labels.length =
    1 + c.fields.length + c.structDecls.length + c.callableDecls.length := by
  rw [← labels_decls, List.length_map, decls]
  simp only [List.length_cons, List.length_append, List.length_map]
  omega

/-- A symbol is as it was declared, with what is known of it by now. -/
theorem symbol_eq (h : c.declare.run .initial = .ok ⟨u, t, ds⟩) {d : Decl} {id : SymbolId}
    (hid : (d, id) ∈ numbered 10 c.decls) {k : SymbolKind} (hk : t.kind? id = some k) :
    t.symbol id = .ok ⟨d.symbol.name, d.symbol.scope, d.symbol.span, k⟩ := by
  obtain ⟨k', hsymbol, -⟩ := (declare_inv h).1.symbol_new hid
  rw [kind?_of_symbol hsymbol] at hk
  cases hk
  exact hsymbol

theorem kind_contract (h : c.declare.run .initial = .ok ⟨u, t, ds⟩) :
    t.kind? .contract = some (.contract c.record) := by
  have hrecord := declare_record h
  rw [contractAt, (declare_inv h).1.contract] at hrecord
  obtain ⟨id, hid, hrecord⟩ := Option.bind_eq_some_iff.1 hrecord
  cases hid
  obtain ⟨k, hk, hrecord⟩ := Option.bind_eq_some_iff.1 hrecord
  cases k with
  | contract info =>
    cases hrecord
    exact hk
  | _ => cases hrecord

theorem hasFields (h : c.declare.run .initial = .ok ⟨u, t, ds⟩) :
    List.Forall₂ (t.HasField .members) c.fields c.record.fields := by
  refine forall₂_symbolsFrom fun i f hi => ?_
  have hdecl : c.decls[i + 1]? = some (f.decl .members) := by
    have hlt : i < c.fields.length := (List.getElem?_eq_some_iff.1 hi).1
    rw [decls, List.getElem?_cons_succ, List.append_assoc,
      List.getElem?_append_left (by simpa using hlt), List.getElem?_map, hi]
    rfl
  have hid : (⟨11 + i⟩ : SymbolId) = ⟨10 + (i + 1)⟩ := by
    rw [Nat.add_comm i 1, ← Nat.add_assoc]
  obtain ⟨k, hsymbol, hk⟩ := (declare_inv h).1.symbol_new (mem_numbered.2 ⟨i + 1, hdecl, hid⟩)
  cases k with
  | field type => exact ⟨type, hsymbol⟩
  | _ => cases hk

theorem hasStruct (h : c.declare.run .initial = .ok ⟨u, t, ds⟩) {p : Placement StructDecl}
    (hp : p ∈ c.structPlaces) :
    t.HasStruct p.member ⟨p.symbol⟩ p.scope (symbolsFrom (p.symbol + 1) p.member.fields.length) := by
  refine ⟨?_, forall₂_symbolsFrom fun i f hi => ?_⟩
  · exact symbol_eq h (struct_numbered hp (mem_numbered.2 ⟨0, rfl, rfl⟩)) (declare_structs h p hp)
  · have hdecl : (p.member.decls .members p.scope)[i + 1]? = some (f.decl p.scope) := by
      rw [StructDecl.decls, List.getElem?_cons_succ, List.getElem?_map, hi]
      rfl
    have hid : (⟨p.symbol + 1 + i⟩ : SymbolId) = ⟨p.symbol + (i + 1)⟩ := by
      rw [Nat.add_assoc, Nat.add_comm 1 i]
    obtain ⟨k, hsymbol, hk⟩ := (declare_inv h).1.symbol_new
      (struct_numbered hp (mem_numbered.2 ⟨i + 1, hdecl, hid⟩))
    cases k with
    | field type => exact ⟨type, hsymbol⟩
    | _ => cases hk

theorem hasStructs (h : c.declare.run .initial = .ok ⟨u, t, ds⟩) :
    List.Forall₂ (fun s id => ∃ inner fields, t.HasStruct s id inner fields) c.structs
      c.record.structs := by
  have hmembers : c.structPlaces.map (·.member) = c.structs := placements_members ..
  rw [← hmembers, record, List.forall₂_map_left_iff, List.forall₂_map_right_iff, List.forall₂_same]
  exact fun p hp => ⟨_, _, hasStruct h hp⟩

theorem isSome_ctor (c : ContractDecl) : c.record.ctor.isSome = c.ctor.isSome := by
  rw [record]
  cases hctor : c.ctor with
  | none => rfl
  | some f => simp [callableSymbols, callablePlaces, callables, hctor, placements]

theorem withParts_struct (h : c.declare.run .initial = .ok ⟨u, t, ds⟩) {p : Placement StructDecl}
    (hp : p ∈ c.structPlaces) : t.withParts ⟨p.symbol⟩ = symbolsFrom p.symbol p.member.size := by
  rw [withParts, declare_structs h p hp, StructDecl.size, symbolsFrom_succ]
  rfl

theorem withParts_callable (h : c.declare.run .initial = .ok ⟨u, t, ds⟩) {p : Placement Callable}
    (hp : p ∈ c.callablePlaces) : t.withParts ⟨p.symbol⟩ = symbolsFrom p.symbol p.member.size := by
  rw [withParts, kind?_of_functionAt (declare_records h p hp), Callable.size, symbolsFrom_succ,
    symbolsFrom_add]
  rfl

/-- Gone through in the order of the records, the symbols follow each other by number. -/
theorem record_order (h : c.declare.run .initial = .ok ⟨u, t, ds⟩) :
    .contract :: (c.record.fields ++ (c.record.structs ++ c.record.callables).flatMap t.withParts) =
      symbolsFrom 10 c.labels.length := by
  have hstructs : c.record.structs.flatMap t.withParts =
      symbolsFrom (11 + c.fields.length) c.structDecls.length := by
    rw [record, List.flatMap_map]
    refine (List.flatMap_congr fun p hp => withParts_struct h hp).trans ?_
    exact placements_symbols (fun i s => s.length_decls .members i) ..
  have hcallables : c.record.callables.flatMap t.withParts =
      symbolsFrom (11 + c.fields.length + c.structDecls.length) c.callableDecls.length := by
    rw [callables_record, callableSymbols, List.flatMap_map]
    refine (List.flatMap_congr fun p hp => withParts_callable h hp).trans ?_
    exact placements_symbols (fun i f => f.length_decls .members i) ..
  have hlength : c.labels.length =
      (c.fields.length + (c.structDecls.length + c.callableDecls.length)) + 1 := by
    rw [length_labels]
    omega
  rw [List.flatMap_append, hstructs, hcallables, hlength, symbolsFrom_succ, symbolsFrom_add,
    symbolsFrom_add]
  rfl

/-! ### Scopes -/

theorem scopes_declared (h : c.declare.run .initial = .ok ⟨u, t, ds⟩) :
    t.scopes.map (fun s => (s.kind, s.parent)) = (.global, none) :: (.contract, some .global) ::
      (c.structs.map (fun _ => (.struct, some .members)) ++
        c.callables.map fun _ => (.function, some .members)) := by
  have hscopes := congrArg (List.map fun s : Scope => (s.kind, s.parent)) (declare_inv h).1.scopes
  rw [scopeOutlines, List.map_map] at hscopes
  refine Eq.trans hscopes ?_
  simp only [ContractDecl.scopes, List.map_append, List.map_cons, List.map_map]
  rfl

theorem owner_of_numbered (h : c.declare.run .initial = .ok ⟨u, t, ds⟩) {d : Decl} {id : SymbolId}
    (hid : (d, id) ∈ numbered 10 c.decls) {inner : ScopeId} (hinner : d.symbol.kind.inner? = some inner) :
    t.ownerOf? inner = some id := (declare_inv h).1.owned d id hid inner hinner

theorem owners_declared (h : c.declare.run .initial = .ok ⟨u, t, ds⟩) :
    t.scopes.map (·.owner) =
      none :: some .contract :: (c.record.structs ++ c.record.callables).map some := by
  obtain ⟨hd, -⟩ := declare_inv h
  have hlength : t.scopes.length = c.structs.length + c.callables.length + 1 + 1 := by
    rw [hd.scopes_length, ContractDecl.scopes, List.length_cons, List.length_append, List.length_map,
      List.length_map, Nat.add_comm]
    rfl
  have hglobal : t.ownerOf? ⟨0⟩ = none := hd.owners .global Nat.zero_lt_one
  have hcontract : t.ownerOf? ⟨1⟩ = some .contract :=
    owner_of_numbered h (d := ⟨c.node.id, _⟩) (mem_numbered.2 ⟨0, rfl, rfl⟩) rfl
  have hstructs : (List.range' 2 c.structs.length).map (t.ownerOf? ⟨·⟩) = c.record.structs.map some := by
    rw [← owners_placed StructDecl.size t 2 (11 + c.fields.length), record, List.map_map]
    refine List.map_congr_left fun p hp => ?_
    exact owner_of_numbered h (struct_numbered hp (mem_numbered.2 ⟨0, rfl, rfl⟩)) rfl
  have hcallables : (List.range' (2 + c.structs.length) c.callables.length).map (t.ownerOf? ⟨·⟩) =
      c.record.callables.map some := by
    rw [← owners_placed Callable.size t (2 + c.structs.length)
      (11 + c.fields.length + c.structDecls.length), callables_record, callableSymbols, List.map_map]
    refine List.map_congr_left fun p hp => ?_
    exact owner_of_numbered h (callable_numbered hp (mem_numbered.2 ⟨0, rfl, rfl⟩)) rfl
  rw [owners_eq, hlength, List.range'_succ, List.range'_succ, List.map_cons, List.map_cons, hglobal,
    hcontract, ← List.range'_append_1, List.map_append, hstructs, hcallables, List.map_append]

/-- A symbol with members owns their scope. -/
theorem owner_inner (h : c.declare.run .initial = .ok ⟨u, t, ds⟩) {id : SymbolId} {k : SymbolKind}
    (hk : t.kind? id = some k) {inner : ScopeId} (hinner : k.inner? = some inner) :
    t.ownerOf? inner = some id := by
  obtain ⟨hd, -⟩ := declare_inv h
  have hsort : t.outlines[id.index]?.map (·.kind) = some k.outline := by
    rw [← sort?_eq, sort?, hk]
    rfl
  rw [← k.inner?_outline] at hinner
  by_cases hlt : id.index < 10
  · have hnone : ∀ s ∈ initial.outlines, s.kind.inner? = none := by decide
    rw [hd.old hlt] at hsort
    obtain ⟨s, hs, hkind⟩ := Option.map_eq_some_iff.1 hsort
    rw [← hkind, hnone s (List.mem_of_getElem? hs)] at hinner
    cases hinner
  · obtain ⟨i, hi⟩ := Nat.exists_eq_add_of_le (Nat.not_lt.1 hlt)
    rw [hi, show t.outlines[10 + i]? = _ from hd.new i, Option.map_map] at hsort
    obtain ⟨d, hdecl, hkind⟩ := Option.map_eq_some_iff.1 hsort
    rw [← hkind] at hinner
    exact owner_of_numbered h (mem_numbered.2 ⟨i, hdecl, congrArg SymbolId.mk hi⟩) hinner

/-! ### Lists -/

theorem entries_global_declared (h : c.declare.run .initial = .ok ⟨u, t, ds⟩) :
    t.entries .global = [("bool", .bool), ("char", .char), ("int", .int), ("string", .string)] ++
      constants ++ [(c.name.text, .contract)] := by
  have hrest : listed 11 (c.fields.map (·.decl .members) ++ c.structDecls ++ c.callableDecls) .global =
      [] := by
    refine List.map_eq_nil_iff.1 ((listed_names ..).trans ?_)
    rw [c.declsIn_global_members]
    rfl
  have hlisted : listed 10 c.decls .global = [(c.name.text, .contract)] := by
    rw [decls, ← List.singleton_append, listed_append]
    exact congrArg ([(c.name.text, SymbolId.contract)] ++ ·) hrest
  rw [← hlisted]
  exact (declare_inv h).1.entries .global

theorem symbolsIn_outlines (t : Table) (scope : ScopeId) : t.symbolsIn scope =
    (t.outlines.zipIdx.filter (·.1.scope = scope)).map fun p => (p.1.name, ⟨p.2⟩) := by
  rw [symbolsIn, outlines, List.zipIdx_map, List.filter_map, List.map_map]
  rfl

/-- A scope of the contract lists the symbols that lie in it. -/
theorem entries_declared (h : c.declare.run .initial = .ok ⟨u, t, ds⟩) {scope : ScopeId}
    (hs : scope ≠ .global) : t.entries scope = t.symbolsIn scope := by
  obtain ⟨hd, -⟩ := declare_inv h
  have hnone : initial.entries scope = [] := by
    refine entries_of_le (Nat.pos_of_ne_zero fun hz => hs ?_)
    obtain ⟨i⟩ := scope
    cases hz
    rfl
  have hold : initial.outlines.zipIdx.filter (·.1.scope = scope) = [] := by
    have hglobal : ∀ p ∈ initial.outlines.zipIdx, p.1.scope = .global := by decide
    refine List.filter_eq_nil_iff.2 fun p hp => ?_
    rw [hglobal p hp, decide_eq_true_iff]
    exact hs.symm
  have hentries : t.entries scope = initial.entries scope ++ listed 10 c.decls scope := hd.entries scope
  have houtlines : t.outlines = initial.outlines ++ c.decls.map (·.symbol) := hd.outlines
  rw [hentries, hnone, symbolsIn_outlines, houtlines, List.zipIdx_append, List.filter_append, hold,
    List.zipIdx_map, List.filter_map, listed, numbered, List.filter_map, List.map_append, List.map_map,
    List.map_map]
  rfl

theorem symbols_declared (h : c.declare.run .initial = .ok ⟨u, t, ds⟩) :
    (t.symbols.drop 10).map (fun s => (s.name, s.span)) = c.labels.map fun l => (l.2, l.1.span) := by
  have houtlines : t.outlines = initial.outlines ++ c.decls.map (·.symbol) :=
    (declare_inv h).1.outlines
  calc (t.symbols.drop 10).map (fun s => (s.name, s.span))
      = (t.outlines.drop 10).map fun s => (s.name, s.span) := by
        rw [outlines, ← List.map_drop, List.map_map]
        rfl
    _ = (c.decls.map (·.symbol)).map fun s => (s.name, s.span) := by
        rw [houtlines]
        rfl
    _ = c.labels.map fun l => (l.2, l.1.span) := by
        rw [← labels_decls, List.map_map, List.map_map]
        rfl

theorem laidOut (h : c.declare.run .initial = .ok ⟨u, t, ds⟩) : c.LaidOut t c.record where
  symbols := symbols_declared h
  contract := symbol_eq h (d := ⟨c.node.id, _⟩) (mem_numbered.2 ⟨0, rfl, rfl⟩) (kind_contract h)
  fields := hasFields h
  structs := hasStructs h
  ctor := isSome_ctor c
  callables := hasCallables h
  order := record_order h
  scopes := scopes_declared h
  owners := owners_declared h
  inner _ _ hk _ hinner := owner_inner h hk hinner
  global := entries_global_declared h
  others _ hs := entries_declared h hs

/-! ### Nodes -/

theorem declaringNode?_iff (h : c.declare.run .initial = .ok ⟨u, t, ds⟩) {n : NodeId} {id : SymbolId} :
    t.declaringNode? id = some n ↔ ∃ d, (d, id) ∈ numbered 10 c.decls ∧ d.node = n := by
  have hnodes : t.nodes =
      Assoc.empty.insertAll ((numbered 10 c.decls).map fun p => (p.2, p.1.node)) :=
    (declare_inv h).1.nodes
  -- No two symbols have one number, whatever the nodes are.
  have hkeys : (((numbered 10 c.decls).map fun p => (p.2, p.1.node)).map Prod.fst).Nodup := by
    have hsymbols : ((numbered 10 c.decls).map fun p => (p.2, p.1.node)).map Prod.fst =
        symbolsFrom 10 c.decls.length := by
      rw [List.map_map]
      exact symbols_numbered ..
    rw [hsymbols]
    exact (List.nodup_range' ..).map fun _ _ he => SymbolId.mk.inj he
  rw [declaringNode?, hnodes]
  constructor
  · intro hget
    obtain hmem | hold := Assoc.mem_or_of_get?_insertAll hget
    · obtain ⟨p, hp, he⟩ := List.mem_map.1 hmem
      cases he
      exact ⟨p.1, hp, rfl⟩
    · cases hold
  · rintro ⟨d, hd, rfl⟩
    exact Assoc.get?_insertAll_of_mem hkeys (List.mem_map.2 ⟨(d, id), hd, rfl⟩)

theorem paired (h : c.declare.run .initial = .ok ⟨u, t, ds⟩) (hf : c.Founded t) : c.Paired t where
  order :=
    calc c.declarationIds.map t.declaredBy?
        = (numbered 10 c.decls).map fun p => t.declaredBy? p.1.node := by
          rw [← c.nodes_decls, ← nodes_numbered 10, List.map_map, List.map_map]
          rfl
      _ = (numbered 10 c.decls).map fun p => some p.2 :=
          List.map_congr_left fun p hp => (hf.declared p.1 p.2 hp).1
      _ = (symbolsFrom 10 c.declarationIds.length).map some := by
          rw [← c.nodes_decls, List.length_map, ← symbols_numbered, List.map_map]
          rfl
  inverse n id := by
    refine Iff.trans ⟨hf.origin n id, ?_⟩ (declaringNode?_iff h).symm
    rintro ⟨d, hd, rfl⟩
    exact (hf.declared d id hd).1
  nodes n := by
    rw [Option.isSome_iff_exists, ← c.nodes_decls, List.mem_map]
    constructor
    · rintro ⟨id, hid⟩
      obtain ⟨d, hd, hnode⟩ := hf.origin n id hid
      obtain ⟨i, hi, -⟩ := mem_numbered.1 hd
      exact ⟨d, List.mem_of_getElem? hi, hnode⟩
    · rintro ⟨d, hd, rfl⟩
      obtain ⟨id, hid⟩ := exists_numbered 10 c.decls hd
      exact ⟨id, (hf.declared d id hid).1⟩
  symbols id := by
    have hlength : t.symbols.length = 10 + c.decls.length := (declare_inv h).1.length
    rw [Option.isSome_iff_exists, hlength, ← mem_symbolsFrom, ← symbols_numbered, List.mem_map]
    constructor
    · rintro ⟨n, hid⟩
      obtain ⟨d, hd, -⟩ := (declaringNode?_iff h).1 hid
      exact ⟨(d, id), hd, rfl⟩
    · rintro ⟨⟨d, _⟩, hd, rfl⟩
      exact ⟨d.node, (declaringNode?_iff h).2 ⟨d, hd, rfl⟩⟩

end ContractDecl

/-- Declaring a contract lays its symbols, scopes and records out as its tree does, whatever is
reported. Where no two declarations share a node, nodes and symbols find each other. -/
theorem Program.declareSymbols_laidOut {p : Program} {c : ContractDecl} (hc : p.contract = some c) :
    ∃ t r, p.declareSymbols.run .initial = .ok ⟨(), t, c.declFaults⟩ ∧
      t.contract = some .contract ∧ c.LaidOut t r ∧ (c.declarationIds.Nodup → c.Paired t) := by
  obtain ⟨t, hdeclare, hv⟩ := c.exists_declared
  obtain ⟨hd, -⟩ := ContractDecl.declare_inv hdeclare
  refine ⟨t, c.record, ?_, hd.contract, ContractDecl.laidOut hdeclare, fun hn => ?_⟩
  · rw [Program.declareSymbols, hc]
    exact hdeclare
  · exact ContractDecl.paired hdeclare (ContractDecl.founded_of_declares hv hn hd)

section
open Build

/-- Names are declared twice, in blocks inside of blocks too, and a struct has no fields. -/
def crowded : Program := program (some (Id.run (StateT.run' (do
  let xs ← field (← arrayType (← namedType "int")) "x" none
  let again ← field (← namedType "S") "x" none
  let inner ← field (← namedType "int") "x" none
  let s ← struct "S" [inner, ← field (← namedType "S") "next" none]
  let empty ← struct "S" []
  let a ← varDecl (← namedType "int") "a"
  let b ← varDecl (← namedType "int") "a"
  let d ← varDecl (← namedType "bool") "d"
  let nested ← branch (← literal (.bool true)) [← declare [b] none] none
  let body ← branch (← literal (.bool false)) [nested, ← declare [d] none] none
  let f ← function "f" [] [a] [body]
  let g ← function "f" [← namedType "int"] [] []
  let make ← ctor [← varDecl (← namedType "S") "s"] []
  return { ← contract "C" with
    fields := [xs, again], structs := [s, empty], ctor := some make, functions := [f, g] }) 0)))

end

theorem crowded_laidOut : ∃ c, crowded.contract = some c ∧ c.declarationIds.Nodup ∧
    c.declFaults ≠ [] ∧ ∃ t r, crowded.declareSymbols.run .initial = .ok ⟨(), t, c.declFaults⟩ ∧
      t.contract = some .contract ∧ c.LaidOut t r ∧ c.Paired t := by
  have hn : ∀ c ∈ crowded.contract, c.declarationIds.Nodup ∧ c.declFaults ≠ [] := by
    decide +kernel
  obtain ⟨c, hc⟩ : ∃ c, crowded.contract = some c := ⟨_, rfl⟩
  obtain ⟨hnodup, hfaults⟩ := hn c hc
  obtain ⟨t, r, hrun, hcontract, hlaid, hpaired⟩ := Program.declareSymbols_laidOut hc
  exact ⟨c, hc, hnodup, hfaults, t, r, hrun, hcontract, hlaid, hpaired hnodup⟩

end ContractLang
