import Mathlib.Data.List.Basic
import ContractLang.Phase
import ContractLang.Proofs.Lookup
/-!
Renamed programs and tables. A renaming gives nodes other numbers, no two of them the same one, and
spans other places. A table is renamed along with its program: what it knows of nodes moves to their
new numbers, and declared symbols move to their new places. Every operation on tables does to the
renamed table what it does to the table.
-/
namespace ContractLang

structure Renaming where
  node : NodeId → NodeId
  injective : Function.Injective node
  span : Span → Span

/-! ### Programs -/

def Node.rename (ρ : Renaming) (n : Node) : Node := ⟨ρ.node n.id, ρ.span n.span⟩

def Ident.rename (ρ : Renaming) (i : Ident) : Ident := ⟨i.text, ρ.span i.span⟩

def TypeName.rename (ρ : Renaming) : TypeName → TypeName
  | named span name => named (ρ.span span) name
  | array span element => array (ρ.span span) (element.rename ρ)
  | map span key value => map (ρ.span span) (key.rename ρ) (value.rename ρ)
  | void span => void (ρ.span span)

mutual
def Expr.rename (ρ : Renaming) : Expr → Expr
  | .literal node value => .literal (node.rename ρ) value
  | .load node source => .load (node.rename ρ) (source.rename ρ)
  | .call node callee args => .call (node.rename ρ) (callee.rename ρ) (renameExprs ρ args)
  | .binary node op left right => .binary (node.rename ρ) op (left.rename ρ) (right.rename ρ)
  | .unary node op operand => .unary (node.rename ρ) op (operand.rename ρ)

def Designator.rename (ρ : Renaming) : Designator → Designator
  | .name node name => .name (node.rename ρ) name
  | .index node base position => .index (node.rename ρ) (base.rename ρ) (position.rename ρ)
  | .member node base member => .member (node.rename ρ) (base.rename ρ) (member.rename ρ)

def renameExprs (ρ : Renaming) : List Expr → List Expr
  | [] => []
  | e :: rest => e.rename ρ :: renameExprs ρ rest
end

def VarDecl.rename (ρ : Renaming) (v : VarDecl) : VarDecl :=
  ⟨v.node.rename ρ, v.name.rename ρ, v.type.rename ρ⟩

mutual
def Stmt.rename (ρ : Renaming) : Stmt → Stmt
  | .declare node vars init =>
    .declare (node.rename ρ) (vars.map (·.rename ρ)) (init.map (·.rename ρ))
  | .assign node target value => .assign (node.rename ρ) (target.rename ρ) (value.rename ρ)
  | .assignAll node targets source =>
    .assignAll (node.rename ρ) (targets.map (·.rename ρ)) (source.rename ρ)
  | .branch node condition ⟨onTrue, spanTrue⟩ none =>
    .branch (node.rename ρ) (condition.rename ρ) ⟨renameStmts ρ onTrue, ρ.span spanTrue⟩ none
  | .branch node condition ⟨onTrue, spanTrue⟩ (some ⟨onFalse, spanFalse⟩) =>
    .branch (node.rename ρ) (condition.rename ρ) ⟨renameStmts ρ onTrue, ρ.span spanTrue⟩
      (some ⟨renameStmts ρ onFalse, ρ.span spanFalse⟩)
  | .giveBack node values => .giveBack (node.rename ρ) (renameExprs ρ values)

def renameStmts (ρ : Renaming) : List Stmt → List Stmt
  | [] => []
  | s :: rest => s.rename ρ :: renameStmts ρ rest
end

def BlockOf.rename (ρ : Renaming) (b : Block) : Block := ⟨renameStmts ρ b.stmts, ρ.span b.span⟩

def FieldDecl.rename (ρ : Renaming) (f : FieldDecl) : FieldDecl :=
  ⟨f.node.rename ρ, f.name.rename ρ, f.type.rename ρ, f.init.map (·.rename ρ)⟩

def StructDecl.rename (ρ : Renaming) (s : StructDecl) : StructDecl :=
  ⟨s.node.rename ρ, s.name.rename ρ, s.fields.map (·.rename ρ)⟩

def ConstructorDecl.rename (ρ : Renaming) (c : ConstructorDecl) : ConstructorDecl :=
  ⟨c.node.rename ρ, c.params.map (·.rename ρ), c.body.rename ρ⟩

def FunctionDecl.rename (ρ : Renaming) (f : FunctionDecl) : FunctionDecl :=
  ⟨f.node.rename ρ, f.name.rename ρ, f.returns.map (·.rename ρ), f.params.map (·.rename ρ),
    f.body.rename ρ⟩

def Callable.rename (ρ : Renaming) (f : Callable) : Callable :=
  ⟨f.node.rename ρ, f.name.map (·.rename ρ), f.returns.map (·.rename ρ), f.params.map (·.rename ρ),
    f.body.rename ρ⟩

def ContractDecl.rename (ρ : Renaming) (c : ContractDecl) : ContractDecl :=
  ⟨c.node.rename ρ, c.name.rename ρ, c.fields.map (·.rename ρ), c.structs.map (·.rename ρ),
    c.ctor.map (·.rename ρ), c.functions.map (·.rename ρ)⟩

def Program.rename (ρ : Renaming) (p : Program) : Program :=
  ⟨p.contract.map (·.rename ρ), ρ.span p.span⟩

section
variable (ρ : Renaming)

theorem TypeName.text_rename (type : TypeName) : (type.rename ρ).text = type.text := by
  induction type with
  | named span name => rfl
  | array span element ih => rw [rename, text, text, ih]
  | map span key value ihk ihv => rw [rename, text, text, ihk, ihv]
  | void span => rfl

theorem TypeName.isVoid_rename (type : TypeName) : (type.rename ρ).isVoid = type.isVoid := by
  cases type <;> rfl

theorem TypeName.span_rename (type : TypeName) : (type.rename ρ).span = ρ.span type.span := by
  cases type <;> rfl

theorem Expr.span_rename (e : Expr) : (e.rename ρ).span = ρ.span e.span := by
  cases e <;> rfl

theorem Designator.id_rename (d : Designator) : (d.rename ρ).id = ρ.node d.id := by
  cases d <;> rfl

theorem Designator.span_rename (d : Designator) : (d.rename ρ).span = ρ.span d.span := by
  cases d <;> rfl

theorem Designator.text_rename (d : Designator) : (d.rename ρ).text = d.text := by
  induction d using Designator.text.induct with
  | case1 node name => rfl
  | case2 node base position ih => rw [rename, text, text, ih]
  | case3 node base member ih =>
    rw [rename, text, text, ih]
    rfl

theorem renameExprs_eq (es : List Expr) : renameExprs ρ es = es.map (·.rename ρ) := by
  induction es with
  | nil => rfl
  | cons e rest ih => rw [renameExprs, ih, List.map_cons]

theorem Stmt.id_rename (s : Stmt) : (s.rename ρ).id = ρ.node s.id := by
  cases s with
  | branch node condition onTrue onFalse => cases onFalse <;> rfl
  | _ => rfl

mutual
theorem Stmt.locals_rename (s : Stmt) : (s.rename ρ).locals = s.locals.map (·.rename ρ) := by
  cases s with
  | branch node condition onTrue onFalse =>
    cases onFalse with
    | none => exact localsOf_rename onTrue.stmts
    | some onFalse =>
      rw [Stmt.rename, Stmt.locals, Stmt.locals, localsOf_rename onTrue.stmts,
        localsOf_rename onFalse.stmts, List.map_append]
  | _ => rfl

theorem localsOf_rename (b : List Stmt) :
    localsOf (renameStmts ρ b) = (localsOf b).map (·.rename ρ) := by
  cases b with
  | nil => rfl
  | cons s rest =>
    rw [renameStmts, localsOf, localsOf, s.locals_rename, localsOf_rename rest, List.map_append]
end

theorem ContractDecl.callables_rename (c : ContractDecl) :
    (c.rename ρ).callables = c.callables.map (·.rename ρ) := by
  have hctor : (c.rename ρ).ctor.toList = c.ctor.toList.map (·.rename ρ) := Option.toList_map
  have hfunctions : (c.rename ρ).functions = c.functions.map (·.rename ρ) := rfl
  unfold callables
  rw [hctor, hfunctions, List.map_append, List.map_map, List.map_map, List.map_map, List.map_map]
  rfl

end

/-! ### Maps -/

namespace Assoc
variable {κ ι α β : Type}

def mapKeys (f : κ → ι) (m : Assoc κ α) : Assoc ι α := ⟨m.entries.map fun p => (f p.1, p.2)⟩

def mapValues (f : α → β) (m : Assoc κ α) : Assoc κ β := ⟨m.entries.map fun p => (p.1, f p.2)⟩

variable [DecidableEq κ] [DecidableEq ι]

theorem get?_mapKeys {f : κ → ι} (hf : Function.Injective f) (m : Assoc κ α) (k : κ) :
    (m.mapKeys f).get? (f k) = m.get? k := by
  unfold get? mapKeys
  induction m.entries with
  | nil => rfl
  | cons p rest ih =>
    simp only [List.map_cons, lookup, hf.eq_iff]
    split
    · rfl
    · exact ih

theorem insert_mapKeys {f : κ → ι} (hf : Function.Injective f) (m : Assoc κ α) (k : κ) (a : α) :
    (m.mapKeys f).insert (f k) a = (m.insert k a).mapKeys f := by
  unfold insert mapKeys
  congr 1
  induction m.entries with
  | nil => rfl
  | cons p rest ih =>
    simp only [List.map_cons, write, hf.eq_iff]
    split
    · rfl
    · rw [ih]
      rfl

theorem insert_mapValues (f : α → β) (m : Assoc κ α) (k : κ) (a : α) :
    (m.mapValues f).insert k (f a) = (m.insert k a).mapValues f := by
  unfold insert mapValues
  congr 1
  induction m.entries with
  | nil => rfl
  | cons p rest ih =>
    simp only [List.map_cons, write]
    split
    · rfl
    · rw [ih]
      rfl

end Assoc

/-! ### Symbols -/

instance : DecidablePred SymbolKind.IsStructural := fun k => decidable_of_iff _ k.isStructural_iff.symm

namespace SymbolKind

/-- Only the statements that see a local are nodes. -/
def rename (ρ : Renaming) : SymbolKind → SymbolKind
  | localVar type visibility => localVar type (visibility.map ρ.node)
  | k => k

variable (ρ : Renaming) (k : SymbolKind)

theorem isType_rename : (k.rename ρ).isType = k.isType := by
  cases k <;> rfl

theorem isValue_rename : (k.rename ρ).isValue = k.isValue := by
  cases k <;> rfl

theorem isLocal_rename : (k.rename ρ).isLocal = k.isLocal := by
  cases k <;> rfl

theorem valueType?_rename : (k.rename ρ).valueType? = k.valueType? := by
  cases k <;> rfl

theorem element?_rename : (k.rename ρ).element? = k.element? := by
  cases k <;> rfl

theorem contract?_rename : (k.rename ρ).contract? = k.contract? := by
  cases k <;> rfl

theorem function?_rename : (k.rename ρ).function? = k.function? := by
  cases k <;> rfl

theorem structScope?_rename : (k.rename ρ).structScope? = k.structScope? := by
  cases k <;> rfl

theorem isSeenBy_rename (stmt : NodeId) :
    (k.rename ρ).isSeenBy (ρ.node stmt) = k.isSeenBy stmt := by
  cases k with
  | localVar type visibility =>
    simp only [rename, isSeenBy, List.contains_eq_mem, decide_eq_decide]
    exact List.mem_map_of_injective ρ.injective
  | _ => rfl

theorem rename_of_structural (h : k.IsStructural) : k.rename ρ = k := by
  cases k with
  | localVar type visibility => cases h
  | _ => rfl

/-- Two changes of kinds, one of which does to renamed kinds what the other does. -/
def Matches (f f' : SymbolKind → SymbolKind) : Prop :=
  ∀ k, f' (k.rename ρ) = (f k).rename ρ ∧ ((f k).IsStructural ↔ k.IsStructural)

theorem matches_withValueType (type : SymbolId) :
    Matches ρ (withValueType type) (withValueType type) := by
  intro k
  cases k <;> exact ⟨rfl, Iff.rfl⟩

theorem matches_mapContract (f : ContractRecord → ContractRecord) :
    Matches ρ (mapContract f) (mapContract f) := by
  intro k
  cases k <;> exact ⟨rfl, Iff.rfl⟩

theorem matches_mapFunction (f : FunctionRecord → FunctionRecord) :
    Matches ρ (mapFunction f) (mapFunction f) := by
  intro k
  cases k <;> exact ⟨rfl, Iff.rfl⟩

theorem matches_addStructField (id : SymbolId) :
    Matches ρ (addStructField id) (addStructField id) := by
  intro k
  cases k <;> exact ⟨rfl, Iff.rfl⟩

theorem matches_addVisibility (stmt : NodeId) :
    Matches ρ (addVisibility stmt) (addVisibility (ρ.node stmt)) := by
  intro k
  cases k with
  | localVar type visibility =>
    refine ⟨?_, Iff.rfl⟩
    simp only [rename, addVisibility, List.mem_map_of_injective ρ.injective]
    split
    · rfl
    · rw [List.map_append, List.map_singleton]
  | _ => exact ⟨rfl, Iff.rfl⟩

end SymbolKind

/-- The symbol with this number. Those of the initial table and array and map types have no place in
a program. -/
def Symbol.rename (ρ : Renaming) (i : Nat) (s : Symbol) : Symbol where
  name := s.name
  scope := s.scope
  span := if i < Table.initial.symbols.length ∨ s.kind.IsStructural then s.span else ρ.span s.span
  kind := s.kind.rename ρ

theorem Symbol.rename_of_structural (ρ : Renaming) (i : Nat) {s : Symbol}
    (h : s.kind.IsStructural) : s.rename ρ i = s := by
  unfold Symbol.rename
  rw [if_pos (.inr h), s.kind.rename_of_structural ρ h]

theorem Symbol.rename_declared (ρ : Renaming) {i : Nat} (hi : Table.initial.symbols.length ≤ i)
    {s : Symbol} (h : ¬s.kind.IsStructural) :
    s.rename ρ i = ⟨s.name, s.scope, ρ.span s.span, s.kind.rename ρ⟩ := by
  unfold Symbol.rename
  rw [if_neg]
  rintro (hlt | hs)
  · omega
  · exact h hs

/-! ### Tables -/

namespace Table

def rename (ρ : Renaming) (t : Table) : Table where
  names := t.names
  symbols := t.symbols.mapIdx (Symbol.rename ρ)
  scopes := t.scopes
  contract := t.contract
  arrays := t.arrays
  maps := t.maps
  declared := t.declared.mapKeys ρ.node
  nodes := t.nodes.mapValues ρ.node
  bindings := t.bindings.mapKeys ρ.node
  types := t.types.mapKeys ρ.node

theorem rename_initial (ρ : Renaming) : initial.rename ρ = initial := rfl

/-- The symbols of the initial table are there, so that a new one is none of them. -/
def Started (t : Table) : Prop := initial.symbols.length ≤ t.symbols.length

variable (ρ : Renaming) (t : Table)

theorem length_rename : (t.rename ρ).symbols.length = t.symbols.length := List.length_mapIdx

/-! #### What is asked of a table -/

theorem symbol_rename (id : SymbolId) :
    (t.rename ρ).symbol id = (t.symbol id).map (Symbol.rename ρ id.index) := by
  have hget : (t.rename ρ).symbols[id.index]? =
      t.symbols[id.index]?.map (Symbol.rename ρ id.index) := List.getElem?_mapIdx
  unfold symbol
  rw [hget]
  cases t.symbols[id.index]? <;> rfl

theorem nameOf_rename (id : SymbolId) : (t.rename ρ).nameOf id = t.nameOf id := by
  unfold nameOf
  rw [symbol_rename]
  cases t.symbol id <;> rfl

theorem kindOf_rename (id : SymbolId) :
    (t.rename ρ).kindOf id = (t.kindOf id).map (·.rename ρ) := by
  unfold kindOf
  rw [symbol_rename]
  cases t.symbol id <;> rfl

/-- What does not depend on nodes is the same of the renamed symbol. -/
theorem map_kindOf_rename {β : Type} {f f' : SymbolKind → β} (hf : ∀ k, f' (k.rename ρ) = f k)
    (id : SymbolId) : ((t.rename ρ).kindOf id).map f' = (t.kindOf id).map f := by
  rw [kindOf_rename]
  cases t.kindOf id with
  | error e => rfl
  | ok k => exact congrArg Except.ok (hf k)

theorem function?_rename (id : SymbolId) : (t.rename ρ).function? id = t.function? id :=
  t.map_kindOf_rename ρ (·.function?_rename ρ) id

theorem valueType?_rename (id : SymbolId) : (t.rename ρ).valueType? id = t.valueType? id :=
  t.map_kindOf_rename ρ (·.valueType?_rename ρ) id

theorem element?_rename (id : SymbolId) : (t.rename ρ).element? id = t.element? id :=
  t.map_kindOf_rename ρ (·.element?_rename ρ) id

theorem isSeenBy_rename (id : SymbolId) (stmt : NodeId) :
    (t.rename ρ).isSeenBy id (ρ.node stmt) = t.isSeenBy id stmt :=
  t.map_kindOf_rename ρ (fun k => k.isSeenBy_rename ρ stmt) id

theorem memberScope_rename : (t.rename ρ).memberScope = t.memberScope := by
  have hrecord : (t.rename ρ).contractRecord? = t.contractRecord? := by
    unfold contractRecord?
    cases h : t.contract with
    | none =>
      have hnone : (t.rename ρ).contract = none := h
      rw [hnone]
    | some c =>
      have hsome : (t.rename ρ).contract = some c := h
      rw [hsome]
      exact t.map_kindOf_rename ρ (·.contract?_rename ρ) c
  unfold memberScope
  rw [hrecord]

theorem nearest_rename (id : ScopeId) (name : String) :
    (t.rename ρ).nearest id name = t.nearest id name :=
  nearest_congr (show (t.rename ρ).scopes = t.scopes from rfl) id name

theorem lookup_rename (id : ScopeId) (name : String) :
    (t.rename ρ).lookup id name = t.lookup id name := by
  unfold lookup
  rw [nearest_rename]
  rfl

theorem firstVisible?_rename (stmt : Option NodeId) (ids : List SymbolId) :
    (t.rename ρ).firstVisible? (stmt.map ρ.node) ids = t.firstVisible? stmt ids := by
  cases stmt with
  | none => rfl
  | some stmt =>
    change (t.rename ρ).firstVisible (ρ.node stmt) ids = t.firstVisible stmt ids
    induction ids with
    | nil => rfl
    | cons id rest ih => rw [firstVisible, firstVisible, isSeenBy_rename, ih]

theorem takenNames_rename (function : SymbolId) (locals : List SymbolId) :
    (t.rename ρ).takenNames function locals = t.takenNames function locals := by
  have hname : (t.rename ρ).nameOf = t.nameOf := funext (t.nameOf_rename ρ)
  unfold takenNames
  rw [function?_rename, hname]

theorem declaredBy?_rename (node : NodeId) :
    (t.rename ρ).declaredBy? (ρ.node node) = t.declaredBy? node :=
  Assoc.get?_mapKeys ρ.injective t.declared node

theorem boundTo?_rename (node : NodeId) :
    (t.rename ρ).boundTo? (ρ.node node) = t.boundTo? node :=
  Assoc.get?_mapKeys ρ.injective t.bindings node

theorem typeAt?_rename (node : NodeId) : (t.rename ρ).typeAt? (ρ.node node) = t.typeAt? node :=
  Assoc.get?_mapKeys ρ.injective t.types node

/-! #### What is done to a table -/

theorem rename_noteDeclaration (node : NodeId) (id : SymbolId) :
    (t.rename ρ).noteDeclaration (ρ.node node) id = (t.noteDeclaration node id).rename ρ := by
  have hdeclared := Assoc.insert_mapKeys ρ.injective t.declared node id
  have hnodes := Assoc.insert_mapValues ρ.node t.nodes id node
  unfold noteDeclaration rename
  rw [hdeclared, hnodes]

theorem rename_noteBinding (node : NodeId) (id : SymbolId) :
    (t.rename ρ).noteBinding (ρ.node node) id = (t.noteBinding node id).rename ρ := by
  have hbindings := Assoc.insert_mapKeys ρ.injective t.bindings node id
  unfold noteBinding rename
  rw [hbindings]

theorem rename_noteType (node : NodeId) (id : SymbolId) :
    (t.rename ρ).noteType (ρ.node node) id = (t.noteType node id).rename ρ := by
  have htypes := Assoc.insert_mapKeys ρ.injective t.types node id
  unfold noteType rename
  rw [htypes]

theorem rename_copyBinding (node other : NodeId) :
    (t.rename ρ).copyBinding (ρ.node node) (ρ.node other) = (t.copyBinding node other).rename ρ := by
  have hget : (t.rename ρ).bindings.get? (ρ.node other) = t.bindings.get? other :=
    t.boundTo?_rename ρ other
  unfold copyBinding
  rw [hget]
  cases t.bindings.get? other with
  | none => rfl
  | some id => exact t.rename_noteBinding ρ node id

theorem rename_addSymbol (s : Symbol) :
    (t.rename ρ).addSymbol (s.rename ρ t.symbols.length) =
      ((t.addSymbol s).1, (t.addSymbol s).2.rename ρ) := by
  have happend : (t.symbols ++ [s]).mapIdx (Symbol.rename ρ) =
      t.symbols.mapIdx (Symbol.rename ρ) ++ [s.rename ρ t.symbols.length] := by
    rw [List.mapIdx_append]
    simp
  unfold addSymbol
  rw [length_rename]
  simp only [rename, happend]
  rfl

theorem rename_updateScope (id : ScopeId) (f : Scope → Scope) :
    (t.rename ρ).updateScope id f = (t.updateScope id f).map (·.rename ρ) := by
  unfold updateScope
  by_cases h : id.index < t.scopes.length
  · have h' : id.index < (t.rename ρ).scopes.length := h
    rw [if_pos h, if_pos h']
    rfl
  · have h' : ¬id.index < (t.rename ρ).scopes.length := h
    rw [if_neg h, if_neg h']
    rfl

theorem rename_declare {t : Table} (ht : t.Started) (scope : ScopeId) (name : String) (span : Span)
    {kind : SymbolKind} (hk : ¬kind.IsStructural) :
    (t.rename ρ).declare scope name (ρ.span span) (kind.rename ρ) =
      (t.declare scope name span kind).map fun p => (p.1, p.2.rename ρ) := by
  have hsymbol : Symbol.rename ρ t.symbols.length ⟨name, scope, span, kind⟩ =
      ⟨name, scope, ρ.span span, kind.rename ρ⟩ := Symbol.rename_declared ρ ht hk
  unfold declare
  rw [← hsymbol, rename_addSymbol]
  simp only [rename_updateScope]
  cases (t.addSymbol ⟨name, scope, span, kind⟩).2.updateScope scope
    (·.add name (t.addSymbol ⟨name, scope, span, kind⟩).1) <;> rfl

theorem rename_updateKind (id : SymbolId) {f f' : SymbolKind → SymbolKind}
    (hf : SymbolKind.Matches ρ f f') :
    (t.rename ρ).updateKind id f' = (t.updateKind id f).map (·.rename ρ) := by
  have hmodify : (t.symbols.mapIdx (Symbol.rename ρ)).modify id.index
        (fun s => { s with kind := f' s.kind }) =
      (t.symbols.modify id.index fun s => { s with kind := f s.kind }).mapIdx (Symbol.rename ρ) := by
    apply List.ext_getElem?
    intro i
    rw [List.getElem?_modify, List.getElem?_mapIdx, List.getElem?_mapIdx, List.getElem?_modify]
    cases t.symbols[i]? with
    | none => rfl
    | some s =>
      by_cases hi : id.index = i
      · have hkind := (hf s.kind).1
        simp [hi, Symbol.rename, hkind, (hf s.kind).2]
      · simp [hi]
  unfold updateKind
  rw [length_rename]
  split
  · simp only [Except.map, rename, hmodify]
  · rfl

theorem rename_updateContract (f : ContractRecord → ContractRecord) :
    (t.rename ρ).updateContract f = (t.updateContract f).map (·.rename ρ) := by
  unfold updateContract
  cases h : t.contract with
  | none =>
    have hnone : (t.rename ρ).contract = none := h
    rw [hnone]
    rfl
  | some c =>
    have hsome : (t.rename ρ).contract = some c := h
    rw [hsome]
    exact t.rename_updateKind ρ c (SymbolKind.matches_mapContract ρ f)

/-! #### Types -/

theorem rename_arrayOf (element : SymbolId) :
    (t.rename ρ).arrayOf element = (t.arrayOf element).map fun p => (p.1, p.2.rename ρ) := by
  have hsymbol : ∀ name, Symbol.rename ρ t.symbols.length
      ⟨Table.arrayName name, .global, .zero, .array element⟩ =
      ⟨Table.arrayName name, .global, .zero, .array element⟩ := fun name =>
    Symbol.rename_of_structural ρ _ trivial
  unfold arrayOf
  cases h : t.arrays.get? element with
  | some id =>
    have h' : (t.rename ρ).arrays.get? element = some id := h
    rw [h']
    rfl
  | none =>
    have h' : (t.rename ρ).arrays.get? element = none := h
    rw [h', nameOf_rename]
    cases t.nameOf element with
    | error e => rfl
    | ok name =>
      simp only [bind, Except.bind]
      rw [← hsymbol name, rename_addSymbol, hsymbol name]
      rfl

theorem rename_mapOf (key value : SymbolId) :
    (t.rename ρ).mapOf key value = (t.mapOf key value).map fun p => (p.1, p.2.rename ρ) := by
  have hsymbol : ∀ keyName valueName, Symbol.rename ρ t.symbols.length
      ⟨Table.mapName keyName valueName, .global, .zero, .map key value⟩ =
      ⟨Table.mapName keyName valueName, .global, .zero, .map key value⟩ := fun _ _ =>
    Symbol.rename_of_structural ρ _ trivial
  unfold mapOf
  cases h : t.maps.get? (key, value) with
  | some id =>
    have h' : (t.rename ρ).maps.get? (key, value) = some id := h
    rw [h']
    rfl
  | none =>
    have h' : (t.rename ρ).maps.get? (key, value) = none := h
    rw [h', nameOf_rename, nameOf_rename]
    cases t.nameOf key with
    | error e => rfl
    | ok keyName =>
      cases t.nameOf value with
      | error e => rfl
      | ok valueName =>
        simp only [bind, Except.bind]
        rw [← hsymbol keyName valueName, rename_addSymbol, hsymbol keyName valueName]
        rfl

/-! #### No symbol goes away -/

variable {t : Table}

theorem length_updateScope {t' : Table} {id : ScopeId} {f : Scope → Scope}
    (h : t.updateScope id f = .ok t') : t'.symbols.length = t.symbols.length := by
  unfold updateScope at h
  split at h
  · cases h
    rfl
  · cases h

theorem length_updateKind {t' : Table} {id : SymbolId} {f : SymbolKind → SymbolKind}
    (h : t.updateKind id f = .ok t') : t'.symbols.length = t.symbols.length := by
  unfold updateKind at h
  split at h
  · cases h
    exact List.length_modify ..
  · cases h

theorem length_updateContract {t' : Table} {f : ContractRecord → ContractRecord}
    (h : t.updateContract f = .ok t') : t'.symbols.length = t.symbols.length := by
  unfold updateContract at h
  split at h
  · cases h
    rfl
  · exact length_updateKind h

theorem length_addSymbol (s : Symbol) : (t.addSymbol s).2.symbols.length = t.symbols.length + 1 :=
  List.length_append

theorem length_declare {scope : ScopeId} {name : String} {span : Span} {kind : SymbolKind}
    {p : SymbolId × Table} (h : t.declare scope name span kind = .ok p) :
    p.2.symbols.length = t.symbols.length + 1 := by
  unfold declare at h
  cases hs : (t.addSymbol ⟨name, scope, span, kind⟩).2.updateScope scope
      (·.add name (t.addSymbol ⟨name, scope, span, kind⟩).1) with
  | error e => simp [hs] at h
  | ok t' =>
    simp only [hs] at h
    cases h
    rw [length_updateScope hs, length_addSymbol]

theorem length_arrayOf {element : SymbolId} {p : SymbolId × Table}
    (h : t.arrayOf element = .ok p) : t.symbols.length ≤ p.2.symbols.length := by
  unfold arrayOf at h
  split at h
  · cases h
    exact Nat.le_refl _
  · cases hn : t.nameOf element with
    | error e => simp [hn, bind, Except.bind] at h
    | ok name =>
      simp only [hn, bind, Except.bind, pure, Except.pure, Except.ok.injEq] at h
      cases h
      exact Nat.le.intro (length_addSymbol _).symm

theorem length_mapOf {key value : SymbolId} {p : SymbolId × Table}
    (h : t.mapOf key value = .ok p) : t.symbols.length ≤ p.2.symbols.length := by
  unfold mapOf at h
  split at h
  · cases h
    exact Nat.le_refl _
  · cases hk : t.nameOf key with
    | error e => simp [hk, bind, Except.bind] at h
    | ok keyName =>
      cases hv : t.nameOf value with
      | error e => simp [hk, hv, bind, Except.bind] at h
      | ok valueName =>
        simp only [hk, hv, bind, Except.bind, pure, Except.pure, Except.ok.injEq] at h
        cases h
        exact Nat.le.intro (length_addSymbol _).symm

end Table
end ContractLang
