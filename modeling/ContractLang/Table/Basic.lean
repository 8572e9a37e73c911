import ContractLang.Assoc
import ContractLang.Scope
/-!
The table of an analysis: symbols and scopes by number, the structural types made so far, and
what is known of the nodes of a tree. An operation on a number that the table does not hold fails
with `Dangling`; all other operations succeed.

In `contractc`: `SymbolTable`, with `new` (`initial`), `resolve_name` (`nameAt`), `new_scope`
(`addScope`), `set_scope_owner` (`setOwner`), `contract_info` (`contractRecord?`), `contract_scope`
(`memberScope`), `is_visible_in` (`isSeenBy`), `associate` (`noteDeclaration`), `symbol_of`
(`declaredBy?`), `node_of` (`declaringNode?`), `bind_designator` (`noteBinding`), `declaration_of`
(`boundTo?`), `annotate_type` (`noteType`) and `type_of` (`typeAt?`).
-/
namespace ContractLang

/-- A reference to a symbol or scope that does not exist. -/
inductive Dangling where
  | symbol (id : SymbolId)
  | scope (id : ScopeId)
deriving DecidableEq, Repr

/-- Symbols and scopes are numbered by their position. `names` lists every name once, in order of
first mention; `arrays` and `maps` hold the structural types by their components. `declared` and
`nodes` tie declarations to symbols both ways, `bindings` gives what a designator stands for, and
`types` the type of an expression or designator. -/
structure Table where
  names : List String
  symbols : List Symbol
  scopes : List Scope
  contract : Option SymbolId
  arrays : Assoc SymbolId SymbolId
  maps : Assoc (SymbolId × SymbolId) SymbolId
  declared : Assoc NodeId SymbolId
  nodes : Assoc SymbolId NodeId
  bindings : Assoc NodeId SymbolId
  types : Assoc NodeId SymbolId
deriving DecidableEq, Repr

namespace ScopeId

def global : ScopeId := ⟨0⟩

end ScopeId

namespace SymbolId

def bool : SymbolId := ⟨0⟩
def char : SymbolId := ⟨1⟩
def int : SymbolId := ⟨2⟩
def string : SymbolId := ⟨3⟩
def null : SymbolId := ⟨4⟩
def void : SymbolId := ⟨5⟩
def length : SymbolId := ⟨9⟩

end SymbolId

namespace Table

/-!
### Names

Names are numbered in the order of their first mention. The contract of this numbering: what is
mentioned is known from then on (`mem_mention`), nothing that is known is lost or moved
(`prefix_mention`), and so a number that was given out stays that of its name, and of no other
(`intern_stable`).
-/

/-- A name is added to the list once. -/
def mention (names : List String) (name : String) : List String :=
  if name ∈ names then names else names ++ [name]

theorem mem_mention {names : List String} {name n : String} :
    n ∈ mention names name ↔ n ∈ names ∨ n = name := by
  unfold mention
  split
  · constructor
    · exact Or.inl
    · rintro (h | rfl) <;> assumption
  · simp

theorem prefix_mention (names : List String) (name : String) : names <+: mention names name := by
  unfold mention
  split
  · exact List.prefix_refl _
  · exact List.prefix_append ..

theorem mem_mention_self (names : List String) (name : String) : name ∈ mention names name :=
  mem_mention.2 (.inr rfl)

theorem idxOf_mention (names : List String) (name : String) :
    (mention names name).idxOf name = names.idxOf name := by
  unfold mention
  split
  · rfl
  · rename_i hn
    rw [List.idxOf_append, if_neg hn, List.idxOf_eq_length hn]
    simp

/-- The number of a name, which is given one if it has none. -/
def intern (t : Table) (name : String) : Nat × Table :=
  (t.names.idxOf name, { t with names := mention t.names name })

/-- The name with a number. -/
def nameAt (t : Table) (i : Nat) : String := t.names[i]?.getD "<unknown>"

/-- A number that was given out stays that of its name, and of no other. -/
theorem intern_stable {t t' : Table} {name : String} (h : (t.intern name).2.names <+: t'.names) :
    t'.nameAt (t.intern name).1 = name ∧
      ∀ other, (t'.intern other).1 = (t.intern name).1 ↔ other = name := by
  obtain ⟨more, hmore⟩ : mention t.names name <+: t'.names := h
  have hmem : name ∈ t'.names := by
    rw [← hmore]
    exact List.mem_append_left _ (mem_mention_self ..)
  have hidx : t'.names.idxOf name = t.names.idxOf name := by
    rw [← hmore, List.idxOf_append, if_pos (mem_mention_self ..)]
    exact idxOf_mention ..
  have hlt : t'.names.idxOf name < t'.names.length := List.idxOf_lt_length_iff.2 hmem
  have hget : t'.names[t'.names.idxOf name]? = some name := by
    rw [List.getElem?_eq_getElem hlt, List.getElem_idxOf hlt]
  constructor
  · unfold nameAt intern
    rw [← hidx, hget]
    rfl
  · intro other
    unfold intern
    rw [← hidx]
    constructor
    · intro heq
      dsimp only at heq
      rw [← heq] at hlt hget
      rw [List.getElem?_eq_getElem hlt, List.getElem_idxOf hlt] at hget
      exact Option.some.inj hget
    · rintro rfl
      rfl

/-! ### The initial table -/

/-- The built-in symbols in order of number, each with whether the global scope declares it. -/
def builtins : List (String × SymbolKind × Bool) :=
  [("bool", .basic .bool, true), ("char", .basic .char, true), ("int", .basic .int, true),
   ("string", .basic .string, true), ("null", .basic .null, false), ("void", .basic .void, false),
   ("true", .constant .bool, true), ("false", .constant .bool, true),
   ("null", .constant .null, true), ("length", .field (some .int), false)]

/-- The table before any program is seen. -/
def initial : Table where
  names := (builtins.map Prod.fst).foldl mention []
  symbols := builtins.map fun (name, kind, _) => ⟨name, .global, .zero, kind⟩
  scopes := [⟨.global, none, none,
    builtins.zipIdx.filterMap fun ((name, _, listed), i) => if listed then some (name, ⟨i⟩) else none⟩]
  contract := none
  arrays := .empty
  maps := .empty
  declared := .empty
  nodes := .empty
  bindings := .empty
  types := .empty

/-! ### Symbols -/

def symbol (t : Table) (id : SymbolId) : Except Dangling Symbol :=
  match t.symbols[id.index]? with
  | some s => .ok s
  | none => .error (.symbol id)

theorem symbol_eq_ok {t : Table} {id : SymbolId} {s : Symbol} :
    t.symbol id = .ok s ↔ t.symbols[id.index]? = some s := by
  unfold symbol
  split <;> simp_all

def kindOf (t : Table) (id : SymbolId) : Except Dangling SymbolKind :=
  (t.symbol id).map (·.kind)

def nameOf (t : Table) (id : SymbolId) : Except Dangling String :=
  (t.symbol id).map (·.name)

/-- Changes what a symbol is. -/
def updateKind (t : Table) (id : SymbolId) (f : SymbolKind → SymbolKind) : Except Dangling Table :=
  if id.index < t.symbols.length then
    .ok { t with symbols := t.symbols.modify id.index fun s => { s with kind := f s.kind } }
  else .error (.symbol id)

/-- Adds a symbol that no scope declares. -/
def addSymbol (t : Table) (s : Symbol) : SymbolId × Table :=
  (⟨t.symbols.length⟩, { t with names := mention t.names s.name, symbols := t.symbols ++ [s] })

/-! ### Scopes -/

def scope (t : Table) (id : ScopeId) : Except Dangling Scope :=
  match t.scopes[id.index]? with
  | some s => .ok s
  | none => .error (.scope id)

theorem scope_eq_ok {t : Table} {id : ScopeId} {s : Scope} :
    t.scope id = .ok s ↔ t.scopes[id.index]? = some s := by
  unfold scope
  split <;> simp_all

def updateScope (t : Table) (id : ScopeId) (f : Scope → Scope) : Except Dangling Table :=
  if id.index < t.scopes.length then .ok { t with scopes := t.scopes.modify id.index f }
  else .error (.scope id)

/-- Adds a scope without an owner. The parent is not looked at. -/
def addScope (t : Table) (kind : ScopeKind) (parent : Option ScopeId) : ScopeId × Table :=
  (⟨t.scopes.length⟩, { t with scopes := t.scopes ++ [.new kind parent] })

def setOwner (t : Table) (id : ScopeId) (owner : SymbolId) : Except Dangling Table :=
  t.updateScope id fun s => { s with owner := some owner }

/-- Adds a symbol and declares it in a scope. -/
def declare (t : Table) (scope : ScopeId) (name : String) (span : Span) (kind : SymbolKind) :
    Except Dangling (SymbolId × Table) := do
  let (id, t) := t.addSymbol ⟨name, scope, span, kind⟩
  return (id, ← t.updateScope scope (·.add name id))

/-! ### The contract and its functions -/

def setContract (t : Table) (id : SymbolId) : Table := { t with contract := some id }

/-- What the contract's symbol says of it, if there is one and it is a contract. -/
def contractRecord? (t : Table) : Except Dangling (Option ContractRecord) :=
  match t.contract with
  | none => .ok none
  | some c => (t.kindOf c).map (·.contract?)

/-- Changes the contract's record, and nothing if there is none. -/
def updateContract (t : Table) (f : ContractRecord → ContractRecord) : Except Dangling Table :=
  match t.contract with
  | none => .ok t
  | some c => t.updateKind c (·.mapContract f)

/-- The scope of the contract's members, the global one without a contract. -/
def memberScope (t : Table) : Except Dangling ScopeId :=
  t.contractRecord?.map fun info => (info.map (·.inner)).getD .global

def function? (t : Table) (id : SymbolId) : Except Dangling (Option FunctionRecord) :=
  (t.kindOf id).map (·.function?)

def updateFunction (t : Table) (id : SymbolId) (f : FunctionRecord → FunctionRecord) :
    Except Dangling Table :=
  t.updateKind id (·.mapFunction f)

/-! ### Values -/

def valueType? (t : Table) (id : SymbolId) : Except Dangling (Option SymbolId) :=
  (t.kindOf id).map (·.valueType?)

def setValueType (t : Table) (id type : SymbolId) : Except Dangling Table :=
  t.updateKind id (·.withValueType type)

def isSeenBy (t : Table) (id : SymbolId) (stmt : NodeId) : Except Dangling Bool :=
  (t.kindOf id).map (·.isSeenBy stmt)

def visibility (t : Table) (id : SymbolId) : Except Dangling (List NodeId) :=
  (t.kindOf id).map (·.visibility)

/-! ### Nodes -/

/-- Ties a node to the symbol that it declares. -/
def noteDeclaration (t : Table) (node : NodeId) (id : SymbolId) : Table :=
  { t with declared := t.declared.insert node id, nodes := t.nodes.insert id node }

def declaredBy? (t : Table) (node : NodeId) : Option SymbolId := t.declared.get? node

def declaringNode? (t : Table) (id : SymbolId) : Option NodeId := t.nodes.get? id

/-- Records what a designator stands for. -/
def noteBinding (t : Table) (node : NodeId) (id : SymbolId) : Table :=
  { t with bindings := t.bindings.insert node id }

/-- Records that a designator stands for what another one does, if that is known. -/
def copyBinding (t : Table) (node other : NodeId) : Table :=
  match t.bindings.get? other with
  | none => t
  | some id => t.noteBinding node id

def boundTo? (t : Table) (node : NodeId) : Option SymbolId := t.bindings.get? node

/-- Records the type of an expression or designator. -/
def noteType (t : Table) (node : NodeId) (type : SymbolId) : Table :=
  { t with types := t.types.insert node type }

def typeAt? (t : Table) (node : NodeId) : Option SymbolId := t.types.get? node

end Table
end ContractLang
