import Mathlib.Logic.Relation
import ContractLang.Proofs.Frames
/-!
Look-ups see exactly the declarations that were made. A table is followed through any sequence of
operations, and beside it a history of the scopes that were opened and of what was declared in them.
Whatever was done, a look-up answers as the history says; types that are made on the way, names that
are mentioned and notes on nodes change no answer.
-/
namespace ContractLang

open Pass

/-- A declaration as it was made, with the number that its symbol was given. -/
structure Declaration where
  scope : ScopeId
  name : String
  symbol : SymbolId

/-- Scopes in the order in which they were opened, each by its parent, and declarations in the order
in which they were made. -/
structure History where
  parents : List (Option ScopeId)
  declarations : List Declaration

namespace History

/-- A new table has one scope, which declares the built-in symbols that can be named. -/
def initial : History where
  parents := [none]
  declarations := Table.builtins.zipIdx.filterMap fun ((name, _, listed), i) =>
    if listed then some ⟨.global, name, ⟨i⟩⟩ else none

def addScope (h : History) (parent : Option ScopeId) : History :=
  { h with parents := h.parents ++ [parent] }

def declare (h : History) (d : Declaration) : History :=
  { h with declarations := h.declarations ++ [d] }

/-- The symbols that were declared in a scope under a name, in order. -/
def declaredIn (h : History) (scope : ScopeId) (name : String) : List SymbolId :=
  (h.declarations.filter fun d => d.scope = scope ∧ d.name = name).map (·.symbol)

/-- The scopes from one up to a scope without a parent. -/
inductive Chain (h : History) : ScopeId → List ScopeId → Prop where
  | root {scope : ScopeId} : h.parents[scope.index]? = some none → h.Chain scope [scope]
  | up {scope parent : ScopeId} {rest : List ScopeId} :
      h.parents[scope.index]? = some (some parent) → h.Chain parent rest →
      h.Chain scope (scope :: rest)

/-- The first declaration of a name in the nearest of some scopes that has any. -/
def firstIn (h : History) (name : String) (chain : List ScopeId) : Option SymbolId :=
  chain.findSome? fun scope => (h.declaredIn scope name).head?

/-- The scope is among these, and neither it nor one before it declares the name. -/
def Uncovers (h : History) (name : String) (scope : ScopeId) (chain : List ScopeId) : Prop :=
  ∃ before after, chain = before ++ scope :: after ∧
    ∀ r ∈ before ++ [scope], h.declaredIn r name = []

end History

/-! ### Operations -/

/-- A table with its history. -/
structure Session where
  table : Table
  history : History

inductive Operation where
  | intern (name : String)
  | addScope (kind : ScopeKind) (parent : Option ScopeId)
  | declare (scope : ScopeId) (name : String) (span : Span) (kind : SymbolKind)
  | arrayOf (element : SymbolId)
  | mapOf (key value : SymbolId)
  | typeNamed (type : TypeName)
  | noteDeclaration (node : NodeId) (id : SymbolId)
  | noteBinding (node : NodeId) (id : SymbolId)
  | noteType (node : NodeId) (type : SymbolId)

namespace Operation

/-- Scopes are opened and filled inside scopes that are there, and types are made from symbols that
are there. Nothing is asked of what is declared, nor of notes. -/
def Allowed (t : Table) : Operation → Prop
  | addScope _ parent => ∀ p ∈ parent, t.HoldsScope p
  | declare scope _ _ _ => t.HoldsScope scope
  | arrayOf element => t.Holds element
  | mapOf key value => t.Holds key ∧ t.Holds value
  | _ => True

/-- What an operation makes of a table and its history. -/
def perform (x : Session) : Operation → Except Dangling Session
  | intern name => .ok ⟨(x.table.intern name).2, x.history⟩
  | addScope kind parent => .ok ⟨(x.table.addScope kind parent).2, x.history.addScope parent⟩
  | declare scope name span kind => do
    let (id, t) ← x.table.declare scope name span kind
    return ⟨t, x.history.declare ⟨scope, name, id⟩⟩
  | arrayOf element => do
    let (_, t) ← x.table.arrayOf element
    return ⟨t, x.history⟩
  | mapOf key value => do
    let (_, t) ← x.table.mapOf key value
    return ⟨t, x.history⟩
  | typeNamed type => do
    let (_, t) ← x.table.typeNamed type
    return ⟨t, x.history⟩
  | noteDeclaration node id => .ok ⟨x.table.noteDeclaration node id, x.history⟩
  | noteBinding node id => .ok ⟨x.table.noteBinding node id, x.history⟩
  | noteType node type => .ok ⟨x.table.noteType node type, x.history⟩

/-- Only this one lets a scope declare something. -/
def IsDeclaration : Operation → Prop
  | declare .. => True
  | _ => False

end Operation

namespace Session

def initial : Session := ⟨.initial, .initial⟩

def Step (x y : Session) : Prop := ∃ op : Operation, op.Allowed x.table ∧ op.perform x = .ok y

/-- Some operations, one after the other, lead from one session to the other. -/
def Leads : Session → Session → Prop := Relation.ReflTransGen Step

/-- The table is the one that the history tells of. Besides, everything that a look-up or the making
of a type comes upon is in the table. -/
structure Sound (x : Session) : Prop where
  parents : x.table.scopes.map (·.parent) = x.history.parents
  entries : ∀ (i : Nat) (s : Scope), x.table.scopes[i]? = some s → ∀ name,
    s.declarationsOf name = x.history.declaredIn ⟨i⟩ name
  rooted : x.table.Rooted
  opened : ∀ d ∈ x.history.declarations, x.table.HoldsScope d.scope
  names : ∀ d ∈ x.history.declarations, d.name ∈ x.table.names
  symbols : ∀ d ∈ x.history.declarations, x.table.Holds d.symbol
  global : x.table.HoldsScope .global
  contract : x.table.contract = none
  arrays : ∀ e id, x.table.arrays.get? e = some id → x.table.Holds id
  maps : ∀ e id, x.table.maps.get? e = some id → x.table.Holds id

end Session

/-! ### What a history says -/

namespace History
variable {h : History}

theorem mem_declaredIn {scope : ScopeId} {name : String} {id : SymbolId} :
    id ∈ h.declaredIn scope name ↔ ⟨scope, name, id⟩ ∈ h.declarations := by
  simp only [declaredIn, List.mem_map, List.mem_filter, decide_eq_true_eq]
  constructor
  · rintro ⟨d, ⟨hd, rfl, rfl⟩, rfl⟩
    exact hd
  · intro hd
    exact ⟨_, ⟨hd, rfl, rfl⟩, rfl⟩

theorem declaredIn_declare (h : History) (d : Declaration) (scope : ScopeId) (name : String) :
    (h.declare d).declaredIn scope name =
      h.declaredIn scope name ++ if d.scope = scope ∧ d.name = name then [d.symbol] else [] := by
  by_cases hd : d.scope = scope ∧ d.name = name <;>
    simp [declaredIn, declare, List.filter_append, hd]

/-- Scopes that are opened later are not on the way from one that was there. -/
theorem Chain.mono {h' : History} (hp : h.parents <+: h'.parents) {scope : ScopeId}
    {chain : List ScopeId} (hc : h.Chain scope chain) : h'.Chain scope chain := by
  have hold : ∀ (i : Nat) p, h.parents[i]? = some p → h'.parents[i]? = some p := by
    intro i p hi
    obtain ⟨hlt, rfl⟩ := List.getElem?_eq_some_iff.1 hi
    exact List.prefix_iff_getElem?.1 hp i hlt
  induction hc with
  | root hs => exact .root (hold _ _ hs)
  | up hs _ ih => exact .up (hold _ _ hs) ih

theorem firstIn_cons (h : History) (name : String) (scope : ScopeId) (rest : List ScopeId) :
    h.firstIn name (scope :: rest) =
      if h.declaredIn scope name = [] then h.firstIn name rest
      else (h.declaredIn scope name).head? := by
  unfold firstIn
  cases hd : h.declaredIn scope name <;> simp [hd]

theorem uncovers_cons {name : String} {scope r : ScopeId} {rest : List ScopeId} :
    h.Uncovers name scope (r :: rest) ↔
      h.declaredIn r name = [] ∧ (r = scope ∨ h.Uncovers name scope rest) := by
  constructor
  · rintro ⟨before, after, heq, hnone⟩
    cases before with
    | nil =>
      cases heq
      exact ⟨hnone _ (by simp), .inl rfl⟩
    | cons b before =>
      cases heq
      exact ⟨hnone _ (by simp), .inr ⟨before, after, rfl, fun q hq => hnone q (.tail _ hq)⟩⟩
  · rintro ⟨hr, rfl | ⟨before, after, rfl, hnone⟩⟩
    · exact ⟨[], rest, rfl, by simpa using hr⟩
    · refine ⟨r :: before, after, rfl, ?_⟩
      intro q hq
      rcases List.mem_cons.1 hq with rfl | hq
      · exact hr
      · exact hnone q hq

theorem firstIn_declare_of_uncovers {d : Declaration} {chain : List ScopeId}
    (hu : h.Uncovers d.name d.scope chain) :
    (h.declare d).firstIn d.name chain = some d.symbol := by
  induction chain with
  | nil =>
    obtain ⟨before, after, heq, -⟩ := hu
    simp at heq
  | cons r rest ih =>
    obtain ⟨hr, hrest⟩ := uncovers_cons.1 hu
    rw [firstIn_cons, declaredIn_declare, hr]
    by_cases heq : d.scope = r
    · simp [heq]
    · have hu' := hrest.resolve_left fun he => heq he.symm
      simp [heq, ih hu']

/-- A declaration is seen by nobody else: not under other names, not where its scope is not on the
way, and not behind an earlier declaration of its name. -/
theorem firstIn_declare_of_not {d : Declaration} {name : String} {chain : List ScopeId}
    (hu : ¬(name = d.name ∧ h.Uncovers d.name d.scope chain)) :
    (h.declare d).firstIn name chain = h.firstIn name chain := by
  induction chain with
  | nil => rfl
  | cons r rest ih =>
    rw [firstIn_cons, firstIn_cons, declaredIn_declare]
    by_cases hr : h.declaredIn r name = []
    · have hd : ¬(d.scope = r ∧ d.name = name) := by
        rintro ⟨rfl, rfl⟩
        exact hu ⟨rfl, uncovers_cons.2 ⟨hr, .inl rfl⟩⟩
      have hrest : ¬(name = d.name ∧ h.Uncovers d.name d.scope rest) := by
        rintro ⟨rfl, hu'⟩
        exact hu ⟨rfl, uncovers_cons.2 ⟨hr, .inr hu'⟩⟩
      rw [if_neg hd, hr, List.append_nil, if_pos rfl, if_pos rfl, ih hrest]
    · rw [if_neg (by simp [hr]), if_neg hr, List.head?_append_of_ne_nil _ hr]

end History

/-! ### Look-ups answer as the history says -/

namespace Session
variable {x y : Session}

theorem sound_initial : initial.Sound where
  parents := rfl
  entries i s hs := by
    cases i with
    | zero =>
      cases hs
      intro name
      have hglobal : ∀ d ∈ History.initial.declarations, d.scope = ⟨0⟩ := by decide
      calc
        _ = ((History.initial.declarations.map fun d => (d.name, d.symbol)).filter
            (·.1 = name)).map Prod.snd := rfl
        _ = (History.initial.declarations.filter (·.name = name)).map (·.symbol) := by
          rw [List.filter_map, List.map_map]
          rfl
        _ = History.initial.declaredIn ⟨0⟩ name :=
          congrArg _ (List.filter_congr fun d hd => by simp [hglobal d hd])
    | succ i => cases hs
  rooted := Table.valid_initial.parents
  opened := by simp [initial, History.initial, Table.builtins, List.zipIdx, Table.HoldsScope,
    Table.initial, ScopeId.global]
  names := by simp [initial, History.initial, Table.builtins, List.zipIdx, Table.initial,
    Table.mention]
  symbols := by simp [initial, History.initial, Table.builtins, List.zipIdx, Table.initial,
    Table.Holds]
  global := Table.valid_initial.global
  contract := rfl
  arrays _ _ he := by cases he
  maps _ _ he := by cases he

namespace Sound

theorem parents_getElem? (hx : x.Sound) (i : Nat) :
    x.history.parents[i]? = x.table.scopes[i]?.map (·.parent) := by
  rw [← hx.parents, List.getElem?_map]

theorem declaredIn_eq (hx : x.Sound) {scope : ScopeId} (hs : x.table.HoldsScope scope)
    (name : String) : x.table.declaredIn scope name = .ok (x.history.declaredIn scope name) := by
  obtain ⟨s, hget⟩ := Table.exists_scope hs
  unfold Table.declaredIn
  split
  · rw [Table.scope_eq_ok.2 hget]
    exact congrArg Except.ok (hx.entries _ s hget name)
  · -- A name that was never mentioned was never declared.
    rename_i hname
    have hnone : x.history.declaredIn scope name = [] :=
      List.eq_nil_iff_forall_not_mem.2 fun id hid => hname (hx.names _ (History.mem_declaredIn.1 hid))
    rw [hnone]

/-- From every scope the way up comes to an end. -/
theorem exists_chain (hx : x.Sound) {scope : ScopeId} (hs : x.table.HoldsScope scope) :
    ∃ chain, x.history.Chain scope chain := by
  obtain ⟨i⟩ := scope
  induction i using Nat.strongRecOn with
  | ind i ih =>
    obtain ⟨s, hget⟩ := Table.exists_scope hs
    have hparent : x.history.parents[i]? = some s.parent := by
      rw [hx.parents_getElem?, hget, Option.map_some]
    cases hp : s.parent with
    | none => exact ⟨_, .root (hparent.trans (congrArg some hp))⟩
    | some p =>
      have hlt : p.index < i := hx.rooted i s hget p hp
      obtain ⟨rest, hrest⟩ := ih p.index hlt (Nat.lt_trans hlt hs)
      exact ⟨_, .up (hparent.trans (congrArg some hp)) hrest⟩

theorem holdsScope_of_chain (hx : x.Sound) {scope : ScopeId} {chain : List ScopeId}
    (hc : x.history.Chain scope chain) :
    x.table.HoldsScope scope ∧ ∀ s ∈ chain, x.table.HoldsScope s := by
  have hheld : ∀ (s : ScopeId) p, x.history.parents[s.index]? = some p → x.table.HoldsScope s := by
    intro s p hp
    have hlt := (List.getElem?_eq_some_iff.1 hp).1
    rwa [← hx.parents, List.length_map] at hlt
  induction hc with
  | root hs => exact ⟨hheld _ _ hs, by simpa using hheld _ _ hs⟩
  | up hs _ ih => exact ⟨hheld _ _ hs, by simpa using ⟨hheld _ _ hs, ih.2⟩⟩

theorem nearest_eq (hx : x.Sound) {scope : ScopeId} {chain : List ScopeId}
    (hc : x.history.Chain scope chain) (name : String) :
    (x.table.nearest scope name).map List.head? = .ok (x.history.firstIn name chain) := by
  induction hc with
  | @root scope hs =>
    rw [hx.parents_getElem?] at hs
    obtain ⟨s, hget, hparent⟩ := Option.map_eq_some_iff.1 hs
    rw [Table.nearest_eq hx.rooted hget, hparent, hx.entries _ s hget, History.firstIn_cons]
    cases x.history.declaredIn scope name <;> rfl
  | @up scope parent rest hs _ ih =>
    rw [hx.parents_getElem?] at hs
    obtain ⟨s, hget, hparent⟩ := Option.map_eq_some_iff.1 hs
    rw [Table.nearest_eq hx.rooted hget, hparent, hx.entries _ s hget, History.firstIn_cons]
    cases x.history.declaredIn scope name with
    | nil => exact ih
    | cons id more => rfl

theorem lookup_eq (hx : x.Sound) {scope : ScopeId} {chain : List ScopeId}
    (hc : x.history.Chain scope chain) (name : String) :
    x.table.lookup scope name = .ok (x.history.firstIn name chain) := by
  unfold Table.lookup
  split
  · exact hx.nearest_eq hc name
  · rename_i hname
    have hnone : x.history.firstIn name chain = none := by
      refine List.findSome?_eq_none_iff.2 fun r _ => ?_
      rw [List.head?_eq_none_iff]
      exact List.eq_nil_iff_forall_not_mem.2 fun id hid =>
        hname (hx.names _ (History.mem_declaredIn.1 hid))
    rw [hnone]

/-- What is found was declared, so its symbol is in the table. -/
theorem holds_of_firstIn (hx : x.Sound) {name : String} {chain : List ScopeId} {id : SymbolId}
    (h : x.history.firstIn name chain = some id) : x.table.Holds id := by
  obtain ⟨r, -, hr⟩ := List.exists_of_findSome?_eq_some h
  exact hx.symbols _ (History.mem_declaredIn.1 (List.mem_of_mem_head? hr))

end Sound

/-! ### Operations keep table and history together -/

namespace Sound
variable {t t' : Table} {h : History}

/-- Nothing is asked of a change that leaves the scopes and the contract alone, but that nothing gets
lost and that the types that can be made are in the table. -/
theorem of_same_scopes (hx : Sound ⟨t, h⟩) (hscopes : t'.scopes = t.scopes)
    (hcontract : t'.contract = t.contract) (hnames : t.names ⊆ t'.names)
    (hsymbols : t.symbols.length ≤ t'.symbols.length)
    (harrays : ∀ e id, t'.arrays.get? e = some id → t'.Holds id)
    (hmaps : ∀ e id, t'.maps.get? e = some id → t'.Holds id) : Sound ⟨t', h⟩ where
  parents := by
    dsimp only
    rw [hscopes]
    exact hx.parents
  entries i s hs := hx.entries i s (hscopes ▸ hs)
  rooted i s hs := hx.rooted i s (hscopes ▸ hs)
  opened d hd := by
    dsimp only [Table.HoldsScope]
    rw [hscopes]
    exact hx.opened d hd
  names d hd := hnames (hx.names d hd)
  symbols d hd := Nat.lt_of_lt_of_le (hx.symbols d hd) hsymbols
  global := by
    dsimp only [Table.HoldsScope]
    rw [hscopes]
    exact hx.global
  contract := hcontract.trans hx.contract
  arrays := harrays
  maps := hmaps

theorem mention (hx : Sound ⟨t, h⟩) (name : String) :
    Sound ⟨{ t with names := Table.mention t.names name }, h⟩ :=
  hx.of_same_scopes rfl rfl (fun _ hn => Table.mem_mention.2 (.inl hn)) (Nat.le_refl _) hx.arrays
    hx.maps

/-- A new type, which is found again by its components. -/
theorem addType (hx : Sound ⟨t, h⟩) (s : Symbol) {arrays : Assoc SymbolId SymbolId}
    {maps : Assoc (SymbolId × SymbolId) SymbolId}
    (harrays : ∀ e id, arrays.get? e = some id → t.Holds id ∨ id = ⟨t.symbols.length⟩)
    (hmaps : ∀ e id, maps.get? e = some id → t.Holds id ∨ id = ⟨t.symbols.length⟩) :
    Sound ⟨{ (t.addSymbol s).2 with arrays := arrays, maps := maps }, h⟩ := by
  have hlen : (t.addSymbol s).2.symbols.length = t.symbols.length + 1 := by
    simp [Table.addSymbol]
  have hholds : ∀ id, t.Holds id ∨ id = ⟨t.symbols.length⟩ → (t.addSymbol s).2.Holds id := by
    rintro id (hid | rfl)
    · exact Nat.lt_of_lt_of_le hid (by omega)
    · exact Nat.lt_of_lt_of_eq (Nat.lt_succ_self _) hlen.symm
  exact hx.of_same_scopes rfl rfl (fun _ hn => Table.mem_mention.2 (.inl hn)) (by simp [hlen])
    (fun e id he => hholds id (harrays e id he)) fun e id he => hholds id (hmaps e id he)

theorem exists_arrayOf (hx : Sound ⟨t, h⟩) {element : SymbolId} (he : t.Holds element) :
    ∃ id t', t.arrayOf element = .ok (id, t') ∧ Sound ⟨t', h⟩ ∧ t'.Holds id := by
  cases hfound : t.arrays.get? element with
  | some id => exact ⟨id, t, by rw [Table.arrayOf, hfound], hx, hx.arrays element id hfound⟩
  | none =>
    obtain ⟨name, hname⟩ := Table.exists_nameOf he
    let s : Symbol := ⟨Table.arrayName name, .global, .zero, .array element⟩
    have hrun : t.arrayOf element = .ok (⟨t.symbols.length⟩, { (t.addSymbol s).2 with
        arrays := t.arrays.insert element ⟨t.symbols.length⟩ }) := by
      rw [Table.arrayOf, hfound]
      simp only [hname, bind, Except.bind]
      rfl
    refine ⟨_, _, hrun, hx.addType s ?_ fun e id hid => .inl (hx.maps e id hid), ?_⟩
    · intro e id hid
      rw [Assoc.get?_insert] at hid
      split at hid
      · exact .inr (Option.some.inj hid).symm
      · exact .inl (hx.arrays e id hid)
    · simp [Table.Holds, Table.addSymbol]

theorem exists_mapOf (hx : Sound ⟨t, h⟩) {key value : SymbolId} (hk : t.Holds key)
    (hv : t.Holds value) :
    ∃ id t', t.mapOf key value = .ok (id, t') ∧ Sound ⟨t', h⟩ ∧ t'.Holds id := by
  cases hfound : t.maps.get? (key, value) with
  | some id => exact ⟨id, t, by rw [Table.mapOf, hfound], hx, hx.maps _ id hfound⟩
  | none =>
    obtain ⟨keyName, hkey⟩ := Table.exists_nameOf hk
    obtain ⟨valueName, hvalue⟩ := Table.exists_nameOf hv
    let s : Symbol := ⟨Table.mapName keyName valueName, .global, .zero, .map key value⟩
    have hrun : t.mapOf key value = .ok (⟨t.symbols.length⟩, { (t.addSymbol s).2 with
        maps := t.maps.insert (key, value) ⟨t.symbols.length⟩ }) := by
      rw [Table.mapOf, hfound]
      simp only [hkey, hvalue, bind, Except.bind]
      rfl
    refine ⟨_, _, hrun, hx.addType s (fun e id hid => .inl (hx.arrays e id hid)) ?_, ?_⟩
    · intro e id hid
      rw [Assoc.get?_insert] at hid
      split at hid
      · exact .inr (Option.some.inj hid).symm
      · exact .inl (hx.maps e id hid)
    · simp [Table.Holds, Table.addSymbol]

/-- Without a contract the names in a type are searched in the global scope. -/
theorem memberScope_eq (hx : Sound ⟨t, h⟩) : t.memberScope = .ok .global := by
  have hcontract : t.contract = none := hx.contract
  rw [Table.memberScope, Table.contractRecord?, hcontract]
  rfl

theorem exists_typeNamed (hx : Sound ⟨t, h⟩) (type : TypeName) :
    ∃ found t', t.typeNamed type = .ok (found, t') ∧ Sound ⟨t', h⟩ ∧ ∀ id ∈ found, t'.Holds id := by
  induction type generalizing t with
  | named span name =>
    obtain ⟨chain, hchain⟩ := hx.exists_chain hx.global
    have hlookup : t.lookup .global name = .ok (h.firstIn name chain) := hx.lookup_eq hchain name
    cases hfound : h.firstIn name chain with
    | none =>
      refine ⟨none, t, ?_, hx, by simp⟩
      simp only [Table.typeNamed, hx.memberScope_eq, hlookup, hfound, bind, Except.bind]
      rfl
    | some id =>
      have hid : t.Holds id := hx.holds_of_firstIn hfound
      obtain ⟨k, hk⟩ := Table.holds_iff_kind?.1 hid
      refine ⟨if k.isType then some id else none, t, ?_, hx, ?_⟩
      · simp only [Table.typeNamed, hx.memberScope_eq, hlookup, hfound, Table.kindOf_eq_ok.2 hk, bind,
          Except.bind]
        rfl
      · intro j hj
        split at hj
        · cases hj
          exact hid
        · cases hj
  | array span element ih =>
    obtain ⟨found, t₁, h₁, hx₁, hheld₁⟩ := ih hx
    cases found with
    | none =>
      refine ⟨none, t₁, ?_, hx₁, by simp⟩
      simp only [Table.typeNamed, h₁, bind, Except.bind]
      rfl
    | some e =>
      obtain ⟨id, t₂, h₂, hx₂, hid⟩ := hx₁.exists_arrayOf (hheld₁ e rfl)
      refine ⟨some id, t₂, ?_, hx₂, ?_⟩
      · simp only [Table.typeNamed, h₁, h₂, bind, Except.bind]
        rfl
      · rintro _ ⟨⟩
        exact hid
  | map span key value ihk ihv =>
    obtain ⟨found, t₁, h₁, hx₁, hheld₁⟩ := ihk hx
    cases found with
    | none =>
      refine ⟨none, t₁, ?_, hx₁, by simp⟩
      simp only [Table.typeNamed, h₁, bind, Except.bind]
      rfl
    | some k =>
      obtain ⟨found, t₂, h₂, hx₂, hheld₂⟩ := ihv hx₁
      cases found with
      | none =>
        refine ⟨none, t₂, ?_, hx₂, by simp⟩
        simp only [Table.typeNamed, h₁, h₂, bind, Except.bind]
        rfl
      | some v =>
        have hretypes := (value.state_keeps keptBySettling_retypes).leads (leads_state.2 h₂)
        obtain ⟨id, t₃, h₃, hx₃, hid⟩ :=
          hx₂.exists_mapOf (hretypes.holds (hheld₁ k rfl)) (hheld₂ v rfl)
        refine ⟨some id, t₃, ?_, hx₃, ?_⟩
        · simp only [Table.typeNamed, h₁, h₂, h₃, bind, Except.bind]
          rfl
        · rintro _ ⟨⟩
          exact hid
  | void span => exact ⟨none, t, rfl, hx, by simp⟩

theorem addScope (hx : Sound ⟨t, h⟩) (kind : ScopeKind) {parent : Option ScopeId}
    (hp : ∀ p ∈ parent, t.HoldsScope p) : Sound ⟨(t.addScope kind parent).2, h.addScope parent⟩ := by
  have hlen : (t.addScope kind parent).2.scopes.length = t.scopes.length + 1 := by
    simp [Table.addScope]
  have hold : ∀ id, t.HoldsScope id → (t.addScope kind parent).2.HoldsScope id := fun id hid =>
    Nat.lt_of_lt_of_le hid (by omega)
  -- A scope is one that was there, or it is the new one, in which nothing was declared.
  have hcases : ∀ (i : Nat) (s : Scope), (t.addScope kind parent).2.scopes[i]? = some s →
      t.scopes[i]? = some s ∨ i = t.scopes.length ∧ s = .new kind parent := by
    intro i s hs
    rcases Nat.lt_trichotomy i t.scopes.length with hlt | rfl | hgt
    · exact .inl ((List.getElem?_append_left hlt).symm.trans hs)
    · exact .inr ⟨rfl, by simpa [Table.addScope, eq_comm] using hs⟩
    · rw [List.getElem?_eq_none (by omega)] at hs
      cases hs
  exact {
    parents := by
      have hparents : t.scopes.map (·.parent) = h.parents := hx.parents
      simp [Table.addScope, History.addScope, hparents, Scope.new]
    entries := by
      intro i s hs name
      rcases hcases i s hs with hs | ⟨rfl, rfl⟩
      · exact hx.entries i s hs name
      · refine (List.eq_nil_iff_forall_not_mem.2 fun id hid => ?_).symm
        exact absurd (hx.opened _ (History.mem_declaredIn.1 hid)) (Nat.lt_irrefl _)
    rooted := by
      intro i s hs p hparent
      rcases hcases i s hs with hs | ⟨rfl, rfl⟩
      · exact hx.rooted i s hs p hparent
      · exact hp p hparent
    opened := fun d hd => hold _ (hx.opened d hd)
    names := hx.names
    symbols := hx.symbols
    global := hold _ hx.global
    contract := hx.contract
    arrays := hx.arrays
    maps := hx.maps }

theorem declare (hx : Sound ⟨t, h⟩) {scope : ScopeId} (hs : t.HoldsScope scope) (name : String)
    (span : Span) (kind : SymbolKind) :
    Sound ⟨t.place ⟨name, scope, span, kind⟩, h.declare ⟨scope, name, ⟨t.symbols.length⟩⟩⟩ := by
  have hscope : ∀ id, t.HoldsScope id → (t.place ⟨name, scope, span, kind⟩).HoldsScope id := by
    intro id hid
    simpa [Table.HoldsScope, Table.place] using hid
  have hsymbol : ∀ id, id.index ≤ t.symbols.length →
      (t.place ⟨name, scope, span, kind⟩).Holds id := by
    intro id hid
    simp only [Table.Holds, Table.place, List.length_append, List.length_singleton]
    omega
  have hget : ∀ (i : Nat) (s : Scope),
      (t.place ⟨name, scope, span, kind⟩).scopes[i]? = some s → ∃ s₀, t.scopes[i]? = some s₀ ∧
        s = if scope.index = i then s₀.add name ⟨t.symbols.length⟩ else s₀ := by
    intro i s hs
    simp only [Table.place, List.getElem?_modify, Option.map_eq_map, Option.map_eq_some_iff] at hs
    obtain ⟨s₀, hs₀, rfl⟩ := hs
    exact ⟨s₀, hs₀, rfl⟩
  exact {
    parents := by
      have hparents : t.scopes.map (·.parent) = h.parents := hx.parents
      refine Eq.trans ?_ hparents
      refine List.ext_getElem? fun i => ?_
      simp only [Table.place, List.getElem?_map, List.getElem?_modify]
      cases t.scopes[i]? with
      | none => rfl
      | some s => by_cases hi : scope.index = i <;> simp [hi, Scope.add]
    entries := by
      intro i s hs name'
      obtain ⟨s₀, hs₀, rfl⟩ := hget i s hs
      rw [History.declaredIn_declare, ← hx.entries i s₀ hs₀ name']
      by_cases hi : scope.index = i
      · have hscope : scope = ⟨i⟩ := congrArg ScopeId.mk hi
        simp [hscope, Scope.declarationsOf_add]
      · have hscope : scope ≠ ⟨i⟩ := fun he => hi (congrArg ScopeId.index he)
        simp [hi, hscope]
    rooted := by
      intro i s hs p hparent
      obtain ⟨s₀, hs₀, rfl⟩ := hget i s hs
      refine hx.rooted i s₀ hs₀ p ?_
      split at hparent
      · exact hparent
      · exact hparent
    opened := by
      intro d hd
      rcases List.mem_append.1 hd with hd | hd
      · exact hscope _ (hx.opened d hd)
      · rw [List.mem_singleton.1 hd]
        exact hscope _ hs
    names := by
      intro d hd
      rcases List.mem_append.1 hd with hd | hd
      · exact Table.mem_mention.2 (.inl (hx.names d hd))
      · rw [List.mem_singleton.1 hd]
        exact Table.mem_mention.2 (.inr rfl)
    symbols := by
      intro d hd
      rcases List.mem_append.1 hd with hd | hd
      · exact hsymbol _ (Nat.le_of_lt (hx.symbols d hd))
      · rw [List.mem_singleton.1 hd]
        exact hsymbol _ (Nat.le_refl _)
    global := hscope _ hx.global
    contract := hx.contract
    arrays := fun e id he => hsymbol _ (Nat.le_of_lt (hx.arrays e id he))
    maps := fun e id he => hsymbol _ (Nat.le_of_lt (hx.maps e id he)) }

end Sound

/-! ### Steps and runs -/

/-- What a step does: an operation that is allowed ends well and keeps table and history together, no
name gets another number, and only a declaration adds to what is declared. -/
theorem exists_perform (hx : x.Sound) {op : Operation} (hop : op.Allowed x.table) :
    ∃ y, op.perform x = .ok y ∧ y.Sound ∧ x.table.names <+: y.table.names ∧
      (¬op.IsDeclaration →
        y.history = x.history ∨ ∃ parent, y.history = x.history.addScope parent) := by
  obtain ⟨t, h⟩ := x
  cases op with
  | intern name =>
    exact ⟨_, rfl, hx.mention name, Table.prefix_mention .., fun _ => .inl rfl⟩
  | addScope kind parent =>
    exact ⟨_, rfl, hx.addScope kind hop, List.prefix_refl _, fun _ => .inr ⟨parent, rfl⟩⟩
  | declare scope name span kind =>
    have hrun : t.declare scope name span kind =
        .ok (⟨t.symbols.length⟩, t.place ⟨name, scope, span, kind⟩) :=
      Table.declare_eq_ok.2 ⟨hop, rfl, rfl⟩
    refine ⟨_, ?_, hx.declare hop name span kind, Table.prefix_mention .., fun hd => absurd trivial hd⟩
    simp only [Operation.perform, hrun]
    rfl
  | arrayOf element =>
    obtain ⟨id, t', hrun, hx', -⟩ := hx.exists_arrayOf hop
    have hretypes := (keeps_arrayOf (C := .typeResolution) element).leads (leads_state.2 hrun)
    refine ⟨⟨t', h⟩, ?_, hx', hretypes.names, fun _ => .inl rfl⟩
    simp only [Operation.perform, hrun]
    rfl
  | mapOf key value =>
    obtain ⟨id, t', hrun, hx', -⟩ := hx.exists_mapOf hop.1 hop.2
    have hretypes := (keeps_mapOf (C := .typeResolution) key value).leads (leads_state.2 hrun)
    refine ⟨⟨t', h⟩, ?_, hx', hretypes.names, fun _ => .inl rfl⟩
    simp only [Operation.perform, hrun]
    rfl
  | typeNamed type =>
    obtain ⟨found, t', hrun, hx', -⟩ := hx.exists_typeNamed type
    have hretypes := (type.state_keeps keptBySettling_retypes).leads (leads_state.2 hrun)
    refine ⟨⟨t', h⟩, ?_, hx', hretypes.names, fun _ => .inl rfl⟩
    simp only [Operation.perform, hrun]
    rfl
  | noteDeclaration node id =>
    exact ⟨_, rfl, hx.of_same_scopes rfl rfl (List.Subset.refl _) (Nat.le_refl _) hx.arrays hx.maps,
      List.prefix_refl _, fun _ => .inl rfl⟩
  | noteBinding node id =>
    exact ⟨_, rfl, hx.of_same_scopes rfl rfl (List.Subset.refl _) (Nat.le_refl _) hx.arrays hx.maps,
      List.prefix_refl _, fun _ => .inl rfl⟩
  | noteType node type =>
    exact ⟨_, rfl, hx.of_same_scopes rfl rfl (List.Subset.refl _) (Nat.le_refl _) hx.arrays hx.maps,
      List.prefix_refl _, fun _ => .inl rfl⟩

theorem Step.sound (h : x.Step y) (hx : x.Sound) :
    y.Sound ∧ x.table.names <+: y.table.names := by
  obtain ⟨op, hop, hrun⟩ := h
  obtain ⟨y', hrun', hy, hnames, -⟩ := exists_perform hx hop
  cases hrun.symm.trans hrun'
  exact ⟨hy, hnames⟩

theorem Leads.sound (h : x.Leads y) (hx : x.Sound) :
    y.Sound ∧ x.table.names <+: y.table.names := by
  induction h with
  | refl => exact ⟨hx, List.prefix_refl _⟩
  | tail _ hstep ih =>
    obtain ⟨hy, hnames⟩ := hstep.sound ih.1
    exact ⟨hy, ih.2.trans hnames⟩

/-- An operation that declares nothing changes no answer. -/
theorem Sound.lookups_kept (hx : x.Sound) {op : Operation} (hop : op.Allowed x.table)
    (hd : ¬op.IsDeclaration) (hrun : op.perform x = .ok y) {scope : ScopeId}
    (hs : x.table.HoldsScope scope) (name : String) :
    y.table.lookup scope name = x.table.lookup scope name ∧
      y.table.declaredIn scope name = x.table.declaredIn scope name := by
  obtain ⟨y', hrun', hy, -, hhistory⟩ := exists_perform hx hop
  cases hrun.symm.trans hrun'
  obtain ⟨chain, hchain⟩ := hx.exists_chain hs
  have hsame : y.history.Chain scope chain ∧ y.history.declarations = x.history.declarations := by
    rcases hhistory hd with heq | ⟨parent, heq⟩
    · rw [heq]
      exact ⟨hchain, rfl⟩
    · rw [heq]
      exact ⟨hchain.mono (List.prefix_append ..), rfl⟩
  have hdeclared : y.history.declaredIn = x.history.declaredIn := by
    unfold History.declaredIn
    rw [hsame.2]
  constructor
  · rw [hy.lookup_eq hsame.1, hx.lookup_eq hchain, History.firstIn, hdeclared, History.firstIn]
  · rw [hy.declaredIn_eq (hy.holdsScope_of_chain hsame.1).1, hx.declaredIn_eq hs, hdeclared]

theorem Sound.uncovers_iff (hx : x.Sound) {origin scope : ScopeId} {chain : List ScopeId}
    (hc : x.history.Chain origin chain) (name : String) :
    x.history.Uncovers name scope chain ↔ ∃ before after, chain = before ++ scope :: after ∧
      ∀ s ∈ before ++ [scope], x.table.declaredIn s name = .ok [] := by
  refine exists_congr fun before => exists_congr fun after => and_congr_right fun heq => ?_
  refine forall₂_congr fun s hs => ?_
  have hmem : s ∈ chain := by
    rw [heq, List.append_cons]
    exact List.mem_append_left _ hs
  rw [hx.declaredIn_eq ((hx.holdsScope_of_chain hc).2 s hmem), Except.ok.injEq]

/-- A declaration is found in its scope and in those from which its scope is reached, as long as
nothing nearer has the name; everywhere else the answers stay as they were. -/
theorem Sound.lookup_declare (hx : x.Sound) {scope : ScopeId} (hs : x.table.HoldsScope scope)
    (name : String) (span : Span) (kind : SymbolKind) {origin : ScopeId} {chain : List ScopeId}
    (hc : x.history.Chain origin chain) (searched : String) :
    (x.table.place ⟨name, scope, span, kind⟩).lookup origin searched =
      .ok ((x.history.declare ⟨scope, name, ⟨x.table.symbols.length⟩⟩).firstIn searched chain) := by
  have hy : Sound ⟨x.table.place ⟨name, scope, span, kind⟩,
      x.history.declare ⟨scope, name, ⟨x.table.symbols.length⟩⟩⟩ :=
    Sound.declare (t := x.table) (h := x.history) hx hs name span kind
  refine hy.lookup_eq (hc.mono ?_) searched
  exact List.prefix_refl x.history.parents

theorem Sound.lookup_changes_iff (hx : x.Sound) {scope : ScopeId} (hs : x.table.HoldsScope scope)
    (name : String) (span : Span) (kind : SymbolKind) {origin : ScopeId} {chain : List ScopeId}
    (hc : x.history.Chain origin chain) (searched : String) :
    (x.table.place ⟨name, scope, span, kind⟩).lookup origin searched ≠
        x.table.lookup origin searched ↔
      searched = name ∧ x.history.Uncovers name scope chain := by
  rw [hx.lookup_declare hs name span kind hc, hx.lookup_eq hc, Ne, Except.ok.injEq]
  constructor
  · intro hne
    by_contra hu
    exact hne (History.firstIn_declare_of_not hu)
  · rintro ⟨rfl, hu⟩ heq
    rw [History.firstIn_declare_of_uncovers hu] at heq
    -- The new symbol has a number that no symbol had before.
    exact absurd (hx.holds_of_firstIn heq.symm) (Nat.lt_irrefl _)

end Session

/-- Whatever operations have been performed on a new table: the declarations of a name in a scope are
those that were made, in order, and a search finds the first of them in the nearest scope on the way
up that has any. Every operation that is allowed can be performed; one that declares nothing changes
no answer, and a declaration changes the answer for its own name exactly in the scopes from which its
scope is reached without meeting an earlier declaration of the name, up to and including its scope.
The number of a name is that name's for ever, and no other name's. -/
theorem Session.lookup_exact {x : Session} (hx : Session.initial.Leads x) :
    (∀ scope, x.table.HoldsScope scope → ∃ chain, x.history.Chain scope chain ∧ ∀ name,
      x.table.declaredIn scope name = .ok (x.history.declaredIn scope name) ∧
      x.table.lookup scope name =
        .ok (chain.findSome? fun s => (x.history.declaredIn s name).head?)) ∧
    (∀ op : Operation, op.Allowed x.table → ∃ y, op.perform x = .ok y ∧
      (¬op.IsDeclaration → ∀ scope name, x.table.HoldsScope scope →
        y.table.lookup scope name = x.table.lookup scope name ∧
        y.table.declaredIn scope name = x.table.declaredIn scope name)) ∧
    (∀ scope name span kind, x.table.HoldsScope scope → ∃ id t',
      x.table.declare scope name span kind = .ok (id, t') ∧
      ∀ origin chain, x.history.Chain origin chain → ∀ searched,
        (t'.lookup origin searched ≠ x.table.lookup origin searched ↔
          searched = name ∧ ∃ before after, chain = before ++ scope :: after ∧
            ∀ s ∈ before ++ [scope], x.table.declaredIn s name = .ok []) ∧
        (t'.lookup origin searched ≠ x.table.lookup origin searched →
          t'.lookup origin searched = .ok (some id))) ∧
    ∀ name y, Session.Leads ⟨(x.table.intern name).2, x.history⟩ y →
      y.table.nameAt (x.table.intern name).1 = name ∧
      ∀ other, (y.table.intern other).1 = (x.table.intern name).1 ↔ other = name := by
  have hsound : x.Sound := (hx.sound Session.sound_initial).1
  refine ⟨?_, ?_, ?_, ?_⟩
  · intro scope hs
    obtain ⟨chain, hchain⟩ := hsound.exists_chain hs
    exact ⟨chain, hchain, fun name => ⟨hsound.declaredIn_eq hs name, hsound.lookup_eq hchain name⟩⟩
  · intro op hop
    obtain ⟨y, hrun, -⟩ := Session.exists_perform hsound hop
    exact ⟨y, hrun, fun hd scope name hs => hsound.lookups_kept hop hd hrun hs name⟩
  · intro scope name span kind hs
    refine ⟨_, _, Table.declare_eq_ok.2 ⟨hs, rfl, rfl⟩, ?_⟩
    intro origin chain hchain searched
    have hiff := hsound.lookup_changes_iff hs name span kind hchain searched
    refine ⟨hiff.trans (and_congr_right fun _ => hsound.uncovers_iff hchain name), ?_⟩
    intro hne
    obtain ⟨rfl, hu⟩ := hiff.1 hne
    rw [hsound.lookup_declare hs _ span kind hchain, History.firstIn_declare_of_uncovers hu]
  · intro name y hy
    exact Table.intern_stable (hy.sound (hsound.mention name)).2

/-- A new table in which a contract's scope has been opened. -/
def Session.opened : Session :=
  ⟨(Table.initial.addScope .contract (some .global)).2, History.initial.addScope (some .global)⟩

/-- To declare `int` in the contract hides the built-in type there, and only there. -/
theorem Session.opened_lookup : Session.initial.Leads Session.opened ∧
    Session.opened.history.Chain ⟨1⟩ [⟨1⟩, .global] ∧
    ∃ id t', Session.opened.table.declare ⟨1⟩ "int" .zero (.field none) = .ok (id, t') ∧
      Session.opened.table.lookup ⟨1⟩ "int" = .ok (some .int) ∧
      t'.lookup ⟨1⟩ "int" = .ok (some id) ∧ t'.lookup .global "int" = .ok (some .int) := by
  have hleads : Session.initial.Leads Session.opened := by
    refine .single ⟨.addScope .contract (some .global), ?_, rfl⟩
    rintro _ ⟨⟩
    exact Table.valid_initial.global
  have hglobal : Session.opened.history.Chain .global [.global] := .root rfl
  have hchain : Session.opened.history.Chain ⟨1⟩ [⟨1⟩, .global] := .up rfl hglobal
  obtain ⟨-, -, hdeclare, -⟩ := Session.lookup_exact hleads
  have hheld : Session.opened.table.HoldsScope ⟨1⟩ := by
    unfold Table.HoldsScope
    decide
  obtain ⟨id, t', hrun, hlookup⟩ := hdeclare ⟨1⟩ "int" .zero (.field none) hheld
  refine ⟨hleads, hchain, id, t', hrun, by decide, ?_, ?_⟩
  · obtain ⟨hiff, hfound⟩ := hlookup ⟨1⟩ _ hchain "int"
    refine hfound (hiff.2 ⟨rfl, [], [.global], rfl, ?_⟩)
    intro s hs
    cases List.mem_singleton.1 hs
    decide
  · obtain ⟨hiff, -⟩ := hlookup .global _ hglobal "int"
    have hsame : t'.lookup .global "int" = Session.opened.table.lookup .global "int" := by
      by_contra hne
      obtain ⟨-, before, after, heq, -⟩ := hiff.1 hne
      have hmem : (⟨1⟩ : ScopeId) ∈ [ScopeId.global] := by simp [heq]
      exact absurd hmem (by decide)
    exact hsame.trans (by decide)

end ContractLang
