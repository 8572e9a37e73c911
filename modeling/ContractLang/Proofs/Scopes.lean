import ContractLang.Proofs.Prepared
/-!
The scopes of a prepared table, read off the tree. The scope of a callable lists its parameters and
locals, that of the contract lists its members, and the global one lists the built-in names and the
contract; so the declarations that a name can stand for are known for every callable.
-/
namespace ContractLang

/-- What a contract declares directly. -/
inductive Member where
  | field (decl : FieldDecl)
  | struct (decl : StructDecl)
  | callable (decl : Callable)

namespace Member

def name : Member → String
  | field f => f.name.text
  | struct s => s.name.text
  | callable f => f.declaredName

def id : Member → NodeId
  | field f => f.node.id
  | struct s => s.node.id
  | callable f => f.node.id

/-- Of the members only fields are values. -/
def isField : Member → Bool
  | field _ => true
  | _ => false

end Member

/-- The members of a contract, in the order in which they are declared. -/
def ContractDecl.members (c : ContractDecl) : List Member :=
  c.fields.map .field ++ c.structs.map .struct ++ c.callables.map .callable

/-- What is declared outside of all contracts, and the contract. -/
def ContractDecl.globals (c : ContractDecl) : List (String × SymbolId) :=
  Table.initial.entries .global ++ [(c.name.text, .contract)]

namespace Table

/-- The symbol that a node declares. This is asked only of nodes that declare one. -/
def declaredAs (t : Table) (node : NodeId) : SymbolId := (t.declaredBy? node).getD .void

/-- The declarations of a name in one scope. -/
def declarationsIn (t : Table) (scope : ScopeId) (name : String) : List SymbolId :=
  ((t.entries scope).filter (·.1 = name)).map Prod.snd

def parentOf? (t : Table) (scope : ScopeId) : Option ScopeId :=
  t.scopes[scope.index]?.bind (·.parent)

variable {t : Table}

/-- The nearest declarations are those of the scope, or else those that its parent sees. -/
theorem candidates_eq (ht : t.Valid) {scope : ScopeId} (hs : t.HoldsScope scope) (name : String) :
    t.candidates scope name =
      if t.declarationsIn scope name = [] then
        ((t.parentOf? scope).map (t.candidates · name)).getD []
      else t.declarationsIn scope name := by
  obtain ⟨s, hget⟩ := exists_scope hs
  have hown : s.declarationsOf name = t.declarationsIn scope name := by
    rw [declarationsIn, entries, hget]
    rfl
  have hparent : t.parentOf? scope = s.parent := by
    rw [parentOf?, hget]
    rfl
  rw [hparent, ← hown]
  unfold candidates
  rw [nearest_eq ht.parents hget name]
  cases hd : s.declarationsOf name with
  | nil =>
    cases hp : s.parent with
    | none => rfl
    | some parent => rfl
  | cons id rest => rfl

theorem parentOf?_eq (t : Table) (scope : ScopeId) :
    t.parentOf? scope = t.scopeOutlines[scope.index]?.bind (·.parent) := by
  rw [scopeOutlines, List.getElem?_map, parentOf?]
  cases t.scopes[scope.index]? <;> rfl

end Table

open Table

namespace ContractDecl.Founded
variable {c : ContractDecl} {t : Table}

theorem declaredAs_eq (h : c.Founded t) {d : Decl} {id : SymbolId}
    (hd : (d, id) ∈ numbered 10 c.decls) : id = t.declaredAs d.node := by
  rw [declaredAs, (h.declared d id hd).1]
  rfl

theorem of_mem_decls (h : c.Founded t) {d : Decl} (hd : d ∈ c.decls) :
    t.declaredBy? d.node = some (t.declaredAs d.node) ∧
      t.sort? (t.declaredAs d.node) = some d.symbol.kind := by
  obtain ⟨id, hid⟩ := exists_numbered 10 c.decls hd
  rw [← h.declaredAs_eq hid]
  exact h.declared d id hid

theorem entries_eq (h : c.Founded t) (scope : ScopeId) :
    t.entries scope = initial.entries scope ++
      (declsIn scope c.decls).map fun d => (d.symbol.name, t.declaredAs d.node) := by
  rw [h.entries, listed_eq (fun _ _ hd => h.declaredAs_eq hd)]

end ContractDecl.Founded

/-! ### The declarations of each scope -/

theorem StructDecl.scope_of_mem {outer inner : ScopeId} {s : StructDecl} {d : Decl}
    (h : d ∈ s.decls outer inner) : d.symbol.scope = outer ∨ d.symbol.scope = inner := by
  rcases List.mem_cons.1 h with rfl | h
  · exact .inl rfl
  · obtain ⟨f, -, rfl⟩ := List.mem_map.1 h
    exact .inr rfl

theorem Callable.scope_of_mem {outer inner : ScopeId} {f : Callable} {d : Decl}
    (h : d ∈ f.decls outer inner) : d.symbol.scope = outer ∨ d.symbol.scope = inner := by
  rcases List.mem_cons.1 h with rfl | h
  · exact .inl rfl
  · rcases List.mem_append.1 h with h | h
    · obtain ⟨v, -, rfl⟩ := List.mem_map.1 h
      exact .inr rfl
    · obtain ⟨v, -, rfl⟩ := List.mem_map.1 h
      exact .inr rfl

namespace ContractDecl
variable {c : ContractDecl}

theorem declsIn_callable {p : Placement Callable} (hp : p ∈ c.callablePlaces) :
    declsIn p.scope c.decls = p.member.params.map (·.decl p.scope (.parameter none)) ++
      (localsOf p.member.body.stmts).map (·.decl p.scope (.localVar none [])) := by
  have hge : 2 + c.structs.length ≤ p.scope.index := placement_scope hp
  have hmembers : ScopeId.members.index = 1 := rfl
  have hcontract : ScopeId.global ≠ p.scope := by
    rintro he
    rw [← he] at hge
    exact absurd hge (by simp [ScopeId.global])
  have hne : ScopeId.members ≠ p.scope := by
    rintro he
    rw [← he, hmembers] at hge
    omega
  have hfields : declsIn p.scope (c.fields.map (·.decl .members)) = [] := by
    refine declsIn_eq_nil fun d hd => ?_
    obtain ⟨f, -, rfl⟩ := List.mem_map.1 hd
    exact hne
  have hstructs : declsIn p.scope c.structDecls = [] := by
    refine declsIn_eq_nil fun d hd he => ?_
    obtain ⟨q, hq, hdq⟩ := List.mem_flatMap.1 hd
    have hlt : q.scope.index < 2 + c.structs.length := placement_scope_lt hq
    rcases StructDecl.scope_of_mem hdq with hs | hs
    · exact hne (hs.symm.trans he)
    · rw [← hs, he] at hlt
      omega
  have hcallables : declsIn p.scope c.callableDecls =
      declsIn p.scope (p.member.decls .members p.scope) :=
    declsIn_placement (fun i f d hd => f.scope_of_mem hd) (by rw [hmembers]; omega) hp
  have hvars : declsIn p.scope (p.member.decls .members p.scope) =
      p.member.params.map (·.decl p.scope (.parameter none)) ++
        (localsOf p.member.body.stmts).map (·.decl p.scope (.localVar none [])) := by
    rw [Callable.decls, declsIn_cons_of_ne hne]
    refine declsIn_eq_self fun d hd => ?_
    rcases List.mem_append.1 hd with hd | hd
    · obtain ⟨v, -, rfl⟩ := List.mem_map.1 hd
      rfl
    · obtain ⟨v, -, rfl⟩ := List.mem_map.1 hd
      rfl
  rw [decls, declsIn_cons_of_ne hcontract, declsIn_append, declsIn_append, hfields, hstructs,
    hcallables, hvars]
  rfl

theorem declsIn_struct {p : Placement StructDecl} (hp : p ∈ c.structPlaces) :
    declsIn p.scope c.decls = p.member.fields.map (·.decl p.scope) := by
  have hge : 2 ≤ p.scope.index := placement_scope hp
  have hlt : p.scope.index < 2 + c.structs.length := placement_scope_lt hp
  have hmembers : ScopeId.members.index = 1 := rfl
  have hcontract : ScopeId.global ≠ p.scope := by
    rintro he
    rw [← he] at hge
    exact absurd hge (by decide)
  have hne : ScopeId.members ≠ p.scope := by
    rintro he
    rw [← he, hmembers] at hge
    omega
  have hfields : declsIn p.scope (c.fields.map (·.decl .members)) = [] := by
    refine declsIn_eq_nil fun d hd => ?_
    obtain ⟨f, -, rfl⟩ := List.mem_map.1 hd
    exact hne
  have hstructs : declsIn p.scope c.structDecls =
      declsIn p.scope (p.member.decls .members p.scope) :=
    declsIn_placement (fun i s d hd => s.scope_of_mem hd) (by decide) hp
  have hown : declsIn p.scope (p.member.decls .members p.scope) =
      p.member.fields.map (·.decl p.scope) := by
    rw [StructDecl.decls, declsIn_cons_of_ne hne]
    refine declsIn_eq_self fun d hd => ?_
    obtain ⟨f, -, rfl⟩ := List.mem_map.1 hd
    rfl
  have hcallables : declsIn p.scope c.callableDecls = [] := by
    refine declsIn_eq_nil fun d hd he => ?_
    obtain ⟨q, hq, hdq⟩ := List.mem_flatMap.1 hd
    have hfar : 2 + c.structs.length ≤ q.scope.index := placement_scope hq
    rcases Callable.scope_of_mem hdq with hs | hs
    · exact hne (hs.symm.trans he)
    · rw [← hs, he] at hfar
      omega
  rw [decls, declsIn_cons_of_ne hcontract, declsIn_append, declsIn_append, hfields, hstructs,
    hcallables, hown, List.nil_append, List.append_nil]

theorem param_mem_decls {p : Placement Callable} (hp : p ∈ c.callablePlaces) {v : VarDecl}
    (hv : v ∈ p.member.params) : v.decl p.scope (.parameter none) ∈ c.decls := by
  have hmem : v.decl p.scope (.parameter none) ∈ declsIn p.scope c.decls := by
    rw [declsIn_callable hp]
    exact List.mem_append_left _ (List.mem_map_of_mem hv)
  exact (List.mem_filter.1 hmem).1

theorem local_mem_decls {p : Placement Callable} (hp : p ∈ c.callablePlaces) {v : VarDecl}
    (hv : v ∈ localsOf p.member.body.stmts) : v.decl p.scope (.localVar none []) ∈ c.decls := by
  have hmem : v.decl p.scope (.localVar none []) ∈ declsIn p.scope c.decls := by
    rw [declsIn_callable hp]
    exact List.mem_append_right _ (List.mem_map_of_mem hv)
  exact (List.mem_filter.1 hmem).1

theorem declsIn_members (c : ContractDecl) :
    (declsIn .members c.decls).map (fun d => (d.symbol.name, d.node)) =
      c.members.map fun m => (m.name, m.id) := by
  have hfields : declsIn .members (c.fields.map (·.decl .members)) =
      c.fields.map (·.decl .members) := by
    refine declsIn_eq_self fun d hd => ?_
    obtain ⟨f, -, rfl⟩ := List.mem_map.1 hd
    rfl
  have hstructs : (declsIn .members c.structDecls).map (fun d => (d.symbol.name, d.node)) =
      c.structs.map fun s => (s.name.text, s.node.id) := by
    refine ContractLang.declsIn_members (fun i s hi => ?_) (by decide)
    rw [s.declsIn_outer hi]
    rfl
  have hcallables : (declsIn .members c.callableDecls).map (fun d => (d.symbol.name, d.node)) =
      c.callables.map fun f => (f.declaredName, f.node.id) := by
    have hlt : ScopeId.members.index < 2 + c.structs.length :=
      Nat.lt_of_lt_of_le (by decide) (Nat.le_add_right ..)
    refine ContractLang.declsIn_members (fun i f hi => ?_) hlt
    rw [f.declsIn_outer hi]
    rfl
  have hne : ScopeId.global ≠ .members := by decide
  rw [decls, declsIn_cons_of_ne hne, declsIn_append, declsIn_append, List.map_append,
    List.map_append, hfields, hstructs, hcallables]
  simp only [members, List.map_append, List.map_map]
  rfl

theorem declsIn_global_members (c : ContractDecl) :
    declsIn .global (c.fields.map (·.decl .members) ++ c.structDecls ++ c.callableDecls) = [] := by
  refine declsIn_eq_nil fun d hd he => ?_
  rcases List.mem_append.1 hd with hd | hd
  · rcases List.mem_append.1 hd with hd | hd
    · obtain ⟨f, -, rfl⟩ := List.mem_map.1 hd
      cases he
    · obtain ⟨p, hp, hdp⟩ := List.mem_flatMap.1 hd
      have hge : 2 ≤ p.scope.index := placement_scope hp
      rcases StructDecl.scope_of_mem hdp with hs | hs
      · rw [hs] at he
        cases he
      · rw [← hs, he] at hge
        exact absurd hge (by decide)
  · obtain ⟨p, hp, hdp⟩ := List.mem_flatMap.1 hd
    have hge : 2 + c.structs.length ≤ p.scope.index := placement_scope hp
    rcases Callable.scope_of_mem hdp with hs | hs
    · rw [hs] at he
      cases he
    · rw [← hs, he] at hge
      exact absurd (Nat.le_trans (Nat.le_add_right 2 _) hge) (by decide)

theorem declsIn_global (c : ContractDecl) :
    (declsIn .global c.decls).map (fun d => (d.symbol.name, d.node)) =
      [(c.name.text, c.node.id)] := by
  rw [decls, declsIn_cons_of_eq, declsIn_global_members]
  · rfl
  · rfl

end ContractDecl

namespace ContractDecl.Founded
variable {c : ContractDecl} {t : Table}

theorem entries_map (h : c.Founded t) (scope : ScopeId) {ns : List (String × NodeId)}
    (hn : (declsIn scope c.decls).map (fun d => (d.symbol.name, d.node)) = ns) :
    t.entries scope = initial.entries scope ++ ns.map fun n => (n.1, t.declaredAs n.2) := by
  rw [h.entries_eq, ← hn, List.map_map]
  rfl

theorem entries_callable (h : c.Founded t) {p : Placement Callable} (hp : p ∈ c.callablePlaces) :
    t.entries p.scope = p.member.vars.map fun v => (v.name.text, t.declaredAs v.node.id) := by
  have hnone : initial.entries p.scope = [] := by
    have hge : 2 + c.structs.length ≤ p.scope.index := placement_scope hp
    exact entries_of_le (Nat.le_trans (by decide) (Nat.le_trans (Nat.le_add_right 2 _) hge))
  rw [h.entries_eq, declsIn_callable hp, hnone, List.nil_append, List.map_append, List.map_map,
    List.map_map, Callable.vars, List.map_append]
  rfl

theorem entries_struct (h : c.Founded t) {p : Placement StructDecl} (hp : p ∈ c.structPlaces) :
    t.entries p.scope = p.member.fields.map fun f => (f.name.text, t.declaredAs f.node.id) := by
  have hnone : initial.entries p.scope = [] := by
    have hge : 2 ≤ p.scope.index := placement_scope hp
    exact entries_of_le (Nat.le_trans (by decide) hge)
  rw [h.entries_eq, declsIn_struct hp, hnone, List.nil_append, List.map_map]
  rfl

theorem entries_members (h : c.Founded t) :
    t.entries .members = c.members.map fun m => (m.name, t.declaredAs m.id) := by
  rw [h.entries_map .members c.declsIn_members, List.map_map]
  rfl

theorem entries_global (h : c.Founded t) :
    t.entries .global = c.globals := by
  rw [h.entries_map .global c.declsIn_global, globals]
  have hid : SymbolId.contract = t.declaredAs c.node.id :=
    h.declaredAs_eq (d := ⟨c.node.id, _⟩) (mem_numbered.2 ⟨0, rfl, rfl⟩)
  rw [hid]
  rfl

/-! ### Candidates -/

theorem parent_global (h : c.Founded t) : t.parentOf? .global = none := by
  rw [parentOf?_eq, h.scopes]
  rfl

theorem parent_members (h : c.Founded t) : t.parentOf? .members = some .global := by
  rw [parentOf?_eq, h.scopes]
  rfl

theorem holdsScope_members (h : c.Founded t) : t.HoldsScope .members := by
  obtain ⟨scope, hs, hheld⟩ := exists_memberScope h.valid
  rw [h.memberScope] at hs
  cases hs
  exact hheld

theorem holdsScope_callable (h : c.Founded t) {p : Placement Callable}
    (hp : p ∈ c.callablePlaces) : t.HoldsScope p.scope := by
  obtain ⟨info, hinfo, hinner⟩ := h.functionOf hp
  obtain ⟨id, -, hid⟩ := Option.bind_eq_some_iff.1 hinfo
  rw [← hinner]
  exact (functionAt_valid h.valid hid).1

theorem holdsScope_struct (h : c.Founded t) {p : Placement StructDecl} (hp : p ∈ c.structPlaces) :
    t.HoldsScope p.scope := by
  have hscope := h.fieldScope hp
  obtain ⟨k, hk, hinner⟩ := Option.bind_eq_some_iff.1 hscope
  obtain ⟨id, -, hid⟩ := Option.bind_eq_some_iff.1 hk
  cases k with
  | struct inner fields =>
    cases hinner
    exact (h.valid.kind hid).1
  | _ => cases hinner

/-- Every scope but the first two lies in that of the contract. -/
theorem parent_inner (h : c.Founded t) {scope : ScopeId} (hge : 2 ≤ scope.index)
    (hheld : t.HoldsScope scope) : t.parentOf? scope = some .members := by
  have hinner : ∀ s ∈ c.scopes.tail, s.parent = some .members := by
    intro s hs
    rcases List.mem_append.1 hs with hs | hs
    · obtain ⟨_, -, rfl⟩ := List.mem_map.1 hs
      rfl
    · obtain ⟨_, -, rfl⟩ := List.mem_map.1 hs
      rfl
  have hlt : scope.index < t.scopeOutlines.length := by
    rw [scopeOutlines, List.length_map]
    exact hheld
  obtain ⟨i, hi⟩ : ∃ i, scope.index = i + 2 := ⟨scope.index - 2, by omega⟩
  have hget : t.scopeOutlines[i + 2]? = c.scopes.tail[i]? := by
    rw [h.scopes]
    rfl
  rw [hi] at hlt
  obtain ⟨s, hs⟩ : ∃ s, t.scopeOutlines[i + 2]? = some s := ⟨_, List.getElem?_eq_getElem hlt⟩
  rw [parentOf?_eq, hi, hs]
  rw [hs] at hget
  exact hinner s (List.mem_of_getElem? hget.symm)

theorem parent_struct (h : c.Founded t) {p : Placement StructDecl} (hp : p ∈ c.structPlaces) :
    t.parentOf? p.scope = some .members :=
  h.parent_inner (placement_scope hp) (h.holdsScope_struct hp)

theorem parent_callable (h : c.Founded t) {p : Placement Callable} (hp : p ∈ c.callablePlaces) :
    t.parentOf? p.scope = some .members :=
  h.parent_inner (Nat.le_trans (Nat.le_add_right 2 _) (placement_scope hp)) (h.holdsScope_callable hp)

/-- A name stands for variables of the callable if there are any of that name. -/
theorem candidates_callable (h : c.Founded t) {p : Placement Callable} (hp : p ∈ c.callablePlaces)
    (x : String) :
    t.candidates p.scope x =
      if p.member.vars.filter (·.name.text = x) = [] then t.candidates .members x
      else (p.member.vars.filter (·.name.text = x)).map fun v => t.declaredAs v.node.id := by
  have hown : t.declarationsIn p.scope x =
      (p.member.vars.filter (·.name.text = x)).map fun v => t.declaredAs v.node.id := by
    rw [declarationsIn, h.entries_callable hp, List.filter_map, List.map_map]
    rfl
  rw [candidates_eq h.valid (h.holdsScope_callable hp), h.parent_callable hp, hown]
  simp only [List.map_eq_nil_iff, Option.map_some, Option.getD_some]

/-- Else it stands for members of the contract. -/
theorem candidates_members (h : c.Founded t) (x : String) :
    t.candidates .members x =
      if c.members.filter (·.name = x) = [] then t.candidates .global x
      else (c.members.filter (·.name = x)).map fun m => t.declaredAs m.id := by
  have hown : t.declarationsIn .members x =
      (c.members.filter (·.name = x)).map fun m => t.declaredAs m.id := by
    rw [declarationsIn, h.entries_members, List.filter_map, List.map_map]
    rfl
  rw [candidates_eq h.valid h.holdsScope_members, h.parent_members, hown]
  simp only [List.map_eq_nil_iff, Option.map_some, Option.getD_some]

/-- Else it stands for something built in, or for the contract. -/
theorem candidates_global (h : c.Founded t) (x : String) :
    t.candidates .global x =
      (c.globals.filter (·.1 = x)).map Prod.snd := by
  rw [candidates_eq h.valid h.valid.global, h.parent_global, declarationsIn, h.entries_global]
  split
  · rename_i hnone
    exact hnone.symm
  · rfl

/-! ### What the candidates are -/

theorem sort_param (h : c.Founded t) {p : Placement Callable} (hp : p ∈ c.callablePlaces)
    {v : VarDecl} (hv : v ∈ p.member.params) :
    t.declaredBy? v.node.id = some (t.declaredAs v.node.id) ∧
      t.sort? (t.declaredAs v.node.id) = some (.parameter none) :=
  h.of_mem_decls (param_mem_decls hp hv)

theorem sort_local (h : c.Founded t) {p : Placement Callable} (hp : p ∈ c.callablePlaces)
    {v : VarDecl} (hv : v ∈ localsOf p.member.body.stmts) :
    t.declaredBy? v.node.id = some (t.declaredAs v.node.id) ∧
      t.sort? (t.declaredAs v.node.id) = some (.localVar none []) :=
  h.of_mem_decls (local_mem_decls hp hv)

theorem sort_member (h : c.Founded t) {m : Member} (hm : m ∈ c.members) :
    t.declaredBy? m.id = some (t.declaredAs m.id) ∧
      ∃ k, t.sort? (t.declaredAs m.id) = some k ∧ k.isValue = m.isField ∧ k.isLocal = false := by
  simp only [members, List.mem_append, List.mem_map] at hm
  rcases hm with (⟨f, hf, rfl⟩ | ⟨s, hs, rfl⟩) | ⟨f, hf, rfl⟩
  · have hmem : f.decl .members ∈ c.decls := by simp [decls, List.mem_map_of_mem hf]
    obtain ⟨hd, hk⟩ := h.of_mem_decls hmem
    exact ⟨hd, _, hk, rfl, rfl⟩
  · obtain ⟨p, hp, rfl⟩ := exists_structPlace hs
    obtain ⟨hd, hk⟩ := h.declared _ ⟨p.symbol⟩ (struct_numbered hp (mem_numbered.2 ⟨0, rfl, rfl⟩))
    have hid : t.declaredAs p.member.node.id = ⟨p.symbol⟩ := by rw [declaredAs, hd]; rfl
    exact ⟨hd.trans (congrArg some hid.symm), _, hid ▸ hk, rfl, rfl⟩
  · obtain ⟨p, hp, rfl⟩ := exists_callablePlace hf
    obtain ⟨hd, hk⟩ := h.declared _ ⟨p.symbol⟩ (callable_numbered hp (mem_numbered.2 ⟨0, rfl, rfl⟩))
    have hid : t.declaredAs p.member.node.id = ⟨p.symbol⟩ := by rw [declaredAs, hd]; rfl
    exact ⟨hd.trans (congrArg some hid.symm), _, hid ▸ hk, rfl, rfl⟩

end ContractDecl.Founded
end ContractLang
