import ContractLang.Proofs.Frames
import ContractLang.Proofs.Identity
import ContractLang.Proofs.Meaning
/-!
The symbols that stand for meanings. In a table that has the declarations of a contract, each
entity has a symbol of its sort, look-ups find the symbols of the entities that a name may stand
for, and a written type denotes the symbol of its meaning. Different types have different symbols.
-/
namespace ContractLang

namespace Table

def symbolOf? (t : Table) : Ref → Option SymbolId
  | .builtin id => if id.index < 10 then some id else none
  | .declared node => t.declaredBy? node

/-- The symbol of a type, if all that it is built of has one. -/
def typeOf? (t : Table) : Ty → Option SymbolId
  | .named ref => t.symbolOf? ref
  | .array element => (t.typeOf? element).bind t.arrays.get?
  | .map key value =>
    (t.typeOf? key).bind fun k => (t.typeOf? value).bind fun v => t.maps.get? (k, v)

theorem typeOf?_builtin (t : Table) {id : SymbolId} (h : id.index < 10) :
    t.typeOf? (.builtin id) = some id := if_pos h

/-- A type keeps its symbol, as long as no declaration, array or map type is lost. -/
theorem typeOf?_mono {t t' : Table} (hd : t'.declared = t.declared) (ha : t.arrays.Extends t'.arrays)
    (hm : t.maps.Extends t'.maps) {type : Ty} {id : SymbolId} (hid : t.typeOf? type = some id) :
    t'.typeOf? type = some id := by
  induction type generalizing id with
  | named ref =>
    cases ref with
    | builtin id => exact hid
    | declared node => exact (congrArg (Assoc.get? · node) hd).trans hid
  | array element ih =>
    obtain ⟨e, he, hget⟩ := Option.bind_eq_some_iff.1 hid
    exact Option.bind_eq_some_iff.2 ⟨e, ih he, ha e id hget⟩
  | map key value ihk ihv =>
    obtain ⟨k, hk, hrest⟩ := Option.bind_eq_some_iff.1 hid
    obtain ⟨v, hv, hget⟩ := Option.bind_eq_some_iff.1 hrest
    exact Option.bind_eq_some_iff.2
      ⟨k, ihk hk, Option.bind_eq_some_iff.2 ⟨v, ihv hv, hm (k, v) id hget⟩⟩

theorem Retypes.typeOf?_eq_some {t t' : Table} (h : t.Retypes t') {type : Ty} {id : SymbolId}
    (hid : t.typeOf? type = some id) : t'.typeOf? type = some id :=
  typeOf?_mono h.declared h.arrays h.maps hid

end Table

open Table

/-- A declaration is never that of an array or map type. -/
theorem ContractDecl.plain_of_mem_decls {c : ContractDecl} {d : Decl} (h : d ∈ c.decls) :
    ¬d.symbol.kind.IsStructural := by
  simp only [decls, List.mem_cons, List.mem_append, List.mem_map] at h
  rcases h with rfl | (⟨f, hf, rfl⟩ | h) | h
  · exact id
  · exact id
  · obtain ⟨p, hp, hd⟩ := List.mem_flatMap.1 h
    rcases List.mem_cons.1 hd with rfl | hd
    · exact id
    · obtain ⟨f, -, rfl⟩ := List.mem_map.1 hd
      exact id
  · obtain ⟨p, hp, hd⟩ := List.mem_flatMap.1 h
    rcases List.mem_cons.1 hd with rfl | hd
    · exact id
    · rcases List.mem_append.1 hd with hd | hd
      · obtain ⟨v, -, rfl⟩ := List.mem_map.1 hd
        exact id
      · obtain ⟨v, -, rfl⟩ := List.mem_map.1 hd
        exact id

theorem SymbolKind.isStructural_outline (k : SymbolKind) : k.outline.IsStructural ↔ k.IsStructural := by
  cases k <;> exact Iff.rfl

namespace ContractDecl.Founded
variable {c : ContractDecl} {t : Table}

theorem declaredBy?_inj (h : c.Founded t) {m n : NodeId} {id : SymbolId}
    (hm : t.declaredBy? m = some id) (hn : t.declaredBy? n = some id) : m = n := by
  obtain ⟨d, hd, rfl⟩ := h.origin m id hm
  obtain ⟨e, he, rfl⟩ := h.origin n id hn
  rw [numbered_unique hd he]

theorem plain_symbolOf? (h : c.Founded t) {ref : Ref} {id : SymbolId}
    (hid : t.symbolOf? ref = some id) {k : SymbolKind} (hk : t.kind? id = some k) :
    ¬k.IsStructural := by
  cases ref with
  | builtin j =>
    obtain ⟨hlt, rfl⟩ : j.index < 10 ∧ j = id := by simpa [symbolOf?] using hid
    rw [h.valid.kind?_builtin hlt] at hk
    exact plain_initial hk
  | declared node =>
    obtain ⟨d, hd, rfl⟩ := h.origin node id hid
    obtain ⟨i, hi, -⟩ := mem_numbered.1 hd
    have hsort := (h.declared d id hd).2
    rw [sort?, hk, Option.map_some, Option.some.injEq] at hsort
    rw [← k.isStructural_outline, hsort]
    exact plain_of_mem_decls (List.mem_of_getElem? hi)

theorem symbolOf?_inj (h : c.Founded t) {a b : Ref} {id : SymbolId} (ha : t.symbolOf? a = some id)
    (hb : t.symbolOf? b = some id) : a = b := by
  have hbuiltin : ∀ {j : SymbolId} {node : NodeId}, t.symbolOf? (.builtin j) = some id →
      t.symbolOf? (.declared node) ≠ some id := by
    intro j node hj hnode
    obtain ⟨hlt, rfl⟩ : j.index < 10 ∧ j = id := by simpa [symbolOf?] using hj
    exact absurd (h.valid.declared node j hnode).1 (Nat.not_le.2 hlt)
  cases a with
  | builtin j =>
    cases b with
    | builtin j' =>
      obtain ⟨-, rfl⟩ : j.index < 10 ∧ j = id := by simpa [symbolOf?] using ha
      obtain ⟨-, rfl⟩ : j'.index < 10 ∧ j' = j := by simpa [symbolOf?] using hb
      rfl
    | declared node => exact absurd hb (hbuiltin ha)
  | declared node =>
    cases b with
    | builtin j => exact absurd ha (hbuiltin hb)
    | declared node' => rw [h.declaredBy?_inj ha hb]

theorem kind_array (h : c.Founded t) {element : Ty} {id : SymbolId}
    (hid : t.typeOf? (.array element) = some id) :
    ∃ e, t.typeOf? element = some e ∧ t.kind? id = some (.array e) := by
  obtain ⟨e, he, hget⟩ := Option.bind_eq_some_iff.1 hid
  exact ⟨e, he, (h.valid.arrays e id).1 hget⟩

theorem kind_map (h : c.Founded t) {key value : Ty} {id : SymbolId}
    (hid : t.typeOf? (.map key value) = some id) :
    ∃ k v, t.typeOf? key = some k ∧ t.typeOf? value = some v ∧ t.kind? id = some (.map k v) := by
  obtain ⟨k, hk, hrest⟩ := Option.bind_eq_some_iff.1 hid
  obtain ⟨v, hv, hget⟩ := Option.bind_eq_some_iff.1 hrest
  exact ⟨k, v, hk, hv, (h.valid.maps (k, v) id).1 hget⟩

/-- Different types have different symbols. -/
theorem typeOf?_inj (h : c.Founded t) {a b : Ty} {id : SymbolId} (ha : t.typeOf? a = some id)
    (hb : t.typeOf? b = some id) : a = b := by
  induction a generalizing b id with
  | named ref =>
    cases b with
    | named ref' => rw [h.symbolOf?_inj ha hb]
    | array element =>
      obtain ⟨e, -, hk⟩ := h.kind_array hb
      exact absurd trivial (h.plain_symbolOf? ha hk)
    | map key value =>
      obtain ⟨k, v, -, -, hk⟩ := h.kind_map hb
      exact absurd trivial (h.plain_symbolOf? ha hk)
  | array element ih =>
    obtain ⟨e, he, hk⟩ := h.kind_array ha
    cases b with
    | named ref => exact absurd trivial (h.plain_symbolOf? hb hk)
    | array element' =>
      obtain ⟨e', he', hk'⟩ := h.kind_array hb
      rw [hk] at hk'
      cases hk'
      rw [ih he he']
    | map key value =>
      obtain ⟨_, _, -, -, hk'⟩ := h.kind_map hb
      rw [hk] at hk'
      cases hk'
  | map key value ihk ihv =>
    obtain ⟨k, v, hkey, hvalue, hk⟩ := h.kind_map ha
    cases b with
    | named ref => exact absurd trivial (h.plain_symbolOf? hb hk)
    | array element =>
      obtain ⟨_, -, hk'⟩ := h.kind_array hb
      rw [hk] at hk'
      cases hk'
    | map key' value' =>
      obtain ⟨_, _, hkey', hvalue', hk'⟩ := h.kind_map hb
      rw [hk] at hk'
      cases hk'
      rw [ihk hkey hkey', ihv hvalue hvalue']

/-- Only an array has elements. -/
theorem elementType_eq (h : c.Founded t) {type : Ty} {id : SymbolId}
    (hid : t.typeOf? type = some id) : t.elementType id = type.element?.bind t.typeOf? := by
  cases type with
  | named ref =>
    rw [elementType]
    cases hk : t.kind? id with
    | none => rfl
    | some k =>
      have hplain := h.plain_symbolOf? hid hk
      cases k with
      | array e => exact absurd trivial hplain
      | _ => rfl
  | array element =>
    obtain ⟨e, he, hk⟩ := h.kind_array hid
    rw [elementType, hk]
    exact he.symm
  | map key value =>
    obtain ⟨k, v, -, -, hk⟩ := h.kind_map hid
    rw [elementType, hk]
    rfl

end ContractDecl.Founded

/-! ### Entities -/

/-- The kind of symbol that an entity has. -/
def Entity.Describes : Entity → SymbolKind → Prop
  | builtin id, k => Table.initial.kind? id = some k
  | contract _, .contract _ | struct _, .struct _ _ | callable _ _ _, .function _
  | field _ _, .field _ | param _ _, .parameter _ | localVar _ _, .localVar _ _ => True
  | _, _ => False

/-- The symbol stands for the entity. -/
structure Table.Represents (t : Table) (e : Entity) (id : SymbolId) : Prop where
  symbol : t.symbolOf? e.ref = some id
  kind : ∃ k, t.kind? id = some k ∧ e.Describes k

namespace Entity.Describes
variable {e : Entity} {k : SymbolKind}

theorem isValue_eq (h : e.Describes k) : k.isValue = e.isValue := by
  cases e with
  | builtin id => rw [Entity.isValue, show Table.initial.kind? id = some k from h]; rfl
  | _ => cases k <;> first | rfl | cases h

theorem isLocal_eq (h : e.Describes k) : k.isLocal = e.isLocal := by
  cases e with
  | builtin id =>
    have hall : ∀ s ∈ Table.initial.symbols, s.kind.isLocal = false := by decide
    obtain ⟨s, hs, rfl⟩ := Option.map_eq_some_iff.1 h
    exact hall s (List.mem_of_getElem? hs)
  | _ => cases k <;> first | rfl | cases h

theorem isType_eq (h : e.Describes k) : k.isType = e.type?.isSome := by
  cases e with
  | builtin id =>
    rw [Entity.type?, show Table.initial.kind? id = some k from h, Option.any_some]
    cases k.isType <;> rfl
  | _ => cases k <;> first | rfl | cases h

theorem function?_eq_none (h : e.Describes k) (he : ∀ n rs ps, e ≠ .callable n rs ps) :
    k.function? = none := by
  cases e with
  | builtin id =>
    have hall : ∀ s ∈ Table.initial.symbols, s.kind.function? = none := by decide
    obtain ⟨s, hs, rfl⟩ := Option.map_eq_some_iff.1 h
    exact hall s (List.mem_of_getElem? hs)
  | callable n rs ps => exact absurd rfl (he n rs ps)
  | _ => cases k <;> first | rfl | cases h

theorem of_outline (he : ∀ id, e ≠ .builtin id) (h : e.Describes k.outline) : e.Describes k := by
  cases e with
  | builtin id => exact absurd rfl (he id)
  | _ => cases k <;> exact h

end Entity.Describes

theorem Entity.type?_eq_some {e : Entity} {type : Ty} (h : e.type? = some type) :
    type = .named e.ref := by
  cases e with
  | builtin id =>
    rw [Entity.type?, Option.ite_none_right_eq_some] at h
    cases h.2
    rfl
  | contract node => cases h; rfl
  | struct node => cases h; rfl
  | _ => cases h

/-- The declarations of a scope are those of the entities, in order. -/
def Table.Lists (t : Table) (scope : ScopeId) (es : List (String × Entity)) : Prop :=
  List.Forall₂ (fun e d => e.1 = d.1 ∧ t.Represents e.2 d.2) es (t.entries scope)

theorem Table.Lists.named {t : Table} {scope : ScopeId} {es : List (String × Entity)}
    (h : t.Lists scope es) (x : String) :
    List.Forall₂ t.Represents (namedIn es x) (t.declarationsIn scope x) := by
  unfold Table.Lists at h
  unfold namedIn declarationsIn
  generalize t.entries scope = ds at h ⊢
  induction h with
  | nil => exact .nil
  | @cons e d es ds hd _ ih =>
    by_cases hx : e.1 = x
    · have hx' : d.1 = x := hd.1 ▸ hx
      rw [List.filter_cons_of_pos (by simpa using hx), List.filter_cons_of_pos (by simpa using hx')]
      exact .cons hd.2 ih
    · have hx' : d.1 ≠ x := hd.1 ▸ hx
      rw [List.filter_cons_of_neg (by simpa using hx), List.filter_cons_of_neg (by simpa using hx')]
      exact ih

theorem Table.candidates_within {t : Table} (ht : t.Valid) {scope parent : ScopeId}
    (hs : t.HoldsScope scope) (hp : t.parentOf? scope = some parent) {es : List (String × Entity)}
    (hes : t.Lists scope es) {outer : Env}
    (houter : ∀ x, List.Forall₂ t.Represents (outer x) (t.candidates parent x)) (x : String) :
    List.Forall₂ t.Represents (outer.within es x) (t.candidates scope x) := by
  have hown := hes.named x
  have hnil : namedIn es x = [] ↔ t.declarationsIn scope x = [] := by
    rw [← List.length_eq_zero_iff, hown.length_eq, List.length_eq_zero_iff]
  rw [candidates_eq ht hs, hp, Env.within]
  by_cases h : namedIn es x = []
  · rw [if_pos h, if_pos (hnil.1 h)]
    exact houter x
  · rw [if_neg h, if_neg (mt hnil.2 h)]
    exact hown

namespace ContractDecl.Founded
variable {c : ContractDecl} {t : Table}

theorem represents (h : c.Founded t) {d : Decl} (hd : d ∈ c.decls) {e : Entity}
    (href : e.ref = .declared d.node) (hkind : e.Describes d.symbol.kind) :
    t.Represents e (t.declaredAs d.node) := by
  obtain ⟨hdeclared, hsort⟩ := h.of_mem_decls hd
  obtain ⟨k, hk, ho⟩ := Option.map_eq_some_iff.1 hsort
  have hne : ∀ id, e ≠ .builtin id := by
    rintro id rfl
    cases href
  refine ⟨by rw [href]; exact hdeclared, k, hk, ?_⟩
  exact Entity.Describes.of_outline hne (ho ▸ hkind)

theorem represents_field (h : c.Founded t) {f : FieldDecl} (hf : f ∈ c.allFields) :
    t.Represents f.entity (t.declaredAs f.node.id) := by
  obtain ⟨scope, id, hid⟩ := field_numbered hf
  obtain ⟨i, hi, -⟩ := mem_numbered.1 hid
  exact h.represents (List.mem_of_getElem? hi) rfl trivial

theorem represents_param (h : c.Founded t) {p : Placement Callable} (hp : p ∈ c.callablePlaces)
    {v : VarDecl} (hv : v ∈ p.member.params) :
    t.Represents (.param v.node.id v.type) (t.declaredAs v.node.id) :=
  h.represents (param_mem_decls hp hv) rfl trivial

theorem represents_local (h : c.Founded t) {p : Placement Callable} (hp : p ∈ c.callablePlaces)
    {v : VarDecl} (hv : v ∈ localsOf p.member.body.stmts) :
    t.Represents (.localVar v.node.id v.type) (t.declaredAs v.node.id) :=
  h.represents (local_mem_decls hp hv) rfl trivial

theorem represents_member (h : c.Founded t) {m : Member} (hm : m ∈ c.members) :
    t.Represents m.entity (t.declaredAs m.id) := by
  simp only [members, List.mem_append, List.mem_map] at hm
  rcases hm with (⟨f, hf, rfl⟩ | ⟨s, hs, rfl⟩) | ⟨f, hf, rfl⟩
  · exact h.represents_field (List.mem_append_left _ hf)
  · obtain ⟨p, hp, rfl⟩ := exists_structPlace hs
    obtain ⟨i, hi, -⟩ := mem_numbered.1 (struct_numbered hp (mem_numbered.2 ⟨0, rfl, rfl⟩))
    exact h.represents (e := .struct p.member.node.id) (List.mem_of_getElem? hi) rfl trivial
  · obtain ⟨p, hp, rfl⟩ := exists_callablePlace hf
    obtain ⟨i, hi, -⟩ := mem_numbered.1 (callable_numbered hp (mem_numbered.2 ⟨0, rfl, rfl⟩))
    exact h.represents (e := p.member.entity) (List.mem_of_getElem? hi) rfl trivial

theorem represents_builtin (h : c.Founded t) {id : SymbolId} (hid : id.index < 10) :
    t.Represents (.builtin id) id := by
  obtain ⟨k, hk⟩ := holds_iff_kind?.1 (h.valid.holds hid)
  refine ⟨if_pos hid, k, hk, ?_⟩
  rw [h.valid.kind?_builtin hid] at hk
  exact hk

theorem represents_contract (h : c.Founded t) : t.Represents (.contract c.node.id) .contract := by
  have hid : t.declaredAs c.node.id = SymbolId.contract :=
    (h.declaredAs_eq (d := ⟨c.node.id, _⟩) (mem_numbered.2 ⟨0, rfl, rfl⟩)).symm
  have hrep := h.represents (e := .contract c.node.id) (List.mem_cons_self ..) rfl trivial
  exact hid ▸ hrep

theorem lists_global (h : c.Founded t) : t.Lists .global c.globalEntities := by
  have hsmall : ∀ d ∈ initial.entries .global, d.2.index < 10 := by decide
  rw [Table.Lists, h.entries_global, ContractDecl.globalEntities, ContractDecl.globals]
  refine List.rel_append ?_ (.cons ⟨rfl, h.represents_contract⟩ .nil)
  rw [List.forall₂_map_left_iff, List.forall₂_same]
  exact fun d hd => ⟨rfl, h.represents_builtin (hsmall d hd)⟩

theorem lists_members (h : c.Founded t) : t.Lists .members c.memberEntities := by
  rw [Table.Lists, h.entries_members, memberEntities, List.forall₂_map_left_iff, List.forall₂_map_right_iff,
    List.forall₂_same]
  exact fun m hm => ⟨rfl, h.represents_member hm⟩

theorem lists_struct (h : c.Founded t) {p : Placement StructDecl} (hp : p ∈ c.structPlaces) :
    t.Lists p.scope p.member.entities := by
  rw [Table.Lists, h.entries_struct hp, StructDecl.entities, List.forall₂_map_left_iff,
    List.forall₂_map_right_iff, List.forall₂_same]
  intro f hf
  have hmem : f ∈ c.structs.flatMap (·.fields) :=
    List.mem_flatMap.2 ⟨p.member, placement_member hp, hf⟩
  exact ⟨rfl, h.represents_field (List.mem_append_right _ hmem)⟩

theorem lists_callable (h : c.Founded t) {p : Placement Callable} (hp : p ∈ c.callablePlaces) :
    t.Lists p.scope p.member.entities := by
  rw [Table.Lists, h.entries_callable hp, Callable.entities, Callable.vars, List.map_append]
  refine List.rel_append ?_ ?_
  · rw [List.forall₂_map_left_iff, List.forall₂_map_right_iff, List.forall₂_same]
    exact fun v hv => ⟨rfl, h.represents_param hp hv⟩
  · rw [List.forall₂_map_left_iff, List.forall₂_map_right_iff, List.forall₂_same]
    exact fun v hv => ⟨rfl, h.represents_local hp hv⟩

/-! ### Names -/

theorem candidates_env (h : c.Founded t) (x : String) :
    List.Forall₂ t.Represents (c.env x) (t.candidates .members x) := by
  refine candidates_within h.valid h.holdsScope_members h.parent_members h.lists_members ?_ x
  intro y
  have hown := h.lists_global.named y
  have hall : t.candidates .global y = t.declarationsIn .global y := by
    rw [h.candidates_global, declarationsIn, h.entries_global]
  rw [hall]
  exact hown

theorem candidates_inStruct (h : c.Founded t) {p : Placement StructDecl} (hp : p ∈ c.structPlaces)
    (x : String) :
    List.Forall₂ t.Represents (c.env.within p.member.entities x) (t.candidates p.scope x) :=
  candidates_within h.valid (h.holdsScope_struct hp) (h.parent_struct hp) (h.lists_struct hp)
    h.candidates_env x

theorem candidates_inCallable (h : c.Founded t) {p : Placement Callable} (hp : p ∈ c.callablePlaces)
    (x : String) :
    List.Forall₂ t.Represents (c.env.within p.member.entities x) (t.candidates p.scope x) :=
  candidates_within h.valid (h.holdsScope_callable hp) (h.parent_callable hp) (h.lists_callable hp)
    h.candidates_env x

/-! ### Written types -/

theorem lookup_eq (h : c.Founded t) (x : String) :
    t.lookup .members x = .ok (t.candidates .members x).head? := by
  rw [lookup_eq_nearest h.valid h.holdsScope_members, nearest_eq_candidates h.valid h.holdsScope_members]
  rfl

/-- A name means the symbol of the type that it stands for. -/
theorem means_iff (h : c.Founded t) {x : String} {id : SymbolId} :
    t.Means x id ↔ ((c.env x).head?.bind Entity.type?).bind t.typeOf? = some id := by
  have hcandidates := h.candidates_env x
  have hmeans : t.Means x id ↔ (t.candidates .members x).head? = some id ∧
      ∃ k, t.kind? id = some k ∧ k.isType = true := by
    constructor
    · rintro ⟨scope, hscope, hlookup, hk⟩
      rw [h.memberScope] at hscope
      cases hscope
      rw [h.lookup_eq] at hlookup
      exact ⟨Except.ok.inj hlookup, hk⟩
    · rintro ⟨hhead, hk⟩
      exact ⟨.members, h.memberScope, by rw [h.lookup_eq, hhead], hk⟩
  rw [hmeans]
  generalize c.env x = es at hcandidates ⊢
  generalize t.candidates .members x = ids at hcandidates ⊢
  cases hcandidates with
  | nil => simp
  | @cons e j es ids hrep _ =>
    obtain ⟨k, hk, hdescribes⟩ := hrep.kind
    have htype := hdescribes.isType_eq
    simp only [List.head?_cons, Option.some.injEq, Option.bind_some]
    constructor
    · rintro ⟨rfl, k', hk', hisType⟩
      rw [hk] at hk'
      cases hk'
      obtain ⟨type, he⟩ := Option.isSome_iff_exists.1 (htype ▸ hisType)
      rw [he, Entity.type?_eq_some he]
      exact hrep.symbol
    · intro hid
      obtain ⟨type, he, htypeOf⟩ := Option.bind_eq_some_iff.1 hid
      rw [Entity.type?_eq_some he] at htypeOf
      have hsame : j = id := Option.some.inj (hrep.symbol.symm.trans htypeOf)
      subst hsame
      exact ⟨rfl, k, hk, by rw [htype, he]; rfl⟩

theorem exists_means_iff (h : c.Founded t) {x : String} :
    (∃ id, t.Means x id) ↔ ((c.env x).head?.bind Entity.type?).isSome := by
  constructor
  · rintro ⟨id, hid⟩
    obtain ⟨type, htype, -⟩ := Option.bind_eq_some_iff.1 (h.means_iff.1 hid)
    rw [htype]
    rfl
  · intro hsome
    obtain ⟨type, htype⟩ := Option.isSome_iff_exists.1 hsome
    obtain ⟨e, he, heType⟩ := Option.bind_eq_some_iff.1 htype
    have hcandidates := h.candidates_env x
    cases hids : t.candidates .members x with
    | nil =>
      rw [hids, List.forall₂_nil_right_iff] at hcandidates
      rw [hcandidates] at he
      cases he
    | cons j ids =>
      rw [hids] at hcandidates
      cases hes : c.env x with
      | nil =>
        rw [hes] at he
        cases he
      | cons e' es =>
        rw [hes] at hcandidates he
        cases he
        have hrep := (List.forall₂_cons.1 hcandidates).1
        refine ⟨j, h.means_iff.2 ?_⟩
        rw [htype, Option.bind_some, Entity.type?_eq_some heType]
        exact hrep.symbol

/-- A written type denotes the symbol of its meaning. -/
theorem denotes_iff (h : c.Founded t) {type : TypeName} {id : SymbolId} :
    t.Denotes type id ↔ (c.env.denote type).bind t.typeOf? = some id := by
  induction type generalizing id with
  | named span x =>
    rw [Env.denote, ← h.means_iff]
    constructor
    · rintro ⟨hm⟩
      exact hm
    · exact .named
  | array span element ih =>
    rw [Env.denote]
    constructor
    · intro hd
      cases hd with
      | array he hk =>
        obtain ⟨type, htype, hsym⟩ := Option.bind_eq_some_iff.1 (ih.1 he)
        rw [htype, Option.map_some, Option.bind_some, typeOf?, hsym]
        exact (h.valid.arrays _ id).2 hk
    · intro hid
      obtain ⟨type, htype, hsym⟩ := Option.bind_eq_some_iff.1 hid
      obtain ⟨elementType, helement, rfl⟩ := Option.map_eq_some_iff.1 htype
      obtain ⟨e, he, hk⟩ := h.kind_array hsym
      exact .array (ih.2 (by rw [helement]; exact he)) hk
  | map span key value ihk ihv =>
    rw [Env.denote]
    constructor
    · intro hd
      cases hd with
      | map hkey hvalue hk =>
        obtain ⟨keyType, hkeyType, hkeySym⟩ := Option.bind_eq_some_iff.1 (ihk.1 hkey)
        obtain ⟨valueType, hvalueType, hvalueSym⟩ := Option.bind_eq_some_iff.1 (ihv.1 hvalue)
        rw [hkeyType, hvalueType, Option.bind_some, Option.map_some, Option.bind_some, typeOf?, hkeySym,
          Option.bind_some, hvalueSym]
        exact (h.valid.maps (_, _) id).2 hk
    · intro hid
      obtain ⟨type, htype, hsym⟩ := Option.bind_eq_some_iff.1 hid
      obtain ⟨keyType, hkeyType, hrest⟩ := Option.bind_eq_some_iff.1 htype
      obtain ⟨valueType, hvalueType, rfl⟩ := Option.map_eq_some_iff.1 hrest
      obtain ⟨k, v, hkey, hvalue, hk⟩ := h.kind_map hsym
      exact .map (ihk.2 (by rw [hkeyType]; exact hkey)) (ihv.2 (by rw [hvalueType]; exact hvalue)) hk
  | void span =>
    constructor
    · intro hd
      cases hd
    · intro hid
      cases hid

theorem meaningful_iff (h : c.Founded t) (type : TypeName) :
    t.Meaningful type ↔ (c.env.denote type).isSome := by
  induction type with
  | named span x => exact h.exists_means_iff
  | array span element ih => rw [Meaningful, ih, Env.denote, Option.isSome_map]
  | map span key value ihk ihv =>
    rw [Meaningful, ihk, ihv, Env.denote]
    cases c.env.denote key <;> cases c.env.denote value <;> simp
  | void span => simp [Meaningful, Env.denote]

end ContractDecl.Founded
end ContractLang
