import Mathlib.Data.List.Forall2
import ContractLang.Proofs.Lexical
import ContractLang.Proofs.Records
/-!
The statements that see a local, as the table has them: those inside the statements that follow its
declaration in the same block. Where declaring reports nothing, a statement sees at most one local of
a name, so that the order in which locals are declared does not decide which of them is meant.
-/
namespace ContractLang

open Table

/-! ### Declarations and what follows them -/

mutual
/-- A statement and those inside it, in the order in which they are written, each with the statements
that follow it in its own block. -/
def Stmt.followed (after : List Stmt) : Stmt → List (Stmt × List Stmt)
  | .branch node condition ⟨onTrue, spanTrue⟩ none =>
    (.branch node condition ⟨onTrue, spanTrue⟩ none, after) :: followedOf onTrue
  | .branch node condition ⟨onTrue, spanTrue⟩ (some ⟨onFalse, spanFalse⟩) =>
    (.branch node condition ⟨onTrue, spanTrue⟩ (some ⟨onFalse, spanFalse⟩), after) ::
      (followedOf onTrue ++ followedOf onFalse)
  | s => [(s, after)]

def followedOf : List Stmt → List (Stmt × List Stmt)
  | [] => []
  | s :: rest => s.followed rest ++ followedOf rest
end

theorem Stmt.followed_eq (after : List Stmt) (s : Stmt) :
    s.followed after = (s, after) :: s.blocks.flatMap (followedOf ·.stmts) := by
  cases s with
  | branch node condition onTrue onFalse => cases onFalse <;> simp [Stmt.followed, Stmt.blocks]
  | _ => simp [Stmt.followed, Stmt.blocks]

/-- The locals of a block in the order of their declarations, each with the statements that follow its
own one. -/
def declarationsOf (b : List Stmt) : List (VarDecl × List Stmt) :=
  (followedOf b).flatMap fun q => q.1.vars.map (·, q.2)

theorem viewsOf_eq (b : List Stmt) :
    viewsOf b = (declarationsOf b).map fun d => (d.1, (allOf d.2).map Stmt.id) := by
  induction b using Block.induction with
  | nil => rfl
  | cons s rest hblocks hrest =>
    have hinner : s.blocks.flatMap (viewsOf ·.stmts) = (s.blocks.flatMap (declarationsOf ·.stmts)).map
        fun d => (d.1, (allOf d.2).map Stmt.id) := by
      rw [List.map_flatMap]
      exact List.flatMap_congr hblocks
    have hall : declarationsOf (s :: rest) =
        s.vars.map (·, rest) ++ s.blocks.flatMap (declarationsOf ·.stmts) ++ declarationsOf rest := by
      rw [declarationsOf, followedOf, s.followed_eq, List.flatMap_append, List.flatMap_cons,
        List.flatMap_assoc]
      rfl
    rw [viewsOf, s.views_eq, hinner, hrest, hall]
    simp

theorem declarationsOf_fst (b : List Stmt) : (declarationsOf b).map Prod.fst = localsOf b := by
  rw [← viewsOf_fst, viewsOf_eq, List.map_map]
  rfl

/-! ### The symbols of a callable -/

namespace Table

def HasParam (t : Table) (scope : ScopeId) (v : VarDecl) (id : SymbolId) : Prop :=
  ∃ type, t.symbol id = .ok ⟨v.name.text, scope, v.node.span, .parameter type⟩

/-- The symbol of a local, seen by the statements after it and all that lie inside these. -/
def HasLocal (t : Table) (scope : ScopeId) (d : VarDecl × List Stmt) (id : SymbolId) : Prop :=
  ∃ type seen, t.symbol id = .ok ⟨d.1.name.text, scope, d.1.node.span, .localVar type seen⟩ ∧
    ∀ stmt, stmt ∈ seen ↔ ∃ s ∈ allOf d.2, s.id = stmt

/-- The symbol of a callable, with its parameters and its locals in order. -/
structure HasCallable (t : Table) (f : Callable) (id : SymbolId) (info : FunctionRecord) : Prop where
  symbol : t.symbol id = .ok ⟨f.declaredName, .members, f.node.span, .function info⟩
  params : List.Forall₂ (t.HasParam info.inner) f.params info.params
  locals : List.Forall₂ (t.HasLocal info.inner) (declarationsOf f.body.stmts) info.locals

end Table

theorem Table.kind?_of_symbol {t : Table} {id : SymbolId} {s : Symbol} (h : t.symbol id = .ok s) :
    t.kind? id = some s.kind := by
  rw [kind?, symbol_eq_ok.1 h]
  rfl

theorem mem_symbolsFrom {n count : Nat} {id : SymbolId} :
    id ∈ symbolsFrom n count ↔ n ≤ id.index ∧ id.index < n + count := by
  obtain ⟨i⟩ := id
  simp [symbolsFrom]

theorem forall₂_symbolsFrom {α : Type} {R : α → SymbolId → Prop} {xs : List α} {n : Nat}
    (h : ∀ i x, xs[i]? = some x → R x ⟨n + i⟩) : List.Forall₂ R xs (symbolsFrom n xs.length) := by
  induction xs generalizing n with
  | nil => exact .nil
  | cons x xs ih =>
    rw [List.length_cons, symbolsFrom_succ]
    refine .cons (h 0 x rfl) (ih fun i y hy => ?_)
    rw [Nat.add_assoc, Nat.add_comm 1 i]
    exact h (i + 1) y hy

namespace ContractDecl
variable {c : ContractDecl}

theorem param_numbered {p : Placement Callable} (hp : p ∈ c.callablePlaces) {i : Nat} {v : VarDecl}
    (hi : p.member.params[i]? = some v) :
    (v.decl p.scope (.parameter none), ⟨p.symbol + 1 + i⟩) ∈ numbered 10 c.decls := by
  refine callable_numbered hp (mem_numbered.2 ⟨i + 1, ?_, by rw [Nat.add_assoc, Nat.add_comm 1 i]⟩)
  have hlt : i < p.member.params.length := (List.getElem?_eq_some_iff.1 hi).1
  rw [Callable.decls, List.getElem?_cons_succ, List.getElem?_append_left (by simpa using hlt),
    List.getElem?_map, hi]
  rfl

theorem hasCallable {t : Table} {u : Unit} {ds : List Diagnostic}
    (h : c.declare.run .initial = .ok ⟨u, t, ds⟩) {p : Placement Callable}
    (hp : p ∈ c.callablePlaces) :
    t.HasCallable p.member ⟨p.symbol⟩ (p.member.record p.symbol p.scope) := by
  obtain ⟨hd, -⟩ := declare_inv h
  refine ⟨?_, forall₂_symbolsFrom fun i v hi => ?_, ?_⟩
  · have hself : (_, ⟨p.symbol⟩) ∈ numbered p.symbol (p.member.decls .members p.scope) :=
      mem_numbered.2 ⟨0, rfl, rfl⟩
    obtain ⟨k, hsymbol, -⟩ := hd.symbol_new (callable_numbered hp hself)
    have hrecord := declare_records h p hp
    rw [functionAt, kind?_of_symbol hsymbol, Option.bind_some] at hrecord
    cases k with
    | function info =>
      cases hrecord
      exact hsymbol
    | _ => cases hrecord
  · obtain ⟨k, hsymbol, hk⟩ := hd.symbol_new (param_numbered hp hi)
    cases k with
    | parameter type => exact ⟨type, hsymbol⟩
    | _ => cases hk
  · rw [Callable.record, ← declarationsOf_fst, List.length_map]
    refine forall₂_symbolsFrom fun i d hi => ?_
    have hview : (viewsOf p.member.body.stmts)[i]? = some (d.1, (allOf d.2).map Stmt.id) := by
      rw [viewsOf_eq, List.getElem?_map, hi]
      rfl
    obtain ⟨k, hsymbol, hk⟩ := hd.symbol_new (view_numbered hp hview)
    cases k with
    | localVar type seen =>
      refine ⟨type, seen, hsymbol, fun stmt => ?_⟩
      have hnone : (initial.setContract .contract).visibleIn
          ⟨p.symbol + 1 + p.member.params.length + i⟩ = [] := visibleIn_initial _
      have hvisible := hd.visible ⟨p.symbol + 1 + p.member.params.length + i⟩ stmt
      rw [visibleIn_of_kind (kind?_of_symbol hsymbol), hnone, shown_numbered hp hview] at hvisible
      simpa [SymbolKind.visibility] using hvisible
    | _ => cases hk

/-- Each callable has its symbol, in the order in which they are declared. -/
theorem hasCallables {t : Table} {u : Unit} {ds : List Diagnostic}
    (h : c.declare.run .initial = .ok ⟨u, t, ds⟩) :
    List.Forall₂ (fun f id => ∃ info, t.HasCallable f id info) c.callables c.record.callables := by
  have hmembers : c.callablePlaces.map (·.member) = c.callables := placements_members ..
  rw [← hmembers, callables_record, callableSymbols, List.forall₂_map_left_iff,
    List.forall₂_map_right_iff, List.forall₂_same]
  exact fun p hp => ⟨_, hasCallable h hp⟩

end ContractDecl

/-- A local is seen by the statements inside those that follow its declaration in the same block, and
by no others, whatever has been reported of the declarations. -/
theorem Program.declareSymbols_visibility (c : ContractDecl) (span : Span) :
    ∃ t ds record, (Program.declareSymbols ⟨some c, span⟩).run .initial = .ok ⟨(), t, ds⟩ ∧
      t.contractRecord? = .ok (some record) ∧
      List.Forall₂ (fun f id => ∃ info, t.HasCallable f id info) c.callables record.callables := by
  obtain ⟨_, t, ⟨ds, hrun⟩, -, -⟩ := c.declare_safe valid_initial
  exact ⟨t, ds, c.record, hrun, contractRecord?_eq (ContractDecl.declare_record hrun),
    ContractDecl.hasCallables hrun⟩

/-! ### At most one is meant -/

theorem exists_left_of_forall₂ {α β : Type} {R : α → β → Prop} {xs : List α} {ys : List β}
    (h : List.Forall₂ R xs ys) {y : β} (hy : y ∈ ys) : ∃ x ∈ xs, R x y :=
  exists_of_forall₂ (R := flip R) h.flip hy

theorem pairwise_of_forall₂ {α β : Type} {R : α → β → Prop} {S : α → α → Prop} {T : β → β → Prop}
    (himp : ∀ x x' y y', R x y → R x' y' → S x x' → T y y') {xs : List α} {ys : List β}
    (h : List.Forall₂ R xs ys) (hxs : xs.Pairwise S) : ys.Pairwise T := by
  induction h with
  | nil => exact .nil
  | cons hd hrest ih =>
    obtain ⟨hfirst, hlater⟩ := List.pairwise_cons.1 hxs
    refine .cons (fun y' hy' => ?_) (ih hlater)
    obtain ⟨x', hx', hr⟩ := exists_left_of_forall₂ hrest hy'
    exact himp _ _ _ _ hd hr (hfirst x' hx')

theorem find?_eq_of_perm {α : Type} {P : α → Bool} {xs ys : List α} (h : xs.Perm ys)
    (hone : ∀ a ∈ ys, ∀ b ∈ ys, P a = true → P b = true → a = b) : xs.find? P = ys.find? P := by
  cases hys : ys.find? P with
  | none => exact List.find?_eq_none.2 fun a ha => List.find?_eq_none.1 hys a (h.mem_iff.1 ha)
  | some a =>
    have ha := List.mem_of_find?_eq_some hys
    cases hxs : xs.find? P with
    | none => exact absurd (List.find?_some hys) (List.find?_eq_none.1 hxs a (h.mem_iff.2 ha))
    | some b =>
      have hb := h.mem_iff.1 (List.mem_of_find?_eq_some hxs)
      rw [hone b hb a ha (List.find?_some hxs) (List.find?_some hys)]

namespace Table
variable {t : Table} {scope : ScopeId}

theorem HasParam.nameOf {v : VarDecl} {id : SymbolId} (h : t.HasParam scope v id) :
    t.nameOf id = .ok v.name.text := by
  obtain ⟨type, hsymbol⟩ := h
  rw [Table.nameOf, hsymbol]
  rfl

theorem HasLocal.nameOf {d : VarDecl × List Stmt} {id : SymbolId} (h : t.HasLocal scope d id) :
    t.nameOf id = .ok d.1.name.text := by
  obtain ⟨type, seen, hsymbol, -⟩ := h
  rw [Table.nameOf, hsymbol]
  rfl

theorem HasLocal.isSeenBy {d : VarDecl × List Stmt} {id : SymbolId} (h : t.HasLocal scope d id)
    (stmt : NodeId) : t.isSeenBy id stmt = .ok (((allOf d.2).map Stmt.id).contains stmt) := by
  obtain ⟨type, seen, hsymbol, hseen⟩ := h
  rw [Table.isSeenBy, kindOf, hsymbol]
  refine congrArg Except.ok (Bool.eq_iff_iff.2 ?_)
  simpa [SymbolKind.isSeenBy] using hseen stmt

namespace HasCallable
variable {f : Callable} {id : SymbolId} {info : FunctionRecord}

/-- No statement sees two locals of one name. -/
theorem seen_once (h : t.HasCallable f id info) {structs taken : List String}
    (hquiet : localFaultsOf structs taken f.body.stmts = [])
    (hn : ((allOf f.body.stmts).map Stmt.id).Nodup)
    {l l' : SymbolId} (hl : l ∈ info.locals) (hl' : l' ∈ info.locals)
    (hname : t.nameOf l = t.nameOf l') {stmt : NodeId} (hs : t.isSeenBy l stmt = .ok true)
    (hs' : t.isSeenBy l' stmt = .ok true) : l = l' := by
  let Apart : SymbolId → SymbolId → Prop := fun l l' => t.nameOf l = t.nameOf l' →
    ∀ stmt, t.isSeenBy l stmt = .ok true → t.isSeenBy l' stmt ≠ .ok true
  have hsym : Std.Symm Apart := ⟨fun _ _ h hname stmt hs hs' => h hname.symm stmt hs' hs⟩
  have hviews := views_separate hquiet hn
  rw [viewsOf_eq, List.pairwise_map] at hviews
  have hapart : info.locals.Pairwise Apart := by
    refine pairwise_of_forall₂ (fun d d' l l' hd hd' hsep hname stmt hs hs' => ?_) h.locals hviews
    rw [hd.nameOf, hd'.nameOf] at hname
    rw [hd.isSeenBy] at hs
    rw [hd'.isSeenBy] at hs'
    exact hsep (Except.ok.inj hname) stmt (List.contains_iff_mem.1 (Except.ok.inj hs))
      (List.contains_iff_mem.1 (Except.ok.inj hs'))
  exact Classical.byContradiction fun hne => hapart.forall hl hl' hne hname stmt hs hs'

/-- No local has the name of a parameter. -/
theorem nameOf_ne (h : t.HasCallable f id info) {structs : List String}
    (hquiet : localFaultsOf structs (f.params.map (·.name.text)) f.body.stmts = []) {l q : SymbolId}
    (hl : l ∈ info.locals) (hq : q ∈ info.params) : t.nameOf l ≠ t.nameOf q := by
  obtain ⟨d, hd, hlocal⟩ := exists_left_of_forall₂ h.locals hl
  obtain ⟨v, hv, hparam⟩ := exists_left_of_forall₂ h.params hq
  have hmem : d.1 ∈ localsOf f.body.stmts := by
    rw [← declarationsOf_fst]
    exact List.mem_map_of_mem hd
  rw [hlocal.nameOf, hparam.nameOf]
  intro hname
  exact names_of_localFaults hquiet d.1 hmem (List.mem_map.2 ⟨v, hv, (Except.ok.inj hname).symm⟩)

/-- What sees a local lies in the callable. -/
theorem mem_of_isSeenBy (h : t.HasCallable f id info) {l : SymbolId} (hl : l ∈ info.locals)
    {stmt : NodeId} (hs : t.isSeenBy l stmt = .ok true) : stmt ∈ (allOf f.body.stmts).map Stmt.id := by
  obtain ⟨d, hd, hlocal⟩ := exists_left_of_forall₂ h.locals hl
  rw [hlocal.isSeenBy] at hs
  have hview : (d.1, (allOf d.2).map Stmt.id) ∈ viewsOf f.body.stmts := by
    rw [viewsOf_eq]
    exact List.mem_map_of_mem hd
  exact views_subset hview stmt (List.contains_iff_mem.1 (Except.ok.inj hs))

/-- Of locals of one name the same one is seen first, in whatever order they are gone through. -/
theorem firstVisible?_perm (h : t.HasCallable f id info) {structs taken : List String}
    (hquiet : localFaultsOf structs taken f.body.stmts = [])
    (hn : ((allOf f.body.stmts).map Stmt.id).Nodup)
    {x : String} {found ids : List SymbolId}
    (hfound : ∀ l ∈ found, l ∈ info.locals ∧ t.nameOf l = .ok x) (hperm : ids.Perm found)
    (stmt : Option NodeId) : t.firstVisible? stmt ids = t.firstVisible? stmt found := by
  have hheld : ∀ l ∈ found, t.Holds l := by
    intro l hl
    obtain ⟨d, -, type, seen, hsymbol, -⟩ := exists_left_of_forall₂ h.locals (hfound l hl).1
    exact holds_iff_kind?.2 ⟨_, kind?_of_symbol hsymbol⟩
  have hseen : ∀ s l, t.sees s l = true → t.isSeenBy l s = .ok true := by
    intro s l hs
    obtain ⟨k, hk, hk'⟩ := (Option.any_eq_true ..).1 hs
    rw [Table.isSeenBy, kindOf_eq_ok.2 hk]
    exact congrArg Except.ok hk'
  rw [firstVisible?_eq stmt hheld, firstVisible?_eq stmt fun l hl => hheld l (hperm.mem_iff.1 hl)]
  cases stmt with
  | none => rfl
  | some s =>
    refine congrArg Except.ok (find?_eq_of_perm hperm fun l hl l' hl' hs hs' => ?_)
    obtain ⟨hlocal, hname⟩ := hfound l hl
    obtain ⟨hlocal', hname'⟩ := hfound l' hl'
    exact h.seen_once hquiet hn hlocal hlocal' (hname.trans hname'.symm) (hseen s l hs)
      (hseen s l' hs')

end HasCallable

theorem mem_declarationsIn {name : String} {id : SymbolId} :
    id ∈ t.declarationsIn scope name ↔ (name, id) ∈ t.entries scope := by
  simp [declarationsIn]

/-- Whatever a search finds, one scope declares it all. -/
theorem exists_declarationsIn {name : String} {fuel : Nat} {found : List SymbolId}
    (h : t.nearestWithin name fuel scope = .ok found) {l : SymbolId} (hl : l ∈ found) :
    ∃ scope', found = t.declarationsIn scope' name := by
  induction fuel generalizing scope with
  | zero =>
    cases h
    cases hl
  | succ fuel ih =>
    rw [nearestWithin] at h
    cases hs : t.scope scope with
    | error e =>
      rw [hs] at h
      cases h
    | ok s =>
      rw [hs] at h
      have hown : t.declarationsIn scope name = s.declarationsOf name := by
        rw [declarationsIn, entries_eq (scope_eq_ok.1 hs)]
        rfl
      dsimp only at h
      split at h
      · exact ih h
      · cases h
        exact ⟨scope, hown.symm⟩

end Table

namespace ContractDecl
variable {c : ContractDecl}

/-- What lies in the scope of a callable is a parameter or a local of it. -/
theorem numbered_callable {p : Placement Callable} (hp : p ∈ c.callablePlaces) {d : Decl}
    {id : SymbolId} (hd : (d, id) ∈ numbered 10 c.decls) (hs : d.symbol.scope = p.scope) :
    (d, id) ∈ numbered p.symbol (p.member.decls .members p.scope) := by
  have hge : 2 + c.structs.length ≤ p.scope.index := placement_scope hp
  have houter : ∀ i < 2, d.symbol.scope ≠ ⟨i⟩ := by
    intro i hi he
    rw [← hs, he] at hge
    have hle : 2 + c.structs.length ≤ i := hge
    omega
  rw [decls, numbered_cons, numbered_append, numbered_append, List.length_append, List.length_map,
    ← Nat.add_assoc] at hd
  simp only [List.mem_cons, List.mem_append] at hd
  rcases hd with he | (hd | hd) | hd
  · cases he
    exact absurd rfl (houter 0 (by decide))
  · obtain ⟨i, hi, -⟩ := mem_numbered.1 hd
    obtain ⟨f, -, rfl⟩ := List.mem_map.1 (List.mem_of_getElem? hi)
    exact absurd rfl (houter 1 (by decide))
  · obtain ⟨q, hq, hd⟩ := exists_numbered_placement (fun i s => s.length_decls .members i) hd
    obtain ⟨i, hi, -⟩ := mem_numbered.1 hd
    have hlt := placement_scope_lt hq
    rcases StructDecl.scope_of_mem (List.mem_of_getElem? hi) with he | he
    · exact absurd he (houter 1 (by decide))
    · rw [← he, hs] at hlt
      omega
  · obtain ⟨q, hq, hd⟩ := exists_numbered_placement (fun i f => f.length_decls .members i) hd
    obtain ⟨i, hi, -⟩ := mem_numbered.1 hd
    rcases Callable.scope_of_mem (List.mem_of_getElem? hi) with he | he
    · exact absurd he (houter 1 (by decide))
    · obtain rfl := placement_unique hp hq (hs.symm.trans he)
      exact hd

theorem mem_entries {t : Table}
    (h : (initial.setContract .contract).Declares t c.decls c.scopes c.shown) {scope : ScopeId}
    {x : String} {id : SymbolId} (hid : (x, id) ∈ t.entries scope) :
    id.index < 10 ∧ scope = .global ∨
      ∃ d, (d, id) ∈ numbered 10 c.decls ∧ d.symbol.scope = scope ∧ d.symbol.name = x := by
  rw [h.entries] at hid
  rcases List.mem_append.1 hid with hid | hid
  · obtain ⟨i⟩ := scope
    cases i with
    | zero =>
      have hsmall : ∀ e ∈ initial.entries ⟨0⟩, e.2.index < 10 := by decide
      exact .inl ⟨hsmall _ hid, rfl⟩
    | succ i => cases hid
  · obtain ⟨q, hq, he⟩ := List.mem_map.1 hid
    obtain ⟨hq, hscope⟩ := List.mem_filter.1 hq
    cases he
    exact .inr ⟨q.1, hq, of_decide_eq_true hscope, rfl⟩

section
variable {t : Table} (h : (initial.setContract .contract).Declares t c.decls c.scopes c.shown)
  {p : Placement Callable} (hp : p ∈ c.callablePlaces)
include h hp

theorem mem_entries_callable {x : String} {id : SymbolId} (hid : (x, id) ∈ t.entries p.scope) :
    t.nameOf id = .ok x ∧ (id ∈ (p.member.record p.symbol p.scope).params ∨
      id ∈ (p.member.record p.symbol p.scope).locals) := by
  have hge : 2 + c.structs.length ≤ p.scope.index := placement_scope hp
  have houter : ∀ i < 2, p.scope ≠ ⟨i⟩ := by
    intro i hi he
    rw [he] at hge
    have hle : 2 + c.structs.length ≤ i := hge
    omega
  rcases mem_entries h hid with ⟨-, he⟩ | ⟨d, hd, hscope, rfl⟩
  · exact absurd he (houter 0 (by decide))
  · obtain ⟨k, hsymbol, -⟩ := h.symbol_new hd
    refine ⟨by rw [nameOf, hsymbol]; rfl, ?_⟩
    obtain ⟨i, hi, rfl⟩ := mem_numbered.1 (numbered_callable hp hd hscope)
    have hlt := (List.getElem?_eq_some_iff.1 hi).1
    rw [Callable.length_decls, Callable.size] at hlt
    cases i with
    | zero =>
      cases hi
      exact absurd hscope.symm (houter 1 (by decide))
    | succ i =>
      simp only [Callable.record, mem_symbolsFrom]
      omega

/-- Where a local is among what is found, so is nothing but what the callable declares. -/
theorem found_with_local {x : String} {found : List SymbolId}
    (hfound : t.nearest p.scope x = .ok found) {l : SymbolId} (hl : l ∈ found)
    (hlocal : l ∈ (p.member.record p.symbol p.scope).locals) :
    ∀ id ∈ found, (x, id) ∈ t.entries p.scope := by
  obtain ⟨scope, rfl⟩ := exists_declarationsIn hfound hl
  simp only [mem_declarationsIn] at hl ⊢
  obtain ⟨hle, hlt⟩ := mem_symbolsFrom.1 hlocal
  obtain ⟨i, hi⟩ := Nat.exists_eq_add_of_le hle
  have hview : i < (viewsOf p.member.body.stmts).length := by
    rw [← List.length_map (f := Prod.fst), viewsOf_fst]
    omega
  have hown := view_numbered hp (List.getElem?_eq_getElem hview)
  obtain rfl : l = ⟨_⟩ := congrArg SymbolId.mk hi
  rcases mem_entries h hl with ⟨hbuiltin, -⟩ | ⟨d, hd, hscope, -⟩
  · obtain ⟨j, -, hj⟩ := mem_numbered.1 hown
    have hindex := congrArg SymbolId.index hj
    dsimp only at hindex hbuiltin
    omega
  · cases numbered_unique hown hd
    subst hscope
    exact fun id hid => hid

end

/-- The statements of different callables have different numbers. -/
theorem stmts_disjoint (hn : (c.stmts.map Stmt.id).Nodup) {i j : Nat} {f g : Callable}
    (hi : c.callables[i]? = some f) (hj : c.callables[j]? = some g) (hne : i ≠ j) :
    ((allOf f.body.stmts).map Stmt.id).Disjoint ((allOf g.body.stmts).map Stmt.id) := by
  rw [stmts, List.map_flatMap, List.nodup_flatMap] at hn
  obtain ⟨hlt, rfl⟩ := List.getElem?_eq_some_iff.1 hi
  obtain ⟨hlt', rfl⟩ := List.getElem?_eq_some_iff.1 hj
  rcases Nat.lt_or_gt_of_ne hne with h | h
  · exact List.pairwise_iff_getElem.1 hn.2 i j hlt hlt' h
  · exact fun _ hf hg => List.pairwise_iff_getElem.1 hn.2 j i hlt' hlt h hg hf

theorem exists_found {t : Table} {u : Unit} {ds : List Diagnostic}
    (h : c.declare.run .initial = .ok ⟨u, t, ds⟩) {p : Placement Callable}
    (hp : p ∈ c.callablePlaces) (x : String) : ∃ found, t.nearest p.scope x = .ok found := by
  obtain ⟨hd, -⟩ := declare_inv h
  obtain ⟨t', hrun, hv⟩ := c.exists_declared
  rw [h] at hrun
  cases hrun
  have hs : t.HoldsScope p.scope := by
    rw [HoldsScope, hd.scopes_length, scopes, List.length_cons, List.length_append, List.length_map,
      List.length_map]
    have hlt : p.scope.index < 2 + c.structs.length + c.callables.length := placement_scope_lt hp
    change p.scope.index < 1 + _
    omega
  obtain ⟨found, hfound, -⟩ := exists_nearest hv hs x
  exact ⟨found, hfound⟩

theorem exists_place {i : Nat} {f : Callable} {id : SymbolId} (hf : c.callables[i]? = some f)
    (hid : c.record.callables[i]? = some id) :
    ∃ p ∈ c.callablePlaces, p.member = f ∧ id = ⟨p.symbol⟩ := by
  have hmembers : c.callablePlaces.map (·.member) = c.callables := placements_members ..
  rw [← hmembers, List.getElem?_map] at hf
  obtain ⟨p, hp, rfl⟩ := Option.map_eq_some_iff.1 hf
  rw [callables_record, callableSymbols, List.getElem?_map, hp] at hid
  exact ⟨p, List.mem_of_getElem? hp, rfl, (Option.some.inj hid).symm⟩

/-- The locals of the callable at position `i` can be told apart wherever they are seen. What a name
finds is then all locals or no local, and the one that is seen does not depend on the order. -/
structure Unambiguous (c : ContractDecl) (t : Table) (i : Nat) (info : FunctionRecord) : Prop where
  once : ∀ stmt, ∀ l ∈ info.locals, ∀ l' ∈ info.locals, t.nameOf l = t.nameOf l' →
    t.isSeenBy l stmt = .ok true → t.isSeenBy l' stmt = .ok true → l = l'
  unlikeParams : ∀ l ∈ info.locals, ∀ q ∈ info.params, t.nameOf l ≠ t.nameOf q
  inside : ∀ (j : Nat) (g : Callable), i ≠ j → c.callables[j]? = some g → ∀ s ∈ allOf g.body.stmts,
    ∀ l ∈ info.locals, t.isSeenBy l s.id = .ok false
  unordered : ∀ x, ∃ found, t.nearest info.inner x = .ok found ∧ ∀ l ∈ info.locals, l ∈ found →
    (∀ id ∈ found, id ∈ info.locals) ∧
      ∀ stmt ids, ids.Perm found → t.firstVisible? stmt ids = t.firstVisible? stmt found

theorem unambiguous {t : Table} {u : Unit} (hn : (c.stmts.map Stmt.id).Nodup)
    (h : c.declare.run .initial = .ok ⟨u, t, []⟩) {p : Placement Callable}
    (hp : p ∈ c.callablePlaces) {i : Nat} (hi : c.callables[i]? = some p.member) :
    c.Unambiguous t i (p.member.record p.symbol p.scope) := by
  obtain ⟨hd, hfaults⟩ := declare_inv h
  have hhas := hasCallable h hp
  have hmember := List.mem_of_getElem? hi
  obtain ⟨-, hquiet⟩ := List.append_eq_nil_iff.1 (varFaults_of_declFaults hfaults.symm _ hmember)
  have hstmts : ((allOf p.member.body.stmts).map Stmt.id).Nodup := by
    rw [stmts, List.map_flatMap, List.nodup_flatMap] at hn
    exact hn.1 _ hmember
  refine ⟨?_, ?_, ?_, fun x => ?_⟩
  · intro stmt l hl l' hl' hname hs hs'
    exact hhas.seen_once hquiet hstmts hl hl' hname hs hs'
  · intro l hl q hq
    exact hhas.nameOf_ne hquiet hl hq
  · intro j g hne hg s hs l hl
    obtain ⟨d, -, hlocal⟩ := exists_left_of_forall₂ hhas.locals hl
    cases hseen : ((allOf d.2).map Stmt.id).contains s.id with
    | false => rw [hlocal.isSeenBy, hseen]
    | true =>
      have hmem := hhas.mem_of_isSeenBy hl (by rw [hlocal.isSeenBy, hseen])
      exact (stmts_disjoint hn hi hg hne hmem (List.mem_map_of_mem hs)).elim
  · obtain ⟨found, hfound⟩ := exists_found h hp x
    refine ⟨found, hfound, fun l hl hmem => ?_⟩
    have hentries := found_with_local hd hp hfound hmem hl
    have hown : ∀ r ∈ found, r ∈ (p.member.record p.symbol p.scope).locals ∧ t.nameOf r = .ok x := by
      intro r hr
      obtain ⟨hname, hparam | hlocal⟩ := mem_entries_callable hd hp (hentries r hr)
      · -- The name is that of the local `l`, which no parameter has.
        have hsame := (mem_entries_callable hd hp (hentries l hmem)).1
        exact absurd (hsame.trans hname.symm) (hhas.nameOf_ne hquiet hl hparam)
      · exact ⟨hlocal, hname⟩
    exact ⟨fun r hr => (hown r hr).1, fun stmt ids hperm =>
      hhas.firstVisible?_perm hquiet hstmts hown hperm stmt⟩

end ContractDecl

/-- Where nothing is reported of the declarations, a statement sees at most one local of a name, no
local has the name of a parameter, and none is seen from another callable. So whichever of the
candidates comes first, the same one is chosen. -/
theorem Program.declareSymbols_unambiguous {p : Program} {t : Table}
    (hn : ∀ c ∈ p.contract, (c.stmts.map Stmt.id).Nodup)
    (h : p.declareSymbols.run .initial = .ok ⟨(), t, []⟩) :
    ∃ c record, p.contract = some c ∧ t.contractRecord? = .ok (some record) ∧
      record.callables.length = c.callables.length ∧
      ∀ (i : Nat) f id, c.callables[i]? = some f → record.callables[i]? = some id →
        ∃ info, t.HasCallable f id info ∧ c.Unambiguous t i info := by
  unfold Program.declareSymbols at h
  cases hp : p.contract with
  | none =>
    rw [hp] at h
    cases (Pass.run_report_iff.1 h).2
  | some c =>
    rw [hp] at h
    have hlength := (ContractDecl.hasCallables h).length_eq
    refine ⟨c, c.record, rfl, contractRecord?_eq (ContractDecl.declare_record h), hlength.symm, ?_⟩
    intro i f id hf hid
    obtain ⟨q, hq, rfl, rfl⟩ := ContractDecl.exists_place hf hid
    exact ⟨_, ContractDecl.hasCallable h hq, ContractDecl.unambiguous (hn c hp) h hq hf⟩

section
open Build

/-- Two blocks of a function and another function declare a local of one name. -/
def namesakes : Program := program (some (Id.run (StateT.run' (do
  let onTrue ← declare [← varDecl (← namedType "int") "x"] none
  let onFalse ← declare [← varDecl (← namedType "bool") "x"] none
  let inTrue := [onTrue, ← assign (← name "x") (← load (← name "a"))]
  let inFalse := [onFalse, ← assign (← name "x") (← load (← name "true"))]
  let choice ← branch (← literal (.bool true)) inTrue (some inFalse)
  let f ← function "f" [] [← varDecl (← namedType "int") "a"] [choice]
  let outer ← declare [← varDecl (← namedType "int") "x"] none
  let g ← function "g" [] [] [outer, ← assign (← name "x") (← load (← name "x"))]
  return { ← contract "C" with functions := [f, g] }) 0)))

end

theorem namesakes_unambiguous : (∀ c ∈ namesakes.contract, (c.stmts.map Stmt.id).Nodup) ∧
    ∃ t, namesakes.declareSymbols.run .initial = .ok ⟨(), t, []⟩ ∧
    ∃ c record, namesakes.contract = some c ∧ t.contractRecord? = .ok (some record) ∧
      record.callables.length = c.callables.length ∧
      ∀ (i : Nat) f id, c.callables[i]? = some f → record.callables[i]? = some id →
        ∃ info, t.HasCallable f id info ∧ c.Unambiguous t i info := by
  have hd : namesakes.Distinct := by decide +kernel
  have hq : (namesakes.quietTable? [.symbolConstruction] .initial).isSome = true := by
    decide +kernel
  obtain ⟨t, ht⟩ := Option.isSome_iff_exists.1 hq
  have hrun := Program.declareSymbols_of_quiet ht
  have hn : ∀ c ∈ namesakes.contract, (c.stmts.map Stmt.id).Nodup := fun c hc =>
    ContractDecl.nodup_stmtIds (hd.nodup hc)
  exact ⟨hn, t, hrun, Program.declareSymbols_unambiguous hn hrun⟩

end ContractLang
