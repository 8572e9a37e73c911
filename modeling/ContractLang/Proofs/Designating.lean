import ContractLang.Binding
import ContractLang.Proofs.Annotated
import ContractLang.Proofs.Nodes
/-!
What binding names does, without its steps. Where a designator stands decides what it stands for,
what its type is and what is reported of it; the notes on other nodes play no part. The main
statement is `ContractDecl.bindNames_binds`.
-/
namespace ContractLang

open Pass

/-! ### Names -/

namespace Table

/-- The nearest declarations of a name. -/
def candidates (t : Table) (scope : ScopeId) (name : String) : List SymbolId :=
  (t.nearest scope name).toOption.getD []

def sees (t : Table) (stmt : NodeId) (id : SymbolId) : Bool := (t.kind? id).any (·.isSeenBy stmt)

/-- The first of some symbols that a statement sees; outside all statements none is seen. -/
def firstSeen (t : Table) (stmt : Option NodeId) (ids : List SymbolId) : Option SymbolId :=
  stmt.bind fun s => ids.find? (t.sees s)

/-- The value that a name stands for, or why it stands for none. -/
def referent (t : Table) (site : Site) (name : String) : Except Cause SymbolId :=
  match t.candidates site.scope name with
  | [] => .error (.undefinedName name)
  | first :: rest =>
    if !(t.kind? first).any (·.isValue) then .error (.undefinedName name)
    else if !(t.kind? first).any (·.isLocal) then .ok first
    else
      match t.firstSeen site.stmt (first :: rest) with
      | none => .error (.hiddenLocal name)
      | some id => .ok id

/-- What a name stands for where a function is called. -/
def callee (t : Table) (site : Site) (name : String) : Option SymbolId :=
  if name ∈ t.names then (t.candidates site.scope name).head? else none

variable {t : Table}

theorem nearest_eq_candidates (ht : t.Valid) {scope : ScopeId} (hs : t.HoldsScope scope)
    (name : String) : t.nearest scope name = .ok (t.candidates scope name) := by
  obtain ⟨found, hf, -⟩ := exists_nearest ht hs name
  rw [candidates, hf]
  rfl

theorem candidates_holds (ht : t.Valid) {scope : ScopeId} (hs : t.HoldsScope scope)
    {name : String} {id : SymbolId} (h : id ∈ t.candidates scope name) : t.Holds id := by
  obtain ⟨found, hf, hlisted⟩ := exists_nearest ht hs name
  rw [nearest_eq_candidates ht hs] at hf
  cases hf
  exact (hlisted id h).2.1.1

theorem lookup_eq_callee (ht : t.Valid) {site : Site} (hs : t.HoldsScope site.scope)
    (name : String) : t.lookup site.scope name = .ok (t.callee site name) := by
  unfold lookup callee
  split
  · rw [nearest_eq_candidates ht hs]
    rfl
  · rfl

theorem callee_holds (ht : t.Valid) {site : Site} (hs : t.HoldsScope site.scope)
    {name : String} {id : SymbolId} (h : t.callee site name = some id) : t.Holds id := by
  unfold callee at h
  split at h
  · exact candidates_holds ht hs (List.mem_of_mem_head? h)
  · cases h

theorem firstVisible_eq (stmt : NodeId) {ids : List SymbolId} (h : ∀ id ∈ ids, t.Holds id) :
    t.firstVisible stmt ids = .ok (ids.find? (t.sees stmt)) := by
  induction ids with
  | nil => rfl
  | cons id rest ih =>
    obtain ⟨k, hk⟩ := holds_iff_kind?.1 (h id (List.mem_cons_self ..))
    have hrest := ih fun j hj => h j (List.mem_cons_of_mem _ hj)
    have hseen : t.sees stmt id = k.isSeenBy stmt := by rw [sees, hk]; rfl
    simp only [firstVisible, isSeenBy, kindOf_eq_ok.2 hk, Except.map, bind, Except.bind, hrest,
      List.find?_cons, hseen]
    cases k.isSeenBy stmt <;> rfl

theorem firstVisible?_eq (stmt : Option NodeId) {ids : List SymbolId}
    (h : ∀ id ∈ ids, t.Holds id) : t.firstVisible? stmt ids = .ok (t.firstSeen stmt ids) := by
  cases stmt with
  | none => rfl
  | some stmt => exact firstVisible_eq stmt h

theorem referent_holds (ht : t.Valid) {site : Site} (hs : t.HoldsScope site.scope)
    {name : String} {id : SymbolId} (h : t.referent site name = .ok id) : t.Holds id := by
  unfold referent at h
  split at h
  · cases h
  · rename_i first rest hc
    have hheld : ∀ j ∈ first :: rest, t.Holds j := fun j hj => candidates_holds ht hs (hc ▸ hj)
    split at h
    · cases h
    split at h
    · cases h
      exact hheld _ (List.mem_cons_self ..)
    · split at h
      · cases h
      · rename_i hseen
        cases h
        obtain ⟨s, -, hfind⟩ := Option.bind_eq_some_iff.1 hseen
        exact hheld _ (List.mem_of_find?_eq_some hfind)

/-- What is reported where a value is named. -/
def nameFault (t : Table) (site : Site) (name : String) (span : Span) : List Diagnostic :=
  match t.referent site name with
  | .ok _ => []
  | .error cause => [⟨cause, span⟩]

end Table

section
variable {t : Table} (ht : t.Valid) {site : Site} (hs : t.HoldsScope site.scope)
  (b y : Assoc NodeId SymbolId)
include ht hs

theorem run_valueNamed (name : String) (span : Span) :
    (valueNamed site name span).run (t.annotated b y) =
      .ok ⟨(t.referent site name).toOption, t.annotated b y, t.nameFault site name span⟩ := by
  have hnearest : (t.annotated b y).nearest site.scope name = .ok (t.candidates site.scope name) := by
    rw [Table.nearest_annotated, Table.nearest_eq_candidates ht hs]
  unfold valueNamed Table.nameFault Table.referent
  refine run_bind_ok (run_query_annotated b y hnearest) ?_
  cases hc : t.candidates site.scope name with
  | nil => rfl
  | cons first rest =>
    have hheld : ∀ j ∈ first :: rest, t.Holds j := fun j hj =>
      Table.candidates_holds ht hs (hc ▸ hj)
    obtain ⟨kind, hk⟩ := Table.holds_iff_kind?.1 (hheld first (List.mem_cons_self ..))
    have hkind : (t.annotated b y).kindOf first = .ok kind := Table.kindOf_eq_ok.2 hk
    refine run_bind_ok (run_query_annotated b y hkind) ?_
    simp only [hk, Option.any_some]
    cases hvalue : kind.isValue with
    | false => rfl
    | true =>
      cases hlocal : kind.isLocal with
      | false => rfl
      | true =>
        have hvisible : (t.annotated b y).firstVisible? site.stmt (first :: rest) =
            .ok (t.firstSeen site.stmt (first :: rest)) := by
          rw [Table.firstVisible?_annotated, Table.firstVisible?_eq site.stmt hheld]
        simp only [Bool.not_true, Bool.false_eq_true, if_false]
        refine run_bind_ok (run_query_annotated b y hvisible) ?_
        cases t.firstSeen site.stmt (first :: rest) <;> rfl

end

/-! ### Designators -/

namespace Designator
variable (t : Table) (site : Site)

/-- The type of a designator, if all of it stands for something. -/
def typeFrom : Designator → Option SymbolId
  | .name _ x => (t.referent site x).toOption.bind t.valueType
  | .index _ base _ => base.typeFrom.bind t.elementType
  | .member _ base m =>
    base.typeFrom.bind fun type =>
      if (t.elementType type).isSome ∧ m.text = lengthMember then some .int else none

/-- What a designator stands for. -/
def referent : Designator → Option SymbolId
  | .name _ x => (t.referent site x).toOption
  | .index node base position =>
    ((Designator.index node base position).typeFrom t site).bind fun _ => base.referent
  | .member node base m =>
    ((Designator.member node base m).typeFrom t site).map fun _ => .length

/-- What is reported of a designator itself, not of what lies inside it. -/
def fault : Designator → List Diagnostic
  | .name node x => t.nameFault site x node.span
  | .index node base _ =>
    match base.typeFrom t site with
    | none => []
    | some type =>
      if (t.elementType type).isSome then []
      else [⟨.notIndexable base.text (t.shownName type), node.span⟩]
  | .member _ base m =>
    match base.typeFrom t site with
    | none => []
    | some type =>
      if (t.elementType type).isSome ∧ m.text = lengthMember then []
      else [⟨.noMember (t.shownName type) m.text, m.span⟩]

end Designator

namespace Use
variable (t : Table) (site : Site)

def referent : Use → Option SymbolId
  | .callee _ x => t.callee site x
  | .value d => d.referent t site

/-- A callee has no type of its own. -/
def typeFrom : Use → Option SymbolId
  | .callee .. => none
  | .value d => d.typeFrom t site

def fault : Use → List Diagnostic
  | .callee node x => if t.callee site x = none then [⟨.undefinedName x, node.span⟩] else []
  | .value d => d.fault t site

end Use

namespace Designator
variable {t : Table} {site : Site}

theorem typeFrom_holds (ht : t.Valid) {d : Designator} {type : SymbolId}
    (h : d.typeFrom t site = some type) : t.Holds type := by
  cases d with
  | name node x =>
    obtain ⟨id, -, hid⟩ := Option.bind_eq_some_iff.1 h
    exact Table.valueType_holds ht hid
  | index node base position =>
    obtain ⟨baseType, -, he⟩ := Option.bind_eq_some_iff.1 h
    exact (Table.elementType_denotable ht he).1
  | member node base m =>
    obtain ⟨baseType, -, he⟩ := Option.bind_eq_some_iff.1 h
    split at he
    · cases he
      exact ht.holds (by decide)
    · cases he

theorem exists_referent {d : Designator} {type : SymbolId} (h : d.typeFrom t site = some type) :
    ∃ id, d.referent t site = some id := by
  induction d using Designator.typeFrom.induct generalizing type with
  | case1 node x =>
    obtain ⟨id, hid, -⟩ := Option.bind_eq_some_iff.1 h
    exact ⟨id, hid⟩
  | case2 node base position ih =>
    obtain ⟨baseType, hbase, -⟩ := Option.bind_eq_some_iff.1 h
    obtain ⟨id, hid⟩ := ih hbase
    exact ⟨id, by rw [referent, h]; exact hid⟩
  | case3 node base m ih => exact ⟨.length, by rw [referent, h]; rfl⟩

end Designator

/-! ### Steps that note bindings -/

namespace Table
variable (t : Table)

/-- What binding notes of some uses: what they stand for. -/
def boundPairs (us : List (Site × Use)) : List (NodeId × SymbolId) :=
  us.filterMap fun p => (p.2.referent t p.1).map (p.2.id, ·)

/-- What binding notes of some uses: their types. -/
def typedPairs (us : List (Site × Use)) : List (NodeId × SymbolId) :=
  us.filterMap fun p => (p.2.typeFrom t p.1).map (p.2.id, ·)

theorem boundPairs_append (us vs : List (Site × Use)) :
    t.boundPairs (us ++ vs) = t.boundPairs us ++ t.boundPairs vs := List.filterMap_append

theorem typedPairs_append (us vs : List (Site × Use)) :
    t.typedPairs (us ++ vs) = t.typedPairs us ++ t.typedPairs vs := List.filterMap_append

theorem keys_boundPairs (us : List (Site × Use)) :
    ((t.boundPairs us).map Prod.fst).Sublist (us.map (·.2.id)) :=
  keys_sublist (fun p : Site × Use => p.2.id) (fun p => p.2.referent t p.1) us

theorem keys_typedPairs (us : List (Site × Use)) :
    ((t.typedPairs us).map Prod.fst).Sublist (us.map (·.2.id)) :=
  keys_sublist (fun p : Site × Use => p.2.id) (fun p => p.2.typeFrom t p.1) us

theorem insertAll_boundPairs_single (b : Assoc NodeId SymbolId) (p : Site × Use) :
    b.insertAll (t.boundPairs [p]) = (p.2.referent t p.1).elim b (b.insert p.2.id) := by
  cases h : p.2.referent t p.1 <;> simp [boundPairs, h, Assoc.insertAll]

theorem insertAll_typedPairs_single (y : Assoc NodeId SymbolId) (p : Site × Use) :
    y.insertAll (t.typedPairs [p]) = (p.2.typeFrom t p.1).elim y (y.insert p.2.id) := by
  cases h : p.2.typeFrom t p.1 <;> simp [typedPairs, h, Assoc.insertAll]

end Table

/-- The step gives `a` and notes what is to be noted of `us`, whatever is noted already. -/
def Binds (t : Table) {α : Type} (x : Pass α) (a : α) (us : List (Site × Use)) : Prop :=
  ∀ b y : Assoc NodeId SymbolId, x.run (t.annotated b y) =
    .ok ⟨a, t.annotated (b.insertAll (t.boundPairs us)) (y.insertAll (t.typedPairs us)),
      us.flatMap fun p => p.2.fault t p.1⟩

namespace Binds
variable {t : Table} {α β : Type}

theorem pure (a : α) : Binds t (Pure.pure a : Pass α) a [] := fun _ _ => rfl

theorem bind {x : Pass α} {f : α → Pass β} {a : α} {c : β} {us vs : List (Site × Use)}
    (hx : Binds t x a us) (hf : Binds t (f a) c vs) : Binds t (x >>= f) c (us ++ vs) := by
  intro b y
  rw [Table.boundPairs_append, Table.typedPairs_append, Assoc.insertAll_append,
    Assoc.insertAll_append, List.flatMap_append]
  exact run_bind_ok (hx b y) (hf _ _)

theorem congr {x : Pass α} {a : α} {us vs : List (Site × Use)} (h : Binds t x a us)
    (hu : us = vs) : Binds t x a vs := hu ▸ h

theorem single {x : Pass α} {a : α} {p : Site × Use}
    (h : ∀ b y : Assoc NodeId SymbolId, x.run (t.annotated b y) =
      .ok ⟨a, t.annotated ((p.2.referent t p.1).elim b (b.insert p.2.id))
        ((p.2.typeFrom t p.1).elim y (y.insert p.2.id)), p.2.fault t p.1⟩) : Binds t x a [p] := by
  intro b y
  rw [h b y, Table.insertAll_boundPairs_single, Table.insertAll_typedPairs_single,
    List.flatMap_singleton]

/-- After other steps one more use is noted, which may depend on their notes. -/
theorem last {x : Pass α} {f : α → Pass β} {a : α} {c : β} {us : List (Site × Use)} {p : Site × Use}
    (hx : Binds t x a us)
    (hf : ∀ b y : Assoc NodeId SymbolId, (f a).run (t.annotated (b.insertAll (t.boundPairs us)) y) =
      .ok ⟨c, t.annotated ((p.2.referent t p.1).elim (b.insertAll (t.boundPairs us))
          ((b.insertAll (t.boundPairs us)).insert p.2.id))
        ((p.2.typeFrom t p.1).elim y (y.insert p.2.id)), p.2.fault t p.1⟩) :
    Binds t (x >>= f) c (us ++ [p]) := by
  intro b y
  rw [Table.boundPairs_append, Table.typedPairs_append, Assoc.insertAll_append,
    Assoc.insertAll_append, List.flatMap_append, Table.insertAll_boundPairs_single,
    Table.insertAll_typedPairs_single, List.flatMap_singleton]
  exact run_bind_ok (hx b y) (hf _ _)

theorem forM {f : α → Pass Unit} {xs : List α} {us : α → List (Site × Use)}
    (h : ∀ x ∈ xs, Binds t (f x) () (us x)) : Binds t (xs.forM f) () (xs.flatMap us) := by
  induction xs with
  | nil => exact .pure ()
  | cons x xs ih =>
    have hxs := ih fun z hz => h z (List.mem_cons_of_mem _ hz)
    exact (h x (List.mem_cons_self ..)).bind hxs

end Binds

section
variable {t : Table} (ht : t.Valid) {site : Site} (hs : t.HoldsScope site.scope)
include ht hs

theorem bindCallee_binds (node : Node) (x : String) :
    Binds t (bindCallee site node x) () [(site, .callee node x)] := by
  refine .single fun b y => ?_
  have hlookup : (t.annotated b y).lookup site.scope x = .ok (t.callee site x) := by
    rw [Table.lookup_annotated, Table.lookup_eq_callee ht hs]
  simp only [Use.referent, Use.typeFrom, Use.fault]
  refine run_bind_ok (run_query_annotated b y hlookup) ?_
  cases t.callee site x <;> rfl

theorem Designator.bindNames_name (node : Node) (x : String) :
    Binds t ((Designator.name node x).bindNames site) ((Designator.name node x).typeFrom t site)
      [(site, .value (.name node x))] := by
  refine .single fun b y => ?_
  have hrun := run_valueNamed ht hs b y x node.span
  simp only [Use.referent, Use.typeFrom, Use.fault, Designator.referent, Designator.typeFrom,
    Designator.fault]
  cases hr : t.referent site x with
  | error cause =>
    rw [hr] at hrun
    rw [← List.append_nil (t.nameFault site x node.span)]
    exact run_bind_ok hrun rfl
  | ok id =>
    have hsilent : t.nameFault site x node.span = [] := by rw [Table.nameFault, hr]
    rw [hr, hsilent] at hrun
    simp only [hsilent, Except.toOption, Option.bind_some, Option.elim_some]
    have htype : (t.annotated (b.insert node.id id) y).valueType? id = .ok (t.valueType id) :=
      Table.valueType?_eq (t := t) (Table.referent_holds ht hs hr)
    refine run_bind_ok hrun ?_
    refine run_bind_ok (run_adjust ..) ?_
    refine run_bind_ok (run_query_annotated _ y htype) ?_
    cases t.valueType id <;> rfl

end

theorem run_bindElement {t : Table} (ht : t.Valid) {site : Site} (node : Node) (base : Designator)
    (position : Expr) (b y : Assoc NodeId SymbolId)
    (hb : ∀ id, base.referent t site = some id → b.get? base.id = some id) :
    (bindElement node base (base.typeFrom t site)).run (t.annotated b y) =
      .ok ⟨(Designator.index node base position).typeFrom t site,
        t.annotated (((Designator.index node base position).referent t site).elim b
            (b.insert node.id))
          (((Designator.index node base position).typeFrom t site).elim y (y.insert node.id)),
        (Designator.index node base position).fault t site⟩ := by
  simp only [Designator.referent, Designator.typeFrom, Designator.fault]
  cases hbase : base.typeFrom t site with
  | none => rfl
  | some type =>
    have hheld := Designator.typeFrom_holds ht hbase
    have helement : (t.annotated b y).element? type = .ok (t.elementType type) :=
      Table.element?_eq (t := t) hheld
    refine run_bind_ok (run_query_annotated b y helement) ?_
    rw [Option.bind_some]
    cases he : t.elementType type with
    | none =>
      have hname : (t.annotated b y).nameOf type = .ok (t.shownName type) :=
        Table.nameOf_eq (t := t) hheld
      exact run_bind_ok (run_query_annotated b y hname) rfl
    | some element =>
      obtain ⟨id, hid⟩ := Designator.exists_referent hbase
      have hcopy : (t.annotated b y).copyBinding node.id base.id =
          t.annotated (b.insert node.id id) y := by
        simp only [Table.copyBinding, Table.annotated, hb id hid]
        rfl
      rw [Option.bind_some, hid]
      refine run_bind_ok (run_adjust ..) ?_
      rw [hcopy]
      rfl

theorem run_bindMember {t : Table} (ht : t.Valid) {site : Site} (node : Node) (base : Designator)
    (m : Ident) (b y : Assoc NodeId SymbolId) :
    (bindMember node m (base.typeFrom t site)).run (t.annotated b y) =
      .ok ⟨(Designator.member node base m).typeFrom t site,
        t.annotated (((Designator.member node base m).referent t site).elim b (b.insert node.id))
          (((Designator.member node base m).typeFrom t site).elim y (y.insert node.id)),
        (Designator.member node base m).fault t site⟩ := by
  simp only [Designator.referent, Designator.typeFrom, Designator.fault]
  cases hbase : base.typeFrom t site with
  | none => rfl
  | some type =>
    have hheld := Designator.typeFrom_holds ht hbase
    have helement : (t.annotated b y).element? type = .ok (t.elementType type) :=
      Table.element?_eq (t := t) hheld
    simp only [Option.bind_some]
    by_cases h : (t.elementType type).isSome ∧ m.text = lengthMember
    · rw [if_pos h, if_pos h]
      refine run_bind_ok (run_query_annotated b y helement) ?_
      rw [if_pos h]
      rfl
    · rw [if_neg h, if_neg h]
      have hname : (t.annotated b y).nameOf type = .ok (t.shownName type) :=
        Table.nameOf_eq (t := t) hheld
      refine run_bind_ok (run_query_annotated b y helement) ?_
      rw [if_neg h]
      exact run_bind_ok (run_query_annotated b y hname) rfl

theorem get?_base {t : Table} {site : Site} {base : Designator} {position : Expr}
    (hn : ((base.uses ++ position.uses).map Use.id).Nodup) {id : SymbolId}
    (h : base.referent t site = some id) (b : Assoc NodeId SymbolId) :
    (b.insertAll (t.boundPairs
      (base.uses.map (site, ·) ++ position.uses.map (site, ·)))).get? base.id = some id := by
  rw [← List.map_append]
  have hmem : (site, Use.value base) ∈ (base.uses ++ position.uses).map ((site, ·) : Use → Site × Use) :=
    List.mem_map.2 ⟨_, List.mem_append_left _ base.mem_uses, rfl⟩
  have hnodup : (((base.uses ++ position.uses).map ((site, ·) : Use → Site × Use)).map
      (·.2.id)).Nodup := by
    rw [List.map_map]
    exact hn
  refine (Assoc.get?_insertAll_filterMap (fun q => q.2.referent t q.1) hnodup hmem b).trans ?_
  rw [Use.referent, h]
  rfl

mutual
theorem Expr.bindNames_binds {t : Table} (ht : t.Valid) {site : Site}
    (hs : t.HoldsScope site.scope) (e : Expr) (hn : (e.uses.map Use.id).Nodup) :
    Binds t (e.bindNames site) () (e.uses.map (site, ·)) := by
  cases e with
  | literal node value => exact .pure ()
  | load node source =>
    exact ((source.bindNames_binds ht hs hn).bind (.pure ())).congr (List.append_nil _)
  | call node callee args =>
    cases callee with
    | name n x =>
      have hargs := bindNamesOf_binds ht hs args (List.nodup_cons.1 hn).2
      exact (bindCallee_binds ht hs n x).bind hargs
    | index n base position =>
      simp only [Expr.uses, List.map_append] at hn
      have hcallee := Designator.bindNames_binds ht hs (.index n base position) (List.nodup_append.1 hn).1
      have hargs := bindNamesOf_binds ht hs args (List.nodup_append.1 hn).2.1
      exact (hcallee.bind hargs).congr (List.map_append ..).symm
    | member n base m =>
      simp only [Expr.uses, List.map_append] at hn
      have hcallee := Designator.bindNames_binds ht hs (.member n base m) (List.nodup_append.1 hn).1
      have hargs := bindNamesOf_binds ht hs args (List.nodup_append.1 hn).2.1
      exact (hcallee.bind hargs).congr (List.map_append ..).symm
  | binary node op left right =>
    simp only [Expr.uses, List.map_append] at hn
    have hleft := left.bindNames_binds ht hs (List.nodup_append.1 hn).1
    have hright := right.bindNames_binds ht hs (List.nodup_append.1 hn).2.1
    exact (hleft.bind hright).congr (List.map_append ..).symm
  | unary node op operand => exact operand.bindNames_binds ht hs hn

theorem Designator.bindNames_binds {t : Table} (ht : t.Valid) {site : Site}
    (hs : t.HoldsScope site.scope) (d : Designator) (hn : (d.uses.map Use.id).Nodup) :
    Binds t (d.bindNames site) (d.typeFrom t site) (d.uses.map (site, ·)) := by
  cases d with
  | name node x => exact Designator.bindNames_name ht hs node x
  | index node base position =>
    rw [Designator.uses, List.map_append] at hn
    have hinner := (List.nodup_append.1 hn).1
    obtain ⟨hl, hr, -⟩ := List.nodup_append.1 (List.map_append .. ▸ hinner)
    have hbase := base.bindNames_binds ht hs hl
    have hposition := position.bindNames_binds ht hs hr
    have hboth : Binds t (base.bindNames site >>= fun type =>
        position.bindNames site >>= fun _ => pure type) (base.typeFrom t site)
        (base.uses.map (site, ·) ++ (position.uses.map (site, ·) ++ [])) :=
      hbase.bind (hposition.bind (.pure _))
    rw [List.append_nil] at hboth
    have hall := hboth.last (f := bindElement node base)
      (p := (site, .value (.index node base position))) fun b y =>
        run_bindElement ht node base position _ y fun id hid => get?_base hinner hid b
    simp only [bind_assoc, pure_bind] at hall
    refine hall.congr ?_
    simp [Designator.uses]
  | member node base m =>
    rw [Designator.uses, List.map_append] at hn
    have hbase := base.bindNames_binds ht hs (List.nodup_append.1 hn).1
    have hall := hbase.last (f := bindMember node m) (p := (site, .value (.member node base m)))
      fun b y => run_bindMember ht node base m _ y
    refine hall.congr ?_
    simp [Designator.uses]

theorem bindNamesOf_binds {t : Table} (ht : t.Valid) {site : Site}
    (hs : t.HoldsScope site.scope) (es : List Expr) (hn : ((usesOf es).map Use.id).Nodup) :
    Binds t (bindNamesOf site es) () ((usesOf es).map (site, ·)) := by
  cases es with
  | nil => exact .pure ()
  | cons e rest =>
    rw [usesOf, List.map_append] at hn
    have he := e.bindNames_binds ht hs (List.nodup_append.1 hn).1
    have hrest := bindNamesOf_binds ht hs rest (List.nodup_append.1 hn).2.1
    exact (he.bind hrest).congr (List.map_append ..).symm
end

/-! ### Statements and declarations -/

/-- The uses of a statement, its blocks left out, each with where it stands. -/
def Stmt.placed (scope : ScopeId) (s : Stmt) : List (Site × Use) :=
  s.uses.map (⟨scope, some s.id⟩, ·)

def FieldDecl.placed (scope : ScopeId) (f : FieldDecl) : List (Site × Use) :=
  f.uses.map (⟨scope, none⟩, ·)

theorem Stmt.placed_snd (scope : ScopeId) (s : Stmt) : (s.placed scope).map Prod.snd = s.uses := by
  rw [Stmt.placed, List.map_map]
  exact List.map_id s.uses

theorem FieldDecl.placed_snd (scope : ScopeId) (f : FieldDecl) :
    (f.placed scope).map Prod.snd = f.uses := by
  rw [FieldDecl.placed, List.map_map]
  exact List.map_id f.uses

/-- The scope of a struct type's fields, found by its node. -/
def Table.fieldScope (t : Table) (s : StructDecl) : Option ScopeId :=
  ((t.declaredBy? s.node.id).bind t.kind?).bind (·.structScope?)

/-- The function that a callable has become. -/
def Table.functionOf (t : Table) (f : Callable) : Option FunctionRecord :=
  (t.declaredBy? f.node.id).bind t.functionAt

/-- The fields of a struct type whose scope is not known are passed over, and so is the body of a
callable that has not become a function. -/
def ContractDecl.placed (t : Table) (scope : ScopeId) (c : ContractDecl) : List (Site × Use) :=
  c.fields.flatMap (·.placed scope) ++
    c.structs.flatMap (fun s =>
      (t.fieldScope s).toList.flatMap fun scope => s.fields.flatMap (·.placed scope)) ++
    c.callables.flatMap fun f =>
      (t.functionOf f).toList.flatMap fun info => (allOf f.body.stmts).flatMap (·.placed info.inner)

theorem bindEach_binds {t : Table} (ht : t.Valid) {site : Site} (hs : t.HoldsScope site.scope)
    (targets : List Designator) (hn : ∀ d ∈ targets, (d.uses.map Use.id).Nodup) :
    Binds t (targets.forM fun d => do
        let _ ← d.bindNames site
        pure ()) ()
      (targets.flatMap fun d => d.uses.map (site, ·)) :=
  .forM fun d hd =>
    ((d.bindNames_binds ht hs (hn d hd)).bind (.pure ())).congr (List.append_nil _)

mutual
theorem Stmt.bindNames_binds {t : Table} (ht : t.Valid) {scope : ScopeId} (hs : t.HoldsScope scope)
    (s : Stmt) (hn : ∀ s' ∈ s.all, (s'.uses.map Use.id).Nodup) :
    Binds t (s.bindNames scope) () (s.all.flatMap (·.placed scope)) := by
  have hown := hn s s.mem_all
  cases s with
  | declare node vars init =>
    cases init with
    | none => exact .pure ()
    | some init =>
      refine (init.bindNames_binds ht hs hown).congr ?_
      simp [Stmt.all, Stmt.placed, Stmt.uses, Stmt.id, Stmt.node]
  | assign node target value =>
    simp only [Stmt.uses, List.map_append] at hown
    obtain ⟨hl, hr, -⟩ := List.nodup_append.1 hown
    refine ((target.bindNames_binds ht hs hl).bind (value.bindNames_binds ht hs hr)).congr ?_
    simp [Stmt.all, Stmt.placed, Stmt.uses, Stmt.id, Stmt.node]
  | assignAll node targets source =>
    simp only [Stmt.uses, List.map_append] at hown
    obtain ⟨hl, hr, -⟩ := List.nodup_append.1 hown
    have htargets : ∀ d ∈ targets, (d.uses.map Use.id).Nodup := fun d hd =>
      hl.sublist ((sublist_flatMap_of_mem hd).map _)
    refine ((bindEach_binds ht hs targets htargets).bind
      (source.bindNames_binds ht hs hr)).congr ?_
    simp [Stmt.all, Stmt.placed, Stmt.uses, Stmt.id, Stmt.node, List.map_flatMap]
  | branch node condition onTrue onFalse =>
    have hcondition : Binds t (condition.bindNames ⟨scope, some node.id⟩) ()
        (condition.uses.map (⟨scope, some node.id⟩, ·)) := condition.bindNames_binds ht hs hown
    cases onFalse with
    | none =>
      have htrue := bindNamesIn_binds ht hs onTrue.stmts fun s' h => hn s' (by simp [Stmt.all, h])
      refine (hcondition.bind htrue).congr ?_
      simp [Stmt.all, Stmt.placed, Stmt.uses, Stmt.id, Stmt.node]
    | some onFalse =>
      have htrue := bindNamesIn_binds ht hs onTrue.stmts fun s' h => hn s' (by simp [Stmt.all, h])
      have hfalse := bindNamesIn_binds ht hs onFalse.stmts fun s' h => hn s' (by simp [Stmt.all, h])
      refine (hcondition.bind (htrue.bind hfalse)).congr ?_
      simp [Stmt.all, Stmt.placed, Stmt.uses, Stmt.id, Stmt.node]
  | giveBack node values =>
    refine (bindNamesOf_binds ht hs values hown).congr ?_
    simp [Stmt.all, Stmt.placed, Stmt.uses, Stmt.id, Stmt.node]

theorem bindNamesIn_binds {t : Table} (ht : t.Valid) {scope : ScopeId} (hs : t.HoldsScope scope)
    (b : List Stmt) (hn : ∀ s ∈ allOf b, (s.uses.map Use.id).Nodup) :
    Binds t (bindNamesIn scope b) () ((allOf b).flatMap (·.placed scope)) := by
  cases b with
  | nil => exact .pure ()
  | cons s rest =>
    have hs' := s.bindNames_binds ht hs fun s' h => hn s' (List.mem_append_left _ h)
    have hrest := bindNamesIn_binds ht hs rest fun s' h => hn s' (List.mem_append_right _ h)
    exact (hs'.bind hrest).congr (List.flatMap_append ..).symm
end

theorem FieldDecl.bindNames_binds {t : Table} (ht : t.Valid) {scope : ScopeId}
    (hs : t.HoldsScope scope) (f : FieldDecl) (hn : (f.uses.map Use.id).Nodup) :
    Binds t (f.bindNames scope) () (f.placed scope) := by
  unfold FieldDecl.bindNames FieldDecl.placed
  unfold FieldDecl.uses at hn ⊢
  cases hi : f.init with
  | none => exact .pure ()
  | some init =>
    rw [hi, Option.toList_some, List.flatMap_singleton] at hn
    rw [Option.toList_some, List.flatMap_singleton]
    exact init.bindNames_binds ht hs hn

theorem StructDecl.bindNames_binds {t : Table} (ht : t.Valid) (s : StructDecl)
    (hn : ∀ f ∈ s.fields, (f.uses.map Use.id).Nodup) :
    Binds t s.bindNames ()
      ((t.fieldScope s).toList.flatMap fun scope => s.fields.flatMap (·.placed scope)) := by
  intro b y
  have hview : (view (·.declaredBy? s.node.id)).run (t.annotated b y) =
      .ok ⟨t.declaredBy? s.node.id, t.annotated b y, []⟩ := rfl
  unfold Table.fieldScope
  refine run_bind_ok hview ?_
  cases hd : t.declaredBy? s.node.id with
  | none => rfl
  | some id =>
    obtain ⟨k, hk⟩ := Table.holds_iff_kind?.1 (ht.declared _ id hd).2
    have hkind : (t.annotated b y).kindOf id = .ok k := Table.kindOf_eq_ok.2 hk
    refine run_bind_ok (run_query_annotated b y hkind) ?_
    rw [Option.bind_some, hk, Option.bind_some]
    cases k with
    | struct inner fields =>
      have hinner : t.HoldsScope inner := (ht.kind hk).1
      simp only [SymbolKind.structScope?, Option.toList_some, List.flatMap_singleton]
      exact Binds.forM (fun f hf => f.bindNames_binds ht hinner (hn f hf)) b y
    | _ => rfl

theorem Callable.bindNames_binds {t : Table} (ht : t.Valid) (f : Callable)
    (hn : ∀ s ∈ allOf f.body.stmts, (s.uses.map Use.id).Nodup) :
    Binds t f.bindNames ()
      ((t.functionOf f).toList.flatMap fun info =>
        (allOf f.body.stmts).flatMap (·.placed info.inner)) := by
  intro b y
  have hview : (view (·.declaredBy? f.node.id)).run (t.annotated b y) =
      .ok ⟨t.declaredBy? f.node.id, t.annotated b y, []⟩ := rfl
  unfold Table.functionOf
  refine run_bind_ok hview ?_
  cases hd : t.declaredBy? f.node.id with
  | none => rfl
  | some id =>
    have hfunction : (t.annotated b y).function? id = .ok (t.functionAt id) :=
      Table.function?_eq (t := t) (ht.declared _ id hd).2
    refine run_bind_ok (run_query_annotated b y hfunction) ?_
    rw [Option.bind_some]
    cases hf : t.functionAt id with
    | none => rfl
    | some info =>
      have hinner : t.HoldsScope info.inner := (Table.functionAt_valid ht hf).1
      simp only [Option.toList_some, List.flatMap_singleton]
      exact bindNamesIn_binds ht hinner f.body.stmts hn b y

theorem ContractDecl.bindNames_binds {t : Table} (ht : t.Valid) {scope : ScopeId}
    (hm : t.memberScope = .ok scope) (c : ContractDecl) (hn : (c.uses.map Use.id).Nodup) :
    Binds t c.bindNames () (c.placed t scope) := by
  have hscope : t.HoldsScope scope := by
    obtain ⟨s, hs, hheld⟩ := Table.exists_memberScope ht
    rw [hm] at hs
    cases hs
    exact hheld
  have hfields : ∀ f ∈ c.allFields, (f.uses.map Use.id).Nodup := fun f hf =>
    hn.sublist (((sublist_flatMap_of_mem hf).trans (List.sublist_append_left ..)).map _)
  have hstmts : ∀ s ∈ c.stmts, (s.uses.map Use.id).Nodup := fun s hs =>
    hn.sublist (((sublist_flatMap_of_mem hs).trans (List.sublist_append_right ..)).map _)
  have hquery : Binds t (query (·.memberScope)) scope [] := fun b y =>
    run_query_annotated b y hm
  have h₁ := Binds.forM fun f hf =>
    FieldDecl.bindNames_binds ht hscope f (hfields f (List.mem_append_left _ hf))
  have h₂ := Binds.forM fun s hs => StructDecl.bindNames_binds ht s fun f hf =>
    hfields f (List.mem_append_right c.fields (List.mem_flatMap.2 ⟨s, hs, hf⟩))
  have h₃ := Binds.forM fun f hf => Callable.bindNames_binds ht f fun s hs =>
    hstmts s (mem_stmts hf hs)
  refine (hquery.bind (h₁.bind (h₂.bind h₃))).congr ?_
  rw [ContractDecl.placed, List.nil_append, List.append_assoc]

end ContractLang
