import ContractLang.Typing
import ContractLang.Proofs.Annotated
import ContractLang.Proofs.Nodes
/-!
What checking does, without its steps. On a table in which all designators have their types, the
type of an expression can be read off the expression alone, and what is reported is a list with one
share for each expression and each statement. The main statement is `ContractDecl.check_run`.
-/
namespace ContractLang

open Pass

namespace Table

/-- What is reported of two types that ought to be one. -/
def mismatch (t : Table) (expected found : Option SymbolId) (cause : String → String → Cause)
    (span : Span) : List Diagnostic :=
  match expected, found with
  | some e, some f => if e = f then [] else [⟨cause (t.shownName e) (t.shownName f), span⟩]
  | _, _ => []

def mismatches (t : Table) (cause : Nat → String → String → Cause) (position : Nat) :
    List Slot → List Diagnostic
  | [] => []
  | s :: rest =>
    t.mismatch s.expected s.found (cause position) s.span ++ t.mismatches cause (position + 1) rest

end Table

/-- The type of a call: the first type that the called function returns, or void. -/
def Table.callResult (t : Table) (callee : Designator) : Option SymbolId :=
  ((t.boundTo? callee.id).bind t.functionAt).map fun f => f.returns.head?.getD .void

/-- The type of an expression, given those of the designators. -/
def Expr.typeIn (t : Table) : Expr → Option SymbolId
  | .literal _ value => some value.type
  | .load _ source => t.typeAt? source.id
  | .call _ callee _ => t.callResult callee
  | .binary _ op _ _ => some op.resultType
  | .unary _ op _ => some op.operandType

namespace Table

def argumentSlots (t : Table) (params : List SymbolId) (args : List Expr) : List Slot :=
  (params.map t.valueType).zipWith (fun e a => ⟨e, a.1, a.2⟩)
    (args.map fun a => (a.typeIn t, a.span))

/-- What is reported of a call, its callee and arguments apart. -/
def callFault (t : Table) (callee : Designator) (args : List Expr) (span : Span) :
    List Diagnostic :=
  match t.boundTo? callee.id with
  | none => []
  | some id =>
    match t.functionAt id with
    | none => [⟨.notFunction callee.text, callee.span⟩]
    | some f =>
      if f.returns = [] then []
      else if f.params.length = args.length then
        t.mismatches (.argumentMismatch callee.text) 1 (t.argumentSlots f.params args)
      else [⟨.argumentCount callee.text f.params.length args.length, span⟩]

def operandFault (t : Table) (op : BinaryOp) (left right : Option SymbolId) (span : Span) :
    List Diagnostic :=
  match left, right with
  | some l, some r =>
    if op.accepts l r then [] else [⟨.binaryOperands op (t.shownName l) (t.shownName r), span⟩]
  | _, _ => []

end Table

/-- What is reported of an expression itself, not of the expressions inside it. -/
def Expr.fault (t : Table) : Expr → List Diagnostic
  | .literal .. => []
  | .load .. => []
  | .call node callee args => t.callFault callee args node.span
  | .binary node op left right => t.operandFault op (left.typeIn t) (right.typeIn t) node.span
  | .unary node op operand =>
    t.mismatch (some op.operandType) (operand.typeIn t) (.unaryOperand op) node.span

/-- The types that checking notes at some expressions. -/
def Table.typings (t : Table) (es : List Expr) : List (NodeId × SymbolId) :=
  es.filterMap fun e => (e.typeIn t).map (e.id, ·)

theorem Table.typings_append (t : Table) (es fs : List Expr) :
    t.typings (es ++ fs) = t.typings es ++ t.typings fs := List.filterMap_append

theorem Table.mem_typings_keys {t : Table} {es : List Expr} {n : NodeId}
    (h : n ∈ (t.typings es).map Prod.fst) : ∃ e ∈ es, e.id = n := by
  obtain ⟨p, hp, rfl⟩ := List.mem_map.1 h
  obtain ⟨e, he, hpe⟩ := List.mem_filterMap.1 hp
  obtain ⟨type, -, rfl⟩ := Option.map_eq_some_iff.1 hpe
  exact ⟨e, he, rfl⟩

theorem Expr.typeIn_holds {t : Table} (ht : t.Valid) {e : Expr} {type : SymbolId}
    (h : e.typeIn t = some type) : t.Holds type := by
  cases e with
  | literal node value =>
    cases h
    cases value <;> exact ht.holds (by decide)
  | load node source => exact ht.types _ _ h
  | call node callee args =>
    obtain ⟨f, hf, rfl⟩ := Option.map_eq_some_iff.1 h
    obtain ⟨id, -, hid⟩ := Option.bind_eq_some_iff.1 hf
    obtain ⟨-, hr, -⟩ := Table.functionAt_valid ht hid
    cases hret : f.returns with
    | nil => exact ht.holds (by decide)
    | cons first rest => exact (hr first (by rw [hret]; exact List.mem_cons_self ..)).1
  | binary node op left right =>
    cases h
    unfold BinaryOp.resultType
    split <;> exact ht.holds (by decide)
  | unary node op operand =>
    cases h
    cases op <;> exact ht.holds (by decide)

/-! ### Steps that change nothing -/

section
variable {t : Table} (b y : Assoc NodeId SymbolId)

theorem run_expect {expected found : Option SymbolId} (he : ∀ id ∈ expected, t.Holds id)
    (hf : ∀ id ∈ found, t.Holds id) (cause : String → String → Cause) (span : Span) :
    (expect expected found cause span).run (t.annotated b y) =
      .ok ⟨(), t.annotated b y, t.mismatch expected found cause span⟩ := by
  cases expected with
  | none => rfl
  | some e =>
    cases found with
    | none => rfl
    | some f =>
      unfold expect Table.mismatch
      by_cases h : e = f
      · simp only [h, if_true]
        rfl
      · simp only [h, if_false]
        have hname : (t.annotated b y).nameOf e = .ok (t.shownName e) := Table.nameOf_eq (he e rfl)
        have hname' : (t.annotated b y).nameOf f = .ok (t.shownName f) := Table.nameOf_eq (hf f rfl)
        refine run_bind_ok (run_query_annotated b y hname) ?_
        exact run_bind_ok (run_query_annotated b y hname') rfl

theorem run_expectAll (cause : Nat → String → String → Cause) (position : Nat) {slots : List Slot}
    (h : ∀ s ∈ slots, (∀ id ∈ s.expected, t.Holds id) ∧ ∀ id ∈ s.found, t.Holds id) :
    (expectAll cause position slots).run (t.annotated b y) =
      .ok ⟨(), t.annotated b y, t.mismatches cause position slots⟩ := by
  induction slots generalizing position with
  | nil => rfl
  | cons s rest ih =>
    obtain ⟨he, hf⟩ := h s (List.mem_cons_self ..)
    have hrest := ih (position + 1) fun s' hs' => h s' (List.mem_cons_of_mem _ hs')
    refine run_bind_ok (run_expect b y he hf (cause position) s.span) ?_
    exact hrest

theorem run_checkOperands (op : BinaryOp) {left right : Option SymbolId}
    (hl : ∀ id ∈ left, t.Holds id) (hr : ∀ id ∈ right, t.Holds id) (span : Span) :
    (checkOperands op left right span).run (t.annotated b y) =
      .ok ⟨(), t.annotated b y, t.operandFault op left right span⟩ := by
  cases left with
  | none => rfl
  | some l =>
    cases right with
    | none => rfl
    | some r =>
      unfold checkOperands Table.operandFault
      by_cases h : op.accepts l r
      · simp only [h, if_true]
        rfl
      · simp only [h, Bool.false_eq_true, if_false]
        have hname : (t.annotated b y).nameOf l = .ok (t.shownName l) := Table.nameOf_eq (hl l rfl)
        have hname' : (t.annotated b y).nameOf r = .ok (t.shownName r) := Table.nameOf_eq (hr r rfl)
        refine run_bind_ok (run_query_annotated b y hname) ?_
        exact run_bind_ok (run_query_annotated b y hname') rfl

theorem mapM_valueType {ids : List SymbolId} (h : ∀ id ∈ ids, t.Holds id) :
    ids.mapM (t.annotated b y).valueType? = .ok (ids.map t.valueType) :=
  Table.mapM_eq_ok fun id hid => Table.valueType?_eq (t := t) (h id hid)

theorem run_fitArguments (ht : t.Valid) {f : FunctionRecord}
    (hf : (SymbolKind.function f).ValidIn t) (callee : String) (args : List Expr) (span : Span) :
    (fitArguments callee f.params (args.map fun a => (a.typeIn t, a.span)) span).run
        (t.annotated b y) =
      .ok ⟨(), t.annotated b y,
        if f.params.length = args.length then
          t.mismatches (.argumentMismatch callee) 1 (t.argumentSlots f.params args)
        else [⟨.argumentCount callee f.params.length args.length, span⟩]⟩ := by
  obtain ⟨-, -, hp, -⟩ := hf
  have hheld : ∀ id ∈ f.params, t.Holds id := fun id hid =>
    Table.holds_iff_kind?.2 ⟨_, (hp id hid).choose_spec⟩
  unfold fitArguments
  by_cases h : f.params.length = args.length
  · simp only [List.length_map, h, if_true]
    have hquery : (query fun t => f.params.mapM t.valueType?).run (t.annotated b y) =
        .ok ⟨f.params.map t.valueType, t.annotated b y, []⟩ :=
      run_query_annotated b y (mapM_valueType b y hheld)
    refine run_bind_ok hquery ?_
    refine run_expectAll b y _ 1 fun s hs => ?_
    obtain ⟨i, hi⟩ := List.getElem?_of_mem hs
    obtain ⟨e, a, he, ha, rfl⟩ := List.getElem?_zipWith_eq_some.1 hi
    obtain ⟨p, -, rfl⟩ := List.mem_map.1 (List.mem_of_getElem? he)
    obtain ⟨x, -, rfl⟩ := List.mem_map.1 (List.mem_of_getElem? ha)
    exact ⟨fun id hid => Table.valueType_holds ht hid, fun id hid => Expr.typeIn_holds ht hid⟩
  · simp only [List.length_map, h, if_false]
    rfl

theorem run_callType (ht : t.Valid) (callee : Designator) (args : List Expr) (span : Span) :
    (callType callee (args.map fun a => (a.typeIn t, a.span)) span).run
        (t.annotated t.bindings y) =
      .ok ⟨t.callResult callee, t.annotated t.bindings y, t.callFault callee args span⟩ := by
  have hview : (view (·.boundTo? callee.id)).run (t.annotated t.bindings y) =
      .ok ⟨t.boundTo? callee.id, t.annotated t.bindings y, []⟩ := rfl
  unfold callType Table.callFault Table.callResult
  refine run_bind_ok hview ?_
  cases hb : t.boundTo? callee.id with
  | none => rfl
  | some id =>
    have hfunction : (t.annotated t.bindings y).function? id = .ok (t.functionAt id) :=
      Table.function?_eq (t := t) (ht.bindings _ _ hb)
    refine run_bind_ok (run_query_annotated t.bindings y hfunction) ?_
    cases hf : t.functionAt id with
    | none => simp only [Option.bind_some, hf]; rfl
    | some f =>
      simp only [Option.bind_some, hf, Option.map_some]
      cases hret : f.returns with
      | nil => rfl
      | cons first rest =>
        have hfit := run_fitArguments t.bindings y ht (Table.functionAt_valid ht hf) callee.text
          args span
        simp only [List.head?_cons, Option.getD_some, reduceCtorEq, if_false]
        have hreturn := run_bind_ok (f := fun _ => (pure (some first) : Pass _)) hfit (run_pure ..)
        rw [List.append_nil] at hreturn
        exact hreturn

end

/-! ### Steps that note types -/

/-- The step gives `a`, notes the types of `es` and reports `reports`, on every table in which the
nodes of `ds` have the types that they have in `t`; and it leaves these alone. -/
structure Checks (t : Table) (ds : List NodeId) {α : Type} (x : Pass α) (a : α) (es : List Expr)
    (reports : List Diagnostic) : Prop where
  fresh : ∀ e ∈ es, e.id ∉ ds
  run : ∀ y : Assoc NodeId SymbolId, (∀ n ∈ ds, y.get? n = t.types.get? n) →
    x.run (t.annotated t.bindings y) =
      .ok ⟨a, t.annotated t.bindings (y.insertAll (t.typings es)), reports⟩

namespace Checks
variable {t : Table} {ds : List NodeId} {α β : Type}

theorem static {x : Pass α} {a : α} {r : List Diagnostic}
    (h : ∀ y, x.run (t.annotated t.bindings y) = .ok ⟨a, t.annotated t.bindings y, r⟩) :
    Checks t ds x a [] r :=
  ⟨by simp, fun y _ => h y⟩

theorem bind {x : Pass α} {f : α → Pass β} {a : α} {b : β} {es fs : List Expr}
    {r r' : List Diagnostic} (hx : Checks t ds x a es r) (hf : Checks t ds (f a) b fs r') :
    Checks t ds (x >>= f) b (es ++ fs) (r ++ r') where
  fresh e he := by
    rcases List.mem_append.1 he with he | he
    · exact hx.fresh e he
    · exact hf.fresh e he
  run y hy := by
    -- The first step writes at its expressions, and none of these is among `ds`.
    have hkeys : ∀ n ∈ ds, n ∉ (t.typings es).map Prod.fst := by
      intro n hn hmem
      obtain ⟨e, he, rfl⟩ := Table.mem_typings_keys hmem
      exact hx.fresh e he hn
    have hy' : ∀ n ∈ ds, (y.insertAll (t.typings es)).get? n = t.types.get? n := fun n hn =>
      (Assoc.get?_insertAll_of_not_mem (hkeys n hn)).trans (hy n hn)
    rw [Table.typings_append, Assoc.insertAll_append]
    exact run_bind_ok (hx.run y hy) (hf.run _ hy')

theorem congr {x : Pass α} {a a' : α} {es es' : List Expr} {r r' : List Diagnostic}
    (h : Checks t ds x a es r) (ha : a = a') (he : es = es') (hr : r = r') :
    Checks t ds x a' es' r' := ha ▸ he ▸ hr ▸ h

theorem note {e : Expr} (he : e.id ∉ ds) :
    Checks t ds (match e.typeIn t with
      | none => pure none
      | some type => noteType e.id type) (e.typeIn t) [e] [] where
  fresh e' h := List.mem_singleton.1 h ▸ he
  run y _ := by
    cases h : e.typeIn t with
    | none => simp [Table.typings, h, run_pure]
    | some type => simp [Table.typings, h, run_noteType, Assoc.insertAll]

end Checks

/-- The designators of an expression are among the nodes `ds`, its expressions are not. -/
def Expr.Apart (ds : List NodeId) (e : Expr) : Prop :=
  (∀ u ∈ e.uses, u.id ∈ ds) ∧ ∀ p ∈ e.parts, p.id ∉ ds

def Designator.Apart (ds : List NodeId) (d : Designator) : Prop :=
  (∀ u ∈ d.uses, u.id ∈ ds) ∧ ∀ p ∈ d.parts, p.id ∉ ds

theorem Designator.Apart.id_mem {ds : List NodeId} {d : Designator} (h : d.Apart ds) : d.id ∈ ds :=
  h.1 _ d.mem_uses

theorem apart_of_mem {ds : List NodeId} {es : List Expr} (hu : ∀ u ∈ usesOf es, u.id ∈ ds)
    (hp : ∀ p ∈ partsOf es, p.id ∉ ds) {e : Expr} (he : e ∈ es) : e.Apart ds := by
  rw [usesOf_eq_flatMap] at hu
  rw [partsOf_eq_flatMap] at hp
  exact ⟨fun u h => hu u (List.mem_flatMap.2 ⟨e, he, h⟩),
    fun p h => hp p (List.mem_flatMap.2 ⟨e, he, h⟩)⟩

theorem Expr.Apart.callee {ds : List NodeId} {node : Node} {callee : Designator} {args : List Expr}
    (h : (Expr.call node callee args).Apart ds) : callee.Apart ds := by
  obtain ⟨hu, hp⟩ := h
  refine ⟨fun u hmem => ?_, fun p hmem => hp p (by simp [Expr.parts, hmem])⟩
  cases callee with
  | name n x =>
    rw [List.mem_singleton.1 hmem]
    exact hu (.callee n x) (by simp [Expr.uses])
  | index n base position => exact hu u (by simp [Expr.uses, hmem])
  | member n base m => exact hu u (by simp [Expr.uses, hmem])

theorem Expr.Apart.args {ds : List NodeId} {node : Node} {callee : Designator} {args : List Expr}
    (h : (Expr.call node callee args).Apart ds) : ∀ e ∈ args, e.Apart ds := by
  obtain ⟨hu, hp⟩ := h
  refine fun e he => apart_of_mem (fun u hmem => hu u ?_) (fun p hmem => hp p ?_) he
  · cases callee <;> simp [Expr.uses, hmem]
  · simp [Expr.parts, hmem]

mutual
theorem Expr.check_checks {t : Table} (ht : t.Valid) {ds : List NodeId} (e : Expr)
    (h : e.Apart ds) : Checks t ds e.check (e.typeIn t) e.parts (e.parts.flatMap (·.fault t)) := by
  have hnote := Checks.note (t := t) (h.2 e e.mem_parts)
  cases e with
  | literal node value => exact hnote
  | load node source =>
    have hsource : source.Apart ds := ⟨h.1, fun p hp => h.2 p (by simp [Expr.parts, hp])⟩
    refine ((source.check_checks ht hsource).bind hnote).congr rfl rfl ?_
    simp [Expr.parts, Expr.fault]
  | call node callee args =>
    have hargs := checkEach_checks ht args h.args
    have hcallee := callee.check_checks ht h.callee
    have htype : Checks t ds (callType callee (args.map fun a => (a.typeIn t, a.span)) node.span)
        (t.callResult callee) [] (t.callFault callee args node.span) :=
      .static fun y => run_callType y ht callee args node.span
    have hzip : (args.map (·.typeIn t)).zip (args.map Expr.span) =
        args.map fun a => (a.typeIn t, a.span) := List.zip_map' ..
    have hall : Checks t ds (Expr.call node callee args).check
        ((Expr.call node callee args).typeIn t)
        (partsOf args ++ (callee.parts ++ ([] ++ [.call node callee args])))
        ((partsOf args).flatMap (·.fault t) ++ (callee.parts.flatMap (·.fault t) ++
          (t.callFault callee args node.span ++ []))) := by
      refine hargs.bind (hcallee.bind ?_)
      rw [hzip]
      exact htype.bind hnote
    refine hall.congr rfl ?_ ?_ <;> simp [Expr.parts, Expr.fault]
  | binary node op left right =>
    have hleft : left.Apart ds :=
      ⟨fun u hu => h.1 u (by simp [Expr.uses, hu]), fun p hp => h.2 p (by simp [Expr.parts, hp])⟩
    have hright : right.Apart ds :=
      ⟨fun u hu => h.1 u (by simp [Expr.uses, hu]), fun p hp => h.2 p (by simp [Expr.parts, hp])⟩
    have hoperands : Checks t ds (checkOperands op (left.typeIn t) (right.typeIn t) node.span) () []
        (t.operandFault op (left.typeIn t) (right.typeIn t) node.span) :=
      .static fun y => run_checkOperands t.bindings y op (fun _ => Expr.typeIn_holds ht)
        (fun _ => Expr.typeIn_holds ht) node.span
    have hall : Checks t ds (Expr.binary node op left right).check
        ((Expr.binary node op left right).typeIn t)
        (left.parts ++ (right.parts ++ ([] ++ [.binary node op left right])))
        (left.parts.flatMap (·.fault t) ++ (right.parts.flatMap (·.fault t) ++
          (t.operandFault op (left.typeIn t) (right.typeIn t) node.span ++ []))) :=
      (left.check_checks ht hleft).bind
        ((right.check_checks ht hright).bind (hoperands.bind hnote))
    refine hall.congr rfl ?_ ?_ <;> simp [Expr.parts, Expr.fault]
  | unary node op operand =>
    have hoperand : operand.Apart ds := ⟨h.1, fun p hp => h.2 p (by simp [Expr.parts, hp])⟩
    have hexpect : Checks t ds (expect (some op.operandType) (operand.typeIn t) (.unaryOperand op)
        node.span) () []
        (t.mismatch (some op.operandType) (operand.typeIn t) (.unaryOperand op) node.span) := by
      refine .static fun y => run_expect t.bindings y ?_ (fun _ => Expr.typeIn_holds ht) _ _
      rintro _ ⟨⟩
      cases op <;> exact ht.holds (by decide)
    have hall : Checks t ds (Expr.unary node op operand).check
        ((Expr.unary node op operand).typeIn t)
        (operand.parts ++ ([] ++ [.unary node op operand]))
        (operand.parts.flatMap (·.fault t) ++
          (t.mismatch (some op.operandType) (operand.typeIn t) (.unaryOperand op) node.span ++ [])) :=
      (operand.check_checks ht hoperand).bind (hexpect.bind hnote)
    refine hall.congr rfl ?_ ?_ <;> simp [Expr.parts, Expr.fault]

theorem Designator.check_checks {t : Table} (ht : t.Valid) {ds : List NodeId} (d : Designator)
    (h : d.Apart ds) :
    Checks t ds d.check (t.typeAt? d.id) d.parts (d.parts.flatMap (·.fault t)) := by
  have hview : Checks t ds (view (·.typeAt? d.id)) (t.typeAt? d.id) [] [] := by
    refine ⟨by simp, fun y hy => ?_⟩
    have hsame : y.get? d.id = t.typeAt? d.id := hy d.id h.id_mem
    rw [run_view, Table.typeAt?_annotated, hsame]
    rfl
  cases d with
  | name node x => exact hview
  | index node base position =>
    have hbase : base.Apart ds :=
      ⟨fun u hu => h.1 u (by simp [Designator.uses, hu]),
        fun p hp => h.2 p (by simp [Designator.parts, hp])⟩
    have hposition : position.Apart ds :=
      ⟨fun u hu => h.1 u (by simp [Designator.uses, hu]),
        fun p hp => h.2 p (by simp [Designator.parts, hp])⟩
    refine ((base.check_checks ht hbase).bind
      ((position.check_checks ht hposition).bind hview)).congr rfl ?_ ?_ <;>
      simp [Designator.parts]
  | member node base m =>
    have hbase : base.Apart ds := ⟨fun u hu => h.1 u (by simp [Designator.uses, hu]), h.2⟩
    refine ((base.check_checks ht hbase).bind hview).congr rfl ?_ ?_ <;> simp [Designator.parts]

theorem checkEach_checks {t : Table} (ht : t.Valid) {ds : List NodeId} (es : List Expr)
    (h : ∀ e ∈ es, e.Apart ds) :
    Checks t ds (checkEach es) (es.map (·.typeIn t)) (partsOf es)
      ((partsOf es).flatMap (·.fault t)) := by
  cases es with
  | nil => exact .static fun y => rfl
  | cons e rest =>
    have he := e.check_checks ht (h e (List.mem_cons_self ..))
    have hrest := checkEach_checks ht rest fun e' he' => h e' (List.mem_cons_of_mem _ he')
    have hreturn : Checks t ds (pure ((e :: rest).map (·.typeIn t)) : Pass (List (Option SymbolId)))
        ((e :: rest).map (·.typeIn t)) [] [] := .static fun y => rfl
    refine (he.bind (hrest.bind hreturn)).congr rfl ?_ ?_ <;> simp [partsOf]
end

/-! ### Statements and declarations -/

namespace Table

/-- The type of what a node declares. -/
def declaredType (t : Table) (node : NodeId) : Option SymbolId := (t.declaredBy? node).bind t.valueType

def initFault (t : Table) (node : NodeId) (name : String) (init : Expr) : List Diagnostic :=
  t.mismatch (t.declaredType node) (init.typeIn t) (.initMismatch name) init.span

/-- What is reported of a source for several targets of these types. -/
def targetFault (t : Table) (targets : List (Option SymbolId)) (source : Expr) (span : Span) :
    List Diagnostic :=
  match source with
  | .call _ callee _ =>
    match (t.boundTo? callee.id).bind t.functionAt with
    | none => []
    | some f =>
      if f.returns.length = targets.length then
        t.mismatches .valueMismatch 1 (targets.zipWith (fun e r => ⟨e, some r, span⟩) f.returns)
      else [⟨.valueCount callee.text targets.length f.returns.length, span⟩]
  | _ => [⟨.sourceNotCall targets.length, source.span⟩]

/-- What is reported of values that a function gives back. -/
def returnFault (t : Table) (function : Option SymbolId) (values : List Expr) (span : Span) :
    List Diagnostic :=
  match function.bind t.functionAt with
  | none => []
  | some f =>
    if f.returns = [] then if values = [] then [] else [⟨.valueFromVoid, span⟩]
    else if f.returns.length = values.length then
      t.mismatches .returnMismatch 1
        (f.returns.zipWith (fun e a => ⟨some e, a.1, a.2⟩)
          (values.map fun a => (a.typeIn t, a.span)))
    else [⟨.returnCount f.returns.length values.length, span⟩]

end Table

/-- What is reported of a statement itself, not of its expressions and blocks. -/
def Stmt.fault (t : Table) (function : Option SymbolId) : Stmt → List Diagnostic
  | .declare _ _ none => []
  | .declare _ [v] (some init) => t.initFault v.node.id v.name.text init
  | .declare node vars (some init) =>
    t.targetFault (vars.map fun v => t.declaredType v.node.id) init node.span
  | .assign _ target value =>
    t.mismatch (t.typeAt? target.id) (value.typeIn t) (.assignMismatch target.text) value.span
  | .assignAll node targets source =>
    t.targetFault (targets.map fun d => t.typeAt? d.id) source node.span
  | .branch _ condition _ _ =>
    t.mismatch (some .bool) (condition.typeIn t) (fun _ found => .conditionNotBool found)
      condition.span
  | .giveBack node values => t.returnFault function values node.span

/-- What is reported of a statement and its expressions. -/
def Stmt.faults (t : Table) (function : Option SymbolId) (s : Stmt) : List Diagnostic :=
  s.parts.flatMap (·.fault t) ++ s.fault t function

def FieldDecl.faults (t : Table) (f : FieldDecl) : List Diagnostic :=
  f.init.toList.flatMap fun init =>
    init.parts.flatMap (·.fault t) ++ t.initFault f.node.id f.name.text init

def Callable.faults (t : Table) (f : Callable) : List Diagnostic :=
  (allOf f.body.stmts).flatMap (·.faults t (t.declaredBy? f.node.id))

def ContractDecl.faults (t : Table) (c : ContractDecl) : List Diagnostic :=
  c.allFields.flatMap (·.faults t) ++ c.callables.flatMap (·.faults t)

theorem Checks.forM {t : Table} {ds : List NodeId} {α : Type} {f : α → Pass Unit} {xs : List α}
    {es : α → List Expr} {r : α → List Diagnostic} (h : ∀ x ∈ xs, Checks t ds (f x) () (es x) (r x)) :
    Checks t ds (xs.forM f) () (xs.flatMap es) (xs.flatMap r) := by
  induction xs with
  | nil => exact .static fun y => rfl
  | cons x xs ih =>
    have hxs := ih fun z hz => h z (List.mem_cons_of_mem _ hz)
    exact (h x (List.mem_cons_self ..)).bind hxs

theorem Checks.mapM {t : Table} {ds : List NodeId} {α β : Type} {f : α → Pass β} {xs : List α}
    {a : α → β} {es : α → List Expr} {r : α → List Diagnostic}
    (h : ∀ x ∈ xs, Checks t ds (f x) (a x) (es x) (r x)) :
    Checks t ds (xs.mapM f) (xs.map a) (xs.flatMap es) (xs.flatMap r) := by
  induction xs with
  | nil => exact .static fun y => rfl
  | cons x xs ih =>
    have hx := h x (List.mem_cons_self ..)
    have hxs := ih fun z hz => h z (List.mem_cons_of_mem _ hz)
    have hreturn : Checks t ds (pure (a x :: xs.map a) : Pass (List β)) (a x :: xs.map a) [] [] :=
      .static fun y => rfl
    rw [List.mapM_cons]
    refine (hx.bind (hxs.bind hreturn)).congr rfl ?_ ?_ <;> simp

section
variable {t : Table} (ht : t.Valid) {ds : List NodeId}
include ht

theorem declaredType_checks (node : NodeId) :
    Checks t ds (Pass.declaredType node) (t.declaredType node) [] [] := by
  refine .static fun y => ?_
  have hview : (view (·.declaredBy? node)).run (t.annotated t.bindings y) =
      .ok ⟨t.declaredBy? node, t.annotated t.bindings y, []⟩ := rfl
  unfold Pass.declaredType Table.declaredType
  refine run_bind_ok hview ?_
  cases hd : t.declaredBy? node with
  | none => rfl
  | some id =>
    have htype : (t.annotated t.bindings y).valueType? id = .ok (t.valueType id) :=
      Table.valueType?_eq (t := t) (ht.declared _ _ hd).2
    exact run_query_annotated t.bindings y htype

theorem declaredType_holds {node : NodeId} {type : SymbolId} (h : t.declaredType node = some type) :
    t.Holds type := by
  obtain ⟨id, -, hid⟩ := Option.bind_eq_some_iff.1 h
  exact Table.valueType_holds ht hid

theorem checkInit_checks (node : NodeId) (name : String) (init : Expr) (h : init.Apart ds) :
    Checks t ds (checkInit node name init) () init.parts
      (init.parts.flatMap (·.fault t) ++ t.initFault node name init) := by
  have hexpect : Checks t ds (expect (t.declaredType node) (init.typeIn t) (.initMismatch name)
      init.span) () [] (t.initFault node name init) :=
    .static fun y => run_expect t.bindings y (fun _ => declaredType_holds ht)
      (fun _ => Expr.typeIn_holds ht) _ _
  refine ((declaredType_checks ht node).bind
    ((init.check_checks ht h).bind hexpect)).congr rfl ?_ rfl
  simp

theorem checkTargets_checks {targets : List (Option SymbolId)}
    (htargets : ∀ e ∈ targets, ∀ id ∈ e, t.Holds id) (source : Expr) (h : source.Apart ds)
    (span : Span) :
    Checks t ds (checkTargets targets source span) () source.parts
      (source.parts.flatMap (·.fault t) ++ t.targetFault targets source span) := by
  have hsource := source.check_checks ht h
  refine (hsource.bind (.static fun y => ?_)).congr rfl (List.append_nil _) rfl
  cases source with
  | call node callee args =>
    have hview : (view (·.boundTo? callee.id)).run (t.annotated t.bindings y) =
        .ok ⟨t.boundTo? callee.id, t.annotated t.bindings y, []⟩ := rfl
    refine run_bind_ok hview ?_
    cases hb : t.boundTo? callee.id with
    | none => rfl
    | some id =>
      have hfunction : (t.annotated t.bindings y).function? id = .ok (t.functionAt id) :=
        Table.function?_eq (t := t) (ht.bindings _ _ hb)
      refine run_bind_ok (run_query_annotated t.bindings y hfunction) ?_
      rw [Option.bind_some]
      cases hf : t.functionAt id with
      | none => rfl
      | some f =>
        dsimp only
        split
        · refine run_expectAll t.bindings y _ 1 fun s hs => ?_
          obtain ⟨-, hr, -⟩ := Table.functionAt_valid ht hf
          obtain ⟨i, hi⟩ := List.getElem?_of_mem hs
          obtain ⟨e, r, he, hret, rfl⟩ := List.getElem?_zipWith_eq_some.1 hi
          refine ⟨htargets e (List.mem_of_getElem? he), ?_⟩
          rintro _ ⟨⟩
          exact (hr r (List.mem_of_getElem? hret)).1
        · rfl
  | _ => rfl

theorem checkGivenBack_checks {function : Option SymbolId} (hfun : ∀ id ∈ function, t.Holds id)
    (values : List Expr) (h : ∀ e ∈ values, e.Apart ds) (span : Span) :
    Checks t ds (checkGivenBack function values span) () (partsOf values)
      ((partsOf values).flatMap (·.fault t) ++ t.returnFault function values span) := by
  have hvalues := checkEach_checks ht values h
  have hzip : (values.map (·.typeIn t)).zip (values.map Expr.span) =
      values.map fun a => (a.typeIn t, a.span) := List.zip_map' ..
  refine (hvalues.bind (.static fun y => ?_)).congr rfl (List.append_nil _) rfl
  rw [hzip]
  cases function with
  | none => rfl
  | some id =>
    have hfunction : (t.annotated t.bindings y).function? id = .ok (t.functionAt id) :=
      Table.function?_eq (t := t) (hfun id rfl)
    refine run_bind_ok (run_query_annotated t.bindings y hfunction) ?_
    rw [Option.bind_some]
    cases hf : t.functionAt id with
    | none => rfl
    | some f =>
      simp only [List.isEmpty_iff]
      split
      · split <;> rfl
      · split
        · refine run_expectAll t.bindings y _ 1 fun s hs => ?_
          obtain ⟨-, hr, -⟩ := Table.functionAt_valid ht hf
          obtain ⟨i, hi⟩ := List.getElem?_of_mem hs
          obtain ⟨e, a, he, ha, rfl⟩ := List.getElem?_zipWith_eq_some.1 hi
          obtain ⟨x, -, rfl⟩ := List.mem_map.1 (List.mem_of_getElem? ha)
          refine ⟨?_, fun id hid => Expr.typeIn_holds ht hid⟩
          rintro _ ⟨⟩
          exact (hr e (List.mem_of_getElem? he)).1
        · rfl

end

/-- The designators of a statement are among the nodes `ds`, its expressions are not. -/
def Stmt.Apart (ds : List NodeId) (s : Stmt) : Prop :=
  (∀ u ∈ s.uses, u.id ∈ ds) ∧ ∀ p ∈ s.parts, p.id ∉ ds

theorem condition_checks {t : Table} (ht : t.Valid) (ds : List NodeId) (condition : Expr) :
    Checks t ds (expect (some .bool) (condition.typeIn t) (fun _ found => .conditionNotBool found)
      condition.span) () []
      (t.mismatch (some .bool) (condition.typeIn t) (fun _ found => .conditionNotBool found)
        condition.span) := by
  refine .static fun y => run_expect t.bindings y ?_ (fun _ => Expr.typeIn_holds ht) _ _
  rintro _ ⟨⟩
  exact ht.holds (by decide)

mutual
theorem Stmt.check_checks {t : Table} (ht : t.Valid) {ds : List NodeId}
    {function : Option SymbolId} (hfun : ∀ id ∈ function, t.Holds id) (s : Stmt)
    (h : ∀ s' ∈ s.all, s'.Apart ds) :
    Checks t ds (s.check function) () (s.all.flatMap Stmt.parts)
      (s.all.flatMap (·.faults t function)) := by
  obtain ⟨hu, hp⟩ := h s s.mem_all
  cases s with
  | declare node vars init =>
    cases init with
    | none => exact .static fun y => rfl
    | some init =>
      have hinit : init.Apart ds := ⟨hu, hp⟩
      by_cases hone : ∃ v, vars = [v]
      · obtain ⟨v, rfl⟩ := hone
        refine (checkInit_checks ht v.node.id v.name.text init hinit).congr rfl ?_ ?_ <;>
          simp [Stmt.all, Stmt.parts, Stmt.faults, Stmt.fault]
      · have htypes : Checks t ds (vars.mapM fun v => Pass.declaredType v.node.id)
            (vars.map fun v => t.declaredType v.node.id) (vars.flatMap fun _ => [])
            (vars.flatMap fun _ => []) :=
          Checks.mapM fun v _ => declaredType_checks ht v.node.id
        have hheld : ∀ e ∈ vars.map (fun v => t.declaredType v.node.id), ∀ id ∈ e, t.Holds id := by
          intro e he id hid
          obtain ⟨v, -, rfl⟩ := List.mem_map.1 he
          exact declaredType_holds ht hid
        have hall := htypes.bind (f := fun targets => checkTargets targets init node.span)
          (checkTargets_checks ht hheld init hinit node.span)
        have hcheck : (Stmt.declare node vars (some init)).check function =
            (vars.mapM fun v => Pass.declaredType v.node.id) >>= fun targets =>
              checkTargets targets init node.span := by
          rw [Stmt.check]
          exact fun v hv => hone ⟨v, hv⟩
        have hfault : (Stmt.declare node vars (some init)).fault t function =
            t.targetFault (vars.map fun v => t.declaredType v.node.id) init node.span := by
          rw [Stmt.fault]
          exact fun v hv => hone ⟨v, hv⟩
        rw [hcheck]
        refine hall.congr rfl ?_ ?_ <;> simp [Stmt.all, Stmt.parts, Stmt.faults, hfault]
  | assign node target value =>
    have htarget : target.Apart ds :=
      ⟨fun u hm => hu u (by simp [Stmt.uses, hm]), fun p hm => hp p (by simp [Stmt.parts, hm])⟩
    have hvalue : value.Apart ds :=
      ⟨fun u hm => hu u (by simp [Stmt.uses, hm]), fun p hm => hp p (by simp [Stmt.parts, hm])⟩
    have hexpect : Checks t ds (expect (t.typeAt? target.id) (value.typeIn t)
        (.assignMismatch target.text) value.span) () []
        ((Stmt.assign node target value).fault t function) :=
      .static fun y => run_expect t.bindings y (fun _ => ht.types _ _)
        (fun _ => Expr.typeIn_holds ht) _ _
    refine ((target.check_checks ht htarget).bind
      ((value.check_checks ht hvalue).bind hexpect)).congr rfl ?_ ?_ <;>
      simp [Stmt.all, Stmt.parts, Stmt.faults]
  | assignAll node targets source =>
    have htargets : ∀ d ∈ targets, d.Apart ds := fun d hd =>
      ⟨fun u hm => hu u (List.mem_append_left _ (List.mem_flatMap.2 ⟨d, hd, hm⟩)),
        fun p hm => hp p (List.mem_append_left _ (List.mem_flatMap.2 ⟨d, hd, hm⟩))⟩
    have hsource : source.Apart ds :=
      ⟨fun u hm => hu u (List.mem_append_right _ hm),
        fun p hm => hp p (List.mem_append_right _ hm)⟩
    have htypes := Checks.mapM fun d hd => Designator.check_checks ht d (htargets d hd)
    have hheld : ∀ e ∈ targets.map (fun d => t.typeAt? d.id), ∀ id ∈ e, t.Holds id := by
      intro e he id hid
      obtain ⟨d, -, rfl⟩ := List.mem_map.1 he
      exact ht.types _ _ hid
    refine (htypes.bind (checkTargets_checks ht hheld source hsource node.span)).congr rfl ?_ ?_ <;>
      simp [Stmt.all, Stmt.parts, Stmt.faults, Stmt.fault, List.flatMap_assoc]
  | branch node condition onTrue onFalse =>
    have hcondition := condition.check_checks ht ⟨hu, hp⟩
    have hexpect := condition_checks ht ds condition
    cases onFalse with
    | none =>
      have htrue := checkStmts_checks ht hfun onTrue.stmts fun s hs => h s (by simp [Stmt.all, hs])
      refine (hcondition.bind (hexpect.bind htrue)).congr rfl ?_ ?_ <;>
        simp [Stmt.all, Stmt.parts, Stmt.faults, Stmt.fault]
    | some onFalse =>
      have htrue := checkStmts_checks ht hfun onTrue.stmts fun s hs => h s (by simp [Stmt.all, hs])
      have hfalse := checkStmts_checks ht hfun onFalse.stmts fun s hs => h s (by simp [Stmt.all, hs])
      refine (hcondition.bind (hexpect.bind (htrue.bind hfalse))).congr rfl ?_ ?_ <;>
        simp [Stmt.all, Stmt.parts, Stmt.faults, Stmt.fault]
  | giveBack node values =>
    refine (checkGivenBack_checks ht hfun values (fun e he => apart_of_mem hu hp he)
      node.span).congr rfl ?_ ?_ <;> simp [Stmt.all, Stmt.parts, Stmt.faults, Stmt.fault]

theorem checkStmts_checks {t : Table} (ht : t.Valid) {ds : List NodeId}
    {function : Option SymbolId} (hfun : ∀ id ∈ function, t.Holds id) (b : List Stmt)
    (h : ∀ s ∈ allOf b, s.Apart ds) :
    Checks t ds (checkStmts function b) () ((allOf b).flatMap Stmt.parts)
      ((allOf b).flatMap (·.faults t function)) := by
  cases b with
  | nil => exact .static fun y => rfl
  | cons s rest =>
    have hs := s.check_checks ht hfun fun s' hs' => h s' (List.mem_append_left _ hs')
    have hrest := checkStmts_checks ht hfun rest fun s' hs' => h s' (List.mem_append_right _ hs')
    refine (hs.bind hrest).congr rfl ?_ ?_ <;> simp [allOf]
end

/-! ### Whole programs -/

def ContractDecl.useIds (c : ContractDecl) : List NodeId := c.uses.map Use.id

/-- No designator has the number of an expression. -/
def ContractDecl.Apart (c : ContractDecl) : Prop := ∀ e ∈ c.exprs, e.id ∉ c.useIds

theorem FieldDecl.check_checks {t : Table} (ht : t.Valid) {ds : List NodeId} (f : FieldDecl)
    (h : ∀ e ∈ f.init, e.Apart ds) : Checks t ds f.check () f.parts (f.faults t) := by
  unfold FieldDecl.check FieldDecl.parts FieldDecl.faults
  cases hi : f.init with
  | none => exact .static fun y => rfl
  | some init =>
    refine (checkInit_checks ht f.node.id f.name.text init (h init hi)).congr rfl ?_ ?_ <;> simp

theorem Callable.check_checks {t : Table} (ht : t.Valid) {ds : List NodeId} (f : Callable)
    (h : ∀ s ∈ allOf f.body.stmts, s.Apart ds) :
    Checks t ds f.check () ((allOf f.body.stmts).flatMap Stmt.parts) (f.faults t) := by
  have hview : Checks t ds (view (·.declaredBy? f.node.id)) (t.declaredBy? f.node.id) [] [] :=
    .static fun y => rfl
  have hbody := checkStmts_checks ht (fun id hid => (ht.declared f.node.id id hid).2) f.body.stmts h
  exact hview.bind hbody

theorem ContractDecl.check_checks {t : Table} (ht : t.Valid) (c : ContractDecl) (h : c.Apart) :
    Checks t c.useIds c.check () c.exprs (c.faults t) := by
  have hfields : ∀ f ∈ c.allFields, ∀ e ∈ f.init, e.Apart c.useIds := by
    intro f hf e he
    obtain ⟨hparts, huses⟩ := init_within hf he
    exact ⟨fun u hu => List.mem_map_of_mem (huses hu), fun p hp => h p (hparts hp)⟩
  have hstmts : ∀ s ∈ c.stmts, s.Apart c.useIds := by
    intro s hs
    exact ⟨fun u hu => List.mem_map_of_mem (uses_subset hs hu), fun p hp => h p (parts_subset hs hp)⟩
  have h₁ : Checks t c.useIds (c.fields.forM (·.check)) () (c.fields.flatMap FieldDecl.parts)
      (c.fields.flatMap (·.faults t)) :=
    Checks.forM fun f hf => f.check_checks ht (hfields f (List.mem_append_left _ hf))
  have h₂ : Checks t c.useIds (c.structs.forM fun s => s.fields.forM (·.check)) ()
      (c.structs.flatMap fun s => s.fields.flatMap FieldDecl.parts)
      (c.structs.flatMap fun s => s.fields.flatMap (·.faults t)) := by
    refine Checks.forM fun s hs => Checks.forM fun f hf => f.check_checks ht (hfields f ?_)
    exact List.mem_append_right _ (List.mem_flatMap.2 ⟨s, hs, hf⟩)
  have h₃ : Checks t c.useIds (c.callables.forM (·.check)) ()
      (c.callables.flatMap fun f => (allOf f.body.stmts).flatMap Stmt.parts)
      (c.callables.flatMap (·.faults t)) :=
    Checks.forM fun f hf => f.check_checks ht fun s hs =>
      hstmts s (mem_stmts hf hs)
  refine (h₁.bind (h₂.bind h₃)).congr rfl ?_ ?_ <;>
    simp [ContractDecl.exprs, ContractDecl.faults, ContractDecl.allFields, ContractDecl.stmts,
      List.flatMap_assoc]

/-- The nodes at which checking notes a type are the expressions that have one. -/
theorem ContractDecl.check_run {t : Table} (ht : t.Valid) (c : ContractDecl) (h : c.Apart) :
    c.check.run t =
      .ok ⟨(), t.annotated t.bindings (t.types.insertAll (t.typings c.exprs)), c.faults t⟩ :=
  (c.check_checks ht h).run t.types fun _ _ => rfl

end ContractLang
