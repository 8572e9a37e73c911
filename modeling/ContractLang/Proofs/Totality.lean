import ContractLang.Proofs.WellTyped
/-!
What checking leaves without a note. Designators keep what binding has noted of them, and every
expression gets a type, the calls of something that is no function apart. Such a call is reported,
and what it stands in has its type all the same.
-/
namespace ContractLang

namespace Cause

def isNotFunction : Cause → Bool
  | notFunction _ => true
  | _ => false

end Cause

/-- The reports that something called is no function. -/
def badCalls (ds : List Diagnostic) : List Diagnostic := ds.filter (·.cause.isNotFunction)

theorem badCalls_append (ds es : List Diagnostic) : badCalls (ds ++ es) = badCalls ds ++ badCalls es :=
  List.filter_append ..

theorem badCalls_flatMap {α : Type} (f : α → List Diagnostic) (xs : List α) :
    badCalls (xs.flatMap f) = xs.flatMap fun x => badCalls (f x) := List.filter_flatMap ..

/-- The expression is a call of something that is no function, and the diagnostic says so. -/
def Expr.Miscalls (t : Table) (e : Expr) (d : Diagnostic) : Prop :=
  ∃ node callee args id, e = .call node callee args ∧ t.boundTo? callee.id = some id ∧
    t.function? id = .ok none ∧ d = ⟨.notFunction callee.text, callee.span⟩

namespace Table
variable {t : Table}

theorem badCalls_mismatch {expected found : Option SymbolId} {cause : String → String → Cause}
    (h : ∀ a b, (cause a b).isNotFunction = false) (span : Span) :
    badCalls (t.mismatch expected found cause span) = [] := by
  unfold mismatch
  split
  · split
    · rfl
    · simp [badCalls, h]
  · rfl

theorem badCalls_mismatches {cause : Nat → String → String → Cause}
    (h : ∀ i a b, (cause i a b).isNotFunction = false) (position : Nat) (slots : List Pass.Slot) :
    badCalls (t.mismatches cause position slots) = [] := by
  induction slots generalizing position with
  | nil => rfl
  | cons s rest ih =>
    rw [mismatches, badCalls_append, badCalls_mismatch (h position), ih]
    rfl

theorem badCalls_initFault (node : NodeId) (name : String) (init : Expr) :
    badCalls (t.initFault node name init) = [] := badCalls_mismatch (fun _ _ => rfl) _

theorem badCalls_targetFault (targets : List (Option SymbolId)) (source : Expr) (span : Span) :
    badCalls (t.targetFault targets source span) = [] := by
  unfold targetFault
  split
  · split
    · rfl
    · split
      · exact badCalls_mismatches (fun _ _ _ => rfl) 1 _
      · rfl
  · rfl

theorem badCalls_returnFault (function : Option SymbolId) (values : List Expr) (span : Span) :
    badCalls (t.returnFault function values span) = [] := by
  unfold returnFault
  split
  · rfl
  · split
    · split <;> rfl
    · split
      · exact badCalls_mismatches (fun _ _ _ => rfl) 1 _
      · rfl

end Table

namespace Stmt

theorem badCalls_fault (t : Table) (function : Option SymbolId) (s : Stmt) :
    badCalls (s.fault t function) = [] := by
  unfold Stmt.fault
  split
  · rfl
  · exact Table.badCalls_initFault ..
  · exact Table.badCalls_targetFault ..
  · exact Table.badCalls_mismatch (fun _ _ => rfl) _
  · exact Table.badCalls_targetFault ..
  · exact Table.badCalls_mismatch (fun _ _ => rfl) _
  · exact Table.badCalls_returnFault ..

end Stmt

theorem ContractDecl.badCalls_faults (t : Table) (c : ContractDecl) :
    badCalls (c.faults t) = c.exprs.flatMap fun e => badCalls (e.fault t) := by
  have hfields : ∀ f ∈ c.allFields, badCalls (f.faults t) =
      f.parts.flatMap fun e => badCalls (e.fault t) := by
    intro f _
    simp only [FieldDecl.faults, FieldDecl.parts, badCalls_flatMap, badCalls_append,
      Table.badCalls_initFault, List.append_nil, List.flatMap_assoc]
  have hbodies : ∀ f ∈ c.callables, badCalls (f.faults t) =
      (allOf f.body.stmts).flatMap fun s => s.parts.flatMap fun e => badCalls (e.fault t) := by
    intro f _
    simp only [Callable.faults, Stmt.faults, badCalls_flatMap, badCalls_append, Stmt.badCalls_fault,
      List.append_nil]
  rw [ContractDecl.faults, badCalls_append, badCalls_flatMap, badCalls_flatMap,
    List.flatMap_congr hfields, List.flatMap_congr hbodies]
  simp only [ContractDecl.exprs, ContractDecl.stmts, List.flatMap_append, List.flatMap_assoc]

namespace Expr
variable {t : Table} {e : Expr}

theorem badCalls_of_miscalls (ht : t.Valid) {d : Diagnostic} (h : e.Miscalls t d) :
    e.typeIn t = none ∧ badCalls (e.fault t) = [d] := by
  obtain ⟨node, callee, args, id, rfl, hbound, hfunction, rfl⟩ := h
  rw [Table.function?_eq (ht.bindings _ _ hbound), Except.ok.injEq] at hfunction
  constructor
  · simp [Expr.typeIn, Table.callResult, hbound, hfunction]
  · simp [Expr.fault, Table.callFault, hbound, hfunction, badCalls, Cause.isNotFunction]

theorem badCalls_of_typed {type : SymbolId} (h : e.typeIn t = some type) :
    badCalls (e.fault t) = [] := by
  cases e with
  | literal node value => rfl
  | load node source => rfl
  | call node callee args =>
    obtain ⟨info, hinfo, -⟩ := Option.map_eq_some_iff.1 h
    obtain ⟨id, hbound, hf⟩ := Option.bind_eq_some_iff.1 hinfo
    simp only [Expr.fault, Table.callFault, hbound, hf]
    split
    · rfl
    · split
      · exact Table.badCalls_mismatches (fun _ _ _ => rfl) 1 _
      · rfl
  | binary node op left right =>
    rw [Expr.fault]
    unfold Table.operandFault
    split
    · split <;> rfl
    · rfl
  | unary node op operand => exact Table.badCalls_mismatch (fun _ _ => rfl) _

/-- An expression with designators that are noted has a type or is a call of something that is no
function. -/
theorem typed_or_miscalls (ht : t.Valid) (hn : ∀ u ∈ e.uses, u.Noted t) :
    (∃ type, e.typeIn t = some type) ∨ ∃ d, e.Miscalls t d := by
  cases e with
  | literal node value => exact .inl ⟨_, rfl⟩
  | load node source =>
    exact .inl (Designator.Noted.exists_typed (hn (.value source) source.mem_uses))
  | call node callee args =>
    obtain ⟨id, hbound⟩ := exists_callee hn
    have hfunction := Table.function?_eq (ht.bindings _ _ hbound)
    cases hf : t.functionAt id with
    | none => exact .inr ⟨_, node, callee, args, id, rfl, hbound, hfunction.trans (by rw [hf]), rfl⟩
    | some info => exact .inl ⟨_, by rw [Expr.typeIn, Table.callResult, hbound, Option.bind_some, hf]; rfl⟩
  | binary node op left right => exact .inl ⟨_, rfl⟩
  | unary node op operand => exact .inl ⟨_, rfl⟩

end Expr

/-- The expressions without a type are reported one by one, in their order. -/
theorem miscalls_reported {t : Table} (ht : t.Valid) {es : List Expr}
    (hn : ∀ e ∈ es, ∀ u ∈ e.uses, u.Noted t) :
    List.Forall₂ (Expr.Miscalls t) (es.filter fun e => (e.typeIn t).isNone)
      (es.flatMap fun e => badCalls (e.fault t)) := by
  induction es with
  | nil => exact .nil
  | cons e rest ih =>
    have hrest := ih fun e' he' => hn e' (List.mem_cons_of_mem _ he')
    rw [List.flatMap_cons]
    rcases Expr.typed_or_miscalls ht (hn e (List.mem_cons_self ..)) with ⟨type, htype⟩ | ⟨d, hd⟩
    · rw [List.filter_cons_of_neg (by simp [htype]), Expr.badCalls_of_typed htype]
      exact hrest
    · obtain ⟨hnone, hreport⟩ := Expr.badCalls_of_miscalls ht hd
      rw [List.filter_cons_of_pos (by simp [hnone]), hreport]
      exact .cons hd hrest

namespace ContractDecl.Bound
variable {c : ContractDecl} {t : Table}

theorem boundTo?_checked (h : c.Bound t) {u : Use} (hu : u ∈ c.uses) :
    ∃ id, (c.checkedTable t).boundTo? u.id = some id := (h.noted u hu).exists_bound

theorem valueType_checked (h : c.Bound t) {d : Designator} (hd : .value d ∈ c.uses) :
    ∃ type, (c.checkedTable t).typeAt? d.id = some type := by
  obtain ⟨type, htype⟩ := Designator.Noted.exists_typed (h.noted _ hd)
  refine ⟨type, (Assoc.get?_insertAll_of_not_mem fun hmem => ?_).trans htype⟩
  obtain ⟨e, he, hid⟩ := Table.mem_typings_keys hmem
  exact expr_not_use h.distinct he (hid ▸ List.mem_map_of_mem hd)

theorem typeAt?_eq_none (h : c.Bound t) {e : Expr} (he : e ∈ c.exprs) :
    (c.checkedTable t).typeAt? e.id = none ↔ ∃ d, e.Miscalls t d := by
  rw [h.typeAt?_checked he]
  constructor
  · intro hnone
    rcases Expr.typed_or_miscalls h.valid (h.expr_noted he) with ⟨type, htype⟩ | hd
    · rw [hnone] at htype
      cases htype
    · exact hd
  · rintro ⟨d, hd⟩
    exact (Expr.badCalls_of_miscalls h.valid hd).1

end ContractDecl.Bound

/-- A complete analysis ends with the table that checking leaves, and checking reports nothing. -/
theorem Program.checked_of_complete {p : Program} {a : Analysis} (hp : p.Distinct)
    (h : p.analyze = .ok a) (hc : a.isComplete = true) :
    ∃ c t, p.contract = some c ∧ c.Bound t ∧ c.faults t = [] ∧ a.table = c.checkedTable t := by
  have hquiet := Program.quietTable?_of_complete h hc
  have hsplit : (.symbolConstruction :: Phase.afterFirst : List Phase) =
      [.symbolConstruction, .typeResolution, .designatorResolution] ++ [.typeChecking] := rfl
  rw [hsplit] at hquiet
  obtain ⟨t, ht, hcheck⟩ := Program.quietTable?_append.1 hquiet
  obtain ⟨c, hcontract, hbound⟩ := Program.bound hp ht
  obtain ⟨s, hrun, hs⟩ := Program.quietTable?_cons.1 hcheck
  change p.check.run t = _ at hrun
  rw [Program.check_eq hcontract, hbound.check_run] at hrun
  cases hs
  simp only [Except.ok.injEq, Outcome.mk.injEq, true_and] at hrun
  exact ⟨c, t, hcontract, hbound, hrun.2, hrun.1.symm⟩

/-- After checking every designator stands for something, every one that is used as a value has a
type, and so has every expression that is no call of something else than a function; each such call is
reported once. A complete analysis leaves nothing out. -/
theorem Program.check_annotates {p : Program} (hp : p.Distinct) :
    (∀ t, p.quietTable? [.symbolConstruction, .typeResolution, .designatorResolution] .initial =
        some t →
      ∃ c u, p.contract = some c ∧ p.check.run t = .ok u ∧
        (∀ w ∈ c.uses, ∃ id, u.table.boundTo? w.id = some id) ∧
        (∀ d, .value d ∈ c.uses → ∃ type, u.table.typeAt? d.id = some type) ∧
        (∀ e ∈ c.exprs, u.table.typeAt? e.id = none ↔ ∃ d, e.Miscalls u.table d) ∧
        List.Forall₂ (Expr.Miscalls u.table)
          (c.exprs.filter fun e => (u.table.typeAt? e.id).isNone) (badCalls u.diagnostics)) ∧
    ∀ a, p.analyze = .ok a → a.isComplete = true → ∃ c, p.contract = some c ∧
      (∀ w ∈ c.uses, ∃ id, a.table.boundTo? w.id = some id) ∧
      (∀ d, .value d ∈ c.uses → ∃ type, a.table.typeAt? d.id = some type) ∧
      ∀ e ∈ c.exprs, ∃ type, a.table.typeAt? e.id = some type := by
  constructor
  · intro t ht
    obtain ⟨c, hcontract, hc⟩ := Program.bound hp ht
    refine ⟨c, _, hcontract, Program.check_eq hcontract ▸ hc.check_run,
      fun w hw => hc.boundTo?_checked hw, fun d hd => hc.valueType_checked hd,
      fun e he => hc.typeAt?_eq_none he, ?_⟩
    -- What the final table says of an expression can be read off the expression.
    have huntyped : (c.exprs.filter fun e => ((c.checkedTable t).typeAt? e.id).isNone) =
        c.exprs.filter fun e => (e.typeIn t).isNone :=
      List.filter_congr fun e he => by rw [hc.typeAt?_checked he]
    rw [huntyped, c.badCalls_faults]
    exact miscalls_reported hc.valid fun e he => hc.expr_noted he
  · intro a ha hcomplete
    obtain ⟨c, t, hcontract, hc, hquiet, htable⟩ := Program.checked_of_complete hp ha hcomplete
    rw [htable]
    refine ⟨c, hcontract, fun w hw => hc.boundTo?_checked hw, fun d hd => hc.valueType_checked hd,
      fun e he => ?_⟩
    obtain ⟨type, htype, -⟩ := hc.exists_judged hquiet he
    exact ⟨type, htype⟩

section
open Build

/-- Fields and an element of an array are called, as an operand, as a position and as a value. -/
def miscalled : Program := program (some (Id.run (StateT.run' (do
  let x ← field (← namedType "int") "x" none
  let xs ← field (← arrayType (← namedType "int")) "xs" none
  let sum ← binary .add (← call (← name "x") []) (← literal (.int 1))
  let first ← assign (← name "x") sum
  let element ← index (← name "xs") (← call (← name "x") [])
  let second ← assign element (← call (← index (← name "xs") (← literal (.int 0))) [])
  let f ← function "f" [] [] [first, second]
  return { ← contract "C" with fields := [x, xs], functions := [f] }) 0)))

end

theorem miscalled_annotated :
    (miscalled.Distinct ∧ ∃ t,
      miscalled.quietTable? [.symbolConstruction, .typeResolution, .designatorResolution] .initial =
        some t ∧
      ∃ c u, miscalled.contract = some c ∧ miscalled.check.run t = .ok u ∧
        (∀ w ∈ c.uses, ∃ id, u.table.boundTo? w.id = some id) ∧
        (∀ d, .value d ∈ c.uses → ∃ type, u.table.typeAt? d.id = some type) ∧
        (∀ e ∈ c.exprs, u.table.typeAt? e.id = none ↔ ∃ d, e.Miscalls u.table d) ∧
        List.Forall₂ (Expr.Miscalls u.table)
          (c.exprs.filter fun e => (u.table.typeAt? e.id).isNone) (badCalls u.diagnostics)) ∧
    ledger.Distinct ∧ ∃ a, ledger.analyze = .ok a ∧ a.isComplete = true ∧
      ∃ c, ledger.contract = some c ∧
        (∀ w ∈ c.uses, ∃ id, a.table.boundTo? w.id = some id) ∧
        (∀ d, .value d ∈ c.uses → ∃ type, a.table.typeAt? d.id = some type) ∧
        ∀ e ∈ c.exprs, ∃ type, a.table.typeAt? e.id = some type := by
  have hd : miscalled.Distinct := by decide +kernel
  have hd' : ledger.Distinct := by decide +kernel
  have hq : (miscalled.quietTable? [.symbolConstruction, .typeResolution, .designatorResolution]
      .initial).isSome = true := by decide +kernel
  have hcomplete : ledger.analyze.toOption.any (·.isComplete) = true := by decide +kernel
  obtain ⟨t, ht⟩ := Option.isSome_iff_exists.1 hq
  cases ha : ledger.analyze with
  | error e =>
    rw [ha] at hcomplete
    cases hcomplete
  | ok a =>
    rw [ha] at hcomplete
    exact ⟨⟨hd, t, ht, (Program.check_annotates hd).1 t ht⟩, hd', a, rfl, hcomplete,
      (Program.check_annotates hd').2 a ha hcomplete⟩

end ContractLang
