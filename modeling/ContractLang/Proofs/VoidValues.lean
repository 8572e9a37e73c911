import ContractLang.Proofs.InternalTypes
import ContractLang.Proofs.Totality
/-!
Where a call that returns nothing can stand in a program that is accepted. Such a call has the
void type, which no declaration has, and so most places that want a value refuse it. Three do not:
a comparison of two such calls, an argument of a function that itself returns nothing, and a
position between brackets.
-/
namespace ContractLang

/-- A place where a value is wanted. -/
inductive Place where
  | unaryOperand (op : UnaryOp)
  | binaryOperand (op : BinaryOp) (other : Expr)
  | argument (callee : Designator)
  | position
  | fieldInit
  | localInit
  | assigned
  | condition
  | givenBack

/-- The expression stands at the place, somewhere in the contract. -/
inductive ContractDecl.Stands (c : ContractDecl) : Place → Expr → Prop
  | unary {node : Node} {op : UnaryOp} {e : Expr} (h : .unary node op e ∈ c.exprs) :
    Stands c (.unaryOperand op) e
  | left {node : Node} {op : BinaryOp} {e other : Expr} (h : .binary node op e other ∈ c.exprs) :
    Stands c (.binaryOperand op other) e
  | right {node : Node} {op : BinaryOp} {e other : Expr} (h : .binary node op other e ∈ c.exprs) :
    Stands c (.binaryOperand op other) e
  | argument {node : Node} {callee : Designator} {args : List Expr} {e : Expr}
      (h : .call node callee args ∈ c.exprs) (he : e ∈ args) : Stands c (.argument callee) e
  | position {node : Node} {base : Designator} {e : Expr}
      (h : .value (.index node base e) ∈ c.uses) : Stands c .position e
  | fieldInit {f : FieldDecl} {e : Expr} (h : f ∈ c.allFields) (he : e ∈ f.init) :
    Stands c .fieldInit e
  | localInit {node : Node} {v : VarDecl} {e : Expr} (h : .declare node [v] (some e) ∈ c.stmts) :
    Stands c .localInit e
  | assigned {node : Node} {target : Designator} {e : Expr} (h : .assign node target e ∈ c.stmts) :
    Stands c .assigned e
  | condition {node : Node} {e : Expr} {onTrue : Block} {onFalse : Option Block}
      (h : .branch node e onTrue onFalse ∈ c.stmts) : Stands c .condition e
  | givenBack {node : Node} {values : List Expr} {e : Expr} (h : .giveBack node values ∈ c.stmts)
      (he : e ∈ values) : Stands c .givenBack e

/-- The places that do not refuse a call that returns nothing. -/
def Place.AllowsVoid (t : Table) : Place → Prop
  | binaryOperand op other => op ∈ [.eq, .ne] ∧ t.typeAt? other.id = some .void
  | argument callee => ∃ id info, t.boundTo? callee.id = some id ∧
      t.function? id = .ok (some info) ∧ info.returns = []
  | position => True
  | _ => False

section
variable {t : Table}

theorem Designator.HasType.ne_void (ht : t.Valid) {d : Designator} {type : SymbolId}
    (h : d.HasType t type) : type ≠ .void := by
  cases h with
  | name hbound htype => exact (Table.valueType_proper ht (Table.valueType?_eq_some.1 htype)).2
  | index hbase helement hposition =>
    exact (Table.elementType_denotable ht (Table.element?_eq_some.1 helement)).2.2
  | length => decide

theorem Table.DeclaresValue.ne_void (ht : t.Valid) {node : NodeId} {type : SymbolId}
    (h : t.DeclaresValue node type) : type ≠ .void := by
  obtain ⟨id, -, htype⟩ := h
  exact (valueType_proper ht (valueType?_eq_some.1 htype)).2

theorem BinaryOp.accepts_void {op : BinaryOp} {l r : SymbolId} (h : op.accepts l r = true)
    (hvoid : l = .void ∨ r = .void) : op ∈ [.eq, .ne] ∧ l = .void ∧ r = .void := by
  rcases BinaryOp.accepts_iff.1 h with
    ⟨-, rfl, rfl⟩ | ⟨-, rfl, rfl⟩ | ⟨hop, rfl⟩ | ⟨-, htype, rfl⟩
  · exact absurd hvoid (by decide)
  · exact absurd hvoid (by decide)
  · exact ⟨hop, or_self_iff.1 hvoid, or_self_iff.1 hvoid⟩
  · obtain rfl := or_self_iff.1 hvoid
    exact absurd htype (by decide)

end

namespace ContractDecl.Bound
variable {c : ContractDecl} {t : Table}

theorem stmt_wellTyped (h : c.Bound t) (hq : c.faults t = []) {s : Stmt} (hs : s ∈ c.stmts) :
    ∃ id info, t.functionAt id = some info ∧ s.WellTyped t info.returns := by
  obtain ⟨f, hf, hs⟩ := List.mem_flatMap.1 hs
  obtain ⟨id, info, -, hinfo, hbody⟩ := (h.wellTyped_iff.2 hq).bodies f hf
  exact ⟨id, info, Table.function?_eq_some.1 hinfo, Block.wellTyped_all hbody s hs⟩

theorem exists_hasType (h : c.Bound t) (hq : c.faults t = []) {e : Expr} (he : e ∈ c.exprs) :
    ∃ type, e.HasType t type := by
  obtain ⟨type, -, htype⟩ := h.exists_judged hq he
  exact ⟨type, (htype type).2 rfl⟩

theorem typeAt?_of_hasType (h : c.Bound t) {e : Expr} (he : e ∈ c.exprs) {type : SymbolId}
    (htype : e.HasType t type) : (c.checkedTable t).typeAt? e.id = some type :=
  (h.typeAt?_checked he).trans (htype.sound h.toReady (h.expr_noted he)).1

theorem type_eq (h : c.Bound t) {e : Expr} (he : e ∈ c.exprs) {type other : SymbolId}
    (htype : e.HasType t type) (hnoted : (c.checkedTable t).typeAt? e.id = some other) :
    type = other := Option.some.inj ((h.typeAt?_of_hasType he htype).symm.trans hnoted)

/-- Only two void operands can be joined, and only by comparing them. -/
theorem operands_void (h : c.Bound t) (hq : c.faults t = []) {node : Node} {op : BinaryOp}
    {left right : Expr} (hw : .binary node op left right ∈ c.exprs)
    (hvoid : (c.checkedTable t).typeAt? left.id = some .void ∨
      (c.checkedTable t).typeAt? right.id = some .void) :
    op ∈ [.eq, .ne] ∧ (c.checkedTable t).typeAt? left.id = some .void ∧
      (c.checkedTable t).typeAt? right.id = some .void := by
  have hleft : left ∈ c.exprs := (within_exprs hw).1 (by simp [Expr.parts, left.mem_parts])
  have hright : right ∈ c.exprs := (within_exprs hw).1 (by simp [Expr.parts, right.mem_parts])
  obtain ⟨type, hjudged⟩ := h.exists_hasType hq hw
  obtain ⟨-, l, r, hl, hr, haccepts⟩ := Expr.hasType_binary.1 hjudged
  have hvoids : l = .void ∨ r = .void := hvoid.imp (h.type_eq hleft hl) (h.type_eq hright hr)
  obtain ⟨hop, rfl, rfl⟩ := BinaryOp.accepts_void haccepts hvoids
  exact ⟨hop, h.typeAt?_of_hasType hleft hl, h.typeAt?_of_hasType hright hr⟩

/-- A void argument is given to a function that returns nothing. -/
theorem argument_void (h : c.Bound t) (hq : c.faults t = []) {node : Node} {callee : Designator}
    {args : List Expr} (hw : .call node callee args ∈ c.exprs) {e : Expr} (hmem : e ∈ args)
    (hvoid : (c.checkedTable t).typeAt? e.id = some .void) :
    ∃ id info, t.boundTo? callee.id = some id ∧ t.functionAt id = some info ∧ info.returns = [] := by
  have he : e ∈ c.exprs := (within_exprs hw).1 (by simp [Expr.parts, mem_partsOf hmem])
  obtain ⟨type, hjudged⟩ := h.exists_hasType hq hw
  obtain ⟨id, info, types, hbound, hinfo, hargs, hparams, -⟩ := Expr.hasType_call.1 hjudged
  refine ⟨id, info, hbound, hinfo, ?_⟩
  obtain ⟨type, hmem, htype⟩ := exists_of_forall₂ hargs hmem
  obtain rfl := h.type_eq he htype hvoid
  by_contra hreturns
  -- Otherwise void is the type of a parameter.
  have hparam : some SymbolId.void ∈ info.params.map t.valueType := by
    rw [hparams hreturns]
    exact List.mem_map_of_mem hmem
  obtain ⟨p, -, hp⟩ := List.mem_map.1 hparam
  exact (Table.valueType_proper h.valid hp).2 rfl

theorem allowsVoid (h : c.Bound t) (hq : c.faults t = []) {place : Place} {e : Expr}
    (hs : c.Stands place e) (hvoid : (c.checkedTable t).typeAt? e.id = some .void) :
    place.AllowsVoid (c.checkedTable t) := by
  cases hs with
  | unary hw =>
    have he : e ∈ c.exprs := (within_exprs hw).1 (by simp [Expr.parts, e.mem_parts])
    obtain ⟨type, hjudged⟩ := h.exists_hasType hq hw
    obtain ⟨-, htype⟩ := Expr.hasType_unary.1 hjudged
    exact absurd (h.type_eq he htype hvoid) (UnaryOp.operandType_proper _).2
  | left hw =>
    obtain ⟨hop, -, hother⟩ := h.operands_void hq hw (.inl hvoid)
    exact ⟨hop, hother⟩
  | right hw =>
    obtain ⟨hop, hother, -⟩ := h.operands_void hq hw (.inr hvoid)
    exact ⟨hop, hother⟩
  | argument hw hmem =>
    obtain ⟨id, info, hbound, hinfo, hreturns⟩ := h.argument_void hq hw hmem hvoid
    exact ⟨id, info, hbound, Table.function?_eq_some.2 hinfo, hreturns⟩
  | position hw => trivial
  | fieldInit hf hi =>
    have he : e ∈ c.exprs := (init_within hf hi).1 e.mem_parts
    obtain ⟨type, hdeclared, htype⟩ := (h.wellTyped_iff.2 hq).fields _ hf e hi
    exact absurd (h.type_eq he htype hvoid) (hdeclared.ne_void h.valid)
  | localInit hmem =>
    obtain ⟨-, info, -, hw⟩ := h.stmt_wellTyped hq hmem
    have he := parts_subset hmem e.mem_parts
    cases hw with
    | declareOne hvar hinit => exact absurd (h.type_eq he hinit hvoid) (hvar.ne_void h.valid)
    | declareAll hmany => exact absurd rfl hmany
  | assigned hmem =>
    obtain ⟨-, info, -, hw⟩ := h.stmt_wellTyped hq hmem
    have he := parts_subset hmem (List.mem_append_right _ e.mem_parts)
    cases hw with
    | assign htarget hvalue => exact absurd (h.type_eq he hvalue hvoid) (htarget.ne_void h.valid)
  | condition hmem =>
    obtain ⟨-, info, -, hw⟩ := h.stmt_wellTyped hq hmem
    have he := parts_subset hmem e.mem_parts
    cases hw with
    | branch hcondition => exact absurd (h.type_eq he hcondition hvoid) (by decide)
  | givenBack hmem hvalue =>
    obtain ⟨id, info, hinfo, hw⟩ := h.stmt_wellTyped hq hmem
    have he := parts_subset hmem (mem_partsOf hvalue)
    cases hw with
    | giveBack hvalues =>
      obtain ⟨type, hreturned, htype⟩ := exists_of_forall₂ hvalues hvalue
      obtain ⟨-, hreturns, -⟩ := Table.functionAt_valid h.valid hinfo
      exact absurd (h.type_eq he htype hvoid) (hreturns type hreturned).2.2

end ContractDecl.Bound

/-- In a program that is accepted an expression of the void type is no operand, except where two of
them are compared, no argument, except of a function that returns nothing, and no initial, assigned,
tested or returned value. -/
theorem Program.void_allowed {p : Program} {a : Analysis} (hp : p.Distinct) (h : p.analyze = .ok a)
    (hc : a.isComplete = true) :
    ∃ c, p.contract = some c ∧ ∀ place e, c.Stands place e →
      a.table.typeAt? e.id = some .void → place.AllowsVoid a.table := by
  obtain ⟨c, t, hcontract, hbound, hquiet, htable⟩ := Program.checked_of_complete hp h hc
  rw [htable]
  exact ⟨c, hcontract, fun place e hs hvoid => hbound.allowsVoid hquiet hs hvoid⟩

section
open Build

/-- Calls of `v`, which returns nothing, are compared, given to `v` and put between brackets. -/
def voids : Program := program (some (Id.run (StateT.run' (do
  let b ← field (← namedType "bool") "b" none
  let n ← field (← namedType "int") "n" none
  let xs ← field (← arrayType (← namedType "int")) "xs" none
  let v ← function "v" [] [] []
  let same ← binary .eq (← call (← name "v") [← call (← name "v") []]) (← call (← name "v") [])
  let first ← assign (← name "b") same
  let element ← load (← index (← name "xs") (← call (← name "v") []))
  let second ← assign (← name "n") element
  let f ← function "f" [] [] [first, second]
  return { ← contract "C" with fields := [b, n, xs], functions := [v, f] }) 0)))

end

/-- The analysis is complete, and void expressions stand at all three places. -/
theorem voids_used : voids.Distinct ∧ ∃ a c, voids.analyze = .ok a ∧ a.isComplete = true ∧
    voids.contract = some c ∧
    (∃ op other e, c.Stands (.binaryOperand op other) e ∧ a.table.typeAt? e.id = some .void) ∧
    (∃ callee e, c.Stands (.argument callee) e ∧ a.table.typeAt? e.id = some .void) ∧
    ∃ e, c.Stands .position e ∧ a.table.typeAt? e.id = some .void := by
  have hd : voids.Distinct := by decide +kernel
  have hfacts : (voids.analyze.toOption.any fun a => a.isComplete &&
      [15, 14, 23].all fun n => a.table.typeAt? ⟨n⟩ = some .void) = true := by decide +kernel
  cases ha : voids.analyze with
  | error e =>
    rw [ha] at hfacts
    cases hfacts
  | ok a =>
    rw [ha] at hfacts
    simp only [Except.toOption, Option.any_some, List.all_cons, List.all_nil, Bool.and_true,
      Bool.and_eq_true, decide_eq_true_eq] at hfacts
    obtain ⟨hcomplete, hoperand, hargument, hposition⟩ := hfacts
    exact ⟨hd, a, _, rfl, hcomplete, rfl,
      ⟨_, _, _, .left (List.mem_of_getElem? (i := 3) rfl), hoperand⟩,
      ⟨_, _, .argument (List.mem_of_getElem? (i := 1) rfl) (List.mem_singleton_self _), hargument⟩,
      ⟨_, .position (List.mem_of_getElem? (i := 7) rfl), hposition⟩⟩

theorem voids_allowed : voids.Distinct ∧ ∃ a, voids.analyze = .ok a ∧ a.isComplete = true ∧
    ∃ c, voids.contract = some c ∧ ∀ place e, c.Stands place e →
      a.table.typeAt? e.id = some .void → place.AllowsVoid a.table := by
  have hd : voids.Distinct := by decide +kernel
  have hcomplete : voids.analyze.toOption.any (·.isComplete) = true := by decide +kernel
  cases ha : voids.analyze with
  | error e =>
    rw [ha] at hcomplete
    cases hcomplete
  | ok a =>
    rw [ha] at hcomplete
    exact ⟨hd, a, rfl, hcomplete, Program.void_allowed hd ha hcomplete⟩

end ContractLang
