import Mathlib.Data.List.Forall2
import ContractLang.Proofs.Bound
import ContractLang.Proofs.Checking
/-!
The types of the language as rules. The rules say which type an expression has and when a statement
is well typed, given what the designators stand for; they do not say how this is found out. Nothing
is reported of an expression and of what lies inside it exactly if the rules give it a type, and
that is the type that checking notes.
-/
namespace ContractLang

mutual
inductive Expr.HasType (t : Table) : Expr → SymbolId → Prop
  | int {node : Node} {value : Int} : Expr.HasType t (.literal node (.int value)) .int
  | bool {node : Node} {value : Bool} : Expr.HasType t (.literal node (.bool value)) .bool
  | char {node : Node} {value : Char} : Expr.HasType t (.literal node (.char value)) .char
  | string {node : Node} {value : String} : Expr.HasType t (.literal node (.string value)) .string
  | load {node : Node} {source : Designator} {type : SymbolId} (h : Designator.HasType t source type) :
    Expr.HasType t (.load node source) type
  /-- The arguments of a function that returns nothing may be any. -/
  | callVoid {node : Node} {callee : Designator} {args : List Expr} {id : SymbolId}
      {info : FunctionRecord} {types : List SymbolId} (hbound : t.boundTo? callee.id = some id)
      (hinfo : t.function? id = .ok (some info)) (hreturns : info.returns = [])
      (hargs : List.Forall₂ (Expr.HasType t) args types) :
    Expr.HasType t (.call node callee args) .void
  /-- Otherwise there is one argument for each parameter, with its type. -/
  | call {node : Node} {callee : Designator} {args : List Expr} {id : SymbolId}
      {info : FunctionRecord} {first : SymbolId} {rest types : List SymbolId}
      (hbound : t.boundTo? callee.id = some id) (hinfo : t.function? id = .ok (some info))
      (hreturns : info.returns = first :: rest) (hargs : List.Forall₂ (Expr.HasType t) args types)
      (hparams : List.Forall₂ (fun p type => t.valueType? p = .ok (some type)) info.params types) :
    Expr.HasType t (.call node callee args) first
  | arithmetic {node : Node} {op : BinaryOp} {left right : Expr}
      (hop : op ∈ [.add, .sub, .mul, .div, .mod, .pow]) (hleft : Expr.HasType t left .int)
      (hright : Expr.HasType t right .int) : Expr.HasType t (.binary node op left right) .int
  | logical {node : Node} {op : BinaryOp} {left right : Expr} (hop : op ∈ [.and, .or])
      (hleft : Expr.HasType t left .bool) (hright : Expr.HasType t right .bool) :
    Expr.HasType t (.binary node op left right) .bool
  | equality {node : Node} {op : BinaryOp} {left right : Expr} {type : SymbolId}
      (hop : op ∈ [.eq, .ne]) (hleft : Expr.HasType t left type)
      (hright : Expr.HasType t right type) : Expr.HasType t (.binary node op left right) .bool
  | order {node : Node} {op : BinaryOp} {left right : Expr} {type : SymbolId}
      (hop : op ∈ [.lt, .le, .gt, .ge]) (htype : type ∈ [.int, .char])
      (hleft : Expr.HasType t left type) (hright : Expr.HasType t right type) :
    Expr.HasType t (.binary node op left right) .bool
  | sign {node : Node} {op : UnaryOp} {operand : Expr} (hop : op ∈ [.plus, .neg])
      (h : Expr.HasType t operand .int) : Expr.HasType t (.unary node op operand) .int
  | not {node : Node} {operand : Expr} (h : Expr.HasType t operand .bool) :
    Expr.HasType t (.unary node .not operand) .bool

inductive Designator.HasType (t : Table) : Designator → SymbolId → Prop
  | name {node : Node} {x : String} {id type : SymbolId} (hbound : t.boundTo? node.id = some id)
      (htype : t.valueType? id = .ok (some type)) : Designator.HasType t (.name node x) type
  /-- A position may have any type. -/
  | index {node : Node} {base : Designator} {position : Expr} {array element type : SymbolId}
      (hbase : Designator.HasType t base array) (helement : t.element? array = .ok (some element))
      (hposition : Expr.HasType t position type) :
    Designator.HasType t (.index node base position) element
  | length {node : Node} {base : Designator} {m : Ident} {array element : SymbolId}
      (hbase : Designator.HasType t base array) (helement : t.element? array = .ok (some element))
      (hname : m.text = "length") : Designator.HasType t (.member node base m) .int
end

/-- The node declares a value of this type. -/
def Table.DeclaresValue (t : Table) (node : NodeId) (type : SymbolId) : Prop :=
  ∃ id, t.declaredBy? node = some id ∧ t.valueType? id = .ok (some type)

/-- A source of several values is a call of a function that returns them. -/
inductive Expr.Yields (t : Table) : Expr → List SymbolId → Prop
  | call {node : Node} {callee : Designator} {args : List Expr} {id type : SymbolId}
      {info : FunctionRecord} (hbound : t.boundTo? callee.id = some id)
      (hinfo : t.function? id = .ok (some info))
      (htype : (Expr.call node callee args).HasType t type) :
    Expr.Yields t (.call node callee args) info.returns

/-- The statement is well typed in a function that returns these types. -/
inductive Stmt.WellTyped (t : Table) (returns : List SymbolId) : Stmt → Prop
  | declare {node : Node} {vars : List VarDecl} : WellTyped t returns (.declare node vars none)
  | declareOne {node : Node} {v : VarDecl} {init : Expr} {type : SymbolId}
      (hvar : t.DeclaresValue v.node.id type) (hinit : init.HasType t type) :
    WellTyped t returns (.declare node [v] (some init))
  | declareAll {node : Node} {vars : List VarDecl} {source : Expr} {types : List SymbolId}
      (hmany : vars.length ≠ 1)
      (hvars : List.Forall₂ (fun v type => t.DeclaresValue v.node.id type) vars types)
      (hsource : source.Yields t types) : WellTyped t returns (.declare node vars (some source))
  | assign {node : Node} {target : Designator} {value : Expr} {type : SymbolId}
      (htarget : target.HasType t type) (hvalue : value.HasType t type) :
    WellTyped t returns (.assign node target value)
  | assignAll {node : Node} {targets : List Designator} {source : Expr} {types : List SymbolId}
      (htargets : List.Forall₂ (Designator.HasType t) targets types)
      (hsource : source.Yields t types) : WellTyped t returns (.assignAll node targets source)
  | branch {node : Node} {condition : Expr} {onTrue : Block} {onFalse : Option Block}
      (hcondition : condition.HasType t .bool) (htrue : ∀ s ∈ onTrue.stmts, WellTyped t returns s)
      (hfalse : ∀ b ∈ onFalse, ∀ s ∈ b.stmts, WellTyped t returns s) :
    WellTyped t returns (.branch node condition onTrue onFalse)
  | giveBack {node : Node} {values : List Expr}
      (hvalues : List.Forall₂ (Expr.HasType t) values returns) :
    WellTyped t returns (.giveBack node values)

/-- Initial values have the declared types, and the statements of a callable are well typed for what
its symbol says it returns. -/
structure ContractDecl.WellTyped (c : ContractDecl) (t : Table) : Prop where
  fields : ∀ f ∈ c.allFields, ∀ init ∈ f.init, ∃ type, t.DeclaresValue f.node.id type ∧
    init.HasType t type
  bodies : ∀ f ∈ c.callables, ∃ id info, t.declaredBy? f.node.id = some id ∧
    t.function? id = .ok (some info) ∧ ∀ s ∈ f.body.stmts, s.WellTyped t info.returns

def Program.WellTyped (p : Program) (t : Table) : Prop := ∀ c ∈ p.contract, c.WellTyped t

namespace Table
variable {t : Table}

theorem map_kindOf_eq_some {α : Type} {f : SymbolKind → Option α} {id : SymbolId} {a : α} :
    (t.kindOf id).map f = .ok (some a) ↔ (t.kind? id).bind f = some a := by
  constructor
  · intro h
    cases hk : t.kindOf id with
    | error e =>
      rw [hk] at h
      cases h
    | ok k =>
      rw [hk] at h
      rw [kindOf_eq_ok.1 hk]
      exact Except.ok.inj h
  · intro h
    obtain ⟨k, hk, ha⟩ := Option.bind_eq_some_iff.1 h
    rw [kindOf_eq_ok.2 hk]
    exact congrArg Except.ok ha

theorem valueType?_eq_some {id type : SymbolId} :
    t.valueType? id = .ok (some type) ↔ t.valueType id = some type := map_kindOf_eq_some

theorem element?_eq_some {id type : SymbolId} :
    t.element? id = .ok (some type) ↔ t.elementType id = some type := map_kindOf_eq_some

theorem function?_eq_some {id : SymbolId} {info : FunctionRecord} :
    t.function? id = .ok (some info) ↔ t.functionAt id = some info := map_kindOf_eq_some

theorem declaresValue_iff {node : NodeId} {type : SymbolId} :
    t.DeclaresValue node type ↔ t.declaredType node = some type := by
  simp only [DeclaresValue, valueType?_eq_some, declaredType, Option.bind_eq_some_iff]

/-! ### Lists of types -/

theorem mismatch_eq_nil {expected found : Option SymbolId} (he : expected.isSome)
    (hf : found.isSome) (cause : String → String → Cause) (span : Span) :
    t.mismatch expected found cause span = [] ↔ expected = found := by
  obtain ⟨e, rfl⟩ := Option.isSome_iff_exists.1 he
  obtain ⟨f, rfl⟩ := Option.isSome_iff_exists.1 hf
  by_cases h : e = f <;> simp [mismatch, h]

/-- Nothing is reported of two lists of types that are compared place by place if they are one. -/
theorem fit_eq_nil {es : List (Option SymbolId)} {fs : List (Option SymbolId × Span)}
    (hes : ∀ e ∈ es, e.isSome) (hfs : ∀ f ∈ fs, f.1.isSome)
    (cause : Nat → String → String → Cause) (position : Nat) (d : Diagnostic) :
    (if es.length = fs.length then
      t.mismatches cause position (es.zipWith (fun e f => ⟨e, f.1, f.2⟩) fs) else [d]) = [] ↔
      es = fs.map Prod.fst := by
  induction es generalizing position fs with
  | nil => cases fs <;> simp [mismatches]
  | cons e es ih =>
    cases fs with
    | nil => simp
    | cons f fs =>
      have hrest := ih (fun z hz => hes z (List.mem_cons_of_mem _ hz))
        (fun z hz => hfs z (List.mem_cons_of_mem _ hz)) (position + 1)
      have hfirst := mismatch_eq_nil (t := t) (hes e (List.mem_cons_self ..))
        (hfs f (List.mem_cons_self ..)) (cause position) f.2
      simp only [List.length_cons, Nat.add_right_cancel_iff, List.zipWith_cons_cons, mismatches,
        List.map_cons, List.cons.injEq, ← hrest, ← hfirst]
      by_cases hlen : es.length = fs.length <;> simp [hlen]

end Table

theorem forall₂_eq_some {α β : Type} {f : α → Option β} {xs : List α} {ys : List β} :
    List.Forall₂ (fun x y => f x = some y) xs ys ↔ xs.map f = ys.map some := by
  rw [← List.forall₂_eq_eq_eq, List.forall₂_map_left_iff, List.forall₂_map_right_iff]

theorem exists_map_eq {α β : Type} {f : α → Option β} {xs : List α}
    (h : ∀ x ∈ xs, ∃ y, f x = some y) : ∃ ys : List β, xs.map f = ys.map some := by
  induction xs with
  | nil => exact ⟨[], rfl⟩
  | cons x xs ih =>
    obtain ⟨y, hy⟩ := h x (List.mem_cons_self ..)
    obtain ⟨ys, hys⟩ := ih fun z hz => h z (List.mem_cons_of_mem _ hz)
    exact ⟨y :: ys, by rw [List.map_cons, hy, hys]; rfl⟩

theorem isSome_of_map_eq {α β : Type} {f : α → Option β} {xs : List α} {ys : List β}
    (h : xs.map f = ys.map some) : ∀ x ∈ xs, (f x).isSome := by
  intro x hx
  have hmem : f x ∈ ys.map some := h ▸ List.mem_map_of_mem hx
  obtain ⟨y, -, hy⟩ := List.mem_map.1 hmem
  rw [← hy]
  rfl

/-! ### The rules read backwards -/

theorem BinaryOp.accepts_iff {op : BinaryOp} {l r : SymbolId} :
    op.accepts l r = true ↔
      (op ∈ [.add, .sub, .mul, .div, .mod, .pow] ∧ l = .int ∧ r = .int) ∨
      (op ∈ [.and, .or] ∧ l = .bool ∧ r = .bool) ∨ (op ∈ [.eq, .ne] ∧ l = r) ∨
      (op ∈ [.lt, .le, .gt, .ge] ∧ l ∈ [SymbolId.int, .char] ∧ l = r) := by
  cases op <;> simp [accepts, isArithmetic, isLogical, isRelational, and_comm]

namespace Expr
variable {t : Table} {node : Node} {type : SymbolId}

theorem hasType_literal {value : Literal} :
    (literal node value).HasType t type ↔ type = value.type := by
  constructor
  · intro h
    cases h <;> rfl
  · rintro rfl
    cases value
    · exact .int
    · exact .bool
    · exact .char
    · exact .string

theorem hasType_load {source : Designator} :
    (load node source).HasType t type ↔ source.HasType t type :=
  ⟨fun h => by cases h; assumption, .load⟩

theorem hasType_binary {op : BinaryOp} {left right : Expr} :
    (binary node op left right).HasType t type ↔ type = op.resultType ∧
      ∃ l r, left.HasType t l ∧ right.HasType t r ∧ op.accepts l r = true := by
  have hint : ∀ op ∈ [BinaryOp.add, .sub, .mul, .div, .mod, .pow], op.resultType = .int := by decide
  have hlogical : ∀ op ∈ [BinaryOp.and, .or], op.resultType = .bool := by decide
  have hequality : ∀ op ∈ [BinaryOp.eq, .ne], op.resultType = .bool := by decide
  have horder : ∀ op ∈ [BinaryOp.lt, .le, .gt, .ge], op.resultType = .bool := by decide
  constructor
  · intro h
    cases h with
    | arithmetic hop hleft hright =>
      exact ⟨(hint op hop).symm, _, _, hleft, hright, BinaryOp.accepts_iff.2 (.inl ⟨hop, rfl, rfl⟩)⟩
    | logical hop hleft hright =>
      exact ⟨(hlogical op hop).symm, _, _, hleft, hright,
        BinaryOp.accepts_iff.2 (.inr (.inl ⟨hop, rfl, rfl⟩))⟩
    | equality hop hleft hright =>
      exact ⟨(hequality op hop).symm, _, _, hleft, hright,
        BinaryOp.accepts_iff.2 (.inr (.inr (.inl ⟨hop, rfl⟩)))⟩
    | order hop htype hleft hright =>
      exact ⟨(horder op hop).symm, _, _, hleft, hright,
        BinaryOp.accepts_iff.2 (.inr (.inr (.inr ⟨hop, htype, rfl⟩)))⟩
  · rintro ⟨rfl, l, r, hleft, hright, haccepts⟩
    rcases BinaryOp.accepts_iff.1 haccepts with
      ⟨hop, rfl, rfl⟩ | ⟨hop, rfl, rfl⟩ | ⟨hop, rfl⟩ | ⟨hop, htype, rfl⟩
    · rw [hint op hop]
      exact .arithmetic hop hleft hright
    · rw [hlogical op hop]
      exact .logical hop hleft hright
    · rw [hequality op hop]
      exact .equality hop hleft hright
    · rw [horder op hop]
      exact .order hop htype hleft hright

theorem hasType_unary {op : UnaryOp} {operand : Expr} :
    (unary node op operand).HasType t type ↔
      type = op.operandType ∧ operand.HasType t op.operandType := by
  have hint : ∀ op ∈ [UnaryOp.plus, .neg], op.operandType = .int := by decide
  constructor
  · intro h
    cases h with
    | sign hop h =>
      rw [hint op hop]
      exact ⟨rfl, h⟩
    | not h => exact ⟨rfl, h⟩
  · rintro ⟨rfl, h⟩
    cases op with
    | plus => exact .sign (by decide) h
    | neg => exact .sign (by decide) h
    | not => exact .not h

theorem hasType_call {callee : Designator} {args : List Expr} :
    (call node callee args).HasType t type ↔ ∃ id info types, t.boundTo? callee.id = some id ∧
      t.functionAt id = some info ∧ List.Forall₂ (HasType t) args types ∧
      (info.returns ≠ [] → info.params.map t.valueType = types.map some) ∧
      type = info.returns.head?.getD .void := by
  constructor
  · intro h
    cases h with
    | callVoid hbound hinfo hreturns hargs =>
      refine ⟨_, _, _, hbound, Table.function?_eq_some.1 hinfo, hargs, fun h => absurd hreturns h, ?_⟩
      rw [hreturns]
      rfl
    | call hbound hinfo hreturns hargs hparams =>
      simp only [Table.valueType?_eq_some, forall₂_eq_some] at hparams
      refine ⟨_, _, _, hbound, Table.function?_eq_some.1 hinfo, hargs, fun _ => hparams, ?_⟩
      rw [hreturns]
      rfl
  · rintro ⟨id, info, types, hbound, hinfo, hargs, hparams, rfl⟩
    cases hreturns : info.returns with
    | nil => exact .callVoid hbound (Table.function?_eq_some.2 hinfo) hreturns hargs
    | cons first rest =>
      refine .call hbound (Table.function?_eq_some.2 hinfo) hreturns hargs ?_
      simp only [Table.valueType?_eq_some, forall₂_eq_some]
      exact hparams (by rw [hreturns]; exact List.cons_ne_nil _ _)

end Expr

/-! ### Checking and the rules -/

/-- Nothing is reported of the expressions. -/
def Table.Quiet (t : Table) (es : List Expr) : Prop := ∀ e ∈ es, e.fault t = []

theorem Table.quiet_append {t : Table} {es fs : List Expr} :
    t.Quiet (es ++ fs) ↔ t.Quiet es ∧ t.Quiet fs := List.forall_mem_append

theorem Table.quiet_singleton {t : Table} {e : Expr} : t.Quiet [e] ↔ e.fault t = [] :=
  List.forall_mem_singleton

theorem Table.operandFault_eq_nil {t : Table} {op : BinaryOp} {l r : SymbolId} {span : Span} :
    t.operandFault op (some l) (some r) span = [] ↔ op.accepts l r = true := by
  by_cases h : op.accepts l r = true <;> simp [operandFault, h]

theorem Table.functionAt_of_valueType {t : Table} {id type : SymbolId}
    (h : t.valueType id = some type) : t.functionAt id = none := by
  obtain ⟨k, hk, htype⟩ := Option.bind_eq_some_iff.1 h
  rw [functionAt, hk]
  cases k with
  | function info => cases htype
  | _ => rfl

namespace Designator
variable {t : Table}

theorem functionAt_eq_none (ht : t.Valid) {d : Designator} (hn : ∀ u ∈ d.uses, u.Noted t)
    {id : SymbolId} (hb : t.boundTo? d.id = some id) : t.functionAt id = none := by
  induction d using Designator.typeFrom.induct with
  | case1 node x =>
    obtain ⟨id', type, hid, htype, -⟩ := hn _ (Designator.mem_uses _)
    cases hid.symm.trans hb
    exact Table.functionAt_of_valueType htype
  | case2 node base position ih =>
    obtain ⟨id', array, type, hbase, -, -, hid, -⟩ := hn _ (Designator.mem_uses _)
    cases hid.symm.trans hb
    -- An element stands for what its array stands for.
    exact ih (fun u hu => hn u (by simp [Designator.uses, hu])) hbase
  | case3 node base m ih =>
    obtain ⟨array, type, -, -, -, hid, -⟩ := hn _ (Designator.mem_uses _)
    cases hid.symm.trans hb
    have hlength : t.valueType .length = some .int := by
      rw [Table.valueType, ht.kind?_builtin (by decide)]
      rfl
    exact Table.functionAt_of_valueType hlength

end Designator

section
variable {t : Table}

theorem exists_callee {node : Node} {callee : Designator} {args : List Expr}
    (hn : ∀ u ∈ (Expr.call node callee args).uses, u.Noted t) :
    ∃ id, t.boundTo? callee.id = some id := by
  cases callee with
  | name n x => exact (hn (.callee n x) (by simp [Expr.uses])).1
  | index n base position =>
    have huse : Use.value (.index n base position) ∈ (Expr.call node (.index n base position) args).uses :=
      List.mem_append_left _ (Designator.mem_uses _)
    exact Designator.Noted.exists_bound (hn _ huse)
  | member n base m =>
    have huse : Use.value (.member n base m) ∈ (Expr.call node (.member n base m) args).uses :=
      List.mem_append_left _ (Designator.mem_uses _)
    exact Designator.Noted.exists_bound (hn _ huse)

/-- A callee that stands for a function is a name. -/
theorem callee_parts (ht : t.Valid) {node : Node} {callee : Designator} {args : List Expr}
    (hn : ∀ u ∈ (Expr.call node callee args).uses, u.Noted t) {id : SymbolId} {info : FunctionRecord}
    (hb : t.boundTo? callee.id = some id) (hf : t.functionAt id = some info) :
    callee.parts = [] := by
  cases callee with
  | name n x => rfl
  | index n base position =>
    have hnone := Designator.functionAt_eq_none ht (fun u hu => hn u (by simp [Expr.uses, hu])) hb
    rw [hf] at hnone
    cases hnone
  | member n base m =>
    have hnone := Designator.functionAt_eq_none ht (fun u hu => hn u (by simp [Expr.uses, hu])) hb
    rw [hf] at hnone
    cases hnone

theorem callFault_eq_nil (hr : t.Ready) {callee : Designator} {args : List Expr} {id : SymbolId}
    {types : List SymbolId} (hb : t.boundTo? callee.id = some id)
    (hargs : args.map (·.typeIn t) = types.map some) (span : Span) :
    t.callFault callee args span = [] ↔ ∃ info, t.functionAt id = some info ∧
      (info.returns ≠ [] → info.params.map t.valueType = types.map some) := by
  simp only [Table.callFault, hb]
  cases hf : t.functionAt id with
  | none => simp
  | some info =>
    -- A parameter without a type would fit every argument.
    have hparams : ∀ e ∈ info.params.map t.valueType, e.isSome := by
      intro e he
      obtain ⟨p, hp, rfl⟩ := List.mem_map.1 he
      obtain ⟨-, -, hkinds, -⟩ := Table.functionAt_valid hr.valid hf
      obtain ⟨type, hk⟩ := hkinds p hp
      exact Option.isSome_iff_exists.2 (hr.values hk rfl)
    have hknown : ∀ a ∈ args.map fun a => (a.typeIn t, a.span), a.1.isSome :=
      List.forall_mem_map.2 (isSome_of_map_eq hargs)
    have hfit := Table.fit_eq_nil (t := t) hparams hknown (.argumentMismatch callee.text) 1
      ⟨.argumentCount callee.text info.params.length args.length, span⟩
    rw [List.length_map, List.length_map, List.map_map] at hfit
    by_cases hreturns : info.returns = []
    · simp [hreturns]
    · simp only [hreturns, if_false, Option.some.injEq, exists_eq_left', ne_eq, not_false_eq_true,
        true_implies, ← hargs]
      exact hfit

mutual
theorem Expr.HasType.sound (hr : t.Ready) {e : Expr} (hn : ∀ u ∈ e.uses, u.Noted t) {type : SymbolId}
    (h : e.HasType t type) : e.typeIn t = some type ∧ t.Quiet e.parts := by
  cases e with
  | literal node value =>
    rw [Expr.hasType_literal.1 h]
    exact ⟨rfl, Table.quiet_singleton.2 rfl⟩
  | load node source =>
    obtain ⟨htype, hquiet⟩ := Designator.HasType.sound hr hn (Expr.hasType_load.1 h)
    exact ⟨htype, Table.quiet_append.2 ⟨hquiet, Table.quiet_singleton.2 rfl⟩⟩
  | call node callee args =>
    obtain ⟨id, info, types, hb, hf, hargs, hparams, rfl⟩ := Expr.hasType_call.1 h
    obtain ⟨htypes, hquiet⟩ := soundAll hr (fun u hu => hn u (Expr.usesOf_subset_call hu)) hargs
    have hcall := (callFault_eq_nil hr hb htypes node.span).2 ⟨info, hf, hparams⟩
    refine ⟨by simp [Expr.typeIn, Table.callResult, hb, hf], ?_⟩
    -- The callee is a name, so that there is nothing inside it.
    rw [Expr.parts, callee_parts hr.valid hn hb hf, List.append_nil]
    exact Table.quiet_append.2 ⟨hquiet, Table.quiet_singleton.2 hcall⟩
  | binary node op left right =>
    obtain ⟨rfl, l, r, hleft, hright, haccepts⟩ := Expr.hasType_binary.1 h
    obtain ⟨hl, hquiet⟩ := Expr.HasType.sound hr (fun u hu => hn u (by simp [Expr.uses, hu])) hleft
    obtain ⟨hr', hquiet'⟩ := Expr.HasType.sound hr (fun u hu => hn u (by simp [Expr.uses, hu])) hright
    refine ⟨rfl, Table.quiet_append.2 ⟨Table.quiet_append.2 ⟨hquiet, hquiet'⟩, ?_⟩⟩
    rw [Table.quiet_singleton, Expr.fault, hl, hr']
    exact Table.operandFault_eq_nil.2 haccepts
  | unary node op operand =>
    obtain ⟨rfl, hoperand⟩ := Expr.hasType_unary.1 h
    obtain ⟨htype, hquiet⟩ := Expr.HasType.sound (e := operand) hr hn hoperand
    refine ⟨rfl, Table.quiet_append.2 ⟨hquiet, Table.quiet_singleton.2 ?_⟩⟩
    rw [Expr.fault, htype]
    exact (Table.mismatch_eq_nil rfl rfl _ _).2 rfl

theorem Designator.HasType.sound (hr : t.Ready) {d : Designator} (hn : ∀ u ∈ d.uses, u.Noted t)
    {type : SymbolId} (h : d.HasType t type) : t.typeAt? d.id = some type ∧ t.Quiet d.parts := by
  cases d with
  | name node x =>
    obtain ⟨id, type', hid, htype, hat⟩ := hn _ (Designator.mem_uses _)
    cases h with
    | name hbound hvalue =>
      cases hid.symm.trans hbound
      cases htype.symm.trans (Table.valueType?_eq_some.1 hvalue)
      exact ⟨hat, List.forall_mem_nil _⟩
  | index node base position =>
    obtain ⟨-, array', element', -, harray', helement', -, hat⟩ := hn _ (Designator.mem_uses _)
    cases h with
    | index hbase helement hposition =>
      obtain ⟨harray, hquiet⟩ :=
        Designator.HasType.sound hr (fun u hu => hn u (by simp [Designator.uses, hu])) hbase
      obtain ⟨-, hquiet'⟩ :=
        Expr.HasType.sound hr (fun u hu => hn u (by simp [Designator.uses, hu])) hposition
      cases harray'.symm.trans harray
      cases helement'.symm.trans (Table.element?_eq_some.1 helement)
      exact ⟨hat, Table.quiet_append.2 ⟨hquiet, hquiet'⟩⟩
  | member node base m =>
    obtain ⟨-, -, -, -, -, -, hat⟩ := hn _ (Designator.mem_uses _)
    cases h with
    | length hbase helement hname =>
      obtain ⟨-, hquiet⟩ :=
        Designator.HasType.sound hr (fun u hu => hn u (by simp [Designator.uses, hu])) hbase
      exact ⟨hat, hquiet⟩

theorem soundAll (hr : t.Ready) {es : List Expr} (hn : ∀ u ∈ usesOf es, u.Noted t)
    {types : List SymbolId} (h : List.Forall₂ (Expr.HasType t) es types) :
    es.map (·.typeIn t) = types.map some ∧ t.Quiet (partsOf es) := by
  cases es with
  | nil =>
    cases h
    exact ⟨rfl, List.forall_mem_nil _⟩
  | cons e rest =>
    cases h with
    | cons he hrest =>
      obtain ⟨htype, hquiet⟩ := Expr.HasType.sound hr (fun u hu => hn u (by simp [usesOf, hu])) he
      obtain ⟨htypes, hquiet'⟩ := soundAll hr (fun u hu => hn u (by simp [usesOf, hu])) hrest
      exact ⟨by rw [List.map_cons, htype, htypes]; rfl, Table.quiet_append.2 ⟨hquiet, hquiet'⟩⟩
end

mutual
theorem Expr.exists_hasType (hr : t.Ready) {e : Expr} (hn : ∀ u ∈ e.uses, u.Noted t)
    (hq : t.Quiet e.parts) : ∃ type, e.HasType t type := by
  cases e with
  | literal node value => exact ⟨value.type, Expr.hasType_literal.2 rfl⟩
  | load node source =>
    obtain ⟨hsource, -⟩ := Table.quiet_append.1 hq
    obtain ⟨type, htype⟩ := Designator.exists_hasType hr hn hsource
    exact ⟨type, .load htype⟩
  | call node callee args =>
    obtain ⟨hq, hcall⟩ := Table.quiet_append.1 hq
    obtain ⟨hargs, -⟩ := Table.quiet_append.1 hq
    have hnargs : ∀ u ∈ usesOf args, u.Noted t := fun u hu => hn u (Expr.usesOf_subset_call hu)
    obtain ⟨types, htypes⟩ := exists_hasTypes hr hnargs hargs
    obtain ⟨id, hb⟩ := exists_callee hn
    obtain ⟨info, hf, hparams⟩ := (callFault_eq_nil hr hb (soundAll hr hnargs htypes).1 node.span).1
      (Table.quiet_singleton.1 hcall)
    exact ⟨_, Expr.hasType_call.2 ⟨id, info, types, hb, hf, htypes, hparams, rfl⟩⟩
  | binary node op left right =>
    obtain ⟨hq, hop⟩ := Table.quiet_append.1 hq
    obtain ⟨hleft, hright⟩ := Table.quiet_append.1 hq
    have hnleft : ∀ u ∈ left.uses, u.Noted t := fun u hu => hn u (by simp [Expr.uses, hu])
    have hnright : ∀ u ∈ right.uses, u.Noted t := fun u hu => hn u (by simp [Expr.uses, hu])
    obtain ⟨l, hl⟩ := Expr.exists_hasType hr hnleft hleft
    obtain ⟨r, hr'⟩ := Expr.exists_hasType hr hnright hright
    rw [Table.quiet_singleton, Expr.fault, (hl.sound hr hnleft).1, (hr'.sound hr hnright).1] at hop
    exact ⟨_, Expr.hasType_binary.2 ⟨rfl, l, r, hl, hr', Table.operandFault_eq_nil.1 hop⟩⟩
  | unary node op operand =>
    obtain ⟨hoperand, hop⟩ := Table.quiet_append.1 hq
    obtain ⟨type, htype⟩ := Expr.exists_hasType (e := operand) hr hn hoperand
    rw [Table.quiet_singleton, Expr.fault, (Expr.HasType.sound (e := operand) hr hn htype).1] at hop
    cases (Table.mismatch_eq_nil rfl rfl _ _).1 hop
    exact ⟨_, Expr.hasType_unary.2 ⟨rfl, htype⟩⟩

theorem Designator.exists_hasType (hr : t.Ready) {d : Designator} (hn : ∀ u ∈ d.uses, u.Noted t)
    (hq : t.Quiet d.parts) : ∃ type, d.HasType t type := by
  have hnoted := hn _ d.mem_uses
  cases d with
  | name node x =>
    obtain ⟨id, type, hid, htype, -⟩ := hnoted
    exact ⟨type, .name hid (Table.valueType?_eq_some.2 htype)⟩
  | index node base position =>
    obtain ⟨-, array', element, -, harray', helement, -⟩ := hnoted
    obtain ⟨hbase, hposition⟩ := Table.quiet_append.1 hq
    have hnbase : ∀ u ∈ base.uses, u.Noted t := fun u hu => hn u (by simp [Designator.uses, hu])
    obtain ⟨array, harray⟩ := Designator.exists_hasType hr hnbase hbase
    obtain ⟨type, htype⟩ := Expr.exists_hasType hr
      (fun u hu => hn u (by simp [Designator.uses, hu])) hposition
    -- The type that the rules give the base is the one that is noted there.
    cases harray'.symm.trans (harray.sound hr hnbase).1
    exact ⟨element, .index harray (Table.element?_eq_some.2 helement) htype⟩
  | member node base m =>
    obtain ⟨array', element, harray', helement, hname, -⟩ := hnoted
    have hnbase : ∀ u ∈ base.uses, u.Noted t := fun u hu => hn u (by simp [Designator.uses, hu])
    obtain ⟨array, harray⟩ := Designator.exists_hasType hr hnbase hq
    cases harray'.symm.trans (harray.sound hr hnbase).1
    exact ⟨.int, .length harray (Table.element?_eq_some.2 helement) hname⟩

theorem exists_hasTypes (hr : t.Ready) {es : List Expr} (hn : ∀ u ∈ usesOf es, u.Noted t)
    (hq : t.Quiet (partsOf es)) : ∃ types, List.Forall₂ (Expr.HasType t) es types := by
  cases es with
  | nil => exact ⟨[], .nil⟩
  | cons e rest =>
    obtain ⟨he, hrest⟩ := Table.quiet_append.1 hq
    obtain ⟨type, htype⟩ := Expr.exists_hasType hr (fun u hu => hn u (by simp [usesOf, hu])) he
    obtain ⟨types, htypes⟩ := exists_hasTypes hr (fun u hu => hn u (by simp [usesOf, hu])) hrest
    exact ⟨type :: types, .cons htype htypes⟩
end

/-- The rules give an expression a type if nothing is reported of it and what lies inside it; and
they give it the type that it is noted with. -/
theorem Expr.hasType_iff (hr : t.Ready) {e : Expr} (hn : ∀ u ∈ e.uses, u.Noted t) {type : SymbolId} :
    e.HasType t type ↔ t.Quiet e.parts ∧ e.typeIn t = some type := by
  constructor
  · intro h
    exact (h.sound hr hn).symm
  · rintro ⟨hq, htype⟩
    obtain ⟨type', h⟩ := Expr.exists_hasType hr hn hq
    cases htype.symm.trans (h.sound hr hn).1
    exact h

theorem Designator.hasType_iff (hr : t.Ready) {d : Designator} (hn : ∀ u ∈ d.uses, u.Noted t)
    {type : SymbolId} : d.HasType t type ↔ t.Quiet d.parts ∧ t.typeAt? d.id = some type := by
  constructor
  · intro h
    exact (h.sound hr hn).symm
  · rintro ⟨hq, htype⟩
    obtain ⟨type', h⟩ := Designator.exists_hasType hr hn hq
    cases htype.symm.trans (h.sound hr hn).1
    exact h

end
end ContractLang
