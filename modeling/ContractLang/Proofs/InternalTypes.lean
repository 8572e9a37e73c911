import ContractLang.Proofs.Resolving
import ContractLang.Proofs.WellTyped
/-!
Two types are internal, that of the constant null and void. No declaration can name them, so no value
has one of them and no other type is made of them. An expression gets the first only by loading the
constant, the second only by calling a function that returns nothing.
-/
namespace ContractLang

open Table

/-- The types that a symbol has been given, and those that a type is made of. -/
def SymbolKind.typeRefs : SymbolKind → List SymbolId
  | array element => [element]
  | map key value => [key, value]
  | field type | parameter type | localVar type _ => type.toList
  | function info => info.returns
  | _ => []

/-- A load of a plain name that stands for the constant. -/
def Expr.LoadsNull (t : Table) : Expr → Prop
  | load _ (.name node _) => ∃ id, ("null", id) ∈ constants ∧ t.boundTo? node.id = some id
  | _ => False

def Expr.CallsVoid (t : Table) : Expr → Prop
  | call _ callee _ => ∃ id info, t.boundTo? callee.id = some id ∧
      t.function? id = .ok (some info) ∧ info.returns = []
  | _ => False

/-! ### Symbols -/

theorem index_constant {k : String × SymbolId} (h : k ∈ constants) : k.2.index < 10 := by
  have hall : ∀ k ∈ constants, k.2.index < 10 := by decide
  exact hall k h

namespace Table
variable {t : Table}

theorem Valid.denotable_of_refs (h : t.Valid) {id : SymbolId} {k : SymbolKind} (hk : t.kind? id = some k)
    {type : SymbolId} (hm : type ∈ k.typeRefs) : t.Denotable type := by
  have hvalid := h.kind hk
  cases k with
  | array element =>
    rw [List.mem_singleton.1 hm]
    exact hvalid
  | map key value =>
    rcases List.mem_cons.1 hm with rfl | hm
    · exact hvalid.1
    · rw [List.mem_singleton.1 hm]
      exact hvalid.2
  | field found => exact hvalid type (Option.mem_toList.1 hm)
  | parameter found => exact hvalid type (Option.mem_toList.1 hm)
  | localVar found visible => exact hvalid type (Option.mem_toList.1 hm)
  | function info => exact hvalid.2.1 type hm
  | _ => cases hm

/-- Of all values only a constant can have the type of null. -/
theorem kind?_of_null (h : t.Valid) {id : SymbolId} (hn : t.valueType id = some .null) :
    t.kind? id = some (.constant .null) := by
  obtain ⟨k, hk, hv⟩ := Option.bind_eq_some_iff.1 hn
  cases k with
  | constant type =>
    cases hv
    exact hk
  | field found => exact absurd rfl (h.denotable_of_refs hk (Option.mem_toList.2 hv)).2.1
  | parameter found => exact absurd rfl (h.denotable_of_refs hk (Option.mem_toList.2 hv)).2.1
  | localVar found visible => exact absurd rfl (h.denotable_of_refs hk (Option.mem_toList.2 hv)).2.1
  | _ => cases hv

end Table

namespace ContractDecl

theorem untyped_of_mem_decls {c : ContractDecl} {d : Decl} (h : d ∈ c.decls) :
    d.symbol.kind.valueType? = none := by
  simp only [decls, structDecls, callableDecls, StructDecl.decls, Callable.decls, List.mem_cons,
    List.mem_append, List.mem_map, List.mem_flatMap] at h
  rcases h with rfl | (⟨f, -, rfl⟩ | ⟨p, -, rfl | ⟨f, -, rfl⟩⟩) |
    ⟨p, -, rfl | ⟨v, -, rfl⟩ | ⟨v, -, rfl⟩⟩ <;> rfl

/-- A program declares no constants, and of those built in one is null. -/
theorem Founded.valueType_null_iff {c : ContractDecl} {t : Table} (h : c.Founded t) {id : SymbolId} :
    t.valueType id = some .null ↔ ("null", id) ∈ constants := by
  by_cases hid : id.index < 10
  · have hall : ∀ i < 10, initial.valueType ⟨i⟩ = some .null ↔ ("null", ⟨i⟩) ∈ constants := by decide
    have hold : t.valueType id = initial.valueType id := by
      rw [valueType, valueType, h.valid.kind?_builtin hid]
    rw [hold]
    exact hall id.index hid
  · refine iff_of_false (fun hn => ?_) fun hmem => ?_
    · have hsort : t.sort? id = some (.constant .null) := by
        rw [sort?, kind?_of_null h.valid hn]
        rfl
      obtain ⟨d, hd, hkind⟩ := h.exists_decl (Nat.not_lt.1 hid) hsort not_false
      obtain ⟨i, hi, -⟩ := mem_numbered.1 hd
      have hnone := untyped_of_mem_decls (List.mem_of_getElem? hi)
      rw [hkind] at hnone
      cases hnone
    · exact hid (index_constant hmem)

theorem Settled.typed {c : ContractDecl} {t : Table} (h : c.Settled t) {a : NodeId × TypeName}
    (ha : a ∈ c.annotations) : t.Typed a.1 := by
  rcases List.mem_append.1 ha with ha | ha
  · obtain ⟨f, hf, rfl⟩ := List.mem_map.1 ha
    exact h.1 f hf
  · obtain ⟨f, hf, ha⟩ := List.mem_flatMap.1 ha
    obtain ⟨v, hv, rfl⟩ := List.mem_map.1 ha
    exact h.2 f hf v hv

end ContractDecl

/-! ### Expressions -/

theorem Literal.type_proper (value : Literal) : value.type ≠ .null ∧ value.type ≠ .void := by
  cases value <;> exact ⟨nofun, nofun⟩

theorem BinaryOp.resultType_proper (op : BinaryOp) :
    op.resultType ≠ .null ∧ op.resultType ≠ .void := by
  cases op <;> decide

theorem UnaryOp.operandType_proper (op : UnaryOp) :
    op.operandType ≠ .null ∧ op.operandType ≠ .void := by
  cases op <;> decide

section
variable {t : Table}

theorem Designator.Noted.type_ne_void (ht : t.Valid) {d : Designator} (h : d.Noted t) :
    t.typeAt? d.id ≠ some .void := by
  intro hvoid
  cases d with
  | name node x =>
    obtain ⟨id, type, -, hvalue, htype⟩ := h
    cases htype.symm.trans hvoid
    exact (valueType_proper ht hvalue).2 rfl
  | index node base position =>
    obtain ⟨-, array, type, -, -, helement, -, htype⟩ := h
    cases htype.symm.trans hvoid
    exact (elementType_denotable ht helement).2.2 rfl
  | member node base m =>
    obtain ⟨-, -, -, -, -, -, htype⟩ := h
    cases htype.symm.trans hvoid

theorem Designator.Noted.type_null_iff (ht : t.Valid)
    (hnull : ∀ {id}, t.valueType id = some .null ↔ ("null", id) ∈ constants) {d : Designator}
    (h : d.Noted t) (node : Node) : t.typeAt? d.id = some .null ↔ (Expr.load node d).LoadsNull t := by
  cases d with
  | name n x =>
    obtain ⟨id, type, hid, hvalue, htype⟩ := h
    have hat : t.typeAt? (Designator.name n x).id = t.valueType id := htype.trans hvalue.symm
    rw [hat, hnull]
    constructor
    · exact fun hmem => ⟨id, hmem, hid⟩
    · rintro ⟨id', hmem, hid'⟩
      cases hid.symm.trans hid'
      exact hmem
  | index n base position =>
    obtain ⟨-, array, type, -, -, helement, -, htype⟩ := h
    refine iff_of_false (fun hn => ?_) not_false
    cases htype.symm.trans hn
    exact (elementType_denotable ht helement).2.1 rfl
  | member n base m =>
    obtain ⟨-, -, -, -, -, -, htype⟩ := h
    refine iff_of_false (fun hn => ?_) not_false
    cases htype.symm.trans hn

/-- A call has a type that can be written down, unless the function returns nothing. -/
theorem Table.callResult_cases (ht : t.Valid) {callee : Designator} {type : SymbolId}
    (h : t.callResult callee = some type) : t.Denotable type ∨
      type = .void ∧ ∃ id info, t.boundTo? callee.id = some id ∧
        t.function? id = .ok (some info) ∧ info.returns = [] := by
  obtain ⟨info, hinfo, rfl⟩ := Option.map_eq_some_iff.1 h
  obtain ⟨id, hid, hfun⟩ := Option.bind_eq_some_iff.1 hinfo
  cases hreturns : info.returns with
  | nil => exact .inr ⟨rfl, id, info, hid, function?_eq_some.2 hfun, hreturns⟩
  | cons first rest =>
    obtain ⟨-, hdenotable, -⟩ := functionAt_valid ht hfun
    exact .inl (hdenotable first (hreturns ▸ List.mem_cons_self ..))

theorem Expr.typeIn_null_iff (ht : t.Valid)
    (hnull : ∀ {id}, t.valueType id = some .null ↔ ("null", id) ∈ constants) {e : Expr}
    (hn : ∀ u ∈ e.uses, u.Noted t) : e.typeIn t = some .null ↔ e.LoadsNull t := by
  cases e with
  | literal node value => exact iff_of_false (fun h => value.type_proper.1 (Option.some.inj h)) not_false
  | load node source =>
    exact Designator.Noted.type_null_iff ht hnull (hn (.value source) source.mem_uses) node
  | call node callee args =>
    refine iff_of_false (fun h => ?_) not_false
    rcases callResult_cases ht h with hdenotable | ⟨hvoid, -⟩
    · exact hdenotable.2.1 rfl
    · cases hvoid
  | binary node op left right =>
    exact iff_of_false (fun h => op.resultType_proper.1 (Option.some.inj h)) not_false
  | unary node op operand =>
    exact iff_of_false (fun h => op.operandType_proper.1 (Option.some.inj h)) not_false

theorem Expr.typeIn_void_iff (ht : t.Valid) {e : Expr} (hn : ∀ u ∈ e.uses, u.Noted t) :
    e.typeIn t = some .void ↔ e.CallsVoid t := by
  cases e with
  | literal node value => exact iff_of_false (fun h => value.type_proper.2 (Option.some.inj h)) not_false
  | load node source =>
    have hnoted : source.Noted t := hn (.value source) source.mem_uses
    exact iff_of_false (hnoted.type_ne_void ht) not_false
  | call node callee args =>
    constructor
    · intro h
      rcases callResult_cases ht h with hdenotable | ⟨-, hcalls⟩
      · exact absurd rfl hdenotable.2.2
      · exact hcalls
    · rintro ⟨id, info, hid, hfun, hreturns⟩
      rw [typeIn, callResult, hid, Option.bind_some, function?_eq_some.1 hfun, Option.map_some, hreturns]
      rfl
  | binary node op left right =>
    exact iff_of_false (fun h => op.resultType_proper.2 (Option.some.inj h)) not_false
  | unary node op operand =>
    exact iff_of_false (fun h => op.operandType_proper.2 (Option.some.inj h)) not_false

end

/-- The internal types stay internal. After three quiet phases no symbol has one of them or is made
of one, and every value has a type. Checking gives them to no expression but those that load null or
call a function without results. -/
theorem Program.internal_confined {p : Program} {t : Table} (hp : p.Distinct)
    (h : p.quietTable? [.symbolConstruction, .typeResolution, .designatorResolution] .initial =
      some t) :
    ∃ c u, p.contract = some c ∧ p.check.run t = .ok u ∧ u.table.symbols = t.symbols ∧
      (∀ id k, t.kind? id = some k → ∀ type ∈ k.typeRefs, type ≠ .null ∧ type ≠ .void) ∧
      (∀ a ∈ c.annotations, ∃ type, t.DeclaresValue a.1 type ∧ type ≠ .null ∧ type ≠ .void) ∧
      ∀ e ∈ c.exprs, (u.table.typeAt? e.id = some .null ↔ e.LoadsNull u.table) ∧
        (u.table.typeAt? e.id = some .void ↔ e.CallsVoid u.table) := by
  obtain ⟨c, t₀, hcontract, hprepared, rfl, hc⟩ := Program.prepared_bound hp h
  refine ⟨c, _, hcontract, Program.check_eq hcontract ▸ hc.check_run, rfl,
    fun _ _ hk _ hm => (hc.valid.denotable_of_refs hk hm).2, fun a ha => ?_, fun e he => ?_⟩
  · obtain ⟨id, type, hid, hvalue⟩ := hc.settled.typed ha
    refine ⟨type, ⟨id, hid, valueType?_eq_some.2 hvalue⟩, ?_, (valueType_proper hc.valid hvalue).2⟩
    rintro rfl
    have hlt := index_constant (hprepared.valueType_null_iff.1 hvalue)
    exact Nat.not_lt.2 (hc.valid.declared _ id hid).1 hlt
  · have hnoted := hc.expr_noted he
    rw [hc.typeAt?_checked he]
    exact ⟨Expr.typeIn_null_iff hc.valid hprepared.valueType_null_iff hnoted,
      Expr.typeIn_void_iff hc.valid hnoted⟩

section
open Build

/-- Null is compared and given to a function that returns nothing, whose calls are compared in turn;
between brackets stands a call of a function with two results. -/
def nulls : Program := program (some (Id.run (StateT.run' (do
  let b ← field (← namedType "bool") "b" none
  let xs ← field (← arrayType (← arrayType (← namedType "int"))) "xs" none
  let s ← struct "S" [← field (← mapType (← namedType "S") (← namedType "int")) "m" none]
  let v ← function "v" [] [← varDecl (← namedType "S") "s"] []
  let w ← function "w" [← namedType "int", ← namedType "S"] [] []
  let same ← binary .eq (← load (← name "null")) (← load (← name "null"))
  let first ← assign (← name "b") same
  let calls ← binary .ne (← call (← name "v") [← load (← name "null")]) (← call (← name "v") [])
  let second ← assign (← name "b") calls
  let element ← index (← index (← name "xs") (← call (← name "w") [])) (← load (← name "true"))
  let third ← assign element (← unary .neg (← load (← member (← name "xs") "length")))
  let f ← function "f" [] [] [first, second, third]
  return { ← contract "C" with fields := [b, xs], structs := [s], functions := [v, w, f] }) 0)))

end

theorem nulls_confined : nulls.Distinct ∧ ∃ t,
    nulls.quietTable? [.symbolConstruction, .typeResolution, .designatorResolution] .initial = some t ∧
    ∃ c u, nulls.contract = some c ∧ nulls.check.run t = .ok u ∧ u.table.symbols = t.symbols ∧
      (∀ id k, t.kind? id = some k → ∀ type ∈ k.typeRefs, type ≠ .null ∧ type ≠ .void) ∧
      (∀ a ∈ c.annotations, ∃ type, t.DeclaresValue a.1 type ∧ type ≠ .null ∧ type ≠ .void) ∧
      (∀ e ∈ c.exprs, (u.table.typeAt? e.id = some .null ↔ e.LoadsNull u.table) ∧
        (u.table.typeAt? e.id = some .void ↔ e.CallsVoid u.table)) ∧
      (∃ e ∈ c.exprs, e.LoadsNull u.table) ∧ ∃ e ∈ c.exprs, e.CallsVoid u.table := by
  have hd : nulls.Distinct := by decide +kernel
  have hq : (nulls.quietTable? [.symbolConstruction, .typeResolution, .designatorResolution]
      .initial).isSome = true := by decide +kernel
  obtain ⟨t, ht⟩ := Option.isSome_iff_exists.1 hq
  have hfound : ∀ type ∈ [SymbolId.null, .void], ∀ t ∈ nulls.quietTable?
      [.symbolConstruction, .typeResolution, .designatorResolution] .initial,
      ∀ u ∈ (nulls.check.run t).toOption, ∀ c ∈ nulls.contract,
      ∃ e ∈ c.exprs, u.table.typeAt? e.id = some type := by decide +kernel
  obtain ⟨c, u, hc, hu, hsymbols, hrefs, hvalues, hexprs⟩ := Program.internal_confined hd ht
  have hrun : u ∈ (nulls.check.run t).toOption := by
    rw [hu]
    rfl
  refine ⟨hd, t, ht, c, u, hc, hu, hsymbols, hrefs, hvalues, hexprs, ?_, ?_⟩
  · obtain ⟨e, he, hnull⟩ := hfound .null (by decide) t ht u hrun c hc
    exact ⟨e, he, (hexprs e he).1.1 hnull⟩
  · obtain ⟨e, he, hvoid⟩ := hfound .void (by decide) t ht u hrun c hc
    exact ⟨e, he, (hexprs e he).2.1 hvoid⟩

end ContractLang
