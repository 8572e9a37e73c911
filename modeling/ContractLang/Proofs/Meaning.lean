import ContractLang.Typing
import ContractLang.Binding
import ContractLang.Proofs.Scopes
/-!
What names and types mean, apart from any table. A name stands for an entity that is declared or
built in, a written type for a type, and designators and expressions have types of their own; what
is asked of a program is said in these terms alone. `ContractDecl.Accepted` puts it together.
-/
namespace ContractLang

/-- Something built in, or what a node declares. -/
inductive Ref where
  | builtin (id : SymbolId)
  | declared (node : NodeId)
deriving DecidableEq

/-- Types as they are meant: two are the same exactly if they are built alike. -/
inductive Ty where
  | named (ref : Ref)
  | array (element : Ty)
  | map (key value : Ty)
deriving DecidableEq

namespace Ty

def builtin (id : SymbolId) : Ty := .named (.builtin id)

def element? : Ty → Option Ty
  | array element => some element
  | _ => none

end Ty

/-- What a name can stand for, with what other parts of a program may know of it. Of a callable
these are the types that it returns and those of its parameters. -/
inductive Entity where
  | builtin (id : SymbolId)
  | contract (node : NodeId)
  | struct (node : NodeId)
  | callable (node : NodeId) (returns params : List TypeName)
  | field (node : NodeId) (type : TypeName)
  | param (node : NodeId) (type : TypeName)
  | localVar (node : NodeId) (type : TypeName)
deriving DecidableEq

namespace Entity

def ref : Entity → Ref
  | builtin id => .builtin id
  | contract node | struct node | callable node _ _ | field node _ | param node _ | localVar node _ =>
    .declared node

def isValue : Entity → Bool
  | builtin id => (Table.initial.kind? id).any (·.isValue)
  | field .. | param .. | localVar .. => true
  | _ => false

def isLocal : Entity → Bool
  | localVar .. => true
  | _ => false

/-- The entity as a type. -/
def type? : Entity → Option Ty
  | builtin id => if (Table.initial.kind? id).any (·.isType) then some (.builtin id) else none
  | contract node | struct node => some (.named (.declared node))
  | _ => none

end Entity

/-! ### Environments -/

/-- What a name may stand for, the first declaration first. -/
abbrev Env := String → List Entity

/-- The entities of one name. -/
def namedIn (es : List (String × Entity)) : Env := fun x => (es.filter (·.1 = x)).map Prod.snd

/-- Names that are not declared here are looked up further out. -/
def Env.within (outer : Env) (es : List (String × Entity)) : Env := fun x =>
  if namedIn es x = [] then outer x else namedIn es x

namespace Env

/-- The type that is written. -/
def denote (E : Env) : TypeName → Option Ty
  | .named _ x => (E x).head?.bind Entity.type?
  | .array _ element => (E.denote element).map .array
  | .map _ key value => (E.denote key).bind fun k => (E.denote value).map (.map k)
  | .void _ => none

/-- The types that are returned where these are written. -/
def returned (E : Env) (returns : List TypeName) : List Ty :=
  (returns.filter (!·.isVoid)).filterMap E.denote

/-- The type of a value. -/
def valueTy (E : Env) : Entity → Option Ty
  | .builtin id => (Table.initial.valueType id).map Ty.builtin
  | .field _ type | .param _ type | .localVar _ type => E.denote type
  | _ => none

end Env

def FieldDecl.entity (f : FieldDecl) : Entity := .field f.node.id f.type

def Callable.entity (f : Callable) : Entity := .callable f.node.id f.returns (f.params.map (·.type))

def Member.entity : Member → Entity
  | field f => f.entity
  | struct s => .struct s.node.id
  | callable f => f.entity

def StructDecl.entities (s : StructDecl) : List (String × Entity) :=
  s.fields.map fun f => (f.name.text, f.entity)

def Callable.entities (f : Callable) : List (String × Entity) :=
  f.params.map (fun v => (v.name.text, .param v.node.id v.type)) ++
    (localsOf f.body.stmts).map fun v => (v.name.text, .localVar v.node.id v.type)

namespace ContractDecl
variable (c : ContractDecl)

def memberEntities : List (String × Entity) := c.members.map fun m => (m.name, m.entity)

def globalEntities : List (String × Entity) :=
  (Table.initial.entries .global).map (fun e => (e.1, .builtin e.2)) ++
    [(c.name.text, .contract c.node.id)]

/-- What a name may stand for in the contract, outside of its struct types and callables. -/
def env : Env := Env.within (namedIn c.globalEntities) c.memberEntities

end ContractDecl

/-! ### Spots -/

/-- What counts where a designator stands: what types mean, what names may stand for, and which
locals can be seen. -/
structure Spot where
  types : Env
  names : Env
  sees : NodeId → Bool

/-- Whether a statement of the callable sees a local. -/
def Callable.shows (f : Callable) (stmt node : NodeId) : Bool :=
  (viewsOf f.body.stmts).any fun v => v.1.node.id = node && v.2.contains stmt

namespace ContractDecl
variable (c : ContractDecl)

def fieldSpot : Spot := ⟨c.env, c.env, fun _ => false⟩

def structSpot (s : StructDecl) : Spot := ⟨c.env, c.env.within s.entities, fun _ => false⟩

def stmtSpot (f : Callable) (stmt : NodeId) : Spot := ⟨c.env, c.env.within f.entities, f.shows stmt⟩

end ContractDecl

namespace Spot

def shows (sp : Spot) : Entity → Bool
  | .localVar node _ => sp.sees node
  | _ => true

/-- The value that a name stands for. Of several locals it is the one that can be seen. -/
def value (sp : Spot) (x : String) : Option Entity :=
  match sp.names x with
  | [] => none
  | first :: rest =>
    if !first.isValue then none
    else if !first.isLocal then some first
    else (first :: rest).find? sp.shows

end Spot

/-! ### Designators and expressions -/

namespace Designator
variable (sp : Spot)

def ty : Designator → Option Ty
  | .name _ x => (sp.value x).bind sp.types.valueTy
  | .index _ base _ => base.ty.bind Ty.element?
  | .member _ base m =>
    base.ty.bind fun type =>
      if type.element?.isSome ∧ m.text = lengthMember then some (.builtin .int) else none

/-- What a designator stands for: an element stands for what its array stands for. -/
def ref : Designator → Option Ref
  | .name _ x => (sp.value x).map Entity.ref
  | .index node base position => ((Designator.index node base position).ty sp).bind fun _ => base.ref
  | .member node base m => ((Designator.member node base m).ty sp).map fun _ => .builtin .length

end Designator

namespace Use
variable (sp : Spot)

def ref : Use → Option Ref
  | .callee _ x => (sp.names x).head?.map Entity.ref
  | .value d => d.ref sp

/-- What is asked of a designator itself, not of those inside it. -/
def Fits : Use → Prop
  | .callee _ x => sp.names x ≠ []
  | .value (.name _ x) => (sp.value x).isSome
  | .value (.index _ base _) => ∀ type ∈ base.ty sp, type.element?.isSome
  | .value (.member _ base m) => ∀ type ∈ base.ty sp, type.element?.isSome ∧ m.text = lengthMember

end Use

/-- What a callable returns and what its parameters are. -/
structure Signature where
  returns : List Ty
  params : List (Option Ty)

def Env.signature? (E : Env) : Entity → Option Signature
  | .callable _ returns params => some ⟨E.returned returns, params.map E.denote⟩
  | _ => none

/-- The signature of what is called. Only a plain name can stand for a callable. -/
def Spot.called (sp : Spot) : Designator → Option Signature
  | .name _ x => (sp.names x).head?.bind sp.types.signature?
  | _ => none

def Expr.ty (sp : Spot) : Expr → Option Ty
  | .literal _ value => some (.builtin value.type)
  | .load _ source => source.ty sp
  | .call _ callee _ => (sp.called callee).map fun g => g.returns.head?.getD (.builtin .void)
  | .binary _ op _ _ => some (.builtin op.resultType)
  | .unary _ op _ => some (.builtin op.operandType)

/-- Types that are both known are the same. -/
def Agree (expected found : Option Ty) : Prop := ∀ a ∈ expected, ∀ b ∈ found, a = b

/-- Whether operands of these types may be joined. -/
def BinaryOp.joins (op : BinaryOp) (left right : Ty) : Bool :=
  if op.isArithmetic then left = .builtin .int ∧ right = .builtin .int
  else if op.isLogical then left = .builtin .bool ∧ right = .builtin .bool
  else if op.isRelational then left = right ∧ (left = .builtin .int ∨ left = .builtin .char)
  else left = right

/-- What is asked of an expression itself, not of those inside it. -/
def Expr.Fits (sp : Spot) : Expr → Prop
  | .literal .. | .load .. => True
  | .call _ callee args => ∃ g ∈ sp.called callee,
      g.returns = [] ∨ List.Forall₂ Agree g.params (args.map (·.ty sp))
  | .binary _ op left right => ∀ a ∈ left.ty sp, ∀ b ∈ right.ty sp, op.joins a b = true
  | .unary _ op operand => Agree (some (.builtin op.operandType)) (operand.ty sp)

/-- The source of several targets is a call with as many results. -/
def Expr.Fills (sp : Spot) (targets : List (Option Ty)) : Expr → Prop
  | .call _ callee _ => ∀ g ∈ sp.called callee, List.Forall₂ Agree targets (g.returns.map some)
  | _ => False

/-- What is asked of a statement itself, not of its expressions and blocks. -/
def Stmt.Fits (sp : Spot) (returns : List Ty) : Stmt → Prop
  | .declare _ _ none => True
  | .declare _ [v] (some init) => Agree (sp.types.denote v.type) (init.ty sp)
  | .declare _ vars (some init) => init.Fills sp (vars.map fun v => sp.types.denote v.type)
  | .assign _ target value => Agree (target.ty sp) (value.ty sp)
  | .assignAll _ targets source => source.Fills sp (targets.map (·.ty sp))
  | .branch _ condition _ _ => Agree (some (.builtin .bool)) (condition.ty sp)
  | .giveBack _ values => List.Forall₂ Agree (returns.map some) (values.map (·.ty sp))

/-! ### Programs -/

/-- All that is asked of the designators and expressions of a field, and its type. -/
structure FieldDecl.Accepted (sp : Spot) (f : FieldDecl) : Prop where
  uses : ∀ u ∈ f.uses, u.Fits sp
  parts : ∀ e ∈ f.parts, e.Fits sp
  init : ∀ e ∈ f.init, Agree (sp.types.denote f.type) (e.ty sp)

/-- All that is asked of a statement, its blocks left out. -/
structure Stmt.Accepted (sp : Spot) (returns : List Ty) (s : Stmt) : Prop where
  uses : ∀ u ∈ s.uses, u.Fits sp
  parts : ∀ e ∈ s.parts, e.Fits sp
  fits : s.Fits sp returns

/-- The types of a callable, that of each local included, are known, and its returns are few and
void only alone. -/
structure Callable.Typed (E : Env) (f : Callable) : Prop where
  vars : ∀ v ∈ f.vars, (E.denote v.type).isSome
  few : f.returns.length ≤ maxReturns
  void : ∀ r ∈ f.returns, r.isVoid → f.returns.length ≤ 1
  returns : ∀ r ∈ f.returns, r.isVoid = false → (E.denote r).isSome

def Callable.Accepted (c : ContractDecl) (f : Callable) : Prop :=
  ∀ s ∈ allOf f.body.stmts, s.Accepted (c.stmtSpot f s.id) (c.env.returned f.returns)

/-- All that is asked of a contract. -/
structure ContractDecl.Accepted (c : ContractDecl) : Prop where
  names : c.declFaults = []
  fieldTypes : ∀ f ∈ c.allFields, (c.env.denote f.type).isSome
  callableTypes : ∀ f ∈ c.callables, f.Typed c.env
  fields : ∀ f ∈ c.fields, f.Accepted c.fieldSpot
  structFields : ∀ s ∈ c.structs, ∀ f ∈ s.fields, f.Accepted (c.structSpot s)
  bodies : ∀ f ∈ c.callables, f.Accepted c

end ContractLang
