import ContractLang.Syntax.Build
import ContractLang.Proofs.NodeTrees
import ContractLang.Proofs.Reach
import Mathlib.Control.Traversable.Basic
import Mathlib.Data.List.Flatten
import Mathlib.Data.List.Perm.Basic
import Mathlib.Data.List.Perm.Subperm
import Mathlib.Order.Bounds.Basic
import Mathlib.Order.MinMax
/-!
Programs that one builder puts together from their parts, each part used at most once. Every call
draws its numbers behind those already drawn, so no two nodes share a number, a node stands where
its number says, and a node made from others has the largest number among them. A contract may be
begun before its members: its own number stands in no order to theirs. A block is given its place
when it is made, and stands where its statements do.
-/
namespace ContractLang

/-- What a builder makes and takes. -/
inductive Part where
  | type (t : TypeName)
  | designator (d : Designator)
  | expr (e : Expr)
  | var (v : VarDecl)
  | stmt (s : Stmt)
  | field (f : FieldDecl)
  | struct (s : StructDecl)
  | ctor (k : ConstructorDecl)
  | function (f : FunctionDecl)
  | contract (c : ContractDecl)

/-- The calls of a builder, each with the parts that it uses up. -/
inductive Makes : List Part → Build Part → Prop where
  | namedType (s : String) : Makes [] (.type <$> Build.namedType s)
  | arrayType (element : TypeName) : Makes [.type element] (.type <$> Build.arrayType element)
  | mapType (key value : TypeName) :
    Makes [.type key, .type value] (.type <$> Build.mapType key value)
  | voidType : Makes [] (.type <$> Build.voidType)
  | name (s : String) : Makes [] (.designator <$> Build.name s)
  | index (base : Designator) (position : Expr) :
    Makes [.designator base, .expr position] (.designator <$> Build.index base position)
  | member (base : Designator) (m : String) :
    Makes [.designator base] (.designator <$> Build.member base m)
  | literal (value : Literal) : Makes [] (.expr <$> Build.literal value)
  | load (source : Designator) : Makes [.designator source] (.expr <$> Build.load source)
  | read (s : String) : Makes [] (.expr <$> Build.read s)
  | call (callee : Designator) (args : List Expr) :
    Makes (.designator callee :: args.map .expr) (.expr <$> Build.call callee args)
  | callNamed (s : String) (args : List Expr) :
    Makes (args.map .expr) (.expr <$> Build.callNamed s args)
  | binary (op : BinaryOp) (left right : Expr) :
    Makes [.expr left, .expr right] (.expr <$> Build.binary op left right)
  | unary (op : UnaryOp) (operand : Expr) :
    Makes [.expr operand] (.expr <$> Build.unary op operand)
  | varDecl (type : TypeName) (s : String) : Makes [.type type] (.var <$> Build.varDecl type s)
  | declare (vars : List VarDecl) (init : Option Expr) :
    Makes (vars.map .var ++ init.toList.map .expr) (.stmt <$> Build.declare vars init)
  | var (type : TypeName) (s : String) (init : Option Expr) :
    Makes (.type type :: init.toList.map .expr) (.stmt <$> Build.var type s init)
  | assign (target : Designator) (value : Expr) :
    Makes [.designator target, .expr value] (.stmt <$> Build.assign target value)
  | assignAll (targets : List Designator) (source : Expr) :
    Makes (targets.map .designator ++ [.expr source]) (.stmt <$> Build.assignAll targets source)
  | branch (condition : Expr) (onTrue : List Stmt) (onFalse : Option (List Stmt)) :
    Makes (.expr condition :: (onTrue.map .stmt ++ (onFalse.getD []).map .stmt))
      (.stmt <$> Build.branch condition onTrue onFalse)
  | giveBack (values : List Expr) : Makes (values.map .expr) (.stmt <$> Build.giveBack values)
  | field (type : TypeName) (s : String) (init : Option Expr) :
    Makes (.type type :: init.toList.map .expr) (.field <$> Build.field type s init)
  | struct (s : String) (fields : List FieldDecl) :
    Makes (fields.map .field) (.struct <$> Build.struct s fields)
  | ctor (params : List VarDecl) (body : List Stmt) :
    Makes (params.map .var ++ body.map .stmt) (.ctor <$> Build.ctor params body)
  | function (s : String) (returns : List TypeName) (params : List VarDecl) (body : List Stmt) :
    Makes (returns.map .type ++ (params.map .var ++ body.map .stmt))
      (.function <$> Build.function s returns params body)
  | contract (s : String) : Makes [] (.contract <$> Build.contract s)
  -- A member that joins its contract takes no number.
  | withField (c : ContractDecl) (f : FieldDecl) :
    Makes [.contract c, .field f] (pure (.contract (c.withField f)))
  | withStruct (c : ContractDecl) (s : StructDecl) :
    Makes [.contract c, .struct s] (pure (.contract (c.withStruct s)))
  | withCtor (c : ContractDecl) (k : ConstructorDecl) :
    Makes [.contract c, .ctor k] (pure (.contract (c.withCtor k)))
  | withFunction (c : ContractDecl) (f : FunctionDecl) :
    Makes [.contract c, .function f] (pure (.contract (c.withFunction f)))

/-- Calls of one builder have drawn `n` numbers and left these parts, of which none is used yet. -/
inductive Build.Yields : List Part → Nat → Prop where
  | new : Build.Yields [] 0
  /-- A number may be drawn for nothing. -/
  | reserve {pool : List Part} {n : Nat} (earlier : Build.Yields pool n) :
    Build.Yields pool (Build.fresh n).2
  | call {pool used rest : List Part} {x : Build Part} {n : Nat} (earlier : Build.Yields pool n)
    (makes : Makes used x) (taken : pool.Perm (used ++ rest)) :
    Build.Yields ((x n).1 :: rest) (x n).2

/-- The program is put together by a builder that has drawn `n` numbers. -/
inductive Program.BuiltWith : Program → Nat → Prop where
  | empty {pool : List Part} {n : Nat} (yields : Build.Yields pool n) :
    Program.BuiltWith (Build.program none) n
  | whole {pool : List Part} {n : Nat} {c : ContractDecl} (yields : Build.Yields pool n)
    (made : .contract c ∈ pool) : Program.BuiltWith (Build.program (some c)) n

/-! ### Numbered trees -/

/-- Numbers below `n`, each taken once and standing for its place, larger above than below. -/
structure Numbered (ts : List NodeTree) (n : Nat) : Prop where
  distinct : ((nodesOf ts).map Node.id).Nodup
  placed : ∀ m ∈ nodesOf ts, m.span = ⟨m.id.index, m.id.index + 1⟩
  drawn : ∀ m ∈ nodesOf ts, m.id.index < n
  descends : ∀ t ∈ ts, t.Descends

theorem nodesOf_subperm {ts us : List NodeTree} (h : us.Subperm ts) :
    (nodesOf us).Subperm (nodesOf ts) := by
  obtain ⟨vs, hperm, hsub⟩ := h
  rw [nodesOf_eq_flatMap, nodesOf_eq_flatMap]
  exact ⟨vs.flatMap NodeTree.nodes, hperm.flatMap_right _, hsub.flatMap _⟩

namespace Numbered
variable {ts us rest : List NodeTree} {n m : Nat}

theorem nil (n : Nat) : Numbered [] n := ⟨List.nodup_nil, nofun, nofun, nofun⟩

/-- Trees may be dropped, and further numbers drawn. -/
theorem mono (h : Numbered ts n) (hsub : us.Subperm ts) (hle : n ≤ m) : Numbered us m := by
  have hnodes := nodesOf_subperm hsub
  refine ⟨?_, fun x hx => ?_, fun x hx => ?_, fun t ht => ?_⟩
  · obtain ⟨kept, hperm, hkept⟩ := hnodes
    exact (hperm.map Node.id).nodup (h.distinct.sublist (hkept.map Node.id))
  · exact h.placed x (hnodes.subset hx)
  · exact (h.drawn x (hnodes.subset hx)).trans_le hle
  · exact h.descends t (hsub.subset ht)

/-- The next number goes to a node over some of the trees. -/
theorem graft (ts : List NodeTree) (h : Numbered (ts ++ rest) n) (hlt : n < m) :
    Numbered (.node ⟨⟨n⟩, ⟨n, n + 1⟩⟩ ts :: rest) m := by
  have hnodes : nodesOf (.node ⟨⟨n⟩, ⟨n, n + 1⟩⟩ ts :: rest) =
      ⟨⟨n⟩, ⟨n, n + 1⟩⟩ :: nodesOf (ts ++ rest) := by
    rw [nodesOf, NodeTree.nodes, nodesOf_append, List.cons_append]
  have hfresh : (⟨n⟩ : NodeId) ∉ (nodesOf (ts ++ rest)).map Node.id := by
    intro hmem
    obtain ⟨x, hx, hid⟩ := List.mem_map.1 hmem
    have hlt := h.drawn x hx
    rw [hid] at hlt
    exact Nat.lt_irrefl n hlt
  refine ⟨?_, ?_, ?_, ?_⟩
  · rw [hnodes, List.map_cons]
    exact List.nodup_cons.2 ⟨hfresh, h.distinct⟩
  · rw [hnodes]
    exact List.forall_mem_cons.2 ⟨rfl, h.placed⟩
  · rw [hnodes]
    exact List.forall_mem_cons.2 ⟨hlt, fun x hx => (h.drawn x hx).trans hlt⟩
  · refine List.forall_mem_cons.2 ⟨.node (fun x hx => ?_) fun t ht => ?_, fun t ht => ?_⟩
    · refine h.drawn x ?_
      rw [nodesOf_append]
      exact List.mem_append_left _ hx
    · exact h.descends t (List.mem_append_left _ ht)
    · exact h.descends t (List.mem_append_right _ ht)

end Numbered

/-! ### What a call keeps -/

/-- The trees of a part. A contract stands apart from its members, whose numbers may be larger. -/
def Part.trees : Part → List NodeTree
  | .type _ => []
  | .designator d => [d.tree]
  | .expr e => [e.tree]
  | .var v => [v.tree]
  | .stmt s => [s.tree]
  | .field f => [f.tree]
  | .struct s => [s.tree]
  | .ctor k => [k.callable.tree]
  | .function f => [f.callable.tree]
  | .contract c => .node c.node [] :: c.memberTrees

theorem flatMap_trees {α : Type} {part : α → Part} {tree : α → NodeTree}
    (h : ∀ x, (part x).trees = [tree x]) (l : List α) :
    (l.map part).flatMap Part.trees = l.map tree := by
  induction l with
  | nil => rfl
  | cons x rest ih =>
    rw [List.map_cons, List.flatMap_cons, h, ih, List.map_cons, List.singleton_append]

theorem flatMap_trees_type (l : List TypeName) : (l.map Part.type).flatMap Part.trees = [] := by
  induction l with
  | nil => rfl
  | cons x rest ih => exact ih

/-- Inside a list, something new may take the place of something old. -/
theorem subperm_replace {α : Type} (x : α) (before old after : List α) :
    (before ++ ([x] ++ after)).Subperm (before ++ (old ++ after) ++ [x]) := by
  have hback : (before ++ ([x] ++ after)).Perm (before ++ after ++ [x]) := by
    rw [List.append_assoc]
    exact List.perm_append_comm.append_left before
  have hold : (before ++ after).Sublist (before ++ (old ++ after)) :=
    (List.sublist_append_right old after).append_left before
  exact hback.subperm.trans (hold.append_right [x]).subperm

namespace ContractDecl
variable (c : ContractDecl)

theorem memberTrees_withField (f : FieldDecl) :
    (c.withField f).memberTrees.Subperm (c.memberTrees ++ [f.tree]) := by
  have h := subperm_replace f.tree (c.fields.map FieldDecl.tree) []
    (c.structs.map StructDecl.tree ++ c.callables.map Callable.tree)
  simpa only [memberTrees, withField, callables, List.map_append, List.map_singleton,
    List.append_assoc, List.nil_append] using h

theorem memberTrees_withStruct (s : StructDecl) :
    (c.withStruct s).memberTrees.Subperm (c.memberTrees ++ [s.tree]) := by
  have h := subperm_replace s.tree
    (c.fields.map FieldDecl.tree ++ c.structs.map StructDecl.tree) []
    (c.callables.map Callable.tree)
  simpa only [memberTrees, withStruct, callables, List.map_append, List.map_singleton,
    List.append_assoc, List.nil_append] using h

theorem memberTrees_withCtor (k : ConstructorDecl) :
    (c.withCtor k).memberTrees.Subperm (c.memberTrees ++ [k.callable.tree]) := by
  have h := subperm_replace k.callable.tree
    (c.fields.map FieldDecl.tree ++ c.structs.map StructDecl.tree)
    ((c.ctor.toList.map ConstructorDecl.callable).map Callable.tree)
    ((c.functions.map FunctionDecl.callable).map Callable.tree)
  simpa only [memberTrees, withCtor, callables, List.map_append, Option.toList_some,
    List.map_singleton, List.append_assoc] using h

theorem memberTrees_withFunction (f : FunctionDecl) :
    (c.withFunction f).memberTrees = c.memberTrees ++ [f.callable.tree] := by
  simp only [memberTrees, withFunction, callables, List.map_append, List.map_singleton,
    List.append_assoc]

end ContractDecl

/-- A member joins its contract. -/
theorem Numbered.join {c c' : ContractDecl} {t : NodeTree} {rest : List NodeTree} {n : Nat}
    (hn : Numbered ((Part.contract c).trees ++ [t] ++ rest) n) (hnode : c'.node = c.node)
    (hsub : c'.memberTrees.Subperm (c.memberTrees ++ [t])) :
    Numbered ((Part.contract c').trees ++ rest) n := by
  refine hn.mono (List.Subperm.append ?_ (.refl rest)) (Nat.le_refl n)
  rw [Part.trees, Part.trees, hnode, List.cons_append]
  exact List.subperm_cons _ |>.2 hsub

/-- What a call makes is numbered if what it used and all else is. -/
theorem Makes.numbered {used : List Part} {x : Build Part} (h : Makes used x) {n : Nat}
    {rest : List NodeTree} (hn : Numbered (used.flatMap Part.trees ++ rest) n) :
    Numbered ((x n).1.trees ++ rest) (x n).2 := by
  cases h with
  | namedType | arrayType | mapType | voidType => exact hn.mono (.refl _) (Nat.le_succ n)
  | name | index | literal | load | binary | unary | assign => exact hn.graft _ (Nat.lt_succ_self n)
  -- The second number is for the place of the name.
  | member | varDecl | contract => exact hn.graft _ (Nat.lt_add_of_pos_right Nat.two_pos)
  | read s =>
    have hname := hn.graft [] (Nat.lt_succ_self n)
    exact hname.graft [_] (Nat.lt_succ_self _)
  | call callee args =>
    rw [List.flatMap_cons, flatMap_trees fun _ => rfl, ← treesOf_eq_map] at hn
    exact hn.graft _ (Nat.lt_succ_self n)
  | callNamed s args =>
    rw [flatMap_trees fun _ => rfl, ← treesOf_eq_map] at hn
    have hname := hn.graft [] (Nat.lt_succ_self n)
    exact hname.graft (_ :: treesOf args) (Nat.lt_succ_self _)
  | declare vars init =>
    rw [List.flatMap_append, flatMap_trees fun _ => rfl, flatMap_trees fun _ => rfl] at hn
    exact hn.graft _ (Nat.lt_succ_self n)
  | var type s init =>
    rw [List.flatMap_cons, flatMap_trees fun _ => rfl] at hn
    have hvar := hn.graft [] (Nat.lt_add_of_pos_right Nat.two_pos)
    exact hvar.graft (_ :: init.toList.map Expr.tree) (Nat.lt_succ_self _)
  | assignAll targets source =>
    rw [List.flatMap_append, flatMap_trees fun _ => rfl] at hn
    exact hn.graft _ (Nat.lt_succ_self n)
  | branch condition onTrue onFalse =>
    rw [List.flatMap_cons, List.flatMap_append, flatMap_trees fun _ => rfl,
      flatMap_trees fun _ => rfl, ← blockTrees_eq_map, ← blockTrees_eq_map] at hn
    cases onFalse with
    | none =>
      rw [Option.getD_none, blockTrees, List.append_nil] at hn
      exact hn.graft _ (Nat.lt_succ_self n)
    | some onFalse => exact hn.graft _ (Nat.lt_succ_self n)
  | giveBack values =>
    rw [flatMap_trees fun _ => rfl, ← treesOf_eq_map] at hn
    exact hn.graft _ (Nat.lt_succ_self n)
  | field type s init =>
    rw [List.flatMap_cons, flatMap_trees fun _ => rfl] at hn
    exact hn.graft _ (Nat.lt_add_of_pos_right Nat.two_pos)
  | struct s fields =>
    rw [flatMap_trees fun _ => rfl] at hn
    exact hn.graft _ (Nat.lt_add_of_pos_right Nat.two_pos)
  | ctor params body =>
    rw [List.flatMap_append, flatMap_trees fun _ => rfl, flatMap_trees fun _ => rfl,
      ← blockTrees_eq_map] at hn
    exact hn.graft _ (Nat.lt_succ_self n)
  | function s returns params body =>
    rw [List.flatMap_append, List.flatMap_append, flatMap_trees_type, flatMap_trees fun _ => rfl,
      flatMap_trees fun _ => rfl, ← blockTrees_eq_map] at hn
    exact hn.graft _ (Nat.lt_add_of_pos_right Nat.two_pos)
  | withField c f => exact hn.join rfl (c.memberTrees_withField f)
  | withStruct c s => exact hn.join rfl (c.memberTrees_withStruct s)
  | withCtor c k => exact hn.join rfl (c.memberTrees_withCtor k)
  | withFunction c f => exact hn.join rfl (c.memberTrees_withFunction f ▸ .refl _)

/-- Whatever a builder has made so far is numbered. -/
theorem Build.Yields.numbered {pool : List Part} {n : Nat} (h : Build.Yields pool n) :
    Numbered (pool.flatMap Part.trees) n := by
  induction h with
  | new => exact Numbered.nil 0
  | reserve _ ih => exact ih.mono (.refl _) (Nat.le_succ _)
  | call _ makes taken ih =>
    have hpool := ih.mono (taken.flatMap_right Part.trees).symm.subperm (Nat.le_refl _)
    rw [List.flatMap_append] at hpool
    rw [List.flatMap_cons]
    exact makes.numbered hpool

/-! ### The spans of blocks -/

/-- A block and those inside its statements. -/
def BlockOf.within (b : Block) : List Block := b :: (allOf b.stmts).flatMap Stmt.blocks

/-- The bodies of a contract, and the blocks inside them. -/
def ContractDecl.blocks (c : ContractDecl) : List Block := c.callables.flatMap (·.body.within)

def Part.blocks : Part → List Block
  | .stmt s => s.blocks.flatMap BlockOf.within
  | .ctor k => k.body.within
  | .function f => f.body.within
  | .contract c => c.blocks
  | _ => []

/-- The block stands where its statements do. -/
def BlockOf.Covers (b : Block) : Prop := b.span = Span.cover (b.stmts.map Stmt.span)

theorem BlockOf.mem_within {b q : Block} : q ∈ b.within ↔
    q = b ∨ ∃ s ∈ b.stmts, q ∈ (Part.stmt s).blocks := by
  have hall : ∀ s : Stmt, q ∈ s.all.flatMap Stmt.blocks ↔ q ∈ (Part.stmt s).blocks := by
    intro s
    rw [s.all_eq, s.inner_eq, List.flatMap_cons, List.mem_append, List.flatMap_assoc]
    simp only [Part.blocks, within, List.mem_flatMap, List.mem_cons]
    constructor
    · rintro (hq | ⟨b, hb, hq⟩)
      · exact ⟨q, hq, .inl rfl⟩
      · exact ⟨b, hb, .inr hq⟩
    · rintro ⟨b, hb, rfl | hq⟩
      · exact .inl hb
      · exact .inr ⟨b, hb, hq⟩
  rw [within, List.mem_cons, allOf_eq_flatMap, List.flatMap_assoc, List.mem_flatMap]
  simp only [hall]

/-- A builder sets the span of a block as it makes the block. -/
theorem Build.block_covers {stmts : List Stmt}
    (h : ∀ b ∈ (stmts.map Part.stmt).flatMap Part.blocks, b.Covers) :
    ∀ b ∈ (Build.block stmts).within, b.Covers := by
  intro b hb
  rcases BlockOf.mem_within.1 hb with rfl | ⟨s, hs, hb⟩
  · rfl
  · exact h b (List.mem_flatMap.2 ⟨_, List.mem_map_of_mem hs, hb⟩)

/-- The blocks of a contract that one more callable joins. -/
theorem ContractDecl.blocks_join (c : ContractDecl) {c' : ContractDecl} {f : Callable}
    (hsub : c'.callables ⊆ c.callables ++ [f]) : c'.blocks ⊆ c.blocks ++ f.body.within := by
  intro b hb
  obtain ⟨g, hg, hb⟩ := List.mem_flatMap.1 hb
  rcases List.mem_append.1 (hsub hg) with hg | hg
  · exact List.mem_append_left _ (List.mem_flatMap.2 ⟨g, hg, hb⟩)
  · rw [List.mem_singleton.1 hg] at hb
    exact List.mem_append_right _ hb

/-- What a call makes has blocks that stand where their statements do, if what it used has. -/
theorem Makes.covers {used : List Part} {x : Build Part} (h : Makes used x) (n : Nat)
    (hused : ∀ b ∈ used.flatMap Part.blocks, b.Covers) : ∀ b ∈ (x n).1.blocks, b.Covers := by
  cases h with
  | branch condition onTrue onFalse =>
    simp only [List.flatMap_cons, List.flatMap_append, List.forall_mem_append] at hused
    obtain ⟨-, htrue, hfalse⟩ := hused
    cases onFalse with
    | none =>
      change ∀ b ∈ [Build.block onTrue].flatMap BlockOf.within, b.Covers
      rw [List.flatMap_singleton]
      exact Build.block_covers htrue
    | some onFalse =>
      change ∀ b ∈ [Build.block onTrue, Build.block onFalse].flatMap BlockOf.within, b.Covers
      rw [List.flatMap_cons, List.flatMap_singleton, List.forall_mem_append]
      exact ⟨Build.block_covers htrue, Build.block_covers hfalse⟩
  | ctor params body =>
    rw [List.flatMap_append, List.forall_mem_append] at hused
    exact Build.block_covers hused.2
  | function s returns params body =>
    simp only [List.flatMap_append, List.forall_mem_append] at hused
    exact Build.block_covers hused.2.2
  | withField c f => exact fun b hb => hused b (List.mem_append_left _ hb)
  | withStruct c s => exact fun b hb => hused b (List.mem_append_left _ hb)
  | withCtor c k =>
    rw [List.flatMap_cons, List.flatMap_singleton] at hused
    -- The constructor may take the place of another one.
    refine fun b hb => hused b (c.blocks_join (f := k.callable) ?_ hb)
    exact List.append_subset.2 ⟨List.subset_append_right _ _,
      fun f hf => List.mem_append_left _ (List.mem_append_right _ hf)⟩
  | withFunction c f =>
    rw [List.flatMap_cons, List.flatMap_singleton] at hused
    refine fun b hb => hused b (c.blocks_join (f := f.callable) ?_ hb)
    simp [ContractDecl.callables, ContractDecl.withFunction]
  | _ => exact nofun

/-- Every block that a builder has made so far stands where its statements do. -/
theorem Build.Yields.covers {pool : List Part} {n : Nat} (h : Build.Yields pool n) :
    ∀ b ∈ pool.flatMap Part.blocks, b.Covers := by
  induction h with
  | new => exact nofun
  | reserve _ ih => exact ih
  | call _ makes taken ih =>
    have hpool : ∀ b ∈ (_ ++ _ : List Part).flatMap Part.blocks, b.Covers := fun b hb =>
      ih b ((taken.flatMap_right Part.blocks).mem_iff.2 hb)
    rw [List.flatMap_append, List.forall_mem_append] at hpool
    rw [List.flatMap_cons, List.forall_mem_append]
    exact ⟨makes.covers _ hpool.1, hpool.2⟩

/-- What merging takes the smaller of is least for the cover. -/
theorem Span.isLeast_foldl {α : Type} [LinearOrder α] {f : Span → α}
    (hf : ∀ a b : Span, f (a.merge b) = min (f a) (f b)) (s : Span) (l : List Span) :
    IsLeast {k | ∃ x ∈ s :: l, f x = k} (f (l.foldl Span.merge s)) := by
  induction l generalizing s with
  | nil =>
    refine ⟨⟨s, List.mem_cons_self, rfl⟩, ?_⟩
    rintro k ⟨x, hx, rfl⟩
    rw [List.mem_singleton.1 hx, List.foldl_nil]
  | cons y rest ih =>
    obtain ⟨⟨x, hx, hfx⟩, hleast⟩ := ih (s.merge y)
    rw [List.foldl_cons]
    have hmerge := hleast ⟨s.merge y, List.mem_cons_self, rfl⟩
    rw [hf] at hmerge
    refine ⟨?_, ?_⟩
    · rcases List.mem_cons.1 hx with rfl | hx
      · rw [← hfx, hf]
        rcases min_choice (f s) (f y) with h | h
        · exact ⟨s, List.mem_cons_self, h.symm⟩
        · exact ⟨y, List.mem_cons_of_mem _ List.mem_cons_self, h.symm⟩
      · exact ⟨x, List.mem_cons_of_mem _ (List.mem_cons_of_mem _ hx), hfx⟩
    · rintro k ⟨x, hx, rfl⟩
      rcases List.mem_cons.1 hx with rfl | hx
      · exact hmerge.trans (min_le_left _ _)
      rcases List.mem_cons.1 hx with rfl | hx
      · exact hmerge.trans (min_le_right _ _)
      · exact hleast ⟨x, List.mem_cons_of_mem _ hx, rfl⟩

theorem BlockOf.Covers.isLeast {α : Type} [LinearOrder α] {f : Span → α}
    (hf : ∀ a b : Span, f (a.merge b) = min (f a) (f b)) {b : Block} (h : b.Covers)
    (hb : b.stmts ≠ []) : IsLeast {k | ∃ s ∈ b.stmts, f s.span = k} (f b.span) := by
  obtain ⟨s, rest, hs⟩ := List.exists_cons_of_ne_nil hb
  have hset : {k | ∃ x ∈ (s :: rest).map Stmt.span, f x = k} =
      {k | ∃ x ∈ s :: rest, f x.span = k} := by
    simp only [List.mem_map, exists_exists_and_eq_and]
  rw [h, hs]
  exact hset ▸ Span.isLeast_foldl hf s.span (rest.map Stmt.span)

/-- The span of a block with statements runs from their least start to their greatest end. -/
theorem BlockOf.Covers.bounds {b : Block} (h : b.Covers) (hb : b.stmts ≠ []) :
    IsLeast {k | ∃ s ∈ b.stmts, s.span.start = k} b.span.start ∧
      IsGreatest {k | ∃ s ∈ b.stmts, s.span.stop = k} b.span.stop :=
  ⟨h.isLeast (fun _ _ => rfl) hb,
    h.isLeast (f := fun s => OrderDual.toDual s.stop) (fun _ _ => rfl) hb⟩

theorem BlockOf.Covers.empty {b : Block} (h : b.Covers) (hb : b.stmts = []) : b.span = ⟨0, 0⟩ := by
  rw [h, hb]
  rfl

/-! ### Whole programs -/

/-- The nodes of a contract are numbered, and its members' numbers are larger above than below. -/
theorem Build.Yields.contract {pool : List Part} {n : Nat} (h : Build.Yields pool n)
    {c : ContractDecl} (hc : .contract c ∈ pool) :
    Numbered (.node c.node [] :: c.memberTrees) n := by
  have hsub : (Part.contract c).trees.Sublist (pool.flatMap Part.trees) := sublist_flatMap_of_mem hc
  exact h.numbered.mono hsub.subperm (Nat.le_refl n)

theorem ContractDecl.nodes_tree (c : ContractDecl) :
    c.tree.nodes = nodesOf (.node c.node [] :: c.memberTrees) := by
  rw [tree, NodeTree.nodes, nodesOf, NodeTree.nodes, nodesOf, List.singleton_append]

/-- In a program that one builder puts together, the nodes have distinct numbers, all drawn by the
builder; the number of a node is its place, and below a member of the contract numbers fall. The span
of a block is stored with it: it runs from the least start to the greatest end of its statements. -/
theorem Program.numbered_of_builtWith {p : Program} {n : Nat} (h : p.BuiltWith n) :
    p.Distinct ∧ (∀ id ∈ p.nodeIds, id.index < n) ∧
      ∀ c ∈ p.contract,
        (c.tree.nodes.map Node.id).Perm p.nodeIds ∧
        (∀ m ∈ c.tree.nodes, m.span = ⟨m.id.index, m.id.index + 1⟩) ∧
        (∀ t ∈ c.memberTrees, t.Descends) ∧
        ∀ b ∈ c.blocks, (b.stmts = [] → b.span = ⟨0, 0⟩) ∧
          (b.stmts ≠ [] → IsLeast {k | ∃ s ∈ b.stmts, s.span.start = k} b.span.start ∧
            IsGreatest {k | ∃ s ∈ b.stmts, s.span.stop = k} b.span.stop) := by
  cases h with
  | empty yields => exact ⟨List.nodup_nil, nofun, nofun⟩
  | @whole pool n c yields made =>
    have hc := yields.contract made
    have hids : (Build.program (some c)).nodeIds = c.nodeIds := List.flatMap_singleton _ _
    have hperm := c.nodes_perm
    rw [← hids] at hperm
    refine ⟨?_, fun id hid => ?_, ?_⟩
    · have hdistinct := hc.distinct
      rw [← c.nodes_tree] at hdistinct
      exact hperm.nodup hdistinct
    · obtain ⟨m, hm, rfl⟩ := List.mem_map.1 (hperm.mem_iff.2 hid)
      exact hc.drawn m (c.nodes_tree ▸ hm)
    · rintro _ ⟨⟩
      refine ⟨hperm, fun m hm => hc.placed m (c.nodes_tree ▸ hm), fun t ht => ?_, fun b hb => ?_⟩
      · exact hc.descends t (List.mem_cons_of_mem _ ht)
      · have hcovers := yields.covers b (List.mem_flatMap.2 ⟨_, made, hb⟩)
        exact ⟨hcovers.empty, hcovers.bounds⟩

/-- A contract with a field and a function, begun before both. -/
def tallyContract : Build ContractDecl := do
  let c ← Build.contract "Tally"
  let int ← Build.namedType "int"
  let zero ← Build.literal (.int 0)
  let total ← Build.field int "total" (some zero)
  let int ← Build.namedType "int"
  let amount ← Build.varDecl int "amount"
  let value ← Build.read "amount"
  let int ← Build.namedType "int"
  let copy ← Build.var int "copy" (some value)
  let condition ← Build.literal (.bool true)
  let guarded ← Build.branch condition [copy] (some [])
  let add ← Build.function "add" [] [amount] [guarded]
  return (c.withField total).withFunction add

def tally : Program := Build.program (some (Id.run (tallyContract.run' 0)))

theorem tally_builtWith : tally.BuiltWith 19 := by
  have h₁ := Build.Yields.new.call (.contract "Tally") (.refl _)
  have h₂ := h₁.call (.namedType "int") (.refl _)
  have h₃ := h₂.call (.literal (.int 0)) (.refl _)
  have h₄ := h₃.call (.field _ "total" (some _)) (.swap _ _ _)
  have h₅ := h₄.call (.withField _ _) (.swap _ _ _)
  have h₆ := h₅.call (.namedType "int") (.refl _)
  have h₇ := h₆.call (.varDecl _ "amount") (.refl _)
  have h₈ := h₇.call (.read "amount") (.refl _)
  have h₉ := h₈.call (.namedType "int") (.refl _)
  have h₁₀ := h₉.call (.var _ "copy" (some _)) (.refl _)
  have h₁₁ := h₁₀.call (.literal (.bool true)) (.refl _)
  have h₁₂ := h₁₁.call (.branch _ [_] (some [])) (.refl _)
  have h₁₃ := h₁₂.call (.function "add" [] [_] [_]) (.swap _ _ _)
  have h₁₄ := h₁₃.call (.withFunction _ _) (.swap _ _ _)
  exact .whole h₁₄ (List.mem_singleton_self _)

theorem tally_numbered : tally.BuiltWith 19 ∧ tally.Distinct ∧
    (∀ id ∈ tally.nodeIds, id.index < 19) ∧ ∃ c ∈ tally.contract,
      c.node.id.index = 0 ∧ c.memberTrees.length = 2 ∧ c.blocks.length = 3 ∧
      (c.tree.nodes.map Node.id).Perm tally.nodeIds ∧
      (∀ m ∈ c.tree.nodes, m.span = ⟨m.id.index, m.id.index + 1⟩) ∧
      (∀ t ∈ c.memberTrees, t.Descends) ∧
      ∀ b ∈ c.blocks, (b.stmts = [] → b.span = ⟨0, 0⟩) ∧
        (b.stmts ≠ [] → IsLeast {k | ∃ s ∈ b.stmts, s.span.start = k} b.span.start ∧
          IsGreatest {k | ∃ s ∈ b.stmts, s.span.stop = k} b.span.stop) := by
  have hb := tally_builtWith
  obtain ⟨hdistinct, hdrawn, hnodes⟩ := Program.numbered_of_builtWith hb
  exact ⟨hb, hdistinct, hdrawn, _, rfl, rfl, rfl, rfl, hnodes _ rfl⟩

end ContractLang
