import ContractLang.Proofs.Nodes
/-!
A syntax tree with nothing left but its nodes: each node with the trees of the nodes below it. The
trees hold the same nodes as the lists of declarations, statements, expressions and designators,
each as often as there.
-/
namespace ContractLang

/-- A node over the nodes below it. -/
inductive NodeTree where
  | node (root : Node) (below : List NodeTree)

mutual
def NodeTree.nodes : NodeTree → List Node
  | .node root below => root :: nodesOf below

/-- The nodes of all trees of a list. -/
def nodesOf : List NodeTree → List Node
  | [] => []
  | t :: rest => t.nodes ++ nodesOf rest
end

/-- The number of every node is larger than all numbers below it. -/
inductive NodeTree.Descends : NodeTree → Prop where
  | node {root : Node} {below : List NodeTree}
    (larger : ∀ m ∈ nodesOf below, m.id.index < root.id.index)
    (inner : ∀ t ∈ below, t.Descends) : NodeTree.Descends (.node root below)

theorem nodesOf_eq_flatMap (ts : List NodeTree) : nodesOf ts = ts.flatMap NodeTree.nodes := by
  induction ts with
  | nil => rfl
  | cons t rest ih => rw [nodesOf, List.flatMap_cons, ih]

@[simp] theorem nodesOf_append (ts us : List NodeTree) :
    nodesOf (ts ++ us) = nodesOf ts ++ nodesOf us := by
  simp only [nodesOf_eq_flatMap, List.flatMap_append]

/-! ### The trees of syntax -/

mutual
def Expr.tree : Expr → NodeTree
  | .literal node _ => .node node []
  | .load node source => .node node [source.tree]
  | .call node callee args => .node node (callee.tree :: treesOf args)
  | .binary node _ left right => .node node [left.tree, right.tree]
  | .unary node _ operand => .node node [operand.tree]

def Designator.tree : Designator → NodeTree
  | .name node _ => .node node []
  | .index node base position => .node node [base.tree, position.tree]
  | .member node base _ => .node node [base.tree]

def treesOf : List Expr → List NodeTree
  | [] => []
  | e :: rest => e.tree :: treesOf rest
end

def VarDecl.tree (v : VarDecl) : NodeTree := .node v.node []

mutual
def Stmt.tree : Stmt → NodeTree
  | .declare node vars init => .node node (vars.map VarDecl.tree ++ init.toList.map Expr.tree)
  | .assign node target value => .node node [target.tree, value.tree]
  | .assignAll node targets source => .node node (targets.map Designator.tree ++ [source.tree])
  | .branch node condition ⟨onTrue, _⟩ none => .node node (condition.tree :: blockTrees onTrue)
  | .branch node condition ⟨onTrue, _⟩ (some ⟨onFalse, _⟩) =>
    .node node (condition.tree :: (blockTrees onTrue ++ blockTrees onFalse))
  | .giveBack node values => .node node (treesOf values)

def blockTrees : List Stmt → List NodeTree
  | [] => []
  | s :: rest => s.tree :: blockTrees rest
end

def FieldDecl.tree (f : FieldDecl) : NodeTree := .node f.node (f.init.toList.map Expr.tree)

def StructDecl.tree (s : StructDecl) : NodeTree := .node s.node (s.fields.map FieldDecl.tree)

def Callable.tree (f : Callable) : NodeTree :=
  .node f.node (f.params.map VarDecl.tree ++ blockTrees f.body.stmts)

namespace ContractDecl

def memberTrees (c : ContractDecl) : List NodeTree :=
  c.fields.map FieldDecl.tree ++ c.structs.map StructDecl.tree ++ c.callables.map Callable.tree

def tree (c : ContractDecl) : NodeTree := .node c.node c.memberTrees

end ContractDecl

theorem treesOf_eq_map (es : List Expr) : treesOf es = es.map Expr.tree := by
  induction es with
  | nil => rfl
  | cons e rest ih => rw [treesOf, List.map_cons, ih]

theorem blockTrees_eq_map (b : List Stmt) : blockTrees b = b.map Stmt.tree := by
  induction b with
  | nil => rfl
  | cons s rest ih => rw [blockTrees, List.map_cons, ih]

/-! ### The trees hold the listed nodes

A number stands in a tree as often as in the lists of its nodes. -/

/-- How many nodes of the tree have the number. -/
def NodeTree.count (a : NodeId) (t : NodeTree) : Nat := (t.nodes.map Node.id).count a

def countOf (a : NodeId) (ts : List NodeTree) : Nat := ((nodesOf ts).map Node.id).count a

section
variable (a : NodeId)

theorem count_first (b : NodeId) (l : List NodeId) :
    (b :: l).count a = [b].count a + l.count a := by
  rw [← List.count_append, List.singleton_append]

@[simp] theorem NodeTree.count_node (root : Node) (below : List NodeTree) :
    (NodeTree.node root below).count a = [root.id].count a + countOf a below := by
  rw [NodeTree.count, NodeTree.nodes, List.map_cons, count_first, countOf]

@[simp] theorem countOf_nil : countOf a [] = 0 := rfl

@[simp] theorem countOf_append (ts us : List NodeTree) :
    countOf a (ts ++ us) = countOf a ts + countOf a us := by
  simp only [countOf, nodesOf_append, List.map_append, List.count_append]

@[simp] theorem countOf_cons (t : NodeTree) (ts : List NodeTree) :
    countOf a (t :: ts) = t.count a + countOf a ts := by
  rw [countOf, nodesOf, List.map_append, List.count_append, NodeTree.count, countOf]

theorem count_map_append {α : Type} (f : α → NodeId) (l l' : List α) :
    ((l ++ l').map f).count a = (l.map f).count a + (l'.map f).count a := by
  rw [List.map_append, List.count_append]

/-- How often the number stands in two lists of nodes. -/
def countIn (a : NodeId) (es : List Expr) (us : List Use) : Nat :=
  (es.map Expr.id).count a + (us.map Use.id).count a

theorem countIn_append (es es' : List Expr) (us us' : List Use) :
    countIn a (es ++ es') (us ++ us') = countIn a es us + countIn a es' us' := by
  rw [countIn, count_map_append, count_map_append, countIn, countIn]
  omega

theorem countIn_append_expr (es : List Expr) (e : Expr) (us : List Use) :
    countIn a (es ++ [e]) us = [e.id].count a + countIn a es us := by
  have h := countIn_append a es [e] us []
  rw [List.append_nil] at h
  have he : countIn a [e] [] = [e.id].count a := rfl
  omega

theorem countIn_append_use (es : List Expr) (us : List Use) (u : Use) :
    countIn a es (us ++ [u]) = [u.id].count a + countIn a es us := by
  have h := countIn_append a es [] us [u]
  rw [List.append_nil] at h
  have hu : countIn a [] [u] = [u.id].count a := Nat.zero_add _
  omega

/-- The uses of a call list a plain callee apart, but every designator once. -/
theorem Expr.count_uses_call (node : Node) (callee : Designator) (args : List Expr) :
    ((Expr.call node callee args).uses.map Use.id).count a =
      (callee.uses.map Use.id).count a + ((usesOf args).map Use.id).count a := by
  cases callee with
  | name n s => exact count_first a n.id _
  | index n base position => exact count_map_append a Use.id _ _
  | member n base m => exact count_map_append a Use.id _ _

mutual
theorem Expr.count_tree (e : Expr) : e.tree.count a = countIn a e.parts e.uses := by
  cases e with
  | literal node value => rfl
  | load node source =>
    rw [Expr.tree, NodeTree.count_node, countOf_cons, Designator.count_tree source, Expr.parts,
      countIn_append_expr]
    rfl
  | call node callee args =>
    have hid : (Expr.call node callee args).id = node.id := rfl
    rw [Expr.tree, NodeTree.count_node, countOf_cons, Designator.count_tree callee,
      countOf_treesOf args, Expr.parts, countIn_append_expr, hid]
    simp only [countIn, count_map_append, Expr.count_uses_call]
    omega
  | binary node op left right =>
    rw [Expr.tree, NodeTree.count_node, countOf_cons, countOf_cons, Expr.count_tree left,
      Expr.count_tree right, Expr.parts, countIn_append_expr, Expr.uses, countIn_append]
    rfl
  | unary node op operand =>
    rw [Expr.tree, NodeTree.count_node, countOf_cons, Expr.count_tree operand, Expr.parts,
      countIn_append_expr]
    rfl

theorem Designator.count_tree (d : Designator) : d.tree.count a = countIn a d.parts d.uses := by
  cases d with
  | name node s => exact (Nat.zero_add _).symm
  | index node base position =>
    rw [Designator.tree, NodeTree.count_node, countOf_cons, countOf_cons,
      Designator.count_tree base, Expr.count_tree position, Designator.uses, countIn_append_use,
      Designator.parts, countIn_append]
    rfl
  | member node base m =>
    rw [Designator.tree, NodeTree.count_node, countOf_cons, Designator.count_tree base,
      Designator.uses, countIn_append_use]
    rfl

theorem countOf_treesOf (es : List Expr) :
    countOf a (treesOf es) = countIn a (partsOf es) (usesOf es) := by
  cases es with
  | nil => rfl
  | cons e rest =>
    rw [treesOf, countOf_cons, Expr.count_tree e, countOf_treesOf rest, partsOf, usesOf,
      countIn_append]
end

theorem countOf_map_expr (es : List Expr) : countOf a (es.map Expr.tree) =
    countIn a (es.flatMap Expr.parts) (es.flatMap Expr.uses) := by
  rw [← treesOf_eq_map, countOf_treesOf, partsOf_eq_flatMap, usesOf_eq_flatMap]

theorem countOf_map_designator (ds : List Designator) : countOf a (ds.map Designator.tree) =
    countIn a (ds.flatMap Designator.parts) (ds.flatMap Designator.uses) := by
  induction ds with
  | nil => rfl
  | cons d rest ih =>
    rw [List.map_cons, countOf_cons, d.count_tree, ih, List.flatMap_cons, List.flatMap_cons,
      countIn_append]

theorem countOf_map_var (vs : List VarDecl) :
    countOf a (vs.map VarDecl.tree) = (vs.map (·.node.id)).count a := by
  induction vs with
  | nil => rfl
  | cons v rest ih =>
    rw [List.map_cons, countOf_cons, ih, VarDecl.tree, NodeTree.count_node, countOf_nil,
      Nat.add_zero, List.map_cons]
    exact (count_first a v.node.id _).symm

/-- How often the number stands among variables and statements, expressions and designators of the
statements included. -/
def countBlock (a : NodeId) (vs : List VarDecl) (ss : List Stmt) : Nat :=
  (vs.map (·.node.id)).count a + (ss.map Stmt.id).count a +
    countIn a (ss.flatMap Stmt.parts) (ss.flatMap Stmt.uses)

theorem countBlock_append (vs vs' : List VarDecl) (ss ss' : List Stmt) :
    countBlock a (vs ++ vs') (ss ++ ss') = countBlock a vs ss + countBlock a vs' ss' := by
  simp only [countBlock, count_map_append, List.flatMap_append, countIn_append]
  omega

theorem countBlock_vars (vs : List VarDecl) :
    countBlock a vs [] = (vs.map (·.node.id)).count a := rfl

theorem countBlock_cons (vs : List VarDecl) (s : Stmt) (ss : List Stmt) :
    countBlock a vs (s :: ss) =
      [s.id].count a + countIn a s.parts s.uses + countBlock a vs ss := by
  rw [countBlock, List.map_cons, count_first, List.flatMap_cons, List.flatMap_cons, countIn_append,
    countBlock]
  omega

mutual
theorem Stmt.count_tree (s : Stmt) : s.tree.count a = countBlock a s.locals s.all := by
  cases s with
  | declare node vars init =>
    have hinit : countOf a (init.toList.map Expr.tree) =
        countIn a (Stmt.declare node vars init).parts (Stmt.declare node vars init).uses := by
      rw [countOf_map_expr]
      cases init with
      | none => rfl
      | some init => simp only [Option.toList_some, List.flatMap_singleton, Stmt.parts, Stmt.uses]
    have hid : (Stmt.declare node vars init).id = node.id := rfl
    rw [Stmt.tree, Stmt.all, countBlock_cons, NodeTree.count_node, countOf_append,
      countOf_map_var, hinit, hid, Stmt.locals, countBlock_vars]
    omega
  | assign node target value =>
    rw [Stmt.tree, Stmt.all, countBlock_cons, NodeTree.count_node, countOf_cons, countOf_cons,
      target.count_tree, value.count_tree, Stmt.parts, Stmt.uses, countIn_append]
    rfl
  | assignAll node targets source =>
    rw [Stmt.tree, Stmt.all, countBlock_cons, NodeTree.count_node, countOf_append,
      countOf_map_designator, countOf_cons, source.count_tree, Stmt.parts, Stmt.uses,
      countIn_append]
    rfl
  | branch node condition onTrue onFalse =>
    cases onFalse with
    | none =>
      rw [Stmt.tree, NodeTree.count_node, countOf_cons, countOf_blockTrees onTrue.stmts,
        condition.count_tree, Stmt.locals, Stmt.all, countBlock_cons]
      exact (Nat.add_assoc ..).symm
    | some onFalse =>
      rw [Stmt.tree, NodeTree.count_node, countOf_cons, countOf_append, countOf_blockTrees onTrue.stmts,
        countOf_blockTrees onFalse.stmts, condition.count_tree, Stmt.locals, Stmt.all, countBlock_cons,
        countBlock_append]
      exact (Nat.add_assoc ..).symm
  | giveBack node values =>
    rw [Stmt.tree, Stmt.all, countBlock_cons, NodeTree.count_node, countOf_treesOf]
    rfl

theorem countOf_blockTrees (b : List Stmt) :
    countOf a (blockTrees b) = countBlock a (localsOf b) (allOf b) := by
  cases b with
  | nil => rfl
  | cons s rest =>
    rw [blockTrees, countOf_cons, Stmt.count_tree s, countOf_blockTrees rest, localsOf, allOf,
      countBlock_append]
end

theorem FieldDecl.count_tree (f : FieldDecl) :
    f.tree.count a = [f.node.id].count a + countIn a f.parts f.uses := by
  rw [FieldDecl.tree, NodeTree.count_node, countOf_map_expr, FieldDecl.parts, FieldDecl.uses]

theorem countOf_map_field (fs : List FieldDecl) : countOf a (fs.map FieldDecl.tree) =
    (fs.map (·.node.id)).count a +
      countIn a (fs.flatMap FieldDecl.parts) (fs.flatMap FieldDecl.uses) := by
  induction fs with
  | nil => rfl
  | cons f rest ih =>
    have hids : ((f :: rest).map (·.node.id)).count a =
        [f.node.id].count a + (rest.map (·.node.id)).count a := count_map_append a _ [f] rest
    rw [List.map_cons, countOf_cons, f.count_tree, ih, hids, List.flatMap_cons,
      List.flatMap_cons, countIn_append]
    omega

theorem countOf_map_struct (ss : List StructDecl) : countOf a (ss.map StructDecl.tree) =
    (ss.flatMap fun s => s.node.id :: s.fields.map (·.node.id)).count a +
      countIn a ((ss.flatMap (·.fields)).flatMap FieldDecl.parts)
        ((ss.flatMap (·.fields)).flatMap FieldDecl.uses) := by
  induction ss with
  | nil => rfl
  | cons s rest ih =>
    have hids := count_first a s.node.id (s.fields.map (·.node.id))
    rw [List.map_cons, countOf_cons, StructDecl.tree, NodeTree.count_node, countOf_map_field, ih]
    simp only [List.flatMap_cons, List.flatMap_append, List.count_append, countIn_append, hids]
    omega

theorem countOf_map_callable (fs : List Callable) : countOf a (fs.map Callable.tree) =
    (fs.flatMap fun f =>
      f.node.id :: f.params.map (·.node.id) ++ (localsOf f.body.stmts).map (·.node.id)).count a +
    ((fs.flatMap (allOf ·.body.stmts)).map Stmt.id).count a +
      countIn a ((fs.flatMap (allOf ·.body.stmts)).flatMap Stmt.parts)
        ((fs.flatMap (allOf ·.body.stmts)).flatMap Stmt.uses) := by
  induction fs with
  | nil => rfl
  | cons f rest ih =>
    have hids := count_first a f.node.id (f.params.map (·.node.id))
    rw [List.map_cons, countOf_cons, Callable.tree, NodeTree.count_node, countOf_append,
      countOf_map_var, countOf_blockTrees, ih]
    simp only [List.flatMap_cons, List.flatMap_append, List.map_append, List.count_append,
      countIn_append, countBlock, hids]
    omega

namespace ContractDecl

theorem count_tree (c : ContractDecl) : c.tree.count a = c.nodeIds.count a := by
  have hids : c.declarationIds.count a = [c.node.id].count a + (c.fields.map (·.node.id)).count a +
      (c.structs.flatMap fun s => s.node.id :: s.fields.map (·.node.id)).count a +
      (c.callables.flatMap fun f =>
        f.node.id :: f.params.map (·.node.id) ++ (localsOf f.body.stmts).map (·.node.id)).count a := by
    rw [declarationIds, List.count_append, List.count_append, count_first]
  rw [tree, NodeTree.count_node, memberTrees, countOf_append, countOf_append, countOf_map_field,
    countOf_map_struct, countOf_map_callable]
  simp only [nodeIds, List.count_append, hids, exprs, uses, stmts, allFields, count_map_append,
    List.flatMap_append, countIn]
  omega

/-- The tree of a contract holds the nodes of the contract, and each as often. -/
theorem nodes_perm (c : ContractDecl) : (c.tree.nodes.map Node.id).Perm c.nodeIds :=
  List.perm_iff_count.2 fun a => c.count_tree a

end ContractDecl

end

end ContractLang
