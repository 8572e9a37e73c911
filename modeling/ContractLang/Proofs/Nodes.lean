import ContractLang.Syntax.Program
/-!
The nodes of a program, listed by what they are: declarations, statements, expressions and
designators. Expressions stand in the order in which they are checked, designators in the order in
which they are bound; both come to a node after what lies inside it.
-/
namespace ContractLang

/-- A designator where it is used: the plain name of a called function as a callee, every other one as
a value. -/
inductive Use where
  | callee (node : Node) (name : String)
  | value (designator : Designator)

namespace Use

def designator : Use → Designator
  | callee node name => .name node name
  | value d => d

def id (u : Use) : NodeId := u.designator.id

end Use

mutual
/-- The expressions inside an expression, and the expression itself. -/
def Expr.parts : Expr → List Expr
  | .literal node value => [.literal node value]
  | .load node source => source.parts ++ [.load node source]
  | .call node callee args => partsOf args ++ callee.parts ++ [.call node callee args]
  | .binary node op left right => left.parts ++ right.parts ++ [.binary node op left right]
  | .unary node op operand => operand.parts ++ [.unary node op operand]

def Designator.parts : Designator → List Expr
  | .name .. => []
  | .index _ base position => base.parts ++ position.parts
  | .member _ base _ => base.parts

def partsOf : List Expr → List Expr
  | [] => []
  | e :: rest => e.parts ++ partsOf rest
end

mutual
/-- The designators inside an expression. -/
def Expr.uses : Expr → List Use
  | .literal .. => []
  | .load _ source => source.uses
  | .call _ (.name node name) args => .callee node name :: usesOf args
  | .call _ callee args => callee.uses ++ usesOf args
  | .binary _ _ left right => left.uses ++ right.uses
  | .unary _ _ operand => operand.uses

def Designator.uses : Designator → List Use
  | .name node name => [.value (.name node name)]
  | .index node base position =>
    base.uses ++ position.uses ++ [.value (.index node base position)]
  | .member node base member => base.uses ++ [.value (.member node base member)]

def usesOf : List Expr → List Use
  | [] => []
  | e :: rest => e.uses ++ usesOf rest
end

theorem Designator.mem_uses (d : Designator) : .value d ∈ d.uses := by
  cases d <;> simp [Designator.uses]

theorem Expr.mem_parts (e : Expr) : e ∈ e.parts := by
  cases e <;> simp [Expr.parts]

/-- The expressions and designators of `e` are among those listed. -/
def Expr.Within (e : Expr) (es : List Expr) (us : List Use) : Prop := e.parts ⊆ es ∧ e.uses ⊆ us

theorem Expr.Within.mono {e : Expr} {es es' : List Expr} {us us' : List Use} (h : e.Within es us)
    (hes : es ⊆ es') (hus : us ⊆ us') : e.Within es' us' := ⟨List.Subset.trans h.1 hes, List.Subset.trans h.2 hus⟩

theorem Expr.uses_callee_subset {node : Node} {callee : Designator} {args : List Expr}
    (h : callee.parts ≠ []) : callee.uses ⊆ (Expr.call node callee args).uses := by
  cases callee with
  | name n x => exact absurd rfl h
  | index n base position => exact List.subset_append_left _ _
  | member n base m => exact List.subset_append_left _ _

theorem Expr.usesOf_subset_call {node : Node} {callee : Designator} {args : List Expr} :
    usesOf args ⊆ (Expr.call node callee args).uses := by
  cases callee with
  | name n x => exact List.subset_cons_self _ _
  | index n base position => exact List.subset_append_right _ _
  | member n base m => exact List.subset_append_right _ _

mutual
theorem Expr.within_parts {e p : Expr} (h : p ∈ e.parts) : p.Within e.parts e.uses := by
  cases e with
  | literal node value =>
    cases List.mem_singleton.1 h
    exact ⟨List.Subset.refl _, List.Subset.refl _⟩
  | load node source =>
    rcases List.mem_append.1 h with h | h
    · exact (Designator.within_parts h).mono (List.subset_append_left _ _) (List.Subset.refl _)
    · cases List.mem_singleton.1 h
      exact ⟨List.Subset.refl _, List.Subset.refl _⟩
  | call node callee args =>
    rcases List.mem_append.1 h with h | h
    · have hsub := List.subset_append_left (partsOf args ++ callee.parts) [Expr.call node callee args]
      rcases List.mem_append.1 h with h | h
      · refine (partsOf_within h).mono ?_ Expr.usesOf_subset_call
        exact fun x hx => hsub (List.mem_append_left _ hx)
      · refine (Designator.within_parts h).mono ?_ (Expr.uses_callee_subset (List.ne_nil_of_mem h))
        exact fun x hx => hsub (List.mem_append_right _ hx)
    · cases List.mem_singleton.1 h
      exact ⟨List.Subset.refl _, List.Subset.refl _⟩
  | binary node op left right =>
    rcases List.mem_append.1 h with h | h
    · have hsub := List.subset_append_left (left.parts ++ right.parts) [Expr.binary node op left right]
      rcases List.mem_append.1 h with h | h
      · refine (Expr.within_parts h).mono ?_ (List.subset_append_left _ _)
        exact fun x hx => hsub (List.mem_append_left _ hx)
      · refine (Expr.within_parts h).mono ?_ (List.subset_append_right _ _)
        exact fun x hx => hsub (List.mem_append_right _ hx)
    · cases List.mem_singleton.1 h
      exact ⟨List.Subset.refl _, List.Subset.refl _⟩
  | unary node op operand =>
    rcases List.mem_append.1 h with h | h
    · exact (Expr.within_parts h).mono (List.subset_append_left _ _) (List.Subset.refl _)
    · cases List.mem_singleton.1 h
      exact ⟨List.Subset.refl _, List.Subset.refl _⟩

theorem Designator.within_parts {d : Designator} {p : Expr} (h : p ∈ d.parts) :
    p.Within d.parts d.uses := by
  cases d with
  | name node x => cases h
  | index node base position =>
    have hsub := List.subset_append_left (base.uses ++ position.uses)
      [Use.value (.index node base position)]
    rcases List.mem_append.1 h with h | h
    · refine (Designator.within_parts h).mono (List.subset_append_left _ _) ?_
      exact fun x hx => hsub (List.mem_append_left _ hx)
    · refine (Expr.within_parts h).mono (List.subset_append_right _ _) ?_
      exact fun x hx => hsub (List.mem_append_right _ hx)
  | member node base m =>
    exact (Designator.within_parts (d := base) h).mono (List.Subset.refl _) (List.subset_append_left _ _)

theorem partsOf_within {es : List Expr} {p : Expr} (h : p ∈ partsOf es) :
    p.Within (partsOf es) (usesOf es) := by
  cases es with
  | nil => cases h
  | cons e rest =>
    rcases List.mem_append.1 h with h | h
    · exact (Expr.within_parts h).mono (List.subset_append_left _ _) (List.subset_append_left _ _)
    · exact (partsOf_within h).mono (List.subset_append_right _ _) (List.subset_append_right _ _)
end

theorem sublist_flatMap_of_mem {α β : Type} {f : α → List β} {l : List α} {a : α} (h : a ∈ l) :
    (f a).Sublist (l.flatMap f) := List.sublist_flatten_of_mem (List.mem_map_of_mem h)

theorem partsOf_eq_flatMap (es : List Expr) : partsOf es = es.flatMap Expr.parts := by
  induction es with
  | nil => rfl
  | cons e rest ih => rw [partsOf, List.flatMap_cons, ih]

theorem usesOf_eq_flatMap (es : List Expr) : usesOf es = es.flatMap Expr.uses := by
  induction es with
  | nil => rfl
  | cons e rest ih => rw [usesOf, List.flatMap_cons, ih]

theorem mem_partsOf {es : List Expr} {e : Expr} (he : e ∈ es) : e ∈ partsOf es := by
  rw [partsOf_eq_flatMap]
  exact List.mem_flatMap.2 ⟨e, he, e.mem_parts⟩

namespace Stmt

/-- The expressions of a statement, those of its blocks left out. -/
def parts : Stmt → List Expr
  | declare _ _ none => []
  | declare _ _ (some init) => init.parts
  | assign _ target value => target.parts ++ value.parts
  | assignAll _ targets source => targets.flatMap Designator.parts ++ source.parts
  | branch _ condition _ _ => condition.parts
  | giveBack _ values => partsOf values

/-- The designators of a statement, those of its blocks left out. -/
def uses : Stmt → List Use
  | declare _ _ none => []
  | declare _ _ (some init) => init.uses
  | assign _ target value => target.uses ++ value.uses
  | assignAll _ targets source => targets.flatMap Designator.uses ++ source.uses
  | branch _ condition _ _ => condition.uses
  | giveBack _ values => usesOf values

theorem within_parts {s : Stmt} {p : Expr} (h : p ∈ s.parts) : p.Within s.parts s.uses := by
  cases s with
  | declare node vars init =>
    cases init with
    | none => cases h
    | some init => exact Expr.within_parts (e := init) h
  | assign node target value =>
    rcases List.mem_append.1 h with h | h
    · exact (Designator.within_parts h).mono (List.subset_append_left _ _)
        (List.subset_append_left _ _)
    · exact (Expr.within_parts h).mono (List.subset_append_right _ _) (List.subset_append_right _ _)
  | assignAll node targets source =>
    rcases List.mem_append.1 h with h | h
    · obtain ⟨d, hd, h⟩ := List.mem_flatMap.1 h
      refine (Designator.within_parts h).mono (fun x hx => ?_) fun u hu => ?_
      · exact List.mem_append_left _ (List.mem_flatMap.2 ⟨d, hd, hx⟩)
      · exact List.mem_append_left _ (List.mem_flatMap.2 ⟨d, hd, hu⟩)
    · exact (Expr.within_parts h).mono (List.subset_append_right _ _) (List.subset_append_right _ _)
  | branch node condition onTrue onFalse => exact Expr.within_parts (e := condition) h
  | giveBack node values => exact partsOf_within h

end Stmt

mutual
/-- A statement and those of its blocks, from outside to inside. -/
def Stmt.all : Stmt → List Stmt
  | .branch node condition ⟨onTrue, spanTrue⟩ none =>
    .branch node condition ⟨onTrue, spanTrue⟩ none :: allOf onTrue
  | .branch node condition ⟨onTrue, spanTrue⟩ (some ⟨onFalse, spanFalse⟩) =>
    .branch node condition ⟨onTrue, spanTrue⟩ (some ⟨onFalse, spanFalse⟩) ::
      (allOf onTrue ++ allOf onFalse)
  | .declare node vars init => [.declare node vars init]
  | .assign node target value => [.assign node target value]
  | .assignAll node targets source => [.assignAll node targets source]
  | .giveBack node values => [.giveBack node values]

def allOf : List Stmt → List Stmt
  | [] => []
  | s :: rest => s.all ++ allOf rest
end

theorem allOf_eq_flatMap (b : List Stmt) : allOf b = b.flatMap Stmt.all := by
  induction b with
  | nil => rfl
  | cons s rest ih => rw [allOf, List.flatMap_cons, ih]

theorem Stmt.mem_all (s : Stmt) : s ∈ s.all := by
  cases s with
  | branch node condition onTrue onFalse => cases onFalse <;> simp [Stmt.all]
  | _ => simp [Stmt.all]

namespace FieldDecl

def parts (f : FieldDecl) : List Expr := f.init.toList.flatMap Expr.parts

def uses (f : FieldDecl) : List Use := f.init.toList.flatMap Expr.uses

theorem within_parts {f : FieldDecl} {p : Expr} (h : p ∈ f.parts) : p.Within f.parts f.uses := by
  obtain ⟨init, hinit, hp⟩ := List.mem_flatMap.1 h
  refine (Expr.within_parts hp).mono (fun x hx => ?_) fun u hu => ?_
  · exact List.mem_flatMap.2 ⟨init, hinit, hx⟩
  · exact List.mem_flatMap.2 ⟨init, hinit, hu⟩

end FieldDecl

namespace ContractDecl
variable (c : ContractDecl)

/-- The fields of the contract, then those of its struct types. -/
def allFields : List FieldDecl := c.fields ++ c.structs.flatMap (·.fields)

def stmts : List Stmt := c.callables.flatMap (allOf ·.body.stmts)

def exprs : List Expr := c.allFields.flatMap FieldDecl.parts ++ c.stmts.flatMap Stmt.parts

def uses : List Use := c.allFields.flatMap FieldDecl.uses ++ c.stmts.flatMap Stmt.uses

/-- The nodes that declare something, in the order in which they do. -/
def declarationIds : List NodeId :=
  c.node.id :: c.fields.map (·.node.id) ++
    c.structs.flatMap (fun s => s.node.id :: s.fields.map (·.node.id)) ++
    c.callables.flatMap fun f =>
      f.node.id :: f.params.map (·.node.id) ++ (localsOf f.body.stmts).map (·.node.id)

def nodeIds : List NodeId :=
  c.declarationIds ++ c.stmts.map Stmt.id ++ c.exprs.map Expr.id ++ c.uses.map Use.id

variable {c}

theorem init_within {f : FieldDecl} (hf : f ∈ c.allFields) {init : Expr} (hi : init ∈ f.init) :
    init.Within c.exprs c.uses := by
  have hmem : init ∈ f.init.toList := Option.mem_toList.2 hi
  refine ⟨fun x hx => List.mem_append_left _ ?_, fun u hu => List.mem_append_left _ ?_⟩
  · exact List.mem_flatMap.2 ⟨f, hf, List.mem_flatMap.2 ⟨init, hmem, hx⟩⟩
  · exact List.mem_flatMap.2 ⟨f, hf, List.mem_flatMap.2 ⟨init, hmem, hu⟩⟩

theorem mem_stmts {f : Callable} (hf : f ∈ c.callables) {s : Stmt} (hs : s ∈ allOf f.body.stmts) :
    s ∈ c.stmts := List.mem_flatMap.2 ⟨f, hf, hs⟩

theorem parts_subset {s : Stmt} (hs : s ∈ c.stmts) : s.parts ⊆ c.exprs := fun _ he =>
  List.mem_append_right _ (List.mem_flatMap.2 ⟨s, hs, he⟩)

theorem uses_subset {s : Stmt} (hs : s ∈ c.stmts) : s.uses ⊆ c.uses := fun _ hu =>
  List.mem_append_right _ (List.mem_flatMap.2 ⟨s, hs, hu⟩)

theorem within_exprs {e : Expr} (h : e ∈ c.exprs) : e.Within c.exprs c.uses := by
  rcases List.mem_append.1 h with h | h
  · obtain ⟨f, hf, h⟩ := List.mem_flatMap.1 h
    obtain ⟨init, hinit, h⟩ := List.mem_flatMap.1 h
    obtain ⟨hparts, huses⟩ := init_within hf (Option.mem_toList.1 hinit)
    exact (Expr.within_parts h).mono hparts huses
  · obtain ⟨s, hs, h⟩ := List.mem_flatMap.1 h
    exact (Stmt.within_parts h).mono (parts_subset hs) (uses_subset hs)

theorem nodup_declarationIds (h : c.nodeIds.Nodup) : c.declarationIds.Nodup :=
  (List.nodup_append.1 (List.nodup_append.1 (List.nodup_append.1 h).1).1).1

theorem nodup_stmtIds (h : c.nodeIds.Nodup) : (c.stmts.map Stmt.id).Nodup :=
  (List.nodup_append.1 (List.nodup_append.1 (List.nodup_append.1 h).1).1).2.1

theorem nodup_exprIds (h : c.nodeIds.Nodup) : (c.exprs.map Expr.id).Nodup :=
  (List.nodup_append.1 (List.nodup_append.1 h).1).2.1

theorem nodup_useIds (h : c.nodeIds.Nodup) : (c.uses.map Use.id).Nodup :=
  (List.nodup_append.1 h).2.1

theorem expr_not_use (h : c.nodeIds.Nodup) {e : Expr} (he : e ∈ c.exprs) :
    e.id ∉ c.uses.map Use.id := fun hu =>
  (List.nodup_append.1 h).2.2 e.id (List.mem_append_right _ (List.mem_map_of_mem he)) e.id hu rfl

end ContractDecl

namespace Program

/-- The numbers of all nodes of a program. -/
def nodeIds (p : Program) : List NodeId := p.contract.toList.flatMap ContractDecl.nodeIds

/-- No two nodes have one number. -/
def Distinct (p : Program) : Prop := p.nodeIds.Nodup

instance (p : Program) : Decidable p.Distinct := inferInstanceAs (Decidable p.nodeIds.Nodup)

end Program
end ContractLang
