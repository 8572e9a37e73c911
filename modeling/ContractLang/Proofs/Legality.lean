import ContractLang.Proofs.Declaring
/-!
The illegal declarations of a contract, said without tables and open blocks. A contract is read as one
list of names, each with the region where it is declared. A name is illegal if it is a reserved word,
if it is that of a struct type where it may not be, or if an earlier declaration whose region encloses
its own has it already. The main statement is that declaring symbols reports exactly these.
-/
namespace ContractLang

/-- The way to a block of a body: the position of a statement, and of a block in it, at each step. -/
abbrev BlockPath := List (Nat × Nat)

/-- Where a name is declared. Struct types and callables are counted from zero; parameters stand at
the empty path of their callable's body. -/
inductive Region where
  | global
  | members
  | fields (struct : Nat)
  | body (callable : Nat) (path : BlockPath)
deriving DecidableEq

/-- A block encloses itself and the blocks inside it; any other region encloses only itself. -/
def Region.encloses : Region → Region → Bool
  | body i path, body j path' => i = j && path.isPrefixOf path'
  | p, q => p = q

/-- What a name is held to. A constructor has no name that could be wrong; it only takes the one under
which it is declared from those after it. -/
inductive NameRule where
  | exempt | unreserved | unreservedNoStruct
deriving DecidableEq

structure Naming where
  name : String
  span : Span
  region : Region
  rule : NameRule

/-- The names that are taken in a region. -/
def namesAt (earlier : List Naming) (p : Region) : List String :=
  (earlier.filter (·.region.encloses p)).map (·.name)

def Naming.faults (structs : List String) (earlier : List Naming) (n : Naming) : List Diagnostic :=
  match n.rule with
  | .exempt => []
  | .unreserved => nameFault [] n.name n.span ++ takenFault (namesAt earlier n.region) n.name n.span
  | .unreservedNoStruct =>
    nameFault structs n.name n.span ++ takenFault (namesAt earlier n.region) n.name n.span

/-- Each name is judged by those before it. -/
def illegal (structs : List String) (earlier : List Naming) : List Naming → List Diagnostic
  | [] => []
  | n :: rest => n.faults structs earlier ++ illegal structs (earlier ++ [n]) rest

/-! ### The names of a contract -/

def FieldDecl.naming (p : Region) (rule : NameRule) (f : FieldDecl) : Naming :=
  ⟨f.name.text, f.node.span, p, rule⟩

def VarDecl.naming (p : Region) (v : VarDecl) : Naming :=
  ⟨v.name.text, v.node.span, p, .unreservedNoStruct⟩

def StructDecl.namings (i : Nat) (s : StructDecl) : List Naming :=
  ⟨s.name.text, s.node.span, .members, .unreserved⟩ ::
    s.fields.map (·.naming (.fields i) .unreservedNoStruct)

mutual
/-- The names in a statement, which stands at a position of the block at the end of a path. -/
def Stmt.namings (i : Nat) (path : BlockPath) (position : Nat) : Stmt → List Naming
  | .declare _ vars _ => vars.map (·.naming (.body i path))
  | .branch _ _ ⟨onTrue, _⟩ none => namingsOf i (path ++ [(position, 0)]) 0 onTrue
  | .branch _ _ ⟨onTrue, _⟩ (some ⟨onFalse, _⟩) =>
    namingsOf i (path ++ [(position, 0)]) 0 onTrue ++ namingsOf i (path ++ [(position, 1)]) 0 onFalse
  | .assign .. | .assignAll .. | .giveBack .. => []

def namingsOf (i : Nat) (path : BlockPath) (position : Nat) : List Stmt → List Naming
  | [] => []
  | s :: rest => s.namings i path position ++ namingsOf i path (position + 1) rest
end

def Callable.namings (i : Nat) (f : Callable) : List Naming :=
  ⟨f.declaredName, f.node.span, .members, if f.name.isNone then .exempt else .unreserved⟩ ::
    (f.params.map (·.naming (.body i [])) ++ namingsOf i [] 0 f.body.stmts)

/-- The contract, its fields, each struct type with its fields, then each callable with its parameters
and locals. -/
def ContractDecl.namings (c : ContractDecl) : List Naming :=
  ⟨c.name.text, c.node.span, .global, .unreservedNoStruct⟩ ::
    (c.fields.map (·.naming .members .unreserved) ++
      (c.structs.zipIdx.flatMap fun p => p.1.namings p.2) ++
      c.callables.zipIdx.flatMap fun p => p.1.namings p.2)

/-- The built-in names that are declared before any program. -/
def builtinNamings : List Naming :=
  ["bool", "char", "int", "string", "true", "false", "null"].map fun name =>
    ⟨name, .zero, .global, .exempt⟩

def ContractDecl.illegal (c : ContractDecl) : List Diagnostic :=
  ContractLang.illegal c.structNames builtinNamings c.namings

/-! ### Names one after the other -/

theorem illegal_append (structs : List String) (earlier xs ys : List Naming) :
    illegal structs earlier (xs ++ ys) =
      illegal structs earlier xs ++ illegal structs (earlier ++ xs) ys := by
  induction xs generalizing earlier with
  | nil => rw [List.append_nil, List.nil_append]; rfl
  | cons x xs ih =>
    rw [List.cons_append, illegal, illegal, ih, List.append_assoc, List.append_assoc]
    rfl

theorem namesAt_append (xs ys : List Naming) (p : Region) :
    namesAt (xs ++ ys) p = namesAt xs p ++ namesAt ys p := by
  simp [namesAt]

theorem namesAt_eq_nil {earlier : List Naming} {p : Region}
    (h : ∀ n ∈ earlier, n.region.encloses p = false) : namesAt earlier p = [] := by
  unfold namesAt
  rw [List.map_eq_nil_iff, List.filter_eq_nil_iff]
  intro n hn
  rw [h n hn]
  exact Bool.false_ne_true

theorem Region.encloses_self (p : Region) : p.encloses p = true := by
  cases p <;> simp [encloses]

theorem Region.encloses_body {i j : Nat} {path path' : BlockPath} :
    (body i path).encloses (body j path') = true ↔ i = j ∧ path <+: path' := by
  simp [encloses]

/-- Where all names are declared in one region, each is taken for those after it. -/
theorem illegal_map {α : Type} {structs : List String} {p : Region} (g : α → Naming)
    {faults : List String → α → List Diagnostic} (hregion : ∀ x, (g x).region = p)
    (hfaults : ∀ earlier x, (g x).faults structs earlier = faults (namesAt earlier p) x)
    (earlier : List Naming) (xs : List α) :
    illegal structs earlier (xs.map g) =
      faultsInTurn (fun x => (g x).name) faults (namesAt earlier p) xs := by
  induction xs generalizing earlier with
  | nil => rfl
  | cons x xs ih =>
    have hx : namesAt [g x] p = [(g x).name] := by simp [namesAt, hregion, p.encloses_self]
    rw [List.map_cons, illegal, hfaults, ih, namesAt_append, hx]
    rfl

theorem namesAt_map {α : Type} {p : Region} (g : α → Naming) (hregion : ∀ x, (g x).region = p)
    (xs : List α) : namesAt (xs.map g) p = xs.map fun x => (g x).name := by
  unfold namesAt
  rw [List.filter_eq_self.2, List.map_map]
  · rfl
  · intro n hn
    obtain ⟨x, -, rfl⟩ := List.mem_map.1 hn
    rw [hregion, p.encloses_self]

theorem varFaults_eq (structs taken : List String) (vs : List VarDecl) :
    varFaults structs taken vs = faultsInTurn (·.name.text) (fun taken v =>
      nameFault structs v.name.text v.node.span ++ takenFault taken v.name.text v.node.span)
      taken vs := by
  induction vs generalizing taken with
  | nil => rfl
  | cons v vs ih => rw [varFaults, ih, faultsInTurn]

theorem illegal_vars (structs : List String) (earlier : List Naming) (p : Region)
    (vs : List VarDecl) :
    illegal structs earlier (vs.map (·.naming p)) = varFaults structs (namesAt earlier p) vs := by
  rw [varFaults_eq]
  refine illegal_map (VarDecl.naming p) (fun _ => rfl) ?_ earlier vs
  exact fun _ _ => rfl

/-- Members that bring names of their own with them. What holds before a member and lets it be judged
(`P`) holds again behind it. -/
theorem illegal_members {α : Type} {structs : List String} {es : Nat → α → List Naming}
    {name : α → String} {faults : List String → α → List Diagnostic} {p : Region}
    {P : Nat → List Naming → Prop} (hname : ∀ i x, namesAt (es i x) p = [name x])
    (hnext : ∀ i x earlier, P i earlier → P (i + 1) (earlier ++ es i x))
    (hfaults : ∀ i x earlier, P i earlier →
      illegal structs earlier (es i x) = faults (namesAt earlier p) x)
    (xs : List α) {i : Nat} {earlier : List Naming} (h : P i earlier) :
    illegal structs earlier ((xs.zipIdx i).flatMap fun q => es q.2 q.1) =
      faultsInTurn name faults (namesAt earlier p) xs := by
  induction xs generalizing i earlier with
  | nil => rfl
  | cons x xs ih =>
    rw [List.zipIdx_cons, List.flatMap_cons, illegal_append, hfaults i x earlier h,
      ih (hnext i x earlier h), namesAt_append, hname]
    rfl

theorem namesAt_members {α : Type} {es : Nat → α → List Naming} {name : α → String} {p : Region}
    (hname : ∀ i x, namesAt (es i x) p = [name x]) (xs : List α) (i : Nat) :
    namesAt ((xs.zipIdx i).flatMap fun q => es q.2 q.1) p = xs.map name := by
  induction xs generalizing i with
  | nil => rfl
  | cons x xs ih =>
    rw [List.zipIdx_cons, List.flatMap_cons, namesAt_append, hname, ih]
    rfl

/-! ### Blocks -/

/-- No earlier name stands in a block of the statements from a position on. -/
def Clear (earlier : List Naming) (i : Nat) (path : BlockPath) (position : Nat) : Prop :=
  ∀ n ∈ earlier, ∀ q, n.region = .body i q → ∀ k side, position ≤ k → ¬path ++ [(k, side)] <+: q

theorem eq_of_concat_prefix {path q : BlockPath} {a b : Nat × Nat} (ha : path ++ [a] <+: q)
    (hb : path ++ [b] <+: q) : a = b := by
  have hab : path ++ [a] <+: path ++ [b] := List.prefix_of_prefix_length_le ha hb (by simp)
  have heq : path ++ [a] = path ++ [b] := hab.eq_of_length (by simp)
  simpa using heq

theorem not_concat_prefix (path : BlockPath) (a : Nat × Nat) : ¬path ++ [a] <+: path := by
  intro h
  have hlen := h.length_le
  rw [List.length_append, List.length_singleton] at hlen
  omega

mutual
theorem Stmt.namings_region {i : Nat} {path : BlockPath} {position : Nat} (s : Stmt) {n : Naming}
    (h : n ∈ s.namings i path position) :
    ∃ q, n.region = .body i q ∧ (q = path ∨ ∃ side, path ++ [(position, side)] <+: q) := by
  cases s with
  | declare node vars init =>
    obtain ⟨v, -, rfl⟩ := List.mem_map.1 h
    exact ⟨path, rfl, .inl rfl⟩
  | branch node condition onTrue onFalse =>
    cases onFalse with
    | none =>
      obtain ⟨q, hq, hpath⟩ := namingsOf_region onTrue.stmts h
      exact ⟨q, hq, .inr ⟨0, hpath⟩⟩
    | some onFalse =>
      rcases List.mem_append.1 h with h | h
      · obtain ⟨q, hq, hpath⟩ := namingsOf_region onTrue.stmts h
        exact ⟨q, hq, .inr ⟨0, hpath⟩⟩
      · obtain ⟨q, hq, hpath⟩ := namingsOf_region onFalse.stmts h
        exact ⟨q, hq, .inr ⟨1, hpath⟩⟩
  | assign node target value => cases h
  | assignAll node targets source => cases h
  | giveBack node values => cases h

theorem namingsOf_region {i : Nat} {path : BlockPath} {position : Nat} (b : List Stmt) {n : Naming}
    (h : n ∈ namingsOf i path position b) : ∃ q, n.region = .body i q ∧ path <+: q := by
  cases b with
  | nil => cases h
  | cons s rest =>
    rcases List.mem_append.1 h with h | h
    · obtain ⟨q, hq, hpath⟩ := s.namings_region h
      refine ⟨q, hq, ?_⟩
      rcases hpath with rfl | ⟨side, hpath⟩
      · exact List.prefix_refl q
      · exact (List.prefix_append path _).trans hpath
    · exact namingsOf_region rest h
end

/-- Of the names in a statement only those of its own variables are taken behind it. -/
theorem Stmt.namesAt_namings (i : Nat) (path : BlockPath) (position : Nat) (s : Stmt) :
    namesAt (s.namings i path position) (.body i path) = s.vars.map (·.name.text) := by
  have hinner : ∀ b side,
      namesAt (namingsOf i (path ++ [(position, side)]) 0 b) (.body i path) = [] := by
    intro b side
    apply namesAt_eq_nil
    intro n hn
    obtain ⟨q, hq, hpath⟩ := namingsOf_region b hn
    rw [← Bool.not_eq_true, hq, Region.encloses_body]
    intro henc
    exact not_concat_prefix path _ (hpath.trans henc.2)
  cases s with
  | declare node vars init => exact namesAt_map (·.naming (.body i path)) (fun _ => rfl) vars
  | branch node condition onTrue onFalse =>
    cases onFalse with
    | none => exact hinner onTrue.stmts 0
    | some onFalse =>
      rw [Stmt.namings, namesAt_append, hinner onTrue.stmts 0, hinner onFalse.stmts 1]
      rfl
  | assign node target value => rfl
  | assignAll node targets source => rfl
  | giveBack node values => rfl

namespace Clear
variable {earlier : List Naming} {i : Nat} {path : BlockPath} {position : Nat}

theorem inner (h : Clear earlier i path position) (side : Nat) :
    Clear earlier i (path ++ [(position, side)]) 0 := by
  intro n hn q hq k side' _ hprefix
  exact h n hn q hq position side (Nat.le_refl _) ((List.prefix_append _ _).trans hprefix)

/-- The second block of a statement is not enclosed by the first. -/
theorem second (h : Clear earlier i path position) (b : List Stmt) :
    Clear (earlier ++ namingsOf i (path ++ [(position, 0)]) 0 b) i (path ++ [(position, 1)]) 0 := by
  intro n hn q hq k side hk hprefix
  rcases List.mem_append.1 hn with hn | hn
  · exact h.inner 1 n hn q hq k side hk hprefix
  · obtain ⟨q', hq', hpath⟩ := namingsOf_region b hn
    cases hq.symm.trans hq'
    have hsecond : path ++ [(position, 1)] <+: q := (List.prefix_append _ _).trans hprefix
    cases eq_of_concat_prefix hpath hsecond

theorem next (h : Clear earlier i path position) (s : Stmt) :
    Clear (earlier ++ s.namings i path position) i path (position + 1) := by
  intro n hn q hq k side hk hprefix
  rcases List.mem_append.1 hn with hn | hn
  · exact h n hn q hq k side (Nat.le_of_succ_le hk) hprefix
  · obtain ⟨q', hq', hpath⟩ := s.namings_region hn
    cases hq.symm.trans hq'
    rcases hpath with rfl | ⟨side', hpath⟩
    · exact not_concat_prefix _ _ hprefix
    · cases eq_of_concat_prefix hpath hprefix
      omega

/-- At the start of a block the names are taken that are taken around it. -/
theorem namesAt_eq (h : Clear earlier i path position) (side : Nat) :
    namesAt earlier (.body i (path ++ [(position, side)])) = namesAt earlier (.body i path) := by
  unfold namesAt
  congr 1
  apply List.filter_congr
  intro n hn
  rw [Bool.eq_iff_iff]
  cases hregion : n.region with
  | body j q =>
    rw [Region.encloses_body, Region.encloses_body]
    constructor
    · rintro ⟨rfl, hprefix⟩
      refine ⟨rfl, ?_⟩
      rcases List.prefix_concat_iff.1 hprefix with rfl | hprefix
      · exact absurd (List.prefix_refl _) (h n hn _ hregion position side (Nat.le_refl _))
      · exact hprefix
    · rintro ⟨rfl, hprefix⟩
      exact ⟨rfl, hprefix.trans (List.prefix_append _ _)⟩
  | _ => simp [Region.encloses]

end Clear

mutual
theorem Stmt.illegal_namings (structs : List String) {earlier : List Naming} {i : Nat}
    {path : BlockPath} {position : Nat} (h : Clear earlier i path position) (s : Stmt) :
    illegal structs earlier (s.namings i path position) =
      s.localFaults structs (namesAt earlier (.body i path)) := by
  cases s with
  | declare node vars init => exact illegal_vars structs earlier _ vars
  | branch node condition onTrue onFalse =>
    have htrue := illegal_namingsOf structs (h.inner 0) onTrue.stmts
    rw [h.namesAt_eq 0] at htrue
    cases onFalse with
    | none => exact htrue
    | some onFalse =>
      have hfalse := illegal_namingsOf structs (h.second onTrue.stmts) onFalse.stmts
      -- What the first block declares is not taken in the second.
      have hnone : namesAt (namingsOf i (path ++ [(position, 0)]) 0 onTrue.stmts)
          (.body i (path ++ [(position, 1)])) = [] := by
        apply namesAt_eq_nil
        intro n hn
        obtain ⟨q, hq, hpath⟩ := namingsOf_region onTrue.stmts hn
        rw [← Bool.not_eq_true, hq, Region.encloses_body]
        intro henc
        cases eq_of_concat_prefix (hpath.trans henc.2) (List.prefix_refl _)
      rw [namesAt_append, hnone, List.append_nil, h.namesAt_eq 1] at hfalse
      rw [Stmt.namings, illegal_append, htrue, hfalse, Stmt.localFaults]
  | assign node target value => rfl
  | assignAll node targets source => rfl
  | giveBack node values => rfl

theorem illegal_namingsOf (structs : List String) {earlier : List Naming} {i : Nat}
    {path : BlockPath} {position : Nat} (h : Clear earlier i path position) (b : List Stmt) :
    illegal structs earlier (namingsOf i path position b) =
      localFaultsOf structs (namesAt earlier (.body i path)) b := by
  cases b with
  | nil => rfl
  | cons s rest =>
    have hrest := illegal_namingsOf structs (h.next s) rest
    rw [namesAt_append, s.namesAt_namings] at hrest
    rw [namingsOf, illegal_append, s.illegal_namings structs h, hrest, localFaultsOf]
end

/-! ### Members of the contract -/

theorem illegal_fields (structs : List String) (earlier : List Naming) (p : Region)
    (fields : List FieldDecl) :
    illegal structs earlier (fields.map (·.naming p .unreservedNoStruct)) =
      fieldFaults structs (namesAt earlier p) fields :=
  illegal_map (·.naming p .unreservedNoStruct) (fun _ => rfl) (fun _ _ => rfl) earlier fields

namespace StructDecl

/-- The struct types so far are those before a number. -/
def Before (i : Nat) (earlier : List Naming) : Prop :=
  ∀ n ∈ earlier, ∀ j, n.region = .fields j → j < i

theorem Before.next {i : Nat} {earlier : List Naming} (h : Before i earlier) (s : StructDecl) :
    Before (i + 1) (earlier ++ s.namings i) := by
  intro n hn j hj
  rcases List.mem_append.1 hn with hn | hn
  · exact Nat.lt_succ_of_lt (h n hn j hj)
  · rcases List.mem_cons.1 hn with rfl | hn
    · cases hj
    · obtain ⟨f, -, rfl⟩ := List.mem_map.1 hn
      cases hj
      exact Nat.lt_succ_self i

theorem namesAt_namings (i : Nat) (s : StructDecl) :
    namesAt (s.namings i) .members = [s.name.text] := by
  have hfields : namesAt (s.fields.map (·.naming (.fields i) .unreservedNoStruct)) .members = [] := by
    apply namesAt_eq_nil
    intro n hn
    obtain ⟨f, -, rfl⟩ := List.mem_map.1 hn
    rfl
  rw [namings, ← List.singleton_append, namesAt_append, hfields]
  rfl

theorem illegal_namings {structs : List String} {i : Nat} {earlier : List Naming}
    (h : Before i earlier) (s : StructDecl) : illegal structs earlier (s.namings i) =
      s.declFaults structs (namesAt earlier .members) := by
  have hnone : namesAt (earlier ++ [⟨s.name.text, s.node.span, .members, .unreserved⟩]) (.fields i) =
      [] := by
    apply namesAt_eq_nil
    intro n hn
    rcases List.mem_append.1 hn with hn | hn
    · cases hregion : n.region with
      | fields j =>
        have hlt : j < i := h n hn j hregion
        simp only [Region.encloses, Region.fields.injEq, decide_eq_false_iff_not]
        omega
      | _ => rfl
    · rw [List.mem_singleton.1 hn]
      rfl
  rw [namings, illegal, illegal_fields, hnone]
  rfl

/-- All struct types one after the other, where there is none before them. -/
theorem illegal_all (structs : List String) {earlier : List Naming} (h : Before 0 earlier)
    (xs : List StructDecl) :
    illegal structs earlier (xs.zipIdx.flatMap fun p => p.1.namings p.2) =
      faultsInTurn (·.name.text) (declFaults structs) (namesAt earlier .members) xs :=
  illegal_members (fun i s => s.namesAt_namings i) (fun _ s _ h => h.next s)
    (fun _ s _ h => s.illegal_namings h) xs h

end StructDecl

namespace Callable

/-- The bodies so far are those before a number. -/
def Before (i : Nat) (earlier : List Naming) : Prop :=
  ∀ n ∈ earlier, ∀ j path, n.region = .body j path → j < i

theorem Before.next {i : Nat} {earlier : List Naming} (h : Before i earlier) (f : Callable) :
    Before (i + 1) (earlier ++ f.namings i) := by
  intro n hn j path hj
  rcases List.mem_append.1 hn with hn | hn
  · exact Nat.lt_succ_of_lt (h n hn j path hj)
  · rcases List.mem_cons.1 hn with rfl | hn
    · cases hj
    · rcases List.mem_append.1 hn with hn | hn
      · obtain ⟨v, -, rfl⟩ := List.mem_map.1 hn
        cases hj
        exact Nat.lt_succ_self i
      · obtain ⟨q, hq, -⟩ := namingsOf_region f.body.stmts hn
        cases hj.symm.trans hq
        exact Nat.lt_succ_self _

theorem namesAt_namings (i : Nat) (f : Callable) :
    namesAt (f.namings i) .members = [f.declaredName] := by
  have hvars : namesAt (f.params.map (·.naming (.body i [])) ++ namingsOf i [] 0 f.body.stmts) .members =
      [] := by
    apply namesAt_eq_nil
    intro n hn
    rcases List.mem_append.1 hn with hn | hn
    · obtain ⟨v, -, rfl⟩ := List.mem_map.1 hn
      rfl
    · obtain ⟨q, hq, -⟩ := namingsOf_region f.body.stmts hn
      rw [hq]
      rfl
  rw [namings, ← List.singleton_append, namesAt_append, hvars]
  rfl

theorem illegal_namings {structs : List String} {i : Nat} {earlier : List Naming}
    (h : Before i earlier) (f : Callable) : illegal structs earlier (f.namings i) =
      f.declFaults structs (namesAt earlier .members) := by
  let head : Naming :=
    ⟨f.declaredName, f.node.span, .members, if f.name.isNone then .exempt else .unreserved⟩
  have hhead : head.faults structs earlier = f.nameFaults (namesAt earlier .members) := by
    unfold Naming.faults nameFaults
    cases hname : f.name with
    | none => simp [head, hname]
    | some name => simp [head, hname, declaredName]
  have hbefore : ∀ n ∈ earlier ++ [head], ∀ path, n.region ≠ .body i path := by
    intro n hn path hregion
    rcases List.mem_append.1 hn with hn | hn
    · exact Nat.lt_irrefl i (h n hn i path hregion)
    · rw [List.mem_singleton.1 hn] at hregion
      cases hregion
  have hnone : namesAt (earlier ++ [head]) (.body i []) = [] := by
    apply namesAt_eq_nil
    intro n hn
    cases hregion : n.region with
    | body j path =>
      rw [← Bool.not_eq_true, Region.encloses_body]
      rintro ⟨rfl, -⟩
      exact hbefore n hn path hregion
    | _ => rfl
  have hclear : Clear (earlier ++ [head] ++ f.params.map (·.naming (.body i []))) i [] 0 := by
    intro n hn q hq k side _ hprefix
    rcases List.mem_append.1 hn with hn | hn
    · exact hbefore n hn q hq
    · obtain ⟨v, -, rfl⟩ := List.mem_map.1 hn
      cases hq
      exact not_concat_prefix [] _ hprefix
  have hparams : namesAt (f.params.map (·.naming (.body i []))) (.body i []) =
      f.params.map (·.name.text) := namesAt_map (·.naming (.body i [])) (fun _ => rfl) f.params
  have hbody := illegal_namingsOf structs hclear f.body.stmts
  rw [namesAt_append, hnone, List.nil_append, hparams] at hbody
  rw [namings, illegal, hhead, illegal_append, illegal_vars, hnone, hbody]
  rfl

theorem illegal_all (structs : List String) {earlier : List Naming} (h : Before 0 earlier)
    (xs : List Callable) :
    illegal structs earlier (xs.zipIdx.flatMap fun p => p.1.namings p.2) =
      faultsInTurn (·.declaredName) (declFaults structs) (namesAt earlier .members) xs :=
  illegal_members (fun i f => f.namesAt_namings i) (fun _ f _ h => h.next f)
    (fun _ f _ h => f.illegal_namings h) xs h

end Callable

namespace ContractDecl
variable (c : ContractDecl)

/-- The names that are declared before the first struct type. -/
def outerNamings : List Naming :=
  builtinNamings ++ [⟨c.name.text, c.node.span, .global, .unreservedNoStruct⟩] ++
    c.fields.map (·.naming .members .unreserved)

theorem outerNamings_region {n : Naming} (h : n ∈ c.outerNamings) :
    n.region = .global ∨ n.region = .members := by
  rcases List.mem_append.1 h with h | h
  · rcases List.mem_append.1 h with h | h
    · obtain ⟨name, -, rfl⟩ := List.mem_map.1 h
      exact .inl rfl
    · rw [List.mem_singleton.1 h]
      exact .inl rfl
  · obtain ⟨f, -, rfl⟩ := List.mem_map.1 h
    exact .inr rfl

theorem namesAt_outerNamings : namesAt c.outerNamings .members = c.fieldNames := by
  have hfields : namesAt (c.fields.map (·.naming .members .unreserved)) .members = c.fieldNames :=
    namesAt_map (·.naming .members .unreserved) (fun _ => rfl) c.fields
  rw [outerNamings, namesAt_append, hfields]
  rfl

theorem namesAt_structs :
    namesAt (c.structs.zipIdx.flatMap fun p => p.1.namings p.2) .members = c.structNames :=
  namesAt_members (fun i s => s.namesAt_namings i) c.structs 0

theorem illegal_eq : c.illegal = c.declFaults := by
  let structs : List Naming := c.structs.zipIdx.flatMap fun p => p.1.namings p.2
  have hbefore : StructDecl.Before 0 c.outerNamings := by
    intro n hn j hj
    rcases c.outerNamings_region hn with he | he <;> cases he.symm.trans hj
  have hbefore' : Callable.Before 0 (c.outerNamings ++ structs) := by
    intro n hn j path hj
    rcases List.mem_append.1 hn with hn | hn
    · rcases c.outerNamings_region hn with he | he <;> cases he.symm.trans hj
    · obtain ⟨p, -, hn⟩ := List.mem_flatMap.1 hn
      rcases List.mem_cons.1 hn with rfl | hn
      · cases hj
      · obtain ⟨f, -, rfl⟩ := List.mem_map.1 hn
        cases hj
  have houter : ContractLang.illegal c.structNames builtinNamings
      (⟨c.name.text, c.node.span, .global, .unreservedNoStruct⟩ ::
        c.fields.map (·.naming .members .unreserved)) =
      nameFault c.structNames c.name.text c.node.span ++
        takenFault ((Table.initial.entries .global).map Prod.fst) c.name.text c.node.span ++
        fieldFaults [] [] c.fields :=
    congrArg (_ ++ ·) (illegal_map (·.naming .members .unreserved) (fun _ => rfl) (fun _ _ => rfl)
      _ c.fields)
  have hstructs := StructDecl.illegal_all c.structNames hbefore c.structs
  have hcallables := Callable.illegal_all c.structNames hbefore' c.callables
  rw [namesAt_append, c.namesAt_outerNamings, c.namesAt_structs] at hcallables
  rw [c.namesAt_outerNamings] at hstructs
  rw [illegal, namings, ← List.cons_append, ← List.cons_append, illegal_append, illegal_append,
    houter, ← List.singleton_append, ← List.append_assoc, ← List.append_assoc]
  exact congrArg₂ (_ ++ · ++ ·) hstructs hcallables

end ContractDecl

/-- Declaring the symbols of a contract ends well and reports exactly the illegal declarations, in
order. -/
theorem ContractDecl.declareSymbols_illegal (c : ContractDecl) (span : Span) :
    ∃ t, (Program.mk (some c) span).declareSymbols.run .initial = .ok ⟨(), t, c.illegal⟩ := by
  obtain ⟨_, t, ⟨ds, hrun⟩, -, -, -⟩ := c.declare_safe Table.valid_initial
  have hds : ds = c.illegal := (ContractDecl.declare_inv hrun).2.trans c.illegal_eq.symm
  exact ⟨t, hds ▸ hrun⟩

end ContractLang
