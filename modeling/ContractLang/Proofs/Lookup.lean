import ContractLang.Proofs.Valid
/-!
Lookups in a valid table end, and what they find can be named. The walk to the parents is unrolled
once, in `nearest_eq`; the fuel plays no part after that.
-/
namespace ContractLang
namespace Table
variable {t : Table}

theorem exists_scope {id : ScopeId} (h : t.HoldsScope id) : ∃ s, t.scopes[id.index]? = some s :=
  ⟨_, List.getElem?_eq_getElem h⟩

theorem nearestWithin_succ {id : ScopeId} {s : Scope} (hs : t.scopes[id.index]? = some s)
    (name : String) (fuel : Nat) :
    t.nearestWithin name (fuel + 1) id =
      match s.declarationsOf name, s.parent with
      | [], some parent => t.nearestWithin name fuel parent
      | found, _ => .ok found := by
  have hok : t.scope id = .ok s := scope_eq_ok.2 hs
  rw [nearestWithin]
  split
  · rename_i e he
    rw [hok] at he
    cases he
  · rename_i s' hs'
    rw [hok] at hs'
    cases hs'
    rfl

/-- Every scope has a larger number than its parent. -/
def Rooted (t : Table) : Prop :=
  ∀ (i : Nat) (s : Scope), t.scopes[i]? = some s → ∀ p ∈ s.parent, p.index < i

/-- A scope's parent has a smaller number, so fuel beyond the scope's number is never used. -/
theorem nearestWithin_of_lt (h : t.Rooted) (name : String) {fuel : Nat} {id : ScopeId}
    (hid : t.HoldsScope id) (hf : id.index < fuel) :
    t.nearestWithin name fuel id = t.nearestWithin name (id.index + 1) id := by
  induction fuel using Nat.strongRecOn generalizing id with
  | ind fuel ih =>
    obtain ⟨s, hs⟩ := exists_scope hid
    obtain ⟨n, rfl⟩ : ∃ n, fuel = n + 1 := ⟨fuel - 1, by omega⟩
    rw [nearestWithin_succ hs, nearestWithin_succ hs]
    split
    · rename_i parent _ hp
      have hlt : parent.index < id.index := h _ s hs parent hp
      have hheld : t.HoldsScope parent := Nat.lt_trans hlt hid
      rw [ih n (by omega) hheld (by omega), ih id.index hf hheld hlt]
    · rfl

theorem nearest_eq (h : t.Rooted) {id : ScopeId} {s : Scope} (hs : t.scopes[id.index]? = some s)
    (name : String) :
    t.nearest id name =
      match s.declarationsOf name, s.parent with
      | [], some parent => t.nearest parent name
      | found, _ => .ok found := by
  have hid : t.HoldsScope id := (List.getElem?_eq_some_iff.1 hs).1
  rw [nearest, nearestWithin_succ hs]
  split
  · rename_i parent _ hp
    have hlt : parent.index < id.index := h _ s hs parent hp
    have hheld : t.HoldsScope parent := Nat.lt_trans hlt hid
    have hid' : id.index < t.scopes.length := hid
    exact (nearestWithin_of_lt h name hheld (by omega)).trans
      (nearestWithin_of_lt h name hheld (by omega)).symm
  · rfl

theorem declarationsOf_listed (h : t.Valid) {i : Nat} {s : Scope} (hs : t.scopes[i]? = some s)
    {name : String} {id : SymbolId} (hid : id ∈ s.declarationsOf name) : t.Listed (name, id) := by
  obtain ⟨⟨n, j⟩, hd, rfl⟩ := List.mem_map.1 hid
  obtain ⟨hmem, hn⟩ := List.mem_filter.1 hd
  cases of_decide_eq_true hn
  exact h.declarations i s hs (n, j) hmem

theorem exists_nearest (h : t.Valid) {id : ScopeId} (hid : t.HoldsScope id) (name : String) :
    ∃ found, t.nearest id name = .ok found ∧ ∀ j ∈ found, t.Listed (name, j) := by
  obtain ⟨i⟩ := id
  induction i using Nat.strongRecOn with
  | ind i ih =>
    obtain ⟨s, hs⟩ := exists_scope hid
    rw [nearest_eq h.parents hs]
    split
    · rename_i parent _ hp
      have hlt : parent.index < i := h.parents _ s hs parent hp
      exact ih parent.index hlt (Nat.lt_trans hlt hid)
    · exact ⟨_, rfl, fun j hj => declarationsOf_listed h hs hj⟩

theorem exists_lookup (h : t.Valid) {id : ScopeId} (hid : t.HoldsScope id) (name : String) :
    ∃ found, t.lookup id name = .ok found ∧ ∀ j ∈ found, t.Listed (name, j) := by
  obtain ⟨ids, hids, hlisted⟩ := exists_nearest h hid name
  unfold lookup
  by_cases hn : name ∈ t.names
  · rw [if_pos hn, hids]
    exact ⟨ids.head?, rfl, fun j hj => hlisted j (List.mem_of_mem_head? hj)⟩
  · rw [if_neg hn]
    exact ⟨none, rfl, by simp⟩

/-- Only scopes matter to a search. -/
theorem nearest_congr {t' : Table} (h : t'.scopes = t.scopes) (id : ScopeId) (name : String) :
    t'.nearest id name = t.nearest id name := by
  have hwithin : ∀ fuel id, t'.nearestWithin name fuel id = t.nearestWithin name fuel id := by
    intro fuel
    induction fuel with
    | zero => exact fun _ => rfl
    | succ fuel ih =>
      intro id
      simp only [nearestWithin, scope, h, ih]
  rw [nearest, nearest, h, hwithin]

/-- A name that was never mentioned is declared nowhere, so a search for it finds nothing. -/
theorem lookup_eq_nearest (h : t.Valid) {id : ScopeId} (hid : t.HoldsScope id) (name : String) :
    t.lookup id name = (t.nearest id name).map List.head? := by
  obtain ⟨found, hfound, hlisted⟩ := exists_nearest h hid name
  unfold lookup
  split
  · rfl
  · rename_i hn
    cases found with
    | nil =>
      rw [hfound]
      rfl
    | cons j rest => exact absurd (hlisted j (List.mem_cons_self ..)).1 hn

/-- Other names may have come to be known, but no scope lists them. -/
theorem lookup_congr {t' : Table} (h : t.Valid) (h' : t'.Valid) (hs : t'.scopes = t.scopes)
    {id : ScopeId} (hid : t.HoldsScope id) (name : String) : t'.lookup id name = t.lookup id name := by
  have hid' : t'.HoldsScope id := by
    rw [HoldsScope, hs]
    exact hid
  rw [lookup_eq_nearest h hid, lookup_eq_nearest h' hid', nearest_congr hs]

theorem exists_declaredIn {id : ScopeId} (hid : t.HoldsScope id) (name : String) :
    ∃ found, t.declaredIn id name = .ok found := by
  obtain ⟨s, hs⟩ := exists_scope hid
  unfold declaredIn
  by_cases hn : name ∈ t.names
  · rw [if_pos hn, scope_eq_ok.2 hs]
    exact ⟨_, rfl⟩
  · rw [if_neg hn]
    exact ⟨[], rfl⟩

theorem exists_nameOf {id : SymbolId} (hid : t.Holds id) : ∃ name, t.nameOf id = .ok name := by
  obtain ⟨s, hs⟩ : ∃ s, t.symbols[id.index]? = some s := ⟨_, List.getElem?_eq_getElem hid⟩
  exact ⟨s.name, by rw [nameOf, symbol_eq_ok.2 hs]; rfl⟩

theorem exists_memberScope (h : t.Valid) : ∃ id, t.memberScope = .ok id ∧ t.HoldsScope id := by
  unfold memberScope contractRecord?
  cases hc : t.contract with
  | none => exact ⟨.global, rfl, h.global⟩
  | some c =>
    obtain ⟨k, hk⟩ := holds_iff_kind?.1 (h.contract c hc).2
    have hv := h.kind hk
    dsimp only
    rw [kindOf_eq_ok.2 hk]
    cases k with
    | contract info => exact ⟨info.inner, rfl, hv.1⟩
    | _ => exact ⟨.global, rfl, h.global⟩

theorem memberScope_congr {t' : Table} (h : t.Valid) (hc : t'.contract = t.contract)
    (hk : ∀ id k, t.kind? id = some k → ∃ k', t'.kind? id = some k' ∧ k'.contract? = k.contract?) :
    t'.memberScope = t.memberScope := by
  unfold memberScope contractRecord?
  rw [hc]
  cases hcontract : t.contract with
  | none => rfl
  | some c =>
    obtain ⟨k, hkind⟩ := holds_iff_kind?.1 (h.contract c hcontract).2
    obtain ⟨k', hkind', hrecord⟩ := hk c k hkind
    dsimp only
    rw [kindOf_eq_ok.2 hkind, kindOf_eq_ok.2 hkind']
    dsimp only [Except.map]
    rw [hrecord]

theorem mapM_eq_ok {α β : Type} {f : α → Except Dangling β} {g : α → β} {xs : List α}
    (h : ∀ x ∈ xs, f x = .ok (g x)) : xs.mapM f = .ok (xs.map g) := by
  induction xs with
  | nil => rfl
  | cons x xs ih =>
    have hx := h x (List.mem_cons_self ..)
    have hxs := ih fun y hy => h y (List.mem_cons_of_mem _ hy)
    simp [List.mapM_cons, hx, hxs, bind, Except.bind, pure, Except.pure]

theorem exists_mapM {α β : Type} {f : α → Except Dangling β} {xs : List α}
    (h : ∀ x ∈ xs, ∃ y, f x = .ok y) : ∃ ys, xs.mapM f = .ok ys := by
  induction xs with
  | nil => exact ⟨[], rfl⟩
  | cons x xs ih =>
    obtain ⟨y, hy⟩ := h x (List.mem_cons_self ..)
    obtain ⟨ys, hys⟩ := ih fun z hz => h z (List.mem_cons_of_mem _ hz)
    exact ⟨y :: ys, by simp [List.mapM_cons, hy, hys, bind, Except.bind, pure, Except.pure]⟩

theorem exists_takenNames (h : t.Valid) {f : SymbolId} (hf : t.Holds f) {locals : List SymbolId}
    (hl : ∀ id ∈ locals, t.Holds id) : ∃ names, t.takenNames f locals = .ok names := by
  obtain ⟨k, hk⟩ := holds_iff_kind?.1 hf
  have hparams : ∀ id ∈ (k.function?.map (·.params)).getD [], t.Holds id := by
    cases k with
    | function info =>
      intro id hid
      obtain ⟨-, -, hp, -⟩ := h.kind hk
      obtain ⟨type, ht⟩ := hp id hid
      exact holds_iff_kind?.2 ⟨_, ht⟩
    | _ => simp [SymbolKind.function?]
  have hall : ∀ id ∈ (k.function?.map (·.params)).getD [] ++ locals, ∃ n, t.nameOf id = .ok n := by
    intro id hid
    rcases List.mem_append.1 hid with hid | hid
    · exact exists_nameOf (hparams id hid)
    · exact exists_nameOf (hl id hid)
  obtain ⟨names, hnames⟩ := exists_mapM hall
  refine ⟨names, ?_⟩
  simp only [takenNames, function?, kindOf_eq_ok.2 hk, Except.map, bind, Except.bind]
  exact hnames

end Table
end ContractLang
