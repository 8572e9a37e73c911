import ContractLang.Proofs.Conversion
import ContractLang.Proofs.Spelling
/-!
Tables that are the same but for names. What declaring puts into a table depends on names only in
that they are kept, and resolving types looks names up nowhere but among the members of a contract.
So a program and its conversion lead to tables that are the same but for names.
-/
namespace ContractLang

theorem map_modify {α β : Type} (g : α → β) (f : α → α) (f' : β → β) (hf : ∀ a, g (f a) = f' (g a))
    (i : Nat) (xs : List α) : (xs.modify i f).map g = (xs.map g).modify i f' := by
  refine List.ext_getElem? fun j => ?_
  simp only [List.getElem?_map, List.getElem?_modify, Option.map_eq_map, Option.map_map]
  refine congrArg (Option.map · xs[j]?) (funext fun a => ?_)
  by_cases hij : i = j <;> simp [hij, hf]

/-! ### The same but for names -/

def Symbol.nameless (s : Symbol) : Symbol := { s with name := "" }

def Scope.nameless (s : Scope) : Scope :=
  { s with declarations := s.declarations.map fun d => ("", d.2) }

/-- The tables differ at most in the names of symbols and of what scopes declare: symbols and scopes
have the same numbers, and all else is the same. -/
structure Table.Alike (t t' : Table) : Prop where
  symbols : t'.symbols.map Symbol.nameless = t.symbols.map Symbol.nameless
  scopes : t'.scopes.map Scope.nameless = t.scopes.map Scope.nameless
  contract : t'.contract = t.contract
  arrays : t'.arrays = t.arrays
  maps : t'.maps = t.maps
  declared : t'.declared = t.declared
  nodes : t'.nodes = t.nodes
  bindings : t'.bindings = t.bindings
  types : t'.types = t.types

namespace Table

theorem Alike.refl (t : Table) : t.Alike t := ⟨rfl, rfl, rfl, rfl, rfl, rfl, rfl, rfl, rfl⟩

namespace Alike
variable {t t' : Table} (h : t.Alike t')
include h

theorem symbols_length : t'.symbols.length = t.symbols.length := by
  have hlen := congrArg List.length h.symbols
  rwa [List.length_map, List.length_map] at hlen

theorem scopes_length : t'.scopes.length = t.scopes.length := by
  have hlen := congrArg List.length h.scopes
  rwa [List.length_map, List.length_map] at hlen

theorem kind?_eq (id : SymbolId) : t'.kind? id = t.kind? id := by
  have hget := congrArg (fun xs => xs[id.index]?.map Symbol.kind) h.symbols
  simp only [List.getElem?_map, Option.map_map] at hget
  exact hget

theorem kindOf_eq {id : SymbolId} {k k' : SymbolKind} (hk : t.kindOf id = .ok k)
    (hk' : t'.kindOf id = .ok k') : k' = k := by
  rw [kindOf_eq_ok] at hk hk'
  rw [h.kind?_eq, hk] at hk'
  exact (Option.some.inj hk').symm

/-- A new symbol, with the lists by which types are found again. -/
theorem addSymbol (s : Symbol) (name : String) {arrays arrays' : Assoc SymbolId SymbolId}
    {maps maps' : Assoc (SymbolId × SymbolId) SymbolId} (ha : arrays' = arrays) (hm : maps' = maps) :
    Alike { (t.addSymbol s).2 with arrays := arrays, maps := maps }
      { (t'.addSymbol { s with name := name }).2 with arrays := arrays', maps := maps' } :=
  { h with
    symbols := by
      change (t'.symbols ++ [{ s with name := name }]).map _ = (t.symbols ++ [s]).map _
      rw [List.map_append, List.map_append, h.symbols]
      rfl
    arrays := ha
    maps := hm }

theorem amend (id : SymbolId) (f : SymbolKind → SymbolKind) : (t.amend id f).Alike (t'.amend id f) :=
  { h with
    symbols := by
      have hmap := map_modify Symbol.nameless (fun s => { s with kind := f s.kind })
        (fun s => { s with kind := f s.kind }) (fun _ => rfl) id.index
      exact (hmap t'.symbols).trans (h.symbols ▸ (hmap t.symbols).symm) }

theorem enter (node : Node) (x x' : String) (scope : ScopeId) (kind : SymbolKind) :
    (t.enter node x scope kind).Alike (t'.enter node x' scope kind) where
  symbols := by
    change (t'.symbols ++ [_]).map _ = (t.symbols ++ [_]).map _
    rw [List.map_append, List.map_append, h.symbols]
    rfl
  scopes := by
    have hadd : ∀ (u : Table) (y : String),
        (u.enter node y scope kind).scopes.map Scope.nameless =
          (u.scopes.map Scope.nameless).modify scope.index (·.add "" ⟨u.symbols.length⟩) :=
      fun u y => map_modify _ _ _ (fun s => by simp [Scope.nameless, Scope.add]) ..
    rw [hadd, hadd, h.scopes, h.symbols_length]
  contract := h.contract
  arrays := h.arrays
  maps := h.maps
  declared := by
    change t'.declared.insert _ _ = t.declared.insert _ _
    rw [h.declared, h.symbols_length]
  nodes := by
    change t'.nodes.insert _ _ = t.nodes.insert _ _
    rw [h.nodes, h.symbols_length]
  bindings := h.bindings
  types := h.types

theorem addScope (kind : ScopeKind) (parent : Option ScopeId) :
    (t.addScope kind parent).2.Alike (t'.addScope kind parent).2 :=
  { h with
    scopes := by
      change (t'.scopes ++ [_]).map _ = (t.scopes ++ [_]).map _
      rw [List.map_append, List.map_append, h.scopes] }

theorem setOwner (scope : ScopeId) (id : SymbolId) :
    Alike { t with scopes := t.scopes.modify scope.index fun s => { s with owner := some id } }
      { t' with scopes := t'.scopes.modify scope.index fun s => { s with owner := some id } } :=
  { h with
    scopes := by
      have hmap := map_modify Scope.nameless (fun s => { s with owner := some id })
        (fun s => { s with owner := some id }) (fun _ => rfl) scope.index
      exact (hmap t'.scopes).trans (h.scopes ▸ (hmap t.scopes).symm) }

end Alike
end Table

/-! ### Two passes side by side -/

open Table

namespace Pass
variable {β γ : Type} {R : Table → Table → Prop}

/-- Wherever the two lead from tables that are so related, they give the same and lead to such
tables again. -/
structure Coheres (R : Table → Table → Prop) (x y : Pass β) : Prop where
  leads : ∀ {t t' u u' a b}, R t t' → x.Leads t a u → y.Leads t' b u' → a = b ∧ R u u'

theorem coheres_pure (a : β) : Coheres R (pure a) (pure a) where
  leads {t t' u u' _ _} hR h h' := by
    obtain ⟨rfl, rfl⟩ := leads_pure.1 h
    obtain ⟨rfl, rfl⟩ := leads_pure.1 h'
    exact ⟨rfl, hR⟩

theorem coheres_bind {x y : Pass β} {f g : β → Pass γ} (hx : Coheres R x y)
    (hf : ∀ a, Coheres R (f a) (g a)) : Coheres R (x >>= f) (y >>= g) where
  leads {t t' u u' _ _} hR h h' := by
    obtain ⟨a, s, h₁, h₂⟩ := leads_bind.1 h
    obtain ⟨b, s', h₁', h₂'⟩ := leads_bind.1 h'
    obtain ⟨rfl, hs⟩ := hx.leads hR h₁ h₁'
    exact (hf a).leads hs h₂ h₂'

/-- Steps that leave the table as it is may give different values, if these do not matter. -/
theorem coheres_bind_still {δ : Type} {x : Pass β} {y : Pass δ} {f : β → Pass γ} {g : δ → Pass γ}
    {C D : Category} (hx : Keeps Eq x C) (hy : Keeps Eq y D) (hf : ∀ a b, Coheres R (f a) (g b)) :
    Coheres R (x >>= f) (y >>= g) where
  leads {t t' u u' _ _} hR h h' := by
    obtain ⟨a, s, h₁, h₂⟩ := leads_bind.1 h
    obtain ⟨b, s', h₁', h₂'⟩ := leads_bind.1 h'
    obtain rfl := hx.leads h₁
    obtain rfl := hy.leads h₁'
    exact (hf a b).leads hR h₂ h₂'

theorem coheres_still {x y : Pass Unit} {C D : Category} (hx : Keeps Eq x C) (hy : Keeps Eq y D) :
    Coheres R x y where
  leads {t t' u u' _ _} hR h h' := by
    obtain rfl := hx.leads h
    obtain rfl := hy.leads h'
    exact ⟨rfl, hR⟩

theorem coheres_forM {f : β → Pass Unit} {g : γ → Pass Unit} {r : β → γ}
    (h : ∀ x, Coheres R (f x) (g (r x))) (xs : List β) : Coheres R (xs.forM f) ((xs.map r).forM g) := by
  induction xs with
  | nil => exact coheres_pure ()
  | cons x rest ih => exact coheres_bind (h x) fun _ => ih

theorem coheres_view {f : Table → β} (h : ∀ {t t'}, R t t' → f t' = f t) : Coheres R (view f) (view f) where
  leads {t t' u u' _ _} hR hx hy := by
    obtain ⟨rfl, rfl⟩ := leads_view.1 hx
    obtain ⟨rfl, rfl⟩ := leads_view.1 hy
    exact ⟨(h hR).symm, hR⟩

theorem coheres_updateKind (id : SymbolId) (f : SymbolKind → SymbolKind) :
    Coheres Alike (update (·.updateKind id f)) (update (·.updateKind id f)) where
  leads {t t' u u' _ _} hR hx hy := by
    obtain ⟨-, rfl⟩ := updateKind_eq_ok.1 (leads_update.1 hx)
    obtain ⟨-, rfl⟩ := updateKind_eq_ok.1 (leads_update.1 hy)
    exact ⟨rfl, hR.amend id f⟩

theorem coheres_updateContract (f : ContractRecord → ContractRecord) :
    Coheres Alike (update (·.updateContract f)) (update (·.updateContract f)) where
  leads {t t' u u' _ _} hR hx hy := by
    have hx := leads_update.1 hx
    have hy := leads_update.1 hy
    unfold updateContract at hx hy
    rw [hR.contract] at hy
    cases hc : t.contract with
    | none =>
      rw [hc] at hx hy
      cases hx
      cases hy
      exact ⟨rfl, hR⟩
    | some id =>
      rw [hc] at hx hy
      exact (coheres_updateKind id (·.mapContract f)).leads hR (leads_update.2 hx) (leads_update.2 hy)

/-! ### Declaring -/

theorem coheres_declareNode (scope : ScopeId) (x y : String) (node : Node) (kind : SymbolKind) :
    Coheres Alike (declareNode scope x node kind) (declareNode scope y node kind) where
  leads {t t' u u' _ _} hR hx hy := by
    obtain ⟨ds, hx⟩ := hx
    obtain ⟨es, hy⟩ := hy
    obtain ⟨-, rfl, rfl, rfl⟩ := run_declareNode_iff.1 hx
    obtain ⟨-, rfl, rfl, rfl⟩ := run_declareNode_iff.1 hy
    exact ⟨congrArg SymbolId.mk hR.symbols_length.symm, hR.enter node x y scope kind⟩

theorem coheres_declareOwner (outer : ScopeId) (x y : String) (node : Node) (scopeKind : ScopeKind)
    (kind : ScopeId → SymbolKind) : Coheres Alike (declareOwner outer x node scopeKind kind)
      (declareOwner outer y node scopeKind kind) := by
  have hscope : Coheres Alike (state fun t => .ok (t.addScope scopeKind (some outer)))
      (state fun t => .ok (t.addScope scopeKind (some outer))) := by
    refine ⟨fun {t t' u u' _ _} hR hx hy => ?_⟩
    cases leads_state.1 hx
    cases leads_state.1 hy
    exact ⟨congrArg ScopeId.mk hR.scopes_length.symm, hR.addScope scopeKind (some outer)⟩
  have howner : ∀ inner id, Coheres Alike (update (·.setOwner inner id)) (update (·.setOwner inner id)) := by
    refine fun inner id => ⟨fun {t t' u u' _ _} hR hx hy => ?_⟩
    obtain ⟨-, rfl⟩ := updateScope_eq_ok.1 (leads_update.1 hx)
    obtain ⟨-, rfl⟩ := updateScope_eq_ok.1 (leads_update.1 hy)
    exact ⟨rfl, hR.setOwner inner id⟩
  apply coheres_bind hscope
  intro inner
  apply coheres_bind (coheres_declareNode outer x y node (kind inner))
  intro id
  exact coheres_bind (howner inner id) fun _ => coheres_pure _

end Pass

open Pass

theorem FieldDecl.declare_coheres (structs structs' : List String) (scope : ScopeId) (f f' : FieldDecl)
    (hnode : f'.node = f.node) : Coheres Alike (f.declare structs scope) (f'.declare structs' scope) := by
  apply coheres_bind_still (checkName_still ..) (checkName_still ..)
  intro _ _
  apply coheres_bind_still (checkUntaken_still ..) (checkUntaken_still ..)
  intro _ _
  rw [hnode]
  exact coheres_declareNode ..

variable (α : Conversion)

theorem StructDecl.declare_coheres (structs structs' : List String) (outer : ScopeId) (s : StructDecl) :
    Coheres Alike (s.declare structs outer) ((s.convert α).declare structs' outer) := by
  apply coheres_bind_still (checkName_still ..) (checkName_still ..)
  intro _ _
  apply coheres_bind_still (checkUntaken_still ..) (checkUntaken_still ..)
  intro _ _
  apply coheres_bind (coheres_declareOwner outer s.name.text s.name.text s.node .struct _)
  intro owner
  refine coheres_bind (coheres_forM (fun f => ?_) s.fields) fun _ => coheres_pure _
  exact coheres_bind (FieldDecl.declare_coheres _ _ _ f (f.convert α) rfl) fun _ => coheres_updateKind ..

namespace VarDecl

theorem declareAsParam_coheres (c : BodyContext) (v : VarDecl) :
    Coheres Alike (v.declareAsParam c) ((v.convert α).declareAsParam c) := by
  apply coheres_bind_still (checkName_still ..) (checkName_still ..)
  intro _ _
  apply coheres_bind_still (checkUntaken_still ..) (checkUntaken_still ..)
  intro _ _
  exact coheres_bind (coheres_declareNode _ _ _ v.node _) fun _ => coheres_updateKind ..

theorem declareAsLocal_coheres (c : BodyContext) (reach : List SymbolId) (v : VarDecl) :
    Coheres Alike (v.declareAsLocal c reach) ((v.convert α).declareAsLocal c reach) := by
  apply coheres_bind_still (checkName_still ..) (checkName_still ..)
  intro _ _
  apply coheres_bind_still (C := .declaration) (D := .declaration) (keeps_query _) (keeps_query _)
  intro _ _
  apply coheres_bind_still (keeps_reportIf ..) (keeps_reportIf ..)
  intro _ _
  apply coheres_bind (coheres_declareNode _ _ _ v.node _)
  intro id
  exact coheres_bind (coheres_updateKind ..) fun _ => coheres_pure id

end VarDecl

theorem declareLocals_coheres (c : BodyContext) (reach : List SymbolId) (vs : List VarDecl) :
    Coheres Alike (declareLocals c reach vs) (declareLocals c reach (vs.map (·.convert α))) := by
  induction vs generalizing reach with
  | nil => exact coheres_pure reach
  | cons v rest ih => exact coheres_bind (v.declareAsLocal_coheres α c reach) fun id => ih _

theorem showTo_coheres (stmt : NodeId) (reach : List SymbolId) :
    Coheres Alike (showTo stmt reach) (showTo stmt reach) := by
  induction reach with
  | nil => exact coheres_pure ()
  | cons id rest ih => exact coheres_bind (coheres_updateKind id (·.addVisibility stmt)) fun _ => ih

mutual
theorem Stmt.declareLocals_coheres (c : BodyContext) (reach : List SymbolId) (s : Stmt) :
    Coheres Alike (s.declareLocals c reach) ((s.convert α).declareLocals c reach) := by
  cases s with
  | declare node vars init => exact ContractLang.declareLocals_coheres α c reach vars
  | branch node condition onTrue onFalse =>
    cases onFalse with
    | none =>
      exact coheres_bind (declareLocalsIn_coheres c reach onTrue.stmts) fun _ => coheres_pure reach
    | some onFalse =>
      apply coheres_bind (declareLocalsIn_coheres c reach onTrue.stmts)
      intro _
      exact coheres_bind (declareLocalsIn_coheres c reach onFalse.stmts) fun _ => coheres_pure reach
  | assign node target value => exact coheres_pure reach
  | assignAll node targets source => exact coheres_pure reach
  | giveBack node values => exact coheres_pure reach

theorem declareLocalsIn_coheres (c : BodyContext) (reach : List SymbolId) (b : List Stmt) :
    Coheres Alike (declareLocalsIn c reach b) (declareLocalsIn c reach (convertStmts α b)) := by
  cases b with
  | nil => exact coheres_pure ()
  | cons s rest =>
    have hshow := showTo_coheres s.id reach
    rw [convertStmts, declareLocalsIn, declareLocalsIn, s.id_convert α]
    apply coheres_bind hshow
    intro _
    exact coheres_bind (s.declareLocals_coheres c reach) fun reach => declareLocalsIn_coheres c reach rest
end

theorem Callable.declare_coheres (structs : List String) (outer : ScopeId) (f : Callable) :
    Coheres Alike (f.declare structs outer) ((f.convert α).declare structs outer) := by
  rw [f.declare_eq, (f.convert α).declare_eq]
  apply coheres_bind_still (f.checkName_still outer) (Callable.checkName_still outer _)
  intro _ _
  apply coheres_bind (coheres_declareOwner outer f.declaredName f.declaredName f.node .function _)
  intro owner
  apply coheres_bind (coheres_forM (fun v => v.declareAsParam_coheres α _) f.params)
  intro _
  exact coheres_bind (declareLocalsIn_coheres α _ [] f.body.stmts) fun _ => coheres_pure _

theorem ContractDecl.declare_coheres (c : ContractDecl) :
    Coheres Alike c.declare (c.convert α).declare := by
  apply coheres_bind_still (checkName_still ..) (checkName_still ..)
  intro _ _
  apply coheres_bind_still (checkUntaken_still ..) (checkUntaken_still ..)
  intro _ _
  apply coheres_bind (coheres_declareOwner .global c.name.text c.name.text c.node .contract _)
  intro owner
  have hcontract : Coheres Alike (adjust (·.setContract owner.symbol)) (adjust (·.setContract owner.symbol)) := by
    refine ⟨fun {t t' u u' _ _} hR hx hy => ?_⟩
    cases leads_adjust.1 hx
    cases leads_adjust.1 hy
    exact ⟨rfl, { hR with contract := rfl }⟩
  have hstructs : (c.convert α).structs.map (·.name.text) = c.structs.map (·.name.text) :=
    List.map_map
  rw [hstructs, c.callables_convert]
  apply coheres_bind hcontract
  intro _
  apply coheres_bind
  · refine coheres_forM (fun f => ?_) c.fields
    exact coheres_bind (f.declare_coheres _ _ _ (f.convert α) rfl) fun _ => coheres_updateContract _
  intro _
  apply coheres_bind
  · refine coheres_forM (fun s => ?_) c.structs
    exact coheres_bind (s.declare_coheres α _ _ _) fun _ => coheres_updateContract _
  intro _
  refine coheres_forM (fun f => ?_) c.callables
  exact coheres_bind (f.declare_coheres α _ _) fun _ => coheres_updateContract _

/-! ### Resolving types -/

namespace Table

theorem Alike.symbolOf?_eq {t t' : Table} (h : t.Alike t') (ref : Ref) :
    t'.symbolOf? ref = t.symbolOf? ref := by
  cases ref with
  | builtin id => rfl
  | declared node => exact congrArg (Assoc.get? · node) h.declared

theorem Alike.typeOf?_eq {t t' : Table} (h : t.Alike t') (type : Ty) :
    t'.typeOf? type = t.typeOf? type := by
  induction type with
  | named ref => exact h.symbolOf?_eq ref
  | array element ih => rw [typeOf?, typeOf?, ih, h.arrays]
  | map key value ihk ihv => rw [typeOf?, typeOf?, ihk, ihv, h.maps]

namespace Retypes
variable {c : ContractDecl} {t u : Table} (h : t.Retypes u) (ht : c.Founded t)
include h ht

theorem memberScope_eq : u.memberScope = .ok .members := by
  have hscope := ht.memberScope
  unfold memberScope contractRecord? at hscope ⊢
  rw [h.contract]
  rw [ht.contract] at hscope ⊢
  obtain ⟨k, hk⟩ := holds_iff_kind?.1 (ht.valid.contract _ ht.contract).2
  obtain ⟨s, hs, rfl⟩ := Option.map_eq_some_iff.1 hk
  obtain ⟨k, hs', hretyped⟩ := h.old _ s hs
  have hk' : u.kind? .contract = some k := Option.map_eq_some_iff.2 ⟨_, hs', rfl⟩
  dsimp only at hscope ⊢
  rw [kindOf_eq_ok.2 hk] at hscope
  rw [kindOf_eq_ok.2 hk']
  generalize s.kind = old at hscope hretyped
  cases hretyped with
  | same => exact hscope
  | _ => cases hscope

/-- No scope lists the types that are made, so what a name stands for stays the same. -/
theorem lookup_eq (x : String) : u.lookup .members x = .ok (t.candidates .members x).head? := by
  have hnearest : u.nearest .members x = .ok (t.candidates .members x) :=
    (nearest_congr h.scopes .members x).trans (nearest_eq_candidates ht.valid ht.holdsScope_members x)
  by_cases hx : x ∈ u.names
  · rw [lookup, if_pos hx, hnearest]
    rfl
  · rw [lookup, if_neg hx, ← ht.lookup_eq, lookup, if_neg fun hmem => hx (h.names.subset hmem)]

end Retypes

/-- The tables are alike, and each comes from its base by resolving types. -/
structure Twins (base base' t t' : Table) : Prop where
  alike : t.Alike t'
  left : base.Retypes t
  right : base'.Retypes t'

end Table

theorem ContractDecl.Founded.same_candidates {c c' : ContractDecl} {t t' : Table} (h : c.Founded t)
    (h' : c'.Founded t') (henv : c'.env = c.env) (ha : t.Alike t') (x : String) :
    t'.candidates .members x = t.candidates .members x := by
  have hleft := (h.candidates_env x).imp fun _ _ hr => hr.symbol
  have hright := (h'.candidates_env x).imp fun _ _ hr => (ha.symbolOf?_eq _).symm.trans hr.symbol
  rw [henv] at hright
  exact List.right_unique_forall₂' (fun _ _ _ hx hy => Option.some.inj (hx.symm.trans hy)) hright hleft

namespace Pass

theorem coheres_arrayOf (element : SymbolId) :
    Coheres Alike (state (·.arrayOf element)) (state (·.arrayOf element)) where
  leads {t t' u u' _ _} hR hx hy := by
    have hfound := congrArg (Assoc.get? · element) hR.arrays
    rcases arrayOf_cases (leads_state.1 hx) with ⟨hget, rfl⟩ | ⟨hget, name, -, rfl, rfl⟩
    · rcases arrayOf_cases (leads_state.1 hy) with ⟨hget', rfl⟩ | ⟨hget', -⟩
      · exact ⟨Option.some.inj (hget.symm.trans (hfound.symm.trans hget')), hR⟩
      · cases hget.symm.trans (hfound.symm.trans hget')
    · rcases arrayOf_cases (leads_state.1 hy) with ⟨hget', -⟩ | ⟨hget', name', -, rfl, rfl⟩
      · cases hget.symm.trans (hfound.symm.trans hget')
      · refine ⟨congrArg SymbolId.mk hR.symbols_length.symm, hR.addSymbol _ _ ?_ hR.maps⟩
        rw [hR.arrays, hR.symbols_length]

theorem coheres_mapOf (key value : SymbolId) :
    Coheres Alike (state (·.mapOf key value)) (state (·.mapOf key value)) where
  leads {t t' u u' _ _} hR hx hy := by
    have hfound := congrArg (Assoc.get? · (key, value)) hR.maps
    rcases mapOf_cases (leads_state.1 hx) with ⟨hget, rfl⟩ | ⟨hget, keyName, valueName, -, -, rfl, rfl⟩
    · rcases mapOf_cases (leads_state.1 hy) with ⟨hget', rfl⟩ | ⟨hget', -⟩
      · exact ⟨Option.some.inj (hget.symm.trans (hfound.symm.trans hget')), hR⟩
      · cases hget.symm.trans (hfound.symm.trans hget')
    · rcases mapOf_cases (leads_state.1 hy) with ⟨hget', -⟩ | ⟨hget', keyName', valueName', -, -, rfl, rfl⟩
      · cases hget.symm.trans (hfound.symm.trans hget')
      · refine ⟨congrArg SymbolId.mk hR.symbols_length.symm, hR.addSymbol _ _ hR.arrays ?_⟩
        rw [hR.maps, hR.symbols_length]

/-- A step that goes on alike and only resolves types keeps twins. -/
theorem Coheres.twins {base base' : Table} {x y : Pass β} (h : Coheres Alike x y)
    (hx : Keeps Retypes x .typeResolution) (hy : Keeps Retypes y .typeResolution) :
    Coheres (Twins base base') x y where
  leads hR h₁ h₂ := by
    obtain ⟨heq, halike⟩ := h.leads hR.alike h₁ h₂
    exact ⟨heq, halike, hR.left.trans (hx.leads h₁), hR.right.trans (hy.leads h₂)⟩

end Pass

section
variable {c c' : ContractDecl} {t t' : Table} (h : c.Founded t) (h' : c'.Founded t')
  (henv : c'.env = c.env) (ha : t.Alike t')
include h h' henv ha

theorem TypeName.state_coheres (type : TypeName) :
    Coheres (Twins t t') (state (·.typeNamed type)) (state (·.typeNamed type)) := by
  induction type with
  | named span name =>
    rw [state_typeNamed_named]
    refine ⟨fun {u u' w w' _ _} hR hx hy => ?_⟩
    obtain ⟨scope, _, hscope, hx₁⟩ := leads_bind.1 hx
    obtain ⟨scope', _, hscope', hy₁⟩ := leads_bind.1 hy
    obtain ⟨hscope, rfl⟩ := leads_query.1 hscope
    obtain ⟨hscope', rfl⟩ := leads_query.1 hscope'
    cases hscope.symm.trans (hR.left.memberScope_eq h)
    cases hscope'.symm.trans (hR.right.memberScope_eq h')
    obtain ⟨found, _, hfound, hx₂⟩ := leads_bind.1 hx₁
    obtain ⟨found', _, hfound', hy₂⟩ := leads_bind.1 hy₁
    obtain ⟨hfound, rfl⟩ := leads_query.1 hfound
    obtain ⟨hfound', rfl⟩ := leads_query.1 hfound'
    cases hfound.symm.trans (hR.left.lookup_eq h name)
    cases hfound'.symm.trans (hR.right.lookup_eq h' name)
    rw [h.same_candidates h' henv ha name] at hy₂
    cases hhead : (t.candidates .members name).head? with
    | none =>
      rw [hhead] at hx₂ hy₂
      exact (coheres_pure none).leads hR hx₂ hy₂
    | some id =>
      rw [hhead] at hx₂ hy₂
      obtain ⟨k, _, hk, hx₃⟩ := leads_bind.1 hx₂
      obtain ⟨k', _, hk', hy₃⟩ := leads_bind.1 hy₂
      obtain ⟨hk, rfl⟩ := leads_query.1 hk
      obtain ⟨hk', rfl⟩ := leads_query.1 hk'
      cases hR.alike.kindOf_eq hk hk'
      exact (coheres_pure _).leads hR hx₃ hy₃
  | array span element ih =>
    rw [state_typeNamed_array]
    apply coheres_bind ih
    intro found
    cases found with
    | none => exact coheres_pure none
    | some id =>
      exact coheres_bind ((coheres_arrayOf id).twins (keeps_arrayOf id) (keeps_arrayOf id)) fun array =>
        coheres_pure _
  | map span key value ihk ihv =>
    rw [state_typeNamed_map]
    apply coheres_bind ihk
    intro found
    cases found with
    | none => exact coheres_pure none
    | some k =>
      apply coheres_bind ihv
      intro found
      cases found with
      | none => exact coheres_pure none
      | some v =>
        exact coheres_bind ((coheres_mapOf k v).twins (keeps_mapOf k v) (keeps_mapOf k v)) fun map =>
          coheres_pure _
  | void span => exact coheres_pure none

theorem TypeName.resolve_coheres (type : TypeName) : Coheres (Twins t t') type.resolve type.resolve := by
  apply coheres_bind (type.state_coheres h h' henv ha)
  intro found
  exact coheres_bind_still (keeps_reportIf ..) (keeps_reportIf ..) fun _ _ => coheres_pure found

theorem resolveTypes_coheres (types : List TypeName) :
    Coheres (Twins t t') (resolveTypes types) (resolveTypes types) := by
  induction types with
  | nil => exact coheres_pure []
  | cons type rest ih =>
    apply coheres_bind (type.resolve_coheres h h' henv ha)
    intro found
    exact coheres_bind ih fun more => coheres_pure _

omit h h' henv ha in
theorem coheres_declaredBy (node : NodeId) :
    Coheres (Twins t t') (view (·.declaredBy? node)) (view (·.declaredBy? node)) :=
  coheres_view fun hR => congrArg (Assoc.get? · node) hR.alike.declared

theorem settleType_coheres (node : NodeId) (type : TypeName) :
    Coheres (Twins t t') (settleType node type) (settleType node type) := by
  apply coheres_bind (coheres_declaredBy node)
  intro found
  cases found with
  | none => exact coheres_pure ()
  | some id =>
    dsimp only
    split
    · exact coheres_still (keeps_report ..) (keeps_report ..)
    · apply coheres_bind (type.resolve_coheres h h' henv ha)
      intro resolved
      cases resolved with
      | none => exact coheres_pure ()
      | some resolved =>
        exact Coheres.twins (coheres_updateKind id _) (keeps_setValueType id resolved)
          (keeps_setValueType id resolved)

variable (α : Conversion)

theorem Callable.settleReturns_coheres (f : Callable) (id : SymbolId) :
    Coheres (Twins t t') (f.settleReturns id) ((f.convert α).settleReturns id) := by
  have hvoid : ∀ f : Callable, Keeps Eq f.checkVoid .typeResolution := by
    intro f
    unfold Callable.checkVoid
    split
    · exact keeps_pure ()
    · exact keeps_reportIf ..
  apply coheres_bind_still (keeps_reportIf ..) (keeps_reportIf ..)
  intro _ _
  apply coheres_bind_still (hvoid f) (hvoid _)
  intro _ _
  apply coheres_bind (ContractLang.resolveTypes_coheres h h' henv ha _)
  intro types
  exact Coheres.twins (coheres_updateKind id _) (keeps_setReturns id types) (keeps_setReturns id types)

theorem resolveVars_coheres (vs : List VarDecl) :
    Coheres (Twins t t') (vs.forM (·.resolveType)) ((vs.map (·.convert α)).forM (·.resolveType)) := by
  refine coheres_forM (fun v => ?_) vs
  exact settleType_coheres h h' henv ha v.node.id v.type

theorem Callable.resolveTypes_coheres (f : Callable) :
    Coheres (Twins t t') f.resolveTypes (f.convert α).resolveTypes := by
  apply coheres_bind (coheres_declaredBy f.node.id)
  intro found
  cases found with
  | none => exact coheres_pure ()
  | some id =>
    apply coheres_bind (resolveVars_coheres h h' henv ha α f.params)
    intro _
    apply coheres_bind (f.settleReturns_coheres h h' henv ha α id)
    intro _
    rw [resolveTypesIn_eq, resolveTypesIn_eq, f.locals_convert]
    exact resolveVars_coheres h h' henv ha α _

theorem ContractDecl.resolveTypes_coheres (d : ContractDecl) :
    Coheres (Twins t t') d.resolveTypes (d.convert α).resolveTypes := by
  have hfields : ∀ fs : List FieldDecl, Coheres (Twins t t') (fs.forM (·.resolveType))
      ((fs.map (·.convert α)).forM (·.resolveType)) := by
    refine fun fs => coheres_forM (fun f => ?_) fs
    exact settleType_coheres h h' henv ha f.node.id f.type
  unfold ContractDecl.resolveTypes
  rw [d.callables_convert]
  apply coheres_bind (hfields d.fields)
  intro _
  apply coheres_bind (coheres_forM (fun s : StructDecl => hfields s.fields) d.structs)
  intro _
  exact coheres_forM (fun f => f.resolveTypes_coheres h h' henv ha α) d.callables

end

/-! ### Contracts -/

namespace ContractDecl
variable {c : ContractDecl}

/-- Others see nothing of the names inside a callable. -/
theorem env_convert (α : Conversion) (c : ContractDecl) : (c.convert α).env = c.env := by
  have hmembers : (c.convert α).memberEntities = c.memberEntities := by
    have hcallable : ∀ f : Callable, (f.convert α).entity = f.entity := by
      intro f
      unfold Callable.entity Callable.convert
      rw [List.map_map]
      rfl
    simp only [memberEntities, members, callables_convert, fields_convert, structs_convert,
      List.map_append, List.map_map]
    refine congrArg₂ _ rfl (List.map_congr_left fun f _ => ?_)
    exact Prod.ext rfl (hcallable f)
  unfold ContractDecl.env
  rw [hmembers]
  rfl

theorem founded_of_leads (hn : c.declarationIds.Nodup) {u : Unit} {t : Table}
    (h : c.declare.Leads .initial u t) : c.Founded t := by
  obtain ⟨_, _, hleads, hv, -⟩ := c.declare_safe valid_initial
  obtain ⟨-, rfl⟩ := leads_unique h hleads
  obtain ⟨ds, hrun⟩ := hleads
  exact founded_of_declares hv hn (declare_inv hrun).1

/-- Declaring a contract and resolving its types comes to the same for its conversion, but for
names. -/
theorem alike_convert (α : Conversion) (hn : c.declarationIds.Nodup) {u v u' v' : Unit}
    {t s t' s' : Table} (hd : c.declare.Leads .initial u t) (hr : c.resolveTypes.Leads t v s)
    (hd' : (c.convert α).declare.Leads .initial u' t')
    (hr' : (c.convert α).resolveTypes.Leads t' v' s') : s.Alike s' := by
  have ha := ((c.declare_coheres α).leads (Alike.refl _) hd hd').2
  have h := founded_of_leads hn hd
  have h' := founded_of_leads (c.declarationIds_convert α ▸ hn) hd'
  have htwins : Twins t t' t t' := ⟨ha, .refl t, .refl t'⟩
  exact ((resolveTypes_coheres h h' (c.env_convert α) ha α c).leads htwins hr hr').2.alike

end ContractDecl
end ContractLang
