import ContractLang.Proofs.Closed
/-!
Types are the same exactly if their structure is. In every table that phases can reach there is one
array symbol for an element and one map symbol for a pair of components, so written types with a
meaning get the same number exactly if they have the same shape and their names stand for the same
symbols.
-/
namespace ContractLang
namespace Table

/-- Two written types have the same shape, and names at the same place stand for the same symbol. -/
inductive Agree (t : Table) : TypeName → TypeName → Prop where
  | named {s s' : Span} {a b : String} {id : SymbolId} : t.Means a id → t.Means b id →
      t.Agree (.named s a) (.named s' b)
  | array {s s' : Span} {a b : TypeName} : t.Agree a b → t.Agree (.array s a) (.array s' b)
  | map {s s' : Span} {k k' v v' : TypeName} : t.Agree k k' → t.Agree v v' →
      t.Agree (.map s k v) (.map s' k' v')

/-- Array types differ by their elements, map types by their components. -/
structure OneSymbolEach (t : Table) : Prop where
  arrays : ∀ e x y, t.kind? x = some (.array e) → t.kind? y = some (.array e) → x = y
  maps : ∀ k v x y, t.kind? x = some (.map k v) → t.kind? y = some (.map k v) → x = y

/-- Looks types up one after the other. -/
def typesNamed (t : Table) : List TypeName → Except Dangling (List (Option SymbolId) × Table)
  | [] => .ok ([], t)
  | type :: rest => do
    let (found, t) ← t.typeNamed type
    let (more, t) ← t.typesNamed rest
    return (found :: more, t)

variable {t : Table}

theorem Finds.unique {κ : Type} [DecidableEq κ] {m : Assoc κ SymbolId} {kind : κ → SymbolKind}
    (h : t.Finds m kind) {e : κ} {x y : SymbolId} (hx : t.kind? x = some (kind e))
    (hy : t.kind? y = some (kind e)) : x = y := by
  have hget : m.get? e = some x := (h e x).2 hx
  rw [(h e y).2 hy] at hget
  exact (Option.some.inj hget).symm

theorem Valid.oneSymbolEach (h : t.Valid) : t.OneSymbolEach where
  arrays _ _ _ hx hy := h.arrays.unique hx hy
  maps k v _ _ hx hy := h.maps.unique (e := (k, v)) hx hy

theorem Means.plain (h : t.Valid) {name : String} {id : SymbolId} {k : SymbolKind}
    (hm : t.Means name id) (hk : t.kind? id = some k) : ¬k.IsStructural :=
  (hm.listed h).2.2 k hk

/-- Each round compares the outermost shapes; what is left are the components, or two names. -/
theorem Denotes.eq_iff_agree (h : t.Valid) {a b : TypeName} {x y : SymbolId}
    (ha : t.Denotes a x) (hb : t.Denotes b y) : x = y ↔ t.Agree a b := by
  induction ha generalizing b y with
  | named hm =>
    constructor
    · rintro rfl
      cases hb with
      | named hm' => exact .named hm hm'
      | array _ hk => exact absurd trivial (hm.plain h hk)
      | map _ _ hk => exact absurd trivial (hm.plain h hk)
    · intro hagree
      cases hagree with
      | named ha hb' =>
        cases hb with
        | named hm' =>
          cases hm.unique ha
          exact hb'.unique hm'
  | array _ hk ih =>
    constructor
    · rintro rfl
      cases hb with
      | named hm => exact absurd trivial (hm.plain h hk)
      | array hb hk' =>
        cases hk.symm.trans hk'
        exact .array ((ih hb).1 rfl)
      | map _ _ hk' => cases hk.symm.trans hk'
    · intro hagree
      cases hagree with
      | array hagree =>
        cases hb with
        | array hb hk' =>
          cases (ih hb).2 hagree
          exact h.oneSymbolEach.arrays _ _ _ hk hk'
  | map _ _ hk ihk ihv =>
    constructor
    · rintro rfl
      cases hb with
      | named hm => exact absurd trivial (hm.plain h hk)
      | array _ hk' => cases hk.symm.trans hk'
      | map hbk hbv hk' =>
        cases hk.symm.trans hk'
        exact .map ((ihk hbk).1 rfl) ((ihv hbv).1 rfl)
    · intro hagree
      cases hagree with
      | map hagree hagree' =>
        cases hb with
        | map hbk hbv hk' =>
          cases (ihk hbk).2 hagree
          cases (ihv hbv).2 hagree'
          exact h.oneSymbolEach.maps _ _ _ _ hk hk'

theorem Interns.agree_iff {t' : Table} (hi : t.Interns t') (h : t.Valid) (h' : t'.Valid)
    {a b : TypeName} : t'.Agree a b ↔ t.Agree a b := by
  constructor
  · intro hagree
    induction hagree with
    | named ha hb => exact .named ((hi.means_iff h h').1 ha) ((hi.means_iff h h').1 hb)
    | array _ ih => exact .array ih
    | map _ _ ihk ihv => exact .map ihk ihv
  · intro hagree
    induction hagree with
    | named ha hb => exact .named ((hi.means_iff h h').2 ha) ((hi.means_iff h h').2 hb)
    | array _ ih => exact .array ih
    | map _ _ ihk ihv => exact .map ihk ihv

/-- A type that is there already is found, and nothing is made. -/
theorem Denotes.typeNamed_eq (h : t.Valid) {type : TypeName} {id : SymbolId}
    (hd : t.Denotes type id) : t.typeNamed type = .ok (some id, t) := by
  induction hd with
  | named hm =>
    obtain ⟨scope, hscope, hlookup, k, hk, htype⟩ := hm
    simp only [typeNamed, hscope, hlookup, kindOf_eq_ok.2 hk, htype, bind, Except.bind]
    rfl
  | @array span element e id _ hk ih =>
    have hfound : t.arrayOf e = .ok (id, t) := by rw [arrayOf, (h.arrays e id).2 hk]
    simp only [typeNamed, ih, hfound, bind, Except.bind]
    rfl
  | @map span key value k v id _ _ hk ihk ihv =>
    have hfound : t.mapOf k v = .ok (id, t) := by rw [mapOf, (h.maps (k, v) id).2 hk]
    simp only [typeNamed, ihk, ihv, hfound, bind, Except.bind]
    rfl

/-- What is found for a type still has its structure when the later types have been looked up. -/
theorem exists_typesNamed (h : t.Valid) (types : List TypeName) :
    ∃ found t', t.typesNamed types = .ok (found, t') ∧ t'.Valid ∧ t.Interns t' ∧
      List.Forall₂ (fun type r => (∀ id ∈ r, t'.Denotes type id) ∧
        (r.isSome ↔ t.Meaningful type)) types found := by
  induction types generalizing t with
  | nil => exact ⟨[], t, rfl, h, .refl t, .nil⟩
  | cons type rest ih =>
    obtain ⟨r, t₁, h₁, hv₁, hi₁, hd₁, hm₁⟩ := exists_typeNamed h type
    obtain ⟨found, t₂, h₂, hv₂, hi₂, hrest⟩ := ih hv₁
    refine ⟨r :: found, t₂, ?_, hv₂, hi₁.trans hi₂, .cons ⟨?_, hm₁⟩ ?_⟩
    · simp only [typesNamed, h₁, h₂, bind, Except.bind]
      rfl
    · exact fun id hid => hi₂.denotes hv₁ hv₂ (hd₁ id hid)
    · apply hrest.imp
      intro a b hab
      exact ⟨hab.1, hab.2.trans (hi₁.meaningful_iff h hv₁ a)⟩

end Table

/-- In every table that phases reach, also after more types have been looked up, there is one symbol
for each structure. Two written types that are looked up, at whatever places of the sequence, get the
same symbol exactly if they agree in shape and in what their names stand for; they get one at all
exactly if they have a meaning; and looking them up again gives the same and changes nothing. -/
theorem runAll_identity (steps : List (Phase × Program)) :
    ∃ o, (runAll steps).run .initial = .ok o ∧ o.table.OneSymbolEach ∧
      ∀ types, ∃ found t', o.table.typesNamed types = .ok (found, t') ∧ t'.OneSymbolEach ∧
        (∀ (i j : Nat) a b x y, types[i]? = some a → types[j]? = some b → found[i]? = some (some x) →
          found[j]? = some (some y) → (x = y ↔ o.table.Agree a b)) ∧
        ∀ (i : Nat) a, types[i]? = some a → ∃ r : Option SymbolId, found[i]? = some r ∧
          (r.isSome ↔ o.table.Meaningful a) ∧ ∀ x ∈ r, t'.typeNamed a = .ok (some x, t') := by
  obtain ⟨_, t, ⟨ds, hrun⟩, ht, -, -⟩ := runAll_safe Table.valid_initial steps
  refine ⟨_, hrun, ht.oneSymbolEach, ?_⟩
  intro types
  obtain ⟨found, t', hfound, ht', hi, hall⟩ := Table.exists_typesNamed ht types
  obtain ⟨hlength, hget⟩ := List.forall₂_iff_get.1 hall
  have hat : ∀ (i : Nat) a, types[i]? = some a → ∃ r : Option SymbolId, found[i]? = some r ∧
      (∀ id ∈ r, t'.Denotes a id) ∧ (r.isSome ↔ t.Meaningful a) := by
    intro i a ha
    obtain ⟨hi, rfl⟩ := List.getElem?_eq_some_iff.1 ha
    exact ⟨_, List.getElem?_eq_getElem (hlength ▸ hi), hget i hi (hlength ▸ hi)⟩
  refine ⟨found, t', hfound, ht'.oneSymbolEach, ?_, ?_⟩
  · intro i j a b x y ha hb hx hy
    obtain ⟨r, hr, hdr, -⟩ := hat i a ha
    obtain ⟨s, hs, hds, -⟩ := hat j b hb
    cases hr.symm.trans hx
    cases hs.symm.trans hy
    rw [(hdr x rfl).eq_iff_agree ht' (hds y rfl), hi.agree_iff ht ht']
  · intro i a ha
    obtain ⟨r, hr, hdr, hm⟩ := hat i a ha
    exact ⟨r, hr, hm, fun x hx => (hdr x hx).typeNamed_eq ht'⟩

end ContractLang
