import ContractLang.Proofs.Realizing
/-!
How types are spelled. The symbol of an array or a map type is named for its components, so the
name of a type can be read off the type and the names of what is declared.
-/
namespace ContractLang

open Pass Table

namespace Table

/-- The name is the one that the components of an array or a map type give it. -/
def Spells (t : Table) (name : String) : SymbolKind → Prop
  | .array element => ∃ text, t.nameOf element = .ok text ∧ name = Table.arrayName text
  | .map key value => ∃ keyText valueText, t.nameOf key = .ok keyText ∧
      t.nameOf value = .ok valueText ∧ name = Table.mapName keyText valueText
  | _ => True

def Spelled (t : Table) : Prop := ∀ s ∈ t.symbols, t.Spells s.name s.kind

variable {t t' t'' : Table}

theorem nameOf_eq_ok {id : SymbolId} {name : String} :
    t.nameOf id = .ok name ↔ ∃ s, t.symbols[id.index]? = some s ∧ s.name = name := by
  unfold nameOf symbol
  cases t.symbols[id.index]? with
  | none => simp [Except.map]
  | some s => simp [Except.map]

theorem spells_of_plain (t : Table) (name : String) {k : SymbolKind} (h : ¬k.IsStructural) :
    t.Spells name k := by
  cases k with
  | array element => exact absurd trivial h
  | map key value => exact absurd trivial h
  | _ => trivial

/-- Every symbol that has a name in the first table has the same name in the second. -/
def KeepsNames (t t' : Table) : Prop :=
  ∀ id name, t.nameOf id = .ok name → t'.nameOf id = .ok name

theorem KeepsNames.spells (h : t.KeepsNames t') {name : String} {k : SymbolKind}
    (hk : t.Spells name k) : t'.Spells name k := by
  cases k with
  | array element =>
    obtain ⟨text, helement, hname⟩ := hk
    exact ⟨text, h _ _ helement, hname⟩
  | map key value =>
    obtain ⟨keyText, valueText, hkey, hvalue, hname⟩ := hk
    exact ⟨keyText, valueText, h _ _ hkey, h _ _ hvalue, hname⟩
  | _ => trivial

theorem Retypes.keepsNames (h : t.Retypes t') : t.KeepsNames t' := by
  intro id name hid
  obtain ⟨s, hs, rfl⟩ := nameOf_eq_ok.1 hid
  obtain ⟨k, hs', -⟩ := h.old _ s hs
  exact nameOf_eq_ok.2 ⟨_, hs', rfl⟩

/-- Names stay as they are while types are resolved, so only new symbols have to be looked at. -/
theorem Retypes.spelled (h : t.Retypes t') (ht : t.Spelled)
    (hnew : ∀ s ∈ t'.symbols.drop t.symbols.length, t'.Spells s.name s.kind) : t'.Spelled := by
  intro s' hs'
  obtain ⟨i, hi⟩ := List.mem_iff_getElem?.1 hs'
  by_cases hlt : i < t.symbols.length
  · have hs := List.getElem?_eq_getElem hlt
    obtain ⟨k, hk, hretyped⟩ := h.old i _ hs
    rw [hi] at hk
    cases hk
    have hold := h.keepsNames.spells (ht _ (List.mem_of_getElem? hs))
    dsimp only
    generalize t.symbols[i].kind = old at hold hretyped
    cases hretyped with
    | same => exact hold
    | _ => trivial
  · refine hnew s' (List.mem_of_getElem? ((List.getElem?_drop).trans ?_) (i := i - t.symbols.length))
    rw [Nat.add_sub_cancel' (Nat.not_lt.1 hlt)]
    exact hi

/-- Types are resolved, and those that are new are spelled as those before them. -/
structure Respells (t t' : Table) : Prop where
  retypes : t.Retypes t'
  spelled : t.Spelled → t'.Spelled

instance : IsPreorder Table Respells where
  refl t := ⟨.refl t, id⟩
  trans _ _ _ h₁ h₂ := ⟨h₁.retypes.trans h₂.retypes, h₂.spelled ∘ h₁.spelled⟩

/-- A new type that has its name from components that are in the table. -/
theorem respells_addSymbol {s : Symbol} {arrays : Assoc SymbolId SymbolId}
    {maps : Assoc (SymbolId × SymbolId) SymbolId}
    (h : t.Retypes { (t.addSymbol s).2 with arrays := arrays, maps := maps })
    (hs : t.Spells s.name s.kind) :
    t.Respells { (t.addSymbol s).2 with arrays := arrays, maps := maps } where
  retypes := h
  spelled ht := by
    refine h.spelled ht fun s' hs' => ?_
    rw [show (t.addSymbol s).2.symbols = t.symbols ++ [s] from rfl, List.drop_left] at hs'
    cases List.mem_singleton.1 hs'
    exact h.keepsNames.spells hs

theorem respells_amend (t : Table) (id : SymbolId) {f : SymbolKind → SymbolKind}
    (hf : ∀ k, SymbolKind.Retyped k (f k)) : t.Respells (t.amend id f) where
  retypes := t.retypes_amend id hf
  spelled ht := by
    refine (t.retypes_amend id hf).spelled ht fun s hs => ?_
    have hlen : (t.amend id f).symbols.length = t.symbols.length := List.length_modify ..
    rw [← hlen, List.drop_length] at hs
    cases hs

end Table

namespace Pass
variable {C : Category}

theorem respells_arrayOf (element : SymbolId) : Keeps Respells (state (·.arrayOf element)) C :=
  keeps_state fun {t a t'} h => by
    have hretypes := (keeps_arrayOf (C := C) element).leads (leads_state.2 h)
    rcases arrayOf_cases h with ⟨-, rfl⟩ | ⟨-, name, hname, -, rfl⟩
    · exact refl_of Respells t'
    · exact respells_addSymbol hretypes ⟨name, hname, rfl⟩

theorem respells_mapOf (key value : SymbolId) : Keeps Respells (state (·.mapOf key value)) C :=
  keeps_state fun {t a t'} h => by
    have hretypes := (keeps_mapOf (C := C) key value).leads (leads_state.2 h)
    rcases mapOf_cases h with ⟨-, rfl⟩ | ⟨-, keyName, valueName, hkey, hvalue, -, rfl⟩
    · exact refl_of Respells t'
    · exact respells_addSymbol hretypes ⟨keyName, valueName, hkey, hvalue, rfl⟩

theorem respells_updateKind (id : SymbolId) {f : SymbolKind → SymbolKind}
    (hf : ∀ k, SymbolKind.Retyped k (f k)) : Keeps Respells (update (·.updateKind id f)) C :=
  keeps_update fun {t t'} h => by
    obtain ⟨-, rfl⟩ := updateKind_eq_ok.1 h
    exact t.respells_amend id hf

theorem keptBySettling_respells : KeptBySettling Respells where
  arrayOf := respells_arrayOf
  mapOf := respells_mapOf
  setValueType id type := respells_updateKind id (SymbolKind.retyped_withValueType type)
  setReturns id types := respells_updateKind id (SymbolKind.retyped_setReturns types)

end Pass

/-! ### Declared and resolved -/

namespace ContractDecl
variable {c : ContractDecl} {t t' : Table}

/-- Nothing that is declared is an array or a map type. -/
theorem spelled_of_declares
    (h : (initial.setContract .contract).Declares t c.decls c.scopes c.shown) : t.Spelled := by
  intro s hs
  refine t.spells_of_plain _ ?_
  have hout : s.outline ∈ initial.outlines ++ c.decls.map (·.symbol) :=
    h.outlines ▸ List.mem_map_of_mem hs
  rw [← s.kind.isStructural_outline]
  rcases List.mem_append.1 hout with hout | hout
  · obtain ⟨s₀, hs₀, heq⟩ := List.mem_map.1 hout
    obtain ⟨i, hi⟩ := List.mem_iff_getElem?.1 hs₀
    have hkind : s₀.kind.outline = s.kind.outline := congrArg Symbol.kind heq
    rw [← hkind, s₀.kind.isStructural_outline]
    have hk : initial.kind? ⟨i⟩ = some s₀.kind := Option.map_eq_some_iff.2 ⟨s₀, hi, rfl⟩
    exact plain_initial hk
  · obtain ⟨d, hd, heq⟩ := List.mem_map.1 hout
    have hkind : d.symbol.kind = s.kind.outline := congrArg Symbol.kind heq
    rw [← hkind]
    exact plain_of_mem_decls hd

theorem resolveTypes_spelled {u : Unit} {ds : List Diagnostic} (ht : t.Spelled)
    (h : c.resolveTypes.run t = .ok ⟨u, t', ds⟩) : t'.Spelled :=
  ((c.resolveTypes_keeps keptBySettling_respells).leads ⟨ds, h⟩).spelled ht

namespace Founded

/-- What a declaration is called. -/
theorem nameOf_declared (h : c.Founded t) {d : Decl} {id : SymbolId}
    (hd : (d, id) ∈ numbered 10 c.decls) : t.nameOf id = .ok d.symbol.name := by
  obtain ⟨new, hnew, -⟩ := h.outlines
  obtain ⟨i, hi, rfl⟩ := mem_numbered.1 hd
  have hlen : initial.outlines.length = 10 := rfl
  have hlt : i < (c.decls.map (·.symbol)).length := by simpa using (List.getElem?_eq_some_iff.1 hi).1
  have hget : t.outlines[10 + i]? = some d.symbol := by
    rw [hnew, List.append_assoc, List.getElem?_append_right (by omega), hlen, Nat.add_sub_cancel_left,
      List.getElem?_append_left hlt, List.getElem?_map, hi, Option.map_some]
  rw [Table.outlines, List.getElem?_map] at hget
  obtain ⟨s, hs, heq⟩ := Option.map_eq_some_iff.1 hget
  have hname : s.outline.name = d.symbol.name := congrArg Symbol.name heq
  exact nameOf_eq_ok.2 ⟨s, hs, hname⟩

theorem name_array (h : c.Founded t) (ht : t.Spelled) {element : Ty} {id : SymbolId}
    (hid : t.typeOf? (.array element) = some id) :
    ∃ e text, t.typeOf? element = some e ∧ t.nameOf e = .ok text ∧
      t.nameOf id = .ok (Table.arrayName text) := by
  obtain ⟨e, he, hk⟩ := h.kind_array hid
  obtain ⟨s, hs, hkind⟩ := Option.map_eq_some_iff.1 hk
  have hspelled := ht s (List.mem_of_getElem? hs)
  rw [hkind] at hspelled
  obtain ⟨text, htext, hname⟩ := hspelled
  exact ⟨e, text, he, htext, nameOf_eq_ok.2 ⟨s, hs, hname⟩⟩

theorem name_map (h : c.Founded t) (ht : t.Spelled) {key value : Ty} {id : SymbolId}
    (hid : t.typeOf? (.map key value) = some id) :
    ∃ k v keyText valueText, t.typeOf? key = some k ∧ t.typeOf? value = some v ∧
      t.nameOf k = .ok keyText ∧ t.nameOf v = .ok valueText ∧
      t.nameOf id = .ok (Table.mapName keyText valueText) := by
  obtain ⟨k, v, hkey, hvalue, hk⟩ := h.kind_map hid
  obtain ⟨s, hs, hkind⟩ := Option.map_eq_some_iff.1 hk
  have hspelled := ht s (List.mem_of_getElem? hs)
  rw [hkind] at hspelled
  obtain ⟨keyText, valueText, hkeyText, hvalueText, hname⟩ := hspelled
  exact ⟨k, v, keyText, valueText, hkey, hvalue, hkeyText, hvalueText, nameOf_eq_ok.2 ⟨s, hs, hname⟩⟩

/-- In two tables a type has the same name, if each node is called the same in both contracts. -/
theorem same_name {c' : ContractDecl} (h : c.Founded t) (h' : c'.Founded t') (ht : t.Spelled)
    (ht' : t'.Spelled)
    (hnames : ∀ d ∈ c.decls, ∀ d' ∈ c'.decls, d.node = d'.node → d.symbol.name = d'.symbol.name)
    {type : Ty} {id id' : SymbolId} (hid : t.typeOf? type = some id)
    (hid' : t'.typeOf? type = some id') :
    ∃ name, t.nameOf id = .ok name ∧ t'.nameOf id' = .ok name := by
  induction type generalizing id id' with
  | named ref =>
    cases ref with
    | builtin j =>
      obtain ⟨hlt, rfl⟩ : j.index < 10 ∧ j = id := by simpa [typeOf?, symbolOf?] using hid
      obtain ⟨-, rfl⟩ : j.index < 10 ∧ j = id' := by simpa [typeOf?, symbolOf?] using hid'
      have hsame : t.symbols[j.index]? = t'.symbols[j.index]? :=
        (h.valid.builtins _ hlt).trans (h'.valid.builtins _ hlt).symm
      obtain ⟨name, hname⟩ := exists_nameOf (h.valid.holds hlt)
      obtain ⟨s, hs, hsname⟩ := nameOf_eq_ok.1 hname
      exact ⟨name, hname, nameOf_eq_ok.2 ⟨s, hsame ▸ hs, hsname⟩⟩
    | declared node =>
      obtain ⟨d, hd, rfl⟩ := h.origin node id hid
      obtain ⟨d', hd', hnode⟩ := h'.origin _ id' hid'
      obtain ⟨i, hi, -⟩ := mem_numbered.1 hd
      obtain ⟨i', hi', -⟩ := mem_numbered.1 hd'
      have hname := hnames d (List.mem_of_getElem? hi) d' (List.mem_of_getElem? hi') hnode.symm
      exact ⟨_, h.nameOf_declared hd, hname ▸ h'.nameOf_declared hd'⟩
  | array element ih =>
    obtain ⟨e, text, he, htext, hname⟩ := h.name_array ht hid
    obtain ⟨e', text', he', htext', hname'⟩ := h'.name_array ht' hid'
    obtain ⟨common, hcommon, hcommon'⟩ := ih he he'
    cases htext.symm.trans hcommon
    cases htext'.symm.trans hcommon'
    exact ⟨_, hname, hname'⟩
  | map key value ihk ihv =>
    obtain ⟨k, v, keyText, valueText, hk, hv, hkeyText, hvalueText, hname⟩ := h.name_map ht hid
    obtain ⟨k', v', keyText', valueText', hk', hv', hkeyText', hvalueText', hname'⟩ :=
      h'.name_map ht' hid'
    obtain ⟨keyCommon, hkeyCommon, hkeyCommon'⟩ := ihk hk hk'
    obtain ⟨valueCommon, hvalueCommon, hvalueCommon'⟩ := ihv hv hv'
    cases hkeyText.symm.trans hkeyCommon
    cases hkeyText'.symm.trans hkeyCommon'
    cases hvalueText.symm.trans hvalueCommon
    cases hvalueText'.symm.trans hvalueCommon'
    exact ⟨_, hname, hname'⟩

end Founded
end ContractDecl
end ContractLang
