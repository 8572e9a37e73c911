import ContractLang.Report.CharClass

/-!
How many columns a character takes on a terminal: none for one that combines with a neighbour or
is not shown, two for a wide one, one for most others.
-/
namespace ContractLang.Report

/-- The characters whose width does not follow from their class, each with its columns: the filler
for a missing opening consonant (U+115F) is as wide as the syllable that it opens, a Khmer vowel
(U+17A4) and a Khmer sign (U+17D8) are drawn as two and three letters, and the Tifinagh joiner
(U+2D7F) is seen where it joins nothing. -/
def exceptional : List (Nat × Nat) := [(0x115f, 2), (0x17a4, 2), (0x17d8, 3), (0x2d7f, 1)]

/-- The columns that a character takes; a tab is not measured here. -/
def columns (c : Char) : Nat :=
  if isControl c then 0
  else if c.toNat < 0x80 then 1
  else match exceptional.lookup c.toNat with
    | some width => width
    | none => if isUnspaced c then 0 else if isWide c then 2 else 1

/-- The printable characters of ASCII take one column each. -/
theorem columns_ascii (c : Char) (h : 0x20 ≤ c.toNat) (h' : c.toNat < 0x7f) : columns c = 1 := by
  have printable : isControl c = false := by
    simp only [isControl, Bool.or_eq_false_iff, Bool.and_eq_false_iff, decide_eq_false_iff_not]
    omega
  rw [columns, printable, if_neg Bool.false_ne_true, if_pos (by omega)]

end ContractLang.Report
