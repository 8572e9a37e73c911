import ContractLang.Report.Width
/-!
The lines of a source text, with byte positions, and the cells in which a line is shown.
-/
namespace ContractLang.Report

def byteLength : List Char → Nat
  | [] => 0
  | c :: rest => c.utf8Size + byteLength rest

/-- The first line and the others. A line keeps the newline that ends it, so that the lines
joined are the text; after the last newline there is one more line. -/
def splitLines : List Char → List Char × List (List Char)
  | [] => ([], [])
  | c :: rest =>
    let (line, lines) := splitLines rest
    if c = '\n' then ([c], line :: lines) else (c :: line, lines)

theorem splitLines_joined (cs : List Char) :
    (splitLines cs).1 ++ (splitLines cs).2.flatten = cs := by
  induction cs with
  | nil => rfl
  | cons c rest ih =>
    by_cases h : c = '\n'
    · simp only [splitLines, h, if_pos, List.flatten_cons, List.cons_append, List.nil_append]
      rw [ih]
    · simp only [splitLines, h, if_neg, not_false_eq_true, List.cons_append]
      rw [ih]

/-- A line with its number, counted from one, and the byte at which it starts. -/
structure Line where
  number : Nat
  start : Nat
  chars : List Char

def numberFrom (number start : Nat) : List (List Char) → List Line
  | [] => []
  | cs :: rest => ⟨number, start, cs⟩ :: numberFrom (number + 1) (start + byteLength cs) rest

structure Source where
  name : String
  first : Line
  others : List Line

namespace Source

def ofText (name text : String) : Source :=
  let (line, lines) := splitLines text.toList
  ⟨name, ⟨1, 0, line⟩, numberFrom 2 (byteLength line) lines⟩

/-- The last line that starts at a byte or before it. -/
def lineAt (s : Source) (byte : Nat) : Line :=
  (s.others.takeWhile (·.start ≤ byte)).getLast?.getD s.first

/-- The lines from one number to another, both included. -/
def between (s : Source) (lo hi : Nat) : List Line :=
  (s.first :: s.others).filter fun l => lo ≤ l.number && l.number ≤ hi

end Source

/-- A character as it is shown: at which byte of the line it stands, how many bytes it has and
how many columns it takes. -/
structure Cell where
  char : Char
  offset : Nat
  size : Nat
  width : Nat

/-- A tab reaches to the next multiple of this many columns. -/
def tabStop : Nat := 4

def cellsFrom (offset column : Nat) : List Char → List Cell
  | [] => []
  | c :: rest =>
    let width := if c = '\t' then tabStop - column % tabStop else columns c
    ⟨c, offset, c.utf8Size, width⟩ :: cellsFrom (offset + c.utf8Size) (column + width) rest

/-- The columns that some cells take together. -/
def totalWidth : List Cell → Nat
  | [] => 0
  | c :: rest => c.width + totalWidth rest

/-- A tab is shown as the spaces that it stands for. -/
def Cell.shown (c : Cell) : List Char :=
  if c.char = '\t' then List.replicate c.width ' ' else [c.char]

namespace Line

/-- The characters of a line without what ends it. -/
def visible (l : Line) : List Char :=
  (l.chars.reverse.dropWhile fun c => c = '\n' || c = '\r' || c = '\x00').reverse

def cells (l : Line) : List Cell := cellsFrom 0 0 l.visible

/-- The line as it is shown. -/
def text (l : Line) : String := String.ofList (l.cells.flatMap Cell.shown)

/-- The column of a byte, counted from one: how many characters end there or before. -/
def column (l : Line) (byte : Nat) : Nat :=
  1 + ((cellsFrom l.start 0 l.chars).filter fun c => c.offset + c.size ≤ byte).length

/-- The bytes of white space that a line begins with. -/
def indent (l : Line) : Nat := byteLength (l.visible.takeWhile isBlank)

end Line
end ContractLang.Report
