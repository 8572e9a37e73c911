import ContractLang.Diagnostic
import ContractLang.Report.Line
/-!
Notices rendered against a source: a heading, the place, and the lines that the notice is about.
A span inside one line is underlined. A span over several lines is framed at the left, with
arrows to its first and last character, and long middle parts are left out.

In `contractc`: `render` of `DiagnosticReporter`.
-/
namespace ContractLang.Report

/-- A notice with the lines of its two ends. -/
structure Snippet where
  notice : Notice
  opening : Line
  closing : Line

namespace Snippet

def spaces (n : Nat) : String := String.ofList (List.replicate n ' ')

/-- The columns taken by the line numbers. -/
def margin (s : Snippet) : Nat :=
  max (toString s.opening.number).length (toString s.closing.number).length

def isSingle (s : Snippet) : Bool := s.opening.number = s.closing.number

/-- Whether the span ends on a later line than it starts. -/
def isForward (s : Snippet) : Bool := s.opening.number < s.closing.number

/-- Where the span starts in its line. -/
def startOffset (s : Snippet) : Nat := s.notice.span.start - s.opening.start

/-- Where the span ends in its line. -/
def stopOffset (s : Snippet) : Nat := s.notice.span.stop - s.closing.start

/-- The message behind an arrow or underline, and the end of the row. -/
def label (s : Snippet) : String :=
  (if s.notice.message.isEmpty then "" else " " ++ s.notice.message) ++ "\n"

/-- A row with a line of the source. -/
def sourceRow (s : Snippet) (gutter : String) (l : Line) : String :=
  let number := toString l.number
  spaces (s.margin - number.length) ++ number ++ " │" ++ gutter ++ " " ++ l.text ++ "\n"

/-- What stands at the left of a row without a line number. -/
def blankMargin (s : Snippet) (border : String) : String := spaces s.margin ++ " " ++ border

def header (s : Snippet) (file : String) : String :=
  "error: " ++ s.notice.category.title ++ "\n" ++
    s.blankMargin "┌─ " ++ file ++ ":" ++ toString s.opening.number ++ ":" ++
    toString (s.opening.column s.notice.span.start) ++ "\n" ++
    s.blankMargin "│" ++ (if s.isSingle then "" else "  ") ++ "\n"

/-- Carets under the cells that the bytes from `start` to `stop` touch, spaces before them. -/
def carets (start stop : Nat) (cells : List Cell) : String :=
  String.ofList <| cells.flatMap fun c =>
    if start < c.offset + c.size && c.offset < stop then List.replicate c.width '^'
    else if c.offset < stop then List.replicate c.width ' '
    else []

/-- The underline has at least one caret, if need be one column past the end of the line. -/
def underline (s : Snippet) : String :=
  let start := s.startOffset
  let stop := max s.stopOffset (start + 1)
  let past : Cell := ⟨' ', byteLength s.opening.visible, 1, 1⟩
  carets start stop (s.opening.cells ++ [past])

def singleBody (s : Snippet) : String :=
  s.sourceRow "" s.opening ++ s.blankMargin "│ " ++ s.underline ++ s.label

/-- An arrow to the first character of a line at an offset or after it. -/
def arrow (s : Snippet) (corner : String) (l : Line) (offset : Nat) : String :=
  let reach := totalWidth (l.cells.filter (·.offset < offset))
  s.blankMargin "│ " ++ corner ++ String.ofList (List.replicate reach '─') ++ "^"

/-- The frame starts beside the line itself if only white space stands before the span. -/
def opensAtIndent (s : Snippet) : Bool := s.startOffset ≤ s.opening.indent

def openingRows (s : Snippet) : String :=
  if s.opensAtIndent then s.sourceRow " ╭" s.opening
  else
    s.sourceRow "  " s.opening ++ s.arrow "╭" s.opening (s.startOffset + 1) ++ "\n"

def closingRows (s : Snippet) : String :=
  s.sourceRow " │" s.closing ++ s.arrow "╰" s.closing s.stopOffset ++ s.label

/-- The lines that are shown whatever lies between: both ends, three lines after the opening and
one before the closing. -/
def isShown (s : Snippet) (l : Line) : Bool :=
  l.number = s.opening.number || l.number = s.closing.number ||
    s.isForward && (l.number ≤ s.opening.number + 3 || s.closing.number ≤ l.number + 1)

def rows (s : Snippet) (l : Line) : String :=
  if l.number = s.opening.number then s.openingRows
  else if l.number = s.closing.number then s.closingRows
  else s.sourceRow " │" l

/-- What stands for the lines left out after `before`. A single line is shown after all. -/
def gap (s : Snippet) (before : Line) : List Line → String
  | [] => ""
  | [l] => s.sourceRow (if s.isForward then " │" else "  ") l
  | _ => s.blankMargin "·" ++ (if before.number = s.opening.number then "  " else " │") ++ "\n"

/-- The rows of some lines, with gaps for those left out. `left` are the last ones left out, and
`before` is the line shown before them. -/
def frame (s : Snippet) (before : Line) (left : List Line) : List Line → String
  | [] => ""
  | l :: rest =>
    if s.isShown l then s.gap before left ++ s.rows l ++ s.frame l [] rest
    else s.frame before (left ++ [l]) rest

def frameBody (s : Snippet) (source : Source) : String :=
  let lo := min s.opening.number s.closing.number
  let hi := max s.opening.number s.closing.number
  s.frame s.opening [] (source.between lo hi)

def render (s : Snippet) (source : Source) : String :=
  s.header source.name ++ (if s.isSingle then s.singleBody else s.frameBody source) ++ "\n"

end Snippet

/-- A notice with the lines that it is about. -/
def renderNotice (source : Source) (n : Notice) : String :=
  Snippet.render ⟨n, source.lineAt n.span.start, source.lineAt n.span.stop⟩ source

/-- All notices in order. Without a source there is nothing to show. -/
def render (source : Option Source) (notices : List Notice) : String :=
  match source with
  | none => ""
  | some source => String.join (notices.map (renderNotice source))

end ContractLang.Report
