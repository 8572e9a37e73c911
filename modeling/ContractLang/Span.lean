/-!
Byte ranges of a source text. A range whose start lies past its end is legal and has length zero.

In `contractc`: `Span` with `merge`, `len` (`length`) and `is_empty` (`isEmpty`).
-/
namespace ContractLang

/-- The bytes from `start` up to, and not including, `stop`. -/
structure Span where
  start : Nat
  stop : Nat
deriving DecidableEq, Repr

namespace Span

/-- The span of a thing that stands nowhere in the source. -/
def zero : Span := ⟨0, 0⟩

/-- The smallest span that covers both. -/
def merge (a b : Span) : Span := ⟨min a.start b.start, max a.stop b.stop⟩

def length (s : Span) : Nat := s.stop - s.start

def isEmpty (s : Span) : Bool := s.length == 0

/-- The merge of all spans of a list, `zero` for none. -/
def cover : List Span → Span
  | [] => zero
  | s :: rest => rest.foldl merge s

/-- A span as it stands in messages, such as `3..7`. -/
def text (s : Span) : String := toString s.start ++ ".." ++ toString s.stop

end Span
end ContractLang
