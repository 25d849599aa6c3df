/-
  Lexis.Token.Span

  Ranges of byte offsets.

  A span may name any two offsets. Only one with its ends in order has a length, and only one
  whose ends are places in a text names a piece of that text.
-/

import Lexis.Text.Measure

namespace Lexis

/-- The bytes from offset `start` up to offset `stop`. -/
structure Span where
  start : Nat
  stop : Nat
  deriving DecidableEq, Inhabited

namespace Span

/-- The empty span at an offset. -/
def point (offset : Nat) : Span :=
  ⟨offset, offset⟩

/-- Whether no byte lies in a span. -/
def isEmpty (s : Span) : Bool :=
  s.start == s.stop

/-- Number of bytes, if the ends are in order. -/
def length? (s : Span) : Option Nat :=
  if s.start ≤ s.stop then some (s.stop - s.start) else none

/-- The piece of `source` that a span names. -/
def slice? (s : Span) (source : String) : Option String :=
  (Text.slice? source.toList s.start s.stop).map String.ofList

theorem length?_point (n : Nat) : (point n).length? = some 0 := by
  simp [point, length?]

/-- A span that names a piece of a text is as long as the piece. -/
theorem slice?_ofList_append (a b d : List Char) :
    slice? ⟨Text.byteSize a, Text.byteSize a + Text.byteSize b⟩ (String.ofList (a ++ (b ++ d))) =
      some (String.ofList b) := by
  simp only [slice?, String.toList_ofList, Text.slice?_append, Option.map_some]

end Span

end Lexis
