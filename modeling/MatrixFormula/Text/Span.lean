import MatrixFormula.Text.Basic

/-!
# Spans

A span is a region of a text, given by the byte offsets of its two ends.
-/

namespace MatrixFormula

/-- The region from byte `start` up to, not including, byte `stop`. -/
structure Span where
  start : Nat
  stop : Nat
deriving DecidableEq, Repr

namespace Span

/-- The region that a piece of text takes when it stands at an offset. -/
def ofText (offset : Nat) (piece : Text) : Span := ⟨offset, offset + piece.byteSize⟩

/-- The region of no bytes at an offset. -/
def point (offset : Nat) : Span := ⟨offset, offset⟩

/-- The region from the start of the first span to the end of the second. -/
def through (first second : Span) : Span := ⟨first.start, second.stop⟩

/-- The region between the end of the first span and the start of the second. -/
def between (first second : Span) : Span := ⟨first.stop, second.start⟩

end Span

end MatrixFormula
