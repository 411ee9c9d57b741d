/-!
Byte ranges into a source text.
-/

namespace MiniGo

/-- The bytes from `start` up to, but not including, `stop`. -/
structure Span where
  start : Nat := 0
  stop : Nat := 0
deriving DecidableEq, Repr, Inhabited

namespace Span

def length (span : Span) : Nat := span.stop - span.start

def isEmpty (span : Span) : Bool := span.length == 0

def merge (left right : Span) : Span :=
  ⟨min left.start right.start, max left.stop right.stop⟩

def last (span : Span) : Span := ⟨span.stop - 1, span.stop⟩

theorem length_le_merge_left (left right : Span) : left.length ≤ (left.merge right).length := by
  simp only [length, merge]
  omega

theorem length_le_merge_right (left right : Span) : right.length ≤ (left.merge right).length := by
  simp only [length, merge]
  omega

end Span

end MiniGo
