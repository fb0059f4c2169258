/-!
# Spans of code points

A set of characters given by inclusive spans of code points. The tables of character classes are written as the lengths
of these spans and of the gaps before them.
-/

namespace HornLoops.Text

/-- A set of code points, as inclusive spans. -/
abbrev Spans := List (Nat × Nat)

namespace Spans

/-- The spans from a code point on. In turn there is the length of a gap and that of the span behind it. -/
def ofRuns (start : Nat) : List Nat → Spans
  | gap :: length :: runs => (start + gap, start + gap + (length - 1)) :: ofRuns (start + gap + length) runs
  | _ => []

/-- The span that holds a code point, if there is one. -/
def find? (spans : Spans) (point : Nat) : Option (Nat × Nat) :=
  List.find? (fun span => span.1 ≤ point && point ≤ span.2) spans

/-- Whether a code point lies in one of the spans. -/
def holds (spans : Spans) (point : Nat) : Bool :=
  (spans.find? point).isSome

end Spans

end HornLoops.Text
