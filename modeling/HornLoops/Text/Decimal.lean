import HornLoops.Text.CharClass

/-!
# Decimal numbers in requests

Numbers that a user gives outside of a program are one or more digits after an optional sign.
-/

namespace HornLoops.Text

/-- The number that is written with one or more digits and nothing else. -/
def digits? (chars : List Char) : Option Nat :=
  if chars ≠ [] ∧ chars.all isDigit then
    some (chars.foldl (fun value c => 10 * value + (c.toNat - '0'.toNat)) 0)
  else none

/-- The natural number that a text stands for. It may have a plus sign. -/
def natural? (text : String) : Option Nat :=
  match text.toList with
  | '+' :: digits => digits? digits
  | digits => digits? digits

/-- The integer that a text stands for. It may have a plus or a minus sign. -/
def integer? (text : String) : Option Int :=
  match text.toList with
  | '-' :: digits => (digits? digits).map fun value => -(value : Int)
  | _ => (natural? text).map Int.ofNat

end HornLoops.Text
