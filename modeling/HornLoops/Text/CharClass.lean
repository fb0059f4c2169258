import HornLoops.Text.ClassSpans

/-!
# Character classes

Every character belongs to exactly one class. Which characters may start or continue a name, a variable
or a number, and which only separate them, is decided by the class alone. Because one function assigns
it, a lowercase letter is alphabetic and neither uppercase nor blank by construction.
-/

namespace HornLoops.Text

/-- What a character is, as far as the notation of terms is concerned. -/
inductive CharClass where
  /-- White space of any kind. -/
  | blank
  /-- An uppercase letter. -/
  | upper
  /-- A lowercase letter. -/
  | lower
  /-- An alphabetic character without case. -/
  | caseless
  /-- A numeral that is not alphabetic. -/
  | numeral
  /-- Any other character. -/
  | other
deriving DecidableEq, Repr

namespace CharClass

/-- The class of a code point below 128. -/
def ofAscii (point : Nat) : CharClass :=
  if 9 ≤ point ∧ point ≤ 13 ∨ point = 32 then .blank
  else if 48 ≤ point ∧ point ≤ 57 then .numeral
  else if 65 ≤ point ∧ point ≤ 90 then .upper
  else if 97 ≤ point ∧ point ≤ 122 then .lower
  else .other

/-- The class of a letter in a span where uppercase and lowercase alternate. -/
def ofPaired (first point : Nat) : CharClass :=
  if (point - first) % 2 = 0 then .upper else .lower

/-- The class of a code point from 128 on. -/
def ofTables (point : Nat) : CharClass :=
  match pairedSpans.find? point with
  | some span => ofPaired span.1 point
  | none =>
    if blankSpans.holds point then .blank
    else if upperSpans.holds point then .upper
    else if lowerSpans.holds point then .lower
    else if caselessSpans.holds point then .caseless
    else if numeralSpans.holds point then .numeral
    else .other

/-- The class of a character. -/
def of (c : Char) : CharClass :=
  if c.toNat < 128 then ofAscii c.toNat else ofTables c.toNat

/-- Letters of either case and characters without case. -/
def isAlphabetic : CharClass → Bool
  | .upper | .lower | .caseless => true
  | .blank | .numeral | .other => false

/-- Alphabetic characters and numerals. -/
def isAlphanumeric : CharClass → Bool
  | .upper | .lower | .caseless | .numeral => true
  | .blank | .other => false

end CharClass

/-- White space. -/
def isBlank (c : Char) : Bool := CharClass.of c = .blank

/-- Uppercase letters. -/
def isUpper (c : Char) : Bool := CharClass.of c = .upper

/-- Lowercase letters. -/
def isLower (c : Char) : Bool := CharClass.of c = .lower

/-- Letters, with or without case. -/
def isAlphabetic (c : Char) : Bool := (CharClass.of c).isAlphabetic

/-- Letters and numerals. -/
def isAlphanumeric (c : Char) : Bool := (CharClass.of c).isAlphanumeric

/-- The decimal digits `0` to `9`. -/
def isDigit (c : Char) : Bool := '0' ≤ c && c ≤ '9'

/-- A character that continues a name or a variable. -/
def isNamePart (c : Char) : Bool := isAlphanumeric c || c = '_'

/-- A character of the operators that are written with symbols. -/
def isSymbol (c : Char) : Bool :=
  c ∈ ['+', '-', '*', '/', '\\', '^', '<', '>', '=', '~', ':', '.', '?', '@', '#', '&', '$']

end HornLoops.Text
