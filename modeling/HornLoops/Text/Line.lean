import HornLoops.Text.CharClass

/-!
# Lines

A text is split into lines at line feeds. What surrounds a line is cut off, so that an indented line or one
that ends in a carriage return reads as if it were not.
-/

namespace HornLoops.Text

/-- A text without blanks at its start and its end. -/
def trim (text : String) : String :=
  String.ofList ((text.toList.dropWhile isBlank).reverse.dropWhile isBlank).reverse

/-- Splits characters at line feeds. -/
def splitLines : List Char → List (List Char)
  | [] => [[]]
  | '\n' :: chars => [] :: splitLines chars
  | c :: chars =>
    match splitLines chars with
    | line :: lines => (c :: line) :: lines
    | [] => [[c]]

/-- The lines of a text, without the blanks around them and without the empty ones. -/
def lines (text : String) : List String :=
  ((splitLines text.toList).map fun line => trim (String.ofList line)).filter (· ≠ "")

/-- The characters up to the first space, and those after it. -/
def splitSpace (text : String) : String × String :=
  (String.ofList (text.toList.takeWhile (· ≠ ' ')),
    String.ofList ((text.toList.dropWhile (· ≠ ' ')).drop 1))

end HornLoops.Text
