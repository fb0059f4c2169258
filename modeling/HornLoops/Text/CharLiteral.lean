import HornLoops.Text.HiddenSpans

/-!
# Quoted characters

How a message shows a single character: between single quotes, with the control characters that have a
short escape written that way, and a character without a glyph of its own by its code point.
-/

namespace HornLoops.Text

/-- The text of a code point in lowercase hexadecimal digits. -/
def codePointText (point : Nat) : String :=
  "\\u\x7b" ++ String.ofList (Nat.toDigits 16 point) ++ "\x7d"

/-- The text that stands for a character between the quotes. -/
def charBody (c : Char) : String :=
  if c = '\x00' then "\\0"
  else if c = '\t' then "\\t"
  else if c = '\n' then "\\n"
  else if c = '\r' then "\\r"
  else if c = '\'' then "\\'"
  else if c = '\\' then "\\\\"
  else if hiddenSpans.holds c.toNat then codePointText c.toNat
  else c.toString

/-- A character between single quotes. -/
def charLiteral (c : Char) : String := "'" ++ charBody c ++ "'"

end HornLoops.Text
