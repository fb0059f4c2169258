import HornLoops.Text.CharLiteral

/-!
# Syntax errors

What can be wrong with a text that should be a term or a program. An error names the place as a number of
bytes from the start of the text, in its UTF-8 form.
-/

namespace HornLoops

/-- The ways in which a text fails to be a term. -/
inductive SyntaxFault where
  /-- A block comment is not closed. -/
  | openComment
  /-- A quoted atom is not closed. -/
  | openQuote
  /-- A backslash in a quoted atom is followed by something other than a known escape. -/
  | badEscape
  /-- A number does not fit in 64 bits. -/
  | integerRange
  /-- A character belongs to no token. -/
  | strayChar (c : Char)
  /-- The text ends where a term should start. -/
  | inputEnd
  /-- A clause ends where a term should start. -/
  | clauseEnd
  /-- A closing bracket or separator stands where a term should start. -/
  | strayPunct (c : Char)
  /-- A parenthesis is not closed. -/
  | openParenthesis
  /-- A brace is not closed. -/
  | openBrace
  /-- A list is not closed. -/
  | openList
  /-- Arguments are neither continued nor closed. -/
  | openArguments
  /-- Something follows a complete term. -/
  | operatorExpected
  /-- A clause is not closed by a full stop. -/
  | openClause
deriving DecidableEq, Repr

namespace SyntaxFault

/-- The wording of a fault. -/
def message : SyntaxFault → String
  | .openComment => "unterminated block comment"
  | .openQuote => "unterminated quoted atom"
  | .badEscape => "bad escape sequence"
  | .integerRange => "integer out of range"
  | .strayChar c => "unexpected character " ++ Text.charLiteral c
  | .inputEnd => "unexpected end of input"
  | .clauseEnd => "unexpected end of clause"
  | .strayPunct c => "unexpected '" ++ c.toString ++ "'"
  | .openParenthesis => "')' expected"
  | .openBrace => "'\x7d' expected"
  | .openList => "']' expected"
  | .openArguments => "',' or closing bracket expected"
  | .operatorExpected => "operator expected"
  | .openClause => "end of clause expected"

end SyntaxFault

/-- A fault and the byte at which it was noticed. -/
structure SyntaxError where
  /-- Bytes before the fault. -/
  offset : Nat
  /-- What is wrong. -/
  fault : SyntaxFault
deriving DecidableEq, Repr

namespace SyntaxError

/-- The wording of an error. -/
def message (error : SyntaxError) : String :=
  "syntax error at byte " ++ toString error.offset ++ ": " ++ error.fault.message

end SyntaxError

end HornLoops
