import HornLoops.Reader.SyntaxError
import HornLoops.Text.CharClass
import HornLoops.Word

/-!
# Tokens

A text is cut into tokens before anything else is read, so a text with a stray character fails for that
reason even if its brackets do not match either. Each token remembers the byte at which it starts and
whether blanks or comments stand before it, since `f(` and `f (` differ, as do `-1` and `- 1`.
-/

namespace HornLoops

open Text

/-- What a token is. -/
inductive Lexeme where
  /-- A number. -/
  | int (value : Int64)
  /-- The name of a variable. -/
  | var (name : String)
  /-- The name of an atom, a compound or an operator. -/
  | name (name : String)
  /-- A bracket, a bar or a comma. -/
  | punct (c : Char)
  /-- An opening parenthesis directly after a name, which begins its arguments. -/
  | openCall
  /-- The full stop that closes a clause. -/
  | stop
deriving DecidableEq, Repr

/-- A token and its surroundings. -/
structure Token where
  /-- What the token is. -/
  lexeme : Lexeme
  /-- Bytes before the token. -/
  offset : Nat
  /-- Whether blanks or comments stand before the token. -/
  spaced : Bool
deriving DecidableEq, Repr

/-- A place in a text: the characters from there on and the bytes before it. -/
structure Cursor where
  /-- Bytes before the place. -/
  offset : Nat
  /-- Characters from the place on. -/
  rest : List Char
deriving DecidableEq, Repr

namespace Cursor

/-- The number of bytes of some characters. -/
def bytes (chars : List Char) : Nat := chars.foldl (fun total char => total + char.utf8Size) 0

/-- The place after the characters that satisfy a condition. -/
def skipWhile (cursor : Cursor) (keep : Char → Bool) : Cursor :=
  ⟨cursor.offset + bytes (cursor.rest.takeWhile keep), cursor.rest.dropWhile keep⟩

/-- Skipping does not make the text longer. -/
theorem length_skipWhile_le (cursor : Cursor) (keep : Char → Bool) :
    (cursor.skipWhile keep).rest.length ≤ cursor.rest.length :=
  (List.dropWhile_sublist keep).length_le

end Cursor

/-- What the reader is inside of while it skips blanks and comments. -/
inductive Layout where
  /-- Not in a comment. -/
  | blank
  /-- In a comment that ends with the line. -/
  | line
  /-- In a block comment that was opened at a byte. -/
  | block (opened : Nat)
deriving DecidableEq, Repr

namespace Layout

/-- The first place that is neither blank nor in a comment. -/
def skip : Layout → Nat → List Char → Except SyntaxError Cursor
  | .block opened, _, [] => .error ⟨opened, .openComment⟩
  | _, offset, [] => .ok ⟨offset, []⟩
  | .block _, offset, '*' :: '/' :: rest => skip .blank (offset + 2) rest
  | .block opened, offset, c :: rest => skip (.block opened) (offset + c.utf8Size) rest
  | .line, offset, c :: rest =>
    skip (if c = '\n' then .blank else .line) (offset + c.utf8Size) rest
  | .blank, offset, '/' :: '*' :: rest => skip (.block offset) (offset + 2) rest
  | .blank, offset, c :: rest =>
    if isBlank c then skip .blank (offset + c.utf8Size) rest
    else if c = '%' then skip .line (offset + 1) rest
    else .ok ⟨offset, c :: rest⟩

/-- Skipping blanks and comments does not make the text longer. -/
theorem length_skip_le {layout : Layout} {offset : Nat} {chars : List Char} {cursor : Cursor}
    (skipped : skip layout offset chars = .ok cursor) : cursor.rest.length ≤ chars.length := by
  fun_induction skip layout offset chars <;> simp_all <;> grind

end Layout

/-- The characters of a quoted atom after its opening quote, and the place after its closing quote. -/
def quotedBody (opened : Nat) : Nat → List Char → Except SyntaxError (List Char × Cursor)
  | _, [] => .error ⟨opened, .openQuote⟩
  | offset, '\'' :: '\'' :: rest =>
    (quotedBody opened (offset + 2) rest).map fun (body, after) => ('\'' :: body, after)
  | offset, '\'' :: rest => .ok ([], ⟨offset + 1, rest⟩)
  | offset, ['\\'] => .error ⟨offset + 1, .badEscape⟩
  | offset, '\\' :: c :: rest =>
    match ([('n', '\n'), ('t', '\t'), ('\\', '\\'), ('\'', '\'')] : List (Char × Char)).lookup c with
    | some meant =>
      (quotedBody opened (offset + 2) rest).map fun (body, after) => (meant :: body, after)
    | none => .error ⟨offset + 1 + c.utf8Size, .badEscape⟩
  | offset, c :: rest =>
    (quotedBody opened (offset + c.utf8Size) rest).map fun (body, after) => (c :: body, after)

/-- Reading a quoted atom does not make the text longer. -/
theorem length_quotedBody_le {opened offset : Nat} {chars body : List Char} {after : Cursor}
    (read : quotedBody opened offset chars = .ok (body, after)) :
    after.rest.length ≤ chars.length := by
  fun_induction quotedBody opened offset chars generalizing body <;>
    simp_all [Except.map] <;> grind

/-- The number that some digits stand for. Underscores between them do not count. -/
def digitsValue (digits : List Char) : Nat :=
  (digits.filter (· ≠ '_')).foldl (fun value c => 10 * value + (c.toNat - '0'.toNat)) 0

/-- Whether a full stop before these characters closes a clause. -/
def stopsBefore : List Char → Bool
  | [] => true
  | c :: _ => isBlank c || c = '%'

/-- The token that starts with a character, and the place after it. `called` says that a name stands
directly before. -/
def scan (called : Bool) (offset : Nat) (c : Char) (rest : List Char) :
    Except SyntaxError (Lexeme × Cursor) :=
  let after : Cursor := ⟨offset + c.utf8Size, rest⟩
  let word (keep : Char → Bool) := String.ofList (c :: rest.takeWhile keep)
  if isDigit c then
    let digit (d : Char) := isDigit d || d = '_'
    match word? (digitsValue (c :: rest.takeWhile digit)) with
    | some value => .ok (.int value, after.skipWhile digit)
    | none => .error ⟨offset, .integerRange⟩
  else if c = '_' || isUpper c then .ok (.var (word isNamePart), after.skipWhile isNamePart)
  else if isAlphabetic c then .ok (.name (word isNamePart), after.skipWhile isNamePart)
  else if c = '\'' then
    match quotedBody offset (offset + 1) rest with
    | .ok (body, after) => .ok (.name (String.ofList body), after)
    | .error error => .error error
  else if c = '(' then .ok (if called then .openCall else .punct '(', after)
  else if c ∈ [')', '[', ']', '|', ',', '\x7b', '\x7d'] then .ok (.punct c, after)
  else if c = '!' || c = ';' then .ok (.name c.toString, after)
  else if c = '.' && stopsBefore rest then .ok (.stop, after)
  else if isSymbol c then .ok (.name (word isSymbol), after.skipWhile isSymbol)
  else .error ⟨offset, .strayChar c⟩

/-- A token takes at least one character. -/
theorem length_scan_le {called : Bool} {offset : Nat} {c : Char} {rest : List Char}
    {lexeme : Lexeme} {after : Cursor} (scanned : scan called offset c rest = .ok (lexeme, after)) :
    after.rest.length ≤ rest.length := by
  have shorter := fun keep => Cursor.length_skipWhile_le ⟨offset + c.utf8Size, rest⟩ keep
  have unquoted : ∀ {body after},
      quotedBody offset (offset + 1) rest = .ok (body, after) → after.rest.length ≤ rest.length :=
    length_quotedBody_le
  simp only [scan] at scanned
  grind

/-- Whether a token is a name. -/
def Lexeme.isName : Lexeme → Bool
  | .name _ => true
  | _ => false

/-- The tokens of a text from a place on. `named` says that the last token before is a name. -/
def tokensFrom (named : Bool) (offset : Nat) (chars : List Char) : Except SyntaxError (List Token) :=
  match skipped : Layout.skip .blank offset chars with
  | .error error => .error error
  | .ok ⟨_, []⟩ => .ok []
  | .ok ⟨start, c :: rest⟩ =>
    let spaced : Bool := offset < start
    match scanned : scan (named && !spaced) start c rest with
    | .error error => .error error
    | .ok (lexeme, after) =>
      have : after.rest.length < chars.length :=
        Nat.lt_of_le_of_lt (length_scan_le scanned) (Layout.length_skip_le skipped)
      (tokensFrom lexeme.isName after.offset after.rest).map (⟨lexeme, start, spaced⟩ :: ·)
termination_by chars.length

/-- The tokens of a text. -/
def tokens (text : String) : Except SyntaxError (List Token) := tokensFrom false 0 text.toList

end HornLoops
