import HornLoops.Operator
import HornLoops.Term.Basic
import HornLoops.Text.CharClass

/-!
# The text of terms

Terms are written with their operators between or before the operands, lists in brackets and everything
else in functional notation. Parentheses stand exactly where an operator of larger priority appears than its
place admits. Atoms are quoted where the reader would take them for something else; the plain form leaves
the quotes out.
-/

namespace HornLoops

open Text

/-- The text of a variable. -/
def varText (id : Nat) : String := "_G" ++ toString id

/-- The text of an integer. -/
def intText (value : Int64) : String := toString value.toInt

/-- Whether an atom is quoted. Names of letters that start with a lowercase letter, names of symbols and
four special atoms are not. -/
def needsQuotes (name : String) : Bool :=
  match name.toList with
  | [] => true
  | first :: rest =>
    if name ∈ ["[]", "!", ";", "\x7b\x7d"] then false
    else if isLower first then !rest.all isNamePart
    else !(first :: rest).all isSymbol

/-- The text of a character inside a quoted atom. -/
def quotedChar (c : Char) : String :=
  if c = '\'' then "\\'"
  else if c = '\\' then "\\\\"
  else if c = '\n' then "\\n"
  else c.toString

/-- A name between single quotes. -/
def quotedName (name : String) : String :=
  "'" ++ String.join (name.toList.map quotedChar) ++ "'"

/-- The text of an atom, quoted where needed or always plain. -/
def nameText (quoted : Bool) (name : String) : String :=
  if quoted && needsQuotes name then quotedName name else name

/-- Where a term stands in the text of a larger one. -/
inductive Place where
  /-- An operand, an argument or a whole term, up to a priority. -/
  | upTo (priority : Nat)
  /-- The tail of a list whose opening bracket and first items are written already. -/
  | tail

namespace Place

/-- Puts the text of a term that is not a list into its place. -/
def around (place : Place) (text : Nat → String) : String :=
  match place with
  | .upTo priority => text priority
  | .tail => "|" ++ text argPriority ++ "]"

/-- What is written before the next item of a list. -/
def opening : Place → String
  | .upTo _ => "["
  | .tail => ","

end Place

/-- Encloses a text in parentheses if asked to. -/
def parenthesized (enclose : Bool) (text : String) : String :=
  if enclose then "(" ++ text ++ ")" else text

/-- Operators that are written without blanks around them. -/
def isTight (name : String) : Bool := name ∈ ["+", "-", "*", "/", "//", "^"]

namespace Term

/-- Whether the text of a term may begin with a sign, which an operator before it could absorb. -/
def startsWithSign : Term → Bool
  | .int value => value.toInt < 0
  | .compound name _ [] => (unaryOp? name).isSome
  | _ => false

/-- The text of an operator between its operands. -/
def separator (name : String) (right : Term) : String :=
  if name = "," then ", "
  else if isTight name && !right.startsWithSign then name
  else " " ++ name ++ " "

/-- The blank between an operator and the operand after it. -/
def gap (name : String) : String :=
  if name.toList.all isAlphanumeric || name = "\\+" then " " else ""

/-- Functional notation. -/
def callText (quoted : Bool) (name : String) (args : List String) : String :=
  nameText quoted name ++ "(" ++ ",".intercalate args ++ ")"

mutual

/-- The text of a term in its place. -/
def write (quoted : Bool) : Term → Place → String
  | .var id, place => place.around fun _ => varText id
  | .int value, place => place.around fun _ => intText value
  | .atom name, place =>
    match place with
    | .tail => if name = "[]" then "]" else place.around fun _ => nameText quoted name
    | .upTo _ => nameText quoted name
  | .compound name first [], place => place.around fun priority =>
    if name = "\x7b\x7d" then "\x7b" ++ write quoted first (.upTo maxPriority) ++ "\x7d"
    else
      match unaryOp? name, first.int? with
      | some op, none =>
        parenthesized (priority < op.priority)
          (nameText quoted name ++ gap name ++ write quoted first (.upTo op.operand))
      | _, _ => callText quoted name [write quoted first (.upTo argPriority)]
  | .compound name first [second], place =>
    if name = "." then
      place.opening ++ write quoted first (.upTo argPriority) ++ write quoted second .tail
    else
      place.around fun priority =>
        match binaryOp? name with
        | some op =>
          parenthesized (priority < op.priority)
            (write quoted first (.upTo op.left) ++ separator name second
              ++ write quoted second (.upTo op.right))
        | none =>
          callText quoted name
            [write quoted first (.upTo argPriority), write quoted second (.upTo argPriority)]
  | .compound name first (second :: third :: rest), place => place.around fun _ =>
    callText quoted name
      (write quoted first (.upTo argPriority) :: write quoted second (.upTo argPriority)
        :: write quoted third (.upTo argPriority) :: writeAll quoted rest)

/-- The texts of arguments. -/
def writeAll (quoted : Bool) : List Term → List String
  | [] => []
  | term :: terms => write quoted term (.upTo argPriority) :: writeAll quoted terms

end

/-- The text of a term, which the reader understands. -/
def text (term : Term) : String := term.write true (.upTo maxPriority)

/-- The text of a term with its atoms as they are. -/
def plainText (term : Term) : String := term.write false (.upTo maxPriority)

end Term

end HornLoops
