import HornLoops.Operator
import HornLoops.Reader.Token
import HornLoops.Supply

/-!
# Reading terms

Terms are read from tokens by climbing operator priorities: an operand is read first, and then operators are
taken in as long as the place of the whole and the operand to the left admit them. Variables are numbered
in the order in which they are read, starting from the number that is handed in, and the next free number
is handed back, also when the reading fails.

The readers below take a bound on the number of tokens that are left. It decreases with each token taken, and
at zero they answer as they do at the end of the text.
-/

namespace HornLoops

/-- What is left to read, and what was learned about variables so far. -/
structure Reading where
  /-- Tokens that are left. -/
  tokens : List Token
  /-- The number of bytes of the whole text. -/
  size : Nat
  /-- The number of the next variable. -/
  next : Nat
  /-- Variables of the clause that is being read, with their names. -/
  names : List (String × Nat)

/-- A reader, which may fail with a syntax error. -/
abbrev Reader := EStateM SyntaxError Reading

/-- A term together with the names of its variables, in the order of their first occurrence. -/
structure ReadTerm where
  /-- The term. -/
  term : Term
  /-- Names and numbers of the variables other than the anonymous ones. -/
  names : List (String × Nat)
deriving DecidableEq, Repr

namespace ReadTerm

/-- The variable with a name. -/
def var? (read : ReadTerm) (name : String) : Option Nat := read.names.lookup name

end ReadTerm

namespace Reading

/-- The next token. -/
def token? (reading : Reading) : Option Token := reading.tokens.head?

/-- What the next token is. -/
def lexeme? (reading : Reading) : Option Lexeme := reading.token?.map Token.lexeme

/-- The byte at which the next token starts, or the end of the text. -/
def offset (reading : Reading) : Nat := (reading.token?.map Token.offset).getD reading.size

/-- The reading after the next token. -/
def advance (reading : Reading) : Reading := { reading with tokens := reading.tokens.tail }

/-- The operator between two operands that comes next. -/
def binaryOp? (reading : Reading) : Option (String × BinaryOp) :=
  match reading.lexeme? with
  | some (.name name) => (HornLoops.binaryOp? name).map (name, ·)
  | some (.punct ',') => (HornLoops.binaryOp? ",").map (",", ·)
  | _ => none

/-- Whether the next token may be the start of an operand. A name that is only an operator between operands
may not. -/
def startsOperand (reading : Reading) : Bool :=
  match reading.lexeme? with
  | some (.int _) | some (.var _) | some .openCall => true
  | some (.punct c) => c = '(' || c = '['
  | some (.name name) => (HornLoops.binaryOp? name).isNone || (unaryOp? name).isSome
  | some .stop | none => false

/-- The number that follows a minus sign directly. -/
def attachedInt? (reading : Reading) : Option Int64 :=
  match reading.token? with
  | some ⟨.int value, _, false⟩ => some value
  | _ => none

end Reading

namespace Reader

/-- Fails at the next token. -/
def fail {α : Type} (fault : SyntaxFault) : Reader α := do
  throw ⟨(← get).offset, fault⟩

/-- Takes the next token. -/
def advance : Reader Unit := modify Reading.advance

/-- Takes the next token if it is the expected one. -/
def expect (lexeme : Lexeme) (fault : SyntaxFault) : Reader Unit := do
  if (← get).lexeme? = some lexeme then advance else fail fault

/-- A new variable. -/
def fresh : Reader Nat := modifyGet fun reading =>
  (reading.next, { reading with next := reading.next + 1 })

/-- The variable with a name, which is new at its first occurrence in a clause. The anonymous variable is
new at every occurrence. -/
def variableNamed (name : String) : Reader Term := do
  if name = "_" then return .var (← fresh)
  match (← get).names.lookup name with
  | some id => return .var id
  | none =>
    let id ← fresh
    modify fun reading => { reading with names := reading.names ++ [(name, id)] }
    return .var id

/-- The arguments after an opening parenthesis, up to the closing one. -/
def arguments (argument : Reader Term) : Nat → Reader (List Term)
  | 0 => fail .inputEnd
  | bound + 1 => do
    let first ← argument
    if (← get).lexeme? = some (.punct ',') then
      advance
      return first :: (← arguments argument bound)
    expect (.punct ')') .openArguments
    return [first]

/-- The items of a list that is not empty and its tail, up to the closing bracket. -/
def items (item : Reader Term) : Nat → Reader (List Term × Term)
  | 0 => fail .inputEnd
  | bound + 1 => do
    let first ← item
    match (← get).lexeme? with
    | some (.punct ',') =>
      advance
      let (rest, tail) ← items item bound
      return (first :: rest, tail)
    | some (.punct '|') =>
      advance
      let tail ← item
      expect (.punct ']') .openList
      return ([first], tail)
    | _ =>
      expect (.punct ']') .openList
      return ([first], .nil)

/-- A list after its opening bracket. -/
def list (item : Reader Term) (bound : Nat) : Reader Term := do
  if (← get).lexeme? = some (.punct ']') then
    advance
    return .nil
  let (items, tail) ← items item bound
  return .listBefore items tail

/-- A term that starts with a name: a compound, a negative number, an operator with its operand, or an
atom. -/
def named (operand : Nat → Reader Term) (bound : Nat) (priority : Nat) (name : String) :
    Reader (Term × Nat) := do
  if (← get).lexeme? = some .openCall then
    advance
    return (.build name (← arguments (operand argPriority) bound), 0)
  let attached := (← get).attachedInt?
  match if name = "-" then attached else none with
  | some value =>
    advance
    return (.int (-value), 0)
  | none =>
    match unaryOp? name with
    | some op =>
      if op.priority ≤ priority && (← get).startsOperand then
        return (.unary name (← operand op.operand), op.priority)
      return (.atom name, 0)
    | none => return (.atom name, 0)

/-- A term that does not start with an operand to the left of an operator, with its priority. -/
def primary (operand : Nat → Reader Term) (bound : Nat) (priority : Nat) : Reader (Term × Nat) := do
  match (← get).lexeme? with
  | none => fail .inputEnd
  | some .stop => fail .clauseEnd
  | some (.int value) =>
    advance
    return (.int value, 0)
  | some (.var name) =>
    advance
    return (← variableNamed name, 0)
  | some (.name name) =>
    advance
    named operand bound priority name
  | some .openCall | some (.punct '(') =>
    advance
    let inner ← operand maxPriority
    expect (.punct ')') .openParenthesis
    return (inner, 0)
  | some (.punct '[') =>
    advance
    return (← list (operand argPriority) bound, 0)
  | some (.punct '\x7b') =>
    advance
    let inner ← operand maxPriority
    expect (.punct '\x7d') .openBrace
    return (.unary "\x7b\x7d" inner, 0)
  | some (.punct c) => fail (.strayPunct c)

/-- Takes in operators between operands, as long as the place and the operand to the left admit them. -/
def climb (operand : Nat → Reader Term) (priority : Nat) :
    Nat → Term → Nat → Reader (Term × Nat)
  | 0, left, leftPriority => return (left, leftPriority)
  | bound + 1, left, leftPriority => do
    match (← get).binaryOp? with
    | some (name, op) =>
      if op.priority ≤ priority && leftPriority ≤ op.left then
        advance
        let right ← operand op.right
        climb operand priority bound (.binary name left right) op.priority
      else return (left, leftPriority)
    | none => return (left, leftPriority)

/-- A term up to a priority. -/
def term : Nat → Nat → Reader Term
  | 0, _ => fail .inputEnd
  | bound + 1, priority => do
    let (left, leftPriority) ← primary (term bound) bound priority
    let (whole, _) ← climb (term bound) priority bound left leftPriority
    return whole

/-- A term with its own variables. -/
def clause (bound : Nat) : Reader ReadTerm := do
  modify fun reading => { reading with names := [] }
  let term ← term bound maxPriority
  return ⟨term, (← get).names⟩

/-- One term up to the end of the text; a full stop after it may be left out. -/
def single (bound : Nat) : Reader ReadTerm := do
  let read ← clause bound
  if (← get).lexeme? = some .stop then advance
  if (← get).tokens.isEmpty then return read
  fail .operatorExpected

/-- Clauses up to the end of the text, each with a full stop after it. -/
def clauses (bound : Nat) : Nat → Reader (List ReadTerm)
  | 0 => return []
  | count + 1 => do
    if (← get).tokens.isEmpty then return []
    let first ← clause bound
    expect .stop .openClause
    return first :: (← clauses bound count)

end Reader

/-- Runs a reader on the tokens of a text. -/
def readWith {α : Type} (text : String) (reader : Nat → Reader α) : Supplied SyntaxError α := fun next =>
  match tokens text with
  | .error error => .error error next
  | .ok tokens =>
    match reader tokens.length ⟨tokens, text.utf8ByteSize, next, []⟩ with
    | .ok read reading => .ok read reading.next
    | .error error reading => .error error reading.next

/-- Reads one term. -/
def readTerm (text : String) : Supplied SyntaxError ReadTerm := readWith text Reader.single

/-- Reads the clauses of a program. -/
def readProgram (text : String) : Supplied SyntaxError (List ReadTerm) :=
  readWith text fun bound => Reader.clauses bound bound

end HornLoops
