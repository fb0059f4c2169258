import HornLoops.Proofs.Reader.RoundTrip

/-!
# Signs in arithmetic expressions

A sign has three roles in an arithmetic expression: it begins a negative number, it stands before an operand, and it
stands between operands. Texts do not always keep these roles apart. An operator has blanks around it only if its
right operand is a negative number or has a sign of its own, so a sign further inside, at the beginning of the
leftmost operand, runs into it; nothing separates a sign from a sign before it; and a minus sign takes in the number or
the parentheses directly after it, though the operator behind them binds tighter.

`Term.signsApart` is a test for these cases. Every arithmetic expression that passes it is read as it was
written, whatever its nesting.
-/

namespace HornLoops

open Text Reader

/-- Arithmetic expressions. -/
inductive Arithmetic : Term → Prop
  | var (id : Nat) : Arithmetic (.var id)
  | int (value : Int64) : Arithmetic (.int value)
  | operation {name : String} {left right : Term} (operator : name ∈ ["+", "-", "*", "/", "//", "mod", "rem", "^"])
      (first : Arithmetic left) (second : Arithmetic right) : Arithmetic (.binary name left right)
  | signed {sign : String} {operand : Term} (known : sign ∈ ["-", "+"]) (within : Arithmetic operand) :
      Arithmetic (.unary sign operand)

/-- The priority of a sign and the largest one of its operand. -/
def signPriority : Nat := 200

namespace Term

/-- Whether a term is one token that a sign before it does not take for something else. -/
def isLeafAfter (sign : String) : Term → Bool
  | .var _ => true
  | .int value => sign ≠ "-" && 0 ≤ value.toInt
  | _ => false

/-- Whether a sign before an operand is read as the sign of this operand. An operand in parentheses is the argument of
the sign; otherwise the operand must begin with a token that stays apart from the sign. -/
def followsSign (sign : String) : Term → Bool
  | .var _ | .int _ => true
  | .compound name first [_] =>
    match binaryOp? name with
    | some op => signPriority < op.priority || first.isLeafAfter sign
    | none => false
  | _ => false

/-- Whether the signs of an arithmetic expression stand apart in its text. -/
def signsApart : Term → Bool
  | .int value => value ≠ Int64.minValue
  | .compound sign operand [] => operand.followsSign sign && operand.signsApart
  | .compound name left [right] =>
    left.signsApart && right.signsApart &&
      match binaryOp? name with
      | some op => !(isAttached name right && right.leadsWithSign op.right)
      | none => true
  | _ => true

end Term

/-! ## The texts of signs -/

variable {sign : String} {operand : Term}

variable (known : sign ∈ ["-", "+"])
include known

theorem unaryOp?_of_sign : unaryOp? sign = some (.repeatable signPriority) := by
  have each : ∀ sign ∈ ["-", "+"], unaryOp? sign = some (.repeatable signPriority) := by decide
  exact each sign known

/-- A sign is one character that is a token before everything but a symbol. -/
theorem exists_scans_sign : ∃ c, sign.toList = [c] ∧ Scans c [] Unsymbolic fun _ => .name sign := by
  have each : ∀ sign ∈ ["-", "+"], isSymbolic sign = true ∧ sign.toList.length = 1 := by decide
  obtain ⟨symbolic, single⟩ := each sign known
  obtain ⟨c, others, chars, -, scans⟩ := scans_of_isSymbolic symbolic
  rw [chars] at single
  obtain rfl : others = [] := by simpa using single
  exact ⟨c, chars, scans⟩

theorem callText_sign (text : String) : Term.callText true sign [text] = sign ++ ("(" ++ text ++ ")") := by
  have each : ∀ sign ∈ ["-", "+"], nameText true sign = sign := by decide
  rw [Term.callText, each sign known]
  simp [String.append_assoc]

/-- A sign is written directly before its operand. -/
theorem write_signed (notInt : operand.int? = none) (place : Place) :
    (Term.unary sign operand).write true place = place.around fun limit =>
      parenthesized (limit < signPriority) (sign ++ operand.write true (.upTo signPriority)) := by
  have each : ∀ sign ∈ ["-", "+"], sign ≠ "\x7b\x7d" ∧ nameText true sign = sign ∧ Term.gap sign = "" := by decide
  obtain ⟨notBraces, name, gap⟩ := each sign known
  rw [Term.unary, Term.write]
  simp only [if_neg notBraces, unaryOp?_of_sign known, notInt, name, gap, String.append_empty]
  rfl

variable {value : Int64} {name : String} {op : BinaryOp} {left right term : Term}

/-- The sign of a number is written with the number as its argument. -/
theorem write_signed_int (int : operand.int? = some value) (place : Place) :
    (Term.unary sign operand).write true place = place.around fun limit =>
      parenthesized (limit < 0) (Term.callText true sign [operand.write true (.upTo argPriority)]) := by
  have each : ∀ sign ∈ ["-", "+"], sign ≠ "\x7b\x7d" := by decide
  rw [Term.unary, Term.write]
  simp only [if_neg (each sign known), unaryOp?_of_sign known, int, Nat.not_lt_zero, parenthesized, decide_false,
    Bool.false_eq_true, if_false]

/-- The sign of an operation that binds less tight is written with the operation as its argument. -/
theorem write_signed_operation (operator : binaryOp? name = some op) (loose : signPriority < op.priority)
    (le : op.priority ≤ argPriority) (left right : Term) (place : Place) :
    (Term.unary sign (.binary name left right)).write true place = place.around fun limit =>
      parenthesized (limit < signPriority)
        (Term.callText true sign [(Term.binary name left right).write true (.upTo argPriority)]) := by
  have enclosed : (Term.binary name left right).write true (.upTo signPriority) =
      "(" ++ (Term.binary name left right).write true (.upTo argPriority) ++ ")" := by
    simp [write_binary operator, Place.around, parenthesized, loose, Nat.not_lt_of_le le]
  rw [write_signed known rfl, enclosed, callText_sign known]

/-! ## Reading signs -/

/-- A sign with the parentheses of its operand directly after it. -/
theorem readable_signed_call {priority : Nat} (readable : Readable operand)
    (text : ∀ place : Place, (Term.unary sign operand).write true place = place.around fun limit =>
      parenthesized (limit < priority) (Term.callText true sign [operand.write true (.upTo argPriority)]))
    (le : priority ≤ maxPriority)
    (leads : ∀ limit, priority ≤ limit → (Term.unary sign operand).leadsWithSign limit = true) :
    Readable (.unary sign operand) := by
  obtain ⟨c, chars, scans⟩ := exists_scans_sign known
  have inner : (Term.callText true sign [operand.write true (.upTo argPriority)]).toList =
      (c :: [] ++ ['(']) ++ ((operand.write true (.upTo argPriority)).toList ++ [')']) := by
    simp [callText_sign known, chars]
  have opens : ∀ rest, Unsymbolic ('(' :: rest) := by
    rintro _ d ⟨⟩
    decide
  refine .of_parenthesized text le ?_ ⟨c, _, inner, fun _ => leads⟩
  rw [inner]
  refine ((scans.lexes_call opens).enclosed (readable.upTo argPriority) (lexes_punct (by decide))
    (apart_of_punct (by decide))).mono (fun _ _ => trivial) ?_
  rintro _ ⟨_, tokens, _, rfl, ⟨named, opening, rfl, lexeme, opened⟩, spelled, closing, rfl, closed⟩ limit -
  exact (stands_call lexeme opened (spellsArguments_last spelled closed)).spelled limit

/-- Tokens that are read as the operand of a sign before them. -/
def SpelledAfter (sign : String) (operand : Term) (tokens : List Token) : Prop :=
  ∃ token others, tokens = token :: others ∧ Operand sign token ∧ Spelled signPriority operand tokens

/-- A sign with an operand directly after it that begins with a token of its own. -/
theorem readable_signed_operand (notInt : operand.int? = none)
    (lexes : Lexes (operand.write true (.upTo signPriority)).toList Apart (SpelledAfter sign operand))
    (head : ∃ c others, (operand.write true (.upTo signPriority)).toList = c :: others ∧ isSymbol c = false) :
    Readable (.unary sign operand) := by
  obtain ⟨c, chars, scans⟩ := exists_scans_sign known
  obtain ⟨c', others, text, notSymbol⟩ := head
  have inner : (sign ++ operand.write true (.upTo signPriority)).toList = [c] ++ c' :: others := by
    simp [chars, text]
  refine .of_parenthesized (write_signed known notInt) (by decide) ?_ ⟨c, _, inner, fun _ limit le => ?_⟩
  · rw [inner]
    rw [text] at lexes
    refine (scans.lexes.beside lexes fun rest _ => ?_).mono (fun _ => id) ?_
    · rintro d ⟨⟩
      exact notSymbol
    · rintro _ ⟨_, _, rfl, ⟨named, _, rfl, lexeme⟩, token, others, rfl, starts, spelled⟩ limit le
      exact spelled_unary (unaryOp?_of_sign known) lexeme le starts spelled
  · simpa [Term.unary, Term.leadsWithSign, unaryOp?_of_sign known] using .inl le

omit known

/-- What is one token that stays apart from a sign before it. -/
theorem lexes_of_isLeafAfter (leaf : operand.isLeafAfter sign = true) (limit : Nat) :
    ∃ c others, (operand.write true (.upTo limit)).toList = c :: others ∧ isSymbol c = false ∧
      Lexes (operand.write true (.upTo limit)).toList Apart fun tokens =>
        ∃ token, tokens = [token] ∧ Operand sign token ∧ Stands tokens operand := by
  match operand with
  | .var id =>
    refine ⟨_, _, toList_varText id, by decide, (lexes_varText id).mono (fun _ apart => apart) ?_⟩
    rintro _ ⟨token, rfl, lexeme⟩
    exact ⟨token, rfl, .inl ⟨_, lexeme⟩, stands_var lexeme⟩
  | .int value =>
    simp only [Term.isLeafAfter, Bool.and_eq_true, decide_eq_true_eq] at leaf
    obtain ⟨c, others, digits, notSymbol, scans⟩ := exists_scans_toDigits leaf.2
    have text : ((Term.int value).write true (.upTo limit)).toList = c :: others := by
      rw [Term.write, Place.around, intText, Int.toString_eq_repr, Int.repr_eq_if, if_pos leaf.2, Nat.toList_repr,
        digits]
    refine ⟨c, others, text, notSymbol, ?_⟩
    rw [text]
    refine scans.lexes.mono (fun _ => id) ?_
    rintro _ ⟨token, called, rfl, lexeme⟩
    exact ⟨token, rfl, .inr ⟨leaf.1, value, lexeme⟩, stands_int lexeme⟩
  | .atom _ | .compound .. => simp [Term.isLeafAfter] at leaf

/-- An operator that binds at least as tight as a sign, after a token that stays apart from the sign. -/
theorem lexes_operation_after (known : binaryOp? name = some op) (tight : op.priority ≤ signPriority)
    (leaf : left.isLeafAfter sign = true) (second : Readable right)
    (clear : Term.isAttached name right = true → right.leadsWithSign op.right = false) :
    (∃ c others, ((Term.binary name left right).write true (.upTo signPriority)).toList = c :: others ∧
      isSymbol c = false) ∧
    Lexes ((Term.binary name left right).write true (.upTo signPriority)).toList Apart
      (SpelledAfter sign (.binary name left right)) := by
  obtain ⟨c, others, head, notSymbol, lexes⟩ := lexes_of_isLeafAfter leaf op.left
  obtain ⟨c', others', head', signed⟩ := second.head op.right
  have text : ((Term.binary name left right).write true (.upTo signPriority)).toList =
      c :: others ++ ((Term.separator name right).toList ++ c' :: others') := by
    simp [write_binary known, Place.around, parenthesized, Nat.not_lt_of_le tight, operationText, head, head']
  refine ⟨⟨_, _, text, notSymbol⟩, ?_⟩
  rw [text]
  refine (lexes_operation known right (head ▸ lexes) (head' ▸ second.upTo op.right) fun attached =>
    Bool.eq_false_iff.mpr fun symbol => Bool.eq_false_iff.mp (clear attached) (signed symbol)).mono (fun _ => id) ?_
  rintro _ ⟨_, between, after, rfl, ⟨token, rfl, starts, stands⟩, lexeme, spelled⟩
  exact ⟨token, _, rfl, starts, spelled_binary known lexeme tight (stands.spelled op.left) spelled⟩

/-! ## Arithmetic expressions -/

theorem exists_binaryOp?_eq (operator : name ∈ ["+", "-", "*", "/", "//", "mod", "rem", "^"]) :
    ∃ op, binaryOp? name = some op ∧ op.priority ≤ argPriority := by
  have each : ∀ name ∈ ["+", "-", "*", "/", "//", "mod", "rem", "^"],
      (binaryOp? name).any (fun op => op.priority ≤ argPriority) = true := by decide
  simpa [Option.any_eq_true] using each name operator

theorem Term.signsApart_binary_iff (known : binaryOp? name = some op) :
    (Term.binary name left right).signsApart = true ↔
      left.signsApart = true ∧ right.signsApart = true ∧
        (isAttached name right = true → right.leadsWithSign op.right = false) := by
  simp only [Term.binary, signsApart, known, Bool.and_eq_true, and_assoc]
  cases isAttached name right <;> simp

/-- A term that is read as it was written, alone and after a sign that stays apart from it. -/
structure ReadableSigned (term : Term) : Prop where
  alone : Readable term
  signed : ∀ sign ∈ ["-", "+"], term.followsSign sign = true → Readable (.unary sign term)

theorem readableSigned_var (id : Nat) : ReadableSigned (.var id) := by
  refine ⟨readable_var id, fun sign known _ => readable_signed_operand known rfl ((lexes_varText id).mono
    (fun _ apart => apart) ?_) ⟨_, _, toList_varText id, by decide⟩⟩
  rintro _ ⟨token, rfl, lexeme⟩
  exact ⟨token, [], rfl, .inl ⟨_, lexeme⟩, (stands_var lexeme).spelled _⟩

theorem readableSigned_int (notMin : value ≠ Int64.minValue) : ReadableSigned (.int value) := by
  refine ⟨readable_int notMin, fun sign known _ =>
    readable_signed_call known (readable_int notMin) (write_signed_int known rfl) (by decide) fun limit _ => ?_⟩
  simp [Term.unary, Term.leadsWithSign, unaryOp?_of_sign known, Term.int?]

theorem readableSigned_operation (known : binaryOp? name = some op) (le : op.priority ≤ argPriority)
    (first : Readable left) (second : Readable right)
    (clear : Term.isAttached name right = true → right.leadsWithSign op.right = false) :
    ReadableSigned (.binary name left right) := by
  have alone := readable_operation known first second clear
  refine ⟨alone, fun sign sign' follows => ?_⟩
  by_cases loose : signPriority < op.priority
  · refine readable_signed_call sign' alone (write_signed_operation sign' known loose le left right) (by decide)
      fun limit le => ?_
    simpa [Term.unary, Term.leadsWithSign, unaryOp?_of_sign sign'] using .inl le
  · have leaf : left.isLeafAfter sign = true := by simpa [Term.binary, Term.followsSign, known, loose] using follows
    obtain ⟨head, lexes⟩ := lexes_operation_after known (Nat.le_of_not_lt loose) leaf second clear
    exact readable_signed_operand sign' rfl lexes head

theorem Arithmetic.readableSigned (arithmetic : Arithmetic term) (apart : term.signsApart = true) :
    ReadableSigned term := by
  induction arithmetic with
  | var id => exact readableSigned_var id
  | int value => exact readableSigned_int (by simpa [Term.signsApart] using apart)
  | operation operator _ _ first second =>
    obtain ⟨op, known, le⟩ := exists_binaryOp?_eq operator
    obtain ⟨left, right, clear⟩ := (Term.signsApart_binary_iff known).mp apart
    exact readableSigned_operation known le (first left).alone (second right).alone clear
  | signed known _ within =>
    obtain ⟨follows, apart⟩ := Bool.and_eq_true_iff.mp apart
    -- no sign stays apart from a second one before it
    exact ⟨(within apart).signed _ known follows, fun sign _ twice => by simp [Term.unary, Term.followsSign] at twice⟩

/-- **Reading undoes writing in arithmetic**: the text of an arithmetic expression whose signs stand apart is read, and
as a variant of the expression. -/
theorem readTerm_text_of_signsApart (arithmetic : Arithmetic term) (apart : term.signsApart = true) (next : Nat) :
    ∃ read next', readTerm term.text next = .ok read next' ∧ read.term.normalize = term.normalize :=
  (arithmetic.readableSigned apart).alone.exists_readTerm_eq next

/-- Where a minus sign takes in the number directly after it, two expressions have one text. -/
example :
    let negated : Term := .unary "-" (.binary "^" (.int 1) (.int 2))
    let power : Term := .binary "^" (.int (-1)) (.int 2)
    negated.text = "-1^2" ∧ power.text = "-1^2" ∧ negated.signsApart = false ∧ power.signsApart = true := by
  decide +kernel

end HornLoops
