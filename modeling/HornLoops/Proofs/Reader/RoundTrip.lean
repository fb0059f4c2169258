import HornLoops.Proofs.Reader.Climbing
import HornLoops.Proofs.Reader.Scanning

/-!
# Reading what was written

The text of a term is read as a variant of the term. The proof follows the writer: for each form of a term its text is
put together from the texts of its parts, so its tokens are those of the parts (`Lexes`), and these spell the term
if those of the parts do (`Spelled`). A term stands in a place up to a priority or at the end of a list, and what
it has to satisfy in both is collected in `Readable`. Operators are the delicate case: their table decides where
parentheses stand, and an operator without blanks around it must not run into a sign at the beginning of the operand
after it.
-/

namespace HornLoops

open Text Reader

/-! ## Texts of single tokens -/

variable {c : Char} {value : Int64} {name : String} {op : BinaryOp} {others : List Char} {holds : List Token → Prop}
  {term first : Term} {rest : List Term}

theorem isDigit_of_mem_toDigits {n : Nat} (member : c ∈ Nat.toDigits 10 n) : isDigit c = true := by
  have digit := Nat.isDigit_of_mem_toDigits (by decide) (by decide) member
  simpa [isDigit, Char.isDigit, Char.le_def] using digit

theorem digitsValue_toDigits (n : Nat) : digitsValue (Nat.toDigits 10 n) = n := by
  have kept : (Nat.toDigits 10 n).filter (· ≠ '_') = Nat.toDigits 10 n := by
    refine List.filter_eq_self.mpr fun c member => ?_
    have digit := isDigit_of_mem_toDigits member
    refine decide_eq_true ?_
    rintro rfl
    exact absurd digit (by decide)
  rw [digitsValue, kept, ← Nat.ofDigitChars_eq_foldl, Nat.ofDigitChars_ten_toDigits]

theorem toList_varText (id : Nat) : (varText id).toList = '_' :: 'G' :: Nat.toDigits 10 id := by
  have digits : (toString id).toList = Nat.toDigits 10 id := Nat.toList_repr
  rw [varText, String.toList_append, digits]
  rfl

/-- One token that is a given lexeme. -/
abbrev One (lexeme : Lexeme) (tokens : List Token) : Prop := ∃ token, tokens = [token] ∧ token.lexeme = lexeme

theorem lexes_varText (number : Nat) : Lexes (varText number).toList Apart (One (.var (varText number))) := by
  have parts : ∀ c ∈ 'G' :: Nat.toDigits 10 number, isNamePart c = true :=
    List.forall_mem_cons.mpr ⟨by decide, fun c member => isNamePart_of_isDigit (isDigit_of_mem_toDigits member)⟩
  rw [toList_varText]
  refine (scans_variable parts).lexes.mono (fun _ => id) ?_
  rintro _ ⟨token, called, rfl, lexeme⟩
  rw [← toList_varText, String.ofList_toList] at lexeme
  exact ⟨token, rfl, lexeme⟩

/-- The digits of a word that is not negative. -/
theorem exists_scans_toDigits (nonneg : 0 ≤ value.toInt) :
    ∃ c others, Nat.toDigits 10 value.toInt.toNat = c :: others ∧ isSymbol c = false ∧
      Scans c others Apart fun _ => .int value := by
  match digits : Nat.toDigits 10 value.toInt.toNat with
  | [] => exact absurd digits Nat.toDigits_ne_nil
  | c :: others =>
    have each : ∀ d ∈ c :: others, isDigit d = true := fun d member => isDigit_of_mem_toDigits (digits ▸ member)
    have read : value.toInt = digitsValue (c :: others) := by
      rw [← digits, digitsValue_toDigits]
      exact (Int.toNat_of_nonneg nonneg).symm
    refine ⟨c, others, rfl, Bool.eq_false_iff.mpr fun symbol => ?_, scans_digits each read⟩
    have digit := each c List.mem_cons_self
    rw [(plain_of_isSymbol symbol).2.2.1] at digit
    contradiction

theorem toInt_neg (notMin : value ≠ Int64.minValue) : (-value).toInt = -value.toInt := by
  have differs : value.toInt ≠ -9223372036854775808 := fun same => notMin (Int64.toInt_inj.mp same)
  have fits := fits_toInt value
  unfold Fits at fits
  rw [Int64.toInt_neg]
  exact Int.bmod_eq_of_le (by omega) (by omega)

/-- A word is cut as one number, or as a minus sign with a number directly after it. Only the smallest word is not,
since its digits do not fit. -/
theorem lexes_intText (notMin : value ≠ Int64.minValue) :
    Lexes (intText value).toList Apart (Spelled 0 (.int value)) ∧ ∃ c others, (intText value).toList = c :: others ∧
      (isSymbol c = true → value.toInt < 0) := by
  rw [intText, Int.toString_eq_repr, Int.repr_eq_if]
  by_cases nonneg : 0 ≤ value.toInt
  · obtain ⟨c, others, text, notSymbol, scans⟩ := exists_scans_toDigits nonneg
    rw [if_pos nonneg, Nat.toList_repr, text]
    refine ⟨scans.lexes.mono (fun _ => id) ?_, c, others, rfl, by simp [notSymbol]⟩
    rintro _ ⟨token, called, rfl, lexeme⟩
    exact (stands_int lexeme).spelled 0
  · have minus := toInt_neg notMin
    have positive : 0 ≤ (-value).toInt := by omega
    obtain ⟨c, others, text, notSymbol, scans⟩ := exists_scans_toDigits positive
    have chars : ("-" ++ (-value.toInt).toNat.repr).toList = '-' :: c :: others := by
      rw [String.toList_append, Nat.toList_repr, ← minus, text]
      rfl
    have sign : Scans '-' [] Unsymbolic fun _ => .name "-" := 
      scans_symbols (forall_mem_of_all (by decide)) (by decide) (by decide)
    rw [if_neg nonneg, chars]
    refine ⟨(sign.lexes_attached scans fun rest _ => ?_).mono (fun _ => id) ?_, _, _, rfl, fun _ => by omega⟩
    · rintro d ⟨⟩
      exact notSymbol
    · rintro _ ⟨named, digits, rfl, lexeme, int, attached⟩
      rw [← @Int64.neg_neg value]
      exact (stands_negative lexeme int attached).spelled 0

/-- Names that are neither the empty braces nor made of symbols only. -/
structure PlainName (name : String) : Prop where
  notBraces : name ≠ "\x7b\x7d"
  notSymbols : name.toList.all isSymbol = true → name = ""

theorem toList_quotedName (name : String) :
    (quotedName name).toList = '\'' :: (name.toList.flatMap (fun c => (quotedChar c).toList) ++ ['\'']) := by
  simp [quotedName, String.toList_join, List.flatMap_map]

theorem isSymbol_eq_false_of_isLower (lower : isLower c = true) : isSymbol c = false :=
  Bool.eq_false_iff.mpr fun symbol => by
    have other := (plain_of_isSymbol symbol).2.2.2.2.1
    have letter : CharClass.of c = .lower := by simpa [isLower] using lower
    simp [isAlphabetic, letter, CharClass.isAlphabetic] at other

/-- Names are cut as they are written, with or without quotes. -/
theorem exists_scans_nameText (plain : PlainName name) (notNil : name ≠ "[]") :
    ∃ c others, (nameText true name).toList = c :: others ∧ isSymbol c = false ∧
      Scans c others Apart fun _ => .name name := by
  by_cases quotes : needsQuotes name = true
  · refine ⟨_, _, ?_, by decide, scans_quoted name⟩
    rw [nameText, Bool.true_and, if_pos quotes, toList_quotedName]
  have text : (nameText true name).toList = name.toList := by simp [nameText, quotes]
  rw [text]
  match chars : name.toList with
  | [] => simp [needsQuotes, chars] at quotes
  | first :: rest =>
    have back : name = String.ofList (first :: rest) := by rw [← chars, String.ofList_toList]
    simp only [needsQuotes, chars] at quotes
    split at quotes
    · rename_i special
      have solo : name = "!" ∨ name = ";" := by
        have notBraces := plain.notBraces
        simp only [List.mem_cons, List.not_mem_nil, or_false] at special
        tauto
      obtain ⟨c, same, kind⟩ : ∃ c, name = c.toString ∧ (c = '!' ∨ c = ';') := by
        rcases solo with rfl | rfl
        · exact ⟨'!', by decide, .inl rfl⟩
        · exact ⟨';', by decide, .inr rfl⟩
      obtain ⟨rfl, rfl⟩ : c = first ∧ [] = rest := by
        rw [same] at chars
        simpa using chars
      refine ⟨c, [], rfl, ?_, same ▸ scans_solo kind⟩
      rcases kind with rfl | rfl <;> decide
    split at quotes
    · rename_i lower
      refine ⟨first, rest, rfl, isSymbol_eq_false_of_isLower lower, ?_⟩
      rw [back]
      exact scans_word lower (by simpa using quotes)
    · have symbols : name.toList.all isSymbol = true := by
        rw [chars]
        simpa using quotes
      rw [plain.notSymbols symbols] at chars
      simp at chars

/-! ## Operators -/

/-- Whether a name is cut as a name of symbols, and neither as a full stop nor as the start of a comment. -/
def isSymbolic (name : String) : Bool :=
  match name.toList with
  | [] => false
  | c :: others => (c :: others).all isSymbol && c ≠ '.' && (c ≠ '/' || others.head? ≠ some '*')

/-- Whether a name is written with letters and without quotes. -/
def isWord (name : String) : Bool :=
  match name.toList with
  | [] => false
  | c :: others => isLower c && others.all isNamePart

/-- The notation of an operator: a comma, a semicolon, a word or symbols. -/
theorem operator_cases (known : HornLoops.binaryOp? name = some op) :
    name = "," ∨ name = ";" ∨ isWord name = true ∧ isTight name = false ∨ isSymbolic name = true := by
  have table : ∀ entry ∈ binaryOps, entry.1 = "," ∨ entry.1 = ";" ∨
      isWord entry.1 = true ∧ isTight entry.1 = false ∨ isSymbolic entry.1 = true := by
    decide +kernel
  exact table (name, op) (mem_of_lookup_eq_some known)

/-- A token that is read as an operator with a name. -/
abbrev OneBetween (name : String) (tokens : List Token) : Prop := ∃ token, tokens = [token] ∧ Between token name

/-- Whether the text of a term in a place begins with a sign: its own or that of its leftmost operand. -/
def Term.leadsWithSign : Nat → Term → Bool
  | _, .int value => value.toInt < 0
  | limit, .compound name first [] =>
    match unaryOp? name with
    | some op => op.priority ≤ limit || first.int?.isSome
    | none => false
  | limit, .compound name first [_] =>
    match binaryOp? name with
    | some op => op.priority ≤ limit && first.leadsWithSign op.left
    | none => false
  | _, _ => false

/-- Whether an operator is written directly before its right operand. -/
def Term.isAttached (name : String) (right : Term) : Bool := isTight name && !right.startsWithSign

/-- How an operator is written between its operands: perhaps after a blank and before one, such that it runs into the
left one nowhere and into the right one only if this begins with a symbol directly after the operator. -/
structure Separator (name : String) (right : Term) where
  before : List Char
  operator : List Char
  after : List Char
  follows : List Char → Prop
  text_eq : (Term.separator name right).toList = before ++ (operator ++ after)
  blankBefore : ∀ c ∈ before, isBlank c = true
  blankAfter : ∀ c ∈ after, isBlank c = true
  apart : ∀ rest, Apart (before ++ (operator ++ rest))
  lexes : Lexes operator follows (OneBetween name)
  admits : ∀ rest, (Term.isAttached name right = true → Unsymbolic rest) → follows (after ++ rest)

theorem lexes_comma : Lexes [','] (fun _ => True) (OneBetween ",") := by
  refine (scans_punct (by decide)).lexes.mono (fun _ => id) ?_
  rintro _ ⟨token, called, rfl, lexeme⟩
  exact ⟨token, rfl, .inr ⟨rfl, lexeme⟩⟩

theorem Scans.lexes_between {follows : List Char → Prop} (scans : Scans c others follows fun _ => .name name) :
    Lexes (c :: others) follows (OneBetween name) := by
  refine scans.lexes.mono (fun _ => id) ?_
  rintro _ ⟨token, called, rfl, lexeme⟩
  exact ⟨token, rfl, .inl lexeme⟩

/-- An operator between blanks. -/
def Separator.spaced {name : String} {right : Term} {follows : List Char → Prop}
    (lexes : Lexes name.toList follows (OneBetween name)) (admits : ∀ rest, follows (' ' :: rest))
    (text : Term.separator name right = " " ++ name ++ " ") : Separator name right where
  before := [' ']
  operator := name.toList
  after := [' ']
  follows := follows
  text_eq := by simp [text]
  blankBefore := isBlank_space
  blankAfter := isBlank_space
  apart rest := apart_blank _
  lexes := lexes
  admits rest _ := admits rest

theorem scans_of_isWord (word : isWord name = true) :
    ∃ c others, name.toList = c :: others ∧ Scans c others Apart fun _ => .name name := by
  unfold isWord at word
  match chars : name.toList with
  | [] => simp [chars] at word
  | c :: others =>
    have back : name = String.ofList (c :: others) := by rw [← chars, String.ofList_toList]
    have parts : isLower c = true ∧ ∀ d ∈ others, isNamePart d = true := by simpa [chars] using word
    refine ⟨c, others, rfl, ?_⟩
    rw [back]
    exact scans_word parts.1 parts.2

theorem scans_of_isSymbolic (symbolic : isSymbolic name = true) :
    ∃ c others, name.toList = c :: others ∧ isSymbol c = true ∧ Scans c others Unsymbolic fun _ => .name name := by
  unfold isSymbolic at symbolic
  match chars : name.toList with
  | [] => simp [chars] at symbolic
  | c :: others =>
    have back : name = String.ofList (c :: others) := by rw [← chars, String.ofList_toList]
    simp only [chars, Bool.and_eq_true, List.all_eq_true, decide_eq_true_eq, Bool.or_eq_true] at symbolic
    obtain ⟨⟨symbols, notStop⟩, notBlock⟩ := symbolic
    refine ⟨c, others, rfl, symbols c (by simp), ?_⟩
    rw [back]
    exact scans_symbols symbols (fun dot => absurd dot notStop) fun slash => notBlock.resolve_left fun other => other slash

/-- Every operator of the table is written apart from its operands. -/
theorem exists_separator (known : HornLoops.binaryOp? name = some op) (right : Term) :
    Nonempty (Separator name right) := by
  by_cases comma : name = ","
  · subst comma
    exact ⟨{
      before := []
      operator := [',']
      after := [' ']
      follows := fun _ => True
      text_eq := by simp [Term.separator]
      blankBefore := List.forall_mem_nil _
      blankAfter := isBlank_space
      apart := apart_of_punct (by decide)
      lexes := lexes_comma
      admits := fun _ _ => trivial }⟩
  rcases operator_cases known with rfl | rfl | ⟨word, loose⟩ | symbolic
  · contradiction
  · have lexes : Lexes [';'] (fun _ => True) (OneBetween ";") := Scans.lexes_between (scans_solo (.inr rfl))
    exact ⟨.spaced lexes (fun _ => trivial) (by simp [Term.separator, isTight])⟩
  · obtain ⟨c, others, chars, scans⟩ := scans_of_isWord word
    have lexes : Lexes name.toList Apart (OneBetween name) := chars ▸ scans.lexes_between
    exact ⟨.spaced lexes apart_blank (by simp [Term.separator, comma, loose])⟩
  · obtain ⟨c, others, chars, symbol, scans⟩ := scans_of_isSymbolic symbolic
    have lexes : Lexes name.toList Unsymbolic (OneBetween name) := chars ▸ scans.lexes_between
    by_cases attached : Term.isAttached name right = true
    · have text : Term.separator name right = name := by
        rw [Term.separator, if_neg comma]
        exact if_pos attached
      exact ⟨{
        before := []
        operator := name.toList
        after := []
        follows := Unsymbolic
        text_eq := by simp [text]
        blankBefore := List.forall_mem_nil _
        blankAfter := List.forall_mem_nil _
        apart := fun rest => by
          rw [chars]
          exact apart_of_isSymbol symbol _
        lexes := lexes
        admits := fun _ ends => ends attached }⟩
    · refine ⟨.spaced lexes unsymbolic_blank ?_⟩
      rw [Term.separator, if_neg comma]
      exact if_neg attached

/-- The text of an operator between the texts of its operands. -/
theorem lexes_operation (known : HornLoops.binaryOp? name = some op) (right : Term) {left : List Char} {first : Char}
    {holds' : List Token → Prop} (lexes : Lexes left Apart holds) (lexes' : Lexes (first :: others) Apart holds')
    (notSymbol : Term.isAttached name right = true → isSymbol first = false) :
    Lexes (left ++ ((Term.separator name right).toList ++ first :: others)) Apart fun tokens =>
      ∃ before token after, tokens = before ++ token :: after ∧ holds before ∧ Between token name ∧ holds' after := by
  obtain ⟨separator⟩ := exists_separator known right
  have tail := separator.lexes.append separator.blankAfter lexes' fun rest _ => by
    rw [List.append_assoc]
    refine separator.admits _ fun attached => ?_
    rintro c ⟨⟩
    exact notSymbol attached
  have whole := lexes.append separator.blankBefore tail fun rest _ => by
    rw [List.append_assoc, List.append_assoc]
    exact separator.apart _
  have text : left ++ ((Term.separator name right).toList ++ first :: others) =
      left ++ (separator.before ++ (separator.operator ++ (separator.after ++ first :: others))) :=
    (congrArg (fun between => left ++ (between ++ first :: others)) separator.text_eq).trans (by simp)
  rw [text]
  refine whole.mono (fun _ => id) ?_
  rintro _ ⟨before, _, rfl, property, _, after, rfl, ⟨token, rfl, between⟩, property'⟩
  exact ⟨before, token, after, rfl, property, between, property'⟩

/-! ## Terms -/

/-- A punctuation mark is a token of its own. -/
theorem lexes_punct (punct : c ∈ [')', '[', ']', '|', ',', '\x7b', '\x7d']) :
    Lexes [c] (fun _ => True) (One (.punct c)) := by
  refine (scans_punct punct).lexes.mono (fun _ => id) ?_
  rintro _ ⟨token, called, rfl, lexeme⟩
  exact ⟨token, rfl, lexeme⟩

/-- A text between an opening and a closing mark. -/
theorem Lexes.enclosed {opening closing : List Char} {chars : List Char} {opens closes : List Token → Prop}
    (first : Lexes opening (fun _ => True) opens) (lexes : Lexes chars Apart holds)
    (last : Lexes closing (fun _ => True) closes) (apart : ∀ rest, Apart (closing ++ rest)) :
    Lexes (opening ++ (chars ++ closing)) (fun _ => True) fun tokens =>
      ∃ before inner after, tokens = before ++ (inner ++ after) ∧ opens before ∧ holds inner ∧ closes after := by
  refine (first.beside (lexes.beside last fun rest _ => apart rest) fun _ _ => trivial).mono (fun _ => id) ?_
  rintro _ ⟨before, _, rfl, opened, inner, after, rfl, property, closed⟩
  exact ⟨before, inner, after, rfl, opened, property, closed⟩

/-- A term whose text is read as this term, wherever it stands. -/
structure Readable (term : Term) : Prop where
  /-- In any place it is written such that the place admits it. -/
  upTo : ∀ limit, Lexes (term.write true (.upTo limit)).toList Apart (Spelled limit term)
  /-- Operators before it run into it only where it leads with a sign. -/
  head : ∀ limit, ∃ c others, (term.write true (.upTo limit)).toList = c :: others ∧
    (isSymbol c = true → term.leadsWithSign limit = true)
  /-- As the tail of a list it is read as the rest of the list. -/
  tail : Lexes (term.write true .tail).toList (fun _ => True) (SpellsTail term)
  /-- Items of a list do not run into it. -/
  apart : ∀ rest, Apart ((term.write true .tail).toList ++ rest)

/-- What is not a list itself stands after a bar as the tail of a list. -/
theorem Readable.of_tail_eq (tail : term.write true .tail = "|" ++ term.write true (.upTo argPriority) ++ "]")
    (upTo : ∀ limit, Lexes (term.write true (.upTo limit)).toList Apart (Spelled limit term))
    (head : ∀ limit, ∃ c others, (term.write true (.upTo limit)).toList = c :: others ∧
      (isSymbol c = true → term.leadsWithSign limit = true)) : Readable term := by
  have text : (term.write true .tail).toList = ['|'] ++ ((term.write true (.upTo argPriority)).toList ++ [']']) := by
    simp [tail]
  refine ⟨upTo, head, ?_, fun rest => ?_⟩
  · rw [text]
    refine ((lexes_punct (by decide)).enclosed (upTo argPriority) (lexes_punct (by decide))
      (apart_of_punct (by decide))).mono (fun _ => id) ?_
    rintro _ ⟨_, tokens, _, rfl, ⟨bar, rfl, lexeme⟩, spelled, closing, rfl, closed⟩
    exact spellsTail_bar lexeme closed spelled
  · rw [text]
    exact apart_of_punct (by decide) _

theorem readable_var (id : Nat) : Readable (.var id) := by
  refine .of_tail_eq rfl (fun limit => (lexes_varText id).mono (fun _ apart => apart) ?_) fun limit =>
    ⟨_, _, toList_varText id, fun symbol => absurd symbol (by decide)⟩
  rintro _ ⟨token, rfl, lexeme⟩
  exact (stands_var lexeme).spelled limit

theorem readable_int (notMin : value ≠ Int64.minValue) : Readable (.int value) := by
  obtain ⟨lexes, c, others, text, signed⟩ := lexes_intText notMin
  refine .of_tail_eq rfl (fun limit => lexes.mono (fun _ apart => apart) fun _ spelled => ?_) fun limit =>
    ⟨c, others, text, fun symbol => by simp [Term.leadsWithSign, signed symbol]⟩
  exact spelled.mono (Nat.zero_le limit)

/-- Operators before an operand are made of symbols. -/
theorem PlainName.unaryOp?_eq_none (plain : PlainName name) : unaryOp? name = none := by
  have table : ∀ entry ∈ unaryOps, entry.1.toList.all isSymbol = true ∧ entry.1 ≠ "" := by decide +kernel
  match known : unaryOp? name with
  | none => rfl
  | some op =>
    have symbols := table (name, op) (mem_of_lookup_eq_some known)
    exact absurd (plain.notSymbols symbols.1) symbols.2

theorem readable_nil : Readable .nil := by
  have text : ∀ limit, (Term.nil.write true (.upTo limit)).toList = ['['] ++ [']'] := by
    intro limit
    rw [Term.nil, Term.write]
    rfl
  refine ⟨fun limit => ?_, fun limit => ⟨_, _, text limit, fun symbol => absurd symbol (by decide)⟩, ?_,
    fun rest => apart_of_punct (by decide) rest⟩
  · rw [text]
    refine ((lexes_punct (by decide)).beside (lexes_punct (by decide)) fun _ _ => trivial).mono (fun _ _ => trivial) ?_
    rintro _ ⟨_, _, rfl, ⟨opening, rfl, opened⟩, closing, rfl, closed⟩
    exact (stands_nil opened closed).spelled limit
  · refine (lexes_punct (by decide)).mono (fun _ => id) ?_
    rintro _ ⟨closing, rfl, closed⟩
    exact spellsTail_nil closed

theorem readable_atom (plain : PlainName name) : Readable (.atom name) := by
  by_cases isNil : name = "[]"
  · subst isNil
    exact readable_nil
  obtain ⟨c, others, text, notSymbol, scans⟩ := exists_scans_nameText plain isNil
  refine .of_tail_eq ?_ (fun limit => ?_) fun limit => ⟨c, others, text, by simp [notSymbol]⟩
  · rw [Term.write, if_neg isNil]
    rfl
  · rw [Term.write, text]
    refine scans.lexes.mono (fun _ => id) ?_
    rintro _ ⟨token, called, rfl, lexeme⟩
    exact (stands_atom lexeme plain.unaryOp?_eq_none).spelled limit

theorem readable_cons {rest : Term} (head : Readable first) (tail : Readable rest) : Readable (.cons first rest) := by
  have text : ∀ place : Place, (Term.cons first rest).write true place =
      place.opening ++ first.write true (.upTo argPriority) ++ rest.write true .tail := by
    intro place
    rw [Term.cons, Term.binary, Term.write, if_pos rfl]
  have items : Lexes ((first.write true (.upTo argPriority)).toList ++ (rest.write true .tail).toList) (fun _ => True)
      fun tokens => ∃ left right, tokens = left ++ right ∧ Spelled argPriority first left ∧ SpellsTail rest right :=
    (head.upTo argPriority).beside tail.tail fun others _ => tail.apart others
  have upTo : ∀ limit, ((Term.cons first rest).write true (.upTo limit)).toList =
      ['['] ++ ((first.write true (.upTo argPriority)).toList ++ (rest.write true .tail).toList) := by
    intro limit
    simp [text, Place.opening]
  have tailText : ((Term.cons first rest).write true .tail).toList =
      [','] ++ ((first.write true (.upTo argPriority)).toList ++ (rest.write true .tail).toList) := by
    simp [text, Place.opening]
  refine ⟨fun limit => ?_, fun limit => ⟨_, _, upTo limit, fun symbol => absurd symbol (by decide)⟩, ?_,
    fun others => ?_⟩
  · rw [upTo]
    refine ((lexes_punct (by decide)).beside items fun _ _ => trivial).mono (fun _ _ => trivial) ?_
    rintro _ ⟨_, _, rfl, ⟨opening, rfl, opened⟩, left, right, rfl, spelled, others⟩
    exact (stands_cons opened spelled others).spelled limit
  · rw [tailText]
    refine ((lexes_punct (by decide)).beside items fun _ _ => trivial).mono (fun _ => id) ?_
    rintro _ ⟨_, _, rfl, ⟨comma, rfl, lexeme⟩, left, right, rfl, spelled, others⟩
    have continued := spellsTail_comma lexeme spelled others
    exact continued
  · rw [tailText]
    exact apart_of_punct (by decide) _

theorem readable_braces {inner : Term} (readable : Readable inner) : Readable (.unary "\x7b\x7d" inner) := by
  have text : ∀ limit, ((Term.unary "\x7b\x7d" inner).write true (.upTo limit)).toList =
      ['\x7b'] ++ ((inner.write true (.upTo maxPriority)).toList ++ ['\x7d']) := by
    intro limit
    simp [Term.unary, Term.write, Place.around]
  refine .of_tail_eq ?_ (fun limit => ?_) fun limit => ⟨_, _, text limit, fun symbol => absurd symbol (by decide)⟩
  · rw [Term.unary, Term.write, Term.write]
    rfl
  · rw [text]
    refine ((lexes_punct (by decide)).enclosed (readable.upTo maxPriority) (lexes_punct (by decide))
      (apart_of_punct (by decide))).mono (fun _ _ => trivial) ?_
    rintro _ ⟨_, tokens, _, rfl, ⟨opening, rfl, opened⟩, spelled, closing, rfl, closed⟩
    exact (stands_braces opened closed spelled).spelled limit

/-- Arguments with commas between them and a closing parenthesis after them. -/
theorem lexes_arguments (readable : ∀ arg ∈ first :: rest, Readable arg) :
    Lexes ((",".intercalate ((first :: rest).map (Term.write true · (.upTo argPriority)))).toList ++ [')'])
      (fun _ => True) (SpellsArguments (first :: rest)) := by
  induction rest generalizing first with
  | nil =>
    refine (((readable first (by simp)).upTo argPriority).beside (lexes_punct (by decide)) fun rest _ =>
      apart_of_punct (by decide) rest).mono (fun _ => id) ?_
    rintro _ ⟨left, _, rfl, spelled, closing, rfl, closed⟩
    exact spellsArguments_last spelled closed
  | cons second rest ih =>
    rw [List.forall_mem_cons] at readable
    have comma : Lexes [','] (fun _ => True) (One (.punct ',')) := lexes_punct (by decide)
    have whole := (readable.1.upTo argPriority).beside (comma.beside (ih readable.2) fun _ _ => trivial) fun rest _ =>
      apart_of_punct (by decide) _
    have text :
        (",".intercalate ((first :: second :: rest).map (Term.write true · (.upTo argPriority)))).toList ++ [')'] =
        (first.write true (.upTo argPriority)).toList ++ ([','] ++
          ((",".intercalate ((second :: rest).map (Term.write true · (.upTo argPriority)))).toList ++ [')'])) := by
      simp [String.intercalate_cons_cons]
    rw [text]
    refine whole.mono (fun _ => id) ?_
    rintro _ ⟨left, _, rfl, spelled, _, right, rfl, ⟨comma, rfl, lexeme⟩, arguments⟩
    exact spellsArguments_cons spelled lexeme arguments

theorem writeAll_eq_map (terms : List Term) :
    Term.writeAll true terms = terms.map (Term.write true · (.upTo argPriority)) := by
  induction terms with
  | nil => rfl
  | cons first rest ih => rw [Term.writeAll, ih, List.map_cons]

/-- Names that are no operators are written before their arguments. -/
theorem write_call (plain : PlainName name) (noOperator : rest.length = 1 → binaryOp? name = none) (place : Place) :
    (Term.compound name first rest).write true place = place.around fun _ =>
      Term.callText true name ((first :: rest).map (Term.write true · (.upTo argPriority))) := by
  have notDot : name ≠ "." := by
    rintro rfl
    exact absurd (plain.notSymbols (by decide)) (by decide)
  match rest with
  | [] => simp [Term.write, plain.notBraces, plain.unaryOp?_eq_none]
  | [second] => simp [Term.write, notDot, noOperator rfl]
  | second :: third :: others => simp [Term.write, writeAll_eq_map]

theorem readable_call (plain : PlainName name) (notNil : name ≠ "[]")
    (noOperator : rest.length = 1 → binaryOp? name = none) (readable : ∀ arg ∈ first :: rest, Readable arg) :
    Readable (.compound name first rest) := by
  obtain ⟨c, others, nameChars, notSymbol, scans⟩ := exists_scans_nameText plain notNil
  have text : ∀ limit, ((Term.compound name first rest).write true (.upTo limit)).toList = (c :: others ++ ['(']) ++
      ((",".intercalate ((first :: rest).map (Term.write true · (.upTo argPriority)))).toList ++ [')']) := by
    intro limit
    rw [write_call plain noOperator, Place.around, Term.callText]
    simp [nameChars]
  refine .of_tail_eq ?_ (fun limit => ?_) fun limit => ⟨_, _, text limit, by simp [notSymbol]⟩
  · rw [write_call plain noOperator, write_call plain noOperator]
    rfl
  · have opens : ∀ rest, Apart ('(' :: rest) := by
      rintro _ d ⟨⟩
      decide
    have call : Lexes (c :: others ++ ['(']) (fun _ => True) fun tokens => ∃ named opening,
        tokens = [named, opening] ∧ named.lexeme = .name name ∧ opening.lexeme = .openCall := scans.lexes_call opens
    rw [text]
    refine (call.beside (lexes_arguments readable) fun _ _ => trivial).mono (fun _ _ => trivial) ?_
    rintro _ ⟨_, tokens, rfl, ⟨named, opening, rfl, lexeme, opened⟩, arguments⟩
    exact (stands_call lexeme opened arguments).spelled limit

theorem priority_le_maxPriority (known : binaryOp? name = some op) : op.priority ≤ maxPriority := by
  have table : ∀ entry ∈ binaryOps, entry.2.priority ≤ maxPriority := by decide
  exact table (name, op) (mem_of_lookup_eq_some known)

theorem lexes_open : Lexes ['('] (fun _ => True) fun tokens =>
    ∃ token, tokens = [token] ∧ (token.lexeme = .openCall ∨ token.lexeme = .punct '(') := by
  refine scans_open.lexes.mono (fun _ => id) ?_
  rintro _ ⟨token, called, rfl, lexeme⟩
  refine ⟨token, rfl, ?_⟩
  cases called
  · exact .inr lexeme
  · exact .inl lexeme

/-- A term that is written in parentheses wherever its place does not admit its priority. -/
theorem Readable.of_parenthesized {priority : Nat} {inner : String}
    (text : ∀ place : Place, term.write true place = place.around fun limit => parenthesized (limit < priority) inner)
    (le : priority ≤ maxPriority)
    (lexes : Lexes inner.toList Apart fun tokens => ∀ limit, priority ≤ limit → Spelled limit term tokens)
    (head : ∃ c others, inner.toList = c :: others ∧
      (isSymbol c = true → ∀ limit, priority ≤ limit → term.leadsWithSign limit = true)) : Readable term := by
  have bare : ∀ limit, ¬limit < priority → (term.write true (.upTo limit)).toList = inner.toList := by
    intro limit admitted
    simp [text, Place.around, parenthesized, admitted]
  have enclosed : ∀ limit, limit < priority →
      (term.write true (.upTo limit)).toList = ['('] ++ (inner.toList ++ [')']) := by
    intro limit refused
    simp [text, Place.around, parenthesized, refused]
  refine .of_tail_eq ?_ (fun limit => ?_) fun limit => ?_
  · rw [text, text]
    rfl
  · by_cases refused : limit < priority
    · rw [enclosed limit refused]
      refine (lexes_open.enclosed lexes (lexes_punct (by decide)) (apart_of_punct (by decide))).mono
        (fun _ _ => trivial) ?_
      rintro _ ⟨_, tokens, _, rfl, ⟨opening, rfl, opened⟩, spelled, closing, rfl, closed⟩
      exact (stands_parenthesized opened closed (spelled maxPriority le)).spelled limit
    · rw [bare limit refused]
      exact lexes.mono (fun _ => id) fun tokens spelled => spelled limit (Nat.le_of_not_lt refused)
  · by_cases refused : limit < priority
    · exact ⟨_, _, enclosed limit refused, fun symbol => absurd symbol (by decide)⟩
    · obtain ⟨c, others, first, signed⟩ := head
      exact ⟨c, others, (bare limit refused).trans first, fun symbol => signed symbol limit (Nat.le_of_not_lt refused)⟩

/-- The text of an operator between its operands. -/
def operationText (name : String) (op : BinaryOp) (left right : Term) : String :=
  left.write true (.upTo op.left) ++ Term.separator name right ++ right.write true (.upTo op.right)

theorem write_binary (known : binaryOp? name = some op) (left right : Term) (place : Place) :
    (Term.binary name left right).write true place = place.around fun limit =>
      parenthesized (limit < op.priority) (operationText name op left right) := by
  have notDot : name ≠ "." := by
    rintro rfl
    have unknown : binaryOp? "." = none := by decide
    simp [unknown] at known
  rw [Term.binary, Term.write, if_neg notDot]
  simp only [known, operationText]

/-- An operator between operands, where it does not run into a sign. -/
theorem readable_operation {left right : Term} (known : binaryOp? name = some op) (first : Readable left)
    (second : Readable right) (clear : Term.isAttached name right = true → right.leadsWithSign op.right = false) :
    Readable (.binary name left right) := by
  obtain ⟨c, others, head, signed⟩ := first.head op.left
  obtain ⟨c', others', head', signed'⟩ := second.head op.right
  have text : (operationText name op left right).toList =
      c :: others ++ ((Term.separator name right).toList ++ c' :: others') := by
    simp [operationText, head, head']
  refine .of_parenthesized (write_binary known left right) (priority_le_maxPriority known) ?_
    ⟨_, _, text, fun symbol limit le => ?_⟩
  · rw [text]
    refine (lexes_operation known right (head ▸ first.upTo op.left) (head' ▸ second.upTo op.right) fun attached =>
      Bool.eq_false_iff.mpr fun symbol => Bool.eq_false_iff.mp (clear attached) (signed' symbol)).mono (fun _ => id) ?_
    rintro _ ⟨before, token, after, rfl, before', between, after'⟩ limit le
    exact spelled_binary known between le before' after'
  · simp [Term.binary, Term.leadsWithSign, known, signed symbol, le]

/-- Terms of the notation with operators: variables, natural numbers, names, lists, braces, names with arguments and
operators between operands, nested in any way. -/
inductive Notated : Term → Prop
  | var (id : Nat) : Notated (.var id)
  | int {value : Int64} (nonneg : 0 ≤ value.toInt) : Notated (.int value)
  | atom {name : String} (plain : PlainName name) : Notated (.atom name)
  | cons {head tail : Term} (first : Notated head) (rest : Notated tail) : Notated (.cons head tail)
  | braces {inner : Term} (within : Notated inner) : Notated (.unary "\x7b\x7d" inner)
  | call {name : String} {first : Term} {rest : List Term} (plain : PlainName name) (notNil : name ≠ "[]")
      (args : ∀ arg ∈ first :: rest, Notated arg) : Notated (.compound name first rest)
  | operation {name : String} {op : BinaryOp} {left right : Term} (known : binaryOp? name = some op)
      (first : Notated left) (second : Notated right) : Notated (.binary name left right)

/-- Nothing in the notation begins with a sign. -/
theorem Notated.leadsWithSign_eq_false (notated : Notated term) (limit : Nat) : term.leadsWithSign limit = false := by
  induction notated generalizing limit with
  | var id => rfl
  | int nonneg => simpa [Term.leadsWithSign] using nonneg
  | atom plain => rfl
  | cons => rfl
  | braces => rfl
  | @call name first rest plain _ _ args =>
    match rest with
    | [] => simp [Term.leadsWithSign, plain.unaryOp?_eq_none]
    | [second] =>
      rw [Term.leadsWithSign]
      split
      · rw [args first (by simp), Bool.and_false]
      · rfl
    | second :: third :: others => rfl
  | operation known _ _ first _ => simp [Term.binary, Term.leadsWithSign, known, first]

theorem Notated.readable (notated : Notated term) : Readable term := by
  induction notated with
  | var id => exact readable_var id
  | int nonneg => exact readable_int fun least => absurd nonneg (by rw [least]; decide)
  | atom plain => exact readable_atom plain
  | cons _ _ first rest => exact readable_cons first rest
  | braces _ within => exact readable_braces within
  | @call name first rest plain notNil notated args =>
    match rest, known : binaryOp? name with
    | [second], some op =>
      exact readable_operation known (args first (by simp)) (args second (by simp)) fun _ =>
        (notated second (by simp)).leadsWithSign_eq_false op.right
    | [], _ => exact readable_call plain notNil (by simp) args
    | [second], none => exact readable_call plain notNil (fun _ => known) args
    | second :: third :: others, _ => exact readable_call plain notNil (by simp) args
  | operation known _ notated first second =>
    exact readable_operation known first second fun _ => notated.leadsWithSign_eq_false _

theorem Readable.exists_readTerm_eq (readable : Readable term) (next : Nat) :
    ∃ read next', readTerm term.text next = .ok read next' ∧ read.term.normalize = term.normalize := by
  obtain ⟨cut, same, spelled⟩ := (readable.upTo maxPriority).exists_tokens_eq (by simp [Apart])
  obtain ⟨read, after, ran, variants⟩ := spelled.exists_single_eq term.text.utf8ByteSize next
  refine ⟨read, after.next, ?_, variants⟩
  have text : tokens term.text = .ok cut := same
  simp only [readTerm, readWith, text, ran]

/-- **Reading undoes writing**: the text of a term of the notation is read, and as a variant of the term. -/
theorem readTerm_text {term : Term} (notated : Notated term) (next : Nat) :
    ∃ read next', readTerm term.text next = .ok read next' ∧ read.term.normalize = term.normalize :=
  notated.readable.exists_readTerm_eq next

/-- Parentheses, quotes, a partial list and a repeated variable are read as they were written. -/
theorem readTerm_text_nested :
    let term : Term := .binary "=" (.cons (.var 3) (.var 5))
      (.binary "-" (.int 1) (.binary "-" (.int 2) (.compound "a b" (.var 3) [])))
    term.text = "[_G3|_G5] = 1-(2-'a b'(_G3))" ∧
      ∃ read next, readTerm term.text 7 = .ok read next ∧ read.term.normalize = term.normalize := by
  intro term
  have plain : PlainName "a b" := ⟨by decide, by decide⟩
  have call : Notated (.compound "a b" (.var 3) []) := .call plain (by decide) (by simp [Notated.var])
  have equals : binaryOp? "=" = some (.strict 700) := by decide
  have minus : binaryOp? "-" = some (.toLeft 500) := by decide
  have difference : Notated (.binary "-" (.int 1) (.binary "-" (.int 2) (.compound "a b" (.var 3) []))) :=
    .operation minus (.int (by decide)) (.operation minus (.int (by decide)) call)
  exact ⟨by decide +kernel, readTerm_text (.operation equals (.cons (.var 3) (.var 5)) difference) 7⟩

end HornLoops
