import HornLoops.Reader.Token
import HornLoops.Term.Text

/-!
# How texts are cut into tokens

The tokens of a text are those of its first part followed by those of the rest, as long as the first character of
the rest cannot continue the last token of the first part. `Lexes` says this of a part, together with what its
tokens are, so that larger parts are put together from smaller ones (`Lexes.append`) without looking at the
characters again. Numbers, variables and names are cut as they are written.
-/

namespace HornLoops

open Text

/-! ## One token -/

/-- Whether a character is the first of a token before further characters, and not of a blank or a comment. -/
def Opens (c : Char) (rest : List Char) : Prop :=
  isBlank c = false ∧ c ≠ '%' ∧ (c = '/' → rest.head? ≠ some '*')

variable {c : Char} {rest blanks chars kept others : List Char} {named : Bool} {offset start : Nat}
  {keep : Char → Bool} {name : String}

theorem skip_of_opens (opens : Opens c rest) (offset : Nat) :
    Layout.skip .blank offset (c :: rest) = .ok ⟨offset, c :: rest⟩ := by
  obtain ⟨notBlank, notComment, notBlock⟩ := opens
  rw [Layout.skip]
  · simp [notBlank, notComment]
  · rintro rest' rfl rfl
    exact notBlock rfl rfl

theorem skip_of_isBlank (blank : isBlank c = true) (offset : Nat) (rest : List Char) :
    Layout.skip .blank offset (c :: rest) = Layout.skip .blank (offset + c.utf8Size) rest := by
  rw [Layout.skip, if_pos blank]
  rintro rest' rfl
  exact absurd blank (by decide)

/-- Blanks before a token are skipped, and it is spaced if there are some. -/
theorem exists_skip_eq (offset : Nat) (blank : ∀ c ∈ blanks, isBlank c = true) :
    ∃ start, (blanks = [] → start = offset) ∧ ∀ c rest, Opens c rest →
      Layout.skip .blank offset (blanks ++ c :: rest) = .ok ⟨start, c :: rest⟩ := by
  induction blanks generalizing offset with
  | nil => exact ⟨offset, fun _ => rfl, fun c rest opens => skip_of_opens opens offset⟩
  | cons first others ih =>
    rw [List.forall_mem_cons] at blank
    obtain ⟨start, -, skipped⟩ := ih (offset + first.utf8Size) blank.2
    refine ⟨start, by simp, fun c rest opens => ?_⟩
    rw [List.cons_append, skip_of_isBlank blank.1, skipped c rest opens]

theorem tokensFrom_eq_of_scan {lexeme : Lexeme} {after : Cursor}
    (skipped : Layout.skip .blank offset chars = .ok ⟨start, c :: rest⟩)
    (scanned : scan (named && !decide (offset < start)) start c rest = .ok (lexeme, after)) :
    tokensFrom named offset chars = (tokensFrom lexeme.isName after.offset after.rest).map
      (⟨lexeme, start, offset < start⟩ :: ·) := by
  rw [tokensFrom]
  split
  · simp_all
  · simp_all
  · rename_i start' c' rest' skipped'
    obtain ⟨rfl, rfl, rfl⟩ : start = start' ∧ c = c' ∧ rest = rest' := by simp_all
    dsimp only
    split
    · simp_all
    · rename_i lexeme' after' scanned'
      obtain ⟨rfl, rfl⟩ : lexeme = lexeme' ∧ after = after' := by simp_all
      rfl

/-- There are no more tokens if only blanks and comments are left. -/
theorem tokensFrom_of_end (skipped : Layout.skip .blank offset chars = .ok ⟨start, []⟩) :
    tokensFrom named offset chars = .ok [] := by
  rw [tokensFrom]
  split <;> simp_all

theorem skip_nil (offset : Nat) : Layout.skip .blank offset [] = .ok ⟨offset, []⟩ := by
  rw [Layout.skip]
  simp

/-- How a text is cut into tokens, one after the other. -/
inductive Cuts : Bool → Nat → List Char → List Token → Prop
  | done {named : Bool} {offset start : Nat} {chars : List Char}
      (skipped : Layout.skip .blank offset chars = .ok ⟨start, []⟩) : Cuts named offset chars []
  | token {named : Bool} {offset start : Nat} {chars : List Char} {c : Char} {rest : List Char} {lexeme : Lexeme}
      {after : Cursor} {cut : List Token} (skipped : Layout.skip .blank offset chars = .ok ⟨start, c :: rest⟩)
      (scanned : scan (named && !decide (offset < start)) start c rest = .ok (lexeme, after))
      (later : Cuts lexeme.isName after.offset after.rest cut) :
      Cuts named offset chars (⟨lexeme, start, offset < start⟩ :: cut)

theorem tokensFrom_eq_ok_iff {cut : List Token} :
    tokensFrom named offset chars = .ok cut ↔ Cuts named offset chars cut := by
  constructor
  · intro ended
    fun_induction tokensFrom named offset chars generalizing cut with
    | case1 named offset chars error skipped => cases ended
    | case2 named offset chars start skipped =>
      cases ended
      exact .done skipped
    | case3 => cases ended
    | case4 named offset chars start c rest skipped spaced lexeme after scanned shorter =>
      rename_i ih
      cases later : tokensFrom lexeme.isName after.offset after.rest with
      | error error => simp [later, Except.map] at ended
      | ok others =>
        simp only [later, Except.map, Except.ok.injEq] at ended
        subst ended
        exact .token skipped scanned (ih later)
  · intro cuts
    induction cuts with
    | done skipped => exact tokensFrom_of_end skipped
    | token skipped scanned _ ih =>
      rw [tokensFrom_eq_of_scan skipped scanned, ih]
      rfl

/-- Characters that make up one token before everything that may follow. What it is may depend on whether a name
stands directly before. -/
def Scans (c : Char) (others : List Char) (follows : List Char → Prop) (lexeme : Bool → Lexeme) : Prop :=
  ∀ called offset, ∃ offset', ∀ rest, follows rest →
    Opens c (others ++ rest) ∧ scan called offset c (others ++ rest) = .ok (lexeme called, ⟨offset', rest⟩)

/-- Characters that are cut into tokens with a property, whatever stands before them and as long as what stands after
them may follow. -/
def Lexes (chars : List Char) (follows : List Char → Prop) (holds : List Token → Prop) : Prop :=
  ∀ named offset blanks, (∀ c ∈ blanks, isBlank c = true) → ∃ tokens named' offset', holds tokens ∧
    ∀ rest, follows rest → tokensFrom named offset (blanks ++ chars ++ rest) =
      (tokensFrom named' offset' rest).map (tokens ++ ·)

variable {c : Char} {others chars chars' : List Char} {follows follows' : List Char → Prop}
  {lexeme : Bool → Lexeme} {holds holds' : List Token → Prop}

theorem Scans.exists_tokensFrom_eq (scans : Scans c others follows lexeme) (named : Bool) (offset : Nat)
    (blank : ∀ c ∈ blanks, isBlank c = true) :
    ∃ start called offset', (blanks = [] → called = named ∧ start = offset) ∧ ∀ rest, follows rest →
      tokensFrom named offset (blanks ++ c :: others ++ rest) =
        (tokensFrom (lexeme called).isName offset' rest).map
          (⟨lexeme called, start, offset < start⟩ :: ·) := by
  obtain ⟨start, unspaced, skipped⟩ := exists_skip_eq offset blank
  obtain ⟨offset', scanned⟩ := scans (named && !decide (offset < start)) start
  refine ⟨start, named && !decide (offset < start), offset', fun none => ⟨?_, unspaced none⟩,
    fun rest admitted => ?_⟩
  · simp [unspaced none]
  · obtain ⟨opens, ended⟩ := scanned rest admitted
    rw [List.append_assoc, List.cons_append, tokensFrom_eq_of_scan (skipped c _ opens) ended]

theorem Scans.lexes (scans : Scans c others follows lexeme) :
    Lexes (c :: others) follows fun tokens => ∃ token called, tokens = [token] ∧ token.lexeme = lexeme called := by
  intro named offset blanks blank
  obtain ⟨start, called, offset', -, cut⟩ := scans.exists_tokensFrom_eq named offset blank
  exact ⟨[⟨lexeme called, start, offset < start⟩], _, offset', ⟨_, called, rfl, rfl⟩, cut⟩

namespace Lexes

theorem mono (lexes : Lexes chars follows holds) (fewer : ∀ rest, follows' rest → follows rest)
    (weaker : ∀ tokens, holds tokens → holds' tokens) : Lexes chars follows' holds' := by
  intro named offset blanks blank
  obtain ⟨tokens, named', offset', property, cut⟩ := lexes named offset blanks blank
  exact ⟨tokens, named', offset', weaker tokens property, fun rest admitted => cut rest (fewer rest admitted)⟩

/-- Two parts, perhaps with blanks in between. -/
theorem append (first : Lexes chars follows holds) {blanks : List Char}
    (blank : ∀ c ∈ blanks, isBlank c = true) (second : Lexes chars' follows' holds')
    (admits : ∀ rest, follows' rest → follows (blanks ++ chars' ++ rest)) :
    Lexes (chars ++ (blanks ++ chars')) follows' fun tokens =>
      ∃ left right, tokens = left ++ right ∧ holds left ∧ holds' right := by
  intro named offset before blankBefore
  obtain ⟨left, named', offset', property, cut⟩ := first named offset before blankBefore
  obtain ⟨right, named'', offset'', property', cut'⟩ := second named' offset' blanks blank
  refine ⟨left ++ right, named'', offset'', ⟨left, right, rfl, property, property'⟩, fun rest admitted => ?_⟩
  have regroup : before ++ (chars ++ (blanks ++ chars')) ++ rest =
      before ++ chars ++ (blanks ++ chars' ++ rest) := by simp
  rw [regroup, cut _ (admits rest admitted), cut' rest admitted]
  cases tokensFrom named'' offset'' rest <;> simp [Except.map]

/-- Two parts next to each other. -/
theorem beside (first : Lexes chars follows holds) (second : Lexes chars' follows' holds')
    (admits : ∀ rest, follows' rest → follows (chars' ++ rest)) :
    Lexes (chars ++ chars') follows' fun tokens =>
      ∃ left right, tokens = left ++ right ∧ holds left ∧ holds' right :=
  first.append (List.forall_mem_nil _) second admits

/-- The tokens of a whole text. -/
theorem exists_tokens_eq {text : String} (lexes : Lexes text.toList follows holds) (admitted : follows []) :
    ∃ cut, tokens text = .ok cut ∧ holds cut := by
  obtain ⟨cut, named, offset, property, equation⟩ := lexes false 0 [] (by simp)
  refine ⟨cut, ?_, property⟩
  have whole := equation [] admitted
  rw [List.append_nil, List.nil_append, tokensFrom_of_end (skip_nil offset)] at whole
  simpa [tokens, Except.map] using whole

end Lexes

/-! ## Kinds of tokens -/

/-- Whether a text cannot continue a word, a number or a quoted name before it. -/
def Apart (rest : List Char) : Prop := ∀ c ∈ rest.head?, isNamePart c = false ∧ c ≠ '\''

/-- Whether a text cannot continue a name of symbols before it. -/
def Unsymbolic (rest : List Char) : Prop := ∀ c ∈ rest.head?, isSymbol c = false

theorem takeWhile_append_eq (all : ∀ c ∈ kept, keep c = true) (none : ∀ c ∈ rest.head?, keep c = false) :
    (kept ++ rest).takeWhile keep = kept ∧ (kept ++ rest).dropWhile keep = rest := by
  rw [List.takeWhile_append_of_pos all, List.dropWhile_append_of_pos all]
  cases rest with
  | nil => simp
  | cons first rest =>
    have fails := none first rfl
    simp [fails]

/-- A word made of characters of one kind ends where the first other character stands. -/
theorem skipWhile_append_eq (all : ∀ c ∈ kept, keep c = true) (none : ∀ c ∈ rest.head?, keep c = false) (offset : Nat) :
    Cursor.skipWhile ⟨offset, kept ++ rest⟩ keep = ⟨offset + Cursor.bytes kept, rest⟩ := by
  obtain ⟨taken, dropped⟩ := takeWhile_append_eq all none
  rw [Cursor.skipWhile, taken, dropped]

theorem Apart.isNamePart_eq_false (apart : Apart rest) : ∀ c ∈ rest.head?, isNamePart c = false :=
  fun c head => (apart c head).1

theorem of_isDigit (digit : isDigit c = true) : CharClass.of c = .numeral := by
  simp only [isDigit, Bool.and_eq_true, decide_eq_true_eq, Char.le_def, UInt32.le_iff_toNat_le] at digit
  have lower : 48 ≤ c.toNat := digit.1
  have upper : c.toNat ≤ 57 := digit.2
  rw [CharClass.of, if_pos (by omega), CharClass.ofAscii]
  rw [if_neg (by omega), if_pos ⟨lower, upper⟩]

theorem isDigit_eq_false (other : CharClass.of c ≠ .numeral) : isDigit c = false :=
  Bool.eq_false_iff.mpr fun digit => other (of_isDigit digit)

theorem ne_of_class {d : Char} (differ : CharClass.of c ≠ CharClass.of d) : c ≠ d := by
  rintro rfl
  exact differ rfl

theorem scans_word (lower : isLower c = true) (parts : ∀ d ∈ others, isNamePart d = true) :
    Scans c others Apart fun _ => .name (String.ofList (c :: others)) := by
  intro called offset
  refine ⟨offset + c.utf8Size + Cursor.bytes others, fun rest apart => ?_⟩
  have letter : CharClass.of c = .lower := by simpa [isLower] using lower
  have notDigit : isDigit c = false := isDigit_eq_false (by simp [letter])
  have differs : ∀ d, CharClass.of d ≠ .lower → c ≠ d := fun d other => ne_of_class (by rw [letter]; exact other.symm)
  constructor
  · exact ⟨by simp [isBlank, letter], differs _ (by decide), fun same => absurd same (differs _ (by decide))⟩
  · have notVar : (c = '_' || isUpper c) = false := by simp [differs '_' (by decide), isUpper, letter]
    have alphabetic : isAlphabetic c = true := by simp [isAlphabetic, letter, CharClass.isAlphabetic]
    simp only [scan, notDigit, notVar, alphabetic, Bool.false_eq_true, if_false, if_true,
      skipWhile_append_eq parts apart.isNamePart_eq_false,
      (takeWhile_append_eq parts apart.isNamePart_eq_false).1]

theorem scans_variable (parts : ∀ d ∈ others, isNamePart d = true) :
    Scans '_' others Apart fun _ => .var (String.ofList ('_' :: others)) := by
  intro called offset
  refine ⟨offset + '_'.utf8Size + Cursor.bytes others, fun rest apart => ⟨⟨by decide, by decide, by simp⟩, ?_⟩⟩
  have notDigit : isDigit '_' = false := by decide
  simp only [scan, notDigit, decide_true, Bool.true_or, Bool.false_eq_true, if_false, if_true,
    skipWhile_append_eq parts apart.isNamePart_eq_false,
    (takeWhile_append_eq parts apart.isNamePart_eq_false).1]

theorem isNamePart_of_isDigit (digit : isDigit c = true) : isNamePart c = true := by
  simp [isNamePart, isAlphanumeric, of_isDigit digit, CharClass.isAlphanumeric]

theorem scans_digits {value : Int64} (digits : ∀ d ∈ c :: others, isDigit d = true)
    (read : value.toInt = digitsValue (c :: others)) : Scans c others Apart fun _ => .int value := by
  intro called offset
  refine ⟨offset + c.utf8Size + Cursor.bytes others, fun rest apart => ?_⟩
  rw [List.forall_mem_cons] at digits
  have numeral := of_isDigit digits.1
  have differs : ∀ d, CharClass.of d ≠ .numeral → c ≠ d := fun d other =>
    ne_of_class (by rw [numeral]; exact other.symm)
  constructor
  · exact ⟨by simp [isBlank, numeral], differs _ (by decide), fun same => absurd same (differs _ (by decide))⟩
  · have keeps : ∀ d ∈ others, (isDigit d || d = '_') = true := fun d member => by simp [digits.2 d member]
    have ends : ∀ d ∈ rest.head?, (isDigit d || d = '_') = false := by
      intro d head
      have other := apart.isNamePart_eq_false d head
      have notDigit : isDigit d = false := Bool.eq_false_iff.mpr fun digit => by
        rw [isNamePart_of_isDigit digit] at other
        contradiction
      have notUnderscore : d ≠ '_' := by
        rintro rfl
        exact absurd other (by decide)
      simp [notDigit, notUnderscore]
    have word : word? (digitsValue (c :: others)) = some value := (word?_eq_some_iff _ _).mpr read
    simp only [scan, digits.1, word, if_true, skipWhile_append_eq keeps ends, (takeWhile_append_eq keeps ends).1]

theorem isSymbol_iff : isSymbol c = true ↔
    c ∈ ['+', '-', '*', '/', '\\', '^', '<', '>', '=', '~', ':', '.', '?', '@', '#', '&', '$'] := by
  simp [isSymbol]

/-- A property of characters that is tested one after the other. -/
theorem forall_mem_of_all {holds : Char → Prop} [DecidablePred holds]
    (all : chars.all (fun c => decide (holds c)) = true) : ∀ c ∈ chars, holds c :=
  fun c member => of_decide_eq_true (List.all_eq_true.mp all c member)

/-- Symbols are neither blanks nor letters nor digits, nor any other character with a meaning of its own. -/
theorem plain_of_isSymbol (symbol : isSymbol c = true) :
    isBlank c = false ∧ c ≠ '%' ∧ isDigit c = false ∧ (c = '_' || isUpper c) = false ∧ isAlphabetic c = false ∧
      c ≠ '\'' ∧ c ≠ '(' ∧ c ∉ [')', '[', ']', '|', ',', '\x7b', '\x7d'] ∧ (c = '!' || c = ';') = false := by
  have each : ∀ d ∈ ['+', '-', '*', '/', '\\', '^', '<', '>', '=', '~', ':', '.', '?', '@', '#', '&', '$'],
      isBlank d = false ∧ d ≠ '%' ∧ isDigit d = false ∧ (d = '_' || isUpper d) = false ∧ isAlphabetic d = false ∧
        d ≠ '\'' ∧ d ≠ '(' ∧ d ∉ [')', '[', ']', '|', ',', '\x7b', '\x7d'] ∧ (d = '!' || d = ';') = false :=
    forall_mem_of_all (by decide)
  exact each c (isSymbol_iff.mp symbol)

theorem apart_of_isSymbol (symbol : isSymbol c = true) (rest : List Char) : Apart (c :: rest) := by
  have each : ∀ d ∈ ['+', '-', '*', '/', '\\', '^', '<', '>', '=', '~', ':', '.', '?', '@', '#', '&', '$'],
      isNamePart d = false ∧ d ≠ '\'' :=
    forall_mem_of_all (by decide)
  rintro d ⟨⟩
  exact each c (isSymbol_iff.mp symbol)

theorem isBlank_space : ∀ c ∈ [' '], isBlank c = true := forall_mem_of_all (by decide)

theorem apart_blank (rest : List Char) : Apart (' ' :: rest) := by
  rintro c ⟨⟩
  decide

theorem unsymbolic_blank (rest : List Char) : Unsymbolic (' ' :: rest) := by
  rintro c ⟨⟩
  decide

/-- Symbols are taken for one name, unless the first of them closes a clause. -/
theorem scan_symbols (symbols : ∀ d ∈ c :: others, isSymbol d = true) (notStop : c = '.' → others ≠ [])
    (ends : Unsymbolic rest) (called : Bool) (offset : Nat) :
    scan called offset c (others ++ rest) =
      .ok (.name (String.ofList (c :: others)), ⟨offset + c.utf8Size + Cursor.bytes others, rest⟩) := by
  rw [List.forall_mem_cons] at symbols
  obtain ⟨-, -, notDigit, notVar, notLetter, notQuote, notOpen, notPunct, notSolo⟩ := plain_of_isSymbol symbols.1
  have notEnd : (c = '.' && stopsBefore (others ++ rest)) = false := by
    cases others with
    | nil =>
      have other : c ≠ '.' := fun dot => notStop dot rfl
      simp [other]
    | cons second others =>
      have plain := plain_of_isSymbol (symbols.2 second (by simp))
      simp [stopsBefore, plain.1, plain.2.1]
  simp only [scan, skipWhile_append_eq symbols.2 ends, (takeWhile_append_eq symbols.2 ends).1, notDigit, notVar,
    notLetter, notQuote, notOpen, notPunct, notSolo, notEnd, symbols.1, Bool.false_eq_true, if_false, if_true]

theorem scans_symbols (symbols : ∀ d ∈ c :: others, isSymbol d = true) (notStop : c = '.' → others ≠ [])
    (notBlock : c = '/' → others.head? ≠ some '*') :
    Scans c others Unsymbolic fun _ => .name (String.ofList (c :: others)) := by
  intro called offset
  refine ⟨_, fun rest ends => ⟨?_, scan_symbols symbols notStop ends called offset⟩⟩
  obtain ⟨notBlank, notComment, -⟩ := plain_of_isSymbol (symbols c List.mem_cons_self)
  refine ⟨notBlank, notComment, fun slash => ?_⟩
  cases others with
  | nil =>
    intro star
    exact absurd (ends '*' star) (by decide)
  | cons second others => exact notBlock slash

theorem apart_of_punct (punct : c ∈ [')', '[', ']', '|', ',', '\x7b', '\x7d']) (rest : List Char) :
    Apart (c :: rest) := by
  have each : ∀ d ∈ [')', '[', ']', '|', ',', '\x7b', '\x7d'], isNamePart d = false ∧ d ≠ '\'' :=
    forall_mem_of_all (by decide)
  rintro d ⟨⟩
  exact each c punct

theorem scans_punct (punct : c ∈ [')', '[', ']', '|', ',', '\x7b', '\x7d']) :
    Scans c [] follows fun _ => .punct c := by
  intro called offset
  have each : ∀ d ∈ [')', '[', ']', '|', ',', '\x7b', '\x7d'], isBlank d = false ∧ d ≠ '%' ∧ d ≠ '/' ∧
      isDigit d = false ∧ (d = '_' || isUpper d) = false ∧ isAlphabetic d = false ∧ d ≠ '\'' ∧ d ≠ '(' :=
    forall_mem_of_all (by decide)
  obtain ⟨notBlank, notComment, notSlash, notDigit, notVar, notLetter, notQuote, notOpen⟩ := each c punct
  refine ⟨offset + c.utf8Size, fun rest _ => ⟨⟨notBlank, notComment, fun slash => absurd slash notSlash⟩, ?_⟩⟩
  simp only [List.nil_append, scan, notDigit, notVar, notLetter, notQuote, notOpen, punct, Bool.false_eq_true,
    if_false, if_true]

theorem scans_open : Scans '(' [] follows fun called => if called then .openCall else .punct '(' := by
  intro called offset
  refine ⟨offset + '('.utf8Size, fun rest _ => ⟨⟨by decide, by decide, by simp⟩, ?_⟩⟩
  have notDigit : isDigit '(' = false := by decide
  have notVar : ('(' = '_' || isUpper '(') = false := by decide
  have notLetter : isAlphabetic '(' = false := by decide
  have notQuote : '(' ≠ '\'' := by decide
  simp only [List.nil_append, scan, notDigit, notVar, notLetter, notQuote, Bool.false_eq_true, if_false, if_true]

theorem scans_solo (solo : c = '!' ∨ c = ';') : Scans c [] follows fun _ => .name c.toString := by
  intro called offset
  have each : ∀ d ∈ ['!', ';'], isBlank d = false ∧ d ≠ '%' ∧ d ≠ '/' ∧ isDigit d = false ∧
      (d = '_' || isUpper d) = false ∧ isAlphabetic d = false ∧ d ≠ '\'' ∧ d ≠ '(' ∧
      d ∉ [')', '[', ']', '|', ',', '\x7b', '\x7d'] :=
    forall_mem_of_all (by decide)
  obtain ⟨notBlank, notComment, notSlash, notDigit, notVar, notLetter, notQuote, notOpen, notPunct⟩ :=
    each c (by simpa using solo)
  refine ⟨offset + c.utf8Size, fun rest _ => ⟨⟨notBlank, notComment, fun slash => absurd slash notSlash⟩, ?_⟩⟩
  have kind : (c = '!' || c = ';') = true := by simpa using solo
  simp only [List.nil_append, scan, notDigit, notVar, notLetter, notQuote, notOpen, notPunct, kind,
    Bool.false_eq_true, if_false, if_true]

/-- A character inside a quoted name is written with a backslash and a letter that stands for it, or as it is. -/
theorem toList_quotedChar (c : Char) :
    (∃ letter, (quotedChar c).toList = ['\\', letter] ∧
      ([('n', '\n'), ('t', '\t'), ('\\', '\\'), ('\'', '\'')] : List (Char × Char)).lookup letter = some c) ∨
    ((quotedChar c).toList = [c] ∧ c ≠ '\'' ∧ c ≠ '\\') := by
  unfold quotedChar
  by_cases quote : c = '\''
  · exact .inl ⟨'\'', by simp [quote], by simp [quote]; decide⟩
  by_cases slash : c = '\\'
  · exact .inl ⟨'\\', by simp [slash], by simp [slash]; decide⟩
  by_cases line : c = '\n'
  · exact .inl ⟨'n', by simp [line], by simp [line]⟩
  · exact .inr ⟨by simp [quote, slash, line], quote, slash⟩

/-- A quoted name is read up to its closing quote, character by character. -/
theorem exists_quotedBody_eq (opened offset : Nat) (body : List Char) :
    ∃ offset', ∀ rest, Apart rest →
      quotedBody opened offset (body.flatMap (fun c => (quotedChar c).toList) ++ '\'' :: rest) =
        .ok (body, ⟨offset', rest⟩) := by
  induction body generalizing offset with
  | nil =>
    refine ⟨offset + 1, fun rest apart => ?_⟩
    rw [List.flatMap_nil, List.nil_append, quotedBody]
    rintro rest' rfl
    exact (apart '\'' rfl).2 rfl
  | cons c body ih =>
    rcases toList_quotedChar c with ⟨letter, text, meant⟩ | ⟨text, notQuote, notSlash⟩
    · obtain ⟨offset', read⟩ := ih (offset + 2)
      refine ⟨offset', fun rest apart => ?_⟩
      rw [List.flatMap_cons, text, List.append_assoc]
      simp only [List.cons_append, List.nil_append]
      rw [quotedBody, meant]
      simp only [read rest apart, Except.map]
    · obtain ⟨offset', read⟩ := ih (offset + c.utf8Size)
      refine ⟨offset', fun rest apart => ?_⟩
      rw [List.flatMap_cons, text, List.singleton_append, List.cons_append, quotedBody]
      · rw [read rest apart, Except.map]
      all_goals simp_all

theorem scans_quoted (name : String) :
    Scans '\'' (name.toList.flatMap (fun c => (quotedChar c).toList) ++ ['\'']) Apart fun _ => .name name := by
  intro called offset
  obtain ⟨offset', read⟩ := exists_quotedBody_eq offset (offset + 1) name.toList
  refine ⟨offset', fun rest apart => ⟨⟨by decide, by decide, by simp⟩, ?_⟩⟩
  have notDigit : isDigit '\'' = false := by decide
  have notVar : ('\'' = '_' || isUpper '\'') = false := by decide
  have notLetter : isAlphabetic '\'' = false := by decide
  simp only [scan, notDigit, notVar, notLetter, Bool.false_eq_true, if_false, if_true, List.append_assoc,
    List.singleton_append, read rest apart, String.ofList_toList]

/-- A name and the token directly after it. -/
theorem Scans.lexes_attached {c' : Char} {others' : List Char} (scans : Scans c others follows fun _ => .name name)
    (scans' : Scans c' others' follows' lexeme) (admits : ∀ rest, follows' rest → follows (c' :: others' ++ rest)) :
    Lexes (c :: others ++ c' :: others') follows' fun tokens => ∃ named token, tokens = [named, token] ∧
      named.lexeme = .name name ∧ token.lexeme = lexeme true ∧ token.spaced = false := by
  intro before offset blanks blank
  obtain ⟨start, _, offset', -, cut⟩ := scans.exists_tokensFrom_eq before offset blank
  obtain ⟨start', called, offset'', directly, cut'⟩ := scans'.exists_tokensFrom_eq true offset' (List.forall_mem_nil _)
  obtain ⟨rfl, rfl⟩ := directly rfl
  refine ⟨[⟨.name name, start, offset < start⟩, ⟨lexeme true, start', start' < start'⟩], (lexeme true).isName, offset'',
    ⟨_, _, rfl, rfl, rfl, by simp⟩, fun rest admitted => ?_⟩
  have next : tokensFrom true start' (c' :: others' ++ rest) =
      (tokensFrom (lexeme true).isName offset'' rest).map (⟨lexeme true, start', start' < start'⟩ :: ·) :=
    cut' rest admitted
  have regroup : blanks ++ (c :: others ++ c' :: others') ++ rest =
      blanks ++ c :: others ++ (c' :: others' ++ rest) := by simp
  rw [regroup, cut _ (admits rest admitted), Lexeme.isName, next]
  cases tokensFrom (lexeme true).isName offset'' rest <;> rfl

/-- An opening parenthesis directly after a name begins its arguments. -/
theorem Scans.lexes_call (scans : Scans c others follows fun _ => .name name) (admits : ∀ rest, follows ('(' :: rest)) :
    Lexes (c :: others ++ ['(']) follows' fun tokens =>
      ∃ named opening, tokens = [named, opening] ∧ named.lexeme = .name name ∧ opening.lexeme = .openCall := by
  refine (scans.lexes_attached scans_open fun rest _ => admits rest).mono (fun _ => id) ?_
  rintro _ ⟨named, opening, rfl, lexeme, opened, -⟩
  exact ⟨named, opening, rfl, lexeme, opened⟩

end HornLoops
