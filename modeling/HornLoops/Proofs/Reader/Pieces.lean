import HornLoops.Proofs.Reader.Climbing
import HornLoops.Proofs.Reader.Scanning

/-!
# Programs that are read in pieces

A line break ends every token and every comment of a line, so the tokens of a text, a line break and another text
are those of the one followed by those of the other. A reader looks at one token after those it takes. What it
reads up to a token that is left over is therefore read again before further tokens, and the clauses of two
programs are read one after the other when the programs are.
-/

namespace HornLoops

open Text

/-! ## Cutting -/

/-- Whether a text is empty or starts with a line break. -/
def Breaks (tail : List Char) : Prop := ∀ c ∈ tail.head?, c = '\n'

/-- The layout of a text that stands further back in another one. -/
def Layout.move (distance : Nat) : Layout → Layout
  | .block opened => .block (opened + distance)
  | layout => layout

section

variable {named called : Bool} {offset start opened : Nat} {c : Char} {chars rest tail body : List Char}
  {layout : Layout} {lexeme : Lexeme} {after : Cursor} {cut cut' : List Token} {distance : Nat} {fixed : Bool}
  {left right : List (Lexeme × Bool)}

/-- A line break is not taken for a character that something looks ahead for. -/
theorem Breaks.exists_eq_cons (breaks : Breaks tail) {d : Char} {others : List Char} (other : d ≠ '\n')
    (same : rest ++ tail = d :: others) : ∃ others', rest = d :: others' := by
  cases rest with
  | nil =>
    rw [List.nil_append] at same
    exact absurd (breaks d (by simp [same])) other
  | cons first rest =>
    obtain ⟨rfl, -⟩ := List.cons_eq_cons.mp same
    exact ⟨rest, rfl⟩

/-- Blanks and comments are skipped wherever they stand and whatever comes in a new line after them. -/
theorem skip_append (breaks : Breaks tail) (distance : Nat)
    (skipped : Layout.skip layout offset chars = .ok ⟨start, rest⟩) :
    Layout.skip (layout.move distance) (offset + distance) (chars ++ tail) =
      Layout.skip .blank (start + distance) (rest ++ tail) := by
  fun_induction Layout.skip layout offset chars with
  | case1 => cases skipped
  | case2 layout offset notBlock =>
    cases skipped
    cases layout with
    | blank => rfl
    | block opened => exact absurd rfl (notBlock opened)
    | line =>
      cases tail with
      | nil => simp [Layout.move, Layout.skip]
      | cons first tail =>
        obtain rfl := breaks first rfl
        rw [List.nil_append, skip_of_isBlank (by decide)]
        rfl
  | case3 opened offset chars ih =>
    rw [← ih skipped, Nat.add_right_comm]
    rfl
  | case4 opened offset c chars notEnd ih =>
    rw [← ih skipped, Nat.add_right_comm, Layout.move, List.cons_append, Layout.skip]
    rintro others rfl same
    obtain ⟨others', rfl⟩ := breaks.exists_eq_cons (by decide) same
    exact notEnd others' rfl rfl
  | case5 offset c chars ih =>
    rw [← ih skipped, Nat.add_right_comm, Layout.move, List.cons_append, Layout.skip]
    · split <;> rfl
    · exact fun _ => Layout.noConfusion
  | case6 offset chars ih =>
    rw [← ih skipped, Nat.add_right_comm]
    rfl
  | case7 offset c chars _ blank ih =>
    rw [← ih skipped, Nat.add_right_comm]
    exact skip_of_isBlank blank _ _
  | case8 offset chars _ notBlank ih =>
    rw [← ih skipped, Nat.add_right_comm]
    rfl
  | case9 offset c chars notBlock notBlank notComment =>
    cases skipped
    rfl

theorem opens_of_skip (skipped : Layout.skip layout offset chars = .ok ⟨start, c :: rest⟩) : Opens c rest := by
  fun_induction Layout.skip layout offset chars <;> grind [Opens, List.head?_eq_some_iff]

theorem Opens.append (opens : Opens c rest) (breaks : Breaks tail) : Opens c (rest ++ tail) := by
  refine ⟨opens.1, opens.2.1, fun slash star => ?_⟩
  obtain ⟨others, same⟩ := List.head?_eq_some_iff.mp star
  obtain ⟨others', rfl⟩ := breaks.exists_eq_cons (by decide) same
  exact opens.2.2 slash rfl

theorem le_of_skip (skipped : Layout.skip layout offset chars = .ok ⟨start, rest⟩) : offset ≤ start := by
  fun_induction Layout.skip layout offset chars <;> grind

/-- Characters of one kind end before a line break. -/
theorem takeWhile_append_of_breaks {keep : Char → Bool} (breaks : Breaks tail) (other : keep '\n' = false) :
    (rest ++ tail).takeWhile keep = rest.takeWhile keep ∧
      (rest ++ tail).dropWhile keep = rest.dropWhile keep ++ tail := by
  induction rest with
  | nil =>
    cases tail with
    | nil => simp
    | cons first tail =>
      obtain rfl := breaks first rfl
      simp [other]
  | cons first rest ih => by_cases kept : keep first <;> simp [kept, ih]

theorem exists_of_map_eq_ok {ε α β : Type} {f : α → β} {result : Except ε α} {value : β}
    (mapped : result.map f = .ok value) : ∃ before, result = .ok before ∧ f before = value := by
  cases result with
  | error error => cases mapped
  | ok before => exact ⟨before, rfl, Except.ok.inj mapped⟩

theorem quotedBody_append (breaks : Breaks tail) (distance opened' : Nat)
    (read : quotedBody opened offset chars = .ok (body, after)) :
    quotedBody opened' (offset + distance) (chars ++ tail) =
      .ok (body, ⟨after.offset + distance, after.rest ++ tail⟩) := by
  fun_induction quotedBody opened offset chars generalizing body with
  | case1 => cases read
  | case2 offset chars ih =>
    obtain ⟨⟨body, after⟩, inner, ⟨⟩⟩ := exists_of_map_eq_ok read
    rw [List.cons_append, List.cons_append, quotedBody, Nat.add_right_comm, ih inner]
    rfl
  | case3 offset chars notQuote =>
    cases read
    rw [List.cons_append, quotedBody, Nat.add_right_comm]
    rintro others same
    obtain ⟨others', rfl⟩ := breaks.exists_eq_cons (by decide) same
    exact notQuote others' rfl
  | case4 => cases read
  | case5 offset c chars meant escape ih =>
    obtain ⟨⟨body, after⟩, inner, ⟨⟩⟩ := exists_of_map_eq_ok read
    rw [List.cons_append, List.cons_append, quotedBody, escape, Nat.add_right_comm]
    simp only [ih inner, Except.map]
  | case6 => cases read
  | case7 offset c chars _ notQuote notLast notEscape ih =>
    obtain ⟨⟨body, after⟩, inner, ⟨⟩⟩ := exists_of_map_eq_ok read
    have notSlash : c ≠ '\\' := by
      cases chars with
      | nil => exact fun same => notLast same rfl
      | cons first others => exact fun same => notEscape first others same rfl
    rw [List.cons_append, quotedBody, Nat.add_right_comm, ih inner]
    · rfl
    · exact fun _ quote => absurd quote notQuote
    · exact notQuote
    · exact fun slash => absurd slash notSlash
    · exact fun _ _ slash => absurd slash notSlash

theorem stopsBefore_append (breaks : Breaks tail) : stopsBefore (rest ++ tail) = stopsBefore rest := by
  cases rest with
  | cons first rest => rfl
  | nil =>
    cases tail with
    | nil => rfl
    | cons first tail =>
      obtain rfl := breaks first rfl
      have blank : isBlank '\n' = true := by decide
      simp [stopsBefore, blank]

/-- One token, and the same token further back and before more characters. -/
def Moves (distance : Nat) (tail : List Char) (one other : Except SyntaxError (Lexeme × Cursor)) : Prop :=
  ∀ lexeme after, one = .ok (lexeme, after) →
    other = .ok (lexeme, ⟨after.offset + distance, after.rest ++ tail⟩)

theorem Moves.ok :
    Moves distance tail (.ok (lexeme, ⟨offset, rest⟩)) (.ok (lexeme, ⟨offset + distance, rest ++ tail⟩)) := by
  rintro _ _ ⟨rfl, rfl⟩
  rfl

theorem Moves.error {error : SyntaxError} {other : Except SyntaxError (Lexeme × Cursor)} :
    Moves distance tail (.error error) other := by
  rintro _ _ ⟨⟩

theorem Moves.ite {condition : Prop} [Decidable condition]
    {one one' other other' : Except SyntaxError (Lexeme × Cursor)} (first : Moves distance tail one one')
    (second : Moves distance tail other other') :
    Moves distance tail (if condition then one else other) (if condition then one' else other') := by
  split
  · exact first
  · exact second

theorem scan_append (breaks : Breaks tail) (distance : Nat) (called : Bool) (offset : Nat) (c : Char)
    (rest : List Char) :
    Moves distance tail (scan called offset c rest) (scan called (offset + distance) c (rest ++ tail)) := by
  have parts := fun keep other => @takeWhile_append_of_breaks rest tail keep breaks other
  simp only [scan, Cursor.skipWhile, stopsBefore_append breaks, parts isNamePart (by decide),
    parts isSymbol (by decide), parts (fun d => isDigit d || d = '_') (by decide),
    Nat.add_right_comm _ distance]
  refine .ite ?_ (.ite .ok (.ite .ok (.ite ?_ (.ite .ok (.ite .ok (.ite .ok (.ite .ok (.ite .ok
    .error))))))))
  · split
    · exact .ok
    · exact .error
  · intro lexeme after scanned
    split at scanned
    · rename_i body after' inner
      obtain ⟨rfl, rfl⟩ := scanned
      rw [quotedBody_append breaks distance _ inner]
    · cases scanned

/-! Each token of a text is also one further back and before a new line. -/

/-- What a token is and whether it is spaced. -/
def Token.shape (token : Token) : Lexeme × Bool := (token.lexeme, token.spaced)

theorem Cuts.move (cuts : Cuts named offset chars cut) (distance : Nat) :
    ∃ cut', Cuts named (offset + distance) chars cut' ∧ cut'.map Token.shape = cut.map Token.shape := by
  have breaks : Breaks [] := by simp [Breaks]
  induction cuts with
  | done skipped =>
    have moved := skip_append breaks distance skipped
    simp only [List.append_nil, skip_nil] at moved
    exact ⟨[], .done moved, rfl⟩
  | @token named offset start chars c rest lexeme after cut skipped scanned _ ih =>
    obtain ⟨cut', later, same⟩ := ih
    have moved := skip_append breaks distance skipped
    rw [List.append_nil, List.append_nil, skip_of_opens (opens_of_skip skipped)] at moved
    have spaced : decide (offset + distance < start + distance) = decide (offset < start) := by simp
    have scanned' := scan_append breaks distance _ _ _ _ _ _ scanned
    rw [List.append_nil, List.append_nil, ← spaced] at scanned'
    exact ⟨_, .token moved scanned' later, by simp [Token.shape, same]⟩

/-- Whether two sequences of tokens differ at most in whether the first one is spaced, which is fixed as well if need
be. -/
structure Alike (fixed : Bool) (left right : List (Lexeme × Bool)) : Prop where
  head : left.head?.map Prod.fst = right.head?.map Prod.fst
  tail : left.tail = right.tail
  same : fixed = true → left = right

theorem Alike.length_eq (alike : Alike fixed left right) : left.length = right.length := by
  obtain ⟨head, tail, -⟩ := alike
  cases left <;> cases right <;> simp_all

theorem Alike.of_eq (same : left = right) : Alike fixed left right :=
  ⟨by rw [same], by rw [same], fun _ => same⟩

/-- A text after blanks is cut as it is from its start on. -/
theorem Cuts.after_blanks {chars' : List Char} (same : Layout.skip .blank offset chars = Layout.skip .blank start chars')
    (lt : offset < start) (cuts : Cuts false start chars' cut) (named : Bool) :
    ∃ cut', Cuts named offset chars cut' ∧ Alike false (cut'.map Token.shape) (cut.map Token.shape) := by
  cases cuts with
  | done skipped => exact ⟨[], .done (same.trans skipped), .of_eq rfl⟩
  | token skipped scanned later =>
    have spaced := Nat.lt_of_lt_of_le lt (le_of_skip skipped)
    refine ⟨_, .token (same.trans skipped) ?_ later, rfl, rfl, Bool.noConfusion⟩
    simpa [spaced] using scanned

/-- The tokens of a text, a line break and another text. -/
theorem Cuts.append (first : Cuts named offset chars cut) (second : Cuts false 0 rest cut') :
    ∃ later, Cuts named offset (chars ++ '\n' :: rest) (cut ++ later) ∧
      Alike false (later.map Token.shape) (cut'.map Token.shape) := by
  have breaks : Breaks ('\n' :: rest) := by simp [Breaks]
  induction first with
  | @done named offset start chars skipped =>
    obtain ⟨cut'', moved, same⟩ := second.move (start + 1)
    rw [← same]
    refine moved.after_blanks ?_ (by have := le_of_skip skipped; omega) named
    rw [Nat.zero_add]
    exact (skip_append breaks 0 skipped).trans (skip_of_isBlank (by decide) _ _)
  | token skipped scanned _ ih =>
    obtain ⟨later, cuts, alike⟩ := ih
    refine ⟨later, .token ?_ (scan_append breaks 0 _ _ _ _ _ _ scanned) cuts, alike⟩
    exact (skip_append breaks 0 skipped).trans (skip_of_opens ((opens_of_skip skipped).append breaks) _)

end

/-! ## Reading -/

/-- What the tokens are that are left, wherever they stand. -/
def Reading.shapes (reading : Reading) : List (Lexeme × Bool) := reading.tokens.map Token.shape

/-- A reading and one with the same tokens in another text, where more tokens stand after them. -/
structure Reading.Continued (fixed : Bool) (more : List (Lexeme × Bool)) (left right : Reading) : Prop where
  shapes : Alike fixed right.shapes (left.shapes ++ more)
  next : left.next = right.next
  names : left.names = right.names

theorem Reading.Continued.refl (fixed : Bool) (reading : Reading) : Continued fixed [] reading reading :=
  ⟨.of_eq (List.append_nil _).symm, rfl, rfl⟩

/-- Both readings go on with the same token. -/
theorem Reading.Continued.exists_tokens {fixed : Bool} {more : List (Lexeme × Bool)} {left right : Reading}
    (continued : Continued fixed more left right) (nonempty : left.tokens ≠ []) :
    ∃ token rest token' rest', left.tokens = token :: rest ∧ right.tokens = token' :: rest' ∧
      token.lexeme = token'.lexeme ∧ (fixed = true → token.spaced = token'.spaced) ∧
      rest'.map Token.shape = rest.map Token.shape ++ more := by
  obtain ⟨head, tail, same⟩ := continued.shapes
  cases one : left.tokens with
  | nil => exact absurd one nonempty
  | cons token rest =>
    cases other : right.tokens with
    | nil => simp [Reading.shapes, one, other] at head
    | cons token' rest' =>
      simp only [Reading.shapes, one, other, Token.shape, List.map_cons, List.cons_append, List.head?_cons,
        Option.map_some, Option.some.injEq, List.tail_cons, List.cons.injEq, Prod.mk.injEq] at head tail same
      exact ⟨token, rest, token', rest', rfl, rfl, head.symm, fun strict => (same strict).1.2.symm, tail⟩

namespace Reader

open Reading (Continued)

variable {α β : Type}

/-- From at most `room` tokens on, whatever one reader reads up to a token that is left over, with at least `taken`
tokens taken, the other reads before further tokens. -/
def Carries (fixed : Bool) (room taken : Nat) (first second : Reader α) : Prop :=
  ∀ more left right value after, Continued fixed more left right → left.tokens.length ≤ room →
    first left = .ok value after → after.tokens ≠ [] → after.tokens.length + taken ≤ left.tokens.length ∧
      ∃ after', second right = .ok value after' ∧ Continued true more after after'

namespace Carries

variable {fixed : Bool} {room taken : Nat} {first second : Reader α} {rest rest' : α → Reader β}

theorem pure (value : α) : Carries true room 0 (Pure.pure value) (Pure.pure value) := by
  rintro more left right _ _ continued _ ⟨rfl, rfl⟩ _
  exact ⟨Nat.le_refl _, right, rfl, continued⟩

theorem fail (fault : SyntaxFault) : Carries fixed room taken (Reader.fail fault) second := by
  intro more left right value after _ _ ended
  contradiction

theorem bind (begins : Carries fixed room taken first second)
    (goes : ∀ value, Carries true (room - taken) 0 (rest value) (rest' value)) :
    Carries fixed room taken (first >>= rest) (second >>= rest') := by
  intro more left right value after continued le ended leftOver
  obtain ⟨result, between, begun, ended⟩ := exists_of_bind ended
  have nonempty : between.tokens ≠ [] := by
    intro none
    have fewer := (goes result [] between between value after (.refl _ _) (by simp [none]) ended leftOver).1
    simp [none, leftOver] at fewer
  obtain ⟨fewer, between', begun', continued'⟩ := begins more left right result between continued le begun nonempty
  obtain ⟨fewer', after', ended', continued''⟩ :=
    goes result more between between' value after continued' (by omega) ended leftOver
  exact ⟨by omega, after', (bind_of_ok begun').trans ended', continued''⟩

theorem mono (carries : Carries fixed room taken first second) {room' : Nat} (le : room' ≤ room) :
    Carries true room' 0 first second := by
  intro more left right value after continued le' ended leftOver
  have continued' : Continued fixed more left right :=
    ⟨.of_eq (continued.shapes.same rfl), continued.next, continued.names⟩
  obtain ⟨fewer, rest⟩ := carries more left right value after continued' (by omega) ended leftOver
  exact ⟨by omega, rest⟩

/-- A reader that looks at the next token sees the same one in both readings. -/
theorem look {rest rest' : Reading → Reader β} (each : ∀ left right : Reading, left.lexeme? = right.lexeme? →
      (fixed = true → left.attachedInt? = right.attachedInt?) → left.names = right.names →
      Carries fixed room taken (rest left) (rest' right)) :
    Carries fixed room taken (get >>= rest) (get >>= rest') := by
  intro more left right value after continued le ended leftOver
  have fewer := (each left left rfl (fun _ => rfl) rfl [] left left value after (.refl _ _) le ended leftOver).1
  have nonempty : left.tokens ≠ [] := by
    intro none
    simp [none, leftOver] at fewer
  obtain ⟨token, tokens, token', tokens', one, other, lexeme, spaced, -⟩ := continued.exists_tokens nonempty
  refine each left right ?_ (fun strict => ?_) continued.names more left right value after continued le ended leftOver
  · rw [lexeme?_of_tokens one, lexeme?_of_tokens other, lexeme]
  · obtain ⟨lexeme', _, spaced'⟩ := token
    obtain ⟨_, _, _⟩ := token'
    obtain rfl := lexeme
    obtain rfl := spaced strict
    rw [Reading.attachedInt?, Reading.attachedInt?, Reading.token?, Reading.token?, one, other]
    cases lexeme' <;> cases spaced' <;> rfl

theorem advance (fixed : Bool) : Carries fixed (room + 1) 1 Reader.advance Reader.advance := by
  rintro more left right _ _ continued _ ⟨rfl, rfl⟩ leftOver
  have nonempty : left.tokens ≠ [] := by
    intro none
    simp [Reading.advance, none] at leftOver
  obtain ⟨token, tokens, token', tokens', one, other, -, -, same⟩ := continued.exists_tokens nonempty
  refine ⟨by simp [Reading.advance, one], right.advance, rfl, .of_eq ?_, continued.next, continued.names⟩
  simpa [Reading.shapes, Reading.advance, one, other] using same

theorem skip : Carries true room 0 Reader.advance Reader.advance := (advance true).mono (Nat.le_succ room)

theorem expect (lexeme : Lexeme) (fault : SyntaxFault) :
    Carries true room 0 (Reader.expect lexeme fault) (Reader.expect lexeme fault) := by
  refine look fun left right same _ _ => ?_
  rw [same]
  split
  · exact skip
  · exact fail fault

end Carries

variable {item item' : Reader Term} {operand operand' : Nat → Reader Term} {room bound bound' : Nat}

section

variable (carries : Carries true room 0 item item') (le : bound ≤ bound')
include carries le

theorem carries_arguments : Carries true room 0 (arguments item bound) (arguments item' bound') := by
  induction bound generalizing bound' with
  | zero => exact .fail _
  | succ bound ih =>
    obtain ⟨bound', rfl⟩ : ∃ rest, bound' = rest + 1 := ⟨bound' - 1, by omega⟩
    refine carries.bind fun first => .look fun left right same _ _ => ?_
    rw [same]
    split
    · exact Carries.skip.bind fun _ => (ih (by omega)).bind fun rest => .pure _
    · exact (Carries.expect _ _).bind fun _ => .pure _

theorem carries_items : Carries true room 0 (items item bound) (items item' bound') := by
  induction bound generalizing bound' with
  | zero => exact .fail _
  | succ bound ih =>
    obtain ⟨bound', rfl⟩ : ∃ rest, bound' = rest + 1 := ⟨bound' - 1, by omega⟩
    refine carries.bind fun first => .look fun left right same _ _ => ?_
    rw [same]
    split
    · exact Carries.skip.bind fun _ => (ih (by omega)).bind fun rest => .pure _
    · exact Carries.skip.bind fun _ => carries.bind fun tail => (Carries.expect _ _).bind fun _ => .pure _
    · exact (Carries.expect _ _).bind fun _ => .pure _

theorem carries_list : Carries true room 0 (list item bound) (list item' bound') := by
  refine .look fun left right same _ _ => ?_
  rw [same]
  split
  · exact Carries.skip.bind fun _ => .pure _
  · exact (carries_items carries le).bind fun parts => .pure _

end

theorem carries_variableNamed (room : Nat) (name : String) :
    Carries true room 0 (variableNamed name) (variableNamed name) := by
  have taken : Carries true room 0 fresh fresh := by
    rintro more left right _ _ continued _ ⟨rfl, rfl⟩ _
    refine ⟨Nat.le_refl _, { right with next := right.next + 1 }, ?_,
      ⟨continued.shapes, congrArg (· + 1) continued.next, continued.names⟩⟩
    rw [continued.next]
    rfl
  unfold variableNamed
  split
  · exact taken.bind fun id => .pure _
  · refine .look fun left right _ _ names => ?_
    rw [names]
    split
    · exact .pure _
    · refine taken.bind fun id => Carries.bind ?_ fun _ => .pure _
      rintro more left right _ _ continued _ ⟨rfl, rfl⟩ _
      exact ⟨Nat.le_refl _, _, rfl, ⟨continued.shapes, continued.next, congrArg (· ++ _) continued.names⟩⟩

variable (carries : ∀ priority, Carries true room 0 (operand priority) (operand' priority))
include carries

theorem carries_named (le : bound ≤ bound') (priority : Nat) (name : String) :
    Carries true room 0 (named operand bound priority name) (named operand' bound' priority name) := by
  refine .look fun left right same attached _ => ?_
  rw [same]
  split
  · exact Carries.skip.bind fun _ => (carries_arguments (carries _) le).bind fun args => .pure _
  · refine .look fun left right same attached _ => ?_
    simp only [attached rfl]
    split
    · exact Carries.skip.bind fun _ => .pure _
    · split
      · refine .look fun left right same _ _ => ?_
        have starts : left.startsOperand = right.startsOperand := by
          rw [Reading.startsOperand, Reading.startsOperand, same]
        rw [starts]
        split
        · exact (carries _).bind fun inner => .pure _
        · exact .pure _
      · exact .pure _

theorem carries_primary (le : bound ≤ bound') (priority : Nat) :
    Carries false (room + 1) 1 (primary operand bound priority) (primary operand' bound' priority) := by
  refine .look fun left right same _ _ => ?_
  rw [same]
  have begins := @Carries.advance room false
  split
  · exact .fail _
  · exact .fail _
  · exact begins.bind fun _ => .pure _
  · exact begins.bind fun _ => (carries_variableNamed _ _).bind fun term => .pure _
  · exact begins.bind fun _ => carries_named carries le priority _
  iterate 2 exact begins.bind fun _ => (carries _).bind fun inner => (Carries.expect _ _).bind fun _ => .pure _
  · exact begins.bind fun _ => (carries_list (carries _) le).bind fun term => .pure _
  · exact begins.bind fun _ => (carries _).bind fun inner => (Carries.expect _ _).bind fun _ => .pure _
  · exact .fail _

theorem carries_climb (within : bound ≤ room) (le : bound ≤ bound') (priority : Nat) (left : Term)
    (leftPriority : Nat) :
    Carries true bound 0 (climb operand priority bound left leftPriority)
      (climb operand' priority bound' left leftPriority) := by
  induction bound generalizing bound' left leftPriority with
  | zero =>
    rintro more before _ _ _ _ none ⟨rfl, rfl⟩ leftOver
    exact absurd (List.length_eq_zero_iff.mp (Nat.le_zero.mp none)) leftOver
  | succ bound ih =>
    obtain ⟨bound', rfl⟩ : ∃ rest, bound' = rest + 1 := ⟨bound' - 1, by omega⟩
    refine .look fun before before' same _ _ => ?_
    have found : before.binaryOp? = before'.binaryOp? := by rw [Reading.binaryOp?, Reading.binaryOp?, same]
    rw [found]
    split
    · split
      · refine (Carries.bind (.advance true) fun _ => ?_).mono (Nat.le_refl _)
        exact ((carries _).mono (by omega)).bind fun right => ih (by omega) (by omega) _ _
      · exact .pure _
    · exact .pure _

omit carries

theorem carries_term (le : bound ≤ bound') (priority : Nat) :
    Carries false bound 1 (term bound priority) (term bound' priority) := by
  induction bound generalizing bound' priority with
  | zero => exact .fail _
  | succ bound ih =>
    obtain ⟨bound', rfl⟩ : ∃ rest, bound' = rest + 1 := ⟨bound' - 1, by omega⟩
    have le' := Nat.le_of_succ_le_succ le
    have carries := fun priority => (ih le' priority).mono (Nat.le_refl _)
    rw [term_succ, term_succ]
    refine ((carries_primary carries le' priority).bind fun part => ?_).bind fun whole => .pure _
    exact carries_climb carries (Nat.le_refl _) le' priority part.1 part.2

variable {more : List (Lexeme × Bool)} {left right after : Reading}

/-- Names of earlier clauses have no influence on a clause. -/
theorem exists_clause_eq (le : bound ≤ bound') (alike : Alike false right.shapes (left.shapes ++ more))
    (next : left.next = right.next) (within : left.tokens.length ≤ bound) {read : ReadTerm}
    (ended : clause bound left = .ok read after) (leftOver : after.tokens ≠ []) :
    after.tokens.length ≤ left.tokens.length ∧
      ∃ after', clause bound' right = .ok read after' ∧ Continued true more after after' := by
  have carries : Carries false bound 1
      (term bound maxPriority >>= fun term => get >>= fun reading => pure (ReadTerm.mk term reading.names))
      (term bound' maxPriority >>= fun term => get >>= fun reading => pure ⟨term, reading.names⟩) := by
    refine (carries_term le maxPriority).bind fun term => .look fun _ _ _ _ names => ?_
    rw [names]
    exact .pure _
  obtain ⟨fewer, read⟩ := carries more { left with names := [] } { right with names := [] } read after
    ⟨alike, next, rfl⟩ within ended leftOver
  exact ⟨Nat.le_of_succ_le fewer, read⟩

theorem clauses_succ_iff (nonempty : left.tokens ≠ []) {count : Nat} {reads : List ReadTerm} :
    clauses bound (count + 1) left = .ok reads after ↔ ∃ first between rest, reads = first :: rest ∧
      clause bound left = .ok first between ∧ between.lexeme? = some .stop ∧
      clauses bound count between.advance = .ok rest after := by
  have filled : ¬ left.tokens.isEmpty = true := by simpa using nonempty
  rw [clauses, get_bind, if_neg filled]
  constructor
  · intro ended
    obtain ⟨first, between, begun, ended⟩ := exists_of_bind ended
    by_cases stop : between.lexeme? = some .stop
    · rw [expect_bind stop] at ended
      obtain ⟨rest, _, others, rfl, rfl⟩ := exists_of_bind ended
      exact ⟨first, between, rest, rfl, begun, stop, others⟩
    · rw [expect, bind_assoc, get_bind, if_neg stop] at ended
      contradiction
  · rintro ⟨first, between, rest, rfl, begun, stop, others⟩
    rw [bind_of_ok begun, expect_bind stop, bind_of_ok others]
    rfl

theorem clauses_of_empty (none : left.tokens = []) (count : Nat) : clauses bound count left = .ok [] left := by
  cases count with
  | zero => rfl
  | succ count =>
    rw [clauses, get_bind, if_pos (by simp [none])]
    rfl

/-- Clauses are read before further tokens as well, and then what comes after them. -/
theorem exists_clauses_eq (le : bound ≤ bound') {count : Nat} {reads : List ReadTerm}
    (alike : Alike false right.shapes (left.shapes ++ more)) (next : left.next = right.next)
    (within : left.tokens.length ≤ bound) (counted : left.tokens.length ≤ count)
    (ended : clauses bound count left = .ok reads after) :
    reads.length ≤ count ∧ ∃ last, Alike false last.shapes more ∧ after.next = last.next ∧
      ∀ count' others final, clauses bound' count' last = .ok others final →
        clauses bound' (reads.length + count') right = .ok (reads ++ others) final := by
  induction reads generalizing left right count with
  | nil =>
    have none : left.tokens = [] := by
      by_contra nonempty
      obtain ⟨count, rfl⟩ : ∃ rest, count = rest + 1 :=
        Nat.exists_eq_add_one.mpr (Nat.lt_of_lt_of_le (List.length_pos_iff.mpr nonempty) counted)
      obtain ⟨_, _, _, ⟨⟩, _⟩ := (clauses_succ_iff nonempty).mp ended
    rw [clauses_of_empty none] at ended
    obtain ⟨-, rfl⟩ := ended
    exact ⟨Nat.zero_le _, right, by simpa [Reading.shapes, none] using alike, next, by simp⟩
  | cons first rest ih =>
    have nonempty : left.tokens ≠ [] := by
      intro none
      rw [clauses_of_empty none] at ended
      cases ended
    obtain ⟨count, rfl⟩ : ∃ rest, count = rest + 1 :=
      Nat.exists_eq_add_one.mpr (Nat.lt_of_lt_of_le (List.length_pos_iff.mpr nonempty) counted)
    obtain ⟨_, between, _, ⟨rfl, rfl⟩, begun, stop, goes⟩ := (clauses_succ_iff nonempty).mp ended
    have leftOver : between.tokens ≠ [] := by
      intro none
      simp [Reading.lexeme?, Reading.token?, none] at stop
    obtain ⟨fewer, between', begun', continued⟩ := exists_clause_eq le alike next within begun leftOver
    obtain ⟨token, tokens, token', tokens', one, other, lexeme, -, same⟩ := continued.exists_tokens leftOver
    have shorter : between.advance.tokens.length + 1 ≤ left.tokens.length := by
      simpa [Reading.advance, one] using fewer
    have alike' : Alike false between'.advance.shapes (between.advance.shapes ++ more) :=
      .of_eq (by simpa [Reading.shapes, Reading.advance, one, other] using same)
    obtain ⟨fits, last, lastAlike, lastNext, further⟩ :=
      ih alike' continued.next (by omega) (by omega) goes
    refine ⟨Nat.succ_le_succ fits, last, lastAlike, lastNext, fun count' others final ran => ?_⟩
    have nonempty' : right.tokens ≠ [] := by
      intro none
      have length := alike.length_eq
      have positive := List.length_pos_iff.mpr nonempty
      simp only [Reading.shapes, none, List.map_nil, List.length_nil, List.length_append, List.length_map] at length
      omega
    rw [List.length_cons, Nat.add_right_comm, clauses_succ_iff nonempty']
    refine ⟨first, between', rest ++ others, rfl, begun', ?_, further count' others final ran⟩
    rw [lexeme?_of_tokens other, ← lexeme, ← lexeme?_of_tokens one, stop]

end Reader

theorem readProgram_eq_ok_iff {text : String} {next next' : Nat} {reads : List ReadTerm} :
    readProgram text next = .ok reads next' ↔ ∃ cut after, Cuts false 0 text.toList cut ∧
      Reader.clauses cut.length cut.length ⟨cut, text.utf8ByteSize, next, []⟩ = .ok reads after ∧
      after.next = next' := by
  rw [readProgram, readWith]
  constructor
  · intro ended
    cases cut : tokens text with
    | error error => simp [cut] at ended
    | ok cut' =>
      simp only [cut] at ended
      cases ran : Reader.clauses cut'.length cut'.length ⟨cut', text.utf8ByteSize, next, []⟩ with
      | error error after => simp [ran] at ended
      | ok reads' after =>
        simp only [ran] at ended
        obtain ⟨rfl, rfl⟩ := ended
        exact ⟨cut', after, tokensFrom_eq_ok_iff.mp cut, ran, rfl⟩
  · rintro ⟨cut, after, cuts, ran, rfl⟩
    have cut' : tokens text = .ok cut := tokensFrom_eq_ok_iff.mpr cuts
    simp only [cut', ran]

/-- Programs are read in pieces: the clauses of a text, a line break and another text are those of the one followed by
those of the other, with the same numbers and names of variables. -/
theorem readProgram_append {first second : String} {next next' next'' : Nat} {reads reads' : List ReadTerm}
    (one : readProgram first next = .ok reads next') (other : readProgram second next' = .ok reads' next'') :
    readProgram (first ++ "\n" ++ second) next = .ok (reads ++ reads') next'' := by
  obtain ⟨cut, after, cuts, ran, rfl⟩ := readProgram_eq_ok_iff.mp one
  obtain ⟨cut', after', cuts', ran', rfl⟩ := readProgram_eq_ok_iff.mp other
  obtain ⟨later, whole, alike⟩ := cuts.append cuts'
  have length : later.length = cut'.length := by simpa using alike.length_eq
  have longer : cut.length ≤ (cut ++ later).length := by simp
  have longer' : cut'.length ≤ (cut ++ later).length := by simp [length]
  -- the clauses of the first text, before the tokens of the second one
  have begins : Alike false
      (Reading.shapes ⟨cut ++ later, (first ++ "\n" ++ second).utf8ByteSize, next, []⟩)
      (Reading.shapes ⟨cut, first.utf8ByteSize, next, []⟩ ++ later.map Token.shape) := .of_eq (by simp [Reading.shapes])
  obtain ⟨fits, last, lastAlike, lastNext, further⟩ :=
    Reader.exists_clauses_eq longer begins rfl (Nat.le_refl cut.length) (Nat.le_refl cut.length) ran
  -- the clauses of the second text, before nothing
  have goes : Alike false last.shapes (Reading.shapes ⟨cut', second.utf8ByteSize, after.next, []⟩ ++ []) := by
    rw [List.append_nil]
    exact ⟨lastAlike.head.trans alike.head, lastAlike.tail.trans alike.tail, Bool.noConfusion⟩
  obtain ⟨fits', last', lastAlike', lastNext', further'⟩ :=
    Reader.exists_clauses_eq longer' goes lastNext (Nat.le_refl cut'.length) (Nat.le_refl cut'.length) ran'
  have none : last'.tokens = [] := by simpa [Reading.shapes] using lastAlike'.length_eq
  obtain ⟨rest, total⟩ : ∃ rest, (cut ++ later).length = reads.length + (reads'.length + rest) :=
    ⟨(cut ++ later).length - (reads.length + reads'.length), by rw [List.length_append, length]; omega⟩
  refine readProgram_eq_ok_iff.mpr ⟨cut ++ later, last', by simpa using whole, ?_, lastNext'.symm⟩
  have both := further _ _ _ (further' _ _ _ (Reader.clauses_of_empty none rest))
  rw [List.append_nil, ← total] at both
  exact both

theorem readProgram_append_rules :
    let rule : ReadTerm :=
      ⟨.binary ":-" (.compound "p" (.var 3) []) (.compound "q" (.var 3) [.var 4]), [("X", 3), ("_Y", 4)]⟩
    let fact : ReadTerm := ⟨.compound "r" (.var 5) [.atom "it's"], [("X", 5)]⟩
    readProgram "p(X) :- q(X, _Y). % a rule" 3 = .ok [rule] 5 ∧ readProgram "r(X, 'it''s')." 5 = .ok [fact] 6 ∧
      readProgram ("p(X) :- q(X, _Y). % a rule" ++ "\n" ++ "r(X, 'it''s').") 3 = .ok [rule, fact] 6 := by
  intro rule fact
  have first : readProgram "p(X) :- q(X, _Y). % a rule" 3 = .ok [rule] 5 := by cbv
  have second : readProgram "r(X, 'it''s')." 5 = .ok [fact] 6 := by cbv
  exact ⟨first, second, readProgram_append first second⟩

end HornLoops
