import HornLoops.Proofs.Reader.Variables

/-!
# How tokens are read as terms

Reading climbs priorities: after an operand it goes on with every operator that the place and the operand admit.
Therefore what some tokens spell is said together with what comes of the operand once it is read, namely
that climbing goes on with it and its priority (`Spells`). One lemma for each form of a term puts its
tokens together from those of its parts; all of them hold before whatever cannot be taken in (`Ends`).

Variables are written with their numbers and get new numbers when they are read, different ones for different
variables, so a term is read up to a one-to-one renaming.
-/

namespace HornLoops

/-! ## Variables -/

namespace Reading

/-- The variables that have names so far have different numbers, all of them taken. -/
structure Numbered (reading : Reading) : Prop where
  distinct : (reading.names.map Prod.snd).Nodup
  taken : reading.NamesTaken

/-- Reading on keeps the numbers of variables. -/
structure Learned (before after : Reading) : Prop where
  names : before.names <+: after.names
  numbered : before.Numbered → after.Numbered

/-- The number that a variable has got. -/
def number (reading : Reading) (id : Nat) : Nat := (reading.names.lookup (varText id)).getD 0

/-- A term whose variables all have numbers, and the term with these numbers. -/
structure Reflects (reading : Reading) (meant read : Term) : Prop where
  known : ∀ id ∈ meant.occurrences, (reading.names.lookup (varText id)).isSome
  renamed : read = meant.rename reading.number

namespace Learned

variable {first second third : Reading}

theorem refl (reading : Reading) : Learned reading reading := ⟨List.prefix_rfl, id⟩

theorem trans (one : Learned first second) (other : Learned second third) : Learned first third :=
  ⟨one.names.trans other.names, fun numbered => other.numbered (one.numbered numbered)⟩

theorem lookup_eq (learned : Learned first second) {name : String} {id : Nat}
    (known : first.names.lookup name = some id) : second.names.lookup name = some id := by
  obtain ⟨more, same⟩ := learned.names
  rw [← same, List.lookup_append, known, Option.some_or]

theorem reflects (learned : Learned first second) {meant read : Term} (reflects : first.Reflects meant read) :
    second.Reflects meant read := by
  have same : ∀ id ∈ meant.occurrences,
      second.names.lookup (varText id) = first.names.lookup (varText id) := by
    intro id occurs
    obtain ⟨number, known⟩ := Option.isSome_iff_exists.mp (reflects.known id occurs)
    rw [known, learned.lookup_eq known]
  refine ⟨fun id occurs => ?_, ?_⟩
  · rw [same id occurs]
    exact reflects.known id occurs
  · rw [reflects.renamed]
    exact Term.rename_congr fun id occurs => by rw [number, number, same id occurs]

end Learned

theorem varText_injective {left right : Nat} (same : varText left = varText right) : left = right := by
  have chars := congrArg String.toList same
  rw [varText, varText, String.toList_append, String.toList_append, List.append_cancel_left_eq] at chars
  have digits : Nat.toDigits 10 left = Nat.toDigits 10 right := by
    rwa [← Nat.toList_repr, ← Nat.toList_repr]
  rw [← Nat.ofDigitChars_ten_toDigits (n := left), digits, Nat.ofDigitChars_ten_toDigits]

theorem Numbered.number_injective {reading : Reading} (numbered : reading.Numbered) {ids : List Nat}
    (known : ∀ id ∈ ids, (reading.names.lookup (varText id)).isSome) : InjectiveOn reading.number ids := by
  intro left memberLeft right memberRight same
  obtain ⟨number, knownLeft⟩ := Option.isSome_iff_exists.mp (known left memberLeft)
  obtain ⟨number', knownRight⟩ := Option.isSome_iff_exists.mp (known right memberRight)
  simp only [Reading.number, knownLeft, knownRight, Option.getD_some] at same
  subst same
  have pairs := List.inj_on_of_nodup_map numbered.distinct (mem_of_lookup_eq_some knownLeft)
    (mem_of_lookup_eq_some knownRight) rfl
  exact varText_injective (congrArg Prod.fst pairs)

end Reading

namespace Reader

variable {α β : Type}

variable {name name' : String} {read left tail : Term} {reading after : Reading} {lexeme : Lexeme}
  {small large guard limit bound : Nat} {rest : List Token} {token opening closing comma named : Token}
  {op op' : BinaryOp} {operand : Nat → Reader Term} {meants : List Term} {value : Int64}

theorem get_bind (rest : Reading → Reader β) (reading : Reading) :
    (get >>= rest) reading = rest reading reading := rfl

theorem advance_bind (rest : Unit → Reader β) (reading : Reading) :
    (advance >>= rest) reading = rest () reading.advance := rfl

theorem expect_bind (found : reading.lexeme? = some lexeme) (fault : SyntaxFault) (rest : Unit → Reader β) :
    (expect lexeme fault >>= rest) reading = rest () reading.advance := by
  rw [expect, bind_assoc, get_bind, if_pos found, advance_bind]

/-- A variable is read as its number, which it gets at its first occurrence. -/
theorem exists_variableNamed_eq (id : Nat) (reading : Reading) :
    ∃ read after, reading.Learned after ∧ after.tokens = reading.tokens ∧ after.Reflects (.var id) read ∧
      variableNamed (varText id) reading = .ok read after := by
  have named : varText id ≠ "_" := by
    intro same
    have chars := congrArg String.toList same
    simp [varText] at chars
  rw [variableNamed, if_neg named, get_bind]
  match known : reading.names.lookup (varText id) with
  | some number =>
    refine ⟨.var number, reading, .refl _, rfl, ⟨?_, ?_⟩, rfl⟩
    · intro other occurs
      rw [List.mem_singleton.mp occurs, known]
      rfl
    · simp [Reading.number, known]
  | none =>
    let after : Reading := { reading with
      next := reading.next + 1, names := reading.names ++ [(varText id, reading.next)] }
    have known' : after.names.lookup (varText id) = some reading.next := by
      simp [after, List.lookup_append, known]
    refine ⟨.var reading.next, after, ⟨List.prefix_append _ _, fun numbered => ⟨?_, ?_⟩⟩, rfl, ⟨?_, ?_⟩, rfl⟩
    · have fresh : reading.next ∉ reading.names.map Prod.snd := by
        intro member
        obtain ⟨entry, inside, same⟩ := List.mem_map.mp member
        exact absurd (numbered.taken entry inside) (by omega)
      simp only [after, List.map_append, List.map_cons, List.map_nil]
      exact List.nodup_append.mpr ⟨numbered.distinct, by simp, by
        rintro left member right last rfl
        rw [List.mem_singleton.mp last] at member
        exact fresh member⟩
    · intro entry member
      rcases List.mem_append.mp member with member | member
      · exact Nat.lt_succ_of_lt (numbered.taken entry member)
      · rw [List.mem_singleton.mp member]
        exact Nat.lt_succ_self _
    · intro other occurs
      rw [List.mem_singleton.mp occurs, known']
      rfl
    · simp [Reading.number, known']

/-! ## Where climbing ends -/

/-- Whether tokens neither begin with arguments nor with an operator whose priority is at most a given one. -/
def Ends (guard : Nat) (rest : List Token) : Prop :=
  ∀ reading : Reading, reading.tokens = rest → reading.lexeme? ≠ some .openCall ∧
    ∀ name op, reading.binaryOp? = some (name, op) → guard < op.priority

theorem Ends.mono (ends : Ends large rest) (le : small ≤ large) : Ends small rest := fun reading same =>
  ⟨(ends reading same).1, fun name op found => Nat.lt_of_le_of_lt le ((ends reading same).2 name op found)⟩

theorem lexeme?_of_tokens (same : reading.tokens = token :: rest) : reading.lexeme? = some token.lexeme := by
  simp [Reading.lexeme?, Reading.token?, same]

/-- Nothing is taken in at the end of the text. -/
theorem ends_nil (guard : Nat) : Ends guard [] := by
  intro reading same
  have none : reading.lexeme? = none := by simp [Reading.lexeme?, Reading.token?, same]
  simp [Reading.binaryOp?, none]

theorem ends_punct {c : Char} (punct : token.lexeme = .punct c) (admitted : c = ',' → guard < 1000)
    (rest : List Token) : Ends guard (token :: rest) := by
  intro reading same
  have next := lexeme?_of_tokens same
  rw [punct] at next
  refine ⟨by simp [next], fun name op found => ?_⟩
  by_cases comma : c = ','
  · have known : HornLoops.binaryOp? "," = some (.toRight 1000) := by decide
    simp only [Reading.binaryOp?, next, comma, known, Option.map_some, Option.some.injEq, Prod.mk.injEq] at found
    rw [← found.2]
    exact admitted comma
  · have other : reading.binaryOp? = none := by
      rw [Reading.binaryOp?, next]
      split <;> simp_all
    simp [other] at found

/-- A token that is read as an operator between operands. -/
def Between (token : Token) (name : String) : Prop :=
  token.lexeme = .name name ∨ name = "," ∧ token.lexeme = .punct ','

theorem Between.binaryOp?_eq (between : Between token name) (known : HornLoops.binaryOp? name = some op)
    (same : reading.tokens = token :: rest) : reading.binaryOp? = some (name, op) := by
  have next := lexeme?_of_tokens same
  rcases between with lexeme | ⟨rfl, lexeme⟩ <;> rw [lexeme] at next <;>
    simp [Reading.binaryOp?, next, known]

theorem Between.ends (between : Between token name) (known : HornLoops.binaryOp? name = some op)
    (lt : guard < op.priority) (rest : List Token) : Ends guard (token :: rest) := by
  intro reading same
  have next := lexeme?_of_tokens same
  refine ⟨?_, fun name' op' found => ?_⟩
  · rcases between with lexeme | ⟨-, lexeme⟩ <;> rw [next, lexeme] <;> simp
  · rw [between.binaryOp?_eq known same] at found
    obtain ⟨rfl, rfl⟩ : name = name' ∧ op = op' := by simpa using found
    exact lt

theorem climb_of_ends (ends : Ends limit reading.tokens) (bound : Nat) (left : Term) (priority : Nat) :
    climb operand limit bound left priority reading = .ok (left, priority) reading := by
  cases bound with
  | zero => rfl
  | succ bound =>
    rw [climb, get_bind]
    match found : reading.binaryOp? with
    | none => rfl
    | some (name, op) =>
      have larger := (ends reading rfl).2 name op found
      have refused : (op.priority ≤ limit && priority ≤ op.left) = false := by
        simp only [Bool.and_eq_false_imp, decide_eq_true_eq]
        omega
      simp only [refused, Bool.false_eq_true, if_false]
      rfl

/-- Climbing goes on with an operator that the place and the operand admit. -/
theorem climb_of_between {priority : Nat} (between : Between token name) (known : HornLoops.binaryOp? name = some op)
    (same : reading.tokens = token :: rest) (le : op.priority ≤ limit) (leLeft : priority ≤ op.left) :
    climb operand limit (bound + 1) left priority reading =
      (operand op.right >>= fun right => climb operand limit bound (.binary name left right) op.priority)
        reading.advance := by
  have admitted : (op.priority ≤ limit && priority ≤ op.left) = true := by simp [le, leLeft]
  rw [climb, get_bind, between.binaryOp?_eq known same]
  simp only [admitted, if_true]
  rw [advance_bind]

/-! ## What tokens spell -/

/-- An operand with the operators after it that its place admits. -/
def operation (bound limit : Nat) : Reader (Term × Nat) :=
  primary (term bound) bound limit >>= fun part => climb (term bound) limit bound part.1 part.2

theorem term_succ (bound limit : Nat) :
    term (bound + 1) limit = operation bound limit >>= fun whole => pure whole.1 := by
  simp only [term, operation, bind_assoc]

/-- A reading that has come to the tokens after a term. -/
structure Took (before : Reading) (meant : Term) (rest : List Token) (read : Term) (after : Reading) : Prop where
  learned : before.Learned after
  tokens : after.tokens = rest
  reflects : after.Reflects meant read

/-- Tokens that are read as a term, after which climbing goes on with a priority. -/
def Spells (tokens : List Token) (meant : Term) (priority guard : Nat) : Prop :=
  ∀ bound limit (reading : Reading) rest, reading.tokens = tokens ++ rest → reading.tokens.length ≤ bound + 1 →
    priority ≤ limit → Ends guard rest → ∃ read after bound', Took reading meant rest read after ∧
      rest.length ≤ bound' ∧
      operation bound limit reading = climb (term bound) limit bound' read priority after

/-- Tokens that are read as one operand. -/
structure Stands (tokens : List Token) (meant : Term) : Prop where
  nonempty : tokens ≠ []
  read : ∀ bound limit (reading : Reading) rest, reading.tokens = tokens ++ rest →
    reading.tokens.length ≤ bound + 1 → Ends 0 rest → ∃ read after, Took reading meant rest read after ∧
      primary (term bound) bound limit reading = .ok (read, 0) after

/-- Tokens that are read as a term in a place that admits a priority. Operators that take in the whole term do not take
in a part of it. -/
structure Spelled (limit : Nat) (meant : Term) (tokens : List Token) : Prop where
  nonempty : tokens ≠ []
  spells : ∃ priority guard, priority ≤ limit ∧ guard ≤ priority ∧
    (∀ name op, HornLoops.binaryOp? name = some op → priority ≤ op.left → guard < op.priority) ∧
    Spells tokens meant priority guard

variable {tokens tokens' : List Token} {meant : Term} {limit bound : Nat} {reading : Reading} {rest : List Token}

theorem length_lt_of_append (nonempty : tokens ≠ []) (same : reading.tokens = tokens ++ rest)
    (le : reading.tokens.length ≤ bound + 1) : rest.length ≤ bound := by
  have longer := List.length_pos_iff.mpr nonempty
  rw [same, List.length_append] at le
  omega

theorem Stands.spelled (stands : Stands tokens meant) (limit : Nat) : Spelled limit meant tokens := by
  refine ⟨stands.nonempty, 0, 0, Nat.zero_le _, Nat.le_refl _, ?_, ?_⟩
  · have positive : ∀ entry ∈ binaryOps, 0 < entry.2.priority := by decide
    exact fun name op known _ => positive (name, op) (mem_of_lookup_eq_some known)
  · intro bound limit reading rest same le _ ends
    obtain ⟨read, after, took, ran⟩ := stands.read bound limit reading rest same le ends
    exact ⟨read, after, bound, took, length_lt_of_append stands.nonempty same le, bind_of_ok ran⟩

theorem Spelled.mono (spelled : Spelled small meant tokens) (le : small ≤ large) : Spelled large meant tokens := by
  obtain ⟨nonempty, priority, guard, fits, rest⟩ := spelled
  exact ⟨nonempty, priority, guard, Nat.le_trans fits le, rest⟩

/-- Tokens that spell a term are read as this term before whatever its place does not admit. -/
theorem Spelled.exists_term_eq (spelled : Spelled limit meant tokens) (same : reading.tokens = tokens ++ rest)
    (le : reading.tokens.length ≤ bound) (ends : Ends limit rest) :
    ∃ read after, Took reading meant rest read after ∧ term bound limit reading = .ok read after := by
  obtain ⟨nonempty, priority, guard, fits, guarded, -, spells⟩ := spelled
  cases bound with
  | zero => simp_all
  | succ bound =>
    obtain ⟨read, after, bound', took, -, ran⟩ :=
      spells bound limit reading rest same le fits (ends.mono (Nat.le_trans guarded fits))
    refine ⟨read, after, took, ?_⟩
    have ended : climb (term bound) limit bound' read priority after = .ok (read, priority) after :=
      climb_of_ends (by rwa [took.tokens]) bound' read priority
    rw [term_succ, bind_of_ok (ran.trans ended)]
    rfl

/-! ## Forms of terms -/

theorem advance_tokens (same : reading.tokens = token :: rest) : reading.advance.tokens = rest := by
  simp [Reading.advance, same]

theorem length_advance_le (same : reading.tokens = token :: rest) (le : reading.tokens.length ≤ bound + 1) :
    reading.advance.tokens.length ≤ bound := by
  rw [same, List.length_cons] at le
  rw [advance_tokens same]
  omega

theorem Learned.advance (reading : Reading) : reading.Learned reading.advance :=
  ⟨List.prefix_rfl, fun numbered => ⟨numbered.distinct, numbered.taken⟩⟩

theorem Took.of_advance (took : Took reading.advance meant rest read after) : Took reading meant rest read after :=
  ⟨(Learned.advance reading).trans took.learned, took.tokens, took.reflects⟩

theorem Took.advance (took : Took reading meant (token :: rest) read after) :
    Took reading meant rest read after.advance :=
  have learned := Learned.advance after
  ⟨took.learned.trans learned, advance_tokens took.tokens, learned.reflects took.reflects⟩

theorem reflects_of_ground (ground : meant.occurrences = []) (reading : Reading) : reading.Reflects meant meant :=
  ⟨by simp [ground], (Term.rename_eq_self (by simp [ground])).symm⟩

/-- Terms that are read one after the other, as the arguments of a compound. -/
theorem reflects_build {reads : List Term} (each : List.Forall₂ reading.Reflects meants reads) (name : String) :
    reading.Reflects (.build name meants) (.build name reads) := by
  have all : (∀ meant ∈ meants, ∀ id ∈ meant.occurrences, (reading.names.lookup (varText id)).isSome) ∧
      reads = meants.map (Term.rename reading.number) := by
    induction each with
    | nil => simp
    | cons first _ ih => exact ⟨List.forall_mem_cons.mpr ⟨first.known, ih.1⟩, by rw [first.renamed, ih.2]; rfl⟩
  constructor
  · intro id occurs
    rw [Term.occurrences_build, List.mem_flatMap] at occurs
    obtain ⟨meant, member, occurs⟩ := occurs
    exact all.1 meant member id occurs
  · rw [Term.rename_build, all.2]

theorem stands_int (int : token.lexeme = .int value) : Stands [token] (.int value) := by
  refine ⟨by simp, fun bound limit reading rest same _ _ => ?_⟩
  have next : reading.lexeme? = some (.int value) := by rw [lexeme?_of_tokens same, int]
  refine ⟨.int value, reading.advance, ⟨Learned.advance _, advance_tokens same, reflects_of_ground rfl _⟩, ?_⟩
  rw [primary, get_bind, next]
  rfl

theorem stands_var {id : Nat} (var : token.lexeme = .var (varText id)) : Stands [token] (.var id) := by
  refine ⟨by simp, fun bound limit reading rest same _ _ => ?_⟩
  have next : reading.lexeme? = some (.var (varText id)) := by rw [lexeme?_of_tokens same, var]
  obtain ⟨read, after, learned, left, reflects, ran⟩ := exists_variableNamed_eq id reading.advance
  refine ⟨read, after, ⟨(Learned.advance _).trans learned, left.trans (advance_tokens same), reflects⟩, ?_⟩
  rw [primary, get_bind, next]
  dsimp only
  rw [advance_bind, bind_of_ok ran]
  rfl

theorem primary_of_name (next : reading.lexeme? = some (.name name)) :
    primary operand bound limit reading = Reader.named operand bound limit name reading.advance := by
  rw [primary, get_bind, next]
  rfl

theorem stands_atom (named : token.lexeme = .name name) (notUnary : unaryOp? name = none) :
    Stands [token] (.atom name) := by
  refine ⟨by simp, fun bound limit reading rest same _ ends => ?_⟩
  have next : reading.lexeme? = some (.name name) := by rw [lexeme?_of_tokens same, named]
  have left := advance_tokens same
  have notMinus : name ≠ "-" := by
    rintro rfl
    exact absurd notUnary (by decide)
  refine ⟨.atom name, reading.advance, ⟨Learned.advance _, left, reflects_of_ground rfl _⟩, ?_⟩
  rw [primary_of_name next, Reader.named, get_bind, if_neg (ends reading.advance left).1, get_bind]
  simp only [notMinus, if_false, notUnary]
  rfl

/-- A number directly after a minus sign. -/
theorem stands_negative {sign digits : Token} (minus : sign.lexeme = .name "-") (int : digits.lexeme = .int value)
    (attached : digits.spaced = false) : Stands [sign, digits] (.int (-value)) := by
  refine ⟨by simp, fun bound limit reading rest same _ _ => ?_⟩
  have next : reading.lexeme? = some (.name "-") := by rw [lexeme?_of_tokens same, minus]
  have left := advance_tokens same
  have next' : reading.advance.lexeme? ≠ some .openCall := by
    rw [lexeme?_of_tokens left, int]
    simp
  have value? : reading.advance.attachedInt? = some value := by
    obtain ⟨lexeme, offset, spaced⟩ := digits
    subst int attached
    simp [Reading.attachedInt?, Reading.token?, left]
  have learned := (Learned.advance reading).trans (Learned.advance reading.advance)
  refine ⟨.int (-value), reading.advance.advance, ⟨learned, advance_tokens left, reflects_of_ground rfl _⟩, ?_⟩
  rw [primary_of_name next, Reader.named, get_bind, if_neg next', get_bind]
  simp only [value?, if_true]
  rfl

theorem primary_of_open (next : reading.lexeme? = some lexeme) (opened : lexeme = .openCall ∨ lexeme = .punct '(') :
    primary operand bound limit reading =
      (operand maxPriority >>= fun inner => expect (.punct ')') .openParenthesis >>= fun _ => pure (inner, 0))
        reading.advance := by
  rcases opened with rfl | rfl <;> rw [primary, get_bind, next] <;> rfl

/-- A term is read up to the token that closes it. -/
theorem Spelled.exists_enclosed {close : Char} (inner : Spelled maxPriority meant tokens)
    (closed : closing.lexeme = .punct close) (other : close ≠ ',')
    (same : reading.tokens = opening :: (tokens ++ [closing]) ++ rest)
    (le : reading.tokens.length ≤ bound + 1) :
    ∃ read after, Took reading meant (closing :: rest) read after ∧ after.lexeme? = some (.punct close) ∧
      term bound maxPriority reading.advance = .ok read after := by
  rw [List.cons_append, List.append_assoc] at same
  obtain ⟨read, after, took, ran⟩ := inner.exists_term_eq (advance_tokens same) (length_advance_le same le)
    (ends_punct closed (absurd · other) rest)
  exact ⟨read, after, took.of_advance, by rw [lexeme?_of_tokens took.tokens, closed], ran⟩

/-- Parentheses around any term. -/
theorem stands_parenthesized (opened : opening.lexeme = .openCall ∨ opening.lexeme = .punct '(')
    (closed : closing.lexeme = .punct ')') (inner : Spelled maxPriority meant tokens) :
    Stands (opening :: (tokens ++ [closing])) meant := by
  refine ⟨by simp, fun bound limit reading rest same le _ => ?_⟩
  obtain ⟨read, after, took, last, ran⟩ := inner.exists_enclosed closed (by decide) same le
  refine ⟨read, after.advance, took.advance, ?_⟩
  rw [primary_of_open (lexeme?_of_tokens same) opened, bind_of_ok ran, expect_bind last]
  rfl

theorem primary_of_brace (next : reading.lexeme? = some (.punct '\x7b')) :
    primary operand bound limit reading =
      (operand maxPriority >>= fun inner =>
        expect (.punct '\x7d') .openBrace >>= fun _ => pure (.unary "\x7b\x7d" inner, 0)) reading.advance := by
  rw [primary, get_bind, next]
  rfl

/-- Braces around any term. -/
theorem stands_braces (opened : opening.lexeme = .punct '\x7b') (closed : closing.lexeme = .punct '\x7d')
    (inner : Spelled maxPriority meant tokens) :
    Stands (opening :: (tokens ++ [closing])) (.unary "\x7b\x7d" meant) := by
  refine ⟨by simp, fun bound limit reading rest same le _ => ?_⟩
  obtain ⟨read, after, took, last, ran⟩ := inner.exists_enclosed closed (by decide) same le
  refine ⟨.unary "\x7b\x7d" read, after.advance, ⟨took.advance.learned, took.advance.tokens,
    reflects_build (.cons took.advance.reflects .nil) _⟩, ?_⟩
  rw [primary_of_brace (by rw [lexeme?_of_tokens same, opened]), bind_of_ok ran, expect_bind last]
  rfl

/-- Tokens that are read as arguments, up to the closing parenthesis. -/
def SpellsArguments (meants : List Term) (tokens : List Token) : Prop :=
  ∀ bound count (reading : Reading) rest, reading.tokens = tokens ++ rest → reading.tokens.length ≤ bound →
    reading.tokens.length ≤ count → ∃ reads after, reading.Learned after ∧ after.tokens = rest ∧
      List.Forall₂ after.Reflects meants reads ∧
      arguments (term bound argPriority) count reading = .ok reads after

theorem spellsArguments_last (spelled : Spelled argPriority meant tokens) (closed : closing.lexeme = .punct ')') :
    SpellsArguments [meant] (tokens ++ [closing]) := by
  intro bound count reading rest same le le'
  rw [List.append_assoc] at same
  obtain ⟨read, after, took, ran⟩ := spelled.exists_term_eq same le (ends_punct closed (by simp) rest)
  have closing' : after.lexeme? = some (.punct ')') := by rw [lexeme?_of_tokens took.tokens, closed]
  refine ⟨[read], after.advance, took.advance.learned, took.advance.tokens, .cons took.advance.reflects .nil, ?_⟩
  cases count with
  | zero => simp_all
  | succ count =>
    rw [arguments, bind_of_ok ran, get_bind, if_neg (by simp [closing']), expect_bind closing']
    rfl

theorem spellsArguments_cons (spelled : Spelled argPriority meant tokens) (separates : comma.lexeme = .punct ',')
    (others : SpellsArguments meants tokens') : SpellsArguments (meant :: meants) (tokens ++ comma :: tokens') := by
  intro bound count reading rest same le le'
  rw [List.append_assoc, List.cons_append] at same
  obtain ⟨read, after, took, ran⟩ := spelled.exists_term_eq same le (ends_punct separates (by decide) _)
  have comma' : after.lexeme? = some (.punct ',') := by rw [lexeme?_of_tokens took.tokens, separates]
  have left := took.advance.tokens
  have shorter : after.advance.tokens.length + 1 ≤ reading.tokens.length := by
    rw [left, same]
    simp only [List.length_append, List.length_cons]
    omega
  cases count with
  | zero => omega
  | succ count =>
    obtain ⟨reads, last, learned, left', reflects, ran'⟩ :=
      others bound count after.advance rest left (by omega) (by omega)
    refine ⟨read :: reads, last, took.advance.learned.trans learned, left',
      .cons (learned.reflects took.advance.reflects) reflects, ?_⟩
    rw [arguments, bind_of_ok ran, get_bind, if_pos comma', advance_bind, bind_of_ok ran']
    rfl

/-- A name with arguments. -/
theorem stands_call (lexeme : named.lexeme = .name name) (opened : opening.lexeme = .openCall)
    (arguments : SpellsArguments meants tokens) : Stands (named :: opening :: tokens) (.build name meants) := by
  refine ⟨by simp, fun bound limit reading rest same le _ => ?_⟩
  rw [List.cons_append, List.cons_append] at same
  have left := advance_tokens same
  have left' := advance_tokens left
  have next : reading.lexeme? = some (.name name) := by rw [lexeme?_of_tokens same, lexeme]
  have next' : reading.advance.lexeme? = some .openCall := by rw [lexeme?_of_tokens left, opened]
  have shorter : reading.advance.advance.tokens.length ≤ bound := by
    rw [same] at le
    rw [left']
    simp only [List.length_cons] at le
    omega
  obtain ⟨reads, after, learned, last, reflects, ran⟩ :=
    arguments bound bound reading.advance.advance rest left' shorter shorter
  have learned' := ((Learned.advance reading).trans (Learned.advance _)).trans learned
  refine ⟨.build name reads, after, ⟨learned', last, reflects_build reflects name⟩, ?_⟩
  rw [primary_of_name next, Reader.named, get_bind, if_pos next', advance_bind, bind_of_ok ran]
  rfl

/-! ## Lists -/

/-- What is read after an item of a list. -/
def itemsAfter (item : Reader Term) (bound : Nat) (first : Term) : Reader (List Term × Term) := do
  match (← get).lexeme? with
  | some (.punct ',') =>
    advance
    let (rest, tail) ← items item bound
    return (first :: rest, tail)
  | some (.punct '|') =>
    advance
    let tail ← item
    expect (.punct ']') .openList
    return ([first], tail)
  | _ =>
    expect (.punct ']') .openList
    return ([first], .nil)

theorem items_succ (item : Reader Term) (bound : Nat) :
    items item (bound + 1) = item >>= itemsAfter item bound := rfl

variable {item : Reader Term} {first : Term}

theorem itemsAfter_of_close (next : reading.lexeme? = some (.punct ']')) :
    itemsAfter item bound first reading = .ok ([first], .nil) reading.advance := by
  have closed : itemsAfter item bound first reading =
      (expect (.punct ']') .openList >>= fun _ => pure ([first], Term.nil)) reading := by
    rw [itemsAfter, get_bind, next]
    rfl
  rw [closed, expect_bind next]
  rfl

theorem itemsAfter_of_bar (next : reading.lexeme? = some (.punct '|')) :
    itemsAfter item bound first reading =
      (item >>= fun tail => expect (.punct ']') .openList >>= fun _ => pure ([first], tail)) reading.advance := by
  rw [itemsAfter, get_bind, next]
  rfl

theorem itemsAfter_of_comma (next : reading.lexeme? = some (.punct ',')) :
    itemsAfter item bound first reading =
      (items item bound >>= fun parts => pure (first :: parts.1, parts.2)) reading.advance := by
  rw [itemsAfter, get_bind, next]
  rfl

/-- Tokens that are read as the rest of a list after an item, up to the closing bracket. -/
structure SpellsTail (meant : Term) (tokens : List Token) : Prop where
  starts : ∀ rest, Ends argPriority (tokens ++ rest)
  read : ∀ bound count (reading : Reading) rest first, reading.tokens = tokens ++ rest →
    reading.tokens.length ≤ bound → reading.tokens.length ≤ count → ∃ items tail after,
      Took reading meant rest (.listBefore items tail) after ∧
      itemsAfter (term bound argPriority) count first reading = .ok (first :: items, tail) after

theorem spellsTail_nil (closed : closing.lexeme = .punct ']') : SpellsTail .nil [closing] := by
  refine ⟨fun rest => ends_punct closed (by simp) rest, fun bound count reading rest first same _ _ => ?_⟩
  have next : reading.lexeme? = some (.punct ']') := by rw [lexeme?_of_tokens same, closed]
  exact ⟨[], .nil, reading.advance, ⟨Learned.advance _, advance_tokens same, reflects_of_ground rfl _⟩,
    itemsAfter_of_close next⟩

theorem spellsTail_bar {bar : Token} (lexeme : bar.lexeme = .punct '|') (closed : closing.lexeme = .punct ']')
    (spelled : Spelled argPriority meant tokens) : SpellsTail meant (bar :: (tokens ++ [closing])) := by
  refine ⟨fun rest => ends_punct lexeme (by simp) _, fun bound count reading rest first same le _ => ?_⟩
  rw [List.cons_append, List.append_assoc] at same
  have next : reading.lexeme? = some (.punct '|') := by rw [lexeme?_of_tokens same, lexeme]
  obtain ⟨read, after, took, ran⟩ := spelled.exists_term_eq (advance_tokens same)
    (length_advance_le same (Nat.le_succ_of_le le)) (ends_punct closed (by simp) rest)
  have closing' : after.lexeme? = some (.punct ']') := by rw [lexeme?_of_tokens took.tokens, closed]
  refine ⟨[], read, after.advance, took.of_advance.advance, ?_⟩
  rw [itemsAfter_of_bar next, bind_of_ok ran, expect_bind closing']
  rfl

/-- An item and the rest of a list after it. -/
theorem exists_items_eq (spelled : Spelled argPriority meant tokens) (others : SpellsTail tail tokens') {count : Nat}
    (same : reading.tokens = tokens ++ (tokens' ++ rest)) (le : reading.tokens.length ≤ bound)
    (le' : reading.tokens.length ≤ count) :
    ∃ items last after, Took reading (.cons meant tail) rest (.listBefore items last) after ∧
      Reader.items (term bound argPriority) count reading = .ok (items, last) after := by
  obtain ⟨read, after, took, ran⟩ := spelled.exists_term_eq same le (others.starts rest)
  have shorter : after.tokens.length + 1 ≤ reading.tokens.length := by
    have positive := List.length_pos_iff.mpr spelled.nonempty
    rw [took.tokens, same]
    simp only [List.length_append]
    omega
  cases count with
  | zero => omega
  | succ count =>
    obtain ⟨items, last, after', took', ran'⟩ :=
      others.read bound count after rest read took.tokens (by omega) (by omega)
    refine ⟨read :: items, last, after', ⟨took.learned.trans took'.learned, took'.tokens, ?_⟩, ?_⟩
    · exact reflects_build (.cons (took'.learned.reflects took.reflects) (.cons took'.reflects .nil)) "."
    · rw [items_succ, bind_of_ok ran, ran']

theorem spellsTail_comma (lexeme : comma.lexeme = .punct ',') (spelled : Spelled argPriority meant tokens)
    (others : SpellsTail tail tokens') : SpellsTail (.cons meant tail) (comma :: (tokens ++ tokens')) := by
  refine ⟨fun rest => ends_punct lexeme (by decide) _, fun bound count reading rest first same le le' => ?_⟩
  rw [List.cons_append, List.append_assoc] at same
  have next : reading.lexeme? = some (.punct ',') := by rw [lexeme?_of_tokens same, lexeme]
  obtain ⟨items, last, after, took, ran⟩ := exists_items_eq spelled others (advance_tokens same)
    (length_advance_le same (Nat.le_succ_of_le le)) (length_advance_le same (Nat.le_succ_of_le le'))
  refine ⟨items, last, after, took.of_advance, ?_⟩
  rw [itemsAfter_of_comma next, bind_of_ok ran]
  rfl

theorem primary_of_bracket (next : reading.lexeme? = some (.punct '[')) :
    primary operand bound limit reading =
      (list (operand argPriority) bound >>= fun whole => pure (whole, 0)) reading.advance := by
  rw [primary, get_bind, next]
  rfl

/-- The empty list. -/
theorem stands_nil (opened : opening.lexeme = .punct '[') (closed : closing.lexeme = .punct ']') :
    Stands [opening, closing] .nil := by
  refine ⟨by simp, fun bound limit reading rest same _ _ => ?_⟩
  have left := advance_tokens same
  have next : reading.advance.lexeme? = some (.punct ']') := by rw [lexeme?_of_tokens left, closed]
  refine ⟨.nil, reading.advance.advance,
    ⟨(Learned.advance _).trans (Learned.advance _), advance_tokens left, reflects_of_ground rfl _⟩, ?_⟩
  rw [primary_of_bracket (by rw [lexeme?_of_tokens same, opened]), list, bind_assoc, get_bind, if_pos next]
  rfl

/-- A term in a place for arguments does not begin with a closing bracket. -/
theorem Spelled.lexeme?_ne (spelled : Spelled limit meant tokens) (same : reading.tokens = tokens ++ rest)
    (ends : Ends limit rest) : reading.lexeme? ≠ some (.punct ']') := by
  intro next
  obtain ⟨read, after, -, ran⟩ := spelled.exists_term_eq same (Nat.le_succ _) ends
  rw [term_succ, operation, bind_assoc, primary, bind_assoc, get_bind, next] at ran
  cases ran

/-- A list with at least one item. -/
theorem stands_cons (opened : opening.lexeme = .punct '[') (spelled : Spelled argPriority meant tokens)
    (others : SpellsTail tail tokens') : Stands (opening :: (tokens ++ tokens')) (.cons meant tail) := by
  refine ⟨by simp, fun bound limit reading rest same le _ => ?_⟩
  rw [List.cons_append, List.append_assoc] at same
  have left := advance_tokens same
  have shorter := length_advance_le same le
  obtain ⟨items, last, after, took, ran⟩ := exists_items_eq spelled others left shorter shorter
  refine ⟨_, after, took.of_advance, ?_⟩
  rw [primary_of_bracket (by rw [lexeme?_of_tokens same, opened]), list, bind_assoc, get_bind,
    if_neg (spelled.lexeme?_ne left (others.starts rest)), bind_assoc, bind_of_ok ran]
  rfl

/-! ## Operators -/

/-- Operators that take in a whole do not take in its right operand alone, since no priority has operators that
nest to the left beside operators that nest to the right. -/
theorem right_lt_of_priority_le (known : HornLoops.binaryOp? name = some op)
    (known' : HornLoops.binaryOp? name' = some op') (le : op.priority ≤ op'.left) : op.right < op'.priority := by
  have table : ∀ entry ∈ binaryOps, ∀ entry' ∈ binaryOps,
      entry.2.priority ≤ entry'.2.left → entry.2.right < entry'.2.priority := by decide
  exact table (name, op) (mem_of_lookup_eq_some known) (name', op') (mem_of_lookup_eq_some known') le

/-- Operands bind at least as tight as the whole. -/
theorem left_right_le_priority (known : HornLoops.binaryOp? name = some op) :
    op.left ≤ op.priority ∧ op.right ≤ op.priority := by
  have table : ∀ entry ∈ binaryOps, entry.2.left ≤ entry.2.priority ∧ entry.2.right ≤ entry.2.priority := by
    decide
  exact table (name, op) (mem_of_lookup_eq_some known)

/-- An operator between two operands. -/
theorem spelled_binary {between : Token} {right : Term} (known : HornLoops.binaryOp? name = some op)
    (lexeme : Between between name) (le : op.priority ≤ limit) (first : Spelled op.left left tokens)
    (second : Spelled op.right right tokens') :
    Spelled limit (.binary name left right) (tokens ++ between :: tokens') := by
  obtain ⟨leLeft, leRight⟩ := left_right_le_priority known
  refine ⟨by simp, op.priority, op.right, le, leRight, fun name' op' known' =>
    right_lt_of_priority_le known known', ?_⟩
  intro bound limit reading rest same le' fits ends
  rw [List.append_assoc, List.cons_append] at same
  obtain ⟨nonempty, priority, guard, fitsLeft, -, guarded, spells⟩ := first
  obtain ⟨read, after, bound', took, le'', ran⟩ := spells bound limit reading _ same le' (by omega)
    (lexeme.ends known (guarded name op known fitsLeft) _)
  have shorter : after.advance.tokens.length ≤ bound := by
    have positive := List.length_pos_iff.mpr nonempty
    rw [took.advance.tokens]
    rw [same] at le'
    simp only [List.length_append, List.length_cons] at le' ⊢
    omega
  cases bound' with
  | zero => simp at le''
  | succ bound' =>
    obtain ⟨read', after', took', ran'⟩ := second.exists_term_eq took.advance.tokens shorter ends
    refine ⟨.binary name read read', after', bound', ⟨took.advance.learned.trans took'.learned, took'.tokens, ?_⟩,
      ?_, ?_⟩
    · exact reflects_build (.cons (took'.learned.reflects took.advance.reflects) (.cons took'.reflects .nil)) name
    · simp only [List.length_cons, List.length_append] at le''
      omega
    · rw [ran, climb_of_between lexeme known took.tokens fits fitsLeft, bind_of_ok ran']

/-- Operators between operands that take in an operator with the operand after it do not take in this operand alone. -/
theorem operand_lt_of_priority_le {op : UnaryOp} (known : unaryOp? name = some op)
    (known' : HornLoops.binaryOp? name' = some op') (le : op.priority ≤ op'.left) : op.operand < op'.priority := by
  have table : ∀ entry ∈ unaryOps, ∀ entry' ∈ binaryOps,
      entry.2.priority ≤ entry'.2.left → entry.2.operand < entry'.2.priority := by decide
  exact table (name, op) (mem_of_lookup_eq_some known) (name', op') (mem_of_lookup_eq_some known') le

theorem operand_le_priority {op : UnaryOp} (known : unaryOp? name = some op) : op.operand ≤ op.priority := by
  have table : ∀ entry ∈ unaryOps, entry.2.operand ≤ entry.2.priority := by decide
  exact table (name, op) (mem_of_lookup_eq_some known)

/-- Whether a token directly after an operator is the first of its operand. A number after a minus sign is not. -/
def Operand (name : String) (token : Token) : Prop :=
  (∃ var, token.lexeme = .var var) ∨ name ≠ "-" ∧ ∃ value, token.lexeme = .int value

theorem Operand.named_eq (starts : Operand name token) {op : UnaryOp} (known : unaryOp? name = some op)
    (le : op.priority ≤ limit) (same : reading.tokens = token :: rest) (operand : Nat → Reader Term) :
    Reader.named operand bound limit name reading =
      (operand op.operand >>= fun meant => pure (.unary name meant, op.priority)) reading := by
  have next := lexeme?_of_tokens same
  have plain : reading.lexeme? ≠ some .openCall ∧ reading.startsOperand = true ∧
      (if name = "-" then reading.attachedInt? else none) = none := by
    rcases starts with ⟨var, lexeme⟩ | ⟨notMinus, value, lexeme⟩ <;> rw [lexeme] at next
    · obtain ⟨_, offset, spaced⟩ := token
      subst lexeme
      simp [next, Reading.startsOperand, Reading.attachedInt?, Reading.token?, same]
    · simp [next, Reading.startsOperand, notMinus]
  obtain ⟨notCall, starts, notInt⟩ := plain
  rw [Reader.named, get_bind, if_neg notCall, get_bind]
  simp only [notInt, known]
  rw [get_bind]
  simp only [le, starts, decide_true, Bool.and_self, if_true]

/-- An operator before its operand. -/
theorem spelled_unary {op : UnaryOp} (known : unaryOp? name = some op) (lexeme : named.lexeme = .name name)
    (le : op.priority ≤ limit) (starts : Operand name token) (operand : Spelled op.operand meant (token :: tokens)) :
    Spelled limit (.unary name meant) (named :: token :: tokens) := by
  refine ⟨by simp, op.priority, op.operand, le, operand_le_priority known, fun name' op' known' =>
    operand_lt_of_priority_le known known', ?_⟩
  intro bound limit reading rest same le' fits ends
  have next : reading.lexeme? = some (.name name) := by rw [lexeme?_of_tokens same, lexeme]
  have left := advance_tokens same
  have shorter := length_advance_le same le'
  obtain ⟨read, after, took, ran⟩ := operand.exists_term_eq left shorter ends
  refine ⟨.unary name read, after, bound, ⟨took.of_advance.learned, took.tokens,
    reflects_build (.cons took.reflects .nil) name⟩, length_lt_of_append (by simp) same le', ?_⟩
  have ran' : primary (term bound) bound limit reading = .ok (.unary name read, op.priority) after := by
    rw [primary_of_name next, starts.named_eq known fits left, bind_of_ok ran]
    rfl
  rw [operation, bind_of_ok ran']

/-- A term with nothing after it is the whole text. -/
theorem single_of_term {size next : Nat} (ran : term bound maxPriority ⟨tokens, size, next, []⟩ = .ok read after)
    (ended : after.tokens = []) : single bound ⟨tokens, size, next, []⟩ = .ok ⟨read, after.names⟩ after := by
  have read' : clause bound ⟨tokens, size, next, []⟩ = .ok ⟨read, after.names⟩ after := by
    have named : (modify fun reading => { reading with names := [] } : Reader Unit) ⟨tokens, size, next, []⟩ =
        .ok () ⟨tokens, size, next, []⟩ := rfl
    rw [clause, bind_of_ok named, bind_of_ok ran]
    rfl
  have none : after.lexeme? = none := by simp [Reading.lexeme?, Reading.token?, ended]
  rw [single, bind_of_ok read', get_bind, if_neg (by simp [none])]
  simp only [get_bind, ended, List.isEmpty_nil, if_true]
  rfl

/-- Tokens that spell a term make up a text that is read as a variant of this term. -/
theorem Spelled.exists_single_eq (spelled : Spelled maxPriority meant tokens) (size next : Nat) :
    ∃ read after, single tokens.length ⟨tokens, size, next, []⟩ = .ok read after ∧
      read.term.normalize = meant.normalize := by
  have whole : (⟨tokens, size, next, []⟩ : Reading).tokens = tokens ++ [] := (List.append_nil tokens).symm
  obtain ⟨read, after, took, ran⟩ := spelled.exists_term_eq whole (Nat.le_refl _) (ends_nil _)
  have start : (⟨tokens, size, next, []⟩ : Reading).Numbered := ⟨List.nodup_nil, List.forall_mem_nil _⟩
  have injective := (took.learned.numbered start).number_injective took.reflects.known
  refine ⟨⟨read, after.names⟩, after, single_of_term ran took.tokens, ?_⟩
  rw [took.reflects.renamed]
  exact Term.normalize_rename injective

end Reader

end HornLoops
