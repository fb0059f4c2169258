import HornLoops.Proofs.Term.Renaming
import HornLoops.Reader.Basic

/-!
# Variables that are read

Reading takes variables from a supply and names no others: all variables of what was read, named or not, have
numbers below the next free one that reading hands back. If it fails, it does so at a token or at the end of the text.
-/

namespace HornLoops

/-- All variables that have names so far were taken. -/
def Reading.NamesTaken (reading : Reading) : Prop := ∀ entry ∈ reading.names, entry.2 < reading.next

/-- The bytes at which the tokens start that are left, and the end of the text. -/
def Reading.places (reading : Reading) : List Nat := reading.size :: reading.tokens.map Token.offset

theorem Reading.offset_mem_places (reading : Reading) : reading.offset ∈ reading.places := by
  rcases reading with ⟨_ | ⟨token, rest⟩, size, next, names⟩ <;> simp [offset, token?, places]

namespace Reader

variable {α β : Type}

/-- From a number of variables on, a reader only takes more of them, and what it reads is in order for the number of
variables afterwards. It takes tokens from the front, and it fails at one of them or at the end of the text. -/
def Reads (limit : Nat) (holds : Nat → α → Prop) (reader : Reader α) : Prop :=
  ∀ before, limit ≤ before.next → before.NamesTaken → match reader before with
    | .ok value after =>
      after.places ⊆ before.places ∧ before.next ≤ after.next ∧ after.NamesTaken ∧ holds after.next value
    | .error error _ => error.offset ∈ before.places

namespace Reads

variable {limit : Nat} {holds : Nat → α → Prop} {holds' : Nat → β → Prop}

theorem pure {value : α} (result : ∀ next, limit ≤ next → holds next value) :
    Reads limit holds (Pure.pure value) :=
  fun before le taken => ⟨List.Subset.refl _, Nat.le_refl _, taken, result before.next le⟩

theorem bind {first : Reader α} {rest : α → Reader β} (begins : Reads limit holds first)
    (results : ∀ value next, limit ≤ next → holds next value → Reads next holds' (rest value)) :
    Reads limit holds' (first >>= rest) := by
  intro before le taken
  have begins := begins before le taken
  simp only [Bind.bind, EStateM.bind]
  cases begun : first before with
  | error error between => simpa only [begun] using begins
  | ok value between =>
    simp only [begun] at begins
    obtain ⟨places, more, taken', holds⟩ := begins
    have later := results value between.next (by omega) holds between (Nat.le_refl _) taken'
    dsimp only
    cases ended : rest value between with
    | error error after =>
      simp only [ended] at later
      exact places later
    | ok value' after =>
      simp only [ended] at later
      obtain ⟨places', more', taken'', result⟩ := later
      exact ⟨List.Subset.trans places' places, by omega, taken'', result⟩

theorem raise {reader : Reader α} (reads : Reads 0 holds reader) (limit : Nat) : Reads limit holds reader :=
  fun before _ => reads before (Nat.zero_le _)

/-- What was read is still in order when it is not looked at again. -/
theorem andThen {first : Reader α} {rest : α → Reader β} (begins : Reads limit (fun _ _ => True) first)
    (results : ∀ value, Reads limit holds' (rest value)) : Reads limit holds' (first >>= rest) :=
  begins.bind fun value _ le _ before le' => results value before (by omega)

theorem fail (fault : SyntaxFault) : Reads limit holds (Reader.fail fault) :=
  fun before _ _ => before.offset_mem_places

theorem get : Reads limit (fun _ _ => True) (MonadState.get : Reader Reading) :=
  fun _ _ taken => ⟨List.Subset.refl _, Nat.le_refl _, taken, trivial⟩

theorem advance : Reads limit (fun _ _ => True) Reader.advance := by
  intro before _ taken
  refine ⟨List.cons_subset_cons _ (List.map_subset _ ?_), Nat.le_refl _, taken, trivial⟩
  exact List.tail_subset before.tokens

theorem expect (lexeme : Lexeme) (fault : SyntaxFault) :
    Reads limit (fun _ _ => True) (Reader.expect lexeme fault) := by
  refine get.andThen fun reading => ?_
  split
  · exact advance
  · exact fail fault

theorem fresh : Reads limit (fun next id => id < next) Reader.fresh := by
  intro before _ taken
  refine ⟨List.Subset.refl _, Nat.le_succ _, fun entry member => ?_, Nat.lt_succ_self _⟩
  exact Nat.lt_succ_of_lt (taken entry member)

end Reads

/-- A term that mentions only variables that were taken. -/
abbrev Taken (next : Nat) (term : Term) : Prop := term.Below next

theorem reads_variableNamed (limit : Nat) (name : String) : Reads limit Taken (variableNamed name) := by
  unfold variableNamed
  split
  · exact Reads.fresh.bind fun id next _ taken =>
      .pure fun next' le => Term.below_var.mpr (by omega)
  · intro before le taken
    simp only [Bind.bind, EStateM.bind, MonadState.get, getThe, MonadStateOf.get, EStateM.get]
    cases known : before.names.lookup name with
    | some id =>
      exact ⟨List.Subset.refl _, Nat.le_refl _, taken, Term.below_var.mpr (taken _ (mem_of_lookup_eq_some known))⟩
    | none =>
      refine ⟨List.Subset.refl _, Nat.le_succ _, fun entry member => ?_, Term.below_var.mpr (Nat.lt_succ_self _)⟩
      rcases List.mem_append.mp member with member | member
      · exact Nat.lt_succ_of_lt (taken entry member)
      · rw [List.mem_singleton.mp member]
        exact Nat.lt_succ_self _

theorem Taken.cons {next later : Nat} {first : Term} {rest : List Term} (taken : Taken next first) (le : next ≤ later)
    (others : ∀ term ∈ rest, Taken later term) : ∀ term ∈ first :: rest, Taken later term :=
  List.forall_mem_cons.mpr ⟨taken.mono le, others⟩

theorem reads_arguments {argument : Reader Term} (reads : Reads 0 Taken argument) (limit bound : Nat) :
    Reads limit (fun next args => ∀ arg ∈ args, Taken next arg) (arguments argument bound) := by
  induction bound generalizing limit with
  | zero => exact .fail _
  | succ bound ih =>
    refine (reads.raise limit).bind fun first next _ firstTaken => Reads.get.andThen fun reading => ?_
    split
    · refine Reads.advance.andThen fun _ => (ih next).bind fun rest next' le restTaken => ?_
      exact .pure fun next'' le' => firstTaken.cons (by omega) fun arg member => (restTaken arg member).mono le'
    · exact (Reads.expect _ _).andThen fun _ => .pure fun next' le => firstTaken.cons le (by simp)

theorem reads_items {item : Reader Term} (reads : Reads 0 Taken item) (limit bound : Nat) :
    Reads limit (fun next parts => (∀ arg ∈ parts.1, Taken next arg) ∧ Taken next parts.2)
      (items item bound) := by
  induction bound generalizing limit with
  | zero => exact .fail _
  | succ bound ih =>
    refine (reads.raise limit).bind fun first next _ firstTaken => Reads.get.andThen fun reading => ?_
    split
    · refine Reads.advance.andThen fun _ => (ih next).bind fun parts next' le partsTaken => ?_
      exact .pure fun next'' le' => ⟨firstTaken.cons (by omega) fun arg member => (partsTaken.1 arg member).mono le',
        partsTaken.2.mono le'⟩
    · refine Reads.advance.andThen fun _ => (reads.raise next).bind fun tail next' le tailTaken => ?_
      exact (Reads.expect _ _).andThen fun _ => .pure fun next'' le' =>
        ⟨firstTaken.cons (by omega) (by simp), tailTaken.mono le'⟩
    · refine (Reads.expect _ _).andThen fun _ => .pure fun next' le => ⟨firstTaken.cons le (by simp), ?_⟩
      simp [Taken, Term.Below, Term.nil]

theorem taken_listBefore {next : Nat} {items : List Term} {tail : Term} (taken : ∀ item ∈ items, Taken next item)
    (tailTaken : Taken next tail) : Taken next (.listBefore items tail) := by
  induction items with
  | nil => exact tailTaken
  | cons first rest ih =>
    rw [List.forall_mem_cons] at taken
    refine Term.below_compound.mpr ⟨taken.1, fun term member => ?_⟩
    rw [List.mem_singleton.mp member]
    exact ih taken.2

theorem reads_list {item : Reader Term} (reads : Reads 0 Taken item) (limit bound : Nat) :
    Reads limit Taken (list item bound) := by
  refine Reads.get.andThen fun reading => ?_
  split
  · refine Reads.advance.andThen fun _ => .pure fun next _ => ?_
    simp [Taken, Term.Below, Term.nil]
  · refine (reads_items reads limit bound).bind fun parts next _ taken => .pure fun next' le => ?_
    exact taken_listBefore (fun arg member => (taken.1 arg member).mono le) (taken.2.mono le)

/-- A term with its priority mentions only variables that were taken. -/
abbrev PartTaken (next : Nat) (part : Term × Nat) : Prop := Taken next part.1

theorem taken_atom (next : Nat) (name : String) : Taken next (.atom name) := by
  simp [Taken, Term.Below]

theorem taken_int (next : Nat) (value : Int64) : Taken next (.int value) := by
  simp [Taken, Term.Below]

variable {operand : Nat → Reader Term}

variable (reads : ∀ priority, Reads 0 Taken (operand priority))
include reads

theorem reads_named (limit bound priority : Nat) (name : String) :
    Reads limit PartTaken (named operand bound priority name) := by
  refine Reads.get.andThen fun reading => ?_
  split
  · refine Reads.advance.andThen fun _ => (reads_arguments (reads _) limit bound).bind fun args next _ taken => ?_
    exact .pure fun next' le => Term.below_build.mpr fun arg member => (taken arg member).mono le
  · refine Reads.get.andThen fun reading => ?_
    dsimp only
    split
    · exact Reads.advance.andThen fun _ => .pure fun next _ => taken_int next _
    · split
      · refine Reads.get.andThen fun reading => ?_
        split
        · refine ((reads _).raise limit).bind fun inner next _ taken => .pure fun next' le => ?_
          exact Term.below_compound.mpr ⟨taken.mono le, by simp⟩
        · exact .pure fun next _ => taken_atom next name
      · exact .pure fun next _ => taken_atom next name

theorem reads_primary (limit bound priority : Nat) : Reads limit PartTaken (primary operand bound priority) := by
  refine Reads.get.andThen fun reading => ?_
  split
  · exact .fail _
  · exact .fail _
  · exact Reads.advance.andThen fun _ => .pure fun next _ => taken_int next _
  · refine Reads.advance.andThen fun _ => (reads_variableNamed limit _).bind fun term next _ taken => ?_
    exact .pure fun next' le => taken.mono le
  · exact Reads.advance.andThen fun _ => reads_named reads limit bound priority _
  iterate 2
    refine Reads.advance.andThen fun _ => ((reads _).raise limit).bind fun inner next _ taken => ?_
    exact (Reads.expect _ _).andThen fun _ => .pure fun next' le => taken.mono le
  · refine Reads.advance.andThen fun _ => (reads_list (reads _) limit bound).bind fun term next _ taken => ?_
    exact .pure fun next' le => taken.mono le
  · refine Reads.advance.andThen fun _ => ((reads _).raise limit).bind fun inner next _ taken => ?_
    refine (Reads.expect _ _).andThen fun _ => .pure fun next' le => ?_
    exact Term.below_compound.mpr ⟨taken.mono le, by simp⟩
  · exact .fail _

theorem reads_climb (limit priority bound : Nat) {left : Term} (taken : Taken limit left) (leftPriority : Nat) :
    Reads limit PartTaken (climb operand priority bound left leftPriority) := by
  induction bound generalizing limit left leftPriority with
  | zero => exact .pure fun next le => taken.mono le
  | succ bound ih =>
    refine Reads.get.andThen fun reading => ?_
    split
    · split
      · refine Reads.advance.andThen fun _ => ((reads _).raise limit).bind fun right next le rightTaken => ?_
        refine ih next (Term.below_compound.mpr ⟨taken.mono le, ?_⟩) _
        intro term member
        rw [List.mem_singleton.mp member]
        exact rightTaken
      · exact .pure fun next le => taken.mono le
    · exact .pure fun next le => taken.mono le

omit reads

/-- Terms are made of variables that were taken. -/
theorem reads_term (limit bound priority : Nat) : Reads limit Taken (term bound priority) := by
  induction bound generalizing limit priority with
  | zero => exact .fail _
  | succ bound ih =>
    have reads := fun priority => ih 0 priority
    refine (reads_primary reads limit bound priority).bind fun left next _ taken => ?_
    refine (reads_climb reads next priority bound taken left.2).bind fun whole next' _ wholeTaken => ?_
    exact .pure fun next'' le => wholeTaken.mono le

end Reader

/-- Whether a term that was read and the list of its names mention only variables below a limit. -/
def ReadTerm.Below (limit : Nat) (read : ReadTerm) : Prop :=
  read.term.Below limit ∧ ∀ entry ∈ read.names, entry.2 < limit

variable {next start : Nat} {read : ReadTerm} {text : String}

theorem ReadTerm.Below.mono {small large : Nat} (below : read.Below small) (le : small ≤ large) : read.Below large :=
  ⟨below.1.mono le, fun entry member => Nat.lt_of_lt_of_le (below.2 entry member) le⟩

namespace Reader

theorem reads_clause (limit bound : Nat) : Reads limit (fun next read => read.Below next) (clause bound) := by
  intro before le _
  have inner := reads_term 0 bound maxPriority { before with names := [] } (Nat.zero_le _) fun _ => nofun
  simp only [clause, Bind.bind, EStateM.bind, modify, modifyGet, MonadStateOf.modifyGet, EStateM.modifyGet]
  cases ended : term bound maxPriority { before with names := [] } with
  | error error after =>
    simp only [ended] at inner
    exact inner
  | ok read after =>
    simp only [ended] at inner
    obtain ⟨places, more, taken, readTaken⟩ := inner
    exact ⟨places, more, taken, readTaken, taken⟩

theorem reads_single (limit bound : Nat) : Reads limit (fun next read => read.Below next) (single bound) := by
  refine (reads_clause limit bound).bind fun read next _ taken => Reads.get.andThen fun reading => ?_
  have rest : Reads next (fun next read => read.Below next)
      (do if (← get).tokens.isEmpty then return read
          fail .operatorExpected) := by
    refine Reads.get.andThen fun reading => ?_
    split
    · exact .pure fun next' le => taken.mono le
    · exact .fail _
  split
  · exact Reads.advance.andThen fun _ => rest
  · exact rest

theorem reads_clauses (limit bound count : Nat) :
    Reads limit (fun next reads => ∀ read ∈ reads, read.Below next) (clauses bound count) := by
  induction count generalizing limit with
  | zero => exact .pure (by simp)
  | succ count ih =>
    unfold clauses
    refine Reads.get.andThen fun reading => ?_
    split
    · exact .pure (by simp)
    · refine (reads_clause limit bound).bind fun first next _ taken => ?_
      refine (Reads.expect _ _).andThen fun _ => (ih next).bind fun rest next' more others => ?_
      refine .pure fun next'' le => List.forall_mem_cons.mpr ⟨taken.mono (Nat.le_trans more le), ?_⟩
      exact fun read member => (others read member).mono le

end Reader

/-- Reading a text takes variables as its reader does, and fails where it cannot be cut into tokens, at a token or at its
end. -/
theorem readWith_holds {α : Type} {reader : Nat → Reader α} {holds : Nat → α → Prop}
    (reads : ∀ bound, Reader.Reads 0 holds (reader bound)) (text : String) (start : Nat) :
    match readWith text reader start with
    | .ok value next => holds next value
    | .error error _ => tokens text = .error error ∨
        ∃ cut, tokens text = .ok cut ∧ error.offset ∈ text.utf8ByteSize :: cut.map Token.offset := by
  unfold readWith
  cases lexed : tokens text with
  | error error => exact .inl rfl
  | ok cut =>
    have read := reads cut.length ⟨cut, text.utf8ByteSize, start, []⟩ (Nat.zero_le _) fun _ => nofun
    dsimp only
    cases ended : reader cut.length ⟨cut, text.utf8ByteSize, start, []⟩ with
    | error error reading =>
      simp only [ended] at read
      exact .inr ⟨cut, rfl, read⟩
    | ok value reading =>
      simp only [ended] at read
      exact read.2.2.2

/-- All variables of a term that was read, named or not, have numbers below the next free one. -/
theorem readTerm_below (ended : readTerm text start = .ok read next) : read.Below next := by
  have holds := readWith_holds (Reader.reads_single 0) text start
  rwa [← readTerm, ended] at holds

/-- So do the variables of the clauses of a program. -/
theorem readProgram_below {reads : List ReadTerm} (ended : readProgram text start = .ok reads next) :
    ∀ read ∈ reads, read.Below next := by
  have holds := readWith_holds (fun bound => Reader.reads_clauses 0 bound bound) text start
  rwa [← readProgram, ended] at holds

end HornLoops
