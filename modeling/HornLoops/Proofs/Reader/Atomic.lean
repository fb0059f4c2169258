import HornLoops.Proofs.Reader.RoundTrip

/-!
# Reading atoms and numbers

An atom is written without quotes if it is made of symbols, and such a text has other readings: a single dot closes a
clause, and a slash with a star after it begins a comment. The empty braces are written without quotes too, but braces
with nothing between them are not read. Numbers are read as digits with a sign in front, and the digits of the smallest
one do not fit. Every other atom and every other number is read as it was written, whatever characters it has.
-/

namespace HornLoops

open Text Reader

/-- A term is read from its text. -/
def ReadsBack (term : Term) (next : Nat) : Prop :=
  ∃ read next', readTerm term.text next = .ok read next' ∧ read.term = term

/-- Whether a name is written such that it is taken for something else. -/
def isMistaken (name : String) : Bool :=
  name ∈ ["\x7b\x7d", "."] || (name.toList.all isSymbol && ['/', '*'].isPrefixOf name.toList)

/-- A term without variables has no other variants. -/
theorem Readable.readsBack {term : Term} (readable : Readable term) (ground : term.occurrences = []) (next : Nat) :
    ReadsBack term next := by
  obtain ⟨read, next', ended, variants⟩ := readable.exists_readTerm_eq next
  obtain ⟨number, _, same⟩ := Term.exists_rename_of_normalize_eq variants.symm
  exact ⟨read, next', ended, by rw [← same, Term.rename_eq_self (by simp [ground])]⟩

/-- A name alone is an atom, also if it is an operator. -/
theorem Reader.single_name {token : Token} {name : String} (named : token.lexeme = .name name) (size next : Nat) :
    single 1 ⟨[token], size, next, []⟩ = .ok ⟨.atom name, []⟩ ⟨[], size, next, []⟩ := by
  have next' : (⟨[token], size, next, []⟩ : Reading).lexeme? = some (.name name) := by
    rw [lexeme?_of_tokens rfl, named]
  have alone : Reader.named (term 0) 0 maxPriority name ⟨[], size, next, []⟩ =
      .ok (.atom name, 0) ⟨[], size, next, []⟩ := by
    rw [Reader.named, get_bind, if_neg (by simp [Reading.lexeme?, Reading.token?]), get_bind]
    simp only [Reading.attachedInt?, Reading.token?, List.head?_nil, ite_self]
    cases unaryOp? name with
    | none => rfl
    | some op =>
      have refused : (op.priority ≤ maxPriority && (⟨[], size, next, []⟩ : Reading).startsOperand) = false :=
        Bool.and_false _
      simp only [get_bind, refused, Bool.false_eq_true, if_false]
      rfl
  have whole : operation 0 maxPriority ⟨[token], size, next, []⟩ = .ok (.atom name, 0) ⟨[], size, next, []⟩ :=
    bind_of_ok ((primary_of_name next').trans alone)
  exact single_of_term (by rw [term_succ, bind_of_ok whole]; rfl) rfl

theorem readTerm_of_name {text name : String} {token : Token} (cut : tokens text = .ok [token])
    (named : token.lexeme = .name name) (next : Nat) : readTerm text next = .ok ⟨.atom name, []⟩ next := by
  simp only [readTerm, readWith, cut, List.length_singleton, single_name named]

/-! ## Names of symbols -/

section

variable {name : String} {c : Char} {others : List Char}

/-- Names of symbols are written without quotes. -/
theorem text_of_symbols (symbols : ∀ d ∈ c :: others, isSymbol d = true) (chars : name.toList = c :: others) :
    (Term.atom name).text = name := by
  have notLower : isLower c = false := Bool.eq_false_iff.mpr fun lower => by
    have symbol := symbols c List.mem_cons_self
    rw [isSymbol_eq_false_of_isLower lower] at symbol
    contradiction
  have plain : needsQuotes name = false := by
    simp only [needsQuotes, chars, notLower, List.all_eq_true.mpr symbols]
    simp
  simp [Term.text, Term.write, nameText, plain]

/-- A name of symbols is read if it is neither a full stop nor the start of a comment. -/
theorem readsBack_symbols (symbols : ∀ d ∈ c :: others, isSymbol d = true) (chars : name.toList = c :: others)
    (clear : isMistaken name = false) (next : Nat) : ReadsBack (.atom name) next := by
  have back : name = String.ofList (c :: others) := by rw [← chars, String.ofList_toList]
  have notStop : c = '.' → others ≠ [] := by
    rintro rfl rfl
    rw [back] at clear
    exact absurd clear (by decide)
  have notBlock : c = '/' → others.head? ≠ some '*' := by
    rintro rfl star
    obtain ⟨rest, rfl⟩ := List.head?_eq_some_iff.mp star
    simp [isMistaken, chars, List.all_eq_true.mpr symbols] at clear
  have lexes : Lexes name.toList Unsymbolic _ := chars ▸ (scans_symbols symbols notStop notBlock).lexes
  obtain ⟨_, cut, token, called, rfl, lexeme⟩ := lexes.exists_tokens_eq (by simp [Unsymbolic])
  rw [ReadsBack, text_of_symbols symbols chars]
  exact ⟨_, next, readTerm_of_name cut (by rw [lexeme, String.ofList_toList]) next, rfl⟩

/-- What is left after blanks and comments is an end of the text. -/
theorem skip_suffix {layout : Layout} {offset : Nat} {chars : List Char} {cursor : Cursor}
    (skipped : Layout.skip layout offset chars = .ok cursor) : cursor.rest <:+ chars := by
  fun_induction Layout.skip layout offset chars <;> grind [List.suffix_cons_iff]

/-- Symbols that are left are one full stop or one name. -/
theorem scan_eq_of_symbols (symbols : ∀ d ∈ c :: others, isSymbol d = true) {called : Bool} {offset : Nat}
    {lexeme : Lexeme} {after : Cursor} (scanned : scan called offset c others = .ok (lexeme, after)) :
    (lexeme = .stop ∨ lexeme = .name (String.ofList (c :: others))) ∧ after.rest = [] := by
  have ends : Unsymbolic [] := by simp [Unsymbolic]
  by_cases stop : c = '.' ∧ others = []
  · obtain ⟨rfl, rfl⟩ := stop
    have dot : scan called offset '.' [] = .ok (.stop, ⟨offset + 1, []⟩) := rfl
    rw [dot] at scanned
    obtain ⟨rfl, rfl⟩ := scanned
    exact ⟨.inl rfl, rfl⟩
  · have whole := scan_symbols symbols (fun dot none => stop ⟨dot, none⟩) ends called offset
    rw [List.append_nil, scanned] at whole
    obtain ⟨rfl, rfl⟩ := whole
    exact ⟨.inr rfl, rfl⟩

/-- A name of symbols that begins with a comment is not read: behind the comment there is room only for a shorter one. -/
theorem not_readsBack_comment {more : List Char} (symbols : ∀ d ∈ '/' :: '*' :: more, isSymbol d = true)
    (chars : name.toList = '/' :: '*' :: more) (next : Nat) : ¬ReadsBack (.atom name) next := by
  rintro ⟨read, next', ended, same⟩
  rw [text_of_symbols symbols chars] at ended
  cases cut : tokens name with
  | error error => simp [readTerm, readWith, cut] at ended
  | ok found =>
    have cuts : Cuts false 0 ('/' :: '*' :: more) found := chars ▸ tokensFrom_eq_ok_iff.mp cut
    cases cuts with
    | done =>
      simp only [readTerm, readWith, cut] at ended
      cases ended
    | @token _ _ start _ c rest lexeme after later skipped scanned cuts =>
      rw [Layout.skip] at skipped
      have suffix := skip_suffix skipped
      have each : ∀ d ∈ c :: rest, isSymbol d = true := fun d member =>
        symbols d (List.mem_cons_of_mem _ (List.mem_cons_of_mem _ (suffix.subset member)))
      obtain ⟨kind, nothing⟩ := scan_eq_of_symbols each scanned
      obtain rfl : later = [] := by
        have none := tokensFrom_eq_ok_iff.mpr cuts
        rw [nothing, tokensFrom_of_end (skip_nil _)] at none
        exact (Except.ok.inj none).symm
      rcases kind with rfl | rfl
      · simp only [readTerm, readWith, cut] at ended
        cases ended
      · rw [readTerm_of_name cut rfl] at ended
        obtain ⟨rfl, rfl⟩ := ended
        have length := suffix.length_le
        have short := congrArg (List.length ∘ String.toList) (Term.atom.inj same)
        simp [chars] at short
        simp at length
        omega

end

/-! ## Atoms and numbers -/

/-- **Atoms are read as they were written** exactly if they are neither taken for empty braces, a full stop nor a
comment. -/
theorem readsBack_atom_iff (name : String) (next : Nat) : ReadsBack (.atom name) next ↔ isMistaken name = false := by
  constructor
  · intro reads
    refine Bool.eq_false_iff.mpr fun mistaken => ?_
    simp only [isMistaken, Bool.or_eq_true, decide_eq_true_eq, Bool.and_eq_true, List.isPrefixOf_iff_prefix,
      List.mem_cons, List.not_mem_nil, or_false, List.all_eq_true] at mistaken
    rcases mistaken with (rfl | rfl) | ⟨symbols, more, chars⟩
    · obtain ⟨read, next', ended, _⟩ := reads
      have cut : tokens (Term.atom "\x7b\x7d").text = .ok [⟨.punct '\x7b', 0, false⟩, ⟨.punct '\x7d', 1, false⟩] := by
        decide +kernel
      simp only [readTerm, readWith, cut] at ended
      cases ended
    · obtain ⟨read, next', ended, _⟩ := reads
      have cut : tokens (Term.atom ".").text = .ok [⟨.stop, 0, false⟩] := by decide +kernel
      simp only [readTerm, readWith, cut] at ended
      cases ended
    · exact not_readsBack_comment (fun d member => symbols d (chars ▸ member)) chars.symm next reads
  · intro clear
    by_cases symbols : name.toList.all isSymbol = true ∧ name ≠ ""
    · cases chars : name.toList with
      | nil => exact absurd (String.toList_eq_nil_iff.mp chars) symbols.2
      | cons c others => exact readsBack_symbols (List.all_eq_true.mp (chars ▸ symbols.1)) chars clear next
    · have plain : PlainName name := by
        refine ⟨?_, fun all => by_contra fun nonempty => symbols ⟨all, nonempty⟩⟩
        rintro rfl
        exact absurd clear (by decide)
      exact (readable_atom plain).readsBack rfl next

/-- **Integers are read as they were written** apart from the smallest one, whose digits do not fit without their
sign. -/
theorem readsBack_int_iff (value : Int64) (next : Nat) : ReadsBack (.int value) next ↔ value ≠ Int64.minValue := by
  constructor
  · rintro ⟨read, next', ended, _⟩ rfl
    have cut : tokens (Term.int Int64.minValue).text = .error ⟨1, .integerRange⟩ := by decide +kernel
    simp only [readTerm, readWith, cut] at ended
    cases ended
  · exact fun notMin => (readable_int notMin).readsBack rfl next

end HornLoops
