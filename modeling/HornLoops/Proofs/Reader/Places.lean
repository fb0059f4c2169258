import HornLoops.Proofs.Reader.Variables

/-!
# Places in a text

A place in a text is given by a byte, and the text is looked at from that byte on. That is possible only between two
characters or at an end of the text. Wherever the text is cut, the bytes that were counted and the characters that are
left belong together, also where comments and quoted names are left behind two bytes at a time. So nothing changes if
all that is remembered between two looks at the text is the byte, and every error is at a place that exists.
-/

namespace HornLoops

open Text

variable {text rest front : List Char} {offset : Nat}

/-! ## Bytes and characters -/

/-- The characters from a byte on. It is not possible to take them from within a character or behind the end. -/
def slice? : List Char → Nat → Option (List Char)
  | [], offset => if offset = 0 then some [] else none
  | c :: rest, offset =>
    if offset = 0 then some (c :: rest)
    else if c.utf8Size ≤ offset then slice? rest (offset - c.utf8Size) else none

theorem Cursor.bytes_eq (chars : List Char) : Cursor.bytes chars = (chars.map Char.utf8Size).sum := by
  rw [Cursor.bytes, List.sum_eq_foldl, List.foldl_map]

theorem slice?_eq_some_iff :
    slice? text offset = some rest ↔ ∃ before, text = before ++ rest ∧ offset = Cursor.bytes before := by
  constructor
  · intro sliced
    fun_induction slice? text offset with
    | case1 => exact ⟨[], by simp_all [Cursor.bytes]⟩
    | case2 => cases sliced
    | case3 c chars => exact ⟨[], by simp_all [Cursor.bytes]⟩
    | case4 c chars offset inside le ih =>
      obtain ⟨before, rfl, same⟩ := ih sliced
      exact ⟨c :: before, rfl, by simp only [Cursor.bytes_eq, List.map_cons, List.sum_cons] at same ⊢; omega⟩
    | case5 => cases sliced
  · rintro ⟨before, rfl, rfl⟩
    induction before with
    | nil => cases rest <;> rfl
    | cons c before ih =>
      have positive := c.utf8Size_pos
      simp only [Cursor.bytes_eq, List.map_cons, List.sum_cons] at ih ⊢
      rw [List.cons_append, slice?, if_neg (by omega), if_pos (by omega), Nat.add_sub_cancel_left, ih]

/-- Characters and their bytes are left behind together. -/
theorem slice?_append (sliced : slice? text offset = some (front ++ rest)) :
    slice? text (offset + Cursor.bytes front) = some rest := by
  obtain ⟨before, rfl, rfl⟩ := slice?_eq_some_iff.mp sliced
  exact slice?_eq_some_iff.mpr ⟨before ++ front, by simp, by simp [Cursor.bytes_eq]⟩

theorem slice?_cons {c : Char} (sliced : slice? text offset = some (c :: rest)) :
    slice? text (offset + c.utf8Size) = some rest := by
  rw [← List.singleton_append] at sliced
  simpa [Cursor.bytes] using slice?_append sliced

/-- Two characters of one byte each are left behind at once. -/
theorem slice?_two {c d : Char} (sliced : slice? text offset = some (c :: d :: rest)) (sizes : c.utf8Size + d.utf8Size = 2) :
    slice? text (offset + 2) = some rest := by
  have next := slice?_cons (slice?_cons sliced)
  rwa [Nat.add_assoc, sizes] at next

/-- The text can be looked at wherever the reader comes to stand: at the place of an error, or from a place on. -/
def Located (text : List Char) : Except SyntaxError Cursor → Prop
  | .ok cursor => slice? text cursor.offset = some cursor.rest
  | .error error => (slice? text error.offset).isSome

/-! ## Cutting with bytes only -/

/-- Skips blanks and comments like `Layout.skip`, but looks at the text anew after each step. -/
def Layout.skipAt (text : List Char) : Nat → Layout → Nat → Option (Except SyntaxError Nat)
  | 0, _, _ => none
  | fuel + 1, layout, offset => do
    match layout, ← slice? text offset with
    | .block opened, [] => return .error ⟨opened, .openComment⟩
    | _, [] => return .ok offset
    | .block _, '*' :: '/' :: _ => skipAt text fuel .blank (offset + 2)
    | .block opened, c :: _ => skipAt text fuel (.block opened) (offset + c.utf8Size)
    | .line, c :: _ => skipAt text fuel (if c = '\n' then .blank else .line) (offset + c.utf8Size)
    | .blank, '/' :: '*' :: _ => skipAt text fuel (.block offset) (offset + 2)
    | .blank, c :: _ =>
      if isBlank c then skipAt text fuel .blank (offset + c.utf8Size)
      else if c = '%' then skipAt text fuel .line (offset + 1)
      else return .ok offset

/-- The place at which a comment was opened exists. -/
def Layout.Located (text : List Char) : Layout → Prop
  | .block opened => (slice? text opened).isSome
  | _ => True

theorem skipAt_eq (layout : Layout) (opened : layout.Located text) {chars : List Char}
    (sliced : slice? text offset = some chars) {fuel : Nat} (enough : chars.length < fuel) :
    Layout.skipAt text fuel layout offset = some ((Layout.skip layout offset chars).map Cursor.offset) ∧
      Located text (Layout.skip layout offset chars) := by
  have sizes : '*'.utf8Size = 1 ∧ '/'.utf8Size = 1 ∧ '%'.utf8Size = 1 := by decide
  fun_induction Layout.skip layout offset chars generalizing fuel
  all_goals
    obtain ⟨fuel, rfl⟩ : ∃ rest, fuel = rest + 1 := ⟨fuel - 1, by omega⟩
    grind [Layout.skipAt, slice?_cons, slice?_two, Layout.Located, Located, Except.map]

theorem located_quotedBody {opened : Nat} {chars : List Char} (sliced : slice? text offset = some chars)
    (begun : (slice? text opened).isSome) : Located text ((quotedBody opened offset chars).map Prod.snd) := by
  have longer {result : Except SyntaxError (List Char × Cursor)} {change : List Char × Cursor → List Char × Cursor}
      (located : Located text (result.map Prod.snd)) (keeps : ∀ read, (change read).2 = read.2) :
      Located text ((result.map change).map Prod.snd) := by
    cases result with
    | error => exact located
    | ok read => simpa only [Except.map, keeps] using located
  fun_induction quotedBody opened offset chars with
  | case1 => exact begun
  | case2 _ _ ih => exact longer (ih (slice?_cons (slice?_cons sliced))) fun _ => rfl
  | case3 => exact slice?_cons sliced
  | case4 => exact Option.isSome_of_mem (slice?_cons sliced)
  | case5 offset c rest meant known ih =>
    -- only characters of one byte can be escaped
    obtain ⟨earlier, later, same, -⟩ := List.lookup_eq_some_iff.mp known
    have size : ∀ entry ∈ earlier ++ (c, meant) :: later, entry.1.utf8Size = 1 := same ▸ by decide
    refine longer (ih (slice?_two sliced ?_)) fun _ => rfl
    rw [size (c, meant) (by simp)]
    rfl
  | case6 => exact Option.isSome_of_mem (slice?_cons (slice?_cons sliced))
  | case7 _ _ _ _ _ _ _ ih => exact longer (ih (slice?_cons sliced)) fun _ => rfl

theorem located_skipWhile (sliced : slice? text offset = some rest) (keep : Char → Bool) :
    Located text (.ok (Cursor.skipWhile ⟨offset, rest⟩ keep)) := by
  have split : rest.takeWhile keep ++ rest.dropWhile keep = rest := List.takeWhile_append_dropWhile
  rw [← split] at sliced
  exact slice?_append sliced

/-- A token ends where the text can be looked at again. -/
theorem located_scan {c : Char} (sliced : slice? text offset = some (c :: rest)) (called : Bool) :
    Located text ((scan called offset c rest).map Prod.snd) := by
  have after := slice?_cons sliced
  have here : (slice? text offset).isSome := by simp [sliced]
  have run := located_skipWhile after
  unfold scan
  dsimp only
  split
  · split
    · exact run _
    · exact here
  split
  · exact run _
  split
  · exact run _
  split
  · rename_i quote
    subst quote
    have body : Located text ((quotedBody offset (offset + 1) rest).map Prod.snd) := located_quotedBody after here
    revert body
    cases quotedBody offset (offset + 1) rest <;> exact id
  split
  · exact after
  split
  · exact after
  split
  · exact after
  split
  · exact after
  split
  · exact run _
  · exact here

/-- Cuts a text into tokens like `tokensFrom`, but remembers only the byte at which a token begins or ends. -/
def tokensAt (text : List Char) : Nat → Bool → Nat → Option (Except SyntaxError (List Token))
  | 0, _, _ => none
  | fuel + 1, named, offset => do
    match ← Layout.skipAt text (fuel + 1) .blank offset with
    | .error error => return .error error
    | .ok start =>
      match ← slice? text start with
      | [] => return .ok []
      | c :: rest =>
        let spaced : Bool := offset < start
        match scan (named && !spaced) start c rest with
        | .error error => return .error error
        | .ok (lexeme, after) =>
          return (← tokensAt text fuel lexeme.isName after.offset).map (⟨lexeme, start, spaced⟩ :: ·)

/-- All places of tokens, or the place of an error. -/
def Places (text : List Char) : Except SyntaxError (List Token) → Prop
  | .ok cut => ∀ token ∈ cut, (slice? text token.offset).isSome
  | .error error => (slice? text error.offset).isSome

/-- Nothing changes if only bytes are remembered. -/
theorem tokensAt_eq {chars : List Char} (sliced : slice? text offset = some chars) {fuel : Nat}
    (enough : chars.length < fuel) (named : Bool) :
    tokensAt text fuel named offset = some (tokensFrom named offset chars) ∧
      Places text (tokensFrom named offset chars) := by
  obtain ⟨fuel, rfl⟩ : ∃ rest, fuel = rest + 1 := ⟨fuel - 1, by omega⟩
  obtain ⟨skips, located⟩ := skipAt_eq .blank trivial sliced enough
  fun_induction tokensFrom named offset chars generalizing fuel with
  | case1 named offset chars error skipped =>
    rw [skipped] at skips located
    simp only [tokensAt, skips]
    exact ⟨rfl, located⟩
  | case2 named offset chars start skipped =>
    rw [skipped] at skips located
    simp only [Located] at located
    simp [tokensAt, skips, Except.map, located, Places]
  | case3 named offset chars start c rest skipped spaced error scanned =>
    rw [skipped] at skips located
    have ends := located_scan located (named && !spaced)
    rw [scanned] at ends
    simp only [Located] at located
    exact ⟨by simp [tokensAt, skips, Except.map, located, spaced, scanned], ends⟩
  | case4 named offset chars start c rest skipped spaced lexeme after scanned shorter ih =>
    rw [skipped] at skips located
    have ends := located_scan located (named && !spaced)
    rw [scanned] at ends
    simp only [Located] at located
    obtain ⟨fuel, rfl⟩ : ∃ rest, fuel = rest + 1 := ⟨fuel - 1, by omega⟩
    have less : after.rest.length < fuel + 1 := by omega
    obtain ⟨skips', located'⟩ := skipAt_eq .blank trivial ends less
    obtain ⟨later, places⟩ := ih ends fuel less skips' located'
    constructor
    · rw [tokensAt, skips]
      simp [Except.map, located, spaced, scanned, later]
    · cases others : tokensFrom lexeme.isName after.offset after.rest with
      | error error => rwa [others] at places
      | ok cut =>
        rw [others] at places
        exact List.forall_mem_cons.mpr ⟨by simp [located], places⟩

/-! ## Errors -/

/-- A byte is between two characters of a text, or at one of its ends. -/
def Boundary (text : String) (offset : Nat) : Prop :=
  ∃ before after : String, text = before ++ after ∧ offset = before.utf8ByteSize

theorem Cursor.sum_eq_utf8ByteSize (chars : List Char) :
    (chars.map Char.utf8Size).sum = (String.ofList chars).utf8ByteSize := by
  induction chars with
  | nil => rfl
  | cons c chars ih => simp [String.ofList_cons, ih]

theorem boundary_of_slice? {text : String} (sliced : (slice? text.toList offset).isSome) : Boundary text offset := by
  obtain ⟨rest, sliced⟩ := Option.isSome_iff_exists.mp sliced
  obtain ⟨before, whole, rfl⟩ := slice?_eq_some_iff.mp sliced
  refine ⟨.ofList before, .ofList rest, ?_, ?_⟩
  · rw [← String.ofList_append, ← whole, String.ofList_toList]
  · rw [Cursor.bytes_eq, Cursor.sum_eq_utf8ByteSize]

theorem tokensAt_tokens (text : String) :
    tokensAt text.toList (text.length + 1) false 0 = some (tokens text) ∧ Places text.toList (tokens text) :=
  tokensAt_eq (slice?_eq_some_iff.mpr ⟨[], rfl, rfl⟩) (Nat.lt_succ_self _) false

theorem readWith_boundary {α : Type} {reader : Nat → Reader α} {holds : Nat → α → Prop}
    (reads : ∀ bound, Reader.Reads 0 holds (reader bound)) {text : String} {next next' : Nat} {error : SyntaxError}
    (failed : readWith text reader next = .error error next') : Boundary text error.offset := by
  obtain ⟨lexed, places⟩ := tokensAt_tokens text
  have read := readWith_holds reads text next
  rw [failed] at read
  rcases read with failed | ⟨cut, ended, member⟩
  · rw [failed] at places
    exact boundary_of_slice? places
  · rw [ended] at places
    rcases List.mem_cons.mp member with offset | member
    · exact ⟨text, "", by simp, offset⟩
    · obtain ⟨token, member, offset⟩ := List.mem_map.mp member
      exact boundary_of_slice? (offset ▸ places token member)

/-- Reading a term or a program comes to an end with success or with an error that is between two characters or at an end
of the text, whatever the text. On the way the text is never looked at from within a character: it is cut as it is if
nothing but the byte of each place is remembered and the text is taken from there on anew. -/
theorem reading_errors_boundary (text : String) (next : Nat) :
    (∀ error next', readTerm text next = .error error next' → Boundary text error.offset) ∧
      (∀ error next', readProgram text next = .error error next' → Boundary text error.offset) ∧
      tokensAt text.toList (text.length + 1) false 0 = some (tokens text) :=
  ⟨fun _ _ failed => readWith_boundary (Reader.reads_single 0) failed,
    fun _ _ failed => readWith_boundary (fun bound => Reader.reads_clauses 0 bound bound) failed, (tokensAt_tokens text).1⟩

/-- The error in a quoted name is after a comment and characters of two and three bytes. -/
theorem reading_errors_boundary_escape :
    let text := "/*→*/ f('é\\ü')"
    readTerm text 0 = .error ⟨16, .badEscape⟩ 0 ∧ Boundary text 16 := by
  have failed : readTerm "/*→*/ f('é\\ü')" 0 = .error ⟨16, .badEscape⟩ 0 := by cbv
  exact ⟨failed, (reading_errors_boundary _ 0).1 _ 0 failed⟩

end HornLoops
