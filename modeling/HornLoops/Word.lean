/-!
# Words of 64 bits

Arithmetic is done on exact integers, and a result becomes a word again only if it fits. The two laws below say
all that is used of this step: a word is obtained exactly for the integer it stands for.
-/

namespace HornLoops

/-- Whether an integer fits in a word. -/
def Fits (exact : Int) : Prop := -9223372036854775808 ≤ exact ∧ exact ≤ 9223372036854775807

instance (exact : Int) : Decidable (Fits exact) :=
  inferInstanceAs (Decidable (_ ∧ _))

/-- The word for an integer, if it fits. -/
def word? (exact : Int) : Option Int64 :=
  if Fits exact then some (Int64.ofInt exact) else none

/-- Every word fits. -/
theorem fits_toInt (word : Int64) : Fits word.toInt := by
  have lower := word.le_toInt
  have upper := word.toInt_lt
  unfold Fits
  omega

/-- A word is obtained exactly for the integer that it stands for. -/
theorem word?_eq_some_iff (exact : Int) (word : Int64) : word? exact = some word ↔ word.toInt = exact := by
  unfold word?
  constructor
  · intro obtained
    split at obtained
    · rename_i fits
      injection obtained with same
      rw [← same]
      exact Int64.toInt_ofInt_of_le fits.1 (by have := fits.2; omega)
    · contradiction
  · intro same
    have fits := fits_toInt word
    rw [same] at fits
    rw [if_pos fits, ← same, Int64.ofInt_toInt]

/-- No word is obtained exactly for the integers that do not fit. -/
theorem word?_eq_none_iff (exact : Int) : word? exact = none ↔ ¬ Fits exact := by
  unfold word?
  split <;> simp_all

theorem exists_word {exact : Int} (fits : Fits exact) : ∃ word : Int64, word.toInt = exact :=
  ⟨Int64.ofInt exact, Int64.toInt_ofInt_of_le fits.1 (by have := fits.2; omega)⟩

/-- A word below another one has a successor. -/
theorem exists_succ {word above : Int64} (less : word.toInt < above.toInt) : ∃ next : Int64, next.toInt = word.toInt + 1 := by
  apply exists_word
  have low := fits_toInt word
  have high := fits_toInt above
  unfold Fits at low high ⊢
  omega

end HornLoops
