import HornLoops.Arithmetic
import HornLoops.Loop.StopBound
import Mathlib

/-!
# Counting up to the stop value

A loop that counts from a first value in steps makes as many iterations as there are indices that have not passed the
last value. Where there is a stop value, it is the index after exactly that many steps, and all indices on the way
fit in a word. There is one if this index and the numbers from which it is computed fit. The latter do not fit for some
loops whose stop value would fit: the ends may be too far apart, even if there are no indices between them.
-/

namespace HornLoops

/-- Whether an index has not passed the last value, in the direction of the step. -/
def Within (last step index : Int) : Prop := if 0 < step then index ≤ last else last ≤ index

/-- The indices that have not passed the last value are the first ones, of which there is a number. -/
def Counts (first last step : Int) (count : Nat) : Prop :=
  ∀ k : Nat, k < count ↔ Within last step (first + k * step)

variable {exact bound last : Int} {step first stop : Int64} {count k : Nat}

theorem bounded_eq_ok : bounded exact = .ok bound ↔ Fits exact ∧ bound = exact := by
  unfold bounded
  split
  · rename_i fits
    simp [fits, eq_comm]
  · rename_i overflows
    simp [overflows]

/-- What is done with an integer that has to fit is done if it fits. -/
theorem bounded_bind_eq_ok {rest : Int → Except BoundError Int} :
    (bounded exact >>= rest) = .ok bound ↔ Fits exact ∧ rest exact = .ok bound := by
  unfold bounded
  split
  · rename_i fits
    simp [fits, Bind.bind, Except.bind]
  · rename_i overflows
    simp [overflows, Bind.bind, Except.bind]

/-- Whole steps up to a distance that lies in the next step are that many steps. -/
theorem wholeSteps_eq {distance step : Int} (positive : 0 < step) (enough : 0 < count → count * step ≤ distance)
    (few : distance < count * step + step) : wholeSteps distance step = count * step := by
  have none_or : count = 0 ∨ 0 < count := Nat.eq_zero_or_pos count
  have reached : 0 ≤ max 0 distance - count * step ∧ max 0 distance - count * step < step := by
    rcases none_or with rfl | some
    · simp only [Nat.cast_zero, Int.zero_mul] at few ⊢
      omega
    · have far := enough some
      have start : 0 ≤ (count : Int) * step := Int.mul_nonneg (Int.natCast_nonneg count) (Int.le_of_lt positive)
      omega
  have remainder : max 0 distance % step = max 0 distance - count * step := by
    have whole : max 0 distance - count * step + step * count = max 0 distance := by
      rw [Int.mul_comm step]
      omega
    exact ((Int.ediv_emod_unique positive).mpr ⟨whole, reached⟩).2
  simp only [wholeSteps, remainder]
  omega

/-- One step before the end. -/
theorem pred_mul (some : 0 < count) (step : Int) : ((count - 1 : Nat) : Int) * step = count * step - step := by
  rw [Int.ofNat_sub some, Int.sub_mul, Int.ofNat_one, Int.one_mul]

/-- Counting up, the index at the end has passed the last value and the one before has not. -/
theorem Counts.upward {first step : Int} (counts : Counts first last step count) (positive : 0 < step) :
    last < first + count * step ∧ (0 < count → first + count * step ≤ last + step) := by
  simp only [Counts, Within, if_pos positive] at counts
  constructor
  · have past : ¬ first + count * step ≤ last := fun inside => Nat.lt_irrefl count ((counts count).mpr inside)
    omega
  · intro some
    have inside := (counts (count - 1)).mp (by omega)
    rw [pred_mul some] at inside
    omega

/-- Counting down, the index at the end has passed the last value and the one before has not. -/
theorem Counts.downward {first step : Int} (counts : Counts first last step count) (negative : step < 0) :
    first + count * step < last ∧ (0 < count → last + step ≤ first + count * step) := by
  simp only [Counts, Within, if_neg (Int.lt_asymm negative)] at counts
  constructor
  · have past : ¬ last ≤ first + count * step := fun inside => Nat.lt_irrefl count ((counts count).mpr inside)
    omega
  · intro some
    have inside := (counts (count - 1)).mp (by omega)
    rw [pred_mul some] at inside
    omega

/-- The distance from the first to the last value in the direction of the step. -/
def distance (first last step : Int) : Int := if 0 < step then last - first else first - last

/-- Whether the numbers on the way to the stop value fit: for steps of one there are none, and for other steps these are
the size of the step and the distance, also with one more step. -/
def Measured (first last step : Int) : Prop :=
  |step| = 1 ∨ Fits |step| ∧ Fits (distance first last step) ∧ Fits (distance first last step + |step|)

section

variable {first last step stop : Int} {count : Nat}

theorem stopValue_one (counts : Counts first last 1 count) (fitsFirst : Fits first) (fitsLast : Fits last) :
    stopValue first last 1 = .ok stop ↔ stop = first + count * 1 ∧ Fits stop := by
  obtain ⟨past, before⟩ := counts.upward (by decide)
  have branch : stopValue first last 1 = (bounded (last + 1) >>= fun edge => pure (max first edge)) := rfl
  rw [branch, bounded_bind_eq_ok]
  simp only [Pure.pure, Except.pure, Except.ok.injEq]
  unfold Fits at *
  rcases Nat.eq_zero_or_pos count with none | some
  · subst none
    omega
  · have near := before some
    omega

theorem stopValue_neg_one (counts : Counts first last (-1) count) (fitsFirst : Fits first) (fitsLast : Fits last) :
    stopValue first last (-1) = .ok stop ↔ stop = first + count * -1 ∧ Fits stop := by
  obtain ⟨past, before⟩ := counts.downward (by decide)
  have branch : stopValue first last (-1) = (bounded (last - 1) >>= fun edge => pure (min first edge)) := rfl
  rw [branch, bounded_bind_eq_ok]
  simp only [Pure.pure, Except.pure, Except.ok.injEq]
  unfold Fits at *
  rcases Nat.eq_zero_or_pos count with none | some
  · subst none
    omega
  · have near := before some
    omega

variable (counts : Counts first last step count)
include counts

theorem stopValue_upward (large : 1 < step) :
    stopValue first last step = .ok stop ↔
      stop = first + count * step ∧ Fits stop ∧ Fits (last - first) ∧ Fits (last - first + step) := by
  have positive : 0 < step := by omega
  obtain ⟨past, before⟩ := counts.upward positive
  have whole : wholeSteps (last - first + step) step = count * step :=
    wholeSteps_eq positive (fun some => by have near := before some; omega) (by omega)
  have others : step ≠ 0 ∧ step ≠ 1 ∧ step ≠ -1 := by omega
  simp only [stopValue, others, large, if_false, if_true, bounded_bind_eq_ok, bounded_eq_ok, whole]
  constructor
  · rintro ⟨fits, fits', fitsStop, rfl⟩
    exact ⟨rfl, fitsStop, fits, fits'⟩
  · rintro ⟨rfl, fitsStop, fits, fits'⟩
    exact ⟨fits, fits', fitsStop, rfl⟩

theorem stopValue_downward (large : step < -1) :
    stopValue first last step = .ok stop ↔
      stop = first + count * step ∧ Fits stop ∧ Fits (-step) ∧ Fits (first - last) ∧ Fits (first - last + -step) := by
  have negative : step < 0 := by omega
  obtain ⟨past, before⟩ := counts.downward negative
  have mirrored : (count : Int) * -step = -(count * step) := Int.mul_neg _ _
  have whole : wholeSteps (first - last + -step) (-step) = -(count * step) := by
    rw [wholeSteps_eq (by omega) (fun some => by have near := before some; omega) (by omega), mirrored]
  have others : step ≠ 0 ∧ step ≠ 1 ∧ step ≠ -1 ∧ ¬ 1 < step := by omega
  simp only [stopValue, others, if_false, bounded_bind_eq_ok, bounded_eq_ok, whole, Int.sub_neg]
  constructor
  · rintro ⟨fitsSize, fits, fits', fitsStop, rfl⟩
    exact ⟨rfl, fitsStop, fitsSize, fits, fits'⟩
  · rintro ⟨rfl, fitsStop, fitsSize, fits, fits'⟩
    exact ⟨fitsSize, fits, fits', fitsStop, rfl⟩

/-- There is a stop value exactly if the index after as many steps as there are indices fits and the numbers on the way
to it fit. -/
theorem stopValue_eq_ok (nonzero : step ≠ 0) (fitsFirst : Fits first) (fitsLast : Fits last) (fitsStep : Fits step) :
    stopValue first last step = .ok stop ↔
      stop = first + count * step ∧ Fits stop ∧ Measured first last step := by
  unfold Measured distance
  rcases Int.lt_or_gt_of_ne nonzero with negative | positive
  · rw [abs_of_neg negative, if_neg (by omega)]
    by_cases one : step = -1
    · subst one
      rw [stopValue_neg_one counts fitsFirst fitsLast]
      simp
    · have other : -step ≠ 1 := by omega
      simp only [stopValue_downward counts (show step < -1 by omega), other, false_or]
  · rw [abs_of_pos positive, if_pos positive]
    by_cases one : step = 1
    · subst one
      rw [stopValue_one counts fitsFirst fitsLast]
      simp
    · simp only [stopValue_upward counts (show 1 < step by omega), one, false_or, fitsStep, true_and]

end

/-- All indices up to the stop value lie between the first one and the stop value, so they fit. -/
theorem fits_index {first step : Int} (fitsFirst : Fits first) (fitsStop : Fits (first + count * step))
    (le : k ≤ count) : Fits (first + k * step) := by
  unfold Fits at *
  rcases Int.le_total 0 step with up | down
  · have lower : 0 ≤ (k : Int) * step := Int.mul_nonneg (Int.natCast_nonneg k) up
    have upper : (k : Int) * step ≤ count * step := Int.mul_le_mul_of_nonneg_right (by omega) up
    omega
  · have upper : (k : Int) * step ≤ 0 := Int.mul_nonpos_of_nonneg_of_nonpos (Int.natCast_nonneg k) down
    have lower : (count : Int) * step ≤ k * step := Int.mul_le_mul_of_nonpos_right (by omega) down
    omega

/-- The index after a number of steps from the first value. -/
def indexAt (first step : Int64) (k : Nat) : Int64 := Int64.ofInt (first.toInt + k * step.toInt)

theorem toInt_indexAt (fits : Fits (first.toInt + k * step.toInt)) :
    (indexAt first step k).toInt = first.toInt + k * step.toInt :=
  Int64.toInt_ofInt_of_le fits.1 (by have := fits.2; omega)

/-- Different numbers of steps give different indices. -/
theorem indexAt_ne (nonzero : step.toInt ≠ 0) (fits : Fits (first.toInt + count * step.toInt)) (inside : k < count) :
    indexAt first step count ≠ indexAt first step k := by
  intro same
  have exact := congrArg Int64.toInt same
  rw [toInt_indexAt fits, toInt_indexAt (fits_index (fits_toInt first) fits (Nat.le_of_lt inside))] at exact
  have equal : (count : Int) * step.toInt = k * step.toInt := by omega
  have := Int.eq_of_mul_eq_mul_right nonzero equal
  omega

/-- The index after one more step. -/
theorem toInt_indexAt_succ (fits : Fits (first.toInt + count * step.toInt)) (inside : k < count) :
    (indexAt first step (k + 1)).toInt = (indexAt first step k).toInt + step.toInt := by
  rw [toInt_indexAt (fits_index (fits_toInt first) fits inside),
    toInt_indexAt (fits_index (fits_toInt first) fits (Nat.le_of_lt inside))]
  rw [Nat.succ_eq_add_one, Int.natCast_add, Int.add_mul, Int.natCast_one, Int.one_mul]
  omega

/-! ## The stop value of a loop -/

/-- Over a step of zero there is no stop value. -/
theorem stopBound_zero (first last : Int64) : stopBound first last 0 = .error .zeroStep := rfl

/-- A loop with a number of indices has a stop value exactly if the index after that many steps fits and the numbers on
the way to it fit; and then the stop value is this index. -/
theorem stopBound_eq_ok {last : Int64} (nonzero : step ≠ 0) (counts : Counts first.toInt last.toInt step.toInt count) :
    stopBound first last step = .ok stop ↔
      stop.toInt = first.toInt + count * step.toInt ∧ Measured first.toInt last.toInt step.toInt := by
  have nonzero' : step.toInt ≠ 0 := fun zero => nonzero (Int64.toInt_inj.mp zero)
  have exact (value : Int) : stopValue first.toInt last.toInt step.toInt = .ok value ↔
      value = first.toInt + count * step.toInt ∧ Fits value ∧ Measured first.toInt last.toInt step.toInt :=
    stopValue_eq_ok counts nonzero' (fits_toInt first) (fits_toInt last) (fits_toInt step)
  unfold stopBound
  constructor
  · intro found
    cases computed : stopValue first.toInt last.toInt step.toInt with
    | error error =>
      rw [computed] at found
      contradiction
    | ok value =>
      rw [computed] at found
      obtain ⟨same, fits, measured⟩ := (exact value).mp computed
      have stop_eq : Int64.ofInt value = stop := Except.ok.inj found
      rw [← stop_eq, Int64.toInt_ofInt_of_le fits.1 (by have := fits.2; omega)]
      exact ⟨same, measured⟩
  · rintro ⟨same, measured⟩
    rw [(exact stop.toInt).mpr ⟨same, fits_toInt stop, measured⟩]
    exact congrArg Except.ok (Int64.ofInt_toInt stop)

/-- Loops that are refused although the index after their last one fits: one without indices whose ends are far apart,
one with four indices that are far apart, and one whose step has no size in a word. -/
theorem stopBound_refused :
    stopBound 9223372036854775807 (-9223372036854775808) 2 = .error .overflow ∧
      Counts 9223372036854775807 (-9223372036854775808) 2 0 ∧
    stopBound (-5000000000000000000) 5000000000000000000 3000000000000000000 = .error .overflow ∧
      Counts (-5000000000000000000) 5000000000000000000 3000000000000000000 4 ∧
    stopBound 9223372036854775807 0 (-9223372036854775808) = .error .overflow ∧
      Counts 9223372036854775807 0 (-9223372036854775808) 1 := by
  refine ⟨by decide, ?_, by decide, ?_, by decide, ?_⟩
  all_goals
    intro k
    simp only [Within, Int.reduceLT, if_true, if_false]
    omega

/-- The stop value is reached after as many steps as there are indices, and not before. -/
theorem stopBound_eq {last : Int64} (found : stopBound first last step = .ok stop)
    (counts : Counts first.toInt last.toInt step.toInt count) :
    step.toInt ≠ 0 ∧ stop = indexAt first step count ∧ Fits (first.toInt + count * step.toInt) := by
  have nonzero : step ≠ 0 := by
    rintro rfl
    rw [stopBound_zero] at found
    contradiction
  obtain ⟨same, -⟩ := (stopBound_eq_ok nonzero counts).mp found
  refine ⟨fun zero => nonzero (Int64.toInt_inj.mp zero), ?_, same ▸ fits_toInt stop⟩
  rw [indexAt, ← same, Int64.ofInt_toInt]

/-- Over a step other than zero there is a number of indices. -/
theorem exists_counts (first last : Int) {step : Int} (nonzero : step ≠ 0) : ∃ count, Counts first last step count := by
  rcases Int.lt_or_gt_of_ne nonzero with negative | positive
  · refine ⟨((first - last) / -step + 1).toNat, fun k => ?_⟩
    have steps : (k : Int) ≤ (first - last) / -step ↔ k * -step ≤ first - last := Int.le_ediv_iff_mul_le (by omega)
    rw [Int.mul_neg] at steps
    rw [Within, if_neg (by omega)]
    omega
  · refine ⟨((last - first) / step + 1).toNat, fun k => ?_⟩
    have steps : (k : Int) ≤ (last - first) / step ↔ k * step ≤ last - first := Int.le_ediv_iff_mul_le positive
    rw [Within, if_pos positive]
    omega

/-- The number of indices is the number of those that have not passed the last value. -/
theorem Counts.encard_eq {first step : Int} (counts : Counts first last step count) :
    {k : Nat | Within last step (first + k * step)}.encard = count := by
  have indices : {k : Nat | Within last step (first + k * step)} = ↑(Finset.range count) := by
    ext k
    rw [Finset.mem_coe, Finset.mem_range]
    exact (counts k).symm
  rw [indices, Set.encard_coe_eq_coe_finsetCard, Finset.card_range]

/-- The index that adding the step a number of times leads to, if no sum on the way overflows. -/
def countOn (first step : Int64) : Nat → Arithmetic.Value
  | 0 => .ok first
  | k + 1 => do Arithmetic.binary "+" (← countOn first step k) step

theorem countOn_eq (fits : Fits (first.toInt + count * step.toInt)) (le : k ≤ count) :
    countOn first step k = .ok (indexAt first step k) := by
  induction k with
  | zero => simp [countOn, indexAt]
  | succ k ih =>
    have sum : word? ((indexAt first step k).toInt + step.toInt) = some (indexAt first step (k + 1)) :=
      (word?_eq_some_iff _ _).mpr (toInt_indexAt_succ fits le)
    rw [countOn, ih (Nat.le_of_succ_le le)]
    simp only [Bind.bind, Except.bind, Arithmetic.binary, Arithmetic.narrow, sum]

/-- The stop value is exact. Where there is one, the step is not zero, and the stop value is the first value and as many
steps as there are indices that have not passed the last value. All indices up to there fit, none before is equal to it,
and so adding the step again and again leads to it after exactly that many sums, none of which overflows. -/
theorem stopBound_exact {first last step stop : Int64} (found : stopBound first last step = .ok stop) :
    step ≠ 0 ∧ ∃ count : Nat,
      {k : Nat | Within last.toInt step.toInt (first.toInt + k * step.toInt)}.encard = count ∧
      stop.toInt = first.toInt + count * step.toInt ∧
      (∀ k ≤ count, Fits (first.toInt + k * step.toInt)) ∧
      (∀ k < count, first.toInt + k * step.toInt ≠ stop.toInt) ∧
      countOn first step count = .ok stop ∧
      ∀ k < count, ∃ index, countOn first step k = .ok index ∧ index ≠ stop := by
  have nonzero : step ≠ 0 := by
    rintro rfl
    rw [stopBound_zero] at found
    contradiction
  obtain ⟨count, counts⟩ := exists_counts first.toInt last.toInt fun zero => nonzero (Int64.toInt_inj.mp zero)
  obtain ⟨nonzero', rfl, fits⟩ := stopBound_eq found counts
  have inside (k : Nat) (le : k ≤ count) : Fits (first.toInt + k * step.toInt) := fits_index (fits_toInt first) fits le
  have apart (k : Nat) (before : k < count) : indexAt first step k ≠ indexAt first step count :=
    (indexAt_ne nonzero' fits before).symm
  refine ⟨nonzero, count, counts.encard_eq, toInt_indexAt fits, inside, fun k before same => ?_,
    countOn_eq fits (Nat.le_refl _), fun k before => ⟨_, countOn_eq fits (Nat.le_of_lt before), apart k before⟩⟩
  rw [← toInt_indexAt (inside k (Nat.le_of_lt before)), Int64.toInt_inj] at same
  exact apart k before same

/-- Close to the largest word there is room for two steps of three. -/
theorem stopBound_exact_near_limit :
    stopBound 9223372036854775800 9223372036854775805 3 = .ok 9223372036854775806 ∧
      {k : Nat | Within 9223372036854775805 3 (9223372036854775800 + k * 3)}.encard = 2 ∧
      countOn 9223372036854775800 3 2 = .ok 9223372036854775806 := by
  have found : stopBound 9223372036854775800 9223372036854775805 3 = .ok 9223372036854775806 := by decide
  obtain ⟨_, count, number, exact, _, _, reached, _⟩ := stopBound_exact found
  have values : (9223372036854775800 : Int64).toInt = 9223372036854775800 ∧ (3 : Int64).toInt = 3 ∧
      (9223372036854775806 : Int64).toInt = 9223372036854775806 := by decide
  rw [values.1, values.2.1, values.2.2] at exact
  have two : count = 2 := by omega
  subst two
  exact ⟨found, number, reached⟩

end HornLoops
