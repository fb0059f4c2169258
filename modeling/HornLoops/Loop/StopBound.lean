import HornLoops.Word

/-!
# Where a counting loop stops

A loop that counts from a first value in steps ends when its index equals a fixed stop value, the first one
past the last value. The stop value is computed ahead of the loop. All differences on the way to it have to
fit in a word.
-/

namespace HornLoops

/-- Why there is no stop value. -/
inductive BoundError where
  /-- The step is zero. -/
  | zeroStep
  /-- A number on the way to the stop value does not fit in a word. -/
  | overflow
deriving DecidableEq, Repr

/-- An integer that has to fit in a word. -/
def bounded (exact : Int) : Except BoundError Int :=
  if Fits exact then .ok exact else .error .overflow

/-- The largest multiple of a step up to a distance, or zero if the distance is negative. -/
def wholeSteps (distance step : Int) : Int :=
  let distance := max 0 distance
  distance - distance % step

/-- The stop value for exact integers. -/
def stopValue (first last step : Int) : Except BoundError Int :=
  if step = 0 then .error .zeroStep
  else if step = 1 then do return max first (← bounded (last + 1))
  else if step = -1 then do return min first (← bounded (last - 1))
  else if 1 < step then do
    let distance ← bounded (last - first)
    let distance ← bounded (distance + step)
    bounded (first + wholeSteps distance step)
  else do
    let step ← bounded (-step)
    let distance ← bounded (first - last)
    let distance ← bounded (distance + step)
    bounded (first - wholeSteps distance step)

/-- The index value at which a loop from `first` to `last` stops. -/
def stopBound (first last step : Int64) : Except BoundError Int64 :=
  (stopValue first.toInt last.toInt step.toInt).map Int64.ofInt

end HornLoops
