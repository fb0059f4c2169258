import HornLoops.Proofs.Bindings.Levels
import HornLoops.Proofs.Bindings.Solutions

/-!
# Exact arithmetic

The value of a constant expression is the one it has over the integers. There is a value exactly where all parts of the
expression have integers that fit in a word, no divisor is zero, and no remainder is asked for where the quotient does
not fit. Under a store without circles an expression has a value exactly if what is left of it when its variables are
replaced is constant, although evaluation replaces nothing: it follows each chain of variables when it comes to it.
-/

namespace HornLoops

namespace Arithmetic

/-! ## Operations -/

/-- The names of the operations on one integer. -/
def unaryNames : List String := ["-", "+", "abs", "sign"]

/-- The names of the operations on two integers. -/
def binaryNames : List String := ["+", "-", "*", "//", "rem", "mod", "min", "max"]

/-- The names of the operations that divide. -/
def divisionNames : List String := ["//", "rem", "mod"]

/-- The operations on one integer, over all integers. -/
def exactUnary (name : String) (x : Int) : Int :=
  match name with
  | "-" => -x
  | "+" => x
  | "abs" => x.natAbs
  | "sign" => x.sign
  | _ => 0

/-- The operations on two integers, over all integers: `//` rounds toward zero, `rem` is what it leaves and has the sign
of the dividend, and `mod` has the sign of the divisor. -/
def exactBinary (name : String) (x y : Int) : Int :=
  match name with
  | "+" => x + y
  | "-" => x - y
  | "*" => x * y
  | "//" => x.tdiv y
  | "rem" => x.tmod y
  | "mod" => x.fmod y
  | "min" => min x y
  | "max" => max x y
  | _ => 0

variable {word x y : Int64} {name : String}

theorem narrow_eq_ok_iff {exact : Int} : narrow exact = .ok word ↔ word.toInt = exact := by
  rw [← word?_eq_some_iff, narrow]
  cases word? exact <;> simp

theorem fits_of_toInt_eq {exact : Int} (same : word.toInt = exact) : Fits exact :=
  same ▸ fits_toInt word

/-- An operation on one integer gives the exact result. -/
theorem unary_eq_ok_iff : unary name x = .ok word ↔ name ∈ unaryNames ∧ word.toInt = exactUnary name x.toInt := by
  unfold unary exactUnary
  split
  case h_2 => simp [unaryNames, Int64.toInt_inj, eq_comm]
  case h_5 => simp_all [unaryNames]
  all_goals simp [unaryNames, narrow_eq_ok_iff]

/-- The quotient of two words fits, except that of the least word by minus one. -/
theorem fits_tdiv_iff {x y : Int} (fits : Fits x) (nonzero : y ≠ 0) :
    Fits (x.tdiv y) ↔ ¬ (x = -9223372036854775808 ∧ y = -1) := by
  constructor
  · rintro fits' ⟨rfl, rfl⟩
    exact absurd fits' (by decide)
  · intro other
    unfold Fits at fits ⊢
    by_cases unit : y.natAbs = 1
    · obtain rfl | rfl : y = 1 ∨ y = -1 := by omega
      · rwa [Int.tdiv_one]
      · rw [Int.tdiv_neg, Int.tdiv_one]
        omega
    · have size : (x.tdiv y).natAbs = x.natAbs / y.natAbs := Int.natAbs_tdiv x y
      have halved : x.natAbs / y.natAbs ≤ x.natAbs / 2 := Nat.div_le_div_left (by omega) (by decide)
      omega

/-- A quotient is exact. -/
theorem quotient_eq_ok_iff : quotient x y = .ok word ↔ y.toInt ≠ 0 ∧ word.toInt = x.toInt.tdiv y.toInt := by
  have zero : y = 0 ↔ y.toInt = 0 := by rw [← Int64.toInt_inj, Int64.toInt_zero]
  by_cases divisor : y.toInt = 0
  · simp [quotient, zero, divisor]
  · simp [quotient, zero, divisor, narrow_eq_ok_iff]

/-- A remainder is exact, and there is one where the quotient fits. -/
theorem remainder_eq_ok_iff :
    remainder x y = .ok word ↔ y.toInt ≠ 0 ∧ ¬ (x.toInt = -9223372036854775808 ∧ y.toInt = -1) ∧
      word.toInt = x.toInt.tmod y.toInt := by
  have divided : remainder x y = .ok word ↔ (∃ value, quotient x y = .ok value) ∧ word.toInt = x.toInt.tmod y.toInt := by
    rw [remainder]
    cases quotient x y with
    | error error => simp [bind, Except.bind]
    | ok value => simp [bind, Except.bind, narrow_eq_ok_iff]
  rw [divided]
  simp only [quotient_eq_ok_iff, exists_and_left, and_assoc]
  refine and_congr_right fun nonzero => and_congr_left fun _ => ?_
  rw [← fits_tdiv_iff (fits_toInt x) nonzero]
  exact ⟨fun ⟨value, same⟩ => fits_of_toInt_eq same, exists_word⟩

/-- A modulus is exact. -/
theorem modulus_eq_ok_iff : modulus x y = .ok word ↔ y.toInt ≠ 0 ∧ word.toInt = x.toInt.fmod y.toInt := by
  have zero : y = 0 ↔ y.toInt = 0 := by rw [← Int64.toInt_inj, Int64.toInt_zero]
  by_cases divisor : y.toInt = 0
  · simp [modulus, zero, divisor]
  · simp [modulus, zero, divisor, narrow_eq_ok_iff]

/-- An operation on two integers gives the exact result. -/
theorem binary_eq_ok_iff :
    binary name x y = .ok word ↔ name ∈ binaryNames ∧ (name ∈ divisionNames → y.toInt ≠ 0) ∧
      (name = "rem" → ¬ (x.toInt = -9223372036854775808 ∧ y.toInt = -1)) ∧
      word.toInt = exactBinary name x.toInt y.toInt := by
  unfold binary exactBinary
  split
  case h_4 => simp [binaryNames, divisionNames, quotient_eq_ok_iff]
  case h_5 => simp [binaryNames, divisionNames, remainder_eq_ok_iff]
  case h_6 => simp [binaryNames, divisionNames, modulus_eq_ok_iff]
  case h_9 => simp_all [binaryNames]
  all_goals simp [binaryNames, divisionNames, narrow_eq_ok_iff]

/-! ## Expressions -/

/-- The terms that are built from integers by operations. -/
inductive Expression : Term → Prop
  | int (value : Int64) : Expression (.int value)
  | unary {name : String} {x : Term} (known : name ∈ unaryNames) (operand : Expression x) :
      Expression (.compound name x [])
  | binary {name : String} {x y : Term} (known : name ∈ binaryNames) (left : Expression x) (right : Expression y) :
      Expression (.compound name x [y])

/-- The value of an expression over all integers. -/
def exact : Term → Int
  | .int value => value.toInt
  | .compound name x [] => exactUnary name (exact x)
  | .compound name x [y] => exactBinary name (exact x) (exact y)
  | _ => 0

end Arithmetic

/-- The terms that a term is made of, itself included. -/
inductive Term.PartOf : Term → Term → Prop
  | refl (term : Term) : PartOf term term
  | first {part first : Term} {name : String} {rest : List Term} (inside : PartOf part first) :
      PartOf part (.compound name first rest)
  | rest {part first arg : Term} {name : String} {rest : List Term} (member : arg ∈ rest) (inside : PartOf part arg) :
      PartOf part (.compound name first rest)

/-- What holds of all parts of a compound holds of it and of all parts of its arguments. -/
theorem Term.forall_partOf_compound {holds : Term → Prop} {name : String} {first : Term} {rest : List Term} :
    (∀ part, PartOf part (.compound name first rest) → holds part) ↔
      holds (.compound name first rest) ∧ (∀ part, PartOf part first → holds part) ∧
        ∀ arg ∈ rest, ∀ part, PartOf part arg → holds part := by
  constructor
  · intro all
    exact ⟨all _ (.refl _), fun part inside => all part (.first inside),
      fun arg member part inside => all part (.rest member inside)⟩
  · rintro ⟨whole, firsts, rests⟩ part inside
    cases inside with
    | refl => exact whole
    | first inside => exact firsts part inside
    | rest member inside => exact rests _ member part inside

namespace Arithmetic

/-- What an expression and all its parts have to be like for there to be a value. -/
structure Regular (part : Term) : Prop where
  /-- The exact value fits in a word. -/
  fits : Fits (exact part)
  /-- A divisor is not zero. -/
  divisor : ∀ name x y, part = .compound name x [y] → name ∈ divisionNames → exact y ≠ 0
  /-- A remainder is not that of the least word by minus one. -/
  quotient : ∀ x y, part = .compound "rem" x [y] → ¬ (exact x = -9223372036854775808 ∧ exact y = -1)

section

variable {value : Nat → Value} {name : String} {x y : Term} {word : Int64}

theorem evalWith_unary_eq_ok_iff :
    evalWith value (.compound name x []) = .ok word ↔
      ∃ operand, evalWith value x = .ok operand ∧ unary name operand = .ok word := by
  rw [evalWith]
  cases evalWith value x <;> simp [bind, Except.bind]

theorem evalWith_binary_eq_ok_iff :
    evalWith value (.compound name x [y]) = .ok word ↔
      ∃ left right, evalWith value x = .ok left ∧ evalWith value y = .ok right ∧ binary name left right = .ok word := by
  rw [evalWith]
  cases evalWith value x <;> cases evalWith value y <;> simp [bind, Except.bind]

end

/-- A unary operation is regular if its result fits. -/
theorem regular_unary_iff {name : String} {x : Term} :
    Regular (.compound name x []) ↔ Fits (exactUnary name (exact x)) := by
  refine ⟨fun regular => regular.fits, fun fits => ⟨fits, ?_, ?_⟩⟩
  · intro other left right same
    simp at same
  · intro left right same
    simp at same

/-- A binary operation is regular if its result fits and it can be carried out. -/
theorem regular_binary_iff {name : String} {x y : Term} :
    Regular (.compound name x [y]) ↔ Fits (exactBinary name (exact x) (exact y)) ∧
      (name ∈ divisionNames → exact y ≠ 0) ∧
      (name = "rem" → ¬ (exact x = -9223372036854775808 ∧ exact y = -1)) := by
  constructor
  · intro regular
    refine ⟨regular.fits, regular.divisor name x y rfl, ?_⟩
    rintro rfl
    exact regular.quotient x y rfl
  · rintro ⟨fits, divisor, quotient⟩
    refine ⟨fits, ?_, ?_⟩
    · intro name' x' y' same divides
      obtain ⟨rfl, rfl, rfl⟩ : name = name' ∧ x = x' ∧ y = y' := by simpa using same
      exact divisor divides
    · intro x' y' same
      obtain ⟨rfl, rfl, rfl⟩ : name = "rem" ∧ x = x' ∧ y = y' := by simpa using same
      exact quotient rfl

/-- The value of an expression without variables is exact: there is one exactly if the term is an expression and all its
parts are regular. -/
theorem evalWith_eq_ok_iff (term : Term) (word : Int64) :
    evalWith (fun _ => .error .unbound) term = .ok word ↔
      Expression term ∧ (∀ part, part.PartOf term → Regular part) ∧ word.toInt = exact term := by
  induction term generalizing word with
  | var id =>
    constructor
    · intro impossible
      simp [evalWith] at impossible
    · rintro ⟨⟨⟩, _⟩
  | atom name =>
    constructor
    · intro impossible
      simp [evalWith] at impossible
    · rintro ⟨⟨⟩, _⟩
  | int value =>
    have regular : Regular (.int value) := ⟨fits_toInt value, by simp, by simp⟩
    constructor
    · intro same
      obtain rfl : value = word := by simpa [evalWith] using same
      refine ⟨.int value, ?_, rfl⟩
      rintro part ⟨⟩
      exact regular
    · rintro ⟨_, _, same⟩
      rw [evalWith, Int64.toInt_inj.mp same]
  | compound name first rest ihFirst ihRest =>
    rcases rest with _ | ⟨second, _ | ⟨third, more⟩⟩
    · rw [evalWith_unary_eq_ok_iff, Term.forall_partOf_compound, regular_unary_iff]
      constructor
      · rintro ⟨operand, evaluated, applied⟩
        obtain ⟨expression, regular, same⟩ := (ihFirst operand).mp evaluated
        obtain ⟨known, result⟩ := unary_eq_ok_iff.mp applied
        rw [same] at result
        exact ⟨.unary known expression, ⟨fits_of_toInt_eq result, regular, by simp⟩, result⟩
      · rintro ⟨expression, ⟨_, regular, _⟩, result⟩
        cases expression with
        | unary known expression =>
          obtain ⟨operand, same⟩ := exists_word (regular first (.refl first)).fits
          refine ⟨operand, (ihFirst operand).mpr ⟨expression, regular, same⟩, unary_eq_ok_iff.mpr ⟨known, ?_⟩⟩
          rw [result, same, exact]
    · rw [evalWith_binary_eq_ok_iff, Term.forall_partOf_compound, regular_binary_iff]
      constructor
      · rintro ⟨left, right, evaluated, evaluated', applied⟩
        obtain ⟨expression, regular, same⟩ := (ihFirst left).mp evaluated
        obtain ⟨expression', regular', same'⟩ := (ihRest second (by simp) right).mp evaluated'
        obtain ⟨known, divisor, quotient, result⟩ := binary_eq_ok_iff.mp applied
        rw [same, same'] at result quotient
        rw [same'] at divisor
        exact ⟨.binary known expression expression',
          ⟨⟨fits_of_toInt_eq result, divisor, quotient⟩, regular, by simpa using regular'⟩, result⟩
      · rintro ⟨expression, ⟨⟨_, divisor, quotient⟩, regular, regular'⟩, result⟩
        cases expression with
        | binary known expression expression' =>
          have regular' := regular' second (by simp)
          obtain ⟨left, same⟩ := exists_word (regular first (.refl first)).fits
          obtain ⟨right, same'⟩ := exists_word (regular' second (.refl second)).fits
          refine ⟨left, right, (ihFirst left).mpr ⟨expression, regular, same⟩,
            (ihRest second (by simp) right).mpr ⟨expression', regular', same'⟩, binary_eq_ok_iff.mpr ?_⟩
          rw [same, same']
          exact ⟨known, divisor, quotient, result⟩
    · constructor
      · intro impossible
        simp [evalWith] at impossible
      · rintro ⟨⟨⟩, _⟩

end Arithmetic

theorem Term.constant?_eq_some {term : Term} {word : Int64} :
    term.constant? = some word ↔ Arithmetic.evalWith (fun _ => .error .unbound) term = .ok word := by
  rw [constant?]
  cases Arithmetic.evalWith (fun _ => .error .unbound) term <;> simp [Except.toOption]

/-- A constant expression has its value in any case. -/
theorem Term.evalWith_of_constant? {expression : Term} {word : Int64} (constant : expression.constant? = some word)
    (value : Nat → Arithmetic.Value) : Arithmetic.evalWith value expression = .ok word := by
  have evaluated := Term.constant?_eq_some.mp constant
  rw [Arithmetic.evalWith_eq_of_ne (fun _ unknown => absurd rfl unknown) (by simp [evaluated]), evaluated]

namespace Arithmetic

/-- The value of a term that stands at the end of its chain of variables, where arguments are evaluated as told. -/
def evalHead (eval : Term → Value) : Term → Value
  | .int value => .ok value
  | .var _ => .error .unbound
  | .atom name => .error (.notEvaluable name 0)
  | .compound name x [] => do unary name (← eval x)
  | .compound name x [y] => do
    let left ← eval x
    let right ← eval y
    binary name left right
  | .compound name _ (_ :: _ :: rest) => .error (.notEvaluable name (rest.length + 3))

end Arithmetic

namespace Bindings

variable (bindings : Bindings)

/-- A bound variable has the value of the term it is bound to. -/
theorem eval_var {id : Nat} {value : Term} (bound : bindings.lookup? id = some value) :
    bindings.eval (.var id) = bindings.eval value := by
  rw [← evalWithin_eq_eval (Nat.le_succ bindings.size), evalWithin, Arithmetic.evalWith, bound, eval]

/-- Following a chain of variables does not change the value of an expression. -/
theorem eval_follow (steps : Nat) (term : Term) : bindings.eval (bindings.follow steps term) = bindings.eval term := by
  fun_induction follow bindings steps term with
  | case1 steps id value bound ih => rw [ih, bindings.eval_var bound]
  | case2 => rfl
  | case3 => rfl

/-- A chain of variables that is not left has no value. -/
theorem evalWithin_of_follow {steps id : Nat} {term : Term} (within : bindings.follow steps term = .var id) :
    bindings.evalWithin steps term = .error .unbound := by
  fun_induction follow bindings steps term with
  | case1 steps id value bound ih => simp only [evalWithin, Arithmetic.evalWith, bound, ih within]
  | case2 steps id unbound => simp only [evalWithin, Arithmetic.evalWith, unbound]
  | case3 steps term stays =>
    subst within
    cases steps with
    | zero => rfl
    | succ steps => exact (stays steps id rfl rfl).elim

/-- Expressions are evaluated along the store: a term is followed to the end of its chain of variables, and only then
are its arguments evaluated. -/
theorem eval_eq_evalHead (term : Term) : bindings.eval term = Arithmetic.evalHead bindings.eval (bindings.walk term) := by
  have followed : bindings.eval (bindings.walk term) = bindings.eval term := bindings.eval_follow bindings.size term
  cases last : bindings.walk term with
  | var id => exact bindings.evalWithin_of_follow last
  | int value => rw [← followed, last, eval_eq, resolve_int]; rfl
  | atom name => rw [← followed, last, eval_eq, resolve_atom]; rfl
  | compound name first rest =>
    rw [← followed, last, eval_eq, resolve_compound]
    match rest with
    | [] => simp only [Arithmetic.evalHead, List.map_nil, Arithmetic.evalWith, eval_eq]
    | [second] => simp only [Arithmetic.evalHead, List.map_cons, List.map_nil, Arithmetic.evalWith, eval_eq]
    | second :: third :: rest => simp [Arithmetic.evalHead, Arithmetic.evalWith]

/-- Evaluation under a store and constants agree. Evaluation goes from term to term along the store, one chain of
variables at a time; it comes to a word exactly if what is left when all variables are replaced is a constant of that
value. A constant has its value under every store. This holds of stores with circles too, where a chain that does not
end counts as unbound. -/
theorem eval_iff_constant?_resolve (term : Term) :
    bindings.eval term = Arithmetic.evalHead bindings.eval (bindings.walk term) ∧
      (∀ word, bindings.eval term = .ok word ↔ (bindings.resolve term).constant? = some word) ∧
      ∀ word, term.constant? = some word → ∀ store : Bindings, store.eval term = .ok word := by
  refine ⟨bindings.eval_eq_evalHead term, fun word => ?_, fun word constant store => ?_⟩
  · rw [eval_eq, Term.constant?_eq_some]
  · rw [eval, evalWithin_eq_found]
    exact Term.evalWith_of_constant? constant _

/-- The product of two variables, one of them bound to a sum through another, and a constant under the same store. -/
theorem eval_iff_constant?_resolve_chain :
    let store : Bindings :=
      ⟨#[some (.var 1), some (.binary "+" (.var 2) (.int 1)), some (.int 5)], #[2, 1, 0]⟩
    store.eval (.binary "*" (.var 0) (.var 2)) = .ok 30 ∧ store.eval (.binary "mod" (.int (-7)) (.int 2)) = .ok 1 :=
  ⟨((eval_iff_constant?_resolve _ _).2.1 30).mpr (by decide +kernel),
    (eval_iff_constant?_resolve .empty _).2.2 1 (by decide +kernel) _⟩

end Bindings

end HornLoops
