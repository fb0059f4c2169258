import HornLoops.Proofs.Bindings.Solutions
import HornLoops.Proofs.Loop.Renaming

/-!
# Stores that mirror each other

Two runs that do the same need not take the same variables: one of them may have taken some that the other one has no
use for. A link says which variables correspond to each other. It keeps their order, since age decides which of two
variables is bound. A store mirrors another one if it has the same cells up to the link, where cells without a
counterpart may hold anything on either side. Whatever is read off a store is then read off the other one up to the
link, and unification does the same in both.
-/

namespace HornLoops

/-! ## Names -/

namespace Term

mutual

/-- The names in a term, of atoms and of compounds. -/
def names : Term → List String
  | .var _ | .int _ => []
  | .atom name => [name]
  | .compound name first rest => name :: (names first ++ namesAll rest)

/-- The names in a sequence of terms. -/
def namesAll : List Term → List String
  | [] => []
  | term :: terms => names term ++ namesAll terms

end

@[simp] theorem namesAll_eq_flatMap (terms : List Term) : namesAll terms = terms.flatMap names := by
  induction terms with
  | nil => rfl
  | cons term terms ih => rw [namesAll, ih, List.flatMap_cons]

@[simp] theorem names_var (id : Nat) : (var id).names = [] := by rw [names]

@[simp] theorem names_int (value : Int64) : (int value).names = [] := by rw [names]

@[simp] theorem names_atom (name : String) : (atom name).names = [name] := by rw [names]

@[simp] theorem names_compound (name : String) (first : Term) (rest : List Term) :
    (compound name first rest).names = name :: (first.names ++ rest.flatMap names) := by
  rw [names, namesAll_eq_flatMap]

variable {term : Term} {name : String}

/-- The names after a substitution are those of the term and of the values. -/
theorem mem_names_subst {replace : Nat → Term} :
    name ∈ (term.subst replace).names ↔
      name ∈ term.names ∨ ∃ id ∈ term.occurrences, name ∈ (replace id).names := by
  induction term with
  | var id => simp
  | int value => simp
  | atom other => simp
  | compound other first rest ihFirst ihRest =>
    simp only [subst_compound, names_compound, List.mem_cons, List.mem_append, List.flatMap_map,
      List.mem_flatMap, ihFirst, occurrences_compound]
    constructor
    · rintro (same | (inside | ⟨id, occurs, inside⟩) | ⟨term, member, inside⟩)
      · exact .inl (.inl same)
      · exact .inl (.inr (.inl inside))
      · exact .inr ⟨id, .inl occurs, inside⟩
      · rcases (ihRest term member).mp inside with inside | ⟨id, occurs, inside⟩
        · exact .inl (.inr (.inr ⟨term, member, inside⟩))
        · exact .inr ⟨id, .inr ⟨term, member, occurs⟩, inside⟩
    · rintro ((same | inside | ⟨term, member, inside⟩) | ⟨id, occurs | ⟨term, member, occurs⟩, inside⟩)
      · exact .inl same
      · exact .inr (.inl (.inl inside))
      · exact .inr (.inr ⟨term, member, (ihRest term member).mpr (.inl inside)⟩)
      · exact .inr (.inl (.inr ⟨id, occurs, inside⟩))
      · exact .inr (.inr ⟨term, member, (ihRest term member).mpr (.inr ⟨id, occurs, inside⟩)⟩)

@[simp] theorem names_rename (number : Nat → Nat) (term : Term) : (term.rename number).names = term.names := by
  induction term with
  | var id => simp
  | int value => simp
  | atom name => simp
  | compound name first rest ihFirst ihRest =>
    rw [rename_compound, names_compound, names_compound, ihFirst, List.flatMap_map]
    congr 2
    exact List.flatMap_congr ihRest

/-- All names in a term have a property. -/
def Named (allowed : String → Prop) (term : Term) : Prop := ∀ name ∈ term.names, allowed name

variable {allowed : String → Prop}

@[simp] theorem named_var (id : Nat) : (var id).Named allowed := by simp [Named]

@[simp] theorem named_int (value : Int64) : (int value).Named allowed := by simp [Named]

@[simp] theorem named_atom : (atom name).Named allowed ↔ allowed name := by simp [Named]

@[simp] theorem named_compound {first : Term} {rest : List Term} :
    (compound name first rest).Named allowed ↔
      allowed name ∧ first.Named allowed ∧ ∀ term ∈ rest, term.Named allowed := by
  simp only [Named, names_compound, List.mem_cons, List.mem_append, List.mem_flatMap, or_imp, forall_and, forall_eq,
    forall_exists_index, and_imp]
  exact and_congr_right fun _ => and_congr_right fun _ =>
    ⟨fun all term member name inside => all name term member inside,
      fun all name term member inside => all term member name inside⟩

theorem named_unary : (unary name term).Named allowed ↔ allowed name ∧ term.Named allowed := by
  simp [unary]

theorem named_binary {left right : Term} :
    (binary name left right).Named allowed ↔ allowed name ∧ left.Named allowed ∧ right.Named allowed := by
  simp [binary]

theorem named_build {args : List Term} :
    (build name args).Named allowed ↔ allowed name ∧ ∀ term ∈ args, term.Named allowed := by
  cases args <;> simp [build]

@[simp] theorem named_rename {number : Nat → Nat} : (term.rename number).Named allowed ↔ term.Named allowed := by
  simp [Named]

end Term

/-! ## Links -/

/-- Which variables of one run correspond to which variables of another one, and which names terms of the runs may
mention. -/
structure Link where
  /-- The names that terms may mention. -/
  allowed : String → Prop
  /-- The variables with a counterpart. -/
  known : Nat → Prop
  /-- The counterpart of a variable. -/
  number : Nat → Nat
  /-- Counterparts of older variables are older. -/
  ordered : ∀ {left right : Nat}, known left → known right → left < right → number left < number right

namespace Link

variable {link : Link}

/-- Different variables have different counterparts. -/
theorem eq_of_number_eq {left right : Nat} (knownLeft : link.known left) (knownRight : link.known right)
    (same : link.number left = link.number right) : left = right := by
  rcases Nat.lt_trichotomy left right with less | equal | more
  · have := link.ordered knownLeft knownRight less
    omega
  · exact equal
  · have := link.ordered knownRight knownLeft more
    omega

/-- A term over variables with a counterpart and names that may be mentioned. -/
structure Covers (link : Link) (term : Term) : Prop where
  /-- Its variables have counterparts. -/
  vars : ∀ id ∈ term.occurrences, link.known id
  /-- Its names may be mentioned. -/
  names : term.Named link.allowed

/-- The counterpart of a term. -/
def image (link : Link) (term : Term) : Term := term.rename link.number

@[simp] theorem image_var (id : Nat) : link.image (.var id) = .var (link.number id) := rfl

@[simp] theorem image_int (value : Int64) : link.image (.int value) = .int value := rfl

@[simp] theorem image_atom (name : String) : link.image (.atom name) = .atom name := rfl

@[simp] theorem image_compound (name : String) (first : Term) (rest : List Term) :
    link.image (.compound name first rest) = .compound name (link.image first) (rest.map link.image) :=
  Term.rename_compound _ _ _ _

@[simp] theorem image_build (name : String) (args : List Term) :
    link.image (.build name args) = .build name (args.map link.image) := Term.rename_build _ _ _

@[simp] theorem isVar_image (term : Term) : (link.image term).isVar = term.isVar := by
  cases term <;> simp [Term.isVar]

@[simp] theorem covers_var {id : Nat} : link.Covers (.var id) ↔ link.known id :=
  ⟨fun covers => covers.vars id (by simp), fun known => ⟨by simpa using known, by simp⟩⟩

@[simp] theorem covers_int (value : Int64) : link.Covers (.int value) := ⟨by simp, by simp⟩

variable {term : Term} {name : String}

@[simp] theorem covers_atom : link.Covers (.atom name) ↔ link.allowed name :=
  ⟨fun covers => Term.named_atom.mp covers.names, fun allowed => ⟨by simp, Term.named_atom.mpr allowed⟩⟩

@[simp] theorem covers_compound {first : Term} {rest : List Term} :
    link.Covers (.compound name first rest) ↔
      link.allowed name ∧ link.Covers first ∧ ∀ term ∈ rest, link.Covers term := by
  constructor
  · rintro ⟨vars, names⟩
    obtain ⟨allowed, first', rest'⟩ := Term.named_compound.mp names
    simp only [Term.occurrences_compound, List.mem_append, List.mem_flatMap] at vars
    exact ⟨allowed, ⟨fun id occurs => vars id (.inl occurs), first'⟩,
      fun term member => ⟨fun id occurs => vars id (.inr ⟨term, member, occurs⟩), rest' term member⟩⟩
  · rintro ⟨allowed, first', rest'⟩
    refine ⟨?_, Term.named_compound.mpr ⟨allowed, first'.names, fun term member => (rest' term member).names⟩⟩
    intro id occurs
    rw [Term.occurrences_compound, List.mem_append, List.mem_flatMap] at occurs
    rcases occurs with occurs | ⟨term, member, occurs⟩
    · exact first'.vars id occurs
    · exact (rest' term member).vars id occurs

theorem covers_build {args : List Term} :
    link.Covers (.build name args) ↔ link.allowed name ∧ ∀ term ∈ args, link.Covers term := by
  cases args <;> simp [Term.build]

/-- The arguments of a covered term are covered. -/
theorem Covers.args (covers : link.Covers term) : ∀ argument ∈ term.args, link.Covers argument := by
  cases term with
  | compound name first rest =>
    obtain ⟨_, first', rest'⟩ := covers_compound.mp covers
    simpa [Term.args] using ⟨first', rest'⟩
  | _ => simp [Term.args]

/-- Terms with the same counterpart are equal. -/
theorem eq_of_image_eq {left right : Term} (coversLeft : link.Covers left) (coversRight : link.Covers right)
    (same : link.image left = link.image right) : left = right := by
  induction left generalizing right with
  | var id =>
    cases right <;> simp only [image_var, image_int, image_atom, image_compound, reduceCtorEq] at same
    rw [Term.var.injEq] at same
    rw [eq_of_number_eq (covers_var.mp coversLeft) (covers_var.mp coversRight) same]
  | int value => cases right <;> simp_all
  | atom name => cases right <;> simp_all
  | compound name first rest ihFirst ihRest =>
    cases right with
    | compound name' first' rest' =>
      simp only [image_compound, Term.compound.injEq] at same
      obtain ⟨_, first₁, rest₁⟩ := covers_compound.mp coversLeft
      obtain ⟨_, first₂, rest₂⟩ := covers_compound.mp coversRight
      rw [same.1, ihFirst first₁ first₂ same.2.1]
      congr 1
      have lengths : rest.length = rest'.length := by simpa using congrArg List.length same.2.2
      apply List.ext_getElem lengths
      intro index inside inside'
      have item := congrArg (·[index]?) same.2.2
      simp only [List.getElem?_map, List.getElem?_eq_getElem inside, List.getElem?_eq_getElem inside',
        Option.map_some, Option.some.injEq] at item
      exact ihRest _ (List.getElem_mem inside) (rest₁ _ (List.getElem_mem inside))
        (rest₂ _ (List.getElem_mem inside')) item
    | _ => simp at same

/-- Counterparts of older terms are older. -/
theorem older_image {id : Nat} {value : Term} (known : link.known id) (covers : link.Covers value)
    (older : ∀ target, value = .var target → target < id) :
    ∀ target, link.image value = .var target → target < link.number id := by
  intro target same
  cases value with
  | var other =>
    obtain rfl : link.number other = target := by simpa using same
    exact link.ordered (covers_var.mp covers) known (older other rfl)
  | _ => simp at same

theorem injectiveOn_occurrences (covers : link.Covers term) : InjectiveOn link.number term.occurrences :=
  fun _ occurs _ occurs' => eq_of_number_eq (covers.vars _ occurs) (covers.vars _ occurs')

/-- Covered terms are covered after a substitution of covered terms. -/
theorem Covers.subst {replace : Nat → Term} (covers : link.Covers term)
    (values : ∀ id ∈ term.occurrences, link.Covers (replace id)) : link.Covers (term.subst replace) := by
  constructor
  · intro id occurs
    obtain ⟨other, inside, occurs⟩ := Term.mem_occurrences_subst.mp occurs
    exact (values other inside).vars id occurs
  · intro name inside
    rcases Term.mem_names_subst.mp inside with inside | ⟨id, occurs, inside⟩
    · exact covers.names name inside
    · exact (values id occurs).names name inside

/-- A link that knows more. -/
structure Le (few many : Link) : Prop where
  /-- The same names may be mentioned. -/
  allowed : many.allowed = few.allowed
  /-- Variables with a counterpart still have one. -/
  known : ∀ id, few.known id → many.known id
  /-- Counterparts stay the same. -/
  number : ∀ id, few.known id → many.number id = few.number id

namespace Le

theorem refl (link : Link) : link.Le link := ⟨rfl, fun _ => id, fun _ _ => rfl⟩

theorem trans {first second third : Link} (left : first.Le second) (right : second.Le third) : first.Le third where
  allowed := right.allowed.trans left.allowed
  known id known := right.known id (left.known id known)
  number id known := (right.number id (left.known id known)).trans (left.number id known)

variable {few many : Link} (le : few.Le many)
include le

theorem covers {term : Term} (covers : few.Covers term) : many.Covers term :=
  ⟨fun id occurs => le.known id (covers.vars id occurs),
    fun name inside => le.allowed ▸ covers.names name inside⟩

theorem image_eq {term : Term} (covers : few.Covers term) : many.image term = few.image term :=
  Term.rename_congr fun id occurs => le.number id (covers.vars id occurs)

end Le

/-- The link with further variables from numbers on. -/
def extend (link : Link) (left right : Nat) (fresh : Nat → Prop) (place : Nat → Nat)
    (old : ∀ id, link.known id → id < left ∧ link.number id < right)
    (placed : ∀ {one other : Nat}, fresh one → fresh other → one < other → place one < place other) : Link where
  allowed := link.allowed
  known id := if id < left then link.known id else fresh (id - left)
  number id := if id < left then link.number id else right + place (id - left)
  ordered := by
    intro one other knownOne knownOther less
    by_cases oldOne : one < left <;> by_cases oldOther : other < left
    · simp only [oldOne, oldOther, if_true] at knownOne knownOther ⊢
      exact link.ordered knownOne knownOther less
    · simp only [oldOne, oldOther, if_true, if_false] at knownOne ⊢
      have := (old one knownOne).2
      omega
    · omega
    · simp only [oldOne, oldOther, if_false] at knownOne knownOther ⊢
      have := placed knownOne knownOther (by omega)
      omega

end Link

/-! ## Stores -/

/-- A store mirrors another one: variables that correspond to each other are both unbound or bound to terms that
correspond to each other. -/
structure Mirrors (link : Link) (left right : Bindings) : Prop where
  /-- The first store is well formed. -/
  formed : left.WellFormed
  /-- The second store is well formed. -/
  formed' : right.WellFormed
  /-- Variables that correspond to each other are in the stores. -/
  inside : ∀ id, link.known id → id < left.size ∧ link.number id < right.size
  /-- Cells of variables that correspond to each other do so. -/
  cells : ∀ id, link.known id → right.lookup? (link.number id) = (left.lookup? id).map link.image
  /-- Cells of variables with a counterpart have terms with a counterpart. -/
  covered : ∀ id value, link.known id → left.lookup? id = some value → link.Covers value

namespace Mirrors

open Bindings

variable {link : Link} {left right : Bindings} (mirrors : Mirrors link left right)
include mirrors

variable {term : Term} {fresh : Nat → Prop} {place : Nat → Nat}

theorem below (covers : link.Covers term) : term.Below left.size :=
  fun id occurs => (mirrors.inside id (covers.vars id occurs)).1

theorem below_image (covers : link.Covers term) : (link.image term).Below right.size :=
  Term.forall_mem_rename fun id occurs => (mirrors.inside id (covers.vars id occurs)).2

/-- Chains of variables that correspond to each other have ends that do. -/
theorem walk : link.Covers term →
    link.Covers (left.walk term) ∧ right.walk (link.image term) = link.image (left.walk term) := by
  induction term using mirrors.formed.descending.chainInduction with
  | bound id value cell ih =>
    intro covers
    have known := Link.covers_var.mp covers
    have cell' := mirrors.cells id known
    rw [cell] at cell'
    rw [mirrors.formed.descending.walk_bound cell, Link.image_var, mirrors.formed'.descending.walk_bound cell']
    exact ih (mirrors.covered id value known cell)
  | unbound id cell =>
    intro covers
    have cell' := mirrors.cells id (Link.covers_var.mp covers)
    rw [cell] at cell'
    rw [walk_unbound cell, Link.image_var, walk_unbound cell']
    exact ⟨covers, rfl⟩
  | other term solid =>
    intro covers
    rw [walk_of_isVar_eq_false solid, walk_of_isVar_eq_false (by rwa [Link.isVar_image])]
    exact ⟨covers, rfl⟩

/-- New cells may be added on both sides. -/
theorem reserve (size size' : Nat) : Mirrors link (left.reserve size) (right.reserve size') where
  formed := mirrors.formed.reserve size
  formed' := mirrors.formed'.reserve size'
  inside id known := by
    have := mirrors.inside id known
    simp only [size_reserve]
    omega
  cells id known := by simpa using mirrors.cells id known
  covered id value known cell := mirrors.covered id value known (by simpa using cell)

/-- Variables that correspond to each other may be bound to terms that do. -/
theorem bind {id : Nat} {value : Term} (known : link.known id) (unbound : left.lookup? id = none)
    (covers : link.Covers value) (older : ∀ other, value = .var other → other < id) :
    Mirrors link (left.bind id value) (right.bind (link.number id) (link.image value)) := by
  obtain ⟨inside, inside'⟩ := mirrors.inside id known
  have unbound' : right.lookup? (link.number id) = none := by rw [mirrors.cells id known, unbound, Option.map_none]
  have older' := Link.older_image known covers older
  refine ⟨mirrors.formed.bind inside unbound (mirrors.below covers) older,
    mirrors.formed'.bind inside' unbound' (mirrors.below_image covers) older', ?_, ?_, ?_⟩
  · simpa using mirrors.inside
  · intro other known'
    rw [lookup?_bind inside, lookup?_bind inside']
    by_cases same : other = id
    · simp [same]
    · have differ : link.number other ≠ link.number id := fun equal =>
        same (Link.eq_of_number_eq known' known equal)
      rw [if_neg same, if_neg differ, mirrors.cells other known']
  · intro other term known' bound
    rcases lookup?_of_bind bound with ⟨_, rfl⟩ | before
    · exact covers
    · exact mirrors.covered other term known' before

theorem le_extend (placed : ∀ {one other : Nat}, fresh one → fresh other → one < other → place one < place other) :
    link.Le (link.extend left.size right.size fresh place mirrors.inside placed) := by
  refine ⟨rfl, fun id known => ?_, fun id known => ?_⟩
  · have inside := (mirrors.inside id known).1
    simpa [Link.extend, inside] using known
  · have inside := (mirrors.inside id known).1
    simp [Link.extend, inside]

/-- New variables may be linked. -/
theorem extend (placed : ∀ {one other : Nat}, fresh one → fresh other → one < other → place one < place other)
    {size size' : Nat} (room : ∀ offset, fresh offset → left.size + offset < size)
    (room' : ∀ offset, fresh offset → right.size + place offset < size') :
    Mirrors (link.extend left.size right.size fresh place mirrors.inside placed)
      (left.reserve size) (right.reserve size') := by
  have le := mirrors.le_extend placed
  refine ⟨mirrors.formed.reserve size, mirrors.formed'.reserve size', ?_, ?_, ?_⟩
  · intro id known
    by_cases old : id < left.size
    · have known' : link.known id := by simpa [Link.extend, old] using known
      have inside := mirrors.inside id known'
      rw [le.number id known', size_reserve, size_reserve]
      omega
    · have new : fresh (id - left.size) := by simpa [Link.extend, old] using known
      have := room _ new
      have := room' _ new
      simp only [Link.extend, old, if_false, size_reserve]
      omega
  · intro id known
    rw [lookup?_reserve, lookup?_reserve]
    by_cases old : id < left.size
    · have known' : link.known id := by simpa [Link.extend, old] using known
      rw [le.number id known', mirrors.cells id known']
      cases cell : left.lookup? id with
      | none => rfl
      | some value => rw [Option.map_some, Option.map_some, le.image_eq (mirrors.covered id value known' cell)]
    · have outside : right.size ≤ right.size + place (id - left.size) := Nat.le_add_right _ _
      rw [lookup?_eq_none_of_size_le (Nat.le_of_not_lt old)]
      simp only [Link.extend, old, if_false, lookup?_eq_none_of_size_le outside, Option.map_none]
  · intro id value known bound
    rw [lookup?_reserve] at bound
    have old : id < left.size := lt_size_of_lookup? bound
    have known' : link.known id := by simpa [Link.extend, old] using known
    exact le.covers (mirrors.covered id value known' bound)

end Mirrors

/-! ## Growth -/

namespace Bindings

/-- A chain of variables may be followed before the store grows. -/
theorem Grown.walk_walk {old new : Bindings} (grown : Grown old new) (formed : old.WellFormed)
    (formed' : new.WellFormed) (term : Term) : new.walk (old.walk term) = new.walk term := by
  induction term using formed.descending.chainInduction with
  | bound id value cell ih =>
    rw [formed.descending.walk_bound cell, ih, formed'.descending.walk_bound (grown.lookup?_eq cell)]
  | unbound id cell => rw [walk_unbound cell]
  | other term solid => rw [walk_of_isVar_eq_false solid]

end Bindings

open Bindings

/-- Terms that correspond to each other at the ends of their chains of variables. -/
def WalksTo (link : Link) (left right : Bindings) (term term' : Term) : Prop :=
  link.Covers (left.walk term) ∧ right.walk term' = link.image (left.walk term)

namespace WalksTo

variable {link : Link} {left right : Bindings} {term term' : Term}

theorem of_covers (mirrors : Mirrors link left right) (covers : link.Covers term) :
    WalksTo link left right term (link.image term) := mirrors.walk covers

/-- Terms still correspond to each other when both stores have grown. -/
theorem mono {link' : Link} {left' right' : Bindings} (walks : WalksTo link left right term term')
    (mirrors : Mirrors link left right) (mirrors' : Mirrors link' left' right') (le : link.Le link')
    (grown : Grown left left') (grown' : Grown right right') : WalksTo link' left' right' term term' := by
  obtain ⟨covers, walk⟩ := walks
  have later := mirrors'.walk (le.covers covers)
  rw [grown.walk_walk mirrors.formed mirrors'.formed, le.image_eq covers, ← walk,
    grown'.walk_walk mirrors.formed' mirrors'.formed'] at later
  exact later

end WalksTo

/-! ## Unification -/

theorem Link.compatible_image {link : Link} {one other : Term} :
    Compatible (link.image one) (link.image other) ↔ Compatible one other := by
  cases one <;> cases other <;> simp [Compatible]

theorem Link.args_image {link : Link} (term : Term) : (link.image term).args = term.args.map link.image :=
  Term.args_rename link.number term

/-- Pairs of terms that correspond to each other. -/
def PairsTo (link : Link) (left right : Bindings) (pair pair' : Term × Term) : Prop :=
  WalksTo link left right pair.1 pair'.1 ∧ WalksTo link left right pair.2 pair'.2

/-- Attempts to unify that go the same way. -/
structure Parallel (link : Link) (left right : Bindings) (attempt attempt' : Attempt) : Prop where
  /-- They have the same outcome. -/
  outcome : attempt'.1 = attempt.1
  /-- The stores still mirror each other. -/
  mirrors : Mirrors link attempt.2 attempt'.2
  /-- The first store has grown. -/
  grown : Grown left attempt.2
  /-- The second store has grown. -/
  grown' : Grown right attempt'.2
  /-- The first store has no new cells. -/
  size : attempt.2.size = left.size
  /-- The second store has no new cells. -/
  size' : attempt'.2.size = right.size

variable {link : Link} {left right : Bindings}

/-- One attempt after another one. -/
theorem Parallel.trans {first first' second second' : Attempt}
    (parallel : Parallel link left right first first') (later : Parallel link first.2 first'.2 second second') :
    Parallel link left right second second' :=
  ⟨later.outcome, later.mirrors, parallel.grown.trans later.grown, parallel.grown'.trans later.grown',
    later.size.trans parallel.size, later.size'.trans parallel.size'⟩

theorem Parallel.walksTo {attempt attempt' : Attempt} {term term' : Term}
    (parallel : Parallel link left right attempt attempt') (mirrors : Mirrors link left right)
    (walks : WalksTo link left right term term') : WalksTo link attempt.2 attempt'.2 term term' :=
  walks.mono mirrors parallel.mirrors (.refl link) parallel.grown parallel.grown'

namespace Mirrors

/-- Nothing is done. -/
theorem parallel (mirrors : Mirrors link left right) (outcome : Option Bool) :
    Parallel link left right (outcome, left) (outcome, right) :=
  ⟨rfl, mirrors, .refl _, .refl _, rfl, rfl⟩

/-- A variable is bound. -/
theorem parallel_bind (mirrors : Mirrors link left right) {id : Nat} {value : Term} (known : link.known id)
    (unbound : left.lookup? id = none) (covers : link.Covers value) (older : ∀ other, value = .var other → other < id) :
    Parallel link left right (some true, left.bind id value)
      (some true, right.bind (link.number id) (link.image value)) := by
  obtain ⟨inside, inside'⟩ := mirrors.inside id known
  have unbound' : right.lookup? (link.number id) = none := by rw [mirrors.cells id known, unbound, Option.map_none]
  exact ⟨rfl, mirrors.bind known unbound covers older, .bind inside unbound value, .bind inside' unbound' _, size_bind ..,
    size_bind ..⟩

/-- Arguments of terms that correspond to each other do so in pairs. -/
theorem pairsTo_zip (mirrors : Mirrors link left right) {lefts rights : List Term}
    (coversLefts : ∀ term ∈ lefts, link.Covers term) (coversRights : ∀ term ∈ rights, link.Covers term) :
    List.Forall₂ (PairsTo link left right) (lefts.zip rights) ((lefts.map link.image).zip (rights.map link.image)) := by
  induction lefts generalizing rights with
  | nil => cases rights <;> simp
  | cons one lefts ih =>
    cases rights with
    | nil => simp
    | cons other rights =>
      rw [List.forall_mem_cons] at coversLefts coversRights
      exact .cons ⟨.of_covers mirrors coversLefts.1, .of_covers mirrors coversRights.1⟩ (ih coversLefts.2 coversRights.2)

/-- Pairs of terms that correspond to each other are unified in the same way. -/
theorem parallel_unifyPairs (mirrors : Mirrors link left right) (fuel : Nat) {pairs pairs' : List (Term × Term)}
    (alike : List.Forall₂ (PairsTo link left right) pairs pairs') :
    Parallel link left right (unifyPairs fuel pairs left) (unifyPairs fuel pairs' right) := by
  induction fuel generalizing left right pairs pairs' with
  | zero =>
    cases alike with
    | nil => exact mirrors.parallel (some true)
    | cons _ _ => exact mirrors.parallel none
  | succ fuel ih =>
    cases alike with
    | nil => exact mirrors.parallel (some true)
    | @cons pair pair' rest rest' first others =>
      obtain ⟨one, other⟩ := pair
      obtain ⟨one', other'⟩ := pair'
      have binds {value : Term} {id : Nat} (walk : ∃ term, left.walk term = .var id) (known : link.known id)
          (covers : link.Covers value) (older : ∀ other, value = .var other → other < id) :
          Parallel link left right (unifyPairs fuel rest (left.bind id value))
            (unifyPairs fuel rest' (right.bind (link.number id) (link.image value))) := by
        obtain ⟨term, walk⟩ := walk
        have bound := mirrors.parallel_bind known (mirrors.formed.descending.unbound_of_walk walk) covers older
        refine bound.trans (ih bound.mirrors (others.imp fun pair pair' walks => ?_))
        exact ⟨bound.walksTo mirrors walks.1, bound.walksTo mirrors walks.2⟩
      obtain ⟨⟨coversOne, image⟩, coversOther, image'⟩ := first
      rcases exists_ends (left.walk one) (left.walk other) with
        ⟨id, value, ends, older⟩ | ⟨id, walk, walk'⟩ | ⟨solid, solid'⟩
      · have ⟨known, covers⟩ : link.known id ∧ link.Covers value := by
          rcases ends with ⟨walk, walk'⟩ | ⟨walk, walk'⟩ <;> simp_all
        have ends' : right.walk one' = .var (link.number id) ∧ right.walk other' = link.image value ∨
            right.walk one' = link.image value ∧ right.walk other' = .var (link.number id) := by
          rcases ends with ⟨walk, walk'⟩ | ⟨walk, walk'⟩ <;> simp [image, image', walk, walk']
        rw [unifyPairs_bind ends older, unifyPairs_bind ends' (Link.older_image known covers older)]
        exact binds (ends.elim (fun ends => ⟨one, ends.1⟩) fun ends => ⟨other, ends.2⟩) known covers older
      · rw [walk, Link.image_var] at image
        rw [walk', Link.image_var] at image'
        rw [unifyPairs_same walk walk', unifyPairs_same image image']
        exact ih mirrors others
      · have same : Compatible (right.walk one') (right.walk other') ↔ Compatible (left.walk one) (left.walk other) := by
          rw [image, image', Link.compatible_image]
        by_cases compatible : Compatible (left.walk one) (left.walk other)
        · rw [unifyPairs_compatible compatible, unifyPairs_compatible (same.mpr compatible), image, image',
            Link.args_image, Link.args_image]
          exact ih mirrors (List.rel_append (mirrors.pairsTo_zip coversOne.args coversOther.args) others)
        · rw [unifyPairs_clash solid solid' compatible,
            unifyPairs_clash (by rwa [image, Link.isVar_image]) (by rwa [image', Link.isVar_image]) (mt same.mp compatible)]
          exact mirrors.parallel _

end Mirrors

/-- Taking back what did not succeed goes the same way. -/
theorem Parallel.takingBack (mirrors : Mirrors link left right)
    {attempt attempt' : Bindings → Attempt} (parallel : Parallel link left right (attempt left) (attempt' right)) :
    Parallel link left right (left.takingBack attempt) (right.takingBack attempt') ∧
      ((left.takingBack attempt).1 ≠ some true →
        (left.takingBack attempt).2 = left ∧ (right.takingBack attempt').2 = right) := by
  rw [takingBack_eq parallel.grown parallel.size, takingBack_eq parallel.grown' parallel.size', parallel.outcome]
  by_cases success : (attempt left).1 = some true
  · rw [if_pos success, if_pos success]
    exact ⟨parallel, fun failed => absurd success failed⟩
  · rw [if_neg success, if_neg success]
    exact ⟨mirrors.parallel _, fun _ => ⟨rfl, rfl⟩⟩

namespace Mirrors

theorem parallel_unify (mirrors : Mirrors link left right) (fuel : Nat) {one one' other other' : Term}
    (pair : PairsTo link left right (one, other) (one', other')) :
    Parallel link left right (left.unify fuel one other) (right.unify fuel one' other') :=
  (Parallel.takingBack mirrors (mirrors.parallel_unifyPairs fuel (.cons pair .nil))).1

/-- Terms that correspond to each other are unified in the same way, one pair after the other. -/
theorem parallel_unifyEach (mirrors : Mirrors link left right) (fuel : Nat) {lefts lefts' rights rights' : List Term}
    (walks : List.Forall₂ (WalksTo link left right) lefts lefts')
    (walks' : List.Forall₂ (WalksTo link left right) rights rights') :
    Parallel link left right (unifyEach fuel lefts rights left) (unifyEach fuel lefts' rights' right) := by
  induction lefts generalizing left right lefts' rights rights' with
  | nil =>
    cases walks
    exact mirrors.parallel (some true)
  | cons one lefts ih =>
    cases walks with
    | @cons _ one' _ lefts' first others =>
      cases walks' with
      | nil => exact mirrors.parallel (some true)
      | @cons other other' rights rights' first' others' =>
        have parallel := mirrors.parallel_unify fuel ⟨first, first'⟩
        rw [unifyEach, unifyEach]
        generalize left.unify fuel one other = attempt at parallel
        generalize right.unify fuel one' other' = attempt' at parallel
        obtain ⟨outcome, after⟩ := attempt
        obtain ⟨outcome', after'⟩ := attempt'
        obtain rfl : outcome' = outcome := parallel.outcome
        rcases outcome' with _ | _ | _
        · exact parallel
        · exact parallel
        · exact parallel.trans (ih parallel.mirrors (others.imp fun _ _ => parallel.walksTo mirrors)
            (others'.imp fun _ _ => parallel.walksTo mirrors))

/-- Sequences of terms that correspond to each other are unified in the same way, or both stores stay as they are. -/
theorem parallel_unifyAll (mirrors : Mirrors link left right) (fuel : Nat) {lefts lefts' rights rights' : List Term}
    (walks : List.Forall₂ (WalksTo link left right) lefts lefts')
    (walks' : List.Forall₂ (WalksTo link left right) rights rights') :
    Parallel link left right (left.unifyAll fuel lefts rights) (right.unifyAll fuel lefts' rights') ∧
      ((left.unifyAll fuel lefts rights).1 ≠ some true →
        (left.unifyAll fuel lefts rights).2 = left ∧ (right.unifyAll fuel lefts' rights').2 = right) := by
  rw [unifyAll, unifyAll, walks.length_eq, walks'.length_eq]
  by_cases lengths : lefts'.length = rights'.length
  · rw [if_pos lengths, if_pos lengths]
    exact Parallel.takingBack mirrors (mirrors.parallel_unifyEach fuel walks walks')
  · rw [if_neg lengths, if_neg lengths]
    exact ⟨mirrors.parallel _, fun _ => ⟨rfl, rfl⟩⟩

end Mirrors

end HornLoops
