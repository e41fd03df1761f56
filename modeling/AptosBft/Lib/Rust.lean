import Mathlib.Algebra.GroupWithZero.Nat
import Mathlib.Order.Fin.Basic

/-! Machine words and failing calls as Rust has them. A call either returns a
value, returns an error, or panics. An unchecked addition that overflows panics
in a development build and wraps around in a release build, so every operation
that adds without a check takes the build profile. -/

namespace Rust

abbrev U64 := Fin 18446744073709551616

instance u64NeZero : NeZero 18446744073709551616 := ⟨by decide⟩

def u64Max : U64 := 18446744073709551615

inductive Profile where
  | dev
  | release
  deriving DecidableEq, Repr

inductive Panic where
  | overflow
  | unwrap
  | assertion (message : String)
  deriving DecidableEq, Repr

/-- What ends a call early: an error it returns, or a panic. -/
inductive Failure (ε : Type) where
  | err (error : ε)
  | panic (reason : Panic)
  deriving DecidableEq, Repr

/-- `?` on an error of another type. -/
def Failure.map {ε δ : Type} (convert : ε → δ) : Failure ε → Failure δ
  | .err error => .err (convert error)
  | .panic reason => .panic reason

abbrev Outcome (ε α : Type) := Except (Failure ε) α

def returned {ε α : Type} : Except ε α → Outcome ε α
  | .ok value => .ok value
  | .error error => .error (.err error)

def debugOption : Option U64 → String
  | some value => "Some(" ++ toString value ++ ")"
  | none => "None"

namespace U64

def checkedAdd (a b : U64) : Option U64 :=
  if fits : a.val + b.val < 18446744073709551616 then some ⟨a.val + b.val, fits⟩ else none

def saturatingSub (a b : U64) : U64 := ⟨a.val - b.val, by omega⟩

/-- `a as u32`, still as a word. -/
def asU32 (a : U64) : U64 := ⟨a.val % 4294967296, by omega⟩

def minus (a b : U64) (_fits : b ≤ a) : U64 := ⟨a.val - b.val, by omega⟩

/-- `a + b` without a check: the panic exists in development builds only. -/
def plus (profile : Profile) (a b : U64) : Except Panic U64 :=
  match checkedAdd a b, profile with
  | some sum, _ => .ok sum
  | none, .dev => .error .overflow
  | none, .release => .ok (a + b)

/-- `a - b` without a check, as `plus`. -/
def subtract (profile : Profile) (a b : U64) : Except Panic U64 :=
  if fits : b ≤ a then .ok (a.minus b fits)
  else match profile with
    | .dev => .error .overflow
    | .release => .ok (a - b)

theorem checkedAdd_eq_some {a b sum : U64} : checkedAdd a b = some sum ↔ sum.val = a.val + b.val := by
  simp only [checkedAdd]
  split
  · rw [Option.some.injEq, Fin.ext_iff]
    exact eq_comm
  next overflows =>
    have bound := sum.isLt
    constructor
    · intro impossible
      cases impossible
    · intro same
      omega

theorem checkedAdd_eq_none {a b : U64} : checkedAdd a b = none ↔ u64Max.val < a.val + b.val := by
  have last : u64Max.val = 18446744073709551615 := rfl
  simp only [checkedAdd]
  split <;> simp <;> omega

theorem plus_cases (profile : Profile) (a b : U64) :
    (∃ sum, plus profile a b = .ok sum ∧ sum.val = a.val + b.val) ∨
    (u64Max.val < a.val + b.val ∧ (plus profile a b = .error .overflow ∨ plus profile a b = .ok (a + b))) := by
  simp only [plus]
  cases sum : checkedAdd a b with
  | some value => exact Or.inl ⟨value, rfl, checkedAdd_eq_some.mp sum⟩
  | none =>
    refine Or.inr ⟨checkedAdd_eq_none.mp sum, ?_⟩
    cases profile with
    | dev => exact Or.inl rfl
    | release => exact Or.inr rfl

/-- A development build returns exact sums only. -/
theorem plus_dev_ok {a b sum : U64} (returned : plus .dev a b = .ok sum) : sum.val = a.val + b.val := by
  simp only [plus] at returned
  cases added : checkedAdd a b with
  | some value =>
    rw [added] at returned
    cases returned
    exact checkedAdd_eq_some.mp added
  | none =>
    rw [added] at returned
    cases returned

/-- A release build always returns, around the end of the word. -/
theorem plus_release (a b : U64) : plus .release a b = .ok (a + b) := by
  simp only [plus]
  cases added : checkedAdd a b with
  | none => rfl
  | some sum =>
    have value := checkedAdd_eq_some.mp added
    have same : sum = a + b := by
      apply Fin.ext
      rw [Fin.val_add, Nat.mod_eq_of_lt (value ▸ sum.isLt), value]
    rw [same]

theorem eq_max_of_overflow {a : U64} (overflows : u64Max.val < a.val + (1 : U64).val) : a = u64Max := by
  have bound := a.isLt
  change 18446744073709551615 < a.val + 1 at overflows
  apply Fin.ext
  change a.val = 18446744073709551615
  omega

/-- A word with a successor is below the last one. -/
theorem lt_max_of_successor {a next : U64} (successor : next.val = a.val + 1) : a < u64Max := by
  have bound := next.isLt
  change a.val < 18446744073709551615
  omega

/-- The successor of a word: exact below the last one, and at the last one the
profile decides. -/
theorem plus_one_cases (profile : Profile) (a : U64) :
    (∃ next, plus profile a 1 = .ok next ∧ next.val = a.val + 1) ∨
    (a = u64Max ∧ (profile = .dev ∧ plus profile a 1 = .error .overflow ∨ profile = .release ∧ plus profile a 1 = .ok 0)) := by
  obtain ⟨next, sum, value⟩ | ⟨overflows, _⟩ := plus_cases profile a 1
  · exact Or.inl ⟨next, sum, value⟩
  · have last := eq_max_of_overflow overflows
    subst last
    refine Or.inr ⟨rfl, ?_⟩
    cases profile with
    | dev => exact Or.inl ⟨rfl, by decide⟩
    | release => exact Or.inr ⟨rfl, by decide⟩

/-- Below the last word the successor does not depend on the profile. -/
theorem plus_one_of_ne {a : U64} (room : a ≠ u64Max) : ∃ next, next.val = a.val + 1 ∧ ∀ profile, plus profile a 1 = .ok next := by
  have each : ∀ profile, ∃ next, plus profile a 1 = .ok next ∧ next.val = a.val + 1 := by
    intro profile
    obtain same | ⟨last, _⟩ := plus_one_cases profile a
    · exact same
    · exact absurd last room
  obtain ⟨next, _, value⟩ := each .dev
  refine ⟨next, value, ?_⟩
  intro profile
  obtain ⟨other, sum, same⟩ := each profile
  rw [sum, Fin.ext (same.trans value.symm)]

theorem plus_one_of_lt (profile : Profile) {a b : U64} (below : a < b) :
    ∃ next, plus profile a 1 = .ok next ∧ next.val = a.val + 1 := by
  obtain same | ⟨last, _⟩ := plus_one_cases profile a
  · exact same
  · rw [last] at below
    exact absurd below (not_lt.mpr (Fin.le_last b))

@[simp] theorem minus_val (a b : U64) (fits : b ≤ a) : (minus a b fits).val = a.val - b.val := rfl

end U64

/-- `a + b` on `usize` without a check, as `U64.plus`. -/
def Usize.plus (profile : Profile) (a b : Nat) : Except Panic Nat :=
  if a + b < 18446744073709551616 then .ok (a + b)
  else match profile with
    | .dev => .error .overflow
    | .release => .ok ((a + b) % 18446744073709551616)

namespace U128

/-- A `u128` is a natural number below this one. -/
def size : Nat := 340282366920938463463374607431768211456

/-- A result of unchecked arithmetic: out of range it panics or wraps, as for `U64.plus`. -/
def narrow (profile : Profile) (value : Nat) : Except Panic Nat :=
  if value < size then .ok value
  else match profile with
    | .dev => .error .overflow
    | .release => .ok (value % size)

def plus (profile : Profile) (a b : Nat) : Except Panic Nat := narrow profile (a + b)

def times (profile : Profile) (a b : Nat) : Except Panic Nat := narrow profile (a * b)

/-- The additions of `sum()`, onto what is summed already. -/
def sumOnto (profile : Profile) (total : Nat) : List Nat → Except Panic Nat
  | [] => .ok total
  | item :: rest => do
    let total ← plus profile total item
    sumOnto profile total rest

def sum (profile : Profile) (items : List Nat) : Except Panic Nat := sumOnto profile 0 items

theorem narrow_of_lt (profile : Profile) {value : Nat} (fits : value < size) : narrow profile value = .ok value :=
  if_pos fits

theorem narrow_dev_ok {value result : Nat} : narrow .dev value = .ok result ↔ value < size ∧ value = result := by
  rw [narrow]
  split
  next fits => simp only [Except.ok.injEq, fits, true_and]
  next wide => simp only [reduceCtorEq, wide, false_and]

/-- Fewer than `2^64` words add up to less than `2^128`. -/
theorem lt_size_of_words {value count : Nat} (bound : value ≤ count * u64Max.val) (few : count ≤ u64Max.val) : value < size := by
  have product := Nat.mul_le_mul_right u64Max.val few
  have square : u64Max.val * u64Max.val < size := by decide
  exact Nat.lt_of_le_of_lt (bound.trans product) square

theorem sumOnto_of_lt (profile : Profile) {items : List Nat} {total : Nat} (fits : total + items.sum < size) :
    sumOnto profile total items = .ok (total + items.sum) := by
  induction items generalizing total with
  | nil => rfl
  | cons item rest ih =>
    rw [List.sum_cons, ← Nat.add_assoc] at fits ⊢
    rw [sumOnto, plus, narrow_of_lt profile (Nat.lt_of_le_of_lt (Nat.le_add_right _ _) fits)]
    exact ih fits

theorem sumOnto_dev_ok {items : List Nat} {total result : Nat} (small : total < size)
    (summed : sumOnto .dev total items = .ok result) : total + items.sum < size := by
  induction items generalizing total with
  | nil => exact small
  | cons item rest ih =>
    rw [List.sum_cons, ← Nat.add_assoc]
    rw [sumOnto, plus] at summed
    cases next : narrow .dev (total + item) with
    | error reason =>
      rw [next] at summed
      cases summed
    | ok sum =>
      obtain ⟨fits, rfl⟩ := narrow_dev_ok.mp next
      rw [next] at summed
      exact ih fits summed

theorem sum_of_lt (profile : Profile) {items : List Nat} (fits : items.sum < size) : sum profile items = .ok items.sum := by
  have whole : 0 + items.sum < size := by rwa [Nat.zero_add]
  have summed := sumOnto_of_lt profile whole
  rwa [Nat.zero_add] at summed

theorem sum_dev_lt {items : List Nat} {result : Nat} (summed : sum .dev items = .ok result) : items.sum < size := by
  have fits := sumOnto_dev_ok (by decide) summed
  rwa [Nat.zero_add] at fits

end U128
end Rust
