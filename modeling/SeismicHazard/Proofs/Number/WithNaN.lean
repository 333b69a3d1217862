import SeismicHazard.Proofs.Number.Exact

/-!
# Exact numbers and a value that is none

The numbers of an ordered field, with one value more that is not a number: arithmetic with it gives it
again, every comparison with it fails, and it is no bound of a range. So computations can be told exactly
where some of what they are given is no number.

* `WithNaN`: an exact number or a value that is none, and its operations.
* `WithNaN.le_iff`: which comparisons do not fail.
* `WithNaN.min_nan_right` and the like: the smaller and the larger operand.
-/

namespace SeismicHazard

/-- An exact number, or a value that is not a number. -/
inductive WithNaN (α : Type) where
  | nan
  | number (x : α)
  deriving DecidableEq

namespace WithNaN

section

variable {α : Type}

theorem number_injective : Function.Injective (number : α → WithNaN α) := fun _ _ h =>
  number.inj h

/-- The number that a value is, if it is one. -/
def toNumber? : WithNaN α → Option α
  | nan => none
  | number x => some x

@[simp]
theorem toNumber?_eq_some {a : WithNaN α} {x : α} : a.toNumber? = some x ↔ a = number x := by
  cases a <;> simp [toNumber?]

theorem mem_filterMap_toNumber? {xs : List (WithNaN α)} {x : α} :
    x ∈ xs.filterMap toNumber? ↔ number x ∈ xs := by
  simp

/-- What holds of two numbers, and of no other values. -/
def Both (r : α → α → Prop) : WithNaN α → WithNaN α → Prop
  | number x, number y => r x y
  | _, _ => False

instance {r : α → α → Prop} [DecidableRel r] : DecidableRel (Both r)
  | number x, number y => inferInstanceAs (Decidable (r x y))
  | nan, _ => inferInstanceAs (Decidable False)
  | number _, nan => inferInstanceAs (Decidable False)

/-- An operation on two numbers; with any other value it gives no number. -/
def lift₂ (f : α → α → WithNaN α) : WithNaN α → WithNaN α → WithNaN α
  | number x, number y => f x y
  | _, _ => nan

end

section

variable {α : Type} [Field α] [LinearOrder α] [FloorRing α]

instance scalar : Scalar (WithNaN α) where
  zero := number 0
  one := number 1
  intCast n := number n
  add := lift₂ fun x y => number (x + y)
  sub := lift₂ fun x y => number (x - y)
  mul := lift₂ fun x y => number (x * y)
  div := lift₂ fun x y => if y = 0 then nan else number (x / y)
  neg
    | number x => number (-x)
    | nan => nan
  lt := Both (· < ·)
  le := Both (· ≤ ·)
  beq a b := decide (Both (· = ·) a b)
  decidableLT := inferInstanceAs (DecidableRel (Both (· < ·)))
  decidableLE := inferInstanceAs (DecidableRel (Both (· ≤ ·)))
  floor
    | number x => ⌊x⌋
    | nan => 0
  ceil
    | number x => ⌈x⌉
    | nan => 0

variable {a : WithNaN α} {x y : α}

@[simp]
theorem number_le_number : (number x : WithNaN α) ≤ number y ↔ x ≤ y := Iff.rfl

@[simp]
theorem number_lt_number : (number x : WithNaN α) < number y ↔ x < y := Iff.rfl

@[simp]
theorem not_nan_le : ¬ (nan : WithNaN α) ≤ a := id

@[simp]
theorem not_le_nan : ¬ a ≤ (nan : WithNaN α) := by
  cases a <;> exact id

@[simp]
theorem not_nan_lt : ¬ (nan : WithNaN α) < a := id

@[simp]
theorem not_lt_nan : ¬ a < (nan : WithNaN α) := by
  cases a <;> exact id

/-- A comparison that does not fail is one of two numbers. -/
theorem le_iff {a b : WithNaN α} : a ≤ b ↔ ∃ x y, a = number x ∧ b = number y ∧ x ≤ y := by
  cases a <;> cases b <;> simp

theorem zero_eq : (0 : WithNaN α) = number 0 := rfl

theorem one_eq : (1 : WithNaN α) = number 1 := rfl

@[simp]
theorem number_beq_number : ((number x : WithNaN α) == number y) = decide (x = y) := rfl

@[simp]
theorem isNumber_number : Scalar.isNumber (number x : WithNaN α) = true := by
  simp [Scalar.isNumber]

@[simp]
theorem isNumber_nan : Scalar.isNumber (nan : WithNaN α) = false := rfl

/-! ### Arithmetic -/

@[simp]
theorem number_sub_number : (number x - number y : WithNaN α) = number (x - y) := rfl

@[simp]
theorem number_add_number : (number x + number y : WithNaN α) = number (x + y) := rfl

@[simp]
theorem number_mul_number : (number x * number y : WithNaN α) = number (x * y) := rfl

theorem number_div_number (h : y ≠ 0) : (number x / number y : WithNaN α) = number (x / y) :=
  if_neg h

@[simp]
theorem nan_add : nan + a = nan := rfl

@[simp]
theorem add_nan : a + nan = nan := by
  cases a <;> rfl

@[simp]
theorem nan_sub : nan - a = nan := rfl

@[simp]
theorem mul_nan : a * nan = nan := by
  cases a <;> rfl

@[simp]
theorem nan_div : nan / a = nan := rfl

/-! ### The smaller and the larger operand -/

@[simp]
theorem min_number_number : Scalar.min (number x) (number y) = number (Min.min x y) := by
  rw [← Scalar.min_eq]
  simp only [Scalar.min, number_le_number, number_lt_number, isNumber_number, Scalar.isNumber_eq,
    apply_ite number]

@[simp]
theorem max_number_number : Scalar.max (number x) (number y) = number (Max.max x y) := by
  rw [← Scalar.max_eq]
  simp only [Scalar.max, number_le_number, number_lt_number, isNumber_number, Scalar.isNumber_eq,
    apply_ite number]

@[simp]
theorem min_nan_right : Scalar.min (number x) nan = number x := by
  simp [Scalar.min]

@[simp]
theorem max_nan_right : Scalar.max (number x) nan = number x := by
  simp [Scalar.max]

end

/-! ### The order of keys -/

section

variable {α : Type} [LinearOrder α]

def toTop : WithNaN α → WithTop α
  | nan => ⊤
  | number x => x

/-- In keys the value that is not a number comes last. -/
instance order : TotalOrder (WithNaN α) := ⟨compareOn toTop⟩

instance : Std.TransCmp (TotalOrder.cmp : WithNaN α → WithNaN α → Ordering) :=
  inferInstanceAs (Std.TransCmp (compareOn toTop))

end

end WithNaN

end SeismicHazard
