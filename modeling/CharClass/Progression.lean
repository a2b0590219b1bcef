/-!
# Arithmetic progressions

A finite progression of whole numbers, given by its first element, the bound that it stops
before, and its step.

## Main definitions

* `Progression`, `Progression.size`, `Progression.toList`
* `Progression.mem_toList`: which numbers these are
* `Progression.Shape`, `Progression.shape`: what is left of a progression when only its elements
  count
-/

namespace CharClass

/-- The numbers `start`, `start + step`, … that lie before `stop`. -/
structure Progression where
  start : Int
  stop : Int
  step : Int
  deriving DecidableEq

namespace Progression

/-- The number of elements. A step of zero gives none. -/
def size (r : Progression) : Nat :=
  if 0 < r.step then ((r.stop - r.start + r.step - 1) / r.step).toNat
  else if r.step < 0 then ((r.start - r.stop - r.step - 1) / -r.step).toNat
  else 0

/-- The elements in order. -/
def toList (r : Progression) : List Int :=
  (List.range r.size).map fun i : Nat => r.start + i * r.step

/-- The size counts the numbers that lie before the bound. -/
theorem lt_size_iff (r : Progression) (i : Nat) :
    i < r.size ↔ (0 < r.step ∧ r.start + i * r.step < r.stop) ∨
      (r.step < 0 ∧ r.stop < r.start + i * r.step) := by
  unfold size
  split
  · next hpos =>
    have hcount : (i : Int) + 1 ≤ (r.stop - r.start + r.step - 1) / r.step ↔
        (i + 1) * r.step ≤ r.stop - r.start + r.step - 1 :=
      Int.le_ediv_iff_mul_le hpos
    rw [Int.add_mul, Int.one_mul] at hcount
    omega
  · split
    · next hneg =>
      have hcount : (i : Int) + 1 ≤ (r.start - r.stop - r.step - 1) / -r.step ↔
          (i + 1) * -r.step ≤ r.start - r.stop - r.step - 1 :=
        Int.le_ediv_iff_mul_le (Int.neg_pos_of_neg hneg)
      rw [Int.add_mul, Int.one_mul, Int.mul_neg] at hcount
      omega
    · omega

/-- The elements come in the order of the steps. -/
theorem getElem?_toList (r : Progression) (i : Nat) :
    r.toList[i]? = if i < r.size then some (r.start + i * r.step) else none := by
  rw [toList, List.getElem?_map]
  split
  · next hi =>
    rw [List.getElem?_range hi]
    rfl
  · next hi =>
    rw [List.getElem?_eq_none (by rw [List.length_range]; exact Nat.le_of_not_lt hi)]
    rfl

/-- The elements are the numbers `start`, `start + step`, … that lie before `stop`, whichever way
the steps go. -/
theorem mem_toList {r : Progression} {p : Int} :
    p ∈ r.toList ↔ ∃ i : Nat, p = r.start + i * r.step ∧
      ((0 < r.step ∧ p < r.stop) ∨ (r.step < 0 ∧ r.stop < p)) := by
  rw [toList, List.mem_map]
  constructor
  · rintro ⟨i, hi, rfl⟩
    exact ⟨i, rfl, (r.lt_size_iff i).1 (List.mem_range.1 hi)⟩
  · rintro ⟨i, rfl, hbefore⟩
    exact ⟨i, List.mem_range.2 ((r.lt_size_iff i).2 hbefore), rfl⟩

/-- The elements of a progression, described without listing them. -/
inductive Shape where
  | empty
  | singleton (element : Int)
  | steps (size : Nat) (start step : Int)
  deriving DecidableEq

/-- Two progressions have the same elements in the same order if they have the same shape: the
step of a progression of one element does not count, nor does anything of an empty one. -/
def shape (r : Progression) : Shape :=
  match r.size with
  | 0 => .empty
  | 1 => .singleton r.start
  | size => .steps size r.start r.step

end Progression

end CharClass
