import CharClass.Distinct
import Mathlib.Data.List.Sort

/-!
# Distinct points in increasing order

Both ways to sort points and drop repetitions produce the strictly increasing list of the same
points, and there is only one such list. Sorting always succeeds. The table of marks succeeds
exactly when its span is one that a table can have.

## Main definitions

* `Enumerates`: a strictly increasing list with the elements of another
* `FitsTable`: the points lie close enough together for a table of marks

## Main statements

* `Enumerates.unique`: the list is determined by the set of points
* `enumerates_distinctBySort`: sorting produces it
* `distinctByMarks_eq_ok`, `distinctByMarks_eq_error`: the table produces it, or fails
* `distinct_eq_ok`, `distinct_eq_error`: when the chosen way succeeds, and with what
-/

namespace CharClass

/-- A strictly increasing list with the elements of another list. -/
structure Enumerates (sorted points : List Int) : Prop where
  increasing : sorted.Pairwise (· < ·)
  mem_iff (p : Int) : p ∈ sorted ↔ p ∈ points

namespace Enumerates

variable {xs ys points : List Int}

theorem unique (hx : Enumerates xs points) (hy : Enumerates ys points) : xs = ys := by
  apply hx.increasing.eq_of_mem_iff hy.increasing
  intro p
  rw [hx.mem_iff, hy.mem_iff]

end Enumerates

/-! ### By sorting -/

section Reps

variable {l : List Int}

/-- Collapsed elements that were set aside come out in front. -/
private theorem eraseReps_loop (a : Int) (l acc : List Int) :
    List.eraseRepsBy.loop (· == ·) a l acc =
      acc.reverse ++ List.eraseRepsBy.loop (· == ·) a l [] := by
  induction l generalizing a acc with
  | nil => simp [List.eraseRepsBy.loop]
  | cons b l ih =>
    rw [List.eraseRepsBy.loop, List.eraseRepsBy.loop]
    split
    · exact ih a acc
    · rw [ih b (a :: acc), ih b [a]]
      simp

private theorem eraseReps_cons_cons (a b : Int) (l : List Int) :
    (a :: b :: l).eraseReps =
      if a = b then (b :: l).eraseReps else a :: (b :: l).eraseReps := by
  change List.eraseRepsBy.loop _ a (b :: l) [] =
    if a = b then List.eraseRepsBy.loop _ b l [] else a :: List.eraseRepsBy.loop _ b l []
  rw [List.eraseRepsBy.loop]
  by_cases hab : a = b
  · subst b
    simp
  · simp only [beq_eq_false_iff_ne.2 hab, if_neg hab]
    exact eraseReps_loop b l [a]

theorem mem_eraseReps {p : Int} : p ∈ l.eraseReps ↔ p ∈ l := by
  induction l with
  | nil => rfl
  | cons a l ih =>
    cases l with
    | nil => rfl
    | cons b l =>
      rw [eraseReps_cons_cons]
      split
      · next hab =>
        subst b
        rw [ih, List.mem_cons (a := p) (b := a) (l := a :: l), or_iff_right_of_imp]
        intro hp
        exact hp ▸ List.mem_cons_self
      · rw [List.mem_cons, ih, ← List.mem_cons]

/-- In a sorted list all repetitions are neighbours. -/
theorem pairwise_eraseReps (h : l.Pairwise (· ≤ ·)) : l.eraseReps.Pairwise (· < ·) := by
  induction l with
  | nil => exact .nil
  | cons a l ih =>
    cases l with
    | nil => exact List.pairwise_singleton _ _
    | cons b l =>
      obtain ⟨ha, hl⟩ := List.pairwise_cons.1 h
      rw [eraseReps_cons_cons]
      split
      · exact ih hl
      · next hab =>
        refine List.pairwise_cons.2 ⟨?_, ih hl⟩
        intro p hp
        -- everything behind `b` is at least `b`, which is greater than `a`
        have hb : a ≤ b := ha b List.mem_cons_self
        have hbp : b ≤ p := by
          rcases List.mem_cons.1 (mem_eraseReps.1 hp) with rfl | hp
          · exact Int.le_refl p
          · exact (List.pairwise_cons.1 hl).1 p hp
        omega

end Reps

/-- Sorting and skipping equal neighbours enumerates the points. -/
theorem enumerates_distinctBySort (points : List Int) :
    Enumerates (distinctBySort points) points where
  increasing := by
    apply pairwise_eraseReps
    have htrans (a b c : Int) (hab : decide (a ≤ b) = true) (hbc : decide (b ≤ c) = true) :
        decide (a ≤ c) = true := by
      simp only [decide_eq_true_eq] at hab hbc ⊢
      exact Int.le_trans hab hbc
    have htotal (a b : Int) : (decide (a ≤ b) || decide (b ≤ a)) = true := by
      simpa using Int.le_total a b
    simpa using List.pairwise_mergeSort htrans htotal points
  mem_iff p := by
    rw [distinctBySort, mem_eraseReps, List.mem_mergeSort]

/-! ### By a table of marks -/

/-- Points that a table of marks can span: any two of them, and so the least and the greatest, have
no more numbers between them than a table can have marks. -/
def FitsTable (points : List Int) : Prop :=
  ∀ low ∈ points, ∀ high ∈ points, span low high ≤ maxSpan

section Marks

variable {low : Int} {points : List Int}

/-- A mark is there if it was before, or if it is in the table and stands for one of the points. -/
private theorem getElem?_mark (low : Int) (points : List Int) (table : Array Bool) (i : Nat) :
    (points.foldl (fun table p => table.setIfInBounds (p - low).toNat true) table)[i]? = some true ↔
      table[i]? = some true ∨ i < table.size ∧ ∃ p ∈ points, (p - low).toNat = i := by
  induction points generalizing table with
  | nil => simp
  | cons q points ih =>
    rw [List.foldl_cons, ih, Array.size_setIfInBounds, Array.getElem?_setIfInBounds]
    by_cases hq : (q - low).toNat = i
    · subst i
      by_cases hin : (q - low).toNat < table.size
      · simp [hin]
      · simp [hin]
    · simp [hq]

theorem getElem?_marks {size i : Nat} :
    (marks low size points)[i]? = some true ↔ i < size ∧ ∃ p ∈ points, (p - low).toNat = i := by
  rw [marks, getElem?_mark, Array.size_replicate, Array.getElem?_replicate]
  simp

/-- What a table reads back is in order, whatever its marks. -/
theorem pairwise_marked (low : Int) (table : Array Bool) :
    (marked low table).Pairwise (· < ·) := by
  refine List.Pairwise.filterMap _ ?_ List.pairwise_lt_range
  intro i j hij p hp q hq
  split at hp <;> split at hq <;> simp only [Option.some.injEq, reduceCtorEq] at hp hq
  omega

theorem mem_marked {table : Array Bool} {p : Int} :
    p ∈ marked low table ↔ low ≤ p ∧ table[(p - low).toNat]? = some true := by
  rw [marked, List.mem_filterMap]
  constructor
  · rintro ⟨i, -, hi⟩
    split at hi
    · next hmark =>
      obtain rfl := Option.some.inj hi
      refine ⟨by omega, ?_⟩
      rwa [show (low + i - low).toNat = i by omega]
    · cases hi
  · rintro ⟨hlow, hmark⟩
    have hsize := (Array.getElem?_eq_some_iff.1 hmark).1
    refine ⟨(p - low).toNat, List.mem_range.2 hsize, ?_⟩
    rw [if_pos hmark]
    congr 1
    omega

/-- A table from the least to the greatest point reads back all points. -/
theorem enumerates_marked {high : Int} (hlow : ∀ p ∈ points, low ≤ p)
    (hhigh : ∀ p ∈ points, p ≤ high) :
    Enumerates (marked low (marks low (span low high).toNat points)) points where
  increasing := pairwise_marked _ _
  mem_iff p := by
    rw [mem_marked, getElem?_marks]
    constructor
    · rintro ⟨hp, -, q, hq, heq⟩
      have := hlow q hq
      obtain rfl : q = p := by omega
      exact hq
    · intro hp
      have hl := hlow p hp
      have hh := hhigh p hp
      exact ⟨hl, by unfold span; omega, p, hp, rfl⟩

theorem exists_extremes (h : points ≠ []) :
    ∃ low ∈ points, ∃ high ∈ points, points.min? = some low ∧ points.max? = some high ∧
      (∀ p ∈ points, low ≤ p) ∧ ∀ p ∈ points, p ≤ high := by
  obtain ⟨low, hmin⟩ := Option.isSome_iff_exists.1 (List.isSome_min?_of_ne_nil h)
  obtain ⟨high, hmax⟩ := Option.isSome_iff_exists.1 (List.isSome_max?_of_ne_nil h)
  obtain ⟨hlow, hleast⟩ := List.min?_eq_some_iff.1 hmin
  obtain ⟨hhigh, hgreatest⟩ := List.max?_eq_some_iff.1 hmax
  exact ⟨low, hlow, high, hhigh, hmin, hmax, hleast, hgreatest⟩

/-- Points that are in order without repetitions stay as they are. -/
theorem distinctBySort_of_increasing (h : points.Pairwise (· < ·)) :
    distinctBySort points = points :=
  (enumerates_distinctBySort points).unique ⟨h, fun _ => Iff.rfl⟩

/-- A table succeeds on points that it can span, with the same list as sorting. -/
theorem distinctByMarks_eq_ok (h : FitsTable points) :
    distinctByMarks points = .ok (distinctBySort points) := by
  by_cases hnil : points = []
  · subst points
    rw [distinctBySort_of_increasing .nil]
    rfl
  · obtain ⟨low, hlow, high, hhigh, hmin, hmax, hleast, hgreatest⟩ := exists_extremes hnil
    rw [distinctByMarks, hmin, hmax]
    simp only [if_pos (h low hlow high hhigh)]
    rw [(enumerates_marked hleast hgreatest).unique (enumerates_distinctBySort points)]

/-- A table fails on points that it cannot span. -/
theorem distinctByMarks_eq_error (h : ¬FitsTable points) :
    distinctByMarks points = .error .spanTooWide := by
  have hnil : points ≠ [] := by
    rintro rfl
    exact h fun p hp => by cases hp
  obtain ⟨low, hlow, high, hhigh, hmin, hmax, hleast, hgreatest⟩ := exists_extremes hnil
  rw [distinctByMarks, hmin, hmax]
  refine if_neg fun hspan => h ?_
  intro p hp q hq
  have hp' := hleast p hp
  have hq' := hgreatest q hq
  unfold span at hspan ⊢
  omega

end Marks

/-! ### By the chosen way -/

section Chosen

variable {threshold : Int} {points sorted : List Int}

theorem distinct_eq_ok (h : (points.length : Int) ≤ threshold ∨ FitsTable points) :
    distinct threshold points = .ok (distinctBySort points) := by
  rw [distinct, Strategy.choose]
  split
  · next hmany => exact distinctByMarks_eq_ok (h.resolve_left (Int.not_le.2 hmany))
  · rfl

theorem distinct_eq_error (hmany : threshold < points.length) (hwide : ¬FitsTable points) :
    distinct threshold points = .error .spanTooWide := by
  rw [distinct, Strategy.choose, if_pos hmany]
  exact distinctByMarks_eq_error hwide

theorem eq_spanTooWide_of_distinct_eq_error {fault : Fault}
    (h : distinct threshold points = .error fault) : fault = .spanTooWide := by
  by_cases hroom : (points.length : Int) ≤ threshold ∨ FitsTable points
  · rw [distinct_eq_ok hroom] at h
    cases h
  · rw [not_or, Int.not_le] at hroom
    rw [distinct_eq_error hroom.1 hroom.2] at h
    exact (Except.error.inj h).symm

/-- Whatever comes out enumerates the points. -/
theorem enumerates_of_distinct_eq_ok (h : distinct threshold points = .ok sorted) :
    Enumerates sorted points := by
  by_cases hroom : (points.length : Int) ≤ threshold ∨ FitsTable points
  · rw [distinct_eq_ok hroom] at h
    obtain rfl := Except.ok.inj h
    exact enumerates_distinctBySort points
  · rw [not_or, Int.not_le] at hroom
    rw [distinct_eq_error hroom.1 hroom.2] at h
    cases h

end Chosen

end CharClass
