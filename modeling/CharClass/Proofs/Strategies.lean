import CharClass.Proofs.Enumeration

/-!
# The two strategies agree

Which strategy runs shows in one way only: a table of marks may be larger than a table can be.
Where it is not, all of its marks are set in bounds, and it reads back what sorting gives. So the
threshold decides nothing but whether points that lie too far apart are a fault.

## Main definitions

* `extent`: the number of marks that a table of some points needs

## Main statements

* `fitsTable_iff_extent_le`: points fit into a table if their extent does
* `mark_in_bounds`: no mark is set outside the table
* `strategies_agree`: both strategies, and the choice between them
-/

namespace CharClass

variable {points : List Int} {low high p : Int}

/-- The number of marks that a table of the points needs: one for each number from the least to the
greatest of them, and none if there are no points. -/
def extent (points : List Int) : Int :=
  match points.min?, points.max? with
  | some low, some high => span low high
  | _, _ => 0

theorem extent_of_extremes (hmin : points.min? = some low) (hmax : points.max? = some high) :
    extent points = span low high := by
  rw [extent, hmin, hmax]

/-- The two points that lie farthest apart are the least and the greatest. -/
theorem fitsTable_iff_extent_le : FitsTable points ↔ extent points ≤ maxSpan := by
  by_cases hnil : points = []
  · subst points
    constructor
    · intro _
      decide
    · intro _ low hlow
      cases hlow
  · obtain ⟨low, hlow, high, hhigh, hmin, hmax, hleast, hgreatest⟩ := exists_extremes hnil
    rw [extent_of_extremes hmin hmax]
    constructor
    · exact fun hfits => hfits low hlow high hhigh
    · intro hspan p hp q hq
      have hp' := hleast p hp
      have hq' := hgreatest q hq
      unfold span at hspan ⊢
      omega

/-- Setting marks leaves the size of a table as it is. -/
theorem size_marks (low : Int) (size : Nat) (points : List Int) :
    (marks low size points).size = size := by
  have hfold (table : Array Bool) :
      (points.foldl (fun table p => table.setIfInBounds (p - low).toNat true) table).size =
        table.size := by
    induction points generalizing table with
    | nil => rfl
    | cons q points ih => rw [List.foldl_cons, ih, Array.size_setIfInBounds]
  rw [marks, hfold, Array.size_replicate]

/-- In a table from the least to the greatest point, each point has its mark. -/
theorem mark_in_bounds (hmin : points.min? = some low) (hmax : points.max? = some high)
    (hp : p ∈ points) :
    0 ≤ p - low ∧ (p - low).toNat < (marks low (span low high).toNat points).size := by
  have hlow : low ≤ p := (List.min?_eq_some_iff.1 hmin).2 p hp
  have hhigh : p ≤ high := (List.max?_eq_some_iff.1 hmax).2 p hp
  rw [size_marks]
  unfold span
  omega

theorem distinctByMarks_eq_ok_iff :
    distinctByMarks points = .ok (distinctBySort points) ↔ extent points ≤ maxSpan := by
  rw [← fitsTable_iff_extent_le]
  by_cases h : FitsTable points
  · exact iff_of_true (distinctByMarks_eq_ok h) h
  · rw [distinctByMarks_eq_error h]
    exact iff_of_false nofun h

theorem distinctByMarks_overflow_iff :
    (∃ fault, distinctByMarks points = .error fault ∧ fault.category = .overflow) ↔
      maxSpan < extent points := by
  rw [← Int.not_le, ← fitsTable_iff_extent_le]
  by_cases h : FitsTable points
  · rw [distinctByMarks_eq_ok h]
    exact iff_of_false (fun ⟨_, hfault, _⟩ => nomatch hfault) (not_not_intro h)
  · exact iff_of_true ⟨.spanTooWide, distinctByMarks_eq_error h, rfl⟩ h

/-- Sorting lists the distinct points in increasing order, and so does a table of marks, whose marks
are all in bounds, exactly if it is not too large; if it is, there is an overflow. The threshold
makes no difference to points that fit into a table. To others it decides whether they are sorted or
a fault. -/
theorem strategies_agree (points : List Int) :
    (distinctBySort points).Pairwise (· < ·) ∧
      (∀ p, p ∈ distinctBySort points ↔ p ∈ points) ∧
      (∀ low high, points.min? = some low → points.max? = some high → ∀ p ∈ points,
        0 ≤ p - low ∧ (p - low).toNat < (marks low (span low high).toNat points).size) ∧
      (distinctByMarks points = .ok (distinctBySort points) ↔ extent points ≤ maxSpan) ∧
      ((∃ fault, distinctByMarks points = .error fault ∧ fault.category = .overflow) ↔
        maxSpan < extent points) ∧
      (extent points ≤ maxSpan →
        ∀ threshold, distinct threshold points = .ok (distinctBySort points)) ∧
      (maxSpan < extent points →
        ∀ threshold, distinct threshold points =
          if threshold < points.length then .error .spanTooWide
          else .ok (distinctBySort points)) := by
  have hsort := enumerates_distinctBySort points
  refine ⟨hsort.increasing, hsort.mem_iff, fun low high hmin hmax p hp => ?_,
    distinctByMarks_eq_ok_iff, distinctByMarks_overflow_iff, fun hfits threshold => ?_,
    fun hwide threshold => ?_⟩
  · exact mark_in_bounds hmin hmax hp
  · exact distinct_eq_ok (.inr (fitsTable_iff_extent_le.2 hfits))
  · split
    · next hmany =>
      exact distinct_eq_error hmany fun h => absurd (fitsTable_iff_extent_le.1 h) (Int.not_le.2 hwide)
    · next hfew => exact distinct_eq_ok (.inl (Int.not_lt.1 hfew))

/-- Three points that no table spans, in either way. -/
example : distinctBySort [0x8000000000000000, -1, 0x8000000000000000] = [-1, 0x8000000000000000] ∧
    maxSpan < extent [0x8000000000000000, -1, 0x8000000000000000] := by
  refine ⟨by cbv, by decide⟩

end CharClass
