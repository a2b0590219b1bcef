import CharClass.Proofs.Pattern

/-!
# What the tokens of a set denote

Expanded in order, the tokens of a set are its distinct points without the three that act by their
place, each once and in increasing order. So no token reaches over one of the three, though it and
all its neighbours be members, and no two tokens overlap.

## Main statements

* `tokens_denote`: the tokens of a set whose members all stand for points
-/

namespace CharClass

open Value (StandsFor)

variable {tokens : List Token} {input : Input} {items : List Value} {points : List Int}

/-- Tokens whose expansion increases follow each other without overlap. -/
theorem pairwise_lt_of_increasing (h : (tokens.flatMap Token.points).Pairwise (· < ·)) :
    tokens.Pairwise fun t u => ∀ p ∈ t.points, ∀ q ∈ u.points, p < q :=
  (List.pairwise_flatMap.1 h).2

/-- The tokens of a set exist if its general members are not too many or not too far apart. They
enumerate the points of the set other than the three that act by their place. -/
theorem tokens_denote (settings : Settings) (hmembers : input.members = .ok items)
    (hpoints : List.Forall₂ StandsFor items points)
    (hroom : ((points.filter fun p => !isPlaced p).length : Int) ≤ settings.threshold ∨
      FitsTable (points.filter fun p => !isPlaced p)) :
    ∃ tokens, (input.tokens settings).result = .ok tokens ∧
      (tokens.flatMap Token.points).Pairwise (· < ·) ∧
      (∀ p, p ∈ tokens.flatMap Token.points ↔
        p ∈ points ∧ p ≠ CodePoint.closeBracket.val ∧ p ≠ CodePoint.caret.val ∧
          p ≠ CodePoint.dash.val) ∧
      (∀ t ∈ tokens, ∀ p ∈ t.points, isPlaced p = false) ∧
      tokens.Pairwise fun t u => ∀ p ∈ t.points, ∀ q ∈ u.points, p < q := by
  obtain ⟨c, hc⟩ := Census.exists_ofItems_eq_ok hpoints hroom
  have h := Census.describes_of_ofItems hc
  have hincreasing : (c.tokens.flatMap Token.points).Pairwise (· < ·) := by
    rw [c.flatMap_points_tokens]
    exact h.enumerates.increasing
  refine ⟨c.tokens, ?_, hincreasing, ?_, ?_, pairwise_lt_of_increasing hincreasing⟩
  · rw [Input.tokens_result_of_members hmembers, hc]
    rfl
  · intro p
    rw [c.flatMap_points_tokens, h.mem_points, mem_pointSet_iff_of_forall₂ hpoints,
      ← Bool.not_eq_true, isPlaced_iff, not_or, not_or]
  · intro t ht p hp
    exact h.isPlaced_eq_false_of_mem_tokens ht hp

/-- The three that act by their place with all of their neighbours, offered in every way. -/
def neighbourhood : List Value :=
  [.octets [0x5E], .int 0x2D, .text [CodePoint.backslash], .int 0x5D, .buffer [0x5F], .int 0x2C,
    .int 0x2E, .octets [0x2E], .bool true, .int (-1), .int 0]

/-- The points of the neighbourhood, in the order of its items. -/
def neighbourhoodPoints : List Int :=
  [0x5E, 0x2D, 0x5C, 0x5D, 0x5F, 0x2C, 0x2E, 0x2E, 1, -1, 0]

theorem tokens_denote_neighbourhood :
    (Input.many neighbourhood).members = .ok neighbourhood ∧
      List.Forall₂ StandsFor neighbourhood neighbourhoodPoints ∧
      FitsTable (neighbourhoodPoints.filter fun p => !isPlaced p) ∧
      ∃ tokens, ((Input.many neighbourhood).tokens ⟨false, 2⟩).result = .ok tokens ∧
        (tokens.flatMap Token.points).Pairwise (· < ·) ∧
        (∀ p, p ∈ tokens.flatMap Token.points ↔
          p ∈ neighbourhoodPoints ∧ p ≠ CodePoint.closeBracket.val ∧ p ≠ CodePoint.caret.val ∧
            p ≠ CodePoint.dash.val) ∧
        (∀ t ∈ tokens, ∀ p ∈ t.points, isPlaced p = false) ∧
        tokens.Pairwise fun t u => ∀ p ∈ t.points, ∀ q ∈ u.points, p < q := by
  have hpoints : List.Forall₂ StandsFor neighbourhood neighbourhoodPoints := by
    unfold neighbourhood neighbourhoodPoints
    repeat' constructor
  have hfits : FitsTable (neighbourhoodPoints.filter fun p => !isPlaced p) := by
    unfold FitsTable
    decide
  exact ⟨rfl, hpoints, hfits, tokens_denote ⟨false, 2⟩ rfl hpoints (.inr hfits)⟩

end CharClass
