import CharClass.Proofs.TokenStream

/-!
# Tokens in one pass

The tokens of a list of points can be written in one pass over the points that keeps one run open.
A point that follows the last of the open run goes into the run. Any other point closes it, and
opens a run of its own. What has been read so far is never lost on the way: the tokens written so
far stand for all of it but the open run, which is the longest run at its end.

## Main definitions

* `Token.ofEnds`: the tokens that a run is closed with
* `Pass`, `Pass.next`, `Pass.tokens`: a pass, one step of it, and what it writes if it ends
* `Pass.Follows`: what a pass knows of the points that it has read

## Main statements

* `Pass.Follows.next`, `Pass.Follows.foldl`: one step, and a whole pass
* `Pass.Follows.points_eq`, `Pass.Follows.tokens_eq`: nothing is lost, and the tokens are those of
  `Token.ofPoints`
* `ofPoints_lossless`: whatever the list, its tokens stand for it
-/

namespace CharClass

/-! ### Runs -/

namespace Token

variable {first last : Int} {xs ys run : List Int}

theorem isRun_points_range (first last : Int) : IsRun (range first last).points := by
  rw [IsRun, List.isChain_iff_getElem]
  intro i hi
  simp only [points, List.getElem_map, List.getElem_range, beq_iff_eq]
  omega

/-- Where a point does not follow the one before it, the tokens can be cut as well. -/
theorem ofPoints_append (hgap : ∀ a ∈ xs.getLast?, ∀ b ∈ ys.head?, b ≠ a + 1) :
    ofPoints (xs ++ ys) = ofPoints xs ++ ofPoints ys := by
  have hsplit : (xs ++ ys).splitBy (fun a b => b == a + 1) =
      xs.splitBy (fun a b => b == a + 1) ++ ys.splitBy (fun a b => b == a + 1) :=
    List.splitBy_append fun a ha b hb => beq_eq_false_iff_ne.2 (hgap a ha b hb)
  rw [ofPoints, hsplit, List.flatMap_append]
  rfl

theorem ofPoints_of_run (hne : run ≠ []) (h : IsRun run) : ofPoints run = ofRun run := by
  rw [ofPoints, List.splitBy_of_isChain hne h, List.flatMap_singleton]

/-- The tokens of the run between two ends. -/
def ofEnds (first last : Int) : List Token :=
  if 1 < last - first then [range first last] else (range first last).points.map single

theorem ofPoints_points_range (h : first ≤ last) :
    ofPoints (range first last).points = ofEnds first last := by
  have hrun := isRun_points_range first last
  have hlength := length_points_range (first + 1) last
  rw [points_range_cons h] at hrun
  rw [ofEnds, points_range_cons h, ofPoints_of_run (List.cons_ne_nil _ _) hrun]
  split
  · next hlong =>
    rw [ofRun_of_long hrun (by omega)]
    congr 2
    omega
  · next hshort => exact ofRun_of_short (by simp only [List.length_cons]; omega)

end Token

/-! ### The pass -/

/-- A pass over a list of points: the tokens that it has written, and the run that it keeps open. -/
structure Pass where
  written : List Token
  first : Int
  last : Int

namespace Pass

/-- A pass that has read one point. -/
def start (p : Int) : Pass where
  written := []
  first := p
  last := p

/-- All tokens of a pass that ends here: it closes its run. -/
def tokens (s : Pass) : List Token :=
  s.written ++ Token.ofEnds s.first s.last

/-- One more point, which goes into the open run or closes it. -/
def next (s : Pass) (p : Int) : Pass :=
  if p = s.last + 1 then { s with last := p } else { written := s.tokens, first := p, last := p }

/-- The points that a pass stands for: those of its tokens, and those of its open run. -/
def points (s : Pass) : List Int :=
  s.written.flatMap Token.points ++ (Token.range s.first s.last).points

/-- What a pass knows of the points that it has read: its open run is the longest at their end, and
the tokens of what comes before it are written. -/
structure Follows (s : Pass) (before seen : List Int) : Prop where
  seen_eq : before ++ (Token.range s.first s.last).points = seen
  written_eq : s.written = Token.ofPoints before
  ordered : s.first ≤ s.last
  longest : ∀ p ∈ before.getLast?, s.first ≠ p + 1

variable {s : Pass} {p : Int} {before seen : List Int}

theorem follows_start (p : Int) : (start p).Follows [] [p] where
  seen_eq := Token.points_range_self p
  written_eq := rfl
  ordered := Int.le_refl p
  longest q hq := by cases hq

namespace Follows

theorem tokens_eq (h : s.Follows before seen) : s.tokens = Token.ofPoints seen := by
  rw [tokens, h.written_eq, ← Token.ofPoints_points_range h.ordered, ← Token.ofPoints_append,
    h.seen_eq]
  intro a ha b hb
  rw [Token.head?_points_range h.ordered] at hb
  cases hb
  exact h.longest a ha

theorem points_eq (h : s.Follows before seen) : s.points = seen := by
  rw [points, h.written_eq, Token.flatMap_points_ofPoints, h.seen_eq]

theorem getLast?_seen (h : s.Follows before seen) : seen.getLast? = some s.last := by
  rw [← h.seen_eq, List.getLast?_append, Token.getLast?_points_range h.ordered]
  rfl

/-- One step: the open run grows by the point, or all that was read before it is written. -/
theorem next (h : s.Follows before seen) (p : Int) :
    ∃ before, (s.next p).Follows before (seen ++ [p]) := by
  rw [Pass.next]
  split
  · next hp =>
    refine ⟨before, ?_, h.written_eq, ?_, h.longest⟩
    · show before ++ (Token.range s.first p).points = seen ++ [p]
      rw [← h.seen_eq, List.append_assoc, Token.points_range_concat (b := p), hp,
        Int.add_sub_cancel]
      have := h.ordered
      omega
    · have := h.ordered
      show s.first ≤ p
      omega
  · next hp =>
    refine ⟨seen, ?_, h.tokens_eq, Int.le_refl p, ?_⟩
    · show seen ++ (Token.range p p).points = seen ++ [p]
      rw [Token.points_range_self]
    · intro q hq
      rw [h.getLast?_seen] at hq
      cases hq
      exact hp

/-- A whole pass, by induction on the points that are left. -/
theorem foldl (h : s.Follows before seen) (rest : List Int) :
    ∃ before, (rest.foldl Pass.next s).Follows before (seen ++ rest) := by
  induction rest generalizing s before seen with
  | nil => exact ⟨before, by rwa [List.append_nil]⟩
  | cons p rest ih =>
    obtain ⟨before', hnext⟩ := h.next p
    obtain ⟨before'', hrest⟩ := ih hnext
    refine ⟨before'', ?_⟩
    rwa [List.append_assoc] at hrest

end Follows

/-- A pass that has read a point and some more. -/
def reading (first : Int) (seen : List Int) : Pass :=
  seen.foldl next (start first)

theorem follows_reading (first : Int) (seen : List Int) :
    ∃ before, (reading first seen).Follows before (first :: seen) :=
  (follows_start first).foldl seen

end Pass

/-! ### Nothing is lost -/

/-- The tokens of a list of points stand for exactly these points, in their order and with their
repetitions, and none of them stands for nothing. A single pass writes them, and at each stage of it
the tokens written so far and the open run stand for what was read so far. -/
theorem ofPoints_lossless (points : List Int) :
    (Token.ofPoints points).flatMap Token.points = points ∧
      (∀ t ∈ Token.ofPoints points, t.points ≠ []) ∧
      ∀ first seen rest, points = first :: seen ++ rest →
        (Pass.reading first seen).points = first :: seen ∧
          (Pass.reading first (seen ++ rest)).tokens = Token.ofPoints points := by
  refine ⟨Token.flatMap_points_ofPoints points, ?_, ?_⟩
  · intro t ht
    exact Token.points_ne_nil (Token.ordered_of_mem_ofPoints ht)
  · rintro first seen rest rfl
    obtain ⟨_, hseen⟩ := Pass.follows_reading first seen
    obtain ⟨_, hall⟩ := Pass.follows_reading first (seen ++ rest)
    exact ⟨hseen.points_eq, hall.tokens_eq⟩

/-- Neither order nor repetitions are mended. -/
example : Token.ofPoints [7, 8, 9, 9, 8, -1, 0] =
    [.range 7 9, .single 9, .single 8, .single (-1), .single 0] := by decide

end CharClass
