import CharClass.Proofs.Pattern
import Mathlib.Data.Int.Init

/-!
# The point that stands in the way

A bracket expression that cannot be spelled fails at one point. Tokens are spelled in increasing
order, and of each token only the ends are, the first end first. The ends of the tokens of an
increasing list are the points at the edge of a run, where the point before or the point behind is
missing. So the least of these that is no code point stands in the way: the smallest point if that
is negative, and otherwise the smallest point that is too large. Only if a run of code points goes
on beyond the greatest one, it is the far end of that run.

## Main definitions

* `Obstacle`: the point at which spelling fails
* `OnEdge`: a point at the edge of a run

## Main statements

* `Token.mem_ends_ofPoints_iff`: the ends of tokens are the points on an edge
* `Token.spellAll_eq_error`: tokens fail at the least end that is no code point
* `exists_obstacle`, `Obstacle.least`, `Obstacle.unique`: there is one obstacle, which is the least
  bad point on an edge
* `pattern_fails_at_obstacle`: the fault of a set with a point that is no code point
-/

namespace CharClass

/-- A point at the edge of a run: the point before or the point behind is missing. -/
def OnEdge (points : List Int) (p : Int) : Prop :=
  p - 1 ∉ points ∨ p + 1 ∉ points

namespace Token

variable {t : Token} {tokens : List Token} {a p q : Int} {run points : List Int} {fault : Fault}

/-! ### The ends of tokens -/

/-- The tokens of a run show its first and its last point. -/
theorem mem_ends_ofRun_iff (h : IsRun (a :: run)) :
    p ∈ (ofRun (a :: run)).flatMap ends ↔ p = a ∨ p = a + run.length := by
  by_cases hlong : 2 ≤ run.length
  · rw [ofRun_of_long h hlong, List.flatMap_singleton, ends, List.mem_pair]
  · rw [ofRun_of_short (by simp only [List.length_cons]; omega), List.flatMap_map]
    simp only [ends, List.flatMap_singleton', mem_run_iff h]
    omega

/-- The ends of the tokens of an increasing list are its points on an edge. -/
theorem mem_ends_ofPoints_iff (hsorted : points.Pairwise (· < ·)) :
    p ∈ (ofPoints points).flatMap ends ↔ p ∈ points ∧ OnEdge points p := by
  have h := maximalRuns_splitBy points
  rw [ofPoints_eq_of_maximalRuns h, List.flatMap_assoc, List.mem_flatMap]
  generalize points.splitBy (fun a b => b == a + 1) = runs at h
  have hmem {q : Int} {run : List Int} (hrun : run ∈ runs) (hq : q ∈ run) : q ∈ points :=
    h.flatten_eq ▸ List.mem_flatten.2 ⟨run, hrun, hq⟩
  constructor
  · rintro ⟨run, hrun, hp⟩
    cases run with
    | nil => exact absurd rfl (h.nonempty _ hrun)
    | cons a run =>
      have hchain := h.isRun _ hrun
      obtain ⟨hbefore, hbehind⟩ := notMem_around_run h hsorted hrun
      rcases (mem_ends_ofRun_iff hchain).1 hp with rfl | rfl
      · exact ⟨hmem hrun List.mem_cons_self, .inl hbefore⟩
      · exact ⟨hmem hrun ((mem_run_iff hchain).2 ⟨by omega, Int.le_refl _⟩), .inr hbehind⟩
  · rintro ⟨hp, hedge⟩
    rw [← h.flatten_eq] at hp
    obtain ⟨run, hrun, hp⟩ := List.mem_flatten.1 hp
    cases run with
    | nil => cases hp
    | cons a run =>
      have hchain := h.isRun _ hrun
      refine ⟨_, hrun, (mem_ends_ofRun_iff hchain).2 ?_⟩
      -- inside a run, a point has both of its neighbours
      have hinside {q : Int} (hq : a ≤ q) (hq' : q ≤ a + run.length) : q ∈ points :=
        hmem hrun ((mem_run_iff hchain).2 ⟨hq, hq'⟩)
      obtain ⟨hlow, hhigh⟩ := (mem_run_iff hchain).1 hp
      by_contra hne
      rcases hedge with hmissing | hmissing
      · exact hmissing (hinside (by omega) (by omega))
      · exact hmissing (hinside (by omega) (by omega))

/-! ### Where spelling fails -/

/-- A token fails at its first end that is no code point. -/
theorem spelling_eq_error (ht : t.Ordered) (hq : q ∈ t.ends)
    (hleast : ∀ p ∈ t.ends, p < q → CodePoint.InDomain p)
    (hfault : CodePoint.ofPoint q = .error fault) : t.spelling = .error fault := by
  have hpoint : pointSpelling q = .error fault := map_eq_error_iff.2 hfault
  cases t with
  | single p =>
    obtain rfl := List.mem_singleton.1 hq
    exact hpoint
  | range first last =>
    by_cases hfirst : q = first
    · subst q
      exact bind_eq_error_iff.2 (.inl hpoint)
    · -- the first end comes before and can be spelled
      obtain rfl : q = last := (List.mem_pair.1 hq).resolve_left hfirst
      have hlt : first < q := by
        have hle : first ≤ q := ht
        omega
      obtain ⟨c, rfl⟩ := CodePoint.inDomain_iff.1 (hleast first List.mem_cons_self hlt)
      refine bind_eq_error_iff.2 (.inr ⟨c.bracketed, pointSpelling_eq_ok_iff.2 ⟨c, rfl, rfl⟩, ?_⟩)
      exact bind_eq_error_iff.2 (.inl hpoint)

theorem spellAll_cons_eq_error_iff :
    spellAll (t :: tokens) = .error fault ↔
      t.spelling = .error fault ∨ ∃ front, t.spelling = .ok front ∧
        spellAll tokens = .error fault := by
  simp only [spellAll, map_eq_error_iff, List.mapM_cons, bind_eq_error_iff]
  refine or_congr_right (exists_congr fun front => and_congr_right fun _ => or_iff_left ?_)
  rintro ⟨rest, -, h⟩
  cases h

/-- Tokens in increasing order fail at the least end that is no code point. -/
theorem spellAll_eq_error (hordered : ∀ t ∈ tokens, t.Ordered)
    (hincreasing : (tokens.flatMap Token.points).Pairwise (· < ·)) (hq : q ∈ tokens.flatMap ends)
    (hleast : ∀ p ∈ tokens.flatMap ends, p < q → CodePoint.InDomain p)
    (hfault : CodePoint.ofPoint q = .error fault) : spellAll tokens = .error fault := by
  induction tokens with
  | nil => cases hq
  | cons t tokens ih =>
    rw [List.forall_mem_cons] at hordered
    rw [List.flatMap_cons, List.pairwise_append] at hincreasing
    rw [List.flatMap_cons, List.forall_mem_append] at hleast
    rw [spellAll_cons_eq_error_iff]
    rcases List.mem_append.1 hq with hq | hq
    · exact .inl (spelling_eq_error hordered.1 hq hleast.1 hfault)
    · -- the ends of this token come before, so it can be spelled
      have hbefore : ∀ p ∈ t.ends, CodePoint.InDomain p := by
        intro p hp
        obtain ⟨u, hu, hqu⟩ := List.mem_flatMap.1 hq
        refine hleast.1 p hp (hincreasing.2.2 p (mem_points_of_mem_ends hordered.1 hp) q ?_)
        exact List.mem_flatMap.2 ⟨u, hu, mem_points_of_mem_ends (hordered.2 u hu) hqu⟩
      obtain ⟨front, hfront⟩ := exists_spelling_iff.2 hbefore
      exact .inr ⟨front, hfront, ih hordered.2 hincreasing.2.1 hq hleast.2⟩

/-- The tokens of an increasing list fail at the least point on an edge that is no code point. -/
theorem spellAll_ofPoints_eq_error (hsorted : points.Pairwise (· < ·)) (hq : q ∈ points)
    (hedge : OnEdge points q)
    (hleast : ∀ p ∈ points, OnEdge points p → p < q → CodePoint.InDomain p)
    (hfault : CodePoint.ofPoint q = .error fault) :
    spellAll (ofPoints points) = .error fault := by
  refine spellAll_eq_error (fun t ht => ordered_of_mem_ofPoints ht) ?_
    ((mem_ends_ofPoints_iff hsorted).2 ⟨hq, hedge⟩) ?_ hfault
  · rwa [flatMap_points_ofPoints]
  · intro p hp
    obtain ⟨hmem, hpedge⟩ := (mem_ends_ofPoints_iff hsorted).1 hp
    exact hleast p hmem hpedge

end Token

/-! ### Obstacles -/

/-- The point at which the spelling of some points fails. -/
inductive Obstacle (points : List Int) : Int → Prop where
  /-- The smallest point, if it is negative. -/
  | negative {q : Int} (hmem : q ∈ points) (hneg : q < 0) (hleast : ∀ p ∈ points, q ≤ p) :
    Obstacle points q
  /-- Otherwise, if a run goes on beyond the greatest code point, the last point of that run. -/
  | straddling {q : Int} (hnonneg : ∀ p ∈ points, 0 ≤ p)
    (hgreatest : (CodePoint.greatest : Int) ∈ points) (hbeyond : CodePoint.greatest < q)
    (hrun : ∀ p : Int, CodePoint.greatest < p → p ≤ q → p ∈ points) (hend : q + 1 ∉ points) :
    Obstacle points q
  /-- Otherwise, the smallest point beyond the greatest code point. -/
  | beyond {q : Int} (hnonneg : ∀ p ∈ points, 0 ≤ p)
    (hgap : (CodePoint.greatest : Int) ∉ points ∨ (CodePoint.greatest : Int) + 1 ∉ points)
    (hmem : q ∈ points) (hbeyond : CodePoint.greatest < q)
    (hleast : ∀ p ∈ points, CodePoint.greatest < p → q ≤ p) : Obstacle points q

namespace Obstacle

variable {points general : List Int} {q : Int}

/-- An obstacle is the least point on an edge that is no code point. -/
theorem least (h : Obstacle points q) :
    q ∈ points ∧ OnEdge points q ∧ ¬CodePoint.InDomain q ∧
      ∀ p ∈ points, OnEdge points p → p < q → CodePoint.InDomain p := by
  unfold CodePoint.InDomain
  cases h with
  | negative hmem hneg hleast =>
    refine ⟨hmem, .inl fun hp => ?_, by omega, fun p hp _ hlt => ?_⟩
    · have := hleast _ hp
      omega
    · have := hleast p hp
      omega
  | straddling hnonneg hgreatest hbeyond hrun hend =>
    refine ⟨hrun q hbeyond (Int.le_refl q), .inr hend, by omega, fun p hp hedge hlt => ?_⟩
    by_contra hbad
    have := hnonneg p hp
    have hlarge : CodePoint.greatest < p := by omega
    -- all neighbours of a point inside the run belong to it
    rcases hedge with hmissing | hmissing
    · by_cases hfirst : p - 1 = CodePoint.greatest
      · exact hmissing (hfirst ▸ hgreatest)
      · exact hmissing (hrun _ (by omega) (by omega))
    · exact hmissing (hrun _ (by omega) (by omega))
  | beyond hnonneg hgap hmem hbeyond hleast =>
    refine ⟨hmem, .inl fun hp => ?_, by omega, fun p hp _ hlt => ?_⟩
    · by_cases hfirst : q = CodePoint.greatest + 1
      · subst q
        rw [Int.add_sub_cancel] at hp
        exact hgap.elim (fun h => h hp) fun h => h hmem
      · have := hleast _ hp (by omega)
        omega
    · have := hnonneg p hp
      by_contra hbad
      have := hleast p hp (by omega)
      omega

theorem unique {r : Int} (h : Obstacle points q) (h' : Obstacle points r) : q = r := by
  obtain ⟨hq, hqedge, hqbad, hqleast⟩ := h.least
  obtain ⟨hr, hredge, hrbad, hrleast⟩ := h'.least
  rcases Int.lt_trichotomy q r with hlt | heq | hgt
  · exact absurd (hrleast q hq hqedge hlt) hqbad
  · exact heq
  · exact absurd (hqleast r hr hredge hgt) hrbad

/-- The points from zero up to the greatest code point do not matter. -/
theorem of_subset (h : Obstacle points q) (hsub : general ⊆ points)
    (hmem : ∀ p ∈ points, p < 0 ∨ CodePoint.greatest ≤ p → p ∈ general) : Obstacle general q := by
  cases h with
  | negative hq hneg hleast =>
    exact .negative (hmem q hq (.inl hneg)) hneg fun p hp => hleast p (hsub hp)
  | straddling hnonneg hgreatest hbeyond hrun hend =>
    refine .straddling (fun p hp => hnonneg p (hsub hp)) ?_ hbeyond ?_ fun hp => hend (hsub hp)
    · exact hmem _ hgreatest (.inr (Int.le_refl _))
    · exact fun p hp hp' => hmem p (hrun p hp hp') (.inr (by omega))
  | beyond hnonneg hgap hq hbeyond hleast =>
    refine .beyond (fun p hp => hnonneg p (hsub hp)) ?_ ?_ hbeyond fun p hp => hleast p (hsub hp)
    · exact hgap.imp (fun h hp => h (hsub hp)) fun h hp => h (hsub hp)
    · exact hmem q hq (.inr (by omega))

end Obstacle

/-- Among points of a kind there is a least one. -/
theorem exists_least {points : List Int} {P : Int → Prop} (h : ∃ p ∈ points, P p) :
    ∃ q ∈ points, P q ∧ ∀ p ∈ points, P p → q ≤ p := by
  classical
  obtain ⟨p, hp, hkind⟩ := h
  have hmem {p : Int} : p ∈ points.filter (fun p => decide (P p)) ↔ p ∈ points ∧ P p := by
    rw [List.mem_filter, decide_eq_true_iff]
  obtain ⟨q, hq, -, -, -, -, hleast, -⟩ :=
    exists_extremes (List.ne_nil_of_mem (hmem.2 ⟨hp, hkind⟩))
  exact ⟨q, (hmem.1 hq).1, (hmem.1 hq).2, fun p hp hkind => hleast p (hmem.2 ⟨hp, hkind⟩)⟩

/-- The run from a point on ends somewhere. -/
theorem exists_end_of_run {points : List Int} {first : Int} (hfirst : first ∈ points) :
    ∃ q, first ≤ q ∧ (∀ p, first ≤ p → p ≤ q → p ∈ points) ∧ q + 1 ∉ points := by
  obtain ⟨-, -, high, hhigh, -, -, -, hgreatest⟩ := exists_extremes (List.ne_nil_of_mem hfirst)
  have hstop : ∃ p ∈ points, first ≤ p ∧ p + 1 ∉ points := by
    refine ⟨high, hhigh, hgreatest first hfirst, fun hnext => ?_⟩
    have := hgreatest _ hnext
    omega
  obtain ⟨q, -, ⟨hle, hend⟩, hleast⟩ := exists_least hstop
  refine ⟨q, hle, fun p hp => ?_, hend⟩
  -- by induction from the first point on, since no point before `q` is the last of a run
  induction p, hp using Int.leInduction with
  | base => exact fun _ => hfirst
  | succ p hp ih =>
    intro hpq
    have hmem : p ∈ points := ih (by omega)
    by_contra hnext
    have := hleast p hmem ⟨hp, hnext⟩
    omega

/-- Where a point is no code point, there is an obstacle. -/
theorem exists_obstacle {points : List Int} (hbad : ∃ p ∈ points, ¬CodePoint.InDomain p) :
    ∃ q, Obstacle points q := by
  unfold CodePoint.InDomain at hbad
  by_cases hneg : ∃ p ∈ points, p < 0
  · obtain ⟨q, hq, hneg, hleast⟩ := exists_least hneg
    refine ⟨q, .negative hq hneg fun p hp => ?_⟩
    by_cases hp' : p < 0
    · exact hleast p hp hp'
    · omega
  · have hnonneg : ∀ p ∈ points, 0 ≤ p := by simpa using hneg
    by_cases hstraddles :
        (CodePoint.greatest : Int) ∈ points ∧ (CodePoint.greatest : Int) + 1 ∈ points
    · obtain ⟨q, hbeyond, hrun, hend⟩ := exists_end_of_run hstraddles.2
      exact ⟨q, .straddling hnonneg hstraddles.1 hbeyond hrun hend⟩
    · have hlarge : ∃ p ∈ points, CodePoint.greatest < p := by
        obtain ⟨p, hp, hbad⟩ := hbad
        have := hnonneg p hp
        exact ⟨p, hp, by omega⟩
      obtain ⟨q, hq, hbeyond, hleast⟩ := exists_least hlarge
      exact ⟨q, .beyond hnonneg (not_and_or.1 hstraddles) hq hbeyond hleast⟩

/-! ### The fault of a set -/

section Pattern

variable {settings : Settings} {items : List Value} {points : List Int} {inverse : Bool} {q : Int}

/-- What `CodePoint.ofPoint` says about a point that is no code point. -/
theorem CodePoint.exists_ofPoint_eq_error (hbad : ¬CodePoint.InDomain q) :
    ∃ fault, CodePoint.ofPoint q = .error fault ∧
      fault.category = if -0x80000000 ≤ q ∧ q ≤ 0x7FFFFFFF then .value else .overflow := by
  unfold InDomain at hbad
  unfold ofPoint
  rw [dif_neg hbad]
  split
  · exact ⟨_, rfl, rfl⟩
  · exact ⟨_, rfl, rfl⟩

/-- None of the three that act by their place is in the way, or next to a point that is. -/
theorem isPlaced_eq_false_of_outside (h : q < 0 ∨ CodePoint.greatest ≤ q) : isPlaced q = false := by
  rw [← Bool.not_eq_true, isPlaced_iff]
  unfold CodePoint.greatest at h
  simp only [CodePoint.closeBracket, CodePoint.caret, CodePoint.dash]
  omega

theorem Census.Describes.bracketPattern_eq_error {c : Census} {fault : Fault}
    (h : c.Describes items) (hpoints : List.Forall₂ Value.StandsFor items points)
    (hq : Obstacle points q) (hfault : CodePoint.ofPoint q = .error fault) :
    c.bracketPattern inverse = .error fault := by
  have hmem (p : Int) : p ∈ c.points ↔ p ∈ points ∧ isPlaced p = false := by
    rw [h.mem_points, mem_pointSet_iff_of_forall₂ hpoints]
  have hgeneral : Obstacle c.points q := by
    refine hq.of_subset (fun p hp => ((hmem p).1 hp).1) fun p hp houtside => ?_
    exact (hmem p).2 ⟨hp, isPlaced_eq_false_of_outside houtside⟩
  obtain ⟨hqmem, hedge, -, hleast⟩ := hgeneral.least
  rw [bracketPattern, map_eq_error_iff]
  exact Token.spellAll_ofPoints_eq_error h.enumerates.increasing hqmem hedge hleast hfault

/-- If some point of a set is no code point, and its pattern is one in brackets, then the pattern
fails with the fault of the obstacle, whatever other bad points there are: a bad value within 32
bits, and an overflow otherwise. -/
theorem pattern_fails_at_obstacle (settings : Settings)
    (hpoints : List.Forall₂ Value.StandsFor items points)
    (hmany : inverse = true ∨ (pointSet items).Nontrivial)
    (hbad : ∃ p ∈ points, ¬CodePoint.InDomain p)
    (hroom : ((points.filter fun p => !isPlaced p).length : Int) ≤ settings.threshold ∨
      FitsTable (points.filter fun p => !isPlaced p)) :
    (∃! q, Obstacle points q) ∧
      ∀ q, Obstacle points q → ∃ fault, CodePoint.ofPoint q = .error fault ∧
        ((Input.many items).pattern settings inverse).result = .error fault ∧
        fault.category = if -0x80000000 ≤ q ∧ q ≤ 0x7FFFFFFF then .value else .overflow := by
  refine ⟨existsUnique_of_exists_of_unique (exists_obstacle hbad) fun _ _ => Obstacle.unique,
    fun q hq => ?_⟩
  obtain ⟨fault, hfault, hcategory⟩ := CodePoint.exists_ofPoint_eq_error hq.least.2.2.1
  obtain ⟨c, hc⟩ : ∃ c, Census.ofItems settings.threshold items = .ok c :=
    Census.exists_ofItems_eq_ok hpoints hroom
  have h := Census.describes_of_ofItems hc
  have hne : items ≠ [] := by
    obtain ⟨p, hp, -⟩ := hbad
    rw [← h.nonempty_pointSet_iff]
    exact ⟨p, (mem_pointSet_iff_of_forall₂ hpoints).2 hp⟩
  refine ⟨fault, hfault, ?_, hcategory⟩
  rw [Input.pattern_of_members rfl, patternOf_result_of_census hc,
    h.pattern_eq_bracketPattern hne hmany, h.bracketPattern_eq_error hpoints hq hfault]

/-- A run that goes on beyond the greatest code point, and a point beyond 32 bits. -/
def straddlers : List Value :=
  [.int 0x110001, .int 0x80000000, .int 0x10FFFF, .text [CodePoint.backslash], .int 0x110000]

/-- The points of these, in the order of the items. -/
def straddlerPoints : List Int :=
  [0x110001, 0x80000000, 0x10FFFF, 0x5C, 0x110000]

/-- The end of the run stands in the way, though a smaller point is no code point either. -/
theorem pattern_fails_at_obstacle_straddling :
    List.Forall₂ Value.StandsFor straddlers straddlerPoints ∧
      (pointSet straddlers).Nontrivial ∧
      (∃ p ∈ straddlerPoints, ¬CodePoint.InDomain p) ∧
      FitsTable (straddlerPoints.filter fun p => !isPlaced p) ∧
      Obstacle straddlerPoints 0x110001 ∧
      ((Input.many straddlers).pattern ⟨false, 2⟩ false).result = .error .outsideDomain := by
  have hpoints : List.Forall₂ Value.StandsFor straddlers straddlerPoints := by
    unfold straddlers straddlerPoints
    repeat' constructor
  have hmany : (pointSet straddlers).Nontrivial := by
    refine ⟨0x5C, ?_, 0x10FFFF, ?_, by decide⟩
    · exact (mem_pointSet_iff_of_forall₂ hpoints).2 (by decide)
    · exact (mem_pointSet_iff_of_forall₂ hpoints).2 (by decide)
  have hbad : ∃ p ∈ straddlerPoints, ¬CodePoint.InDomain p :=
    ⟨0x110001, by decide, by decide⟩
  have hfits : FitsTable (straddlerPoints.filter fun p => !isPlaced p) := by
    unfold FitsTable
    decide
  have hobstacle : Obstacle straddlerPoints 0x110001 := by
    refine .straddling (by decide) (by decide) (by decide) (fun p hlow hhigh => ?_) (by decide)
    unfold CodePoint.greatest at hlow
    obtain rfl | rfl : p = 0x110000 ∨ p = 0x110001 := by omega
    · decide
    · decide
  obtain ⟨fault, hfault, hresult, -⟩ :=
    (pattern_fails_at_obstacle ⟨false, 2⟩ hpoints (.inr hmany) hbad (.inr hfits)).2 _ hobstacle
  obtain rfl : Fault.outsideDomain = fault := Except.error.inj hfault
  exact ⟨hpoints, hmany, hbad, hfits, hobstacle, hresult⟩

end Pattern

end CharClass
