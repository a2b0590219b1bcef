import CharClass.Proofs.Groups
import CharClass.Proofs.StandsFor
import CharClass.Token

/-!
# Tokens and the points that they stand for

Cutting a list of points into tokens loses nothing: the tokens stand for exactly the points of the
list, in its order and with its repetitions. Of a token only the ends are spelled. Since its points
lie between its ends, it can be spelled exactly if all of its points are code points.

## Main definitions

* `Token.ends`: the points that the spelling of a token shows
* `Token.firstPoint`, `Token.lastPoint`: the first and the last point of a token
* `Token.Ordered`: a token whose ends are in order

## Main statements

* `Token.flatMap_points_ofPoints`: tokens stand for the points that they were made of
* `Token.ordered_of_mem_ofPoints`: no range descends
* `Token.exists_spellAll_iff`: when tokens can be spelled
-/

namespace CharClass

theorem pointSpelling_eq_ok_iff {p : Int} {text : Text} :
    pointSpelling p = .ok text ↔ ∃ c : CodePoint, p = c.val ∧ c.bracketed = text := by
  rw [pointSpelling, map_eq_ok_iff]
  simp only [CodePoint.ofPoint_eq_ok_iff]

namespace Token

/-- The points that the spelling of a token shows. -/
def ends : Token → List Int
  | single p => [p]
  | range first last => [first, last]

/-- A token whose ends are in order. -/
def Ordered : Token → Prop
  | single _ => True
  | range first last => first ≤ last

variable {t : Token} {p a b c first last : Int} {run points : List Int}

/-! ### The points of a range -/

theorem points_range_of_lt (h : last < first) : (range first last).points = [] := by
  have hsize : (last - first + 1).toNat = 0 := by omega
  rw [points, hsize]
  rfl

theorem points_range_self (a : Int) : (range a a).points = [a] := by
  simp [points]

/-- A range can be cut in two. -/
theorem points_range_append (hac : a ≤ c + 1) (hcb : c ≤ b) :
    (range a c).points ++ (range (c + 1) b).points = (range a b).points := by
  have hsize : (b - a + 1).toNat = (c - a + 1).toNat + (b - (c + 1) + 1).toNat := by omega
  simp only [points]
  rw [hsize, List.range_add, List.map_append, List.map_map]
  congr 1
  apply List.map_congr_left
  intro i _
  simp only [Function.comp_apply]
  omega

theorem points_range_cons (h : a ≤ b) :
    (range a b).points = a :: (range (a + 1) b).points := by
  rw [← points_range_append (c := a) (by omega) h, points_range_self]
  rfl

theorem points_range_concat (h : a ≤ b) :
    (range a b).points = (range a (b - 1)).points ++ [b] := by
  rw [← points_range_append (c := b - 1) (by omega) (by omega), Int.sub_add_cancel,
    points_range_self]

theorem head?_points_range (h : first ≤ last) : (range first last).points.head? = some first := by
  rw [points_range_cons h, List.head?_cons]

theorem getLast?_points_range (h : first ≤ last) :
    (range first last).points.getLast? = some last := by
  rw [points_range_concat h, List.getLast?_concat]

theorem length_points_range (a b : Int) : (range a b).points.length = (b - a + 1).toNat := by
  rw [points, List.length_map, List.length_range]

/-! ### From points to tokens -/

/-- A run is the range from its first point on, as far as its length goes. -/
theorem run_eq_points_range (h : IsRun (a :: run)) :
    a :: run = (range a (a + run.length)).points := by
  induction run generalizing a with
  | nil => simp [points]
  | cons b run ih =>
    obtain ⟨hab, hrun⟩ := List.isChain_cons_cons.1 h
    obtain rfl := eq_of_beq hab
    rw [List.length_cons, points_range_cons (by omega), ih hrun]
    congr 3
    omega

theorem getLast?_run (h : IsRun (a :: run)) : (a :: run).getLast? = some (a + run.length) := by
  rw [run_eq_points_range h, getLast?_points_range (by omega)]

theorem getLast_run (h : IsRun (a :: run)) :
    (a :: run).getLast (List.cons_ne_nil a run) = a + run.length :=
  List.getLast_of_getLast?_eq_some (getLast?_run h)

/-- A run holds all that lies between its ends. -/
theorem mem_run_iff (h : IsRun (a :: run)) : p ∈ a :: run ↔ a ≤ p ∧ p ≤ a + run.length := by
  rw [run_eq_points_range h, mem_points_range]

/-! ### The runs of an increasing list -/

section Increasing

variable {q : Int} {runs : List (List Int)}

/-- Between a run and a point behind it lies a gap. -/
private theorem succ_lt_of_mem_later (h : MaximalRuns (run :: runs) points)
    (hsorted : points.Pairwise (· < ·)) (hp : p ∈ run) (hq : q ∈ runs.flatten) : p + 1 < q := by
  rw [← h.flatten_eq, List.flatten_cons, List.pairwise_append] at hsorted
  obtain ⟨-, hlater, hacross⟩ := hsorted
  cases run with
  | nil => cases hp
  | cons a run =>
    have hrun := h.isRun _ List.mem_cons_self
    obtain ⟨b, rest, hflat⟩ := List.exists_cons_of_ne_nil (List.ne_nil_of_mem hq)
    -- the run ends before `b`, but not right before it, and `q` is not before `b`
    have hend : a + run.length ∈ a :: run := (mem_run_iff hrun).2 ⟨by omega, le_rfl⟩
    have hlt : a + run.length < b := hacross _ hend b (hflat ▸ List.mem_cons_self)
    have hgap : b ≠ a + run.length + 1 := by
      apply h.gap _ (getLast?_run hrun)
      rw [hflat]
      rfl
    have hbq : b ≤ q := by
      rw [hflat] at hlater hq
      rcases List.mem_cons.1 hq with rfl | hq
      · exact le_rfl
      · exact ((List.pairwise_cons.1 hlater).1 q hq).le
    have hpend := ((mem_run_iff hrun).1 hp).2
    omega

/-- What is one more or less than a point of a run belongs to the run, if it belongs to any. -/
private theorem mem_of_next (h : MaximalRuns runs points) (hsorted : points.Pairwise (· < ·))
    (hrun : run ∈ runs) (hp : p ∈ run) (hq : q ∈ points) (hnext : q = p + 1 ∨ p = q + 1) :
    q ∈ run := by
  induction runs generalizing points with
  | nil => cases hrun
  | cons first runs ih =>
    have hgap {x y : Int} (hx : x ∈ first) (hy : y ∈ runs.flatten) : x + 1 < y :=
      succ_lt_of_mem_later h hsorted hx hy
    rw [← h.flatten_eq, List.flatten_cons] at hsorted hq
    rcases List.mem_cons.1 hrun with rfl | hrun
    · rcases List.mem_append.1 hq with hq | hq
      · exact hq
      · have := hgap hp hq
        omega
    · rcases List.mem_append.1 hq with hq | hq
      · have := hgap hq (List.mem_flatten.2 ⟨run, hrun, hp⟩)
        omega
      · exact ih h.tail (List.pairwise_append.1 hsorted).2.1 hrun hq

/-- Right before and right behind a run there is no point. -/
theorem notMem_around_run (h : MaximalRuns runs points) (hsorted : points.Pairwise (· < ·))
    (hrun : a :: run ∈ runs) : a - 1 ∉ points ∧ a + run.length + 1 ∉ points := by
  have hbetween {p q : Int} (hp : p ∈ a :: run) (hq : q ∈ points)
      (hnext : q = p + 1 ∨ p = q + 1) : a ≤ q ∧ q ≤ a + run.length :=
    (mem_run_iff (h.isRun _ hrun)).1 (mem_of_next h hsorted hrun hp hq hnext)
  constructor
  · intro hq
    have := hbetween List.mem_cons_self hq (by omega)
    omega
  · intro hq
    have hend : a + run.length ∈ a :: run :=
      (mem_run_iff (h.isRun _ hrun)).2 ⟨by omega, le_rfl⟩
    have := hbetween hend hq (.inl rfl)
    omega

end Increasing

/-! ### The tokens of runs -/

/-- A run of one or two points is left as it is. -/
theorem ofRun_of_short (h : run.length ≤ 2) : ofRun run = run.map single := by
  match run with
  | [] => rfl
  | [a] => rfl
  | [a, b] => rfl
  | a :: b :: c :: rest =>
    simp only [List.length_cons] at h
    omega

/-- A longer one becomes a range, which ends where the run does. -/
theorem ofRun_of_long (h : IsRun (a :: run)) (hlong : 2 ≤ run.length) :
    ofRun (a :: run) = [range a (a + run.length)] := by
  match run with
  | [] => simp at hlong
  | [b] => simp at hlong
  | b :: c :: rest =>
    have hlast : (c :: rest).getLast (List.cons_ne_nil c rest) = a + (b :: c :: rest).length :=
      getLast_run h
    rw [ofRun, hlast]

/-- Either way its tokens stand for the points of the run. -/
theorem flatMap_points_ofRun (h : IsRun run) : (ofRun run).flatMap Token.points = run := by
  cases run with
  | nil => rfl
  | cons a run =>
    by_cases hlong : 2 ≤ run.length
    · rw [ofRun_of_long h hlong, List.flatMap_singleton, ← run_eq_points_range h]
    · rw [ofRun_of_short (by simp only [List.length_cons]; omega), List.flatMap_map]
      exact List.flatMap_singleton' _

/-- A list of points has the tokens of its maximal runs, one run after the other. -/
theorem ofPoints_eq_of_maximalRuns {runs : List (List Int)} (h : MaximalRuns runs points) :
    ofPoints points = runs.flatMap ofRun := by
  rw [ofPoints, maximalRuns_iff.1 h]

/-- The tokens of a list of points stand for these points, in this order, whatever the list. -/
theorem flatMap_points_ofPoints (points : List Int) :
    (ofPoints points).flatMap Token.points = points := by
  have h := maximalRuns_splitBy points
  rw [ofPoints_eq_of_maximalRuns h, List.flatMap_assoc]
  conv_rhs => rw [← h.flatten_eq, ← List.flatMap_id]
  exact List.flatMap_congr fun run hrun => flatMap_points_ofRun (h.isRun run hrun)

/-- A range arises from a run of at least three, so its ends are apart. -/
theorem ordered_of_mem_ofRun (h : IsRun run) (ht : t ∈ ofRun run) : t.Ordered := by
  cases run with
  | nil => cases ht
  | cons a run =>
    by_cases hlong : 2 ≤ run.length
    · rw [ofRun_of_long h hlong, List.mem_singleton] at ht
      rw [ht, Ordered]
      omega
    · rw [ofRun_of_short (by simp only [List.length_cons]; omega)] at ht
      obtain ⟨p, -, rfl⟩ := List.mem_map.1 ht
      exact trivial

theorem ordered_of_mem_ofPoints (h : t ∈ ofPoints points) : t.Ordered := by
  obtain ⟨run, hrun, ht⟩ := List.mem_flatMap.1 h
  exact ordered_of_mem_ofRun (List.isChain_of_mem_splitBy hrun) ht

/-! ### Ends -/

/-- The first of the points of a token. -/
def firstPoint : Token → Int
  | single p => p
  | range first _ => first

/-- The last of them. -/
def lastPoint : Token → Int
  | single p => p
  | range _ last => last

theorem head?_points (ht : t.Ordered) : t.points.head? = some t.firstPoint := by
  cases t with
  | single p => rfl
  | range first last => exact head?_points_range ht

theorem getLast?_points (ht : t.Ordered) : t.points.getLast? = some t.lastPoint := by
  cases t with
  | single p => rfl
  | range first last => exact getLast?_points_range ht

theorem points_ne_nil (ht : t.Ordered) : t.points ≠ [] := by
  intro hnil
  have hhead := head?_points ht
  rw [hnil] at hhead
  cases hhead

theorem mem_points_of_mem_ends (ht : t.Ordered) (hp : p ∈ t.ends) : p ∈ t.points := by
  cases t with
  | single q => exact hp
  | range first last =>
    rw [mem_points_range]
    rcases List.mem_cons.1 hp with rfl | hp
    · exact ⟨Int.le_refl _, ht⟩
    · obtain rfl := List.mem_singleton.1 hp
      exact ⟨ht, Int.le_refl _⟩

/-- The points of a token lie between its ends. -/
theorem exists_ends_of_mem_points (hp : p ∈ t.points) :
    ∃ low ∈ t.ends, ∃ high ∈ t.ends, low ≤ p ∧ p ≤ high := by
  cases t with
  | single q =>
    exact ⟨q, List.mem_cons_self, q, List.mem_cons_self, by simp_all⟩
  | range first last =>
    exact ⟨first, by simp [ends], last, by simp [ends], mem_points_range.1 hp⟩

/-- If the ends of a token are code points, then so is all that it stands for. -/
theorem inDomain_iff_of_ordered (ht : t.Ordered) :
    (∀ p ∈ t.ends, CodePoint.InDomain p) ↔ ∀ p ∈ t.points, CodePoint.InDomain p := by
  constructor
  · intro h p hp
    obtain ⟨low, hlow, high, hhigh, hl, hh⟩ := exists_ends_of_mem_points hp
    exact ⟨(h low hlow).1.trans hl, hh.trans (h high hhigh).2⟩
  · exact fun h p hp => h p (mem_points_of_mem_ends ht hp)

/-! ### Spelling -/

theorem spelling_single_eq_ok_iff {text : Text} :
    (single p).spelling = .ok text ↔ ∃ c : CodePoint, p = c.val ∧ c.bracketed = text :=
  pointSpelling_eq_ok_iff

theorem spelling_range_eq_ok_iff {first last : Int} {text : Text} :
    (range first last).spelling = .ok text ↔
      ∃ low high : CodePoint, first = low.val ∧ last = high.val ∧
        low.bracketed ++ CodePoint.dash :: high.bracketed = text := by
  constructor
  · intro h
    obtain ⟨_, hlow, h⟩ := bind_eq_ok_iff.1 h
    obtain ⟨_, hhigh, h⟩ := bind_eq_ok_iff.1 h
    obtain ⟨low, rfl, rfl⟩ := pointSpelling_eq_ok_iff.1 hlow
    obtain ⟨high, rfl, rfl⟩ := pointSpelling_eq_ok_iff.1 hhigh
    exact ⟨low, high, rfl, rfl, Except.ok.inj h⟩
  · rintro ⟨low, high, rfl, rfl, rfl⟩
    refine bind_eq_ok_iff.2 ⟨_, pointSpelling_eq_ok_iff.2 ⟨low, rfl, rfl⟩, ?_⟩
    exact bind_eq_ok_iff.2 ⟨_, pointSpelling_eq_ok_iff.2 ⟨high, rfl, rfl⟩, rfl⟩

/-- Tokens fail to be spelled for the sake of an end that is no code point. -/
theorem category_of_spelling_eq_error {fault : Fault} (h : t.spelling = .error fault) :
    fault.category = .value ∨ fault.category = .overflow := by
  have hpoint {p : Int} (hp : pointSpelling p = .error fault) :
      fault.category = .value ∨ fault.category = .overflow :=
    CodePoint.category_of_ofPoint_eq_error (map_eq_error_iff.1 hp)
  cases t with
  | single p => exact hpoint h
  | range first last =>
    rcases bind_eq_error_iff.1 h with hlow | ⟨low, -, h⟩
    · exact hpoint hlow
    · rcases bind_eq_error_iff.1 h with hhigh | ⟨high, -, h⟩
      · exact hpoint hhigh
      · cases h

theorem category_of_spellAll_eq_error {tokens : List Token} {fault : Fault}
    (h : spellAll tokens = .error fault) :
    fault.category = .value ∨ fault.category = .overflow := by
  obtain ⟨t, -, ht⟩ := exists_of_mapM_eq_error (map_eq_error_iff.1 h)
  exact category_of_spelling_eq_error ht

theorem exists_spelling_iff :
    (∃ text, t.spelling = .ok text) ↔ ∀ p ∈ t.ends, CodePoint.InDomain p := by
  cases t with
  | single p =>
    simp only [spelling_single_eq_ok_iff, ends, List.forall_mem_singleton, CodePoint.inDomain_iff]
    constructor
    · rintro ⟨text, c, hc, -⟩
      exact ⟨c, hc⟩
    · rintro ⟨c, hc⟩
      exact ⟨_, c, hc, rfl⟩
  | range first last =>
    simp only [spelling_range_eq_ok_iff, ends, List.forall_mem_cons, CodePoint.inDomain_iff]
    constructor
    · rintro ⟨text, low, high, hlow, hhigh, -⟩
      exact ⟨⟨low, hlow⟩, ⟨high, hhigh⟩, by simp⟩
    · rintro ⟨⟨low, hlow⟩, ⟨high, hhigh⟩, -⟩
      exact ⟨_, low, high, hlow, hhigh, rfl⟩

theorem spellAll_nil : spellAll [] = .ok [] :=
  rfl

theorem spellAll_cons_eq_ok_iff {tokens : List Token} {text : Text} :
    spellAll (t :: tokens) = .ok text ↔
      ∃ front rest, t.spelling = .ok front ∧ spellAll tokens = .ok rest ∧ front ++ rest = text := by
  simp only [spellAll, map_eq_ok_iff, mapM_eq_ok_iff, List.forall₂_cons_left_iff]
  constructor
  · rintro ⟨_, ⟨front, rest, hfront, hrest, rfl⟩, rfl⟩
    exact ⟨front, rest.flatten, hfront, ⟨rest, hrest, rfl⟩, rfl⟩
  · rintro ⟨front, _, hfront, ⟨rest, hrest, rfl⟩, rfl⟩
    exact ⟨front :: rest, ⟨front, rest, hfront, hrest, rfl⟩, rfl⟩

theorem exists_spellAll_iff {tokens : List Token} :
    (∃ text, spellAll tokens = .ok text) ↔ ∀ t ∈ tokens, ∃ text, t.spelling = .ok text := by
  induction tokens with
  | nil =>
    constructor
    · intro _ t ht
      cases ht
    · intro _
      exact ⟨[], spellAll_nil⟩
  | cons t tokens ih =>
    simp only [spellAll_cons_eq_ok_iff]
    rw [List.forall_mem_cons, ← ih]
    constructor
    · rintro ⟨text, front, rest, hfront, hrest, -⟩
      exact ⟨⟨front, hfront⟩, rest, hrest⟩
    · rintro ⟨⟨front, hfront⟩, rest, hrest⟩
      exact ⟨_, front, rest, hfront, hrest, rfl⟩

/-- Tokens that do not descend can be spelled exactly if all of their points are code points: none
that is not can hide inside a range. -/
theorem exists_spellAll_iff_of_ordered {tokens : List Token} (h : ∀ t ∈ tokens, t.Ordered) :
    (∃ text, spellAll tokens = .ok text) ↔
      ∀ p ∈ tokens.flatMap Token.points, CodePoint.InDomain p := by
  rw [exists_spellAll_iff, List.forall_mem_flatMap]
  refine forall₂_congr fun t ht => ?_
  rw [exists_spelling_iff, inDomain_iff_of_ordered (h t ht)]

theorem exists_spellAll_ofPoints_iff :
    (∃ text, spellAll (ofPoints points) = .ok text) ↔ ∀ p ∈ points, CodePoint.InDomain p := by
  rw [exists_spellAll_iff_of_ordered fun _ ht => ordered_of_mem_ofPoints ht,
    flatMap_points_ofPoints]

end Token

end CharClass
