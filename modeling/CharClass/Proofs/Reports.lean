import CharClass.Proofs.CanonicalTokens
import CharClass.Proofs.Obstacle
import Mathlib.Algebra.Order.BigOperators.Group.List
import Mathlib.Data.Set.Card

/-!
# Reports

Asking for reports changes no result. If they are asked for, a run reports its census if it takes
one, whatever becomes of the pattern afterwards. The counts of a report measure the members in three
ways: as they were offered, without repetitions, and as tokens. They never grow from one measure to
the next, and the last two are the same only if no run is long enough for a range.

## Main definitions

* `Input.Counted`: the inputs that a census is taken of
* `Report.Tells`: what a report says about the items of an input

## Main statements

* `Token.exists_several_iff`, `Token.length_ofPoints_eq_iff`: tokens are fewer than points where
  three points are consecutive
* `Report.line_injective`: the counts of a report can be read off its line
* `Census.tells_report`: what the report of a census says
* `mem_log_censusOf`, `log_patternOf`: when a census is reported
* `report_truthful`: the lines of all runs
-/

namespace CharClass

/-! ### Counting tokens -/

namespace Token

variable {t : Token} {tokens : List Token} {points : List Int}

theorem length_eq_sum (tokens : List Token) : tokens.length = (tokens.map fun _ => 1).sum := by
  simp

theorem length_flatMap_points (tokens : List Token) :
    (tokens.flatMap Token.points).length = (tokens.map fun t => t.points.length).sum :=
  List.length_flatMap

/-- No token stands for nothing. -/
theorem one_le_length_points (ht : t.Ordered) : 1 ≤ t.points.length :=
  List.length_pos_iff.2 (points_ne_nil ht)

theorem length_le_length_flatMap_points (h : ∀ t ∈ tokens, t.Ordered) :
    tokens.length ≤ (tokens.flatMap Token.points).length := by
  rw [length_eq_sum, length_flatMap_points]
  exact List.sum_le_sum fun t ht => one_le_length_points (h t ht)

/-- Tokens are fewer than their points exactly if one of them stands for several. -/
theorem length_lt_length_flatMap_points_iff (h : ∀ t ∈ tokens, t.Ordered) :
    tokens.length < (tokens.flatMap Token.points).length ↔ ∃ t ∈ tokens, 1 < t.points.length := by
  rw [length_eq_sum, length_flatMap_points]
  constructor
  · exact List.exists_lt_of_sum_lt _ _
  · exact List.sum_lt_sum _ _ fun t ht => one_le_length_points (h t ht)

/-- Among the tokens of an increasing list, one stands for several points exactly if three points
are consecutive. -/
theorem exists_several_iff (hsorted : points.Pairwise (· < ·)) :
    (∃ t ∈ ofPoints points, 1 < t.points.length) ↔
      ∃ p, p ∈ points ∧ p + 1 ∈ points ∧ p + 2 ∈ points := by
  have hwide := (canonical_ofPoints points).wide
  constructor
  · rintro ⟨t, ht, hseveral⟩
    cases t with
    | single p => exact absurd hseveral (Nat.lt_irrefl 1)
    | range first last =>
      have hlong := hwide first last ht
      have hmem (q : Int) (hlow : first ≤ q) (hhigh : q ≤ last) : q ∈ points := by
        rw [← flatMap_points_ofPoints points]
        exact List.mem_flatMap.2 ⟨_, ht, mem_points_range.2 ⟨hlow, hhigh⟩⟩
      exact ⟨first, hmem _ (by omega) (by omega), hmem _ (by omega) (by omega),
        hmem _ (by omega) (by omega)⟩
  · rintro ⟨p, hp, hmiddle, hlast⟩
    -- the point in the middle is on no edge, so the token that stands for it does not show it
    have hinside : p + 1 ∉ (ofPoints points).flatMap ends := by
      rw [mem_ends_ofPoints_iff hsorted, OnEdge, Int.add_sub_cancel, Int.add_assoc]
      tauto
    rw [← flatMap_points_ofPoints points] at hmiddle
    obtain ⟨t, ht, hpt⟩ := List.mem_flatMap.1 hmiddle
    cases t with
    | single q =>
      have hend : p + 1 ∈ (single q).ends := hpt
      exact absurd (List.mem_flatMap.2 ⟨_, ht, hend⟩) hinside
    | range first last =>
      have hlong := hwide first last ht
      refine ⟨_, ht, ?_⟩
      rw [length_points_range]
      omega

/-- A list of points has no more tokens than points. -/
theorem length_ofPoints_le (points : List Int) : (ofPoints points).length ≤ points.length := by
  have h := length_le_length_flatMap_points fun t (ht : t ∈ ofPoints points) =>
    ordered_of_mem_ofPoints ht
  rwa [flatMap_points_ofPoints] at h

/-- An increasing list has as many tokens as points exactly if no three points are consecutive. -/
theorem length_ofPoints_eq_iff (hsorted : points.Pairwise (· < ·)) :
    (ofPoints points).length = points.length ↔
      ¬∃ p, p ∈ points ∧ p + 1 ∈ points ∧ p + 2 ∈ points := by
  have h := length_lt_length_flatMap_points_iff fun t (ht : t ∈ ofPoints points) =>
    ordered_of_mem_ofPoints ht
  rw [flatMap_points_ofPoints, exists_several_iff hsorted] at h
  rw [← h, (length_ofPoints_le points).not_lt_iff_eq]

end Token

/-! ### Counting items and points -/

section Counts

variable {items : List Value} {points : List Int} {threshold : Int}

/-- A set has as many elements as a list of them without repetitions. -/
theorem ncard_eq_length {s : Set Int} {l : List Int} (hnodup : l.Nodup)
    (hmem : ∀ p, p ∈ l ↔ p ∈ s) : s.ncard = l.length := by
  have hset : s = l.toFinset := by
    ext p
    rw [← hmem, Finset.mem_coe, List.mem_toFinset]
  rw [hset, Set.ncard_coe_finset, List.toFinset_card_of_nodup hnodup]

/-- The items that stand for one of the three are as many as the points that are one of them. -/
theorem countP_placed_eq (hpoints : List.Forall₂ Value.StandsFor items points) :
    (items.countP fun item => item.StandsFor CodePoint.closeBracket.val ∨
      item.StandsFor CodePoint.caret.val ∨ item.StandsFor CodePoint.dash.val) =
      points.countP isPlaced := by
  induction hpoints with
  | nil => rfl
  | @cons item p items points hp _ ih =>
    have hiff (q : Int) : item.StandsFor q ↔ p = q := ⟨hp.unique, fun h => h ▸ hp⟩
    rw [List.countP_cons, List.countP_cons, ih]
    simp only [hiff, decide_eq_true_eq, isPlaced_iff]

/-- The members without the three, and the three with their repetitions, are all members. -/
theorem length_general_add (points : List Int) :
    (points.filter fun p => !isPlaced p).length + points.countP isPlaced = points.length := by
  rw [List.length_eq_countP_add_countP isPlaced (l := points), Nat.add_comm,
    ← List.countP_eq_length_filter]
  simp

theorem Strategy.choose_eq_marks_iff {count : Nat} :
    Strategy.choose threshold count = .marks ↔ threshold < count := by
  rw [choose]
  split <;> simp_all

end Counts

/-! ### Lines -/

namespace Outcome

variable {α : Type} {o : Outcome α} {line : String}

theorem lines_eq_nil_iff : o.lines = [] ↔ o.log = [] :=
  List.map_eq_nil_iff

theorem length_lines (o : Outcome α) : o.lines.length = o.log.length :=
  List.length_map _

theorem mem_lines : line ∈ o.lines ↔ ∃ r ∈ o.log, r.line = line :=
  List.mem_map

end Outcome

section Lines

variable {m n : Nat} {s t : String}

theorem toList_toString (n : Nat) : (toString n).toList = Nat.toDigits 10 n := by
  rw [Nat.toString_eq_repr, Nat.repr, String.toList_ofList]

/-- The digits of a number end where a blank begins what comes behind them. -/
theorem takeWhile_isDigit_toString (n : Nat) (hs : s.toList.head? = some ' ') :
    (toString n ++ s).toList.takeWhile Char.isDigit = Nat.toDigits 10 n := by
  obtain ⟨more, hmore⟩ := List.head?_eq_some_iff.1 hs
  have hdigits : ∀ c ∈ Nat.toDigits 10 n, c.isDigit = true := fun c hc =>
    Nat.isDigit_of_mem_toDigits (by decide) (by decide) hc
  rw [String.toList_append, hmore, toList_toString, List.takeWhile_append_of_pos hdigits]
  exact List.append_nil _

/-- A number in front of a blank can be read in one way only. -/
theorem toString_append_inj (h : toString m ++ s = toString n ++ t)
    (hs : s.toList.head? = some ' ') (ht : t.toList.head? = some ' ') : m = n ∧ s = t := by
  have hread (k : Nat) : Nat.ofDigitChars 10 (Nat.toDigits 10 k) 0 = k :=
    Nat.ofDigitChars_toDigits (by decide) (by decide)
  have hdigits : Nat.toDigits 10 m = Nat.toDigits 10 n := by
    rw [← takeWhile_isDigit_toString m hs, h, takeWhile_isDigit_toString n ht]
  obtain rfl : m = n := by
    rw [← hread m, hdigits, hread n]
  exact ⟨rfl, (String.append_right_inj _).1 h⟩

/-- The words for the strategies differ in their first letter. -/
theorem Strategy.name_append_inj {a b : Strategy} (h : a.name ++ s = b.name ++ t) :
    a = b ∧ s = t := by
  have hhead : (a.name ++ s).toList.head? = (b.name ++ t).toList.head? := by
    rw [h]
  cases a <;> cases b
  case sort.sort | marks.marks => exact ⟨rfl, (String.append_right_inj _).1 h⟩
  all_goals
    rw [String.toList_append, String.toList_append] at hhead
    cases hhead

/-- Where a number is filled in, what comes next is filled in too. -/
theorem toString_append_append_inj {gap : String} (hgap : gap.toList.head? = some ' ')
    (h : toString m ++ (gap ++ s) = toString n ++ (gap ++ t)) : m = n ∧ s = t := by
  obtain ⟨more, hmore⟩ := List.head?_eq_some_iff.1 hgap
  have hblank (u : String) : (gap ++ u).toList.head? = some ' ' := by
    rw [String.toList_append, hmore]
    rfl
  obtain ⟨hmn, hrest⟩ := toString_append_inj h (hblank s) (hblank t)
  exact ⟨hmn, (String.append_right_inj _).1 hrest⟩

/-- A form that is filled in with three numbers and the word for a strategy, where a blank follows
each number. What was filled in can be read off it. -/
theorem form_injective {start first second third stop : String} {r r' : Report}
    (hfirst : first.toList.head? = some ' ') (hthird : third.toList.head? = some ' ')
    (hstop : stop.toList.head? = some ' ')
    (h : start ++ toString r.members ++ first ++ r.strategy.name ++ second ++
        toString r.distinct ++ third ++ toString r.tokens ++ stop =
      start ++ toString r'.members ++ first ++ r'.strategy.name ++ second ++
        toString r'.distinct ++ third ++ toString r'.tokens ++ stop) : r = r' := by
  obtain ⟨members, strategy, distinct, tokens⟩ := r
  obtain ⟨members', strategy', distinct', tokens'⟩ := r'
  simp only [String.append_assoc, String.append_right_inj] at h
  obtain ⟨rfl, hname⟩ := toString_append_append_inj hfirst h
  obtain ⟨rfl, hsecond⟩ := Strategy.name_append_inj hname
  obtain ⟨rfl, hlast⟩ :=
    toString_append_append_inj hthird ((String.append_right_inj second).1 hsecond)
  obtain ⟨rfl, -⟩ := toString_append_inj hlast hstop hstop
  rfl

/-- The counts of a report can be read off its line in one way only. -/
theorem Report.line_injective {r r' : Report} (h : r.line = r'.line) : r = r' :=
  form_injective rfl rfl rfl h

end Lines

/-! ### What a report says -/

/-- The points of the items without the three that act by their place. -/
def generalSet (items : List Value) : Set Int :=
  {p ∈ pointSet items | isPlaced p = false}

/-- What a report says about the items that were offered. -/
structure Report.Tells (r : Report) (threshold : Int) (items : List Value) : Prop where
  /-- Together with all items that stand for one of the three, the members are all items. -/
  members_add : r.members + (items.countP fun item => item.StandsFor CodePoint.closeBracket.val ∨
    item.StandsFor CodePoint.caret.val ∨ item.StandsFor CodePoint.dash.val) = items.length
  /-- Together with those of the three that are there, the distinct points are all points. -/
  distinct_add : r.distinct + (pointSet items ∩ {(CodePoint.closeBracket.val : Int),
    (CodePoint.caret.val : Int), (CodePoint.dash.val : Int)}).ncard = (pointSet items).ncard
  strategy_iff : r.strategy = .marks ↔ threshold < r.members
  tokens_le : r.tokens ≤ r.distinct
  distinct_le : r.distinct ≤ r.members
  /-- No token saves anything exactly if no three general points are consecutive. -/
  tokens_eq_iff : r.tokens = r.distinct ↔
    ¬∃ p, p ∈ generalSet items ∧ p + 1 ∈ generalSet items ∧ p + 2 ∈ generalSet items

/-- The text of a line, where the word for the strategy follows from the counts. -/
theorem Report.Tells.line_eq {r : Report} {threshold : Int} {items : List Value}
    (h : r.Tells threshold items) :
    r.line = "Charset of " ++ toString r.members ++ " members deduplicated by " ++
      (if threshold < r.members then "presence_dedupe" else "sort_dedupe") ++ " to " ++
      toString r.distinct ++ " distinct, rendered as " ++ toString r.tokens ++ " tokens." := by
  have hname : r.strategy.name =
      if threshold < r.members then "presence_dedupe" else "sort_dedupe" := by
    by_cases hmany : threshold < r.members
    · rw [if_pos hmany, h.strategy_iff.2 hmany]
      rfl
    · rw [if_neg hmany]
      cases hstrategy : r.strategy with
      | sort => rfl
      | marks => exact absurd (h.strategy_iff.1 hstrategy) hmany
  unfold line
  rw [hname]

namespace Census.Describes

variable {c : Census} {items : List Value}

theorem members_add (h : c.Describes items) :
    c.report.members + (items.countP fun item => item.StandsFor CodePoint.closeBracket.val ∨
      item.StandsFor CodePoint.caret.val ∨ item.StandsFor CodePoint.dash.val) = items.length := by
  rw [countP_placed_eq h.standsFor, h.standsFor.length_eq]
  exact length_general_add _

theorem distinct_add (h : c.Describes items) :
    c.report.distinct + (pointSet items ∩ {(CodePoint.closeBracket.val : Int),
      (CodePoint.caret.val : Int), (CodePoint.dash.val : Int)}).ncard = (pointSet items).ncard := by
  have hplaced (p : Int) : p ∈ c.placed.codePoints.map (fun d => (d.val : Int)) ↔
      p ∈ pointSet items ∩ {(CodePoint.closeBracket.val : Int), (CodePoint.caret.val : Int),
        (CodePoint.dash.val : Int)} := by
    rw [placed, Placed.mem_codePoints_ofPoints, ← mem_pointSet_iff_of_forall₂ h.standsFor,
      isPlaced_iff]
    rfl
  rw [ncard_eq_length h.nodup_codePoints fun p => h.mem_codePoints,
    ncard_eq_length (List.nodup_append'.1 h.nodup_codePoints).2.1 hplaced, codePoints,
    List.length_append]
  rfl

theorem distinct_le (h : c.Describes items) : c.report.distinct ≤ c.report.members := by
  have hnodup : c.points.Nodup := h.enumerates.increasing.imp Int.ne_of_lt
  exact (List.subperm_of_subset hnodup fun p hp => (h.enumerates.mem_iff p).1 hp).length_le

theorem tokens_eq_iff (h : c.Describes items) : c.report.tokens = c.report.distinct ↔
    ¬∃ p, p ∈ generalSet items ∧ p + 1 ∈ generalSet items ∧ p + 2 ∈ generalSet items := by
  have hmem (p : Int) : p ∈ generalSet items ↔ p ∈ c.points := h.mem_points.symm
  simp only [hmem]
  exact Token.length_ofPoints_eq_iff h.enumerates.increasing

end Census.Describes

/-- The report of a census that was taken is true of its items. -/
theorem Census.tells_report {c : Census} {items : List Value} {threshold : Int}
    (hc : ofItems threshold items = .ok c) : c.report.Tells threshold items := by
  have h := describes_of_ofItems hc
  refine ⟨h.members_add, h.distinct_add, ?_, Token.length_ofPoints_le c.points, h.distinct_le,
    h.tokens_eq_iff⟩
  have hstrategy : c.report.strategy = .choose threshold c.report.members :=
    (ofItems_eq_ok_iff.1 hc).2.1
  rw [hstrategy, Strategy.choose_eq_marks_iff]

/-! ### When there is a report -/

/-- The items of an input that a census is taken of. They can be had at all, they stand for points,
and these are few enough to be sorted or close enough together for a table of marks. -/
def Input.Counted (input : Input) (threshold : Int) (items : List Value) : Prop :=
  input.members = .ok items ∧ ∃ points, List.Forall₂ Value.StandsFor items points ∧
    (((points.filter fun p => !isPlaced p).length : Int) ≤ threshold ∨
      FitsTable (points.filter fun p => !isPlaced p))

section Logs

variable {settings : Settings} {input : Input} {items : List Value} {inverse : Bool} {r : Report}
  {threshold : Int}

theorem Input.counted_iff : input.Counted threshold items ↔
    input.members = .ok items ∧ ∃ c, Census.ofItems threshold items = .ok c := by
  refine and_congr_right fun _ => ⟨?_, ?_⟩
  · rintro ⟨points, hpoints, hroom⟩
    exact Census.exists_ofItems_eq_ok hpoints hroom
  · rintro ⟨c, hc⟩
    have hpoints := (Census.describes_of_ofItems hc).standsFor
    refine ⟨_, hpoints, ?_⟩
    by_contra hroom
    rw [not_or, Int.not_le] at hroom
    rw [Census.ofItems_eq_spanTooWide hpoints hroom.1 hroom.2] at hc
    cases hc

/-- A census is reported as soon as it is taken, if reports are asked for. -/
theorem mem_log_censusOf : r ∈ (censusOf settings items).log ↔
    settings.verbose = true ∧
      ∃ c, Census.ofItems settings.threshold items = .ok c ∧ r = c.report := by
  rw [censusOf]
  cases Census.ofItems settings.threshold items with
  | error fault => simp [Outcome.silent]
  | ok c => cases settings.verbose <;> simp

theorem length_log_censusOf : (censusOf settings items).log.length ≤ 1 := by
  rw [censusOf]
  cases Census.ofItems settings.threshold items with
  | error fault => exact Nat.zero_le 1
  | ok c => cases settings.verbose <;> simp

/-- The short way reports nothing. -/
theorem log_patternOf : (patternOf settings items inverse).log =
    if inverse = true ∨ uniform? items = none then (censusOf settings items).log else [] := by
  unfold patternOf
  cases inverse with
  | true => rfl
  | false =>
    cases uniform? items with
    | some item => rfl
    | none => rfl

theorem length_log_patternOf : (patternOf settings items inverse).log.length ≤ 1 := by
  rw [log_patternOf]
  split
  · exact length_log_censusOf
  · exact Nat.zero_le 1

namespace Input

theorem mem_log_pattern : r ∈ (input.pattern settings inverse).log ↔
    ∃ items, input.members = .ok items ∧ r ∈ (patternOf settings items inverse).log := by
  rw [pattern]
  cases input.members <;> simp [Outcome.silent]

theorem length_log_pattern : (input.pattern settings inverse).log.length ≤ 1 := by
  rw [pattern]
  cases input.members with
  | error fault => exact Nat.zero_le 1
  | ok items => exact length_log_patternOf

theorem mem_log_tokens : r ∈ (input.tokens settings).log ↔
    ∃ items, input.members = .ok items ∧ r ∈ (censusOf settings items).log := by
  rw [tokens, census]
  cases input.members <;> simp [Outcome.silent, Outcome.map]

theorem length_log_tokens : (input.tokens settings).log.length ≤ 1 := by
  rw [tokens, census]
  cases input.members with
  | error fault => exact Nat.zero_le 1
  | ok items => exact length_log_censusOf

/-! ### All runs -/

/-- Reports change no pattern, and there are none unless they are asked for. -/
theorem pattern_quiet (input : Input) (threshold : Int) (inverse : Bool) :
    (input.pattern ⟨true, threshold⟩ inverse).result =
        (input.pattern ⟨false, threshold⟩ inverse).result ∧
      (input.pattern ⟨false, threshold⟩ inverse).log = [] := by
  constructor
  · rw [pattern, pattern]
    cases input.members with
    | error fault => rfl
    | ok items =>
      show (patternOf _ items inverse).result = (patternOf _ items inverse).result
      unfold patternOf
      split
      · rfl
      · rw [patternByCensus_result, patternByCensus_result]
  · refine List.eq_nil_iff_forall_not_mem.2 fun r hr => ?_
    obtain ⟨items, -, hlog⟩ := mem_log_pattern.1 hr
    rw [log_patternOf] at hlog
    split at hlog
    · exact Bool.false_ne_true (mem_log_censusOf.1 hlog).1
    · cases hlog

/-- Reports change no tokens, and there are none unless they are asked for. -/
theorem tokens_quiet (input : Input) (threshold : Int) :
    (input.tokens ⟨true, threshold⟩).result = (input.tokens ⟨false, threshold⟩).result ∧
      (input.tokens ⟨false, threshold⟩).log = [] := by
  constructor
  · rw [tokens, tokens, census, census]
    cases input.members with
    | error fault => rfl
    | ok items =>
      show (censusOf _ items).result.map _ = (censusOf _ items).result.map _
      rw [censusOf_result, censusOf_result]
  · refine List.eq_nil_iff_forall_not_mem.2 fun r hr => ?_
    obtain ⟨items, -, hlog⟩ := mem_log_tokens.1 hr
    exact Bool.false_ne_true (mem_log_censusOf.1 hlog).1

/-- The pattern of an input is reported on exactly if a census is taken on the way. -/
theorem log_pattern_ne_nil_iff : (input.pattern ⟨true, threshold⟩ inverse).log ≠ [] ↔
    ∃ items, input.Counted threshold items ∧ (inverse = true ∨ uniform? items = none) := by
  constructor
  · intro hlog
    obtain ⟨r, hr⟩ := List.exists_mem_of_ne_nil _ hlog
    obtain ⟨items, hitems, hlog⟩ := mem_log_pattern.1 hr
    rw [log_patternOf] at hlog
    split at hlog
    · next hway =>
      obtain ⟨-, c, hc, -⟩ := mem_log_censusOf.1 hlog
      exact ⟨items, counted_iff.2 ⟨hitems, c, hc⟩, hway⟩
    · cases hlog
  · rintro ⟨items, hcounted, hway⟩
    obtain ⟨hitems, c, hc⟩ := counted_iff.1 hcounted
    have hlog : c.report ∈ (patternOf ⟨true, threshold⟩ items inverse).log := by
      rw [log_patternOf, if_pos hway]
      exact mem_log_censusOf.2 ⟨rfl, c, hc, rfl⟩
    exact List.ne_nil_of_mem (mem_log_pattern.2 ⟨items, hitems, hlog⟩)

theorem log_tokens_ne_nil_iff : (input.tokens ⟨true, threshold⟩).log ≠ [] ↔
    ∃ items, input.Counted threshold items := by
  constructor
  · intro hlog
    obtain ⟨r, hr⟩ := List.exists_mem_of_ne_nil _ hlog
    obtain ⟨items, hitems, hlog⟩ := mem_log_tokens.1 hr
    obtain ⟨-, c, hc, -⟩ := mem_log_censusOf.1 hlog
    exact ⟨items, counted_iff.2 ⟨hitems, c, hc⟩⟩
  · rintro ⟨items, hcounted⟩
    obtain ⟨hitems, c, hc⟩ := counted_iff.1 hcounted
    exact List.ne_nil_of_mem
      (mem_log_tokens.2 ⟨items, hitems, mem_log_censusOf.2 ⟨rfl, c, hc, rfl⟩⟩)

/-- Whatever is printed, on the way to a pattern or to tokens, is the line of the census. -/
theorem exists_census_of_mem_lines {line : String} (hitems : input.members = .ok items)
    (hline : line ∈ (input.tokens settings).lines ∨
      ∃ inverse, line ∈ (input.pattern settings inverse).lines) :
    ∃ c, Census.ofItems settings.threshold items = .ok c ∧ c.report.line = line := by
  have hlog : ∃ r ∈ (censusOf settings items).log, r.line = line := by
    rcases hline with hline | ⟨inverse, hline⟩
    · obtain ⟨r, hr, hrline⟩ := Outcome.mem_lines.1 hline
      obtain ⟨others, hothers, hlog⟩ := mem_log_tokens.1 hr
      cases hitems.symm.trans hothers
      exact ⟨r, hlog, hrline⟩
    · obtain ⟨r, hr, hrline⟩ := Outcome.mem_lines.1 hline
      obtain ⟨others, hothers, hlog⟩ := mem_log_pattern.1 hr
      cases hitems.symm.trans hothers
      rw [log_patternOf] at hlog
      split at hlog
      · exact ⟨r, hlog, hrline⟩
      · cases hlog
  obtain ⟨r, hr, hrline⟩ := hlog
  obtain ⟨-, c, hc, rfl⟩ := mem_log_censusOf.1 hr
  exact ⟨c, hc, hrline⟩

end Input

end Logs

/-- Whether reports are asked for changes no pattern and no tokens, and unless they are, nothing is
printed. If they are, at most one line is. There is one exactly if the items can be had, stand for
points and can be brought into order, and a pattern does not take the short way, so also if the
pattern cannot be spelled afterwards. The line has a fixed text but for the strategy, which follows
from the threshold, and three counts, which can be read off it in one way only. They are true of the
items, and the tokens that are counted are those that are asked for. -/
theorem report_truthful (input : Input) (threshold : Int) :
    (∀ inverse,
      ((input.pattern ⟨true, threshold⟩ inverse).result =
          (input.pattern ⟨false, threshold⟩ inverse).result ∧
        (input.pattern ⟨false, threshold⟩ inverse).lines = []) ∧
      (input.pattern ⟨true, threshold⟩ inverse).lines.length ≤ 1 ∧
      ((input.pattern ⟨true, threshold⟩ inverse).lines ≠ [] ↔
        ∃ items, input.Counted threshold items ∧ (inverse = true ∨ uniform? items = none))) ∧
    (((input.tokens ⟨true, threshold⟩).result = (input.tokens ⟨false, threshold⟩).result ∧
        (input.tokens ⟨false, threshold⟩).lines = []) ∧
      (input.tokens ⟨true, threshold⟩).lines.length ≤ 1 ∧
      ((input.tokens ⟨true, threshold⟩).lines ≠ [] ↔ ∃ items, input.Counted threshold items)) ∧
    ∀ items line, input.members = .ok items →
      (line ∈ (input.tokens ⟨true, threshold⟩).lines ∨
        ∃ inverse, line ∈ (input.pattern ⟨true, threshold⟩ inverse).lines) →
      ∃ r : Report, r.Tells threshold items ∧
        (∃ tokens, (input.tokens ⟨true, threshold⟩).result = .ok tokens ∧
          r.tokens = tokens.length) ∧
        line = "Charset of " ++ toString r.members ++ " members deduplicated by " ++
          (if threshold < r.members then "presence_dedupe" else "sort_dedupe") ++ " to " ++
          toString r.distinct ++ " distinct, rendered as " ++ toString r.tokens ++ " tokens." ∧
        ∀ other : Report, other.line = line → other = r := by
  refine ⟨fun inverse => ?_, ?_, fun items line hitems hline => ?_⟩
  · rw [Outcome.lines_eq_nil_iff, Outcome.length_lines, Ne, Outcome.lines_eq_nil_iff]
    exact ⟨input.pattern_quiet threshold inverse, Input.length_log_pattern,
      Input.log_pattern_ne_nil_iff⟩
  · rw [Outcome.lines_eq_nil_iff, Outcome.length_lines, Ne, Outcome.lines_eq_nil_iff]
    exact ⟨input.tokens_quiet threshold, Input.length_log_tokens, Input.log_tokens_ne_nil_iff⟩
  · obtain ⟨c, hc, rfl⟩ := Input.exists_census_of_mem_lines hitems hline
    have htells := Census.tells_report hc
    refine ⟨c.report, htells, ⟨c.tokens, ?_, rfl⟩, htells.line_eq, fun other hother =>
      Report.line_injective hother⟩
    have hmap : (Census.ofItems threshold items).map Census.tokens = .ok c.tokens :=
      congrArg (Except.map Census.tokens) hc
    rw [Input.tokens_result_of_members hitems]
    exact hmap

/-- A letter in two spellings, a bracket, and a point that no pattern can spell. -/
private def unspellable : List Value :=
  [.int 0x61, .int 0x5D, .text [⟨0x61, by decide⟩], .int (-1)]

/-- A line is printed about them although there is no pattern. -/
theorem report_truthful_unspellable :
    let line :=
      "Charset of 3 members deduplicated by presence_dedupe to 2 distinct, rendered as 2 tokens."
    (Input.many unspellable).members = .ok unspellable ∧
      line ∈ ((Input.many unspellable).pattern ⟨true, 2⟩ false).lines ∧
      Report.Tells ⟨3, .marks, 2, 2⟩ 2 unspellable ∧
      ((Input.many unspellable).pattern ⟨false, 2⟩ false).result = .error .outsideDomain := by
  intro line
  have hline : Report.line ⟨3, .marks, 2, 2⟩ = line := by decide
  have hlog : ⟨3, .marks, 2, 2⟩ ∈ ((Input.many unspellable).pattern ⟨true, 2⟩ false).log :=
    List.mem_singleton.2 rfl
  have hprinted : line ∈ ((Input.many unspellable).pattern ⟨true, 2⟩ false).lines :=
    Outcome.mem_lines.2 ⟨_, hlog, hline⟩
  obtain ⟨hpattern, -, hlines⟩ := report_truthful (Input.many unspellable) 2
  obtain ⟨r, htells, -, -, hunique⟩ := hlines _ line rfl (.inr ⟨false, hprinted⟩)
  obtain rfl := hunique _ hline
  refine ⟨rfl, hprinted, htells, ?_⟩
  rw [← (hpattern false).1.1]
  rfl

end CharClass
