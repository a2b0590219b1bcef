import CharClass.Proofs.Pattern

/-!
# Only the set matters

Two lists of characters with the same code points have the same pattern and the same tokens, however
they differ in order, repetitions and spelling, and whatever the settings of the two runs. The runs
may take different ways: the short one or a census, sorting or a table of marks. What the censuses
hold is determined by the set of points all the same.

## Main statements

* `Census.Describes.points_congr`, `Census.Describes.placed_congr`: two censuses of one set
* `Census.Describes.pattern_congr`: their patterns
* `pattern_tokens_of_pointSet_eq`: two runs
-/

namespace CharClass

namespace Census.Describes

variable {c d : Census} {xs ys : List Value} {inverse : Bool}

theorem points_congr (hc : c.Describes xs) (hd : d.Describes ys)
    (hset : pointSet xs = pointSet ys) : c.points = d.points := by
  apply hc.enumerates.increasing.eq_of_mem_iff hd.enumerates.increasing
  intro p
  rw [hc.mem_points, hd.mem_points, hset]

theorem tokens_congr (hc : c.Describes xs) (hd : d.Describes ys)
    (hset : pointSet xs = pointSet ys) : c.tokens = d.tokens := by
  rw [tokens, tokens, hc.points_congr hd hset]

theorem placed_congr (hc : c.Describes xs) (hd : d.Describes ys)
    (hset : pointSet xs = pointSet ys) : c.placed = d.placed := by
  have hcontains (p : Int) :
      (c.members.map Member.point).contains p = (d.members.map Member.point).contains p := by
    rw [Bool.eq_iff_iff, List.contains_iff_mem, List.contains_iff_mem,
      ← mem_pointSet_iff_of_forall₂ hc.standsFor, ← mem_pointSet_iff_of_forall₂ hd.standsFor, hset]
  rw [placed, placed, Placed.ofPoints, Placed.ofPoints, hcontains, hcontains, hcontains]

theorem bracketPattern_congr (hc : c.Describes xs) (hd : d.Describes ys)
    (hset : pointSet xs = pointSet ys) : c.bracketPattern inverse = d.bracketPattern inverse := by
  rw [bracketPattern, bracketPattern, hc.tokens_congr hd hset, hc.placed_congr hd hset]

/-- Two censuses of the same characters have one pattern. -/
theorem pattern_congr (hc : c.Describes xs) (hd : d.Describes ys)
    (hset : pointSet xs = pointSet ys) (hxs : ∀ x ∈ xs, x.isCharacter = true)
    (hys : ∀ y ∈ ys, y.isCharacter = true) : c.pattern inverse = d.pattern inverse := by
  have hne : xs ≠ [] ↔ ys ≠ [] := by
    rw [← hc.nonempty_pointSet_iff, ← hd.nonempty_pointSet_iff, hset]
  -- which kind of pattern it is depends on the set, and so is the same for both
  rcases hc.cases_of_set inverse with rfl | ⟨hxne, hmany⟩ | ⟨rfl, p, hone⟩
  · obtain rfl : ys = [] := by
      by_contra hyne
      exact hne.2 hyne rfl
    rw [hc.pattern_of_nil, hd.pattern_of_nil]
  · rw [hc.pattern_eq_bracketPattern hxne hmany,
      hd.pattern_eq_bracketPattern (hne.1 hxne) (hset ▸ hmany), hc.bracketPattern_congr hd hset]
  · have hp : p ∈ pointSet xs := hone ▸ Set.mem_singleton p
    obtain ⟨e, rfl⟩ := CodePoint.inDomain_iff.1 (inDomain_of_characters hxs hp)
    rw [hc.pattern_of_singleton hone, hd.pattern_of_singleton (hset ▸ hone),
      hc.barePattern_eq_ok hone hxs, hd.barePattern_eq_ok (hset ▸ hone) hys]

end Census.Describes

section TwoRuns

variable {xs ys : List Value} {input other : Input}

/-- Two inputs of characters with the same code points have one pattern and the same tokens. -/
theorem pattern_tokens_of_pointSet_eq (s t : Settings) (inverse : Bool)
    (hinput : input.members = .ok xs) (hother : other.members = .ok ys)
    (hxs : ∀ x ∈ xs, x.isCharacter = true) (hys : ∀ y ∈ ys, y.isCharacter = true)
    (hset : pointSet xs = pointSet ys) :
    (∃ text, (input.pattern s inverse).result = .ok text ∧
      (other.pattern t inverse).result = .ok text) ∧
    ∃ tokens, (input.tokens s).result = .ok tokens ∧ (other.tokens t).result = .ok tokens := by
  obtain ⟨c, hc, hcok⟩ := exists_census_of_characters s hxs
  obtain ⟨d, hd, hdok⟩ := exists_census_of_characters t hys
  constructor
  · obtain ⟨text, htext⟩ := hc.exists_pattern_iff.2
      ⟨fun p hp => inDomain_of_characters hxs hp, fun _ _ => hxs⟩
    refine ⟨text, ?_, ?_⟩
    · rw [Input.pattern_of_members hinput, patternOf_result_of_census hcok, htext]
    · rw [Input.pattern_of_members hother, patternOf_result_of_census hdok,
        ← hc.pattern_congr hd hset hxs hys, htext]
  · refine ⟨c.tokens, ?_, ?_⟩
    · rw [Input.tokens_result_of_members hinput, hcok]
      rfl
    · rw [Input.tokens_result_of_members hother, hdok, hc.tokens_congr hd hset]
      rfl

/-- A repeated character takes the short way, and the same one spelled in two ways does not. -/
theorem pattern_tokens_of_repeated :
    (Input.many [.text [0x61], .text [0x61]]).members = .ok [.text [0x61], .text [0x61]] ∧
      (Input.many [.text [0x61], .int 0x61]).members = .ok [.text [0x61], .int 0x61] ∧
      (∀ x ∈ [Value.text [0x61], .text [0x61]], x.isCharacter = true) ∧
      (∀ y ∈ [Value.text [0x61], .int 0x61], y.isCharacter = true) ∧
      pointSet [.text [0x61], .text [0x61]] = pointSet [.text [0x61], .int 0x61] ∧
      (∃ text, ((Input.many [.text [0x61], .text [0x61]]).pattern ⟨false, 128⟩ false).result =
          .ok text ∧
        ((Input.many [.text [0x61], .int 0x61]).pattern ⟨true, -1⟩ false).result = .ok text) ∧
      ∃ tokens, ((Input.many [.text [0x61], .text [0x61]]).tokens ⟨false, 128⟩).result =
          .ok tokens ∧
        ((Input.many [.text [0x61], .int 0x61]).tokens ⟨true, -1⟩).result = .ok tokens := by
  have hxs : ∀ x ∈ [Value.text [0x61], .text [0x61]], x.isCharacter = true := by decide
  have hys : ∀ y ∈ [Value.text [0x61], .int 0x61], y.isCharacter = true := by decide
  have hset : pointSet [.text [0x61], .text [0x61]] = pointSet [.text [0x61], .int 0x61] := by
    ext p
    rw [mem_pointSet_iff_of_forall₂ (.cons (.text 0x61) (.cons (.text 0x61) .nil)),
      mem_pointSet_iff_of_forall₂ (.cons (.text 0x61) (.cons (.int 0x61) .nil))]
    rfl
  exact ⟨rfl, rfl, hxs, hys, hset,
    pattern_tokens_of_pointSet_eq ⟨false, 128⟩ ⟨true, -1⟩ false rfl rfl hxs hys hset⟩

end TwoRuns

end CharClass
