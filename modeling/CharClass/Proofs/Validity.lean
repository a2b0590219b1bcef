import CharClass.Proofs.Pattern

/-!
# When there is a pattern

A list of items has a pattern exactly if every item stands for a code point and, where a lone member
is to be spelled bare, all items behind it are characters. The conditions are looked at in four
places: on the short way, when points are taken, when the items behind a lone member are checked,
and when the ends of ranges are spelled. Together they let nothing else through.

## Main statements

* `exists_pattern_iff_valid`: exactly when there is a pattern
-/

namespace CharClass

variable {settings : Settings} {items : List Value} {inverse : Bool} {text : Text}

/-- Whatever way a pattern was found, all items stand for points. -/
theorem forall_standsFor_of_pattern (h : (patternOf settings items inverse).result = .ok text) :
    ∀ item ∈ items, ∃ p, item.StandsFor p := by
  unfold patternOf at h
  split at h
  · next first huniform =>
    -- the short way spells the first item, so it is a character, and the others repeat it
    change first.spelling = .ok text at h
    rw [Value.spelling] at h
    split at h
    · next d hd =>
      have hp := Value.standsFor_of_character? hd
      intro item hitem
      rw [eq_first_of_uniform? huniform hp item hitem]
      exact ⟨_, hp⟩
    · cases h
  · -- a census has a point for each item
    rw [patternByCensus_result, bind_eq_ok_iff] at h
    obtain ⟨c, hc, -⟩ := h
    intro item hitem
    obtain ⟨p, -, hp⟩ := (exists_of_forall₂ (Census.describes_of_ofItems hc).standsFor).1 item hitem
    exact ⟨p, hp⟩

/-- A list of items has a pattern exactly if all items stand for points, all of these points are
code points, and, unless the pattern is inverted or there are two points, all items are
characters. -/
theorem exists_pattern_iff_valid (settings : Settings) (items : List Value) (inverse : Bool) :
    (∃ text, ((Input.many items).pattern settings inverse).result = .ok text) ↔
      (∀ item ∈ items, ∃ p, item.StandsFor p) ∧
      (∀ item ∈ items, ∀ p, item.StandsFor p → CodePoint.InDomain p) ∧
      (inverse = false → (∃ p, ∀ item ∈ items, item.StandsFor p) →
        ∀ item ∈ items, item.isCharacter = true) := by
  rw [Input.pattern_of_members rfl]
  constructor
  · rintro ⟨text, htext⟩
    have hstands := forall_standsFor_of_pattern htext
    obtain ⟨points, hpoints⟩ := exists_points hstands
    rw [patternOf_result_of_points hpoints, patternByCensus_result, bind_eq_ok_iff] at htext
    obtain ⟨c, hc, hpattern⟩ := htext
    obtain ⟨hdomain, hall⟩ :=
      (Census.describes_of_ofItems hc).exists_pattern_iff.1 ⟨text, hpattern⟩
    refine ⟨hstands, ?_, ?_⟩
    · exact fun item hitem p hp => hdomain p ⟨item, hitem, hp⟩
    · exact fun hinverse hone => hall hinverse ((subsingleton_pointSet_iff hstands).2 hone)
  · rintro ⟨hstands, hdomain, hall⟩
    obtain ⟨points, hpoints⟩ := exists_points hstands
    have hset : ∀ p ∈ pointSet items, CodePoint.InDomain p := by
      rintro p ⟨item, hitem, hp⟩
      exact hdomain item hitem p hp
    obtain ⟨c, h, hc⟩ := exists_census_of_inDomain settings hpoints hset
    rw [patternOf_result_of_census hc, h.exists_pattern_iff]
    exact ⟨hset, fun hinverse hsub => hall hinverse ((subsingleton_pointSet_iff hstands).1 hsub)⟩

end CharClass
