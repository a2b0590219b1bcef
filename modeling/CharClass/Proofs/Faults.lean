import CharClass.Proofs.Pattern

/-!
# What can go wrong with a pattern

A pattern fails for one of three reasons: an item has no point, a point has no code point or the
points lie too far apart, or an item is to blame for being no character. Nobody is blamed unless the
pattern is not inverted and all items share one point, and then it is the first item that is no
character, not a valid twin before it. Two places of the program blame somebody. The short way looks
at the first item only, which is enough for items that are all alike. Elsewhere all items behind the
only point are looked at in order of arrival.

## Main definitions

* `Fails`: the reasons for which the pattern of some items can fail

## Main statements

* `fails_of_patternOf`, `Fails.blamed`: there are no other reasons, and who is blamed
* `patternOf_eq_notCharacter`: when an item is blamed
* `blame_first_nonCharacter`: exactly when an item is blamed, and which one
-/

namespace CharClass

variable {settings : Settings} {items : List Value} {item : Value} {inverse : Bool} {fault : Fault}
  {threshold p : Int}

/-- The reasons for which the pattern of some items can fail. -/
inductive Fails (items : List Value) (inverse : Bool) : Fault → Prop where
  /-- One of the items has no point. -/
  | type {fault : Fault} (h : fault.category = .type) : Fails items inverse fault
  /-- A point has no code point, or the points lie too far apart. -/
  | number {fault : Fault} (h : fault.category = .value ∨ fault.category = .overflow) :
    Fails items inverse fault
  /-- The items share one point if they have any, and are to be spelled bare. The first that is no
  character is blamed. -/
  | blame {item : Value} (hinverse : inverse = false)
    (hone : (∀ item ∈ items, ∃ p, item.StandsFor p) → ∃ p, ∀ item ∈ items, item.StandsFor p)
    (hfirst : items.find? (fun item => !item.isCharacter) = some item) :
    Fails items inverse (.notCharacter item)

/-- A census fails for the type of an item, or for points that lie too far apart. -/
theorem Census.category_of_ofItems_eq_error (h : ofItems threshold items = .error fault) :
    fault.category = .type ∨ fault.category = .overflow := by
  rw [ofItems, bind_eq_error_iff] at h
  rcases h with hmembers | ⟨members, -, h⟩
  · obtain ⟨item, -, hitem⟩ := exists_of_mapM_eq_error hmembers
    exact .inl (Value.category_of_point_eq_error (map_eq_error_iff.1 hitem))
  · rcases bind_eq_error_iff.1 h with hdistinct | ⟨points, -, hreturn⟩
    · obtain rfl : fault = .spanTooWide := eq_spanTooWide_of_distinct_eq_error hdistinct
      exact .inr rfl
    · cases hreturn

/-- The pattern of a census fails for a number, or for a lone member that is no character. -/
theorem Census.Describes.fails {c : Census} (h : c.Describes items)
    (hfault : c.pattern inverse = .error fault) : Fails items inverse fault := by
  rcases h.cases_of_set inverse with rfl | ⟨hne, hmany⟩ | ⟨rfl, p, hone⟩
  · rw [h.pattern_of_nil] at hfault
    cases hfault
  · rw [h.pattern_eq_bracketPattern hne hmany, bracketPattern, map_eq_error_iff] at hfault
    exact .number (Token.category_of_spellAll_eq_error hfault)
  · rw [h.pattern_of_singleton hone] at hfault
    by_cases hall : ∀ item ∈ items, item.isCharacter = true
    · have hp : p ∈ pointSet items := hone ▸ Set.mem_singleton p
      obtain ⟨d, rfl⟩ := CodePoint.inDomain_iff.1 (inDomain_of_characters hall hp)
      rw [h.barePattern_eq_ok hone hall] at hfault
      cases hfault
    · obtain ⟨item, -, -, hfirst⟩ := exists_first_nonCharacter hall
      rw [h.barePattern_eq_error hone hfirst] at hfault
      cases hfault
      refine .blame rfl (fun hstands => ?_) hfirst
      exact (subsingleton_pointSet_iff hstands).1 (hone ▸ Set.subsingleton_singleton)

theorem fails_of_patternByCensus
    (h : (patternByCensus settings items inverse).result = .error fault) :
    Fails items inverse fault := by
  rw [patternByCensus_result, bind_eq_error_iff] at h
  rcases h with hcensus | ⟨c, hc, hpattern⟩
  · rcases Census.category_of_ofItems_eq_error hcensus with htype | hoverflow
    · exact .type htype
    · exact .number (.inr hoverflow)
  · exact (Census.describes_of_ofItems hc).fails hpattern

/-- There are no other reasons for a pattern to fail, whatever the items. -/
theorem fails_of_patternOf (h : (patternOf settings items inverse).result = .error fault) :
    Fails items inverse fault := by
  unfold patternOf at h
  split at h
  · next first huniform =>
    -- the short way looks at the first item, and blames it if it is no character
    change first.spelling = .error fault at h
    obtain ⟨hbad, rfl⟩ := Value.spelling_eq_error_iff.1 h
    obtain ⟨rest, rfl⟩ := List.head?_eq_some_iff.1 (uniform?_eq_some_iff.1 huniform).1
    refine .blame rfl (fun hstands => ?_) (List.find?_cons_of_pos (by rw [hbad]; rfl))
    obtain ⟨p, hp⟩ := hstands first List.mem_cons_self
    refine ⟨p, fun item hitem => ?_⟩
    rwa [eq_first_of_uniform? huniform hp item hitem]
  · exact fails_of_patternByCensus h

/-- Who is blamed, and when. -/
theorem Fails.blamed (h : Fails items inverse fault)
    (hargument : fault.category = .invalidArgument) :
    inverse = false ∧
      ((∀ item ∈ items, ∃ p, item.StandsFor p) → ∃ p, ∀ item ∈ items, item.StandsFor p) ∧
      ∃ item, items.find? (fun item => !item.isCharacter) = some item ∧
        fault = .notCharacter item := by
  cases h with
  | type h => cases h.symm.trans hargument
  | number h => rcases h with h | h <;> cases h.symm.trans hargument
  | blame hinverse hone hfirst => exact ⟨hinverse, hone, _, hfirst, rfl⟩

/-- If all items share a point, then the first of them that is no character is blamed. -/
theorem patternOf_eq_notCharacter (settings : Settings) (hone : ∀ item ∈ items, item.StandsFor p)
    (hfirst : items.find? (fun item => !item.isCharacter) = some item) :
    (patternOf settings items false).result = .error (.notCharacter item) := by
  have hset : pointSet items = {p} :=
    pointSet_eq_singleton (List.ne_nil_of_mem (List.mem_of_find?_eq_some hfirst)) hone
  obtain ⟨points, hpoints⟩ := exists_points fun item hitem => ⟨p, hone item hitem⟩
  obtain ⟨c, hc, h⟩ := exists_census_of_singleton settings.threshold hpoints hset
  rw [patternOf_result_of_census hc, h.pattern_of_singleton hset,
    h.barePattern_eq_error hset hfirst]

/-- Items that all stand for points are blamed exactly if the pattern is not inverted, they share
one point, and not all of them are characters. Of items of any kind, whoever is blamed is the first
that is no character, and the pattern is not inverted. Nobody is blamed where only tokens are asked
for. -/
theorem blame_first_nonCharacter (settings : Settings) (items : List Value) (inverse : Bool) :
    ((∀ item ∈ items, ∃ p, item.StandsFor p) →
      ((∃ fault, ((Input.many items).pattern settings inverse).result = .error fault ∧
          fault.category = .invalidArgument) ↔
        inverse = false ∧ (∃ p, ∀ item ∈ items, item.StandsFor p) ∧
          ∃ item ∈ items, item.isCharacter = false)) ∧
    (∀ fault, ((Input.many items).pattern settings inverse).result = .error fault →
      fault.category = .invalidArgument →
        inverse = false ∧ ∃ item, items.find? (fun item => !item.isCharacter) = some item ∧
          fault = .notCharacter item) ∧
    ∀ fault, ((Input.many items).tokens settings).result = .error fault →
      fault.category ≠ .invalidArgument := by
  rw [Input.pattern_of_members rfl, Input.tokens_result_of_members rfl]
  refine ⟨fun hstands => ⟨?_, ?_⟩, ?_, ?_⟩
  · rintro ⟨fault, hfault, hargument⟩
    obtain ⟨hinverse, hone, item, hfirst, -⟩ := (fails_of_patternOf hfault).blamed hargument
    refine ⟨hinverse, hone hstands, item, List.mem_of_find?_eq_some hfirst, ?_⟩
    simpa using List.find?_some hfirst
  · rintro ⟨rfl, ⟨p, hone⟩, item, hitem, hbad⟩
    have hall : ¬∀ item ∈ items, item.isCharacter = true := by
      intro hall
      rw [hall item hitem] at hbad
      cases hbad
    obtain ⟨first, -, -, hfirst⟩ := exists_first_nonCharacter hall
    exact ⟨_, patternOf_eq_notCharacter settings hone hfirst, rfl⟩
  · intro fault hfault hargument
    obtain ⟨hinverse, -, hblamed⟩ := (fails_of_patternOf hfault).blamed hargument
    exact ⟨hinverse, hblamed⟩
  · intro fault hfault hargument
    rcases Census.category_of_ofItems_eq_error (map_eq_error_iff.1 hfault) with h | h
    · cases h.symm.trans hargument
    · cases h.symm.trans hargument

/-- A truth value behind its valid twin. -/
def pair : List Value :=
  [.int 1, .bool true]

/-- It is blamed, and the twin is not. -/
theorem blame_first_nonCharacter_pair :
    (∀ item ∈ pair, ∃ p, item.StandsFor p) ∧
      ((Input.many pair).pattern {} false).result = .error (.notCharacter (.bool true)) := by
  have hone : ∀ item ∈ pair, item.StandsFor 1 := by
    simp only [pair, List.forall_mem_cons]
    exact ⟨.int 1, .bool true, fun _ h => nomatch h⟩
  have hstands : ∀ item ∈ pair, ∃ p, item.StandsFor p := fun item hitem => ⟨1, hone item hitem⟩
  obtain ⟨hiff, hfirst, -⟩ := blame_first_nonCharacter {} pair false
  obtain ⟨fault, hfault, hargument⟩ :=
    (hiff hstands).2 ⟨rfl, ⟨1, hone⟩, .bool true, by simp [pair], rfl⟩
  obtain ⟨-, item, hitem, rfl⟩ := hfirst fault hfault hargument
  obtain rfl : Value.bool true = item := Option.some.inj hitem
  exact ⟨hstands, hfault⟩

end CharClass
