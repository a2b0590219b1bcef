import CharClass.Pattern
import CharClass.Proofs.Census
import CharClass.Proofs.TokenStream

/-!
# From members to patterns

The pattern of a set is decided by its census: nothing for no member, the bare spelling of a lone
member, and a bracket expression for all else. The short way for members that are all alike gives
what their census gives, so it may be forgotten as soon as all members stand for points.

## Main statements

* `patternByCensus_result_of_uniform?`, `patternOf_result_of_points`, `short_way_agrees`: the short
  way changes nothing
* `Census.Describes.pattern_of_singleton`, `Census.Describes.pattern_eq_bracketPattern`: the two
  kinds of patterns
* `Census.Describes.exists_bracketPattern_iff`: when a bracket expression can be spelled
-/

namespace CharClass

variable {settings : Settings} {items : List Value} {points : List Int} {inverse : Bool}
  {threshold : Int}

/-! ### Results -/

theorem censusOf_result (settings : Settings) (items : List Value) :
    (censusOf settings items).result = Census.ofItems settings.threshold items := by
  rw [censusOf]
  split
  · next h => exact h.symm
  · next h => exact h.symm

theorem patternByCensus_result (settings : Settings) (items : List Value) (inverse : Bool) :
    (patternByCensus settings items inverse).result =
      Census.ofItems settings.threshold items >>= fun c => c.pattern inverse := by
  rw [← censusOf_result]
  rfl

namespace Input

variable {input : Input}

theorem pattern_of_members (h : input.members = .ok items) :
    input.pattern settings inverse = patternOf settings items inverse := by
  rw [pattern, h]

theorem tokens_result_of_members (h : input.members = .ok items) :
    (input.tokens settings).result =
      (Census.ofItems settings.threshold items).map Census.tokens := by
  rw [tokens, census, h, ← censusOf_result]
  rfl

end Input

/-! ### The tokens of a census -/

theorem Census.flatMap_points_tokens (c : Census) : c.tokens.flatMap Token.points = c.points :=
  Token.flatMap_points_ofPoints c.points

/-- No token reaches over one of the three that act by their place. -/
theorem Census.Describes.isPlaced_eq_false_of_mem_tokens {c : Census} {t : Token} {p : Int}
    (h : c.Describes items) (ht : t ∈ c.tokens) (hp : p ∈ t.points) : isPlaced p = false := by
  have hmem : p ∈ c.tokens.flatMap Token.points := List.mem_flatMap.2 ⟨t, ht, hp⟩
  rw [Census.flatMap_points_tokens] at hmem
  exact (h.mem_points.1 hmem).2

/-! ### The pattern of a census -/

namespace Census.Describes

variable {c : Census} {p : Int}

theorem pattern_of_nil (h : c.Describes []) :
    c.pattern inverse = .ok (if inverse then anyCharacter else []) := by
  have hsize : c.size = 0 := h.size_eq_zero_iff.2 rfl
  unfold Census.pattern
  rw [hsize]
  cases inverse <;> rfl

theorem pattern_of_singleton (h : c.Describes items) (hone : pointSet items = {p}) :
    c.pattern false = c.barePattern := by
  have hsize : c.size = 1 := h.size_eq_one_iff.2 ⟨p, hone⟩
  unfold Census.pattern
  rw [hsize]
  rfl

theorem pattern_eq_bracketPattern (h : c.Describes items) (hne : items ≠ [])
    (hmany : inverse = true ∨ (pointSet items).Nontrivial) :
    c.pattern inverse = c.bracketPattern inverse := by
  have hzero : c.size ≠ 0 := fun h0 => hne (h.size_eq_zero_iff.1 h0)
  unfold Census.pattern
  split
  · next h0 => exact absurd h0 hzero
  · next h0 => exact absurd h0 hzero
  · next h1 =>
    obtain ⟨p, hp⟩ := h.size_eq_one_iff.1 h1
    rw [hp] at hmany
    exact absurd (hmany.resolve_left Bool.false_ne_true) Set.not_nontrivial_singleton
  · rfl

/-- A lone member is spelled bare if all items behind it are characters. -/
theorem barePattern_eq_ok {d : CodePoint} (h : c.Describes items) (hone : pointSet items = {↑d.val})
    (hall : ∀ item ∈ items, item.isCharacter = true) : c.barePattern = .ok d.escaped := by
  rw [barePattern, (h.vetOnly_eq_ok_iff hone).2 hall, h.onlyPoint_eq_ok_iff.2 hone]
  change (CodePoint.ofPoint d.val >>= _) = _
  rw [CodePoint.ofPoint_val]
  rfl

/-- Otherwise the first item that is no character is to blame. -/
theorem barePattern_eq_error {item : Value} (h : c.Describes items) (hone : pointSet items = {p})
    (hfind : items.find? (fun item => !item.isCharacter) = some item) :
    c.barePattern = .error (.notCharacter item) := by
  have hvet := h.vetOnly_eq hone
  rw [hfind] at hvet
  rw [barePattern, hvet]
  rfl

/-- A bracket expression can be spelled exactly if all of its points are code points. -/
theorem exists_bracketPattern_iff (h : c.Describes items) :
    (∃ text, c.bracketPattern inverse = .ok text) ↔
      ∀ p ∈ pointSet items, CodePoint.InDomain p := by
  have hspell : (∃ text, c.bracketPattern inverse = .ok text) ↔
      ∃ body, Token.spellAll c.tokens = .ok body := by
    simp only [bracketPattern, map_eq_ok_iff]
    constructor
    · rintro ⟨text, body, hbody, -⟩
      exact ⟨body, hbody⟩
    · rintro ⟨body, hbody⟩
      exact ⟨_, body, hbody, rfl⟩
  rw [hspell, tokens, Token.exists_spellAll_ofPoints_iff]
  constructor
  · intro hpoints p hp
    cases hplaced : isPlaced p with
    | false => exact hpoints p (h.mem_points.2 ⟨hp, hplaced⟩)
    | true =>
      -- the three that act by their place are code points anyway
      rcases isPlaced_iff.1 hplaced with rfl | rfl | rfl <;> exact CodePoint.inDomain_val _
  · exact fun hset p hp => hset p (h.mem_points.1 hp).1

/-- No member, a bracket expression, or a lone member: which kind of pattern a set has. -/
theorem cases_of_set (h : c.Describes items) (inverse : Bool) :
    items = [] ∨ (items ≠ [] ∧ (inverse = true ∨ (pointSet items).Nontrivial)) ∨
      (inverse = false ∧ ∃ p, pointSet items = {p}) := by
  by_cases hnil : items = []
  · exact .inl hnil
  · have hne := h.nonempty_pointSet_iff.2 hnil
    rcases hne.exists_eq_singleton_or_nontrivial with hone | hmany
    · cases inverse with
      | false => exact .inr (.inr ⟨rfl, hone⟩)
      | true => exact .inr (.inl ⟨hnil, .inl rfl⟩)
    · exact .inr (.inl ⟨hnil, .inr hmany⟩)

/-- A census has a pattern exactly if all points are code points and, where a lone member is to be
spelled bare, all items behind it are characters. -/
theorem exists_pattern_iff (h : c.Describes items) :
    (∃ text, c.pattern inverse = .ok text) ↔
      (∀ p ∈ pointSet items, CodePoint.InDomain p) ∧
        (inverse = false → (pointSet items).Subsingleton →
          ∀ item ∈ items, item.isCharacter = true) := by
  rcases h.cases_of_set inverse with rfl | ⟨hne, hmany⟩ | ⟨rfl, p, hone⟩
  · rw [h.pattern_of_nil]
    constructor
    · intro _
      refine ⟨?_, fun _ _ item hitem => by cases hitem⟩
      rintro p ⟨item, hitem, -⟩
      cases hitem
    · exact fun _ => ⟨_, rfl⟩
  · rw [h.pattern_eq_bracketPattern hne hmany, h.exists_bracketPattern_iff]
    constructor
    · intro hdomain
      refine ⟨hdomain, ?_⟩
      rintro rfl hsub
      exact absurd hsub (Set.not_subsingleton_iff.2 (hmany.resolve_left Bool.false_ne_true))
    · exact And.left
  · rw [h.pattern_of_singleton hone]
    constructor
    · rintro ⟨text, htext⟩
      have hall : ∀ item ∈ items, item.isCharacter = true := by
        by_contra hall
        obtain ⟨item, -, -, hfind⟩ := exists_first_nonCharacter hall
        rw [h.barePattern_eq_error hone hfind] at htext
        cases htext
      exact ⟨fun q hq => inDomain_of_characters hall hq, fun _ _ => hall⟩
    · rintro ⟨hdomain, hall⟩
      obtain ⟨d, rfl⟩ := CodePoint.inDomain_iff.1 (hdomain p (hone ▸ Set.mem_singleton p))
      exact ⟨_, h.barePattern_eq_ok hone (hall rfl (hone ▸ Set.subsingleton_singleton))⟩

end Census.Describes

/-! ### The short way -/

section Uniform

variable {first : Value} {p : Int}

/-- Items with one point only always have a census: that point fits into a table, however large it
is and however often it comes. -/
theorem exists_census_of_singleton (threshold : Int)
    (hpoints : List.Forall₂ Value.StandsFor items points) (hone : pointSet items = {p}) :
    ∃ c, Census.ofItems threshold items = .ok c ∧ c.Describes items := by
  have hpoint : ∀ q ∈ points, q = p := by
    intro q hq
    rw [← mem_pointSet_iff_of_forall₂ hpoints, hone] at hq
    exact hq
  have hroom : FitsTable (points.filter fun q => !isPlaced q) := by
    intro low hlow high hhigh
    rw [hpoint low (List.mem_of_mem_filter hlow), hpoint high (List.mem_of_mem_filter hhigh)]
    unfold span maxSpan
    omega
  obtain ⟨c, hc⟩ : ∃ c, Census.ofItems threshold items = .ok c :=
    Census.exists_ofItems_eq_ok hpoints (.inr hroom)
  exact ⟨c, hc, Census.describes_of_ofItems hc⟩

/-- Items that are all alike and stand for a point always have a census, and it has that point
only. -/
theorem exists_census_of_uniform? (threshold : Int) (huniform : uniform? items = some first)
    (hp : first.StandsFor p) :
    ∃ c, Census.ofItems threshold items = .ok c ∧ c.Describes items ∧ pointSet items = {p} := by
  have hall : ∀ item ∈ items, item.StandsFor p := by
    intro item hitem
    rwa [eq_first_of_uniform? huniform hp item hitem]
  have hone : pointSet items = {p} :=
    pointSet_eq_singleton (List.ne_nil_of_mem (mem_of_uniform?_eq_some huniform)) hall
  obtain ⟨points, hpoints⟩ := exists_points fun item hitem => ⟨p, hall item hitem⟩
  obtain ⟨c, hc, h⟩ := exists_census_of_singleton threshold hpoints hone
  exact ⟨c, hc, h, hone⟩

/-- Their census spells what the short way spells: the first item bare, or the blame for it. -/
theorem Census.Describes.barePattern_of_uniform? {c : Census} (h : c.Describes items)
    (hone : pointSet items = {p}) (huniform : uniform? items = some first)
    (hp : first.StandsFor p) : c.barePattern = first.spelling := by
  rw [Value.spelling]
  cases hchar : first.character? with
  | some d =>
    -- both ways spell the first item
    obtain rfl := hp.unique (Value.standsFor_of_character? hchar)
    refine h.barePattern_eq_ok hone fun item hitem => ?_
    rw [eq_first_of_uniform? huniform hp item hitem, Value.isCharacter, hchar, Option.isSome_some]
  | none =>
    -- both ways blame the first item
    obtain ⟨rest, rfl⟩ := List.head?_eq_some_iff.1 (uniform?_eq_some_iff.1 huniform).1
    refine h.barePattern_eq_error hone (List.find?_cons_of_pos ?_)
    rw [Value.isCharacter, hchar]
    rfl

theorem patternByCensus_result_of_uniform? (huniform : uniform? items = some first)
    (hp : first.StandsFor p) :
    (patternByCensus settings items false).result = first.spelling := by
  obtain ⟨c, hc, h, hone⟩ := exists_census_of_uniform? settings.threshold huniform hp
  rw [patternByCensus_result, hc]
  change c.pattern false = first.spelling
  rw [h.pattern_of_singleton hone, h.barePattern_of_uniform? hone huniform hp]

/-- The short way changes nothing for items that stand for points. -/
theorem patternOf_result_of_points (hpoints : List.Forall₂ Value.StandsFor items points) :
    (patternOf settings items inverse).result =
      (patternByCensus settings items inverse).result := by
  unfold patternOf
  split
  · next item huniform =>
    obtain ⟨p, -, hp⟩ := (exists_of_forall₂ hpoints).1 item (mem_of_uniform?_eq_some huniform)
    exact (patternByCensus_result_of_uniform? huniform hp).symm
  · rfl

/-- Items that are all alike and stand for a point are spelled by way of their census exactly as on
the short way, whatever the point, their number and the settings: there is a census, with that point
only, and both ways give the same text, or both blame the first item for being no character. -/
theorem short_way_agrees (settings : Settings) {rest : List Value}
    (halike : ∀ item ∈ first :: rest, item.alike first = true) (hp : first.StandsFor p) :
    (patternOf settings (first :: rest) false).result = first.spelling ∧
      (∃ c, Census.ofItems settings.threshold (first :: rest) = .ok c ∧ c.size = 1 ∧
        c.onlyPoint = .ok p ∧ c.pattern false = c.barePattern ∧
        c.barePattern = first.spelling) ∧
      (patternByCensus settings (first :: rest) false).result = first.spelling ∧
      ((∃ d : CodePoint, p = d.val ∧ first.isCharacter = true ∧
          first.spelling = .ok d.escaped) ∨
        first.isCharacter = false ∧ first.spelling = .error (.notCharacter first)) := by
  have huniform : uniform? (first :: rest) = some first :=
    uniform?_eq_some_iff.2 ⟨rfl, halike⟩
  obtain ⟨c, hc, h, hone⟩ := exists_census_of_uniform? settings.threshold huniform hp
  refine ⟨?_, ⟨c, hc, ?_, ?_, ?_, ?_⟩, patternByCensus_result_of_uniform? huniform hp, ?_⟩
  · unfold patternOf
    rw [huniform]
    rfl
  · exact h.size_eq_one_iff.2 ⟨p, hone⟩
  · exact h.onlyPoint_eq_ok_iff.2 hone
  · exact h.pattern_of_singleton hone
  · exact h.barePattern_of_uniform? hone huniform hp
  · unfold Value.spelling Value.isCharacter
    cases hchar : first.character? with
    | some d => exact .inl ⟨d, hp.unique (Value.standsFor_of_character? hchar), rfl, rfl⟩
    | none => exact .inr ⟨rfl, rfl⟩

/-- A number beyond all code points. -/
def beyond : Value :=
  .int 0x110000

/-- It is blamed on both ways, here three times where no more than two numbers are sorted. -/
theorem short_way_agrees_beyond :
    (∀ item ∈ [beyond, beyond, beyond], item.alike beyond = true) ∧ beyond.StandsFor 0x110000 ∧
      (patternOf ⟨false, 2⟩ [beyond, beyond, beyond] false).result = beyond.spelling ∧
      (∃ c, Census.ofItems 2 [beyond, beyond, beyond] = .ok c ∧ c.size = 1 ∧
        c.onlyPoint = .ok 0x110000 ∧ c.pattern false = c.barePattern ∧
        c.barePattern = beyond.spelling) ∧
      (patternByCensus ⟨false, 2⟩ [beyond, beyond, beyond] false).result = beyond.spelling ∧
      ((∃ d : CodePoint, (0x110000 : Int) = d.val ∧ beyond.isCharacter = true ∧
          beyond.spelling = .ok d.escaped) ∨
        beyond.isCharacter = false ∧ beyond.spelling = .error (.notCharacter beyond)) := by
  have halike : ∀ item ∈ [beyond, beyond, beyond], item.alike beyond = true := by decide
  have hpoint : beyond.StandsFor 0x110000 := .int 0x110000
  exact ⟨halike, hpoint, short_way_agrees ⟨false, 2⟩ halike hpoint⟩

end Uniform

/-! ### The census behind a pattern -/

theorem fitsTable_of_inDomain (h : ∀ p ∈ points, CodePoint.InDomain p) : FitsTable points := by
  intro low hlow high hhigh
  have hl := (h low hlow).1
  have hh := (h high hhigh).2
  unfold span maxSpan
  unfold CodePoint.greatest at hh
  omega

/-- Items that stand for points have the pattern of their census, if there is one. -/
theorem patternOf_result_of_census {c : Census}
    (hc : Census.ofItems settings.threshold items = .ok c) :
    (patternOf settings items inverse).result = c.pattern inverse := by
  rw [patternOf_result_of_points (Census.describes_of_ofItems hc).standsFor,
    patternByCensus_result, hc]
  rfl

/-- Items that stand for code points have a census, whatever the settings. -/
theorem exists_census_of_inDomain (settings : Settings)
    (hpoints : List.Forall₂ Value.StandsFor items points)
    (hdomain : ∀ p ∈ pointSet items, CodePoint.InDomain p) :
    ∃ c : Census, c.Describes items ∧ Census.ofItems settings.threshold items = .ok c := by
  have hroom : FitsTable (points.filter fun p => !isPlaced p) :=
    fitsTable_of_inDomain fun p hp =>
      hdomain p ((mem_pointSet_iff_of_forall₂ hpoints).2 (List.mem_of_mem_filter hp))
  obtain ⟨c, hc⟩ : ∃ c, Census.ofItems settings.threshold items = .ok c :=
    Census.exists_ofItems_eq_ok hpoints (.inr hroom)
  exact ⟨c, Census.describes_of_ofItems hc, hc⟩

theorem exists_census_of_characters (settings : Settings)
    (hitems : ∀ item ∈ items, item.isCharacter = true) :
    ∃ c : Census, c.Describes items ∧ Census.ofItems settings.threshold items = .ok c := by
  obtain ⟨points, hpoints⟩ := exists_points_of_characters hitems
  exact exists_census_of_inDomain settings hpoints fun p hp => inDomain_of_characters hitems hp

/-- Characters always have a pattern, and if it is one in brackets, their census spells it. -/
theorem exists_bracketPattern_of_characters {input : Input} (settings : Settings)
    (hmembers : input.members = .ok items) (hitems : ∀ item ∈ items, item.isCharacter = true)
    (hne : items ≠ []) (hmany : inverse = true ∨ (pointSet items).Nontrivial) :
    ∃ (c : Census) (text : Text), c.Describes items ∧ c.bracketPattern inverse = .ok text ∧
      (input.pattern settings inverse).result = .ok text := by
  obtain ⟨c, h, hc⟩ := exists_census_of_characters settings hitems
  obtain ⟨text, htext⟩ : ∃ text, c.bracketPattern inverse = .ok text :=
    h.exists_bracketPattern_iff.2 fun p hp => inDomain_of_characters hitems hp
  refine ⟨c, text, h, htext, ?_⟩
  rw [Input.pattern_of_members hmembers, patternOf_result_of_census hc,
    h.pattern_eq_bracketPattern hne hmany, htext]

end CharClass
