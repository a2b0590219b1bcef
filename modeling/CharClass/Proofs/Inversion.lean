import CharClass.Proofs.Reading

/-!
# Inverting a pattern

The pattern of a set and the inverted one differ in a caret behind the opening bracket, and where
one of them fails, so does the other, with the same fault. A single set of two or more points is an
exception: the caret and the dash alone. A caret may open an inverted expression, but not a plain
one, so there the two change places.

## Main definitions

* `Text.invert`: a bracket expression with a caret behind its opening bracket

## Main statements

* `Placed.enclose_true`: enclosing a text plainly and inverted
* `Census.Describes.bracketPattern_true`: the two patterns of a census
* `pattern_invert`: the two patterns of a set
-/

namespace CharClass

open CodePoint

/-- A bracket expression with a caret behind its opening bracket. -/
def Text.invert (text : Text) : Text :=
  openBracket :: caret :: text.tail

/-! ### Enclosing -/

/-- The placed members where a dash is put in front of the caret, unless something else is. -/
def Placed.swapped : Placed where
  closeBracket := false
  caret := true
  dash := true

namespace Placed

variable {placed : Placed} {inverse : Bool} {body : Text}

theorem head?_enclose (placed : Placed) (inverse : Bool) (body : Text) :
    (placed.enclose inverse body).head? = some openBracket :=
  rfl

/-- The members come in the same order, whether the expression is inverted or not, if something
stands in front of the caret or no dash behind it. -/
theorem enclose_true (h : ¬(body = [] ∧ placed = swapped)) :
    placed.enclose true body = (placed.enclose false body).invert := by
  have hplain : ¬(!false && !placed.closeBracket && body.isEmpty && placed.caret &&
      placed.dash) = true := by
    intro hswap
    obtain ⟨isClose, isCaret, isDash⟩ := placed
    simp only [Bool.and_eq_true, Bool.not_eq_true', List.isEmpty_iff] at hswap
    obtain ⟨⟨⟨⟨-, rfl⟩, hbody⟩, rfl⟩, rfl⟩ := hswap
    exact h ⟨hbody, rfl⟩
  simp only [enclose, if_neg hplain]
  rfl

end Placed

/-! ### The two patterns of a census -/

namespace Census.Describes

variable {c : Census} {items : List Value} {inverse : Bool} {text : Text}

/-- A census has no tokens, and no placed members but the caret and the dash, exactly if these two
are its set. -/
theorem swapped_iff (h : c.Describes items) :
    c.tokens = [] ∧ c.placed = .swapped ↔
      pointSet items = {(caret.val : Int), (dash.val : Int)} := by
  constructor
  · rintro ⟨htokens, hplaced⟩
    ext p
    rw [← h.mem_tokens_or_placed_iff, htokens, hplaced]
    simp [Placed.codePoints, Placed.head, Placed.tail, Placed.swapped]
  · intro hset
    have hmem (p : Int) : p ∈ pointSet items ↔ p = caret.val ∨ p = dash.val := by
      rw [hset, Set.mem_insert_iff, Set.mem_singleton_iff]
    constructor
    · have hpoints : c.points = [] := by
        refine List.eq_nil_iff_forall_not_mem.2 fun p hp => ?_
        obtain ⟨hpset, hgeneral⟩ := h.mem_points.1 hp
        rcases (hmem p).1 hpset with rfl | rfl <;> cases hgeneral
      rw [tokens, hpoints]
      rfl
    · have hcontains (p : Int) : (c.members.map Member.point).contains p =
          (p == caret.val || p == dash.val) := by
        rw [Bool.eq_iff_iff, List.contains_iff_mem, ← mem_pointSet_iff_of_forall₂ h.standsFor,
          hmem, Bool.or_eq_true, beq_iff_eq, beq_iff_eq]
      rw [placed, Placed.ofPoints, hcontains, hcontains, hcontains]
      rfl

/-- The inverted pattern of any other set is the plain one with a caret put in, or fails as that
does. -/
theorem bracketPattern_true (h : c.Describes items)
    (hset : pointSet items ≠ {(caret.val : Int), (dash.val : Int)}) :
    c.bracketPattern true = (c.bracketPattern false).map Text.invert := by
  unfold bracketPattern
  cases hbody : Token.spellAll c.tokens with
  | error fault => rfl
  | ok body =>
    have hsome : ¬(body = [] ∧ c.placed = .swapped) := by
      rintro ⟨rfl, hplaced⟩
      rcases Token.eq_nil_or_exists_cons_of_spellAll (fun t ht => h.plain_of_mem_tokens ht) hbody
        with ⟨htokens, -⟩ | ⟨d, more, hcons, -⟩
      · exact hset (h.swapped_iff.1 ⟨htokens, hplaced⟩)
      · cases hcons
    show Except.ok (c.placed.enclose true body) = _
    rw [Placed.enclose_true hsome]
    rfl

/-- The patterns of the caret and the dash alone. -/
theorem bracketPattern_of_swapped (h : c.Describes items)
    (hset : pointSet items = {(caret.val : Int), (dash.val : Int)}) :
    c.bracketPattern inverse = .ok (Placed.swapped.enclose inverse []) := by
  obtain ⟨htokens, hplaced⟩ := h.swapped_iff.2 hset
  rw [bracketPattern, htokens, hplaced]
  rfl

end Census.Describes

theorem Census.head?_of_bracketPattern {c : Census} {inverse : Bool} {text : Text}
    (h : c.bracketPattern inverse = .ok text) : text.head? = some openBracket := by
  obtain ⟨body, -, rfl⟩ := map_eq_ok_iff.1 h
  exact c.placed.head?_enclose inverse body

/-! ### The two patterns of a set -/

section Runs

variable {settings : Settings} {input : Input} {items : List Value} {inverse : Bool}

/-- Where a set has two points at least, all runs go by the bracket expression of its census. -/
theorem patternOf_result_of_nontrivial (settings : Settings) (inverse : Bool)
    (hstands : ∀ item ∈ items, ∃ p, item.StandsFor p) (hmany : (pointSet items).Nontrivial) :
    (patternOf settings items inverse).result =
      Census.ofItems settings.threshold items >>= fun c => c.bracketPattern inverse := by
  obtain ⟨points, hpoints⟩ := exists_points hstands
  rw [patternOf_result_of_points hpoints, patternByCensus_result]
  cases hc : Census.ofItems settings.threshold items with
  | error fault => rfl
  | ok c =>
    have h := Census.describes_of_ofItems hc
    exact h.pattern_eq_bracketPattern (h.nonempty_pointSet_iff.1 hmany.nonempty) (.inr hmany)

/-- Every pattern of such a set begins with the opening bracket. -/
theorem head?_of_patternOf {text : Text} (hstands : ∀ item ∈ items, ∃ p, item.StandsFor p)
    (hmany : (pointSet items).Nontrivial)
    (h : (patternOf settings items inverse).result = .ok text) : text.head? = some openBracket := by
  rw [patternOf_result_of_nontrivial settings inverse hstands hmany, bind_eq_ok_iff] at h
  obtain ⟨c, -, htext⟩ := h
  exact Census.head?_of_bracketPattern htext

theorem patternOf_true (settings : Settings) (hstands : ∀ item ∈ items, ∃ p, item.StandsFor p)
    (hmany : (pointSet items).Nontrivial)
    (hset : pointSet items ≠ {(caret.val : Int), (dash.val : Int)}) :
    (patternOf settings items true).result =
      (patternOf settings items false).result.map Text.invert := by
  rw [patternOf_result_of_nontrivial settings true hstands hmany,
    patternOf_result_of_nontrivial settings false hstands hmany]
  cases hc : Census.ofItems settings.threshold items with
  | error fault => rfl
  | ok c => exact (Census.describes_of_ofItems hc).bracketPattern_true hset

/-- The caret and the dash have a census whatever the settings, since they need no ordering. -/
theorem patternOf_of_swapped (settings : Settings) (inverse : Bool)
    (hstands : ∀ item ∈ items, ∃ p, item.StandsFor p) (hmany : (pointSet items).Nontrivial)
    (hset : pointSet items = {(caret.val : Int), (dash.val : Int)}) :
    (patternOf settings items inverse).result = .ok (Placed.swapped.enclose inverse []) := by
  obtain ⟨points, hpoints⟩ := exists_points hstands
  have hdomain : ∀ p ∈ pointSet items, CodePoint.InDomain p := by
    rw [hset]
    rintro p (rfl | rfl)
    · exact caret.inDomain_val
    · exact dash.inDomain_val
  obtain ⟨c, h, hc⟩ := exists_census_of_inDomain settings hpoints hdomain
  rw [patternOf_result_of_nontrivial settings inverse hstands hmany, hc]
  exact h.bracketPattern_of_swapped hset

/-- The inverted pattern of a set of two points or more is the plain pattern with a caret behind the
opening bracket, and one of them fails if and only if the other does, with the same fault. This
holds of every set but the caret and the dash alone, whose patterns are `[-^]` and `[^^-]`. -/
theorem pattern_invert (settings : Settings) (hmembers : input.members = .ok items)
    (hstands : ∀ item ∈ items, ∃ p, item.StandsFor p) (hmany : (pointSet items).Nontrivial) :
    (pointSet items ≠ {(caret.val : Int), (dash.val : Int)} →
      (∀ text, (input.pattern settings false).result = .ok text ↔
        text.head? = some openBracket ∧
          (input.pattern settings true).result = .ok (openBracket :: caret :: text.tail)) ∧
      ∀ fault, (input.pattern settings false).result = .error fault ↔
        (input.pattern settings true).result = .error fault) ∧
    (pointSet items = {(caret.val : Int), (dash.val : Int)} →
      (input.pattern settings false).result = .ok (.ofString "[-^]") ∧
        (input.pattern settings true).result = .ok (.ofString "[^^-]")) := by
  rw [Input.pattern_of_members hmembers, Input.pattern_of_members hmembers]
  refine ⟨fun hset => ?_, fun hset => ?_⟩
  · rw [patternOf_true settings hstands hmany hset]
    refine ⟨fun text => ⟨fun htext => ?_, ?_⟩, fun fault => map_eq_error_iff.symm⟩
    · exact ⟨head?_of_patternOf hstands hmany htext, map_eq_ok_iff.2 ⟨text, htext, rfl⟩⟩
    · rintro ⟨hhead, hinverted⟩
      obtain ⟨plain, hplain, hinvert⟩ := map_eq_ok_iff.1 hinverted
      -- both texts begin with the bracket and go on alike
      obtain ⟨rest, rfl⟩ := List.head?_eq_some_iff.1 (head?_of_patternOf hstands hmany hplain)
      obtain ⟨rest', rfl⟩ := List.head?_eq_some_iff.1 hhead
      obtain rfl : rest = rest' := (List.cons.inj (List.cons.inj hinvert).2).2
      exact hplain
  · rw [patternOf_of_swapped settings false hstands hmany hset,
      patternOf_of_swapped settings true hstands hmany hset]
    exact ⟨rfl, rfl⟩

/-- The caret and the dash, each in two spellings. -/
def signs : List Value :=
  [.int 0x5E, .octets [0x2D], .text [caret], .buffer [0x2D]]

/-- They change places, and no longer do so when a point joins them that is no code point. -/
theorem pattern_invert_signs :
    (Input.many signs).members = .ok signs ∧ (∀ item ∈ signs, ∃ p, item.StandsFor p) ∧
      (pointSet signs).Nontrivial ∧
      pointSet signs = {(caret.val : Int), (dash.val : Int)} ∧
      ((Input.many signs).pattern ⟨true, -1⟩ false).result = .ok (.ofString "[-^]") ∧
      ((Input.many signs).pattern ⟨true, -1⟩ true).result = .ok (.ofString "[^^-]") ∧
      pointSet (.int (-1) :: signs) ≠ {(caret.val : Int), (dash.val : Int)} ∧
      ∀ fault, ((Input.many (.int (-1) :: signs)).pattern ⟨true, -1⟩ false).result = .error fault ↔
        ((Input.many (.int (-1) :: signs)).pattern ⟨true, -1⟩ true).result = .error fault := by
  have hpoints : List.Forall₂ Value.StandsFor (.int (-1) :: signs)
      [-1, 0x5E, 0x2D, 0x5E, 0x2D] := by
    unfold signs
    repeat' constructor
  have hstands : ∀ item ∈ .int (-1) :: signs, ∃ p, item.StandsFor p := fun item hitem =>
    ((exists_of_forall₂ hpoints).1 item hitem).imp fun _ h => h.2
  have hmem (p : Int) : p ∈ pointSet signs ↔ p ∈ ([0x5E, 0x2D, 0x5E, 0x2D] : List Int) :=
    mem_pointSet_iff_of_forall₂ (List.forall₂_cons.1 hpoints).2
  have hset : pointSet signs = {(caret.val : Int), (dash.val : Int)} := by
    ext p
    simp only [hmem, List.mem_cons, List.not_mem_nil, Set.mem_insert_iff, Set.mem_singleton_iff]
    show _ ↔ p = 0x5E ∨ p = 0x2D
    tauto
  have hmany : (pointSet signs).Nontrivial :=
    ⟨0x5E, (hmem _).2 (by decide), 0x2D, (hmem _).2 (by decide), by decide⟩
  have hsub : pointSet signs ⊆ pointSet (.int (-1) :: signs) := fun p ⟨item, hitem, hp⟩ =>
    ⟨item, List.mem_cons_of_mem _ hitem, hp⟩
  have hother : pointSet (.int (-1) :: signs) ≠ {(caret.val : Int), (dash.val : Int)} := by
    intro hset
    have hmem : -1 ∈ pointSet (.int (-1) :: signs) := ⟨_, List.mem_cons_self, .int (-1)⟩
    rw [hset] at hmem
    exact absurd hmem (by decide)
  have hmembers : (Input.many signs).members = .ok signs := rfl
  have hmembers' : (Input.many (.int (-1) :: signs)).members = .ok (.int (-1) :: signs) := rfl
  have hsigns := (List.forall_mem_cons.1 hstands).2
  obtain ⟨hplain, hinverted⟩ := (pattern_invert ⟨true, -1⟩ hmembers hsigns hmany).2 hset
  obtain ⟨-, hfaults⟩ :=
    (pattern_invert ⟨true, -1⟩ hmembers' hstands (hmany.mono hsub)).1 hother
  exact ⟨hmembers, hsigns, hmany, hset, hplain, hinverted, hother, hfaults⟩

end Runs

end CharClass
