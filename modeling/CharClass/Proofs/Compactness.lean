import CharClass.Proofs.Covers
import CharClass.Proofs.SetSyntax
import Mathlib.Algebra.Order.BigOperators.Group.Finset

/-!
# How short a pattern is

A pattern in brackets is as short as a text can be that is read as the same set, if the text is as
cautious as patterns are: it escapes each `[`, and no range of it reaches over one of the three that
act by their place. Both conditions are needed, for a range over a dash may be shorter than what is
left of it on both sides, and a bare `[` is shorter than an escaped one. But no text whatsoever
saves more than ten code points.

Whatever the reader takes from a text it pays for: a text is at least as long as the tokens read
from it are wide. These tokens cover the set, and a cover costs at least what the members of the
set are charged. The pattern costs just that if its members next to the three are charged with some
of them missing, and at most ten more than if they are charged with the three in place.

## Main definitions

* `Bracket.Reads`: how a reader gets from a text to its tokens
* `Bracket.Spells`: a text is one whole bracket expression for a set of points
* `Bracket.Cautious`: it is spelled with the caution of a pattern
* `Census.share`, `surcharge`: what a member costs a pattern, and how much more than elsewhere

## Main statements

* `Bracket.Spells.width_le`: the reader pays for what it reads
* `Census.Describes.width_le`, `Census.Describes.width_le_add`: what another spelling costs
* `length_pattern_le`: no cautious spelling is shorter than the pattern
* `exists_shorter_spelling`: others may be
-/

namespace CharClass

open CodePoint

/-! ### What the reader pays -/

section Units

variable {c : CodePoint} {s rest : Text} {mayFollow : CodePoint → Bool}

/-- A unit is a code point other than a backslash, or a code point behind a backslash. -/
theorem eq_cons_of_unit? (h : unit? mayFollow s = some (c, rest)) :
    (s = c :: rest ∧ c ≠ backslash) ∨ s = backslash :: c :: rest := by
  cases s with
  | nil => cases h
  | cons a s =>
    by_cases ha : a = backslash
    · subst a
      cases s with
      | nil => cases h
      | cons d s =>
        by_cases hd : mayFollow d = true
        · obtain ⟨rfl, rfl⟩ : d = c ∧ s = rest := by simpa [unit?, hd] using h
          exact .inr rfl
        · simp [unit?, hd] at h
    · rw [unit?_cons ha] at h
      obtain ⟨rfl, rfl⟩ : a = c ∧ s = rest := by simpa using h
      exact .inl ⟨rfl, ha⟩

/-- What is left behind a unit has each `[` escaped if the whole text has. -/
theorem opensEscaped_of_unit? (hunit : unit? mayFollow s = some (c, rest))
    (hs : opensEscaped false s = true) : opensEscaped false rest = true := by
  rcases eq_cons_of_unit? hunit with ⟨rfl, hc⟩ | rfl
  · rw [opensEscaped, Bool.and_eq_true, beq_eq_false_iff_ne.2 hc] at hs
    exact hs.2
  · exact hs

/-- A unit takes as much of the text as its spelling is wide. -/
theorem width_le_of_unit? {bare : Bool} (hunit : unit? mayFollow s = some (c, rest))
    (hopen : c = openBracket → bare = true ∨ opensEscaped false s = true) :
    rest.length + pointWidth bare c.val ≤ s.length := by
  rcases eq_cons_of_unit? hunit with ⟨rfl, hc⟩ | rfl
  · have hwidth : pointWidth bare c.val = 1 := by
      rw [pointWidth, if_neg]
      simp only [Int.natCast_inj, Fin.val_inj]
      rintro (⟨rfl, rfl⟩ | rfl)
      · rcases hopen rfl with h | h <;> cases h
      · exact hc rfl
    rw [hwidth, List.length_cons]
  · have hwidth := pointWidth_le_two bare c.val
    simp only [List.length_cons]
    omega

end Units

namespace Bracket

/-- How a reader gets from a text to tokens, one step for each token. -/
inductive Reads : Text → List Token → Text → Prop where
  | close (rest : Text) : Reads (closeBracket :: rest) [] rest
  | lastDash {s rest : Text} {a : CodePoint}
    (hunit : unit? escapable s = some (a, dash :: closeBracket :: rest)) :
    Reads s [.single a.val, .single dash.val] rest
  | range {s more after rest : Text} {a b : CodePoint} {tokens : List Token}
    (hunit : unit? escapable s = some (a, dash :: more))
    (hunit' : unit? escapable more = some (b, after)) (hab : a ≤ b)
    (hafter : Reads after tokens rest) : Reads s (.range a.val b.val :: tokens) rest
  | single {s after rest : Text} {a : CodePoint} {tokens : List Token}
    (hunit : unit? escapable s = some (a, after)) (hafter : Reads after tokens rest) :
    Reads s (.single a.val :: tokens) rest

variable {first : Bool} {s rest text : Text} {tokens : List Token}

/-- Each step of the reader is one of these. -/
theorem reads_of_readItems? (h : readItems? first s = some (tokens, rest)) :
    Reads s tokens rest := by
  induction hn : s.length using Nat.strong_induction_on generalizing first s tokens with
  | _ n ih =>
    subst hn
    by_cases hopen : first = true ∨ s.head? ≠ some closeBracket
    · cases hunit : unit? escapable s with
      | none =>
        rw [readItems?_of_unit?_none hopen hunit] at h
        cases h
      | some found =>
        obtain ⟨a, _ | ⟨c, more⟩⟩ := found
        · rw [readItems?_of_unit?_nil hopen hunit] at h
          cases h
        · have hshorter := length_lt_of_unit?_eq_some hunit
          rw [readItems?_of_unit? hopen hunit] at h
          split at h
          · next hdash =>
            subst c
            split at h
            · next hclose =>
              obtain ⟨after, rfl⟩ := List.head?_eq_some_iff.1 hclose
              cases h
              exact .lastDash hunit
            · obtain ⟨⟨b, after⟩, hunit', h⟩ := Option.bind_eq_some_iff.1 h
              by_cases hab : b < a
              · simp only [if_pos hab, reduceCtorEq] at h
              · simp only [if_neg hab] at h
                obtain ⟨⟨found, rest⟩, hafter, h⟩ := Option.map_eq_some_iff.1 h
                cases h
                have hshorter' := length_lt_of_unit?_eq_some hunit'
                rw [List.length_cons] at hshorter
                exact .range hunit hunit' (Fin.not_lt.1 hab) (ih _ (by omega) hafter rfl)
          · obtain ⟨⟨found, rest⟩, hafter, h⟩ := Option.map_eq_some_iff.1 h
            cases h
            exact .single hunit (ih _ hshorter hafter rfl)
    · rw [not_or, not_not, Bool.not_eq_true] at hopen
      obtain ⟨rfl, hclose⟩ := hopen
      obtain ⟨after, rfl⟩ := List.head?_eq_some_iff.1 hclose
      rw [readItems?_close] at h
      cases h
      exact .close rest

namespace Reads

/-- The reader takes no range that descends. -/
theorem ordered (h : Reads s tokens rest) : ∀ t ∈ tokens, t.Ordered := by
  induction h with
  | close => simp
  | lastDash => simp [Token.Ordered]
  | range _ _ hab _ ih =>
    rw [List.forall_mem_cons]
    exact ⟨Int.ofNat_le.2 hab, ih⟩
  | single _ _ ih =>
    rw [List.forall_mem_cons]
    exact ⟨trivial, ih⟩

/-- A text is at least as long as the tokens that were read from it are wide. -/
theorem width_le {bare : Bool} (h : Reads s tokens rest)
    (hopen : (∃ t ∈ tokens, (openBracket.val : Int) ∈ t.ends) →
      bare = true ∨ opensEscaped false s = true) :
    rest.length + (tokens.map (Token.width bare)).sum + 1 ≤ s.length := by
  induction h with
  | close rest => simp
  | lastDash hunit =>
    have hpaid := width_le_of_unit? hunit fun ha =>
      hopen ⟨_, List.mem_cons_self, by simp [Token.ends, ha]⟩
    have hdash : pointWidth bare dash.val = 1 := pointWidth_eq_one (by decide) (by decide)
    simp only [List.length_cons, List.map_cons, List.map_nil, List.sum_cons, List.sum_nil,
      Token.width] at hpaid ⊢
    omega
  | @range s more after rest a b tokens hunit hunit' hab hafter ih =>
    have hmore (hs : opensEscaped false s = true) : opensEscaped false more = true :=
      (opensEscaped_cons (by decide) (by decide)).symm.trans (opensEscaped_of_unit? hunit hs)
    have hbehind (hs : opensEscaped false s = true) : opensEscaped false after = true :=
      opensEscaped_of_unit? hunit' (hmore hs)
    have hlow := width_le_of_unit? hunit fun ha =>
      hopen ⟨_, List.mem_cons_self, by simp [Token.ends, ha]⟩
    have hhigh := width_le_of_unit? hunit' fun hb =>
      (hopen ⟨_, List.mem_cons_self, by simp [Token.ends, hb]⟩).imp_right hmore
    have hrest := ih fun hends =>
      (hopen (hends.imp fun t h => ⟨List.mem_cons_of_mem _ h.1, h.2⟩)).imp_right hbehind
    simp only [List.length_cons, List.map_cons, List.sum_cons, Token.width] at hlow ⊢
    omega
  | single hunit hafter ih =>
    have hpaid := width_le_of_unit? hunit fun ha =>
      hopen ⟨_, List.mem_cons_self, by simp [Token.ends, ha]⟩
    have hrest := ih fun hends =>
      (hopen (hends.imp fun t h => ⟨List.mem_cons_of_mem _ h.1, h.2⟩)).imp_right
        (opensEscaped_of_unit? hunit)
    simp only [List.map_cons, List.sum_cons, Token.width]
    omega

end Reads

/-- What is read for a whole expression: its sign and its tokens, between two brackets. -/
theorem exists_reads_of_read? {b : Bracket} (h : read? text = some (b, rest)) :
    ∃ inner, text = openBracket :: ((if b.inverse then [caret] else []) ++ inner) ∧
      Reads inner b.tokens rest := by
  cases text with
  | nil => cases h
  | cons c s =>
    rw [read?] at h
    split at h
    · next hc =>
      subst c
      obtain ⟨⟨tokens, rest⟩, hitems, h⟩ := Option.map_eq_some_iff.1 h
      cases h
      refine ⟨_, ?_, reads_of_readItems? hitems⟩
      by_cases hsign : s.head? = some caret
      · obtain ⟨s, rfl⟩ := List.head?_eq_some_iff.1 hsign
        rfl
      · simp [hsign]
    · cases h

end Bracket

/-! ### Cautious spellings -/

namespace Bracket

/-- A text is one whole bracket expression, inverted or not, for a set of points. -/
structure Spells (b : Bracket) (text : Text) (inverse : Bool) (points : Set Int) : Prop where
  read : read? text = some (b, [])
  inverse_eq : b.inverse = inverse
  mem_points_iff (p : Int) : p ∈ b.points ↔ p ∈ points

/-- A text is spelled with the caution of a pattern: none of its ranges reaches over one of the
three that act by their place, and if `[` is a member, then each `[` behind the first is escaped. -/
structure Cautious (b : Bracket) (text : Text) : Prop where
  ranges (first last : Int) : .range first last ∈ b.tokens →
    ∀ p, first ≤ p → p ≤ last → isPlaced p = false
  opens : (openBracket.val : Int) ∈ b.points → opensEscaped false text.tail = true

variable {b : Bracket} {text : Text} {inverse : Bool} {points : Set Int}

/-- A text is at least as long as its brackets, its sign and its tokens. -/
theorem Spells.width_le (bare : Bool) (h : b.Spells text inverse points)
    (hopen : (openBracket.val : Int) ∈ b.points →
      bare = true ∨ opensEscaped false text.tail = true) :
    (b.tokens.map (Token.width bare)).sum + (if inverse then 1 else 0) + 2 ≤ text.length := by
  obtain ⟨inner, rfl, hreads⟩ := exists_reads_of_read? h.read
  have hpaid := hreads.width_le fun ⟨t, ht, hends⟩ => by
    have hmem : (openBracket.val : Int) ∈ b.points :=
      List.mem_flatMap.2 ⟨t, ht, Token.mem_points_of_mem_ends (hreads.ordered t ht) hends⟩
    refine (hopen hmem).imp_right fun hopens => ?_
    cases hinverse : b.inverse with
    | false => simpa [hinverse] using hopens
    | true =>
      rw [hinverse] at hopens
      exact (opensEscaped_cons (by decide) (by decide)).symm.trans hopens
  rw [h.inverse_eq]
  cases inverse <;> simp at hpaid ⊢ <;> omega

/-- Where none of the characters is a member that need caution, all spellings have it. -/
theorem Spells.cautious (h : b.Spells text inverse points)
    (hplain : ∀ p ∈ points, isPlaced p = false ∧ p ≠ openBracket.val) : b.Cautious text where
  ranges first last ht p hfirst hlast := by
    have hmem : p ∈ b.points :=
      List.mem_flatMap.2 ⟨_, ht, Token.mem_points_range.2 ⟨hfirst, hlast⟩⟩
    exact (hplain p ((h.mem_points_iff p).1 hmem)).1
  opens hopen := absurd rfl (hplain _ ((h.mem_points_iff _).1 hopen)).2

end Bracket

/-! ### The spelling of a pattern -/

theorem Placed.length_enclose (p : Placed) (inverse : Bool) (body : Text) :
    (p.enclose inverse body).length =
      body.length + p.codePoints.length + (if inverse then 1 else 0) + 2 := by
  obtain ⟨inner, henclose, hinner⟩ := p.exists_inner inverse body
  have hlength : inner.length = body.length + p.codePoints.length := by
    rcases hinner with rfl | ⟨rfl, rfl, rfl⟩
    · simp only [codePoints, List.length_append]
      omega
    · rfl
  rw [henclose]
  cases inverse <;> simp [hlength]

/-! ### What each member costs -/

/-- What a member costs a pattern: each of the three that act by their place stands for itself. -/
def Census.share (c : Census) (p : Int) : Nat :=
  if isPlaced p = true then 1 else charge false c.points p

/-- The characters `,-./` and `[\]^_` and the one behind them: only these may cost a pattern more
than they cost elsewhere. -/
def nearPlaced : List Int :=
  [0x2C, 0x2D, 0x2E, 0x2F, 0x5B, 0x5C, 0x5D, 0x5E, 0x5F, 0x60]

/-- How much more a member may cost a pattern. With a range from `Z` over `[` to `\`, all that the
two may cost more falls to the backslash at its end. -/
def surcharge (points : List Int) (p : Int) : Nat :=
  if p = 0x5B then if 0x5A ∈ points ∧ 0x5C ∈ points then 0 else 1
  else if p = 0x5C then if 0x5A ∈ points ∧ 0x5C ∈ points then 2 else 1
  else if p ∈ nearPlaced then 1 else 0

/-- What is not near the three has none of them in its reach. -/
theorem isPlaced_eq_false_of_notMem_nearPlaced {p q : Int} (hp : p ∉ nearPlaced)
    (hlow : p - 2 ≤ q) (hhigh : q ≤ p + 1) : isPlaced q = false := by
  have hplaced : isPlaced q = true ↔ q = 0x5D ∨ q = 0x5E ∨ q = 0x2D := isPlaced_iff
  rw [← Bool.not_eq_true, hplaced]
  simp only [nearPlaced, List.mem_cons, List.not_mem_nil, or_false, not_or] at hp
  omega

theorem sum_surcharge_le {points : List Int} (hnodup : points.Nodup) :
    (points.map (surcharge points)).sum ≤ 10 := by
  have hnear : ∀ p ∈ points.toFinset, surcharge points p ≠ 0 → p ∈ nearPlaced.toFinset := by
    intro p _ hp
    rw [List.mem_toFinset]
    by_contra hfar
    have hopen : p ≠ 0x5B := by
      rintro rfl
      exact hfar (by decide)
    have hbackslash : p ≠ 0x5C := by
      rintro rfl
      exact hfar (by decide)
    exact hp (by rw [surcharge, if_neg hopen, if_neg hbackslash, if_neg hfar])
  calc
    (points.map (surcharge points)).sum
    _ = ∑ p ∈ points.toFinset, surcharge points p := (List.sum_toFinset _ hnodup).symm
    _ ≤ ∑ p ∈ nearPlaced.toFinset, surcharge points p := Finset.sum_le_sum_of_ne_zero hnear
    _ = (nearPlaced.map (surcharge points)).sum := List.sum_toFinset _ (by decide)
    _ = 10 := by
      by_cases hrun : 0x5A ∈ points ∧ 0x5C ∈ points <;> simp [nearPlaced, surcharge, hrun]

section Surcharges

variable {general all : List Int} {p : Int}

theorem charge_openBracket_le (hmem : ∀ q, isPlaced q = false → (q ∈ general ↔ q ∈ all)) :
    charge false general 0x5B ≤ charge true all 0x5B + surcharge all 0x5B := by
  by_cases hrun : 0x5A ∈ all ∧ 0x5C ∈ all
  · -- between its two neighbours it costs the same
    refine le_trans (le_of_eq ?_) (Nat.le_add_right _ _)
    simp [charge, hmem 0x5A (by decide), hmem 0x5C (by decide), hmem 0x59 (by decide), hrun]
  · have hextra : surcharge all 0x5B = 1 := by simp [surcharge, hrun]
    have hbare : charge true all 0x5B = 1 := charge_of_notMem (not_and_or.1 hrun)
    have hhigh := charge_le_pointWidth false general 0x5B
    have htwo := pointWidth_le_two false 0x5B
    omega

theorem charge_backslash_le (hp : 0x5C ∈ all) :
    charge false general 0x5C ≤ charge true all 0x5C + surcharge all 0x5C := by
  have hhigh := charge_le_pointWidth false general 0x5C
  have htwo := pointWidth_le_two false 0x5C
  by_cases hbefore : 0x5A ∈ all
  · have hextra : surcharge all 0x5C = 2 := by simp [surcharge, hbefore, hp]
    omega
  · have hextra : surcharge all 0x5C = 1 := by simp [surcharge, hbefore]
    have hpaid : 1 ≤ charge true all 0x5C := by
      unfold charge
      split
      · exact (if_neg hbefore).ge
      · exact one_le_pointWidth true _
    omega

theorem charge_le (hmem : ∀ q, isPlaced q = false → (q ∈ general ↔ q ∈ all)) (hp : p ∈ all) :
    charge false general p ≤ charge true all p + surcharge all p := by
  by_cases hopen : p = 0x5B
  · subst p
    exact charge_openBracket_le hmem
  by_cases hbackslash : p = 0x5C
  · subst p
    exact charge_backslash_le hp
  have hwidth (bare : Bool) : pointWidth bare p = 1 := pointWidth_eq_one hopen hbackslash
  by_cases hnear : p ∈ nearPlaced
  · have hextra : surcharge all p = 1 := by simp [surcharge, hopen, hbackslash, hnear]
    have hhigh := charge_le_pointWidth false general p
    rw [hwidth] at hhigh
    omega
  · -- elsewhere the three are too far away to matter
    refine le_trans (le_of_eq (charge_congr ?_ ?_)) (Nat.le_add_right _ _)
    · exact fun q hlow hhigh =>
        hmem q (isPlaced_eq_false_of_notMem_nearPlaced hnear hlow hhigh)
    · rw [hwidth, hwidth]

end Surcharges

namespace Census.Describes

variable {c : Census} {items : List Value} {b : Bracket} {text : Text} {inverse : Bool}

/-- A pattern is itself a cautious spelling of its set. -/
theorem exists_cautious (h : c.Describes items) (hne : items ≠ [])
    (hmany : inverse = true ∨ (pointSet items).Nontrivial)
    (htext : c.bracketPattern inverse = .ok text) :
    ∃ b : Bracket, b.Spells text inverse (pointSet items) ∧ b.Cautious text := by
  obtain ⟨b, hinverse, htokens, hpoints, hread⟩ := h.read?_bracketPattern hne hmany htext
  obtain ⟨body, hbody, rfl⟩ := map_eq_ok_iff.1 htext
  refine ⟨b, ⟨?_, hinverse, hpoints⟩, ?_, ?_⟩
  · rw [← hread [], List.append_nil]
  · intro first last ht p hfirst hlast
    rcases htokens _ ht with ht | ⟨d, -, hd⟩
    · exact h.isPlaced_eq_false_of_mem_tokens ht (Token.mem_points_range.2 ⟨hfirst, hlast⟩)
    · cases hd
  · intro _
    obtain ⟨inner, hinner, hopens⟩ := opensEscaped_enclose c.placed inverse hbody
    rw [hinner]
    exact hopens

/-- The tokens of a pattern and what stands outside of them cost no more than its members. -/
theorem width_le_sum_share (h : c.Describes items) :
    (c.tokens.map (Token.width false)).sum + c.placed.codePoints.length ≤
      (c.codePoints.map c.share).sum := by
  have hpoints : (c.points.map c.share).sum = (c.points.map (charge false c.points)).sum := by
    refine congrArg List.sum (List.map_congr_left fun p hp => if_neg ?_)
    rw [(h.mem_points.1 hp).2]
    exact Bool.false_ne_true
  have hplaced : ((c.placed.codePoints.map fun d => (d.val : Int)).map c.share).sum =
      c.placed.codePoints.length := by
    have hone : ∀ n ∈ (c.placed.codePoints.map fun d => (d.val : Int)).map c.share, n = 1 := by
      intro n hn
      obtain ⟨p, hp, rfl⟩ := List.mem_map.1 hn
      exact if_pos (Placed.mem_codePoints_ofPoints.1 hp).2
    rw [List.sum_eq_card_nsmul _ _ hone]
    simp
  have hcheap := Token.sum_width_ofPoints_le false h.enumerates.increasing
  rw [codePoints, List.map_append, List.sum_append, hpoints, hplaced]
  unfold tokens
  omega

/-- Another spelling of the set covers the members. -/
theorem covers (h : c.Describes items) (hspells : b.Spells text inverse (pointSet items)) :
    ∀ p ∈ c.codePoints, p ∈ b.tokens.flatMap Token.points :=
  fun p hp => (hspells.mem_points_iff p).2 (h.mem_codePoints.1 hp)

/-- No token of a cautious spelling costs less than the members that it covers. -/
theorem sum_share_le_width {t : Token} (h : c.Describes items)
    (hspells : b.Spells text inverse (pointSet items)) (hcautious : b.Cautious text)
    (ht : t ∈ b.tokens) : (t.points.map c.share).sum ≤ t.width false := by
  cases t with
  | single p =>
    have hone := one_le_pointWidth false p
    have hcharge := charge_le_pointWidth false c.points p
    rw [Token.points, List.map_singleton, List.sum_singleton, Token.width]
    unfold share
    split <;> omega
  | range first last =>
    -- a range covers none of the three, so all of its points are general ones
    have hgeneral : ∀ p ∈ (Token.range first last).points, isPlaced p = false := fun p hp =>
      hcautious.ranges first last ht p (Token.mem_points_range.1 hp).1
        (Token.mem_points_range.1 hp).2
    have hmem : ∀ p ∈ (Token.range first last).points, p ∈ c.points := fun p hp =>
      h.mem_points.2 ⟨(hspells.mem_points_iff p).1 (List.mem_flatMap.2 ⟨_, ht, hp⟩),
        hgeneral p hp⟩
    have hshare : ∀ p ∈ (Token.range first last).points, c.share p = charge false c.points p :=
      fun p hp => if_neg (by rw [hgeneral p hp]; exact Bool.false_ne_true)
    rw [List.map_congr_left hshare]
    exact Token.sum_charge_le_width hmem

/-- A member costs a pattern no more than it costs any cover, but for what it may cost on top. -/
theorem share_le (h : c.Describes items) {p : Int} (hp : p ∈ c.codePoints) :
    c.share p ≤ charge true c.codePoints p + surcharge c.codePoints p := by
  unfold share
  split
  · next hplaced =>
    rcases isPlaced_iff.1 hplaced with rfl | rfl | rfl <;> exact Nat.le_add_left 1 _
  · refine charge_le (fun q hq => ?_) hp
    rw [h.mem_points, h.mem_codePoints, hq]
    exact and_iff_left rfl

/-- No cautious spelling of a set has tokens that are cheaper than those of its pattern. -/
theorem width_le (h : c.Describes items) (hspells : b.Spells text inverse (pointSet items))
    (hcautious : b.Cautious text) :
    (c.tokens.map (Token.width false)).sum + c.placed.codePoints.length ≤
      (b.tokens.map (Token.width false)).sum :=
  h.width_le_sum_share.trans <|
    Token.sum_le_sum_width h.nodup_codePoints (h.covers hspells) fun _ ht =>
      h.sum_share_le_width hspells hcautious ht

/-- Any other spelling may save ten, and no more. -/
theorem width_le_add (h : c.Describes items) (hspells : b.Spells text inverse (pointSet items)) :
    (c.tokens.map (Token.width false)).sum + c.placed.codePoints.length ≤
      (b.tokens.map (Token.width true)).sum + 10 := by
  have hcover := h.covers hspells
  have hpaid : (c.codePoints.map (charge true c.codePoints)).sum ≤
      (b.tokens.map (Token.width true)).sum :=
    Token.sum_le_sum_width h.nodup_codePoints hcover fun t ht =>
      Token.sum_charge_le_width fun p hp =>
        h.mem_codePoints.2 ((hspells.mem_points_iff p).1 (List.mem_flatMap.2 ⟨t, ht, hp⟩))
  calc
    (c.tokens.map (Token.width false)).sum + c.placed.codePoints.length
    _ ≤ (c.codePoints.map c.share).sum := h.width_le_sum_share
    _ ≤ (c.codePoints.map fun p => charge true c.codePoints p + surcharge c.codePoints p).sum :=
      List.sum_le_sum fun _ hp => h.share_le hp
    _ = (c.codePoints.map (charge true c.codePoints)).sum +
        (c.codePoints.map (surcharge c.codePoints)).sum := List.sum_map_add
    _ ≤ (b.tokens.map (Token.width true)).sum + 10 :=
      Nat.add_le_add hpaid (sum_surcharge_le h.nodup_codePoints)

/-- No cautious spelling of a set is shorter than its pattern, and no other is shorter by more than
ten. -/
theorem length_le {other : Text} (h : c.Describes items)
    (htext : c.bracketPattern inverse = .ok text)
    (hspells : b.Spells other inverse (pointSet items)) :
    text.length ≤ other.length + 10 ∧ (b.Cautious other → text.length ≤ other.length) := by
  obtain ⟨body, hbody, rfl⟩ := map_eq_ok_iff.1 htext
  rw [Placed.length_enclose, Token.length_spellAll hbody]
  constructor
  · have hother := hspells.width_le true fun _ => .inl rfl
    have hwidth := h.width_le_add hspells
    omega
  · intro hcautious
    have hother := hspells.width_le false fun hopen => .inr (hcautious.opens hopen)
    have hwidth := h.width_le hspells hcautious
    omega

end Census.Describes

section Patterns

variable {items : List Value}

/-- The pattern of a set of two or more characters is a shortest cautious spelling of it, and no
spelling is shorter by more than ten. Where neither `[` nor one of the three that act by their place
is a member, the pattern is a shortest spelling of all. -/
theorem length_pattern_le {input : Input} (settings : Settings) (inverse : Bool)
    (hmembers : input.members = .ok items) (hitems : ∀ item ∈ items, item.isCharacter = true)
    (hmany : (pointSet items).Nontrivial) :
    ∃ text, (input.pattern settings inverse).result = .ok text ∧
      (∃ b : Bracket, b.Spells text inverse (pointSet items) ∧ b.Cautious text) ∧
      (∀ (other : Text) (b : Bracket), b.Spells other inverse (pointSet items) →
        text.length ≤ other.length + 10 ∧ (b.Cautious other → text.length ≤ other.length)) ∧
      ((∀ p ∈ pointSet items, isPlaced p = false ∧ p ≠ openBracket.val) →
        ∀ (other : Text) (b : Bracket), b.Spells other inverse (pointSet items) →
          text.length ≤ other.length) := by
  have hne : items ≠ [] := by
    rintro rfl
    obtain ⟨p, item, hitem, -⟩ := hmany.nonempty
    cases hitem
  obtain ⟨c, text, h, htext, hresult⟩ :=
    exists_bracketPattern_of_characters settings hmembers hitems hne (.inr hmany)
  refine ⟨text, hresult, h.exists_cautious hne (.inr hmany) htext, ?_, ?_⟩
  · exact fun other b hspells => h.length_le htext hspells
  · exact fun hplain other b hspells => (h.length_le htext hspells).2 (hspells.cautious hplain)

/-- Two runs: `*` to `0` around the dash, and `Z` to `a` around `]` and `^`. -/
def crowded : List Int :=
  [0x2A, 0x2B, 0x2C, 0x2D, 0x2E, 0x2F, 0x30, 0x5A, 0x5B, 0x5C, 0x5D, 0x5E, 0x5F, 0x60, 0x61]

theorem mem_pointSet_map_int {points : List Int} {p : Int} :
    p ∈ pointSet (points.map Value.int) ↔ p ∈ points := by
  refine mem_pointSet_iff_of_forall₂ (List.forall₂_map_left_iff.2 ?_)
  exact List.forall₂_same.2 fun n _ => .int n

theorem nontrivial_pointSet_crowded : (pointSet (crowded.map Value.int)).Nontrivial :=
  ⟨0x2A, mem_pointSet_map_int.2 (by decide), 0x2B, mem_pointSet_map_int.2 (by decide), by decide⟩

theorem length_pattern_le_crowded :
    (Input.many (crowded.map .int)).members = .ok (crowded.map .int) ∧
      (∀ item ∈ crowded.map Value.int, item.isCharacter = true) ∧
      (pointSet (crowded.map Value.int)).Nontrivial ∧
      ∃ text, ((Input.many (crowded.map .int)).pattern {} true).result = .ok text ∧
        (∃ b : Bracket, b.Spells text true (pointSet (crowded.map .int)) ∧ b.Cautious text) ∧
        (∀ (other : Text) (b : Bracket), b.Spells other true (pointSet (crowded.map .int)) →
          text.length ≤ other.length + 10 ∧ (b.Cautious other → text.length ≤ other.length)) ∧
        ((∀ p ∈ pointSet (crowded.map .int), isPlaced p = false ∧ p ≠ openBracket.val) →
          ∀ (other : Text) (b : Bracket), b.Spells other true (pointSet (crowded.map .int)) →
            text.length ≤ other.length) := by
  have hitems : ∀ item ∈ crowded.map Value.int, item.isCharacter = true := by decide
  exact ⟨rfl, hitems, nontrivial_pointSet_crowded,
    length_pattern_le {} true rfl hitems nontrivial_pointSet_crowded⟩

/-- A few numbers in order have the pattern of their own census, where nothing is left to sort. -/
theorem pattern_map_int {points : List Int} {settings : Settings} {inverse : Bool}
    (hsorted : points.Pairwise (· < ·)) (hfew : (points.length : Int) ≤ settings.threshold) :
    ((Input.many (points.map .int)).pattern settings inverse).result =
      Census.pattern ⟨points.map fun p => ⟨p, .int p⟩, .sort, points.filter fun p => !isPlaced p⟩
        inverse := by
  let members : List Member := points.map fun p => ⟨p, .int p⟩
  have hpoints : members.map Member.point = points := by
    rw [List.map_map]
    exact List.map_id points
  have hmembers : (points.map Value.int).mapM Member.ofItem = .ok members := by
    refine mapM_ofItem_eq_ok_iff.2 ⟨List.map_map, ?_⟩
    rw [hpoints, List.forall₂_map_left_iff]
    exact List.forall₂_same.2 fun n _ => .int n
  have hgeneral : generalPoints members = points.filter fun p => !isPlaced p := by
    rw [generalPoints, hpoints]
  have hlength : ((generalPoints members).length : Int) ≤ settings.threshold := by
    have hle := List.length_filter_le (fun p => !isPlaced p) points
    rw [hgeneral]
    omega
  have hchoose : Strategy.choose settings.threshold (generalPoints members).length = .sort :=
    if_neg (Int.not_lt.2 hlength)
  refine patternOf_result_of_census (Census.ofItems_eq_ok_iff.2 ⟨hmembers, hchoose.symm, ?_⟩)
  rw [distinct_eq_ok (.inl hlength), hgeneral,
    distinctBySort_of_increasing (hsorted.sublist List.filter_sublist)]

/-- What is not cautious may be shorter: two ranges over all of these characters save ten, and a
bare `[` saves its backslash. -/
theorem exists_shorter_spelling :
    ((pointSet (crowded.map Value.int)).Nontrivial ∧
      ∃ text, ((Input.many (crowded.map .int)).pattern {} false).result = .ok text ∧
        ∃ (other : Text) (b : Bracket), b.Spells other false (pointSet (crowded.map .int)) ∧
          text.length = other.length + 10) ∧
      ((pointSet ([0x5B, 0x61].map Value.int)).Nontrivial ∧
        ∃ text, ((Input.many ([0x5B, 0x61].map .int)).pattern {} false).result = .ok text ∧
          ∃ (other : Text) (b : Bracket), b.Spells other false (pointSet ([0x5B, 0x61].map .int)) ∧
            text.length = other.length + 1) := by
  have hmany : (pointSet ([0x5B, 0x61].map Value.int)).Nontrivial :=
    ⟨0x5B, mem_pointSet_map_int.2 (by decide), 0x61, mem_pointSet_map_int.2 (by decide), by decide⟩
  refine ⟨⟨nontrivial_pointSet_crowded, Text.ofString "[]*-,.-0Z-\\\\_-a^-]", ?_,
    Text.ofString "[*-0Z-a]", ⟨false, [.range 0x2A 0x30, .range 0x5A 0x61]⟩, ?_, rfl⟩,
    hmany, Text.ofString "[\\[a]", ?_, Text.ofString "[[a]",
    ⟨false, [.single 0x5B, .single 0x61]⟩, ?_, rfl⟩
  · exact pattern_map_int (by decide) (by decide)
  · exact ⟨by decide +kernel, rfl, fun p => mem_pointSet_map_int.symm⟩
  · exact pattern_map_int (by decide) (by decide)
  · exact ⟨by decide +kernel, rfl, fun p => mem_pointSet_map_int.symm⟩

end Patterns

end CharClass
