import CharClass.Bracket
import CharClass.Proofs.Pattern

/-!
# Reading back what was spelled

A bracket expression that was spelled for a set is read as that set, wherever it was spliced in: the
reader stops right behind it. The reader decides on one unit at a time, by the unit and the one or
two code points behind it. So a piece of spelled text is read for itself as long as what comes
behind it leaves it alone.

## Main definitions

* `LeavesUnit`: texts that do not make a range of the unit in front of them
* `Token.Plain`: tokens that the reader cannot take for anything else

## Main statements

* `unit?_bracketed`: a spelled code point is one unit
* `Bracket.readItems?_spelling`, `Bracket.readItems?_spellAll`: spelled tokens are read as tokens
* `Bracket.read?_enclose`: a whole expression is read as its tokens and the three placed members
* `read?_pattern`: a pattern in brackets is read as its set
-/

namespace CharClass

open CodePoint

/-! ### Units -/

section Units

variable {c : CodePoint} {s : Text}

/-- A spelled code point is one unit, whatever comes behind. -/
theorem unit?_bracketed {mayFollow : CodePoint → Bool} (hopen : mayFollow openBracket = true)
    (hbackslash : mayFollow backslash = true) (c : CodePoint) (s : Text) :
    unit? mayFollow (c.bracketed ++ s) = some (c, s) := by
  unfold bracketed
  split
  · next hc =>
    have hfollow : mayFollow c = true := by
      rcases hc with rfl | rfl
      · exact hopen
      · exact hbackslash
    simp [unit?, hfollow]
  · next hc =>
    rw [not_or] at hc
    simp [unit?, hc.2]

theorem unit?_cons {mayFollow : CodePoint → Bool} (hc : c ≠ backslash) :
    unit? mayFollow (c :: s) = some (c, s) := by
  unfold unit?
  exact if_neg hc

/-- The spelling of an ordinary code point begins with an ordinary one, if only a backslash. -/
theorem exists_bracketed_eq_cons (hc : isPlaced c.val = false) :
    ∃ d more, c.bracketed = d :: more ∧ isPlaced d.val = false := by
  unfold bracketed
  split
  · exact ⟨backslash, [c], rfl, rfl⟩
  · exact ⟨c, [], rfl, hc⟩

theorem head?_cons_ne {d : CodePoint} (h : c ≠ d) : (c :: s).head? ≠ some d :=
  fun hd => h (Option.some.inj hd)

theorem ne_of_isPlaced_eq_false (hc : isPlaced c.val = false) :
    c ≠ closeBracket ∧ c ≠ caret ∧ c ≠ dash := by
  refine ⟨?_, ?_, ?_⟩
  all_goals
    rintro rfl
    cases hc

end Units

/-- A text that leaves the unit in front of it alone: either no dash comes first, or a dash that
stands for itself since the expression ends behind it. -/
def LeavesUnit (s : Text) : Prop :=
  s.head? = some dash → s.tail.head? = some closeBracket

theorem leavesUnit_cons {c : CodePoint} {s : Text} (hc : c ≠ dash) : LeavesUnit (c :: s) :=
  fun h => absurd (Option.some.inj h) hc

/-- A token whose ends are in order and none of the three that act by their place. -/
structure Token.Plain (t : Token) : Prop where
  ordered : t.Ordered
  ends_eq_false : ∀ p ∈ t.ends, isPlaced p = false

/-! ### Steps of the reader -/

namespace Bracket

variable {first : Bool} {a b : CodePoint} {s more rest : Text}

private theorem not_closed (hopen : first = true ∨ s.head? ≠ some closeBracket) :
    ¬(!first && s.head? == some closeBracket) = true := by
  rcases hopen with rfl | h
  · simp
  · simp [h]

theorem readItems?_close (s : Text) : readItems? false (closeBracket :: s) = some ([], s) := by
  rw [readItems?]
  rfl

theorem readItems?_nil : readItems? first [] = none := by
  rw [readItems?]
  cases first <;> rfl

theorem readItems?_of_unit?_none (hopen : first = true ∨ s.head? ≠ some closeBracket)
    (hunit : unit? escapable s = none) : readItems? first s = none := by
  rw [readItems?, if_neg (not_closed hopen)]
  split
  · rfl
  · rfl
  · next hsome => rw [hunit] at hsome; cases hsome

theorem readItems?_of_unit?_nil (hopen : first = true ∨ s.head? ≠ some closeBracket)
    (hunit : unit? escapable s = some (a, [])) : readItems? first s = none := by
  rw [readItems?, if_neg (not_closed hopen)]
  split
  · rfl
  · rfl
  · next hsome => rw [hunit] at hsome; cases hsome

/-- One step of reading: the unit in front decides together with what follows it. -/
theorem readItems?_of_unit? (hopen : first = true ∨ s.head? ≠ some closeBracket)
    (hunit : unit? escapable s = some (a, b :: more)) :
    readItems? first s =
      if b = dash then
        if more.head? = some closeBracket then
          some ([.single a.val, .single dash.val], more.tail)
        else (unit? escapable more).bind fun (c, rest) =>
          if c < a then none
          else
            (readItems? false rest).map fun (tokens, rest) => (.range a.val c.val :: tokens, rest)
      else
        (readItems? false (b :: more)).map fun (tokens, rest) => (.single a.val :: tokens, rest) := by
  rw [readItems?, if_neg (not_closed hopen)]
  split
  · next hnone => rw [hunit] at hnone; cases hnone
  · next hone => rw [hunit] at hone; cases hone
  · next a' c' more' hsome =>
    rw [hunit] at hsome
    cases hsome
    refine if_congr Iff.rfl (if_congr Iff.rfl rfl ?_) rfl
    split
    · next hnone => rw [hnone]; rfl
    · next b rest hsome => rw [hsome]; rfl

/-- A unit is read for itself if what follows leaves it alone. -/
theorem readItems?_single (hopen : first = true ∨ s.head? ≠ some closeBracket)
    (hunit : unit? escapable s = some (a, rest)) (hrest : LeavesUnit rest) :
    readItems? first s =
      (readItems? false rest).map fun (tokens, rest) => (.single a.val :: tokens, rest) := by
  cases rest with
  | nil => rw [readItems?_of_unit?_nil hopen hunit, readItems?_nil, Option.map_none]
  | cons c more =>
    rw [readItems?_of_unit? hopen hunit]
    by_cases hc : c = dash
    · subst c
      have hclose : more.head? = some closeBracket := hrest rfl
      obtain ⟨after, rfl⟩ := List.head?_eq_some_iff.1 hclose
      -- the dash is the last member, on the left with its unit and on the right for itself
      have hdash : readItems? false (dash :: closeBracket :: after) =
          some ([.single dash.val], after) := by
        rw [readItems?_of_unit? (.inr (head?_cons_ne (by decide))) (unit?_cons (by decide)),
          if_neg (by decide), readItems?_close]
        rfl
      rw [if_pos rfl, if_pos hclose, hdash]
      rfl
    · rw [if_neg hc]

theorem readItems?_cons (hopen : first = true ∨ a ≠ closeBracket) (ha : a ≠ backslash)
    (hs : LeavesUnit s) :
    readItems? first (a :: s) =
      (readItems? false s).map fun (tokens, rest) => (.single a.val :: tokens, rest) :=
  readItems?_single (hopen.imp_right head?_cons_ne) (unit?_cons ha) hs

/-- Two units with a dash between them are read as a range. -/
theorem readItems?_range (hopen : first = true ∨ s.head? ≠ some closeBracket)
    (hunit : unit? escapable s = some (a, dash :: more)) (hmore : more.head? ≠ some closeBracket)
    (hunit' : unit? escapable more = some (b, rest)) (hab : a ≤ b) :
    readItems? first s =
      (readItems? false rest).map fun (tokens, rest) => (.range a.val b.val :: tokens, rest) := by
  rw [readItems?_of_unit? hopen hunit, if_pos rfl, if_neg hmore, hunit', Option.bind_some]
  exact if_neg (Fin.not_lt.2 hab)

/-- Being first makes a difference to a `]` alone. -/
theorem readItems?_true (h : s.head? ≠ some closeBracket) :
    readItems? true s = readItems? false s := by
  cases hunit : unit? escapable s with
  | none => rw [readItems?_of_unit?_none (.inr h) hunit, readItems?_of_unit?_none (.inr h) hunit]
  | some found =>
    obtain ⟨a, _ | ⟨b, more⟩⟩ := found
    · rw [readItems?_of_unit?_nil (.inr h) hunit, readItems?_of_unit?_nil (.inr h) hunit]
    · rw [readItems?_of_unit? (.inr h) hunit, readItems?_of_unit? (.inr h) hunit]

end Bracket

/-! ### Spelled tokens -/

namespace Token

variable {t : Token} {tokens : List Token} {text body : Text}

/-- What a plain token is spelled by begins with an ordinary code point. -/
theorem Plain.exists_spelling_eq_cons (ht : t.Plain) (h : t.spelling = .ok text) :
    ∃ d more, text = d :: more ∧ isPlaced d.val = false := by
  cases t with
  | single p =>
    obtain ⟨c, rfl, rfl⟩ := spelling_single_eq_ok_iff.1 h
    exact exists_bracketed_eq_cons (ht.ends_eq_false _ (by simp [ends]))
  | range first last =>
    obtain ⟨low, high, rfl, rfl, rfl⟩ := spelling_range_eq_ok_iff.1 h
    obtain ⟨d, more, hlow, hd⟩ :=
      exists_bracketed_eq_cons (ht.ends_eq_false low.val (by simp [ends]))
    exact ⟨d, _, by rw [hlow, List.cons_append], hd⟩

/-- Plain tokens are spelled by nothing if there are none, and else as the first of them begins. -/
theorem eq_nil_or_exists_cons_of_spellAll (hplain : ∀ t ∈ tokens, t.Plain)
    (h : spellAll tokens = .ok body) :
    tokens = [] ∧ body = [] ∨ ∃ d more, body = d :: more ∧ isPlaced d.val = false := by
  cases tokens with
  | nil => exact .inl ⟨rfl, (Except.ok.inj h).symm⟩
  | cons t tokens =>
    obtain ⟨front, rest, hfront, -, rfl⟩ := spellAll_cons_eq_ok_iff.1 h
    obtain ⟨d, more, rfl, hd⟩ := (hplain t List.mem_cons_self).exists_spelling_eq_cons hfront
    exact .inr ⟨d, more ++ rest, List.cons_append, hd⟩

end Token

namespace Bracket

variable {t : Token} {tokens : List Token} {front body s : Text}

/-- A spelled token is read as itself. -/
theorem readItems?_spelling (ht : t.Plain) (hfront : t.spelling = .ok front) (hs : LeavesUnit s) :
    readItems? false (front ++ s) =
      (readItems? false s).map fun (tokens, rest) => (t :: tokens, rest) := by
  have hopen : (front ++ s).head? ≠ some closeBracket := by
    obtain ⟨d, more, rfl, hd⟩ := ht.exists_spelling_eq_cons hfront
    exact head?_cons_ne (ne_of_isPlaced_eq_false hd).1
  cases t with
  | single p =>
    obtain ⟨c, rfl, rfl⟩ := Token.spelling_single_eq_ok_iff.1 hfront
    exact readItems?_single (.inr hopen) (unit?_bracketed rfl rfl c s) hs
  | range first last =>
    obtain ⟨low, high, rfl, rfl, rfl⟩ := Token.spelling_range_eq_ok_iff.1 hfront
    have hlow : unit? escapable ((low.bracketed ++ dash :: high.bracketed) ++ s) =
        some (low, dash :: (high.bracketed ++ s)) := by
      rw [List.append_assoc, List.cons_append]
      exact unit?_bracketed rfl rfl low _
    have hclose : (high.bracketed ++ s).head? ≠ some closeBracket := by
      obtain ⟨d, more, hhigh, hd⟩ :=
        exists_bracketed_eq_cons (ht.ends_eq_false high.val (by simp [Token.ends]))
      rw [hhigh]
      exact head?_cons_ne (ne_of_isPlaced_eq_false hd).1
    have hle : low ≤ high := by
      have hordered : (low.val : Int) ≤ high.val := ht.ordered
      exact Int.ofNat_le.1 hordered
    exact readItems?_range (.inr hopen) hlow hclose (unit?_bracketed rfl rfl high s) hle

theorem leavesUnit_spellAll (hplain : ∀ t ∈ tokens, t.Plain)
    (hbody : Token.spellAll tokens = .ok body) (hs : LeavesUnit s) : LeavesUnit (body ++ s) := by
  rcases Token.eq_nil_or_exists_cons_of_spellAll hplain hbody with ⟨-, rfl⟩ | ⟨d, more, rfl, hd⟩
  · exact hs
  · exact leavesUnit_cons (ne_of_isPlaced_eq_false hd).2.2

/-- Spelled tokens are read as themselves, one after the other. -/
theorem readItems?_spellAll (hplain : ∀ t ∈ tokens, t.Plain)
    (hbody : Token.spellAll tokens = .ok body) (hs : LeavesUnit s) :
    readItems? false (body ++ s) =
      (readItems? false s).map fun (more, rest) => (tokens ++ more, rest) := by
  induction tokens generalizing body with
  | nil =>
    obtain rfl := Except.ok.inj hbody
    simp
  | cons t tokens ih =>
    obtain ⟨front, back, hfront, hback, rfl⟩ := Token.spellAll_cons_eq_ok_iff.1 hbody
    rw [List.forall_mem_cons] at hplain
    have hleaves : LeavesUnit (back ++ s) := leavesUnit_spellAll hplain.2 hback hs
    rw [List.append_assoc, readItems?_spelling hplain.1 hfront hleaves, ih hplain.2 hback,
      Option.map_map]
    rfl

/-! ### Placed members -/

/-- Tokens that stand for the code points of a text. -/
def singles (text : Text) : List Token :=
  text.map fun c => .single c.val

theorem mem_flatMap_points_singles {text : Text} {q : Int} :
    q ∈ (singles text).flatMap Token.points ↔ ∃ c ∈ text, q = (c.val : Int) := by
  simp [singles]

theorem exists_of_mem_singles {text : Text} (h : t ∈ singles text) :
    ∃ c ∈ text, t = .single c.val := by
  obtain ⟨c, hc, rfl⟩ := List.mem_map.1 h
  exact ⟨c, hc, rfl⟩

variable {p : Placed} {rest : Text}

theorem readItems?_dash_close (rest : Text) :
    readItems? false (dash :: closeBracket :: rest) = some (singles [dash], rest) := by
  rw [readItems?_cons (.inr (by decide)) (by decide) (leavesUnit_cons (by decide)),
    readItems?_close]
  rfl

/-- The caret and the dash in front of the closing bracket are literal. -/
theorem readItems?_tail (p : Placed) (rest : Text) :
    readItems? false (p.tail ++ closeBracket :: rest) = some (singles p.tail, rest) := by
  obtain ⟨_, _ | _, _ | _⟩ := p
  · exact readItems?_close rest
  · exact readItems?_dash_close rest
  · change readItems? false (caret :: closeBracket :: rest) = _
    rw [readItems?_cons (.inr (by decide)) (by decide) (leavesUnit_cons (by decide)),
      readItems?_close]
    rfl
  · change readItems? false (caret :: dash :: closeBracket :: rest) = _
    rw [readItems?_cons (.inr (by decide)) (by decide) fun _ => rfl, readItems?_dash_close]
    rfl

theorem leavesUnit_tail (p : Placed) (rest : Text) :
    LeavesUnit (p.tail ++ closeBracket :: rest) := by
  obtain ⟨_, _ | _, _ | _⟩ := p
  · exact leavesUnit_cons (by decide)
  · exact fun _ => rfl
  · exact leavesUnit_cons (by decide)
  · exact leavesUnit_cons (by decide)

/-- Between the brackets, each member is read for itself, provided there is any. -/
theorem readItems?_inner (hplain : ∀ t ∈ tokens, t.Plain)
    (hbody : Token.spellAll tokens = .ok body) (hne : tokens ≠ [] ∨ p.codePoints ≠ [])
    (rest : Text) :
    readItems? true (p.head ++ body ++ p.tail ++ closeBracket :: rest) =
      some (singles p.head ++ tokens ++ singles p.tail, rest) := by
  have hleaves : LeavesUnit (body ++ (p.tail ++ closeBracket :: rest)) :=
    leavesUnit_spellAll hplain hbody (leavesUnit_tail p rest)
  have hbehind : readItems? false (body ++ (p.tail ++ closeBracket :: rest)) =
      some (tokens ++ singles p.tail, rest) := by
    rw [readItems?_spellAll hplain hbody (leavesUnit_tail p rest), readItems?_tail]
    rfl
  rw [List.append_assoc, List.append_assoc]
  obtain ⟨_ | _, isCaret, isDash⟩ := p
  · -- without a `]` in front, something else keeps the closing bracket from being first
    have hclose : (body ++ (Placed.tail ⟨false, isCaret, isDash⟩ ++ closeBracket :: rest)).head? ≠
        some closeBracket := by
      rcases Token.eq_nil_or_exists_cons_of_spellAll hplain hbody with
        ⟨rfl, rfl⟩ | ⟨d, more, rfl, hd⟩
      · cases isCaret
        · cases isDash
          · exact absurd rfl (hne.resolve_left fun h => h rfl)
          · exact head?_cons_ne (by decide)
        · exact head?_cons_ne (by decide)
      · exact head?_cons_ne (ne_of_isPlaced_eq_false hd).1
    exact (readItems?_true hclose).trans hbehind
  · change readItems? true (closeBracket :: (body ++ _)) = _
    rw [readItems?_cons (.inl rfl) (by decide) hleaves, hbehind]
    rfl

/-- A caret does not come first, unless it is the only member or the dash is the only other. -/
theorem head?_inner_ne_caret (hplain : ∀ t ∈ tokens, t.Plain)
    (hbody : Token.spellAll tokens = .ok body)
    (hcaret : p.closeBracket = true ∨ tokens ≠ [] ∨ p.caret = false) (rest : Text) :
    (p.head ++ body ++ p.tail ++ closeBracket :: rest).head? ≠ some caret := by
  by_cases hhead : p.closeBracket = true
  · rw [Placed.head, if_pos hhead]
    exact head?_cons_ne (by decide)
  · rw [Placed.head, if_neg hhead, List.nil_append]
    rcases Token.eq_nil_or_exists_cons_of_spellAll hplain hbody with
      ⟨rfl, rfl⟩ | ⟨d, more, rfl, hd⟩
    · rw [Placed.tail, (hcaret.resolve_left hhead).resolve_left fun h => h rfl]
      cases p.dash
      · exact head?_cons_ne (by decide)
      · exact head?_cons_ne (by decide)
    · exact head?_cons_ne (ne_of_isPlaced_eq_false hd).2.1

/-- What stands between the brackets decides what is read, unless a caret is taken for a sign. -/
theorem read?_of_readItems? {inverse : Bool} {inner : Text}
    (hcaret : inverse = true ∨ (inner ++ closeBracket :: rest).head? ≠ some caret)
    (hinner : readItems? true (inner ++ closeBracket :: rest) = some (tokens, rest)) :
    read? (openBracket :: (if inverse then [caret] else []) ++ inner ++ [closeBracket] ++ rest) =
      some (⟨inverse, tokens⟩, rest) := by
  have htext : openBracket :: (if inverse then [caret] else []) ++ inner ++ [closeBracket] ++ rest =
      openBracket :: ((if inverse then [caret] else []) ++ (inner ++ closeBracket :: rest)) := by
    simp
  rw [htext, read?, if_pos rfl]
  cases inverse with
  | true =>
    change (readItems? true (inner ++ closeBracket :: rest)).map _ = _
    rw [hinner]
    rfl
  | false =>
    have hsign : ((inner ++ closeBracket :: rest).head? == some caret) = false :=
      beq_eq_false_iff_ne.2 (hcaret.resolve_left Bool.false_ne_true)
    simp only [Bool.false_eq_true, if_false, List.nil_append, hsign, hinner, Option.map_some]

/-! ### Whole expressions -/

/-- A caret and a dash alone are read for themselves: the dash in front keeps the caret from
inverting the expression. -/
theorem readItems?_dash_caret (rest : Text) :
    readItems? true (dash :: caret :: closeBracket :: rest) =
      some (singles [dash, caret], rest) := by
  rw [readItems?_cons (.inl rfl) (by decide) (leavesUnit_cons (by decide)),
    readItems?_cons (.inr (by decide)) (by decide) (leavesUnit_cons (by decide)), readItems?_close]
  rfl

/-- Where no dash comes first for its sake, a caret has something else in front of it. -/
theorem caret_covered (hbody : Token.spellAll tokens = .ok body)
    (hcaret : tokens ≠ [] ∨ p.codePoints ≠ [caret])
    (hswap : ¬(!p.closeBracket && body.isEmpty && p.caret && p.dash) = true) :
    p.closeBracket = true ∨ tokens ≠ [] ∨ p.caret = false := by
  by_contra hfirst
  obtain ⟨isClose, isCaret, isDash⟩ := p
  simp only [not_or, not_not, Bool.not_eq_true, Bool.not_eq_false] at hfirst
  obtain ⟨rfl, rfl, rfl⟩ := hfirst
  obtain rfl := Except.ok.inj hbody
  have hdash : isDash = false := by simpa using hswap
  subst isDash
  rcases hcaret with hmember | hcodePoints
  · exact hmember rfl
  · exact hcodePoints rfl

/-- A spelled expression is read as its tokens and its placed members, whatever comes behind it. -/
theorem read?_enclose {inverse : Bool} (hplain : ∀ t ∈ tokens, t.Plain)
    (hbody : Token.spellAll tokens = .ok body) (hne : tokens ≠ [] ∨ p.codePoints ≠ [])
    (hcaret : inverse = true ∨ tokens ≠ [] ∨ p.codePoints ≠ [caret]) :
    ∃ b : Bracket, b.inverse = inverse ∧
      (∀ t ∈ b.tokens, t ∈ tokens ∨ ∃ c ∈ p.codePoints, t = .single c.val) ∧
      (∀ q, q ∈ b.points ↔
        q ∈ tokens.flatMap Token.points ∨ ∃ c ∈ p.codePoints, q = (c.val : Int)) ∧
      ∀ rest, read? (p.enclose inverse body ++ rest) = some (b, rest) := by
  by_cases hswap : (!inverse && !p.closeBracket && body.isEmpty && p.caret && p.dash) = true
  · obtain ⟨isClose, isCaret, isDash⟩ := p
    simp only [Bool.and_eq_true, Bool.not_eq_true', List.isEmpty_iff] at hswap
    obtain ⟨⟨⟨⟨rfl, rfl⟩, rfl⟩, rfl⟩, rfl⟩ := hswap
    have htokens : tokens = [] := by
      rcases Token.eq_nil_or_exists_cons_of_spellAll hplain hbody with
        ⟨hnil, -⟩ | ⟨d, more, hcons, -⟩
      · exact hnil
      · cases hcons
    subst htokens
    refine ⟨⟨false, singles [dash, caret]⟩, rfl, fun t ht => ?_, ?_, fun rest => ?_⟩
    · obtain ⟨c, hc, rfl⟩ := exists_of_mem_singles ht
      have hmember : c ∈ Placed.codePoints ⟨false, true, true⟩ := List.mem_reverse.1 hc
      exact .inr ⟨c, hmember, rfl⟩
    · intro q
      rw [points, mem_flatMap_points_singles]
      simp [Placed.codePoints, Placed.head, Placed.tail, or_comm]
    · exact read?_of_readItems? (.inr (head?_cons_ne (by decide))) (readItems?_dash_caret rest)
  · refine ⟨⟨inverse, singles p.head ++ tokens ++ singles p.tail⟩, rfl, ?_, ?_, fun rest => ?_⟩
    · intro t ht
      rw [List.mem_append, List.mem_append] at ht
      rcases ht with (ht | ht) | ht
      · obtain ⟨c, hc, rfl⟩ := exists_of_mem_singles ht
        exact .inr ⟨c, List.mem_append_left _ hc, rfl⟩
      · exact .inl ht
      · obtain ⟨c, hc, rfl⟩ := exists_of_mem_singles ht
        exact .inr ⟨c, List.mem_append_right _ hc, rfl⟩
    · intro q
      simp only [points, Placed.codePoints, List.flatMap_append, List.mem_append,
        mem_flatMap_points_singles, or_and_right, exists_or]
      rw [or_comm (a := ∃ c ∈ p.head, q = (c.val : Int)), or_assoc]
    · rw [Placed.enclose, if_neg hswap]
      refine read?_of_readItems? ?_ (readItems?_inner hplain hbody hne rest)
      cases inverse with
      | true => exact .inl rfl
      | false =>
        have hmembers := hcaret.resolve_left Bool.false_ne_true
        exact .inr (head?_inner_ne_caret hplain hbody (caret_covered hbody hmembers hswap) rest)

end Bracket

/-! ### Patterns in brackets -/

section Patterns

variable {items : List Value} {inverse : Bool}

/-- The tokens of a census are plain: the three that act by their place are kept apart. -/
theorem Census.Describes.plain_of_mem_tokens {c : Census} {t : Token} (h : c.Describes items)
    (ht : t ∈ c.tokens) : t.Plain := by
  have hordered := Token.ordered_of_mem_ofPoints ht
  refine ⟨hordered, fun p hp => ?_⟩
  exact h.isPlaced_eq_false_of_mem_tokens ht (Token.mem_points_of_mem_ends hordered hp)

/-- Between its tokens and the placed members, a census has all of its points. -/
theorem Census.Describes.mem_tokens_or_placed_iff {c : Census} {p : Int} (h : c.Describes items) :
    (p ∈ c.tokens.flatMap Token.points ∨ ∃ d ∈ c.placed.codePoints, p = (d.val : Int)) ↔
      p ∈ pointSet items := by
  rw [← h.mem_codePoints, codePoints, List.mem_append, c.flatMap_points_tokens, List.mem_map]
  simp only [eq_comm]

theorem Census.Describes.exists_placed_of_tokens_eq_nil {c : Census} {p : Int}
    (h : c.Describes items) (htokens : c.tokens = []) (hp : p ∈ pointSet items) :
    ∃ d ∈ c.placed.codePoints, p = (d.val : Int) := by
  refine (h.mem_tokens_or_placed_iff.2 hp).resolve_left fun hpoint => ?_
  rw [htokens] at hpoint
  cases hpoint

/-- A bracket expression that was spelled from a census is read as its set. -/
theorem Census.Describes.read?_bracketPattern {c : Census} {text : Text} (h : c.Describes items)
    (hne : items ≠ []) (hmany : inverse = true ∨ (pointSet items).Nontrivial)
    (htext : c.bracketPattern inverse = .ok text) :
    ∃ b : Bracket, b.inverse = inverse ∧
      (∀ t ∈ b.tokens, t ∈ c.tokens ∨ ∃ d ∈ c.placed.codePoints, t = .single d.val) ∧
      (∀ p, p ∈ b.points ↔ p ∈ pointSet items) ∧
      ∀ rest, Bracket.read? (text ++ rest) = some (b, rest) := by
  obtain ⟨body, hbody, rfl⟩ := map_eq_ok_iff.1 htext
  have hany : c.tokens ≠ [] ∨ c.placed.codePoints ≠ [] := by
    by_contra hnone
    rw [not_or, not_not, not_not] at hnone
    obtain ⟨p, hp⟩ := h.nonempty_pointSet_iff.2 hne
    obtain ⟨d, hd, -⟩ := h.exists_placed_of_tokens_eq_nil hnone.1 hp
    rw [hnone.2] at hd
    cases hd
  have hcaret : inverse = true ∨ c.tokens ≠ [] ∨ c.placed.codePoints ≠ [caret] := by
    refine hmany.imp_right fun hmany => ?_
    by_contra honly
    rw [not_or, not_not, not_not] at honly
    -- a set of two points is not the caret alone
    refine Set.not_subsingleton_iff.2 hmany fun p hp q hq => ?_
    obtain ⟨d, hd, rfl⟩ := h.exists_placed_of_tokens_eq_nil honly.1 hp
    obtain ⟨e, he, rfl⟩ := h.exists_placed_of_tokens_eq_nil honly.1 hq
    rw [honly.2, List.mem_singleton] at hd he
    rw [hd, he]
  obtain ⟨b, hinverse, htokens, hpoints, hread⟩ :=
    Bracket.read?_enclose (fun t ht => h.plain_of_mem_tokens ht) hbody hany hcaret
  exact ⟨b, hinverse, htokens, fun p => (hpoints p).trans h.mem_tokens_or_placed_iff, hread⟩

/-- What an expression accepts, by the set that its points are. -/
theorem Bracket.accepts_iff {b : Bracket} {s : Set Int} (hpoints : ∀ p, p ∈ b.points ↔ p ∈ s)
    (c : CodePoint) : b.accepts c = true ↔ ((c.val : Int) ∈ s ↔ b.inverse = false) := by
  rw [accepts, ← hpoints, ← List.contains_iff_mem]
  cases b.points.contains (c.val : Int) <;> cases b.inverse <;> decide

/-- The pattern of a set of characters that is spelled in brackets is read from the front of any
text as that set, and the text behind it is left over. -/
theorem read?_pattern {input : Input} (settings : Settings) (hmembers : input.members = .ok items)
    (hitems : ∀ item ∈ items, item.isCharacter = true) (hne : items ≠ [])
    (hmany : inverse = true ∨ (pointSet items).Nontrivial) :
    ∃ text b, (input.pattern settings inverse).result = .ok text ∧ b.inverse = inverse ∧
      (∀ p, p ∈ b.points ↔ p ∈ pointSet items) ∧
      (∀ c : CodePoint, b.accepts c = true ↔ ((c.val : Int) ∈ pointSet items ↔ inverse = false)) ∧
      ∀ rest, Bracket.read? (text ++ rest) = some (b, rest) := by
  obtain ⟨c, h, hc⟩ := exists_census_of_characters settings hitems
  obtain ⟨text, htext⟩ : ∃ text, c.bracketPattern inverse = .ok text :=
    h.exists_bracketPattern_iff.2 fun p hp => inDomain_of_characters hitems hp
  obtain ⟨b, rfl, -, hpoints, hread⟩ := h.read?_bracketPattern hne hmany htext
  refine ⟨text, b, ?_, rfl, hpoints, Bracket.accepts_iff hpoints, hread⟩
  rw [Input.pattern_of_members hmembers, patternOf_result_of_census hc,
    h.pattern_eq_bracketPattern hne hmany, htext]

/-- All that could go wrong between brackets, next to each other and twice. -/
def punctuation : List Value :=
  [.text [caret], .int 0x2D, .text [closeBracket], .int 0x5C, .text [openBracket], .int 0x5E,
    .text [dash], .int 0x5A, .int 0x2C, .int 0x2E, .int 0x5F]

theorem read?_punctuation :
    (Input.many punctuation).members = .ok punctuation ∧
      (∀ item ∈ punctuation, item.isCharacter = true) ∧ punctuation ≠ [] ∧
      (pointSet punctuation).Nontrivial ∧
      ∃ text b, ((Input.many punctuation).pattern ⟨true, 3⟩ false).result = .ok text ∧
        b.inverse = false ∧
        (∀ p, p ∈ b.points ↔ p ∈ pointSet punctuation) ∧
        (∀ c : CodePoint, b.accepts c = true ↔
          ((c.val : Int) ∈ pointSet punctuation ↔ false = false)) ∧
        ∀ rest, Bracket.read? (text ++ rest) = some (b, rest) := by
  have hitems : ∀ item ∈ punctuation, item.isCharacter = true := by decide
  have hmany : (pointSet punctuation).Nontrivial := by
    refine ⟨0x2D, ⟨.int 0x2D, ?_, .int 0x2D⟩, 0x5C, ⟨.int 0x5C, ?_, .int 0x5C⟩, by decide⟩
    · simp [punctuation]
    · simp [punctuation]
  exact ⟨rfl, hitems, by decide, hmany, read?_pattern ⟨true, 3⟩ rfl hitems (by decide) (.inr hmany)⟩

end Patterns

end CharClass
