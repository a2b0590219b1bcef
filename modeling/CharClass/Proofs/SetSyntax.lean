import CharClass.Proofs.Denotation
import CharClass.Proofs.Reading
import Mathlib.Data.List.Chain

/-!
# No set syntax by accident

Inside a bracket expression, a doubled `-`, `&`, `~` or `|` and a bare `[` are set apart for set
operations to come, and a reader may warn of them. No pattern has any of these. A doubled code point
could only arise where two pieces of text meet, and there the pieces differ: a token begins behind
the end of the token before it, and what a dash stands next to is no dash.

## Main definitions

* `CodePoint.setOperators`, `Undoubled`: what must not be doubled, and texts where it is not
* `endsEscaping`, `opensEscaped`: backslashes that escape what follows, and texts that escape each `[`

## Main statements

* `undoubled_enclose`, `opensEscaped_enclose`: whole expressions
* `pattern_without_set_syntax`: patterns in brackets
-/

namespace CharClass

open CodePoint

/-- Two of these next to each other stand for a set operation. -/
def CodePoint.setOperators : Text :=
  Text.ofString "-&~|"

/-! ### Nothing doubled -/

/-- No set operator stands next to itself. -/
def Undoubled (s : Text) : Prop :=
  s.IsChain fun a b => a = b → a ∉ setOperators

/-- A code point that may stand in front of a text without being doubled. -/
def Meets (c : CodePoint) (s : Text) : Prop :=
  s.head? = some c → c ∉ setOperators

section Undoubled

variable {c d : CodePoint} {s front body : Text} {t : Token} {tokens : List Token} {p : Placed}

theorem undoubled_cons_iff : Undoubled (c :: s) ↔ Meets c s ∧ Undoubled s := by
  rw [Undoubled, List.isChain_cons, Meets, Undoubled]
  refine and_congr_left' ?_
  cases s with
  | nil => simp
  | cons d s => simp [eq_comm]

theorem undoubled_cons (hc : c ∉ setOperators) (hs : Undoubled s) : Undoubled (c :: s) :=
  undoubled_cons_iff.2 ⟨fun _ => hc, hs⟩

theorem meets_cons (h : c ≠ d) : Meets c (d :: s) :=
  fun hd => absurd (Option.some.inj hd).symm h

/-- The spelling of a code point begins with itself or with a backslash. -/
theorem meets_bracketed (h : c ≠ d) : Meets c (d.bracketed ++ s) := by
  unfold bracketed
  split
  · intro hc
    obtain rfl := Option.some.inj hc
    decide
  · exact meets_cons h

/-- The spelling of a code point ends with itself. -/
theorem undoubled_bracketed (hc : Meets c s) (hs : Undoubled s) : Undoubled (c.bracketed ++ s) := by
  have hcs : Undoubled (c :: s) := undoubled_cons_iff.2 ⟨hc, hs⟩
  unfold bracketed
  split
  · exact undoubled_cons (by decide) hcs
  · exact hcs

theorem val_ne_of_lt {p q : Int} (hp : p = c.val) (hq : q = d.val) (h : p < q) : c ≠ d := by
  rintro rfl
  omega

/-- A token meets what comes before it at its first end, and what comes behind it at its last. -/
theorem undoubled_spelling (ht : t.Plain) (hfront : t.spelling = .ok front) (hs : Undoubled s)
    (hbehind : ∀ c : CodePoint, (c.val : Int) ∈ t.points → Meets c s) :
    Undoubled (front ++ s) ∧
      ∀ c : CodePoint, (∀ q ∈ t.points, (c.val : Int) < q) → Meets c (front ++ s) := by
  cases t with
  | single p =>
    obtain ⟨d, rfl, rfl⟩ := Token.spelling_single_eq_ok_iff.1 hfront
    have hd : (d.val : Int) ∈ (Token.single d.val).points := Token.mem_points_single.2 rfl
    refine ⟨undoubled_bracketed (hbehind d hd) hs, fun c hc => ?_⟩
    exact meets_bracketed (val_ne_of_lt rfl rfl (hc _ hd))
  | range first last =>
    obtain ⟨low, high, rfl, rfl, rfl⟩ := Token.spelling_range_eq_ok_iff.1 hfront
    have hlow := ne_of_isPlaced_eq_false (ht.ends_eq_false low.val (by simp [Token.ends]))
    have hhigh := ne_of_isPlaced_eq_false (ht.ends_eq_false high.val (by simp [Token.ends]))
    have hordered : (low.val : Int) ≤ high.val := ht.ordered
    rw [List.append_assoc, List.cons_append]
    constructor
    · apply undoubled_bracketed (meets_cons hlow.2.2)
      apply undoubled_cons_iff.2 ⟨meets_bracketed hhigh.2.2.symm, ?_⟩
      exact undoubled_bracketed (hbehind high (Token.mem_points_range.2 ⟨hordered, le_rfl⟩)) hs
    · intro c hc
      exact meets_bracketed (val_ne_of_lt rfl rfl (hc _ (Token.mem_points_range.2 ⟨le_rfl, hordered⟩)))

/-- Tokens in increasing order meet each other and what comes behind them at different code
points. -/
theorem undoubled_spellAll (hplain : ∀ t ∈ tokens, t.Plain)
    (hincreasing : tokens.Pairwise fun t u => ∀ p ∈ t.points, ∀ q ∈ u.points, p < q)
    (hpoints : ∀ t ∈ tokens, ∀ p ∈ t.points, isPlaced p = false)
    (hbody : Token.spellAll tokens = .ok body) (hs : Undoubled s)
    (hbehind : ∀ c : CodePoint, isPlaced c.val = false → Meets c s) :
    Undoubled (body ++ s) ∧
      ∀ c : CodePoint, isPlaced c.val = false →
        (∀ t ∈ tokens, ∀ q ∈ t.points, (c.val : Int) < q) → Meets c (body ++ s) := by
  induction tokens generalizing body with
  | nil =>
    obtain rfl := Except.ok.inj hbody
    exact ⟨hs, fun c hc _ => hbehind c hc⟩
  | cons t tokens ih =>
    obtain ⟨front, rest, hfront, hrest, rfl⟩ := Token.spellAll_cons_eq_ok_iff.1 hbody
    obtain ⟨hbefore, hincreasing⟩ := List.pairwise_cons.1 hincreasing
    rw [List.forall_mem_cons] at hplain hpoints
    obtain ⟨hundoubled, hmeets⟩ := ih hplain.2 hincreasing hpoints.2 hrest
    -- the points of this token are ordinary, and less than those of the tokens behind it
    have hnext : ∀ c : CodePoint, (c.val : Int) ∈ t.points → Meets c (rest ++ s) :=
      fun c hc => hmeets c (hpoints.1 _ hc) fun u hu => hbefore u hu _ hc
    rw [List.append_assoc]
    obtain ⟨hall, hfirst⟩ := undoubled_spelling hplain.1 hfront hundoubled hnext
    exact ⟨hall, fun c _ hc => hfirst c (hc t List.mem_cons_self)⟩

theorem undoubled_tail (p : Placed) : Undoubled (p.tail ++ [closeBracket]) := by
  unfold Undoubled
  obtain ⟨_ | _, _ | _, _ | _⟩ := p <;> decide

/-- Behind the tokens stands one of the three that act by their place. -/
theorem meets_tail (p : Placed) (hc : isPlaced c.val = false) :
    Meets c (p.tail ++ [closeBracket]) := by
  obtain ⟨hclose, hcaret, hdash⟩ := ne_of_isPlaced_eq_false hc
  obtain ⟨_, _ | _, _ | _⟩ := p
  · exact meets_cons hclose
  · exact meets_cons hdash
  · exact meets_cons hcaret
  · exact meets_cons hcaret

theorem undoubled_enclose {inverse : Bool} (hplain : ∀ t ∈ tokens, t.Plain)
    (hincreasing : tokens.Pairwise fun t u => ∀ p ∈ t.points, ∀ q ∈ u.points, p < q)
    (hpoints : ∀ t ∈ tokens, ∀ p ∈ t.points, isPlaced p = false)
    (hbody : Token.spellAll tokens = .ok body) : Undoubled (p.enclose inverse body) := by
  obtain ⟨inner, henclose, hinner⟩ := p.exists_inner inverse body
  have hmembers : Undoubled (inner ++ [closeBracket]) := by
    rcases hinner with rfl | ⟨rfl, -, -⟩
    · have hbehind := (undoubled_spellAll hplain hincreasing hpoints hbody (undoubled_tail p)
        fun c hc => meets_tail p hc).1
      rw [List.append_assoc, List.append_assoc]
      unfold Placed.head
      split
      · exact undoubled_cons (by decide) hbehind
      · exact hbehind
    · unfold Undoubled
      decide
  rw [henclose]
  refine undoubled_cons (by decide) ?_
  cases inverse with
  | false => exact hmembers
  | true => exact undoubled_cons (by decide) hmembers

end Undoubled

/-! ### Each open bracket escaped -/

/-- Whether what follows a text is escaped, given whether the text itself follows an escape: an
escaped backslash escapes nothing. -/
def endsEscaping (escaped : Bool) (s : Text) : Bool :=
  s.foldl (fun escaped c => !escaped && c == backslash) escaped

/-- Whether each `[` of a text is escaped, given whether the first code point is. -/
def opensEscaped : Bool → Text → Bool
  | _, [] => true
  | escaped, c :: rest =>
    (escaped || c != openBracket) && opensEscaped (!escaped && c == backslash) rest

section Escaped

variable {c : CodePoint} {s front body : Text} {t : Token} {tokens : List Token}

theorem opensEscaped_cons (hopen : c ≠ openBracket) (hbackslash : c ≠ backslash) :
    opensEscaped false (c :: s) = opensEscaped false s := by
  rw [opensEscaped, bne_iff_ne.2 hopen, beq_eq_false_iff_ne.2 hbackslash]
  rfl

theorem opensEscaped_bracketed (c : CodePoint) (s : Text) :
    opensEscaped false (c.bracketed ++ s) = opensEscaped false s := by
  unfold bracketed
  split
  · rfl
  · next hc =>
    rw [not_or] at hc
    exact opensEscaped_cons hc.1 hc.2

theorem opensEscaped_spelling (hfront : t.spelling = .ok front) :
    opensEscaped false (front ++ s) = opensEscaped false s := by
  cases t with
  | single p =>
    obtain ⟨c, -, rfl⟩ := Token.spelling_single_eq_ok_iff.1 hfront
    exact opensEscaped_bracketed c s
  | range first last =>
    obtain ⟨low, high, -, -, rfl⟩ := Token.spelling_range_eq_ok_iff.1 hfront
    rw [List.append_assoc, List.cons_append, opensEscaped_bracketed,
      opensEscaped_cons (by decide) (by decide), opensEscaped_bracketed]

theorem opensEscaped_spellAll (hbody : Token.spellAll tokens = .ok body) :
    opensEscaped false (body ++ s) = opensEscaped false s := by
  induction tokens generalizing body with
  | nil =>
    obtain rfl := Except.ok.inj hbody
    rfl
  | cons t tokens ih =>
    obtain ⟨front, rest, hfront, hrest, rfl⟩ := Token.spellAll_cons_eq_ok_iff.1 hbody
    rw [List.append_assoc, opensEscaped_spelling hfront, ih hrest]

/-- The first `[` opens an expression, and all others are escaped. -/
theorem opensEscaped_enclose (p : Placed) (inverse : Bool)
    (hbody : Token.spellAll tokens = .ok body) :
    ∃ inner, p.enclose inverse body = openBracket :: inner ∧ opensEscaped false inner = true := by
  obtain ⟨inner, henclose, hinner⟩ := p.exists_inner inverse body
  have hmembers : opensEscaped false (inner ++ [closeBracket]) = true := by
    rcases hinner with rfl | ⟨rfl, -, -⟩
    · have hhead (s : Text) : opensEscaped false (p.head ++ s) = opensEscaped false s := by
        unfold Placed.head
        split
        · exact opensEscaped_cons (by decide) (by decide)
        · rfl
      rw [List.append_assoc, List.append_assoc, hhead, opensEscaped_spellAll hbody]
      obtain ⟨_ | _, _ | _, _ | _⟩ := p <;> decide
    · decide
  refine ⟨_, henclose, ?_⟩
  cases inverse with
  | false => exact hmembers
  | true => exact (opensEscaped_cons (by decide) (by decide)).trans hmembers

/-- An escaped `[` follows a backslash that is not escaped itself. -/
theorem endsEscaping_of_opensEscaped {escaped : Bool} {before after : Text}
    (h : opensEscaped escaped (before ++ openBracket :: after) = true) :
    endsEscaping escaped before = true := by
  induction before generalizing escaped with
  | nil =>
    rw [List.nil_append, opensEscaped, Bool.and_eq_true] at h
    simpa [endsEscaping] using h.1
  | cons c before ih =>
    rw [List.cons_append, opensEscaped, Bool.and_eq_true] at h
    exact ih h.2

theorem exists_backslash_of_endsEscaping (h : endsEscaping false s = true) :
    ∃ front, s = front ++ [backslash] ∧ endsEscaping false front = false := by
  rcases List.eq_nil_or_concat' s with rfl | ⟨front, c, rfl⟩
  · cases h
  · rw [endsEscaping, List.foldl_concat, Bool.and_eq_true, Bool.not_eq_true', beq_iff_eq] at h
    exact ⟨front, by rw [h.2], h.1⟩

end Escaped

/-! ### Patterns in brackets -/

section Patterns

variable {items : List Value} {inverse : Bool}

/-- A pattern in brackets has no set operator next to itself, and behind the bracket that opens it
no `[` but one that follows a backslash which is not escaped itself. -/
theorem pattern_without_set_syntax {input : Input} (settings : Settings)
    (hmembers : input.members = .ok items) (hitems : ∀ item ∈ items, item.isCharacter = true)
    (hne : items ≠ []) (hmany : inverse = true ∨ (pointSet items).Nontrivial) :
    ∃ inner, (input.pattern settings inverse).result = .ok (openBracket :: inner) ∧
      (∀ c ∈ setOperators, ¬[c, c] <:+: openBracket :: inner) ∧
      ∀ before after, inner = before ++ openBracket :: after →
        ∃ front, before = front ++ [backslash] ∧ endsEscaping false front = false := by
  obtain ⟨c, text, h, htext, hresult⟩ :=
    exists_bracketPattern_of_characters settings hmembers hitems hne hmany
  obtain ⟨body, hbody, rfl⟩ := map_eq_ok_iff.1 htext
  obtain ⟨inner, hinner, hopens⟩ := opensEscaped_enclose c.placed inverse hbody
  have hincreasing : (c.tokens.flatMap Token.points).Pairwise (· < ·) := by
    rw [c.flatMap_points_tokens]
    exact h.enumerates.increasing
  have hundoubled : Undoubled (c.placed.enclose inverse body) :=
    undoubled_enclose (fun t ht => h.plain_of_mem_tokens ht) (pairwise_lt_of_increasing hincreasing)
      (fun t ht p hp => h.isPlaced_eq_false_of_mem_tokens ht hp) hbody
  rw [hinner] at hresult hundoubled
  refine ⟨inner, hresult, ?_, ?_⟩
  · intro d hd hinfix
    have hpair : Undoubled [d, d] := List.IsChain.infix hundoubled hinfix
    exact (undoubled_cons_iff.1 hpair).1 rfl hd
  · rintro before after rfl
    exact exists_backslash_of_endsEscaping (endsEscaping_of_opensEscaped hopens)

/-- Everything that set syntax is made of, with some of it twice. -/
def setSyntax : List Value :=
  [.text [dash], .int 0x26, .int 0x7E, .int 0x7C, .text [openBracket], .text [backslash],
    .int 0x2C, .int 0x26, .int 0x5B, .int 0x2D]

theorem pattern_without_set_syntax_operators :
    (Input.many setSyntax).members = .ok setSyntax ∧
      (∀ item ∈ setSyntax, item.isCharacter = true) ∧ setSyntax ≠ [] ∧
      ∃ inner, ((Input.many setSyntax).pattern {} true).result = .ok (openBracket :: inner) ∧
        (∀ c ∈ setOperators, ¬[c, c] <:+: openBracket :: inner) ∧
        ∀ before after, inner = before ++ openBracket :: after →
          ∃ front, before = front ++ [backslash] ∧ endsEscaping false front = false := by
  have hitems : ∀ item ∈ setSyntax, item.isCharacter = true := by decide
  have hne : setSyntax ≠ [] := by decide
  exact ⟨rfl, hitems, hne, pattern_without_set_syntax {} rfl hitems hne (.inl rfl)⟩

end Patterns

end CharClass
