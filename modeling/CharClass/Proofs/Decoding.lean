import CharClass.Proofs.Reading

/-!
# Decoding spelled tokens

The spellings of tokens, one after the other, can be told apart again: a reader that takes one unit
at a time, and looks no further than at the code point behind it, finds the same tokens in the same
order. Order, repetitions and overlaps do not matter. All it takes is that no end of a token is a
`]`, which would close the expression, or a `-`, which would make a range of its neighbours.

## Main definitions

* `Token.Legible`: tokens with such ends
* `Unjoined`: texts that go on behind a unit without a dash

## Main statements

* `readTokens?_single`, `readTokens?_range`: the two steps of the reader
* `Token.Legible.readTokens?_spelling`: a spelled token is read as itself
* `readTokens?_spellAll`: spelled tokens are read as these tokens
-/

namespace CharClass

open CodePoint

/-! ### Steps of the reader -/

section Steps

variable {a b c : CodePoint} {s more rest : Text}

theorem readTokens?_close (s : Text) : readTokens? (closeBracket :: s) = some ([], s) := by
  rw [readTokens?]
  exact if_pos rfl

/-- A unit with no dash behind it is a token of its own. -/
theorem readTokens?_single (hopen : s.head? ≠ some closeBracket)
    (hunit : unit? (fun _ => true) s = some (a, c :: more)) (hc : c ≠ dash) :
    readTokens? s =
      (readTokens? (c :: more)).map fun (tokens, rest) => (.single a.val :: tokens, rest) := by
  rw [readTokens?, if_neg hopen]
  split
  · next hnone => rw [hunit] at hnone; cases hnone
  · next hone => rw [hunit] at hone; cases hone
  · next hsome =>
    rw [hunit] at hsome
    cases hsome
    exact if_neg hc

/-- Two units with a dash between them are a range. -/
theorem readTokens?_range (hopen : s.head? ≠ some closeBracket)
    (hunit : unit? (fun _ => true) s = some (a, dash :: more))
    (hunit' : unit? (fun _ => true) more = some (b, rest)) :
    readTokens? s =
      (readTokens? rest).map fun (tokens, rest) => (.range a.val b.val :: tokens, rest) := by
  rw [readTokens?, if_neg hopen]
  split
  · next hnone => rw [hunit] at hnone; cases hnone
  · next hone => rw [hunit] at hone; cases hone
  · next hsome =>
    rw [hunit] at hsome
    cases hsome
    rw [if_pos rfl]
    split
    · next hnone => rw [hunit'] at hnone; cases hnone
    · next hsome =>
      rw [hunit'] at hsome
      cases hsome
      rfl

/-- The spelling of a code point is one unit, and any code point may be escaped. -/
theorem unit?_bracketed_append (c : CodePoint) (s : Text) :
    unit? (fun _ => true) (c.bracketed ++ s) = some (c, s) :=
  unit?_bracketed rfl rfl c s

/-- A spelled code point begins with itself or with a backslash. -/
theorem exists_bracketed_append_eq_cons (c : CodePoint) (s : Text) :
    ∃ d more, c.bracketed ++ s = d :: more ∧ (d = c ∨ d = backslash) := by
  unfold bracketed
  split
  · exact ⟨backslash, c :: s, rfl, .inr rfl⟩
  · exact ⟨c, s, rfl, .inl rfl⟩

theorem head?_bracketed_append_ne (hc : c ≠ a) (ha : backslash ≠ a) :
    (c.bracketed ++ s).head? ≠ some a := by
  obtain ⟨d, more, heq, hd⟩ := exists_bracketed_append_eq_cons c s
  rw [heq]
  rcases hd with rfl | rfl
  · exact head?_cons_ne hc
  · exact head?_cons_ne ha

end Steps

/-- A text that goes on behind a unit, and not with a dash. -/
def Unjoined (s : Text) : Prop :=
  ∃ c more, s = c :: more ∧ c ≠ dash

theorem unjoined_closeBracket (s : Text) : Unjoined (closeBracket :: s) :=
  ⟨closeBracket, s, rfl, by decide⟩

theorem unjoined_bracketed_append {c : CodePoint} (hc : c ≠ dash) (s : Text) :
    Unjoined (c.bracketed ++ s) := by
  obtain ⟨d, more, heq, hd⟩ := exists_bracketed_append_eq_cons c s
  refine ⟨d, more, heq, ?_⟩
  rcases hd with rfl | rfl
  · exact hc
  · decide

/-! ### Spelled tokens -/

namespace Token

/-- A token whose ends are code points other than `]` and `-`. -/
def Legible (t : Token) : Prop :=
  ∀ p ∈ t.ends, CodePoint.InDomain p ∧ p ≠ closeBracket.val ∧ p ≠ dash.val

instance : DecidablePred Legible :=
  fun t => inferInstanceAs (Decidable (∀ p ∈ t.ends, _))

variable {t : Token} {tokens : List Token} {front body s : Text}

namespace Legible

theorem ne_closeBracket {c : CodePoint} (ht : t.Legible) (hc : (c.val : Int) ∈ t.ends) :
    c ≠ closeBracket :=
  fun h => (ht c.val hc).2.1 (h ▸ rfl)

theorem ne_dash {c : CodePoint} (ht : t.Legible) (hc : (c.val : Int) ∈ t.ends) : c ≠ dash :=
  fun h => (ht c.val hc).2.2 (h ▸ rfl)

theorem exists_spelling (ht : t.Legible) : ∃ text, t.spelling = .ok text :=
  exists_spelling_iff.2 fun p hp => (ht p hp).1

/-- The spelling of a legible token does not begin with a dash. -/
theorem unjoined_spelling (ht : t.Legible) (hfront : t.spelling = .ok front) (s : Text) :
    Unjoined (front ++ s) := by
  cases t with
  | single p =>
    obtain ⟨c, rfl, rfl⟩ := spelling_single_eq_ok_iff.1 hfront
    exact unjoined_bracketed_append (ht.ne_dash (by simp [ends])) s
  | range first last =>
    obtain ⟨low, high, rfl, rfl, rfl⟩ := spelling_range_eq_ok_iff.1 hfront
    rw [List.append_assoc]
    exact unjoined_bracketed_append (ht.ne_dash (by simp [ends])) _

/-- A spelled token is read as itself, in front of whatever does not go on with a dash. -/
theorem readTokens?_spelling (ht : t.Legible) (hfront : t.spelling = .ok front)
    (hs : Unjoined s) :
    readTokens? (front ++ s) =
      (readTokens? s).map fun (tokens, rest) => (t :: tokens, rest) := by
  cases t with
  | single p =>
    obtain ⟨c, rfl, rfl⟩ := spelling_single_eq_ok_iff.1 hfront
    obtain ⟨d, more, rfl, hd⟩ := hs
    have hclose := ht.ne_closeBracket (c := c) (by simp [ends])
    exact readTokens?_single (head?_bracketed_append_ne hclose (by decide))
      (unit?_bracketed_append c _) hd
  | range first last =>
    obtain ⟨low, high, rfl, rfl, rfl⟩ := spelling_range_eq_ok_iff.1 hfront
    have hclose := ht.ne_closeBracket (c := low) (by simp [ends])
    rw [List.append_assoc, List.cons_append]
    exact readTokens?_range (head?_bracketed_append_ne hclose (by decide))
      (unit?_bracketed_append low _) (unit?_bracketed_append high s)

end Legible

/-- Whatever the tokens, the reader is never led to join two of them. -/
theorem unjoined_spellAll (hlegible : ∀ t ∈ tokens, t.Legible) (hbody : spellAll tokens = .ok body)
    (hs : Unjoined s) : Unjoined (body ++ s) := by
  cases tokens with
  | nil =>
    obtain rfl := Except.ok.inj hbody
    exact hs
  | cons t tokens =>
    obtain ⟨front, back, hfront, -, rfl⟩ := spellAll_cons_eq_ok_iff.1 hbody
    rw [List.append_assoc]
    exact (hlegible t List.mem_cons_self).unjoined_spelling hfront _

end Token

section Decode

open Token

variable {tokens : List Token}

/-- Tokens whose ends are code points other than `]` and `-` can be spelled, and what is spelled is
read as the same tokens in the same order, up to the `]` behind them. -/
theorem readTokens?_spellAll (hlegible : ∀ t ∈ tokens, t.Legible) :
    ∃ body, spellAll tokens = .ok body ∧
      ∀ rest, readTokens? (body ++ closeBracket :: rest) = some (tokens, rest) := by
  induction tokens with
  | nil => exact ⟨[], spellAll_nil, readTokens?_close⟩
  | cons t tokens ih =>
    rw [List.forall_mem_cons] at hlegible
    obtain ⟨ht, htokens⟩ := hlegible
    obtain ⟨front, hfront⟩ := ht.exists_spelling
    obtain ⟨back, hback, hread⟩ := ih htokens
    refine ⟨front ++ back, spellAll_cons_eq_ok_iff.2 ⟨front, back, hfront, hback, rfl⟩, ?_⟩
    intro rest
    have hbehind : Unjoined (back ++ closeBracket :: rest) :=
      unjoined_spellAll htokens hback (unjoined_closeBracket rest)
    rw [List.append_assoc, ht.readTokens?_spelling hfront hbehind, hread]
    rfl

/-- Tokens out of order that overlap and come twice, with ends that need a backslash. -/
def scattered : List Token :=
  [.range 0x5B 0x5C, .single 0x5C, .range 0x2C 0x2E, .single 0x5E, .single 0x5B, .single 0x5E,
    .range 0x2B 0x10FFFF, .range 0x5C 0x5C]

theorem readTokens?_spellAll_scattered :
    (∀ t ∈ scattered, t.Legible) ∧
      ∃ body, spellAll scattered = .ok body ∧
        ∀ rest, readTokens? (body ++ closeBracket :: rest) = some (scattered, rest) := by
  have hlegible : ∀ t ∈ scattered, t.Legible := by decide
  exact ⟨hlegible, readTokens?_spellAll hlegible⟩

end Decode

end CharClass
