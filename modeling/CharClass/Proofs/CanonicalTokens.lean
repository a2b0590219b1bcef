import CharClass.Proofs.OnePass

/-!
# The canonical tokens of a list of points

A list of points falls into its maximal runs in one way only. Its tokens are those of the runs, run
after run: a range for three points or more, and a single for each point otherwise. Which tokens
these are can be said without the runs as well: no range is shorter than that, none could be longer,
and no three singles could be a range. There are no other tokens of this kind for the same points,
so whoever writes such tokens writes those of the list.

## Main definitions

* `Token.Continues`: a token goes on where another one ends
* `Token.Canonical`: tokens that are written as the rule for runs asks

## Main statements

* `MaximalRuns.canonical`: these tokens are canonical
* `Token.Canonical.ofPoints_eq`: canonical tokens are determined by their points
* `ofPoints_canonical`: both descriptions of the tokens of a list
-/

namespace CharClass

open Token

/-! ### Canonical tokens -/

namespace Token

/-- A token goes on where another one ends. -/
def Continues (t u : Token) : Prop :=
  u.firstPoint = t.lastPoint + 1

/-- Whether a token is a range. -/
def isRange : Token → Bool
  | single _ => false
  | range _ _ => true

/-- Tokens that are written as the rule for runs asks: a range stands for three points at least, no
range goes on into the token behind it or goes on from the one before it, and no three singles in a
row stand for consecutive points. -/
structure Canonical (tokens : List Token) : Prop where
  wide : ∀ first last, range first last ∈ tokens → 2 ≤ last - first
  apart : tokens.IsChain fun t u => t.isRange = true ∨ u.isRange = true → ¬t.Continues u
  sparse : ∀ before after a,
    tokens ≠ before ++ single a :: single (a + 1) :: single (a + 2) :: after

variable {t : Token} {tokens ts us : List Token}

theorem canonical_map_single {run : List Int} (h : run.length ≤ 2) :
    Canonical (run.map single) where
  wide first last ht := by simp at ht
  apart := by
    rw [List.isChain_map, List.isChain_iff_getElem]
    intro i hi hrange
    cases hrange <;> contradiction
  sparse before after a heq := by
    have hlength := congrArg List.length heq
    simp only [List.length_map, List.length_append, List.length_cons] at hlength
    omega

theorem canonical_range {first last : Int} (h : 2 ≤ last - first) :
    Canonical [range first last] where
  wide low high ht := by
    obtain ⟨rfl, rfl⟩ : low = first ∧ high = last := by simpa using ht
    exact h
  apart := .singleton _
  sparse before after a heq := by
    have hlength := congrArg List.length heq
    simp only [List.length_append, List.length_cons, List.length_nil] at hlength
    omega

/-- Canonical tokens may follow each other where none goes on into the next. -/
theorem Canonical.append (hts : Canonical ts) (hus : Canonical us)
    (hgap : ∀ t ∈ ts.getLast?, ∀ u ∈ us.head?, ¬t.Continues u) : Canonical (ts ++ us) where
  wide first last h := (List.mem_append.1 h).elim (hts.wide first last) (hus.wide first last)
  apart := List.isChain_append.2 ⟨hts.apart, hus.apart, fun t ht u hu _ => hgap t ht u hu⟩
  sparse before after a heq := by
    rcases List.append_eq_append_iff.1 heq with ⟨before', -, h⟩ | ⟨behind, rfl, h⟩
    · exact hus.sparse before' after a h
    · -- the three singles begin in `ts`: none of them, one, two or all three belong to it
      match behind, h with
      | [], h => exact hus.sparse [] after a h.symm
      | [_], h =>
        simp only [List.cons_append, List.nil_append, List.cons.injEq] at h
        obtain ⟨rfl, rfl⟩ := h
        exact hgap (single a) (by simp) (single (a + 1)) rfl rfl
      | [_, _], h =>
        simp only [List.cons_append, List.nil_append, List.cons.injEq] at h
        obtain ⟨rfl, rfl, rfl⟩ := h
        have hnext : (single (a + 1)).Continues (single (a + 2)) := by
          show a + 2 = a + 1 + 1
          omega
        exact hgap (single (a + 1)) (by simp) (single (a + 2)) rfl hnext
      | _ :: _ :: _ :: rest, h =>
        simp only [List.cons_append, List.cons.injEq] at h
        obtain ⟨rfl, rfl, rfl, -⟩ := h
        exact hts.sparse before rest a rfl

theorem Canonical.tail (h : Canonical (t :: ts)) : Canonical ts where
  wide first last ht := h.wide first last (List.mem_cons_of_mem _ ht)
  apart := h.apart.tail
  sparse before after a heq := h.sparse (t :: before) after a (by rw [heq]; rfl)

theorem Canonical.ordered (h : Canonical tokens) : ∀ t ∈ tokens, t.Ordered := by
  intro t ht
  cases t with
  | single p => trivial
  | range first last =>
    have := h.wide first last ht
    show first ≤ last
    omega

/-! ### Where tokens can be cut -/

theorem head?_flatMap_points (h : ∀ t ∈ tokens, t.Ordered) :
    (tokens.flatMap Token.points).head? = tokens.head?.map firstPoint := by
  cases tokens with
  | nil => rfl
  | cons t tokens =>
    rw [List.flatMap_cons, List.head?_append, head?_points (h t List.mem_cons_self)]
    rfl

theorem getLast?_flatMap_points (h : ∀ t ∈ tokens, t.Ordered) :
    (tokens.flatMap Token.points).getLast? = tokens.getLast?.map lastPoint := by
  rcases List.eq_nil_or_concat tokens with rfl | ⟨before, t, rfl⟩
  · rfl
  · rw [List.concat_eq_append] at h ⊢
    have ht : t.Ordered := h t (by simp)
    rw [List.flatMap_append, List.flatMap_singleton, List.getLast?_append, getLast?_points ht,
      List.getLast?_concat]
    rfl

/-- The tokens of a list can be cut where one does not continue the other. -/
theorem ofPoints_flatMap_append (hts : ∀ t ∈ ts, t.Ordered) (hus : ∀ u ∈ us, u.Ordered)
    (hgap : ∀ t ∈ ts.getLast?, ∀ u ∈ us.head?, ¬t.Continues u) :
    ofPoints ((ts ++ us).flatMap Token.points) =
      ofPoints (ts.flatMap Token.points) ++ ofPoints (us.flatMap Token.points) := by
  rw [List.flatMap_append]
  apply ofPoints_append
  intro a ha b hb
  rw [getLast?_flatMap_points hts] at ha
  rw [head?_flatMap_points hus] at hb
  obtain ⟨t, ht, rfl⟩ := Option.map_eq_some_iff.1 ha
  obtain ⟨u, hu, rfl⟩ := Option.map_eq_some_iff.1 hb
  exact hgap t ht u hu

/-! ### Canonical tokens are the tokens of their points -/

namespace Canonical

variable {u : Token}

/-- A canonical token on its own is the token of its points. -/
theorem ofPoints_points (h : Canonical (t :: ts)) : ofPoints t.points = [t] := by
  cases t with
  | single a => rfl
  | range first last =>
    have hwide := h.wide first last List.mem_cons_self
    rw [ofPoints_points_range (by omega), ofEnds, if_pos (by omega)]

/-- Where one token continues another, both are singles. -/
theorem eq_singles (h : Canonical (t :: u :: ts)) (hnext : t.Continues u) :
    ∃ a, t = single a ∧ u = single (a + 1) := by
  have hapart := (List.isChain_cons_cons.1 h.apart).1
  cases t with
  | range first last => exact absurd hnext (hapart (.inl rfl))
  | single a =>
    cases u with
    | range first last => exact absurd hnext (hapart (.inr rfl))
    | single b => exact ⟨a, rfl, congrArg single hnext⟩

/-- Behind two singles in a row, nothing continues. -/
theorem not_continues (h : Canonical (t :: u :: ts)) (hnext : t.Continues u) :
    ∀ v ∈ ts.head?, ¬u.Continues v := by
  intro v hv hbehind
  obtain ⟨ts, rfl⟩ := List.head?_eq_some_iff.1 hv
  obtain ⟨a, rfl, rfl⟩ := h.eq_singles hnext
  obtain ⟨b, hb, rfl⟩ := h.tail.eq_singles hbehind
  obtain rfl := Token.single.inj hb
  apply h.sparse [] ts a
  rw [List.nil_append, Int.add_assoc]
  rfl

/-- Canonical tokens are the tokens of the points that they stand for. -/
theorem ofPoints_eq : ∀ {tokens : List Token}, Canonical tokens →
    ofPoints (tokens.flatMap Token.points) = tokens
  | [], _ => rfl
  | [t], h => by rw [List.flatMap_singleton, h.ofPoints_points]
  | t :: u :: ts, h => by
    by_cases hnext : t.Continues u
    · -- two singles, with a cut behind them
      have hcut : ofPoints (([t, u] ++ ts).flatMap Token.points) =
          ofPoints ([t, u].flatMap Token.points) ++ ofPoints (ts.flatMap Token.points) := by
        apply ofPoints_flatMap_append
        · exact fun v hv => h.ordered v (List.mem_append_left ts hv)
        · exact h.tail.tail.ordered
        · intro v hv
          obtain rfl : u = v := by simpa using hv
          exact h.not_continues hnext
      obtain ⟨a, rfl, rfl⟩ := h.eq_singles hnext
      have hpair : ofPoints [a, a + 1] = ofRun [a, a + 1] :=
        ofPoints_of_run (List.cons_ne_nil _ _) (by simp)
      show ofPoints (([single a, single (a + 1)] ++ ts).flatMap Token.points) = _
      rw [hcut, ofPoints_eq h.tail.tail]
      show ofPoints [a, a + 1] ++ ts = _
      rw [hpair]
      rfl
    · -- a token on its own, with a cut behind it
      have hcut : ofPoints (([t] ++ u :: ts).flatMap Token.points) =
          ofPoints ([t].flatMap Token.points) ++ ofPoints ((u :: ts).flatMap Token.points) := by
        apply ofPoints_flatMap_append
        · exact fun v hv => h.ordered v (List.mem_append_left (u :: ts) hv)
        · exact h.tail.ordered
        · intro v hv w hw
          obtain rfl : t = v := by simpa using hv
          obtain rfl : u = w := by simpa using hw
          exact hnext
      show ofPoints (([t] ++ u :: ts).flatMap Token.points) = _
      rw [hcut, List.flatMap_singleton, h.ofPoints_points, ofPoints_eq h.tail]
      rfl

end Canonical

/-! ### The tokens of maximal runs are canonical -/

theorem canonical_ofRun {run : List Int} (h : IsRun run) : Canonical (ofRun run) := by
  rcases Nat.lt_or_ge 2 run.length with hlong | hshort
  · cases run with
    | nil => contradiction
    | cons a run =>
      have hlong : 2 ≤ run.length := Nat.le_of_lt_succ hlong
      rw [ofRun_of_long h hlong]
      apply canonical_range
      omega
  · rw [ofRun_of_short hshort]
    exact canonical_map_single hshort

end Token

section Runs

variable {run : List Int} {runs : List (List Int)} {points : List Int} {tokens : List Token}

/-- By induction on the runs: the tokens of the first one are canonical, and do not go on into
those of the others. -/
theorem MaximalRuns.canonical (h : MaximalRuns runs points) : Canonical (runs.flatMap ofRun) := by
  induction runs generalizing points with
  | nil =>
    show Canonical ([].map single)
    exact canonical_map_single (Nat.zero_le 2)
  | cons run runs ih =>
    have hchain := h.isRun _ List.mem_cons_self
    have hfirst := canonical_ofRun hchain
    have hrest := ih h.tail
    rw [List.flatMap_cons]
    apply hfirst.append hrest
    intro t ht u hu
    have hlast : run.getLast? = some t.lastPoint := by
      rw [← flatMap_points_ofRun hchain, getLast?_flatMap_points hfirst.ordered, ht]
      rfl
    have hhead : runs.flatten.head? = some u.firstPoint := by
      rw [← flatMap_points_ofPoints runs.flatten, ofPoints_eq_of_maximalRuns h.tail,
        head?_flatMap_points hrest.ordered, hu]
      rfl
    exact h.gap _ hlast _ hhead

theorem canonical_ofPoints (points : List Int) : Canonical (ofPoints points) := by
  have h := maximalRuns_splitBy points
  rw [ofPoints_eq_of_maximalRuns h]
  exact h.canonical

/-- Tokens are canonical exactly if they are the tokens of their points. -/
theorem canonical_iff : Canonical tokens ↔ ofPoints (tokens.flatMap Token.points) = tokens := by
  constructor
  · exact Canonical.ofPoints_eq
  · intro h
    rw [← h]
    exact canonical_ofPoints _

instance : DecidablePred Canonical :=
  fun _ => decidable_of_iff _ canonical_iff.symm

/-- What a run of three points or more becomes. -/
theorem exists_ofRun_eq_range (h : IsRun run) (hlong : 3 ≤ run.length) :
    ∃ first last, run.head? = some first ∧ run.getLast? = some last ∧
      ofRun run = [range first last] := by
  cases run with
  | nil => contradiction
  | cons a run =>
    exact ⟨a, a + run.length, rfl, getLast?_run h, ofRun_of_long h (Nat.le_of_succ_le_succ hlong)⟩

/-- A list of points has one cut into maximal runs, and its tokens are those of the runs: a range
from end to end for three points or more, and a single for each point otherwise. In other words,
the tokens of a list are canonical, and canonical tokens are the tokens of what they stand for. -/
theorem ofPoints_canonical (points : List Int) (tokens : List Token) :
    (∃ runs, MaximalRuns runs points ∧ (∀ others, MaximalRuns others points → others = runs) ∧
      ofPoints points = runs.flatMap ofRun ∧
      ∀ run ∈ runs, (run.length ≤ 2 → ofRun run = run.map single) ∧
        (3 ≤ run.length → ∃ first last, run.head? = some first ∧ run.getLast? = some last ∧
          ofRun run = [range first last])) ∧
    Canonical (ofPoints points) ∧
    (Canonical tokens ↔ ofPoints (tokens.flatMap Token.points) = tokens) := by
  have h := maximalRuns_splitBy points
  refine ⟨⟨_, h, ?_, ofPoints_eq_of_maximalRuns h, ?_⟩, canonical_ofPoints points, canonical_iff⟩
  · intro others hothers
    exact (maximalRuns_iff.1 hothers).symm
  · intro run hrun
    exact ⟨ofRun_of_short, exists_ofRun_eq_range (h.isRun run hrun)⟩

/-- Two consecutive singles may stand in a row, and three may not. -/
example : Canonical [.single 1, .single 2, .range 4 6, .single 6, .single 7] ∧
    ¬Canonical [.single 1, .single 2, .single 3] := by decide

end Runs

end CharClass
