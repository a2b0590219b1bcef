import Mathlib.Data.List.SplitBy

/-!
# Lists cut into groups

`List.splitBy` cuts a list wherever two neighbours are not related. In an ordered list, whatever
comes behind a group is separated from it by such a break. If a list of numbers is cut wherever a
number is not one more than the number before it, the groups are the maximal runs of the list, and
there is no other cut into maximal runs.

## Main definitions

* `IsRun`: numbers of which each is one more than the number before it
* `MaximalRuns`: a list cut into its maximal runs

## Main statements

* `exists_break`: the break behind a group, on the way to an element behind it
* `maximalRuns_iff`: the cut into maximal runs
* `MaximalRuns.gap`: the gap behind a run
-/

namespace CharClass

/-- On the way from a group to an element behind it lies a break: from the last of the group to the
first of the next one, and on to the element. -/
theorem exists_break {α : Type} {R B : α → α → Prop} {group : List α} {groups : List (List α)}
    {n : α} (hbreak : (group :: groups).IsChain fun g h => ∃ hg hh, B (g.getLast hg) (h.head hh))
    (hsorted : (group :: groups).flatten.Pairwise R) (hn : n ∈ groups.flatten) :
    ∃ (hne : group ≠ []) (first : α), B (group.getLast hne) first ∧
      R (group.getLast hne) first ∧ (first = n ∨ R first n) := by
  cases groups with
  | nil => cases hn
  | cons next groups =>
    obtain ⟨⟨hg, hh, hlink⟩, -⟩ := List.isChain_cons_cons.1 hbreak
    rw [List.flatten_cons, List.pairwise_append] at hsorted
    obtain ⟨-, hlater, hacross⟩ := hsorted
    refine ⟨hg, next.head hh, hlink, ?_, ?_⟩
    · apply hacross _ (List.getLast_mem hg)
      exact List.mem_flatten.2 ⟨next, List.mem_cons_self, List.head_mem hh⟩
    · cases next with
      | nil => exact absurd rfl hh
      | cons a next =>
        rw [List.flatten_cons, List.cons_append] at hlater hn
        rcases List.mem_cons.1 hn with rfl | hn
        · exact .inl rfl
        · exact .inr ((List.pairwise_cons.1 hlater).1 n hn)

/-! ### Maximal runs -/

/-- A list of numbers of which each is one more than the number before it. -/
abbrev IsRun (run : List Int) : Prop :=
  run.IsChain fun a b => (b == a + 1) = true

/-- A list of numbers cut into runs of which none could go on into the next. -/
structure MaximalRuns (runs : List (List Int)) (points : List Int) : Prop where
  flatten_eq : runs.flatten = points
  nonempty : ∀ run ∈ runs, run ≠ []
  isRun : ∀ run ∈ runs, IsRun run
  maximal : runs.IsChain fun run next => ∀ a ∈ run.getLast?, ∀ b ∈ next.head?, b ≠ a + 1

section Runs

variable {run : List Int} {runs : List (List Int)} {points : List Int}

/-- A list has one cut into maximal runs. -/
theorem maximalRuns_iff :
    MaximalRuns runs points ↔ points.splitBy (fun a b => b == a + 1) = runs := by
  rw [List.splitBy_eq_iff]
  constructor
  · intro h
    refine ⟨h.flatten_eq.symm, fun hnil => h.nonempty [] hnil rfl, h.isRun, ?_⟩
    apply h.maximal.imp_of_mem_imp
    intro run next hrun hnext hgap
    refine ⟨h.nonempty run hrun, h.nonempty next hnext, beq_eq_false_iff_ne.2 ?_⟩
    exact hgap _ (List.getLast_mem_getLast? _) _ (List.head_mem_head? _)
  · rintro ⟨rfl, hnil, hchain, hbreak⟩
    refine ⟨rfl, fun run hrun hempty => hnil (hempty ▸ hrun), hchain, hbreak.imp ?_⟩
    rintro run next ⟨hrun, hnext, hgap⟩ a ha b hb
    rw [← List.getLast_of_mem_getLast? ha, ← List.head_of_mem_head? hb]
    exact beq_eq_false_iff_ne.1 hgap

theorem maximalRuns_splitBy (points : List Int) :
    MaximalRuns (points.splitBy fun a b => b == a + 1) points :=
  maximalRuns_iff.2 rfl

namespace MaximalRuns

theorem tail (h : MaximalRuns (run :: runs) points) : MaximalRuns runs runs.flatten where
  flatten_eq := rfl
  nonempty r hr := h.nonempty r (List.mem_cons_of_mem _ hr)
  isRun r hr := h.isRun r (List.mem_cons_of_mem _ hr)
  maximal := h.maximal.tail

/-- The point behind a run does not go on. -/
theorem gap (h : MaximalRuns (run :: runs) points) :
    ∀ a ∈ run.getLast?, ∀ b ∈ runs.flatten.head?, b ≠ a + 1 := by
  intro a ha b hb
  cases runs with
  | nil => cases hb
  | cons next runs =>
    have hne : next ≠ [] := h.nonempty next (List.mem_cons_of_mem _ List.mem_cons_self)
    rw [List.flatten_cons, List.head?_append_of_ne_nil _ hne] at hb
    exact (List.isChain_cons_cons.1 h.maximal).1 a ha b hb

end MaximalRuns

end Runs

end CharClass
