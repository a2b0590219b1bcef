import CharClass.Proofs.Pattern

/-!
# Copies of one item

A list that repeats one item takes the short way, so the item is blamed if it is no character,
whatever it is and however often it comes. This rests on equality being reflexive. It is on every
value but a not-a-number, containers that hold one included, since the parts of a container are
compared by `Value.same`. Copies of a not-a-number are not alike, and end as items without a point.

## Main statements

* `Value.same_self`, `Value.alike_self`: where equality is reflexive
* `uniform?_replicate`: copies are alike, those of a not-a-number apart
* `pattern_of_copies`: what becomes of copies of an item that is no character
* `not_blamed_nan`: a not-a-number is not blamed
-/

namespace CharClass

namespace Value

mutual

/-- Every value is the same as itself. -/
theorem same_self : ∀ v : Value, same v v = true
  | list items => by
    rw [same]
    exact sameAll_self items
  | tuple items => by
    rw [same]
    exact sameAll_self items
  | dict entries => by
    rw [same, beq_self_eq_true, Bool.true_and]
    exact entriesIn_of_subset entries entries fun _ he => he
  | set items => by
    rw [same, beq_self_eq_true, Bool.true_and]
    exact elementsIn_of_subset items items fun _ hx => hx
  | null | bool _ | int _ | float _ | text _ | octets _ | buffer _ | range _ | stream _ => by
    simp [same, sameEssence, essence?]

theorem sameAll_self : ∀ items : List Value, sameAll items items = true
  | [] => rfl
  | x :: xs => by
    rw [sameAll, same_self x, sameAll_self xs]
    rfl

/-- Entries are found among any that include them. -/
theorem entriesIn_of_subset : ∀ es fs : List (Value × Value), es ⊆ fs → entriesIn es fs = true
  | [], _, _ => rfl
  | (k, v) :: es, fs, h => by
    have hfound : fs.any (fun f => same k f.1 && same v f.2) = true := by
      refine List.any_eq_true.2 ⟨(k, v), h List.mem_cons_self, ?_⟩
      rw [same_self k, same_self v]
      rfl
    rw [entriesIn, hfound, entriesIn_of_subset es fs fun _ he => h (List.mem_cons_of_mem _ he)]
    rfl

/-- Elements are found among any that include them. -/
theorem elementsIn_of_subset : ∀ xs ys : List Value, xs ⊆ ys → elementsIn xs ys = true
  | [], _, _ => rfl
  | x :: xs, ys, h => by
    have hfound : ys.any (same x) = true :=
      List.any_eq_true.2 ⟨x, h List.mem_cons_self, same_self x⟩
    rw [elementsIn, hfound, elementsIn_of_subset xs ys fun _ hx => h (List.mem_cons_of_mem _ hx)]
    rfl

end

/-- A value is alike itself unless it is a not-a-number. -/
theorem alike_self (item : Value) : item.alike item = !item.isNaN := by
  rw [alike, equal, same_self, beq_self_eq_true, Bool.true_and, Bool.and_true]

theorem eq_nan_of_isNaN {item : Value} (h : item.isNaN = true) :
    ∃ mark, item = float (.nan mark) := by
  unfold isNaN at h
  split at h
  · exact ⟨_, rfl⟩
  · cases h

end Value

/-! ### Copies -/

section Copies

variable {item : Value} {n : Nat}

/-- Copies of one item are all alike unless it is a not-a-number. -/
theorem uniform?_replicate (item : Value) (n : Nat) :
    uniform? (List.replicate (n + 1) item) = if item.isNaN then none else some item := by
  have hall : (List.replicate (n + 1) item).all (·.alike item) = !item.isNaN := by
    rw [List.all_replicate, if_neg n.succ_ne_zero, item.alike_self]
  rw [List.replicate_succ] at hall ⊢
  rw [uniform?, hall]
  cases item.isNaN <;> rfl

/-- There is no census of copies of a not-a-number, since it has no point. -/
theorem ofItems_replicate_nan (threshold : Int) (mark n : Nat) :
    Census.ofItems threshold (List.replicate (n + 1) (.float (.nan mark))) =
      .error (.noCodePoint .float) := by
  rw [List.replicate_succ, Census.ofItems, List.mapM_cons]
  rfl

/-- Copies of an item that is no character end with the blame for it, whatever the item and however
many they are, unless it is a not-a-number. In that case the fault is that it has no point. Nothing
is reported before either. -/
theorem pattern_of_copies (settings : Settings) (hitem : item.isCharacter = false) (hn : 0 < n) :
    (Input.many (List.replicate n item)).pattern settings false =
      .silent (.error (if item.isNaN then .noCodePoint .float else .notCharacter item)) := by
  obtain ⟨n, rfl⟩ := Nat.exists_eq_add_one.2 hn
  rw [Input.pattern_of_members rfl]
  unfold patternOf
  rw [uniform?_replicate]
  cases hnan : item.isNaN with
  | false =>
    show Outcome.silent item.spelling = _
    rw [Value.spelling_eq_error_iff.2 ⟨hitem, rfl⟩]
    rfl
  | true =>
    obtain ⟨mark, rfl⟩ := Value.eq_nan_of_isNaN hnan
    show patternByCensus settings _ false = _
    rw [patternByCensus, censusOf, ofItems_replicate_nan]
    rfl

/-- A list that holds a not-a-number, which is not one itself. -/
def nested : Value :=
  .list [.float (.nan 0)]

theorem pattern_of_copies_nested :
    nested.isCharacter = false ∧ 0 < 3 ∧
      (Input.many (List.replicate 3 nested)).pattern {} false =
        .silent (.error (if nested.isNaN then .noCodePoint .float else .notCharacter nested)) :=
  ⟨rfl, by decide, pattern_of_copies {} rfl (by decide)⟩

/-- Not every item that is no character is blamed for it when it comes alone: a single
not-a-number is not. -/
theorem not_blamed_nan :
    ¬∀ (item : Value) (n : Nat), item.isCharacter = false → 0 < n →
      ((Input.many (List.replicate n item)).pattern {} false).result =
        .error (.notCharacter item) := by
  intro hblamed
  have hnan : (Except.error (.noCodePoint .float) : Except Fault Text) =
      .error (.notCharacter (.float (.nan 0))) := hblamed (.float (.nan 0)) 1 rfl Nat.one_pos
  cases hnan

end Copies

end CharClass
