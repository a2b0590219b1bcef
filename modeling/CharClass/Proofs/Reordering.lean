import CharClass.Proofs.Determinacy
import Mathlib.Data.List.Perm.Basic

/-!
# Order does not matter, failures included

Items of any kind may be put into another order: the pattern stays the same, and where there is
none, the fault stays of the same kind. Only which bad item gets named may change with the order.
Both runs are followed side by side, one stage after the other.

Whether all items are alike is asked of the first item alone, so this stage needs equality to be
symmetric and transitive. It need not be reflexive: a not-a-number differs from itself.

## Main definitions

* `Agree`: results that differ in no more than the bad item they name
* `EqualityLaws`: what is asked of equality

## Main statements

* `EqualityLaws.exists_uniform?`: items that are all alike are so in any order
* `Census.ofItems_agree`, `Census.Describes.pattern_agree`: the stages of a run
* `pattern_of_perm`: two runs
-/

namespace CharClass

/-! ### Results that agree -/

/-- Two results agree if both are values, and related, or both are faults, and of one kind. A bad
value or an overflow is the same fault in both. The items that are no characters may differ. -/
inductive Agree {α β : Type} (items : List Value) (R : α → β → Prop) :
    Except Fault α → Except Fault β → Prop where
  | ok {a : α} {b : β} (h : R a b) : Agree items R (.ok a) (.ok b)
  | number {fault : Fault} (h : fault.category = .value ∨ fault.category = .overflow) :
    Agree items R (.error fault) (.error fault)
  | type {fault other : Fault} (h : fault.category = .type) (h' : other.category = .type) :
    Agree items R (.error fault) (.error other)
  | notCharacter {item other : Value} (hmem : item ∈ items) (hmem' : other ∈ items)
    (h : item.isCharacter = false) (h' : other.isCharacter = false) :
    Agree items R (.error (.notCharacter item)) (.error (.notCharacter other))

namespace Agree

variable {α β γ δ : Type} {items : List Value} {R : α → β → Prop} {S : γ → δ → Prop}

/-- Runs agree if their first steps do, and what comes next agrees on related values. -/
theorem bind {x : Except Fault α} {y : Except Fault β} {f : α → Except Fault γ}
    {g : β → Except Fault δ} (h : Agree items R x y)
    (hnext : ∀ a b, R a b → Agree items S (f a) (g b)) : Agree items S (x >>= f) (y >>= g) := by
  cases h with
  | ok h => exact hnext _ _ h
  | number h => exact .number h
  | type h h' => exact .type h h'
  | notCharacter hmem hmem' h h' => exact .notCharacter hmem hmem' h h'

/-- A result agrees with itself if nothing but a number can be wrong. -/
theorem self {x : Except Fault α}
    (h : ∀ fault, x = .error fault → fault.category = .value ∨ fault.category = .overflow) :
    Agree items Eq x x := by
  cases x with
  | ok a => exact .ok rfl
  | error fault => exact .number (h fault rfl)

end Agree

/-! ### Items that are all alike -/

/-- Equality is symmetric and transitive on the items of a list. -/
structure EqualityLaws (items : List Value) : Prop where
  symm : ∀ a ∈ items, ∀ b ∈ items, a.equal b = true → b.equal a = true
  trans : ∀ a ∈ items, ∀ b ∈ items, ∀ c ∈ items,
    a.equal b = true → b.equal c = true → a.equal c = true

namespace EqualityLaws

variable {xs ys : List Value} {a b c first : Value}

theorem of_perm (h : EqualityLaws xs) (hperm : xs.Perm ys) : EqualityLaws ys where
  symm a ha b hb := h.symm a (hperm.mem_iff.2 ha) b (hperm.mem_iff.2 hb)
  trans a ha b hb c hc :=
    h.trans a (hperm.mem_iff.2 ha) b (hperm.mem_iff.2 hb) c (hperm.mem_iff.2 hc)

theorem alike_symm (h : EqualityLaws xs) (ha : a ∈ xs) (hb : b ∈ xs) (hab : a.alike b = true) :
    b.alike a = true := by
  simp only [Value.alike, Bool.and_eq_true, beq_iff_eq] at hab ⊢
  exact ⟨hab.1.symm, h.symm a ha b hb hab.2⟩

theorem alike_trans (h : EqualityLaws xs) (ha : a ∈ xs) (hb : b ∈ xs) (hc : c ∈ xs)
    (hab : a.alike b = true) (hbc : b.alike c = true) : a.alike c = true := by
  simp only [Value.alike, Bool.and_eq_true, beq_iff_eq] at hab hbc ⊢
  exact ⟨hab.1.trans hbc.1, h.trans a ha b hb c hc hab.2 hbc.2⟩

/-- If all items are alike, then whichever comes first is alike the others. -/
theorem exists_uniform? (h : EqualityLaws xs) (hperm : xs.Perm ys)
    (huniform : uniform? xs = some first) :
    ∃ other ∈ xs, uniform? ys = some other ∧ first.alike other = true ∧
      other.alike first = true := by
  have hfirst := mem_of_uniform?_eq_some huniform
  obtain ⟨hhead, hall⟩ := uniform?_eq_some_iff.1 huniform
  cases ys with
  | nil => exact absurd (hperm.mem_iff.1 hfirst) List.not_mem_nil
  | cons other rest =>
    have hother : other ∈ xs := hperm.mem_iff.2 List.mem_cons_self
    have hback := h.alike_symm hother hfirst (hall other hother)
    refine ⟨other, hother, uniform?_eq_some_iff.2 ⟨rfl, fun item hitem => ?_⟩, hback,
      hall other hother⟩
    have hitem := hperm.mem_iff.2 hitem
    exact h.alike_trans hitem hfirst hother (hall item hitem) hback

theorem uniform?_eq_none (h : EqualityLaws xs) (hperm : xs.Perm ys)
    (hnone : uniform? xs = none) : uniform? ys = none := by
  cases huniform : uniform? ys with
  | none => rfl
  | some first =>
    obtain ⟨other, -, hother, -⟩ := (h.of_perm hperm).exists_uniform? hperm.symm huniform
    rw [hnone] at hother
    cases hother

end EqualityLaws

/-- Items that are alike are spelled alike, or are both blamed. -/
theorem spelling_agree {items : List Value} {a b : Value} (ha : a ∈ items) (hb : b ∈ items)
    (hab : a.alike b = true) (hba : b.alike a = true) :
    Agree items Eq a.spelling b.spelling := by
  unfold Value.spelling
  cases hchar : a.character? with
  | some c =>
    obtain rfl := Value.eq_of_alike hba (Value.standsFor_of_character? hchar)
    rw [hchar]
    exact .ok rfl
  | none =>
    cases hchar' : b.character? with
    | some c =>
      obtain rfl := Value.eq_of_alike hab (Value.standsFor_of_character? hchar')
      rw [hchar] at hchar'
      cases hchar'
    | none =>
      refine .notCharacter ha hb ?_ ?_
      · rw [Value.isCharacter, hchar, Option.isSome_none]
      · rw [Value.isCharacter, hchar', Option.isSome_none]

/-! ### The census -/

section Perm

variable {xs ys : List Value} {ps qs : List Int}

theorem pointSet_eq_of_perm (hperm : xs.Perm ys) : pointSet xs = pointSet ys := by
  ext p
  simp only [pointSet, Set.mem_ofPred_eq, hperm.mem_iff]

theorem fitsTable_iff_of_perm (hperm : ps.Perm qs) : FitsTable ps ↔ FitsTable qs := by
  simp only [FitsTable, hperm.mem_iff]

/-- Whether there is a census, and what is wrong if there is none, does not depend on the order. -/
theorem Census.ofItems_agree (threshold : Int) (hperm : xs.Perm ys) :
    Agree xs (fun c d => c.Describes xs ∧ d.Describes ys)
      (ofItems threshold xs) (ofItems threshold ys) := by
  by_cases hstands : ∀ item ∈ xs, ∃ p, item.StandsFor p
  · obtain ⟨ps, hps⟩ := exists_points hstands
    obtain ⟨qs, hqs, hpoints⟩ := List.perm_comp_forall₂ hperm.symm hps
    have hgeneral := (hpoints.symm.filter fun p => !isPlaced p)
    by_cases hroom : ((ps.filter fun p => !isPlaced p).length : Int) ≤ threshold ∨
        FitsTable (ps.filter fun p => !isPlaced p)
    · obtain ⟨c, hc⟩ := exists_ofItems_eq_ok hps hroom
      rw [hgeneral.length_eq, fitsTable_iff_of_perm hgeneral] at hroom
      obtain ⟨d, hd⟩ := exists_ofItems_eq_ok hqs hroom
      rw [hc, hd]
      exact .ok ⟨describes_of_ofItems hc, describes_of_ofItems hd⟩
    · rw [not_or, Int.not_le] at hroom
      have hxs := ofItems_eq_spanTooWide hps hroom.1 hroom.2
      rw [hgeneral.length_eq, fitsTable_iff_of_perm hgeneral] at hroom
      rw [hxs, ofItems_eq_spanTooWide hqs hroom.1 hroom.2]
      exact .number (.inr rfl)
  · obtain ⟨fault, hfault, htype⟩ := exists_ofItems_eq_error threshold hstands
    simp only [hperm.mem_iff] at hstands
    obtain ⟨other, hother, htype'⟩ := exists_ofItems_eq_error threshold hstands
    rw [hfault, hother]
    exact .type htype htype'

namespace Census.Describes

variable {c d : Census} {inverse : Bool}

/-- A lone member is spelled bare in any order, or blamed for one of its items. -/
theorem barePattern_agree {p : Int} (hc : c.Describes xs) (hd : d.Describes ys)
    (hperm : xs.Perm ys) (hone : pointSet xs = {p}) :
    Agree xs Eq c.barePattern d.barePattern := by
  have hone' : pointSet ys = {p} := pointSet_eq_of_perm hperm ▸ hone
  by_cases hall : ∀ item ∈ xs, item.isCharacter = true
  · have hp : p ∈ pointSet xs := hone ▸ Set.mem_singleton p
    obtain ⟨e, rfl⟩ := CodePoint.inDomain_iff.1 (inDomain_of_characters hall hp)
    rw [hc.barePattern_eq_ok hone hall,
      hd.barePattern_eq_ok hone' fun item hitem => hall item (hperm.mem_iff.2 hitem)]
    exact .ok rfl
  · obtain ⟨item, hitem, hbad, hfind⟩ := exists_first_nonCharacter hall
    simp only [hperm.mem_iff] at hall
    obtain ⟨other, hother, hbad', hfind'⟩ := exists_first_nonCharacter hall
    rw [hc.barePattern_eq_error hone hfind, hd.barePattern_eq_error hone' hfind']
    exact .notCharacter hitem (hperm.mem_iff.2 hother) hbad hbad'

theorem pattern_agree (hc : c.Describes xs) (hd : d.Describes ys) (hperm : xs.Perm ys) :
    Agree xs Eq (c.pattern inverse) (d.pattern inverse) := by
  have hset := pointSet_eq_of_perm hperm
  rcases hc.cases_of_set inverse with rfl | ⟨hne, hmany⟩ | ⟨rfl, p, hone⟩
  · obtain rfl := hperm.nil_eq
    rw [hc.pattern_of_nil, hd.pattern_of_nil]
    exact .ok rfl
  · have hne' : ys ≠ [] := fun hnil => hne (hnil ▸ hperm).eq_nil
    rw [hc.pattern_eq_bracketPattern hne hmany, hd.pattern_eq_bracketPattern hne' (hset ▸ hmany),
      hc.bracketPattern_congr hd hset]
    exact .self fun fault hfault =>
      Token.category_of_spellAll_eq_error (map_eq_error_iff.1 hfault)
  · rw [hc.pattern_of_singleton hone, hd.pattern_of_singleton (hset ▸ hone)]
    exact hc.barePattern_agree hd hperm hone

end Census.Describes

/-! ### Two runs -/

theorem patternByCensus_agree (settings : Settings) (inverse : Bool) (hperm : xs.Perm ys) :
    Agree xs Eq (patternByCensus settings xs inverse).result
      (patternByCensus settings ys inverse).result := by
  rw [patternByCensus_result, patternByCensus_result]
  exact (Census.ofItems_agree settings.threshold hperm).bind fun c d h =>
    h.1.pattern_agree h.2 hperm

theorem patternOf_agree (settings : Settings) (inverse : Bool) (hperm : xs.Perm ys)
    (hlaws : EqualityLaws xs) :
    Agree xs Eq (patternOf settings xs inverse).result (patternOf settings ys inverse).result := by
  unfold patternOf
  cases inverse with
  | true => exact patternByCensus_agree settings true hperm
  | false =>
    -- both runs take the short way, or neither does
    cases huniform : uniform? xs with
    | some first =>
      obtain ⟨other, hother, huniform', halike, halike'⟩ := hlaws.exists_uniform? hperm huniform
      rw [huniform']
      exact spelling_agree (mem_of_uniform?_eq_some huniform) hother halike halike'
    | none =>
      rw [hlaws.uniform?_eq_none hperm huniform]
      exact patternByCensus_agree settings false hperm

/-- Putting items into another order changes neither their pattern nor, if there is none, the kind
of the fault. A bad value or an overflow has the same message, and where an item is blamed for being
no character, it is one of the items, and none. -/
theorem pattern_of_perm (settings : Settings) (inverse : Bool) (hperm : xs.Perm ys)
    (hlaws : EqualityLaws xs) :
    (∃ text, ((Input.many xs).pattern settings inverse).result = .ok text ∧
      ((Input.many ys).pattern settings inverse).result = .ok text) ∨
    ∃ fault other, ((Input.many xs).pattern settings inverse).result = .error fault ∧
      ((Input.many ys).pattern settings inverse).result = .error other ∧
      fault.category ∈ [.invalidArgument, .type, .value, .overflow] ∧
      fault.category = other.category ∧
      (fault.category = .value ∨ fault.category = .overflow → fault.message = other.message) ∧
      (fault.category = .invalidArgument →
        ∃ item ∈ xs, ∃ item' ∈ xs, item.isCharacter = false ∧ item'.isCharacter = false ∧
          fault = .notCharacter item ∧ other = .notCharacter item') := by
  have hagree := patternOf_agree settings inverse hperm hlaws
  rw [Input.pattern_of_members rfl, Input.pattern_of_members rfl]
  generalize (patternOf settings xs inverse).result = x at hagree ⊢
  generalize (patternOf settings ys inverse).result = y at hagree ⊢
  cases hagree with
  | ok h => exact .inl ⟨_, rfl, h ▸ rfl⟩
  | number h =>
    refine .inr ⟨_, _, rfl, rfl, ?_, rfl, fun _ => rfl, ?_⟩
    · rcases h with h | h <;> rw [h] <;> decide
    · intro hargument
      rw [hargument] at h
      cases h <;> contradiction
  | type h h' =>
    refine .inr ⟨_, _, rfl, rfl, by rw [h]; decide, h.trans h'.symm, ?_, ?_⟩
    · intro hnumber
      rw [h] at hnumber
      cases hnumber <;> contradiction
    · intro hargument
      rw [h] at hargument
      contradiction
  | notCharacter hmem hmem' h h' =>
    refine .inr ⟨_, _, rfl, rfl, List.mem_cons_self, rfl, fun _ => rfl, fun _ => ?_⟩
    exact ⟨_, hmem, _, hmem', h, h', rfl, rfl⟩

/-- One point, spelled as a character and as two items that are none. -/
def twins : List Value :=
  [.text [CodePoint.dash], .octets [0x2D], .buffer [0x2D]]

/-- Which of the two bad items is named depends on the order. -/
theorem pattern_of_perm_twins :
    twins.Perm twins.reverse ∧ EqualityLaws twins ∧
      ((∃ text, ((Input.many twins).pattern {} false).result = .ok text ∧
        ((Input.many twins.reverse).pattern {} false).result = .ok text) ∨
      ∃ fault other, ((Input.many twins).pattern {} false).result = .error fault ∧
        ((Input.many twins.reverse).pattern {} false).result = .error other ∧
        fault.category ∈ [.invalidArgument, .type, .value, .overflow] ∧
        fault.category = other.category ∧
        (fault.category = .value ∨ fault.category = .overflow → fault.message = other.message) ∧
        (fault.category = .invalidArgument →
          ∃ item ∈ twins, ∃ item' ∈ twins, item.isCharacter = false ∧ item'.isCharacter = false ∧
            fault = .notCharacter item ∧ other = .notCharacter item')) := by
  have hperm : twins.Perm twins.reverse := twins.reverse_perm.symm
  have hlaws : EqualityLaws twins := ⟨by decide, by decide⟩
  exact ⟨hperm, hlaws, pattern_of_perm {} false hperm hlaws⟩

end Perm

end CharClass
