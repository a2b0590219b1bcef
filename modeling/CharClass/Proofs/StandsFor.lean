import CharClass.Input
import CharClass.Proofs.Fallible
import Mathlib.Data.Set.Subsingleton

/-!
# Which items stand for which points

`StandsFor` says what a point of an item is without computing it. An item stands for at most one
point, and a character stands for its own code point. Items that stand for points and are alike are
one and the same item: the equality of different kinds of numbers never joins them.

## Main definitions

* `Value.StandsFor`: an item and its point
* `pointSet`: the points that the items of a list stand for
* `CodePoint.InDomain`: the points that are code points

## Main statements

* `Value.point_eq_ok_iff`: `StandsFor` is what `Value.point` computes
* `Value.StandsFor.exists_character`: what a character stands for
* `Value.eq_of_alike`, `eq_first_of_uniform?`: items that are all alike
-/

namespace CharClass

/-- A point that is the number of a code point. -/
def CodePoint.InDomain (point : Int) : Prop :=
  0 ≤ point ∧ point ≤ CodePoint.greatest

instance (point : Int) : Decidable (CodePoint.InDomain point) :=
  inferInstanceAs (Decidable (_ ∧ _))

theorem CodePoint.inDomain_val (c : CodePoint) : CodePoint.InDomain c.val := by
  have hc := c.isLt
  unfold CodePoint.InDomain CodePoint.greatest
  omega

theorem CodePoint.inDomain_iff {point : Int} :
    CodePoint.InDomain point ↔ ∃ c : CodePoint, point = c.val := by
  constructor
  · rintro ⟨hlow, hhigh⟩
    unfold CodePoint.greatest at hhigh
    exact ⟨⟨point.toNat, by omega⟩, by simp only; omega⟩
  · rintro ⟨c, rfl⟩
    exact c.inDomain_val

/-- A point without a code point is a bad value, or too large a number. -/
theorem CodePoint.category_of_ofPoint_eq_error {point : Int} {fault : Fault}
    (h : CodePoint.ofPoint point = .error fault) :
    fault.category = .value ∨ fault.category = .overflow := by
  unfold CodePoint.ofPoint at h
  split at h
  · cases h
  · split at h
    · cases h
      exact .inl rfl
    · cases h
      exact .inr rfl

namespace Value

/-- An item and the point that it stands for: a whole number stands for itself, a truth value for
`0` or `1`, and a text or octets of length one for their only element. -/
inductive StandsFor : Value → Int → Prop where
  | int (n : Int) : StandsFor (int n) n
  | bool (b : Bool) : StandsFor (bool b) b.toInt
  | text (c : CodePoint) : StandsFor (text [c]) c.val
  | octets (o : UInt8) : StandsFor (octets [o]) o.toNat
  | buffer (o : UInt8) : StandsFor (buffer [o]) o.toNat

variable {item other : Value} {p q : Int} {c : CodePoint}

/-- The point of an item is computed exactly if it stands for one. -/
theorem point_eq_ok_iff : item.point = .ok p ↔ item.StandsFor p := by
  constructor
  · intro h
    unfold point at h
    split at h <;> cases h <;> constructor
  · rintro (_ | _ | _ | _ | _) <;> rfl

instance (item : Value) (p : Int) : Decidable (item.StandsFor p) :=
  decidable_of_iff (item.point.toOption = some p) <| by
    rw [← point_eq_ok_iff]
    cases item.point <;> simp [Except.toOption]

/-- That an item has no point is a matter of its type. -/
theorem category_of_point_eq_error {fault : Fault} (h : item.point = .error fault) :
    fault.category = .type := by
  unfold point at h
  split at h <;> cases h <;> rfl

/-- An item stands for one point at most. -/
theorem StandsFor.unique (hp : item.StandsFor p) (hq : item.StandsFor q) : p = q :=
  Except.ok.inj ((point_eq_ok_iff.2 hp).symm.trans (point_eq_ok_iff.2 hq))

theorem standsFor_of_character? (h : item.character? = some c) : item.StandsFor c.val :=
  point_eq_ok_iff.1 (point_of_character? h)

/-- If an item that stands for a point is a character, then the point is its code point. -/
theorem StandsFor.exists_character (hp : item.StandsFor p) (hitem : item.isCharacter = true) :
    ∃ c : CodePoint, item.character? = some c ∧ p = c.val := by
  obtain ⟨c, hc⟩ := Option.isSome_iff_exists.1 hitem
  exact ⟨c, hc, hp.unique (standsFor_of_character? hc)⟩

/-- Nothing is wrong with the spelling of an item but that it is no character. -/
theorem spelling_eq_error_iff {fault : Fault} :
    item.spelling = .error fault ↔ item.isCharacter = false ∧ fault = .notCharacter item := by
  rw [spelling, isCharacter]
  cases item.character? <;> simp [eq_comm]

private theorem ofInt_injective {m n : Int} (h : Number.ofInt m = Number.ofInt n) : m = n := by
  have hrat := congrArg Dyadic.toRat (Number.finite.inj h)
  have hm : (Dyadic.ofInt m).toRat = m := Dyadic.toRat_intCast m
  have hn : (Dyadic.ofInt n).toRat = n := Dyadic.toRat_intCast n
  rw [hm, hn] at hrat
  exact_mod_cast hrat

/-- An item that is alike an item with a point is that item: within one kind, equality sees all
there is to a number, a text or octets. -/
theorem eq_of_alike (h : item.alike other = true) (hp : other.StandsFor p) : item = other := by
  rw [alike, equal, Bool.and_eq_true, Bool.and_eq_true, beq_iff_eq] at h
  obtain ⟨hkind, -, hsame⟩ := h
  -- one case for each kind: the others are ruled out since the kinds agree
  cases hp <;> cases item <;> simp only [kind, reduceCtorEq] at hkind
  case int.int m =>
    have hnumber : Number.ofInt m = Number.ofInt p := by
      simpa [same, sameEssence, essence?] using hsame
    rw [ofInt_injective hnumber]
  case bool.bool b a =>
    have hnumber : Number.ofInt a.toInt = Number.ofInt b.toInt := by
      simpa [same, sameEssence, essence?] using hsame
    have hint := ofInt_injective hnumber
    cases a <;> cases b <;> first | rfl | cases hint
  case text.text c content =>
    have hcontent : content = [c] := by simpa [same, sameEssence, essence?] using hsame
    rw [hcontent]
  case octets.octets o content =>
    have hcontent : content = [o] := by simpa [same, sameEssence, essence?] using hsame
    rw [hcontent]
  case buffer.buffer o content =>
    have hcontent : content = [o] := by simpa [same, sameEssence, essence?] using hsame
    rw [hcontent]

end Value

section Uniform

variable {items : List Value} {first : Value} {p : Int}

theorem uniform?_eq_some_iff :
    uniform? items = some first ↔
      items.head? = some first ∧ ∀ item ∈ items, item.alike first = true := by
  cases items with
  | nil => simp [uniform?]
  | cons item rest =>
    rw [uniform?, List.head?_cons]
    split
    · next hall =>
      rw [List.all_eq_true] at hall
      constructor
      · intro h
        exact ⟨h, Option.some.inj h ▸ hall⟩
      · exact And.left
    · next hall =>
      rw [List.all_eq_true] at hall
      constructor
      · intro h
        cases h
      · rintro ⟨h, halike⟩
        exact absurd (Option.some.inj h ▸ halike) hall

/-- If all items are alike and the first has a point, then the list repeats the first. -/
theorem eq_first_of_uniform? (h : uniform? items = some first) (hp : first.StandsFor p) :
    ∀ item ∈ items, item = first :=
  fun item hitem => Value.eq_of_alike ((uniform?_eq_some_iff.1 h).2 item hitem) hp

theorem mem_of_uniform?_eq_some (h : uniform? items = some first) : first ∈ items :=
  List.mem_of_mem_head? (uniform?_eq_some_iff.1 h).1

end Uniform

/-- The points that the items of a list stand for. -/
def pointSet (items : List Value) : Set Int :=
  {p | ∃ item ∈ items, item.StandsFor p}

section PointSet

variable {items : List Value} {points : List Int} {p : Int}

theorem mem_pointSet_iff_of_forall₂ (h : List.Forall₂ Value.StandsFor items points) :
    p ∈ pointSet items ↔ p ∈ points := by
  obtain ⟨hitems, hpoints⟩ := exists_of_forall₂ h
  constructor
  · rintro ⟨item, hitem, hp⟩
    obtain ⟨q, hq, hitemq⟩ := hitems item hitem
    exact hp.unique hitemq ▸ hq
  · exact hpoints p

theorem exists_points (h : ∀ item ∈ items, ∃ p, item.StandsFor p) :
    ∃ points, List.Forall₂ Value.StandsFor items points := by
  induction items with
  | nil => exact ⟨[], .nil⟩
  | cons item items ih =>
    obtain ⟨p, hp⟩ := h item List.mem_cons_self
    obtain ⟨points, hpoints⟩ := ih fun other hother => h other (List.mem_cons_of_mem _ hother)
    exact ⟨p :: points, .cons hp hpoints⟩

/-- Items that all stand for points have one point at most exactly if they share it. -/
theorem subsingleton_pointSet_iff (h : ∀ item ∈ items, ∃ p, item.StandsFor p) :
    (pointSet items).Subsingleton ↔ ∃ p, ∀ item ∈ items, item.StandsFor p := by
  constructor
  · intro hsub
    cases items with
    | nil => exact ⟨0, fun item hitem => by cases hitem⟩
    | cons first rest =>
      obtain ⟨p, hp⟩ := h first List.mem_cons_self
      refine ⟨p, fun item hitem => ?_⟩
      obtain ⟨q, hq⟩ := h item hitem
      exact hsub ⟨first, List.mem_cons_self, hp⟩ ⟨item, hitem, hq⟩ ▸ hq
  · rintro ⟨p, hp⟩ q ⟨item, hitem, hq⟩ r ⟨other, hother, hr⟩
    rw [hq.unique (hp item hitem), hr.unique (hp other hother)]

/-- Items that share a point have that point only. -/
theorem pointSet_eq_singleton (hne : items ≠ []) (h : ∀ item ∈ items, item.StandsFor p) :
    pointSet items = {p} := by
  obtain ⟨first, hfirst⟩ := List.exists_mem_of_ne_nil items hne
  ext q
  rw [Set.mem_singleton_iff]
  constructor
  · rintro ⟨item, hitem, hq⟩
    exact hq.unique (h item hitem)
  · rintro rfl
    exact ⟨first, hfirst, h first hfirst⟩

theorem exists_points_of_characters (h : ∀ item ∈ items, item.isCharacter = true) :
    ∃ points, List.Forall₂ Value.StandsFor items points := by
  apply exists_points
  intro item hitem
  obtain ⟨c, hc⟩ := Option.isSome_iff_exists.1 (h item hitem)
  exact ⟨c.val, Value.standsFor_of_character? hc⟩

theorem inDomain_of_characters (h : ∀ item ∈ items, item.isCharacter = true)
    (hp : p ∈ pointSet items) : CodePoint.InDomain p := by
  obtain ⟨item, hitem, hitemp⟩ := hp
  obtain ⟨c, -, rfl⟩ := hitemp.exists_character (h item hitem)
  exact c.inDomain_val

/-- If not all items are characters, some item is the first that is none. -/
theorem exists_first_nonCharacter (h : ¬∀ item ∈ items, item.isCharacter = true) :
    ∃ item ∈ items, item.isCharacter = false ∧
      items.find? (fun item => !item.isCharacter) = some item := by
  cases hfind : items.find? fun item => !item.isCharacter with
  | none => exact absurd (by simpa using hfind) h
  | some item =>
    have hbad := List.find?_some hfind
    exact ⟨item, List.mem_of_find?_eq_some hfind, by simpa using hbad, rfl⟩

end PointSet

end CharClass
