import CharClass.Proofs.Faults

/-!
# The views of a census tally

A census shows its members in five ways: the items behind each point, the points that act by their
place, the other points in order, all points together, and the only point if there is just one. They
all speak of the same members. This can be seen from the way in which a roll of the members is
called, one after the other, where each step enters the item under its point, and the point with one
of the three or among the others. Every step keeps these entries in agreement with the members
called so far, and at the end they are those of the census.

## Main definitions

* `Files`: entries that hold the items of some members under their points
* `Roll`, `Roll.enter`, `Roll.ofItems`: the roll, one step of it, and a whole roll
* `Roll.Keeps`: what a roll knows of the members called so far
* `Census.Tallies`: the views of a census agree with its items and with each other

## Main statements

* `Roll.Keeps.enter`, `Roll.Keeps.foldlM`: one step, and a whole roll
* `Files.perm`: two files of the same members
* `census_tallies`: every census tallies, and no failure comes from looking one up
-/

namespace CharClass

/-! ### Items under their points -/

/-- Entries that hold the items of some members under their points, each point in one entry and the
items in order of arrival. -/
structure Files (entries : List (Int × List Value)) (members : List Member) : Prop where
  nodup_keys : (entries.map Prod.fst).Nodup
  mem_keys_iff (p : Int) : p ∈ entries.map Prod.fst ↔ p ∈ members.map Member.point
  lookup_eq (p : Int) :
    (entries.lookup p).getD [] = (members.filter fun m => m.point == p).map Member.item

/-- Put an item under its point, behind those that are there already. -/
def file : List (Int × List Value) → Int → Value → List (Int × List Value)
  | [], p, item => [(p, [item])]
  | (q, behind) :: entries, p, item =>
    if q = p then (q, behind ++ [item]) :: entries else (q, behind) :: file entries p item

section Files

variable {entries others : List (Int × List Value)} {members : List Member} {p q : Int}
  {behind : List Value}

theorem lookup_eq_some_iff_mem (h : (entries.map Prod.fst).Nodup) :
    entries.lookup p = some behind ↔ (p, behind) ∈ entries := by
  induction entries with
  | nil => simp
  | cons entry entries ih =>
    obtain ⟨q, others⟩ := entry
    rw [List.map_cons, List.nodup_cons] at h
    rw [List.lookup_cons, List.mem_cons, Prod.mk.injEq]
    by_cases hp : p = q
    · subst q
      have hnone : (p, behind) ∉ entries := fun hmem => h.1 (List.mem_map.2 ⟨_, hmem, rfl⟩)
      simp [hnone, eq_comm]
    · rw [beq_eq_false_iff_ne.2 hp, ih h.2]
      simp [hp]

theorem files_nil : Files [] [] where
  nodup_keys := List.nodup_nil
  mem_keys_iff _ := Iff.rfl
  lookup_eq _ := rfl

/-- The items behind a point that was found. -/
theorem Files.mem_iff (h : Files entries members) :
    (p, behind) ∈ entries ↔
      p ∈ members.map Member.point ∧
        behind = (members.filter fun m => m.point == p).map Member.item := by
  rw [← lookup_eq_some_iff_mem h.nodup_keys, ← h.mem_keys_iff, ← h.lookup_eq]
  constructor
  · intro hlookup
    have hmem := (lookup_eq_some_iff_mem h.nodup_keys).1 hlookup
    exact ⟨List.mem_map_of_mem hmem, by rw [hlookup, Option.getD_some]⟩
  · rintro ⟨hp, rfl⟩
    obtain ⟨⟨q, found⟩, hentry, rfl⟩ := List.mem_map.1 hp
    rw [(lookup_eq_some_iff_mem h.nodup_keys).2 hentry, Option.getD_some]

/-- Two files of the same members differ in the order of their entries only. -/
theorem Files.perm (h : Files entries members) (h' : Files others members) :
    entries.Perm others := by
  refine (List.perm_ext_iff_of_nodup h.nodup_keys.of_map h'.nodup_keys.of_map).2 ?_
  rintro ⟨p, behind⟩
  rw [h.mem_iff, h'.mem_iff]

theorem mem_keys_file_iff {item : Value} :
    q ∈ (file entries p item).map Prod.fst ↔ q ∈ entries.map Prod.fst ∨ q = p := by
  induction entries with
  | nil => simp [file]
  | cons entry entries ih =>
    rw [file]
    split
    · next hp =>
      subst p
      rw [List.map_cons, List.map_cons, List.mem_cons]
      tauto
    · rw [List.map_cons, List.map_cons, List.mem_cons, List.mem_cons, ih, or_assoc]

theorem nodup_keys_file {item : Value} (h : (entries.map Prod.fst).Nodup) :
    ((file entries p item).map Prod.fst).Nodup := by
  induction entries with
  | nil => exact List.nodup_singleton p
  | cons entry entries ih =>
    rw [file]
    split
    · exact h
    · next hp =>
      rw [List.map_cons, List.nodup_cons] at h ⊢
      refine ⟨?_, ih h.2⟩
      rw [mem_keys_file_iff, not_or]
      exact ⟨h.1, hp⟩

theorem lookup_file (entries : List (Int × List Value)) (p q : Int) (item : Value) :
    ((file entries p item).lookup q).getD [] =
      (entries.lookup q).getD [] ++ if p = q then [item] else [] := by
  induction entries with
  | nil =>
    by_cases hq : p = q
    · simp [file, hq]
    · simp [file, hq, List.lookup_cons, beq_eq_false_iff_ne.2 (Ne.symm hq)]
  | cons entry entries ih =>
    obtain ⟨r, behind⟩ := entry
    rw [file]
    by_cases hr : q = r
    · subst r
      split
      · next hp => simp [hp]
      · next hp => simp [Ne.symm hp]
    · split
      · next hp =>
        subst p
        simp [List.lookup_cons, beq_eq_false_iff_ne.2 hr, Ne.symm hr]
      · rw [List.lookup_cons, List.lookup_cons, beq_eq_false_iff_ne.2 hr, ih]

/-- One more member in a file. -/
theorem Files.file (h : Files entries members) (m : Member) :
    Files (file entries m.point m.item) (members ++ [m]) where
  nodup_keys := nodup_keys_file h.nodup_keys
  mem_keys_iff p := by
    rw [mem_keys_file_iff, h.mem_keys_iff, List.map_append, List.mem_append, List.map_singleton,
      List.mem_singleton]
  lookup_eq p := by
    rw [lookup_file, h.lookup_eq, List.filter_append, List.map_append]
    congr 1
    by_cases hp : m.point = p
    · simp [hp]
    · simp [hp]

end Files

theorem Census.files_items (c : Census) : Files c.items c.members where
  nodup_keys := List.pairwise_map.2 (c.pairwise_items.imp Int.ne_of_lt)
  mem_keys_iff := c.mem_keys_items_iff
  lookup_eq := c.itemsAt_eq

/-! ### The roll -/

/-- The entries of a roll: which of the three have been called, the other points in order of
arrival, and the items under their points. -/
structure Roll where
  placed : Placed
  general : List Int
  behind : List (Int × List Value)

/-- One more point, which may be one of the three. -/
def Placed.note (placed : Placed) (p : Int) : Placed where
  closeBracket := placed.closeBracket || p == CodePoint.closeBracket.val
  caret := placed.caret || p == CodePoint.caret.val
  dash := placed.dash || p == CodePoint.dash.val

theorem Placed.note_ofPoints (points : List Int) (p : Int) :
    (ofPoints points).note p = ofPoints (points ++ [p]) := by
  have hcontains (q : Int) : (points ++ [p]).contains q = (points.contains q || p == q) := by
    rw [Bool.eq_iff_iff, List.contains_iff_mem, Bool.or_eq_true, List.contains_iff_mem, beq_iff_eq,
      List.mem_append, List.mem_singleton, eq_comm (a := q)]
  simp only [note, ofPoints, hcontains]

namespace Roll

/-- A roll before anybody is called. -/
def empty : Roll where
  placed := ⟨false, false, false⟩
  general := []
  behind := []

/-- One step: the item goes under its point, and the point to the three or to the others. -/
def enter (r : Roll) (m : Member) : Roll where
  placed := r.placed.note m.point
  general := if isPlaced m.point then r.general else r.general ++ [m.point]
  behind := file r.behind m.point m.item

/-- The next item, which must have a point. -/
def next (r : Roll) (item : Value) : Except Fault Roll :=
  (Member.ofItem item).map r.enter

def ofItems (items : List Value) : Except Fault Roll :=
  items.foldlM next empty

/-- What a roll knows of the members called so far. -/
structure Keeps (r : Roll) (seen : List Member) : Prop where
  placed_eq : r.placed = .ofPoints (seen.map Member.point)
  general_eq : r.general = generalPoints seen
  files : Files r.behind seen

variable {r : Roll} {seen members : List Member} {rest : List Value}

theorem keeps_empty : empty.Keeps [] where
  placed_eq := rfl
  general_eq := rfl
  files := files_nil

namespace Keeps

/-- One step, whether its point is one of the three, a new one, or one that was called before. -/
theorem enter (h : r.Keeps seen) (m : Member) : (r.enter m).Keeps (seen ++ [m]) where
  placed_eq := by
    show r.placed.note m.point = _
    rw [h.placed_eq, Placed.note_ofPoints, List.map_append]
    rfl
  general_eq := by
    show (if isPlaced m.point then r.general else r.general ++ [m.point]) = _
    rw [h.general_eq, generalPoints, generalPoints, List.map_append, List.filter_append]
    cases hp : isPlaced m.point <;> simp [hp]
  files := h.files.file m

/-- A whole roll, by induction on the members that are left. -/
theorem foldlM (h : r.Keeps seen) (hrest : rest.mapM Member.ofItem = .ok members) :
    ∃ r', rest.foldlM Roll.next r = .ok r' ∧ r'.Keeps (seen ++ members) := by
  rw [mapM_eq_ok_iff] at hrest
  induction hrest generalizing r seen with
  | nil => exact ⟨r, rfl, by rwa [List.append_nil]⟩
  | @cons item m rest members hm _ ih =>
    obtain ⟨r', hr', hkeeps⟩ := ih (h.enter m)
    refine ⟨r', ?_, by rwa [List.append_assoc] at hkeeps⟩
    rw [List.foldlM_cons, Roll.next, hm]
    exact hr'

end Keeps

end Roll

/-! ### The tally -/

/-- A census tallies if its views agree with its items and with each other. -/
structure Census.Tallies (c : Census) (items : List Value) : Prop where
  /-- No point has two entries. -/
  pairwise_items : c.items.Pairwise fun a b => a.1 < b.1
  /-- Behind each point of the items stand the items with that point, in order of arrival. -/
  mem_items (p : Int) (behind : List Value) :
    (p, behind) ∈ c.items ↔
      p ∈ pointSet items ∧ behind = items.filter fun item => item.StandsFor p
  /-- No item is lost and none comes twice. -/
  items_perm : (c.items.flatMap Prod.snd).Perm items
  pairwise_points : c.points.Pairwise (· < ·)
  points_apart : ∀ p ∈ c.points, p ≠ CodePoint.closeBracket.val ∧ p ≠ CodePoint.caret.val ∧
    p ≠ CodePoint.dash.val
  /-- The points with items behind them are the general ones and those of the three. -/
  keys_perm : (c.items.map Prod.fst).Perm
    (c.points ++ c.placed.codePoints.map fun d => (d.val : Int))
  disjoint : c.points.Disjoint (c.placed.codePoints.map fun d => (d.val : Int))
  size_eq : c.size = c.items.length
  /-- If there is one point, it is found among the general ones or among the three, all items stand
  behind it, and the check of them fails exactly if one is no character. -/
  sole : c.size = 1 → ∃ p, c.onlyPoint = .ok p ∧
    (c.points = [p] ∧ c.placed.codePoints = [] ∨
      c.points = [] ∧ ∃ d, c.placed.codePoints = [d] ∧ p = d.val) ∧
    c.items = [(p, items)] ∧ c.items.lookup p = some items ∧
    (c.vetOnly = .ok () ↔ ∀ item ∈ items, item.isCharacter = true)
  /-- Otherwise it cannot be asked for. -/
  not_sole : c.size ≠ 1 → c.onlyPoint = .error .notSole ∧ c.vetOnly = .error .notSole

namespace Census

variable {c : Census} {items : List Value} {threshold p : Int}

theorem onlyPoint_eq_notSole (hsize : c.size ≠ 1) : c.onlyPoint = .error .notSole := by
  unfold onlyPoint
  split
  · next p hp => exact absurd (congrArg List.length hp) hsize
  · rfl

theorem vetOnly_eq_notSole (hsize : c.size ≠ 1) : c.vetOnly = .error .notSole := by
  rw [vetOnly, onlyPoint_eq_notSole hsize]
  rfl

namespace Describes

theorem mem_keys_iff (h : c.Describes items) :
    p ∈ c.members.map Member.point ↔ p ∈ pointSet items :=
  (mem_pointSet_iff_of_forall₂ h.standsFor).symm

/-- The members with a point are the items that stand for it. -/
theorem filter_members_eq (h : c.Describes items) (p : Int) :
    (c.members.filter fun m => m.point == p).map Member.item =
      items.filter fun item => item.StandsFor p := by
  have hstands : ∀ m ∈ c.members, m.item.StandsFor m.point := by
    have hmembers := h.standsFor
    rwa [← h.items_eq, List.forall₂_map_left_iff, List.forall₂_map_right_iff,
      List.forall₂_same] at hmembers
  conv_rhs => rw [← h.items_eq, List.filter_map]
  congr 1
  refine List.filter_congr fun m hm => ?_
  rw [Bool.eq_iff_iff, beq_iff_eq, Function.comp_apply, decide_eq_true_iff]
  exact ⟨fun hp => hp ▸ hstands m hm, fun hp => (hstands m hm).unique hp⟩

theorem mem_items_iff (h : c.Describes items) (p : Int) (behind : List Value) :
    (p, behind) ∈ c.items ↔
      p ∈ pointSet items ∧ behind = items.filter fun item => item.StandsFor p := by
  rw [c.files_items.mem_iff, h.mem_keys_iff, h.filter_members_eq]

theorem keys_perm (h : c.Describes items) : (c.items.map Prod.fst).Perm c.codePoints := by
  refine (List.perm_ext_iff_of_nodup c.files_items.nodup_keys h.nodup_codePoints).2 fun p => ?_
  rw [c.mem_keys_items_iff, h.mem_keys_iff, h.mem_codePoints]

theorem size_eq_length_items (h : c.Describes items) : c.size = c.items.length := by
  rw [size, ← h.keys_perm.length_eq, List.length_map]

/-- If there is one point, all items stand behind it. -/
theorem items_eq_singleton (h : c.Describes items) (hone : pointSet items = {p}) :
    c.items = [(p, items)] := by
  have hsize := h.size_eq_one_iff.2 ⟨p, hone⟩
  rw [h.size_eq_length_items, List.length_eq_one_iff] at hsize
  obtain ⟨⟨q, behind⟩, hentry⟩ := hsize
  have hlookup := h.itemsAt_eq_of_singleton hone
  have hq : q ∈ pointSet items :=
    ((h.mem_items_iff q behind).1 (hentry ▸ List.mem_cons_self)).1
  rw [hone, Set.mem_singleton_iff] at hq
  subst q
  rw [itemsAt, hentry, List.lookup_cons_self, Option.getD_some] at hlookup
  rw [hentry, hlookup]

theorem tallies (h : c.Describes items) : c.Tallies items where
  pairwise_items := c.pairwise_items
  mem_items := h.mem_items_iff
  items_perm := by
    have hperm := c.flatMap_items_perm
    rwa [h.items_eq] at hperm
  pairwise_points := h.enumerates.increasing
  points_apart p hp := by
    have hplaced := (h.mem_points.1 hp).2
    rwa [← Bool.not_eq_true, isPlaced_iff, not_or, not_or] at hplaced
  keys_perm := h.keys_perm
  disjoint := (List.nodup_append'.1 h.nodup_codePoints).2.2
  size_eq := h.size_eq_length_items
  sole hsize := by
    obtain ⟨p, hone⟩ := h.size_eq_one_iff.1 hsize
    have hitems := h.items_eq_singleton hone
    refine ⟨p, h.onlyPoint_eq_ok_iff.2 hone, ?_, hitems, ?_, h.vetOnly_eq_ok_iff hone⟩
    · have hcodePoints := h.codePoints_eq_singleton_iff.2 hone
      rcases List.append_eq_singleton_iff.1 hcodePoints with ⟨hnil, hplaced⟩ | ⟨hpoints, hplaced⟩
      · obtain ⟨d, hd, rfl⟩ := List.map_eq_singleton_iff.1 hplaced
        exact .inr ⟨hnil, d, hd, rfl⟩
      · exact .inl ⟨hpoints, List.map_eq_nil_iff.1 hplaced⟩
    · rw [hitems, List.lookup_cons_self]
  not_sole hsize := ⟨onlyPoint_eq_notSole hsize, vetOnly_eq_notSole hsize⟩

end Describes

end Census

section Census

variable {c : Census} {items : List Value} {threshold : Int}

/-- A census that was taken tallies with its items. A roll of the items ends with the same entries.
And whatever fails on the way to a pattern, it is never that the only point was asked for in vain,
or that something was not found. -/
theorem census_tallies (hc : Census.ofItems threshold items = .ok c) :
    c.Tallies items ∧
      (∃ r, Roll.ofItems items = .ok r ∧ r.placed = c.placed ∧
        r.general = generalPoints c.members ∧ r.behind.Perm c.items) ∧
      ∀ settings inverse fault,
        ((Input.many items).pattern settings inverse).result = .error fault →
          fault.category ≠ .assertion ∧ fault.category ≠ .index := by
  refine ⟨(Census.describes_of_ofItems hc).tallies, ?_, fun settings inverse fault hfault => ?_⟩
  · obtain ⟨hmembers, -, -⟩ := Census.ofItems_eq_ok_iff.1 hc
    obtain ⟨r, hr, hkeeps⟩ := Roll.keeps_empty.foldlM hmembers
    exact ⟨r, hr, hkeeps.placed_eq, hkeeps.general_eq, hkeeps.files.perm c.files_items⟩
  · rw [Input.pattern_of_members rfl] at hfault
    cases fails_of_patternOf hfault with
    | type h => simp [h]
    | number h => rcases h with h | h <;> simp [h]
    | blame => simp [Fault.category]

/-- Two of the three, and two other points, one of them in two spellings. -/
def called : List Value :=
  [.octets [0x5E], .int 0x59, .text [CodePoint.openBracket], .int 0x5D, .text [CodePoint.caret],
    .int 0x5B]

/-- Their census, by a table of marks. -/
def calledCensus : Census where
  members := [⟨0x5E, .octets [0x5E]⟩, ⟨0x59, .int 0x59⟩, ⟨0x5B, .text [CodePoint.openBracket]⟩,
    ⟨0x5D, .int 0x5D⟩, ⟨0x5E, .text [CodePoint.caret]⟩, ⟨0x5B, .int 0x5B⟩]
  strategy := .marks
  points := [0x59, 0x5B]

theorem census_tallies_called :
    Census.ofItems 2 called = .ok calledCensus ∧ calledCensus.Tallies called ∧
      (∃ r, Roll.ofItems called = .ok r ∧ r.placed = calledCensus.placed ∧
        r.general = generalPoints calledCensus.members ∧ r.behind.Perm calledCensus.items) ∧
      ∀ settings inverse fault,
        ((Input.many called).pattern settings inverse).result = .error fault →
          fault.category ≠ .assertion ∧ fault.category ≠ .index := by
  have hcensus : Census.ofItems 2 called = .ok calledCensus :=
    Census.ofItems_eq_ok_iff.2 ⟨rfl, rfl, rfl⟩
  exact ⟨hcensus, census_tallies hcensus⟩

end Census

end CharClass
