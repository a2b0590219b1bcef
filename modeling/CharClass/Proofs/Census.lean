import CharClass.Census
import CharClass.Proofs.Enumeration
import CharClass.Proofs.Groups
import CharClass.Proofs.StandsFor

/-!
# What a census says about its items

A census that was taken of some items holds those items in order of arrival, each with its point,
and the distinct general points in increasing order. `Census.Describes` states this once. All else
that a census answers follows from it, and so depends on the set of points alone: the distinct
points, which of the three placed ones are members, the size, the only point, and the tokens. The
exception is the check of the items behind the only point, which looks at all items again.

## Main definitions

* `Census.Describes`: a census belongs to a list of items

## Main statements

* `Census.describes_of_ofItems`, `Census.exists_ofItems_eq_ok`: what a census is, and when there
  is one
* `Census.itemsAt_eq`, `Census.mem_keys_items_iff`, `Census.flatMap_items_perm`: the items behind a
  point, in order of arrival
* `Census.Describes.mem_codePoints`, `Census.Describes.onlyPoint_eq_ok_iff`: the points of a census
* `Census.Describes.vetOnly_eq`: the check of the only member
-/

namespace CharClass

/-! ### The items behind a point -/

section Groups

variable {p : Int} {members : List Member}

private theorem point_le_trans (a b c : Member) (hab : decide (a.point ≤ b.point) = true)
    (hbc : decide (b.point ≤ c.point) = true) : decide (a.point ≤ c.point) = true := by
  simp only [decide_eq_true_eq] at hab hbc ⊢
  exact Int.le_trans hab hbc

private theorem point_le_total (a b : Member) :
    (decide (a.point ≤ b.point) || decide (b.point ≤ a.point)) = true := by
  simp only [Bool.or_eq_true, decide_eq_true_eq]
  exact Int.le_total a.point b.point

/-- The sort is stable: it keeps the order of members with one point. -/
private theorem filter_mergeSort_point (members : List Member) (p : Int) :
    (members.mergeSort fun a b => a.point ≤ b.point).filter (fun m => m.point == p) =
      members.filter fun m => m.point == p := by
  have hpair : (members.filter fun m => m.point == p).Pairwise fun a b =>
      decide (a.point ≤ b.point) = true := by
    apply List.pairwise_of_forall_mem_list
    intro a ha b hb
    have ha' := eq_of_beq (List.mem_filter.1 ha).2
    have hb' := eq_of_beq (List.mem_filter.1 hb).2
    simp only [ha', hb', Int.le_refl, decide_true]
  have hsub := (List.sublist_mergeSort point_le_trans point_le_total hpair
    List.filter_sublist).filter fun m => m.point == p
  simp only [List.filter_filter, Bool.and_self] at hsub
  -- a sublist of the same length is the whole list
  refine (hsub.eq_of_length ?_).symm
  exact (((List.mergeSort_perm members _).filter _).length_eq).symm

/-- What a group of members with one point contributes to the items behind each point. -/
private def groupItems (group : List Member) : Option (Int × List Value) :=
  group.head?.map fun m => (m.point, group.map Member.item)

/-- Members in groups of one point each, with the points increasing from group to group. -/
private structure PointGroups (groups : List (List Member)) : Prop where
  nonempty : [] ∉ groups
  onePoint : ∀ group ∈ groups, ∀ m ∈ group, ∀ n ∈ group, m.point = n.point
  increasing : groups.Pairwise fun g h => ∀ m ∈ g, ∀ n ∈ h, m.point < n.point

/-- Whatever comes behind a group of a sorted list has a greater point than the group. -/
private theorem point_lt_of_mem_later {m n : Member} {group : List Member}
    {groups : List (List Member)} (hgroup : ∀ m ∈ group, ∀ n ∈ group, m.point = n.point)
    (hbreak : (group :: groups).IsChain fun g h =>
      ∃ hg hh, (g.getLast hg).point ≠ (h.head hh).point)
    (hsorted : (group :: groups).flatten.Pairwise fun a b => a.point ≤ b.point)
    (hm : m ∈ group) (hn : n ∈ groups.flatten) : m.point < n.point := by
  obtain ⟨hg, first, hne, hstep, hfirst⟩ :=
    exists_break (B := fun a b : Member => a.point ≠ b.point) hbreak hsorted hn
  have hsame : m.point = (group.getLast hg).point := hgroup m hm _ (List.getLast_mem hg)
  rcases hfirst with rfl | hfirst <;> omega

private theorem pairwise_point_lt {groups : List (List Member)}
    (hgroup : ∀ group ∈ groups, ∀ m ∈ group, ∀ n ∈ group, m.point = n.point)
    (hbreak : groups.IsChain fun g h => ∃ hg hh, (g.getLast hg).point ≠ (h.head hh).point)
    (hsorted : groups.flatten.Pairwise fun a b => a.point ≤ b.point) :
    groups.Pairwise fun g h => ∀ m ∈ g, ∀ n ∈ h, m.point < n.point := by
  induction groups with
  | nil => exact .nil
  | cons group groups ih =>
    rw [List.forall_mem_cons] at hgroup
    refine List.pairwise_cons.2 ⟨fun later hlater m hm n hn => ?_, ?_⟩
    · exact point_lt_of_mem_later hgroup.1 hbreak hsorted hm
        (List.mem_flatten.2 ⟨later, hlater, hn⟩)
    · exact ih hgroup.2 hbreak.tail (List.pairwise_append.1 hsorted).2.1

private theorem pointGroups_splitBy {sorted : List Member}
    (hsorted : sorted.Pairwise fun a b => a.point ≤ b.point) :
    PointGroups (sorted.splitBy fun a b => a.point == b.point) := by
  have hgroup : ∀ group ∈ sorted.splitBy fun a b => a.point == b.point,
      ∀ m ∈ group, ∀ n ∈ group, m.point = n.point := by
    intro group hmem m hm n hn
    have : IsTrans Member fun a b => a.point = b.point := ⟨fun _ _ _ => Eq.trans⟩
    have : Std.Symm fun a b : Member => a.point = b.point := ⟨fun _ _ => Eq.symm⟩
    have hchain := (List.isChain_of_mem_splitBy hmem).imp fun _ _ => eq_of_beq
    exact List.Pairwise.forall_of_forall (R := fun a b : Member => a.point = b.point)
      (fun _ _ => rfl) hchain.pairwise hm hn
  refine ⟨List.nil_notMem_splitBy _ _, hgroup, pairwise_point_lt hgroup ?_ ?_⟩
  · refine (List.isChain_getLast_head_splitBy _ sorted).imp ?_
    rintro g h ⟨hg, hh, hne⟩
    exact ⟨hg, hh, by simpa using hne⟩
  · rwa [List.flatten_splitBy]

/-- The items of a census are those of the groups of its members. -/
private theorem exists_pointGroups (c : Census) :
    ∃ groups, PointGroups groups ∧ c.items = groups.filterMap groupItems ∧
      groups.flatten.Perm c.members ∧
      ∀ p, groups.flatten.filter (fun m => m.point == p) =
        c.members.filter fun m => m.point == p := by
  have hsorted := List.pairwise_mergeSort point_le_trans point_le_total c.members
  refine ⟨_, pointGroups_splitBy (by simpa using hsorted), rfl, ?_, fun p => ?_⟩
  · rw [List.flatten_splitBy]
    exact List.mergeSort_perm _ _
  · rw [List.flatten_splitBy]
    exact filter_mergeSort_point c.members p

/-- Among groups of rising points, the one behind a point holds all members with that point. -/
private theorem lookup_groupItems {groups : List (List Member)} (h : PointGroups groups) :
    ((groups.filterMap groupItems).lookup p).getD [] =
      (groups.flatten.filter fun m => m.point == p).map Member.item := by
  induction groups with
  | nil => rfl
  | cons group groups ih =>
    obtain ⟨hnil, hgroup, hincreasing⟩ := h
    rw [List.forall_mem_cons] at hgroup
    obtain ⟨hlater, hrest⟩ := List.pairwise_cons.1 hincreasing
    cases group with
    | nil => exact absurd List.mem_cons_self hnil
    | cons m rest =>
      have hone := hgroup.1 m List.mem_cons_self
      have hitems : groupItems (m :: rest) = some (m.point, (m :: rest).map Member.item) := rfl
      rw [List.filterMap_cons_some hitems, List.flatten_cons, List.filter_append, List.map_append]
      by_cases hp : p = m.point
      · -- the first group is the one: all of it counts, and nothing behind it does
        subst p
        have hmine : (m :: rest).filter (fun n => n.point == m.point) = m :: rest :=
          List.filter_eq_self.2 fun n hn => beq_iff_eq.2 (hone n hn).symm
        have hothers : groups.flatten.filter (fun n => n.point == m.point) = [] := by
          refine List.filter_eq_nil_iff.2 fun n hn heq => ?_
          obtain ⟨later, hmem, hn⟩ := List.mem_flatten.1 hn
          have hlt := hlater later hmem m List.mem_cons_self n hn
          exact absurd (eq_of_beq heq) (Int.ne_of_gt hlt)
        rw [List.lookup_cons_self, hmine, hothers, List.map_nil, List.append_nil, Option.getD_some]
      · -- nothing of the first group counts, so look behind it
        have hmine : (m :: rest).filter (fun n => n.point == p) = [] :=
          List.filter_eq_nil_iff.2 fun n hn heq => hp ((eq_of_beq heq).symm.trans (hone n hn).symm)
        rw [List.lookup_cons, beq_eq_false_iff_ne.2 hp, hmine, List.map_nil, List.nil_append]
        exact ih ⟨fun h => hnil (List.mem_cons_of_mem _ h), hgroup.2, hrest⟩

/-- What the groups contribute are all of their members. -/
private theorem flatMap_groupItems {groups : List (List Member)} (h : [] ∉ groups) :
    (groups.filterMap groupItems).flatMap Prod.snd = groups.flatten.map Member.item := by
  induction groups with
  | nil => rfl
  | cons group groups ih =>
    cases group with
    | nil => exact absurd List.mem_cons_self h
    | cons m rest =>
      have hitems : groupItems (m :: rest) = some (m.point, (m :: rest).map Member.item) := rfl
      rw [List.filterMap_cons_some hitems, List.flatMap_cons, List.flatten_cons, List.map_append,
        ih fun hnil => h (List.mem_cons_of_mem _ hnil)]

end Groups

namespace Census

theorem itemsAt_eq (c : Census) (p : Int) :
    c.itemsAt p = (c.members.filter fun m => m.point == p).map Member.item := by
  obtain ⟨groups, hgroups, hitems, -, hfilter⟩ := exists_pointGroups c
  rw [itemsAt, hitems, lookup_groupItems hgroups, hfilter]

/-- The points with items behind them increase, so none has two entries. -/
theorem pairwise_items (c : Census) : c.items.Pairwise fun a b => a.1 < b.1 := by
  obtain ⟨groups, hgroups, hitems, -, -⟩ := exists_pointGroups c
  rw [hitems]
  refine List.Pairwise.filterMap _ ?_ hgroups.increasing
  intro g h hlt a ha b hb
  obtain ⟨m, hm, rfl⟩ := Option.map_eq_some_iff.1 ha
  obtain ⟨n, hn, rfl⟩ := Option.map_eq_some_iff.1 hb
  exact hlt m (List.mem_of_mem_head? hm) n (List.mem_of_mem_head? hn)

/-- The items behind all points are the items of all members. -/
theorem flatMap_items_perm (c : Census) :
    (c.items.flatMap Prod.snd).Perm (c.members.map Member.item) := by
  obtain ⟨groups, hgroups, hitems, hperm, -⟩ := exists_pointGroups c
  rw [hitems, flatMap_groupItems hgroups.nonempty]
  exact hperm.map _

/-- The points with items behind them are those of the members. -/
theorem mem_keys_items_iff (c : Census) (p : Int) :
    p ∈ c.items.map Prod.fst ↔ p ∈ c.members.map Member.point := by
  constructor
  · intro hp
    obtain ⟨groups, -, hitems, hperm, -⟩ := exists_pointGroups c
    rw [hitems] at hp
    obtain ⟨entry, hentry, rfl⟩ := List.mem_map.1 hp
    obtain ⟨group, hgroup, hentry⟩ := List.mem_filterMap.1 hentry
    obtain ⟨m, hm, rfl⟩ := Option.map_eq_some_iff.1 hentry
    have hmem : m ∈ groups.flatten := List.mem_flatten.2 ⟨group, hgroup, List.mem_of_mem_head? hm⟩
    exact List.mem_map_of_mem (hperm.mem_iff.1 hmem)
  · intro hp
    obtain ⟨m, hm, rfl⟩ := List.mem_map.1 hp
    have hbehind : m.item ∈ c.itemsAt m.point := by
      rw [itemsAt_eq]
      exact List.mem_map_of_mem (List.mem_filter.2 ⟨hm, beq_self_eq_true _⟩)
    rw [itemsAt] at hbehind
    by_contra hnone
    rw [List.lookup_eq_none_iff.2 fun entry hentry => ?_] at hbehind
    · cases hbehind
    · rw [bne_iff_ne]
      intro heq
      exact hnone (heq ▸ List.mem_map_of_mem hentry)

end Census

/-! ### The members of a census -/

section Members

variable {items : List Value} {members : List Member} {points : List Int}

theorem Member.ofItem_eq_ok_iff {item : Value} {m : Member} :
    Member.ofItem item = .ok m ↔ m.item = item ∧ item.StandsFor m.point := by
  rw [Member.ofItem, map_eq_ok_iff]
  constructor
  · rintro ⟨p, hp, rfl⟩
    exact ⟨rfl, Value.point_eq_ok_iff.1 hp⟩
  · rintro ⟨rfl, hp⟩
    exact ⟨m.point, Value.point_eq_ok_iff.2 hp, rfl⟩

theorem mapM_ofItem_eq_ok_iff :
    items.mapM Member.ofItem = .ok members ↔
      members.map Member.item = items ∧
        List.Forall₂ Value.StandsFor items (members.map Member.point) := by
  rw [mapM_eq_ok_iff]
  simp only [Member.ofItem_eq_ok_iff]
  induction items generalizing members with
  | nil => cases members <;> simp
  | cons item items ih =>
    cases members with
    | nil => simp
    | cons m members =>
      simp only [List.forall₂_cons, List.map_cons, List.cons.injEq, ih]
      tauto

/-- Items that stand for points are the items of some members. -/
theorem exists_members (h : List.Forall₂ Value.StandsFor items points) :
    ∃ members, items.mapM Member.ofItem = .ok members ∧ members.map Member.point = points := by
  refine ⟨List.zipWith Member.mk points items, mapM_ofItem_eq_ok_iff.2 ?_, ?_⟩
  all_goals
    induction h with
    | nil => simp
    | cons hp _ ih => simp_all

end Members

namespace Census

/-- A census that was taken of some items. -/
structure Describes (c : Census) (items : List Value) : Prop where
  items_eq : c.members.map Member.item = items
  standsFor : List.Forall₂ Value.StandsFor items (c.members.map Member.point)
  enumerates : Enumerates c.points (generalPoints c.members)

variable {c : Census} {items : List Value} {points : List Int} {threshold : Int}

theorem ofItems_eq_ok_iff :
    ofItems threshold items = .ok c ↔
      items.mapM Member.ofItem = .ok c.members ∧
        c.strategy = .choose threshold (generalPoints c.members).length ∧
          distinct threshold (generalPoints c.members) = .ok c.points := by
  rw [ofItems, bind_eq_ok_iff]
  constructor
  · rintro ⟨members, hmembers, h⟩
    obtain ⟨sorted, hsorted, h⟩ := bind_eq_ok_iff.1 h
    obtain rfl := Except.ok.inj h
    exact ⟨hmembers, rfl, hsorted⟩
  · rintro ⟨hmembers, hstrategy, hsorted⟩
    refine ⟨c.members, hmembers, bind_eq_ok_iff.2 ⟨c.points, hsorted, ?_⟩⟩
    rw [← hstrategy]
    rfl

theorem describes_of_ofItems (h : ofItems threshold items = .ok c) : c.Describes items := by
  obtain ⟨hmembers, -, hsorted⟩ := ofItems_eq_ok_iff.1 h
  obtain ⟨hitems, hstands⟩ := mapM_ofItem_eq_ok_iff.1 hmembers
  exact ⟨hitems, hstands, enumerates_of_distinct_eq_ok hsorted⟩

/-- There is a census of items that stand for points, unless their general points are too many and
too far apart. -/
theorem exists_ofItems_eq_ok (hpoints : List.Forall₂ Value.StandsFor items points)
    (hroom : ((points.filter fun p => !isPlaced p).length : Int) ≤ threshold ∨
      FitsTable (points.filter fun p => !isPlaced p)) :
    ∃ c, ofItems threshold items = .ok c := by
  obtain ⟨members, hmembers, rfl⟩ := exists_members hpoints
  let general := generalPoints members
  exact ⟨⟨members, .choose threshold general.length, distinctBySort general⟩,
    ofItems_eq_ok_iff.2 ⟨hmembers, rfl, distinct_eq_ok hroom⟩⟩

/-- There is no census if one of the items stands for no point. -/
theorem exists_ofItems_eq_error (threshold : Int)
    (h : ¬∀ item ∈ items, ∃ p, item.StandsFor p) :
    ∃ fault, ofItems threshold items = .error fault ∧ fault.category = .type := by
  cases hmembers : items.mapM Member.ofItem with
  | ok members =>
    have hpoints := (mapM_ofItem_eq_ok_iff.1 hmembers).2
    refine absurd (fun item hitem => ?_) h
    obtain ⟨p, -, hp⟩ := (exists_of_forall₂ hpoints).1 item hitem
    exact ⟨p, hp⟩
  | error fault =>
    obtain ⟨item, -, hitem⟩ := exists_of_mapM_eq_error hmembers
    refine ⟨fault, ?_, Value.category_of_point_eq_error (map_eq_error_iff.1 hitem)⟩
    rw [ofItems, hmembers]
    rfl

/-- Nor is there one if the general points are too many to be sorted and too far apart for a
table. -/
theorem ofItems_eq_spanTooWide (hpoints : List.Forall₂ Value.StandsFor items points)
    (hmany : threshold < (points.filter fun p => !isPlaced p).length)
    (hwide : ¬FitsTable (points.filter fun p => !isPlaced p)) :
    ofItems threshold items = .error .spanTooWide := by
  obtain ⟨members, hmembers, rfl⟩ := exists_members hpoints
  have hdistinct : distinct threshold (generalPoints members) = .error .spanTooWide :=
    distinct_eq_error hmany hwide
  rw [ofItems, hmembers]
  change (distinct threshold (generalPoints members) >>= _) = _
  rw [hdistinct]
  rfl

end Census

/-! ### The points of a census -/

theorem isPlaced_iff {p : Int} :
    isPlaced p = true ↔
      p = CodePoint.closeBracket.val ∨ p = CodePoint.caret.val ∨ p = CodePoint.dash.val := by
  simp only [isPlaced, Bool.or_eq_true, beq_iff_eq, or_assoc]

private theorem mem_map_ite {P : Prop} [Decidable P] {c : CodePoint} {p : Int} :
    p ∈ (if P then [c] else []).map (fun c => (c.val : Int)) ↔ P ∧ p = c.val := by
  split <;> simp_all

theorem Placed.mem_codePoints_ofPoints {points : List Int} {p : Int} :
    p ∈ (Placed.ofPoints points).codePoints.map (fun c => (c.val : Int)) ↔
      p ∈ points ∧ isPlaced p = true := by
  simp only [codePoints, head, tail, ofPoints, List.map_append, List.mem_append, mem_map_ite,
    List.contains_iff_mem, isPlaced_iff]
  constructor
  · rintro (⟨h, rfl⟩ | ⟨h, rfl⟩ | ⟨h, rfl⟩)
    · exact ⟨h, .inl rfl⟩
    · exact ⟨h, .inr (.inl rfl)⟩
    · exact ⟨h, .inr (.inr rfl)⟩
  · rintro ⟨h, rfl | rfl | rfl⟩
    · exact .inl ⟨h, rfl⟩
    · exact .inr (.inl ⟨h, rfl⟩)
    · exact .inr (.inr ⟨h, rfl⟩)

theorem Placed.nodup_codePoints (placed : Placed) : placed.codePoints.Nodup := by
  rcases placed with ⟨closeBracket, caret, dash⟩
  cases closeBracket <;> cases caret <;> cases dash <;> decide

/-- What stands between the brackets: the placed members around the others, or a dash in front of a
caret if there are no others. -/
theorem Placed.exists_inner (placed : Placed) (inverse : Bool) (body : Text) :
    ∃ inner, placed.enclose inverse body = CodePoint.openBracket ::
        ((if inverse then [CodePoint.caret] else []) ++ (inner ++ [CodePoint.closeBracket])) ∧
      (inner = placed.head ++ body ++ placed.tail ∨
        inner = [CodePoint.dash, CodePoint.caret] ∧ body = [] ∧ placed = ⟨false, true, true⟩) := by
  obtain ⟨isClose, isCaret, isDash⟩ := placed
  unfold enclose
  split
  · next hswap =>
    simp only [Bool.and_eq_true, Bool.not_eq_true', List.isEmpty_iff] at hswap
    obtain ⟨⟨⟨⟨-, rfl⟩, rfl⟩, rfl⟩, rfl⟩ := hswap
    exact ⟨_, by rw [List.append_assoc, List.cons_append], .inr ⟨rfl, rfl, rfl⟩⟩
  · exact ⟨_, by rw [List.append_assoc, List.cons_append], .inl rfl⟩

namespace Census.Describes

variable {c : Census} {items : List Value} {p : Int}

theorem mem_points (h : c.Describes items) :
    p ∈ c.points ↔ p ∈ pointSet items ∧ isPlaced p = false := by
  rw [h.enumerates.mem_iff, generalPoints, List.mem_filter, mem_pointSet_iff_of_forall₂ h.standsFor,
    Bool.not_eq_true']

theorem mem_codePoints (h : c.Describes items) : p ∈ c.codePoints ↔ p ∈ pointSet items := by
  rw [codePoints, List.mem_append, h.mem_points, placed, Placed.mem_codePoints_ofPoints,
    mem_pointSet_iff_of_forall₂ h.standsFor]
  cases isPlaced p <;> simp

theorem nodup_codePoints (h : c.Describes items) : c.codePoints.Nodup := by
  rw [codePoints, List.nodup_append']
  refine ⟨h.enumerates.increasing.imp Int.ne_of_lt, ?_, ?_⟩
  · refine c.placed.nodup_codePoints.map fun a b hab => ?_
    exact Fin.ext (Int.ofNat.inj hab)
  · intro p hp hplaced
    have hgeneral := (h.mem_points.1 hp).2
    rw [placed, Placed.mem_codePoints_ofPoints, hgeneral] at hplaced
    exact Bool.false_ne_true hplaced.2

theorem nonempty_pointSet_iff (h : c.Describes items) : (pointSet items).Nonempty ↔ items ≠ [] := by
  constructor
  · rintro ⟨p, item, hitem, -⟩
    exact List.ne_nil_of_mem hitem
  · intro hne
    obtain ⟨item, hitem⟩ := List.exists_mem_of_ne_nil items hne
    obtain ⟨p, -, hp⟩ := (exists_of_forall₂ h.standsFor).1 item hitem
    exact ⟨p, item, hitem, hp⟩

theorem size_eq_zero_iff (h : c.Describes items) : c.size = 0 ↔ items = [] := by
  have hnone : items = [] ↔ ¬(pointSet items).Nonempty := by
    rw [h.nonempty_pointSet_iff, not_not]
  rw [size, List.length_eq_zero_iff, List.eq_nil_iff_forall_not_mem, hnone, Set.Nonempty,
    not_exists]
  exact forall_congr' fun p => not_congr h.mem_codePoints

theorem codePoints_eq_singleton_iff (h : c.Describes items) :
    c.codePoints = [p] ↔ pointSet items = {p} := by
  constructor
  · intro hone
    ext q
    rw [← h.mem_codePoints, hone, List.mem_singleton, Set.mem_singleton_iff]
  · intro hone
    refine List.perm_singleton.1 ((List.perm_ext_iff_of_nodup h.nodup_codePoints
      (List.nodup_singleton p)).2 fun q => ?_)
    rw [h.mem_codePoints, hone, List.mem_singleton, Set.mem_singleton_iff]

theorem onlyPoint_eq_ok_iff (h : c.Describes items) :
    c.onlyPoint = .ok p ↔ pointSet items = {p} := by
  rw [← h.codePoints_eq_singleton_iff, onlyPoint]
  split
  · next q hq => rw [hq, Except.ok.injEq, List.cons.injEq, and_iff_left rfl]
  · next hmany =>
    constructor
    · intro herror
      cases herror
    · intro hone
      exact absurd hone (hmany p)

theorem size_eq_one_iff (h : c.Describes items) : c.size = 1 ↔ ∃ p, pointSet items = {p} := by
  rw [size, List.length_eq_one_iff]
  exact exists_congr fun p => h.codePoints_eq_singleton_iff

/-- Behind the only point stand all items. -/
theorem itemsAt_eq_of_singleton (h : c.Describes items) (hone : pointSet items = {p}) :
    c.itemsAt p = items := by
  have hall : ∀ m ∈ c.members, (m.point == p) = true := by
    intro m hm
    rw [beq_iff_eq, ← Set.mem_singleton_iff, ← hone, mem_pointSet_iff_of_forall₂ h.standsFor]
    exact List.mem_map_of_mem hm
  rw [itemsAt_eq, List.filter_eq_self.2 hall, h.items_eq]

/-- The check of the only member looks at all items in order of arrival. -/
theorem vetOnly_eq (h : c.Describes items) (hone : pointSet items = {p}) :
    c.vetOnly = match items.find? fun item => !item.isCharacter with
      | some item => .error (.notCharacter item)
      | none => .ok () := by
  rw [vetOnly, h.onlyPoint_eq_ok_iff.2 hone]
  change (match (c.itemsAt p).find? _ with | some item => _ | none => _) = _
  rw [h.itemsAt_eq_of_singleton hone]

theorem vetOnly_eq_ok_iff (h : c.Describes items) (hone : pointSet items = {p}) :
    c.vetOnly = .ok () ↔ ∀ item ∈ items, item.isCharacter = true := by
  rw [h.vetOnly_eq hone]
  constructor
  · intro hvet
    by_contra hall
    obtain ⟨item, -, -, hfirst⟩ := exists_first_nonCharacter hall
    rw [hfirst] at hvet
    cases hvet
  · intro hall
    have hnone : items.find? (fun item => !item.isCharacter) = none :=
      List.find?_eq_none.2 fun item hitem => by simp [hall item hitem]
    rw [hnone]

end Census.Describes

end CharClass
