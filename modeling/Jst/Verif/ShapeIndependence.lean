import Mathlib.Data.Nat.Basic
import Jst.Expression.LinkedMap
/-!
# Shape independence of linked maps

A linked map can be put together in many ways, and its item list may or may not have been computed
before. Every query answers from the union of the parts alone: two maps with one union cannot be
told apart.
-/
namespace Jst.Verif.ShapeIndependence

open Jst.SortedMap Jst.Expression Jst.Expression.Object

variable {K V : Type} [LinearOrder K]

theorem mem_merge (citems nitems : List (K × V)) :
    ∀ entry ∈ merge citems nitems, entry ∈ citems ∨ entry ∈ nitems := by
  induction citems, nitems using merge.induct with
  | case1 nitems =>
    intro entry member
    rw [merge] at member
    exact .inr member
  | case2 citems nonempty =>
    intro entry member
    rw [merge] at member
    · exact .inl member
    · exact nonempty
  | case3 cvalue citems shared nvalue nitems step =>
    intro entry member
    rw [merge, if_pos rfl] at member
    grind
  | case4 ckey cvalue citems nkey nvalue nitems differ below step =>
    intro entry member
    rw [merge, if_neg differ, if_pos below] at member
    grind
  | case5 ckey cvalue citems nkey nvalue nitems differ above step =>
    intro entry member
    rw [merge, if_neg differ, if_neg above] at member
    grind

theorem merge_ascending (citems nitems : List (K × V)) (left : Ascending citems)
    (right : Ascending nitems) : Ascending (merge citems nitems) := by
  induction citems, nitems using merge.induct with
  | case1 nitems => rwa [merge]
  | case2 citems nonempty => rwa [merge]; exact nonempty
  | case3 cvalue citems shared nvalue nitems step =>
    obtain ⟨leftFirst, leftRest⟩ := List.pairwise_cons.mp left
    obtain ⟨rightFirst, rightRest⟩ := List.pairwise_cons.mp right
    rw [merge, if_pos rfl]
    refine List.pairwise_cons.mpr ⟨?_, step leftRest rightRest⟩
    intro entry member
    rcases mem_merge _ _ entry member with mine | theirs
    · exact leftFirst entry mine
    · exact rightFirst entry theirs
  | case4 ckey cvalue citems nkey nvalue nitems differ below step =>
    obtain ⟨leftFirst, leftRest⟩ := List.pairwise_cons.mp left
    obtain ⟨rightFirst, rightRest⟩ := List.pairwise_cons.mp right
    rw [merge, if_neg differ, if_pos below]
    refine List.pairwise_cons.mpr ⟨?_, step leftRest right⟩
    intro entry member
    rcases mem_merge _ _ entry member with mine | theirs
    · exact leftFirst entry mine
    · rcases List.mem_cons.mp theirs with head | later
      · exact head ▸ below
      · exact lt_trans below (rightFirst entry later)
  | case5 ckey cvalue citems nkey nvalue nitems differ notBelow step =>
    obtain ⟨leftFirst, leftRest⟩ := List.pairwise_cons.mp left
    obtain ⟨rightFirst, rightRest⟩ := List.pairwise_cons.mp right
    have above : nkey < ckey := lt_of_le_of_ne (not_lt.mp notBelow) (Ne.symm differ)
    rw [merge, if_neg differ, if_neg notBelow]
    refine List.pairwise_cons.mpr ⟨?_, step left rightRest⟩
    intro entry member
    rcases mem_merge _ _ entry member with mine | theirs
    · rcases List.mem_cons.mp mine with head | later
      · exact head ▸ above
      · exact lt_trans above (leftFirst entry later)
    · exact rightFirst entry theirs

theorem find_merge (citems nitems : List (K × V)) (left : Ascending citems)
    (right : Ascending nitems) (key : K) : SortedMap.find key (merge citems nitems) =
      (SortedMap.find key citems).or (SortedMap.find key nitems) := by
  induction citems, nitems using merge.induct with
  | case1 nitems => simp [merge]
  | case2 citems nonempty =>
    rw [merge]
    · simp
    · exact nonempty
  | case3 cvalue citems shared nvalue nitems step =>
    have rests := step (List.pairwise_cons.mp left).2 (List.pairwise_cons.mp right).2
    rw [merge, if_pos rfl, find_cons, find_cons, find_cons, rests]
    split <;> rfl
  | case4 ckey cvalue citems nkey nvalue nitems differ below step =>
    have rests := step (List.pairwise_cons.mp left).2 right
    rw [merge, if_neg differ, if_pos below, find_cons, find_cons, rests]
    split <;> rfl
  | case5 ckey cvalue citems nkey nvalue nitems differ notBelow step =>
    have above : nkey < ckey := lt_of_le_of_ne (not_lt.mp notBelow) (Ne.symm differ)
    have rests := step left (List.pairwise_cons.mp right).2
    rw [merge, if_neg differ, if_neg notBelow, find_cons, find_cons key nkey, rests]
    by_cases hit : nkey = key
    · have missing : SortedMap.find key ((ckey, cvalue) :: citems) = none := by
        refine find_eq_none_of_lt fun entry member => ?_
        rcases List.mem_cons.mp member with head | later
        · exact head ▸ hit ▸ above
        · exact hit ▸ lt_trans above ((List.pairwise_cons.mp left).1 entry later)
      simp [hit, missing]
    · simp [hit]

/-- What the optional object behind a pointer stands for. -/
def pointed (part : Option (Object K V)) : List (K × V) := part.elim [] Object.union

section

variable (next content : Option (Object K V)) (map : List (K × V)) (items : Option (List (K × V)))
include next content map items

theorem union_mk : (Object.mk next content map items).union =
      SortedMap.union map (SortedMap.union (pointed content) (pointed next)) := by
  cases next <;> cases content <;> rfl

theorem find_mk (key : K) : (Object.mk next content map items).find key =
      (content.elim (SortedMap.find key map) (Object.find key)).or
        (next.elim none (Object.find key)) := by
  rw [Object.find.eq_def]
  cases content <;> cases next <;> rfl

omit [LinearOrder K] in
theorem empty_mk : (Object.mk next content map items).empty =
      (content.elim map.isEmpty Object.empty && next.elim true Object.empty) := by
  rw [Object.empty.eq_def]
  cases content <;> cases next <;> rfl

end

theorem sortedItems_mk (next content : Option (Object K V)) (map : List (K × V)) :
    (Object.mk next content map none).sortedItems =
      merge (content.elim map Object.sortedItems) (next.elim [] Object.sortedItems) := by
  rw [Object.sortedItems.eq_def]
  cases content <;> cases next <;> rfl

theorem union_ascending (object : Object K V) : Ascending object.union := by
  induction object using Object.induction with
  | step next content map items behind inside =>
    rw [union_mk]
    refine SortedMap.union_ascending _ (SortedMap.union_ascending _ ?_)
    cases next with
    | none => exact List.Pairwise.nil
    | some part => exact behind part rfl

theorem pointed_ascending (part : Option (Object K V)) : Ascending (pointed part) := by
  cases part with
  | none => exact List.Pairwise.nil
  | some object => exact union_ascending object

theorem sortedItems_step {next content : Option (Object K V)} {map : List (K × V)}
    (ordered : Ascending map) (exclusive : content = none ∨ map = [])
    (behind : ∀ part, next = some part → part.sortedItems = part.union)
    (inside : ∀ part, content = some part → part.sortedItems = part.union) :
    (Object.mk next content map none).sortedItems = (Object.mk next content map none).union := by
  have theirs : next.elim [] Object.sortedItems = pointed next := by
    cases next with
    | none => rfl
    | some part => exact behind part rfl
  have mine : content.elim map Object.sortedItems = SortedMap.union map (pointed content) := by
    cases content with
    | none =>
      refine ext_find ordered (SortedMap.union_ascending _ List.Pairwise.nil) fun key => ?_
      simp [pointed]
    | some part =>
      have hollow : map = [] := exclusive.resolve_left (by simp)
      rw [hollow]
      exact inside part rfl
  have mineOrdered : Ascending (SortedMap.union map (pointed content)) :=
    SortedMap.union_ascending _ (pointed_ascending content)
  rw [sortedItems_mk, mine, theirs]
  refine ext_find (merge_ascending _ _ mineOrdered (pointed_ascending next))
    (union_ascending _) fun key => ?_
  rw [find_merge _ _ mineOrdered (pointed_ascending next), union_mk]
  simp only [find_union, Option.or_assoc]

theorem sortedItems_eq_union (object : Object K V) (consistent : object.Consistent) :
    object.sortedItems = object.union := by
  induction object using Object.induction with
  | step next content map items behind inside =>
    obtain ⟨ordered, exclusive, nextGood, contentGood, cached⟩ := consistent
    have computed := sortedItems_step ordered exclusive
      (fun part same => behind part same (nextGood part same))
      (fun part same => inside part same (contentGood part same))
    cases items with
    | none => exact computed
    | some list =>
      rw [union_mk] at computed ⊢
      exact (cached list rfl).trans computed

theorem find_eq_union (object : Object K V) (consistent : object.Consistent) (key : K) :
    object.find key = SortedMap.find key object.union := by
  induction object using Object.induction with
  | step next content map items behind inside =>
    obtain ⟨ordered, exclusive, nextGood, contentGood, cached⟩ := consistent
    have theirs : next.elim none (Object.find key) = SortedMap.find key (pointed next) := by
      cases next with
      | none => rfl
      | some part => exact behind part rfl (nextGood part rfl)
    have mine : content.elim (SortedMap.find key map) (Object.find key) =
        (SortedMap.find key map).or (SortedMap.find key (pointed content)) := by
      cases content with
      | none => simp [pointed]
      | some part =>
        have hollow : map = [] := exclusive.resolve_left (by simp)
        rw [hollow]
        exact inside part rfl (contentGood part rfl)
    rw [find_mk, mine, theirs, union_mk, find_union, find_union, ← Option.or_assoc]

theorem empty_eq_union (object : Object K V) (consistent : object.Consistent) :
    object.empty = object.union.isEmpty := by
  induction object using Object.induction with
  | step next content map items behind inside =>
    obtain ⟨ordered, exclusive, nextGood, contentGood, cached⟩ := consistent
    have theirs : next.elim true Object.empty = (pointed next).isEmpty := by
      cases next with
      | none => rfl
      | some part => exact behind part rfl (nextGood part rfl)
    have mine : content.elim map.isEmpty Object.empty =
        (map.isEmpty && (pointed content).isEmpty) := by
      cases content with
      | none => simp [pointed]
      | some part =>
        have hollow : map = [] := exclusive.resolve_left (by simp)
        rw [hollow]
        exact inside part rfl (contentGood part rfl)
    rw [empty_mk, mine, theirs, union_mk, union_isEmpty, union_isEmpty, Bool.and_assoc]

section Conflict

variable [BEq V]

/-- The key is common to both lists, with different values. -/
def Differs (left right : List (K × V)) (key : K) : Prop :=
  ∃ mine theirs, SortedMap.find key left = some mine ∧ SortedMap.find key right = some theirs ∧
    (mine == theirs) = false

theorem conflict_sound (me they : List (K × V)) (mine : Ascending me) (theirs : Ascending they)
    (key : K) (found : conflict me they = some key) : Differs me they key := by
  induction me, they using conflict.induct with
  | case1 they => simp [conflict] at found
  | case2 me nonempty => rw [conflict] at found; cases found; exact nonempty
  | case3 mvalue me shared tvalue they differ =>
    rw [conflict, if_pos rfl, if_pos differ] at found
    cases found
    exact ⟨mvalue, tvalue, by simp [find_cons], by simp [find_cons], by simpa using differ⟩
  | case4 mvalue me shared tvalue they same step =>
    rw [conflict, if_pos rfl, if_neg same] at found
    obtain ⟨mineFirst, mineRest⟩ := List.pairwise_cons.mp mine
    obtain ⟨theirsFirst, theirsRest⟩ := List.pairwise_cons.mp theirs
    obtain ⟨left, right, inMine, inTheirs, differ⟩ := step mineRest theirsRest found
    have later : shared ≠ key := ne_of_lt (mineFirst _ (mem_of_find inMine))
    exact ⟨left, right, by rw [find_cons, if_neg later, inMine],
      by rw [find_cons, if_neg later, inTheirs], differ⟩
  | case5 mkey mvalue me tkey tvalue they differ below step =>
    rw [conflict, if_neg differ, if_pos below] at found
    obtain ⟨mineFirst, mineRest⟩ := List.pairwise_cons.mp mine
    obtain ⟨left, right, inMine, inTheirs, unequal⟩ := step mineRest theirs found
    have later : mkey ≠ key := ne_of_lt (mineFirst _ (mem_of_find inMine))
    exact ⟨left, right, by rw [find_cons, if_neg later, inMine], inTheirs, unequal⟩
  | case6 mkey mvalue me tkey tvalue they differ notBelow step =>
    rw [conflict, if_neg differ, if_neg notBelow] at found
    obtain ⟨theirsFirst, theirsRest⟩ := List.pairwise_cons.mp theirs
    obtain ⟨left, right, inMine, inTheirs, unequal⟩ := step mine theirsRest found
    have later : tkey ≠ key := ne_of_lt (theirsFirst _ (mem_of_find inTheirs))
    exact ⟨left, right, inMine, by rw [find_cons, if_neg later, inTheirs], unequal⟩

theorem conflict_complete (me they : List (K × V)) (mine : Ascending me) (theirs : Ascending they)
    (key : K) (differs : Differs me they key) : (conflict me they).isSome = true := by
  obtain ⟨left, right, inMine, inTheirs, unequal⟩ := differs
  induction me, they using conflict.induct with
  | case1 they => simp at inMine
  | case2 me nonempty => simp at inTheirs
  | case3 mvalue me shared tvalue they differ =>
    rw [conflict, if_pos rfl, if_pos differ]
    rfl
  | case4 mvalue me shared tvalue they same step =>
    rw [conflict, if_pos rfl, if_neg same]
    have later : shared ≠ key := by
      rintro rfl
      rw [find_cons, if_pos rfl, Option.some.injEq] at inMine inTheirs
      subst inMine inTheirs
      simp [unequal] at same
    rw [find_cons, if_neg later] at inMine inTheirs
    exact step (List.pairwise_cons.mp mine).2 (List.pairwise_cons.mp theirs).2 inMine inTheirs
  | case5 mkey mvalue me tkey tvalue they differ below step =>
    rw [conflict, if_neg differ, if_pos below]
    have later : mkey ≠ key := by
      rintro rfl
      rcases List.mem_cons.mp (mem_of_find inTheirs) with head | deeper
      · exact differ (congrArg Prod.fst head)
      · exact lt_asymm below ((List.pairwise_cons.mp theirs).1 _ deeper)
    rw [find_cons, if_neg later] at inMine
    exact step (List.pairwise_cons.mp mine).2 theirs inMine inTheirs
  | case6 mkey mvalue me tkey tvalue they differ notBelow step =>
    rw [conflict, if_neg differ, if_neg notBelow]
    have above : tkey < mkey := lt_of_le_of_ne (not_lt.mp notBelow) (Ne.symm differ)
    have later : tkey ≠ key := by
      rintro rfl
      rcases List.mem_cons.mp (mem_of_find inMine) with head | deeper
      · exact differ (congrArg Prod.fst head).symm
      · exact lt_asymm above ((List.pairwise_cons.mp mine).1 _ deeper)
    rw [find_cons, if_neg later] at inTheirs
    exact step mine (List.pairwise_cons.mp theirs).2 inMine inTheirs

theorem equals_eq_union [ReflBEq V] (left right : LinkedMap K V) (same : Bool)
    (aliased : same = true → left.object = right.object) :
    left.object.equals same right.object = (left.object.union == right.object.union) := by
  unfold Object.equals
  rw [sortedItems_eq_union _ left.consistent, sortedItems_eq_union _ right.consistent,
    empty_eq_union _ left.consistent, empty_eq_union _ right.consistent]
  by_cases identical : same = true
  · rw [aliased identical]
    simp
  · by_cases hollow : (left.object.union.isEmpty && right.object.union.isEmpty) = true
    · obtain ⟨leftEmpty, rightEmpty⟩ := Bool.and_eq_true_iff.mp hollow
      rw [List.isEmpty_iff.mp leftEmpty, List.isEmpty_iff.mp rightEmpty]
      simp
    · simp [identical, hollow]

end Conflict

/-- The item list of a linked map is the strictly ascending union of its parts, and every query
answers from that union: two maps with one union are indistinguishable, however they are built
and whatever has been asked of them before. -/
theorem linkedMap_shape_independent [BEq V] [ReflBEq V] (hashKey : K → UInt64)
    (hashValue : V → UInt64) (map : LinkedMap K V) :
    Ascending map.object.sortedItems ∧
    map.object.sortedItems = map.object.union ∧
    (∀ key, map.object.find key = SortedMap.find key map.object.union) ∧
    (∀ key, map.object.contains key = (SortedMap.find key map.object.union).isSome) ∧
    (∀ key, map.object.at' key = (SortedMap.find key map.object.union).elim (.error key) .ok) ∧
    map.object.empty = map.object.union.isEmpty ∧
    map.object.size = map.object.union.length ∧
    map.object.keys = map.object.union.map Prod.fst ∧
    map.object.values = map.object.union.map Prod.snd ∧
    map.object.hash hashKey hashValue = hashItems hashKey hashValue map.object.union ∧
    (∀ (other : LinkedMap K V) (same : Bool), (same = true → map.object = other.object) →
      map.object.equals same other.object = (map.object.union == other.object.union)) ∧
    (∀ (other : LinkedMap K V) (key : K),
      map.object.findConflictingDuplicate other.object = some key →
      Differs map.object.union other.object.union key) ∧
    (∀ other : LinkedMap K V, (map.object.findConflictingDuplicate other.object).isSome = true ↔
      ∃ key, Differs map.object.union other.object.union key) := by
  have items : map.object.sortedItems = map.object.union := sortedItems_eq_union _ map.consistent
  have looked := find_eq_union map.object map.consistent
  have sound : ∀ (other : LinkedMap K V) (key : K),
      map.object.findConflictingDuplicate other.object = some key →
      Differs map.object.union other.object.union key := by
    intro other key found
    rw [findConflictingDuplicate, items, sortedItems_eq_union _ other.consistent] at found
    exact conflict_sound _ _ (union_ascending _) (union_ascending _) key found
  refine ⟨items ▸ union_ascending _, items, looked, ?_, ?_, empty_eq_union _ map.consistent,
    ?_, ?_, ?_, ?_, ?_, sound, ?_⟩
  · intro key
    rw [contains, looked]
  · intro key
    rw [at', looked]
    cases SortedMap.find key map.object.union <;> rfl
  · rw [size, items]
  · rw [keys, items]
  · rw [values, items]
  · rw [Object.hash, items]
  · exact fun other same aliased => equals_eq_union map other same aliased
  · intro other
    constructor
    · intro found
      obtain ⟨key, same⟩ := Option.isSome_iff_exists.mp found
      exact ⟨key, sound other key same⟩
    · rintro ⟨key, differs⟩
      rw [findConflictingDuplicate, items, sortedItems_eq_union _ other.consistent]
      exact conflict_complete _ _ (union_ascending _) (union_ascending _) key differs

/-- A map over a single entry over a map, as the layers of a configuration stand. -/
def layered : LinkedMap Nat Nat :=
  .link (some (.ofMap [(2, 20), (3, 33)] (by decide)))
    (some (.linkItem (some (.ofMap [(1, 10), (3, 30)] (by decide))) 1 11))

theorem layered_items : layered.object.sortedItems = [(1, 11), (2, 20), (3, 30)] ∧
    layered.object.size = 3 := by
  obtain ⟨-, items, -, -, -, -, size, -⟩ :=
    linkedMap_shape_independent (fun _ => 0) (fun _ => 0) layered
  exact ⟨items.trans (by decide), size.trans (by decide)⟩

end Jst.Verif.ShapeIndependence
