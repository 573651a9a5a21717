import Mathlib.Order.Lattice
import Mathlib.Data.List.Forall2
/-!
# Ordered association lists

An ordered map is the list of its entries in strictly ascending key order. The operations below
are total on every list of entries; the ones that build maps keep the order, and two ordered
lists with the same lookups are the same list (`ext_find`). Nothing here depends on what the keys
and the values are.
-/
namespace Jst.SortedMap

variable {K V W : Type} [LinearOrder K]

variable {entries : List (K × V)} {key : K} {value : V}

/-- The entries stand in strictly ascending key order, so no key stands twice. -/
abbrev Ascending (entries : List (K × V)) : Prop :=
  entries.Pairwise fun left right => left.1 < right.1

/-- The value of the first entry with the given key. -/
def find (key : K) : List (K × V) → Option V
  | [] => none
  | (name, value) :: rest => if name = key then some value else find key rest

/-- Store a value at a key, replacing the entry of that key. -/
def insert (key : K) (value : V) : List (K × V) → List (K × V)
  | [] => [(key, value)]
  | (name, stored) :: rest =>
    if key < name then (key, value) :: (name, stored) :: rest
    else if key = name then (key, value) :: rest
    else (name, stored) :: insert key value rest

/-- Store a value at a key unless the key has an entry. -/
def emplace (key : K) (value : V) (entries : List (K × V)) : List (K × V) :=
  match find key entries with
  | some _ => entries
  | none => insert key value entries

/-- Store entries one after the other, keeping what is present. -/
def emplaceAll (list entries : List (K × V)) : List (K × V) :=
  list.foldl (fun entries entry => emplace entry.1 entry.2 entries) entries

/-- The entries of `front`, and those of `back` whose keys have no entry in `front`. -/
def union (front back : List (K × V)) : List (K × V) :=
  front.foldr (fun entry entries => insert entry.1 entry.2 entries) back

@[simp] theorem find_nil (key : K) : find key ([] : List (K × V)) = none := rfl

theorem find_cons (key name : K) (value : V) (rest : List (K × V)) :
    find key ((name, value) :: rest) = if name = key then some value else find key rest := rfl

@[simp] theorem find_insert (query key : K) (value : V) (entries : List (K × V)) :
    find query (insert key value entries) =
      if key = query then some value else find query entries := by
  induction entries with
  | nil => rfl
  | cons entry rest step =>
    obtain ⟨name, stored⟩ := entry
    simp only [insert]
    split
    · rfl
    · split
      · next same =>
        subst same
        simp only [find]
        split <;> rfl
      · next differ =>
        simp only [find, step]
        by_cases hit : name = query
        · have other : key ≠ query := fun same => differ (same.trans hit.symm)
          simp [hit, other]
        · simp [hit]

theorem find_emplace (query key : K) (value : V) (entries : List (K × V)) :
    find query (emplace key value entries) =
      (find query entries).or (if key = query then some value else none) := by
  unfold emplace
  cases present : find key entries with
  | some stored =>
    by_cases same : key = query
    · subst same
      simp [present]
    · simp [same]
  | none =>
    by_cases same : key = query
    · subst same
      simp [present]
    · simp [same]

theorem find_append (query : K) (front back : List (K × V)) :
    find query (front ++ back) = (find query front).or (find query back) := by
  induction front with
  | nil => rfl
  | cons entry rest step =>
    obtain ⟨name, value⟩ := entry
    rw [List.cons_append, find_cons, find_cons, step]
    split <;> rfl

@[simp] theorem find_emplaceAll (query : K) (list entries : List (K × V)) :
    find query (emplaceAll list entries) = (find query entries).or (find query list) := by
  induction list generalizing entries with
  | nil => simp [emplaceAll]
  | cons entry rest step =>
    obtain ⟨name, value⟩ := entry
    change find query (emplaceAll rest (emplace name value entries)) = _
    rw [step, find_emplace, find_cons, Option.or_assoc]
    split <;> rfl

theorem foldl_emplaceAll {Part : Type} (part : Part → List (K × V)) (parts : List Part)
    (entries : List (K × V)) :
    parts.foldl (fun entries item => emplaceAll (part item) entries) entries =
      emplaceAll (parts.flatMap part) entries := by
  induction parts generalizing entries with
  | nil => rfl
  | cons item parts step =>
    rw [List.foldl_cons, step, List.flatMap_cons, emplaceAll, emplaceAll, emplaceAll,
      List.foldl_append]

@[simp] theorem find_union (query : K) (front back : List (K × V)) :
    find query (union front back) = (find query front).or (find query back) := by
  induction front with
  | nil => rfl
  | cons entry rest step =>
    obtain ⟨name, value⟩ := entry
    change find query (insert name value (union rest back)) = _
    rw [find_insert, step, find_cons]
    split <;> rfl

theorem find_foldl_insert (query : K) (list entries : List (K × V)) :
    find query (list.foldl (fun result entry => insert entry.1 entry.2 result) entries) =
      (find query list.reverse).or (find query entries) := by
  induction list generalizing entries with
  | nil => rfl
  | cons entry rest step =>
    obtain ⟨name, value⟩ := entry
    rw [List.foldl_cons, step, find_insert, List.reverse_cons, find_append, Option.or_assoc,
      find_cons]
    split <;> rfl

theorem mem_of_find (found : find key entries = some value) : (key, value) ∈ entries := by
  induction entries with
  | nil => simp at found
  | cons entry rest step =>
    obtain ⟨name, stored⟩ := entry
    rw [find_cons] at found
    split at found
    · next same =>
      cases found
      exact same ▸ List.mem_cons_self
    · exact List.mem_cons_of_mem _ (step found)

theorem find_eq_none : find key entries = none ↔ ∀ entry ∈ entries, entry.1 ≠ key := by
  induction entries with
  | nil => simp
  | cons entry rest step =>
    obtain ⟨name, stored⟩ := entry
    rw [find_cons, List.forall_mem_cons]
    split
    · next same => simp [same]
    · next differ => simp [differ, step]

theorem mem_keys : key ∈ entries.map Prod.fst ↔ (find key entries).isSome := by
  cases found : find key entries with
  | none =>
    simp only [Option.isSome_none, Bool.false_eq_true, iff_false, List.mem_map, not_exists, not_and]
    exact fun entry member => find_eq_none.mp found entry member
  | some value =>
    simp only [Option.isSome_some, iff_true, List.mem_map]
    exact ⟨_, mem_of_find found, rfl⟩

theorem find_of_unique (member : (key, value) ∈ entries)
    (unique : ∀ other, (key, other) ∈ entries → other = value) : find key entries = some value := by
  cases found : find key entries with
  | none => exact absurd rfl (find_eq_none.mp found _ member)
  | some other => rw [unique other (mem_of_find found)]

theorem find_of_mem (ordered : Ascending entries) (member : (key, value) ∈ entries) :
    find key entries = some value := by
  induction entries with
  | nil => simp at member
  | cons entry rest step =>
    obtain ⟨name, stored⟩ := entry
    obtain ⟨first, later⟩ := List.pairwise_cons.mp ordered
    rw [find_cons]
    rcases List.mem_cons.mp member with same | deeper
    · cases same
      simp
    · rw [if_neg (ne_of_lt (first _ deeper)), step later deeper]

theorem mem_iff_find (ordered : Ascending entries) :
    (key, value) ∈ entries ↔ find key entries = some value :=
  ⟨find_of_mem ordered, mem_of_find⟩

theorem mem_insert {entry : K × V} (member : entry ∈ insert key value entries) :
    entry = (key, value) ∨ entry ∈ entries := by
  induction entries with
  | nil => simpa [insert] using member
  | cons head rest step =>
    simp only [insert] at member
    split at member
    · simpa using member
    · split at member
      · rcases List.mem_cons.mp member with same | deeper
        · exact .inl same
        · exact .inr (List.mem_cons_of_mem _ deeper)
      · rcases List.mem_cons.mp member with same | deeper
        · exact .inr (same ▸ List.mem_cons_self)
        · exact (step deeper).imp_right (List.mem_cons_of_mem _)

theorem insert_ascending (key : K) (value : V) (ordered : Ascending entries) :
    Ascending (insert key value entries) := by
  induction entries with
  | nil => exact List.pairwise_singleton _ _
  | cons head rest step =>
    obtain ⟨name, stored⟩ := head
    obtain ⟨first, later⟩ := List.pairwise_cons.mp ordered
    simp only [insert]
    split
    · next below =>
      refine List.pairwise_cons.mpr ⟨?_, ordered⟩
      intro entry member
      rcases List.mem_cons.mp member with same | deeper
      · exact same ▸ below
      · exact lt_trans below (first _ deeper)
    · next notBelow =>
      split
      · next same => exact List.pairwise_cons.mpr ⟨same ▸ first, later⟩
      · next differ =>
        refine List.pairwise_cons.mpr ⟨?_, step later⟩
        intro entry member
        rcases mem_insert member with same | deeper
        · exact same ▸ lt_of_le_of_ne (not_lt.mp notBelow) (Ne.symm differ)
        · exact first _ deeper

theorem insert_of_forall_lt (value : V) (below : ∀ entry ∈ entries, entry.1 < key) :
    insert key value entries = entries ++ [(key, value)] := by
  induction entries with
  | nil => rfl
  | cons head rest step =>
    obtain ⟨name, stored⟩ := head
    have before : name < key := below _ List.mem_cons_self
    rw [insert, if_neg (lt_asymm before), if_neg (ne_of_gt before),
      step fun entry member => below entry (List.mem_cons_of_mem _ member), List.cons_append]

variable {back left : List (K × V)}

theorem foldl_insert_ascending {front : List (K × V)} (ordered : Ascending (front ++ back)) :
    back.foldl (fun result entry => insert entry.1 entry.2 result) front = front ++ back := by
  induction back generalizing front with
  | nil => exact (List.append_nil front).symm
  | cons entry rest step =>
    have below : ∀ other ∈ front, other.1 < entry.1 := fun other member =>
      (List.pairwise_append.mp ordered).2.2 other member entry List.mem_cons_self
    rw [List.append_cons] at ordered
    rw [List.foldl_cons, insert_of_forall_lt entry.2 below, step ordered]
    exact (List.append_cons front entry rest).symm

theorem emplace_ascending (key : K) (value : V) (ordered : Ascending entries) :
    Ascending (emplace key value entries) := by
  unfold emplace
  split
  · exact ordered
  · exact insert_ascending key value ordered

theorem emplaceAll_ascending (list : List (K × V)) (ordered : Ascending entries) :
    Ascending (emplaceAll list entries) := by
  induction list generalizing entries with
  | nil => exact ordered
  | cons entry rest step => exact step (emplace_ascending _ _ ordered)

theorem union_ascending (front : List (K × V)) (ordered : Ascending back) :
    Ascending (union front back) := by
  induction front with
  | nil => exact ordered
  | cons entry rest step => exact insert_ascending _ _ step

theorem insert_ne_nil (key : K) (value : V) (entries : List (K × V)) :
    insert key value entries ≠ [] := by
  cases entries with
  | nil => simp [insert]
  | cons head rest =>
    simp only [insert]
    split
    · simp
    · split <;> simp

theorem union_isEmpty (front back : List (K × V)) :
    (union front back).isEmpty = (front.isEmpty && back.isEmpty) := by
  cases front with
  | nil => rfl
  | cons entry rest =>
    have stored : union (entry :: rest) back ≠ [] := insert_ne_nil _ _ _
    simp [stored]

theorem find_eq_none_of_lt (below : ∀ entry ∈ entries, key < entry.1) : find key entries = none :=
  find_eq_none.mpr fun entry member => (ne_of_lt (below entry member)).symm

theorem forall₂_of_find {related : V → W → Prop} {right : List (K × W)}
    (leftOrdered : Ascending left) (rightOrdered : Ascending right)
    (agree : ∀ key, Option.Rel related (find key left) (find key right)) :
    List.Forall₂ (fun entry other => entry.1 = other.1 ∧ related entry.2 other.2) left right := by
  induction left generalizing right with
  | nil =>
    cases right with
    | nil => exact .nil
    | cons entry rest =>
      have missing := agree entry.1
      rw [find_nil, find_cons, if_pos rfl] at missing
      cases missing
  | cons entry rest step =>
    obtain ⟨name, value⟩ := entry
    cases right with
    | nil =>
      have missing := agree name
      rw [find_nil, find_cons, if_pos rfl] at missing
      cases missing
    | cons head tail =>
      obtain ⟨other, stored⟩ := head
      obtain ⟨leftFirst, leftRest⟩ := List.pairwise_cons.mp leftOrdered
      obtain ⟨rightFirst, rightRest⟩ := List.pairwise_cons.mp rightOrdered
      -- The smaller head key would be missing on the other side.
      have keys : name = other := by
        rcases lt_trichotomy name other with below | same | above
        · have missing := agree name
          rw [find_cons, if_pos rfl, find_eq_none_of_lt] at missing
          · cases missing
          · intro entry member
            rcases List.mem_cons.mp member with same | deeper
            · exact same ▸ below
            · exact lt_trans below (rightFirst _ deeper)
        · exact same
        · have missing := agree other
          rw [find_cons other other, if_pos rfl, find_eq_none_of_lt] at missing
          · cases missing
          · intro entry member
            rcases List.mem_cons.mp member with same | deeper
            · exact same ▸ above
            · exact lt_trans above (leftFirst _ deeper)
      subst keys
      have values : related value stored := by
        have first := agree name
        rw [find_cons, find_cons, if_pos rfl, if_pos rfl] at first
        cases first with
        | some holds => exact holds
      refine .cons ⟨rfl, values⟩ (step leftRest rightRest fun key => ?_)
      have later := agree key
      rw [find_cons, find_cons] at later
      split at later
      · next same =>
        subst same
        rw [find_eq_none_of_lt leftFirst, find_eq_none_of_lt rightFirst]
        exact .none
      · exact later

theorem ext_find {right : List (K × V)} (leftOrdered : Ascending left)
    (rightOrdered : Ascending right) (agree : ∀ key, find key left = find key right) :
    left = right := by
  have same : ∀ key, Option.Rel Eq (find key left) (find key right) := by
    intro key
    rw [agree key]
    cases find key right with
    | none => exact .none
    | some value => exact .some rfl
  have entries := forall₂_of_find leftOrdered rightOrdered same
  exact List.forall₂_eq_eq_eq ▸ entries.imp fun _ _ same => Prod.ext same.1 same.2

theorem emplaceAll_perm {list : List (K × V)} (ordered : Ascending entries)
    (perm : list.Perm entries) : emplaceAll list [] = entries := by
  refine ext_find (emplaceAll_ascending _ List.Pairwise.nil) ordered fun key => ?_
  rw [find_emplaceAll, find_nil, Option.none_or]
  cases found : find key entries with
  | none =>
    rw [find_eq_none] at found ⊢
    exact fun entry member => found entry (perm.mem_iff.mp member)
  | some value =>
    refine find_of_unique (perm.mem_iff.mpr (mem_of_find found)) fun other member => ?_
    have here := find_of_mem ordered (perm.mem_iff.mp member)
    rw [found] at here
    exact (Option.some.inj here).symm

theorem find_mapValues (change : V → W) (key : K) (entries : List (K × V)) :
    find key (entries.map fun entry => (entry.1, change entry.2)) =
      (find key entries).map change := by
  induction entries with
  | nil => rfl
  | cons entry rest step =>
    simp only [List.map_cons, find, step]
    split <;> rfl

theorem mapValues_ascending (change : V → W) (ordered : Ascending entries) :
    Ascending (entries.map fun entry => (entry.1, change entry.2)) :=
  List.pairwise_map.mpr ordered

end Jst.SortedMap
