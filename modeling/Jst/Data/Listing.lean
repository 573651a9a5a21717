import Mathlib.Data.List.Nodup
import Mathlib.Logic.Relation
/-!
# Listing what is below a directory

Directories have ids; what an id stands for is a list of named entries, or cannot be read. Some
entries are directories themselves, the others are leaves. A listing of a directory holds every
leaf below it once, with the names that lead to it; on demand also every empty directory. It exists
only if every directory below can be read, and does not depend on the order of the entries.
-/
namespace Jst.Listing

variable {Id Name Entry : Type}

/-- Directories, and how their entries refer to directories. -/
structure Directories (Id Name Entry : Type) where
  direct : Id → Option (List (Name × Entry))
  sub : Entry → Option Id
  emptied : Id → Option Entry

variable (dirs : Directories Id Name Entry)

namespace Directories

/-- The mark that is listed for a directory with some entries. -/
def mark (id : Id) (entries : List (Name × Entry)) : List (List Name × Entry) :=
  match entries, dirs.emptied id with
  | [], some entry => [([], entry)]
  | _, _ => []

/-- What is listed for some entries of a directory. -/
inductive Entries : List (Name × Entry) → List (List Name × Entry) → Prop
  | nil : Entries [] []
  | leaf {name entry rest more} : dirs.sub entry = none → Entries rest more →
      Entries ((name, entry) :: rest) (([name], entry) :: more)
  | directory {name entry rest more id entries below} : dirs.sub entry = some id →
      dirs.direct id = some entries → Entries entries below → Entries rest more →
      Entries ((name, entry) :: rest)
        ((dirs.mark id entries ++ below).map (fun leaf => (name :: leaf.1, leaf.2)) ++ more)

/-- What is listed for a directory. -/
def Lists (id : Id) (leaves : List (List Name × Entry)) : Prop :=
  ∃ entries below, dirs.direct id = some entries ∧ dirs.Entries entries below ∧
    leaves = dirs.mark id entries ++ below

/-- What is listed for one entry. -/
def Part (entry : Name × Entry) (part : List (List Name × Entry)) : Prop :=
  match dirs.sub entry.2 with
  | none => part = [([entry.1], entry.2)]
  | some id => ∃ leaves, dirs.Lists id leaves ∧
      part = leaves.map fun leaf => (entry.1 :: leaf.1, leaf.2)

/-- The directory is an entry of the other one. -/
def Within (id below : Id) : Prop :=
  ∃ entries, dirs.direct id = some entries ∧ ∃ entry ∈ entries, dirs.sub entry.2 = some below

/-- A leaf that is reached by names from a directory. -/
inductive Leaf : Id → List Name → Entry → Prop
  | entry {id name leaf entries} : dirs.direct id = some entries → (name, leaf) ∈ entries →
      dirs.sub leaf = none → Leaf id [name] leaf
  | empty {id leaf} : dirs.direct id = some [] → dirs.emptied id = some leaf → Leaf id [] leaf
  | deeper {id name entry entries lower names leaf} : dirs.direct id = some entries →
      (name, entry) ∈ entries → dirs.sub entry = some lower → Leaf lower names leaf →
      Leaf id (name :: names) leaf

variable {dirs} {id : Id} {entries : List (Name × Entry)} {leaves : List (List Name × Entry)}

theorem entries_cons {entry : Name × Entry} : dirs.Entries (entry :: entries) leaves ↔
    ∃ part more, leaves = part ++ more ∧ dirs.Part entry part ∧ dirs.Entries entries more := by
  constructor
  · intro listed
    cases listed with
    | leaf plain rest => exact ⟨[_], _, rfl, by simp [Part, plain], rest⟩
    | directory leads read below rest =>
      refine ⟨_, _, rfl, ?_, rest⟩
      simp only [Part, leads]
      exact ⟨_, ⟨_, _, read, below, rfl⟩, rfl⟩
  · rintro ⟨part, more, rfl, listed, rest⟩
    obtain ⟨name, entry⟩ := entry
    unfold Part at listed
    cases leads : dirs.sub entry with
    | none =>
      simp only [leads] at listed
      subst listed
      exact .leaf leads rest
    | some id =>
      simp only [leads] at listed
      obtain ⟨_, ⟨entries, below, read, listed, rfl⟩, rfl⟩ := listed
      exact .directory leads read listed rest

theorem Entries.perm {other : List (Name × Entry)} (same : entries.Perm other)
    (listed : dirs.Entries entries leaves) :
    ∃ found, dirs.Entries other found ∧ leaves.Perm found := by
  induction same generalizing leaves with
  | nil => exact ⟨leaves, listed, .refl _⟩
  | cons entry _ step =>
    obtain ⟨part, more, rfl, first, rest⟩ := entries_cons.mp listed
    obtain ⟨found, again, alike⟩ := step rest
    exact ⟨part ++ found, entries_cons.mpr ⟨part, found, rfl, first, again⟩, alike.append_left part⟩
  | swap first second rest =>
    obtain ⟨left, _, rfl, listedLeft, listed⟩ := entries_cons.mp listed
    obtain ⟨right, more, rfl, listedRight, listed⟩ := entries_cons.mp listed
    refine ⟨right ++ (left ++ more), entries_cons.mpr ⟨right, _, rfl, listedRight,
      entries_cons.mpr ⟨left, more, rfl, listedLeft, listed⟩⟩, ?_⟩
    rw [← List.append_assoc, ← List.append_assoc]
    exact List.perm_append_comm.append_right more
  | trans _ _ first second =>
    obtain ⟨middle, listed, alike⟩ := first listed
    obtain ⟨found, listed, alike'⟩ := second listed
    exact ⟨found, listed, alike.trans alike'⟩

/-- Two readings of the same directories, which yield the entries in different orders. -/
structure Alike (dirs other : Directories Id Name Entry) : Prop where
  direct : ∀ id entries, dirs.direct id = some entries →
    ∃ found, other.direct id = some found ∧ entries.Perm found
  sub : dirs.sub = other.sub
  emptied : dirs.emptied = other.emptied

variable {other : Directories Id Name Entry}

theorem Alike.mark (alike : Alike dirs other) (id : Id)
    {found : List (Name × Entry)} (same : entries.Perm found) :
    dirs.mark id entries = other.mark id found := by
  unfold Directories.mark
  rw [alike.emptied]
  cases entries with
  | nil =>
    rw [List.nil_perm.mp same]
  | cons first rest =>
    cases found with
    | nil => exact absurd same.length_eq (by simp)
    | cons first' rest' => rfl

theorem Entries.alike (alike : Alike dirs other) (listed : dirs.Entries entries leaves) :
    ∃ found, other.Entries entries found ∧ leaves.Perm found := by
  induction listed with
  | nil => exact ⟨[], .nil, .refl _⟩
  | leaf plain _ step =>
    obtain ⟨found, listed, same⟩ := step
    exact ⟨_, .leaf (alike.sub ▸ plain) listed, same.cons _⟩
  | @directory name entry rest more id entries below leads read _ _ down step =>
    obtain ⟨found, listed, same⟩ := step
    obtain ⟨lower, listedLower, sameLower⟩ := down
    obtain ⟨others, readOther, sameEntries⟩ := alike.direct id entries read
    obtain ⟨final, listedFinal, sameFinal⟩ := listedLower.perm sameEntries
    refine ⟨_, .directory (alike.sub ▸ leads) readOther listedFinal listed, ?_⟩
    rw [alike.mark id sameEntries]
    exact (((sameLower.trans sameFinal).append_left _).map _).append same

theorem Lists.alike (alike : Alike dirs other)
    (listed : dirs.Lists id leaves) : ∃ found, other.Lists id found ∧ leaves.Perm found := by
  obtain ⟨entries, below, read, listed, rfl⟩ := listed
  obtain ⟨others, readOther, sameEntries⟩ := alike.direct id entries read
  obtain ⟨lower, listedLower, sameLower⟩ := listed.alike alike
  obtain ⟨final, listedFinal, sameFinal⟩ := listedLower.perm sameEntries
  refine ⟨_, ⟨others, final, readOther, listedFinal, rfl⟩, ?_⟩
  rw [alike.mark id sameEntries]
  exact (sameLower.trans sameFinal).append_left _

theorem Entries.read (listed : dirs.Entries entries leaves) {entry : Name × Entry} {lower id : Id}
    (inside : entry ∈ entries) (leads : dirs.sub entry.2 = some lower)
    (below : Relation.ReflTransGen dirs.Within lower id) : (dirs.direct id).isSome := by
  induction listed generalizing entry lower with
  | nil => exact absurd inside (List.not_mem_nil)
  | leaf plain _ step =>
    cases List.mem_cons.mp inside with
    | inl same =>
      subst same
      exact absurd (plain.symm.trans leads) (by simp)
    | inr further => exact step further leads below
  | @directory name _ rest more first entries _ leads' read _ _ down step =>
    cases List.mem_cons.mp inside with
    | inl same =>
      subst same
      cases leads'.symm.trans leads
      cases below.cases_head with
      | inl same => exact same ▸ read ▸ rfl
      | inr next =>
        obtain ⟨middle, ⟨entries', read', entry, inside, leads⟩, below⟩ := next
        cases read.symm.trans read'
        exact down inside leads below
    | inr further => exact step further leads below

theorem Lists.read (listed : dirs.Lists id leaves) {lower : Id}
    (below : Relation.ReflTransGen dirs.Within id lower) : (dirs.direct lower).isSome := by
  obtain ⟨entries, found, read, listed, -⟩ := listed
  cases below.cases_head with
  | inl same => exact same ▸ read ▸ rfl
  | inr next =>
    obtain ⟨middle, ⟨entries', read', entry, inside, leads⟩, below⟩ := next
    cases read.symm.trans read'
    exact listed.read inside leads below

variable (dirs) in
/-- A leaf that names lead to from some entries. -/
def Reached (entries : List (Name × Entry)) (path : List Name) (leaf : Entry) : Prop :=
  ∃ name entry names, path = name :: names ∧ (name, entry) ∈ entries ∧
    ((dirs.sub entry = none ∧ names = [] ∧ leaf = entry) ∨
      ∃ lower, dirs.sub entry = some lower ∧ dirs.Leaf lower names leaf)

theorem leaf_iff (read : dirs.direct id = some entries) {path : List Name} {leaf : Entry} :
    dirs.Leaf id path leaf ↔
      (path, leaf) ∈ dirs.mark id entries ∨ dirs.Reached entries path leaf := by
  constructor
  · intro reached
    cases reached with
    | entry read' inside plain =>
      cases read.symm.trans read'
      exact .inr ⟨_, _, _, rfl, inside, .inl ⟨plain, rfl, rfl⟩⟩
    | empty read' listed =>
      cases read.symm.trans read'
      exact .inl (by simp [mark, listed])
    | deeper read' inside leads deeper =>
      cases read.symm.trans read'
      exact .inr ⟨_, _, _, rfl, inside, .inr ⟨_, leads, deeper⟩⟩
  · rintro (marked | ⟨name, entry, names, rfl, inside, ⟨plain, rfl, rfl⟩ | ⟨lower, leads, deeper⟩⟩)
    · cases entries with
      | nil =>
        cases listed : dirs.emptied id with
        | none => simp [mark, listed] at marked
        | some entry =>
          simp only [mark, listed, List.mem_singleton, Prod.mk.injEq] at marked
          obtain ⟨rfl, rfl⟩ := marked
          exact .empty read listed
      | cons => simp [mark] at marked
    · exact .entry read inside plain
    · exact .deeper read inside leads deeper

theorem mem_entries (listed : dirs.Entries entries leaves) (path : List Name) (leaf : Entry) :
    (path, leaf) ∈ leaves ↔ dirs.Reached entries path leaf := by
  induction listed generalizing path leaf with
  | nil => simp [Reached]
  | @leaf name entry rest more plain _ step =>
    rw [List.mem_cons, step]
    constructor
    · rintro (same | ⟨name', entry', names, rfl, inside, found⟩)
      · obtain ⟨rfl, rfl⟩ := Prod.mk.inj same
        exact ⟨name, _, [], rfl, List.mem_cons_self, .inl ⟨plain, rfl, rfl⟩⟩
      · exact ⟨name', entry', names, rfl, List.mem_cons_of_mem _ inside, found⟩
    · rintro ⟨name', entry', names, rfl, inside, found⟩
      cases List.mem_cons.mp inside with
      | inl same =>
        obtain ⟨rfl, rfl⟩ := Prod.mk.inj same
        obtain ⟨-, rfl, rfl⟩ | ⟨lower, leads, -⟩ := found
        · exact .inl rfl
        · exact absurd (plain.symm.trans leads) (by simp)
      | inr further => exact .inr ⟨name', entry', names, rfl, further, found⟩
  | @directory name entry rest more lower entries below leads read _ _ down step =>
    have here : ∀ names leaf, (names, leaf) ∈ dirs.mark lower entries ++ below ↔
        dirs.Leaf lower names leaf := by
      intro names leaf
      rw [List.mem_append, leaf_iff read, down]
    rw [List.mem_append, step]
    constructor
    · rintro (inside | ⟨name', entry', names, rfl, inside, found⟩)
      · obtain ⟨⟨names, leaf'⟩, member, same⟩ := List.mem_map.mp inside
        obtain ⟨rfl, rfl⟩ := Prod.mk.inj same
        exact ⟨name, entry, names, rfl, List.mem_cons_self,
          .inr ⟨lower, leads, (here names _).mp member⟩⟩
      · exact ⟨name', entry', names, rfl, List.mem_cons_of_mem _ inside, found⟩
    · rintro ⟨name', entry', names, rfl, inside, found⟩
      cases List.mem_cons.mp inside with
      | inl same =>
        obtain ⟨rfl, rfl⟩ := Prod.mk.inj same
        obtain ⟨plain, -⟩ | ⟨lower', leads', deeper⟩ := found
        · exact absurd (plain.symm.trans leads) (by simp)
        · cases leads.symm.trans leads'
          exact .inl (List.mem_map.mpr ⟨_, (here names leaf).mpr deeper, rfl⟩)
      | inr further => exact .inr ⟨name', entry', names, rfl, further, found⟩

theorem Lists.mem (listed : dirs.Lists id leaves) (path : List Name) (leaf : Entry) :
    (path, leaf) ∈ leaves ↔ dirs.Leaf id path leaf := by
  obtain ⟨entries, below, read, listed, rfl⟩ := listed
  rw [List.mem_append, leaf_iff read, mem_entries listed]

theorem path_of_mem_mark {path : List Name} {leaf : Entry}
    (marked : (path, leaf) ∈ dirs.mark id entries) : path = [] ∧ entries = [] := by
  unfold mark at marked
  split at marked
  · exact ⟨(Prod.mk.inj (List.mem_singleton.mp marked)).1, rfl⟩
  · exact absurd marked (List.not_mem_nil)

theorem Entries.nodup (listed : dirs.Entries entries leaves) (once : (entries.map Prod.fst).Nodup)
    (distinct : ∀ id entries, dirs.direct id = some entries → (entries.map Prod.fst).Nodup) :
    (leaves.map Prod.fst).Nodup := by
  have apart : ∀ {name : Name} {entry : Entry} {rest : List (Name × Entry)}
      {more : List (List Name × Entry)} {names : List Name}, dirs.Entries rest more →
      (((name, entry) :: rest).map Prod.fst).Nodup → (name :: names) ∉ more.map Prod.fst := by
    intro name entry rest more names listed once inside
    obtain ⟨⟨path, leaf⟩, member, same⟩ := List.mem_map.mp inside
    obtain ⟨name', entry', names', split, found, -⟩ := (mem_entries listed path leaf).mp member
    change path = name :: names at same
    rw [same] at split
    cases split
    exact (List.nodup_cons.mp once).1 (List.mem_map.mpr ⟨_, found, rfl⟩)
  induction listed with
  | nil => exact List.nodup_nil
  | leaf _ rest step =>
    exact List.nodup_cons.mpr ⟨apart rest once, step (List.nodup_cons.mp once).2⟩
  | @directory name entry rest more lower entries below leads read listed' others down step =>
    have inner : ((dirs.mark lower entries ++ below).map Prod.fst).Nodup := by
      rw [List.map_append]
      refine List.Nodup.append ?_ (down (distinct _ _ read)) ?_
      · unfold mark
        split <;> simp
      · intro path marked member
        obtain ⟨⟨_, leaf⟩, isMark, rfl⟩ := List.mem_map.mp marked
        obtain ⟨⟨path, leaf'⟩, isLeaf, same⟩ := List.mem_map.mp member
        obtain ⟨rfl, -⟩ := path_of_mem_mark isMark
        obtain ⟨name, _, _, split, -⟩ := (mem_entries listed' path leaf').mp isLeaf
        exact absurd (split.symm.trans same) (by simp)
    rw [List.map_append, List.map_map]
    refine List.Nodup.append ?_ (step (List.nodup_cons.mp once).2) ?_
    · rw [show (Prod.fst ∘ fun leaf : List Name × Entry => (name :: leaf.1, leaf.2)) =
        (fun path => name :: path) ∘ Prod.fst from rfl, ← List.map_map]
      exact inner.map (List.cons_injective)
    · intro path inside member
      obtain ⟨_, _, rfl⟩ := List.mem_map.mp inside
      exact apart others once member

theorem Lists.nodup (listed : dirs.Lists id leaves)
    (distinct : ∀ id entries, dirs.direct id = some entries → (entries.map Prod.fst).Nodup) :
    leaves.Nodup := by
  obtain ⟨entries, below, read, listed, rfl⟩ := listed
  refine List.Nodup.append ?_ (.of_map Prod.fst (listed.nodup (distinct _ _ read) distinct)) ?_
  · unfold mark
    split <;> simp
  · rintro ⟨path, leaf⟩ marked member
    obtain ⟨rfl, -⟩ := path_of_mem_mark marked
    obtain ⟨name, _, _, split, -⟩ := (mem_entries listed _ _).mp member
    exact absurd split (by simp)

end Directories

end Jst.Listing
