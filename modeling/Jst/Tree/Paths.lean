import Jst.Tree.Overlay
/-!
# Trees by paths

A tree of a content-addressed store stands for the entries at its paths. The overlay of two trees
should have the entry of the other tree where there is one, the entry of the base elsewhere, and the
overlay of the subtrees where both have a tree. Each of these readings is relative to a way of
looking up the entries of one tree object: as they are written, or as the parser reads them.
-/
namespace Jst.Tree

variable {Hash : Type} [DecidableEq Hash]

/-- The entry of a tree object with a name: its type and its hash. -/
def entryIn (data : GitTree Hash) (name : Str) : Option (ObjectType × Hash) :=
  (data.find? fun entry => entry.name = name).map fun entry => (entry.type, entry.hash)

/-- The type of the first entry with a hash. -/
def firstType (data : GitTree Hash) (hash : Hash) : Option ObjectType :=
  (data.find? fun entry => entry.hash = hash).map GitEntry.type

/-- The entry of a tree object with a name, as the parser reads it: with the type of the first
entry of its hash. -/
def misreadIn (data : GitTree Hash) (name : Str) : Option (ObjectType × Hash) :=
  (entryIn data name).bind fun entry => (firstType data entry.2).map fun type => (type, entry.2)

/-- The tree object of an id. -/
def contents (cas : Cas Hash) (tree : Hash) : GitTree Hash := (cas.retrieve tree).getD []

/-- The entry of a tree with a name. -/
def entry (cas : Cas Hash) (tree : Hash) (name : Str) : Option (ObjectType × Hash) :=
  entryIn (contents cas tree) name

/-- The entry of a tree with a name, as the parser reads it. -/
def readEntry (cas : Cas Hash) (tree : Hash) (name : Str) : Option (ObjectType × Hash) :=
  misreadIn (contents cas tree) name

/-- A tree object as git writes it: the names are different, without slashes, and sorted. -/
structure WellFormed (data : GitTree Hash) : Prop where
  distinct : (data.map GitEntry.name).Nodup
  plain : ∀ item ∈ data, 0x2f ∉ item.name
  sorted : data.Pairwise fun left right =>
    sortName left.name left.type < sortName right.name right.type

/-- A tree nested at most so many levels deep: its object is well formed, the entries of type tree
are such trees again, and no other entry has the hash of a tree. -/
def IsTree (cas : Cas Hash) : Nat → Hash → Prop
  | 0, _ => False
  | depth + 1, tree => ∃ data, cas.retrieve tree = some data ∧ WellFormed data ∧
      ∀ item ∈ data, if item.type = .tree then IsTree cas depth item.hash
        else cas.retrieve item.hash = none

/-- The entry of a tree at a path, for a given way to look up the entries of a tree. -/
def entryAt (lookup : Hash → Str → Option (ObjectType × Hash)) :
    List Str → Hash → Option (ObjectType × Hash)
  | [], tree => some (.tree, tree)
  | name :: path, tree =>
    match lookup tree name with
    | some (.tree, subtree) => entryAt lookup path subtree
    | some item => if path = [] then some item else none
    | none => none

/-- What the overlay of two trees should have at a path. -/
inductive Expected (Hash : Type) where
  | entry (item : Option (ObjectType × Hash))
  | merged

/-- What the overlay of two trees should have at a path: the overlay where both have a tree, else
what the other tree has, and what the base has where the other tree has nothing. -/
def overlayAt (cas : Cas Hash) : List Str → Hash → Hash → Expected Hash
  | [], _, _ => .merged
  | name :: path, base, other =>
    match entry cas other name, entry cas base name with
    | some (.tree, otherTree), some (.tree, baseTree) => overlayAt cas path baseTree otherTree
    | some _, _ => .entry (entryAt (entry cas) (name :: path) other)
    | none, _ => .entry (entryAt (entry cas) (name :: path) base)

/-- What is found at a path is what is expected there. -/
def Expected.Agrees : Expected Hash → Option (ObjectType × Hash) → Prop
  | .entry item, found => found = item
  | .merged, found => ∃ tree, found = some (.tree, tree)

/-- Some path has different entries in two trees that are not both trees. -/
def Conflict (lookup : Hash → Str → Option (ObjectType × Hash)) (base other : Hash) : Prop :=
  ∃ path baseItem otherItem, entryAt lookup path base = some baseItem ∧
    entryAt lookup path other = some otherItem ∧ baseItem ≠ otherItem ∧
    ¬ (baseItem.1 = .tree ∧ otherItem.1 = .tree)

/-- The overlay takes over no misread entry: wherever two different trees are merged, the entries of
the other tree, and those of the base that have no counterpart there, are read with their types. -/
def Faithful (cas : Cas Hash) (base other : Hash) : Prop :=
  ∀ path baseTree otherTree, entryAt (entry cas) path base = some (.tree, baseTree) →
    entryAt (entry cas) path other = some (.tree, otherTree) → baseTree ≠ otherTree → ∀ name,
    (readEntry cas otherTree name).or (readEntry cas baseTree name) =
      (entry cas otherTree name).or (entry cas baseTree name)

section Paths

variable {cas : Cas Hash} {tree base other : Hash}
  {lookup : Hash → Str → Option (ObjectType × Hash)}

section
omit [DecidableEq Hash]

theorem entryAt_cons (name : Str) (path : List Str) : entryAt lookup (name :: path) tree =
    (lookup tree name).bind fun item =>
      if item.1 = .tree then entryAt lookup path item.2 else if path = [] then some item else none := by
  rw [entryAt]
  split
  · next found => simp [found]
  · next item noTree found =>
    have other : item.1 ≠ .tree := fun isTree => noTree item.2 (Prod.ext isTree rfl)
    rw [found, bind_some, if_neg other]
  · next missing => rw [missing, Option.bind_none]

theorem entryAt_singleton (lookup : Hash → Str → Option (ObjectType × Hash)) (tree : Hash)
    (name : Str) : entryAt lookup [name] tree = lookup tree name := by
  rw [entryAt_cons]
  cases lookup tree name with
  | none => rfl
  | some item =>
    simp only [bind_some]
    split
    · next isTree => rw [entryAt, ← isTree]
    · rfl

variable {name : Str} {path : List Str}

theorem eq_nil_of_entryAt {item found : ObjectType × Hash}
    (present : lookup tree name = some item) (noTree : item.1 ≠ .tree)
    (reached : entryAt lookup (name :: path) tree = some found) : path = [] ∧ found = item := by
  rw [entryAt_cons, present, bind_some, if_neg noTree] at reached
  split at reached
  · next empty => exact ⟨empty, (some.inj reached).symm⟩
  · cases reached

theorem tree_of_entryAt {found : Hash}
    (reached : entryAt (entry cas) (name :: path) tree = some (.tree, found)) :
    ∃ subtree, entry cas tree name = some (.tree, subtree) ∧
      entryAt (entry cas) path subtree = some (.tree, found) := by
  have here := reached
  rw [entryAt_cons, bind_eq_some_iff] at here
  obtain ⟨item, present, deeper⟩ := here
  by_cases isTree : item.1 = .tree
  · rw [if_pos isTree] at deeper
    exact ⟨item.2, by rw [present, ← isTree], deeper⟩
  · obtain ⟨-, same⟩ := eq_nil_of_entryAt present isTree reached
    exact absurd (congrArg fst same).symm isTree

theorem entryAt_congr {left right : Hash} (same : entry cas left name = entry cas right name) :
    entryAt (entry cas) (name :: path) left = entryAt (entry cas) (name :: path) right := by
  rw [entryAt_cons, entryAt_cons, same]

theorem conflict_iff : Conflict lookup base other ↔
    (∃ name baseItem otherItem, lookup base name = some baseItem ∧
      lookup other name = some otherItem ∧ baseItem ≠ otherItem ∧
      ¬ (baseItem.1 = .tree ∧ otherItem.1 = .tree)) ∨
    ∃ name baseTree otherTree, lookup base name = some (.tree, baseTree) ∧
      lookup other name = some (.tree, otherTree) ∧ Conflict lookup baseTree otherTree := by
  constructor
  · rintro ⟨path, left, right, leftHas, rightHas, differ, noTrees⟩
    cases path with
    | nil =>
      cases leftHas
      cases rightHas
      exact absurd ⟨rfl, rfl⟩ noTrees
    | cons name path =>
      have leftFound := leftHas
      have rightFound := rightHas
      rw [entryAt_cons, bind_eq_some_iff] at leftFound rightFound
      obtain ⟨⟨leftType, leftHash⟩, leftHere, leftBelow⟩ := leftFound
      obtain ⟨⟨rightType, rightHash⟩, rightHere, rightBelow⟩ := rightFound
      by_cases trees : leftType = .tree ∧ rightType = .tree
      · obtain ⟨rfl, rfl⟩ := trees
        exact .inr ⟨name, leftHash, rightHash, leftHere, rightHere,
          path, left, right, by simpa using leftBelow, by simpa using rightBelow, differ, noTrees⟩
      · -- One side is no tree, so the path ends here.
        have ends : path = [] := by
          rcases not_and_or.mp trees with noTree | noTree
          · exact (eq_nil_of_entryAt leftHere noTree leftHas).1
          · exact (eq_nil_of_entryAt rightHere noTree rightHas).1
        subst ends
        rw [entryAt_singleton] at leftHas rightHas
        exact .inl ⟨name, left, right, leftHas, rightHas, differ, noTrees⟩
  · rintro (⟨name, left, right, leftHas, rightHas, differ, noTrees⟩ |
      ⟨name, leftTree, rightTree, leftHas, rightHas, path, left, right, leftFound, rightFound, rest⟩)
    · exact ⟨[name], left, right, by rw [entryAt_singleton, leftHas],
        by rw [entryAt_singleton, rightHas], differ, noTrees⟩
    · exact ⟨name :: path, left, right, by rw [entryAt_cons, leftHas]; exact leftFound,
        by rw [entryAt_cons, rightHas]; exact rightFound, rest⟩

theorem conflict_irrefl : ¬ Conflict lookup tree tree := by
  rintro ⟨path, left, right, leftHas, rightHas, differ, -⟩
  rw [leftHas] at rightHas
  exact differ (some.inj rightHas)

theorem agrees_same (path : List Str) :
    (overlayAt cas path tree tree).Agrees (entryAt (entry cas) path tree) := by
  induction path generalizing tree with
  | nil => exact ⟨tree, rfl⟩
  | cons name path step =>
    rw [overlayAt]
    split
    · next left right leftHas rightHas =>
      rw [leftHas] at rightHas
      cases rightHas
      rw [entryAt, leftHas]
      exact step
    · rfl
    · rfl

end

end Paths

end Jst.Tree
