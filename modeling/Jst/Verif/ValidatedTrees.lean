import Jst.FileSystem.GitTreeUtils
import Jst.Verif.GarbageCollection
/-!
# Markers of validated trees are sound

A tree is marked only after all its subtrees have been found valid, and the collection of garbage
moves and removes markers only. So whatever is marked in some generation is valid, and a tree is
accepted exactly if it is valid, wherever earlier validations were stopped.
-/
namespace Jst.Verif.ValidatedTrees

open Jst.FileSystem.GitTreeUtils Jst.FileSystem.GitTreeUtils.GitCas Jst.Interruptible
  Jst.Interruptible.Program Jst.Storage Jst.Verif.GarbageCollection
open Relation (ReflTransGen)

variable {Hash Ephemeral : Type} {cas : GitCas Hash}

variable {entries : List (TreeEntry Hash)} {content : List (TreeObjectEntry Hash)}

/-- One tree is a subtree of another one. -/
def Subtree (cas : GitCas Hash) (above below : Hash) : Prop :=
  ∃ entries, cas.object above = some (.tree entries) ∧
    ∃ entry ∈ entries, entry.mode = .tree ∧ entry.id = below

/-- A tree is there, its entries are of known types, and the symbolic links among them are there. -/
def Present (cas : GitCas Hash) (id : Hash) : Prop :=
  ∃ entries, cas.object id = some (.tree entries) ∧ ∀ entry ∈ entries, entry.mode ≠ .other ∧
    (entry.mode = .link → (∃ data, cas.object entry.id = some (.blob data)) ∨
      ∃ inner, cas.object entry.id = some (.tree inner))

/-- No symbolic link in a tree leads upwards. -/
def Confined (cas : GitCas Hash) (id : Hash) : Prop :=
  ∀ entries, cas.object id = some (.tree entries) → ∀ entry ∈ entries, entry.mode = .link →
    ∀ target, cas.object entry.id = some (.blob target) → Path.pathIsNonUpwards target = true

/-- A tree and all its transitive subtrees can be read. -/
def Readable (cas : GitCas Hash) (id : Hash) : Prop :=
  ∀ below, ReflTransGen (Subtree cas) id below → Present cas below

/-- No symbolic link in a tree and all its transitive subtrees leads upwards. -/
def Sheltered (cas : GitCas Hash) (id : Hash) : Prop :=
  ∀ below, ReflTransGen (Subtree cas) id below → Confined cas below

/-- A tree can be read completely, and no symbolic link leads upwards. -/
def Valid (cas : GitCas Hash) (id : Hash) : Prop := Readable cas id ∧ Sheltered cas id

theorem valid_iff {id : Hash} : Valid cas id ↔ Present cas id ∧ Confined cas id ∧
    ∀ below, Subtree cas id below → Valid cas below := by
  constructor
  · intro valid
    refine ⟨valid.1 id .refl, valid.2 id .refl, fun below sub => ⟨?_, ?_⟩⟩
    · exact fun deeper path => valid.1 deeper (.head sub path)
    · exact fun deeper path => valid.2 deeper (.head sub path)
  · intro ⟨present, confined, below⟩
    constructor
    · intro deeper path
      cases ReflTransGen.cases_head path with
      | inl same => exact same ▸ present
      | inr further =>
        obtain ⟨middle, sub, path⟩ := further
        exact (below middle sub).1 deeper path
    · intro deeper path
      cases ReflTransGen.cases_head path with
      | inl same => exact same ▸ confined
      | inr further =>
        obtain ⟨middle, sub, path⟩ := further
        exact (below middle sub).2 deeper path

/-! ## Reading -/

/-- The entries of a tree object whose type is known. -/
def typed (entries : List (TreeObjectEntry Hash)) : List (TreeEntry Hash) :=
  entries.filterMap fun entry =>
    (gitFileModeToObjectType entry.mode).map fun type => ⟨entry.name, entry.id, type⟩

theorem typed_cons (entry : TreeObjectEntry Hash) (rest : List (TreeObjectEntry Hash)) :
    typed (entry :: rest) = match gitFileModeToObjectType entry.mode with
      | some type => ⟨entry.name, entry.id, type⟩ :: typed rest | none => typed rest := by
  rw [typed, List.filterMap_cons]
  cases gitFileModeToObjectType entry.mode <;> rfl

theorem mode_of_type {mode : FileMode} :
    (gitFileModeToObjectType mode = some .tree ↔ mode = .tree) ∧
    (gitFileModeToObjectType mode = some .symlink ↔ mode = .link) := by
  cases mode <;> simp [gitFileModeToObjectType]

theorem mem_typed {entry : TreeEntry Hash} : entry ∈ typed content ↔ ∃ object ∈ content,
      gitFileModeToObjectType object.mode = some entry.type ∧ object.name = entry.name ∧
      object.id = entry.id := by
  rw [typed, List.mem_filterMap]
  constructor
  · rintro ⟨object, inside, same⟩
    obtain ⟨type, isType, rfl⟩ := map_eq_some_iff.mp same
    exact ⟨object, inside, isType, rfl, rfl⟩
  · rintro ⟨object, inside, isType, isName, isId⟩
    refine ⟨object, inside, ?_⟩
    rw [isType, isName, isId]
    rfl

theorem flatTreeWalker_eq (entries : List (TreeObjectEntry Hash)) : flatTreeWalker false entries =
      if ∀ entry ∈ entries, entry.mode ≠ .other then some (typed entries) else none := by
  induction entries with
  | nil => rfl
  | cons entry rest ih =>
    rw [flatTreeWalker, ih, typed_cons]
    cases mode : entry.mode with
    | other => simp [mode, gitFileModeToObjectType]
    | _ =>
      simp only [Bool.false_and, false_eq_true, if_false, gitFileModeToObjectType,
        mem_cons, forall_eq_or_imp, mode, ne_eq, reduceCtorEq, not_false_eq_true, true_and]
      split <;> rfl

theorem fromEntries_entries (rawId : Hash) (ignoreSpecial : Bool)
    (distinct : (entries.map TreeEntry.name).Nodup) :
    (fromEntries rawId ignoreSpecial entries).entries =
      entries.map fun entry => (entry.name, ⟨entry.id, entry.type, none⟩) := by
  suffices all : ∀ (found : List (Str × GitTreeEntry Hash)),
      (∀ entry ∈ entries, ∀ other ∈ found, other.1 ≠ entry.name) →
      entries.foldl (fun found entry =>
        if found.any fun other => other.1 = entry.name then found
        else found ++ [(entry.name, ⟨entry.id, entry.type, none⟩)]) found =
      found ++ entries.map fun entry => (entry.name, ⟨entry.id, entry.type, none⟩) from
    all [] (fun _ _ _ absurd' => nomatch absurd')
  induction entries with
  | nil => exact fun found _ => (append_nil found).symm
  | cons entry rest ih =>
    intro found fresh
    obtain ⟨apart, distinct⟩ := nodup_cons.mp distinct
    have new : (found.any fun other => other.1 = entry.name) = false := by
      rw [List.any_eq_false]
      exact fun other inside => by simpa using fresh entry mem_cons_self other inside
    rw [foldl_cons, new, if_neg false_ne_true, ih distinct, map_cons, append_assoc]
    · rfl
    · intro later inside other member
      rcases mem_append.mp member with old | same
      · exact fresh later (mem_cons_of_mem _ inside) other old
      · rw [mem_singleton.mp same]
        exact fun equal => apart (mem_map.mpr ⟨later, inside, equal.symm⟩)

/-- What is read of a tree: its entries with their types. -/
structure Reads (cas : GitCas Hash) (id : Hash) (tree : GitTree Hash) : Prop where
  rawId : tree.rawId = id
  subtree_iff : ∀ below, Subtree cas id below ↔ ∃ name, (name, ⟨below, .tree, none⟩) ∈ tree.entries
  fresh : ∀ entry ∈ tree.entries, entry.2.cached = none
  less : ∀ entry ∈ tree.entries, cas.rank entry.2.rawId < cas.rank id

theorem readDirectTree_iff {id : Hash} : cas.readDirectTree id false = some entries ↔ ∃ content,
      cas.object id = some (.tree content) ∧ (∀ entry ∈ content, entry.mode ≠ .other) ∧
      entries = typed content := by
  unfold readDirectTree
  split
  · next content found =>
    rw [flatTreeWalker_eq]
    constructor
    · intro walked
      split at walked
      · next known => exact ⟨content, found, known, (some.inj walked).symm⟩
      · cases walked
    · rintro ⟨content', found', known, rfl⟩
      cases found.symm.trans found'
      rw [if_pos known]
  · next none' =>
    constructor
    · exact nofun
    · rintro ⟨content, found, -⟩
      exact absurd found (none' content)

theorem names_typed (known : ∀ entry ∈ content, entry.mode ≠ .other) :
    (typed content).map TreeEntry.name = content.map TreeObjectEntry.name := by
  induction content with
  | nil => rfl
  | cons entry rest ih =>
    have here := known entry mem_cons_self
    have others := ih (forall_mem_cons.mp known).2
    rw [typed_cons]
    cases mode : entry.mode with
    | other => exact absurd mode here
    | _ => exact congrArg (entry.name :: ·) others

theorem reads_of_readDirectTree {id : Hash} (read : cas.readDirectTree id false = some entries) :
    Reads cas id (fromEntries id false entries) := by
  obtain ⟨content, found, known, rfl⟩ := readDirectTree_iff.mp read
  have listed := fromEntries_entries id false
    ((names_typed known).symm ▸ cas.names id content found)
  refine ⟨rfl, fun below => ?_, ?_, ?_⟩
  · rw [listed]
    constructor
    · rintro ⟨content', found', object, inside, isTree, rfl⟩
      cases found.symm.trans found'
      have member : (⟨object.name, object.id, .tree⟩ : TreeEntry Hash) ∈ typed content :=
        mem_typed.mpr ⟨object, inside, mode_of_type.1.mpr isTree, rfl, rfl⟩
      exact ⟨object.name, mem_map.mpr ⟨_, member, rfl⟩⟩
    · rintro ⟨name, inside⟩
      obtain ⟨entry, member, same⟩ := mem_map.mp inside
      obtain ⟨object, inside, isType, -, isId⟩ := mem_typed.mp member
      simp only [Prod.mk.injEq, GitTreeEntry.mk.injEq] at same
      rw [same.2.2.1] at isType
      exact ⟨content, found, object, inside, mode_of_type.1.mp isType, isId.trans same.2.1⟩
  · rw [listed]
    intro entry inside
    obtain ⟨_, _, rfl⟩ := mem_map.mp inside
    rfl
  · rw [listed]
    intro entry inside
    obtain ⟨walked, member, rfl⟩ := mem_map.mp inside
    obtain ⟨object, inside, -, -, isId⟩ := mem_typed.mp member
    exact isId ▸ cas.ranked id content found object inside

theorem readObject_iff {id : Hash} : cas.readObject id = true ↔
    ((∃ data, cas.object id = some (.blob data)) ∨ ∃ inner, cas.object id = some (.tree inner)) ∧
    ∀ target, cas.object id = some (.blob target) → Path.pathIsNonUpwards target = true := by
  unfold readObject
  split
  · next data found => simp [found]
  · next inner found => simp [found]
  · next noBlob noTree =>
    refine ⟨nofun, ?_⟩
    rintro ⟨⟨data, found⟩ | ⟨inner, found⟩, -⟩
    · exact absurd found (noBlob data)
    · exact absurd found (noTree inner)

theorem symlinksChecker_typed :
    cas.symlinksChecker (((typed content).filter fun entry => entry.type = .symlink).map
      TreeEntry.id) = true ↔
      ∀ object ∈ content, object.mode = .link → cas.readObject object.id = true := by
  rw [symlinksChecker, List.all_eq_true]
  constructor
  · intro all object inside isLink
    have member : (⟨object.name, object.id, .symlink⟩ : TreeEntry Hash) ∈ typed content :=
      mem_typed.mpr ⟨object, inside, mode_of_type.2.mpr isLink, rfl, rfl⟩
    exact all _ (mem_map.mpr ⟨_, mem_filter.mpr ⟨member, by simp⟩, rfl⟩)
  · intro all id inside
    obtain ⟨entry, filtered, rfl⟩ := mem_map.mp inside
    obtain ⟨member, isLink⟩ := mem_filter.mp filtered
    obtain ⟨object, inside, isType, -, isId⟩ := mem_typed.mp member
    rw [of_decide_eq_true isLink] at isType
    exact isId ▸ all object inside (mode_of_type.2.mp isType)

theorem readTree_iff {id : Hash} :
    cas.readTree id false = some entries ↔ cas.readDirectTree id false = some entries ∧
      Present cas id ∧ Confined cas id := by
  unfold readTree
  constructor
  · intro read
    split at read
    · cases read
    · next walked direct =>
      dsimp only at read
      split at read
      · cases read
      · next passed =>
        cases read
        obtain ⟨content, found, known, rfl⟩ := readDirectTree_iff.mp direct
        have links := symlinksChecker_typed.mp (by simpa using passed)
        refine ⟨direct, ⟨content, found, fun object inside => ⟨known object inside, fun isLink =>
          (readObject_iff.mp (links object inside isLink)).1⟩⟩, ?_⟩
        intro content' found' object inside isLink
        cases found.symm.trans found'
        exact (readObject_iff.mp (links object inside isLink)).2
  · rintro ⟨direct, ⟨content, found, each⟩, confined⟩
    obtain ⟨content', found', -, rfl⟩ := readDirectTree_iff.mp direct
    cases found.symm.trans found'
    have passed := symlinksChecker_typed.mpr fun object inside isLink => readObject_iff.mpr
      ⟨(each object inside).2 isLink, confined content found object inside isLink⟩
    rw [direct]
    simp only [passed]
    rfl

theorem Present.readDirectTree {id : Hash} (present : Present cas id) :
    ∃ entries, cas.readDirectTree id false = some entries := by
  obtain ⟨content, found, each⟩ := present
  exact ⟨_, readDirectTree_iff.mpr ⟨content, found, fun entry inside => (each entry inside).1, rfl⟩⟩

theorem Reads.valid_iff {id : Hash} {tree : GitTree Hash} (reads : Reads cas id tree)
    (present : Present cas id) (confined : Confined cas id) :
    Valid cas id ↔ ∀ entry ∈ tree.entries, entry.2.type = .tree → Valid cas entry.2.rawId := by
  rw [ValidatedTrees.valid_iff]
  constructor
  · rintro ⟨-, -, below⟩ ⟨name, rawId, type, cached⟩ inside isTree
    have fresh : cached = none := reads.fresh _ inside
    have isTree : type = .tree := isTree
    subst fresh isTree
    exact below rawId ((reads.subtree_iff rawId).mpr ⟨name, inside⟩)
  · intro each
    refine ⟨present, confined, fun below sub => ?_⟩
    obtain ⟨name, inside⟩ := (reads.subtree_iff below).mp sub
    exact each _ inside rfl

theorem not_valid_of_readTree {id : Hash} (unread : cas.readTree id false = none) :
    ¬ Valid cas id := by
  intro valid
  obtain ⟨present, confined, -⟩ := ValidatedTrees.valid_iff.mp valid
  obtain ⟨entries, direct⟩ := present.readDirectTree
  cases unread.symm.trans (readTree_iff.mpr ⟨direct, present, confined⟩)

theorem reads_of_readTree {id : Hash} (read : cas.readTree id false = some entries) :
    Reads cas id (fromEntries id false entries) ∧ (Valid cas id ↔
      ∀ entry ∈ (fromEntries id false entries).entries, entry.2.type = .tree →
        Valid cas entry.2.rawId) := by
  obtain ⟨direct, present, confined⟩ := readTree_iff.mp read
  have reads := reads_of_readDirectTree direct
  exact ⟨reads, reads.valid_iff present confined⟩

theorem entryTree_eq {entry : GitTreeEntry Hash} (isTree : entry.type = .tree)
    (plain : entry.cached ≠ some true) : cas.entryTree entry false =
      (cas.readTree entry.rawId false).map (fromEntries entry.rawId false) := by
  have flag : entry.cached.getD false = false := by
    cases known : entry.cached with
    | none => rfl
    | some value =>
      cases value with
      | false => rfl
      | true => exact absurd known plain
  rw [entryTree, flag, if_pos isTree]

/-! ## Markers -/

section Markers

variable [DecidableEq Hash] {state : CacheRoot (List Hash) Ephemeral} {numGenerations : Nat}
  {possible : Outcome (List Hash) → Prop} {id : Hash}

/-- Every marked tree is valid. -/
def Sound (cas : GitCas Hash) (numGenerations : Nat) (state : CacheRoot (List Hash) Ephemeral) :
    Prop :=
  ∀ generation < numGenerations, ∀ id, marked state generation id = true → Valid cas id

/-- An answer that is only positive if something holds, and is so then unless a file cannot be
created. -/
def Accepts (possible : Outcome (List Hash) → Prop) (holds : Prop) (result : Bool) : Prop :=
  (result = true → holds) ∧
    ((∀ outcome, possible outcome → outcome.success = true) → holds → result = true)

theorem marked_createDirectory (generation : Nat) :
    marked (createDirectory state) generation id = marked state generation id := by
  unfold marked createDirectory
  rw [CacheRoot.generations_setGeneration]
  by_cases youngest : generation = 0
  · subst youngest
    rw [update_self]
    cases state.generations 0 with
    | none => simp
    | some directory => rfl
  · rw [update_of_ne youngest]

theorem marked_createFile {new : Hash} (generation : Nat)
    (isMarked : marked (createFile new state) generation id = true) :
    marked state generation id = true ∨ id = new := by
  unfold marked createFile at isMarked
  rw [CacheRoot.generations_setGeneration] at isMarked
  by_cases youngest : generation = 0
  · subst youngest
    rw [update_self] at isMarked
    unfold marked
    cases there : state.generations 0 with
    | none => simp [there] at isMarked
    | some directory =>
      rw [there] at isMarked
      have inside : id ∈ new :: directory.content := of_decide_eq_true isMarked
      rcases mem_cons.mp inside with same | old
      · exact .inr same
      · exact .inl (decide_eq_true old)
  · rw [update_of_ne youngest] at isMarked
    exact .inl isMarked

theorem meets_markTreeValid (sound : Sound cas numGenerations state) (valid : Valid cas id) :
    Meets possible (markTreeValid id) state (Sound cas numGenerations)
      fun result _ => Accepts possible (Valid cas id) result := by
  have fails : ¬ (∀ outcome, possible outcome → outcome.success = true) →
      Accepts possible (Valid cas id) false := fun failed =>
    ⟨nofun, fun granted => absurd granted failed⟩
  refine meets_ask sound fun outcome isPossible => ?_
  split
  · have created : Sound cas numGenerations (createDirectory state) :=
      fun generation inside id' isMarked =>
        sound generation inside id' (by rwa [marked_createDirectory] at isMarked)
    refine meets_read (meets_write (meets_ask created fun outcome' isPossible' => ?_))
    split
    · have marks : Sound cas numGenerations (createFile id (createDirectory state)) := by
        intro generation inside id' isMarked
        rcases marked_createFile generation isMarked with old | rfl
        · exact created generation inside id' old
        · exact valid
      exact meets_read (meets_write (meets_pure marks ⟨fun _ => valid, fun _ _ => rfl⟩))
    · next failed =>
      exact meets_pure created (fails fun granted => failed (granted outcome' isPossible'))
  · next failed => exact meets_pure sound (fails fun granted => failed (granted outcome isPossible))

theorem meets_isTreeValid (sound : Sound cas numGenerations state) :
    Meets possible (isTreeValid numGenerations id) state (Sound cas numGenerations)
      fun result _ => result = true → Valid cas id := by
  suffices loop : ∀ generations : List Nat, (∀ generation ∈ generations, generation < numGenerations) →
      Meets possible (isTreeValidIn id generations) state (Sound cas numGenerations)
        fun result _ => result = true → Valid cas id from
    loop _ fun _ => List.mem_range.mp
  intro generations inside
  induction generations with
  | nil => exact meets_pure sound nofun
  | cons generation rest ih =>
    refine meets_read ?_
    split
    · next isMarked =>
      have valid := sound generation (inside generation mem_cons_self) id isMarked
      split
      · exact meets_pure sound fun _ => valid
      · exact (meets_markTreeValid sound valid).mono (fun _ same => same)
          fun _ _ accepts => accepts.1
    · exact ih (forall_mem_cons.mp inside).2

theorem meets_validateEntries {validate : GitTreeEntry Hash → Collection (List Hash) Ephemeral Bool}
    {entries : List (Str × GitTreeEntry Hash)}
    (each : ∀ entry ∈ entries, entry.2.type = .tree → ∀ state, Sound cas numGenerations state →
      Meets possible (validate entry.2) state (Sound cas numGenerations)
        fun result _ => Accepts possible (Valid cas entry.2.rawId) result)
    (sound : Sound cas numGenerations state) :
    Meets possible (validateEntries numGenerations validate entries) state (Sound cas numGenerations)
      fun result _ => Accepts possible
        (∀ entry ∈ entries, entry.2.type = .tree → Valid cas entry.2.rawId) result := by
  induction entries generalizing state with
  | nil => exact meets_pure sound ⟨fun _ _ absurd' => (nomatch absurd'), fun _ _ => rfl⟩
  | cons first rest ih =>
    obtain ⟨name, entry⟩ := first
    have others := (forall_mem_cons.mp each).2
    -- once the first entry is known to be valid, the answer is that for the others
    have goesOn : ∀ {middle : CacheRoot (List Hash) Ephemeral}, Sound cas numGenerations middle →
        (entry.type = .tree → Valid cas entry.rawId) →
        Meets possible (validateEntries numGenerations validate rest) middle
          (Sound cas numGenerations) fun result _ => Accepts possible
            (∀ other ∈ (name, entry) :: rest, other.2.type = .tree → Valid cas other.2.rawId) result := by
      intro middle sound' here
      refine (ih others sound').mono (fun _ => id) fun result _ accepts => ⟨?_, ?_⟩
      · intro accepted other inside isTree
        rcases mem_cons.mp inside with rfl | further
        · exact here isTree
        · exact accepts.1 accepted other further isTree
      · exact fun granted all =>
          accepts.2 granted (forall_mem_cons.mp all).2
    unfold validateEntries
    split
    · next isTree =>
      refine meets_bind (meets_isTreeValid sound) fun known middle sound' valid => ?_
      cases known with
      | true => exact goesOn sound' fun _ => valid rfl
      | false =>
        refine meets_bind (each _ mem_cons_self isTree middle sound')
          fun accepted last sound'' accepts => ?_
        cases accepted with
        | true => exact goesOn sound'' fun _ => accepts.1 rfl
        | false =>
          refine meets_pure sound'' ⟨nofun, fun granted all => ?_⟩
          exact accepts.2 granted (all _ mem_cons_self isTree)
    · next noTree => exact goesOn sound fun isTree => absurd isTree noTree

variable {order : List (Str × GitTreeEntry Hash) → List (Str × GitTreeEntry Hash)}
  (listed : ∀ entries, (order entries).Perm entries)

include listed

theorem meets_validateSubtree {fuel : Nat} {entry : GitTreeEntry Hash}
    (deep : cas.rank entry.rawId < fuel) (isTree : entry.type = .tree)
    (plain : entry.cached ≠ some true) (sound : Sound cas numGenerations state) :
    Meets possible (cas.validateSubtree numGenerations order fuel entry) state
      (Sound cas numGenerations)
      fun result _ => Accepts possible (Valid cas entry.rawId) result := by
  induction fuel generalizing entry state with
  | zero => exact absurd deep (Nat.not_lt_zero _)
  | succ fuel ih =>
    unfold validateSubtree
    rw [entryTree_eq isTree plain]
    cases read : cas.readTree entry.rawId false with
    | none =>
      exact meets_pure sound ⟨nofun, fun _ valid => absurd valid (not_valid_of_readTree read)⟩
    | some entries =>
      obtain ⟨reads, valid⟩ := reads_of_readTree read
      have inside : ∀ other, other ∈ order (fromEntries entry.rawId false entries).entries ↔
          other ∈ (fromEntries entry.rawId false entries).entries := fun _ => (listed _).mem_iff
      refine meets_bind (meets_validateEntries (fun other member isTree' state' sound' => ?_) sound)
        fun accepted middle sound' accepts => ?_
      · have less := reads.less other ((inside other).mp member)
        have fresh := reads.fresh other ((inside other).mp member)
        exact ih (by omega) isTree' (by rw [fresh]; exact nofun) sound'
      · simp only [inside] at accepts
        rw [← valid] at accepts
        cases accepted with
        | true => exact meets_markTreeValid sound' (accepts.1 rfl)
        | false => exact meets_pure sound' ⟨nofun, accepts.2⟩

theorem meets_validateGitSubtrees {tree : GitTree Hash} (reads : Reads cas id tree)
    (sound : Sound cas numGenerations state) :
    Meets possible (cas.validateGitSubtrees numGenerations order tree) state
      (Sound cas numGenerations) fun result _ => Accepts possible
        (∀ entry ∈ tree.entries, entry.2.type = .tree → Valid cas entry.2.rawId) result := by
  have inside : ∀ other, other ∈ order tree.entries ↔ other ∈ tree.entries :=
    fun _ => (listed _).mem_iff
  have each : ∀ other ∈ order tree.entries, other.2.type = .tree →
      ∀ state : CacheRoot (List Hash) Ephemeral, Sound cas numGenerations state →
      Meets possible (cas.validateSubtree numGenerations order (cas.rank tree.rawId) other.2) state
        (Sound cas numGenerations)
        fun result _ => Accepts possible (Valid cas other.2.rawId) result := by
    intro other member isTree state' sound'
    have less := reads.less other ((inside other).mp member)
    have fresh := reads.fresh other ((inside other).mp member)
    exact meets_validateSubtree listed (by rw [reads.rawId]; exact less) isTree
      (by rw [fresh]; exact nofun) sound'
  have loop := meets_validateEntries each sound
  simp only [inside] at loop
  exact loop

theorem meets_isGitTreeValid {entry : GitTreeEntry Hash} (plain : entry.cached ≠ some true)
    (sound : Sound cas numGenerations state) :
    Meets possible (cas.isGitTreeValid numGenerations order (some entry)) state
      (Sound cas numGenerations)
      fun result _ => entry.type = .tree → Accepts possible (Valid cas entry.rawId) result := by
  refine meets_bind (meets_isTreeValid sound) fun known middle sound' valid => ?_
  cases known with
  | true => exact meets_pure sound' fun _ => ⟨valid, fun _ _ => rfl⟩
  | false =>
    simp only [false_eq_true, if_false]
    by_cases isTree : entry.type = .tree
    · rw [entryTree_eq isTree plain]
      cases read : cas.readTree entry.rawId false with
      | none =>
        exact meets_pure sound' fun _ =>
          ⟨nofun, fun _ valid => absurd valid (not_valid_of_readTree read)⟩
      | some entries =>
        obtain ⟨reads, validIff⟩ := reads_of_readTree read
        refine meets_bind (meets_validateGitSubtrees listed reads sound')
          fun accepted last sound'' accepts => ?_
        rw [← validIff] at accepts
        cases accepted with
        | true =>
          exact (meets_markTreeValid sound'' (accepts.1 rfl)).mono (fun _ same => same)
            fun _ _ accepts' _ => accepts'
        | false => exact meets_pure sound'' fun _ => ⟨nofun, accepts.2⟩
    · have noTree : cas.entryTree entry false = none := if_neg isTree
      rw [noTree]
      exact meets_pure sound' fun isTree' => absurd isTree' isTree

theorem meets_readValidGitCasTree (sound : Sound cas numGenerations state) :
    Meets possible (cas.readValidGitCasTree numGenerations order id) state (Sound cas numGenerations)
      fun result _ => Accepts possible (Valid cas id) result.isSome ∧
        ∀ tree, result = some tree → cas.read id false true = some tree := by
  refine meets_bind (meets_isTreeValid sound) fun known middle sound' valid => ?_
  cases known with
  | true =>
    have readable := (valid rfl).1 id .refl
    obtain ⟨entries, direct⟩ := readable.readDirectTree
    refine meets_pure sound' ⟨⟨fun _ => valid rfl, fun _ _ => ?_⟩, fun _ same => same⟩
    simp [GitCas.read, direct]
  | false =>
    simp only [false_eq_true, if_false]
    cases read : cas.readTree id false with
    | none =>
      have none' : cas.read id false false = none := by simp [GitCas.read, read]
      rw [none']
      exact meets_pure sound'
        ⟨⟨nofun, fun _ valid => absurd valid (not_valid_of_readTree read)⟩, nofun⟩
    | some entries =>
      obtain ⟨reads, validIff⟩ := reads_of_readTree read
      have direct := (readTree_iff.mp read).1
      have some' : cas.read id false false = some (fromEntries id false entries) := by
        simp [GitCas.read, read]
      have same : cas.read id false true = some (fromEntries id false entries) := by
        simp [GitCas.read, direct]
      rw [some']
      refine meets_bind (meets_validateGitSubtrees listed reads sound')
        fun accepted last sound'' accepts => ?_
      rw [← validIff] at accepts
      cases accepted with
      | true =>
        refine meets_bind (meets_markTreeValid sound'' (accepts.1 rfl))
          fun granted final sound''' accepts' => ?_
        cases granted with
        | true =>
          refine meets_pure sound''' ⟨⟨fun _ => accepts.1 rfl, fun _ _ => rfl⟩, ?_⟩
          rintro tree ⟨⟩
          exact same
        | false => exact meets_pure sound''' ⟨⟨nofun, accepts'.2⟩, nofun⟩
      | false => exact meets_pure sound'' ⟨⟨nofun, accepts.2⟩, nofun⟩

end Markers

/-! ## Answers -/

section Answers

variable [DecidableEq Hash] {numGenerations : Nat}
  {order : List (Str × GitTreeEntry Hash) → List (Str × GitTreeEntry Hash)}

omit [DecidableEq Hash] in
theorem returns_markTreeValid (id : Hash) :
    Returns 2 (markTreeValid id : Collection (List Hash) Ephemeral Bool) := by
  refine returns_ask fun outcome => ?_
  split
  · refine returns_read fun _ => returns_write (returns_ask fun outcome' => ?_)
    split
    · exact returns_read fun _ => returns_write (returns_pure 0 true)
    · exact returns_pure 0 false
  · exact returns_pure 1 false

theorem returns_isTreeValid (id : Hash) :
    Returns 2 (isTreeValid numGenerations id : Collection (List Hash) Ephemeral Bool) := by
  unfold isTreeValid
  induction List.range numGenerations with
  | nil => exact returns_pure 2 false
  | cons generation rest ih =>
    refine returns_read fun _ => ?_
    split
    · split
      · exact returns_pure 2 true
      · exact returns_markTreeValid id
    · exact ih

theorem returns_validateEntries
    {validate : GitTreeEntry Hash → Collection (List Hash) Ephemeral Bool}
    (each : ∀ entry, ∃ count, Returns count (validate entry))
    (entries : List (Str × GitTreeEntry Hash)) :
    ∃ count, Returns count (validateEntries numGenerations validate entries) := by
  induction entries with
  | nil => exact ⟨0, returns_pure 0 true⟩
  | cons first rest ih =>
    obtain ⟨name, entry⟩ := first
    obtain ⟨many, others⟩ := ih
    obtain ⟨few, here⟩ := each entry
    refine ⟨2 + (few + many), ?_⟩
    unfold validateEntries
    split
    · refine returns_bind (returns_isTreeValid entry.rawId) fun known => ?_
      split
      · exact others.mono (Nat.le_add_left _ _)
      · refine returns_bind here fun accepted => ?_
        split
        · exact others
        · exact returns_pure many false
    · exact others.mono (by omega)

theorem returns_validateSubtree (fuel : Nat) (entry : GitTreeEntry Hash) :
    ∃ count, Returns count (cas.validateSubtree numGenerations order fuel entry :
      Collection (List Hash) Ephemeral Bool) := by
  induction fuel generalizing entry with
  | zero => exact ⟨0, returns_pure 0 false⟩
  | succ fuel ih =>
    unfold validateSubtree
    split
    · exact ⟨0, returns_pure 0 false⟩
    · next subtree _ =>
      have loops : ∃ count, Returns count (validateEntries numGenerations
          (cas.validateSubtree numGenerations order fuel) (order subtree.entries) :
            Collection (List Hash) Ephemeral Bool) := returns_validateEntries ih _
      obtain ⟨count, loop⟩ := loops
      refine ⟨count + 2, returns_bind loop fun accepted => ?_⟩
      split
      · exact returns_markTreeValid entry.rawId
      · exact returns_pure 2 false

theorem returns_validateGitSubtrees (tree : GitTree Hash) :
    ∃ count, Returns count (cas.validateGitSubtrees numGenerations order tree :
      Collection (List Hash) Ephemeral Bool) :=
  returns_validateEntries (returns_validateSubtree _) _

theorem returns_isGitTreeValid (entry : GitTreeEntry Hash) :
    ∃ count, Returns count (cas.isGitTreeValid numGenerations order (some entry) :
      Collection (List Hash) Ephemeral Bool) := by
  cases read : cas.entryTree entry false with
  | none =>
    refine ⟨2 + 0, returns_bind (returns_isTreeValid entry.rawId) fun known => ?_⟩
    rw [read]
    split
    · exact returns_pure 0 true
    · exact returns_pure 0 false
  | some tree =>
    have loops : ∃ count, Returns count (cas.validateGitSubtrees numGenerations order tree :
        Collection (List Hash) Ephemeral Bool) := returns_validateGitSubtrees tree
    obtain ⟨count, loop⟩ := loops
    refine ⟨2 + (count + 2), returns_bind (returns_isTreeValid entry.rawId) fun known => ?_⟩
    rw [read]
    split
    · exact returns_pure _ true
    · refine returns_bind loop fun accepted => ?_
      split
      · exact returns_markTreeValid entry.rawId
      · exact returns_pure 2 false

theorem returns_readValidGitCasTree (id : Hash) :
    ∃ count, Returns count (cas.readValidGitCasTree numGenerations order id :
      Collection (List Hash) Ephemeral (Option (GitTree Hash))) := by
  unfold readValidGitCasTree
  cases cas.read id false false with
  | none =>
    refine ⟨2 + 0, returns_bind (returns_isTreeValid id) fun known => ?_⟩
    split
    · exact returns_pure 0 _
    · exact returns_pure 0 none
  | some tree =>
    have loops : ∃ count, Returns count (cas.validateGitSubtrees numGenerations order tree :
        Collection (List Hash) Ephemeral Bool) := returns_validateGitSubtrees tree
    obtain ⟨count, loop⟩ := loops
    refine ⟨2 + (count + (2 + 0)), returns_bind (returns_isTreeValid id) fun known => ?_⟩
    split
    · exact returns_pure _ _
    · refine returns_bind loop fun accepted => ?_
      split
      · refine returns_bind (returns_markTreeValid id) fun granted => ?_
        split
        · exact returns_pure 0 (some tree)
        · exact returns_pure 0 none
      · exact returns_pure _ none

/-- A program decides in a state whether something holds: it never accepts wrongly, and if all
requests are granted, it returns and accepts exactly if it holds. -/
def Decides {Result : Type} (holds : Prop) (program : Collection (List Hash) Ephemeral Result)
    (accepted : Result → Bool) (state : CacheRoot (List Hash) Ephemeral) : Prop :=
  (∀ outcomes result rest, (program outcomes state).1 = .ok (result, rest) →
    accepted result = true → holds) ∧
  ∃ count, ∀ outcomes, count ≤ outcomes.length → (∀ outcome ∈ outcomes, outcome.success = true) →
    ∃ result rest, (program outcomes state).1 = .ok (result, rest) ∧
      (accepted result = true ↔ holds)

omit [DecidableEq Hash] in
theorem decides_of_meets {Result : Type} {holds : Prop} {accepted : Result → Bool}
    {program : Collection (List Hash) Ephemeral Result} {state : CacheRoot (List Hash) Ephemeral}
    {always : CacheRoot (List Hash) Ephemeral → Prop}
    (meets : ∀ possible, Meets possible program state always
      fun result _ => Accepts possible holds (accepted result))
    (returns : ∃ count, Returns count program) : Decides holds program accepted state := by
  constructor
  · intro outcomes result rest returned accepts
    have accepted' := ((meets (fun _ => True) outcomes fun _ _ => trivial).2 result rest returned).2
    exact accepted'.1 accepts
  · obtain ⟨count, returns⟩ := returns
    refine ⟨count, fun outcomes enough granted => ?_⟩
    obtain ⟨result, rest, returned, -⟩ := returns outcomes state enough
    have accepted' := ((meets (fun outcome => outcome.success = true) outcomes granted).2 result rest
      returned).2
    exact ⟨result, rest, returned, accepted'.1, accepted'.2 fun _ isGranted => isGranted⟩

end Answers

/-! ## Runs -/

/-- A call in which trees list their entries in any order, or a collection of garbage. Each of them
may be stopped anywhere. The entries that are validated have not been read without their special
entries, as `FileRoot` asks for a validation only if it does not ignore these. -/
inductive Step [DecidableEq Hash] (cas : GitCas Hash)
    (isEmpty : Removed (List Hash) Ephemeral → Bool) (numGenerations : Nat) :
    CacheRoot (List Hash) Ephemeral → CacheRoot (List Hash) Ephemeral → Prop where
  | isGitTreeValid {state : CacheRoot (List Hash) Ephemeral}
    {order : List (Str × GitTreeEntry Hash) → List (Str × GitTreeEntry Hash)}
    (listed : ∀ entries, (order entries).Perm entries) (entry : Option (GitTreeEntry Hash))
    (plain : ∀ read, entry = some read → read.cached ≠ some true)
    (outcomes : List (Outcome (List Hash))) :
    Step cas isEmpty numGenerations state
      (cas.isGitTreeValid numGenerations order entry outcomes state).2
  | readValidGitCasTree {state : CacheRoot (List Hash) Ephemeral}
    {order : List (Str × GitTreeEntry Hash) → List (Str × GitTreeEntry Hash)}
    (listed : ∀ entries, (order entries).Perm entries) (id : Hash)
    (outcomes : List (Outcome (List Hash))) :
    Step cas isEmpty numGenerations state
      (cas.readValidGitCasTree numGenerations order id outcomes state).2
  | collect {state next : CacheRoot (List Hash) Ephemeral}
    (collects : Collects Eq isEmpty numGenerations state next) :
    Step cas isEmpty numGenerations state next

section Runs

variable [DecidableEq Hash] {isEmpty : Removed (List Hash) Ephemeral → Bool} {numGenerations : Nat}
  {root state next : CacheRoot (List Hash) Ephemeral}

theorem Sound.collects (sound : Sound cas numGenerations state)
    (collects : Collects Eq isEmpty numGenerations state next) : Sound cas numGenerations next := by
  obtain ⟨settings, outcomes, possible, rfl⟩ := collects
  have laws : IsCompactification (Eq : List Hash → List Hash → Prop) := ⟨fun _ => rfl, Eq.trans⟩
  have meets : Meets (IsPossible Eq)
      (GarbageCollector.triggerGarbageCollection isEmpty numGenerations settings) state
      (Passes Eq settings numGenerations state)
      fun _ last => Completes Eq settings numGenerations state last :=
    meets_triggerGarbageCollection laws (fun _ known => known) state
  obtain ⟨origin, aged⟩ := (meets outcomes possible).1.aged laws
  intro generation inside id isMarked
  unfold marked at isMarked
  split at isMarked
  · next directory there =>
    obtain ⟨younger, whole, before, holds⟩ := aged.holds generation inside directory there
    refine sound (origin generation) (Nat.lt_of_le_of_lt younger inside) id ?_
    unfold marked
    rw [before]
    simp only
    rw [holds.tidied.content]
    exact isMarked
  · cases isMarked

theorem Sound.step (sound : Sound cas numGenerations state)
    (step : Step cas isEmpty numGenerations state next) : Sound cas numGenerations next := by
  cases step with
  | isGitTreeValid listed entry plain outcomes =>
    cases entry with
    | none => exact sound
    | some entry =>
      have meets := fun possible => @meets_isGitTreeValid _ _ _ _ _ _ possible _ listed entry
        (plain entry rfl) sound
      exact (meets (fun _ => True) outcomes fun _ _ => trivial).1
  | readValidGitCasTree listed id outcomes =>
    have meets := fun possible => @meets_readValidGitCasTree _ _ _ _ _ _ possible id _ listed sound
    exact (meets (fun _ => True) outcomes fun _ _ => trivial).1
  | collect collects => exact sound.collects collects

/-- In every run from a cache without markers, stopped wherever its steps may be, a marked tree has
no symbolic links that lead upwards, transitively. A tree is accepted or returned only if it can be
read completely and this is so; and then it is, if all requests are granted. -/
theorem marked_sheltered
    (fresh : ∀ generation < numGenerations, ∀ id, marked root generation id = false)
    (reached : ReflTransGen (Step cas isEmpty numGenerations) root state) :
    (∀ generation < numGenerations, ∀ id, marked state generation id = true → Sheltered cas id) ∧
    ∀ order : List (Str × GitTreeEntry Hash) → List (Str × GitTreeEntry Hash),
      (∀ entries, (order entries).Perm entries) →
      (∀ entry : GitTreeEntry Hash, entry.type = .tree → entry.cached ≠ some true →
        Decides (Readable cas entry.rawId ∧ Sheltered cas entry.rawId)
          (cas.isGitTreeValid numGenerations order (some entry)) (fun accepted => accepted) state) ∧
      ∀ id, Decides (Readable cas id ∧ Sheltered cas id)
          (cas.readValidGitCasTree numGenerations order id) Option.isSome state ∧
        ∀ outcomes tree rest,
          (cas.readValidGitCasTree numGenerations order id outcomes state).1 =
            .ok (some tree, rest) → cas.read id false true = some tree := by
  have sound : Sound cas numGenerations state := by
    induction reached with
    | refl =>
      intro generation inside id isMarked
      rw [fresh generation inside id] at isMarked
      cases isMarked
    | tail _ step before => exact before.step step
  refine ⟨fun generation inside id isMarked => (sound generation inside id isMarked).2,
    fun order listed => ⟨fun entry isTree plain => ?_, fun id => ⟨?_, ?_⟩⟩⟩
  · exact decides_of_meets (fun possible => (meets_isGitTreeValid listed plain sound).mono
      (fun _ same => same) fun _ _ accepts => accepts isTree) (returns_isGitTreeValid entry)
  · exact decides_of_meets (fun possible => (meets_readValidGitCasTree listed sound).mono
      (fun _ same => same) fun _ _ accepts => accepts.1) (returns_readValidGitCasTree id)
  · intro outcomes tree rest returned
    have meets := fun possible => @meets_readValidGitCasTree _ _ _ _ _ _ possible id _ listed sound
    exact ((meets (fun _ => True) outcomes fun _ _ => trivial).2 _ rest returned).2.2 tree rfl

end Runs

/-- A repository with a symbolic link, a tree with it, and a tree that has this one twice. -/
def nested : GitCas Nat where
  object := fun id =>
    match id with
    | 0 => some (.blob (lit "target"))
    | 1 => some (.tree [⟨lit "link", .link, 0⟩])
    | 2 => some (.tree [⟨lit "first", .tree, 1⟩, ⟨lit "second", .tree, 1⟩])
    | _ => none
  rank := fun id => id
  ranked := by
    intro id entries found entry inside
    match id with
    | 0 => cases found
    | 1 =>
      cases found
      rw [mem_singleton.mp inside]
      exact Nat.zero_lt_one
    | 2 =>
      cases found
      have both : ∀ entry ∈ [(⟨lit "first", .tree, 1⟩ : TreeObjectEntry Nat),
          ⟨lit "second", .tree, 1⟩], entry.id < 2 := by decide
      exact both entry inside
    | _ + 3 => cases found
  names := by
    intro id entries found
    match id with
    | 0 => cases found
    | 1 =>
      cases found
      decide
    | 2 =>
      cases found
      decide
    | _ + 3 => cases found

/-- A cache without markers. -/
def unmarked : CacheRoot (List Nat) Unit := ⟨fun _ => none, []⟩

theorem marked_sheltered_stopped :
    marked (nested.isGitTreeValid 1 id (some ⟨2, .tree, none⟩) (replicate 2 ⟨true, id⟩)
      unmarked).2 0 1 = true ∧ Sheltered nested 1 := by
  have stopped : marked (nested.isGitTreeValid 1 id (some ⟨2, .tree, none⟩)
      (replicate 2 ⟨true, id⟩) unmarked).2 0 1 = true := by decide
  have step : Step nested (fun _ => true) 1 unmarked (nested.isGitTreeValid 1 id
      (some ⟨2, .tree, none⟩) (replicate 2 ⟨true, id⟩) unmarked).2 := by
    refine .isGitTreeValid (fun _ => .refl _) _ ?_ _
    rintro read ⟨⟩
    exact nofun
  exact ⟨stopped, (marked_sheltered (fun _ _ _ => rfl) (.single step)).1 0 Nat.zero_lt_one 1 stopped⟩

end Jst.Verif.ValidatedTrees
