import Jst.FileSystem.FileRoot
import Jst.Utils.NormalPath
import Jst.Data.Runs
/-!
# File roots and git roots

A git root with the content of a directory answers the queries about a path like the directory
itself only under a condition (`answers_eq_iff`): the path exists, all trees on the way can be read
the way they are, and what the path leads to is treated alike. Trees below the first level are read
with their special entries even if these are to be ignored, unless they have been read without them
before.
-/
namespace Jst.Verif.FileRoots

open SortedMap FileSystem Runs Path

variable {entries : Entries} {node : Node}

/-! ## Directories -/

/-- The names in a directory are different, none is `.` or `..`, and so below. -/
inductive Proper : Entries → Prop where
  | mk {entries : Entries} (distinct : (entries.map fst).Nodup)
    (named : ∀ name ∈ entries.map fst, name ≠ here ∧ name ≠ up)
    (below : ∀ name sub, (name, Node.directory sub) ∈ entries → Proper sub) : Proper entries

mutual

/-- No directory below has a symbolic link that leads upwards. -/
def nodeValid : Node → Bool
  | .directory entries => symlinksChecker entries && entriesValid entries
  | _ => true

/-- No directory below some entries has a symbolic link that leads upwards. -/
def entriesValid : Entries → Bool
  | [] => true
  | (_, node) :: rest => nodeValid node && entriesValid rest

end

theorem Proper.distinct (proper : Proper entries) : (entries.map fst).Nodup := by
  cases proper with
  | mk distinct _ _ => exact distinct

theorem Proper.find_here (proper : Proper entries) : find here entries = none := by
  cases proper with
  | mk _ named _ =>
    exact find_eq_none.mpr fun entry member => (named _ (mem_map_of_mem member)).1

theorem Proper.find_up (proper : Proper entries) : find up entries = none := by
  cases proper with
  | mk _ named _ =>
    exact find_eq_none.mpr fun entry member => (named _ (mem_map_of_mem member)).2

theorem find_eq_some (distinct : (entries.map fst).Nodup) {name : Str} :
    find name entries = some node ↔ (name, node) ∈ entries := by
  induction entries with
  | nil => simp
  | cons entry rest step =>
    obtain ⟨other, stored⟩ := entry
    obtain ⟨fresh, later⟩ := nodup_cons.mp distinct
    rw [find_cons, mem_cons]
    by_cases same : other = name
    · subst same
      have absent : (other, node) ∉ rest := fun member =>
        fresh (mem_map.mpr ⟨_, member, rfl⟩)
      simp [absent, eq_comm]
    · simp [same, step later, Ne.symm same]

theorem find_readDirectTree (distinct : (entries.map fst).Nodup) (name : Str) (flag : Bool)
    (node : Node) : find name (readDirectTree entries flag) = some node ↔
      find name entries = some node ∧ (flag = true → node.type ≠ .symlink) := by
  have kept : isNonSpecialObject node.type = true ↔ node.type ≠ .symlink := by
    cases node.type <;> decide
  cases flag with
  | false => simp [readDirectTree]
  | true =>
    have fewer : ((entries.filter fun entry => isNonSpecialObject entry.2.type).map fst).Nodup :=
      distinct.sublist (List.filter_sublist.map _)
    rw [readDirectTree, if_pos rfl, find_eq_some fewer, find_eq_some distinct, mem_filter, kept]
    simp

/-! ## What has been kept from earlier queries -/

/-- `FileRoot::FromGit` — nothing has been kept. -/
def fromGit (content : Entries) (ignoreSpecial : Bool) (marked : Entries → Bool) : RootGit where
  content := content
  ignoreSpecial := ignoreSpecial
  cached := fun _ => none
  marked := marked

/-- What a query changes: the tree of an entry is read once, with the flag of the root or without a
flag; a tree is marked only after it has been validated. -/
structure Query (before after : RootGit) : Prop where
  content : after.content = before.content
  ignoreSpecial : after.ignoreSpecial = before.ignoreSpecial
  cached : ∀ path, after.cached path = before.cached path ∨ before.cached path = none ∧
    (after.cached path = some false ∨ after.cached path = some before.ignoreSpecial)
  marked : ∀ tree, after.marked tree = true → before.marked tree = true ∨
    nodeValid (.directory tree) = true

/-- What is known of a git root after any queries. -/
structure Sound (content : Entries) (ignoreSpecial : Bool) (root : RootGit) : Prop where
  sameContent : root.content = content
  sameFlag : root.ignoreSpecial = ignoreSpecial
  cached : ∀ path, root.cached path = some true → ignoreSpecial = true
  marked : ∀ tree, root.marked tree = true → nodeValid (.directory tree) = true

theorem sound_of_queries {content : Entries} {ignoreSpecial : Bool} {marked : Entries → Bool}
    {root : RootGit} (valid : ∀ tree, marked tree = true → nodeValid (.directory tree) = true)
    (queries : Reaches Query (fromGit content ignoreSpecial marked) root) :
    Sound content ignoreSpecial root := by
  refine @invariant _ _ (Sound content ignoreSpecial) _ _ ⟨rfl, rfl, by simp [fromGit], valid⟩ ?_
    queries
  intro state next sound query
  refine ⟨query.content.trans sound.sameContent, query.ignoreSpecial.trans sound.sameFlag, ?_, ?_⟩
  · intro path read
    rcases query.cached path with same | ⟨-, plain | flagged⟩
    · exact sound.cached path (same ▸ read)
    · rw [plain] at read
      cases read
    · rw [flagged] at read
      rw [← sound.sameFlag]
      exact some.inj read
  · intro tree isMarked
    exact (query.marked tree isMarked).elim (sound.marked tree) id

section Lookup

variable {content : Entries} {ignoreSpecial : Bool} {root : RootGit}

theorem cached_plain (sound : Sound content false root) (path : List Str) :
    (root.cached path).getD false = false := by
  cases read : root.cached path with
  | none => rfl
  | some flag =>
    cases flag with
    | false => rfl
    | true => exact absurd (sound.cached path read) false_ne_true

mutual

theorem validateNode_eq (sound : Sound content false root) (path : List Str) (node : Node) :
    root.validateNode path node = nodeValid node := by
  cases node with
  | file _ _ => simp [RootGit.validateNode, nodeValid]
  | symlink _ => simp [RootGit.validateNode, nodeValid]
  | directory entries =>
    have subtrees := validateSubtrees_eq sound path entries
    rw [RootGit.validateNode, cached_plain sound, Bool.false_or, subtrees]
    cases isMarked : root.marked entries with
    | false => simp [nodeValid]
    | true => simp [sound.marked entries isMarked]

theorem validateSubtrees_eq (sound : Sound content false root) (path : List Str)
    (entries : Entries) : root.validateSubtrees path entries = entriesValid entries := by
  cases entries with
  | nil => simp [RootGit.validateSubtrees, entriesValid]
  | cons entry rest =>
    obtain ⟨name, node⟩ := entry
    rw [RootGit.validateSubtrees, entriesValid, validateNode_eq sound (path ++ [name]) node,
      validateSubtrees_eq sound path rest]

end

/-- How the tree behind some names is read on the way to an entry: without special entries, or with
all entries. -/
def treeFlag (root : RootGit) (path : List Str) : Bool :=
  if path = [] then root.ignoreSpecial
  else (root.cached path).getD (root.ignoreSpecial && path.length = 1)

/-- All trees on the way can be read. -/
def Passable (root : RootGit) (above : List Str) (entries : Entries) (names : List Str) : Prop :=
  ∀ front back, names = front ++ back → front ≠ [] → back ≠ [] →
    ∃ sub, walk entries front = some (.directory sub) ∧
      (treeFlag root (above ++ front) = true ∨ symlinksChecker sub = true)

theorem walk_single (entries : Entries) (name : Str) : walk entries [name] = find name entries := by
  rw [walk]
  split
  · next absent => exact absent.symm
  · next sub found => rw [found, walk]
  · next node _ found => rw [if_pos rfl, found]

theorem walk_directory {sub : Entries} {name : Str} (rest : List Str)
    (found : find name entries = some (.directory sub)) :
    walk entries (name :: rest) = walk sub rest := by
  rw [walk, found]

theorem directory_of_walk {name : Str} {rest : List Str} (more : rest ≠ [])
    (walked : walk entries (name :: rest) = some node) :
    ∃ sub, find name entries = some (.directory sub) := by
  rw [walk] at walked
  split at walked
  · cases walked
  · next sub found => exact ⟨sub, found⟩
  · rw [if_neg more] at walked
    cases walked

theorem passable_single (above : List Str) (entries : Entries) (name : Str) :
    Passable root above entries [name] := by
  intro front back split some some'
  have lengths := congrArg List.length split
  have first := List.length_pos_iff.mpr some
  have second := List.length_pos_iff.mpr some'
  rw [length_append, length_singleton] at lengths
  omega

theorem passable_cons {above : List Str} {sub : Entries} {name : Str} {rest : List Str}
    (more : rest ≠ []) (found : find name entries = some (.directory sub)) :
    Passable root above entries (name :: rest) ↔
      (treeFlag root (above ++ [name]) = true ∨ symlinksChecker sub = true) ∧
        Passable root (above ++ [name]) sub rest := by
  constructor
  · intro passable
    constructor
    · obtain ⟨below, walked, reads⟩ := passable [name] rest rfl (by simp) more
      rw [walk_single, found] at walked
      cases walked
      exact reads
    · intro front back split some some'
      obtain ⟨below, walked, reads⟩ :=
        passable (name :: front) back (by rw [split, cons_append]) (by simp) some'
      rw [walk_directory front found] at walked
      rw [append_assoc, singleton_append]
      exact ⟨below, walked, reads⟩
  · rintro ⟨here, behind⟩ front back split some some'
    cases front with
    | nil => exact absurd rfl some
    | cons first front =>
      obtain ⟨rfl, split'⟩ := cons.inj split
      cases front with
      | nil => exact ⟨sub, by rw [walk_single, found], here⟩
      | cons second front =>
        obtain ⟨below, walked, reads⟩ := behind (second :: front) back split' (by simp) some'
        rw [append_assoc, singleton_append] at reads
        exact ⟨below, by rw [walk_directory _ found, walked], reads⟩

theorem entryTree_eq (above : List Str) (name : Str) (sub : Entries) :
    root.entryTree ⟨above ++ [name], .directory sub⟩ (root.ignoreSpecial && above = []) =
      if treeFlag root (above ++ [name]) = true ∨ symlinksChecker sub = true then
        some ⟨readDirectTree sub (treeFlag root (above ++ [name])), treeFlag root (above ++ [name])⟩
      else none := by
  have requested : (root.cached (above ++ [name])).getD (root.ignoreSpecial && above = []) =
      treeFlag root (above ++ [name]) := by
    simp [treeFlag]
  simp only [RootGit.entryTree, requested, readTree, or_eq_true]
  split <;> rfl

theorem lookupEntryPyPath_eq_some {sub : Entries} (proper : Proper sub) (above names : List Str)
    (entry : GitTreeEntry) :
    root.lookupEntryPyPath ⟨readDirectTree sub (treeFlag root above), treeFlag root above⟩ above names
        (root.ignoreSpecial && above = []) = some entry ↔
      names ≠ [] ∧ ∃ node, walk sub names = some node ∧ entry = ⟨above ++ names, node⟩ ∧
        Passable root above sub names ∧
        (treeFlag root (above ++ names.dropLast) = true → node.type ≠ .symlink) := by
  induction names generalizing sub above with
  | nil => simp [RootGit.lookupEntryPyPath]
  | cons name rest step =>
    cases proper with
    | mk distinct named below =>
      rw [RootGit.lookupEntryPyPath]
      have visible := find_readDirectTree distinct name (treeFlag root above)
      by_cases last : rest = []
      · subst last
        simp only [walk_single, if_true, List.dropLast_singleton, append_nil, ne_eq,
          cons_ne_nil, not_false_eq_true, true_and, passable_single]
        cases found : find name (readDirectTree sub (treeFlag root above)) with
        | none =>
          simp only [reduceCtorEq, false_iff]
          rintro ⟨node, stored, -, shown⟩
          rw [(visible node).mpr ⟨stored, shown⟩] at found
          cases found
        | some node =>
          obtain ⟨stored, shown⟩ := (visible node).mp found
          simp only [some.injEq]
          constructor
          · rintro rfl
            exact ⟨node, stored, rfl, shown⟩
          · rintro ⟨other, stored', rfl, -⟩
            rw [stored] at stored'
            cases stored'
            rfl
      · have dropped : (name :: rest).dropLast = name :: rest.dropLast :=
          List.dropLast_cons_of_ne_nil last
        have requested : (root.ignoreSpecial && decide (above ++ [name] = [])) = false := by simp
        cases found : find name (readDirectTree sub (treeFlag root above)) with
        | none =>
          simp only [reduceCtorEq, false_iff]
          rintro ⟨-, node, walked, -⟩
          obtain ⟨next, stored⟩ := directory_of_walk last walked
          rw [(visible _).mpr ⟨stored, fun _ => by simp [Node.type]⟩] at found
          cases found
        | some node =>
          obtain ⟨stored, -⟩ := (visible node).mp found
          simp only [if_neg last]
          cases node with
          | directory next =>
            have behind := step (below name next (mem_of_find stored)) (above ++ [name])
            rw [requested] at behind
            rw [entryTree_eq]
            simp only [walk_directory rest stored, passable_cons last stored, dropped, ne_eq,
              cons_ne_nil, not_false_eq_true, true_and]
            by_cases reads : treeFlag root (above ++ [name]) = true ∨ symlinksChecker next = true
            · rw [if_pos reads]
              simp only [behind, reads, append_assoc, singleton_append, ne_eq, last,
                not_false_eq_true, true_and]
            · rw [if_neg reads]
              simp only [reads, false_and, and_false, exists_false, reduceCtorEq]
          | file executable content =>
            simp only [RootGit.entryTree, reduceCtorEq, false_iff]
            rintro ⟨-, other, walked, -⟩
            obtain ⟨next, directory⟩ := directory_of_walk last walked
            rw [stored] at directory
            cases directory
          | symlink target =>
            simp only [RootGit.entryTree, reduceCtorEq, false_iff]
            rintro ⟨-, other, walked, -⟩
            obtain ⟨next, directory⟩ := directory_of_walk last walked
            rw [stored] at directory
            cases directory

end Lookup

/-! ## Normal paths -/

theorem normal_cases {path : Str} (relative : isAbsolute path = false)
    (normal : toNormalPath path = path) : segments path = [] ∧ path = here ∨
      segments path ≠ [] ∧ path = join false (segments path) ∧ path ≠ here := by
  have shape := toNormalPath_eq path
  rw [normal, relative] at shape
  have resolved := resolved_segments path
  cases names : segments path with
  | nil =>
    rw [names] at shape
    exact .inl ⟨rfl, shape⟩
  | cons name rest =>
    rw [names] at shape resolved
    refine .inr ⟨cons_ne_nil _ _, shape, fun isHere => ?_⟩
    have none : segments here = [] := by decide
    rw [isHere, none] at names
    cases names

section Names

variable {path : Str} (some : segments path ≠ []) (shape : path = join false (segments path))

include some shape

omit some in
theorem names_normal : Path.names path = segments path ∧
    (Path.names path).filter (· ≠ here) = segments path := by
  have resolved := resolved_segments path
  have all : Path.names path = segments path := by
    conv_lhs => rw [shape]
    exact names_join resolved.plain
  refine ⟨all, ?_⟩
  rw [all]
  exact List.filter_eq_self.mpr fun name member =>
    decide_eq_true fun isHere => resolved.notHere (isHere ▸ member)

theorem elements_resolve : elements (RootGit.resolveRelativePath path) = segments path := by
  have resolved := resolved_segments path
  have relative : isAbsolute path = false := by
    rw [shape]
    exact isAbsolute_join resolved.plain
  rw [relative] at resolved
  have filled : path ≠ [] := by
    rw [shape]
    exact join_ne_nil resolved.plain some
  have last : filename path = (segments path).getLast some := by
    conv_lhs => rw [shape]
    exact filename_join resolved.plain some
  have member := getLast_mem some
  have named : filename path ≠ [] ∧ filename path ≠ here := by
    rw [last]
    exact ⟨(resolved.plain _ member).ne_nil, fun isHere => resolved.notHere (isHere ▸ member)⟩
  have kept : lexicallyNormal path = path := by
    obtain ⟨front, top, split⟩ := List.eq_nil_or_concat (segments path) |>.resolve_left some
    have stack : resolve false (segments path) = top :: front.reverse := by
      rw [resolve_resolved resolved, split]
      simp
    have isTop : filename path = top := by
      rw [last]
      simp [split]
    rw [lexicallyNormal, if_neg (by simpa using filled)]
    simp only [relative, (names_normal shape).1, stack]
    rw [if_neg]
    · have back : (top :: front.reverse).reverse = segments path := by simp [split]
      rw [append_nil, back]
      exact shape.symm
    · rintro ⟨empty | isHere | isUp, notUp⟩
      · exact named.1 empty
      · exact named.2 isHere
      · exact notUp (isTop.symm.trans isUp)
  have ends : path.getLast filled ≠ slash := by
    have text := getLast_join resolved.plain some (shape ▸ filled)
    simpa [← shape] using text
  have hasName : hasFilename path = true := by
    unfold hasFilename
    simpa using named.1
  rw [RootGit.resolveRelativePath, kept, append, if_neg (by decide), if_pos hasName,
    parentPath_slash filled ends]
  conv_lhs => rw [shape]
  exact elements_join resolved.plain some

end Names

/-! ## The answers -/

/-- The answers to all queries about a path. -/
structure Answers where
  /-- `Exists`. -/
  pathExists : Bool
  isFile : Bool
  isSymlink : Bool
  isBlob : Bool
  isDirectory : Bool
  readContent : Option Str
  readDirectory : Option (List (Str × Tree.ObjectType))
  blobType : Option Tree.ObjectType

/-- The answers of a root. -/
def answers (root : FileRoot) (path : Str) : Answers where
  pathExists := root.pathExists path
  isFile := root.isFile path
  isSymlink := root.isSymlink path
  isBlob := root.isBlob path
  isDirectory := root.isDirectory path
  readContent := root.readContent path
  readDirectory := root.readDirectory path
  blobType := root.blobType path

/-- The entry that a path leads to is treated alike. -/
def Alike (disk : Disk) (root : RootGit) (path : Str) : Node → Prop
  | .file _ _ => True
  | .directory sub =>
    if root.ignoreSpecial then
      (root.cached (segments path)).getD true = true ∨ ∀ entry ∈ sub, entry.2.type ≠ .symlink
    else nodeValid (.directory sub) = true ∨ symlinksChecker sub = false
  | .symlink target =>
    (root.ignoreSpecial = true ∨ pathIsNonUpwards target = true) ∧
      ∀ sub, disk.follow path = some sub → root.ignoreSpecial = false ∧ symlinksChecker sub = false

/-- The condition under which the queries about a path are answered alike. -/
def Agrees (disk : Disk) (root : RootGit) (path : Str) : Prop :=
  if segments path = [] then
    root.ignoreSpecial = true ∨ nodeValid (.directory root.content) = true ∨
      symlinksChecker root.content = false
  else
    ∃ node, walk root.content (segments path) = some node ∧
      Passable root [] root.content (segments path) ∧
      (treeFlag root (segments path).dropLast = true → node.type ≠ .symlink) ∧
      Alike disk root path node

/-- The entries of a directory with their types. -/
def listing (entries : Entries) : List (Str × Tree.ObjectType) :=
  entries.map fun entry => (entry.1, entry.2.type)

theorem readEntries_ignore (entries : Entries) :
    readEntries false true entries = some (listing (readDirectTree entries true)) := by
  induction entries with
  | nil => rfl
  | cons entry rest step =>
    obtain ⟨name, node⟩ := entry
    cases node with
    | symlink target =>
      rw [readEntries, if_pos rfl, step]
      rfl
    | file executable content =>
      simp only [readEntries, step]
      cases executable <;> rfl
    | directory sub =>
      simp only [readEntries, step]
      rfl

theorem readEntries_all (entries : Entries) : readEntries false false entries =
      if symlinksChecker entries = true then some (listing entries) else none := by
  have others : ∀ name node (rest : Entries), symlinksChecker rest = true →
      some (listing ((name, node) :: rest)) = (some (listing rest)).map ((name, node.type) :: ·) :=
    fun _ _ _ _ => rfl
  induction entries with
  | nil => rfl
  | cons entry rest step =>
    obtain ⟨name, node⟩ := entry
    cases node with
    | symlink target =>
      have all : symlinksChecker ((name, .symlink target) :: rest) =
          (pathIsNonUpwards target && symlinksChecker rest) := rfl
      rw [readEntries, if_neg false_ne_true, Bool.false_or, step, all]
      cases pathIsNonUpwards target <;> cases symlinksChecker rest <;> rfl
    | file executable content =>
      have all : symlinksChecker ((name, .file executable content) :: rest) =
          symlinksChecker rest := rfl
      simp only [readEntries, step, all]
      cases symlinksChecker rest <;> rfl
    | directory sub =>
      have all : symlinksChecker ((name, .directory sub) :: rest) = symlinksChecker rest := rfl
      simp only [readEntries, step, all]
      cases symlinksChecker rest <;> rfl

theorem answers_git_none {root : RootGit} {path : Str} (notHere : path ≠ here)
    (absent : root.lookupEntryByPath path = none) : answers ⟨.git root, root.ignoreSpecial⟩ path =
      ⟨false, false, false, false, false, none, some [], none⟩ := by
  simp only [answers, FileRoot.pathExists, FileRoot.isFile, FileRoot.isSymlink, FileRoot.isBlob,
    FileRoot.isDirectory, FileRoot.readContent, FileRoot.readDirectory, FileRoot.blobType,
    if_neg notHere, absent]
  cases root.ignoreSpecial <;> rfl

theorem answers_git_some {root : RootGit} {path : Str} {names : List Str} (notHere : path ≠ here)
    (found : root.lookupEntryByPath path = some ⟨names, node⟩) :
    answers ⟨.git root, root.ignoreSpecial⟩ path = match node with
      | .file executable content =>
        ⟨true, true, false, true, false, some content, none,
          some (if executable then .executable else .file)⟩
      | .directory sub =>
        ⟨true, false, false, false, true, none,
          if root.ignoreSpecial || root.validateNode names (.directory sub) then
            (readTree sub ((root.cached names).getD root.ignoreSpecial)).map listing
          else none, none⟩
      | .symlink target =>
        ⟨!root.ignoreSpecial && pathIsNonUpwards target, false,
          !root.ignoreSpecial && pathIsNonUpwards target,
          !root.ignoreSpecial && pathIsNonUpwards target, false,
          if pathIsNonUpwards target then some target else none, none, some .symlink⟩ := by
  simp only [answers, FileRoot.pathExists, FileRoot.isFile, FileRoot.isSymlink, FileRoot.isBlob,
    FileRoot.isDirectory, FileRoot.readContent, FileRoot.readDirectory, FileRoot.blobType,
    if_neg notHere, found, RootGit.blob, RootGit.isGitTreeValid, RootGit.entryTree]
  cases node with
  | file executable content => cases root.ignoreSpecial <;> cases executable <;> rfl
  | directory sub =>
    rw [Option.map_map]
    cases root.ignoreSpecial <;> rfl
  | symlink target =>
    dsimp only
    cases root.ignoreSpecial <;> cases pathIsNonUpwards target <;> rfl

theorem answers_fs (disk : Disk) (ignoreSpecial : Bool) (path : Str) :
    answers ⟨.fs disk, ignoreSpecial⟩ path = match disk.symlinkStatus path with
      | none => ⟨false, false, false, false, false, none, none, none⟩
      | some (.file executable content) =>
        ⟨true, true, false, true, false, some content, none,
          some (if executable then .executable else .file)⟩
      | some (.directory sub) =>
        ⟨true, false, false, false, true, none, readEntries false ignoreSpecial sub, none⟩
      | some (.symlink target) =>
        ⟨!ignoreSpecial, false, !ignoreSpecial && pathIsNonUpwards target,
          !ignoreSpecial && pathIsNonUpwards target, false,
          if pathIsNonUpwards target then some target else none,
          (disk.follow path).bind (readEntries false ignoreSpecial), some .symlink⟩ := by
  obtain ⟨found, status⟩ : ∃ found, disk.symlinkStatus path = found := ⟨_, rfl⟩
  simp only [answers, FileRoot.pathExists, FileRoot.isFile, FileRoot.isSymlink, FileRoot.isBlob,
    FileRoot.isDirectory, FileRoot.readContent, FileRoot.readDirectory, FileRoot.blobType,
    Disk.pathExists, Disk.isFile, Disk.isDirectory, Disk.isNonUpwardsSymlink, Disk.type,
    Disk.readFile, Disk.readSymlink, Disk.readDirectory, Disk.openDirectory, status]
  cases found with
  | none => cases ignoreSpecial <;> rfl
  | some node =>
    cases node with
    | file executable content => cases ignoreSpecial <;> cases executable <;> rfl
    | directory sub => cases ignoreSpecial <;> rfl
    | symlink target =>
      cases Bool.eq_false_or_eq_true (pathIsNonUpwards target) with
      | inl nonUpwards =>
        simp only [nonUpwards]
        cases ignoreSpecial <;> rfl
      | inr upwards =>
        simp only [upwards]
        cases ignoreSpecial <;> rfl
theorem answers_fs_ne (disk : Disk) (ignoreSpecial : Bool) (path : Str) :
    (⟨false, false, false, false, false, none, some [], none⟩ : Answers) ≠
      answers ⟨.fs disk, ignoreSpecial⟩ path := by
  intro same
  have listed := congrArg Answers.readDirectory same
  have existing := congrArg Answers.pathExists same
  have typed := congrArg Answers.blobType same
  rw [answers_fs] at listed existing typed
  cases status : disk.symlinkStatus path with
  | none =>
    rw [status] at listed
    cases listed
  | some node =>
    rw [status] at existing typed
    cases node with
    | file executable content => cases existing
    | directory sub => cases existing
    | symlink target => cases typed

theorem listing_all_iff (sub : Entries) :
    (if nodeValid (.directory sub) = true then some (listing sub) else none) =
        (if symlinksChecker sub = true then some (listing sub) else none) ↔
      nodeValid (.directory sub) = true ∨ symlinksChecker sub = false := by
  have checked : nodeValid (.directory sub) = true → symlinksChecker sub = true := by
    intro isValid
    rw [nodeValid, and_eq_true] at isValid
    exact isValid.1
  cases isValid : nodeValid (.directory sub) with
  | true => simp [checked isValid]
  | false => cases symlinksChecker sub <;> simp

theorem listing_ignore_iff (sub : Entries) (flag : Bool) :
    (readTree sub flag).map listing = some (listing (readDirectTree sub true)) ↔
      flag = true ∨ ∀ entry ∈ sub, entry.2.type ≠ .symlink := by
  have kept : ∀ type : Tree.ObjectType, isNonSpecialObject type = true ↔ type ≠ .symlink := by
    intro type
    cases type <;> decide
  cases flag with
  | true => simp [readTree]
  | false =>
    have plain : symlinksChecker sub = false → ¬ ∀ entry ∈ sub, entry.2.type ≠ .symlink := by
      intro upwards none
      rw [symlinksChecker, List.all_eq_false] at upwards
      obtain ⟨⟨name, node⟩, member, leads⟩ := upwards
      cases node with
      | symlink target => exact none _ member rfl
      | file _ _ => exact leads rfl
      | directory _ => exact leads rfl
    have filtered : listing sub = listing (readDirectTree sub true) ↔
        ∀ entry ∈ sub, entry.2.type ≠ .symlink := by
      have shorter : listing sub = listing (readDirectTree sub true) ↔
          sub.filter (fun entry => isNonSpecialObject entry.2.type) = sub := by
        rw [readDirectTree, if_pos rfl]
        constructor
        · intro same
          have lengths := congrArg List.length same
          simp only [listing, length_map] at lengths
          exact List.filter_sublist.eq_of_length lengths.symm
        · intro same
          rw [same]
      simp only [shorter, List.filter_eq_self, kept]
    simp only [readTree, Bool.false_or, false_eq_true, false_or]
    cases reads : symlinksChecker sub with
    | true => simpa [readDirectTree] using filtered
    | false => simpa using plain reads

section Main

variable {disk : Disk} {root : RootGit} {path : Str}

theorem lookup_here (sound : Sound disk.root root.ignoreSpecial root) (proper : Proper disk.root) :
    root.lookupEntryByPath here = none := by
  have elements : elements (RootGit.resolveRelativePath here) = [here] := by decide
  have absent : find here root.tree.entries = none := by
    cases found : find here root.tree.entries with
    | none => rfl
    | some node =>
      rw [RootGit.tree, sound.sameContent] at found
      have stored := ((find_readDirectTree proper.distinct here root.ignoreSpecial node).mp found).1
      rw [proper.find_here] at stored
      cases stored
  rw [RootGit.lookupEntryByPath, elements, RootGit.lookupEntryPyPath, absent]

theorem answers_here (sound : Sound disk.root root.ignoreSpecial root) (proper : Proper disk.root) :
    answers ⟨.git root, root.ignoreSpecial⟩ here = answers ⟨.fs disk, root.ignoreSpecial⟩ here ↔
      root.ignoreSpecial = true ∨ nodeValid (.directory root.content) = true ∨
        symlinksChecker root.content = false := by
  have status : disk.symlinkStatus here = some (.directory disk.root) := rfl
  have git : answers ⟨.git root, root.ignoreSpecial⟩ here =
      ⟨true, false, false, false, true, none,
        if root.ignoreSpecial || root.validateNode [] (.directory root.content) then
          some (listing (readDirectTree root.content root.ignoreSpecial)) else none, none⟩ := by
    simp only [answers, FileRoot.pathExists, FileRoot.isFile, FileRoot.isSymlink, FileRoot.isBlob,
      FileRoot.isDirectory, FileRoot.readContent, FileRoot.readDirectory, FileRoot.blobType,
      if_pos, lookup_here sound proper, RootGit.tree, RootGit.rootEntry, RootGit.isGitTreeValid]
    cases root.ignoreSpecial <;> rfl
  rw [git, answers_fs, status]
  simp only [Answers.mk.injEq, true_and, and_true, sound.sameContent]
  cases flag : root.ignoreSpecial with
  | true =>
    rw [readEntries_ignore, if_pos (Bool.true_or _)]
    simp
  | false =>
    rw [flag] at sound
    rw [readEntries_all, validateNode_eq sound, Bool.false_or]
    simpa [readDirectTree] using listing_all_iff disk.root

theorem answers_directory (sound : Sound disk.root root.ignoreSpecial root) {sub : Entries}
    (notHere : path ≠ here)
    (found : root.lookupEntryByPath path = some ⟨segments path, .directory sub⟩)
    (status : disk.symlinkStatus path = some (.directory sub)) :
    answers ⟨.git root, root.ignoreSpecial⟩ path = answers ⟨.fs disk, root.ignoreSpecial⟩ path ↔
      Alike disk root path (.directory sub) := by
  rw [answers_git_some notHere found, answers_fs, status]
  simp only [Answers.mk.injEq, true_and, and_true, Alike]
  cases flag : root.ignoreSpecial with
  | true =>
    rw [readEntries_ignore, if_pos (Bool.true_or _), if_pos rfl]
    exact listing_ignore_iff sub _
  | false =>
    rw [flag] at sound
    rw [readEntries_all, validateNode_eq sound, Bool.false_or, cached_plain sound,
      if_neg false_ne_true, ← listing_all_iff]
    cases isValid : nodeValid (.directory sub) with
    | false => rfl
    | true =>
      have checked : symlinksChecker sub = true := by
        rw [nodeValid, and_eq_true] at isValid
        exact isValid.1
      simp [readTree, readDirectTree, checked]

theorem answers_symlink {target : Str} (notHere : path ≠ here)
    (found : root.lookupEntryByPath path = some ⟨segments path, .symlink target⟩)
    (status : disk.symlinkStatus path = some (.symlink target)) :
    answers ⟨.git root, root.ignoreSpecial⟩ path = answers ⟨.fs disk, root.ignoreSpecial⟩ path ↔
      Alike disk root path (.symlink target) := by
  rw [answers_git_some notHere found, answers_fs, status]
  simp only [Answers.mk.injEq, true_and, and_true, Alike]
  cases flag : root.ignoreSpecial with
  | true =>
    cases disk.follow path with
    | none => simp
    | some sub => simp [readEntries_ignore]
  | false =>
    cases disk.follow path with
    | none => simp
    | some sub => simp [readEntries_all]

theorem lookup_eq_some (sound : Sound disk.root root.ignoreSpecial root) (proper : Proper disk.root)
    (some' : segments path ≠ []) (shape : path = join false (segments path)) (entry : GitTreeEntry) :
    root.lookupEntryByPath path = some entry ↔
      ∃ node, walk root.content (segments path) = some node ∧ entry = ⟨segments path, node⟩ ∧
        Passable root [] root.content (segments path) ∧
        (treeFlag root (segments path).dropLast = true → node.type ≠ .symlink) := by
  have general := @lookupEntryPyPath_eq_some root _ proper [] (segments path) entry
  have flag : treeFlag root [] = root.ignoreSpecial := rfl
  simp only [flag, decide_true, Bool.and_true, nil_append] at general
  rw [RootGit.lookupEntryByPath, elements_resolve some' shape, RootGit.tree, sound.sameContent,
    general]
  simp only [ne_eq, some', not_false_eq_true, true_and]

theorem status_below (proper : Proper disk.root) (shape : path = join false (segments path))
    (direct : throughSymlink disk.root (segments path) = false)
    (walked : walk disk.root (segments path) = some node) :
    disk.symlinkStatus path = some node := by
  have relative : isAbsolute path = false := by
    rw [shape]
    exact isAbsolute_join (resolved_segments path).plain
  have notUp : up ∉ segments path := by
    intro isUp
    obtain ⟨count, rest, split, noUp, -⟩ := (resolved_segments path).ups
    cases count with
    | zero =>
      rw [split] at isUp
      exact noUp (by simpa using isUp)
    | succ count =>
      rw [split, List.replicate_succ, cons_append, walk, proper.find_up] at walked
      cases walked
  rw [Disk.symlinkStatus, (names_normal shape).2, if_neg (by simp [notUp, direct])]
  exact walked

/-- The queries about a normal relative path that does not lead through a symbolic link are answered
alike exactly under the condition, whatever the git root has been asked before. -/
theorem answers_eq_iff {ignoreSpecial : Bool} {marked : Entries → Bool} (proper : Proper disk.root)
    (valid : ∀ tree, marked tree = true → nodeValid (.directory tree) = true)
    (queries : Reaches Query (fromGit disk.root ignoreSpecial marked) root)
    (relative : isAbsolute path = false) (normal : toNormalPath path = path)
    (direct : throughSymlink disk.root (segments path) = false) :
    answers ⟨.git root, ignoreSpecial⟩ path = answers ⟨.fs disk, ignoreSpecial⟩ path ↔
      Agrees disk root path := by
  have sound := sound_of_queries valid queries
  obtain rfl := sound.sameFlag
  rcases normal_cases relative normal with ⟨none, rfl⟩ | ⟨some', shape, notHere⟩
  · rw [Agrees, if_pos none]
    exact answers_here sound proper
  · rw [Agrees, if_neg some']
    have looked := lookup_eq_some sound proper some' shape
    cases found : root.lookupEntryByPath path with
    | none =>
      rw [answers_git_none notHere found]
      refine iff_of_false (answers_fs_ne disk _ path) ?_
      rintro ⟨node, walked, passable, visible, -⟩
      rw [(looked _).mpr ⟨node, walked, rfl, passable, visible⟩] at found
      cases found
    | some entry =>
      obtain ⟨node, walked, rfl, passable, visible⟩ := (looked entry).mp found
      have status := status_below proper shape direct (sound.sameContent ▸ walked)
      have condition : (∃ node, walk root.content (segments path) = some node ∧
          Passable root [] root.content (segments path) ∧
          (treeFlag root (segments path).dropLast = true → node.type ≠ .symlink) ∧
          Alike disk root path node) ↔ Alike disk root path node := by
        constructor
        · rintro ⟨other, walked', -, -, alike⟩
          rw [walked] at walked'
          cases walked'
          exact alike
        · exact fun alike => ⟨node, walked, passable, visible, alike⟩
      rw [condition]
      cases node with
      | file executable content =>
        rw [answers_git_some notHere found, answers_fs, status]
        simp [Alike]
      | directory sub => exact answers_directory sound notHere found status
      | symlink target => exact answers_symlink notHere found status

end Main

/-! ## A file next to a link that leads upwards -/

/-- A file and a symbolic link that leads upwards, two levels down. -/
def deepDisk : Disk where
  root := [(lit "a", .directory [(lit "b", .directory
    [(lit "f", .file false (lit "text")), (lit "l", .symlink (lit "../../../x"))])])]
  outside := fun _ => none
  follow := fun _ => none

theorem deepDisk_proper : Proper deepDisk.root := by
  have lowest : Proper [(lit "f", .file false (lit "text")),
      (lit "l", .symlink (lit "../../../x"))] :=
    .mk (by decide) (by decide) (by simp)
  have middle : Proper [(lit "b", .directory [(lit "f", .file false (lit "text")),
      (lit "l", .symlink (lit "../../../x"))])] := by
    refine .mk (by decide) (by decide) fun name sub member => ?_
    simp only [mem_singleton, Prod.mk.injEq, Node.directory.injEq] at member
    exact member.2 ▸ lowest
  refine .mk (by decide) (by decide) fun name sub member => ?_
  simp only [deepDisk, mem_singleton, Prod.mk.injEq, Node.directory.injEq] at member
  exact member.2 ▸ middle

theorem deep_file_missed :
    Proper deepDisk.root ∧ isAbsolute (lit "a/b/f") = false ∧
      toNormalPath (lit "a/b/f") = lit "a/b/f" ∧
      throughSymlink deepDisk.root (segments (lit "a/b/f")) = false ∧
      (FileRoot.mk (.git (fromGit deepDisk.root true fun _ => false)) true).isFile (lit "a/b/f") =
        false ∧
      (FileRoot.mk (.fs deepDisk) true).isFile (lit "a/b/f") = true := by
  refine ⟨deepDisk_proper, ?_, ?_, ?_, ?_, ?_⟩ <;> decide

theorem shallow_alike :
    answers ⟨.git (fromGit deepDisk.root true fun _ => false), true⟩ (lit "a") =
      answers ⟨.fs deepDisk, true⟩ (lit "a") := by
  have names : segments (lit "a") = [lit "a"] := by decide
  refine (answers_eq_iff deepDisk_proper (by simp) .refl (by decide) (by decide)
    (by decide)).mpr ?_
  rw [Agrees, names, if_neg (cons_ne_nil _ _)]
  exact ⟨_, rfl, passable_single _ _ _, by simp [Node.type], .inl rfl⟩

end Jst.Verif.FileRoots
