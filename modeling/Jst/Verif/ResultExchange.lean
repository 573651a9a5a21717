import Jst.Execution.ResultExchange
import Mathlib.Data.List.TakeWhile
/-!
# What action results represent

Files and links are written and read in the same way by everyone. In compatible mode a local action
names a directory by its message and the service by a tree message, and the two kinds of readers
take the name for what their own side writes.
-/
namespace Jst.Verif.ResultExchange

open Execution

variable {Hash : Type}

variable {output : BuiltOutput Hash} {built : Str → Option (BuiltOutput Hash)}
  {after before : BlobStore Hash} {valid : Str → Bool}

/-! ## What an execution produced -/

/-- The artifact at an output path. -/
def infoOf (exchange : Exchange Hash) : BuiltOutput Hash → ArtifactInfo Hash
  | .file digest isExecutable => (digest, if isExecutable then .executable else .file)
  | .symlink target => (exchange.blob target, .symlink)
  | .directory digest => (digest, .tree)

/-- The output paths of an action. -/
def specPaths (spec : ActionSpec) : List Str :=
  if spec.mode = .v2_1 then spec.outputs.paths else spec.outputs.files ++ spec.outputs.dirs

/-- The artifacts that an execution produced. -/
def produced (exchange : Exchange Hash) (spec : ActionSpec) (run : ActionRun Hash) (path : Str) :
    Option (ArtifactInfo Hash) :=
  if path ∈ specPaths spec then (run.built path).map (infoOf exchange) else none

/-- A directory is stored with all its subdirectories, to a depth; the size counts them. -/
def SizedTree (exchange : Exchange Hash) (store : BlobStore Hash) : Nat → Hash → Nat → Prop
  | 0, _, _ => False
  | depth + 1, digest, size => ∃ message sizes,
    store digest = some (exchange.serializeDirectory message) ∧
    List.Forall₂ (SizedTree exchange store depth) (message.directories.map (·.2)) sizes ∧
    size = 1 + sizes.sum

/-- A directory is stored with all its subdirectories, which are fewer than the fuel. -/
def StoredTree (exchange : Exchange Hash) (fuel : Nat) (store : BlobStore Hash) (digest : Hash) :
    Prop :=
  ∃ depth size, SizedTree exchange store depth digest size ∧ size < fuel

/-- How a writer names a directory. -/
def Names (exchange : Exchange Hash) (fuel : Nat) (store : BlobStore Hash) (writer : Writer)
    (name digest : Hash) : Prop :=
  if exchange.native then name = digest
  else StoredTree exchange fuel store digest ∧
    match writer with
    | .localAction => name = digest
    | .service => ∃ tree, store name = some (exchange.serializeTree tree) ∧
      exchange.blob (exchange.serializeDirectory tree.root) = digest

/-- The paths in a result. -/
def resultPaths (result : ActionResult Hash) : List Str :=
  result.outputFiles.map (·.path) ++ (allLinks result).map (·.path) ++
    result.outputDirectories.map (·.path)

/-- Everything in a result is what was produced. -/
structure Represents (exchange : Exchange Hash) (fuel : Nat) (store : BlobStore Hash)
    (writer : Writer) (result : ActionResult Hash)
    (meaning : Str → Option (ArtifactInfo Hash)) : Prop where
  files : ∀ item ∈ fileInfos result, meaning item.1 = some item.2
  links : ∀ link ∈ allLinks result,
    meaning link.path = some (exchange.blob link.target, .symlink) ∧
      store (exchange.blob link.target) = some link.target
  directories : ∀ directory ∈ result.outputDirectories, ∃ digest,
    meaning directory.path = some (digest, .tree) ∧
      Names exchange fuel store writer directory.treeDigest digest

/-- A result is written for what was produced. -/
structure Written (exchange : Exchange Hash) (fuel : Nat) (store : BlobStore Hash)
    (writer : Writer) (result : ActionResult Hash)
    (meaning : Str → Option (ArtifactInfo Hash)) : Prop
    extends Represents exchange fuel store writer result meaning where
  covers : ∀ path info, meaning path = some info → path ∈ resultPaths result

/-- What was produced is obtained. -/
def Obtained (artifacts : Option (ArtifactInfos Hash))
    (meaning : Str → Option (ArtifactInfo Hash)) : Prop :=
  ∃ infos, artifacts = some infos ∧ ∀ path, valueAt path infos = meaning path

/-! ## Maps -/

section Maps

variable {Value : Type}

variable {map items : List (Str × Value)}

theorem valueAt_eq_none {path : Str} : valueAt path map = none ↔ path ∉ map.map (·.1) := by
  unfold valueAt
  rw [Option.map_eq_none_iff, List.find?_eq_none]
  constructor
  · intro without member
    obtain ⟨item, inMap, same⟩ := mem_map.mp member
    exact without item inMap (decide_eq_true same)
  · intro absent item member same
    exact absent (mem_map.mpr ⟨item, member, of_decide_eq_true same⟩)

theorem mem_of_valueAt {path : Str} {value : Value} (found : valueAt path map = some value) :
    (path, value) ∈ map := by
  unfold valueAt at found
  obtain ⟨item, first, rfl⟩ := map_eq_some_iff.mp found
  have holds := List.find?_some first
  obtain rfl : item.1 = path := of_decide_eq_true holds
  exact List.mem_of_find?_eq_some first

theorem valueAt_cons (item : Str × Value) (map : List (Str × Value)) (path : Str) :
    valueAt path (item :: map) = if item.1 = path then some item.2 else valueAt path map := by
  unfold valueAt
  rw [List.find?_cons]
  by_cases same : item.1 = path <;> simp [same]

theorem valueAt_append (front back : List (Str × Value)) (path : Str) :
    valueAt path (front ++ back) = (valueAt path front).or (valueAt path back) := by
  induction front with
  | nil => rfl
  | cons item rest step =>
    rw [cons_append, valueAt_cons, valueAt_cons, step]
    by_cases same : item.1 = path
    · rw [if_pos same, if_pos same, Option.some_or]
    · rw [if_neg same, if_neg same]

theorem valueAt_emplaceAll_first (items map : List (Str × Value)) (path : Str) :
    valueAt path (emplaceAll items map) = valueAt path (map ++ items) := by
  induction items generalizing map with
  | nil => rw [append_nil]; rfl
  | cons item rest step =>
    change valueAt path (emplaceAll rest (emplace item map)) = _
    rw [step]
    unfold emplace
    by_cases known : map.any (·.1 = item.1) = true
    · rw [if_pos known, valueAt_append, valueAt_append, valueAt_cons]
      by_cases same : item.1 = path
      · obtain ⟨other, member, named⟩ := List.any_eq_true.mp known
        have there : path ∈ map.map (·.1) :=
          mem_map.mpr ⟨other, member, (of_decide_eq_true named).trans same⟩
        obtain ⟨value, found⟩ :=
          Option.ne_none_iff_exists'.mp fun without => valueAt_eq_none.mp without there
        rw [found, Option.some_or, Option.some_or]
      · rw [if_neg same]
    · rw [if_neg known, append_assoc, singleton_append]

theorem mem_emplaceAll {item : Str × Value} (member : item ∈ emplaceAll items map) :
    item ∈ map ∨ item ∈ items := by
  induction items generalizing map with
  | nil => exact .inl member
  | cons first rest step =>
    cases step member with
    | inr later => exact .inr (mem_cons_of_mem _ later)
    | inl here =>
      change item ∈ emplace first map at here
      unfold emplace at here
      split at here
      · exact .inl here
      · cases mem_append.mp here with
        | inl old => exact .inl old
        | inr new => exact .inr (mem_singleton.mp new ▸ mem_cons_self)

theorem path_mem_emplaceAll {path : Str} (member : path ∈ items.map (·.1)) :
    path ∈ (emplaceAll items map).map (·.1) := by
  by_contra absent
  have without := valueAt_eq_none.mpr absent
  rw [valueAt_emplaceAll_first, valueAt_eq_none, map_append] at without
  exact without (mem_append_right _ member)

theorem valueAt_eq {meaning : Str → Option Value}
    (agree : ∀ item ∈ map, meaning item.1 = some item.2)
    (cover : ∀ path value, meaning path = some value → path ∈ map.map (·.1)) (path : Str) :
    valueAt path map = meaning path := by
  cases found : valueAt path map with
  | some value => exact (agree (path, value) (mem_of_valueAt found)).symm
  | none =>
    cases meant : meaning path with
    | none => rfl
    | some value => exact absurd (cover path value meant) (valueAt_eq_none.mp found)

theorem valueAt_emplaceAll {meaning : Str → Option Value}
    (agree : ∀ item ∈ items, meaning item.1 = some item.2)
    (cover : ∀ path value, meaning path = some value → path ∈ items.map (·.1)) (path : Str) :
    valueAt path (emplaceAll items []) = meaning path := by
  rw [valueAt_emplaceAll_first, nil_append]
  exact valueAt_eq agree cover path

end Maps

/-! ## The store -/

section Stores

variable {exchange : Exchange Hash}

/-- Blobs are stored under their hashes. -/
def Addressed (exchange : Exchange Hash) (store : BlobStore Hash) : Prop :=
  ∀ hash content, store hash = some content → exchange.blob content = hash

/-- Nothing is removed from a store. -/
structure Grown (exchange : Exchange Hash) (before after : BlobStore Hash) : Prop where
  stays : ∀ hash content, before hash = some content → after hash = some content
  addressed : Addressed exchange before → Addressed exchange after

theorem Grown.refl (store : BlobStore Hash) : Grown exchange store store :=
  ⟨fun _ _ same => same, fun addressed => addressed⟩

theorem Grown.trans {first second third : BlobStore Hash} (front : Grown exchange first second)
    (back : Grown exchange second third) : Grown exchange first third :=
  ⟨fun hash content stored => back.stays hash content (front.stays hash content stored),
    fun addressed => back.addressed (front.addressed addressed)⟩

theorem SizedTree.grown (grown : Grown exchange before after) {depth : Nat} {digest : Hash}
    {size : Nat} (stored : SizedTree exchange before depth digest size) :
    SizedTree exchange after depth digest size := by
  induction depth generalizing digest size with
  | zero => exact stored
  | succ depth step =>
    obtain ⟨message, sizes, content, inner, same⟩ := stored
    exact ⟨message, sizes, grown.stays _ _ content, inner.imp fun _ _ => step, same⟩

theorem StoredTree.grown {fuel : Nat} (grown : Grown exchange before after) {digest : Hash}
    (stored : StoredTree exchange fuel before digest) : StoredTree exchange fuel after digest := by
  obtain ⟨depth, size, sized, small⟩ := stored
  exact ⟨depth, size, sized.grown grown, small⟩

theorem Represents.grown {fuel : Nat} {writer : Writer} {result : ActionResult Hash}
    {meaning : Str → Option (ArtifactInfo Hash)}
    (represents : Represents exchange fuel before writer result meaning)
    (grown : Grown exchange before after) :
    Represents exchange fuel after writer result meaning where
  files := represents.files
  links := by
    intro link member
    have here := represents.links link member
    exact ⟨here.1, grown.stays _ _ here.2⟩
  directories := by
    intro directory member
    obtain ⟨digest, meant, named⟩ := represents.directories directory member
    refine ⟨digest, meant, ?_⟩
    unfold Names at named ⊢
    split
    · next native =>
      rw [if_pos native] at named
      exact named
    · next compatible =>
      rw [if_neg compatible] at named
      refine ⟨named.1.grown grown, ?_⟩
      cases writer with
      | localAction => exact named.2
      | service =>
        obtain ⟨tree, stored, same⟩ := named.2
        exact ⟨tree, grown.stays _ _ stored, same⟩

variable [DecidableEq Hash]

theorem storeBlob_grown {store : BlobStore Hash} (addressed : Addressed exchange store)
    (content : Str) : Grown exchange store (storeBlob exchange store content) ∧
      storeBlob exchange store content (exchange.blob content) = some content := by
  refine ⟨⟨?_, ?_⟩, update_self _ _ _⟩
  · intro hash other stored
    unfold storeBlob
    by_cases same : hash = exchange.blob content
    · have own := addressed hash other stored
      rw [same, update_self, exchange.blob_injective (own.trans same)]
    · rw [update_of_ne same]
      exact stored
  · intro before hash other stored
    unfold storeBlob at stored
    by_cases same : hash = exchange.blob content
    · rw [same, update_self] at stored
      cases stored
      exact same.symm
    · rw [update_of_ne same] at stored
      exact before hash other stored

theorem storeBlobs_grown {store : BlobStore Hash} (addressed : Addressed exchange store)
    (contents : List Str) : Grown exchange store (storeBlobs exchange contents store) ∧
      ∀ content ∈ contents,
        storeBlobs exchange contents store (exchange.blob content) = some content := by
  induction contents generalizing store with
  | nil => exact ⟨Grown.refl store, fun _ impossible => by cases impossible⟩
  | cons first rest step =>
    have here := storeBlob_grown addressed first
    have later := step (here.1.addressed addressed)
    refine ⟨here.1.trans later.1, ?_⟩
    intro content member
    cases mem_cons.mp member with
    | inl same => exact same ▸ later.1.stays _ _ here.2
    | inr inRest => exact later.2 content inRest

end Stores

/-! ## Walking through directories -/

section Walks

variable {exchange : Exchange Hash} {store : BlobStore Hash}

variable {digest : Hash}

theorem readMessage_of_stored {message : DirectoryMessage Hash}
    (stored : store digest = some (exchange.serializeDirectory message)) :
    readMessage exchange store digest = some message := by
  rw [readMessage, stored]
  exact exchange.parse_serialize message

variable {digests : List Hash}

theorem allValid_isSome {check : Hash → Option Bool}
    (works : ∀ digest ∈ digests, (check digest).isSome) : (allValid check digests).isSome := by
  induction digests with
  | nil => rfl
  | cons digest rest step =>
    obtain ⟨valid, checked⟩ := isSome_iff_exists.mp (works digest mem_cons_self)
    rw [allValid, checked]
    cases valid with
    | false => rfl
    | true => exact step (forall_mem_cons.mp works).2

theorem exists_le_sum {sizes : List Nat} {Rel : Hash → Nat → Prop}
    (related : List.Forall₂ Rel digests sizes) (member : digest ∈ digests) :
    ∃ size, Rel digest size ∧ size ≤ sizes.sum := by
  induction related with
  | nil => cases member
  | cons here rest step =>
    rw [List.sum_cons]
    cases mem_cons.mp member with
    | inl same => exact ⟨_, same ▸ here, Nat.le_add_right _ _⟩
    | inr later =>
      obtain ⟨size, found, small⟩ := step later
      exact ⟨size, found, by omega⟩

theorem isDirectoryValid_isSome {depth fuel : Nat} {size : Nat}
    (sized : SizedTree exchange store depth digest size) (enough : size ≤ fuel) :
    (isDirectoryValid exchange store fuel digest).isSome := by
  induction depth generalizing fuel digest size with
  | zero => cases sized
  | succ depth step =>
    obtain ⟨message, sizes, stored, inner, rfl⟩ := sized
    cases fuel with
    | zero => omega
    | succ fuel =>
      rw [isDirectoryValid, readMessage_of_stored stored]
      simp only
      split
      · rfl
      · refine allValid_isSome ?_
        intro sub member
        obtain ⟨subSize, found, small⟩ := exists_le_sum inner member
        exact step found (by omega)

variable [DecidableEq Hash]

theorem makeTreeLoop_extends {fuel : Nat} {stack : List Hash} {sizes : List Nat}
    {found : List (Hash × DirectoryMessage Hash)}
    (sized : List.Forall₂ (fun digest size => ∃ depth, SizedTree exchange store depth digest size)
      stack sizes) (enough : sizes.sum < fuel) :
    ∃ more, makeTreeLoop exchange store fuel stack found = some (found ++ more) := by
  induction fuel generalizing stack sizes found with
  | zero => omega
  | succ fuel step =>
    cases sized with
    | nil => exact ⟨[], by rw [makeTreeLoop, append_nil]⟩
    | @cons current size rest others here later =>
      obtain ⟨depth, tree⟩ := here
      rw [List.sum_cons] at enough
      cases depth with
      | zero => cases tree
      | succ depth =>
        obtain ⟨message, inner, stored, below, rfl⟩ := tree
        rw [makeTreeLoop]
        split
        · exact step later (by omega)
        · rw [readMessage_of_stored stored]
          simp only
          have pushed : List.Forall₂
              (fun digest size => ∃ depth, SizedTree exchange store depth digest size)
              ((message.directories.map (·.2)).reverse ++ rest) (inner.reverse ++ others) :=
            List.rel_append (List.rel_reverse (below.imp fun _ _ tree => ⟨depth, tree⟩)) later
          obtain ⟨more, result⟩ := @step _ _ (found ++ [(current, message)]) pushed (by
            rw [List.sum_append, List.sum_reverse]
            omega)
          exact ⟨(current, message) :: more, by rw [result, append_assoc]; rfl⟩

theorem makeTree_of_stored {fuel : Nat} (sort : List (Hash × DirectoryMessage Hash) →
      List (Hash × DirectoryMessage Hash)) {root : Hash}
    (stored : StoredTree exchange fuel store root) :
    ∃ tree, makeTree exchange fuel sort store root = some tree ∧
      store root = some (exchange.serializeDirectory tree.root) := by
  obtain ⟨depth, size, sized, enough⟩ := stored
  cases depth with
  | zero => cases sized
  | succ depth =>
    obtain ⟨message, inner, content, below, rfl⟩ := sized
    cases fuel with
    | zero => omega
    | succ fuel =>
      have pushed : List.Forall₂
          (fun digest size => ∃ depth, SizedTree exchange store depth digest size)
          (message.directories.map (·.2)).reverse inner.reverse :=
        List.rel_reverse (below.imp fun _ _ tree => ⟨depth, tree⟩)
      obtain ⟨more, result⟩ := @makeTreeLoop_extends _ exchange store _ fuel _ _
        [(root, message)] pushed (by
          rw [List.sum_reverse]
          omega)
      have loop : makeTreeLoop exchange store (fuel + 1) [root] [] =
          some ([(root, message)] ++ more) := by
        rw [makeTreeLoop]
        simp only [List.any_nil, false_eq_true, ↓reduceIte, readMessage_of_stored content,
          append_nil, nil_append]
        exact result
      unfold makeTree
      rw [loop]
      simp only [cons_append, nil_append, List.find?_cons_of_pos, decide_true]
      exact ⟨_, rfl, content⟩

end Walks

/-! ## Readers -/

section Readers

variable {exchange : Exchange Hash} {fuel : Nat} {store : BlobStore Hash} {writer : Writer}
  {result : ActionResult Hash} {meaning : Str → Option (ArtifactInfo Hash)}

/-- Directories are named as a reader of some side expects. The message of an empty directory is
also read as that of a tree. -/
def Fits (exchange : Exchange Hash) (reader writer : Writer) (result : ActionResult Hash) : Prop :=
  exchange.native = true ∨ writer = reader ∨
    ∀ directory ∈ result.outputDirectories,
      reader = .service ∧ directory.treeDigest = exchange.blob []

/-- What an artifact needs is stored. -/
structure Supported (exchange : Exchange Hash) (fuel : Nat) (store : BlobStore Hash)
    (info : ArtifactInfo Hash) : Prop where
  target : info.2 = .symlink → ∃ target, info.1 = exchange.blob target ∧ store info.1 = some target
  tree : info.2 = .tree → exchange.native = false → StoredTree exchange fuel store info.1

variable {directory : OutputDirectory Hash}

theorem directory_of_fits (represents : Represents exchange fuel store writer result meaning)
    (fits : Fits exchange .localAction writer result)
    (member : directory ∈ result.outputDirectories) :
    meaning directory.path = some (directory.treeDigest, .tree) ∧
      (exchange.native = false → StoredTree exchange fuel store directory.treeDigest) := by
  obtain ⟨digest, meant, named⟩ := represents.directories directory member
  unfold Names at named
  cases native : exchange.native with
  | true =>
    rw [if_pos native] at named
    exact ⟨named ▸ meant, fun impossible => by cases impossible⟩
  | false =>
    simp only [native, false_eq_true, ↓reduceIte] at named
    rcases fits with isNative | rfl | remote
    · rw [native] at isNative
      cases isNative
    · obtain ⟨stored, same⟩ := named
      exact ⟨same ▸ meant, fun _ => same ▸ stored⟩
    · cases (remote directory member).1

theorem plain_agree (represents : Represents exchange fuel store writer result meaning)
    {item : Str × ArtifactInfo Hash}
    (member : item ∈ fileInfos result ++ linkInfos exchange (allLinks result)) :
    meaning item.1 = some item.2 ∧ Supported exchange fuel store item.2 := by
  cases mem_append.mp member with
  | inl file =>
    refine ⟨represents.files item file, ?_, ?_⟩
    · intro isLink
      obtain ⟨output, _, rfl⟩ := mem_map.mp file
      cases executable : output.isExecutable with
      | false => simp [executable] at isLink
      | true => simp [executable] at isLink
    · intro isTree
      obtain ⟨output, _, rfl⟩ := mem_map.mp file
      cases executable : output.isExecutable with
      | false => simp [executable] at isTree
      | true => simp [executable] at isTree
  | inr link =>
    obtain ⟨output, isLink, rfl⟩ := mem_map.mp link
    have here := represents.links output isLink
    exact ⟨here.1, fun _ => ⟨output.target, rfl, here.2⟩, fun impossible => by cases impossible⟩

theorem path_mem_infos {directories : ArtifactInfos Hash}
    (same : directories.map (·.1) = result.outputDirectories.map (·.path)) {path : Str}
    (member : path ∈ resultPaths result) :
    path ∈ (fileInfos result ++ linkInfos exchange (allLinks result) ++ directories).map (·.1) := by
  have files : (fileInfos result).map (·.1) = result.outputFiles.map (·.path) := by
    simp [fileInfos]
  have links : (linkInfos exchange (allLinks result)).map (·.1) =
      (allLinks result).map (·.path) := by
    simp [linkInfos]
  rw [map_append, map_append, files, links, same]
  exact member

theorem populate_local (represents : Represents exchange fuel store writer result meaning)
    (fits : Fits exchange .localAction writer result) :
    ∃ infos upwards, LocalResponse.populate exchange fuel store result = some (infos, upwards) ∧
      (∀ item ∈ infos, meaning item.1 = some item.2 ∧ Supported exchange fuel store item.2) ∧
      (∀ path ∈ resultPaths result, path ∈ infos.map (·.1)) := by
  have agree : ∀ item ∈ fileInfos result ++ linkInfos exchange (allLinks result) ++
      directoryInfos result, meaning item.1 = some item.2 ∧
        Supported exchange fuel store item.2 := by
    intro item member
    cases mem_append.mp member with
    | inl plain => exact plain_agree represents plain
    | inr isDirectory =>
      obtain ⟨directory, inResult, rfl⟩ := mem_map.mp isDirectory
      have here := directory_of_fits represents fits inResult
      exact ⟨here.1, fun impossible => (by cases impossible), fun _ => here.2⟩
  have checked : ∀ upwards, (checkDirectories exchange fuel store upwards result).isSome := by
    intro upwards
    unfold checkDirectories
    split
    · rfl
    · next unknown =>
      rw [Option.isSome_map]
      refine allValid_isSome ?_
      intro digest member
      obtain ⟨directory, inResult, rfl⟩ := mem_map.mp member
      have compatible : exchange.native = false := by
        cases native : exchange.native with
        | false => rfl
        | true => simp [native] at unknown
      obtain ⟨depth, size, sized, small⟩ := (directory_of_fits represents fits inResult).2 compatible
      exact isDirectoryValid_isSome sized (Nat.le_of_lt small)
  obtain ⟨upwards, result_eq⟩ := isSome_iff_exists.mp (checked (!exchange.native &&
    (allLinks result).any fun link => !Path.pathIsNonUpwards link.target))
  refine ⟨emplaceAll (fileInfos result ++ linkInfos exchange (allLinks result) ++
    directoryInfos result) [], upwards, ?_, ?_, ?_⟩
  · rw [LocalResponse.populate, result_eq]
  · intro item member
    cases mem_emplaceAll member with
    | inl impossible => cases impossible
    | inr new => exact agree item new
  · intro path member
    refine path_mem_emplaceAll (path_mem_infos ?_ member)
    simp [directoryInfos]

theorem obtained_local (written : Written exchange fuel store writer result meaning)
    (fits : Fits exchange .localAction writer result) :
    Obtained ((LocalResponse.populate exchange fuel store result).map (·.1)) meaning := by
  obtain ⟨infos, upwards, populated, agree, cover⟩ := populate_local written.toRepresents fits
  refine ⟨infos, by rw [populated]; rfl, ?_⟩
  exact valueAt_eq (fun item member => (agree item member).1)
    (fun path info meant => cover path (written.covers path info meant))

/-- What is stored for a name is read as a tree whose root is a directory. -/
def ReadAsTree (exchange : Exchange Hash) (store : BlobStore Hash) (name digest : Hash) : Prop :=
  ∃ content tree, store name = some content ∧ exchange.parseTree content = some tree ∧
    exchange.blob (exchange.serializeDirectory tree.root) = digest

theorem readAsTree_of_fits (addressed : Addressed exchange store)
    (represents : Represents exchange fuel store writer result meaning)
    (compatible : exchange.native = false) (fits : Fits exchange .service writer result)
    (member : directory ∈ result.outputDirectories) :
    ∃ digest, meaning directory.path = some (digest, .tree) ∧
      ReadAsTree exchange store directory.treeDigest digest := by
  obtain ⟨digest, meant, named⟩ := represents.directories directory member
  simp only [Names, compatible, false_eq_true, ↓reduceIte] at named
  refine ⟨digest, meant, ?_⟩
  obtain ⟨stored, name⟩ := named
  cases writer with
  | service =>
    obtain ⟨tree, content, root⟩ := name
    exact ⟨_, tree, content, exchange.parse_serializeTree tree, root⟩
  | localAction =>
    rcases fits with isNative | impossible | empty
    · rw [compatible] at isNative
      cases isNative
    · cases impossible
    · have isEmpty := (empty directory member).2
      obtain ⟨depth, size, sized, _⟩ := stored
      cases depth with
      | zero => cases sized
      | succ depth =>
        obtain ⟨message, _, content, _⟩ := sized
        rw [← name, isEmpty] at content ⊢
        rw [exchange.blob_injective (addressed _ _ content)] at content
        exact ⟨[], _, content, exchange.parseTree_nil, by rw [exchange.serialize_empty]⟩

variable [DecidableEq Hash]

theorem uploadTrees_spec {directories : List (OutputDirectory Hash)} {fetch : Hash → Option Str}
    (addressed : Addressed exchange store)
    (named : ∀ directory ∈ directories, ∃ digest, meaning directory.path = some (digest, .tree) ∧
      ReadAsTree exchange fetch directory.treeDigest digest) :
    ∃ infos after, uploadTrees exchange (directories.map (·.path))
        (readOrdered fetch (directories.map (·.treeDigest))) store = (some infos, after) ∧
      Grown exchange store after ∧ infos.map (·.1) = directories.map (·.path) ∧
      ∀ item ∈ infos, meaning item.1 = some item.2 := by
  induction directories generalizing store with
  | nil => exact ⟨[], store, rfl, Grown.refl store, rfl, fun _ impossible => by cases impossible⟩
  | cons directory rest step =>
    obtain ⟨digest, meant, content, tree, there, parses, root⟩ := named directory mem_cons_self
    have stored := storeBlobs_grown addressed
      ((tree.root :: tree.children).flatMap (messageBlobs exchange))
    obtain ⟨infos, after, uploaded, grown, paths, agree⟩ := step (stored.1.addressed addressed)
      (forall_mem_cons.mp named).2
    have first : readOrdered fetch ((directory :: rest).map (·.treeDigest)) =
        content :: readOrdered fetch (rest.map (·.treeDigest)) := List.filterMap_cons_some there
    refine ⟨(directory.path, exchange.blob (exchange.serializeDirectory tree.root), .tree) :: infos,
      after, ?_, stored.1.trans grown, ?_, ?_⟩
    · rw [first, map_cons, uploadTrees, parses]
      simp only [uploadTreeMessageDirectories, uploaded, map_some]
    · rw [map_cons, map_cons, paths]
    · intro item member
      cases mem_cons.mp member with
      | inl same =>
        rw [same, root]
        exact meant
      | inr later => exact agree item later

theorem obtained_remote (addressed : Addressed exchange store)
    (written : Written exchange fuel store writer result meaning)
    (fits : Fits exchange .service writer result) :
    Obtained (BazelResponse.populate exchange store result).1 meaning ∧
      Grown exchange store (BazelResponse.populate exchange store result).2 := by
  unfold BazelResponse.populate BazelResponse.populateFetching
  cases native : exchange.native with
  | true =>
    simp only [↓reduceIte]
    refine ⟨⟨_, rfl, valueAt_emplaceAll ?_ ?_⟩, Grown.refl store⟩
    · intro item member
      cases mem_append.mp member with
      | inl plain => exact (plain_agree written.toRepresents plain).1
      | inr isDirectory =>
        obtain ⟨directory, inResult, rfl⟩ := mem_map.mp isDirectory
        exact (directory_of_fits written.toRepresents (.inl native) inResult).1
    · intro path info meant
      refine path_mem_infos ?_ (written.covers path info meant)
      simp [directoryInfos]
  | false =>
    simp only [false_eq_true, ↓reduceIte]
    have stored := storeBlobs_grown addressed ((allLinks result).map (·.target))
    have later := stored.1.addressed addressed
    obtain ⟨infos, after, uploaded, grown, paths, agree⟩ :=
      uploadTrees_spec later fun directory member =>
        readAsTree_of_fits later (written.toRepresents.grown stored.1) native fits member
    rw [uploaded]
    refine ⟨⟨_, rfl, valueAt_emplaceAll ?_ ?_⟩, stored.1.trans grown⟩
    · intro item member
      cases mem_append.mp member with
      | inl plain => exact (plain_agree written.toRepresents plain).1
      | inr tree => exact agree item tree
    · intro path info meant
      exact path_mem_infos paths (written.covers path info meant)

end Readers

/-! ## Writers -/

section Writers

variable {exchange : Exchange Hash} {fuel : Nat} {store : BlobStore Hash} {writer : Writer}
  {result : ActionResult Hash} {meaning : Str → Option (ArtifactInfo Hash)}

/-- What a result of a writer keeps while outputs are added. -/
structure Extends (before after : ActionResult Hash) (path : Str) : Prop where
  path : path ∈ resultPaths after
  paths : ∀ other ∈ resultPaths before, other ∈ resultPaths after
  exitCode : after.exitCode = before.exitCode

section

variable (represents : Represents exchange fuel store writer result meaning)
include represents

theorem Represents.addFile {path : Str} {digest : Hash} {isExecutable : Bool}
    (meant : meaning path = some (infoOf exchange (.file digest isExecutable))) :
    Represents exchange fuel store writer
        (LocalAction.addOutput path (.file digest isExecutable) result) meaning ∧
      Extends result (LocalAction.addOutput path (.file digest isExecutable) result) path := by
  refine ⟨⟨?_, represents.links, represents.directories⟩, ?_, ?_, rfl⟩
  · intro item member
    simp only [LocalAction.addOutput, fileInfos, map_append, List.map_singleton,
      mem_append, mem_singleton] at member
    cases member with
    | inl old => exact represents.files item old
    | inr new => exact new ▸ meant
  · simp [LocalAction.addOutput, resultPaths]
  · intro other member
    simp only [LocalAction.addOutput, resultPaths, allLinks, map_append, mem_append]
      at member ⊢
    tauto

theorem Represents.addLink {after : ActionResult Hash} {path target : Str}
    (files : after.outputFiles = result.outputFiles)
    (directories : after.outputDirectories = result.outputDirectories)
    (exitCode : after.exitCode = result.exitCode)
    (links : ∀ link, link ∈ allLinks after ↔ link ∈ allLinks result ∨ link = ⟨path, target⟩)
    (meant : meaning path = some (exchange.blob target, .symlink))
    (stored : store (exchange.blob target) = some target) :
    Represents exchange fuel store writer after meaning ∧ Extends result after path := by
  have paths : ∀ other, other ∈ resultPaths after ↔ other ∈ resultPaths result ∨ other = path := by
    intro other
    have inLinks : other ∈ (allLinks after).map (·.path) ↔
        other ∈ (allLinks result).map (·.path) ∨ other = path := by
      constructor
      · intro member
        obtain ⟨link, isLink, rfl⟩ := mem_map.mp member
        cases (links link).mp isLink with
        | inl old => exact .inl (mem_map.mpr ⟨link, old, rfl⟩)
        | inr new => exact .inr (new ▸ rfl)
      · intro member
        cases member with
        | inl old =>
          obtain ⟨link, isLink, rfl⟩ := mem_map.mp old
          exact mem_map.mpr ⟨link, (links link).mpr (.inl isLink), rfl⟩
        | inr new =>
          exact mem_map.mpr ⟨⟨path, target⟩, (links _).mpr (.inr rfl), new.symm⟩
    simp only [resultPaths, files, directories, mem_append, inLinks]
    tauto
  refine ⟨⟨?_, ?_, ?_⟩, (paths path).mpr (.inr rfl), fun other member =>
    (paths other).mpr (.inl member), exitCode⟩
  · intro item member
    rw [fileInfos, files] at member
    exact represents.files item member
  · intro link member
    cases (links link).mp member with
    | inl old => exact represents.links link old
    | inr new => exact new ▸ ⟨meant, stored⟩
  · intro directory member
    rw [directories] at member
    exact represents.directories directory member

theorem Represents.addDirectory {path : Str} {name digest : Hash}
    (meant : meaning path = some (digest, .tree))
    (named : Names exchange fuel store writer name digest) : Represents exchange fuel store writer
        { result with outputDirectories := result.outputDirectories ++ [⟨path, name⟩] } meaning ∧
      Extends result
        { result with outputDirectories := result.outputDirectories ++ [⟨path, name⟩] } path := by
  refine ⟨⟨represents.files, represents.links, ?_⟩, ?_, ?_, rfl⟩
  · intro directory member
    cases mem_append.mp member with
    | inl old => exact represents.directories directory old
    | inr new =>
      rw [mem_singleton.mp new]
      exact ⟨digest, meant, named⟩
  · simp [resultPaths]
  · intro other member
    simp only [resultPaths, allLinks, map_append, mem_append] at member ⊢
    tauto

end

/-- What a built output needs is stored. -/
def SupportedOutput (exchange : Exchange Hash) (fuel : Nat) (store : BlobStore Hash) :
    BuiltOutput Hash → Prop
  | .file _ _ => True
  | .symlink target => store (exchange.blob target) = some target
  | .directory digest => exchange.native = false → StoredTree exchange fuel store digest

variable {path : Str}

theorem Represents.addOutput
    (represents : Represents exchange fuel store .localAction result meaning)
    (meant : meaning path = some (infoOf exchange output))
    (supported : SupportedOutput exchange fuel store output) :
    Represents exchange fuel store .localAction (LocalAction.addOutput path output result) meaning ∧
      Extends result (LocalAction.addOutput path output result) path := by
  cases output with
  | file digest isExecutable => exact represents.addFile meant
  | symlink target =>
    refine represents.addLink rfl rfl rfl ?_ meant supported
    intro link
    simp only [LocalAction.addOutput, allLinks, mem_append, mem_singleton]
    tauto
  | directory digest =>
    refine @Represents.addDirectory _ _ _ _ _ _ _ represents path digest digest meant ?_
    unfold Names
    split
    · rfl
    · next compatible => exact ⟨supported (Bool.not_eq_true _ |>.mp compatible), rfl⟩

theorem Represents.addOld {mode : RequestMode} (old : mode ≠ .v2_1)
    {add : Str → BuiltOutput Hash → ActionResult Hash → ActionResult Hash}
    (isAdd : add = LocalAction.addFileOrSymlink mode ∨ add = LocalAction.addDirOrSymlink mode)
    (represents : Represents exchange fuel store .localAction result meaning)
    (meant : meaning path = some (infoOf exchange output))
    (supported : SupportedOutput exchange fuel store output) :
    Represents exchange fuel store .localAction (add path output result) meaning ∧
      Extends result (add path output result) path ∧
      (mode = .v2_0 → (add path output result).outputSymlinks = result.outputSymlinks) := by
  cases output with
  | file digest isExecutable =>
    have done := represents.addFile meant
    rcases isAdd with rfl | rfl
    · exact ⟨done.1, done.2, fun _ => rfl⟩
    · exact ⟨done.1, done.2, fun _ => rfl⟩
  | directory digest =>
    have done := represents.addOutput meant supported
    rcases isAdd with rfl | rfl
    · exact ⟨done.1, done.2, fun _ => rfl⟩
    · exact ⟨done.1, done.2, fun _ => rfl⟩
  | symlink target =>
    have added : Represents exchange fuel store .localAction (add path (.symlink target) result)
        meaning ∧ Extends result (add path (.symlink target) result) path := by
      rcases isAdd with rfl | rfl
      · cases mode with
        | v2_1 => exact absurd rfl old
        | v2_0 =>
          refine represents.addLink rfl rfl rfl ?_ meant supported
          intro link
          simp only [LocalAction.addFileOrSymlink, reduceCtorEq, ↓reduceIte, allLinks,
            mem_append, mem_singleton]
          tauto
        | bestEffort =>
          refine represents.addLink rfl rfl rfl ?_ meant supported
          intro link
          simp only [LocalAction.addFileOrSymlink, LocalAction.addOutput, ↓reduceIte, allLinks,
            mem_append, mem_singleton]
          tauto
      · cases mode with
        | v2_1 => exact absurd rfl old
        | v2_0 =>
          refine represents.addLink rfl rfl rfl ?_ meant supported
          intro link
          simp only [LocalAction.addDirOrSymlink, reduceCtorEq, ↓reduceIte, allLinks,
            mem_append, mem_singleton]
          tauto
        | bestEffort =>
          refine represents.addLink rfl rfl rfl ?_ meant supported
          intro link
          simp only [LocalAction.addDirOrSymlink, LocalAction.addOutput, ↓reduceIte, allLinks,
            mem_append, mem_singleton]
          tauto
    refine ⟨added.1, added.2, ?_⟩
    rintro rfl
    rcases isAdd with rfl | rfl
    · rfl
    · rfl

theorem collect_spec {output : Str → Option (BuiltOutput Hash)}
    {add : Str → BuiltOutput Hash → ActionResult Hash → ActionResult Hash}
    {Good : ActionResult Hash → Prop} {paths : List Str}
    (adds : ∀ path ∈ paths, ∀ found result, output path = some found → Good result →
      Good (add path found result) ∧ Extends result (add path found result) path)
    (good : Good result) : Good (LocalAction.collect output add paths result).2 ∧
    (LocalAction.collect output add paths result).2.exitCode = result.exitCode ∧
    (∀ other ∈ resultPaths result,
      other ∈ resultPaths (LocalAction.collect output add paths result).2) ∧
    (LocalAction.collect output add paths result).1 = paths.all (fun path => (output path).isSome) ∧
    ∀ path ∈ paths.takeWhile fun path => (output path).isSome,
      path ∈ resultPaths (LocalAction.collect output add paths result).2 := by
  induction paths generalizing result with
  | nil => exact ⟨good, rfl, fun _ member => member, rfl, fun _ impossible => by cases impossible⟩
  | cons path rest step =>
    unfold LocalAction.collect
    cases found : output path with
    | none =>
      simp only [List.takeWhile_cons, List.all_cons, found, Option.isSome_none, Bool.false_and,
        false_eq_true, ↓reduceIte]
      exact ⟨good, trivial, fun _ member => member, trivial, fun _ impossible => by cases impossible⟩
    | some built =>
      have here := adds path mem_cons_self built result found good
      have later := step (forall_mem_cons.mp adds).2 here.1
      simp only [List.takeWhile_cons, List.all_cons, found, Option.isSome_some, Bool.true_and,
        ↓reduceIte]
      refine ⟨later.1, later.2.1.trans here.2.exitCode, fun other member =>
        later.2.2.1 other (here.2.paths other member), later.2.2.2.1, ?_⟩
      intro other member
      cases mem_cons.mp member with
      | inl same => exact same ▸ later.2.2.1 path here.2.path
      | inr inRest => exact later.2.2.2.2 other inRest

theorem built_of_collectOutputPath
    (collected : LocalAction.collectOutputPath valid built path = some output) :
    built path = some output := by
  unfold LocalAction.collectOutputPath at collected
  split at collected
  · next target found =>
    split at collected
    · rw [found]
      exact collected
    · cases collected
  · exact collected

theorem built_of_collectOutputFileOrSymlink
    (collected : LocalAction.collectOutputFileOrSymlink valid built path = some output) :
    built path = some output := by
  unfold LocalAction.collectOutputFileOrSymlink at collected
  split at collected
  · cases collected
  · exact built_of_collectOutputPath collected

theorem built_of_collectOutputDirOrSymlink
    (collected : LocalAction.collectOutputDirOrSymlink valid built path = some output) :
    built path = some output := by
  unfold LocalAction.collectOutputDirOrSymlink at collected
  split at collected
  · cases collected
  · exact built_of_collectOutputPath collected

theorem represents_empty (stdout stderr : Option Hash) (exitCode : Int) :
    Represents exchange fuel store writer (.empty stdout stderr exitCode) meaning :=
  ⟨fun _ impossible => (by cases impossible), fun _ impossible => (by cases impossible),
    fun _ impossible => (by cases impossible)⟩

/-- The output paths before the first whose output cannot be collected. -/
def collectedPaths (exchange : Exchange Hash) (spec : ActionSpec) (run : ActionRun Hash) :
    List Str :=
  let valid := validSymlink exchange
  let isFile := fun path => (LocalAction.collectOutputFileOrSymlink valid run.built path).isSome
  let isDir := fun path => (LocalAction.collectOutputDirOrSymlink valid run.built path).isSome
  if spec.mode = .v2_1 then
    spec.outputs.paths.takeWhile fun path =>
      (LocalAction.collectOutputPath valid run.built path).isSome
  else if spec.outputs.files.all isFile then
    spec.outputs.files ++ spec.outputs.dirs.takeWhile isDir
  else spec.outputs.files.takeWhile isFile

theorem takeWhile_eq_of_all {check : Str → Bool} {paths : List Str} (all : paths.all check = true) :
    paths.takeWhile check = paths :=
  List.takeWhile_eq_self_iff.mpr (List.all_eq_true.mp all)

theorem collectAndStoreOutputs_spec {spec : ActionSpec} {run : ActionRun Hash}
    (supported : ∀ path output, run.built path = some output →
      SupportedOutput exchange fuel store output)
    {stdout stderr : Option Hash} {exitCode : Int} {outcome : Bool × ActionResult Hash}
    (called : LocalAction.collectAndStoreOutputs (validSymlink exchange) run.built spec.mode
      spec.outputs (.empty stdout stderr exitCode) = outcome) :
    Represents exchange fuel store .localAction outcome.2 (produced exchange spec run) ∧
      outcome.2.exitCode = exitCode ∧ (spec.mode = .v2_0 → outcome.2.outputSymlinks = []) ∧
      (∀ path ∈ collectedPaths exchange spec run, path ∈ resultPaths outcome.2) ∧
      (outcome.1 = true → collectedPaths exchange spec run = specPaths spec) := by
  subst called
  have meant : ∀ path ∈ specPaths spec, ∀ output, run.built path = some output →
      produced exchange spec run path = some (infoOf exchange output) := by
    intro path member output built
    rw [produced, if_pos member, built]
    rfl
  have start : Represents exchange fuel store .localAction
      (.empty stdout stderr exitCode : ActionResult Hash) (produced exchange spec run) :=
    represents_empty stdout stderr exitCode
  unfold LocalAction.collectAndStoreOutputs
  by_cases generic : spec.mode = .v2_1
  · have inSpec : ∀ path ∈ spec.outputs.paths, path ∈ specPaths spec := by
      intro path member
      rw [specPaths, if_pos generic]
      exact member
    have collected := @collect_spec _ (.empty stdout stderr exitCode)
      (LocalAction.collectOutputPath (validSymlink exchange) run.built) LocalAction.addOutput
      (fun result => Represents exchange fuel store .localAction result
        (produced exchange spec run)) spec.outputs.paths (by
        intro path member found result output good
        have built := built_of_collectOutputPath output
        exact Represents.addOutput good (meant path (inSpec path member) found built)
          (supported path found built)) start
    rw [if_pos generic]
    simp only [collectedPaths, specPaths, if_pos generic]
    refine ⟨collected.1, collected.2.1, fun old => ?_, collected.2.2.2.2, fun all => ?_⟩
    · rw [generic] at old
      cases old
    · exact takeWhile_eq_of_all (collected.2.2.2.1.symm.trans all)
  · have inSpec : ∀ path, path ∈ spec.outputs.files ++ spec.outputs.dirs →
        path ∈ specPaths spec := by
      intro path member
      rw [specPaths, if_neg generic]
      exact member
    -- links stay out of the field of v2.1 in legacy mode
    have adds : ∀ (add : Str → BuiltOutput Hash → ActionResult Hash → ActionResult Hash),
        (add = LocalAction.addFileOrSymlink spec.mode ∨
          add = LocalAction.addDirOrSymlink spec.mode) →
        ∀ path ∈ specPaths spec, ∀ found (result : ActionResult Hash),
          run.built path = some found →
          (Represents exchange fuel store .localAction result (produced exchange spec run) ∧
            (spec.mode = .v2_0 → result.outputSymlinks = [])) →
          (Represents exchange fuel store .localAction (add path found result)
              (produced exchange spec run) ∧
            (spec.mode = .v2_0 → (add path found result).outputSymlinks = [])) ∧
          Extends result (add path found result) path := by
      intro add isAdd path member found result built good
      have added := Represents.addOld generic isAdd good.1 (meant path member found built)
        (supported path found built)
      exact ⟨⟨added.1, fun old => (added.2.2 old).trans (good.2 old)⟩, added.2.1⟩
    have files := @collect_spec _ (.empty stdout stderr exitCode)
      (LocalAction.collectOutputFileOrSymlink (validSymlink exchange) run.built)
      (LocalAction.addFileOrSymlink spec.mode)
      (fun result => Represents exchange fuel store .localAction result
        (produced exchange spec run) ∧ (spec.mode = .v2_0 → result.outputSymlinks = []))
      spec.outputs.files (fun path member found result output good =>
        adds _ (.inl rfl) path (inSpec path (mem_append_left _ member)) found result
          (built_of_collectOutputFileOrSymlink output) good) ⟨start, fun _ => rfl⟩
    rw [if_neg generic]
    simp only [collectedPaths, specPaths, if_neg generic]
    cases filesCalled : LocalAction.collect
        (LocalAction.collectOutputFileOrSymlink (validSymlink exchange) run.built)
        (LocalAction.addFileOrSymlink spec.mode) spec.outputs.files
        (.empty stdout stderr exitCode) with
    | mk filesDone afterFiles =>
      rw [filesCalled] at files
      obtain ⟨good, code, old, all, paths⟩ := files
      simp only at good code old all paths
      rw [← all]
      cases filesDone with
      | false =>
        exact ⟨good.1, code, good.2, paths, fun impossible => by cases impossible⟩
      | true =>
        simp only [↓reduceIte]
        have dirs := @collect_spec _ afterFiles
          (LocalAction.collectOutputDirOrSymlink (validSymlink exchange) run.built)
          (LocalAction.addDirOrSymlink spec.mode)
          (fun result => Represents exchange fuel store .localAction result
            (produced exchange spec run) ∧ (spec.mode = .v2_0 → result.outputSymlinks = []))
          spec.outputs.dirs (fun path member found result output good =>
            adds _ (.inr rfl) path (inSpec path (mem_append_right _ member)) found result
              (built_of_collectOutputDirOrSymlink output) good) good
        obtain ⟨goodDirs, codeDirs, oldDirs, allDirs, pathsDirs⟩ := dirs
        refine ⟨goodDirs.1, codeDirs.trans code, goodDirs.2, ?_, fun isAll => ?_⟩
        · intro path member
          cases mem_append.mp member with
          | inl inFiles =>
            rw [takeWhile_eq_of_all all.symm] at paths
            exact oldDirs path (paths path inFiles)
          | inr inDirs => exact pathsDirs path inDirs
        · rw [takeWhile_eq_of_all (allDirs.symm.trans isAll)]

/-! ## The service as a writer -/

theorem Supported.grown {info : ArtifactInfo Hash} (supported : Supported exchange fuel store info)
    (grown : Grown exchange store after) : Supported exchange fuel after info where
  target := by
    intro isLink
    obtain ⟨target, same, stored⟩ := supported.target isLink
    exact ⟨target, same, grown.stays _ _ stored⟩
  tree := fun isTree compatible => (supported.tree isTree compatible).grown grown

variable [DecidableEq Hash]

section

variable (context : ServiceContext Hash)
include context

theorem toBazelOutputDirectory_spec (path : Str) {digest : Hash}
    (addressed : Addressed exchange store)
    (stored : exchange.native = false → StoredTree exchange context.fuel store digest) :
    ∃ name after,
      toBazelOutputDirectory exchange context path digest store = (some ⟨path, name⟩, after) ∧
      Names exchange context.fuel after .service name digest ∧ Grown exchange store after := by
  unfold toBazelOutputDirectory
  cases native : exchange.native with
  | true =>
    refine ⟨digest, store, rfl, ?_, Grown.refl store⟩
    rw [Names, if_pos native]
  | false =>
    obtain ⟨tree, made, root⟩ := makeTree_of_stored context.sort (stored native)
    have added := storeBlob_grown addressed (exchange.serializeTree tree)
    simp only [false_eq_true, ↓reduceIte, made]
    refine ⟨_, _, rfl, ?_, added.1⟩
    simp only [Names, native, false_eq_true, ↓reduceIte]
    exact ⟨(stored native).grown added.1, tree, added.2, addressed _ _ root⟩

theorem addArtifact_symlink {dirSymlinks : Option (List Str)} {legacyClient : Bool}
    (keeps : legacyClient = true → dirSymlinks.isSome) (path : Str) {digest : Hash} {target : Str}
    (stored : store digest = some target) : ∃ next,
      addArtifact exchange context dirSymlinks legacyClient (path, digest, .symlink) result store =
        (some next, store) ∧ next.outputFiles = result.outputFiles ∧
      next.outputDirectories = result.outputDirectories ∧ next.exitCode = result.exitCode ∧
      (∀ link, link ∈ allLinks next ↔ link ∈ allLinks result ∨ link = ⟨path, target⟩) ∧
      (legacyClient = true → next.outputSymlinks = result.outputSymlinks) := by
  simp only [addArtifact, stored]
  cases dirSymlinks with
  | none =>
    cases legacyClient with
    | true => exact absurd (keeps rfl) (by decide)
    | false =>
      refine ⟨_, rfl, rfl, rfl, rfl, ?_, fun impossible => by cases impossible⟩
      intro link
      simp only [false_eq_true, ↓reduceIte, allLinks, mem_append, mem_singleton, or_assoc,
        or_comm, or_left_comm, or_self]
  | some paths =>
    by_cases isDirectory : path ∈ paths
    · simp only [if_pos isDirectory]
      cases legacyClient with
      | true =>
        refine ⟨_, rfl, rfl, rfl, rfl, ?_, fun _ => rfl⟩
        intro link
        simp only [↓reduceIte, allLinks, mem_append, mem_singleton, or_assoc,
          or_comm, or_left_comm, or_self]
      | false =>
        refine ⟨_, rfl, rfl, rfl, rfl, ?_, fun impossible => by cases impossible⟩
        intro link
        simp only [false_eq_true, ↓reduceIte, allLinks, mem_append, mem_singleton, or_assoc,
          or_comm, or_left_comm, or_self]
    · simp only [if_neg isDirectory]
      cases legacyClient with
      | true =>
        refine ⟨_, rfl, rfl, rfl, rfl, ?_, fun _ => rfl⟩
        intro link
        simp only [↓reduceIte, allLinks, mem_append, mem_singleton, or_assoc,
          or_comm, or_left_comm, or_self]
      | false =>
        refine ⟨_, rfl, rfl, rfl, rfl, ?_, fun impossible => by cases impossible⟩
        intro link
        simp only [false_eq_true, ↓reduceIte, allLinks, mem_append, mem_singleton, or_assoc,
          or_comm, or_left_comm, or_self]

variable {legacyClient : Bool}

theorem addArtifact_spec {dirSymlinks : Option (List Str)}
    (keeps : legacyClient = true → dirSymlinks.isSome)
    (represents : Represents exchange context.fuel store .service result meaning)
    (addressed : Addressed exchange store) {info : ArtifactInfo Hash}
    (meant : meaning path = some info) (supported : Supported exchange context.fuel store info) :
    ∃ next after, addArtifact exchange context dirSymlinks legacyClient (path, info) result store =
        (some next, after) ∧
      Represents exchange context.fuel after .service next meaning ∧ Extends result next path ∧
      Grown exchange store after ∧
      (legacyClient = true → next.outputSymlinks = result.outputSymlinks) := by
  obtain ⟨digest, type⟩ := info
  cases type with
  | file =>
    have done := @Represents.addFile _ _ _ _ _ _ _ represents path digest false meant
    exact ⟨_, store, rfl, done.1, done.2, Grown.refl store, fun _ => rfl⟩
  | executable =>
    have done := @Represents.addFile _ _ _ _ _ _ _ represents path digest true meant
    exact ⟨_, store, rfl, done.1, done.2, Grown.refl store, fun _ => rfl⟩
  | tree =>
    obtain ⟨name, after, converted, named, grown⟩ :=
      toBazelOutputDirectory_spec context path addressed (supported.tree rfl)
    have done := (represents.grown grown).addDirectory meant named
    refine ⟨_, after, ?_, done.1, done.2, grown, fun _ => rfl⟩
    simp only [addArtifact, converted]
  | symlink =>
    obtain ⟨target, same, stored⟩ := supported.target rfl
    simp only at same stored
    obtain ⟨next, added, files, directories, exitCode, links, legacy⟩ :=
      @addArtifact_symlink _ exchange store result _ context _ _ keeps path _ _ stored
    have done := represents.addLink files directories exitCode links (same ▸ meant)
      (same ▸ stored)
    exact ⟨next, store, added, done.1, done.2, Grown.refl store, legacy⟩

theorem addArtifacts_spec {dirSymlinks : Option (List Str)} {legacyClient : Bool}
    (keeps : legacyClient = true → dirSymlinks.isSome) {artifacts : ArtifactInfos Hash}
    {store : BlobStore Hash} {result : ActionResult Hash}
    (represents : Represents exchange context.fuel store .service result meaning)
    (addressed : Addressed exchange store)
    (meant : ∀ item ∈ artifacts, meaning item.1 = some item.2 ∧
      Supported exchange context.fuel store item.2) : ∃ next after,
      addArtifacts exchange context dirSymlinks legacyClient artifacts result store =
        (some next, after) ∧ Represents exchange context.fuel after .service next meaning ∧
      (∀ path ∈ resultPaths result, path ∈ resultPaths next) ∧
      (∀ path ∈ artifacts.map (·.1), path ∈ resultPaths next) ∧
      next.exitCode = result.exitCode ∧ Grown exchange store after ∧
      (legacyClient = true → next.outputSymlinks = result.outputSymlinks) := by
  induction artifacts generalizing store result with
  | nil =>
    exact ⟨result, store, rfl, represents, fun _ member => member,
      fun _ impossible => (by cases impossible), rfl, Grown.refl store, fun _ => rfl⟩
  | cons artifact rest step =>
    have here := meant artifact mem_cons_self
    obtain ⟨next, after, added, kept, extended, grown, legacy⟩ :=
      addArtifact_spec context keeps represents addressed here.1 here.2
    obtain ⟨last, final, all, holds, old, new, exitCode, further, still⟩ :=
      step kept (grown.addressed addressed) (by
        intro item member
        have later := meant item (mem_cons_of_mem _ member)
        exact ⟨later.1, later.2.grown grown⟩)
    refine ⟨last, final, ?_, holds, fun path member => old path (extended.paths path member), ?_,
      exitCode.trans extended.exitCode, grown.trans further,
      fun isLegacy => (still isLegacy).trans (legacy isLegacy)⟩
    · rw [addArtifacts, added]
      exact all
    · intro path member
      rw [map_cons, mem_cons] at member
      cases member with
      | inl same => exact same ▸ old artifact.1 extended.path
      | inr later => exact new path later

theorem toBazelExecuteResponse_spec
    (represents : Represents exchange context.fuel store writer result meaning)
    (fits : Fits exchange .localAction writer result) (addressed : Addressed exchange store)
    (legacy : legacyClient = true → result.outputSymlinks = []) : ∃ next after,
      toBazelExecuteResponse exchange context legacyClient result store = (some next, after) ∧
      Represents exchange context.fuel after .service next meaning ∧
      (∀ path ∈ resultPaths result, path ∈ resultPaths next) ∧
      next.exitCode = result.exitCode ∧ Grown exchange store after ∧
      (legacyClient = true → next.outputSymlinks = []) := by
  obtain ⟨infos, upwards, populated, agree, cover⟩ := populate_local represents fits
  have known : legacyClient = true → (LocalResponse.directorySymlinks result).isSome := by
    intro isLegacy
    rw [LocalResponse.directorySymlinks, legacy isLegacy]
    rfl
  obtain ⟨next, after, added, kept, _, paths, exitCode, grown, still⟩ :=
    @addArtifacts_spec _ exchange meaning _ context (LocalResponse.directorySymlinks result)
      legacyClient known infos store
      (.empty result.stdoutDigest result.stderrDigest result.exitCode)
      (represents_empty _ _ _) addressed agree
  refine ⟨next, after, ?_, kept, fun path member => paths path (cover path member), exitCode,
    grown, fun isLegacy => still isLegacy⟩
  unfold toBazelExecuteResponse
  rw [populated]
  simp only
  rw [if_neg]
  · exact added
  · intro refused
    rw [and_eq_true] at refused
    have there := known refused.1
    rw [← Option.not_isNone, refused.2] at there
    cases there

end

end Writers

end Jst.Verif.ResultExchange
