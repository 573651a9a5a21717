import Jst.Verif.TreeObjects
/-!
# The merge of two trees as the parser reads them

The loop over the entries of the base and the insertion of the overlays of the subtrees compute the
overlay of the two trees as the parser reads them (`Merged`); the disjoint mode fails exactly when
these have a conflict and computes the same otherwise.
-/
namespace Jst.Verif.TreeOverlay

open Jst.SortedMap Jst.Tree

variable {Hash : Type} [DecidableEq Hash]

section Loops

/-- Two entries of one name that are different and not both trees. -/
def Clash (base other : ObjectInfo Hash) : Prop :=
  other ≠ base ∧ ¬ (base.type = .tree ∧ other.type = .tree)

variable {disjoint : Bool} {rest overlay : TreeEntries Hash}
  {keys : List (Str × ObjectInfo Hash × ObjectInfo Hash)}

theorem overlayLoop_clash (keys : List (Str × ObjectInfo Hash × ObjectInfo Hash))
    (ordered : Ascending rest) {name : Str} {base other : ObjectInfo Hash}
    (member : (name, base) ∈ rest) (present : find name overlay = some other)
    (clash : Clash base other) : ∃ failure, overlayLoop true rest overlay keys = .error failure := by
  induction rest generalizing overlay keys with
  | nil => simp at member
  | cons head rest step =>
    obtain ⟨first, info⟩ := head
    obtain ⟨below, later⟩ := pairwise_cons.mp ordered
    rcases mem_cons.mp member with same | inside
    · cases same
      simp only [overlayLoop, present]
      rw [if_neg clash.1, if_neg clash.2]
      exact ⟨_, rfl⟩
    · have differ : first ≠ name := ne_of_lt (below _ inside)
      simp only [overlayLoop]
      split
      · exact step _ later inside (by rw [find_insert, if_neg differ, present])
      · split
        · exact step _ later inside present
        · split
          · exact step _ later inside present
          · exact ⟨_, rfl⟩

theorem overlayLoop_lax {out : TreeEntries Hash × List (Str × ObjectInfo Hash × ObjectInfo Hash)}
    (computed : overlayLoop true rest overlay keys = .ok out) :
    overlayLoop false rest overlay keys = .ok out := by
  induction rest generalizing overlay keys with
  | nil => exact computed
  | cons head rest step =>
    simp only [overlayLoop] at computed ⊢
    split at computed
    · exact step computed
    · split at computed
      · next same => simpa [same] using step computed
      · next differ =>
        split at computed
        · next trees => simpa [differ, trees] using step computed
        · simp at computed

/-- What the loop has computed: the union of the entries, with the other tree first, and the
different trees of one name. -/
structure LoopResult (rest overlay final : TreeEntries Hash)
    (pairs : List (Str × ObjectInfo Hash × ObjectInfo Hash)) : Prop where
  ordered : Ascending final
  found : ∀ name, find name final = (find name overlay).or (find name rest)
  distinct : (pairs.map fst).Nodup
  listed : ∀ name base other, (name, base, other) ∈ pairs ↔ (name, base) ∈ rest ∧
    find name overlay = some other ∧ other ≠ base ∧ base.type = .tree ∧ other.type = .tree

section LoopSteps

omit [DecidableEq Hash]

variable {final : TreeEntries Hash} {pairs : List (Str × ObjectInfo Hash × ObjectInfo Hash)}
  {first : Str} {info other : ObjectInfo Hash}

theorem LoopResult.insert (below : ∀ item ∈ rest, first < item.1)
    (absent : find first overlay = none)
    (result : LoopResult rest (insert first info overlay) final pairs) :
    LoopResult ((first, info) :: rest) overlay final pairs where
  ordered := result.ordered
  distinct := result.distinct
  found name := by
    rw [result.found, find_insert, find_cons]
    split
    · next same =>
      subst same
      simp [absent]
    · rfl
  listed name base other := by
    rw [result.listed, find_insert, mem_cons]
    constructor
    · rintro ⟨member, present, unlike⟩
      have differ : first ≠ name := ne_of_lt (below _ member)
      rw [if_neg differ] at present
      exact ⟨.inr member, present, unlike⟩
    · rintro ⟨here | member, present, unlike⟩
      · cases here
        simp [absent] at present
      · have differ : first ≠ name := ne_of_lt (below _ member)
        exact ⟨member, by rw [if_neg differ, present], unlike⟩

theorem find_present (present : find first overlay = some other) (name : Str) :
    (find name overlay).or (find name rest) =
      (find name overlay).or (find name ((first, info) :: rest)) := by
  rw [find_cons]
  split
  · next same =>
    subst same
    simp [present]
  · rfl

theorem LoopResult.keep (present : find first overlay = some other)
    (alike : other = info ∨ ¬ (info.type = .tree ∧ other.type = .tree))
    (result : LoopResult rest overlay final pairs) :
    LoopResult ((first, info) :: rest) overlay final pairs where
  ordered := result.ordered
  distinct := result.distinct
  found name := by rw [result.found, find_present present]
  listed name base other' := by
    rw [result.listed, mem_cons]
    constructor
    · rintro ⟨member, unlike⟩
      exact ⟨.inr member, unlike⟩
    · rintro ⟨here | member, found, differ, trees⟩
      · cases here
        rw [present] at found
        cases found
        exact absurd trees (alike.resolve_left differ)
      · exact ⟨member, found, differ, trees⟩

theorem LoopResult.merge (below : ∀ item ∈ rest, first < item.1)
    (present : find first overlay = some other) (differ : other ≠ info)
    (trees : info.type = .tree ∧ other.type = .tree)
    (result : LoopResult rest overlay final pairs) :
    LoopResult ((first, info) :: rest) overlay final ((first, info, other) :: pairs) where
  ordered := result.ordered
  found name := by rw [result.found, find_present present]
  distinct := by
    refine nodup_cons.mpr ⟨?_, result.distinct⟩
    rw [mem_map]
    rintro ⟨⟨name, base, other'⟩, member, rfl⟩
    exact lt_irrefl _ (below _ ((result.listed _ _ _).mp member).1)
  listed name base other' := by
    rw [mem_cons, mem_cons, result.listed]
    constructor
    · rintro (here | ⟨member, unlike⟩)
      · cases here
        exact ⟨.inl rfl, present, differ, trees⟩
      · exact ⟨.inr member, unlike⟩
    · rintro ⟨here | member, found, unlike⟩
      · cases here
        rw [present] at found
        cases found
        exact .inl rfl
      · exact .inr ⟨member, found, unlike⟩

end LoopSteps

theorem overlayLoop_ok (disjoint : Bool) (keys : List (Str × ObjectInfo Hash × ObjectInfo Hash))
    (ordered : Ascending rest) (overlayOrdered : Ascending overlay)
    (noClash : disjoint = true → ∀ name base other, (name, base) ∈ rest →
      find name overlay = some other → ¬ Clash base other) :
    ∃ final pairs, overlayLoop disjoint rest overlay keys = .ok (final, keys ++ pairs) ∧
      LoopResult rest overlay final pairs := by
  induction rest generalizing overlay keys with
  | nil => exact ⟨overlay, [], by simp [overlayLoop], overlayOrdered, by simp, by simp, by simp⟩
  | cons head rest step =>
    obtain ⟨first, info⟩ := head
    obtain ⟨below, later⟩ := pairwise_cons.mp ordered
    have restClash : disjoint = true → ∀ name base other, (name, base) ∈ rest →
        find name overlay = some other → ¬ Clash base other := fun strict name base other member =>
      noClash strict name base other (mem_cons_of_mem _ member)
    simp only [overlayLoop]
    split
    · next absent =>
      obtain ⟨final, pairs, computed, result⟩ :=
        step keys later (insert_ascending first info overlayOrdered)
          (fun strict name base other member present => by
            have differ : first ≠ name := ne_of_lt (below _ member)
            rw [find_insert, if_neg differ] at present
            exact restClash strict name base other member present)
      exact ⟨final, pairs, computed, result.insert below absent⟩
    · next other present =>
      split
      · next same =>
        obtain ⟨final, pairs, computed, result⟩ := step keys later overlayOrdered restClash
        exact ⟨final, pairs, computed, result.keep present (.inl same)⟩
      · next differ =>
        split
        · next trees =>
          obtain ⟨final, pairs, computed, result⟩ :=
            step (keys ++ [(first, info, other)]) later overlayOrdered restClash
          exact ⟨final, (first, info, other) :: pairs, by simpa using computed,
            result.merge below present differ trees⟩
        · next noTrees =>
          -- Only the plain mode gets here: in the disjoint mode this would be a clash.
          have lax : disjoint = false := by
            cases disjoint with
            | false => rfl
            | true =>
              exact absurd ⟨differ, noTrees⟩
                (noClash rfl first info other mem_cons_self present)
          subst lax
          obtain ⟨final, pairs, computed, result⟩ := step keys later overlayOrdered restClash
          exact ⟨final, pairs, computed, result.keep present (.inr noTrees)⟩

variable {subcaller : ObjectInfo Hash → ObjectInfo Hash → Except (Failure Hash) (ObjectInfo Hash)}

section
omit [DecidableEq Hash]

theorem insertOverlays_error (overlay : TreeEntries Hash) {name : Str}
    {base other : ObjectInfo Hash} {failure : Failure Hash}
    (member : (name, base, other) ∈ keys) (failed : subcaller base other = .error failure) :
    ∃ failure, insertOverlays subcaller keys overlay = .error failure := by
  induction keys generalizing overlay with
  | nil => simp at member
  | cons head keys step =>
    obtain ⟨first, left, right⟩ := head
    simp only [insertOverlays]
    rcases mem_cons.mp member with same | inside
    · cases same
      rw [failed]
      exact ⟨_, rfl⟩
    · split
      · exact ⟨_, rfl⟩
      · exact step _ inside

theorem insertOverlays_congr
    {subcaller' : ObjectInfo Hash → ObjectInfo Hash → Except (Failure Hash) (ObjectInfo Hash)}
    (alike : ∀ name base other, (name, base, other) ∈ keys →
      subcaller base other = subcaller' base other) :
    insertOverlays subcaller keys overlay = insertOverlays subcaller' keys overlay := by
  induction keys generalizing overlay with
  | nil => rfl
  | cons head keys step =>
    obtain ⟨first, left, right⟩ := head
    simp only [insertOverlays]
    rw [alike first left right mem_cons_self]
    split
    · rfl
    · exact step fun name base other member => alike name base other (mem_cons_of_mem _ member)

theorem insertOverlays_ok (overlays : ObjectInfo Hash → ObjectInfo Hash → ObjectInfo Hash)
    (computed : ∀ name base other, (name, base, other) ∈ keys →
      subcaller base other = .ok (overlays base other))
    (distinct : (keys.map fst).Nodup) (ordered : Ascending overlay) :
    ∃ final, insertOverlays subcaller keys overlay = .ok final ∧ Ascending final ∧
      (∀ name base other, (name, base, other) ∈ keys →
        find name final = some (overlays base other)) ∧
      ∀ name, name ∉ keys.map fst → find name final = find name overlay := by
  induction keys generalizing overlay with
  | nil => exact ⟨overlay, rfl, ordered, by simp, by simp⟩
  | cons head keys step =>
    obtain ⟨first, left, right⟩ := head
    obtain ⟨fresh, rest⟩ := nodup_cons.mp distinct
    have here := computed first left right mem_cons_self
    obtain ⟨final, result, finalOrdered, replaced, kept⟩ :=
      step (fun name base other member => computed name base other (mem_cons_of_mem _ member))
        rest (insert_ascending first (overlays left right) ordered)
    refine ⟨final, by simp only [insertOverlays, here, result], finalOrdered, ?_, ?_⟩
    · intro name base other member
      rcases mem_cons.mp member with same | inside
      · cases same
        rw [kept _ fresh, find_insert, if_pos rfl]
      · exact replaced name base other inside
    · intro name outside
      rw [map_cons, mem_cons, not_or] at outside
      rw [kept name outside.2, find_insert, if_neg (Ne.symm outside.1)]

end

end Loops

section Merging

variable {cas : Cas Hash} {depth : Nat} {tree base other : Hash}

/-- The object info of a tree. -/
abbrev treeInfo (tree : Hash) : ObjectInfo Hash := entryInfo (.tree, tree)

section
omit [DecidableEq Hash]

theorem entryInfo_inj {left right : Tree.ObjectType × Hash} :
    entryInfo left = entryInfo right ↔ left = right := by
  constructor
  · intro same
    have types := congrArg ObjectInfo.type same
    have hashes := congrArg (fun info => info.digest.hash) same
    exact Prod.ext types hashes
  · rintro rfl
    rfl

theorem isTree_entry (good : IsTree cas (depth + 1) tree) {name : Str} {subtree : Hash}
    (found : entry cas tree name = some (.tree, subtree)) : IsTree cas depth subtree := by
  obtain ⟨data, retrieved, -, kinds⟩ := good
  have here : contents cas tree = data := by simp [contents, retrieved]
  simp only [entry, entryIn, here, map_eq_some_iff] at found
  obtain ⟨item, present, same⟩ := found
  have kind := kinds item (List.mem_of_find?_eq_some present)
  obtain ⟨isTree, rfl⟩ := Prod.mk.inj same
  rwa [if_pos isTree] at kind

theorem isTree_retrieve (good : IsTree cas depth tree) : (cas.retrieve tree).isSome := by
  cases depth with
  | zero => exact absurd good (by simp [IsTree])
  | succ depth =>
    obtain ⟨data, retrieved, -⟩ := good
    simp [retrieved]

end

theorem readEntry_cases (good : IsTree cas (depth + 1) tree) (name : Str) :
    (entry cas tree name = none ∧ readEntry cas tree name = none) ∨
    ∃ type read hash, entry cas tree name = some (type, hash) ∧
      readEntry cas tree name = some (read, hash) ∧ (read = .tree ↔ type = .tree) := by
  obtain ⟨data, retrieved, -, kinds⟩ := good
  have here : contents cas tree = data := by simp [contents, retrieved]
  unfold readEntry misreadIn entry
  rw [here]
  cases found : entryIn data name with
  | none => exact .inl ⟨rfl, rfl⟩
  | some item =>
    obtain ⟨type, hash⟩ := item
    unfold entryIn at found
    obtain ⟨item, present, same⟩ := map_eq_some_iff.mp found
    cases same
    have member := List.mem_of_find?_eq_some present
    -- All items of one hash are trees or none is, since trees can be retrieved.
    cases first : data.find? fun other => other.hash = item.hash with
    | none =>
      have unseen := List.find?_eq_none.mp first item member
      simp at unseen
    | some front =>
      have shared : front.hash = item.hash := by simpa using List.find?_some first
      have kindItem := kinds item member
      have kindFront := kinds front (List.mem_of_find?_eq_some first)
      refine .inr ⟨item.type, front.type, item.hash, rfl, by simp [firstType, first], ?_⟩
      rw [shared] at kindFront
      constructor
      · intro frontTree
        rw [if_pos frontTree] at kindFront
        by_contra itemOther
        rw [if_neg itemOther] at kindItem
        simpa [kindItem] using isTree_retrieve kindFront
      · intro itemTree
        rw [if_pos itemTree] at kindItem
        by_contra frontOther
        rw [if_neg frontOther] at kindFront
        simpa [kindFront] using isTree_retrieve kindItem

theorem readEntry_tree (good : IsTree cas (depth + 1) tree) (name : Str) (subtree : Hash) :
    readEntry cas tree name = some (.tree, subtree) ↔
      entry cas tree name = some (.tree, subtree) := by
  rcases readEntry_cases good name with ⟨missing, unread⟩ | ⟨type, read, hash, found, seen, kind⟩
  · rw [missing, unread]
  · rw [found, seen]
    simp only [some.injEq, Prod.mk.injEq, kind]

/-- The overlay of two trees as the parser reads them. -/
inductive Merged (cas : Cas Hash) : Hash → Hash → Hash → Prop where
  | same {tree : Hash} : Merged cas tree tree tree
  | merge {base other result : Hash} (subtrees : Str → Hash) (differ : base ≠ other)
      (both : ∀ name baseTree otherTree, readEntry cas base name = some (.tree, baseTree) →
        readEntry cas other name = some (.tree, otherTree) →
        entry cas result name = some (.tree, subtrees name))
      (nested : ∀ name baseTree otherTree, readEntry cas base name = some (.tree, baseTree) →
        readEntry cas other name = some (.tree, otherTree) →
        Merged cas baseTree otherTree (subtrees name))
      (wins : ∀ name item, readEntry cas other name = some item →
        (∀ baseTree, item.1 = .tree → readEntry cas base name ≠ some (.tree, baseTree)) →
        entry cas result name = some item)
      (keeps : ∀ name, readEntry cas other name = none →
        entry cas result name = readEntry cas base name) : Merged cas base other result

theorem readTree_ok (good : IsTree cas (depth + 1) tree) :
    ∃ entries, readTree cas (treeInfo tree) = .ok entries ∧ Ascending entries ∧
      ∀ name, find name entries = (readEntry cas tree name).map entryInfo := by
  obtain ⟨data, retrieved, wellFormed, -⟩ := good
  have here : contents cas tree = data := by simp [contents, retrieved]
  refine ⟨parseGitTree data, by simp [readTree, entryInfo, retrieved],
    parseGitTree_ascending data, fun name => ?_⟩
  rw [find_parseGitTree wellFormed.distinct, readEntry, here]

theorem readEntry_plain (good : IsTree cas (depth + 1) tree) {name : Str}
    {item : Tree.ObjectType × Hash} (found : readEntry cas tree name = some item) : 0x2f ∉ name := by
  obtain ⟨data, retrieved, wellFormed, -⟩ := good
  have here : contents cas tree = data := by simp [contents, retrieved]
  simp only [readEntry, misreadIn, here, bind_eq_some_iff] at found
  obtain ⟨_, present, -⟩ := found
  obtain ⟨item, member, rfl, -⟩ := (entryIn_eq_some wellFormed.distinct).mp present
  exact wellFormed.plain item member

theorem entry_writeTree {entries : TreeEntries Hash} (ordered : Ascending entries)
    (plain : ∀ item ∈ entries, 0x2f ∉ item.1) (name : Str) :
    entry cas (writeTree cas entries).digest.hash name =
      (find name entries).map fun info => (info.type, info.digest.hash) := by
  have stored : cas.retrieve (cas.treeId (serializeGitTree entries)) =
      some (serializeGitTree entries) := (cas.addressed _ _).mpr rfl
  simp only [entry, contents, writeTree, stored, getD_some]
  exact entryIn_serializeGitTree ordered plain name

theorem mergeTrees_ok (disjoint : Bool)
    {subcaller : ObjectInfo Hash → ObjectInfo Hash → Except (Failure Hash) (ObjectInfo Hash)}
    (overlays : Hash → Hash → Hash) (baseGood : IsTree cas (depth + 1) base)
    (otherGood : IsTree cas (depth + 1) other)
    (noClash : disjoint = true → ∀ name baseItem otherItem,
      readEntry cas base name = some baseItem → readEntry cas other name = some otherItem →
      baseItem = otherItem ∨ baseItem.1 = .tree ∧ otherItem.1 = .tree)
    (computed : ∀ name baseTree otherTree, readEntry cas base name = some (.tree, baseTree) →
      readEntry cas other name = some (.tree, otherTree) → baseTree ≠ otherTree →
      subcaller (treeInfo baseTree) (treeInfo otherTree) =
        .ok (treeInfo (overlays baseTree otherTree))) :
    ∃ result, mergeTrees cas disjoint subcaller (treeInfo base) (treeInfo other) =
        .ok (treeInfo result) ∧
      (∀ name baseTree otherTree, readEntry cas base name = some (.tree, baseTree) →
        readEntry cas other name = some (.tree, otherTree) → entry cas result name = some (.tree,
          if baseTree = otherTree then otherTree else overlays baseTree otherTree)) ∧
      (∀ name item, readEntry cas other name = some item →
        (∀ baseTree, item.1 = .tree → readEntry cas base name ≠ some (.tree, baseTree)) →
        entry cas result name = some item) ∧ ∀ name, readEntry cas other name = none →
        entry cas result name = readEntry cas base name := by
  obtain ⟨baseEntries, baseRead, baseOrdered, baseFound⟩ := readTree_ok baseGood
  obtain ⟨otherEntries, otherRead, otherOrdered, otherFound⟩ := readTree_ok otherGood
  have fromBase : ∀ name info, (name, info) ∈ baseEntries ↔
      ∃ item, readEntry cas base name = some item ∧ info = entryInfo item := by
    intro name info
    rw [mem_iff_find baseOrdered, baseFound, map_eq_some_iff]
    simp only [eq_comm]
  have loopClash : disjoint = true → ∀ name left right, (name, left) ∈ baseEntries →
      find name otherEntries = some right → ¬ Clash left right := by
    intro strict name left right member present clash
    obtain ⟨baseItem, baseHas, rfl⟩ := (fromBase _ _).mp member
    rw [otherFound, map_eq_some_iff] at present
    obtain ⟨otherItem, otherHas, rfl⟩ := present
    rcases noClash strict name baseItem otherItem baseHas otherHas with same | trees
    · exact clash.1 (congrArg entryInfo same.symm)
    · exact clash.2 trees
  obtain ⟨merged, pairs, looped, result⟩ :=
    overlayLoop_ok disjoint [] baseOrdered otherOrdered loopClash
  have listed : ∀ name left right, (name, left, right) ∈ pairs →
      ∃ baseTree otherTree, readEntry cas base name = some (.tree, baseTree) ∧
        readEntry cas other name = some (.tree, otherTree) ∧ baseTree ≠ otherTree ∧
        left = treeInfo baseTree ∧ right = treeInfo otherTree := by
    intro name left right member
    obtain ⟨baseMember, present, differ, leftTree, rightTree⟩ := (result.listed _ _ _).mp member
    obtain ⟨⟨baseType, baseTree⟩, baseHas, rfl⟩ := (fromBase _ _).mp baseMember
    rw [otherFound, map_eq_some_iff] at present
    obtain ⟨⟨otherType, otherTree⟩, otherHas, rfl⟩ := present
    obtain rfl : baseType = .tree := leftTree
    obtain rfl : otherType = .tree := rightTree
    exact ⟨baseTree, otherTree, baseHas, otherHas, fun same => differ (same ▸ rfl), rfl, rfl⟩
  obtain ⟨final, inserted, finalOrdered, replaced, kept⟩ :=
    insertOverlays_ok (fun left right => treeInfo (overlays left.digest.hash right.digest.hash))
      (fun name left right member => by
        obtain ⟨baseTree, otherTree, baseHas, otherHas, differ, rfl, rfl⟩ :=
          listed name left right member
        exact computed name baseTree otherTree baseHas otherHas differ)
      result.distinct result.ordered
  -- What the final entries hold under each name.
  have pairOf : ∀ name baseTree otherTree, readEntry cas base name = some (.tree, baseTree) →
      readEntry cas other name = some (.tree, otherTree) → baseTree ≠ otherTree →
      (name, treeInfo baseTree, treeInfo otherTree) ∈ pairs := by
    intro name baseTree otherTree baseHas otherHas differ
    refine (result.listed _ _ _).mpr ⟨(fromBase _ _).mpr ⟨_, baseHas, rfl⟩,
      by rw [otherFound, otherHas]; rfl, fun same => differ ?_, rfl, rfl⟩
    exact (congrArg snd (entryInfo_inj.mp same)).symm
  have unpaired : ∀ name, (∀ baseTree otherTree, readEntry cas base name = some (.tree, baseTree) →
      readEntry cas other name = some (.tree, otherTree) → baseTree = otherTree) →
      find name final = ((readEntry cas other name).or (readEntry cas base name)).map entryInfo := by
    intro name alike
    rw [kept name, result.found, otherFound, baseFound, Option.map_or]
    intro member
    obtain ⟨⟨_, left, right⟩, inside, rfl⟩ := mem_map.mp member
    obtain ⟨baseTree, otherTree, baseHas, otherHas, differ, -⟩ := listed _ left right inside
    exact differ (alike baseTree otherTree baseHas otherHas)
  have plain : ∀ item ∈ final, 0x2f ∉ item.1 := by
    rintro ⟨name, info⟩ member
    rw [mem_iff_find finalOrdered] at member
    by_cases alike : ∀ baseTree otherTree, readEntry cas base name = some (.tree, baseTree) →
        readEntry cas other name = some (.tree, otherTree) → baseTree = otherTree
    · rw [unpaired name alike, map_eq_some_iff] at member
      obtain ⟨item, present, -⟩ := member
      rcases Option.or_eq_some_iff.mp present with otherHas | ⟨-, baseHas⟩
      · exact readEntry_plain otherGood otherHas
      · exact readEntry_plain baseGood baseHas
    · simp only [not_forall] at alike
      obtain ⟨baseTree, otherTree, baseHas, -⟩ := alike
      exact readEntry_plain baseGood baseHas
  have written : ∀ name, entry cas (writeTree cas final).digest.hash name =
      (find name final).map fun info => (info.type, info.digest.hash) :=
    entry_writeTree finalOrdered plain
  refine ⟨(writeTree cas final).digest.hash, ?_, ?_, ?_, ?_⟩
  · simp only [mergeTrees, baseRead, otherRead, looped, inserted, nil_append, bind, Except.bind]
    rfl
  · intro name baseTree otherTree baseHas otherHas
    rw [written]
    split
    · next same =>
      subst same
      rw [unpaired name, otherHas]
      · rfl
      · intro left right leftHas rightHas
        rw [baseHas] at leftHas
        rw [otherHas] at rightHas
        cases leftHas
        cases rightHas
        rfl
    · next differ =>
      rw [replaced _ _ _ (pairOf name baseTree otherTree baseHas otherHas differ)]
      rfl
  · intro name item otherHas noTree
    rw [written, unpaired name, otherHas]
    · rfl
    · intro baseTree otherTree baseHas otherHas'
      rw [otherHas] at otherHas'
      cases otherHas'
      exact absurd baseHas (noTree baseTree rfl)
  · intro name otherLacks
    rw [written, unpaired name, otherLacks]
    · cases readEntry cas base name <;> rfl
    · intro baseTree otherTree _ otherHas
      rw [otherLacks] at otherHas
      cases otherHas

/-- The hash of a computed overlay. -/
def overlayHash (cas : Cas Hash) (depth : Nat) (base other : Hash) : Hash :=
  match computeTreeOverlay cas false depth (treeInfo base) (treeInfo other) with
  | .ok info => info.digest.hash
  | .error _ => other

theorem computeTreeOverlay_plain (baseGood : IsTree cas depth base)
    (otherGood : IsTree cas depth other) :
    ∃ result, computeTreeOverlay cas false depth (treeInfo base) (treeInfo other) =
      .ok (treeInfo result) ∧ Merged cas base other result := by
  induction depth generalizing base other with
  | zero => exact absurd baseGood (by simp [IsTree])
  | succ depth step =>
    simp only [computeTreeOverlay]
    rw [if_neg (by simp [entryInfo])]
    by_cases same : base = other
    · subst same
      exact ⟨base, by rw [if_pos rfl], .same⟩
    · rw [if_neg fun infos => same (congrArg snd (entryInfo_inj.mp infos))]
      have nested : ∀ name baseTree otherTree, readEntry cas base name = some (.tree, baseTree) →
          readEntry cas other name = some (.tree, otherTree) →
          computeTreeOverlay cas false depth (treeInfo baseTree) (treeInfo otherTree) =
            .ok (treeInfo (overlayHash cas depth baseTree otherTree)) ∧
          Merged cas baseTree otherTree (overlayHash cas depth baseTree otherTree) := by
        intro name baseTree otherTree baseHas otherHas
        obtain ⟨result, computed, merged⟩ :=
          step (isTree_entry baseGood ((readEntry_tree baseGood _ _).mp baseHas))
            (isTree_entry otherGood ((readEntry_tree otherGood _ _).mp otherHas))
        have hash : overlayHash cas depth baseTree otherTree = result := by
          rw [overlayHash, computed]
          rfl
        rw [hash]
        exact ⟨computed, merged⟩
      obtain ⟨result, computed, both, wins, keeps⟩ :=
        mergeTrees_ok false (overlayHash cas depth) baseGood otherGood (fun strict => by cases strict)
          fun name baseTree otherTree baseHas otherHas _ =>
            (nested name baseTree otherTree baseHas otherHas).1
      rw [computed]
      refine ⟨result, rfl, .merge (fun name => ((entry cas result name).getD (.tree, result)).2)
        same ?_ ?_ wins keeps⟩
      · intro name baseTree otherTree baseHas otherHas
        rw [both name baseTree otherTree baseHas otherHas]
        rfl
      · intro name baseTree otherTree baseHas otherHas
        rw [both name baseTree otherTree baseHas otherHas]
        dsimp only [getD_some]
        split
        · next equal =>
          subst equal
          exact .same
        · exact (nested name baseTree otherTree baseHas otherHas).2

end Merging

section Disjoint

variable {cas : Cas Hash} {depth : Nat} {tree base other : Hash}
  {lookup : Hash → Str → Option (Tree.ObjectType × Hash)}

variable
  {subcaller : ObjectInfo Hash → ObjectInfo Hash → Except (Failure Hash) (ObjectInfo Hash)}

/-- The entries of two trees have a clash. -/
def EntryClash (cas : Cas Hash) (base other : Hash) : Prop :=
  ∃ name baseItem otherItem, readEntry cas base name = some baseItem ∧
    readEntry cas other name = some otherItem ∧ baseItem ≠ otherItem ∧
    ¬ (baseItem.1 = .tree ∧ otherItem.1 = .tree)

theorem mergeTrees_clash (baseGood : IsTree cas (depth + 1) base)
    (otherGood : IsTree cas (depth + 1) other) (clash : EntryClash cas base other) :
    ∃ failure, mergeTrees cas true subcaller (treeInfo base) (treeInfo other) = .error failure := by
  obtain ⟨name, baseItem, otherItem, baseHas, otherHas, differ, noTrees⟩ := clash
  obtain ⟨baseEntries, baseRead, baseOrdered, baseFound⟩ := readTree_ok baseGood
  obtain ⟨otherEntries, otherRead, otherOrdered, otherFound⟩ := readTree_ok otherGood
  obtain ⟨failure, failed⟩ := overlayLoop_clash [] baseOrdered
    ((mem_iff_find baseOrdered).mpr (by rw [baseFound, baseHas]; rfl))
    (by rw [otherFound, otherHas]; rfl)
    ⟨fun same => differ (entryInfo_inj.mp same).symm, noTrees⟩
  refine ⟨failure, ?_⟩
  simp only [mergeTrees, baseRead, otherRead, failed, bind, Except.bind]

theorem overlayLoop_trees (baseGood : IsTree cas (depth + 1) base)
    (otherGood : IsTree cas (depth + 1) other) (noClash : ¬ EntryClash cas base other) :
    ∃ baseEntries otherEntries final pairs, readTree cas (treeInfo base) = .ok baseEntries ∧
      readTree cas (treeInfo other) = .ok otherEntries ∧
      overlayLoop true baseEntries otherEntries [] = .ok (final, pairs) ∧
      ∀ name left right, (name, left, right) ∈ pairs ↔
        ∃ baseTree otherTree, readEntry cas base name = some (.tree, baseTree) ∧
          readEntry cas other name = some (.tree, otherTree) ∧ baseTree ≠ otherTree ∧
          left = treeInfo baseTree ∧ right = treeInfo otherTree := by
  obtain ⟨baseEntries, baseRead, baseOrdered, baseFound⟩ := readTree_ok baseGood
  obtain ⟨otherEntries, otherRead, otherOrdered, otherFound⟩ := readTree_ok otherGood
  obtain ⟨final, pairs, looped, result⟩ := overlayLoop_ok true [] baseOrdered
    otherOrdered fun _ name left right member present clash => by
      rw [mem_iff_find baseOrdered, baseFound, map_eq_some_iff] at member
      rw [otherFound, map_eq_some_iff] at present
      obtain ⟨baseItem, baseHas, rfl⟩ := member
      obtain ⟨otherItem, otherHas, rfl⟩ := present
      exact noClash ⟨name, baseItem, otherItem, baseHas, otherHas,
        fun same => clash.1 (congrArg entryInfo same.symm), clash.2⟩
  refine ⟨baseEntries, otherEntries, final, pairs, baseRead, otherRead, looped, ?_⟩
  intro name left right
  rw [result.listed, mem_iff_find baseOrdered, baseFound, otherFound, map_eq_some_iff,
    map_eq_some_iff]
  constructor
  · rintro ⟨⟨⟨_, baseTree⟩, baseHas, rfl⟩, ⟨⟨_, otherTree⟩, otherHas, rfl⟩, differ, rfl, rfl⟩
    exact ⟨baseTree, otherTree, baseHas, otherHas, fun same => differ (same ▸ rfl), rfl, rfl⟩
  · rintro ⟨baseTree, otherTree, baseHas, otherHas, differ, rfl, rfl⟩
    exact ⟨⟨_, baseHas, rfl⟩, ⟨_, otherHas, rfl⟩,
      fun same => differ (congrArg snd (entryInfo_inj.mp same)).symm, rfl, rfl⟩

theorem computeTreeOverlay_disjoint (baseGood : IsTree cas depth base)
    (otherGood : IsTree cas depth other) : (Conflict (readEntry cas) base other →
      ∃ failure, computeTreeOverlay cas true depth (treeInfo base) (treeInfo other) =
        .error failure) ∧ (¬ Conflict (readEntry cas) base other →
      computeTreeOverlay cas true depth (treeInfo base) (treeInfo other) =
        computeTreeOverlay cas false depth (treeInfo base) (treeInfo other)) := by
  induction depth generalizing base other with
  | zero => exact absurd baseGood (by simp [IsTree])
  | succ depth step =>
    have kinds : ¬ ((treeInfo base).type ≠ .tree ∨ (treeInfo other).type ≠ .tree) := by
      simp [entryInfo]
    have nested : ∀ {name baseTree otherTree}, readEntry cas base name = some (.tree, baseTree) →
        readEntry cas other name = some (.tree, otherTree) → _ :=
      fun baseHas otherHas =>
        step (isTree_entry baseGood ((readEntry_tree baseGood _ _).mp baseHas))
          (isTree_entry otherGood ((readEntry_tree otherGood _ _).mp otherHas))
    by_cases same : base = other
    · subst same
      refine ⟨fun conflict => absurd conflict conflict_irrefl, fun _ => ?_⟩
      simp only [computeTreeOverlay, ↓reduceIte]
    · have differ : treeInfo base ≠ treeInfo other := fun infos =>
        same (congrArg snd (entryInfo_inj.mp infos))
      simp only [computeTreeOverlay, if_neg kinds, if_neg differ]
      constructor
      · intro conflict
        have fails : ∃ failure, mergeTrees cas true (computeTreeOverlay cas true depth)
            (treeInfo base) (treeInfo other) = .error failure := by
          by_cases clash : EntryClash cas base other
          · exact mergeTrees_clash baseGood otherGood clash
          · obtain ⟨name, baseTree, otherTree, baseHas, otherHas, inner⟩ :=
              (conflict_iff.mp conflict).resolve_left clash
            obtain ⟨baseEntries, otherEntries, final, pairs, baseRead, otherRead, looped, listed⟩ :=
              overlayLoop_trees baseGood otherGood clash
            have unlike : baseTree ≠ otherTree := by
              rintro rfl
              exact conflict_irrefl inner
            obtain ⟨failure, failed⟩ := (nested baseHas otherHas).1 inner
            obtain ⟨failure, failed⟩ := insertOverlays_error final
              ((listed _ _ _).mpr ⟨_, _, baseHas, otherHas, unlike, rfl, rfl⟩) failed
            exact ⟨failure, by simp only [mergeTrees, baseRead, otherRead, looped, failed, bind,
              Except.bind]⟩
        obtain ⟨failure, failed⟩ := fails
        exact ⟨_, by rw [failed]; rfl⟩
      · intro noConflict
        have noClash : ¬ EntryClash cas base other := fun clash =>
          noConflict (conflict_iff.mpr (.inl clash))
        obtain ⟨baseEntries, otherEntries, final, pairs, baseRead, otherRead, looped, listed⟩ :=
          overlayLoop_trees baseGood otherGood noClash
        have overlays : insertOverlays (computeTreeOverlay cas true depth) pairs final =
            insertOverlays (computeTreeOverlay cas false depth) pairs final := by
          refine insertOverlays_congr fun name left right member => ?_
          obtain ⟨baseTree, otherTree, baseHas, otherHas, -, rfl, rfl⟩ := (listed _ _ _).mp member
          exact (nested baseHas otherHas).2 fun inner =>
            noConflict (conflict_iff.mpr (.inr ⟨_, _, _, baseHas, otherHas, inner⟩))
        simp only [mergeTrees, baseRead, otherRead, looped, overlayLoop_lax looped, overlays, bind,
          Except.bind]

end Disjoint

end Jst.Verif.TreeOverlay
