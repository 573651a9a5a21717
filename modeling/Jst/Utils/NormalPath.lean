import Mathlib.Data.List.Infix
import Jst.Utils.Path
/-!
# Normal paths

A normal path is the text of resolved names: no name is `.`, and `..` stands at the front of a
relative path only. `ToNormalPath` writes down the resolved names of a path, so it is idempotent,
and two normal paths are equal if their names are.
-/
namespace Jst.Path

/-- A name that can stand between two slashes. -/
structure Plain (name : Str) : Prop where
  ne_nil : name ≠ []
  noSlash : slash ∉ name

section Pieces

theorem slash_notMem_pieces (path : Str) : ∀ piece ∈ pieces path, slash ∉ piece := by
  unfold pieces
  induction path with
  | nil => simp
  | cons byte rest step =>
    rw [List.splitOn_cons_eq_if_modifyHead]
    by_cases isSlash : byte = slash
    · rw [if_pos (by simpa using isSlash)]
      intro piece member
      cases mem_cons.mp member with
      | inl same => simp [same]
      | inr later => exact step piece later
    · rw [if_neg (by simpa using isSlash)]
      cases split : rest.splitOn slash with
      | nil => exact absurd split (List.splitOn_ne_nil _ _)
      | cons first others =>
        rw [split] at step
        intro piece member
        cases mem_cons.mp member with
        | inl same =>
          rw [same, mem_cons, not_or]
          exact ⟨fun equal => isSlash equal.symm, step first mem_cons_self⟩
        | inr later => exact step piece (mem_cons_of_mem _ later)

theorem plain_of_mem_names {path name : Str} (member : name ∈ names path) : Plain name := by
  obtain ⟨inside, filled⟩ := mem_filter.mp member
  refine ⟨fun empty => ?_, slash_notMem_pieces path name inside⟩
  rw [empty] at filled
  cases filled

theorem filter_plain {names : List Str} (plain : ∀ name ∈ names, Plain name) :
    (names.filter fun name => !name.isEmpty) = names := by
  refine List.filter_eq_self.mpr fun name member => ?_
  cases name with
  | nil => exact absurd rfl (plain [] member).ne_nil
  | cons byte rest => rfl

variable {root : Bool} {names : List Str}

section

variable (plain : ∀ name ∈ names, Plain name)
include plain

theorem isAbsolute_join : isAbsolute (join root names) = root := by
  cases root with
  | true => rfl
  | false =>
    cases names with
    | nil => rfl
    | cons name rest =>
      have first := plain name mem_cons_self
      cases name with
      | nil => exact absurd rfl first.ne_nil
      | cons byte text =>
        have apart : byte ≠ slash := fun same => first.noSlash (same ▸ mem_cons_self)
        cases rest with
        | nil => simp [join, isAbsolute, apart]
        | cons other rest => simp [join, isAbsolute, apart, List.intercalate_cons_cons]

theorem pieces_join (some' : names ≠ []) :
    pieces (join root names) = (if root then [[]] else []) ++ names := by
  have inside : pieces ([slash].intercalate names) = names :=
    List.splitOn_intercalate slash (fun name member => (plain name member).noSlash) some'
  cases root with
  | false => exact inside
  | true =>
    show (slash :: [slash].intercalate names).splitOn slash = _
    rw [List.splitOn_cons_eq_if_modifyHead, if_pos (by simp)]
    exact congrArg ([] :: ·) inside

theorem names_join : Path.names (join root names) = names := by
  cases names with
  | nil => cases root <;> decide
  | cons name rest =>
    rw [Path.names, pieces_join plain (cons_ne_nil _ _), filter_append, filter_plain plain]
    cases root with
    | false => rfl
    | true => rfl

theorem filename_join (some' : names ≠ []) : filename (join root names) = names.getLast some' := by
  rw [filename, pieces_join plain some']
  cases names with
  | nil => exact absurd rfl some'
  | cons name rest =>
    rw [List.getLastD_eq_getLast?, List.getLast?_append, List.getLast?_eq_some_getLast some']
    rfl

end

theorem filename_slash (text : Str) : filename (text ++ [slash]) = [] := by
  show ((text ++ slash :: []).splitOn slash).getLastD [] = []
  rw [List.splitOn_append_cons_self]
  simp

theorem elements_ne_nil {path : Str} (some' : path ≠ []) (relative : isAbsolute path = false) :
    elements path ≠ [] := by
  intro none'
  simp only [elements, List.append_eq_nil_iff] at none'
  have noNames := none'.1.2
  have joined : [slash].intercalate (path.splitOn slash) = path := List.intercalate_splitOn slash
  cases split : pieces path with
  | nil => exact absurd split (List.splitOn_ne_nil _ _)
  | cons first rest =>
    simp only [names, split, List.filter_eq_nil_iff, mem_cons, forall_eq_or_imp,
      Bool.not_eq_true', Bool.not_eq_false, List.isEmpty_iff] at noNames
    unfold pieces at split
    rw [split, noNames.1] at joined
    cases rest with
    | nil => exact some' (by simpa [List.intercalate] using joined.symm)
    | cons second rest =>
      simp [List.intercalate] at joined
      rw [← joined] at relative
      simp [isAbsolute] at relative

end Pieces

section Resolution

/-- Names as they are left when `.` and `..` have been resolved. -/
structure Resolved (root : Bool) (names : List Str) : Prop where
  plain : ∀ name ∈ names, Plain name
  /-- No name is `.`. -/
  notHere : here ∉ names
  /-- Names of the parent directory stand at the front of a relative path only. -/
  ups : ∃ count rest, names = replicate count up ++ rest ∧ up ∉ rest ∧ (root = true → count = 0)

/-- The resolved names of a path. -/
def segments (path : Str) : List Str := (resolve (isAbsolute path) (names path)).reverse

variable {root : Bool} {names : List Str}

theorem resolved_nil (root : Bool) : Resolved root [] :=
  ⟨by simp, by simp, 0, [], rfl, by simp, fun _ => rfl⟩

theorem resolved_push (resolved : Resolved root names.reverse) {name : Str} (plain : Plain name) :
    Resolved root (push root names name).reverse := by
  by_cases isHere : name = here
  · rw [push.eq_def, if_pos isHere]
    exact resolved
  · obtain ⟨count, rest, shape, noUp, zero⟩ := resolved.ups
    rw [push.eq_def, if_neg isHere]
    by_cases isUp : name = up
    · rw [if_pos isUp]
      cases names with
      | nil =>
        cases root with
        | true => exact resolved_nil true
        | false =>
          refine ⟨?_, by decide, 1, [], rfl, by simp, nofun⟩
          intro other member
          rw [mem_singleton.mp member, ← isUp]
          exact plain
      | cons top below =>
        simp only
        by_cases topUp : top = up
        · rw [if_pos topUp]
          -- Only names of the parent directory stand before one.
          have noRest : rest = [] := by
            by_contra some'
            have last : rest.getLast some' = top := by
              have whole : (top :: below).reverse.getLast? = some top := by simp
              rw [shape, List.getLast?_append, List.getLast?_eq_some_getLast some'] at whole
              exact some.inj whole
            exact noUp (topUp ▸ last ▸ getLast_mem some')
          subst noRest
          have member : up ∈ (top :: below).reverse := by simp [topUp]
          refine ⟨?_, ?_, count + 1, [], ?_, by simp, fun isRoot => ?_⟩
          · intro other inside
            rw [reverse_cons, mem_append, mem_singleton] at inside
            cases inside with
            | inl before => exact resolved.plain other before
            | inr same => exact same ▸ resolved.plain up member
          · rw [reverse_cons, mem_append, mem_singleton, not_or]
            exact ⟨resolved.notHere, by decide⟩
          · rw [reverse_cons, shape, append_nil, append_nil, List.replicate_succ']
          · rw [shape, zero isRoot] at member
            cases member
        · rw [if_neg topUp]
          rw [reverse_cons] at shape resolved
          refine ⟨fun other inside => resolved.plain other (mem_append_left _ inside),
            fun inside => resolved.notHere (mem_append_left _ inside), count, rest.dropLast, ?_,
            fun inside => noUp (List.dropLast_subset _ inside), zero⟩
          have some' : rest ≠ [] := by
            intro noRest
            rw [noRest, append_nil] at shape
            have member : top ∈ replicate count up := by simp [← shape]
            exact topUp (List.eq_of_mem_replicate member)
          have front := congrArg List.dropLast shape
          rw [List.dropLast_concat, List.dropLast_append_of_ne_nil some'] at front
          exact front
    · rw [if_neg isUp, reverse_cons]
      refine ⟨?_, ?_, count, rest ++ [name], ?_, ?_, zero⟩
      · intro other inside
        rw [mem_append, mem_singleton] at inside
        cases inside with
        | inl before => exact resolved.plain other before
        | inr same => exact same ▸ plain
      · rw [mem_append, mem_singleton, not_or]
        exact ⟨resolved.notHere, fun same => isHere same.symm⟩
      · rw [shape, append_assoc]
      · rw [mem_append, mem_singleton, not_or]
        exact ⟨noUp, fun same => isUp same.symm⟩

theorem resolved_foldl {stack : List Str} (plain : ∀ name ∈ names, Plain name)
    (resolved : Resolved root stack.reverse) :
    Resolved root (names.foldl (push root) stack).reverse := by
  induction names generalizing stack with
  | nil => exact resolved
  | cons name rest step =>
    obtain ⟨first, later⟩ := forall_mem_cons.mp plain
    exact step later (resolved_push resolved first)

theorem resolved_segments (path : Str) : Resolved (isAbsolute path) (segments path) :=
  resolved_foldl (fun _ => plain_of_mem_names) (resolved_nil _)

theorem foldl_push_names {stack : List Str} (notHere : here ∉ names) (noUp : up ∉ names) :
    names.foldl (push root) stack = names.reverse ++ stack := by
  induction names generalizing stack with
  | nil => rfl
  | cons name rest step =>
    rw [mem_cons, not_or] at notHere noUp
    rw [foldl_cons, step notHere.2 noUp.2, push.eq_def, if_neg fun same => notHere.1 same.symm,
      if_neg fun same => noUp.1 same.symm, reverse_cons, append_assoc]
    rfl

theorem foldl_push_ups (count more : Nat) :
    (replicate count up).foldl (push false) (replicate more up) = replicate (count + more) up := by
  induction count generalizing more with
  | zero => rw [Nat.zero_add]; rfl
  | succ count step =>
    have pushed : push false (replicate more up) up = replicate (more + 1) up := by
      cases more with
      | zero => decide
      | succ more => rfl
    rw [List.replicate_succ, foldl_cons, pushed, step, Nat.add_right_comm, Nat.add_assoc]

theorem resolve_resolved (resolved : Resolved root names) : resolve root names = names.reverse := by
  obtain ⟨count, rest, shape, noUp, zero⟩ := resolved.ups
  have notHere : here ∉ rest := by
    intro inside
    rw [shape] at resolved
    exact resolved.notHere (mem_append_right _ inside)
  rw [resolve, shape, foldl_append]
  cases root with
  | true =>
    rw [zero rfl, foldl_push_names notHere noUp]
    simp
  | false =>
    rw [show (replicate count up).foldl (push false) [] = _ from foldl_push_ups count 0,
      foldl_push_names notHere noUp, reverse_append, List.reverse_replicate, Nat.add_zero]

end Resolution

section Normal

/-- The text of resolved names. -/
def render (root : Bool) (names : List Str) : Str :=
  match names with
  | [] => if root then [slash] else here
  | _ :: _ => join root names

variable {root : Bool} {names : List Str}

theorem trim_slash {text : Str} (some' : text ≠ []) (last : text.getLast some' ≠ slash) :
    ((text ++ [slash]).reverse.dropWhile (· = slash)).reverse = text := by
  rw [reverse_append, List.reverse_singleton, singleton_append, List.dropWhile_cons,
    if_pos (by simp)]
  have first := List.getLast_eq_head_reverse some'
  cases reversed : text.reverse with
  | nil => exact absurd (List.reverse_eq_nil_iff.mp reversed) some'
  | cons byte rest =>
    have isLast : byte ≠ slash := by
      intro same
      refine last (first.trans ?_)
      simp only [reversed, List.head_cons, same]
    rw [List.dropWhile_cons, if_neg (by simpa using isLast), ← reversed, reverse_reverse]

theorem parentPath_slash {text : Str} (some' : text ≠ []) (last : text.getLast some' ≠ slash) :
    parentPath (text ++ [slash]) = text := by
  rw [parentPath, filename_slash]
  simp only [length_nil, Nat.sub_zero, List.take_length, trim_slash some' last]
  rw [if_neg (by simpa using some')]

theorem getLast_join (plain : ∀ name ∈ names, Plain name) (some' : names ≠ [])
    (nonempty : join root names ≠ []) : (join root names).getLast nonempty ≠ slash := by
  intro isSlash
  have split := List.dropLast_append_getLast nonempty
  rw [isSlash] at split
  have noName := filename_slash (join root names).dropLast
  rw [split, filename_join plain some'] at noName
  exact (plain _ (getLast_mem some')).ne_nil noName

theorem join_ne_nil (plain : ∀ name ∈ names, Plain name) (some' : names ≠ []) :
    join root names ≠ [] := by
  intro empty
  have name := @filename_join root names plain some'
  rw [empty] at name
  exact (plain _ (getLast_mem some')).ne_nil name.symm

theorem join_concat (some' : names ≠ []) (name : Str) :
    join root (names ++ [name]) = join root names ++ slash :: name := by
  have inside : ∀ names : List Str, names ≠ [] → [slash].intercalate (names ++ [name]) =
      [slash].intercalate names ++ slash :: name := by
    intro names some'
    induction names with
    | nil => exact absurd rfl some'
    | cons first rest step =>
      cases rest with
      | nil => simp [List.intercalate_cons_cons]
      | cons second rest =>
        have tail := step (cons_ne_nil _ _)
        rw [cons_append] at tail
        rw [cons_append, cons_append, List.intercalate_cons_cons, tail, List.intercalate_cons_cons]
        simp only [append_assoc]
  rw [join, inside names some', join, append_assoc]

theorem parentPath_join (plain : ∀ name ∈ names, Plain name) (some' : names ≠ []) {name : Str}
    (last : Plain name) : parentPath (join root (names ++ [name])) = join root names := by
  have all : ∀ other ∈ names ++ [name], Plain other := by
    intro other member
    rw [mem_append, mem_singleton] at member
    cases member with
    | inl before => exact plain other before
    | inr same => exact same ▸ last
  have nonempty := @join_ne_nil root names plain some'
  have file : filename (join root (names ++ [name])) = name := by
    rw [filename_join all (by simp), List.getLast_concat]
  have directory : (join root names ++ slash :: name).take
      ((join root names ++ slash :: name).length - name.length) = join root names ++ [slash] := by
    rw [List.append_cons, length_append, Nat.add_sub_cancel, List.take_left']
    rfl
  rw [parentPath, file, join_concat some']
  simp only [directory, trim_slash nonempty (getLast_join plain some' nonempty)]
  rw [if_neg (by simpa using nonempty)]

theorem length_le_join (plain : ∀ name ∈ names, Plain name) : names.length ≤ (join root names).length := by
  have inside : names.length ≤ ([slash].intercalate names).length := by
    induction names with
    | nil => exact Nat.zero_le _
    | cons name rest step =>
      obtain ⟨first, later⟩ := forall_mem_cons.mp plain
      have filled := List.length_pos_iff.mpr first.ne_nil
      cases rest with
      | nil =>
        rw [List.intercalate_singleton]
        exact filled
      | cons other rest =>
        have tail := step later
        rw [List.intercalate_cons_cons]
        simp only [length_append, length_cons] at tail ⊢
        omega
  rw [join, length_append]
  omega

theorem elements_join (plain : ∀ name ∈ names, Plain name) (some' : names ≠ []) :
    elements (join false names) = names := by
  have absolute := @isAbsolute_join false names plain
  have file := @filename_join false names plain some'
  have last := (plain _ (getLast_mem some')).ne_nil
  rw [elements, absolute, names_join plain, file]
  simp [last]

theorem toNormalPath_eq (path : Str) : toNormalPath path = render (isAbsolute path) (segments path) := by
  have resolved := resolved_segments path
  cases path with
  | nil => decide
  | cons byte rest =>
    have filled : ¬(byte :: rest).isEmpty = true := false_ne_true
    rw [toNormalPath, lexicallyNormal, if_neg filled]
    simp only
    rw [segments] at resolved ⊢
    generalize resolve (isAbsolute (byte :: rest)) (Path.names (byte :: rest)) = stack at resolved
    generalize isAbsolute (byte :: rest) = root at resolved
    cases stack with
    | nil =>
      simp only
      cases root <;> decide
    | cons top below =>
      have some' : (top :: below).reverse ≠ [] := by simp
      have nonempty := @join_ne_nil root _ resolved.plain some'
      have rendered : render root (top :: below).reverse = join root (top :: below).reverse := by
        generalize (top :: below).reverse = names at some'
        cases names with
        | nil => exact absurd rfl some'
        | cons name names => rfl
      rw [rendered]
      simp only
      generalize (top :: below).reverse = names at resolved some' nonempty
      split
      · -- The slash at the end makes the file name empty.
        rw [hasFilename, filename_slash,
          parentPath_slash nonempty (getLast_join resolved.plain some' nonempty)]
        simp [nonempty]
      · have name := @filename_join root names resolved.plain some'
        have plain := resolved.plain _ (getLast_mem some')
        rw [append_nil, hasFilename, name]
        simp [plain.ne_nil, nonempty]

theorem render_segments (resolved : Resolved root names) :
    isAbsolute (render root names) = root ∧ segments (render root names) = names := by
  cases names with
  | nil => cases root <;> decide
  | cons name rest =>
    have absolute := @isAbsolute_join root _ resolved.plain
    refine ⟨absolute, ?_⟩
    show (resolve (isAbsolute (join root _)) (Path.names (join root _))).reverse = _
    rw [absolute, names_join resolved.plain, resolve_resolved resolved, reverse_reverse]

theorem toNormalPath_idem (path : Str) : toNormalPath (toNormalPath path) = toNormalPath path := by
  obtain ⟨absolute, same⟩ := render_segments (resolved_segments path)
  rw [toNormalPath_eq path, toNormalPath_eq, absolute, same]

theorem toNormalPath_eq_iff {path other : Str} : toNormalPath path = toNormalPath other ↔
    isAbsolute path = isAbsolute other ∧ segments path = segments other := by
  constructor
  · intro same
    obtain ⟨absolute, names⟩ := render_segments (resolved_segments path)
    obtain ⟨absolute', names'⟩ := render_segments (resolved_segments other)
    rw [toNormalPath_eq, toNormalPath_eq] at same
    rw [same] at absolute names
    exact ⟨absolute.symm.trans absolute', names.symm.trans names'⟩
  · rintro ⟨absolute, names⟩
    rw [toNormalPath_eq, toNormalPath_eq, absolute, names]

/-- A path stands above another one: names lead down from the one to the other. -/
def Ancestor (path other : Str) : Prop :=
  isAbsolute path = isAbsolute other ∧
    ∃ below, below ≠ [] ∧ up ∉ below ∧ segments other = segments path ++ below

end Normal

end Jst.Path
