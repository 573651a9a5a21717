import Mathlib.Data.List.TakeWhile
import Jst.Utils.NormalPath
/-!
# Relative paths

What the names are behind a directory, which directories a path passes while it leads nowhere above
its start, and what a relative path denotes when it is resolved against its base.
-/
namespace Jst.Path

section Append

theorem names_slash (front back : Str) : names (front ++ slash :: back) = names front ++ names back := by
  rw [names, pieces, List.splitOn_append_cons_self, filter_append]
  rfl

theorem names_plain {name : Str} (plain : Plain name) : names name = [name] := by
  have single := @names_join false [name] (by simpa using plain)
  simpa [join] using single

theorem eq_directory_append (path : Str) : ∃ directory, path = directory ++ filename path ∧
    (directory = [] ∨ ∃ front, directory = front ++ [slash]) := by
  have joined : [slash].intercalate (pieces path) = path := List.intercalate_splitOn slash
  have some' : pieces path ≠ [] := List.splitOn_ne_nil _ _
  obtain ⟨front, last, split⟩ := (List.eq_nil_or_concat (pieces path)).resolve_left some'
  rw [List.concat_eq_append] at split
  have isLast : filename path = last := by
    rw [filename, split]
    simp
  rw [split] at joined
  rw [isLast]
  by_cases single : front = []
  · refine ⟨[], ?_, .inl rfl⟩
    rw [← joined, single]
    simp
  · have written := @join_concat false front single last
    refine ⟨join false front ++ [slash], ?_, .inr ⟨_, rfl⟩⟩
    rw [append_assoc, singleton_append, ← written, ← joined]
    rfl

variable {other path : Str}

theorem eq_slash_of_filename (noName : filename path = []) :
    path = [] ∨ ∃ front, path = front ++ [slash] := by
  obtain ⟨directory, shape, ends⟩ := eq_directory_append path
  rw [noName, append_nil] at shape
  exact shape ▸ ends

theorem names_append (relative : isAbsolute other = false) (path : Str) :
    names (append path other) = names path ++ names other := by
  rw [append, if_neg (by simp [relative])]
  by_cases named : hasFilename path = true
  · rw [if_pos named, names_slash]
  · rw [if_neg named]
    have noName : filename path = [] := by simpa [hasFilename] using named
    cases eq_slash_of_filename noName with
    | inl empty =>
      rw [empty]
      rfl
    | inr slashed =>
      obtain ⟨front, shape⟩ := slashed
      have empty : names [] = [] := by decide
      rw [shape, append_assoc, singleton_append, names_slash, names_slash, empty, append_nil]

theorem isAbsolute_append (relativePath : isAbsolute path = false)
    (relative : isAbsolute other = false) : isAbsolute (append path other) = false := by
  rw [append, if_neg (by simp [relative])]
  cases path with
  | nil => exact relative
  | cons byte rest =>
    split
    · exact relativePath
    · exact relativePath

theorem foldl_append_plain {names : List Str} (plain : ∀ name ∈ names, Plain name)
    (some' : names ≠ []) : names.foldl append [] = join false names := by
  have relative : ∀ name ∈ names, isAbsolute name = false := by
    intro name member
    have first := plain name member
    cases name with
    | nil => rfl
    | cons byte rest =>
      have apart : byte ≠ slash := fun same => first.noSlash (same ▸ mem_cons_self)
      simp [isAbsolute, apart]
  induction names using List.reverseRecOn with
  | nil => exact absurd rfl some'
  | append_singleton front name step =>
    have before : ∀ other ∈ front, Plain other :=
      fun other member => plain other (mem_append_left _ member)
    have last := relative name (mem_append_right _ (mem_singleton_self name))
    rw [foldl_append, foldl_cons, List.foldl_nil]
    by_cases single : front = []
    · rw [single, List.foldl_nil, append, if_neg (by simp [last])]
      simp [hasFilename, filename, pieces, join]
    · rw [step before single fun other member => relative other (mem_append_left _ member),
        append, if_neg (by simp [last]), if_pos, join_concat single]
      rw [hasFilename, filename_join before single]
      simpa using (before _ (getLast_mem single)).ne_nil

end Append

section Parents

theorem names_slashes (text : Str) (count : Nat) : names (text ++ replicate count slash) = names text := by
  induction count with
  | zero => rw [List.replicate_zero, append_nil]
  | succ count step =>
    have empty : names [] = [] := by decide
    rw [List.replicate_succ', ← append_assoc, names_slash, step, empty, append_nil]

theorem trim_slashes {text : Str} (relative : isAbsolute text = false) :
    let trimmed := (text.reverse.dropWhile (· = slash)).reverse
    (trimmed = [] → text = []) ∧ isAbsolute trimmed = false ∧ elements trimmed = names text := by
  simp only
  generalize kept : (text.reverse.dropWhile (· = slash)).reverse = trimmed
  have shape : text = trimmed ++ replicate (text.reverse.takeWhile (· = slash)).length slash := by
    have slashes : text.reverse.takeWhile (· = slash) =
        replicate (text.reverse.takeWhile (· = slash)).length slash :=
      List.eq_replicate_of_mem fun byte member => by simpa using List.mem_takeWhile_imp member
    have whole := congrArg List.reverse (List.takeWhile_append_dropWhile (p := (· = slash)) (l := text.reverse))
    rw [reverse_append, kept, reverse_reverse, slashes, List.reverse_replicate] at whole
    exact whole.symm
  generalize (text.reverse.takeWhile (· = slash)).length = count at shape
  have sameNames : names text = names trimmed := by rw [shape, names_slashes]
  cases trimmed with
  | nil =>
    have empty : text = [] := by
      cases count with
      | zero => simpa using shape
      | succ count =>
        rw [shape] at relative
        cases relative
    exact ⟨fun _ => empty, rfl, by rw [empty]; decide⟩
  | cons byte rest =>
    have still : isAbsolute (byte :: rest) = false := by
      rw [shape] at relative
      exact relative
    refine ⟨nofun, still, ?_⟩
    have named : filename (byte :: rest) ≠ [] := by
      intro noName
      obtain ⟨front, slashed⟩ := (eq_slash_of_filename noName).resolve_left (cons_ne_nil _ _)
      have last := congrArg List.reverse (kept.trans slashed)
      rw [reverse_reverse, reverse_append, List.reverse_singleton] at last
      have first := List.head?_dropWhile_not (· = slash) text.reverse
      rw [last] at first
      simp at first
    rw [sameNames, elements, still, if_neg false_ne_true, nil_append,
      if_neg (fun both => named both.2), append_nil]

theorem elements_parentPath {path : Str} (relative : isAbsolute path = false) :
    elements (parentPath path) = (elements path).dropLast ∧ isAbsolute (parentPath path) = false := by
  obtain ⟨directory, shape, ends⟩ := eq_directory_append path
  have taken : path.take (path.length - (filename path).length) = directory := by
    have long := congrArg List.length shape
    rw [length_append] at long
    rw [show path.length - (filename path).length = directory.length by omega]
    conv_lhs => rw [shape]
    exact List.take_left
  have relativeDirectory : isAbsolute directory = false := by
    cases directory with
    | nil => rfl
    | cons byte rest =>
      rw [shape] at relative
      exact relative
  obtain ⟨nothing, still, sameNames⟩ := trim_slashes relativeDirectory
  have parent : elements (parentPath path) = names directory ∧ isAbsolute (parentPath path) = false := by
    rw [parentPath, taken]
    split
    · next empty =>
      rw [nothing (by simpa using empty)]
      exact ⟨by decide, rfl⟩
    · exact ⟨sameNames, still⟩
  refine ⟨?_, parent.2⟩
  rw [parent.1, elements, relative, if_neg false_ne_true, nil_append]
  by_cases noName : filename path = []
  · rw [noName, append_nil] at shape
    subst shape
    by_cases single : names path = []
    · simp [single]
    · simp [single, noName]
  · have split : names path = names directory ++ [filename path] := by
      have plain : Plain (filename path) := by
        refine ⟨noName, slash_notMem_pieces path _ ?_⟩
        have filled : pieces path ≠ [] := List.splitOn_ne_nil _ _
        rw [filename, List.getLastD_eq_getLast?, List.getLast?_eq_some_getLast filled]
        exact getLast_mem filled
      conv_lhs => rw [shape]
      cases ends with
      | inl empty =>
        rw [empty, nil_append, names_plain plain]
        rfl
      | inr slashed =>
        obtain ⟨front, written⟩ := slashed
        have empty : names [] = [] := by decide
        rw [written, append_assoc, singleton_append, names_slash, names_slash, empty,
          append_nil, names_plain plain]
    rw [split, if_neg (fun both => noName both.2), append_nil, List.dropLast_concat]

end Parents

section NonUpwards

variable {names stack : List Str}

theorem up_mem_push (upwards : up ∈ stack) (name : Str) : up ∈ push false stack name := by
  unfold push
  split
  · exact upwards
  · split
    · cases stack with
      | nil => cases upwards
      | cons top rest =>
        simp only
        split
        · exact mem_cons_self
        · next topName =>
          cases mem_cons.mp upwards with
          | inl isTop => exact absurd isTop.symm topName
          | inr below => exact below
    · exact mem_cons_of_mem _ upwards

theorem up_notMem_of_foldl (nonUpwards : up ∉ names.foldl (push false) stack) : up ∉ stack := by
  induction names generalizing stack with
  | nil => exact nonUpwards
  | cons name rest step => exact fun upwards => step nonUpwards (up_mem_push upwards name)

theorem levels_append (front back : List Str) : levels (front ++ back) = levels front + levels back := by
  simp only [levels, List.countP_append]
  omega

theorem levels_cons (name : Str) (rest : List Str) : levels (name :: rest) = levels [name] + levels rest :=
  levels_append [name] rest

theorem length_foldl_push (plain : ∀ name ∈ names, Plain name)
    (nonUpwards : up ∉ names.foldl (push false) stack) :
    ((names.foldl (push false) stack).length : Int) = stack.length + levels names := by
  induction names generalizing stack with
  | nil => simp [levels]
  | cons name rest step =>
    obtain ⟨first, later⟩ := forall_mem_cons.mp plain
    have inside := up_notMem_of_foldl (foldl_cons (f := push false) ▸ nonUpwards)
    rw [foldl_cons] at nonUpwards ⊢
    rw [step later nonUpwards, levels_cons]
    have one : ((push false stack name).length : Int) = stack.length + levels [name] := by
      have before : up ∉ stack := fun upwards => up_notMem_of_foldl nonUpwards (up_mem_push upwards name)
      have within := up_notMem_of_foldl nonUpwards
      unfold push at within ⊢
      by_cases isHere : name = here
      · rw [if_pos isHere, isHere, show levels [here] = 0 by decide, Int.add_zero]
      · rw [if_neg isHere] at within ⊢
        by_cases isUp : name = up
        · rw [if_pos isUp] at within ⊢
          cases stack with
          | nil => exact absurd (mem_singleton_self up) within
          | cons top below =>
            have topName : top ≠ up := fun same => before (same ▸ mem_cons_self)
            simp only [if_neg topName, isUp, length_cons, show levels [up] = -1 by decide]
            omega
        · rw [if_neg isUp]
          simp [levels, isHere, isUp, first.ne_nil]
    omega

theorem foldl_push_back (nonUpwards : up ∉ stack) (count : Nat) (enough : count ≤ stack.length) :
    (replicate count up).foldl (push false) stack = stack.drop count := by
  induction count generalizing stack with
  | zero => rfl
  | succ count step =>
    cases stack with
    | nil => exact absurd enough (by simp)
    | cons top below =>
      have topName : top ≠ up := fun same => nonUpwards (same ▸ mem_cons_self)
      have pushed : push false (top :: below) up = below := by
        rw [push, if_neg (by decide), if_pos rfl]
        simp only [if_neg topName]
      rw [List.replicate_succ, foldl_cons, pushed, List.drop_succ_cons]
      exact step (fun member => nonUpwards (mem_cons_of_mem _ member)) (by simpa using enough)

theorem head_elements (plain : ∀ name ∈ names, Plain name) (some' : names ≠ []) (slashed : Bool) :
    (elements (join false names ++ if slashed then [slash] else [])).head? = names.head? := by
  have relative := @isAbsolute_join false names plain
  have nonempty := @join_ne_nil false names plain some'
  cases slashed with
  | false =>
    rw [if_neg false_ne_true, append_nil, elements_join plain some']
  | true =>
    have empty : Path.names [] = [] := by decide
    have still : isAbsolute (join false names ++ [slash]) = false := by
      cases text : join false names with
      | nil => exact absurd text nonempty
      | cons byte rest =>
        rw [text] at relative
        exact relative
    rw [if_pos rfl, elements, still, names_slash, names_join plain, empty, append_nil,
      if_neg false_ne_true, nil_append, List.head?_append_of_ne_nil _ some']

theorem Resolved.up_mem_iff {root : Bool} (resolved : Resolved root names) :
    up ∈ names ↔ names.head? = some up := by
  obtain ⟨count, rest, shape, noUp, -⟩ := resolved.ups
  rw [shape]
  cases count with
  | zero => simpa using ⟨fun inside => absurd inside noUp, List.mem_of_mem_head?⟩
  | succ count => simp [List.replicate_succ]

theorem pathIsNonUpwards_iff {path : Str} :
    pathIsNonUpwards path = true ↔ isAbsolute path = false ∧ up ∉ segments path := by
  cases absolute : isAbsolute path with
  | true => simp [pathIsNonUpwards, absolute]
  | false =>
    have resolved := resolved_segments path
    rw [absolute] at resolved
    have front := resolved.up_mem_iff
    have written : (elements (lexicallyNormal path)).head? = some up ↔
        (segments path).head? = some up := by
      unfold lexicallyNormal segments at *
      cases path with
      | nil => decide
      | cons byte rest =>
        rw [if_neg (by simp), absolute] at *
        simp only
        cases stack : resolve false (names (byte :: rest)) with
        | nil =>
          show (elements here).head? = some up ↔ ([] : List Str).head? = some up
          decide
        | cons top below =>
          rw [stack] at resolved
          have some' : (top :: below).reverse ≠ [] := by simp
          simp only
          have first := fun slashed => head_elements resolved.plain some' slashed
          split
          · exact iff_of_eq (congrArg (· = some up) (first true))
          · exact iff_of_eq (congrArg (· = some up) (first false))
    simp only [pathIsNonUpwards, absolute, Bool.not_false, Bool.true_and, decide_eq_true_eq, ne_eq,
      true_and]
    rw [written, front]

end NonUpwards

section Front

theorem mismatch_spec (left right : List Str) : ∃ front,
    left = front ++ (mismatch left right).1 ∧ right = front ++ (mismatch left right).2 ∧
      ∀ shared, shared <+: left → shared <+: right → shared <+: front := by
  induction left generalizing right with
  | nil => exact ⟨[], by simp [mismatch], by simp [mismatch], fun shared inside _ => inside⟩
  | cons first lefts step =>
    cases right with
    | nil => exact ⟨[], by simp [mismatch], by simp [mismatch], fun shared _ inside => inside⟩
    | cons second rights =>
      rw [mismatch]
      by_cases same : first = second
      · obtain ⟨front, leftShape, rightShape, longest⟩ := step rights
        rw [if_pos same]
        refine ⟨first :: front, congrArg (first :: ·) leftShape, ?_, ?_⟩
        · rw [same]
          exact congrArg (second :: ·) rightShape
        · intro shared inLeft inRight
          cases shared with
          | nil => exact List.nil_prefix
          | cons name shared =>
            rw [← same] at inRight
            rw [cons_prefix_cons] at inLeft inRight ⊢
            exact ⟨inLeft.1, longest shared inLeft.2 inRight.2⟩
      · rw [if_neg same]
        refine ⟨[], rfl, rfl, fun shared inLeft inRight => ?_⟩
        cases shared with
        | nil => exact List.nil_prefix
        | cons name shared =>
          rw [cons_prefix_cons] at inLeft inRight
          exact absurd (inLeft.1.symm.trans inRight.1) same

end Front

end Jst.Path
