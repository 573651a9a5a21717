import Mathlib.Data.List.Nodup
import Jst.Utils.PathRebase
import Jst.Utils.RelativePath
/-!
# Outputs relative to the working directory

The outputs of an action are requested, checked and saved under their names relative to the working
directory. Such a name is computed from the working directory as it is written. It denotes the
output if the directories that both have in common, as written, are also on the way to the working
directory when `.` and `..` in it are resolved.
-/
namespace Jst.Verif.RebasedOutputs

open Path

variable {rest front behind : List Str}

/-- The output that a requested path denotes in a working directory. -/
def resolveIn (cwd requested : Str) : Str := toNormalPath (append cwd requested)

/-- The outputs are found: no two are requested by one name, each name denotes its output, and so
an execution that answers a name with the object it denotes is never asked for another object. -/
structure Found (cwd : Str) (outputs : List Str) : Prop where
  distinct : (rebasePathStringsRelativeTo cwd outputs).Nodup
  denotes : ∀ output ∈ outputs, resolveIn cwd (rebasePathStringRelativeTo cwd output) = output
  /-- `artifacts.at(RebasePathStringRelativeTo(base, name))` is the object of the output. -/
  ownObject : ∀ {Object : Type} (object : Str → Object) (artifacts : Str → Option Object),
    (∀ requested ∈ rebasePathStringsRelativeTo cwd outputs,
      artifacts requested = some (object (resolveIn cwd requested))) →
    ∀ output ∈ outputs, artifacts (rebasePathStringRelativeTo cwd output) = some (object output)

/-- An output lies in the directory in which the working directory says it does: it is relative, and
the directories that it shares with the working directory as written are on the resolved way to it.
-/
def Aligned (cwd output : Str) : Prop :=
  isAbsolute output = false ∧
    ∀ front, front <+: segments output → front <+: names cwd → front <+: segments cwd

instance (cwd output : Str) : Decidable (Aligned cwd output) :=
  decidable_of_iff (isAbsolute output = false ∧
      ∀ front ∈ (segments output).inits, front <+: names cwd → front <+: segments cwd) <|
    and_congr_right fun _ => forall_congr' fun front => by rw [List.mem_inits]

section Rebase

variable {cwd output : Str}

theorem elements_relative (relative : isAbsolute cwd = false) :
    elements cwd = names cwd ∨ elements cwd = names cwd ++ [[]] := by
  rw [elements, relative, if_neg false_ne_true, nil_append]
  split
  · exact .inr rfl
  · exact .inl (append_nil _)

theorem levels_elements (relative : isAbsolute cwd = false) :
    levels (elements cwd) = levels (names cwd) := by
  cases elements_relative relative with
  | inl same => rw [same]
  | inr slashed => rw [slashed, levels_append, show levels [[]] = 0 by decide, Int.add_zero]

theorem prefix_names (relative : isAbsolute cwd = false) (plain : ∀ name ∈ front, Plain name)
    (inside : front <+: elements cwd) : front <+: names cwd := by
  cases elements_relative relative with
  | inl same => exact same ▸ inside
  | inr slashed =>
    rw [slashed, List.prefix_concat_iff] at inside
    cases inside with
    | inl whole =>
      have empty := plain [] (whole ▸ mem_append_right _ (mem_singleton_self _))
      exact absurd rfl empty.ne_nil
    | inr inside => exact inside

theorem elements_normal (relative : isAbsolute output = false) (normal : toNormalPath output = output) :
    segments output = [] ∧ elements output = [here] ∨
      segments output ≠ [] ∧ elements output = segments output := by
  have written := normal.symm.trans (toNormalPath_eq output)
  rw [relative] at written
  have plain := (resolved_segments output).plain
  cases some' : segments output with
  | nil =>
    rw [some'] at written
    refine .inl ⟨rfl, ?_⟩
    rw [written]
    decide
  | cons name rest =>
    rw [some'] at written plain
    refine .inr ⟨cons_ne_nil _ _, ?_⟩
    rw [written]
    exact elements_join plain (cons_ne_nil _ _)

theorem plain_back (plain : ∀ name ∈ rest, Plain name) (count : Nat) :
    ∀ name ∈ replicate count up ++ rest, Plain name := by
  intro name member
  cases mem_append.mp member with
  | inl isUp => exact List.eq_of_mem_replicate isUp ▸ ⟨by decide, by decide⟩
  | inr inside => exact plain name inside

theorem rebase_text (relativeCwd : isAbsolute cwd = false) (relative : isAbsolute output = false)
    (parts : mismatch (elements output) (elements cwd) = (rest, behind))
    (plain : ∀ name ∈ rest, Plain name) (down : 0 ≤ levels behind) :
    let names := replicate (levels behind).toNat up ++ rest
    names = [] ∧ rebasePathStringRelativeTo cwd output = here ∨
      names ≠ [] ∧ rebasePathStringRelativeTo cwd output = join false names := by
  have back := plain_back plain (levels behind).toNat
  have noEmpty : rest.head? ≠ some [] := fun first => (plain [] (List.mem_of_mem_head? first)).ne_nil rfl
  simp only
  rw [rebasePathStringRelativeTo, lexicallyRelative, if_neg (by simp [relativeCwd, relative]), parts]
  by_cases level : levels behind = 0 ∧ rest = []
  · left
    obtain ⟨level, nothing⟩ := level
    subst nothing
    refine ⟨by simp [level], ?_⟩
    cases behind with
    | nil => rfl
    | cons first behind => simp [level]
  · right
    have filled : replicate (levels behind).toNat up ++ rest ≠ [] := by
      simp only [ne_eq, List.append_eq_nil_iff, List.replicate_eq_nil_iff]
      rintro ⟨level', nothing⟩
      exact level ⟨by omega, nothing⟩
    refine ⟨filled, ?_⟩
    rw [← foldl_append_plain back filled]
    split
    · next nothing =>
      cases nothing
      exact absurd ⟨by decide, rfl⟩ level
    · next same =>
      cases same
      rw [if_neg (by omega), if_neg]
      rintro ⟨level', nothing | first⟩
      · exact level ⟨level', nothing⟩
      · exact noEmpty first

theorem segments_rebase (relativeCwd : isAbsolute cwd = false)
    (relative : isAbsolute output = false) (nonUpwards : up ∉ segments cwd)
    (parts : mismatch (elements output) (elements cwd) = (rest, behind))
    (plain : ∀ name ∈ rest, Plain name) (down : 0 ≤ levels behind)
    (enough : (levels behind).toNat ≤ (segments cwd).length) :
    isAbsolute (append cwd (rebasePathStringRelativeTo cwd output)) = false ∧
    segments (append cwd (rebasePathStringRelativeTo cwd output)) =
      (rest.foldl (push false) (((segments cwd).reverse).drop (levels behind).toNat)).reverse := by
  have stack : (segments cwd).reverse = resolve false (names cwd) := by
    rw [segments, relativeCwd, reverse_reverse]
  have inside : up ∉ (segments cwd).reverse := by simpa using nonUpwards
  have back := foldl_push_back inside (levels behind).toNat (by simpa using enough)
  cases rebase_text relativeCwd relative parts plain down with
  | inl atHere =>
    obtain ⟨nothing, text⟩ := atHere
    have absolute := isAbsolute_append relativeCwd (show isAbsolute here = false by decide)
    simp only [List.append_eq_nil_iff, List.replicate_eq_nil_iff] at nothing
    rw [text]
    refine ⟨absolute, ?_⟩
    rw [segments, absolute, names_append (by decide), resolve, foldl_append,
      show names here = [here] by decide, nothing.1, nothing.2, stack]
    rfl
  | inr written =>
    obtain ⟨filled, text⟩ := written
    have all := plain_back plain (levels behind).toNat
    have leads := @isAbsolute_join false _ all
    have absolute := isAbsolute_append relativeCwd leads
    rw [text]
    refine ⟨absolute, ?_⟩
    rw [segments, absolute, names_append leads, names_join all, resolve, foldl_append, foldl_append]
    rw [resolve] at stack
    rw [← stack, back]

theorem rebase_absolute (relativeCwd : isAbsolute cwd = false) (absolute : isAbsolute output = true) :
    rebasePathStringRelativeTo cwd output = [] := by
  rw [rebasePathStringRelativeTo, lexicallyRelative, if_pos (by simp [relativeCwd, absolute])]

theorem segments_append_nil (relativeCwd : isAbsolute cwd = false) :
    isAbsolute (append cwd []) = false ∧ segments (append cwd []) = segments cwd := by
  have absolute := isAbsolute_append relativeCwd (show isAbsolute [] = false from rfl)
  refine ⟨absolute, ?_⟩
  rw [segments, absolute, names_append rfl, show names [] = [] by decide, append_nil, segments,
    relativeCwd]

theorem resolveIn_eq_iff (normal : toNormalPath output = output) {requested : Str}
    (relative : isAbsolute (append cwd requested) = false) : resolveIn cwd requested = output ↔
      isAbsolute output = false ∧ segments (append cwd requested) = segments output := by
  conv_lhs => rw [← normal]
  rw [resolveIn, toNormalPath_eq_iff, relative]
  exact and_congr_left fun _ => eq_comm

theorem denotes_here (relativeCwd : isAbsolute cwd = false) (relative : isAbsolute output = false)
    (nonUpwards : up ∉ segments cwd) (normal : toNormalPath output = output)
    (noNames : segments output = []) (single : elements output = [here]) :
    resolveIn cwd (rebasePathStringRelativeTo cwd output) = output := by
  obtain ⟨front, leftShape, rightShape, -⟩ := mismatch_spec (elements output) (elements cwd)
  cases parts : mismatch (elements output) (elements cwd) with
  | mk rest behind =>
    rw [parts] at leftShape rightShape
    simp only [single] at leftShape rightShape
    have restHere : rest = [] ∨ rest = [here] := by
      cases front with
      | nil => exact .inr leftShape.symm
      | cons first front => exact .inl (List.append_eq_nil_iff.mp (cons.inj leftShape).2.symm).2
    have frontLevel : levels front = 0 := by
      have whole := congrArg levels leftShape
      rw [levels_append] at whole
      have restLevel : levels rest = 0 := by
        cases restHere with
        | inl nothing => rw [nothing]; decide
        | inr isHere => rw [isHere]; decide
      rw [restLevel, show levels [here] = 0 by decide] at whole
      omega
    have depth : ((segments cwd).length : Int) = levels behind := by
      rw [segments, relativeCwd, List.length_reverse, resolve, length_foldl_push
        (fun _ => plain_of_mem_names) (by simpa [segments, relativeCwd, resolve] using nonUpwards),
        ← levels_elements relativeCwd, rightShape, levels_append, frontLevel]
      simp
    have plain : ∀ name ∈ rest, Plain name := by
      cases restHere with
      | inl nothing => simp [nothing]
      | inr isHere =>
        rw [isHere]
        simp only [mem_singleton, forall_eq]
        exact ⟨by decide, by decide⟩
    obtain ⟨absolute, names⟩ :=
      segments_rebase relativeCwd relative nonUpwards parts plain (by omega) (by omega)
    rw [resolveIn_eq_iff normal absolute, names, noNames]
    refine ⟨relative, ?_⟩
    have above : (levels behind).toNat = (segments cwd).reverse.length := by
      rw [List.length_reverse]
      omega
    rw [above, List.drop_length]
    cases restHere with
    | inl nothing => rw [nothing]; rfl
    | inr isHere => rw [isHere]; decide

theorem up_notMem_shared (relativeCwd : isAbsolute cwd = false) (nonUpwards : up ∉ segments cwd)
    (shape : segments output = front ++ rest) (shared : front <+: names cwd) :
    up ∉ front ∧ (front = [] ∨ up ∉ rest) := by
  cases front with
  | nil => simp
  | cons first front =>
    have down : first ≠ up := by
      intro upwards
      obtain ⟨behind, written⟩ := shared
      rw [upwards] at written
      rw [segments, relativeCwd, List.mem_reverse, resolve, ← written, cons_append,
        foldl_cons] at nonUpwards
      exact up_notMem_of_foldl nonUpwards (by decide)
    have none' : up ∉ segments output := by
      rw [(resolved_segments output).up_mem_iff, shape]
      simpa using down
    rw [shape, mem_append, not_or] at none'
    exact ⟨none'.1, .inr none'.2⟩

theorem levels_down (plain : ∀ name ∈ front, Plain name) (notHere : here ∉ front)
    (noUp : up ∉ front) : levels front = front.length := by
  induction front with
  | nil => decide
  | cons name rest step =>
    rw [mem_cons, not_or] at notHere noUp
    have first : levels [name] = 1 := by
      simp [levels, (plain name mem_cons_self).ne_nil, Ne.symm notHere.1, Ne.symm noUp.1]
    rw [levels_cons, first, step (forall_mem_cons.mp plain).2 notHere.2 noUp.2]
    push_cast [length_cons]
    omega

theorem denotes_named (relativeCwd : isAbsolute cwd = false) (relative : isAbsolute output = false)
    (nonUpwards : up ∉ segments cwd) (normal : toNormalPath output = output)
    (parts : mismatch (elements output) (elements cwd) = (rest, behind))
    (shape : segments output = front ++ rest) (written : elements cwd = front ++ behind) :
    resolveIn cwd (rebasePathStringRelativeTo cwd output) = output ↔ front <+: segments cwd := by
  have resolved := resolved_segments output
  have plain := resolved.plain
  rw [shape] at plain
  have plainFront : ∀ name ∈ front, Plain name := fun name member => plain name (mem_append_left _ member)
  have plainRest : ∀ name ∈ rest, Plain name := fun name member => plain name (mem_append_right _ member)
  have notHere := resolved.notHere
  rw [shape, mem_append, not_or] at notHere
  have shared := prefix_names relativeCwd plainFront ⟨behind, written.symm⟩
  obtain ⟨noUp, downwards⟩ := up_notMem_shared relativeCwd nonUpwards shape shared
  have depth : ((segments cwd).length : Int) = front.length + levels behind := by
    rw [segments, relativeCwd, List.length_reverse, resolve, length_foldl_push
      (fun _ => plain_of_mem_names) (by simpa [segments, relativeCwd, resolve] using nonUpwards),
      ← levels_elements relativeCwd, written, levels_append, levels_down plainFront notHere.1 noUp]
    simp
  by_cases down : 0 ≤ levels behind
  · obtain ⟨absolute, names⟩ :=
      segments_rebase relativeCwd relative nonUpwards parts plainRest down (by omega)
    have kept : (segments cwd).reverse.drop (levels behind).toNat =
        ((segments cwd).take front.length).reverse := by
      rw [List.drop_reverse, show (segments cwd).length - (levels behind).toNat = front.length by omega]
    rw [resolveIn_eq_iff normal absolute, names, kept, shape, List.prefix_iff_eq_take]
    simp only [relative, true_and]
    cases downwards with
    | inl nothing =>
      -- The output is written out in full behind the way back.
      rw [nothing] at shape ⊢
      rw [nil_append] at shape
      have all : rest.foldl (push false) [] = rest.reverse := by
        rw [← shape]
        exact resolve_resolved (relative ▸ resolved)
      simp [all]
    | inr noUpRest =>
      rw [foldl_push_names notHere.2 noUpRest, reverse_append, reverse_reverse,
        reverse_reverse, List.append_cancel_right_eq]
      exact eq_comm
  · -- More levels are taken back than the output shares.
    have nameless : rebasePathStringRelativeTo cwd output = [] := by
      rw [rebasePathStringRelativeTo, lexicallyRelative, if_neg (by simp [relativeCwd, relative]), parts]
      split
      · next nothing =>
        cases nothing
        exact absurd (by decide) down
      · next same =>
        cases same
        rw [if_pos (by omega)]
    obtain ⟨absolute, names⟩ := segments_append_nil relativeCwd
    rw [nameless, resolveIn_eq_iff normal absolute, names, shape]
    constructor
    · rintro ⟨-, same⟩
      have long := congrArg List.length same
      rw [length_append] at long
      omega
    · intro inside
      have long := inside.length_le
      omega

theorem denotes_iff (accepted : pathIsNonUpwards cwd = true) (normal : toNormalPath output = output) :
    resolveIn cwd (rebasePathStringRelativeTo cwd output) = output ↔ Aligned cwd output := by
  obtain ⟨relativeCwd, nonUpwards⟩ := pathIsNonUpwards_iff.mp accepted
  cases absolute : isAbsolute output with
  | true =>
    rw [rebase_absolute relativeCwd absolute,
      resolveIn_eq_iff normal (segments_append_nil relativeCwd).1]
    simp [Aligned, absolute]
  | false =>
    cases elements_normal absolute normal with
    | inl only =>
      obtain ⟨noNames, single⟩ := only
      refine ⟨fun _ => ⟨absolute, fun front inside _ => ?_⟩, fun _ =>
        denotes_here relativeCwd absolute nonUpwards normal noNames single⟩
      rw [noNames, List.prefix_nil] at inside
      rw [inside]
      exact List.nil_prefix
    | inr named =>
      obtain ⟨-, same⟩ := named
      obtain ⟨front, shape, written, longest⟩ := mismatch_spec (elements output) (elements cwd)
      have whole := same.symm.trans shape
      have plain := (resolved_segments output).plain
      have shared : front <+: segments output := ⟨_, whole.symm⟩
      rw [denotes_named relativeCwd absolute nonUpwards normal (Prod.eta _) whole written]
      constructor
      · intro inside
        refine ⟨absolute, fun other inOutput inCwd => ?_⟩
        have inElements : other <+: elements cwd := by
          cases elements_relative relativeCwd with
          | inl whole => exact whole ▸ inCwd
          | inr slashed => exact slashed ▸ inCwd.trans (List.prefix_append _ _)
        exact (longest other (same ▸ inOutput) inElements).trans inside
      · rintro ⟨-, aligned⟩
        exact aligned front shared (prefix_names relativeCwd
          (fun name member => plain name (shared.subset member)) ⟨_, written.symm⟩)

end Rebase

/-- The outputs of an action are found under their rebased names exactly if each of them is aligned
with the working directory. -/
theorem found_iff (cwd : Str) (outputs : List Str) (accepted : pathIsNonUpwards cwd = true)
    (normal : ∀ output ∈ outputs, toNormalPath output = output) (distinct : outputs.Nodup) :
    Found cwd outputs ↔ ∀ output ∈ outputs, Aligned cwd output := by
  constructor
  · intro found output member
    exact (denotes_iff accepted (normal output member)).mp (found.denotes output member)
  · intro aligned
    have denotes : ∀ output ∈ outputs,
        resolveIn cwd (rebasePathStringRelativeTo cwd output) = output :=
      fun output member => (denotes_iff accepted (normal output member)).mpr (aligned output member)
    refine ⟨?_, denotes, fun object artifacts answered output member => ?_⟩
    · refine List.Nodup.map_on (fun left leftIn right rightIn same => ?_) distinct
      rw [← denotes left leftIn, same, denotes right rightIn]
    · rw [answered _ (mem_map_of_mem member), denotes output member]

theorem found_unnormalised : Found (lit "d/./f/") [lit "d/x", lit "e"] :=
  (found_iff _ _ (by decide) (by decide) (by decide)).mpr (by decide)

theorem outputs_collapse :
    ¬∀ (cwd : Str) (outputs : List Str), pathIsNonUpwards cwd = true →
      (∀ output ∈ outputs, toNormalPath output = output) → outputs.Nodup → Found cwd outputs := by
  intro always
  have found := always (lit "a/..") [lit "a/x", lit "a/y"] (by decide) (by decide) (by decide)
  exact absurd found.distinct (by decide)

end Jst.Verif.RebasedOutputs
