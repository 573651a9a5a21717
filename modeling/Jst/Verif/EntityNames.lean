import Jst.Expression.EntityName
/-!
# Modules of entity names

A module name is normalised by resolving it against the root directory, so that nothing leads above
the top of the repository. Whether a relative module does is looked up in the text of the resolved
path, where the case is missed that just the parent directory of the top is left.
-/
namespace Jst.Verif.EntityNames

open SortedMap Path Repositories Expression

/-! ## Normal module names -/

/-- The names of a module, resolved against the root directory. -/
def moduleNames (module : Str) : List Str := (resolve true (names module)).reverse

theorem resolved_moduleNames (module : Str) : Resolved true (moduleNames module) :=
  resolved_foldl (fun _ => plain_of_mem_names) (resolved_nil _)

theorem up_notMem_moduleNames (module : Str) : up ∉ moduleNames module := by
  obtain ⟨count, rest, shape, noUp, zero⟩ := (resolved_moduleNames module).ups
  rw [shape, zero rfl, List.replicate_zero, nil_append]
  exact noUp

theorem names_slashed (module : Str) : names (slash :: (module ++ [slash])) = names module := by
  have front := names_slash [] (module ++ [slash])
  have back := names_slash module []
  have none : names [] = [] := by decide
  rw [none, nil_append] at front
  rw [none, append_nil] at back
  exact front.trans back

theorem lexicallyNormal_slashed (module : Str) : lexicallyNormal (slash :: (module ++ [slash])) =
      if moduleNames module = [] then [slash] else join true (moduleNames module) ++ [slash] := by
  have noName : filename (slash :: (module ++ [slash])) = [] := filename_slash (slash :: module)
  have stack : resolve true (names module) = (moduleNames module).reverse :=
    (reverse_reverse _).symm
  have absolute : isAbsolute (slash :: (module ++ [slash])) = true := rfl
  unfold lexicallyNormal
  rw [if_neg (by simp)]
  simp only [absolute, noName, names_slashed, stack, true_or, true_and]
  cases empty : (moduleNames module).reverse with
  | nil =>
    rw [List.reverse_eq_nil_iff] at empty
    simp [empty]
  | cons top rest =>
    have nonempty : moduleNames module ≠ [] := fun none => by simp [none] at empty
    have inside : top ∈ moduleNames module := by
      rw [← List.mem_reverse, empty]
      exact mem_cons_self
    have notUp : top ≠ up := fun same => up_notMem_moduleNames module (same ▸ inside)
    simp only [if_neg nonempty, ← empty, reverse_reverse]
    rw [if_pos notUp]

theorem elements_slashed {names : List Str} (plain : ∀ name ∈ names, Plain name)
    (nonempty : names ≠ []) :
    elements (join true names ++ [slash]) = [slash] :: (names ++ [[]]) := by
  have inside : Path.names (join true names ++ [slash]) = names := by
    have back := names_slash (join true names) []
    have none : Path.names [] = [] := by decide
    rw [none, append_nil, names_join plain] at back
    exact back
  have absolute : isAbsolute (join true names ++ [slash]) = true := rfl
  rw [elements, inside, absolute, filename_slash, if_pos rfl, if_pos ⟨nonempty, rfl⟩]
  rfl

theorem lexicallyRelative_root {names : List Str} (plain : ∀ name ∈ names, Plain name)
    (nonempty : names ≠ []) :
    lexicallyRelative (join true names ++ [slash]) [slash] = join false names ++ [slash] := by
  have absolute : isAbsolute (join true names ++ [slash]) = isAbsolute [slash] := rfl
  have root : elements [slash] = [[slash]] := by decide
  have behind : mismatch (elements (join true names ++ [slash])) (elements [slash]) =
      (names ++ [[]], []) := by
    rw [elements_slashed plain nonempty, root, mismatch, if_pos rfl]
    cases names ++ [[]] <;> rfl
  have noLevels : levels [] = 0 := rfl
  unfold lexicallyRelative
  rw [if_neg (not_not.mpr absolute), behind]
  cases names with
  | nil => exact absurd rfl nonempty
  | cons first rest =>
    have filled := (plain first mem_cons_self).ne_nil
    have last := @filename_join false (first :: rest) plain nonempty
    have named : hasFilename (join false (first :: rest)) = true := by
      have plainLast := plain _ (getLast_mem nonempty)
      simp [hasFilename, last, plainLast.ne_nil]
    have empty : isAbsolute [] = false := rfl
    simp only [cons_append, noLevels, ↓reduceIte, reduceCtorEq, List.head?_cons,
      some.injEq, filled, or_self, and_false, Int.toNat_zero, List.replicate_zero,
      nil_append]
    rw [← cons_append, foldl_append, foldl_append_plain plain nonempty, foldl_cons,
      List.foldl_nil, append, empty, if_pos named]
    rfl

theorem normalModuleName_eq (module : Str) :
    normalModuleName module = join false (moduleNames module) := by
  have plain := (resolved_moduleNames module).plain
  rw [normalModuleName, lexicallyNormal_slashed]
  by_cases empty : moduleNames module = []
  · rw [if_pos empty, empty]
    decide
  · rw [if_neg empty, lexicallyRelative_root plain empty]
    exact parentPath_slash (join_ne_nil plain empty) (getLast_join plain empty _)

theorem names_normalModuleName (module : Str) :
    names (normalModuleName module) = moduleNames module := by
  rw [normalModuleName_eq, names_join (resolved_moduleNames module).plain]

theorem normalModuleName_idem (module : Str) :
    normalModuleName (normalModuleName module) = normalModuleName module := by
  have same : moduleNames (normalModuleName module) = moduleNames module := by
    rw [moduleNames, names_normalModuleName, resolve_resolved (resolved_moduleNames module),
      reverse_reverse]
  rw [normalModuleName_eq (normalModuleName module), same, ← normalModuleName_eq]

/-- A module name is normal: it is what it is normalised to, and no name in it leads upwards. -/
structure IsNormal (module : Str) : Prop where
  normal : ∃ given, module = normalModuleName given
  noUp : up ∉ names module
  stays : normalModuleName module = module

theorem isNormal_normalModuleName (module : Str) : IsNormal (normalModuleName module) where
  normal := ⟨module, rfl⟩
  noUp := by
    rw [names_normalModuleName]
    exact up_notMem_moduleNames module
  stays := normalModuleName_idem module

/-! ## Relative modules -/

variable {name path : Str}

theorem takeWhile_slash (plain : Plain name) (rest : Str) :
    (name ++ slash :: rest).takeWhile (· ≠ slash) = name := by
  have all : ∀ byte ∈ name, decide (byte ≠ slash) = true := fun byte inside =>
    decide_eq_true fun same => plain.noSlash (same ▸ inside)
  rw [List.takeWhile_append_of_pos all, List.takeWhile_cons_of_neg (by simp), append_nil]

theorem plain_up : Plain up := ⟨by decide, by decide⟩

theorem prefix_slash (plain : Plain name) (rest : Str) :
    lit "../" <+: name ++ slash :: rest ↔ name = up := by
  have marker : lit "../" = up ++ [slash] := by decide
  rw [marker]
  constructor
  · rintro ⟨tail, same⟩
    rw [append_assoc] at same
    have first := takeWhile_slash plain rest
    rw [← same] at first
    exact first.symm.trans (takeWhile_slash plain_up tail)
  · rintro rfl
    exact ⟨rest, by rw [append_assoc]; rfl⟩

theorem prefix_join {names : List Str} (plain : ∀ name ∈ names, Plain name) (nonempty : names ≠ [])
    {slashed : Bool} (bare : names = [up] → slashed = false) :
    lit "../" <+: join false names ++ (if slashed then [slash] else []) ↔
      ∃ name rest, names = up :: name :: rest := by
  cases names with
  | nil => exact absurd rfl nonempty
  | cons first others =>
    have plainFirst := plain first mem_cons_self
    cases others with
    | nil =>
      have single : join false [first] = first := by simp [join, List.intercalate]
      rw [single]
      refine iff_of_false (fun upwards => ?_) (by simp)
      cases slashed with
      | false =>
        obtain ⟨tail, same⟩ := upwards
        have inside : slash ∈ first := by
          have whole : first = lit "../" ++ tail := by simpa using same.symm
          rw [whole]
          exact mem_append_left _ (by decide)
        exact plainFirst.noSlash inside
      | true =>
        have isUp := (prefix_slash plainFirst []).mp upwards
        exact absurd (bare (by rw [isUp])) (by decide)
    | cons second more =>
      have split : join false (first :: second :: more) =
          first ++ slash :: join false (second :: more) := by
        simp [join, List.intercalate]
      rw [split, append_assoc, cons_append, prefix_slash plainFirst]
      constructor
      · rintro rfl
        exact ⟨second, more, rfl⟩
      · rintro ⟨name, rest, same⟩
        exact (cons.inj same).1

theorem startsUpwards_iff (relative : isAbsolute path = false) :
    (lit "../").isPrefixOf (lexicallyNormal path) = true ↔
      ∃ name rest, segments path = up :: name :: rest := by
  rw [List.isPrefixOf_iff_prefix]
  have resolved := resolved_segments path
  have stack : resolve false (names path) = (segments path).reverse := by
    rw [segments, relative, reverse_reverse]
  cases path with
  | nil =>
    have none : segments [] = [] := by decide
    exact iff_of_false (by decide) (by simp [none])
  | cons byte rest =>
    unfold lexicallyNormal
    rw [if_neg (by simp)]
    simp only [relative, stack]
    cases shape : (segments (byte :: rest)).reverse with
    | nil =>
      rw [List.reverse_eq_nil_iff] at shape
      simp only [shape, false_eq_true, ↓reduceIte]
      exact iff_of_false (by decide) (by simp)
    | cons top below =>
      have whole : segments (byte :: rest) = (top :: below).reverse := by
        rw [← shape, reverse_reverse]
      have nonempty : segments (byte :: rest) ≠ [] := by simp [whole]
      simp only [← shape, reverse_reverse]
      have bare : segments (byte :: rest) = [up] → decide ((filename (byte :: rest) = [] ∨
          filename (byte :: rest) = here ∨ filename (byte :: rest) = up) ∧ top ≠ up) = false := by
        intro single
        rw [single] at shape
        simp [(cons.inj shape).1.symm]
      have upwards := prefix_join resolved.plain nonempty bare
      simpa only [decide_eq_true_eq] using upwards

theorem not_startsUpwards (absolute : isAbsolute path = true) :
    ¬ (lit "../").isPrefixOf (lexicallyNormal path) = true := by
  have first : ∃ tail, lexicallyNormal path = slash :: tail := by
    cases path with
    | nil => cases absolute
    | cons byte rest =>
      unfold lexicallyNormal
      rw [if_neg (by simp)]
      simp only [absolute]
      split
      · exact ⟨[], rfl⟩
      · exact ⟨_, rfl⟩
  obtain ⟨tail, shape⟩ := first
  rw [shape, List.isPrefixOf_iff_prefix]
  rintro ⟨rest, same⟩
  have marker : lit "../" = up ++ [slash] := by decide
  have head := congrArg List.head? same
  simp [marker, up, dot, slash] at head

/-- The relative module, resolved against the current one, leads above the top. -/
def LeadsAbove (module relmodule : Str) : Prop := up ∈ segments (append module relmodule)

/-- Just the parent directory of the top is left. -/
def IsParentOfTop (module relmodule : Str) : Prop := segments (append module relmodule) = [up]

theorem outside_iff (module relmodule : Str) :
    ((lit "../").isPrefixOf (lexicallyNormal (append module relmodule)) = true ↔
      LeadsAbove module relmodule) ↔ ¬ IsParentOfTop module relmodule := by
  unfold LeadsAbove IsParentOfTop
  generalize append module relmodule = path
  have resolved := resolved_segments path
  rw [resolved.up_mem_iff]
  cases absolute : isAbsolute path with
  | true =>
    have noUp : (segments path).head? ≠ some up := by
      obtain ⟨count, rest, shape, none, zero⟩ := resolved.ups
      rw [ne_eq, ← resolved.up_mem_iff, shape, zero absolute, List.replicate_zero, nil_append]
      exact none
    refine iff_of_true (iff_of_false (not_startsUpwards absolute) noUp) fun single => ?_
    exact noUp (by rw [single]; rfl)
  | false =>
    rw [startsUpwards_iff absolute]
    cases segments path with
    | nil => simp
    | cons first others =>
      cases others with
      | nil => simp
      | cons second more => simp

/-! ## Parsing -/

section Parsing

variable {Source Other Precomputed Digest : Type} {reader : Reader Source}
variable {config : RepositoryConfig Precomputed Digest} {current target : NamedTarget}

/-- A target whose module was normalised when it was created. -/
def IsCreated (target : NamedTarget) : Prop :=
  ∃ repository module name type, target = NamedTarget.create repository module name type

theorem IsCreated.isNormal (created : IsCreated target) : IsNormal target.module := by
  obtain ⟨repository, module, name, type, rfl⟩ := created
  dsimp only [NamedTarget.create]
  exact isNormal_normalModuleName module

theorem created_of_fsReference {marker : Str} {list : List Source}
    (parsed : parseEntityNameFSReference reader current marker list = .ok target) :
    IsCreated target := by
  unfold parseEntityNameFSReference at parsed
  split at parsed
  · split at parsed
    · dsimp only at parsed
      split at parsed
      · cases parsed
        exact ⟨_, _, _, _, rfl⟩
      · split at parsed
        · cases parsed
          exact ⟨_, _, _, _, rfl⟩
        · cases parsed
    · cases parsed
  · cases parsed

theorem created_of_relative {list : List Source}
    (parsed : parseEntityNameRelative reader current list = .ok target) : IsCreated target := by
  unfold parseEntityNameRelative at parsed
  split at parsed
  · split at parsed
    · dsimp only at parsed
      split at parsed
      · cases parsed
      · cases parsed
        exact ⟨_, _, _, _, rfl⟩
    · cases parsed
  · cases parsed

theorem created_of_location {list : List Source}
    (parsed : parseEntityNameLocation reader config current list = .ok target) :
    IsCreated target := by
  unfold parseEntityNameLocation at parsed
  split at parsed
  · split at parsed
    · split at parsed
      · cases parsed
        exact ⟨_, _, _, _, rfl⟩
      · cases parsed
    · cases parsed
  · cases parsed

theorem created_of_list {list : List Source}
    (parsed : parseList reader config current list = .ok target) : IsCreated target := by
  unfold parseList at parsed
  split at parsed
  · unfold parseEntityName2 at parsed
    split at parsed
    · cases parsed
      exact ⟨_, _, _, _, rfl⟩
    · cases parsed
  · unfold parseEntityName3 at parsed
    split at parsed
    · split at parsed
      · exact created_of_relative parsed
      · split at parsed
        · exact created_of_location parsed
        · split at parsed
          · cases parsed
          · split at parsed
            · exact created_of_fsReference parsed
            · cases parsed
    · cases parsed
  · cases parsed

theorem created_of_parse {source : Source}
    (parsed : parseEntityName reader config current source = .ok target) : IsCreated target := by
  unfold parseEntityName at parsed
  split at parsed
  · cases parsed
    exact ⟨_, _, _, _, rfl⟩
  · dsimp only at parsed
    split at parsed
    · next target' inner =>
      cases parsed
      split at inner
      · exact created_of_list inner
      · cases inner
    · cases parsed

/-- The results of two calls are the same, apart from what is logged. -/
def SameResult (left right : Except Messages NamedTarget) : Prop := left.toOption = right.toOption

/-- A reader looks into what another one sees of a reference. -/
structure Mirrors (reader : Reader Source) (other : Reader Other) (image : Source → Other) :
    Prop where
  asString : ∀ source, other.asString (image source) = reader.asString source
  asList : ∀ source, other.asList (image source) = (reader.asList source).map (List.map image)
  isNone : ∀ source, other.isNone (image source) = reader.isNone source

variable {other : Reader Other} {image : Source → Other}

section

variable (mirrors : Mirrors reader other image)
include mirrors

theorem Mirrors.fsReference (marker : Str) (list : List Source) :
    SameResult (parseEntityNameFSReference other current marker (list.map image))
      (parseEntityNameFSReference reader current marker list) := by
  unfold SameResult
  match list with
  | [] | [_] | [_, _] | _ :: _ :: _ :: _ :: _ => rfl
  | [first, middle, last] =>
    simp only [map_cons, map_nil, parseEntityNameFSReference, mirrors.asString, mirrors.isNone]
    split
    · split
      · rfl
      · split
        · rfl
        · rfl
    · rfl

theorem Mirrors.relative (list : List Source) :
    SameResult (parseEntityNameRelative other current (list.map image))
      (parseEntityNameRelative reader current list) := by
  unfold SameResult
  match list with
  | [] | [_] | [_, _] | _ :: _ :: _ :: _ :: _ => rfl
  | [first, second, third] =>
    simp only [map_cons, map_nil, parseEntityNameRelative, mirrors.asString]

theorem Mirrors.location (list : List Source) :
    SameResult (parseEntityNameLocation other config current (list.map image))
      (parseEntityNameLocation reader config current list) := by
  unfold SameResult
  match list with
  | [] | [_] | [_, _] | [_, _, _] | _ :: _ :: _ :: _ :: _ :: _ => rfl
  | [first, second, third, fourth] =>
    simp only [map_cons, map_nil, parseEntityNameLocation, mirrors.asString]

theorem Mirrors.list (list : List Source) :
    SameResult (parseList other config current (list.map image))
      (parseList reader config current list) := by
  match list with
  | [] | [_] => rfl
  | [first, second] =>
    simp only [map_cons, map_nil, parseList, parseEntityName2, mirrors.asString]
    rfl
  | first :: second :: third :: rest =>
    simp only [map_cons, parseList, parseEntityName3, mirrors.asString]
    split
    · split
      · exact mirrors.relative (first :: second :: third :: rest)
      · split
        · exact mirrors.location (first :: second :: third :: rest)
        · split
          · rfl
          · split
            · exact mirrors.fsReference _ (first :: second :: third :: rest)
            · rfl
    · rfl

theorem Mirrors.parse (source : Source) :
    SameResult (parseEntityName other config current (image source))
      (parseEntityName reader config current source) := by
  unfold SameResult parseEntityName
  rw [mirrors.asString]
  cases reader.asString source with
  | some name => rfl
  | none =>
    dsimp only
    rw [mirrors.asList]
    cases reader.asList source with
    | none => rfl
    | some list =>
      have same : (parseList other config current (list.map image)).toOption =
        (parseList reader config current list).toOption := mirrors.list list
      simp only [map_some]
      -- What is logged is put behind either error.
      cases left : parseList other config current (list.map image) <;>
        cases right : parseList reader config current list <;>
        rw [left, right] at same <;> first | rfl | exact same

end

theorem mirrors_fromJson (jsonText : JsonValue → Str) (exprText : Expr → Str) :
    Mirrors (jsonReader jsonText) (exprReader exprText) Expr.fromJson := by
  have items : ∀ list : List JsonValue, Expr.fromJsonItems list = list.map Expr.fromJson := by
    intro list
    induction list with
    | nil => rfl
    | cons item rest step => rw [Expr.fromJsonItems, step, map_cons]
  have number : ∀ value : JsonNumber, ∃ double, Expr.fromJson (.number value) = .number double := by
    intro value
    cases value with
    | double value => exact ⟨value, rfl⟩
    | unsigned value => exact ⟨.ofNat value, rfl⟩
  refine ⟨fun source => ?_, fun source => ?_, fun source => ?_⟩
  all_goals
    cases source with
    | number value =>
      obtain ⟨double, same⟩ := number value
      rw [same]
      rfl
    | array list => first | rfl | exact congrArg some (items list)
    | _ => rfl

theorem parse_toJson (jsonText : JsonValue → Str) (created : IsCreated target)
    (isTarget : target.referenceType = .target)
    (binds : globalName config current.repository target.repository = some target.repository) :
    parseEntityName (jsonReader jsonText) config current target.toJson = .ok target := by
  have normal : NamedTarget.create target.repository target.module target.name .target = target := by
    cases target with
    | mk repository module name type =>
      cases isTarget
      exact congrArg (NamedTarget.mk repository · name .target) created.isNormal.stays
  have relative : lit "@" ≠ lit "./" := by decide
  have json : target.toJson = .array [.string (lit "@"), .string target.repository,
      .string target.module, .string target.name] := by
    rw [NamedTarget.toJson, isTarget]
    rfl
  rw [json]
  simp only [parseEntityName, jsonReader, parseList, parseEntityName3, if_neg relative, ↓reduceIte,
    parseEntityNameLocation, binds, normal]

/-- A reference to a target in a module relative to the current one. -/
def IsRelative (reader : Reader Source) (source : Source) (relmodule : Str) : Prop :=
  ∃ marker second third name, reader.asList source = some [marker, second, third] ∧
    reader.asString source = none ∧ reader.asString marker = some (lit "./") ∧
    reader.asString second = some relmodule ∧ reader.asString third = some name

theorem rejected_iff {source : Source} {relmodule : Str}
    (relative : IsRelative reader source relmodule) :
    (∃ messages, parseEntityName reader config current source = .error messages) ↔
      (lit "../").isPrefixOf (lexicallyNormal (append current.module relmodule)) = true := by
  obtain ⟨marker, second, third, name, list, noString, isMarker, isModule, isName⟩ := relative
  simp only [parseEntityName, noString, list, parseList, parseEntityName3, isMarker, ↓reduceIte,
    parseEntityNameRelative, isModule, isName]
  by_cases outside :
      (lit "../").isPrefixOf (lexicallyNormal (append current.module relmodule)) = true
  · simp [outside]
  · simp [outside]

/-- A reference is parsed into its repository: the module is normal, and a relative reference is
rejected exactly if it leads above the top. -/
structure ParsesInside (reader : Reader Source) (config : RepositoryConfig Precomputed Digest)
    (current : NamedTarget) (source : Source) : Prop where
  normal : ∀ target, parseEntityName reader config current source = .ok target →
    IsNormal target.module
  rejected : ∀ relmodule, IsRelative reader source relmodule →
    ((∃ messages, parseEntityName reader config current source = .error messages) ↔
      LeadsAbove current.module relmodule)

theorem parsesInside_iff (source : Source) : ParsesInside reader config current source ↔
      ∀ relmodule, IsRelative reader source relmodule →
        ¬ IsParentOfTop current.module relmodule := by
  constructor
  · intro inside relmodule relative
    have exact := inside.rejected relmodule relative
    rw [rejected_iff relative] at exact
    exact (outside_iff current.module relmodule).mp exact
  · intro notTop
    refine ⟨fun target parsed => (created_of_parse parsed).isNormal, fun relmodule relative => ?_⟩
    rw [rejected_iff relative]
    exact (outside_iff current.module relmodule).mpr (notTop relmodule relative)

end Parsing

/-! ## Entity names -/

/-- Names are parsed into their repository exactly if a relative module does not lead just to the
parent directory of the top; JSON and expressions are parsed alike, and a target is parsed again
from its JSON. -/
theorem entity_name_exact {Precomputed Digest : Type} (jsonText : JsonValue → Str)
    (exprText : Expr → Str) (config : RepositoryConfig Precomputed Digest)
    (current : NamedTarget) :
    (∀ source, ParsesInside (jsonReader jsonText) config current source ↔
      ∀ relmodule, IsRelative (jsonReader jsonText) source relmodule →
        ¬ IsParentOfTop current.module relmodule) ∧
    (∀ source, ParsesInside (exprReader exprText) config current source ↔
      ∀ relmodule, IsRelative (exprReader exprText) source relmodule →
        ¬ IsParentOfTop current.module relmodule) ∧
    (∀ source, SameResult (parseEntityName (exprReader exprText) config current (.fromJson source))
      (parseEntityName (jsonReader jsonText) config current source)) ∧
    ∀ target, IsCreated target → target.referenceType = .target →
      globalName config current.repository target.repository = some target.repository →
      parseEntityName (jsonReader jsonText) config current target.toJson = .ok target :=
  ⟨parsesInside_iff, parsesInside_iff, (mirrors_fromJson jsonText exprText).parse,
    fun _ created isTarget binds => parse_toJson jsonText created isTarget binds⟩

/-- A configuration without repositories. -/
def noRepositories {Precomputed Digest : Type} : RepositoryConfig Precomputed Digest where
  repos := []
  ordered := List.Pairwise.nil
  duplicates := none

theorem parent_of_top_accepted :
    LeadsAbove [] (lit "..") ∧
    parseEntityName (jsonReader fun _ => []) (@noRepositories Unit Unit)
        (.create [] [] [] .target) (.array [.string (lit "./"), .string (lit ".."),
          .string (lit "x")]) =
      .ok (.create [] [] (lit "x") .target) ∧
    ¬ ParsesInside (jsonReader fun _ => []) (@noRepositories Unit Unit)
        (.create [] [] [] .target) (.array [.string (lit "./"), .string (lit ".."),
          .string (lit "x")]) := by
  have above : LeadsAbove [] (lit "..") := by
    unfold LeadsAbove
    decide
  have parsed : parseEntityName (jsonReader fun _ => []) (@noRepositories Unit Unit)
      (.create [] [] [] .target) (.array [.string (lit "./"), .string (lit ".."),
        .string (lit "x")]) = .ok (.create [] [] (lit "x") .target) := by
    have module : normalModuleName [] = [] := by decide
    have text : lexicallyNormal (append [] (lit "..")) = up := by decide
    have top : normalModuleName up = [] := by decide
    have inside : (lit "../").isPrefixOf up = false := by decide
    simp [parseEntityName, jsonReader, parseList, parseEntityName3, parseEntityNameRelative,
      NamedTarget.create, module, text, top, inside]
  refine ⟨above, parsed, fun inside => ?_⟩
  have relative : IsRelative (jsonReader fun _ => []) (.array [.string (lit "./"),
      .string (lit ".."), .string (lit "x")]) (lit "..") :=
    ⟨_, _, _, _, rfl, rfl, rfl, rfl, rfl⟩
  have module : (NamedTarget.create [] [] [] .target).module = [] := by decide
  have rejected := (inside.rejected _ relative).mpr (by rwa [module])
  obtain ⟨messages, rejected⟩ := rejected
  rw [parsed] at rejected
  cases rejected

end Jst.Verif.EntityNames
