import Mathlib.Tactic.Common
import Jst.Storage.GarbageCollector
/-!
# Generations under garbage collection

At every moment of every sequence of garbage collections each directory of a generation holds one
former generation, in the order of their age, and only the oldest ones have left. The youngest
generation loses its ephemeral directory and is compactified first; apart from that nothing of a
generation changes.
-/
namespace Jst.Verif.GarbageCollection

open Jst.Interruptible Jst.Interruptible.Program Jst.Storage Jst.Storage.GarbageCollector
open Option (Rel)

variable {Content Ephemeral : Type}

variable {index : Nat} {other : CacheRoot Content Ephemeral}

/-- The generation is the former one, up to the loss of the ephemeral directory and what
compactification makes of its storages. -/
structure Tidied (compactified : Content → Content → Prop)
    (former current : Generation Content Ephemeral) : Prop where
  content : compactified former.content current.content
  ephemeral : current.ephemeral = former.ephemeral ∨ current.ephemeral = none

/-- The generation is the former one at an index; only the youngest may have been tidied. -/
structure Holds (compactified : Content → Content → Prop) (index : Nat)
    (former current : Generation Content Ephemeral) : Prop where
  tidied : Tidied compactified former current
  same : index ≠ 0 → current = former

/-- The generations have become older at most: each is a former one, they stand in the same order,
and those that have left were older than all that are there. -/
structure Aged (compactified : Content → Content → Prop) (numGenerations : Nat)
    (former current : CacheRoot Content Ephemeral) (origin : Nat → Nat) : Prop where
  holds : ∀ index < numGenerations, ∀ directory, current.generations index = some directory →
    origin index ≤ index ∧ ∃ whole, former.generations (origin index) = some whole ∧
      Holds compactified (origin index) whole directory
  ordered : ∀ older < numGenerations, ∀ younger < older,
    (current.generations younger).isSome → (current.generations older).isSome →
      origin younger < origin older
  leaves : ∀ index < numGenerations, (former.generations index).isSome →
    (∃ kept < numGenerations, (current.generations kept).isSome ∧ origin kept = index) ∨
      ∀ kept < numGenerations, (current.generations kept).isSome → origin kept < index

variable {compactified : Content → Content → Prop} {numGenerations : Nat}
  {root middle last : CacheRoot Content Ephemeral}

/-- A preorder on storages: what compactification makes of them again and again. -/
structure IsCompactification (compactified : Content → Content → Prop) : Prop where
  refl : ∀ content, compactified content content
  trans : ∀ {first second third}, compactified first second → compactified second third →
    compactified first third

section Aging

variable (laws : IsCompactification compactified)

include laws

theorem Tidied.refl (directory : Generation Content Ephemeral) :
    Tidied compactified directory directory := ⟨laws.refl _, .inl rfl⟩

theorem Tidied.trans {first second third : Generation Content Ephemeral}
    (before : Tidied compactified first second) (after : Tidied compactified second third) :
    Tidied compactified first third := by
  refine ⟨laws.trans before.content after.content, ?_⟩
  cases after.ephemeral with
  | inl kept => exact kept ▸ before.ephemeral
  | inr gone => exact .inr gone

theorem Holds.refl (index : Nat) (directory : Generation Content Ephemeral) :
    Holds compactified index directory directory := ⟨.refl laws directory, fun _ => rfl⟩

theorem Aged.refl (root : CacheRoot Content Ephemeral) :
    Aged compactified numGenerations root root id where
  holds := fun _ _ directory found => ⟨le_rfl, directory, found, .refl laws _ _⟩
  ordered := fun _ _ _ younger _ _ => younger
  leaves := fun index below present => .inl ⟨index, below, present, rfl⟩

theorem Aged.trans {first second : Nat → Nat}
    (before : Aged compactified numGenerations root middle first)
    (after : Aged compactified numGenerations middle last second) :
    Aged compactified numGenerations root last (first ∘ second) := by
  have earlier : ∀ {index}, index < numGenerations → (last.generations index).isSome →
      second index < numGenerations ∧ (middle.generations (second index)).isSome := by
    intro index below present
    obtain ⟨directory, found⟩ := isSome_iff_exists.mp present
    obtain ⟨younger, whole, found, -⟩ := after.holds index below directory found
    exact ⟨Nat.lt_of_le_of_lt younger below, isSome_of_eq_some found⟩
  constructor
  · intro index below directory found
    obtain ⟨younger, whole, between, inner⟩ := after.holds index below directory found
    obtain ⟨younger', whole', start, outer⟩ :=
      before.holds (second index) (Nat.lt_of_le_of_lt younger below) whole between
    refine ⟨Nat.le_trans younger' younger, whole', start, outer.tidied.trans laws inner.tidied, ?_⟩
    intro old
    have old' : first (second index) ≠ 0 := old
    rw [inner.same (by omega), outer.same old']
  · intro older below younger less present present'
    obtain ⟨-, presentYounger⟩ := earlier (Nat.lt_trans less below) present
    obtain ⟨belowOlder, presentOlder⟩ := earlier below present'
    have between := after.ordered older below younger less present present'
    exact before.ordered _ belowOlder _ between presentYounger presentOlder
  · intro index below present
    cases before.leaves index below present with
    | inl kept =>
      obtain ⟨kept, belowKept, presentKept, rfl⟩ := kept
      cases after.leaves kept belowKept presentKept with
      | inl found =>
        obtain ⟨final, belowFinal, presentFinal, rfl⟩ := found
        exact .inl ⟨final, belowFinal, presentFinal, rfl⟩
      | inr gone =>
        refine .inr fun other belowOther presentOther => ?_
        have between := earlier belowOther presentOther
        exact before.ordered kept belowKept _ (gone other belowOther presentOther) between.2
          presentKept
    | inr gone =>
      refine .inr fun other belowOther presentOther => ?_
      have between := earlier belowOther presentOther
      exact gone _ between.1 between.2

end Aging

section Steps

/-- Only the youngest generation has changed, and it has been tidied. -/
structure TidiesYoungest (compactified : Content → Content → Prop)
    (former current : CacheRoot Content Ephemeral) : Prop where
  youngest : Rel (Tidied compactified) (former.generations 0) (current.generations 0)
  older : ∀ index, index ≠ 0 → current.generations index = former.generations index

theorem TidiesYoungest.refl (laws : IsCompactification compactified)
    (same : last.generations = root.generations) : TidiesYoungest compactified root last := by
  constructor
  · rw [same]
    cases root.generations 0 with
    | none => exact .none
    | some directory => exact .some (.refl laws directory)
  · intro index _
    rw [same]

theorem TidiesYoungest.trans (laws : IsCompactification compactified)
    (before : TidiesYoungest compactified root middle)
    (after : TidiesYoungest compactified middle last) : TidiesYoungest compactified root last := by
  constructor
  · have first := before.youngest
    have second := after.youngest
    generalize root.generations 0 = former at first
    generalize middle.generations 0 = between at first second
    generalize last.generations 0 = current at second
    cases first with
    | none => cases second with | none => exact .none
    | some tidied => cases second with | some again => exact .some (tidied.trans laws again)
  · intro index old
    rw [after.older index old, before.older index old]

theorem TidiesYoungest.aged (laws : IsCompactification compactified)
    (tidies : TidiesYoungest compactified root last) :
    Aged compactified numGenerations root last id := by
  have present : ∀ index, (root.generations index).isSome = (last.generations index).isSome := by
    intro index
    by_cases youngest : index = 0
    · have tidied := tidies.youngest
      rw [youngest]
      generalize root.generations 0 = former at tidied
      generalize last.generations 0 = current at tidied
      cases tidied with
      | none => rfl
      | some _ => rfl
    · rw [tidies.older index youngest]
  constructor
  · intro index _ directory found
    refine ⟨le_rfl, ?_⟩
    by_cases youngest : index = 0
    · have tidied := tidies.youngest
      rw [youngest] at found
      rw [found] at tidied
      rw [id_eq, youngest]
      generalize root.generations 0 = former at tidied
      cases tidied with
      | some holds => exact ⟨_, rfl, holds, fun old => absurd rfl old⟩
    · rw [tidies.older index youngest] at found
      exact ⟨directory, found, .refl laws _ _⟩
  · exact fun _ _ _ younger _ _ => younger
  · intro index below there
    exact .inl ⟨index, below, present index ▸ there, rfl⟩

/-- The generations from an index on have been moved out. -/
def Cleared (numGenerations index : Nat) (former current : CacheRoot Content Ephemeral) : Prop :=
  ∀ other, current.generations other =
    if index ≤ other ∧ other < numGenerations then none else former.generations other

/-- The generations from an index on have been made older by one, and the oldest has been moved out.
-/
def Shifted (numGenerations index : Nat) (former current : CacheRoot Content Ephemeral) : Prop :=
  ∀ other, current.generations other =
    if other < index ∨ numGenerations ≤ other then former.generations other
    else if other = index then none else former.generations (other - 1)

theorem cleared_start (root : CacheRoot Content Ephemeral) :
    Cleared numGenerations numGenerations root root := by
  intro other
  rw [if_neg (by omega)]

theorem shifted_start (root : CacheRoot Content Ephemeral) :
    Shifted numGenerations numGenerations root root := by
  intro other
  rw [if_pos (by omega)]

theorem Cleared.aged (laws : IsCompactification compactified)
    (cleared : Cleared numGenerations index root last) :
    Aged compactified numGenerations root last id := by
  have there : ∀ {other}, other < numGenerations → (last.generations other).isSome →
      other < index ∧ last.generations other = root.generations other := by
    intro other below present
    have shape := cleared other
    by_cases gone : index ≤ other
    · rw [shape, if_pos ⟨gone, below⟩] at present
      cases present
    · rw [if_neg (by omega)] at shape
      exact ⟨by omega, shape⟩
  constructor
  · intro other below directory found
    have same := (there below (isSome_of_eq_some found)).2
    exact ⟨le_rfl, directory, same ▸ found, .refl laws _ _⟩
  · exact fun _ _ _ younger _ _ => younger
  · intro other below present
    by_cases gone : index ≤ other
    · exact .inr fun kept belowKept presentKept =>
        Nat.lt_of_lt_of_le (there belowKept presentKept).1 gone
    · have shape := cleared other
      rw [if_neg (by omega)] at shape
      exact .inl ⟨other, below, shape ▸ present, rfl⟩

/-- Where a generation comes from if those from an index on have been made older. -/
def shiftOrigin (index other : Nat) : Nat := if other ≤ index then other else other - 1

theorem Shifted.eq_origin {other : Nat} (shifted : Shifted numGenerations index root last)
    (below : other < numGenerations) (present : (last.generations other).isSome) :
    other ≠ index ∧ last.generations other = root.generations (shiftOrigin index other) := by
  have shape := shifted other
  unfold shiftOrigin
  by_cases before : other < index
  · rw [if_pos (.inl before)] at shape
    rw [if_pos (by omega)]
    exact ⟨by omega, shape⟩
  · rw [if_neg (by omega)] at shape
    by_cases at' : other = index
    · rw [if_pos at'] at shape
      rw [shape] at present
      cases present
    · rw [if_neg at'] at shape
      rw [if_neg (by omega)]
      exact ⟨at', shape⟩

theorem Shifted.kept {other : Nat} (shifted : Shifted numGenerations index root last)
    (below : other + 1 < numGenerations) :
    ∃ kept < numGenerations, (kept = other ∨ kept = other + 1) ∧ kept ≠ index ∧
      shiftOrigin index kept = other ∧ last.generations kept = root.generations other := by
  unfold shiftOrigin
  by_cases before : other < index
  · have shape := shifted other
    rw [if_pos (.inl before)] at shape
    exact ⟨other, by omega, .inl rfl, by omega, by rw [if_pos (by omega)], shape⟩
  · have shape := shifted (other + 1)
    rw [if_neg (by omega), if_neg (by omega), Nat.add_sub_cancel] at shape
    exact ⟨other + 1, below, .inr rfl, by omega, by rw [if_neg (by omega)]; omega, shape⟩

theorem Shifted.aged (laws : IsCompactification compactified)
    (shifted : Shifted numGenerations index root last) (inside : index ≤ numGenerations) :
    Aged compactified numGenerations root last (shiftOrigin index) := by
  have monotone : ∀ {younger older}, younger < older → younger ≠ index → older ≠ index →
      shiftOrigin index younger < shiftOrigin index older := by
    intro younger older less apart apart'
    unfold shiftOrigin
    split <;> split <;> omega
  constructor
  · intro other below directory found
    obtain ⟨-, same⟩ := shifted.eq_origin below (isSome_of_eq_some found)
    refine ⟨?_, directory, same ▸ found, .refl laws _ _⟩
    unfold shiftOrigin
    split <;> omega
  · intro older below younger less present present'
    exact monotone less (shifted.eq_origin (Nat.lt_trans less below) present).1
      (shifted.eq_origin below present').1
  · intro other below present
    by_cases oldest : other + 1 < numGenerations
    · obtain ⟨kept, belowKept, -, -, origin, same⟩ := shifted.kept oldest
      exact .inl ⟨kept, belowKept, same ▸ present, origin⟩
    · by_cases moved : index = numGenerations
      · have shape := shifted other
        rw [if_pos (.inl (by omega))] at shape
        exact .inl ⟨other, below, shape ▸ present, if_pos (by omega)⟩
      · refine .inr fun kept belowKept presentKept => ?_
        have apart := (shifted.eq_origin belowKept presentKept).1
        unfold shiftOrigin
        split <;> omega

end Steps

section Renames

variable {isEmpty : Removed Content Ephemeral → Bool} {name : RemoveMe}

theorem generations_addRemoveMe {entry : Removed Content Ephemeral}
    (success : CacheRoot.addRemoveMe isEmpty name entry root = some last) :
    last.generations = root.generations := by
  unfold CacheRoot.addRemoveMe at success
  cases found : root.findRemoveMe name with
  | none => rw [found] at success; cases success; rfl
  | some other =>
    rw [found] at success
    cases empty : isEmpty other with
    | false => simp only [empty, false_eq_true, if_false] at success; cases success
    | true => simp only [empty, if_true] at success; cases success; rfl

theorem generations_renameRemoveMe {old : RemoveMe}
    (success : CacheRoot.renameRemoveMe isEmpty old name root = some last) :
    last.generations = root.generations := by
  obtain ⟨entry, -, success⟩ := bind_eq_some_iff.mp success
  have same := generations_addRemoveMe success
  exact same

theorem tidies_removeEphemeral (laws : IsCompactification compactified)
    (success : CacheRoot.removeEphemeral isEmpty name root = some last) :
    TidiesYoungest compactified root last := by
  obtain ⟨youngest, found, success⟩ := bind_eq_some_iff.mp success
  obtain ⟨directory, -, success⟩ := bind_eq_some_iff.mp success
  have same := generations_addRemoveMe success
  constructor
  · rw [same, found, CacheRoot.generations_setGeneration, update_self]
    exact .some ⟨laws.refl _, .inr rfl⟩
  · intro index old
    rw [same, CacheRoot.generations_setGeneration, update_of_ne old]

theorem generations_removeGeneration
    (success : CacheRoot.removeGeneration isEmpty index name root = some last) :
    last.generations = update root.generations index none := by
  obtain ⟨whole, -, success⟩ := bind_eq_some_iff.mp success
  exact generations_addRemoveMe success

theorem generations_moveGeneration {target : Nat} (free : root.generations target = none)
    (success : CacheRoot.moveGeneration isEmpty index target root = some last) :
    last.generations = update (update root.generations index none) target
      (root.generations index) := by
  obtain ⟨whole, found, success⟩ := bind_eq_some_iff.mp success
  rw [free] at success
  cases success
  rw [found]
  rfl

variable {possible : Outcome Content → Prop} {always : CacheRoot Content Ephemeral → Prop}

theorem meets_rename {move : CacheRoot Content Ephemeral → Option (CacheRoot Content Ephemeral)}
    (here : always root) (moves : ∀ moved, move root = some moved → always moved) :
    Meets possible (rename move) root always fun granted current =>
      granted = true ∧ move root = some current ∨ granted = false ∧ current = root := by
  refine meets_ask here fun outcome _ => meets_read ?_
  cases moved : move root with
  | none => exact meets_pure here (.inr ⟨rfl, rfl⟩)
  | some next =>
    cases outcome.success with
    | false => exact meets_pure here (.inr ⟨rfl, rfl⟩)
    | true => exact meets_write (meets_pure (moves next moved) (.inl ⟨rfl, rfl⟩))

theorem meets_lock (here : always root) :
    Meets possible lock root always fun _ current => root = current := by
  refine meets_ask here fun outcome _ => ?_
  cases outcome.success with
  | false => exact meets_fail here
  | true => exact meets_pure here rfl

theorem meets_removeDirs (names : List RemoveMe) (here : always root)
    (stays : ∀ {current}, always current → ∀ {other}, other.generations = current.generations →
      always other) : Meets possible (removeDirs names) root always fun _ current =>
      current.generations = root.generations := by
  induction names generalizing root with
  | nil => exact meets_pure here rfl
  | cons name names step =>
    refine meets_read ?_
    cases present : (root.findRemoveMe name).isSome with
    | false => exact step here
    | true =>
      refine meets_ask here fun outcome _ => ?_
      cases outcome.success with
      | false => exact meets_bind (step here) fun _ _ here' same => meets_pure here' same
      | true => exact meets_write (step (stays here rfl))

theorem meets_takeLeftOver (owner : Str) (names : List RemoveMe) (counter : Nat)
    (toRemove : List RemoveMe) (here : always root)
    (stays : ∀ {current}, always current → ∀ {other}, other.generations = current.generations →
      always other) : Meets possible (takeLeftOver isEmpty owner names counter toRemove) root always
      fun _ current => current.generations = root.generations := by
  induction names generalizing root counter toRemove with
  | nil => exact meets_pure here rfl
  | cons name names step =>
    refine meets_bind (meets_rename here fun moved renamed =>
      stays here (generations_renameRemoveMe renamed)) fun granted middle here' done => ?_
    have same : middle.generations = root.generations := by
      rcases done with ⟨-, renamed⟩ | ⟨-, rfl⟩
      · exact generations_renameRemoveMe renamed
      · rfl
    cases granted with
    | false => exact (step _ _ here').mono (fun _ => id) fun _ _ last => last.trans same
    | true => exact (step _ _ here').mono (fun _ => id) fun _ _ last => last.trans same

end Renames

section Runs

variable {isEmpty : Removed Content Ephemeral → Bool} {settings : Settings}

/-- What the renaming of generations has done when those below an index are left. -/
def Moved (settings : Settings) (numGenerations index : Nat)
    (former current : CacheRoot Content Ephemeral) : Prop :=
  match settings.gcAll, settings.noRotation with
  | true, _ => Cleared numGenerations index former current
  | false, false => Shifted numGenerations index former current
  | false, true => current.generations = former.generations

/-- What a collection does: the youngest generation is tidied, then generations are renamed. -/
def Passes (compactified : Content → Content → Prop) (settings : Settings) (numGenerations : Nat)
    (former current : CacheRoot Content Ephemeral) : Prop :=
  ∃ tidied, TidiesYoungest compactified former tidied ∧
    ∃ index ≤ numGenerations, Moved settings numGenerations index tidied current

theorem moved_start (settings : Settings) {former current : CacheRoot Content Ephemeral}
    (same : current.generations = former.generations) :
    Moved settings numGenerations numGenerations former current := by
  unfold Moved Cleared Shifted
  rw [same]
  split
  · exact cleared_start former
  · exact shifted_start former
  · rfl

theorem Moved.congr (moved : Moved settings numGenerations index root last)
    (same : other.generations = last.generations) :
    Moved settings numGenerations index root other := by
  unfold Moved Cleared Shifted at moved ⊢
  rw [same]
  exact moved

theorem Passes.congr (passes : Passes compactified settings numGenerations root last)
    (same : other.generations = last.generations) :
    Passes compactified settings numGenerations root other := by
  obtain ⟨tidied, tidies, index, inside, moved⟩ := passes
  exact ⟨tidied, tidies, index, inside, moved.congr same⟩

theorem TidiesYoungest.passes (tidies : TidiesYoungest compactified root last) :
    Passes compactified settings numGenerations root last :=
  ⟨last, tidies, numGenerations, le_rfl, moved_start settings rfl⟩

variable {possible : Outcome Content → Prop} {always : CacheRoot Content Ephemeral → Prop}

theorem meets_takeEphemeral (laws : IsCompactification compactified) (owner : Str) (counter : Nat)
    (toRemove : List RemoveMe) (tidies : TidiesYoungest compactified root middle) :
    Meets possible (takeEphemeral isEmpty owner counter toRemove) middle
      (TidiesYoungest compactified root) fun _ => TidiesYoungest compactified root := by
  refine meets_read ?_
  split
  · refine meets_bind (meets_rename tidies fun moved renamed =>
      tidies.trans laws (tidies_removeEphemeral laws renamed)) fun granted current tidies' _ => ?_
    cases granted with
    | false => exact meets_pure tidies' tidies'
    | true => exact meets_pure tidies' tidies'
  · exact meets_pure tidies tidies

theorem meets_compactify (laws : IsCompactification compactified)
    (possible_iff : ∀ outcome, possible outcome →
      ∀ content, compactified content (outcome.compactified content))
    (tidies : TidiesYoungest compactified root middle) :
    Meets possible compactify middle (TidiesYoungest compactified root)
      fun _ => TidiesYoungest compactified root := by
  refine meets_ask tidies fun outcome allowed => meets_read (meets_write ?_)
  have done : TidiesYoungest compactified root (middle.setGeneration 0
      ((middle.generations 0).map fun youngest =>
        { youngest with content := outcome.compactified youngest.content })) := ?_
  · exact meets_pure done done
  refine tidies.trans laws ⟨?_, fun index old => ?_⟩
  · rw [CacheRoot.generations_setGeneration, update_self]
    cases middle.generations 0 with
    | none => exact .none
    | some youngest => exact .some ⟨possible_iff outcome allowed _, .inl rfl⟩
  · rw [CacheRoot.generations_setGeneration, update_of_ne old]

theorem meets_removeAll (owner : Str) (inside : index ≤ numGenerations) (counter : Nat)
    (toRemove : List RemoveMe) (cleared : Cleared numGenerations index root middle) :
    Meets possible (removeAll isEmpty owner index counter toRemove) middle
      (fun current => ∃ index ≤ numGenerations, Cleared numGenerations index root current)
      fun _ current => Cleared numGenerations 0 root current := by
  induction index generalizing middle counter toRemove with
  | zero => exact meets_pure ⟨0, inside, cleared⟩ cleared
  | succ index step =>
    have next : ∀ {current : CacheRoot Content Ephemeral},
        current.generations = update middle.generations index none →
        Cleared numGenerations index root current := by
      intro current same other
      rw [same]
      have shape := cleared other
      by_cases here : other = index
      · rw [here, update_self, if_pos (by omega)]
      · rw [update_of_ne here, shape]
        by_cases gone : index ≤ other ∧ other < numGenerations
        · rw [if_pos gone, if_pos (by omega)]
        · rw [if_neg gone, if_neg (by omega)]
    refine meets_read ?_
    cases present : middle.generations index with
    | none =>
      refine step (Nat.le_of_succ_le inside) _ _ (next ?_)
      rw [← present, update_eq_self]
    | some directory =>
      refine meets_bind (meets_rename ⟨index + 1, inside, cleared⟩ fun moved renamed =>
        ⟨index, Nat.le_of_succ_le inside, next (generations_removeGeneration renamed)⟩)
        fun granted current here done => ?_
      rcases done with ⟨rfl, renamed⟩ | ⟨rfl, -⟩
      · exact step (Nat.le_of_succ_le inside) _ _ (next (generations_removeGeneration renamed))
      · exact meets_fail here

theorem meets_rotate (name : RemoveMe) (inside : index ≤ numGenerations)
    (shifted : Shifted numGenerations index root middle) :
    Meets possible (rotate isEmpty numGenerations name index) middle
      (fun current => ∃ index ≤ numGenerations, Shifted numGenerations index root current)
      fun _ current => Shifted numGenerations 0 root current := by
  induction index generalizing middle with
  | zero => exact meets_pure ⟨0, inside, shifted⟩ shifted
  | succ index step =>
    have own : middle.generations index = root.generations index := by
      have shape := shifted index
      rwa [if_pos (by omega)] at shape
    have next : ∀ {current : CacheRoot Content Ephemeral},
        (∀ other, current.generations other = if other = index then none
          else if other = index + 1 ∧ other < numGenerations then root.generations index
          else middle.generations other) →
        Shifted numGenerations index root current := by
      intro current same other
      have shape := shifted other
      rw [same]
      by_cases here : other = index
      · rw [if_pos here, if_neg (by omega), if_pos here]
      · rw [if_neg here]
        by_cases above : other = index + 1 ∧ other < numGenerations
        · rw [if_pos above, if_neg (by omega), if_neg here, above.1, Nat.add_sub_cancel]
        · rw [if_neg above, shape]
          by_cases outside : other < index ∨ numGenerations ≤ other
          · rw [if_pos (by omega), if_pos outside]
          · rw [if_neg (by omega), if_neg (by omega), if_neg outside, if_neg here]
    have free : index + 1 < numGenerations → middle.generations (index + 1) = none := by
      intro below
      have shape := shifted (index + 1)
      rwa [if_neg (by omega), if_pos rfl] at shape
    have less := Nat.le_of_succ_le inside
    refine meets_read ?_
    cases present : middle.generations index with
    | none =>
      refine step less (next fun other => ?_)
      by_cases here : other = index
      · rw [if_pos here, here, present]
      · rw [if_neg here]
        by_cases above : other = index + 1 ∧ other < numGenerations
        · rw [if_pos above, ← own, present, above.1, free (above.1 ▸ above.2)]
        · rw [if_neg above]
    | some directory =>
      have renames : ∀ {moved : CacheRoot Content Ephemeral},
          (if index + 1 = numGenerations then CacheRoot.removeGeneration isEmpty index name
            else CacheRoot.moveGeneration isEmpty index (index + 1)) middle = some moved →
          Shifted numGenerations index root moved := by
        intro moved renamed
        refine next fun other => ?_
        by_cases oldest : index + 1 = numGenerations
        · rw [if_pos oldest] at renamed
          rw [generations_removeGeneration renamed]
          by_cases here : other = index
          · rw [if_pos here, here, update_self]
          · rw [if_neg here, if_neg (by omega), update_of_ne here]
        · rw [if_neg oldest] at renamed
          rw [generations_moveGeneration (free (by omega)) renamed]
          by_cases above : other = index + 1
          · rw [if_neg (by omega), if_pos (by omega), above, update_self, own]
          · rw [update_of_ne above]
            by_cases here : other = index
            · rw [if_pos here, here, update_self]
            · rw [if_neg here, if_neg (by omega), update_of_ne here]
      refine meets_bind (meets_rename ⟨index + 1, inside, shifted⟩ fun moved renamed =>
        ⟨index, less, renames renamed⟩) fun granted current here done => ?_
      rcases done with ⟨rfl, renamed⟩ | ⟨rfl, -⟩
      · exact step less (renames renamed)
      · exact meets_fail here

/-- What a completed collection has done: all generations that are to be renamed have been. -/
def Completes (compactified : Content → Content → Prop) (settings : Settings)
    (numGenerations : Nat) (former current : CacheRoot Content Ephemeral) : Prop :=
  ∃ tidied, TidiesYoungest compactified former tidied ∧
    Moved settings numGenerations 0 tidied current

theorem Completes.congr (completes : Completes compactified settings numGenerations root last)
    (same : other.generations = last.generations) :
    Completes compactified settings numGenerations root other := by
  obtain ⟨tidied, tidies, moved⟩ := completes
  exact ⟨tidied, tidies, moved.congr same⟩

theorem meets_moveGenerations (owner : Str) (counter : Nat) (toRemove : List RemoveMe)
    (tidies : TidiesYoungest compactified root middle) :
    Meets possible (moveGenerations isEmpty numGenerations settings owner counter toRemove) middle
      (Passes compactified settings numGenerations root)
      fun _ current => Completes compactified settings numGenerations root current := by
  unfold moveGenerations Passes Completes Moved
  cases settings.gcAll with
  | true =>
    refine (meets_removeAll owner le_rfl counter toRemove (cleared_start middle)).mono
      (fun current here => ⟨middle, tidies, here⟩) fun _ current done => ⟨middle, tidies, done⟩
  | false =>
    cases settings.noRotation with
    | true => exact meets_pure ⟨middle, tidies, 0, Nat.zero_le _, rfl⟩ ⟨middle, tidies, rfl⟩
    | false =>
      refine meets_bind ((meets_rotate _ le_rfl (shifted_start middle)).mono
        (fun current here => ⟨middle, tidies, here⟩) fun _ current => id)
        fun _ current here done => meets_pure here ⟨middle, tidies, done⟩

theorem meets_triggerGarbageCollection (laws : IsCompactification compactified)
    (possible_iff : ∀ outcome, possible outcome →
      ∀ content, compactified content (outcome.compactified content))
    (root : CacheRoot Content Ephemeral) :
    Meets possible (triggerGarbageCollection isEmpty numGenerations settings) root
      (Passes compactified settings numGenerations root)
      fun _ current => Completes compactified settings numGenerations root current := by
  have start : Passes compactified settings numGenerations root root :=
    (TidiesYoungest.refl laws rfl).passes
  have stays : ∀ {current : CacheRoot Content Ephemeral},
      Passes compactified settings numGenerations root current →
      ∀ {other : CacheRoot Content Ephemeral}, other.generations = current.generations →
        Passes compactified settings numGenerations root other := fun passes => passes.congr
  unfold triggerGarbageCollection
  split
  · exact meets_fail start
  · cases settings.processId with
    | none => exact meets_fail start
    | some owner =>
      refine meets_bind (meets_lock start) fun _ _ _ same => ?_
      subst same
      refine meets_read (meets_bind (meets_removeDirs _ start stays) fun removed current here same =>
        ?_)
      cases removed with
      | false => exact meets_fail here
      | true =>
        refine meets_bind (meets_lock here) fun _ _ _ same' => ?_
        subst same'
        refine meets_read (meets_bind (meets_takeLeftOver owner _ _ _ here stays)
          fun taken current' here' same' => ?_)
        have tidies : TidiesYoungest compactified root current' := .refl laws (same'.trans same)
        refine meets_bind ((meets_takeEphemeral laws owner taken.1 taken.2 tidies).mono
          (fun _ => TidiesYoungest.passes) fun _ _ => id) fun taken' current'' _ tidies' => ?_
        have compacts : Meets possible (failsToCompactify settings.gcAll) current''
            (TidiesYoungest compactified root) fun _ => TidiesYoungest compactified root := by
          cases settings.gcAll with
          | true => exact meets_pure tidies' tidies'
          | false =>
            exact meets_bind (meets_compactify laws possible_iff tidies')
              fun _ _ here done => meets_pure here done
        refine meets_bind (compacts.mono (fun _ => TidiesYoungest.passes) fun _ _ => id)
          fun fails last _ tidies'' => ?_
        cases fails with
        | true => exact meets_fail tidies''.passes
        | false =>
          refine meets_bind (meets_moveGenerations owner taken'.1 taken'.2 tidies'')
            fun toRemove moved here done => ?_
          refine meets_bind (meets_lock here) fun _ _ _ same => ?_
          subst same
          refine (meets_removeDirs toRemove here stays).mono (fun _ => id) fun _ final same => ?_
          exact done.congr same

end Runs

section Sequences

/-- An outcome whose compactification is possible. -/
def IsPossible (compactified : Content → Content → Prop) (outcome : Outcome Content) : Prop :=
  ∀ content, compactified content (outcome.compactified content)

/-- A collection in any mode, which may be stopped anywhere, leads from one state to another. -/
def Collects (compactified : Content → Content → Prop)
    (isEmpty : Removed Content Ephemeral → Bool) (numGenerations : Nat)
    (former current : CacheRoot Content Ephemeral) : Prop :=
  ∃ settings outcomes, (∀ outcome ∈ outcomes, IsPossible compactified outcome) ∧
    (triggerGarbageCollection isEmpty numGenerations settings outcomes former).2 = current

variable {isEmpty : Removed Content Ephemeral → Bool} {settings : Settings}

theorem Passes.aged (laws : IsCompactification compactified)
    (passes : Passes compactified settings numGenerations root last) :
    ∃ origin, Aged compactified numGenerations root last origin := by
  obtain ⟨tidied, tidies, index, inside, moved⟩ := passes
  have before : Aged compactified numGenerations root tidied id := tidies.aged laws
  unfold Moved at moved
  split at moved
  · exact ⟨_, before.trans laws (moved.aged laws)⟩
  · exact ⟨_, before.trans laws (Shifted.aged laws moved inside)⟩
  · exact ⟨_, before.trans laws ((TidiesYoungest.refl laws moved).aged laws)⟩

theorem TidiesYoungest.holds (laws : IsCompactification compactified)
    (tidies : TidiesYoungest compactified root last) (index : Nat) :
    Rel (Holds compactified index) (root.generations index) (last.generations index) := by
  by_cases youngest : index = 0
  · have tidied := tidies.youngest
    rw [youngest]
    generalize root.generations 0 = former at tidied
    generalize last.generations 0 = current at tidied
    cases tidied with
    | none => exact .none
    | some holds => exact .some ⟨holds, fun old => absurd rfl old⟩
  · rw [tidies.older index youngest]
    cases root.generations index with
    | none => exact .none
    | some directory => exact .some (.refl laws _ _)

theorem Passes.kept (laws : IsCompactification compactified)
    (passes : Passes compactified settings numGenerations root last)
    (some' : settings.gcAll = false) (below : index + 1 < numGenerations) :
    ∃ kept < numGenerations, (kept = index ∨ kept = index + 1) ∧
      Rel (Holds compactified index) (root.generations index) (last.generations kept) := by
  obtain ⟨tidied, tidies, place, inside, moved⟩ := passes
  have holds := tidies.holds laws index
  unfold Moved at moved
  rw [some'] at moved
  cases rotates : settings.noRotation with
  | true =>
    rw [rotates] at moved
    refine ⟨index, by omega, .inl rfl, ?_⟩
    have same : last.generations = tidied.generations := moved
    rw [same]
    exact holds
  | false =>
    rw [rotates] at moved
    obtain ⟨kept, belowKept, where', -, -, same⟩ := Shifted.kept moved below
    exact ⟨kept, belowKept, where', same ▸ holds⟩

theorem Completes.rotated (laws : IsCompactification compactified)
    (completes : Completes compactified settings numGenerations root last)
    (some' : settings.gcAll = false) (rotates : settings.noRotation = false)
    (positive : 0 < numGenerations) :
    last.generations 0 = none ∧ ∀ index, index + 1 < numGenerations →
      Rel (Holds compactified index) (root.generations index) (last.generations (index + 1)) := by
  obtain ⟨tidied, tidies, moved⟩ := completes
  unfold Moved at moved
  rw [some', rotates] at moved
  have shifted : Shifted numGenerations 0 tidied last := moved
  constructor
  · rw [shifted 0, if_neg (by omega), if_pos rfl]
  · intro index below
    rw [shifted (index + 1), if_neg (by omega), if_neg (by omega), Nat.add_sub_cancel]
    exact tidies.holds laws index

/-- In every sequence of collections, stopped wherever they may be, generations become older at
most; they stay whole and in order, up to the tidying of the youngest one; those that have left were
older than all that are there. Unless everything is removed, a collection moves out the oldest one
only; a completed rotation leaves every other one a place further and no youngest one. -/
theorem generations_age (laws : IsCompactification compactified)
    (isEmpty : Removed Content Ephemeral → Bool) (numGenerations : Nat)
    (root current : CacheRoot Content Ephemeral)
    (reached : Relation.ReflTransGen (Collects compactified isEmpty numGenerations) root current) :
    (∃ origin, Aged compactified numGenerations root current origin) ∧
    ∀ settings outcomes, (∀ outcome ∈ outcomes, IsPossible compactified outcome) →
      settings.gcAll = false →
      (∀ index, index + 1 < numGenerations →
        ∃ kept < numGenerations, (kept = index ∨ kept = index + 1) ∧
          Rel (Holds compactified index) (current.generations index)
            ((triggerGarbageCollection isEmpty numGenerations settings outcomes
              current).2.generations kept)) ∧
      ((∃ result, (triggerGarbageCollection isEmpty numGenerations settings outcomes current).1 =
          .ok result) → settings.noRotation = false → 0 < numGenerations →
        (triggerGarbageCollection isEmpty numGenerations settings outcomes
          current).2.generations 0 = none ∧
        ∀ index, index + 1 < numGenerations →
          Rel (Holds compactified index) (current.generations index)
            ((triggerGarbageCollection isEmpty numGenerations settings outcomes
              current).2.generations (index + 1))) := by
  have collects : ∀ (settings : Settings) (start : CacheRoot Content Ephemeral),
      Meets (IsPossible compactified) (triggerGarbageCollection isEmpty numGenerations settings)
        start (Passes compactified settings numGenerations start)
        fun _ last => Completes compactified settings numGenerations start last :=
    fun settings start => meets_triggerGarbageCollection laws (fun _ possible => possible) start
  constructor
  · induction reached with
    | refl => exact ⟨id, .refl laws root⟩
    | tail _ step before =>
      obtain ⟨origin, before⟩ := before
      obtain ⟨settings, outcomes, possible, rfl⟩ := step
      obtain ⟨origin', after⟩ := (collects settings _ outcomes possible).1.aged laws
      exact ⟨_, before.trans laws after⟩
  · intro settings outcomes possible some'
    obtain ⟨passes, returns⟩ := collects settings current outcomes possible
    refine ⟨fun index below => passes.kept laws some' below, ?_⟩
    rintro ⟨⟨result, rest⟩, returned⟩ rotates positive
    exact (returns result rest returned).2.rotated laws some' rotates positive

/-- Two generations, of which the younger has an ephemeral directory. -/
def twoGenerations : CacheRoot Nat Unit where
  generations := fun index =>
    if index = 0 then some ⟨7, some ()⟩ else if index = 1 then some ⟨5, none⟩ else none
  removeMe := []

/-- Requests that are all granted; compactification changes nothing. -/
def granted (count : Nat) : List (Outcome Nat) := replicate count ⟨true, id⟩

/-- A rotation that is not stopped. -/
def rotation : Settings := ⟨some (lit "1-1"), false, false⟩

theorem twoGenerations_age :
    (triggerGarbageCollection (fun _ => false) 2 rotation (granted 9)
      twoGenerations).2.generations 0 = none ∧
    Rel (Holds (fun _ _ => True) 0) (twoGenerations.generations 0)
      ((triggerGarbageCollection (fun _ => false) 2 rotation (granted 9)
        twoGenerations).2.generations 1) := by
  have laws : IsCompactification fun _ _ : Nat => True := ⟨fun _ => trivial, fun _ _ => trivial⟩
  have ages := (generations_age laws (fun _ => false) 2 twoGenerations twoGenerations .refl).2
    rotation (granted 9) (fun _ _ _ => trivial) rfl
  have rotated := ages.2 ⟨(true, []), rfl⟩ rfl (by decide)
  exact ⟨rotated.1, rotated.2 0 (by decide)⟩

theorem ephemeral_leaves :
    ∃ outcomes directory, (triggerGarbageCollection (fun _ => false) 2 rotation outcomes
        twoGenerations).2.generations 0 = some directory ∧
      ∀ index < 2, twoGenerations.generations index ≠ some directory :=
  ⟨granted 3, ⟨7, none⟩, by decide, by decide⟩

end Sequences

end Jst.Verif.GarbageCollection
