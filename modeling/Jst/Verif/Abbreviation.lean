import Jst.Utils.Json
/-!
# The abbreviation of JSON ends and fits

A cut that is deep enough is the whole text, which is too long when the loop begins. So the loop
ends, and the cut it returns fits if any does.
-/
namespace Jst.Verif.Abbreviation

open Jst.Json

variable {Number : Type} {text : Number → Option Str} {f : Json Number → Option Str}
  {items : List (Json Number)} {fields : List (Str × Json Number)}

theorem truncateItems_eq (same : ∀ item ∈ items, f item = dump text item) :
    truncateItems f items = dumpItems text true items := by
  induction items with
  | nil => rfl
  | cons item rest step =>
    obtain ⟨first, others⟩ := forall_mem_cons.mp same
    rw [truncateItems, dumpItems, first, step others]
    cases rest with
    | nil => rfl
    | cons next rest => simp [dumpItems, Option.bind_assoc]

theorem truncateFields_eq (same : ∀ field ∈ fields, f field.2 = dump text field.2) :
    truncateFields f fields = dumpFields text true fields := by
  induction fields with
  | nil => rfl
  | cons field rest step =>
    obtain ⟨first, others⟩ := forall_mem_cons.mp same
    rw [truncateFields, dumpFields, first, step others]
    cases rest with
    | nil => rfl
    | cons next rest => simp [dumpFields, Option.bind_assoc]

theorem truncateJson_eq {depth : Nat} {json : Json Number} (deep : sizeOf json ≤ depth) :
    truncateJson text depth json = dump text json := by
  induction depth generalizing json with
  | zero => cases json <;> simp at deep
  | succ depth step =>
    cases json with
    | array items =>
      rw [truncateJson, dump, truncateItems_eq fun item member => step ?_]
      have less := List.sizeOf_lt_of_mem member
      simp at deep
      omega
    | object fields =>
      rw [truncateJson, dump, truncateFields_eq fun field member => step ?_]
      have less := List.sizeOf_lt_of_mem member
      obtain ⟨key, value⟩ := field
      simp at deep less ⊢
      omega
    | null | bool value | number value | string value => rfl

theorem truncateItems_isSome {isFirst : Bool} (shows : (dumpItems text isFirst items).isSome)
    (each : ∀ item, (dump text item).isSome → (f item).isSome) : (truncateItems f items).isSome := by
  induction items generalizing isFirst with
  | nil => rfl
  | cons item rest step =>
    obtain ⟨all, shows⟩ := isSome_iff_exists.mp shows
    simp only [dumpItems, bind_eq_bind, bind_eq_some_iff] at shows
    obtain ⟨shown, first, more, others, -⟩ := shows
    obtain ⟨cut, first'⟩ := isSome_iff_exists.mp (each item (isSome_of_eq_some first))
    obtain ⟨cuts, others'⟩ := isSome_iff_exists.mp (step (isSome_of_eq_some others))
    simp [truncateItems, first', others']

theorem truncateFields_isSome {isFirst : Bool} (shows : (dumpFields text isFirst fields).isSome)
    (each : ∀ value, (dump text value).isSome → (f value).isSome) :
    (truncateFields f fields).isSome := by
  induction fields generalizing isFirst with
  | nil => rfl
  | cons field rest step =>
    obtain ⟨all, shows⟩ := isSome_iff_exists.mp shows
    simp only [dumpFields, bind_eq_bind, bind_eq_some_iff] at shows
    obtain ⟨name, key, shown, first, more, others, -⟩ := shows
    obtain ⟨cut, first'⟩ := isSome_iff_exists.mp (each field.2 (isSome_of_eq_some first))
    obtain ⟨cuts, others'⟩ := isSome_iff_exists.mp (step (isSome_of_eq_some others))
    simp [truncateFields, key, first', others']

theorem truncateJson_isSome {json : Json Number} (shows : (dump text json).isSome) (depth : Nat) :
    (truncateJson text depth json).isSome := by
  induction depth generalizing json with
  | zero => rfl
  | succ depth step =>
    cases json with
    | array items =>
      rw [dump, Option.isSome_map] at shows
      rw [truncateJson, Option.isSome_map]
      exact truncateItems_isSome shows fun _ => step
    | object fields =>
      rw [dump, Option.isSome_map] at shows
      rw [truncateJson, Option.isSome_map]
      exact truncateFields_isSome shows fun _ => step
    | null | bool value | number value | string value => exact shows

theorem abbreviateFrom_fits {truncate : Nat → Option Str} {len enough : Nat} {whole : Str}
    (long : len < whole.length) (deep : ∀ depth, enough ≤ depth → truncate depth = some whole)
    (shows : ∀ depth, (truncate depth).isSome) {turns depth before : Nat} {old new : Str}
    (left : enough ≤ depth + turns) (isOld : truncate before = some old)
    (isNew : truncate depth = some new) : ∃ result,
      (∀ extra, abbreviateFrom truncate len (turns + extra) depth old new = some (some result)) ∧
      (∃ cut, truncate cut = some result) ∧ (old.length ≤ len → result.length ≤ len) := by
  induction turns generalizing depth before old new with
  | zero =>
    have same : new = whole := some.inj (isNew.symm.trans (deep depth left))
    refine ⟨old, fun extra => ?_, ⟨before, isOld⟩, id⟩
    rw [← same] at long
    cases extra with
    | zero => rw [abbreviateFrom, if_neg (Nat.not_le.mpr long)]
    | succ extra => rw [Nat.zero_add, abbreviateFrom, if_neg (Nat.not_le.mpr long)]
  | succ turns step =>
    by_cases fits : new.length ≤ len
    · obtain ⟨next, isNext⟩ := isSome_iff_exists.mp (shows (depth + 1))
      obtain ⟨result, returned, cut, fits'⟩ := step (by omega) isNew isNext
      refine ⟨result, fun extra => ?_, cut, fun _ => fits' fits⟩
      rw [Nat.succ_add, abbreviateFrom, if_pos fits]
      simp only [isNext]
      exact returned extra
    · refine ⟨old, fun extra => ?_, ⟨before, isOld⟩, id⟩
      rw [Nat.succ_add, abbreviateFrom, if_neg fits]

/-- The abbreviation ends. If the value has a text, it is a cut of the value, and fits if the first
cut does. -/
theorem abbreviateJson_fits (text : Number → Option Str) (json : Json Number) (len : Nat) :
    ∃ turns result, (∀ extra, abbreviateJson text (turns + extra) json len = some result) ∧
      (result = none ↔ dump text json = none) ∧
      ∀ abbreviated, result = some abbreviated →
        (∃ depth, truncateJson text depth json = some abbreviated) ∧
        ∀ first, truncateJson text 1 json = some first → first.length ≤ len →
          abbreviated.length ≤ len := by
  cases whole : dump text json with
  | none => exact ⟨0, none, fun _ => by simp [abbreviateJson, whole], by simp, nofun⟩
  | some all =>
    by_cases short : all.length ≤ len
    · refine ⟨0, some all, fun _ => by simp [abbreviateJson, whole, short], by simp, ?_⟩
      rintro _ ⟨⟩
      exact ⟨⟨sizeOf json, (truncateJson_eq le_rfl).trans whole⟩, fun _ _ _ => short⟩
    · have shows := truncateJson_isSome (isSome_of_eq_some whole)
      obtain ⟨first, isFirst⟩ := isSome_iff_exists.mp (shows 1)
      obtain ⟨result, returned, cut, fits⟩ := abbreviateFrom_fits (Nat.not_le.mp short)
        (fun depth deep => (truncateJson_eq deep).trans whole) shows
        (Nat.le_add_left (sizeOf json) 1) isFirst isFirst
      refine ⟨sizeOf json, some result, fun extra => ?_, by simp, ?_⟩
      · simpa [abbreviateJson, whole, short, isFirst] using returned extra
      · rintro _ ⟨⟩
        refine ⟨cut, fun other isOther fits' => fits ?_⟩
        rwa [some.inj (isFirst.symm.trans isOther)]

end Jst.Verif.Abbreviation
