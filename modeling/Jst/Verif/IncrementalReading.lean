import Jst.Utils.IncrementalReader
/-!
# Chunks from files and from memory

Both sources deliver the same chunks, except at the one offset that is neither within the content
nor the end: the offset that is the size of the content. There a file delivers an empty chunk, and
memory an error, unless the content is empty.
-/
namespace Jst.Verif.IncrementalReading

open IncrementalReader

/-- What an iteration delivers in the end. -/
def Delivers (reader : Reader) (offset : Nat) (chunks : List Str) : Prop :=
  ∃ enough, ∀ depth, enough ≤ depth →
    reader.iterate depth (reader.makeIterator offset) = some (chunks.map some)

/-- What reading in chunks is for: a file and memory deliver the same chunks, which make up the
content from the offset on, all but the last of the size of a chunk, and from the beginning at least
one. -/
def ReadsWell (maxSize chunkSize : Nat) (content : Str) (offset : Nat) : Prop :=
  ∃ file memory chunks, fromFile maxSize chunkSize content = some file ∧
    fromMemory chunkSize content = some memory ∧ Delivers file offset chunks ∧
    Delivers memory offset chunks ∧ chunks.flatten = content.drop offset ∧
    (∀ chunk ∈ chunks.dropLast, chunk.length = chunkSize) ∧
    (∀ chunk ∈ chunks, chunk.length ≤ chunkSize) ∧ (offset = 0 → chunks ≠ [])

section

variable {maxSize chunkSize : Nat} {content : Str}

/-- A reader of the content. -/
def reader (chunkSize : Nat) (content : Str) (source : ContentSource) (bufferSize : Nat) : Reader :=
  ⟨chunkSize, content.length, source, content, bufferSize⟩

section

variable (source : ContentSource) (bufferSize : Nat) (bounded : content.length < 2 ^ 63)
include source bufferSize bounded

theorem end_eq : (reader chunkSize content source bufferSize).end' = content.length + 1 ∧
      (reader chunkSize content source bufferSize).getEndOffset = content.length + 1 := by
  have same : (reader chunkSize content source bufferSize).getEndOffset = content.length + 1 := by
    change (content.length + 1) % 2 ^ 64 = content.length + 1
    exact Nat.mod_eq_of_lt (by omega)
  exact ⟨by rw [Reader.end', Reader.makeIterator, min_self, same], same⟩

theorem next_eq {offset : Nat} (small : chunkSize < 2 ^ 63) (inside : offset ≤ content.length) :
    (reader chunkSize content source bufferSize).next offset =
      if content.length ≤ offset + chunkSize then content.length + 1 else offset + chunkSize := by
  have step : (offset + chunkSize) % 2 ^ 64 = offset + chunkSize := Nat.mod_eq_of_lt (by omega)
  have stop := (@end_eq chunkSize content source bufferSize bounded).2
  change (if content.length ≤ (offset + chunkSize) % 2 ^ 64
    then (reader chunkSize content source bufferSize).getEndOffset
    else (offset + chunkSize) % 2 ^ 64) = _
  rw [step, stop]

theorem iterate_end (depth : Nat) :
    (reader chunkSize content source bufferSize).iterate (depth + 1) (content.length + 1) =
      some [] := by
  rw [Reader.iterate, (end_eq source bufferSize bounded).1, if_pos rfl]

theorem iterate_before (small : chunkSize < 2 ^ 63) {depth offset : Nat}
    (inside : offset ≤ content.length) :
    (reader chunkSize content source bufferSize).iterate (depth + 1) offset =
      ((reader chunkSize content source bufferSize).iterate depth
        (if content.length ≤ offset + chunkSize then content.length + 1
          else offset + chunkSize)).map
        ((reader chunkSize content source bufferSize).readChunk offset :: ·) := by
  rw [Reader.iterate, (end_eq source bufferSize bounded).1, if_neg (by omega),
    next_eq source bufferSize bounded small inside]

end

theorem readChunk_eq (bounded : content.length < 2 ^ 63) {offset : Nat}
    (inside : offset < content.length) :
    (reader chunkSize content .file chunkSize).readChunk offset =
        some ((content.drop offset).take chunkSize) ∧
      (reader chunkSize content .memory 0).readChunk offset =
        some ((content.drop offset).take chunkSize) := by
  constructor
  · change (if 2 ^ 63 ≤ offset then none else some ((content.drop offset).take chunkSize)) = _
    rw [if_neg (by omega)]
  · have nonempty : content.isEmpty = false := by
      cases content with
      | nil => cases inside
      | cons => rfl
    change (if content.isEmpty = true then some []
      else if content.length ≤ offset then none
      else some ((content.drop offset).take (min chunkSize (content.length - offset)))) = _
    rw [nonempty, if_neg false_ne_true, if_neg (by omega)]
    rw [← length_drop, ← List.take_eq_take_min]

theorem iterate_inside (bounded : content.length < 2 ^ 63) (small : chunkSize < 2 ^ 63)
    (positive : 0 < chunkSize) (left : Nat) {offset : Nat} (inside : offset < content.length)
    (enough : content.length - offset ≤ left) : ∃ chunks, (∀ depth, left + 2 ≤ depth →
        (reader chunkSize content .file chunkSize).iterate depth offset = some (chunks.map some) ∧
        (reader chunkSize content .memory 0).iterate depth offset = some (chunks.map some)) ∧
      chunks ≠ [] ∧ chunks.flatten = content.drop offset ∧
      (∀ chunk ∈ chunks.dropLast, chunk.length = chunkSize) ∧
      ∀ chunk ∈ chunks, chunk.length ≤ chunkSize := by
  induction left generalizing offset with
  | zero => omega
  | succ left step =>
    obtain ⟨fromFile, fromMemory⟩ := @readChunk_eq chunkSize content bounded offset inside
    have size : ((content.drop offset).take chunkSize).length ≤ chunkSize := by
      rw [length_take]
      omega
    by_cases last : content.length ≤ offset + chunkSize
    · refine ⟨[(content.drop offset).take chunkSize], fun depth large => ?_, by simp, ?_, by simp, ?_⟩
      · obtain ⟨depth, rfl⟩ := Nat.exists_eq_add_of_le' (show 2 ≤ depth by omega)
        constructor
        · rw [iterate_before _ _ bounded small (Nat.le_of_lt inside), if_pos last,
            iterate_end _ _ bounded, fromFile]
          rfl
        · rw [iterate_before _ _ bounded small (Nat.le_of_lt inside), if_pos last,
            iterate_end _ _ bounded, fromMemory]
          rfl
      · rw [List.flatten_singleton, List.take_of_length_le]
        rw [length_drop]
        omega
      · intro chunk member
        cases mem_singleton.mp member
        exact size
    · obtain ⟨chunks, ran, some, whole, full, short⟩ := @step (offset + chunkSize) (by omega) (by omega)
      refine ⟨(content.drop offset).take chunkSize :: chunks, fun depth large => ?_, by simp, ?_, ?_,
        ?_⟩
      · obtain ⟨depth, rfl⟩ := Nat.exists_eq_add_of_le' (show 1 ≤ depth by omega)
        obtain ⟨file, memory⟩ := ran depth (by omega)
        constructor
        · rw [iterate_before _ _ bounded small (Nat.le_of_lt inside), if_neg last, file, fromFile]
          rfl
        · rw [iterate_before _ _ bounded small (Nat.le_of_lt inside), if_neg last, memory, fromMemory]
          rfl
      · rw [List.flatten_cons, whole, ← List.drop_drop, List.take_append_drop]
      · intro chunk member
        rw [List.dropLast_cons_of_ne_nil some] at member
        cases mem_cons.mp member with
        | inl here =>
          rw [here, length_take, length_drop]
          omega
        | inr later => exact full chunk later
      · intro chunk member
        cases mem_cons.mp member with
        | inl here => exact here ▸ size
        | inr later => exact short chunk later

end

/-- Reading in chunks works exactly if the buffer for a chunk is no longer than a string can be, and
the offset is not the size of a content that is not empty. -/
theorem readsWell_iff {maxSize chunkSize : Nat} {content : Str} {offset : Nat}
    (strings : maxSize < 2 ^ 63) (bounded : content.length ≤ maxSize) (positive : 0 < chunkSize) :
    ReadsWell maxSize chunkSize content offset ↔
      chunkSize ≤ maxSize ∧ ¬(offset = content.length ∧ content ≠ []) := by
  have short : content.length < 2 ^ 63 := by omega
  have some_ : chunkSize ≠ 0 := by omega
  have memory_eq : fromMemory chunkSize content = some (reader chunkSize content .memory 0) := by
    rw [fromMemory, if_neg some_]
    rfl
  constructor
  · rintro ⟨file, memory, chunks, isFile, isMemory, _, delivers, _⟩
    constructor
    · by_contra large
      rw [fromFile, if_neg some_, if_pos (by omega)] at isFile
      cases isFile
    · rintro ⟨rfl, nonempty⟩
      rw [memory_eq] at isMemory
      cases isMemory
      obtain ⟨enough, ran⟩ := delivers
      have start : (reader chunkSize content .memory 0).makeIterator content.length =
          content.length := by
        rw [Reader.makeIterator, (end_eq _ _ short).2]
        omega
      have fails : (reader chunkSize content .memory 0).readChunk content.length = none := by
        change (if content.isEmpty = true then some []
          else if content.length ≤ content.length then none else _) = none
        rw [if_neg (by simpa using nonempty), if_pos (le_refl _)]
      have called := ran (enough + 1) (by omega)
      rw [start, Reader.iterate, (end_eq _ _ short).1, if_neg (by omega), fails] at called
      cases rest : (reader chunkSize content .memory 0).iterate enough
          ((reader chunkSize content .memory 0).next content.length) with
      | none =>
        rw [rest] at called
        cases called
      | some others =>
        rw [rest] at called
        cases chunks with
        | nil => cases called
        | cons chunk chunks => cases called
  · rintro ⟨fits, other⟩
    have small : chunkSize < 2 ^ 63 := by omega
    have file_eq : fromFile maxSize chunkSize content =
        some (reader chunkSize content .file chunkSize) := by
      rw [fromFile, if_neg some_, if_neg (by omega)]
      rfl
    have start : ∀ source bufferSize, (reader chunkSize content source bufferSize).makeIterator
        offset = min offset (content.length + 1) := by
      intro source bufferSize
      rw [Reader.makeIterator, (end_eq _ _ short).2]
    rcases Nat.lt_trichotomy offset content.length with inside | same | behind
    · obtain ⟨chunks, ran, nonempty, whole, full, bound⟩ :=
        iterate_inside short small positive _ inside (le_refl _)
      have same : min offset (content.length + 1) = offset := by omega
      exact ⟨_, _, chunks, file_eq, memory_eq,
        ⟨_, fun depth large => by rw [start, same]; exact (ran depth large).1⟩,
        ⟨_, fun depth large => by rw [start, same]; exact (ran depth large).2⟩, whole, full, bound,
        fun _ => nonempty⟩
    · have empty : content = [] := by
        by_contra nonempty
        exact other ⟨same, nonempty⟩
      subst empty
      subst same
      have one : ∀ source bufferSize, (reader chunkSize [] source bufferSize).readChunk 0 = some [] →
          Delivers (reader chunkSize [] source bufferSize) 0 [[]] := by
        intro source bufferSize read
        refine ⟨2, fun depth large => ?_⟩
        obtain ⟨depth, rfl⟩ := Nat.exists_eq_add_of_le' large
        rw [Reader.makeIterator, Nat.zero_min, iterate_before _ _ short small (le_refl 0),
          if_pos (show ([] : Str).length ≤ 0 + chunkSize from Nat.zero_le _), iterate_end _ _ short,
          read]
        rfl
      exact ⟨_, _, [[]], file_eq, memory_eq, one _ _ (by
        change (if 2 ^ 63 ≤ 0 then none else some ((([] : Str).drop 0).take chunkSize)) = some []
        rw [if_neg (by decide), List.drop_nil, List.take_nil]), one _ _ rfl, rfl, by simp, by simp,
        by simp⟩
    · have stop : ∀ source bufferSize, Delivers (reader chunkSize content source bufferSize) offset
          [] := by
        intro source bufferSize
        refine ⟨1, fun depth large => ?_⟩
        obtain ⟨depth, rfl⟩ := Nat.exists_eq_add_of_le' large
        rw [start, show min offset (content.length + 1) = content.length + 1 by omega,
          iterate_end _ _ short]
        rfl
      refine ⟨_, _, [], file_eq, memory_eq, stop _ _, stop _ _, ?_, by simp, by simp, by omega⟩
      rw [List.drop_eq_nil_of_le (by omega)]
      rfl

theorem readsWell_abc : ReadsWell 4 2 [97, 98, 99] 1 ↔
    2 ≤ 4 ∧ ¬(1 = List.length ([97, 98, 99] : Str) ∧ ([97, 98, 99] : Str) ≠ []) :=
  readsWell_iff (by decide) (by decide) (by decide)

theorem abc_fails : ¬ReadsWell 4 2 [97, 98, 99] 3 := by
  rintro ⟨_, memory, chunks, _, isMemory, _, ⟨enough, ran⟩, _⟩
  cases isMemory
  have called := ran (enough + 2) (by omega)
  rw [show Reader.makeIterator ⟨2, _, .memory, [97, 98, 99], 0⟩ 3 = 3 by decide, Reader.iterate,
    if_neg (by decide), show Reader.next ⟨2, _, .memory, [97, 98, 99], 0⟩ 3 = 4 by decide,
    Reader.iterate, if_pos (by decide)] at called
  cases chunks with
  | nil => cases called
  | cons chunk chunks => cases called

end Jst.Verif.IncrementalReading
