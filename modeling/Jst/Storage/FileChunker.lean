import Jst.Data.Bytes
/-!
# Content-defined chunking

`file_chunker.cpp` cuts a file where a rolling fingerprint of the bytes has certain zero bits. A
chunk depends on nothing but the bytes from its start on, and so a chunk is not cut again. The table
of random numbers is a parameter.
-/
namespace Jst.Storage.FileChunker

variable {content : Str}

/-- `kMaskS` — the mask below the average size. -/
def maskS : UInt64 := 0x4444d9f003530000

/-- `kMaskL` — the mask above the average size. -/
def maskL : UInt64 := 0x4444d90003530000

/-- `kAverageChunkSize`. -/
def averageChunkSize : Nat := 1024 * 128

def minChunkSize : Nat := averageChunkSize >>> 2

def maxChunkSize : Nat := averageChunkSize <<< 3

/-- The mask at an index: it changes at `normal_size`. -/
def mask (normalSize index : Nat) : UInt64 := if index < normalSize then maskS else maskL

variable (gearTable : UInt8 → UInt64)

/-- The two loops of `NextChunkBoundary`, from index `i` on, where the given bytes start: up to
`normalSize` the fingerprint is masked with `maskS`, then up to `n` with `maskL`. -/
def findBoundary (normalSize n : Nat) : UInt64 → Nat → Str → Nat
  | _, i, [] => i
  | fp, i, byte :: rest =>
    if i < n then
      let fp := (fp <<< 1) + gearTable byte
      if fp &&& mask normalSize i = 0 then i
      else findBoundary normalSize n fp (i + 1) rest
    else i

/-- `FileChunker::NextChunkBoundary` — the length of the next chunk, of what is in the buffer. -/
def nextChunkBoundary (buffer : Str) : Nat :=
  let n := buffer.length
  if n ≤ minChunkSize then n
  else
    let normalSize :=
      if n ≥ maxChunkSize then averageChunkSize
      else if n ≤ averageChunkSize then n else averageChunkSize
    let n := if n ≥ maxChunkSize then maxChunkSize else n
    findBoundary gearTable normalSize n 0 minChunkSize (buffer.drop minChunkSize)

/-! ## Boundaries -/

variable {gearTable}

variable {normalSize n : Nat}

variable {fp : UInt64} {bytes : Str}

theorem le_findBoundary {i : Nat} : i ≤ findBoundary gearTable normalSize n fp i bytes := by
  induction bytes generalizing fp i with
  | nil => exact Nat.le_refl i
  | cons byte rest step =>
    unfold findBoundary
    split
    · simp only
      split
      · exact Nat.le_refl i
      · exact Nat.le_of_succ_le step
    · exact Nat.le_refl i

theorem findBoundary_le {i : Nat} (start : i ≤ n) :
    findBoundary gearTable normalSize n fp i bytes ≤ n := by
  induction bytes generalizing fp i with
  | nil => exact start
  | cons byte rest step =>
    unfold findBoundary
    split
    · next before =>
      simp only
      split
      · exact start
      · exact step before
    · exact start

theorem findBoundary_le_length {i : Nat} {fp : UInt64} {bytes : Str} :
    findBoundary gearTable normalSize n fp i bytes ≤ i + bytes.length := by
  induction bytes generalizing fp i with
  | nil => exact Nat.le_refl i
  | cons byte rest step =>
    unfold findBoundary
    split
    · simp only
      split
      · exact Nat.le_add_right i _
      · have later := @step (i + 1) ((fp <<< 1) + gearTable byte)
        rw [length_cons]
        omega
    · exact Nat.le_add_right i _

theorem findBoundary_take {otherNormalSize i count : Nat} {fp : UInt64} {bytes : Str}
    (end_eq : findBoundary gearTable normalSize n fp i bytes = i + count)
    (masks : ∀ index, index < i + count → mask otherNormalSize index = mask normalSize index) :
    findBoundary gearTable otherNormalSize (i + count) fp i (bytes.take count) = i + count := by
  induction bytes generalizing fp i count with
  | nil =>
    have none : count = 0 := by
      rw [findBoundary] at end_eq
      omega
    rw [List.take_nil, findBoundary, none, Nat.add_zero]
  | cons byte rest step =>
    cases count with
    | zero => rfl
    | succ count =>
      have here : mask otherNormalSize i = mask normalSize i := masks i (by omega)
      rw [List.take_succ_cons]
      unfold findBoundary at end_eq ⊢
      rw [if_pos (by omega : i < i + (count + 1)), here]
      split at end_eq
      · simp only at end_eq
        split at end_eq
        · omega
        · next goesOn =>
          rw [if_neg goesOn]
          have later := @step (i + 1) count ((fp <<< 1) + gearTable byte) (by omega)
            (fun index below => masks index (by omega))
          rw [show i + (count + 1) = i + 1 + count by omega]
          exact later
      · omega

theorem findBoundary_take_of_le {i count : Nat} (enough : n ≤ i + count) :
    findBoundary gearTable normalSize n fp i (bytes.take count) =
      findBoundary gearTable normalSize n fp i bytes := by
  induction bytes generalizing fp i count with
  | nil => rw [List.take_nil]
  | cons byte rest step =>
    cases count with
    | zero =>
      rw [List.take_zero, findBoundary, findBoundary, if_neg (by omega)]
    | succ count =>
      simp only [List.take_succ_cons, findBoundary, step (by omega : n ≤ i + 1 + count)]

theorem nextChunkBoundary_le (buffer : Str) : nextChunkBoundary gearTable buffer ≤ buffer.length := by
  unfold nextChunkBoundary
  simp only
  split
  · exact Nat.le_refl _
  · next long =>
    have bound := @findBoundary_le_length gearTable
      (if buffer.length ≥ maxChunkSize then averageChunkSize
        else if buffer.length ≤ averageChunkSize then buffer.length else averageChunkSize)
      (if buffer.length ≥ maxChunkSize then maxChunkSize else buffer.length) minChunkSize 0
      (buffer.drop minChunkSize)
    rw [length_drop] at bound
    omega

theorem nextChunkBoundary_le_max (buffer : Str) :
    nextChunkBoundary gearTable buffer ≤ maxChunkSize := by
  have sizes : minChunkSize ≤ maxChunkSize := by decide
  unfold nextChunkBoundary
  simp only
  split
  · next short => exact short.trans sizes
  · next long =>
    refine (findBoundary_le ?_).trans ?_
    · split <;> omega
    · split <;> omega

theorem nextChunkBoundary_pos {buffer : Str} (some : buffer ≠ []) :
    0 < nextChunkBoundary gearTable buffer := by
  have sizes : 0 < minChunkSize := by decide
  unfold nextChunkBoundary
  simp only
  split
  · exact List.length_pos_of_ne_nil some
  · exact Nat.lt_of_lt_of_le sizes le_findBoundary

theorem mask_cut {index size length : Nat} (below : index < size) (atMost : size ≤ length) :
    mask (if size ≥ maxChunkSize then averageChunkSize
        else if size ≤ averageChunkSize then size else averageChunkSize) index =
      mask (if length ≥ maxChunkSize then averageChunkSize
        else if length ≤ averageChunkSize then length else averageChunkSize) index := by
  have sizes : averageChunkSize < maxChunkSize := by decide
  have same : ∀ total, size ≤ total →
      (index < (if total ≥ maxChunkSize then averageChunkSize
        else if total ≤ averageChunkSize then total else averageChunkSize) ↔
      index < averageChunkSize) := by
    intro total fits
    split
    · rfl
    · split <;> omega
  unfold mask
  simp only [same size (Nat.le_refl size), same length atMost]

theorem nextChunkBoundary_take (buffer : Str) :
    nextChunkBoundary gearTable (buffer.take (nextChunkBoundary gearTable buffer)) =
      nextChunkBoundary gearTable buffer := by
  have atMost := @nextChunkBoundary_le gearTable buffer
  have atMostMax := @nextChunkBoundary_le_max gearTable buffer
  generalize bound : nextChunkBoundary gearTable buffer = size at atMost atMostMax ⊢
  have length : (buffer.take size).length = size := by
    rw [length_take]
    omega
  rw [nextChunkBoundary]
  simp only [length]
  split
  · rfl
  · next long =>
    unfold nextChunkBoundary at bound
    simp only at bound
    split at bound
    · omega
    · have start : minChunkSize + (size - minChunkSize) = size := by omega
      have stop : (if size ≥ maxChunkSize then maxChunkSize else size) = size := by
        split <;> omega
      have dropped : (buffer.take size).drop minChunkSize =
          (buffer.drop minChunkSize).take (size - minChunkSize) := by
        rw [List.drop_take]
      rw [stop, dropped]
      have cut := @findBoundary_take gearTable _ _
        (if size ≥ maxChunkSize then averageChunkSize
          else if size ≤ averageChunkSize then size else averageChunkSize)
        minChunkSize (size - minChunkSize) 0 (buffer.drop minChunkSize)
        (bound.trans start.symm) (by
          intro index below
          rw [start] at below
          exact mask_cut below atMost)
      rw [start] at cut
      exact cut

variable (gearTable)

/-- The chunks of a file, one `NextChunk` after the other. The buffer holds the rest of the file, or
at least `maxChunkSize` bytes of it, behind which nothing matters. -/
def chunks (content : Str) : List Str :=
  if _some : content ≠ [] then
    let size := nextChunkBoundary gearTable content
    content.take size :: chunks (content.drop size)
  else []
termination_by content.length
decreasing_by
  have positive := @nextChunkBoundary_pos gearTable content _some
  have atMost := @nextChunkBoundary_le gearTable content
  rw [length_drop]
  omega

variable {gearTable}

@[simp] theorem chunks_nil : chunks gearTable [] = [] := by
  rw [chunks, dif_neg (not_not.mpr rfl)]

theorem chunks_of_ne_nil (some : content ≠ []) :
    chunks gearTable content = content.take (nextChunkBoundary gearTable content) ::
      chunks gearTable (content.drop (nextChunkBoundary gearTable content)) := by
  rw [chunks, dif_pos some]

theorem flatten_chunks (content : Str) : (chunks gearTable content).flatten = content := by
  induction content using chunks.induct gearTable with
  | case1 content some size step =>
    rw [chunks_of_ne_nil some, List.flatten_cons, step, List.take_append_drop]
  | case2 content none => rw [not_not.mp none, chunks_nil, List.flatten_nil]

theorem chunks_chunk {chunk : Str} (member : chunk ∈ chunks gearTable content) :
    chunks gearTable chunk = [chunk] := by
  induction content using chunks.induct gearTable with
  | case1 content some size step =>
    rw [chunks_of_ne_nil some] at member
    cases mem_cons.mp member with
    | inr later => exact step later
    | inl here =>
      have positive := @nextChunkBoundary_pos gearTable content some
      have atMost := @nextChunkBoundary_le gearTable content
      have cut : nextChunkBoundary gearTable chunk = chunk.length := by
        rw [here, nextChunkBoundary_take, length_take]
        omega
      have nonempty : chunk ≠ [] := by
        intro empty
        have length := congrArg List.length here
        rw [empty, length_take, length_nil] at length
        omega
      rw [chunks_of_ne_nil nonempty, cut, List.take_length, List.drop_length, chunks_nil]
  | case2 content none =>
    rw [not_not.mp none, chunks_nil] at member
    cases member

theorem length_chunks_of_long (long : maxChunkSize < content.length) :
    2 ≤ (chunks gearTable content).length := by
  have bound := @nextChunkBoundary_le_max gearTable content
  have some : content ≠ [] := by
    intro empty
    rw [empty] at long
    cases long
  have rest : content.drop (nextChunkBoundary gearTable content) ≠ [] := by
    intro empty
    have length := congrArg List.length empty
    rw [length_drop, length_nil] at length
    omega
  rw [chunks_of_ne_nil some, chunks_of_ne_nil rest, length_cons, length_cons]
  omega

theorem nextChunkBoundary_buffer {filled : Nat} (enough : maxChunkSize ≤ filled) :
    nextChunkBoundary gearTable (content.take filled) = nextChunkBoundary gearTable content := by
  by_cases fits : content.length ≤ filled
  · rw [List.take_of_length_le fits]
  · have sizes : minChunkSize < maxChunkSize := by decide
    have length : (content.take filled).length = filled := by
      rw [length_take]
      omega
    unfold nextChunkBoundary
    simp only [length]
    rw [if_neg (by omega), if_pos enough, if_pos enough, if_neg (by omega),
      if_pos (by omega : content.length ≥ maxChunkSize),
      if_pos (by omega : content.length ≥ maxChunkSize), List.drop_take]
    exact findBoundary_take_of_le (by omega)

end Jst.Storage.FileChunker
