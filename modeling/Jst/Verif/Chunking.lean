import Jst.Storage.ChunkStream
/-!
# Chunks do not depend on the buffer

The chunks that are delivered are those of the whole content: whenever a boundary is looked for, the
buffer holds at least a longest chunk or all of the rest. End of file is noticed only by the next
read, so the last chunk need not finish the stream; the call after it does.
-/
namespace Jst.Verif.Chunking

open Storage.FileChunker

variable {gearTable : UInt8 → UInt64}

variable {stream : ChunkStream} {content : Str}

theorem minChunkSize_le (more : nextChunkBoundary gearTable content < content.length) :
    minChunkSize ≤ nextChunkBoundary gearTable content := by
  unfold nextChunkBoundary at more ⊢
  simp only at more ⊢
  split at more
  · omega
  · next long =>
    rw [if_neg long]
    exact le_findBoundary

variable {chunk : Str}

theorem minChunkSize_le_of_mem (member : chunk ∈ (chunks gearTable content).dropLast) :
    minChunkSize ≤ chunk.length := by
  induction content using chunks.induct gearTable with
  | case1 content nonempty size step =>
    rw [chunks_of_ne_nil nonempty] at member
    by_cases rest : content.drop (nextChunkBoundary gearTable content) = []
    · rw [rest, chunks_nil] at member
      cases member
    · have more : nextChunkBoundary gearTable content < content.length := by
        by_contra all
        exact rest (List.drop_eq_nil_of_le (by omega))
      have later : chunks gearTable (content.drop (nextChunkBoundary gearTable content)) ≠ [] := by
        rw [chunks_of_ne_nil rest]
        exact cons_ne_nil _ _
      rw [List.dropLast_cons_of_ne_nil later] at member
      cases mem_cons.mp member with
      | inl here =>
        have enough := minChunkSize_le more
        rw [here, length_take]
        omega
      | inr inside => exact step inside
  | case2 content none =>
    rw [not_not.mp none, chunks_nil] at member
    cases member

theorem chunk_bounds (member : chunk ∈ chunks gearTable content) :
    chunk ≠ [] ∧ chunk.length ≤ maxChunkSize := by
  induction content using chunks.induct gearTable with
  | case1 content nonempty size step =>
    rw [chunks_of_ne_nil nonempty] at member
    cases mem_cons.mp member with
    | inl here =>
      have positive := @nextChunkBoundary_pos gearTable content nonempty
      have bound := @nextChunkBoundary_le_max gearTable content
      have some : 0 < content.length := List.length_pos_of_ne_nil nonempty
      constructor
      · intro empty
        have length := congrArg List.length (here.symm.trans empty)
        rw [length_take, length_nil] at length
        omega
      · rw [here, length_take]
        omega
    | inr later => exact step later
  | case2 content none =>
    rw [not_not.mp none, chunks_nil] at member
    cases member

/-! ## The stream -/

/-- The content that is not delivered. -/
def unread (stream : ChunkStream) : Str := stream.remaining ++ stream.rest

/-- The buffer has its size, and unless end of file was noticed, it was filled or nothing was read
yet. -/
structure Valid (stream : ChunkStream) : Prop where
  length : stream.buffer.length = maxChunkSize <<< 1
  pos_le : stream.pos ≤ stream.size
  size_le : stream.size ≤ stream.buffer.length
  atEnd : stream.eof = true → stream.rest = []

theorem new_valid (content : Str) :
    Valid (ChunkStream.new content) ∧ unread (ChunkStream.new content) = content := by
  refine ⟨⟨length_replicate, le_rfl, Nat.zero_le _, fun absurd => nomatch absurd⟩, ?_⟩
  simp [unread, ChunkStream.remaining, ChunkStream.new]

theorem remaining_length (valid : Valid stream) :
    stream.remaining.length = stream.size - stream.pos := by
  have inside := valid.size_le
  rw [ChunkStream.remaining, length_take, length_drop]
  omega

theorem refill_spec (valid : Valid stream) :
    Valid stream.refill ∧ unread stream.refill = unread stream ∧
      (maxChunkSize ≤ stream.refill.remaining.length ∨
        stream.refill.eof = true ∧ stream.refill.rest = []) := by
  have shift : maxChunkSize <<< 1 = 2 * maxChunkSize := by decide
  have length := valid.length
  have inside := valid.size_le
  have order := valid.pos_le
  have left : (stream.buffer.drop stream.pos).take (stream.size - stream.pos) = stream.remaining := rfl
  have front : stream.remaining.length = stream.size - stream.pos := remaining_length valid
  unfold ChunkStream.refill
  simp only
  by_cases open_ : stream.size - stream.pos < maxChunkSize ∧ stream.eof = false
  · rw [if_pos open_, left, List.take_left' front, length_append, front, length_drop]
    generalize space : stream.size - stream.pos + (stream.buffer.length -
      (stream.size - stream.pos)) - (stream.size - stream.pos) = ssize
    have read : (stream.rest.take ssize).length = min ssize stream.rest.length := length_take
    have all : stream.rest.take ssize ++ stream.rest.drop ssize = stream.rest :=
      List.take_append_drop ssize stream.rest
    generalize stream.rest.take ssize = bytes at read all ⊢
    have taken : (stream.remaining ++ bytes).length = bytes.length + (stream.size - stream.pos) := by
      rw [length_append, front]
      omega
    refine ⟨⟨?_, Nat.zero_le _, ?_, fun atEnd => ?_⟩, ?_, ?_⟩
    · simp only [length_append, length_drop, front]
      omega
    · simp only [length_append, length_drop, front]
      omega
    · exact List.drop_eq_nil_of_le (Nat.le_of_lt (of_decide_eq_true atEnd))
    · simp only [unread, ChunkStream.remaining, List.drop_zero, Nat.sub_zero]
      rw [left, List.take_left' taken, append_assoc, all]
    · have filled : ∀ back : Str, (ChunkStream.remaining ⟨stream.remaining ++ bytes ++ back,
          bytes.length + (stream.size - stream.pos), 0, stream.rest.drop ssize,
          decide (stream.rest.length < ssize)⟩).length =
          bytes.length + (stream.size - stream.pos) := by
        intro back
        simp only [ChunkStream.remaining, List.drop_zero, Nat.sub_zero]
        rw [left, List.take_left' taken, taken]
      rw [filled]
      by_cases short : stream.rest.length < ssize
      · exact .inr ⟨decide_eq_true short, List.drop_eq_nil_of_le (Nat.le_of_lt short)⟩
      · left
        omega
  · rw [if_neg open_]
    refine ⟨valid, rfl, ?_⟩
    cases noticed : stream.eof with
    | true => exact .inr ⟨rfl, valid.atEnd noticed⟩
    | false =>
      left
      have enough : ¬stream.size - stream.pos < maxChunkSize := fun few => open_ ⟨few, noticed⟩
      omega

theorem nextChunk_spec (gearTable : UInt8 → UInt64) (valid : Valid stream) :
    (unread stream = [] ∧ ∃ last, stream.nextChunk gearTable = (none, last) ∧
      last.finished = true) ∨ (unread stream ≠ [] ∧ ∃ next, stream.nextChunk gearTable =
        (some ((unread stream).take (nextChunkBoundary gearTable (unread stream))), next) ∧
      Valid next ∧
      unread next = (unread stream).drop (nextChunkBoundary gearTable (unread stream))) := by
  obtain ⟨filled, same, enough⟩ := refill_spec valid
  have length := remaining_length filled
  have order := filled.pos_le
  have inside := filled.size_le
  unfold ChunkStream.nextChunk
  simp only
  rw [← same]
  generalize stream.refill = stream at filled enough length order inside ⊢
  by_cases empty : stream.pos = stream.size
  · rw [if_pos empty]
    have sizes : 0 < maxChunkSize := by decide
    obtain ⟨noticed, none⟩ := enough.resolve_left (by omega)
    have nothing : stream.remaining = [] := List.eq_nil_of_length_eq_zero (by omega)
    refine .inl ⟨by rw [unread, nothing, none]; rfl, stream, rfl, ?_⟩
    simp [ChunkStream.finished, noticed, empty]
  · rw [if_neg empty]
    have boundary : nextChunkBoundary gearTable stream.remaining =
        nextChunkBoundary gearTable (unread stream) := by
      rcases enough with long | ⟨_, none⟩
      · have cut : (unread stream).take stream.remaining.length = stream.remaining :=
          List.take_left' rfl
        exact (congrArg (nextChunkBoundary gearTable) cut.symm).trans (nextChunkBoundary_buffer long)
      · rw [unread, none, append_nil]
    have short := @nextChunkBoundary_le gearTable stream.remaining
    have chunk : (stream.buffer.drop stream.pos).take
        (nextChunkBoundary gearTable stream.remaining) =
        (unread stream).take (nextChunkBoundary gearTable stream.remaining) := by
      rw [unread, List.take_append_of_le_length short, ChunkStream.remaining, List.take_take,
        ← ChunkStream.remaining, min_eq_left (by omega)]
    refine .inr ⟨fun nothing => ?_, _, by rw [← boundary, chunk], ?_, ?_⟩
    · have lengths := congrArg List.length nothing
      rw [unread, length_append, length_nil] at lengths
      omega
    · exact ⟨filled.length, by simp only; omega, filled.size_le, filled.atEnd⟩
    · rw [← boundary]
      generalize nextChunkBoundary gearTable stream.remaining = off at short
      rw [unread, unread, List.drop_append_of_le_length short]
      simp only [ChunkStream.remaining]
      rw [← List.drop_drop, List.drop_take]
      congr 2
      omega

theorem readAll_spec (gearTable : UInt8 → UInt64) (depth : Nat) (valid : Valid stream)
    (large : (unread stream).length < depth) :
    ∃ last, stream.readAll gearTable depth = some (chunks gearTable (unread stream), last) ∧
      last.finished = true := by
  induction depth generalizing stream with
  | zero => cases large
  | succ depth step =>
    rcases nextChunk_spec gearTable valid with ⟨empty, last, called, finished⟩ |
      ⟨nonempty, next, called, nextValid, rest⟩
    · refine ⟨last, ?_, finished⟩
      rw [ChunkStream.readAll, called, empty, chunks_nil]
    · have positive := @nextChunkBoundary_pos gearTable _ nonempty
      have some : 0 < (unread stream).length := List.length_pos_of_ne_nil nonempty
      obtain ⟨last, ran, finished⟩ := step nextValid (by
        rw [rest, length_drop]
        omega)
      refine ⟨last, ?_, finished⟩
      rw [ChunkStream.readAll, called, chunks_of_ne_nil nonempty, ← rest]
      simp only [ran, bind_eq_bind, bind_some, pure_def]

/-! ## When the stream is finished -/

/-- What `NextChunk` has delivered so far. -/
inductive Delivered (gearTable : UInt8 → UInt64) (content : Str) :
    List Str → ChunkStream → Prop where
  | start : Delivered gearTable content [] (.new content)
  | next {delivered : List Str} {chunk : Str} {stream next : ChunkStream}
    (before : Delivered gearTable content delivered stream)
    (called : stream.nextChunk gearTable = (some chunk, next)) :
    Delivered gearTable content (delivered ++ [chunk]) next

theorem Delivered.chunks_eq {delivered : List Str}
    (so_far : Delivered gearTable content delivered stream) :
    Valid stream ∧ chunks gearTable content = delivered ++ chunks gearTable (unread stream) := by
  induction so_far with
  | start =>
    obtain ⟨valid, same⟩ := new_valid content
    exact ⟨valid, by rw [same]; rfl⟩
  | next _ called step =>
    obtain ⟨valid, same⟩ := step
    rcases nextChunk_spec gearTable valid with ⟨_, last, other, _⟩ |
      ⟨nonempty, next, other, nextValid, rest⟩
    · rw [called] at other
      cases other
    · rw [called] at other
      cases other
      refine ⟨nextValid, ?_⟩
      rw [same, chunks_of_ne_nil nonempty, rest, append_assoc, singleton_append]

theorem finished_unread (valid : Valid stream) (finished : stream.finished = true) :
    unread stream = [] := by
  simp only [ChunkStream.finished, and_eq_true, decide_eq_true_eq] at finished
  have nothing : stream.remaining = [] := List.eq_nil_of_length_eq_zero (by
    rw [remaining_length valid]
    omega)
  rw [unread, nothing, valid.atEnd finished.1, append_nil]

theorem nextChunk_finished {next : ChunkStream} (valid : Valid stream)
    (called : stream.nextChunk gearTable = (some chunk, next)) (all : unread next = [])
    (short : chunk.length < maxChunkSize) : next.finished = true := by
  obtain ⟨filled, same, enough⟩ := refill_spec valid
  have length := remaining_length filled
  have inside := filled.size_le
  unfold ChunkStream.nextChunk at called
  simp only at called
  generalize stream.refill = stream at filled same enough length inside called
  by_cases empty : stream.pos = stream.size
  · rw [if_pos empty] at called
    cases called
  · rw [if_neg empty] at called
    obtain ⟨chunkSame, rfl⟩ := Prod.mk.inj called
    cases chunkSame
    have cut := @nextChunkBoundary_le gearTable stream.remaining
    generalize nextChunkBoundary gearTable stream.remaining = off at all short cut ⊢
    have behind := congrArg List.length all
    simp only [unread, ChunkStream.remaining, length_append, length_take, length_drop,
      length_nil] at behind
    rw [length_take, length_drop] at short
    have order := filled.pos_le
    have done : stream.pos + off = stream.size := by omega
    obtain ⟨noticed, _⟩ := enough.resolve_left (by omega)
    simp [ChunkStream.finished, noticed, done]

/-- Reading a file delivers the chunks of its content, each of them within the bounds and left whole
when it is read itself. Then the stream is finished; right after the last chunk it is unless that
chunk is a longest one. -/
theorem readAll_delivers (gearTable : UInt8 → UInt64) (content : Str) :
    (∃ enough, ∀ depth, enough ≤ depth → ∃ last,
      (ChunkStream.new content).readAll gearTable depth = some (chunks gearTable content, last) ∧
      last.finished = true) ∧
    (chunks gearTable content).flatten = content ∧
    (∀ chunk ∈ chunks gearTable content, chunk ≠ [] ∧ chunk.length ≤ maxChunkSize) ∧
    (∀ chunk ∈ (chunks gearTable content).dropLast, minChunkSize ≤ chunk.length) ∧
    (∀ chunk ∈ chunks gearTable content, ∃ enough, ∀ depth, enough ≤ depth → ∃ last,
      (ChunkStream.new chunk).readAll gearTable depth = some ([chunk], last)) ∧
    ∀ delivered stream, Delivered gearTable content delivered stream →
      (stream.finished = true → delivered = chunks gearTable content) ∧
      ∀ front last, delivered = front ++ [last] → delivered = chunks gearTable content →
        last.length < maxChunkSize → stream.finished = true := by
  have reads : ∀ content, ∃ enough, ∀ depth, enough ≤ depth → ∃ last,
      (ChunkStream.new content).readAll gearTable depth = some (chunks gearTable content, last) ∧
      last.finished = true := by
    intro content
    obtain ⟨valid, same⟩ := new_valid content
    refine ⟨content.length + 1, fun depth large => ?_⟩
    have ran := readAll_spec gearTable depth valid (by rw [same]; omega)
    rwa [same] at ran
  refine ⟨reads content, flatten_chunks content, fun chunk member => chunk_bounds member,
    fun chunk member => minChunkSize_le_of_mem member, fun chunk member => ?_,
    fun delivered stream so_far => ⟨fun finished => ?_, ?_⟩⟩
  · obtain ⟨enough, works⟩ := reads chunk
    refine ⟨enough, fun depth large => ?_⟩
    obtain ⟨last, ran, _⟩ := works depth large
    rw [chunks_chunk member] at ran
    exact ⟨last, ran⟩
  · obtain ⟨valid, same⟩ := so_far.chunks_eq
    rw [same, finished_unread valid finished, chunks_nil, append_nil]
  · intro front last split all short
    obtain ⟨_, same⟩ := so_far.chunks_eq
    have none : unread stream = [] := by
      by_contra more
      have lengths := congrArg List.length (all.trans same)
      rw [length_append, chunks_of_ne_nil more, length_cons] at lengths
      omega
    cases so_far with
    | start => simp at split
    | next before called =>
      obtain ⟨_, lastSame⟩ := List.append_inj' split rfl
      cases lastSame
      exact nextChunk_finished before.chunks_eq.1 called none short

/-- The fingerprint of a zero byte repeated. -/
def zeroFingerprint : Nat → UInt64
  | 0 => 0
  | count + 1 => (zeroFingerprint count <<< 1) + Storage.FileChunker.gearTable 0

theorem zeroFingerprint_eq (count : Nat) : zeroFingerprint (64 + count) = zeroFingerprint 64 := by
  induction count with
  | zero => rfl
  | succ count step =>
    have fixed : (zeroFingerprint 64 <<< 1) + Storage.FileChunker.gearTable 0 = zeroFingerprint 64 := by
      decide +kernel
    change (zeroFingerprint (64 + count) <<< 1) + Storage.FileChunker.gearTable 0 = _
    rw [step, fixed]

theorem zeroFingerprint_ne (count normalSize index : Nat) :
    zeroFingerprint (count + 1) &&& mask normalSize index ≠ 0 := by
  have small : ∀ count < 64, zeroFingerprint (count + 1) &&& maskS ≠ 0 ∧
      zeroFingerprint (count + 1) &&& maskL ≠ 0 := by decide +kernel
  have all : zeroFingerprint (count + 1) &&& maskS ≠ 0 ∧
      zeroFingerprint (count + 1) &&& maskL ≠ 0 := by
    by_cases low : count < 64
    · exact small count low
    · obtain ⟨more, rfl⟩ := Nat.exists_eq_add_of_le (show 63 ≤ count by omega)
      rw [show 63 + more + 1 = 64 + more by omega, zeroFingerprint_eq]
      exact small 63 (by decide)
  unfold mask
  split
  · exact all.1
  · exact all.2

theorem findBoundary_zeros {normalSize n i count size : Nat} (enough : n ≤ i + size)
    (start : i ≤ n) :
    findBoundary Storage.FileChunker.gearTable normalSize n (zeroFingerprint count) i
      (replicate size 0) = n := by
  induction size generalizing i count with
  | zero =>
    rw [List.replicate_zero, findBoundary]
    omega
  | succ size step =>
    rw [List.replicate_succ, findBoundary]
    by_cases more : i < n
    · rw [if_pos more]
      change (if zeroFingerprint (count + 1) &&& mask normalSize i = 0 then i
        else findBoundary Storage.FileChunker.gearTable normalSize n (zeroFingerprint (count + 1))
          (i + 1) (replicate size 0)) = n
      rw [if_neg (zeroFingerprint_ne count normalSize i)]
      exact step (by omega) more
    · rw [if_neg more]
      omega

theorem nextChunkBoundary_zeros {size : Nat} (long : maxChunkSize ≤ size) :
    nextChunkBoundary Storage.FileChunker.gearTable (replicate size 0) = maxChunkSize := by
  have sizes : minChunkSize < maxChunkSize := by decide
  unfold nextChunkBoundary
  simp only [length_replicate]
  rw [if_neg (by omega), if_pos long, if_pos long, List.drop_replicate]
  exact @findBoundary_zeros _ _ _ 0 _ (by omega) (by omega)

theorem nextChunk_of_long (valid : Valid stream) (long : maxChunkSize ≤ stream.size - stream.pos) :
    ∃ chunk next, stream.nextChunk gearTable = (some chunk, next) ∧
      next.pos = stream.pos + nextChunkBoundary gearTable (unread stream) ∧
      next.size = stream.size ∧ next.eof = stream.eof := by
  have positive : 0 < maxChunkSize := by decide
  have full : stream.refill = stream := by
    unfold ChunkStream.refill
    simp only
    exact if_neg fun open_ => by omega
  have cut : (unread stream).take stream.remaining.length = stream.remaining := List.take_left' rfl
  have enough : maxChunkSize ≤ stream.remaining.length := by rwa [remaining_length valid]
  have boundary : nextChunkBoundary gearTable (unread stream) =
      nextChunkBoundary gearTable stream.remaining := by
    rw [← nextChunkBoundary_buffer enough, cut]
  unfold ChunkStream.nextChunk
  simp only [full]
  rw [if_neg (by omega), boundary]
  exact ⟨_, _, rfl, rfl, rfl, rfl⟩

theorem zeros_unfinished : ∃ stream,
    Delivered Storage.FileChunker.gearTable (replicate (2 * maxChunkSize) 0)
      (chunks Storage.FileChunker.gearTable (replicate (2 * maxChunkSize) 0)) stream ∧
    stream.finished = false := by
  have shift : maxChunkSize <<< 1 = 2 * maxChunkSize := by decide
  have positive : 0 < maxChunkSize := by decide
  generalize content : (replicate (2 * maxChunkSize) 0 : Str) = zeros
  have length : zeros.length = 2 * maxChunkSize := by rw [← content, length_replicate]
  obtain ⟨valid, same⟩ := new_valid zeros
  obtain ⟨filled, kept, _⟩ := refill_spec valid
  have shape : (ChunkStream.new zeros).refill.pos = 0 ∧
      (ChunkStream.new zeros).refill.size = 2 * maxChunkSize ∧
      (ChunkStream.new zeros).refill.eof = false := by
    simp [ChunkStream.refill, ChunkStream.new, shift, length, positive]
  have once : (ChunkStream.new zeros).nextChunk Storage.FileChunker.gearTable =
      (ChunkStream.new zeros).refill.nextChunk Storage.FileChunker.gearTable := by
    have again : (ChunkStream.new zeros).refill.refill = (ChunkStream.new zeros).refill := by
      rw [ChunkStream.refill]
      simp only
      exact if_neg fun open_ => by omega
    unfold ChunkStream.nextChunk
    simp only [again]
  rw [same] at kept
  generalize (ChunkStream.new zeros).refill = first at filled kept shape once
  obtain ⟨chunk, middle, called, middlePos, middleSize, middleEof⟩ :=
    @nextChunk_of_long Storage.FileChunker.gearTable first filled (by omega)
  have boundary : nextChunkBoundary Storage.FileChunker.gearTable (unread first) = maxChunkSize := by
    rw [kept, ← content]
    exact nextChunkBoundary_zeros (by omega)
  have one : Delivered Storage.FileChunker.gearTable zeros ([] ++ [chunk]) middle :=
    .next .start (once.trans called)
  obtain ⟨middleValid, rest⟩ := one.chunks_eq
  have middleUnread : unread middle = replicate maxChunkSize 0 := by
    rcases nextChunk_spec Storage.FileChunker.gearTable filled with ⟨_, _, other, _⟩ |
      ⟨_, next, other, _, remains⟩
    · rw [called] at other
      cases other
    · rw [called] at other
      cases other
      rw [remains, boundary, kept, ← content, List.drop_replicate,
        show 2 * maxChunkSize - maxChunkSize = maxChunkSize by omega]
  obtain ⟨second, last, calledAgain, lastPos, lastSize, lastEof⟩ :=
    @nextChunk_of_long Storage.FileChunker.gearTable middle middleValid (by omega)
  have two := one.next calledAgain
  obtain ⟨_, all⟩ := two.chunks_eq
  have none : unread last = [] := by
    rcases nextChunk_spec Storage.FileChunker.gearTable middleValid with ⟨_, _, other, _⟩ |
      ⟨_, next, other, _, remains⟩
    · rw [calledAgain] at other
      cases other
    · rw [calledAgain] at other
      cases other
      rw [remains, middleUnread, nextChunkBoundary_zeros (le_refl _)]
      exact List.drop_eq_nil_of_le (le_of_eq length_replicate)
  rw [none, chunks_nil, append_nil] at all
  refine ⟨last, all ▸ two, ?_⟩
  rw [ChunkStream.finished, lastEof, middleEof, shape.2.2, Bool.false_and]

end Jst.Verif.Chunking
