import Jst.Storage.FileChunker
/-!
# Reading the chunks of a file

`FileChunker` holds a part of the file in a buffer, moves what is left to its front and fills it up
when less than a longest chunk remains. End of file is noticed when a read gets less than was asked
for. Reading from the file does not fail.
-/
namespace Jst.Storage.FileChunker

/-! ## The table of random numbers -/

/-- One step of the initialisation of `std::mt19937_64`. -/
def seedStep (index : Nat) (previous : UInt64) : UInt64 :=
  (6364136223846793005 : UInt64) * (previous ^^^ (previous >>> 62)) + UInt64.ofNat index

/-- The initial state of `std::mt19937_64`. -/
def initialState (seed : UInt64) : Nat → UInt64
  | 0 => seed
  | index + 1 => seedStep (index + 1) (initialState seed index)

/-- The twist of the upper bits of one state and the lower bits of the next one. -/
def twist (upper lower : UInt64) : UInt64 :=
  let both := (upper &&& 0xffffffff80000000) ||| (lower &&& 0x7fffffff)
  (both >>> 1) ^^^ if both &&& 1 = 0 then 0 else 0xb5026f5aa96619e9

/-- The tempering of a state. -/
def temper (state : UInt64) : UInt64 :=
  let state := state ^^^ ((state >>> 29) &&& 0x5555555555555555)
  let state := state ^^^ ((state <<< 17) &&& 0x71d67fffeda60000)
  let state := state ^^^ ((state <<< 37) &&& 0xfff7eee000000000)
  state ^^^ (state >>> 43)

/-- The next state at an index; there are 312 states, and below index 256 no state is needed that
depends on more than one earlier one. -/
def nextState (seed : UInt64) (index : Nat) : UInt64 :=
  let twisted := twist (initialState seed index) (initialState seed (index + 1))
  if index < 156 then initialState seed (index + 156) ^^^ twisted
  else
    initialState seed index ^^^
      twist (initialState seed (index - 156)) (initialState seed (index - 155)) ^^^ twisted

/-- `gear_table` after `FileChunker::Initialize` with `kDefaultSeed`. -/
def gearTable (byte : UInt8) : UInt64 := temper (nextState 0 byte.toNat)

/-! ## The stream -/

/-- The state of a `FileChunker`. -/
structure ChunkStream where
  buffer : Str
  size : Nat
  pos : Nat
  /-- What is not read from `stream_`. -/
  rest : Str
  /-- `stream_.eof()`. -/
  eof : Bool

/-- A chunker for a file with the given content. -/
def ChunkStream.new (content : Str) : ChunkStream :=
  ⟨replicate (maxChunkSize <<< 1) 0, 0, 0, content, false⟩

def ChunkStream.finished (stream : ChunkStream) : Bool := stream.eof && stream.pos = stream.size

/-- The bytes of the buffer that are not delivered. -/
def ChunkStream.remaining (stream : ChunkStream) : Str :=
  (stream.buffer.drop stream.pos).take (stream.size - stream.pos)

/-- The buffer is filled up. -/
def ChunkStream.refill (stream : ChunkStream) : ChunkStream :=
  let remaining := stream.size - stream.pos
  if remaining < maxChunkSize ∧ stream.eof = false then
    let moved := (stream.buffer.drop stream.pos).take remaining ++ stream.buffer.drop remaining
    let ssize := moved.length - remaining
    let read := stream.rest.take ssize
    { buffer := moved.take remaining ++ read ++ moved.drop (remaining + read.length)
      size := read.length + remaining
      pos := 0
      rest := stream.rest.drop ssize
      eof := stream.rest.length < ssize }
  else stream

variable (gearTable : UInt8 → UInt64)

def ChunkStream.nextChunk (stream : ChunkStream) : Option Str × ChunkStream :=
  let stream := stream.refill
  if stream.pos = stream.size then (none, stream)
  else
    let off := nextChunkBoundary gearTable stream.remaining
    (some ((stream.buffer.drop stream.pos).take off), { stream with pos := stream.pos + off })

/-- The chunks that are delivered until there is none, and the state then. -/
def ChunkStream.readAll : Nat → ChunkStream → Option (List Str × ChunkStream)
  | 0, _ => none
  | depth + 1, stream =>
    match stream.nextChunk gearTable with
    | (none, stream) => some ([], stream)
    | (some chunk, stream) => do
      let (chunks, stream) ← readAll depth stream
      return (chunk :: chunks, stream)

end Jst.Storage.FileChunker
