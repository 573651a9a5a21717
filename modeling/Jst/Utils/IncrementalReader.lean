import Jst.Data.Bytes
/-!
# Reading chunk by chunk

`incremental_reader.cpp` reads a file or a string in chunks. Offsets and sizes are 64-bit numbers. A
file needs a buffer of the chunk size, and strings are not longer than `max_size()`; reading from a
file that is open does not fail.
-/
namespace Jst.IncrementalReader

/-- Where the content comes from. -/
inductive ContentSource where
  | file
  | memory
deriving DecidableEq

/-- The state of an `IncrementalReader`. -/
structure Reader where
  chunkSize : Nat
  contentSize : Nat
  /-- What `content_` is. -/
  source : ContentSource
  content : Str
  /-- The size of `buffer_`. -/
  bufferSize : Nat

/-- `IncrementalReader::FromFile`, for a regular file that can be opened. -/
def fromFile (maxSize chunkSize : Nat) (content : Str) : Option Reader :=
  if chunkSize = 0 then none
  else if maxSize < chunkSize then none
  else some ⟨chunkSize, content.length, .file, content, chunkSize⟩

def fromMemory (chunkSize : Nat) (content : Str) : Option Reader :=
  if chunkSize = 0 then none
  else some ⟨chunkSize, content.length, .memory, content, 0⟩

def Reader.getEndOffset (reader : Reader) : Nat := (reader.contentSize + 1) % 2 ^ 64

def Reader.makeIterator (reader : Reader) (offset : Nat) : Nat := min offset reader.getEndOffset

def Reader.begin (reader : Reader) : Nat := reader.makeIterator 0

def Reader.end' (reader : Reader) : Nat := reader.makeIterator reader.getEndOffset

def Reader.readFromFile (reader : Reader) (offset : Nat) : Option Str :=
  if 2 ^ 63 ≤ offset then none else some ((reader.content.drop offset).take reader.bufferSize)

def Reader.readFromMemory (reader : Reader) (offset : Nat) : Option Str :=
  if reader.content.isEmpty then some []
  else if reader.content.length ≤ offset then none
  else some ((reader.content.drop offset).take
    (min reader.chunkSize (reader.content.length - offset)))

def Reader.readChunk (reader : Reader) (offset : Nat) : Option Str :=
  match reader.source with
  | .file => reader.readFromFile offset
  | .memory => reader.readFromMemory offset

/-- `Iterator::operator++`. -/
def Reader.next (reader : Reader) (offset : Nat) : Nat :=
  let offset := (offset + reader.chunkSize) % 2 ^ 64
  if reader.contentSize ≤ offset then reader.getEndOffset else offset

/-- What an iteration delivers, from an iterator up to the end. -/
def Reader.iterate (reader : Reader) : Nat → Nat → Option (List (Option Str))
  | 0, _ => none
  | depth + 1, offset =>
    if offset = reader.end' then some []
    else (iterate reader depth (reader.next offset)).map (reader.readChunk offset :: ·)

end Jst.IncrementalReader
