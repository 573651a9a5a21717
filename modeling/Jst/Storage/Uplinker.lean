import Jst.Common.ArtifactDescription
import Jst.Storage.Compactifier
/-!
# Uplinking between the generations of a storage

What is used is copied from older generations to the youngest one, so that the oldest can be
dropped. Blobs and trees are stored as they are, or as large entries that list the parts to splice.
The file system does not fail here. How trees and directory messages are read is a parameter.
-/
namespace Jst.Storage

/-- The generations of a storage, the youngest one first. -/
abbrev Generations (Hash : Type) := Nat → LocalCas Hash

/-- What a storage relies on: its hash function and the formats of trees. -/
structure Protocol (Hash : Type) where
  /-- `ProtocolTraits::IsNative` — otherwise trees are stored as blobs. -/
  native : Bool
  hashes : Hashes Hash
  /-- `GitRepo::ReadTreeData` — the ids in a tree, each with the type of its first entry. -/
  readTreeData : Str → Option (List (Hash × ObjectType))
  /-- `Directory::ParseFromString` — the files, which may be executable, and the directories. -/
  readDirectory : Str → Option (List (Hash × Bool) × List Hash)

/-- The storage of trees. -/
def Protocol.treeType {Hash : Type} (protocol : Protocol Hash) : StorageType :=
  if protocol.native then .tree else .file

/-- The storage of blobs. -/
def blobType (executable : Bool) : StorageType := if executable then .executable else .file

/-- A loop that ends when one call fails. -/
def allOf {Item State : Type} (call : Item → State → Bool × State) :
    List Item → State → Bool × State
  | [], state => (true, state)
  | item :: rest, state =>
    match call item state with
    | (false, state) => (false, state)
    | (true, state) => allOf call rest state

/-- `std::any_of` — a loop that ends when one call succeeds. -/
def anyOf {Item State : Type} (call : Item → State → Bool × State) :
    List Item → State → Bool × State
  | [], state => (false, state)
  | item :: rest, state =>
    match call item state with
    | (true, state) => (true, state)
    | (false, state) => anyOf call rest state

namespace Generations

variable {Hash : Type} [DecidableEq Hash]

section Blobs

variable (hashes : Hashes Hash)

/-- `ObjectCAS::StoreBlobFromFile` — what is available is not stored again. -/
def store (i : Nat) (type : StorageType) (content : Str) (gens : Generations Hash) :
    Generations Hash :=
  let hash := hashes.ofLarge type.large content
  if ((gens i).objects type hash).isSome then gens
  else update gens i ((gens i).setObject type hash (some content))

/-- `LocalCAS::BlobPath` — a blob that is only there with the other x-bit is stored with this one.
-/
def blobPath (i : Nat) (hash : Hash) (executable : Bool) (gens : Generations Hash) :
    Option Str × Generations Hash :=
  match (gens i).objects (blobType executable) hash with
  | some content => (some content, gens)
  | none =>
    match (gens i).objects (blobType !executable) hash with
    | none => (none, gens)
    | some content =>
      let gens := store hashes i (blobType executable) content gens
      ((gens i).objects (blobType executable) hash, gens)

def splice (i : Nat) : List Hash → Generations Hash → Option Str × Generations Hash
  | [], gens => (some [], gens)
  | part :: rest, gens =>
    match blobPath hashes i part false gens with
    | (none, gens) => (none, gens)
    | (some content, gens) =>
      let (others, gens) := splice i rest gens
      (others.map (content ++ ·), gens)

def trySplice (i : Nat) (type : LargeType) (hash : Hash) (gens : Generations Hash) :
    Option Str × Generations Hash :=
  match (gens i).entries type hash with
  | none => (none, gens)
  | some parts => splice hashes i parts gens

/-- `LargeObjectCAS::LocalUplink` — where there is no large entry, there is nothing to do. -/
def localUplinkLargeObject
    (uplinkPart : Hash → Generations Hash → Bool × Generations Hash) (i : Nat) (type : LargeType)
    (hash : Hash) (gens : Generations Hash) : Bool × Generations Hash :=
  if ((gens 0).entries type hash).isSome then (true, gens)
  else
    match (gens i).entries type hash with
    | none => (true, gens)
    | some parts =>
      match allOf uplinkPart parts gens with
      | (false, gens) => (false, gens)
      | (true, gens) => (true, update gens 0 ((gens 0).setEntry type hash parts))

/-- The blob to uplink, with or without synchronisation of the x-bits. -/
def findBlob (i : Nat) (hash : Hash) (executable skipSync : Bool) (gens : Generations Hash) :
    Option Str × Generations Hash :=
  if skipSync then ((gens i).objects (blobType executable) hash, gens)
  else blobPath hashes i hash executable gens

/-- `LocalCAS::LocalUplinkBlob` — from a generation to the youngest one. The parts of a large entry
are uplinked as blobs, as deep as the fuel allows. -/
def localUplinkBlob : Nat → Nat → Hash → Bool → Bool → Bool → Generations Hash →
    Bool × Generations Hash
  | 0, _, _, _, _, _, gens => (false, gens)
  | fuel + 1, i, hash, executable, skipSync, spliceResult, gens =>
    if ((gens 0).objects (blobType executable) hash).isSome then (true, gens)
    else
      match findBlob hashes i hash executable skipSync gens with
      | (some content, gens) => (true, store hashes 0 (blobType executable) content gens)
      | (none, gens) =>
        match trySplice hashes i .file hash gens with
        | (none, gens) => (false, gens)
        | (some content, gens) =>
          -- whether the large entry could be uplinked is ignored
          let gens := (localUplinkLargeObject
            (fun part => localUplinkBlob fuel i part false true false) i .file hash gens).2
          if spliceResult then (true, store hashes 0 (blobType executable) content gens)
          else (true, gens)

end Blobs

section Trees

variable (protocol : Protocol Hash) (fuel : Nat)

/-- The content of a tree, and whether it was spliced. -/
def treeContent (i : Nat) (hash : Hash) (gens : Generations Hash) :
    Option (Str × Bool) × Generations Hash :=
  match (gens i).objects protocol.treeType hash with
  | some content => (some (content, false), gens)
  | none =>
    let (spliced, gens) := trySplice protocol.hashes i protocol.treeType.large hash gens
    (spliced.map (·, true), gens)

/-- The large entry of a spliced tree is uplinked; whether that works is ignored. -/
def uplinkSplicedTree (i : Nat) (hash : Hash) (spliced : Bool) (gens : Generations Hash) :
    Generations Hash :=
  if spliced then
    (localUplinkLargeObject
      (fun part => localUplinkBlob protocol.hashes fuel i part false true false) i
      protocol.treeType.large hash gens).2
  else gens

/-- `LocalCAS::LocalUplinkGitTree`, down to a depth. -/
def localUplinkGitTree (i : Nat) : Nat → Hash → Bool → Generations Hash → Bool × Generations Hash
  | 0, _, _, gens => (false, gens)
  | depth + 1, hash, spliceResult, gens =>
    if ((gens 0).objects protocol.treeType hash).isSome then (true, gens)
    else
      match treeContent protocol i hash gens with
      | (none, gens) => (false, gens)
      | (some (content, spliced), gens) =>
        match protocol.readTreeData content with
        | none => (false, gens)
        | some entries =>
          let uplinkEntry := fun (entry : Hash × ObjectType) gens =>
            if entry.2 = .tree then localUplinkGitTree i depth entry.1 false gens
            else localUplinkBlob protocol.hashes fuel i entry.1 (entry.2 = .executable) false false gens
          match allOf uplinkEntry entries gens with
          | (false, gens) => (false, gens)
          | (true, gens) =>
            let gens := uplinkSplicedTree protocol fuel i hash spliced gens
            if spliced && !spliceResult then (true, gens)
            else (true, store protocol.hashes 0 protocol.treeType content gens)

/-- `LocalCAS::LocalUplinkBazelDirectory`, down to a depth, with the directories seen. -/
def localUplinkBazelDirectory (i : Nat) : Nat → Hash → Bool → List Hash × Generations Hash →
    Bool × List Hash × Generations Hash
  | 0, _, _, state => (false, state)
  | depth + 1, hash, spliceResult, (seen, gens) =>
    if hash ∈ seen then (true, seen, gens)
    else
      match treeContent protocol i hash gens with
      | (none, gens) => (false, seen, gens)
      | (some (content, spliced), gens) =>
        match protocol.readDirectory content with
        | none => (false, seen, gens)
        | some (files, directories) =>
          let uplinkFile := fun (file : Hash × Bool) =>
            localUplinkBlob protocol.hashes fuel i file.1 file.2 false false
          match allOf uplinkFile files gens with
          | (false, gens) => (false, seen, gens)
          | (true, gens) =>
            let uplinkDirectory := fun directory =>
              localUplinkBazelDirectory i depth directory false
            match allOf uplinkDirectory directories (seen, gens) with
            | (false, state) => (false, state)
            | (true, seen, gens) =>
              let latest := ((gens 0).objects protocol.treeType hash).isSome
              let gens := uplinkSplicedTree protocol fuel i hash spliced gens
              let gens :=
                if (spliced && !spliceResult) || latest then gens
                else store protocol.hashes 0 protocol.treeType content gens
              (true, hash :: seen, gens)

def localUplinkTree (i depth : Nat) (hash : Hash) (spliceResult : Bool) (gens : Generations Hash) :
    Bool × Generations Hash :=
  if protocol.native then localUplinkGitTree protocol fuel i depth hash spliceResult gens
  else
    let (uplinked, _, gens) :=
      localUplinkBazelDirectory protocol fuel i depth hash spliceResult ([], gens)
    (uplinked, gens)

/-! ## All generations -/

variable (count : Nat)

def uplinkBlob (hash : Hash) (executable : Bool) (gens : Generations Hash) :
    Bool × Generations Hash :=
  anyOf (fun i => localUplinkBlob protocol.hashes fuel i hash executable true true)
    (List.range count) gens

def uplinkTree (depth : Nat) (hash : Hash) (gens : Generations Hash) : Bool × Generations Hash :=
  anyOf (fun i => localUplinkTree protocol fuel i depth hash true) (List.range count) gens

def uplinkLargeBlob (hash : Hash) (gens : Generations Hash) : Bool × Generations Hash :=
  anyOf (fun i => localUplinkLargeObject
    (fun part => localUplinkBlob protocol.hashes fuel i part false true false) i .file hash)
    (List.range count) gens

/-- `LargeObjectCAS::GetEntryPath`, with uplinking. -/
def getEntryPath (isTree : Bool) (depth : Nat) (hash : Hash) (gens : Generations Hash) :
    Option (List Hash) × Generations Hash :=
  let type := if isTree then protocol.treeType.large else .file
  match (gens 0).entries type hash with
  | some parts => (some parts, gens)
  | none =>
    let (uplinked, gens) :=
      if isTree && !protocol.native then uplinkTree protocol fuel count depth hash gens
      else uplinkLargeBlob protocol fuel count hash gens
    (if uplinked then (gens 0).entries type hash else none, gens)

end Trees

end Generations

end Jst.Storage
