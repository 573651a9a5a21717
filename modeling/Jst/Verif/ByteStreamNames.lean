import Jst.Common.ArtifactDescription
import Jst.Remote.ByteStream
import Mathlib.Data.List.TakeWhile
/-!
# Names of byte-stream resources are read back

The splitter does not see a delimiter that is the first character of a part, so an empty uuid is
lost. What is read need not be what would be written: the number at the end may be written in
another way, and an empty first part is dropped.
-/
namespace Jst.Verif.ByteStreamNames

open Remote Remote.ByteStream Path

variable {name : Str} {digest : ArtifactDigest}

/-! ## Parts -/

theorem splitLoop_plain {part text : Str} (plain : slash ∉ text) (some' : part ++ text ≠ []) :
    splitLoop false part text = [part ++ text] := by
  induction text generalizing part with
  | nil =>
    rw [append_nil] at some' ⊢
    rw [splitLoop, if_neg (by simpa using some')]
  | cons byte rest step =>
    have differ : byte ≠ slash := fun same => plain (same ▸ mem_cons_self)
    have later : slash ∉ rest := fun member => plain (mem_cons_of_mem _ member)
    rw [splitLoop, if_neg differ, step later (by simp), append_assoc]
    rfl

variable {instanceName part text : Str}

theorem splitLoop_append (plain : slash ∉ text) (rest : Str) :
    splitLoop false part (text ++ slash :: rest) = (part ++ text) :: splitLoop true [] rest := by
  induction text generalizing part with
  | nil => rw [nil_append, append_nil, splitLoop, if_pos rfl]
  | cons byte more step =>
    have differ : byte ≠ slash := fun same => plain (same ▸ mem_cons_self)
    have later : slash ∉ more := fun member => plain (mem_cons_of_mem _ member)
    rw [cons_append, splitLoop, if_neg differ, step later, append_assoc]
    rfl

variable {parts rest : List Str}

theorem joinParts_cons (part : Str) (some' : rest ≠ []) :
    joinParts (part :: rest) = part ++ slash :: joinParts rest := by
  cases rest with
  | nil => exact absurd rfl some'
  | cons => rfl

theorem joinParts_append {front back : List Str} (some' : front ≠ []) (more : back ≠ []) :
    joinParts (front ++ back) = joinParts front ++ slash :: joinParts back := by
  induction front with
  | nil => exact absurd rfl some'
  | cons part rest step =>
    cases rest with
    | nil => exact joinParts_cons part more
    | cons next rest =>
      rw [cons_append, joinParts_cons part (by simp), step (by simp), joinParts_cons part (by simp),
        append_assoc]
      rfl

/-- A part of a name: not empty and without slashes. -/
def IsPart (part : Str) : Prop := part ≠ [] ∧ slash ∉ part

theorem splitLoop_joinParts (plain : ∀ part ∈ parts, IsPart part) :
    splitLoop true [] (joinParts parts) = parts := by
  induction parts with
  | nil => rfl
  | cons part rest step =>
    obtain ⟨some', noSlash⟩ := plain part mem_cons_self
    have later := step (forall_mem_cons.mp plain).2
    cases part with
    | nil => exact absurd rfl some'
    | cons first more =>
      have noMore : slash ∉ more := fun member => noSlash (mem_cons_of_mem _ member)
      cases rest with
      | nil =>
        change splitLoop true [] (first :: more) = [first :: more]
        rw [splitLoop, splitLoop_plain noMore (by simp)]
        rfl
      | cons next rest =>
        rw [joinParts_cons _ (by simp), cons_append, splitLoop, splitLoop_append noMore, later]
        rfl

theorem splitRequest_joinParts (noSlash : slash ∉ part)
    (some' : part :: rest ≠ [[]]) (plain : ∀ part ∈ rest, IsPart part) :
    splitRequest (joinParts (part :: rest)) = part :: rest := by
  have later := splitLoop_joinParts plain
  cases rest with
  | nil =>
    have nonempty : part ≠ [] := fun empty => some' (by rw [empty])
    exact @splitLoop_plain [] part noSlash nonempty
  | cons next rest =>
    rw [joinParts_cons _ (by simp), splitRequest, splitLoop_append noSlash, later, nil_append]

theorem splitRequest_parts (plain : ∀ part ∈ parts, IsPart part) :
    splitRequest (joinParts parts) = parts := by
  cases parts with
  | nil => rfl
  | cons part rest =>
    obtain ⟨some', noSlash⟩ := plain part mem_cons_self
    refine splitRequest_joinParts noSlash (fun same => some' (cons.inj same).1) ?_
    exact (forall_mem_cons.mp plain).2

theorem splitLoop_ne_nil {skip : Bool} (some' : part ++ text ≠ []) :
    splitLoop skip part text ≠ [] := by
  induction text generalizing skip part with
  | nil =>
    rw [append_nil] at some'
    rw [splitLoop, if_neg (by simpa using some')]
    simp
  | cons byte rest step =>
    cases skip with
    | true => exact step (by simp)
    | false =>
      rw [splitLoop]
      split
      · simp
      · exact step (by simp)

theorem joinParts_splitLoop (skip : Bool) (part text : Str) :
    part ++ text = joinParts (splitLoop skip part text) ∨
      part ++ text = joinParts (splitLoop skip part text) ++ [slash] := by
  induction text generalizing skip part with
  | nil =>
    left
    rw [splitLoop, append_nil]
    cases part <;> rfl
  | cons byte rest step =>
    cases skip with
    | true =>
      have inner := step false (part ++ [byte])
      rwa [append_assoc] at inner
    | false =>
      rw [splitLoop]
      split
      · next same =>
        subst same
        by_cases last : rest = []
        · subst last
          right
          rfl
        · rw [joinParts_cons part (splitLoop_ne_nil (by simpa using last))]
          rcases step true [] with exact_ | dropped
          · left
            rw [← exact_]
            rfl
          · right
            rw [append_assoc, cons_append, ← dropped]
            rfl
      · have inner := step false (part ++ [byte])
        rwa [append_assoc] at inner

theorem slash_notMem_tail {skip : Bool} {part text : Str} (plain : slash ∉ part.tail)
    (fresh : skip = true → part = []) : ∀ found ∈ splitLoop skip part text, slash ∉ found.tail := by
  induction text generalizing skip part with
  | nil =>
    rw [splitLoop]
    split
    · simp
    · simpa using plain
  | cons byte rest step =>
    cases skip with
    | true =>
      rw [splitLoop, fresh rfl]
      exact step (by simp) (fun absurd => nomatch absurd)
    | false =>
      rw [splitLoop]
      split
      · intro found member
        cases mem_cons.mp member with
        | inl here => exact here ▸ plain
        | inr later => exact step (by simp) (fun _ => rfl) found later
      · next differ =>
        refine step ?_ (fun absurd => nomatch absurd)
        cases part with
        | nil => simp
        | cons first more =>
          intro member
          rcases mem_append.mp member with before | here
          · exact plain before
          · exact differ (mem_singleton.mp here).symm

/-! ## Numbers -/

theorem readDigits_decimal (number : Nat) :
    ∃ digits, Number.readDigits (Number.decimal number) = (digits, []) ∧ digits ≠ [] ∧
      Number.digitsValue 10 digits = number := by
  have isDigit : ∀ byte ∈ Number.decimal number, Number.isDigit byte = true := by
    intro byte member
    obtain ⟨low, high⟩ := decimal_bytes number byte member
    simp only [Number.isDigit, and_eq_true, decide_eq_true_eq, UInt8.le_iff_toNat_le]
    exact ⟨low, high⟩
  refine ⟨(Number.decimal number).map fun byte => byte.toNat - 48, ?_, ?_, ?_⟩
  · rw [Number.readDigits, List.takeWhile_eq_self_iff.mpr isDigit,
      List.dropWhile_eq_nil_iff.mpr isDigit]
  · simp [Number.decimal]
  · have value : ∀ (digits : List Char) (start : Nat), (∀ digit ∈ digits, digit.isDigit = true) →
        (digits.map fun digit => digit.toUInt8.toNat - 48).foldl
          (fun value digit => 10 * value + digit) start = Nat.ofDigitChars 10 digits start := by
      intro digits
      induction digits with
      | nil => exact fun _ _ => rfl
      | cons digit digits step =>
        intro start all
        have here := toUInt8_digit (all digit mem_cons_self)
        have same : digit.toUInt8.toNat = digit.toNat := by
          have code : ∀ number ≤ 57, (Char.ofNat number).toNat = number := by decide
          exact (code _ here.1.2).symm.trans (congrArg Char.toNat here.2)
        rw [map_cons, foldl_cons, step _ fun other member =>
          all other (mem_cons_of_mem _ member), same]
        rfl
    rw [Number.digitsValue, Number.decimal, map_map]
    exact (value _ 0 fun digit member => Nat.isDigit_of_mem_toDigits (by decide) (by decide) member).trans
      Nat.ofDigitChars_ten_toDigits

theorem stoul_decimal (number : Nat) :
    stoul (Number.decimal number) = if 2 ^ 64 ≤ number then none else some number := by
  obtain ⟨digits, read, some', value⟩ := readDigits_decimal number
  have first : ∃ byte rest, Number.decimal number = byte :: rest ∧ 48 ≤ byte.toNat := by
    cases shape : Number.decimal number with
    | nil =>
      rw [shape] at read
      cases read
      exact absurd rfl some'
    | cons byte rest =>
      exact ⟨byte, rest, rfl, (decimal_bytes number byte (by rw [shape]; exact mem_cons_self)).1⟩
  obtain ⟨byte, rest, shape, low⟩ := first
  have noSpace : (Number.decimal number).dropWhile Number.isSpace = Number.decimal number := by
    rw [shape, List.dropWhile_cons_of_neg]
    simp only [Number.isSpace, or_eq_true, and_eq_true, decide_eq_true_eq,
      UInt8.le_iff_toNat_le, ← UInt8.toNat_inj, not_or, not_and]
    exact ⟨by change byte.toNat ≠ 32; omega, fun _ => by change ¬byte.toNat ≤ 13; omega⟩
  have noSign : Number.readSign (Number.decimal number) = (false, Number.decimal number) := by
    rw [shape]
    unfold Number.readSign
    split
    · next same =>
      cases same
      exact absurd low (by decide)
    · next same =>
      cases same
      exact absurd low (by decide)
    · rfl
  unfold stoul
  rw [noSpace, noSign]
  simp only [read, value]
  by_cases large : 2 ^ 64 ≤ number
  · rw [if_pos (.inr large), if_pos large]
  · rw [if_neg (not_or.mpr ⟨by simp [some'], large⟩), if_neg large]
    rfl

theorem stoul_slash (rest : Str) : stoul (slash :: rest) = none := by
  have noSpace : (slash :: rest).dropWhile Number.isSpace = slash :: rest :=
    List.dropWhile_cons_of_neg (by decide)
  unfold stoul
  rw [noSpace]
  rfl

/-! ## Keywords -/

theorem findKeyword_spec {keyword forbidden : Str} {index : Nat}
    (found : findKeyword keyword forbidden parts = some index) :
    ∃ front back, parts = front ++ keyword :: back ∧ front.length = index ∧ keyword ∉ front := by
  induction parts generalizing index with
  | nil => cases found
  | cons part rest step =>
    rw [findKeyword] at found
    split at found
    · next same =>
      cases found
      exact ⟨[], rest, by rw [same]; rfl, rfl, by simp⟩
    · next differ =>
      split at found
      · cases found
      · split at found
        · cases found
        · obtain ⟨inner, later, rfl⟩ := map_eq_some_iff.mp found
          obtain ⟨front, back, same, length, absent⟩ := step later
          refine ⟨part :: front, back, by rw [same]; rfl, by rw [length_cons, length], ?_⟩
          intro member
          cases mem_cons.mp member with
          | inl here => exact differ here.symm
          | inr later => exact absent later

/-- A part that may not occur in an instance name. -/
def IsReserved (part : Str) : Prop :=
  part = blobs ∨ part = uploads ∨ part ∈ otherReservedFragments

theorem findKeyword_append {keyword forbidden : Str} {front : List Str}
    (reserved : IsReserved keyword) (alsoReserved : IsReserved forbidden)
    (allowed : ∀ part ∈ front, ¬IsReserved part) (back : List Str) :
    findKeyword keyword forbidden (front ++ keyword :: back) = some front.length := by
  induction front with
  | nil =>
    rw [nil_append, findKeyword, if_pos rfl]
    rfl
  | cons part rest step =>
    have here := allowed part mem_cons_self
    have notKeyword : part ≠ keyword := fun same => here (same ▸ reserved)
    have notForbidden : part ≠ forbidden := fun same => here (same ▸ alsoReserved)
    rw [cons_append, findKeyword, if_neg notKeyword, if_neg notForbidden,
      if_neg fun member => here (.inr (.inr member)),
      step (forall_mem_cons.mp allowed).2]
    rfl

/-! ## What is read is what was written -/

/-- The text behind the last slash. -/
def behindSlash (text : Str) : Str := (text.reverse.takeWhile (· ≠ slash)).reverse

theorem behindSlash_append (front : Str) {back : Str} (plain : slash ∉ back) :
    behindSlash (front ++ slash :: back) = back := by
  have none : ∀ byte ∈ back.reverse, decide (byte ≠ slash) = true := by
    intro byte member
    exact decide_eq_true fun same : byte = slash => plain (same ▸ List.mem_reverse.mp member)
  rw [behindSlash, reverse_append, reverse_cons, append_assoc,
    List.takeWhile_append_of_pos none, singleton_append, List.takeWhile_cons_of_neg (by simp),
    append_nil, reverse_reverse]

/-- The name is written in the one way: the number is a decimal, and no empty instance name stands
in front of the keyword. -/
def Canonical (keyword name : Str) : Prop :=
  (∃ number, behindSlash name = Number.decimal number) ∧ ¬(slash :: keyword ++ [slash]) <+: name

theorem decimal_isPart (number : Nat) : IsPart (Number.decimal number) := by
  constructor
  · obtain ⟨digits, read, some', _⟩ := readDigits_decimal number
    intro empty
    rw [empty] at read
    cases read
    exact some' rfl
  · exact fun member => absurd (decimal_bytes number slash member).1 (by decide)

theorem text_eq_iff {keyword sizeText : Str} {front middle : List Str} {size : Nat}
    (parts : splitRequest name = front ++ keyword :: (middle ++ [sizeText]))
    (number : stoul sizeText = some size) (isPart : IsPart keyword) (absent : keyword ∉ front) :
    name = withInstance (joinParts front)
        (joinParts (keyword :: (middle ++ [Number.decimal size]))) ↔ Canonical keyword name := by
  -- The name is the parts joined, up to a slash at its end.
  have joined := joinParts_splitLoop false [] name
  rw [nil_append, ← splitRequest, parts] at joined
  have plain : slash ∉ sizeText := by
    have tail := @slash_notMem_tail false [] name (by simp) (fun absurd => nomatch absurd) sizeText
      (by rw [← splitRequest, parts]; simp)
    cases sizeText with
    | nil => simp
    | cons first rest =>
      intro member
      cases mem_cons.mp member with
      | inl here =>
        rw [← here, stoul_slash] at number
        cases number
      | inr later => exact tail later
  have split : ∀ last, joinParts (front ++ keyword :: (middle ++ [last])) =
      joinParts (front ++ keyword :: middle) ++ slash :: last := by
    intro last
    rw [← cons_append, ← append_assoc, joinParts_append (by simp) (by simp)]
    rfl
  have inner : ∀ last, joinParts (keyword :: (middle ++ [last])) =
      joinParts (keyword :: middle) ++ slash :: last := by
    intro last
    rw [← cons_append, joinParts_append (by simp) (by simp)]
    rfl
  -- With an empty first part the name starts with a slash and the keyword.
  have empty : joinParts front = [] → front ≠ [] → (slash :: keyword ++ [slash]) <+: name := by
    intro none some'
    have one : front = [[]] := by
      cases front with
      | nil => exact absurd rfl some'
      | cons first rest =>
        cases rest with
        | nil => rw [show first = [] from none]
        | cons next rest =>
          rw [joinParts_cons first (by simp)] at none
          exact absurd none (by simp)
    have start : joinParts (front ++ keyword :: (middle ++ [sizeText])) =
        slash :: keyword ++ [slash] ++ joinParts (middle ++ [sizeText]) := by
      rw [one, singleton_append, joinParts_cons [] (by simp), joinParts_cons keyword (by simp)]
      simp
    rcases joined with same | same
    · exact ⟨_, by rw [same, start]⟩
    · exact ⟨joinParts (middle ++ [sizeText]) ++ [slash], by
        rw [same, start]
        simp only [append_assoc]⟩
  constructor
  · intro same
    constructor
    · refine ⟨size, ?_⟩
      rw [same, inner]
      unfold withInstance
      split
      · exact behindSlash_append _ (decimal_isPart size).2
      · rw [← cons_append, ← append_assoc]
        exact behindSlash_append _ (decimal_isPart size).2
    · rintro ⟨rest, starts⟩
      -- Then the first part is empty, and what is written starts with the keyword.
      have again : splitRequest name = [] :: keyword :: splitLoop true [] rest := by
        obtain ⟨some', noSlash⟩ := isPart
        cases keyword with
        | nil => exact absurd rfl some'
        | cons first more =>
          have noMore : slash ∉ more := fun member => noSlash (mem_cons_of_mem _ member)
          rw [← starts, splitRequest]
          change splitLoop false [] ([] ++ slash :: (first :: more ++ [slash] ++ rest)) = _
          rw [splitLoop_append (by simp), append_assoc, cons_append, splitLoop,
            singleton_append, splitLoop_append noMore]
          rfl
      rw [parts] at again
      have none : joinParts front = [] ∧ front ≠ [] := by
        cases front with
        | nil => exact absurd (cons.inj again).1 isPart.1
        | cons first others =>
          obtain ⟨rfl, others'⟩ := cons.inj again
          cases others with
          | nil => exact ⟨rfl, by simp⟩
          | cons next others =>
            obtain ⟨rfl, _⟩ := cons.inj others'
            exact absurd (mem_cons_of_mem _ mem_cons_self) absent
      rw [none.1, withInstance, if_pos (show ([] : Str).isEmpty = true from rfl), inner, ← starts] at same
      obtain ⟨some', noSlash⟩ := isPart
      cases keyword with
      | nil => exact absurd rfl some'
      | cons first more =>
        have head := congrArg List.head? same
        cases middle with
        | nil =>
          simp only [joinParts, cons_append, List.head?_cons, some.injEq] at head
          exact noSlash (head ▸ mem_cons_self)
        | cons next middle =>
          rw [joinParts_cons _ (by simp)] at head
          simp only [cons_append, List.head?_cons, some.injEq] at head
          exact noSlash (head ▸ mem_cons_self)
  · rintro ⟨⟨value, behind⟩, noEmpty⟩
    have exact_ : name = joinParts (front ++ keyword :: (middle ++ [sizeText])) := by
      refine joined.resolve_right fun dropped => ?_
      rw [dropped, behindSlash_append _ (not_mem_nil)] at behind
      exact (decimal_isPart value).1 behind.symm
    have digits : sizeText = Number.decimal value := by
      rw [exact_, split, behindSlash_append _ plain] at behind
      exact behind
    have same : value = size := by
      rw [digits, stoul_decimal] at number
      split at number
      · cases number
      · exact some.inj number
    rw [exact_, digits, same]
    unfold withInstance
    by_cases noFront : front = []
    · rw [noFront]
      rfl
    · have some' : joinParts front ≠ [] := fun none => noEmpty (empty none noFront)
      rw [if_neg (by simpa using some'), joinParts_append noFront (by simp)]

/-! ## Requests -/

/-- An instance name: empty, or non-empty segments none of which is reserved. -/
def IsInstanceName (name : Str) : Prop :=
  ∃ segments, name = joinParts segments ∧ ∀ part ∈ segments, IsPart part ∧ ¬IsReserved part

theorem hash_isPart {bazel : BazelDigest}
    (written : ArtifactDigestFactory.toBazel digest = some bazel) : IsPart bazel.hash := by
  have length := digest.hashInfo.length_hash
  have hex : ∀ byte ∈ digest.hashInfo.hash, byte ≠ slash := by
    intro byte member same
    have valid := digest.hashInfo.valid
    unfold validateInput at valid
    split at valid
    · cases valid
    · split at valid
      · cases valid
      · split at valid
        · cases valid
        · next isHex =>
          simp only [Bool.not_eq_true', Bool.not_eq_false] at isHex
          have digit := List.all_eq_true.mp isHex byte member
          rw [same] at digit
          exact absurd digit (by decide)
  unfold ArtifactDigestFactory.toBazel at written
  split at written
  · cases written
    simp only [BazelDigestFactory.create]
    split
    · constructor
      · simp only [BazelDigestFactory.addTag]
        cases digest.hashInfo.isTree <;> exact cons_ne_nil _ _
      · intro member
        rcases mem_append.mp member with tag | inHash
        · revert tag
          cases digest.hashInfo.isTree <;> decide
        · exact hex slash inHash rfl
    · constructor
      · intro empty
        rw [empty] at length
        cases type : digest.hashInfo.hashType <;> rw [type] at length <;> cases length
      · exact fun member => hex slash member rfl
  · cases written

theorem withInstance_joinParts {segments : List Str} (plain : ∀ part ∈ segments, IsPart part)
    (some' : rest ≠ []) :
    withInstance (joinParts segments) (joinParts rest) = joinParts (segments ++ rest) := by
  unfold withInstance
  cases segments with
  | nil => rfl
  | cons part segments =>
    have nonempty : joinParts (part :: segments) ≠ [] := by
      have here := (plain part mem_cons_self).1
      cases segments with
      | nil => exact here
      | cons next segments =>
        rw [joinParts_cons part (by simp)]
        simp
    rw [if_neg (by simpa using nonempty), joinParts_append (by simp) some']

theorem stoul_size (digest : ArtifactDigest) :
    stoul (Number.decimal digest.size.toNat) = some digest.size.toNat := by
  rw [stoul_decimal, if_neg (Nat.not_le.mpr digest.size.toNat_lt)]

theorem keywords_isPart : IsPart blobs ∧ IsPart uploads := by
  constructor <;> exact ⟨by decide, by decide⟩

theorem read_roundTrip (isInstance : IsInstanceName instanceName)
    (written : ReadRequest.toString instanceName digest = some name) :
    ∃ bazel, ArtifactDigestFactory.toBazel digest = some bazel ∧
      ReadRequest.fromString name = some (.ofDigest instanceName digest bazel) := by
  obtain ⟨bazel, toBazel, rfl⟩ := map_eq_some_iff.mp written
  obtain ⟨segments, rfl, allowed⟩ := isInstance
  have plain : ∀ part ∈ segments, IsPart part := fun part member => (allowed part member).1
  have all : ∀ part ∈ segments ++ [blobs, bazel.hash, Number.decimal digest.size.toNat],
      IsPart part := by
    intro part member
    rcases mem_append.mp member with before | after
    · exact plain part before
    · simp only [mem_cons, not_mem_nil, or_false] at after
      rcases after with rfl | rfl | rfl
      · exact keywords_isPart.1
      · exact hash_isPart toBazel
      · exact decimal_isPart _
  have parts : splitRequest (ReadRequest.ofDigest (joinParts segments) digest bazel).text =
      segments ++ [blobs, bazel.hash, Number.decimal digest.size.toNat] := by
    rw [ReadRequest.text]
    simp only [ReadRequest.ofDigest]
    rw [withInstance_joinParts plain (by simp)]
    exact splitRequest_parts all
  have found := @findKeyword_append blobs uploads segments (.inl rfl) (.inr (.inl rfl))
    (fun part member => (allowed part member).2) [bazel.hash, Number.decimal digest.size.toNat]
  refine ⟨bazel, toBazel, ?_⟩
  unfold ReadRequest.fromString
  simp only [parts, found, bind_eq_bind, bind_some, length_append,
    length_cons, length_nil, ne_eq, not_true_eq_false, if_false]
  rw [List.getElem?_append_right (by omega), List.getElem?_append_right (by omega),
    Nat.add_sub_cancel_left, Nat.add_sub_cancel_left, List.take_left]
  simp only [List.getElem?_cons_succ, List.getElem?_cons_zero, bind_some, stoul_size, pure_def]
  rfl

theorem write_roundTrip_iff {uuid : Str} (isInstance : IsInstanceName instanceName)
    (noSlash : slash ∉ uuid) (written : WriteRequest.toString instanceName uuid digest = some name) :
    (∃ bazel, ArtifactDigestFactory.toBazel digest = some bazel ∧
      WriteRequest.fromString name = some (.ofDigest instanceName uuid digest bazel)) ↔
      uuid ≠ [] := by
  obtain ⟨bazel, toBazel, rfl⟩ := map_eq_some_iff.mp written
  obtain ⟨segments, rfl, allowed⟩ := isInstance
  have plain : ∀ part ∈ segments, IsPart part := fun part member => (allowed part member).1
  have found := fun back => @findKeyword_append uploads blobs segments (.inr (.inl rfl)) (.inl rfl)
    (fun part member => (allowed part member).2) back
  have isHash := hash_isPart toBazel
  have text : (WriteRequest.ofDigest (joinParts segments) uuid digest bazel).text =
      joinParts (segments ++
        [uploads, uuid, blobs, bazel.hash, Number.decimal digest.size.toNat]) := by
    rw [WriteRequest.text]
    simp only [WriteRequest.ofDigest]
    exact withInstance_joinParts plain (by simp)
  constructor
  · rintro ⟨_, _, read⟩ rfl
    -- The delimiter behind the empty uuid is taken for the start of the next part.
    have parts : splitRequest (joinParts (segments ++
        [uploads, [], blobs, bazel.hash, Number.decimal digest.size.toNat])) =
        segments ++ [uploads, slash :: blobs, bazel.hash, Number.decimal digest.size.toNat] := by
      have shape : joinParts (segments ++
          [uploads, [], blobs, bazel.hash, Number.decimal digest.size.toNat]) =
          joinParts (segments ++ [uploads]) ++ slash :: slash ::
            joinParts [blobs, bazel.hash, Number.decimal digest.size.toNat] := by
        rw [show segments ++ [uploads, [], blobs, bazel.hash, Number.decimal digest.size.toNat] =
          segments ++ [uploads] ++ [[], blobs, bazel.hash, Number.decimal digest.size.toNat] by simp,
          joinParts_append (by simp) (by simp)]
        rfl
      have behind : splitLoop true [] (slash ::
          joinParts [blobs, bazel.hash, Number.decimal digest.size.toNat]) =
          [slash :: blobs, bazel.hash, Number.decimal digest.size.toNat] := by
        rw [splitLoop, joinParts_cons blobs (by simp), splitLoop_append keywords_isPart.1.2,
          splitLoop_joinParts]
        · rfl
        · intro part member
          simp only [mem_cons, not_mem_nil, or_false] at member
          rcases member with rfl | rfl
          · exact isHash
          · exact decimal_isPart _
      have front : ∀ parts : List Str, (∀ part ∈ parts, IsPart part) → parts ≠ [] → ∀ rest skip,
          splitLoop skip [] (joinParts parts ++ slash :: rest) =
            parts ++ splitLoop true [] rest := by
        intro parts all some' rest
        induction parts with
        | nil => exact absurd rfl some'
        | cons part parts step =>
          have here := all part mem_cons_self
          have later := step (forall_mem_cons.mp all).2
          intro skip
          have one : ∀ more, splitLoop skip [] (part ++ slash :: more) =
              part :: splitLoop true [] more := by
            intro more
            cases skip with
            | false => exact splitLoop_append here.2 more
            | true =>
              cases part with
              | nil => exact absurd rfl here.1
              | cons first tail =>
                rw [cons_append, splitLoop, splitLoop_append fun member =>
                  here.2 (mem_cons_of_mem _ member)]
                rfl
          cases parts with
          | nil => exact one rest
          | cons next parts =>
            rw [joinParts_cons part (by simp), append_assoc, cons_append, one, later (by simp) true]
            rfl
      rw [shape, splitRequest, front _ _ (by simp) _ false, behind, append_assoc]
      · rfl
      · intro part member
        rcases mem_append.mp member with before | after
        · exact plain part before
        · cases mem_singleton.mp after
          exact keywords_isPart.2
    rw [text] at read
    unfold WriteRequest.fromString at read
    simp only [parts, found, bind_eq_bind, bind_some, length_append,
      length_cons, length_nil] at read
    rw [if_pos (.inl (by omega))] at read
    cases read
  · intro some'
    have all : ∀ part ∈ segments ++
        [uploads, uuid, blobs, bazel.hash, Number.decimal digest.size.toNat], IsPart part := by
      intro part member
      rcases mem_append.mp member with before | after
      · exact plain part before
      · simp only [mem_cons, not_mem_nil, or_false] at after
        rcases after with rfl | rfl | rfl | rfl | rfl
        · exact keywords_isPart.2
        · exact ⟨some', noSlash⟩
        · exact keywords_isPart.1
        · exact isHash
        · exact decimal_isPart _
    refine ⟨bazel, toBazel, ?_⟩
    unfold WriteRequest.fromString
    rw [text]
    simp only [splitRequest_parts all, found, bind_eq_bind, bind_some]
    have at_ : ∀ index, (segments ++ [uploads, uuid, blobs, bazel.hash,
        Number.decimal digest.size.toNat])[segments.length + index]? =
        [uploads, uuid, blobs, bazel.hash, Number.decimal digest.size.toNat][index]? := by
      intro index
      rw [List.getElem?_append_right (by omega), Nat.add_sub_cancel_left]
    rw [if_neg (by rw [at_]; simp), at_, at_, at_, List.take_left]
    simp only [List.getElem?_cons_succ, List.getElem?_cons_zero, bind_some, stoul_size, pure_def]
    rfl

theorem read_exact_iff {request : ReadRequest} (read : ReadRequest.fromString name = some request) :
    name = request.text ↔ Canonical blobs name := by
  unfold ReadRequest.fromString at read
  obtain ⟨index, found, read⟩ := bind_eq_some_iff.mp read
  obtain ⟨front, back, parts, length, absent⟩ := findKeyword_spec found
  by_cases count : (splitRequest name).length = index + 3
  · rw [if_neg (not_not.mpr count)] at read
    rw [parts, length_append, length_cons] at count
    match back, count with
    | [hash, sizeText], _ =>
      subst length
      rw [parts, List.getElem?_append_right (by omega), List.getElem?_append_right (by omega),
        Nat.add_sub_cancel_left, Nat.add_sub_cancel_left, List.take_left] at read
      simp only [List.getElem?_cons_succ, List.getElem?_cons_zero, bind_eq_bind,
        bind_some, bind_eq_some_iff, pure_def, some.injEq] at read
      obtain ⟨size, number, rfl⟩ := read
      exact @text_eq_iff name blobs sizeText front [hash] size parts number keywords_isPart.1 absent
    | [], count => simp only [length_nil] at count; omega
    | [_], count => simp only [length_cons, length_nil] at count; omega
    | _ :: _ :: _ :: _, count => simp only [length_cons] at count; omega
  · rw [if_pos count] at read
    cases read

theorem write_exact_iff {request : WriteRequest}
    (read : WriteRequest.fromString name = some request) :
    name = request.text ↔ Canonical uploads name := by
  unfold WriteRequest.fromString at read
  obtain ⟨index, found, read⟩ := bind_eq_some_iff.mp read
  obtain ⟨front, back, parts, length, absent⟩ := findKeyword_spec found
  by_cases count : (splitRequest name).length ≠ index + 5 ∨ (splitRequest name)[index + 2]? ≠ some blobs
  · rw [if_pos count] at read
    cases read
  · rw [if_neg count] at read
    obtain ⟨count, isBlobs⟩ := not_or.mp count
    have count := not_not.mp count
    have isBlobs := not_not.mp isBlobs
    rw [parts, length_append, length_cons] at count
    subst length
    have at_ : ∀ offset, (splitRequest name)[front.length + offset]? = (uploads :: back)[offset]? := by
      intro offset
      rw [parts, List.getElem?_append_right (by omega), Nat.add_sub_cancel_left]
    rw [at_] at isBlobs
    rw [at_, at_, at_, parts, List.take_left] at read
    match back, count with
    | [uuid, middle, hash, sizeText], _ =>
      simp only [List.getElem?_cons_succ, List.getElem?_cons_zero, some.injEq] at isBlobs
      simp only [List.getElem?_cons_succ, List.getElem?_cons_zero, bind_eq_bind,
        bind_some, bind_eq_some_iff, pure_def, some.injEq] at read
      obtain ⟨size, number, rfl⟩ := read
      subst isBlobs
      exact @text_eq_iff name uploads sizeText front [uuid, blobs, hash] size parts number
        keywords_isPart.2 absent
    | [], count => simp only [length_nil] at count; omega
    | [_], count => simp only [length_cons, length_nil] at count; omega
    | [_, _], count => simp only [length_cons, length_nil] at count; omega
    | [_, _, _], count => simp only [length_cons, length_nil] at count; omega
    | _ :: _ :: _ :: _ :: _ :: _, count => simp only [length_cons] at count; omega

/-- Names are read back exactly if no uuid is empty, and read names are what is written for them
exactly if they are written in the one way. -/
theorem names_iff (instanceName uuid name : Str) (digest : ArtifactDigest) (read : ReadRequest)
    (write : WriteRequest) :
    (IsInstanceName instanceName → ReadRequest.toString instanceName digest = some name →
      ∃ bazel, ArtifactDigestFactory.toBazel digest = some bazel ∧
        ReadRequest.fromString name = some (.ofDigest instanceName digest bazel)) ∧
    (IsInstanceName instanceName → slash ∉ uuid →
      WriteRequest.toString instanceName uuid digest = some name →
      ((∃ bazel, ArtifactDigestFactory.toBazel digest = some bazel ∧
        WriteRequest.fromString name = some (.ofDigest instanceName uuid digest bazel)) ↔
        uuid ≠ [])) ∧
    (ReadRequest.fromString name = some read → (name = read.text ↔ Canonical blobs name)) ∧
    (WriteRequest.fromString name = some write → (name = write.text ↔ Canonical uploads name)) :=
  ⟨fun isInstance written => read_roundTrip isInstance written,
    fun isInstance noSlash written => write_roundTrip_iff isInstance noSlash written,
    fun isRead => read_exact_iff isRead, fun isRead => write_exact_iff isRead⟩

theorem trailing_iff :
    lit "blobs/ab/12x" = ReadRequest.text ⟨[], lit "ab", 12⟩ ↔ Canonical blobs (lit "blobs/ab/12x") :=
  (names_iff [] [] (lit "blobs/ab/12x")
    ⟨⟨replicate 40 48, .gitSHA1, false, by decide⟩, 12⟩ ⟨[], lit "ab", 12⟩
    ⟨[], [], lit "ab", 12⟩).2.2.1 (by decide)

theorem trailing_notExact :
    ReadRequest.fromString (lit "blobs/ab/12x") = some ⟨[], lit "ab", 12⟩ ∧
      lit "blobs/ab/12x" ≠ ReadRequest.text ⟨[], lit "ab", 12⟩ := by
  constructor <;> decide

end Jst.Verif.ByteStreamNames
