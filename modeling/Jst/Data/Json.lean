import Jst.Data.JsonString
/-!
# JSON values

A JSON value and its text without blanks. The numbers and their texts are a parameter; a number
without a text is written as null. Apart from these numbers a value can be told from its text, also
where more text stands behind it.
-/
namespace Jst

variable {whole : Str}

/-- A JSON value. -/
inductive Json (Number : Type) where
  | null
  | bool (value : Bool)
  | number (value : Number)
  | string (value : Str)
  | array (items : List (Json Number))
  | object (fields : List (Str × Json Number))

namespace Json

variable {Number : Type}

/-- The bytes of the text of a number. -/
def isNumberByte (byte : UInt8) : Bool :=
  48 ≤ byte && byte ≤ 57 || byte = 43 || byte = 45 || byte = 46 || byte = 69 || byte = 101

/-- Every text of a number is made of the bytes of numbers, and no two numbers have the same one. -/
structure IsNumberText (text : Number → Option Str) : Prop where
  nonempty : ∀ value, text value ≠ some []
  bytes : ∀ value shown, text value = some shown → ∀ byte ∈ shown, isNumberByte byte = true
  injective : ∀ left right shown, text left = some shown → text right = some shown → left = right

section Text

variable (text : Number → Option Str)

mutual
/-- The text of a value; it has none if one of its strings is not UTF-8. -/
def dump : Json Number → Option Str
  | null => some (lit "null")
  | bool true => some (lit "true")
  | bool false => some (lit "false")
  | number value => some ((text value).getD (lit "null"))
  | string value => JsonString.dump value
  | array items => (dumpItems true items).map fun inside => 91 :: inside ++ [93]
  | object fields => (dumpFields true fields).map fun inside => 123 :: inside ++ [125]

/-- The texts of the items of an array, with commas between them. -/
def dumpItems (isFirst : Bool) : List (Json Number) → Option Str
  | [] => some []
  | item :: rest => do
    let shown ← dump item
    let more ← dumpItems false rest
    some ((if isFirst then [] else [44]) ++ (shown ++ more))

/-- The texts of the fields of an object, with commas between them. -/
def dumpFields (isFirst : Bool) : List (Str × Json Number) → Option Str
  | [] => some []
  | (key, value) :: rest => do
    let name ← JsonString.dump key
    let shown ← dump value
    let more ← dumpFields false rest
    some ((if isFirst then [] else [44]) ++ (name ++ 58 :: (shown ++ more)))
end

mutual
/-- The value that a text shows, with null for a number without a text. -/
def shown : Json Number → Json Number
  | number value => if (text value).isSome then number value else null
  | array items => array (shownItems items)
  | object fields => object (shownFields fields)
  | value => value

/-- The items that a text shows. -/
def shownItems : List (Json Number) → List (Json Number)
  | [] => []
  | item :: rest => shown item :: shownItems rest

/-- The fields that a text shows. -/
def shownFields : List (Str × Json Number) → List (Str × Json Number)
  | [] => []
  | (key, value) :: rest => (key, shown value) :: shownFields rest
end

/-- What the first byte of the text of a value is, with a zero for any byte of a number. -/
def leader : Json Number → UInt8
  | null => 110
  | bool true => 116
  | bool false => 102
  | number value => if (text value).isSome then 48 else 110
  | string _ => 34
  | array _ => 91
  | object _ => 123

end Text

/-- The kind of a value that begins with a byte. -/
def leaderOf (byte : UInt8) : UInt8 := if isNumberByte byte then 48 else byte

/-- No number goes on in a text. -/
def Ends (rest : Str) : Prop := ∀ byte ∈ rest.head?, isNumberByte byte = false

theorem ends_nil : Ends [] := by
  intro byte none
  cases none

variable {first more other rest second : Str}

theorem ends_cons {byte : UInt8} (other : isNumberByte byte = false) : Ends (byte :: rest) := by
  intro first same
  cases same
  exact other

variable {text : Number → Option Str}

theorem number_append_inj (bytes : ∀ byte ∈ first, isNumberByte byte = true)
    (moreBytes : ∀ byte ∈ second, isNumberByte byte = true) (ends : Ends rest)
    (moreEnds : Ends other) (same : first ++ rest = second ++ other) :
    first = second ∧ rest = other := by
  have stops : ∀ {front back : Str}, (∀ byte ∈ front, isNumberByte byte = true) → Ends back →
      (front ++ back).takeWhile isNumberByte = front := by
    intro front back inside outside
    rw [List.takeWhile_append_of_pos inside]
    cases back with
    | nil => simp
    | cons byte tail =>
      rw [List.takeWhile_cons_of_neg (by simp [outside byte rfl]), append_nil]
  have fronts : first = second := by
    rw [← stops bytes ends, same, stops moreBytes moreEnds]
  subst fronts
  exact ⟨rfl, append_cancel_left same⟩

theorem string_append_inj {left right : Str}
    (dumped : JsonString.dump left = some first) (moreDumped : JsonString.dump right = some second)
    (same : first ++ rest = second ++ other) : left = right ∧ rest = other := by
  unfold JsonString.dump at dumped moreDumped
  split at dumped <;> split at moreDumped <;> cases dumped <;> cases moreDumped
  rename_i utf8 moreUtf8
  have texts : JsonString.escape left ++ JsonString.quote :: rest =
      JsonString.escape right ++ JsonString.quote :: other := by simpa using same
  rcases List.append_eq_append_iff.mp texts with ⟨between, right', left'⟩ | ⟨between, left', right'⟩
  · cases between with
    | nil =>
      rw [append_nil] at right'
      have strings := JsonString.unescape_escape utf8
      rw [← right', JsonString.unescape_escape moreUtf8] at strings
      exact ⟨(some.inj strings).symm, (cons.inj left').2⟩
    | cons byte tail =>
      rw [cons_append] at left'
      have strings := JsonString.unescape_escape_quote utf8 tail
      rw [(cons.inj left').1, ← right', JsonString.unescape_escape moreUtf8] at strings
      cases strings
  · cases between with
    | nil =>
      rw [append_nil] at left'
      have strings := JsonString.unescape_escape utf8
      rw [left', JsonString.unescape_escape moreUtf8] at strings
      exact ⟨(some.inj strings).symm, (cons.inj right').2.symm⟩
    | cons byte tail =>
      rw [cons_append] at right'
      have strings := JsonString.unescape_escape_quote moreUtf8 tail
      rw [(cons.inj right').1, ← left', JsonString.unescape_escape utf8] at strings
      cases strings

variable {json : Json Number}

theorem leader_dump (numbers : IsNumberText text) (dumped : dump text json = some whole) :
    ∃ byte rest, whole = byte :: rest ∧ leaderOf byte = leader text json := by
  cases json with
  | null => cases dumped; exact ⟨110, _, rfl, (by decide : leaderOf 110 = 110)⟩
  | bool value =>
    cases value with
    | true => cases dumped; exact ⟨116, _, rfl, (by decide : leaderOf 116 = 116)⟩
    | false => cases dumped; exact ⟨102, _, rfl, (by decide : leaderOf 102 = 102)⟩
  | number value =>
    cases dumped
    cases number : text value with
    | none => exact ⟨110, _, rfl, by simp [leader, number]; decide⟩
    | some shown =>
      cases shown with
      | nil => exact absurd number (numbers.nonempty value)
      | cons byte rest =>
        refine ⟨byte, rest, rfl, ?_⟩
        have isByte := numbers.bytes value _ number byte mem_cons_self
        simp [leader, number, leaderOf, isByte]
  | string value =>
    simp only [dump, JsonString.dump] at dumped
    split at dumped <;> cases dumped
    exact ⟨34, _, rfl, (by decide : leaderOf 34 = 34)⟩
  | array items =>
    simp only [dump, map_eq_some_iff] at dumped
    obtain ⟨inside, -, rfl⟩ := dumped
    exact ⟨91, _, rfl, (by decide : leaderOf 91 = 91)⟩
  | object fields =>
    simp only [dump, map_eq_some_iff] at dumped
    obtain ⟨inside, -, rfl⟩ := dumped
    exact ⟨123, _, rfl, (by decide : leaderOf 123 = 123)⟩

theorem leader_ne (json : Json Number) : leader text json ≠ 93 := by
  cases json with
  | bool value => cases value <;> simp [leader]
  | number value => simp only [leader]; split <;> decide
  | _ => simp [leader]

theorem ends_dumpItems {items : List (Json Number)}
    (dumped : dumpItems text false items = some more) (rest : Str) : Ends (more ++ 93 :: rest) := by
  cases items with
  | nil => cases dumped; exact ends_cons (by decide)
  | cons item tail =>
    simp only [dumpItems, bind_eq_bind, bind_eq_some_iff, some.injEq] at dumped
    obtain ⟨shown, -, behind, -, rfl⟩ := dumped
    exact ends_cons (by decide)

theorem ends_dumpFields {fields : List (Str × Json Number)}
    (dumped : dumpFields text false fields = some more) (rest : Str) :
    Ends (more ++ 125 :: rest) := by
  cases fields with
  | nil => cases dumped; exact ends_cons (by decide)
  | cons field tail =>
    simp only [dumpFields, bind_eq_bind, bind_eq_some_iff, some.injEq] at dumped
    obtain ⟨name, -, shown, -, behind, -, rfl⟩ := dumped
    exact ends_cons (by decide)

theorem dumpItems_cons_ne (numbers : IsNumberText text) {item : Json Number}
    {rest : List (Json Number)} {isFirst : Bool}
    (dumped : dumpItems text isFirst (item :: rest) = some whole) (back other : Str) :
    whole ++ back ≠ 93 :: other := by
  simp only [dumpItems, bind_eq_bind, bind_eq_some_iff, some.injEq] at dumped
  obtain ⟨shown, itemDumped, more, -, rfl⟩ := dumped
  intro same
  cases isFirst with
  | false => exact absurd (cons.inj same).1 (by decide)
  | true =>
    obtain ⟨byte, tail, rfl, leads⟩ := leader_dump numbers itemDumped
    have first : byte = 93 := (cons.inj same).1
    rw [first] at leads
    exact leader_ne item leads.symm

theorem dumpFields_cons_ne {field : Str × Json Number} {rest : List (Str × Json Number)}
    {isFirst : Bool} (dumped : dumpFields text isFirst (field :: rest) = some whole)
    (back other : Str) : whole ++ back ≠ 125 :: other := by
  simp only [dumpFields, JsonString.dump, bind_eq_bind, bind_eq_some_iff, some.injEq] at dumped
  obtain ⟨name, nameDumped, shown, -, more, -, rfl⟩ := dumped
  split at nameDumped <;> cases nameDumped
  intro same
  cases isFirst with
  | false => exact absurd (cons.inj same).1 (by decide)
  | true => exact absurd (cons.inj same).1 (by decide)

theorem leader_eq (numbers : IsNumberText text) {left right : Json Number}
    (dumped : dump text left = some first)
    (moreDumped : dump text right = some second) (same : first ++ rest = second ++ other) :
    leader text left = leader text right := by
  obtain ⟨byte, tail, rfl, leads⟩ := leader_dump numbers dumped
  obtain ⟨byte', tail', rfl, leads'⟩ := leader_dump numbers moreDumped
  rw [← leads, ← leads', (cons.inj same).1]

theorem null_of_leader (kind : leader text json = 110) :
    shown text json = null ∧ dump text json = some (lit "null") := by
  cases json with
  | null => exact ⟨rfl, rfl⟩
  | bool value => cases value <;> simp [leader] at kind
  | number value =>
    simp only [leader] at kind
    split at kind
    · cases kind
    · rename_i none
      simp [shown, dump, not_isSome_iff_eq_none.mp none]
  | _ => simp [leader] at kind

theorem number_of_leader (kind : leader text json = 48) :
    ∃ value, json = number value ∧ (text value).isSome = true := by
  cases json with
  | bool value => cases value <;> simp [leader] at kind
  | number value =>
    simp only [leader] at kind
    split at kind
    · exact ⟨value, rfl, by assumption⟩
    · cases kind
  | _ => simp [leader] at kind

theorem bool_of_leader {value : Bool} (kind : leader text json = if value then 116 else 102) :
    json = bool value := by
  cases json with
  | bool other => cases value <;> cases other <;> simp [leader] at kind ⊢
  | number other => simp only [leader] at kind; split at kind <;> cases value <;> cases kind
  | _ => cases value <;> simp [leader] at kind

theorem string_of_leader (kind : leader text json = 34) : ∃ value, json = string value := by
  cases json with
  | bool value => cases value <;> simp [leader] at kind
  | number value => simp only [leader] at kind; split at kind <;> cases kind
  | string value => exact ⟨value, rfl⟩
  | _ => simp [leader] at kind

theorem array_of_leader (kind : leader text json = 91) : ∃ items, json = array items := by
  cases json with
  | bool value => cases value <;> simp [leader] at kind
  | number value => simp only [leader] at kind; split at kind <;> cases kind
  | array items => exact ⟨items, rfl⟩
  | _ => simp [leader] at kind

theorem object_of_leader (kind : leader text json = 123) : ∃ fields, json = object fields := by
  cases json with
  | bool value => cases value <;> simp [leader] at kind
  | number value => simp only [leader] at kind; split at kind <;> cases kind
  | object fields => exact ⟨fields, rfl⟩
  | _ => simp [leader] at kind

mutual
theorem dump_append_inj (numbers : IsNumberText text) :
    ∀ (left right : Json Number) {first second rest other : Str},
      dump text left = some first → dump text right = some second → Ends rest → Ends other →
      first ++ rest = second ++ other → shown text left = shown text right ∧ rest = other
  | left, right, first, second, rest, other, dumped, moreDumped, ends, moreEnds, same => by
    have kinds := (leader_eq numbers dumped moreDumped same).symm
    cases left with
    | null =>
      obtain ⟨isNull, text⟩ := null_of_leader kinds
      rw [text] at moreDumped
      cases dumped
      cases moreDumped
      exact ⟨isNull.symm, append_cancel_left same⟩
    | bool value =>
      obtain rfl := @bool_of_leader _ text right value (by cases value <;> exact kinds)
      rw [dumped] at moreDumped
      cases moreDumped
      exact ⟨rfl, append_cancel_left same⟩
    | number value =>
      cases number : text value with
      | none =>
        simp only [leader, number] at kinds
        obtain ⟨isNull, text⟩ := null_of_leader kinds
        rw [text] at moreDumped
        simp only [dump, number] at dumped
        cases dumped
        cases moreDumped
        exact ⟨by simp [shown, number, isNull], append_cancel_left same⟩
      | some digits =>
        simp only [leader, number] at kinds
        obtain ⟨value', rfl, hasText⟩ := number_of_leader kinds
        obtain ⟨digits', number'⟩ := isSome_iff_exists.mp hasText
        simp only [dump, number, number', getD_some, some.injEq] at dumped moreDumped
        subst dumped moreDumped
        obtain ⟨rfl, rests⟩ := number_append_inj (numbers.bytes _ _ number)
          (numbers.bytes _ _ number') ends moreEnds same
        rw [numbers.injective _ _ _ number number']
        exact ⟨rfl, rests⟩
    | string value =>
      obtain ⟨value', rfl⟩ := string_of_leader kinds
      obtain ⟨rfl, rests⟩ := string_append_inj dumped moreDumped same
      exact ⟨rfl, rests⟩
    | array items =>
      obtain ⟨items', rfl⟩ := array_of_leader kinds
      simp only [dump, map_eq_some_iff] at dumped moreDumped
      obtain ⟨inside, dumped, rfl⟩ := dumped
      obtain ⟨inside', moreDumped, rfl⟩ := moreDumped
      obtain ⟨same, rests⟩ := dumpItems_append_inj numbers items items' dumped moreDumped
        (by simpa using same)
      exact ⟨by rw [shown, shown, same], rests⟩
    | object fields =>
      obtain ⟨fields', rfl⟩ := object_of_leader kinds
      simp only [dump, map_eq_some_iff] at dumped moreDumped
      obtain ⟨inside, dumped, rfl⟩ := dumped
      obtain ⟨inside', moreDumped, rfl⟩ := moreDumped
      obtain ⟨same, rests⟩ := dumpFields_append_inj numbers fields fields' dumped moreDumped
        (by simpa using same)
      exact ⟨by rw [shown, shown, same], rests⟩

theorem dumpItems_append_inj (numbers : IsNumberText text) :
    ∀ (lefts rights : List (Json Number)) {isFirst : Bool} {first second rest other : Str},
      dumpItems text isFirst lefts = some first → dumpItems text isFirst rights = some second →
      first ++ 93 :: rest = second ++ 93 :: other →
      shownItems text lefts = shownItems text rights ∧ rest = other
  | [], [], isFirst, first, second, rest, other, dumped, moreDumped, same => by
    cases dumped
    cases moreDumped
    exact ⟨rfl, (cons.inj same).2⟩
  | [], right :: rights, isFirst, first, second, rest, other, dumped, moreDumped, same => by
    cases dumped
    exact absurd same.symm (dumpItems_cons_ne numbers moreDumped _ _)
  | left :: lefts, [], isFirst, first, second, rest, other, dumped, moreDumped, same => by
    cases moreDumped
    exact absurd same (dumpItems_cons_ne numbers dumped _ _)
  | left :: lefts, right :: rights, isFirst, first, second, rest, other, dumped, moreDumped, same => by
    simp only [dumpItems, bind_eq_bind, bind_eq_some_iff, some.injEq]
      at dumped moreDumped
    obtain ⟨item, itemDumped, more, restDumped, rfl⟩ := dumped
    obtain ⟨item', itemDumped', more', restDumped', rfl⟩ := moreDumped
    simp only [append_assoc] at same
    obtain ⟨heads, tails⟩ := dump_append_inj numbers left right itemDumped itemDumped'
      (ends_dumpItems restDumped rest) (ends_dumpItems restDumped' other)
      (append_cancel_left same)
    obtain ⟨items, rests⟩ := dumpItems_append_inj numbers lefts rights restDumped restDumped' tails
    exact ⟨by rw [shownItems, shownItems, heads, items], rests⟩

theorem dumpFields_append_inj (numbers : IsNumberText text) :
    ∀ (lefts rights : List (Str × Json Number)) {isFirst : Bool} {first second rest other : Str},
      dumpFields text isFirst lefts = some first → dumpFields text isFirst rights = some second →
      first ++ 125 :: rest = second ++ 125 :: other →
      shownFields text lefts = shownFields text rights ∧ rest = other
  | [], [], isFirst, first, second, rest, other, dumped, moreDumped, same => by
    cases dumped
    cases moreDumped
    exact ⟨rfl, (cons.inj same).2⟩
  | [], right :: rights, isFirst, first, second, rest, other, dumped, moreDumped, same => by
    cases dumped
    exact absurd same.symm (dumpFields_cons_ne moreDumped _ _)
  | left :: lefts, [], isFirst, first, second, rest, other, dumped, moreDumped, same => by
    cases moreDumped
    exact absurd same (dumpFields_cons_ne dumped _ _)
  | (key, left) :: lefts, (key', right) :: rights, isFirst, first, second, rest, other, dumped,
      moreDumped, same => by
    simp only [dumpFields, bind_eq_bind, bind_eq_some_iff, some.injEq]
      at dumped moreDumped
    obtain ⟨name, nameDumped, value, valueDumped, more, restDumped, rfl⟩ := dumped
    obtain ⟨name', nameDumped', value', valueDumped', more', restDumped', rfl⟩ := moreDumped
    simp only [append_assoc, cons_append] at same
    obtain ⟨rfl, colons⟩ := string_append_inj nameDumped nameDumped' (append_cancel_left same)
    obtain ⟨heads, tails⟩ := dump_append_inj numbers left right valueDumped valueDumped'
      (ends_dumpFields restDumped rest) (ends_dumpFields restDumped' other)
      (cons.inj colons).2
    obtain ⟨fields, rests⟩ := dumpFields_append_inj numbers lefts rights restDumped restDumped' tails
    exact ⟨by rw [shownFields, shownFields, heads, fields], rests⟩
end

theorem dump_inj (numbers : IsNumberText text) {left right : Json Number}
    (dumped : dump text left = some whole) (moreDumped : dump text right = some whole) :
    shown text left = shown text right :=
  (dump_append_inj numbers left right dumped moreDumped ends_nil ends_nil rfl).1

mutual
theorem dump_shown : ∀ json : Json Number, dump text (shown text json) = dump text json
  | null | bool _ | string _ => rfl
  | number value => by
    cases number : text value <;> simp [shown, dump, number]
  | array items => by rw [shown, dump, dump, dumpItems_shown]
  | object fields => by rw [shown, dump, dump, dumpFields_shown]

theorem dumpItems_shown : ∀ (items : List (Json Number)) {isFirst : Bool},
    dumpItems text isFirst (shownItems text items) = dumpItems text isFirst items
  | [], _ => rfl
  | item :: rest, _ => by
    rw [shownItems, dumpItems, dumpItems, dump_shown item, dumpItems_shown rest]

theorem dumpFields_shown : ∀ (fields : List (Str × Json Number)) {isFirst : Bool},
    dumpFields text isFirst (shownFields text fields) = dumpFields text isFirst fields
  | [], _ => rfl
  | (_, value) :: rest, _ => by
    rw [shownFields, dumpFields, dumpFields, dump_shown value, dumpFields_shown rest]
end

end Json

end Jst
