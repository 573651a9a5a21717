import Jst.Common.ArtifactDescription
import Jst.Tools.Import
/-!
# The names of imported repositories

A repository gets the first candidate that is not taken. What counts as taken are the existing names
and the foreign names of the repositories named before, not the names they got; so two repositories
get the same name if one of them is called like the other one with a number.
-/
namespace Jst.Verif.ImportNames

open SortedMap Tools.Import

variable {baseName : Str} {count number : Nat} {taken : Str → Bool}

/-- What a candidate appends to the name. -/
def suffix (count : Nat) : Str :=
  if count = 0 then [] else lit " (" ++ Number.decimal count ++ lit ")"

theorem candidate_eq (baseName name : Str) (count : Nat) :
    candidate baseName name count = baseName ++ lit "/" ++ (name ++ suffix count) := by
  unfold candidate suffix
  split <;> simp [append_assoc]

theorem append_cons_inj {Item : Type} {separator : Item} {front front' back back' : List Item}
    (absent : separator ∉ back) (absent' : separator ∉ back')
    (same : front ++ separator :: back = front' ++ separator :: back') :
    front = front' ∧ back = back' := by
  rcases List.append_eq_append_iff.mp same with ⟨middle, first, second⟩ | ⟨middle, first, second⟩
  · cases middle with
    | nil => exact ⟨by simpa using first.symm, by simpa using second⟩
    | cons item rest =>
      refine absurd ?_ absent
      rw [(cons.inj second).2]
      exact mem_append_right _ mem_cons_self
  · cases middle with
    | nil => exact ⟨by simpa using first, by simpa using second.symm⟩
    | cons item rest =>
      refine absurd ?_ absent'
      rw [(cons.inj second).2]
      exact mem_append_right _ mem_cons_self

variable {left name right : Str}

theorem append_suffix_inj (positive : 0 < count) (counted : 0 < number)
    (same : left ++ suffix count = right ++ suffix number) : left = right ∧ count = number := by
  have digits : ∀ number, (40 : UInt8) ∉ Number.decimal number := fun number member =>
    absurd (decimal_bytes number 40 member) (by decide)
  have shape : ∀ (name : Str) (number : Nat), 0 < number →
      name ++ suffix number = (name ++ [32]) ++ 40 :: (Number.decimal number ++ [41]) := by
    intro name number positive
    rw [suffix, if_neg (by omega)]
    have opening : lit " (" = [32, 40] := by decide
    have closing : lit ")" = [41] := by decide
    simp [opening, closing]
  rw [shape left count positive, shape right number counted] at same
  have parts := append_cons_inj (by simp [digits]) (by simp [digits]) same
  exact ⟨List.append_cancel_right parts.1, decimal_injective (List.append_cancel_right parts.2)⟩

theorem suffix_ne_nil (positive : 0 < count) : suffix count ≠ [] := by
  have closing : lit ")" = [41] := by decide
  rw [suffix, if_neg (by omega), closing]
  simp

theorem candidate_injective
    (same : candidate baseName name count = candidate baseName name number) : count = number := by
  rw [candidate_eq, candidate_eq] at same
  have suffixes := append_cancel_left same
  rcases Nat.eq_zero_or_pos count with zero | positive
  · rcases Nat.eq_zero_or_pos number with none | counted
    · rw [zero, none]
    · rw [zero] at suffixes
      exact absurd (append_cancel_left suffixes).symm (suffix_ne_nil counted)
  · rcases Nat.eq_zero_or_pos number with none | counted
    · rw [none] at suffixes
      exact absurd (append_cancel_left suffixes) (suffix_ne_nil positive)
    · exact (append_suffix_inj positive counted suffixes).2

theorem candidate_clash (differ : left ≠ right)
    (same : candidate baseName left count = candidate baseName right number) :
    (0 < count ∧ number = 0 ∧ right = left ++ suffix count) ∨
      (0 < number ∧ count = 0 ∧ left = right ++ suffix number) := by
  rw [candidate_eq, candidate_eq] at same
  have names := append_cancel_left same
  rcases Nat.eq_zero_or_pos count with zero | positive
  · rcases Nat.eq_zero_or_pos number with none | counted
    · rw [zero, none] at names
      exact absurd (List.append_cancel_right names) differ
    · rw [zero] at names
      exact .inr ⟨counted, zero, (append_nil left).symm.trans names⟩
  · rcases Nat.eq_zero_or_pos number with none | counted
    · rw [none] at names
      exact .inl ⟨positive, none, (names.trans (append_nil right)).symm⟩
    · exact absurd (append_suffix_inj positive counted names).1 differ

/-! ## The search -/

variable {depth : Nat}

theorem findName_spec {result : Str}
    (success : findName taken baseName name depth count = some result) :
    ∃ number, count ≤ number ∧ result = candidate baseName name number ∧ taken result = false ∧
      ∀ other, count ≤ other → other < number → taken (candidate baseName name other) = true := by
  induction depth generalizing count with
  | zero => cases success
  | succ depth step =>
    simp only [findName] at success
    cases here : taken (candidate baseName name count) with
    | true =>
      rw [here, if_pos rfl] at success
      obtain ⟨number, large, same, free, before⟩ := step success
      refine ⟨number, by omega, same, free, fun other above below => ?_⟩
      rcases Nat.eq_or_lt_of_le above with same | above
      · exact same ▸ here
      · exact before other above below
    | false =>
      rw [here, if_neg false_ne_true] at success
      cases success
      exact ⟨count, le_refl _, rfl, here, fun other above below => by omega⟩

theorem findName_none (failure : findName taken baseName name depth count = none) (other : Nat)
    (above : count ≤ other) (below : other < count + depth) :
    taken (candidate baseName name other) = true := by
  induction depth generalizing count with
  | zero => omega
  | succ depth step =>
    simp only [findName] at failure
    cases here : taken (candidate baseName name count) with
    | true =>
      rw [here, if_pos rfl] at failure
      rcases Nat.eq_or_lt_of_le above with same | above
      · exact same ▸ here
      · exact step failure above (by omega)
    | false =>
      rw [here, if_neg false_ne_true] at failure
      cases failure

theorem findName_ends {names : List Str} (finite : ∀ name, taken name = true → name ∈ names)
    (baseName name : Str) {depth : Nat} (large : names.length < depth) :
    ∃ result, findName taken baseName name depth 0 = some result := by
  cases found : findName taken baseName name depth 0 with
  | some result => exact ⟨result, rfl⟩
  | none =>
    have distinct : ((List.range depth).map (candidate baseName name)).Nodup :=
      List.nodup_range.map fun _ _ => candidate_injective
    have inside : (List.range depth).map (candidate baseName name) ⊆ names := by
      intro result member
      obtain ⟨number, low, rfl⟩ := mem_map.mp member
      exact finite _ (findName_none found number (Nat.zero_le _) (by
        have := List.mem_range.mp low
        omega))
    have short := (List.subperm_of_subset distinct inside).length_le
    simp only [length_map, List.length_range] at short
    omega

/-- A name is the first candidate that is neither in use nor a foreign name named before. -/
def FirstFree (taken : Str → Prop) (baseName name result : Str) (count : Nat) : Prop :=
  result = candidate baseName name count ∧ ¬taken result ∧
    ∀ other < count, taken (candidate baseName name other)

/-- What is taken when a repository is named. -/
abbrev Taken (existing earlier : List Str) (name : Str) : Prop := name ∈ existing ∨ name ∈ earlier

theorem assignNames_spec {existing : List Str} {order : List Str} {assign result : List (Str × Str)}
    (success : assignNames existing baseName depth order assign = some result) :
    ∃ named, result = assign ++ named ∧ named.map (·.1) = order ∧
      ∀ front item back, named = front ++ item :: back → ∃ count,
        FirstFree (Taken existing ((assign ++ front).map (·.1))) baseName item.1 item.2 count := by
  induction order generalizing assign with
  | nil =>
    cases success
    exact ⟨[], by simp, rfl, fun front item back split => by simp at split⟩
  | cons repo rest step =>
    simp only [assignNames, bind_eq_bind, bind_eq_some_iff] at success
    obtain ⟨name, found, remaining⟩ := success
    obtain ⟨named, same, keys, first⟩ := step remaining
    refine ⟨(repo, name) :: named, by rw [same, append_assoc]; rfl, by simp [keys], ?_⟩
    intro front item back split
    cases front with
    | nil =>
      cases split
      obtain ⟨count, _, candidate, free, before⟩ := findName_spec found
      refine ⟨count, candidate, ?_, fun other below => ?_⟩
      · rw [append_nil]
        exact of_decide_eq_false free
      · rw [append_nil]
        exact of_decide_eq_true (before other (Nat.zero_le _) below)
    | cons head front =>
      obtain ⟨rfl, inner⟩ := cons.inj split
      have later := first front item back inner
      rw [append_assoc] at later
      exact later

theorem assignNames_ends (existing : List Str) (baseName : Str) (order : List Str)
    (assign : List (Str × Str)) (large : existing.length + assign.length + order.length < depth) :
    ∃ result, assignNames existing baseName depth order assign = some result := by
  induction order generalizing assign with
  | nil => exact ⟨assign, rfl⟩
  | cons repo rest step =>
    simp only [length_cons] at large
    obtain ⟨name, found⟩ := @findName_ends
      (fun name => name ∈ existing ∨ name ∈ assign.map (·.1)) (existing ++ assign.map (·.1))
      (fun name taken => mem_append.mpr (of_decide_eq_true taken)) baseName repo depth
      (by simp only [length_append, length_map]; omega)
    obtain ⟨result, ran⟩ := step (assign ++ [(repo, name)]) (by
      simp only [length_append, length_cons, length_nil]
      omega)
    exact ⟨result, by simp only [assignNames, found, bind_eq_bind, bind_some, ran]⟩

/-! ## All names -/

/-- How the repositories are named: the first one may get the base name, every other one gets its
first free candidate. -/
structure Named (existing : List Str) (baseName main : Str) (order : List Str)
    (result : List (Str × Str)) : Prop where
  keys : result.map (·.1) = order
  first : ∀ front item back, result = front ++ item :: back →
    (item = (main, baseName) ∧ baseName ∉ existing) ∨
      (¬(item.1 = main ∧ baseName ∉ existing) ∧ ∃ count,
        FirstFree (Taken existing (front.map (·.1))) baseName item.1 item.2 count)

theorem nameImports_spec {existing : List Str} {main : Str} {rest extra : List Str}
    {result : List (Str × Str)} (once : main ∉ rest) (noLayer : main ∉ extra)
    (success : nameImports (main :: rest) extra existing baseName main depth = some result) :
    Named existing baseName main (main :: rest ++ extra) result := by
  unfold nameImports at success
  by_cases inUse : baseName ∉ existing
  · rw [if_pos inUse] at success
    have others : (main :: rest ++ extra).filter (· ≠ main) = rest ++ extra := by
      rw [cons_append, List.filter_cons_of_neg (by simp), List.filter_eq_self]
      intro name member
      refine decide_eq_true fun same => ?_
      rcases mem_append.mp member with inRest | inExtra
      · exact once (same ▸ inRest)
      · exact noLayer (same ▸ inExtra)
    rw [others] at success
    obtain ⟨named, rfl, keys, first⟩ := assignNames_spec success
    refine ⟨by simp [keys], fun front item back split => ?_⟩
    cases front with
    | nil =>
      cases split
      exact .inl ⟨rfl, inUse⟩
    | cons head front =>
      obtain ⟨rfl, inner⟩ := cons.inj split
      refine .inr ⟨fun same => ?_, first front item back inner⟩
      have member : item.1 ∈ rest ++ extra := by
        rw [← keys, show named = front ++ item :: back from inner]
        simp
      rcases mem_append.mp member with inRest | inExtra
      · exact once (same.1 ▸ inRest)
      · exact noLayer (same.1 ▸ inExtra)
  · rw [if_neg inUse] at success
    obtain ⟨named, rfl, keys, first⟩ := assignNames_spec success
    exact ⟨keys, fun front item back split =>
      .inr ⟨fun same => inUse same.2, first front item back split⟩⟩

theorem nameImports_ends (existing : List Str) (baseName main : Str) (imports extra : List Str)
    {depth : Nat} (large : existing.length + imports.length + extra.length + 1 < depth) :
    ∃ result, nameImports imports extra existing baseName main depth = some result := by
  unfold nameImports
  split
  · refine assignNames_ends existing baseName _ _ ?_
    have shorter := List.length_filter_le (fun name => decide (name ≠ main)) (imports ++ extra)
    simp only [length_append, length_cons, length_nil] at shorter ⊢
    omega
  · refine assignNames_ends existing baseName _ _ ?_
    simp only [length_append, length_nil]
    omega

/-- Two repositories that are numbered clash: one is called like the other one with the number that
the other one gets, and the name is free for both. -/
structure Clash (baseName : Str) (numbered : Str → Prop) (taken : Str → Str → Prop)
    (left right : Str) (count : Nat) : Prop where
  leftNumbered : numbered left
  rightNumbered : numbered right
  positive : 0 < count
  called : right = left ++ suffix count
  before : ∀ other < count, taken left (candidate baseName left other)
  free : ¬taken left (candidate baseName left count)
  alsoFree : ¬taken right (candidate baseName left count)

theorem FirstFree.unique {taken : Str → Prop} (first : FirstFree taken baseName name left count)
    (second : FirstFree taken baseName name right number) : left = right := by
  obtain ⟨rfl, free, before⟩ := first
  obtain ⟨rfl, alsoFree, alsoBefore⟩ := second
  rcases Nat.lt_trichotomy count number with less | same | more
  · exact absurd (alsoBefore count less) free
  · rw [same]
  · exact absurd (before number more) alsoFree

section

variable {existing order : List Str} {baseName main : Str} {result : List (Str × Str)}
  {numbered : Str → Prop} {taken : Str → Str → Prop}

theorem Named.entry (named : Named existing baseName main order result)
    (isTaken : ∀ name front back, order = front ++ name :: back → ∀ other,
      taken name other ↔ Taken existing front other)
    (isNumbered : ∀ name, numbered name ↔ name ∈ order ∧ ¬(name = main ∧ baseName ∉ existing))
    {item : Str × Str} (member : item ∈ result) : (item = (main, baseName) ∧ baseName ∉ existing) ∨
      (numbered item.1 ∧ ∃ count, FirstFree (taken item.1) baseName item.1 item.2 count) := by
  obtain ⟨front, back, split⟩ := append_of_mem member
  have key : item.1 ∈ order := named.keys ▸ mem_map_of_mem member
  have place : order = front.map (·.1) ++ item.1 :: back.map (·.1) := by
    rw [← named.keys, split]
    simp
  refine (named.first front item back split).imp_right fun ⟨notMain, count, free⟩ =>
    ⟨(isNumbered _).mpr ⟨key, notMain⟩, count, ?_⟩
  rwa [show taken item.1 = Taken existing (front.map (·.1)) from
    funext fun other => propext (isTaken _ _ _ place other)]

theorem Named.fresh (named : Named existing baseName main order result) {item : Str × Str}
    (member : item ∈ result) : item.2 ∉ existing := by
  obtain ⟨front, back, split⟩ := append_of_mem member
  rcases named.first front item back split with ⟨same, unused⟩ | ⟨_, count, _, free, _⟩
  · rw [same]
    exact unused
  · exact fun inUse => free (.inl inUse)

theorem candidate_ne (baseName name : Str) (count : Nat) : candidate baseName name count ≠ baseName := by
  intro same
  have lengths := congrArg List.length same
  have slash : lit "/" = [47] := by decide
  rw [candidate_eq, slash] at lengths
  simp only [length_append, length_cons, length_nil] at lengths
  omega

theorem Named.injective_iff (named : Named existing baseName main order result)
    (isTaken : ∀ name front back, order = front ++ name :: back → ∀ other,
      taken name other ↔ Taken existing front other)
    (isNumbered : ∀ name, numbered name ↔ name ∈ order ∧ ¬(name = main ∧ baseName ∉ existing)) :
    (∀ left right name, (left, name) ∈ result → (right, name) ∈ result → left = right) ↔
      ¬∃ left right count, Clash baseName numbered taken left right count := by
  have given : ∀ name, numbered name → ∃ result' count, (name, result') ∈ result ∧
      FirstFree (taken name) baseName name result' count := by
    intro name isNumber
    obtain ⟨inOrder, notMain⟩ := (isNumbered name).mp isNumber
    rw [← named.keys] at inOrder
    obtain ⟨item, member, rfl⟩ := mem_map.mp inOrder
    rcases named.entry isTaken isNumbered member with ⟨same, unused⟩ | ⟨_, count, free⟩
    · exact absurd ⟨by rw [same], unused⟩ notMain
    · exact ⟨item.2, count, member, free⟩
  constructor
  · rintro injective ⟨left, right, count, clash⟩
    obtain ⟨leftName, _, leftMember, leftFree⟩ := given left clash.leftNumbered
    obtain ⟨rightName, _, rightMember, rightFree⟩ := given right clash.rightNumbered
    have plain : candidate baseName right 0 = candidate baseName left count := by
      rw [candidate_eq, candidate_eq, clash.called]
      simp [suffix]
    have leftSame : leftName = candidate baseName left count :=
      leftFree.unique ⟨rfl, clash.free, clash.before⟩
    have rightSame : rightName = candidate baseName right 0 :=
      rightFree.unique ⟨rfl, plain ▸ clash.alsoFree, fun other below => absurd below (by omega)⟩
    have same := injective left right leftName leftMember (by
      rw [leftSame, ← plain, ← rightSame]
      exact rightMember)
    refine suffix_ne_nil clash.positive (@append_cancel_left _ left _ _ ?_)
    rw [append_nil, ← clash.called, same]
  · intro noClash left right name leftMember rightMember
    by_contra differ
    rcases named.entry isTaken isNumbered leftMember with ⟨leftSame, _⟩ | ⟨leftNumbered, count, leftFree⟩
    · rcases named.entry isTaken isNumbered rightMember with ⟨rightSame, _⟩ | ⟨_, number, rightFree⟩
      · exact differ ((Prod.mk.inj leftSame).1.trans (Prod.mk.inj rightSame).1.symm)
      · exact candidate_ne baseName right number
          (rightFree.1.symm.trans (Prod.mk.inj leftSame).2)
    · rcases named.entry isTaken isNumbered rightMember with
        ⟨rightSame, _⟩ | ⟨rightNumbered, number, rightFree⟩
      · exact candidate_ne baseName left count (leftFree.1.symm.trans (Prod.mk.inj rightSame).2)
      · have same : candidate baseName left count = candidate baseName right number :=
          leftFree.1.symm.trans rightFree.1
        have leftOpen : ¬taken left (candidate baseName left count) := leftFree.1 ▸ leftFree.2.1
        have rightOpen : ¬taken right (candidate baseName right number) :=
          rightFree.1 ▸ rightFree.2.1
        rcases candidate_clash differ same with ⟨positive, _, called⟩ | ⟨positive, _, called⟩
        · exact noClash ⟨left, right, count, leftNumbered, rightNumbered, positive, called,
            leftFree.2.2, leftOpen, same ▸ rightOpen⟩
        · exact noClash ⟨right, left, number, rightNumbered, leftNumbered, positive, called,
            rightFree.2.2, rightOpen, same ▸ leftOpen⟩

end

end Jst.Verif.ImportNames
