import Jst.Expression.Expression
/-!
# Hashes of expressions

Equal expressions have equal hashes. The converse fails for numbers that JSON cannot write, which
are hashed as null, and for what is inside a result or a node: that is hashed by its JSON, in which
an artifact looks like a map and a name like a list. Up to this, the hash tells expressions apart.
-/
namespace Jst.Verif.ExpressionHash

open Jst.Expression Jst.Expression.Expr
open Jst.Number (Double)

variable {hash : Str}

/-! ## Which expressions are alike -/

/-- No digest is the beginning of a different one. As all digests have the same length, this says
that there are no collisions. -/
def CollisionFree (sha : Str → Str) : Prop :=
  ∀ left right rest other, sha left ++ rest = sha right ++ other → left = right

/-- An expression that is written as null. -/
def IsNullish : Expr → Prop
  | .none => True
  | .number value => value.isFinite = false
  | _ => False

section Alike

variable (doubleText : Double → Str) (sha : Str → Str)

/-- Two expressions are written as the same JSON. -/
def SameJson (mode : JsonMode) (left right : Expr) : Prop :=
  (toJson doubleText sha mode left).map (Json.shown (numberText doubleText)) =
    (toJson doubleText sha mode right).map (Json.shown (numberText doubleText))

mutual
/-- Two expressions differ only where the hash does not: in what is written as null, or inside
results and nodes, which have to have the same JSON. -/
def Alike : Expr → Expr → Prop
  | .anonymousTarget ruleMap targetNode, .anonymousTarget ruleMap' targetNode' =>
    Alike ruleMap ruleMap' ∧ Alike targetNode targetNode'
  | .result artifactStage provides runfiles _, .result artifactStage' provides' runfiles' _ =>
    SameJson doubleText sha .serializeAllButNodes artifactStage artifactStage' ∧
      SameJson doubleText sha .serializeAllButNodes provides provides' ∧
      SameJson doubleText sha .serializeAllButNodes runfiles runfiles'
  | .valueNode value, .valueNode value' => SameJson doubleText sha .serializeAll value value'
  | .abstractNode nodeType stringFields targetFields,
      .abstractNode nodeType' stringFields' targetFields' =>
    nodeType = nodeType' ∧ SameJson doubleText sha .serializeAll stringFields stringFields' ∧
      SameJson doubleText sha .serializeAllButNodes targetFields targetFields'
  | .list items, .list items' => AlikeItems items items'
  | .map fields, .map fields' => AlikeFields fields fields'
  | left, right => left = right ∨ IsNullish left ∧ IsNullish right

/-- Two lists of items are alike one by one. -/
def AlikeItems : List Expr → List Expr → Prop
  | [], [] => True
  | left :: lefts, right :: rights => Alike left right ∧ AlikeItems lefts rights
  | _, _ => False

/-- Two lists of entries have the same keys and are alike one by one. -/
def AlikeFields : List (Str × Expr) → List (Str × Expr) → Prop
  | [], [] => True
  | (key, left) :: lefts, (key', right) :: rights =>
    key = key' ∧ Alike left right ∧ AlikeFields lefts rights
  | _, _ => False
end

end Alike

/-! ## Digests -/

variable {doubleText : Double → Str} {sha : Str → Str}

variable {hash' hashes other rest : Str}

theorem digest_append_inj (collisionFree : CollisionFree sha) {left right : Str}
    (same : sha left ++ rest = sha right ++ other) : left = right ∧ rest = other := by
  obtain rfl := collisionFree left right rest other same
  exact ⟨rfl, append_cancel_left same⟩

theorem digest_ne_nil (collisionFree : CollisionFree sha) (text : Str) : sha text ≠ [] := by
  intro empty
  have first := collisionFree text [0] (sha [0]) [] (by rw [empty]; simp)
  have second := collisionFree text [1] (sha [1]) [] (by rw [empty]; simp)
  rw [first] at second
  exact absurd second (by decide)

theorem hashJson_eq_some {mark : String} {json : Option JsonValue}
    (hashed : hashJson doubleText sha mark json = some hash) :
    ∃ value text, json = some value ∧ value.dump (numberText doubleText) = some text ∧
      hash = sha (lit mark ++ text) := by
  simp only [hashJson, bind_eq_bind, bind_eq_some_iff, some.injEq] at hashed
  obtain ⟨value, found, text, dumped, rfl⟩ := hashed
  exact ⟨value, text, found, dumped, rfl⟩

theorem hashJson_eq_iff (collisionFree : CollisionFree sha) (doubles : IsDoubleText doubleText)
    {mark : String} {json json' : Option JsonValue}
    (hashed : hashJson doubleText sha mark json = some hash)
    (hashed' : hashJson doubleText sha mark json' = some hash') :
    hash = hash' ↔ json.map (Json.shown (numberText doubleText)) =
      json'.map (Json.shown (numberText doubleText)) := by
  obtain ⟨value, text, rfl, dumped, rfl⟩ := hashJson_eq_some hashed
  obtain ⟨value', text', rfl, dumped', rfl⟩ := hashJson_eq_some hashed'
  constructor
  · intro same
    have texts := collisionFree _ _ [] [] (congrArg (· ++ []) same)
    obtain rfl := append_cancel_left texts
    exact congrArg some (Json.dump_inj (isNumberText doubles) dumped dumped')
  · intro same
    have texts := @Json.dump_shown _ (numberText doubleText) value
    rw [some.inj same, Json.dump_shown, dumped, dumped'] at texts
    rw [some.inj texts]

/-! ## Kinds of hashes -/

/-- How an expression is hashed: by its JSON with a mark or as a list or map. -/
def group : Expr → Nat
  | .namedTarget _ | .anonymousTarget _ _ => 1
  | .artifact _ => 2
  | .result _ _ _ _ => 3
  | .valueNode _ | .abstractNode _ _ _ => 4
  | .list _ => 5
  | .map _ => 6
  | _ => 0

/-- How something is hashed, from the first byte that is. -/
def groupOf (byte : UInt8) : Nat :=
  if byte = 36 then 1
  else if byte = 64 then 2
  else if byte = 61 then 3
  else if byte = 35 then 4
  else if byte = 91 then 5
  else if byte = 123 then 6
  else 0

theorem groupOf_eq_zero {byte leader : UInt8} (leads : Json.leaderOf byte = leader)
    (plain : leader ∈ [110, 116, 102, 48, 34]) : groupOf byte = 0 := by
  have every : ∀ byte : UInt8, Json.leaderOf byte ∈ [110, 116, 102, 48, 34] → groupOf byte = 0 :=
    forall_byte (by decide +kernel)
  exact every byte (leads ▸ plain)

theorem hashJson_group (doubles : IsDoubleText doubleText) {value : JsonValue}
    (hashed : hashJson doubleText sha "" (some value) = some hash)
    (plain : value.leader (numberText doubleText) ∈ [110, 116, 102, 48, 34]) :
    ∃ byte rest, hash = sha (byte :: rest) ∧ groupOf byte = 0 := by
  obtain ⟨_, text, found, dumped, rfl⟩ := hashJson_eq_some hashed
  cases found
  obtain ⟨byte, rest, rfl, leads⟩ := Json.leader_dump (isNumberText doubles) dumped
  exact ⟨byte, rest, rfl, groupOf_eq_zero leads plain⟩

theorem toHash_group (doubles : IsDoubleText doubleText) {expr : Expr}
    (hashed : toHash doubleText sha expr = some hash) :
    ∃ byte rest, hash = sha (byte :: rest) ∧ groupOf byte = group expr := by
  cases expr with
  | none => exact hashJson_group doubles hashed (by simp [Json.leader])
  | bool value => exact hashJson_group doubles hashed (by cases value <;> simp [Json.leader])
  | number value =>
    refine hashJson_group doubles hashed ?_
    simp only [Json.leader]
    split <;> simp
  | string value => exact hashJson_group doubles hashed (by simp [Json.leader])
  | namedTarget _ | anonymousTarget _ _ | artifact _ | result _ _ _ _ | valueNode _
  | abstractNode _ _ _ =>
    obtain ⟨_, text, -, -, rfl⟩ := hashJson_eq_some hashed
    exact ⟨_, _, rfl, rfl⟩
  | list items =>
    obtain ⟨hashes, -, rfl⟩ := map_eq_some_iff.mp hashed
    exact ⟨_, _, rfl, rfl⟩
  | map fields =>
    obtain ⟨hashes, -, rfl⟩ := map_eq_some_iff.mp hashed
    exact ⟨_, _, rfl, rfl⟩

variable {right left : Expr}

theorem group_of_toHash (collisionFree : CollisionFree sha) (doubles : IsDoubleText doubleText)
    (hashed : toHash doubleText sha left = some hash)
    (hashed' : toHash doubleText sha right = some hash) : group left = group right := by
  obtain ⟨byte, rest, rfl, leads⟩ := toHash_group doubles hashed
  obtain ⟨byte', rest', same, leads'⟩ := toHash_group doubles hashed'
  have texts := collisionFree _ _ [] [] (congrArg (· ++ []) same)
  rw [← leads, ← leads', (cons.inj texts).1]

theorem group_of_alike (alike : Alike doubleText sha left right) : group left = group right := by
  unfold Alike at alike
  split at alike
  case h_7 =>
    rcases alike with rfl | ⟨first, second⟩
    · rfl
    · cases left <;> first | exact first.elim | (cases right <;> first | exact second.elim | rfl)
  all_goals rfl

/-! ## Equal hashes -/

theorem numberText_isSome (value : Double) :
    (numberText doubleText (.double value)).isSome = value.isFinite := by
  cases finite : value.isFinite <;> simp [numberText, finite]

theorem toHash_eq_iff_plain (collisionFree : CollisionFree sha) (doubles : IsDoubleText doubleText)
    (hashed : toHash doubleText sha left = some hash)
    (hashed' : toHash doubleText sha right = some hash') (plain : group left = 0)
    (plain' : group right = 0) : hash = hash' ↔ Alike doubleText sha left right := by
  cases left <;> try cases plain
  all_goals cases right <;> try cases plain'
  all_goals
    refine (hashJson_eq_iff collisionFree doubles hashed hashed').trans ?_
    simp only [map_some, some.injEq, Json.shown, numberText_isSome, Alike, IsNullish]
  all_goals grind

theorem shown_namedTarget (name : NamedTarget) :
    Json.shown (numberText doubleText) name.toJson = name.toJson := by
  obtain ⟨repository, module, name, type⟩ := name
  cases type <;> rfl

theorem namedTarget_toJson_injective {left right : NamedTarget} (same : left.toJson = right.toJson) :
    left = right := by
  obtain ⟨repository, module, name, type⟩ := left
  obtain ⟨repository', module', name', type'⟩ := right
  cases type <;> cases type' <;>
    simp_all [NamedTarget.toJson, ReferenceType.marker, lit_inj]

theorem parts_of_anonymousTarget {ruleMap targetNode : Expr}
    (hashed : toHash doubleText sha (.anonymousTarget ruleMap targetNode) = some hash) :
    ∃ ruleHash nodeHash, (view doubleText sha ruleMap).hash = some ruleHash ∧
      (view doubleText sha targetNode).hash = some nodeHash := by
  obtain ⟨_, _, found, -, -⟩ := hashJson_eq_some hashed
  simp only [bind_eq_bind, bind_eq_some_iff] at found
  obtain ⟨ruleHash, ruleHashed, nodeHash, nodeHashed, -⟩ := found
  exact ⟨ruleHash, nodeHash, ruleHashed, nodeHashed⟩

theorem json_of_valueNode {value : Expr}
    (hashed : toHash doubleText sha (.valueNode value) = some hash) :
    ∃ inside, (view doubleText sha value).all = some inside := by
  obtain ⟨_, _, found, -, -⟩ := hashJson_eq_some hashed
  simp only [bind_eq_bind, bind_eq_some_iff] at found
  obtain ⟨inside, insideFound, -⟩ := found
  exact ⟨inside, insideFound⟩

theorem json_of_abstractNode {nodeType : Str} {stringFields targetFields : Expr}
    (hashed : toHash doubleText sha (.abstractNode nodeType stringFields targetFields) = some hash) :
    ∃ strings targets, (view doubleText sha stringFields).all = some strings ∧
      (view doubleText sha targetFields).allButNodes = some targets := by
  obtain ⟨_, _, found, -, -⟩ := hashJson_eq_some hashed
  simp only [bind_eq_bind, bind_eq_some_iff] at found
  obtain ⟨strings, stringsFound, targets, targetsFound, -⟩ := found
  exact ⟨strings, targets, stringsFound, targetsFound⟩

theorem toHexString_inj {left right : Str} : toHexString left = toHexString right ↔ left = right :=
  ⟨toHexString_injective, congrArg _⟩

theorem hash_viewItems {item : Expr} {rest : List Expr}
    (hashed : (viewItems doubleText sha (item :: rest)).hash = some hashes) :
    ∃ first more, toHash doubleText sha item = some first ∧
      (viewItems doubleText sha rest).hash = some more ∧ hashes = first ++ more := by
  simp only [viewItems, bind_eq_bind, bind_eq_some_iff, some.injEq] at hashed
  obtain ⟨first, hashedFirst, more, hashedMore, rfl⟩ := hashed
  exact ⟨first, more, hashedFirst, hashedMore, rfl⟩

theorem hash_viewFields {key : Str} {value : Expr} {rest : List (Str × Expr)}
    (hashed : (viewFields doubleText sha ((key, value) :: rest)).hash = some hashes) :
    ∃ first more, toHash doubleText sha value = some first ∧
      (viewFields doubleText sha rest).hash = some more ∧ hashes = sha key ++ (first ++ more) := by
  simp only [viewFields, bind_eq_bind, bind_eq_some_iff, some.injEq] at hashed
  obtain ⟨first, hashedFirst, more, hashedMore, rfl⟩ := hashed
  exact ⟨first, more, hashedFirst, hashedMore, append_assoc _ _ _⟩

theorem hashes_append_inj (collisionFree : CollisionFree sha) (doubles : IsDoubleText doubleText)
    {first first' more more' : Str} (hashed : toHash doubleText sha left = some first)
    (hashed' : toHash doubleText sha right = some first') :
    first ++ more = first' ++ more' ↔ first = first' ∧ more = more' := by
  obtain ⟨byte, rest, rfl, -⟩ := toHash_group doubles hashed
  obtain ⟨byte', rest', rfl, -⟩ := toHash_group doubles hashed'
  constructor
  · intro same
    obtain ⟨texts, rests⟩ := digest_append_inj collisionFree same
    rw [texts]
    exact ⟨rfl, rests⟩
  · rintro ⟨digests, rfl⟩
    rw [digests]

mutual
theorem toHash_eq_iff (collisionFree : CollisionFree sha) (doubles : IsDoubleText doubleText) :
    ∀ (left right : Expr) {hash hash' : Str}, toHash doubleText sha left = some hash →
      toHash doubleText sha right = some hash' → (hash = hash' ↔ Alike doubleText sha left right)
  | left, right, hash, hash', hashed, hashed' => by
    by_cases groups : group left = group right
    swap
    · constructor
      · rintro rfl
        exact absurd (group_of_toHash collisionFree doubles hashed hashed') groups
      · intro alike
        exact absurd (group_of_alike alike) groups
    cases left with
    | none | bool _ | number _ | string _ =>
      exact toHash_eq_iff_plain collisionFree doubles hashed hashed' rfl groups.symm
    | namedTarget name =>
      cases right with
      | namedTarget name' =>
        refine (hashJson_eq_iff collisionFree doubles hashed hashed').trans ?_
        simp only [map_some, some.injEq, shown_namedTarget, Alike, IsNullish,
          Expr.namedTarget.injEq, false_and, or_false]
        exact ⟨namedTarget_toJson_injective, congrArg _⟩
      | anonymousTarget ruleMap' targetNode' =>
        refine (hashJson_eq_iff collisionFree doubles hashed hashed').trans ?_
        obtain ⟨ruleHash', nodeHash', ruleHashed', nodeHashed'⟩ := parts_of_anonymousTarget hashed'
        simp [ruleHashed', nodeHashed', Json.shown, Json.shownItems, Alike,
          IsNullish, NamedTarget.toJson, lit_inj]
      | _ => cases groups
    | anonymousTarget ruleMap targetNode =>
      obtain ⟨ruleHash, nodeHash, ruleHashed, nodeHashed⟩ := parts_of_anonymousTarget hashed
      cases right with
      | namedTarget name' =>
        refine (hashJson_eq_iff collisionFree doubles hashed hashed').trans ?_
        simp [ruleHashed, nodeHashed, Json.shown, Json.shownItems, Alike,
          IsNullish, NamedTarget.toJson, lit_inj]
      | anonymousTarget ruleMap' targetNode' =>
        obtain ⟨ruleHash', nodeHash', ruleHashed', nodeHashed'⟩ := parts_of_anonymousTarget hashed'
        refine (hashJson_eq_iff collisionFree doubles hashed hashed').trans ?_
        rw [Alike, ← toHash_eq_iff collisionFree doubles ruleMap ruleMap' ruleHashed ruleHashed',
          ← toHash_eq_iff collisionFree doubles targetNode targetNode' nodeHashed nodeHashed']
        simp [ruleHashed, nodeHashed, ruleHashed', nodeHashed', Json.shown, Json.shownItems,
          toHexString_inj]
      | _ => cases groups
    | artifact value =>
      cases right with
      | artifact value' =>
        refine (hashJson_eq_iff collisionFree doubles hashed hashed').trans ?_
        simp only [map_some, some.injEq, ArtifactDescription.shown_toJson, Alike,
          IsNullish, Expr.artifact.injEq, false_and, or_false]
        exact ⟨ArtifactDescription.toJson_injective, congrArg _⟩
      | _ => cases groups
    | result artifactStage provides runfiles cacheable =>
      cases right with
      | result artifactStage' provides' runfiles' cacheable' =>
        refine (hashJson_eq_iff collisionFree doubles hashed hashed').trans ?_
        obtain ⟨_, _, found, -, -⟩ := hashJson_eq_some hashed
        obtain ⟨_, _, found', -, -⟩ := hashJson_eq_some hashed'
        simp only [bind_eq_bind, bind_eq_some_iff] at found found'
        obtain ⟨stage, stageFound, given, givenFound, run, runFound, -⟩ := found
        obtain ⟨stage', stageFound', given', givenFound', run', runFound', -⟩ := found'
        simp [stageFound, givenFound, runFound, stageFound', givenFound', runFound', Alike, SameJson,
          toJson, View.json, Json.shown, Json.shownFields]
      | _ => cases groups
    | valueNode value =>
      obtain ⟨inside, insideFound⟩ := json_of_valueNode hashed
      cases right with
      | valueNode value' =>
        refine (hashJson_eq_iff collisionFree doubles hashed hashed').trans ?_
        obtain ⟨inside', insideFound'⟩ := json_of_valueNode hashed'
        simp [insideFound, insideFound', Alike, SameJson, toJson, View.json, Json.shown,
          Json.shownFields]
      | abstractNode nodeType' stringFields' targetFields' =>
        refine (hashJson_eq_iff collisionFree doubles hashed hashed').trans ?_
        obtain ⟨strings', targets', stringsFound', targetsFound'⟩ := json_of_abstractNode hashed'
        simp [insideFound, stringsFound', targetsFound', Alike, IsNullish, Json.shown,
          Json.shownFields]
      | _ => cases groups
    | abstractNode nodeType stringFields targetFields =>
      obtain ⟨strings, targets, stringsFound, targetsFound⟩ := json_of_abstractNode hashed
      cases right with
      | valueNode value' =>
        refine (hashJson_eq_iff collisionFree doubles hashed hashed').trans ?_
        obtain ⟨inside', insideFound'⟩ := json_of_valueNode hashed'
        simp [insideFound', stringsFound, targetsFound, Alike, IsNullish, Json.shown,
          Json.shownFields]
      | abstractNode nodeType' stringFields' targetFields' =>
        refine (hashJson_eq_iff collisionFree doubles hashed hashed').trans ?_
        obtain ⟨strings', targets', stringsFound', targetsFound'⟩ := json_of_abstractNode hashed'
        simp [stringsFound, targetsFound, stringsFound', targetsFound', Alike, SameJson, toJson,
          View.json, Json.shown, Json.shownFields]
      | _ => cases groups
    | list items =>
      cases right with
      | list items' =>
        obtain ⟨hashes, found, rfl⟩ := map_eq_some_iff.mp hashed
        obtain ⟨hashes', found', rfl⟩ := map_eq_some_iff.mp hashed'
        rw [Alike, ← viewItems_eq_iff collisionFree doubles items items' found found']
        constructor
        · intro same
          have texts := collisionFree _ _ [] [] (congrArg (· ++ []) same)
          exact append_cancel_left texts
        · intro same
          rw [same]
      | _ => cases groups
    | map fields =>
      cases right with
      | map fields' =>
        obtain ⟨hashes, found, rfl⟩ := map_eq_some_iff.mp hashed
        obtain ⟨hashes', found', rfl⟩ := map_eq_some_iff.mp hashed'
        rw [Alike, ← viewFields_eq_iff collisionFree doubles fields fields' found found']
        constructor
        · intro same
          have texts := collisionFree _ _ [] [] (congrArg (· ++ []) same)
          exact append_cancel_left texts
        · intro same
          rw [same]
      | _ => cases groups

theorem viewItems_eq_iff (collisionFree : CollisionFree sha) (doubles : IsDoubleText doubleText) :
    ∀ (lefts rights : List Expr) {hashes hashes' : Str},
      (viewItems doubleText sha lefts).hash = some hashes →
      (viewItems doubleText sha rights).hash = some hashes' →
      (hashes = hashes' ↔ AlikeItems doubleText sha lefts rights)
  | [], [], hashes, hashes', hashed, hashed' => by
    cases hashed
    cases hashed'
    simp [AlikeItems]
  | [], right :: rights, hashes, hashes', hashed, hashed' => by
    cases hashed
    obtain ⟨first, more, hashedFirst, -, rfl⟩ := hash_viewItems hashed'
    obtain ⟨byte, rest, rfl, -⟩ := toHash_group doubles hashedFirst
    simp [AlikeItems, digest_ne_nil collisionFree]
  | left :: lefts, [], hashes, hashes', hashed, hashed' => by
    cases hashed'
    obtain ⟨first, more, hashedFirst, -, rfl⟩ := hash_viewItems hashed
    obtain ⟨byte, rest, rfl, -⟩ := toHash_group doubles hashedFirst
    simp [AlikeItems, digest_ne_nil collisionFree]
  | left :: lefts, right :: rights, hashes, hashes', hashed, hashed' => by
    obtain ⟨first, more, hashedFirst, hashedMore, rfl⟩ := hash_viewItems hashed
    obtain ⟨first', more', hashedFirst', hashedMore', rfl⟩ := hash_viewItems hashed'
    rw [AlikeItems, ← toHash_eq_iff collisionFree doubles left right hashedFirst hashedFirst',
      ← viewItems_eq_iff collisionFree doubles lefts rights hashedMore hashedMore']
    exact hashes_append_inj collisionFree doubles hashedFirst hashedFirst'

theorem viewFields_eq_iff (collisionFree : CollisionFree sha) (doubles : IsDoubleText doubleText) :
    ∀ (lefts rights : List (Str × Expr)) {hashes hashes' : Str},
      (viewFields doubleText sha lefts).hash = some hashes →
      (viewFields doubleText sha rights).hash = some hashes' →
      (hashes = hashes' ↔ AlikeFields doubleText sha lefts rights)
  | [], [], hashes, hashes', hashed, hashed' => by
    cases hashed
    cases hashed'
    simp [AlikeFields]
  | [], (key, right) :: rights, hashes, hashes', hashed, hashed' => by
    cases hashed
    obtain ⟨first, more, -, -, rfl⟩ := hash_viewFields hashed'
    simp [AlikeFields, digest_ne_nil collisionFree]
  | (key, left) :: lefts, [], hashes, hashes', hashed, hashed' => by
    cases hashed'
    obtain ⟨first, more, -, -, rfl⟩ := hash_viewFields hashed
    simp [AlikeFields, digest_ne_nil collisionFree]
  | (key, left) :: lefts, (key', right) :: rights, hashes, hashes', hashed, hashed' => by
    obtain ⟨first, more, hashedFirst, hashedMore, rfl⟩ := hash_viewFields hashed
    obtain ⟨first', more', hashedFirst', hashedMore', rfl⟩ := hash_viewFields hashed'
    rw [AlikeFields, ← toHash_eq_iff collisionFree doubles left right hashedFirst hashedFirst',
      ← viewFields_eq_iff collisionFree doubles lefts rights hashedMore hashedMore',
      ← hashes_append_inj collisionFree doubles hashedFirst hashedFirst']
    constructor
    · intro same
      exact digest_append_inj collisionFree same
    · rintro ⟨rfl, same⟩
      rw [same]
end

mutual
theorem view_unflagged : ∀ expr : Expr, view doubleText sha expr.unflagged = view doubleText sha expr
  | .none | .bool _ | .number _ | .string _ | .namedTarget _ | .artifact _ => rfl
  | .anonymousTarget ruleMap targetNode => by
    rw [unflagged, view, view, view_unflagged ruleMap, view_unflagged targetNode]
  | .result artifactStage provides runfiles _ => by
    rw [unflagged, view, view, view_unflagged artifactStage, view_unflagged provides,
      view_unflagged runfiles]
  | .valueNode value => by rw [unflagged, view, view, view_unflagged value]
  | .abstractNode _ stringFields targetFields => by
    rw [unflagged, view, view, view_unflagged stringFields, view_unflagged targetFields]
  | .list items => by rw [unflagged, view, view, viewItems_unflagged items]
  | .map fields => by rw [unflagged, view, view, viewFields_unflagged fields]

theorem viewItems_unflagged : ∀ items : List Expr,
    viewItems doubleText sha (unflaggedItems items) = viewItems doubleText sha items
  | [] => rfl
  | item :: rest => by
    rw [unflaggedItems, viewItems, viewItems, view_unflagged item, viewItems_unflagged rest]

theorem viewFields_unflagged : ∀ fields : List (Str × Expr),
    viewFields doubleText sha (unflaggedFields fields) = viewFields doubleText sha fields
  | [] => rfl
  | (key, value) :: rest => by
    rw [unflaggedFields, viewFields, viewFields, view_unflagged value, viewFields_unflagged rest]
end

theorem toHash_of_same (same : Same left right) :
    toHash doubleText sha left = toHash doubleText sha right := by
  have views : view doubleText sha left.unflagged = view doubleText sha right.unflagged := by
    rw [same]
  rw [view_unflagged, view_unflagged] at views
  exact congrArg View.hash views

/-- Two different expressions are alike. -/
def Conflated (doubleText : Double → Str) (sha : Str → Str) (left right : Expr) : Prop :=
  Alike doubleText sha left right ∧ ¬Same left right

/-- The hash tells two expressions apart exactly as their structure does, unless they are different
but alike. -/
theorem toHash_eq_iff_same (collisionFree : CollisionFree sha) (doubles : IsDoubleText doubleText)
    {left right : Expr} {hash hash' : Str} (hashed : toHash doubleText sha left = some hash)
    (hashed' : toHash doubleText sha right = some hash') :
    (hash = hash' ↔ Same left right) ↔ ¬Conflated doubleText sha left right := by
  have hashes := toHash_eq_iff collisionFree doubles left right hashed hashed'
  constructor
  · intro exact' ⟨alike, different⟩
    exact different (exact'.mp (hashes.mpr alike))
  · intro clear
    constructor
    · intro same
      by_contra different
      exact clear ⟨hashes.mp same, different⟩
    · intro same
      have equal := @toHash_of_same doubleText sha _ _ same
      rw [hashed, hashed'] at equal
      exact some.inj equal

/-! ## Digests and texts of doubles for concrete inputs -/

/-- A code in which no text begins with a different one. -/
def delimited (text : Str) : Str := text.flatMap (fun byte => [1, byte]) ++ [0]

theorem delimited_append_inj {left right : Str}
    (same : delimited left ++ rest = delimited right ++ other) : left = right := by
  induction left generalizing right with
  | nil =>
    cases right with
    | nil => rfl
    | cons byte tail => exact absurd (cons.inj same).1 (by decide)
  | cons byte tail ih =>
    cases right with
    | nil => exact absurd (cons.inj same).1 (by decide)
    | cons byte' tail' =>
      have behind := cons.inj (cons.inj same).2
      rw [behind.1, ih behind.2]

/-- A hash function with the digests in a table. -/
def digestsOf (table : List (Str × Str)) (text : Str) : Str :=
  (table.lookup text).getD (0 :: delimited text)

/-- The texts in a table have digests of one length, all different and not beginning with zero. -/
def IsTable (table : List (Str × Str)) : Prop :=
  (∀ entry ∈ table, entry.2.length = 32 ∧ entry.2.head? ≠ some 0) ∧
    ∀ entry ∈ table, ∀ other ∈ table, entry.2 = other.2 → entry.1 = other.1

instance (table : List (Str × Str)) : Decidable (IsTable table) :=
  inferInstanceAs (Decidable (_ ∧ _))

theorem mem_of_lookup {table : List (Str × Str)} {text digest : Str}
    (found : table.lookup text = some digest) : (text, digest) ∈ table := by
  obtain ⟨front, back, rfl, -⟩ := List.lookup_eq_some_iff.mp found
  simp

theorem digestsOf_collisionFree {table : List (Str × Str)} (isTable : IsTable table) :
    CollisionFree (digestsOf table) := by
  have apart : ∀ {text digest rest other : Str}, (text, digest) ∈ table →
      digest ++ rest ≠ 0 :: other := by
    intro text digest rest other member same
    obtain ⟨length, head⟩ := isTable.1 _ member
    cases digest with
    | nil => cases length
    | cons byte tail => exact head (congrArg some (cons.inj same).1)
  intro left right rest other same
  unfold digestsOf at same
  cases found : table.lookup left with
  | some digest =>
    have member := mem_of_lookup found
    cases found' : table.lookup right with
    | some digest' =>
      rw [found, found'] at same
      have member' := mem_of_lookup found'
      have lengths : digest.length = digest'.length :=
        (isTable.1 _ member).1.trans (isTable.1 _ member').1.symm
      exact isTable.2 _ member _ member' (List.append_inj_left same lengths)
    | none =>
      rw [found, found'] at same
      exact absurd same (apart member)
  | none =>
    cases found' : table.lookup right with
    | some digest' =>
      rw [found, found'] at same
      exact absurd same.symm (apart (mem_of_lookup found'))
    | none =>
      rw [found, found'] at same
      exact delimited_append_inj (cons.inj same).2

/-- A text for each double. -/
def bitsText (value : Double) : Str := lit "0." ++ Number.decimal value.toBits.toNat

theorem bitsText_isDoubleText : IsDoubleText bitsText := by
  constructor
  · intro value _ byte member
    rcases mem_append.mp member with inFront | behind
    · have every : (lit "0.").all Json.isNumberByte = true := by decide
      exact List.all_eq_true.mp every byte inFront
    · have bounds := decimal_bytes _ byte behind
      have digit : 48 ≤ byte ∧ byte ≤ 57 := by
        rw [UInt8.le_iff_toNat_le, UInt8.le_iff_toNat_le]
        exact bounds
      simp [Json.isNumberByte, digit]
  · intro value _
    exact .inl (mem_append_left _ (by decide))
  · intro left right _ _ same
    have bits := decimal_injective (append_cancel_left same)
    obtain ⟨bitsLeft, _⟩ := left
    obtain ⟨bitsRight, _⟩ := right
    obtain rfl := UInt64.toNat_inj.mp bits
    rfl

/-- The digests of two strings. -/
def letterDigests : List (Str × Str) :=
  [(lit "\"a\"", [172, 141, 131, 66, 187, 178, 54, 45, 19, 240, 165, 89, 163, 98, 27, 180,
    7, 1, 19, 104, 137, 81, 100, 182, 40, 165, 79, 127, 195, 63, 196, 60]),
   (lit "\"b\"", [193, 0, 249, 92, 25, 19, 249, 199, 47, 193, 244, 239, 8, 71, 225, 231,
    35, 255, 224, 189, 224, 179, 110, 95, 54, 193, 63, 129, 254, 140, 38, 237])]

theorem toHash_eq_iff_same_letters :
    toHash bitsText (digestsOf letterDigests) (.string (lit "a")) ≠
      toHash bitsText (digestsOf letterDigests) (.string (lit "b")) := by
  have different : ¬Same (.string (lit "a")) (.string (lit "b")) := by
    simp [Same, unflagged, lit_inj]
  have told := (@toHash_eq_iff_same bitsText _
    (digestsOf_collisionFree (by decide : IsTable letterDigests)) bitsText_isDoubleText
    (.string (lit "a")) (.string (lit "b")) _ _ rfl rfl).mpr fun conflated => by
      simp [Conflated, Alike, IsNullish, lit_inj] at conflated
  exact fun same => different (told.mp (some.inj same))

/-- A result that provides a tree. -/
def treeResult : Expr :=
  .result (.map []) (.map [(lit "x", .artifact (.tree (lit "t")))]) (.map []) true

/-- A result that provides a map that looks like the tree. -/
def mapResult : Expr :=
  .result (.map []) (.map [(lit "x", .map [(lit "data", .map [(lit "id", .string (lit "t"))]),
    (lit "type", .string (lit "TREE"))])]) (.map []) true

theorem toHash_not_injective :
    ¬∀ (doubleText : Double → Str) (sha : Str → Str), CollisionFree sha → IsDoubleText doubleText →
      ∀ (left right : Expr) (hash hash' : Str), toHash doubleText sha left = some hash →
        toHash doubleText sha right = some hash' → (hash = hash' ↔ Same left right) := by
  intro injective
  have same := (injective bitsText (digestsOf []) (digestsOf_collisionFree (by decide))
    bitsText_isDoubleText treeResult mapResult _ _ rfl rfl).mp rfl
  simp [Same, treeResult, mapResult, unflagged, unflaggedFields] at same

end Jst.Verif.ExpressionHash
