import Jst.Verif.TargetResults
/-!
# Reading a target result back

A table is read from its entries, of which each contains earlier ones only. What is read has the
hash under which it was written: expressions with the same hash have the same JSON, so it does not
matter which of them an entry was written for.
-/
namespace Jst.Verif.TargetResultRoundTrip

open Jst.Expression Jst.Expression.TargetResult
open Jst.Expression.Expr hiding none
open Jst.SortedMap Jst.Verif.ExpressionHash Jst.Verif.TargetResults
open Jst.Number (Double)

variable {doubleText : Double → Str} {sha : Str → Str}

variable {hashType : HashType} {read : JsonValue → Sofar → Except ReadFailure (Option Expr × Sofar)}
  {nodes : List (Str × JsonValue)} {id : Str} {expr root part : Expr} {sofar : Sofar}
  {fields : List (Str × Expr)} {json' json : Option JsonValue} {items : List Expr}

/-! ## The same hash, the same JSON -/

theorem hashJson_congr {mark : String}
    (same : json.map (Json.shown (numberText doubleText)) =
      json'.map (Json.shown (numberText doubleText))) :
    hashJson doubleText sha mark json = hashJson doubleText sha mark json' := by
  have dumps : ∀ value : JsonValue, value.dump (numberText doubleText) =
      (Json.shown (numberText doubleText) value).dump (numberText doubleText) :=
    fun value => (Json.dump_shown value).symm
  cases json with
  | none =>
    cases json' with
    | none => rfl
    | some value' => cases same
  | some value =>
    cases json' with
    | none => cases same
    | some value' =>
      simp only [hashJson, bind_eq_bind, bind_some]
      rw [dumps value, dumps value', some.inj same]

theorem sameJson_of_nodes {hash : Str} (hashed : (View.ofNode doubleText sha json).hash = some hash)
    (hashed' : (View.ofNode doubleText sha json').hash = some hash) :
    ((View.ofNode doubleText sha json).allButNodes).map (Json.shown (numberText doubleText)) =
      ((View.ofNode doubleText sha json').allButNodes).map (Json.shown (numberText doubleText)) := by
  have shows : ∀ json, (View.ofNode doubleText sha json).allButNodes =
      (View.ofNode doubleText sha json).hash.map fun hash =>
        .object [(lit "id", .string (toHexString hash)), (lit "type", .string (lit "NODE"))] :=
    fun _ => rfl
  rw [shows, shows, hashed, hashed']

theorem cons_congr {Entry : Type} (item : JsonValue → Entry) (shownItem : Entry → Entry)
    (keeps : ∀ json, shownItem (item json) = item (Json.shown (numberText doubleText) json))
    {entries entries' : Option (List Entry)}
    (head : json.map (Json.shown (numberText doubleText)) =
      json'.map (Json.shown (numberText doubleText)))
    (tail : entries.map (List.map shownItem) = entries'.map (List.map shownItem)) :
    (do some (item (← json) :: (← entries)) : Option (List Entry)).map (List.map shownItem) =
      (do some (item (← json') :: (← entries')) : Option (List Entry)).map (List.map shownItem) := by
  cases json <;> cases json' <;> cases entries <;> cases entries' <;> simp_all

theorem shownItems_eq_map (items : List JsonValue) :
    Json.shownItems (numberText doubleText) items =
      items.map (Json.shown (numberText doubleText)) := by
  induction items with
  | nil => rfl
  | cons item rest ih => rw [Json.shownItems, ih, map_cons]

theorem shownFields_eq_map (fields : List (Str × JsonValue)) :
    Json.shownFields (numberText doubleText) fields =
      fields.map fun field => (field.1, Json.shown (numberText doubleText) field.2) := by
  induction fields with
  | nil => rfl
  | cons field rest ih => rw [Json.shownFields, ih, map_cons]

mutual
theorem sameJson_of_toHash (collisionFree : CollisionFree sha) (doubles : IsDoubleText doubleText) :
    ∀ (left right : Expr) {hash : Str}, toHash doubleText sha left = some hash →
      toHash doubleText sha right = some hash → ∀ mode, SameJson doubleText sha mode left right
  | left, right, hash, hashed, hashed', mode => by
    have alike := (toHash_eq_iff collisionFree doubles left right hashed hashed').mp rfl
    have groups := group_of_toHash collisionFree doubles hashed hashed'
    cases left with
    | none | bool _ | number _ | string _ | namedTarget _ | anonymousTarget _ _ | artifact _
    | result _ _ _ _ =>
      -- both are hashed by their one JSON, with the same mark
      cases right <;> first
        | (cases mode <;> exact (hashJson_eq_iff collisionFree doubles hashed hashed').mp rfl)
        | cases groups
    | valueNode value =>
      cases right with
      | valueNode value' =>
        obtain ⟨_, _, found, -, -⟩ := hashJson_eq_some hashed
        obtain ⟨_, _, found', -, -⟩ := hashJson_eq_some hashed'
        simp only [bind_eq_bind, bind_eq_some_iff] at found found'
        obtain ⟨inside, insideFound, -⟩ := found
        obtain ⟨inside', insideFound', -⟩ := found'
        simp [insideFound, insideFound', Alike, SameJson, Expr.toJson, View.json] at alike
        cases mode with
        | serializeAll =>
          simp [SameJson, Expr.toJson, View.json, view, View.ofNode, insideFound, insideFound',
            Json.shown, Json.shownFields, alike]
        | serializeAllButNodes => exact sameJson_of_nodes hashed hashed'
      | _ => simp [Alike, IsNullish] at alike
    | abstractNode nodeType stringFields targetFields =>
      cases right with
      | abstractNode nodeType' stringFields' targetFields' =>
        obtain ⟨_, _, found, -, -⟩ := hashJson_eq_some hashed
        obtain ⟨_, _, found', -, -⟩ := hashJson_eq_some hashed'
        simp only [bind_eq_bind, bind_eq_some_iff] at found found'
        obtain ⟨strings, stringsFound, targets, targetsFound, -⟩ := found
        obtain ⟨strings', stringsFound', targets', targetsFound', -⟩ := found'
        simp [stringsFound, targetsFound, stringsFound', targetsFound', Alike, SameJson, Expr.toJson,
          View.json] at alike
        cases mode with
        | serializeAll =>
          simp [SameJson, Expr.toJson, View.json, view, View.ofNode, stringsFound, targetsFound,
            stringsFound', targetsFound', Json.shown, Json.shownFields, alike]
        | serializeAllButNodes => exact sameJson_of_nodes hashed hashed'
      | _ => simp [Alike, IsNullish] at alike
    | list items =>
      cases right with
      | list items' =>
        obtain ⟨hashes, found, -⟩ := map_eq_some_iff.mp hashed
        obtain ⟨hashes', found', -⟩ := map_eq_some_iff.mp hashed'
        have same := sameJson_items collisionFree doubles items items' found found' alike mode
        cases mode <;>
          simpa [SameJson, Expr.toJson, View.json, Views.json, view, comp_def, Json.shown]
            using congrArg (Option.map Json.array) same
      | _ => simp [Alike, IsNullish] at alike
    | map fields =>
      cases right with
      | map fields' =>
        obtain ⟨hashes, found, -⟩ := map_eq_some_iff.mp hashed
        obtain ⟨hashes', found', -⟩ := map_eq_some_iff.mp hashed'
        have same := sameJson_fields collisionFree doubles fields fields' found found' alike mode
        cases mode <;>
          simpa [SameJson, Expr.toJson, View.json, Views.json, view, comp_def, Json.shown]
            using congrArg (Option.map Json.object) same
      | _ => simp [Alike, IsNullish] at alike

theorem sameJson_items (collisionFree : CollisionFree sha) (doubles : IsDoubleText doubleText) :
    ∀ (lefts rights : List Expr) {hashes hashes' : Str},
      (viewItems doubleText sha lefts).hash = some hashes →
      (viewItems doubleText sha rights).hash = some hashes' →
      AlikeItems doubleText sha lefts rights → ∀ mode,
      ((viewItems doubleText sha lefts).json mode).map (Json.shownItems (numberText doubleText)) =
        ((viewItems doubleText sha rights).json mode).map (Json.shownItems (numberText doubleText))
  | [], [], _, _, _, _, _, _ => rfl
  | [], _ :: _, _, _, _, _, alike, _ => alike.elim
  | _ :: _, [], _, _, _, _, alike, _ => alike.elim
  | left :: lefts, right :: rights, hashes, hashes', hashed, hashed', alike, mode => by
    obtain ⟨first, more, hashedFirst, hashedMore, rfl⟩ := hash_viewItems hashed
    obtain ⟨first', more', hashedFirst', hashedMore', rfl⟩ := hash_viewItems hashed'
    obtain rfl := (toHash_eq_iff collisionFree doubles left right hashedFirst hashedFirst').mpr
      alike.1
    have head := sameJson_of_toHash collisionFree doubles left right hashedFirst hashedFirst' mode
    have tail := sameJson_items collisionFree doubles lefts rights hashedMore hashedMore' alike.2 mode
    simp only [funext shownItems_eq_map] at tail ⊢
    cases mode with
    | serializeAll => exact cons_congr id (Json.shown _) (fun _ => rfl) head tail
    | serializeAllButNodes => exact cons_congr id (Json.shown _) (fun _ => rfl) head tail

theorem sameJson_fields (collisionFree : CollisionFree sha) (doubles : IsDoubleText doubleText) :
    ∀ (lefts rights : List (Str × Expr)) {hashes hashes' : Str},
      (viewFields doubleText sha lefts).hash = some hashes →
      (viewFields doubleText sha rights).hash = some hashes' →
      AlikeFields doubleText sha lefts rights → ∀ mode,
      ((viewFields doubleText sha lefts).json mode).map (Json.shownFields (numberText doubleText)) =
        ((viewFields doubleText sha rights).json mode).map
          (Json.shownFields (numberText doubleText))
  | [], [], _, _, _, _, _, _ => rfl
  | [], _ :: _, _, _, _, _, alike, _ => alike.elim
  | _ :: _, [], _, _, _, _, alike, _ => alike.elim
  | (key, left) :: lefts, (key', right) :: rights, hashes, hashes', hashed, hashed', alike, mode => by
    obtain ⟨first, more, hashedFirst, hashedMore, rfl⟩ := hash_viewFields hashed
    obtain ⟨first', more', hashedFirst', hashedMore', rfl⟩ := hash_viewFields hashed'
    obtain ⟨rfl, alikeValue, alikeRest⟩ := alike
    obtain rfl := (toHash_eq_iff collisionFree doubles left right hashedFirst hashedFirst').mpr
      alikeValue
    have head := sameJson_of_toHash collisionFree doubles left right hashedFirst hashedFirst' mode
    have tail := sameJson_fields collisionFree doubles lefts rights hashedMore hashedMore' alikeRest
      mode
    simp only [funext shownFields_eq_map] at tail ⊢
    cases mode with
    | serializeAll =>
      exact cons_congr (key, ·) (fun field => (field.1, Json.shown _ field.2)) (fun _ => rfl) head tail
    | serializeAllButNodes =>
      exact cons_congr (key, ·) (fun field => (field.1, Json.shown _ field.2)) (fun _ => rfl) head tail
end

/-! ## Tables that were written -/

/-- An expression as the root of what is read back: no names, and digests of one hash type. -/
def IsReadable (hashType : HashType) (root : Expr) : Prop :=
  ∀ part, Among [root] part → group part ≠ 1 ∧
    ∀ artifact, part = .artifact artifact → artifact.HasType hashType

/-- Nothing inside an expression has its hash: there is no way around in the hash function. -/
def IsAcyclic (doubleText : Double → Str) (sha : Str → Str) (root : Expr) : Prop :=
  ∀ whole, Among [root] whole → ∀ inner, Among (parts whole) inner →
    ∀ hash, inner.toHash doubleText sha = some hash → whole.toHash doubleText sha ≠ some hash

/-- The entries of a table, the latest one first: each one is new, and contains earlier ones only.
-/
inductive Stored (doubleText : Double → Str) (sha : Str → Str) (root : Expr) (notes : Tables) :
    List (Str × JsonValue) → Prop where
  | nil : Stored doubleText sha root notes []
  | artifact {older : List (Str × JsonValue)} {id : Str} {artifact : ArtifactDescription}
    (stored : Stored doubleText sha root notes older) (fresh : find id older = none)
    (among : Among [root] (.artifact artifact))
    (identified : (Expr.artifact artifact).toIdentifier doubleText sha = some id)
    (listed : id ∈ notes.artifacts) :
    Stored doubleText sha root notes ((id, artifact.toJson) :: older)
  | entry {older : List (Str × JsonValue)} {id : Str} {expr : Expr} {json : JsonValue}
    (stored : Stored doubleText sha root notes older) (fresh : find id older = none)
    (among : Among [root] expr) (identified : expr.toIdentifier doubleText sha = some id)
    (isEntry : IsEntry doubleText sha expr json)
    (written : ∀ part ∈ parts expr, ∃ id, part.toIdentifier doubleText sha = some id ∧
      (find id older).isSome = true)
    (noted : group expr = 4 → id ∈ notes.targetNodes)
    (noted' : group expr = 3 → id ∈ notes.results) :
    Stored doubleText sha root notes ((id, json) :: older)

variable {notes tables : Tables}

theorem Stored.mono {more : Tables} (stored : Stored doubleText sha root notes nodes)
    (artifacts : notes.artifacts ⊆ more.artifacts)
    (targetNodes : notes.targetNodes ⊆ more.targetNodes) (results : notes.results ⊆ more.results) :
    Stored doubleText sha root more nodes := by
  induction stored with
  | nil => exact .nil
  | artifact _ fresh among identified listed ih =>
    exact .artifact ih fresh among identified (artifacts listed)
  | entry _ fresh among identified isEntry written noted noted' ih =>
    exact .entry ih fresh among identified isEntry written (fun isNode => targetNodes (noted isNode))
      fun isResult => results (noted' isResult)

/-- What is noted are identifiers of expressions of one kind. -/
def Notes (doubleText : Double → Str) (sha : Str → Str) (kind : Nat) (ids : List Str) : Prop :=
  ∀ id ∈ ids, ∃ expr, expr.toIdentifier doubleText sha = some id ∧ group expr = kind

variable {depth kind : Nat}

theorem Notes.append {ids : List Str} (notes : Notes doubleText sha kind ids)
    (identified : expr.toIdentifier doubleText sha = some id) (isKind : group expr = kind) :
    Notes doubleText sha kind (ids ++ [id]) := by
  intro other member
  rcases mem_append.mp member with old | new
  · exact notes other old
  · rw [mem_singleton.mp new]
    exact ⟨expr, identified, isKind⟩

/-- A table as it is written: its entries are stored, and it notes the kinds of expressions. -/
structure WellWritten (doubleText : Double → Str) (sha : Str → Str) (root : Expr) (tables : Tables) :
    Prop where
  stored : Stored doubleText sha root tables tables.nodes
  artifacts : Notes doubleText sha 2 tables.artifacts
  targetNodes : Notes doubleText sha 4 tables.targetNodes
  results : Notes doubleText sha 3 tables.results

theorem WellWritten.step (acyclic : IsAcyclic doubleText sha root) {tables tables' : Tables}
    (written : WellWritten doubleText sha root tables)
    (step : Step doubleText sha [] [root] tables tables') :
    WellWritten doubleText sha root tables' := by
  cases step with
  | node among isNode identified =>
    exact ⟨written.stored.mono (fun _ same => same) (List.subset_append_left _ _) fun _ same => same,
      written.artifacts, written.targetNodes.append identified isNode, written.results⟩
  | result among isResult identified =>
    exact ⟨written.stored.mono (fun _ same => same) (fun _ same => same)
      (List.subset_append_left _ _), written.artifacts, written.targetNodes,
      written.results.append identified isResult⟩
  | @artifact artifact id json among fresh identified described =>
    have plain : json = artifact.toJson := (ok.inj described).symm
    subst plain
    refine ⟨.artifact (written.stored.mono (List.subset_append_left _ _) (fun _ same => same)
        fun _ same => same) fresh among identified (mem_append_right _
          (mem_singleton_self id)),
      written.artifacts.append identified rfl, written.targetNodes, written.results⟩
  | @entry expr id json among identified isEntry inside fresh noted noted' =>
    have absent : find id tables.nodes = none := by
      rcases fresh with absent | ⟨inner, within, identified'⟩
      · exact absent
      · obtain ⟨hash, hashed, rfl⟩ := map_eq_some_iff.mp identified'
        obtain ⟨hash', hashed', same⟩ := map_eq_some_iff.mp identified
        obtain rfl := toHexString_injective same
        exact absurd hashed' (acyclic expr among inner within _ hashed)
    exact ⟨.entry (written.stored.mono (fun _ same => same) (fun _ same => same)
        fun _ same => same) absent among identified isEntry inside noted noted',
      written.artifacts, written.targetNodes, written.results⟩

theorem wellWritten_of_serializeExpression (acyclic : IsAcyclic doubleText sha root)
    (written : serializeExpression doubleText sha [] root ⟨[], [], [], []⟩ = .ok (id, tables)) :
    WellWritten doubleText sha root tables := by
  have grows := (wrote_of_serializeExpression root written).2.2
  clear written
  induction grows with
  | refl => exact ⟨.nil, fun _ none => (nomatch none), fun _ none => (nomatch none),
      fun _ none => (nomatch none)⟩
  | tail _ step ih => exact ih.step acyclic step

/-! ## Reading entries -/

/-- What was read so far has the hash under which it is kept. -/
def Sound (doubleText : Double → Str) (sha : Str → Str) (sofar : Sofar) : Prop :=
  ∀ id expr, find id sofar = some expr → expr.toIdentifier doubleText sha = some id

theorem Sound.append (sound : Sound doubleText sha sofar)
    (identified : expr.toIdentifier doubleText sha = some id) :
    Sound doubleText sha (sofar ++ [(id, expr)]) := by
  intro other found isFound
  rw [find_append, find_cons, find_nil] at isFound
  cases before : find other sofar with
  | some old =>
    rw [before] at isFound
    cases isFound
    exact sound other _ before
  | none =>
    rw [before, none_or] at isFound
    split at isFound
    · rename_i same
      cases isFound
      exact same ▸ identified
    · cases isFound

/-- Reading an identifier yields an expression with this identifier. -/
def Reads (doubleText : Double → Str) (sha : Str → Str)
    (read : JsonValue → Sofar → Except ReadFailure (Option Expr × Sofar)) (id : Str) : Prop :=
  ∀ sofar, Sound doubleText sha sofar → ∃ expr sofar',
    read (.string id) sofar = .ok (some expr, sofar') ∧
      expr.toIdentifier doubleText sha = some id ∧ Sound doubleText sha sofar'

variable {left right : Expr}

theorem toHash_of_identified
    (identified : left.toIdentifier doubleText sha = some id)
    (identified' : right.toIdentifier doubleText sha = some id) :
    left.toHash doubleText sha = right.toHash doubleText sha := by
  obtain ⟨hash, hashed, rfl⟩ := map_eq_some_iff.mp identified
  obtain ⟨hash', hashed', same⟩ := map_eq_some_iff.mp identified'
  rw [hashed, hashed', toHexString_injective same]

theorem readAll_items {entries : List JsonValue}
    (identified : Identified doubleText sha items entries)
    (reads : ∀ item ∈ items, ∃ id, item.toIdentifier doubleText sha = some id ∧
      Reads doubleText sha read id) (sound : Sound doubleText sha sofar) :
    ∃ values sofar', readAll read entries sofar = .ok (some values, sofar') ∧
      Sound doubleText sha sofar' ∧
      List.Forall₂ (fun value item => value.toHash doubleText sha = item.toHash doubleText sha)
        values items := by
  induction identified generalizing sofar with
  | nil => exact ⟨[], sofar, rfl, sound, .nil⟩
  | @cons item entry items entries first _ ih =>
    obtain ⟨id, identified, rfl⟩ := first
    obtain ⟨id', identified', readsFirst⟩ := reads item mem_cons_self
    obtain rfl := some.inj (identified.symm.trans identified')
    obtain ⟨value, between, readFirst, identifiedValue, soundBetween⟩ := readsFirst sofar sound
    obtain ⟨values, last, readRest, soundLast, same⟩ := ih
      (forall_mem_cons.mp reads).2 soundBetween
    refine ⟨value :: values, last, ?_, soundLast, .cons ?_ same⟩
    · rw [readAll, readFirst]
      show (readAll read entries between >>= _) = _
      rw [readRest]
      rfl
    · exact toHash_of_identified identifiedValue identified

theorem readAll_fields {entries : List (Str × JsonValue)}
    (keys : fields.map fst = entries.map fst)
    (identified : Identified doubleText sha (fields.map snd) (entries.map snd))
    (reads : ∀ item ∈ fields.map snd, ∃ id, item.toIdentifier doubleText sha = some id ∧
      Reads doubleText sha read id) (sound : Sound doubleText sha sofar) :
    ∃ values sofar', readAll (fun (key, value) sofar => do
        let (value, sofar) ← read value sofar
        .ok (value.map (key, ·), sofar)) entries sofar = .ok (some values, sofar') ∧
      Sound doubleText sha sofar' ∧
      List.Forall₂ (fun value field => value.1 = field.1 ∧
        value.2.toHash doubleText sha = field.2.toHash doubleText sha) values fields := by
  induction fields generalizing entries sofar with
  | nil =>
    cases entries with
    | nil => exact ⟨[], sofar, rfl, sound, .nil⟩
    | cons entry rest => cases keys
  | cons field rest ih =>
    cases entries with
    | nil => cases keys
    | cons entry more =>
      obtain ⟨key, value⟩ := field
      obtain ⟨key', json⟩ := entry
      obtain ⟨rfl, keys'⟩ := cons.inj keys
      cases identified with
      | cons first identified =>
        obtain ⟨id, identifiedFirst, rfl⟩ := first
        obtain ⟨id', identifiedFirst', readsFirst⟩ := reads value mem_cons_self
        obtain rfl := some.inj (identifiedFirst.symm.trans identifiedFirst')
        obtain ⟨found, between, readFirst, identifiedFound, soundBetween⟩ := readsFirst sofar sound
        obtain ⟨values, last, readRest, soundLast, same⟩ := ih keys' identified
          (forall_mem_cons.mp reads).2 soundBetween
        refine ⟨(key, found) :: values, last, ?_, soundLast, .cons ⟨rfl, ?_⟩ same⟩
        · simp only [bind, Except.bind] at readRest
          simp only [readAll, bind, Except.bind, readFirst, map_some, readRest]
        · exact toHash_of_identified identifiedFound identifiedFirst

theorem toHash_list_congr {items' : List Expr}
    (same : List.Forall₂ (fun value item => value.toHash doubleText sha = item.toHash doubleText sha)
      items items') :
    (Expr.list items).toHash doubleText sha = (Expr.list items').toHash doubleText sha := by
  have views : (viewItems doubleText sha items).hash = (viewItems doubleText sha items').hash := by
    induction same with
    | nil => rfl
    | cons first _ ih =>
      rw [toHash, toHash] at first
      simp only [viewItems, first, ih]
  simp only [toHash, view, views]

theorem toHash_map_congr {fields' : List (Str × Expr)}
    (same : List.Forall₂ (fun value field => value.1 = field.1 ∧
      value.2.toHash doubleText sha = field.2.toHash doubleText sha) fields fields') :
    (Expr.map fields).toHash doubleText sha = (Expr.map fields').toHash doubleText sha := by
  have views : (viewFields doubleText sha fields).hash = (viewFields doubleText sha fields').hash := by
    induction same with
    | nil => rfl
    | @cons field field' _ _ first _ ih =>
      obtain ⟨key, value⟩ := field
      obtain ⟨key', value'⟩ := field'
      obtain ⟨rfl, first⟩ := first
      rw [toHash, toHash] at first
      simp only [viewFields, first, ih]
  simp only [toHash, view, views]

theorem group_of_identified (collisionFree : CollisionFree sha) (doubles : IsDoubleText doubleText)
    (identified : left.toIdentifier doubleText sha = some id)
    (identified' : right.toIdentifier doubleText sha = some id) : group left = group right := by
  obtain ⟨hash, hashed, -⟩ := map_eq_some_iff.mp identified
  have hashed' := (toHash_of_identified identified identified').symm.trans hashed
  exact group_of_toHash collisionFree doubles hashed hashed'

theorem not_noted (collisionFree : CollisionFree sha) (doubles : IsDoubleText doubleText)
    (identified : expr.toIdentifier doubleText sha = some id)
    (other : group expr ≠ kind) {ids : List Str} (notes : Notes doubleText sha kind ids) :
    id ∉ ids := by
  intro member
  obtain ⟨noted, identified', isKind⟩ := notes id member
  exact other ((group_of_identified collisionFree doubles identified identified').trans isKind)

theorem toIdentifier_of_toHash {other : Expr}
    (identified : other.toIdentifier doubleText sha = some id)
    (same : expr.toHash doubleText sha = other.toHash doubleText sha) :
    expr.toIdentifier doubleText sha = some id := by
  rw [toIdentifier, same]
  exact identified

theorem sameJson_of_identified (collisionFree : CollisionFree sha)
    (doubles : IsDoubleText doubleText)
    (identified : left.toIdentifier doubleText sha = some id)
    (identified' : right.toIdentifier doubleText sha = some id) (mode : JsonMode) :
    SameJson doubleText sha mode left right := by
  obtain ⟨hash, hashed, -⟩ := map_eq_some_iff.mp identified
  have hashed' := (toHash_of_identified identified identified').symm.trans hashed
  exact sameJson_of_toHash collisionFree doubles left right hashed hashed' mode

theorem both_of_map {α β : Type} {f : α → β} {left right : Option α}
    (same : left.map f = right.map f) :
    (left = none ∧ right = none) ∨ ∃ a b, left = some a ∧ right = some b ∧ f a = f b := by
  cases left <;> cases right <;> simp_all

theorem toHash_valueNode_congr {value value' : Expr}
    (same : SameJson doubleText sha .serializeAll value value') :
    (Expr.valueNode value).toHash doubleText sha = (Expr.valueNode value').toHash doubleText sha := by
  refine hashJson_congr ?_
  rcases both_of_map same with ⟨left, right⟩ | ⟨_, _, left, right, shown⟩ <;>
    simp_all [Expr.toJson, View.json, Json.shown, Json.shownFields]

theorem toHash_abstractNode_congr (nodeType : Str) {strings strings' targets targets' : Expr}
    (same : SameJson doubleText sha .serializeAll strings strings')
    (same' : SameJson doubleText sha .serializeAllButNodes targets targets') :
    (Expr.abstractNode nodeType strings targets).toHash doubleText sha =
      (Expr.abstractNode nodeType strings' targets').toHash doubleText sha := by
  refine hashJson_congr ?_
  rcases both_of_map same with ⟨left, right⟩ | ⟨_, _, left, right, shown⟩ <;>
    rcases both_of_map same' with ⟨left', right'⟩ | ⟨_, _, left', right', shown'⟩ <;>
    simp_all [Expr.toJson, View.json, Json.shown, Json.shownFields]

theorem toHash_result_congr {stage stage' given given' run run' : Expr} (flag flag' : Bool)
    (same : SameJson doubleText sha .serializeAllButNodes stage stage')
    (same' : SameJson doubleText sha .serializeAllButNodes given given')
    (same'' : SameJson doubleText sha .serializeAllButNodes run run') :
    (Expr.result stage given run flag).toHash doubleText sha =
      (Expr.result stage' given' run' flag').toHash doubleText sha := by
  refine hashJson_congr ?_
  rcases both_of_map same with ⟨left, right⟩ | ⟨_, _, left, right, shown⟩ <;>
    rcases both_of_map same' with ⟨left', right'⟩ | ⟨_, _, left', right', shown'⟩ <;>
    rcases both_of_map same'' with ⟨left'', right''⟩ | ⟨_, _, left'', right'', shown''⟩ <;>
    simp_all [Expr.toJson, View.json, Json.shown, Json.shownFields]

theorem reads_part {whole : Expr}
    (reads : ∀ part ∈ parts whole, ∃ id,
      part.toIdentifier doubleText sha = some id ∧ Reads doubleText sha read id)
    (member : part ∈ parts whole) (identified : part.toIdentifier doubleText sha = some id)
    (sound : Sound doubleText sha sofar) :
    ∃ expr sofar', read (.string id) sofar = .ok (some expr, sofar') ∧
      expr.toIdentifier doubleText sha = some id ∧ Sound doubleText sha sofar' := by
  obtain ⟨id', identified', readsPart⟩ := reads part member
  obtain rfl := some.inj (identified.symm.trans identified')
  exact readsPart sofar sound

theorem read_entry (collisionFree : CollisionFree sha) (doubles : IsDoubleText doubleText)
    {table : Table} {json : JsonValue} (isEntry : IsEntry doubleText sha expr json)
    (noName : group expr ≠ 1) (stored : find id table.nodes = some json)
    (identified : expr.toIdentifier doubleText sha = some id)
    (reads : ∀ part ∈ parts expr, ∃ id, part.toIdentifier doubleText sha = some id ∧
      Reads doubleText sha (deserializeExpression hashType table depth) id)
    (noArtifact : group expr ≠ 2 → id ∉ table.artifacts)
    (isNode : group expr = 4 ↔ id ∈ table.targetNodes)
    (isResult : group expr = 3 ↔ id ∈ table.results) (sound : Sound doubleText sha sofar)
    (unknown : find id sofar = none) :
    ∃ value sofar', deserializeExpression hashType table (depth + 1) (.string id) sofar =
        .ok (some value, sofar') ∧
      value.toIdentifier doubleText sha = some id ∧ Sound doubleText sha sofar' := by
  cases isEntry with
  | @map fields entries keys values =>
    obtain ⟨found, last, read, soundLast, same⟩ := readAll_fields keys values reads sound
    have here := toIdentifier_of_toHash identified (toHash_map_congr same)
    refine ⟨.map found, last ++ [(id, .map found)], ?_, here, soundLast.append here⟩
    have notArtifact := noArtifact (by simp [group])
    have notNode : id ∉ table.targetNodes := fun noted => by simp [group] at isNode; exact isNode noted
    have notResult : id ∉ table.results := fun noted => by
      simp [group] at isResult
      exact isResult noted
    simp only [bind, Except.bind] at read
    simp only [deserializeExpression, asString, bind, Except.bind, unknown, stored, orThrow,
      if_neg notArtifact, if_neg notNode, if_neg notResult, read]
  | @list items entries values =>
    obtain ⟨found, last, read, soundLast, same⟩ := readAll_items values reads sound
    have here := toIdentifier_of_toHash identified (toHash_list_congr same)
    refine ⟨.list found, last ++ [(id, .list found)], ?_, here, soundLast.append here⟩
    simp only [deserializeExpression, asString, bind, Except.bind, unknown, stored, orThrow, read]
  | @valueNode value inner identifiedInner =>
    have notArtifact := noArtifact (by simp [group])
    have noted := isNode.mp rfl
    obtain ⟨found, last, read, identifiedFound, soundLast⟩ :=
      reads_part reads (mem_singleton_self value) identifiedInner sound
    have here := toIdentifier_of_toHash identified (toHash_valueNode_congr
      (sameJson_of_identified collisionFree doubles identifiedFound identifiedInner _))
    refine ⟨.valueNode found, last ++ [(id, .valueNode found)], ?_, here, soundLast.append here⟩
    simp [deserializeExpression, asString, bind, Except.bind, unknown, stored, orThrow,
      if_neg notArtifact, if_pos noted, readNode, readPart, jsonField, find_cons, lit_inj, read]
  | @abstractNode nodeType stringFields targetFields strings targets identifiedStrings
      identifiedTargets =>
    have notArtifact := noArtifact (by simp [group])
    have noted := isNode.mp rfl
    obtain ⟨foundTargets, between, readTargets, identifiedTargets', soundBetween⟩ :=
      reads_part reads (by simp [parts] : targetFields ∈ _) identifiedTargets sound
    obtain ⟨foundStrings, last, readStrings, identifiedStrings', soundLast⟩ :=
      reads_part reads (by simp [parts] : stringFields ∈ _) identifiedStrings soundBetween
    have here := toIdentifier_of_toHash identified (toHash_abstractNode_congr nodeType
      (sameJson_of_identified collisionFree doubles identifiedStrings' identifiedStrings _)
      (sameJson_of_identified collisionFree doubles identifiedTargets' identifiedTargets _))
    refine ⟨.abstractNode nodeType foundStrings foundTargets,
      last ++ [(id, .abstractNode nodeType foundStrings foundTargets)], ?_, here,
      soundLast.append here⟩
    simp [deserializeExpression, asString, bind, Except.bind, unknown, stored, orThrow,
      if_neg notArtifact, if_pos noted, readNode, readPart, jsonField, find_cons, lit_inj,
      readTargets, readStrings]
  | @result artifactStage provides runfiles flag stage given run identifiedStage identifiedGiven
      identifiedRun =>
    have notArtifact := noArtifact (by simp [group])
    have notNode : id ∉ table.targetNodes := fun noted => by simp [group] at isNode; exact isNode noted
    have noted := isResult.mp rfl
    obtain ⟨foundStage, first, readStage, identifiedStage', soundFirst⟩ :=
      reads_part reads (by simp [parts] : artifactStage ∈ _) identifiedStage sound
    obtain ⟨foundRun, second, readRun, identifiedRun', soundSecond⟩ :=
      reads_part reads (by simp [parts] : runfiles ∈ _) identifiedRun soundFirst
    obtain ⟨foundGiven, last, readGiven, identifiedGiven', soundLast⟩ :=
      reads_part reads (by simp [parts] : provides ∈ _) identifiedGiven soundSecond
    have here := toIdentifier_of_toHash identified (toHash_result_congr true flag
      (sameJson_of_identified collisionFree doubles identifiedStage' identifiedStage _)
      (sameJson_of_identified collisionFree doubles identifiedGiven' identifiedGiven _)
      (sameJson_of_identified collisionFree doubles identifiedRun' identifiedRun _))
    refine ⟨.result foundStage foundGiven foundRun true, last, ?_, here, soundLast⟩
    simp [deserializeExpression, asString, bind, Except.bind, unknown, stored, orThrow,
      if_neg notArtifact, if_neg notNode, if_pos noted, readResult, jsonField, find_cons, lit_inj,
      readStage, readRun, readGiven]
  | plain plain shown =>
    have isLeaf : group expr = 0 := plain.resolve_right noName
    refine ⟨expr, sofar ++ [(id, expr)], ?_, identified, sound.append identified⟩
    cases expr with
    | none | bool _ | number _ | string _ =>
      cases shown
      simp [deserializeExpression, asString, bind, Except.bind, unknown, stored, orThrow,
        fromJsonLeaf]
    | _ => cases isLeaf

theorem present_later {older : List (Str × JsonValue)} {first : Str} {json : JsonValue}
    (fresh : find first older = none)
    (present : ∀ id value, find id ((first, json) :: older) = some value →
      find id nodes = some value) :
    ∀ id value, find id older = some value → find id nodes = some value := by
  intro id value isFound
  refine present id value ?_
  rw [find_cons, if_neg (fun same => by rw [same, isFound] at fresh; cases fresh)]
  exact isFound

theorem reads_of_unknown {table : Table}
    (reads : ∀ sofar, Sound doubleText sha sofar → find id sofar = none → ∃ expr sofar',
      deserializeExpression hashType table (depth + 1) (.string id) sofar =
          .ok (some expr, sofar') ∧
        expr.toIdentifier doubleText sha = some id ∧ Sound doubleText sha sofar') :
    Reads doubleText sha (deserializeExpression hashType table (depth + 1)) id := by
  intro sofar sound
  cases known : find id sofar with
  | none => exact reads sofar sound known
  | some expr =>
    refine ⟨expr, sofar, ?_, sound id expr known, sound⟩
    simp only [deserializeExpression, asString, bind, Except.bind, known]

theorem toJson_isObject (artifact : ArtifactDescription) :
    ∃ fields, artifact.toJson = .object fields := by
  cases artifact <;> exact ⟨_, rfl⟩

theorem reads_of_stored (collisionFree : CollisionFree sha) (doubles : IsDoubleText doubleText)
    (readable : IsReadable hashType root)
    (written : WellWritten doubleText sha root tables) {older : List (Str × JsonValue)}
    (stored : Stored doubleText sha root tables older)
    (present : ∀ id json, find id older = some json → find id nodes = some json)
    (enough : older.length ≤ depth) (found : (find id older).isSome = true) :
    Reads doubleText sha (deserializeExpression hashType
      ⟨nodes, tables.artifacts, tables.targetNodes, tables.results⟩ depth) id := by
  induction stored generalizing depth id with
  | nil => cases found
  | @artifact older first artifact stored fresh among identified listed ih =>
    have later := present_later fresh present
    rw [length_cons] at enough
    rw [find_cons] at found
    split at found
    swap
    · exact ih later (by omega) found
    rename_i same
    subst same
    obtain ⟨depth, rfl⟩ : ∃ less, depth = less + 1 := ⟨depth - 1, by omega⟩
    refine reads_of_unknown fun sofar sound unknown => ?_
    have stored' := present first artifact.toJson (by rw [find_cons, if_pos rfl])
    have read := ArtifactDescription.fromJson_toJson ((readable _ among).2 artifact rfl)
    refine ⟨.artifact artifact, sofar ++ [(first, .artifact artifact)], ?_, identified,
      sound.append identified⟩
    obtain ⟨fields, isObject⟩ := toJson_isObject artifact
    rw [isObject] at stored' read
    simp only [deserializeExpression, asString, bind, Except.bind, unknown, stored', orThrow,
      if_pos listed, read]
  | @entry older first expr json stored fresh among identified isEntry inside noted noted' ih =>
    have later := present_later fresh present
    rw [length_cons] at enough
    rw [find_cons] at found
    split at found
    swap
    · exact ih later (by omega) found
    rename_i same
    subst same
    obtain ⟨depth, rfl⟩ : ∃ less, depth = less + 1 := ⟨depth - 1, by omega⟩
    refine reads_of_unknown fun sofar sound unknown => ?_
    refine read_entry collisionFree doubles isEntry (readable _ among).1
      (present first json (by rw [find_cons, if_pos rfl])) identified ?_ ?_ ?_ ?_ sound unknown
    · intro part member
      obtain ⟨id, identifiedPart, isFound⟩ := inside part member
      exact ⟨id, identifiedPart, ih later (by omega) isFound⟩
    · exact fun other => not_noted collisionFree doubles identified other written.artifacts
    · refine ⟨noted, fun member => ?_⟩
      by_contra other
      exact not_noted collisionFree doubles identified other written.targetNodes member
    · refine ⟨noted', fun member => ?_⟩
      by_contra other
      exact not_noted collisionFree doubles identified other written.results member

/-! ## Stages and tables -/

/-- Artifacts in a stage, with digests of one hash type. -/
def IsStageOf (hashType : HashType) (expr : Expr) : Prop :=
  ∃ fields, expr = .map fields ∧ ∀ field ∈ fields, ∃ artifact, field.2 = .artifact artifact ∧
    artifact.HasType hashType

theorem deserializeArtifactMap_of_stage (stage : IsStageOf hashType expr) :
    ∃ entries, serializeArtifactMap doubleText sha [] expr = .ok (.object entries) ∧
      deserializeArtifactMap hashType (.object entries) = some expr := by
  obtain ⟨fields, rfl, artifacts⟩ := stage
  have views : ∃ entries, (viewFields doubleText sha fields).all = some entries ∧
      (entries.mapM fun (key, json) => do
        some (key, Expr.artifact (← ArtifactDescription.fromJson hashType json))) = some fields := by
    induction fields with
    | nil => exact ⟨[], rfl, rfl⟩
    | cons field rest ih =>
      obtain ⟨key, value⟩ := field
      obtain ⟨artifact, isArtifact, digests⟩ := artifacts _ mem_cons_self
      obtain ⟨entries, shown, read⟩ := ih fun field member =>
        artifacts field (mem_cons_of_mem _ member)
      refine ⟨(key, artifact.toJson) :: entries, ?_, ?_⟩
      · simp only at isArtifact
        simp [viewFields, view, View.ofJson, shown, isArtifact]
      · simp only at isArtifact
        rw [mapM_cons, read]
        simp [ArtifactDescription.fromJson_toJson digests, isArtifact]
  obtain ⟨entries, shown, read⟩ := views
  refine ⟨entries, ?_, ?_⟩
  · have json : (Expr.map fields).toJson doubleText sha .serializeAll = some (.object entries) := by
      simp [Expr.toJson, View.json, view, shown]
    simp [serializeArtifactMap, json, orTerminate]
  · rw [deserializeArtifactMap, read]
    rfl

theorem jsonSet_jsonStrings (strings : List Str) : jsonSet (jsonStrings strings) = .ok strings := by
  show (strings.map Json.string).mapM asString = .ok strings
  induction strings with
  | nil => rfl
  | cons first rest ih =>
    rw [map_cons, mapM_cons]
    show (Except.ok first >>= fun value => _) = _
    simp only [bind, Except.bind] at ih ⊢
    rw [ih]
    rfl

theorem nodup_of_stored (stored : Stored doubleText sha root notes nodes) :
    (nodes.map fst).Nodup := by
  induction stored with
  | nil => exact nodup_nil
  | artifact _ fresh _ _ _ ih | entry _ fresh _ _ _ _ _ _ ih =>
    refine nodup_cons.mpr ⟨fun member => ?_, ih⟩
    obtain ⟨entry, inside, same⟩ := mem_map.mp member
    have absent := find_eq_none.mp fresh entry inside
    exact absent same

theorem length_le_emplaceAll (nodup : (nodes.map fst).Nodup) :
    nodes.length ≤ (emplaceAll nodes []).length := by
  have keys : nodes.map fst ⊆ (emplaceAll nodes []).map fst := by
    intro key member
    by_contra absent
    have none : find key (emplaceAll nodes []) = none := find_eq_none.mpr fun entry inside same =>
      absent (mem_map.mpr ⟨entry, inside, same⟩)
    rw [find_emplaceAll, find_nil, none_or] at none
    obtain ⟨entry, inside, same⟩ := mem_map.mp member
    exact find_eq_none.mp none entry inside same
  have lengths := nodup.length_le_of_subset keys
  rwa [length_map, length_map] at lengths

/-! ## Cacheable expressions -/

/-- The lists of strings of an abstract node. -/
def IsStringLists (expr : Expr) : Prop :=
  ∃ fields, expr = .map fields ∧ ∀ field ∈ fields, ∃ items, field.2 = .list items ∧
    ∀ item ∈ items, ∃ value, item = .string value

/-- An expression as rules build it: results have stages and say whether they are cacheable,
abstract nodes have strings, and known artifacts have digests of one hash type. -/
def IsBuilt (hashType : HashType) (root : Expr) : Prop :=
  ∀ part, Among [root] part →
    match part with
    | .artifact description => description.HasType hashType
    | .result artifactStage provides runfiles flag =>
      IsStageOf hashType artifactStage ∧ IsStageOf hashType runfiles ∧ flag = provides.isCacheable
    | .abstractNode _ stringFields _ => IsStringLists stringFields
    | _ => True

theorem isCacheableItems_iff :
    isCacheableItems items = true ↔ ∀ item ∈ items, item.isCacheable = true := by
  induction items with
  | nil => simp [isCacheableItems]
  | cons item rest ih => simp [isCacheableItems, ih]

theorem isCacheableFields_iff :
    isCacheableFields fields = true ↔ ∀ field ∈ fields, field.2.isCacheable = true := by
  induction fields with
  | nil => simp [isCacheableFields]
  | cons field rest ih =>
    obtain ⟨key, value⟩ := field
    rw [isCacheableFields, and_eq_true, ih, forall_mem_cons]

theorem isCacheable_stage (stage : IsStageOf hashType expr) : expr.isCacheable = true := by
  obtain ⟨fields, rfl, artifacts⟩ := stage
  rw [Expr.isCacheable, isCacheableFields_iff]
  intro field member
  obtain ⟨artifact, same, -⟩ := artifacts field member
  rw [same]
  rfl

theorem isCacheable_stringLists (strings : IsStringLists expr) : expr.isCacheable = true := by
  obtain ⟨fields, rfl, lists⟩ := strings
  rw [Expr.isCacheable, isCacheableFields_iff]
  intro field member
  obtain ⟨items, same, values⟩ := lists field member
  rw [same, Expr.isCacheable, isCacheableItems_iff]
  intro item inside
  obtain ⟨value, rfl⟩ := values item inside
  rfl

theorem isCacheable_parts {whole : Expr} (built : IsBuilt hashType whole)
    (cacheable : whole.isCacheable = true) (member : part ∈ parts whole) : part.isCacheable = true := by
  have here := built whole (among_self whole)
  cases whole with
  | list items => exact isCacheableItems_iff.mp cacheable part member
  | map fields =>
    obtain ⟨field, inside, rfl⟩ := mem_map.mp member
    exact isCacheableFields_iff.mp cacheable field inside
  | valueNode value =>
    rw [mem_singleton.mp member]
    exact cacheable
  | abstractNode nodeType stringFields targetFields =>
    simp only [parts, mem_cons, not_mem_nil, or_false] at member
    rcases member with rfl | rfl
    · exact isCacheable_stringLists here
    · exact cacheable
  | result artifactStage provides runfiles flag =>
    simp only [parts, mem_cons, not_mem_nil, or_false] at member
    rcases member with rfl | rfl | rfl
    · exact isCacheable_stage here.1
    · exact isCacheable_stage here.2.1
    · exact here.2.2.symm.trans cacheable
  | _ => cases member

theorem isCacheable_occurs (built : IsBuilt hashType root) (cacheable : root.isCacheable = true)
    (occurs : Occurs root part) : part.isCacheable = true := by
  induction occurs with
  | refl => exact cacheable
  | @tail outer inner occurs member ih =>
    refine @isCacheable_parts hashType _ _ (fun part among => ?_) ih member
    obtain ⟨whole, same, inside⟩ := among
    rw [mem_singleton.mp same] at inside
    exact built part ⟨root, mem_singleton_self _, occurs.trans inside⟩

theorem isReadable_of_isCacheable (built : IsBuilt hashType root)
    (cacheable : root.isCacheable = true) : IsReadable hashType root := by
  intro part among
  obtain ⟨whole, same, occurs⟩ := among
  rw [mem_singleton.mp same] at occurs
  have here := isCacheable_occurs built cacheable occurs
  have digests := built part ⟨root, mem_singleton_self _, occurs⟩
  constructor
  · intro isName
    cases part with
    | namedTarget _ | anonymousTarget _ _ => cases here
    | _ => cases isName
  · rintro artifact rfl
    exact digests

/-! ## The whole result -/

/-- What was written for a cacheable target result is read as an equal result. -/
theorem fromJson_of_toJson (collisionFree : CollisionFree sha) (doubles : IsDoubleText doubleText)
    {hashType : HashType} {result : TargetResult} (stage : IsStageOf hashType result.artifactStage)
    (run : IsStageOf hashType result.runfiles) (built : IsBuilt hashType result.provides)
    (cacheable : result.provides.isCacheable = true)
    (acyclic : IsAcyclic doubleText sha result.provides) {json : JsonValue}
    (written : TargetResult.toJson doubleText sha result = .ok json) :
    ∃ read, TargetResult.fromJson hashType json = some read ∧
      TargetResult.equal doubleText sha read result := by
  obtain ⟨artifacts, staged, readStage⟩ := @deserializeArtifactMap_of_stage doubleText sha _ _ stage
  obtain ⟨runfiles, ran, readRun⟩ := @deserializeArtifactMap_of_stage doubleText sha _ _ run
  have parts : ∃ entry tables,
      serializeExpression doubleText sha [] result.provides ⟨[], [], [], []⟩ = .ok (entry, tables) := by
    obtain ⟨_, -, written⟩ := ok_of_bind written
    obtain ⟨_, -, written⟩ := ok_of_bind written
    obtain ⟨_, provided, -⟩ := ok_of_bind written
    obtain ⟨⟨entry, tables⟩, written, -⟩ := ok_of_bind provided
    exact ⟨entry, tables, written⟩
  obtain ⟨entry, tables, provided⟩ := parts
  rw [TargetResult.toJson, serialize_of_parts staged ran provided] at written
  cases written
  have wrote := wrote_of_serializeExpression _ provided
  have wellWritten := wellWritten_of_serializeExpression acyclic provided
  have present : ∀ id value, find id tables.nodes = some value →
      find id (emplaceAll tables.nodes []) = some value := by
    intro id value found
    rw [find_emplaceAll, find_nil, none_or]
    exact found
  have enough : tables.nodes.length ≤ (emplaceAll tables.nodes []).length + 1 :=
    Nat.le_succ_of_le (length_le_emplaceAll (nodup_of_stored wellWritten.stored))
  obtain ⟨provides, _, read, identified, -⟩ := reads_of_stored collisionFree doubles
    (isReadable_of_isCacheable built cacheable) wellWritten wellWritten.stored present enough
    wrote.2.1 [] (fun _ _ none => (nomatch none))
  refine ⟨.make result.artifactStage provides result.runfiles, ?_, rfl,
    toHash_of_identified identified wrote.1, rfl⟩
  simp only [resultJson, TargetResult.fromJson, deserializeProvidesMap, jsonField, find_cons,
    lit_inj, String.reduceEq, if_true, if_false, orThrow, jsonSet_jsonStrings, bind, Except.bind,
    Option.bind, readStage, readRun, read, Except.toOption]
/-- The digests of `x`, of `null` and of the map from one to the other. -/
def nullMapDigests : List (Str × Str) :=
  let name := [45, 113, 22, 66, 183, 38, 176, 68, 1, 98, 124, 169, 251, 172, 50, 245, 200, 83, 15,
    177, 144, 60, 196, 219, 2, 37, 135, 23, 146, 26, 72, 129]
  let value := [116, 35, 78, 152, 175, 231, 73, 143, 181, 218, 241, 243, 106, 194, 215, 138, 204,
    51, 148, 100, 249, 80, 112, 59, 140, 1, 152, 146, 249, 130, 185, 11]
  [(lit "x", name), (lit "null", value),
    (lit "\x7b" ++ name ++ value, [94, 225, 168, 89, 105, 173, 174, 24, 5, 3, 42, 134, 10, 22, 97,
      43, 111, 229, 173, 198, 87, 47, 176, 5, 118, 249, 213, 128, 18, 203, 59, 37])]

/-- A result with the output of an action that provides a null. -/
def nullResult : TargetResult :=
  .make (.map [(lit "out", .artifact (.action (lit "a") (lit "out")))]) (.map [(lit "x", .none)])
    (.map [])

theorem among_nullResult (among : Among [nullResult.provides] part) :
    part = nullResult.provides ∨ part = .none := by
  obtain ⟨root, member, occurs⟩ := among
  rw [mem_singleton.mp member] at occurs
  induction occurs with
  | refl => exact .inl rfl
  | tail _ direct ih =>
    rcases ih with rfl | rfl
    · exact .inr (mem_singleton.mp direct)
    · cases direct

theorem fromJson_of_toJson_nullResult :
    ∃ json, TargetResult.toJson bitsText (digestsOf nullMapDigests) nullResult = .ok json ∧
      ∃ read, TargetResult.fromJson .plainSHA256 json = some read ∧
        TargetResult.equal bitsText (digestsOf nullMapDigests) read nullResult := by
  refine ⟨_, rfl, fromJson_of_toJson (digestsOf_collisionFree (by decide)) bitsText_isDoubleText
    ⟨_, rfl, fun field member => ?_⟩ ⟨[], rfl, fun _ none => (nomatch none)⟩ (fun part among => ?_)
    rfl (fun whole among inner inside hash hashed same => ?_) rfl⟩
  · rw [mem_singleton.mp member]
    exact ⟨_, rfl, trivial⟩
  · rcases among_nullResult among with rfl | rfl <;> trivial
  · rcases among_nullResult among with rfl | rfl
    · obtain ⟨part, member, occurs⟩ := inside
      rw [mem_singleton.mp member] at occurs
      obtain rfl : inner = .none := by
        cases occurs using Relation.ReflTransGen.head_induction_on with
        | refl => rfl
        | head direct _ => cases direct
      rw [← hashed] at same
      revert same
      decide
    · obtain ⟨part, member, -⟩ := inside
      cases member

end Jst.Verif.TargetResultRoundTrip
