import Jst.Verif.Denotation
/-!
# Quasi-quotes

The value of a quasi-quote is the quoted term with its markers replaced, unless a list in it has an
entry that is an ordinary map, or an unquote marker without expression. Such entries are not wrapped
in a list before the lists of what entries expand to are joined, so that the evaluation fails.
-/
namespace Jst.Verif.QuasiQuotes

open Jst.Expression Jst.Expression.Evaluator Jst.SortedMap FreeVariables Denotation

section Replacing

variable (eval : SubExprEvaluator) (env : Configuration)

mutual
/-- A term with its markers replaced, if the expressions of all markers have the values they need
and splice markers are entries of lists. -/
def replaced : Value → Option Value
  | .list entries => do return .list (← replacedEntries entries)
  | .map fields =>
    if token fields = some (lit ",") then
      match find (lit "$1") fields with
      | none => some .none
      | some expr => eval expr env
    else if token fields = some (lit ",@") then none
    else do return .map (← replacedFields fields)
  | atom => some atom

/-- What takes the place of an entry of a list. -/
def replacedEntry : Value → Option (List Value)
  | .list entries => do return [.list (← replacedEntries entries)]
  | .map fields =>
    if token fields = some (lit ",") then
      match find (lit "$1") fields with
      | none => some [.none]
      | some expr => do return [← eval expr env]
    else if token fields = some (lit ",@") then
      match find (lit "$1") fields with
      | none => some []
      | some expr => do (← eval expr env).asList
    else do return [.map (← replacedFields fields)]
  | atom => some [atom]

/-- The entries of a list with markers replaced. -/
def replacedEntries : List Value → Option (List Value)
  | [] => some []
  | entry :: entries => do return (← replacedEntry entry) ++ (← replacedEntries entries)

/-- The values of a map with markers replaced. -/
def replacedFields : List (Str × Value) → Option (List (Str × Value))
  | [] => some []
  | (key, value) :: fields => do return (key, ← replaced value) :: (← replacedFields fields)
end

theorem replacedEntry_eq (term : Value)
    (noSplice : ∀ fields, term = .map fields → token fields ≠ some (lit ",@")) :
    replacedEntry eval env term = (replaced eval env term).map ([·]) := by
  cases term with
  | list entries =>
    rw [replacedEntry, replaced]
    cases replacedEntries eval env entries <;> rfl
  | map fields =>
    rw [replacedEntry, replaced]
    rw [if_neg (noSplice fields rfl), if_neg (noSplice fields rfl)]
    split
    · cases find (lit "$1") fields with
      | none => rfl
      | some expr =>
        cases value : eval expr env <;> simp [value]
    · cases replacedFields eval env fields <;> rfl
  | _ => rfl

end Replacing

/-! ## Entries of lists -/

mutual
/-- No list, outside of markers, has an entry that is not wrapped. -/
def goodEntries : Value → Bool
  | .list entries => goodList entries
  | .map fields => token fields = some (lit ",") || token fields = some (lit ",@") ||
    goodFields fields
  | _ => true

/-- An entry of a list is wrapped: it is no ordinary map, and no unquote marker without expression.
-/
def goodEntry : Value → Bool
  | .list entries => goodList entries
  | .map fields => token fields = some (lit ",") && (find (lit "$1") fields).isSome ||
    token fields = some (lit ",@")
  | _ => true

/-- All entries of a list are wrapped. -/
def goodList : List Value → Bool
  | [] => true
  | entry :: entries => goodEntry entry && goodList entries

/-- All values of a map are good. -/
def goodFields : List (Str × Value) → Bool
  | [] => true
  | (_, value) :: fields => goodEntries value && goodFields fields
end

section Expanding

variable {eval : SubExprEvaluator} {env : Configuration}

mutual
theorem expandEntry_eq : ∀ term : Value,
    ((expandQuasiQuoteListEntry eval env term).bind Value.asList) =
      if goodEntry term then replacedEntry eval env term else none
  | .list entries => by
    rw [expandQuasiQuoteListEntry, goodEntry, replacedEntry, expandList_eq entries]
    cases goodList entries with
    | false => rfl
    | true => cases replacedEntries eval env entries <;> rfl
  | .map fields => by
    rw [expandQuasiQuoteListEntry, goodEntry, replacedEntry]
    by_cases unquote : token fields = some (lit ",")
    · have other : lit "," ≠ lit ",@" := by decide
      simp only [unquote, if_true, decide_true, Bool.true_and, some.injEq, other,
        decide_false, Bool.or_false]
      cases find (lit "$1") fields with
      | none => rfl
      | some expr =>
        cases value : eval expr env <;> simp [value, Value.asList]
    · rw [if_neg unquote, if_neg unquote]
      by_cases splice : token fields = some (lit ",@")
      · rw [if_pos splice, if_pos splice, if_pos (by simp [splice])]
        cases find (lit "$1") fields with
        | none => rfl
        | some expr =>
          cases value : eval expr env with
          | none => simp [value]
          | some list => cases list <;> simp [value, Value.asList]
      · -- an ordinary map is not wrapped
        rw [if_neg splice, if_neg (by simp [unquote, splice])]
        cases expandQuasiQuoteMap eval env fields <;> rfl
  | .none | .bool _ | .number _ | .string _ | .entity _ => by
    simp [expandQuasiQuoteListEntry, goodEntry, replacedEntry, Value.asList]

theorem expandList_eq : ∀ entries : List Value, expandQuasiQuoteList eval env entries =
      if goodList entries then replacedEntries eval env entries else none
  | [] => rfl
  | entry :: entries => by
    rw [expandQuasiQuoteList, goodList, replacedEntries, expandList_eq entries]
    have here := expandEntry_eq entry
    simp only [bind_eq_bind, ← Option.bind_assoc]
    rw [here]
    cases goodEntry entry with
    | false => rfl
    | true =>
      cases goodList entries with
      | true => rfl
      | false => cases replacedEntry eval env entry <;> rfl

theorem expand_eq : ∀ term : Value,
    expandQuasiQuote eval env term = if goodEntries term then replaced eval env term else none
  | .list entries => by
    rw [expandQuasiQuote, goodEntries, replaced, expandList_eq entries]
    cases goodList entries <;> rfl
  | .map fields => by
    rw [expandQuasiQuote, goodEntries, replaced]
    by_cases unquote : token fields = some (lit ",")
    · cases find (lit "$1") fields <;> simp [unquote]
    · rw [if_neg unquote, if_neg unquote]
      by_cases splice : token fields = some (lit ",@")
      · rw [if_pos splice, if_pos splice, ite_self]
      · rw [if_neg splice, if_neg splice, expandFields_eq fields]
        simp only [unquote, splice, decide_false, Bool.false_or]
        cases goodFields fields <;> rfl
  | .none | .bool _ | .number _ | .string _ | .entity _ => by
    simp [expandQuasiQuote, goodEntries, replaced]

theorem expandFields_eq : ∀ fields : List (Str × Value), expandQuasiQuoteMap eval env fields =
      if goodFields fields then replacedFields eval env fields else none
  | [] => rfl
  | (key, value) :: fields => by
    rw [expandQuasiQuoteMap, goodFields, replacedFields, expand_eq value, expandFields_eq fields]
    cases goodEntries value with
    | false => rfl
    | true =>
      cases goodFields fields with
      | true => rfl
      | false => cases replaced eval env value <;> rfl
end

end Expanding

/-! ## Terms without markers -/

mutual
/-- No map is a marker. -/
def markerFree : Value → Bool
  | .list entries => markerFreeList entries
  | .map fields => token fields ≠ some (lit ",") && token fields ≠ some (lit ",@") &&
    markerFreeFields fields
  | _ => true

/-- No entry of a list has a marker. -/
def markerFreeList : List Value → Bool
  | [] => true
  | entry :: entries => markerFree entry && markerFreeList entries

/-- No value of a map has a marker. -/
def markerFreeFields : List (Str × Value) → Bool
  | [] => true
  | (_, value) :: fields => markerFree value && markerFreeFields fields
end

section Literal

variable {eval : SubExprEvaluator} {env : Configuration}

mutual
theorem replaced_markerFree : ∀ term : Value, markerFree term = true →
    replaced eval env term = some term
  | .list entries, free => by
    rw [replaced, replacedEntries_markerFree entries free]
    rfl
  | .map fields, free => by
    rw [markerFree, and_eq_true, and_eq_true, decide_eq_true_eq, decide_eq_true_eq] at free
    rw [replaced, if_neg free.1.1, if_neg free.1.2, replacedFields_markerFree fields free.2]
    rfl
  | .none, _ | .bool _, _ | .number _, _ | .string _, _ | .entity _, _ => by simp only [replaced]

theorem replacedEntries_markerFree : ∀ entries : List Value, markerFreeList entries = true →
    replacedEntries eval env entries = some entries
  | [], _ => rfl
  | entry :: entries, free => by
    rw [markerFreeList, and_eq_true] at free
    have here := replacedEntry_eq eval env entry fun fields isMap => by
      have inside := free.1
      rw [isMap, markerFree, and_eq_true, and_eq_true, decide_eq_true_eq,
        decide_eq_true_eq] at inside
      exact inside.1.2
    rw [replacedEntries, here, replaced_markerFree entry free.1,
      replacedEntries_markerFree entries free.2]
    rfl

theorem replacedFields_markerFree : ∀ fields : List (Str × Value), markerFreeFields fields = true →
    replacedFields eval env fields = some fields
  | [], _ => rfl
  | (key, value) :: fields, free => by
    rw [markerFreeFields, and_eq_true] at free
    rw [replacedFields, replaced_markerFree value free.1, replacedFields_markerFree fields free.2]
    rfl
end

end Literal

/-! ## The evaluation of a quasi-quote -/

/-- The quasi-quote of a term. -/
def quasiQuote (term : Value) : Value :=
  .map [(lit "$1", term), (lit "type", .string (lit "`"))]

section Evaluating

variable (library : Library) (imports : Option (List (Str × ExpressionFunction)))
  (env : Configuration) (term : Value)

theorem evaluate_quasiQuote : evaluate library imports (quasiQuote term) env =
      if goodEntries term then replaced (evaluate library imports) env term else none := by
  have evaluated := @evaluate_form library imports env "`" quasiQuoteExpr
    [(lit "$1", term), (lit "type", .string (lit "`"))] (by simp [builtInFunctions]) rfl
  exact evaluated.trans (expand_eq term)

/-- The quasi-quote of a term evaluates to the term with its markers replaced. -/
def MeetsLaw : Prop :=
  ∀ value, replaced (evaluate library imports) env term = some value →
    evaluate library imports (quasiQuote term) env = some value

/-- Where all markers can be replaced, a quasi-quote evaluates as it should if and only if no list
in it has an entry that is not wrapped; so it is with terms without markers, all of which should
evaluate to themselves. -/
theorem quasiQuote_iff :
    (MeetsLaw library imports env term ↔
      (replaced (evaluate library imports) env term = none ∨ goodEntries term = true)) ∧
    (markerFree term = true →
      (evaluate library imports (quasiQuote term) env = some term ↔ goodEntries term = true)) := by
  unfold MeetsLaw
  rw [evaluate_quasiQuote]
  constructor
  · cases replaced (evaluate library imports) env term with
    | none => simp
    | some value => cases goodEntries term <;> simp
  · intro free
    rw [replaced_markerFree term free]
    cases goodEntries term <;> simp

end Evaluating

theorem nestedList_literal :
    evaluate bare none (quasiQuote (.list [.list [.bool true]])) [] =
      some (.list [.list [.bool true]]) :=
  ((quasiQuote_iff bare none [] (.list [.list [.bool true]])).2 (by decide)).mpr
    (by decide)

theorem mapEntry_fails :
    markerFree (.list [.map [(lit "x", .bool true)]]) = true ∧
      ¬ MeetsLaw bare none [] (.list [.map [(lit "x", .bool true)]]) := by
  refine ⟨by decide, fun meets => ?_⟩
  have evaluates := meets _ (replaced_markerFree _ (by decide))
  rw [evaluate_quasiQuote, if_neg (by decide)] at evaluates
  cases evaluates

end Jst.Verif.QuasiQuotes
