import Mathlib.Tactic.Common
import Jst.Data.Loops
import Jst.Expression.FreeVariables
/-!
# The free-variable lemma

Two evaluations of an expression agree if their environments agree on the variables it reads. Every
form is shown to depend on its environment only through the parts that `Occurs` lists and the
variables it mentions (`Respects`); the induction over the depth of the expression is then the same
for all forms.
-/
namespace Jst.Verif.FreeVariables

open Jst.Expression Jst.Expression.Evaluator Jst.SortedMap

variable {library : Library} {imports : Option (List (Str × ExpressionFunction))}

variable {eval' eval : SubExprEvaluator} {expr : Fields} {form : String} {part : Value}

section Similar

/-- Two environments extend two others: every variable has the same value in both, or it is not
among the bound ones and has the values it had before. -/
def Extends (bound : List Str) (env other env' other' : Configuration) : Prop :=
  ∀ name, env'.get name = other'.get name ∨
    name ∉ bound ∧ env'.get name = env.get name ∧ other'.get name = other.get name

theorem extends_refl (bound : List Str) (free : bound = []) (env other : Configuration) :
    Extends bound env other env other :=
  fun name => .inr ⟨by simp [free], rfl, rfl⟩

theorem extends_update {bound more : List Str} {env other env' other' : Configuration}
    (related : Extends bound env other env' other') (name : Str) (value : Value)
    (only : ∀ key ∈ more, key = name ∨ key ∈ bound) :
    Extends more env other (env'.update name value) (other'.update name value) := by
  intro key
  rw [Configuration.get_update, Configuration.get_update]
  by_cases here : name = key
  · rw [if_pos here, if_pos here]
    exact .inl rfl
  · rw [if_neg here, if_neg here]
    cases related key with
    | inl same => exact .inl same
    | inr kept =>
      refine .inr ⟨fun member => ?_, kept.2⟩
      cases only key member with
      | inl same => exact here same.symm
      | inr earlier => exact kept.1 earlier

theorem extends_updateAll {bound : List Str} {env other : Configuration} (changes : Configuration)
    (only : ∀ key ∈ bound, (find key changes).isSome) :
    Extends bound env other (env.updateAll changes) (other.updateAll changes) := by
  intro key
  rw [Configuration.get_updateAll, Configuration.get_updateAll]
  cases found : find key changes with
  | some value => exact .inl rfl
  | none =>
    refine .inr ⟨fun member => ?_, rfl, rfl⟩
    have bound := only key member
    rw [found] at bound
    cases bound

/-- Two evaluations behave alike on everything that a form uses of them. -/
structure Similar (form : String) (expr : Fields) (eval eval' : SubExprEvaluator)
    (env other : Configuration) : Prop where
  part : ∀ {part bound env' other'}, Occurs form expr part bound →
    Extends bound env other env' other' → eval part env' = eval' part other'
  default : ∀ {part} env' other', IsDefault part → eval part env' = eval' part other'
  mention : ∀ {name}, Mentions form expr name → env.get name = other.get name

/-- A form depends on the environment only as `Similar` says. -/
def Respects (form : String) (function : Function) : Prop :=
  ∀ {eval eval' : SubExprEvaluator} {expr : Fields} {env other : Configuration},
    Similar form expr eval eval' env other → function eval expr env = function eval' expr other

variable {form : String} {expr : Fields} {eval eval' : SubExprEvaluator} {env other : Configuration}

theorem Similar.eval_part (similar : Similar form expr eval eval' env other)
    (occurs : Occurs form expr part []) : eval part env = eval' part other :=
  similar.part occurs (extends_refl _ rfl env other)

theorem Similar.argument (similar : Similar form expr eval eval' env other) (key : String)
    (plain : isPlain form key = true) :
    evalArgument expr key eval env = evalArgument expr key eval' other := by
  unfold evalArgument
  cases found : find (lit key) expr with
  | none => rfl
  | some part => exact similar.eval_part (.field plain found)

theorem Similar.get (similar : Similar form expr eval eval' env other) (key : String)
    (default : Value) (plain : isPlain form key = true) (isDefault : IsDefault default) :
    evalGet expr key default eval env = evalGet expr key default eval' other := by
  unfold evalGet Value.get
  cases found : find (lit key) expr with
  | none => exact similar.default env other isDefault
  | some part => exact similar.eval_part (.field plain found)

theorem isDefault_string (text : Str) : IsDefault (.string text) := .inl rfl

theorem isDefault_bool (value : Bool) : IsDefault (.bool value) := .inl rfl

theorem isDefault_none : IsDefault .none := .inl rfl

theorem isDefault_emptyList : IsDefault (.list []) := .inr (.inl rfl)

theorem isDefault_emptyMap : IsDefault (.map []) := .inr (.inr (.inl rfl))

theorem isDefault_emptyMapExpr : IsDefault emptyMapExpr := .inr (.inr (.inr rfl))

end Similar

section Plain

theorem respects_unary (plain : isPlain form "$1" = true) (f : Value → Option Value) :
    Respects form (unaryExpr f) := by
  intro eval eval' expr env other similar
  simp only [unaryExpr, similar.argument "$1" plain]

theorem respects_equal : Respects "==" equalExpr := by
  intro eval eval' expr env other similar
  simp only [equalExpr, similar.argument "$1" (by decide), similar.argument "$2" (by decide)]

theorem respects_if : Respects "if" ifExpr := by
  intro eval eval' expr env other similar
  simp only [ifExpr, similar.argument "cond" (by decide),
    similar.get "then" _ (by decide) isDefault_emptyList,
    similar.get "else" _ (by decide) isDefault_emptyList]

theorem respects_changeEnding : Respects "change_ending" changeEndingExpr := by
  intro eval eval' expr env other similar
  simp only [changeEndingExpr, similar.get "$1" _ (by decide) (isDefault_string _),
    similar.get "ending" _ (by decide) (isDefault_string _)]

theorem respects_join : Respects "join" joinExpr := by
  intro eval eval' expr env other similar
  simp only [joinExpr, similar.get "$1" _ (by decide) isDefault_emptyList,
    similar.get "separator" _ (by decide) (isDefault_string _)]

theorem respects_joinCmd : Respects "join_cmd" joinCmdExpr := by
  intro eval eval' expr env other similar
  simp only [joinCmdExpr, similar.get "$1" _ (by decide) isDefault_emptyList]

theorem respects_jsonEncode (dump : Value → Option Str) :
    Respects "json_encode" (jsonEncodeExpr dump) := by
  intro eval eval' expr env other similar
  simp only [jsonEncodeExpr, similar.get "$1" _ (by decide) isDefault_emptyList]

theorem respects_escapeChars : Respects "escape_chars" escapeCharsExpr := by
  intro eval eval' expr env other similar
  simp only [escapeCharsExpr, similar.get "$1" _ (by decide) (isDefault_string _),
    similar.get "chars" _ (by decide) (isDefault_string _),
    similar.get "escape_prefix" _ (by decide) (isDefault_string _)]

theorem respects_lookup : Respects "lookup" lookupExpr := by
  intro eval eval' expr env other similar
  simp only [lookupExpr, similar.argument "key" (by decide), similar.argument "map" (by decide),
    similar.get "default" _ (by decide) isDefault_none]

theorem respects_arrayAccess : Respects "[]" arrayAccessExpr := by
  intro eval eval' expr env other similar
  simp only [arrayAccessExpr, similar.argument "index" (by decide),
    similar.argument "list" (by decide), similar.get "default" _ (by decide) isDefault_none]

theorem respects_singletonMap : Respects "singleton_map" singletonMapExpr := by
  intro eval eval' expr env other similar
  simp only [singletonMapExpr, similar.argument "key" (by decide),
    similar.argument "value" (by decide)]

theorem respects_toSubdir : Respects "to_subdir" toSubdirExpr := by
  intro eval eval' expr env other similar
  simp only [toSubdirExpr, similar.argument "$1" (by decide),
    similar.get "subdir" _ (by decide) (isDefault_string _),
    similar.get "flat" _ (by decide) (isDefault_bool _)]

theorem respects_fromSubdir : Respects "from_subdir" fromSubdirExpr := by
  intro eval eval' expr env other similar
  simp only [fromSubdirExpr, similar.argument "$1" (by decide),
    similar.get "subdir" _ (by decide) (isDefault_string _)]

theorem respects_zipMap : Respects "zip_map" zipMapExpr := by
  intro eval eval' expr env other similar
  simp only [zipMapExpr, similar.get "range_key" _ (by decide) isDefault_emptyList,
    similar.get "range_val" _ (by decide) isDefault_emptyList]

theorem respects_concatTargetName : Respects "concat_target_name" concatTargetNameExpr := by
  intro eval eval' expr env other similar
  simp only [concatTargetNameExpr, similar.get "$1" _ (by decide) (isDefault_string _),
    similar.get "$2" _ (by decide) (isDefault_string _)]

theorem respects_context : Respects "context" contextExpr := by
  intro eval eval' expr env other similar
  exact similar.get "$1" _ (by decide) isDefault_none

theorem respects_disjointUnion : Respects "disjoint_map_union" disjointUnionExpr := by
  intro eval eval' expr env other similar
  simp only [disjointUnionExpr, similar.argument "$1" (by decide)]

theorem respects_assertNonEmpty : Respects "assert_non_empty" assertNonEmptyExpr := by
  intro eval eval' expr env other similar
  simp only [assertNonEmptyExpr, similar.argument "$1" (by decide)]

theorem respects_const {function : Function}
    (const : ∀ eval eval' expr env other, function eval expr env = function eval' expr other) :
    Respects form function := fun _ => const _ _ _ _ _

end Plain

section Branching

theorem respects_var : Respects "var" varExpr := by
  intro eval eval' expr env other similar
  unfold varExpr
  cases named : find (lit "name") expr with
  | none => rfl
  | some value =>
    cases value with
    | string name =>
      simp only [bind_eq_bind, bind_some, Value.asString,
        similar.mention (.var named), similar.get "default" _ (by decide) isDefault_none]
    | _ => rfl

theorem respects_env : Respects "env" envExpr := by
  intro eval eval' expr env other similar
  unfold envExpr
  cases listed : find (lit "vars") expr with
  | none => rfl
  | some value =>
    cases value with
    | list vars =>
      have select : ∀ names, vars.mapM Value.asString = some names →
          env.prune names = other.prune names := by
        intro names read
        refine Configuration.prune_congr fun name member => similar.mention (.env listed ?_)
        obtain ⟨item, inside, same⟩ := Loops.exists_of_mem_mapM read member
        cases item with
        | string text => cases same; exact inside
        | _ => cases same
      simp only [Value.asList, bind_eq_bind, bind_some]
      cases read : vars.mapM Value.asString with
      | none => rfl
      | some names => simp only [bind_some, select names read]
    | _ => rfl

theorem logicalAnd_congr {env other : Configuration} {conds : List Value}
    (alike : ∀ c ∈ conds, eval c env = eval' c other) :
    logicalAnd eval env conds = logicalAnd eval' other conds := by
  induction conds with
  | nil => rfl
  | cons c rest step =>
    rw [logicalAnd, logicalAnd, alike c mem_cons_self, step (forall_mem_cons.mp alike).2]

theorem logicalOr_congr {env other : Configuration} {conds : List Value}
    (alike : ∀ c ∈ conds, eval c env = eval' c other) :
    logicalOr eval env conds = logicalOr eval' other conds := by
  induction conds with
  | nil => rfl
  | cons c rest step =>
    rw [logicalOr, logicalOr, alike c mem_cons_self, step (forall_mem_cons.mp alike).2]

theorem respects_and : Respects "and" andExpr := by
  intro eval eval' expr env other similar
  have unary := respects_unary (by decide) Functions.all similar
  unfold andExpr
  cases found : find (lit "$1") expr with
  | none => rfl
  | some value =>
    cases value with
    | list conds =>
      exact logicalAnd_congr fun c member =>
        similar.eval_part (.condition (.inl rfl) found member)
    | _ => exact unary

theorem respects_or : Respects "or" orExpr := by
  intro eval eval' expr env other similar
  have unary := respects_unary (by decide) Functions.any similar
  unfold orExpr
  cases found : find (lit "$1") expr with
  | none => rfl
  | some value =>
    cases value with
    | list conds =>
      exact logicalOr_congr fun c member =>
        similar.eval_part (.condition (.inr rfl) found member)
    | _ => exact unary

theorem firstPair_congr {env other : Configuration} {chosen : Value → Bool} {default : Option Value}
    {pairs : List Value}
    (alike : ∀ left right part, .list [left, right] ∈ pairs → part = left ∨ part = right →
      eval part env = eval' part other) :
    firstPair eval env chosen default pairs = firstPair eval' other chosen default pairs := by
  fun_induction firstPair eval env chosen default pairs with
  | case1 => rfl
  | case2 key value pairs step =>
    rw [firstPair, alike key value key mem_cons_self (.inl rfl),
      alike key value value mem_cons_self (.inr rfl),
      step fun left right part member => alike left right part (mem_cons_of_mem _ member)]
  | case3 => simp_all [firstPair]

theorem respects_cond : Respects "cond" condExpr := by
  intro eval eval' expr env other similar
  simp only [condExpr, similar.get "default" _ (by decide) isDefault_emptyList]
  cases found : find (lit "cond") expr with
  | none => rfl
  | some value =>
    cases value with
    | list pairs =>
      exact firstPair_congr fun left right part member entry =>
        similar.eval_part (.pair (by decide) found member entry)
    | _ => rfl

theorem respects_case : Respects "case" caseExpr := by
  intro eval eval' expr env other similar
  simp only [caseExpr, similar.get "default" _ (by decide) isDefault_emptyList,
    similar.argument "expr" (by decide)]
  cases found : find (lit "case") expr with
  | none => rfl
  | some value =>
    cases value with
    | map cases' =>
      simp only [Value.asMap, bind_eq_bind, bind_some]
      congr 1
      funext selector
      congr 1
      funext key
      cases member : find key cases' with
      | none => rfl
      | some part => exact similar.eval_part (.case found member)
    | _ => rfl

theorem respects_seqCase : Respects "case*" seqCaseExpr := by
  intro eval eval' expr env other similar
  simp only [seqCaseExpr, similar.get "default" _ (by decide) isDefault_emptyList,
    similar.argument "expr" (by decide)]
  cases found : find (lit "case") expr with
  | none => rfl
  | some value =>
    cases value with
    | list pairs =>
      have alike : ∀ cmp : Value,
          firstPair eval env cmp.equal (evalGet expr "default" (.list []) eval' other) pairs =
          firstPair eval' other cmp.equal (evalGet expr "default" (.list []) eval' other) pairs :=
        fun cmp => firstPair_congr fun left right part member entry =>
          similar.eval_part (.pair (by decide) found member entry)
      simp only [Value.asList, bind_eq_bind, bind_some, alike]
    | _ => rfl

end Branching

section Quasi

variable {eval eval' : SubExprEvaluator} {env other : Configuration}

theorem unquoted_argument {fields : Fields} {arg : Value}
    (alike : ∀ part, Unquoted (.map fields) part → eval part env = eval' part other)
    (unquotes : token fields = some (lit ",") ∨ token fields = some (lit ",@"))
    (found : find (lit "$1") fields = some arg) : eval arg env = eval' arg other :=
  alike arg (.argument unquotes found)

mutual
theorem expandQuasiQuoteListEntry_congr : ∀ quoted : Value,
    (∀ part, Unquoted quoted part → eval part env = eval' part other) →
    expandQuasiQuoteListEntry eval env quoted = expandQuasiQuoteListEntry eval' other quoted
  | .list entries, alike => by
    rw [expandQuasiQuoteListEntry, expandQuasiQuoteListEntry, expandQuasiQuoteList_congr entries
      fun entry member part inside => alike part (.item member inside)]
  | .map fields, alike => by
    rw [expandQuasiQuoteListEntry, expandQuasiQuoteListEntry]
    split
    · next unquotes =>
      cases found : find (lit "$1") fields with
      | none => rfl
      | some arg => simp only [unquoted_argument alike (.inl unquotes) found]
    · next one =>
      split
      · next unquotes =>
        cases found : find (lit "$1") fields with
        | none => rfl
        | some arg => simp only [unquoted_argument alike (.inr unquotes) found]
      · next other =>
        rw [expandQuasiQuoteMap_congr fields fun key value member part inside =>
          alike part (.field ⟨one, other⟩ member inside)]
  | .none, _ | .bool _, _ | .number _, _ | .string _, _ | .entity _, _ => by
    simp only [expandQuasiQuoteListEntry]

theorem expandQuasiQuoteList_congr : ∀ entries : List Value,
    (∀ entry ∈ entries, ∀ part, Unquoted entry part → eval part env = eval' part other) →
    expandQuasiQuoteList eval env entries = expandQuasiQuoteList eval' other entries
  | [], _ => rfl
  | entry :: entries, alike => by
    rw [expandQuasiQuoteList, expandQuasiQuoteList,
      expandQuasiQuoteListEntry_congr entry (alike entry mem_cons_self),
      expandQuasiQuoteList_congr entries fun other member =>
        alike other (mem_cons_of_mem _ member)]

theorem expandQuasiQuote_congr : ∀ quoted : Value,
    (∀ part, Unquoted quoted part → eval part env = eval' part other) →
    expandQuasiQuote eval env quoted = expandQuasiQuote eval' other quoted
  | .list entries, alike => by
    rw [expandQuasiQuote, expandQuasiQuote, expandQuasiQuoteList_congr entries
      fun entry member part inside => alike part (.item member inside)]
  | .map fields, alike => by
    rw [expandQuasiQuote, expandQuasiQuote]
    split
    · next unquotes =>
      cases found : find (lit "$1") fields with
      | none => rfl
      | some arg => exact unquoted_argument alike (.inl unquotes) found
    · next one =>
      split
      · rfl
      · next other =>
        rw [expandQuasiQuoteMap_congr fields fun key value member part inside =>
          alike part (.field ⟨one, other⟩ member inside)]
  | .none, _ | .bool _, _ | .number _, _ | .string _, _ | .entity _, _ => by
    simp only [expandQuasiQuote]

theorem expandQuasiQuoteMap_congr : ∀ fields : List (Str × Value),
    (∀ key value, (key, value) ∈ fields →
      ∀ part, Unquoted value part → eval part env = eval' part other) →
    expandQuasiQuoteMap eval env fields = expandQuasiQuoteMap eval' other fields
  | [], _ => rfl
  | (key, value) :: fields, alike => by
    rw [expandQuasiQuoteMap, expandQuasiQuoteMap,
      expandQuasiQuote_congr value (alike key value mem_cons_self),
      expandQuasiQuoteMap_congr fields fun key value member =>
        alike key value (mem_cons_of_mem _ member)]
end

theorem respects_quasiQuote : Respects "`" quasiQuoteExpr := by
  intro eval eval' expr env other similar
  unfold quasiQuoteExpr
  cases found : find (lit "$1") expr with
  | none => rfl
  | some quoted =>
    exact expandQuasiQuote_congr quoted fun part inside =>
      similar.eval_part (.unquoted found inside)

end Quasi

section Binders

theorem respects_foreach : Respects "foreach" foreachExpr := by
  intro eval eval' expr env other similar
  simp only [foreachExpr, similar.get "range" _ (by decide) isDefault_emptyList]
  congr 1
  funext range
  congr 1
  funext items
  congr 1
  refine Loops.mapM_congr fun x member => ?_
  cases bound : Value.get expr "var" (.string (lit "_")) with
  | string var =>
    exact similar.part (.foreach bound) (extends_update (extends_refl [] rfl env other) var x
      fun key member => .inl (mem_singleton.mp member))
  | _ => rfl

theorem respects_foreachMap : Respects "foreach_map" foreachMapExpr := by
  intro eval eval' expr env other similar
  simp only [foreachMapExpr, similar.get "range" _ (by decide) isDefault_emptyMapExpr]
  congr 1
  funext range
  congr 1
  funext items
  congr 1
  refine Loops.mapM_congr fun it member => ?_
  cases bound : Value.get expr "var_key" (.string (lit "_")) with
  | string var =>
    cases boundVal : Value.get expr "var_val" (.string (lit "$_")) with
    | string varVal =>
      have first := @extends_update _ [var] _ _ _ _ (extends_refl [] rfl env other) var
        (.string it.1) fun key member => .inl (mem_singleton.mp member)
      exact similar.part (.foreachMap bound boundVal) (extends_update first varVal it.2
        fun key member => mem_cons.mp member)
    | _ => rfl
  | _ => rfl

theorem respects_zipWith : Respects "zip_with" zipWithExpr := by
  intro eval eval' expr env other similar
  have body : ∀ items : List (Value × Value),
      items.mapM (fun it => do
        eval (Value.get expr "body" (.list []))
          ((env.update (← (Value.get expr "var_1" (.string (lit "$1"))).asString) it.1).update
            (← (Value.get expr "var_2" (.string (lit "$2"))).asString) it.2)) =
      items.mapM (fun it => do
        eval' (Value.get expr "body" (.list []))
          ((other.update (← (Value.get expr "var_1" (.string (lit "$1"))).asString) it.1).update
            (← (Value.get expr "var_2" (.string (lit "$2"))).asString) it.2)) := by
    intro items
    refine Loops.mapM_congr fun it member => ?_
    cases bound1 : Value.get expr "var_1" (.string (lit "$1")) with
    | string var1 =>
      cases bound2 : Value.get expr "var_2" (.string (lit "$2")) with
      | string var2 =>
        have first := @extends_update _ [var1] _ _ _ _ (extends_refl [] rfl env other) var1 it.1
          fun key member => .inl (mem_singleton.mp member)
        exact similar.part (.zipWith bound1 bound2) (extends_update first var2 it.2
          fun key member => mem_cons.mp member)
      | _ => rfl
    | _ => rfl
  simp only [zipWithExpr, similar.get "range_1" _ (by decide) isDefault_emptyList,
    similar.get "range_2" _ (by decide) isDefault_emptyList, body]

theorem respects_foldLeft : Respects "foldl" foldLeftExpr := by
  intro eval eval' expr env other similar
  simp only [foldLeftExpr, similar.argument "range" (by decide),
    similar.get "start" _ (by decide) isDefault_emptyList]
  congr 1
  funext range
  congr 1
  funext start
  congr 1
  funext items
  refine Loops.foldlM_congr (fun val x member => ?_) start
  cases bound : Value.get expr "var" (.string (lit "_")) with
  | string var =>
    cases boundAccum : Value.get expr "accum_var" (.string (lit "$1")) with
    | string accumVar =>
      refine similar.part (.foldLeft bound boundAccum) (extends_updateAll _ fun key member => ?_)
      rw [find_emplaceAll, find_nil, none_or, find_cons, find_cons]
      cases mem_cons.mp member with
      | inl first => rw [if_pos first.symm]; rfl
      | inr second =>
        rw [if_pos (mem_singleton.mp second).symm]
        split
        · rfl
        · rfl
    | _ => rfl
  | _ => rfl

theorem letBindings_related {env other : Configuration}
    (similar : Similar "let*" expr eval eval' env other) {before bindings : List Value}
    {env' other' : Configuration}
    (found : find (lit "bindings") expr = some (.list (before ++ bindings)))
    (related : Extends (before.filterMap bindingName) env other env' other') :
    Option.Rel (Extends ((before ++ bindings).filterMap bindingName) env other)
      (letBindings eval bindings env') (letBindings eval' bindings other') := by
  fun_induction letBindings eval bindings env' generalizing before other' with
  | case1 env' =>
    rw [letBindings, append_nil]
    exact .some related
  | case2 name part bindings env' step =>
    rw [letBindings, similar.part (.binding found) related]
    cases eval' part other' with
    | none => exact .none
    | some value =>
      rw [List.append_cons] at found ⊢
      refine step value found (extends_update related name value fun key member => ?_)
      rw [List.filterMap_append, mem_append] at member
      cases member with
      | inl earlier => exact .inr earlier
      | inr last => exact .inl (mem_singleton.mp last)
  | case3 bindings env' noEnd noBinding =>
    rw [letBindings.eq_3 _ _ _ noEnd noBinding]
    exact .none

theorem respects_let : Respects "let*" letExpr := by
  intro eval eval' expr env other similar
  unfold letExpr
  have body : ∀ bindings, Value.get expr "bindings" (.list []) = .list bindings →
      Option.Rel (Extends (bindings.filterMap bindingName) env other)
        (letBindings eval bindings env) (letBindings eval' bindings other) →
      (do evalGet expr "body" (.map []) eval (← letBindings eval bindings env)) =
        (do evalGet expr "body" (.map []) eval' (← letBindings eval' bindings other)) := by
    intro bindings found
    generalize letBindings eval bindings env = extended
    generalize letBindings eval' bindings other = extended'
    intro related
    cases related with
    | none => rfl
    | some related => exact similar.part (.letBody found) related
  cases found : find (lit "bindings") expr with
  | none =>
    have missing : Value.get expr "bindings" (.list []) = .list [] := by
      rw [Value.get, found, getD_none]
    rw [missing]
    exact body [] missing (.some (extends_refl [] rfl env other))
  | some value =>
    have present : Value.get expr "bindings" (.list []) = value := by
      rw [Value.get, found, getD_some]
    rw [present]
    cases value with
    | list bindings =>
      exact body bindings present
        (@letBindings_related _ _ _ _ _ similar [] _ _ _ found (extends_refl _ rfl env other))
    | _ => rfl

theorem respects_assert : Respects "assert" assertExpr := by
  intro eval eval' expr env other similar
  simp only [assertExpr, similar.argument "$1" (by decide)]
  congr 1
  funext val
  cases bound : Value.get expr "var" (.string (lit "_")) with
  | string var =>
    have predicate : evalArgument expr "predicate" eval (env.update var val) =
        evalArgument expr "predicate" eval' (other.update var val) := by
      unfold evalArgument
      cases found : find (lit "predicate") expr with
      | none => rfl
      | some part =>
        exact similar.part (.predicate bound found) (extends_update (extends_refl [] rfl env other)
          var val fun key member => .inl (mem_singleton.mp member))
    simp only [Value.asString, bind_eq_bind, bind_some, predicate]
  | _ => rfl

end Binders

section Table

theorem builtIn_respects (dump : Value → Option Str) :
    ∀ entry ∈ builtInFunctions dump, Respects entry.1 entry.2 := by
  have ignores : ∀ {form : String} {function : Function},
      (∀ eval eval' expr env other, function eval expr env = function eval' expr other) →
      Respects form function := respects_const
  simp only [builtInFunctions, forall_mem_cons]
  refine ⟨respects_var, ignores fun _ _ _ _ _ => rfl, respects_quasiQuote,
    ignores fun _ _ _ _ _ => rfl, ignores fun _ _ _ _ _ => rfl, respects_if, respects_cond,
    respects_case, respects_seqCase, ignores fun _ _ _ _ _ => rfl, respects_assert,
    respects_assertNonEmpty, respects_context, respects_equal, respects_and, respects_or,
    respects_unary (by decide) _, respects_unary (by decide) _, respects_unary (by decide) _,
    respects_unary (by decide) _, respects_unary (by decide) _, respects_unary (by decide) _,
    respects_unary (by decide) _, respects_changeEnding, respects_unary (by decide) _,
    respects_join, respects_joinCmd, respects_jsonEncode dump, respects_escapeChars,
    respects_unary (by decide) _, respects_unary (by decide) _, respects_unary (by decide) _,
    respects_unary (by decide) _, respects_unary (by decide) _, respects_unary (by decide) _,
    respects_lookup, respects_arrayAccess, ignores fun _ _ _ _ _ => rfl, respects_singletonMap,
    respects_disjointUnion, respects_unary (by decide) _, respects_toSubdir, respects_fromSubdir,
    respects_foreach, respects_foreachMap, respects_zipWith, respects_zipMap, respects_foldLeft,
    respects_let, respects_env, respects_concatTargetName, by simp⟩

end Table

section Depth

theorem depth_get (expr : Fields) (key : String) {default : Value} (isDefault : IsDefault default) :
    (Value.get expr key default).depth < (Value.map expr).depth ∨
      IsDefault (Value.get expr key default) := by
  unfold Value.get
  cases found : find (lit key) expr with
  | none => exact .inr isDefault
  | some part =>
    exact .inl (Nat.lt_succ_of_le (Value.depth_le_of_field (mem_of_find found)))

theorem unquoted_depth {quoted : Value} (inside : Unquoted quoted part) :
    part.depth < quoted.depth := by
  induction inside with
  | argument _ found => exact Nat.lt_succ_of_le (Value.depth_le_of_field (mem_of_find found))
  | item member _ step => exact step.trans (Nat.lt_succ_of_le (Value.depth_le_of_mem member))
  | field _ member _ step => exact step.trans (Nat.lt_succ_of_le (Value.depth_le_of_field member))

theorem occurs_depth {bound : List Str} (occurs : Occurs form expr part bound) :
    part.depth < (Value.map expr).depth ∨ IsDefault part := by
  have below : ∀ {key : String} {value : Value}, find (lit key) expr = some value →
      value.depth < (Value.map expr).depth :=
    fun found => Nat.lt_succ_of_le (Value.depth_le_of_field (mem_of_find found))
  have inList : ∀ {items : List Value} {item : Value}, item ∈ items →
      item.depth < (Value.list items).depth :=
    fun member => Nat.lt_succ_of_le (Value.depth_le_of_mem member)
  cases occurs with
  | field _ found => exact .inl (below found)
  | condition _ found member => exact .inl ((inList member).trans (below found))
  | pair _ found member entry =>
    have pair := (inList member).trans (below found)
    cases entry with
    | inl left => exact .inl (left ▸ (inList mem_cons_self).trans pair)
    | inr right =>
      exact .inl (right ▸ (inList (mem_cons_of_mem _ mem_cons_self)).trans pair)
  | case found member =>
    have inside := Value.depth_le_of_field (mem_of_find member)
    exact .inl ((Nat.lt_succ_of_le inside).trans (below found))
  | unquoted found inside => exact .inl ((unquoted_depth inside).trans (below found))
  | foreach | foreachMap | zipWith | foldLeft => exact depth_get expr "body" isDefault_emptyList
  | letBody => exact depth_get expr "body" isDefault_emptyMap
  | @binding _ before after name _ found =>
    have member : Value.list [.string name, part] ∈
        before ++ .list [.string name, part] :: after :=
      mem_append_right _ mem_cons_self
    have pair := (inList member).trans (below found)
    exact .inl ((inList (mem_cons_of_mem _ mem_cons_self)).trans pair)
  | predicate _ found => exact .inl (below found)

theorem weight_le_of_find {name : Str} {function : ExpressionFunction}
    {table : List (Str × ExpressionFunction)} (found : find name table = some function) :
    function.weight ≤ importsWeight table := by
  induction table with
  | nil => cases found
  | cons entry rest step =>
    obtain ⟨key, first⟩ := entry
    rw [find_cons] at found
    rw [importsWeight]
    split at found
    · cases found
      exact Nat.le_max_left _ _
    · exact (step found).trans (Nat.le_max_right _ _)

end Depth

section Evaluation

theorem run_congr {eval eval' : Value → Option Value} {request : Request}
    (alike : ∀ part, request.Asks part → eval part = eval' part) :
    request.run eval = request.run eval' := by
  induction request with
  | answer result => rfl
  | evaluate expr next step =>
    rw [Request.run, Request.run, alike expr (.first expr next)]
    exact step _ fun part asks => alike part (.later _ asks)

theorem mem_of_find_builtIn {dump : Value → Option Str} {type : Str} {function : Function}
    (found : find type ((builtInFunctions dump).map fun (name, function) => (lit name, function)) =
      some function) : ∃ form, lit form = type ∧ (form, function) ∈ builtInFunctions dump := by
  obtain ⟨entry, member, same⟩ := mem_map.mp (mem_of_find found)
  cases same
  exact ⟨entry.1, rfl, member⟩

theorem functionFor_library {evaluate : Option (List (Str × ExpressionFunction)) →
      SubExprEvaluator} {type : Str} (other : imports ≠ none → type ≠ lit "CALL_EXPRESSION") :
    functionFor library evaluate imports type = libraryFunction library type := by
  cases imports with
  | none => rfl
  | some table => exact if_neg (other (by simp))

theorem functionFor_call {evaluate : Option (List (Str × ExpressionFunction)) → SubExprEvaluator}
    (table : List (Str × ExpressionFunction)) :
    functionFor library evaluate (some table) (lit "CALL_EXPRESSION") =
      some (importsCaller evaluate table) := by
  unfold functionFor
  exact if_pos rfl

theorem evaluateWithin_emptyMapExpr (fuel : Nat) (env : Configuration) :
    evaluateWithin library (fuel + 1) imports emptyMapExpr env = some (.map []) := by
  have own : library.provider (lit "empty_map") = none := by
    cases provided : library.provider (lit "empty_map") with
    | none => rfl
    | some function =>
      have listed : ("empty_map", emptyMapForm) ∈ builtInFunctions library.dump := by
        simp [builtInFunctions]
      exact absurd rfl (library.builtIn_eq_none _ _ provided _ listed)
  have type : token [(lit "type", .string (lit "empty_map"))] = some (lit "empty_map") := by
    decide
  have function : functionFor library (evaluateWithin library fuel) imports (lit "empty_map") =
      some emptyMapForm := by
    rw [functionFor_library fun _ => by decide, libraryFunction, own]
    rfl
  rw [emptyMapExpr, evaluateWithin]
  simp only [type, function, bind_eq_bind, bind_some, emptyMapForm]

theorem evaluateWithin_default (isDefault : IsDefault part) {fuel fuel' : Nat} (some' : 0 < fuel)
    (some'' : 0 < fuel') (env other : Configuration) :
    evaluateWithin library fuel imports part env =
      evaluateWithin library fuel' imports part other := by
  obtain ⟨fuel, rfl⟩ := Nat.exists_eq_succ_of_ne_zero some'.ne'
  obtain ⟨fuel', rfl⟩ := Nat.exists_eq_succ_of_ne_zero some''.ne'
  obtain atom | rfl | rfl | rfl := isDefault
  · cases part with
    | list items => cases atom
    | map fields => cases atom
    | _ => rfl
  · rfl
  · rfl
  · rw [evaluateWithin_emptyMapExpr, evaluateWithin_emptyMapExpr]

theorem libraryFunction_congr {type : Str} {env other : Configuration}
    (provided : ∀ function part, library.provider type = some function →
      (function.call expr).Asks part → eval part env = eval' part other)
    (builtIn : ∀ form, lit form = type → Similar form expr eval eval' env other) :
    (libraryFunction library type).bind (fun function => function eval expr env) =
      (libraryFunction library type).bind fun function => function eval' expr other := by
  unfold libraryFunction
  cases own : library.provider type with
  | some function => exact run_congr fun part asks => provided function part own asks
  | none =>
    cases found : find type ((builtInFunctions library.dump).map fun (name, function) =>
        (lit name, function)) with
    | none => rfl
    | some function =>
      obtain ⟨form, same, member⟩ := mem_of_find_builtIn found
      exact builtIn_respects library.dump (form, function) member (builtIn form same)

theorem importsCaller_congr
    {evaluate evaluate' : Option (List (Str × ExpressionFunction)) → SubExprEvaluator}
    {table : List (Str × ExpressionFunction)} {env other : Configuration}
    (called : ∀ vars inner body name, find (lit "name") expr = some (.string name) →
      find name table = some (.mk vars inner body) →
      evaluate (some inner) body (env.prune vars) = evaluate' (some inner) body (other.prune vars)) :
    importsCaller evaluate table eval expr env = importsCaller evaluate' table eval' expr other := by
  unfold importsCaller
  cases named : find (lit "name") expr with
  | none => rfl
  | some value =>
    cases value with
    | string name =>
      simp only [Value.asString, bind_eq_bind, bind_some]
      cases found : find name table with
      | none => rfl
      | some function =>
        obtain ⟨vars, inner, body⟩ := function
        exact called vars inner body name named found
    | _ => rfl

theorem prune_agree {vars : List Str} {reads : Str → Prop} {env other : Configuration}
    (agree : ∀ name ∈ vars, reads name → env.get name = other.get name) (name : Str)
    (read : reads name) : (env.prune vars).get name = (other.prune vars).get name := by
  by_cases declared : name ∈ vars
  · rw [Configuration.get_prune env declared, Configuration.get_prune other declared]
    exact agree name declared read
  · rw [Configuration.get_prune_of_not_mem env declared,
      Configuration.get_prune_of_not_mem other declared]

theorem similar_of_agree {env other : Configuration} (type : token expr = some (lit form))
    (agree : ∀ name, Reads library imports (.map expr) name → env.get name = other.get name)
    (evaluated : ∀ part env' other', part.depth < (Value.map expr).depth ∨ IsDefault part →
      (∀ name, Reads library imports part name → env'.get name = other'.get name) →
      eval part env' = eval' part other')
    (defaults : ∀ part env' other', IsDefault part → eval part env' = eval' part other') :
    Similar form expr eval eval' env other := by
  constructor
  · intro part bound env' other' occurs related
    refine evaluated part env' other' (occurs_depth occurs) fun name reads => ?_
    cases related name with
    | inl same => exact same
    | inr kept =>
      rw [kept.2.1, kept.2.2]
      exact agree name (.part type occurs kept.1 reads)
  · intro part env' other' isDefault
    exact defaults part env' other' isDefault
  · intro name mentions
    exact agree name (.mention type mentions)

theorem evaluateWithin_congr (fuel fuel' : Nat) (expr : Value) (env other : Configuration)
    (enough : expr.depth + scopeWeight imports < fuel)
    (enough' : expr.depth + scopeWeight imports < fuel')
    (agree : ∀ name, Reads library imports expr name → env.get name = other.get name) :
    evaluateWithin library fuel imports expr env =
      evaluateWithin library fuel' imports expr other := by
  induction fuel generalizing fuel' imports expr env other with
  | zero => exact absurd enough (Nat.not_lt_zero _)
  | succ fuel step =>
    obtain ⟨fuel', rfl⟩ := Nat.exists_eq_succ_of_ne_zero (Nat.ne_zero_of_lt enough')
    cases expr with
    | list items =>
      simp only [evaluateWithin]
      congr 1
      refine Loops.mapM_congr fun item member => ?_
      have below := Value.depth_le_of_mem member
      rw [Value.depth] at enough enough'
      exact step fuel' item env other (by omega) (by omega)
        fun name reads => agree name (.item member reads)
    | map expr =>
      simp only [evaluateWithin]
      cases type : token expr with
      | none => rfl
      | some name =>
        rw [Value.depth] at enough enough'
        have defaults : ∀ part env' other', IsDefault part →
            evaluateWithin library fuel imports part env' =
              evaluateWithin library fuel' imports part other' :=
          fun part env' other' isDefault =>
            evaluateWithin_default isDefault (by omega) (by omega) env' other'
        -- what is not a default is less deep, so the remaining fuel is enough
        have evaluated : ∀ part env' other',
            part.depth < (Value.map expr).depth ∨ IsDefault part →
            (∀ name, Reads library imports part name → env'.get name = other'.get name) →
            evaluateWithin library fuel imports part env' =
              evaluateWithin library fuel' imports part other' := by
          intro part env' other' size agree'
          cases size with
          | inl smaller =>
            rw [Value.depth] at smaller
            exact step fuel' part env' other' (by omega) (by omega) agree'
          | inr isDefault => exact defaults part env' other' isDefault
        have fromLibrary : (libraryFunction library name).bind (fun function =>
              function (evaluateWithin library fuel imports) expr env) =
            (libraryFunction library name).bind fun function =>
              function (evaluateWithin library fuel' imports) expr other := by
          refine libraryFunction_congr (fun function part own asks => ?_) fun form same => ?_
          · exact evaluated part env other (function.within expr part asks)
              fun key reads => agree key (.provided type own asks reads)
          · subst same
            exact similar_of_agree type agree evaluated defaults
        simp only [bind_eq_bind, bind_some]
        by_cases call : imports ≠ none ∧ name = lit "CALL_EXPRESSION"
        · obtain ⟨scope, rfl⟩ := call
          obtain ⟨table, rfl⟩ := Option.ne_none_iff_exists'.mp scope
          rw [functionFor_call, functionFor_call, bind_some, bind_some]
          refine importsCaller_congr fun vars inner body key named found => ?_
          have weight := weight_le_of_find found
          simp only [ExpressionFunction.weight] at weight
          simp only [scopeWeight, map_some, getD_some] at enough enough'
          refine step fuel' body _ _ ?_ ?_ (prune_agree fun key' declared reads => ?_)
          · simp only [scopeWeight, map_some, getD_some]
            omega
          · simp only [scopeWeight, map_some, getD_some]
            omega
          · exact agree key' (.called type named found declared reads)
        · have other' := fun scope same => call ⟨scope, same⟩
          rw [functionFor_library other', functionFor_library other']
          exact fromLibrary
    | none | bool | number | string | entity => rfl

theorem evaluate_stable {expr : Value} {fuel : Nat}
    (enough : expr.depth + scopeWeight imports < fuel) (env : Configuration) :
    evaluateWithin library fuel imports expr env = evaluate library imports expr env :=
  evaluateWithin_congr fuel _ expr env env enough (by omega) fun _ _ => rfl

theorem evaluate_congr {expr : Value} {env other : Configuration}
    (agree : ∀ name, Reads library imports expr name → env.get name = other.get name) :
    evaluate library imports expr env = evaluate library imports expr other :=
  evaluateWithin_congr _ _ expr env other (by omega) (by omega) agree

/-- Evaluation is the same in a configuration that is pruned to a list of all variables that the
expression reads, and binding a missing variable to null changes nothing. -/
theorem evaluate_free_variables (library : Library)
    (imports : Option (List (Str × ExpressionFunction))) (expr : Value) (env : Configuration) :
    (∀ vars : List Str, (∀ name, Reads library imports expr name → name ∈ vars) →
      evaluate library imports expr env = evaluate library imports expr (env.prune vars)) ∧
    ∀ name, find name env = none →
      evaluate library imports expr (env.update name .none) =
        evaluate library imports expr env := by
  constructor
  · intro vars covered
    exact evaluate_congr fun name reads => (Configuration.get_prune env (covered name reads)).symm
  · intro name absent
    refine evaluate_congr fun key reads => ?_
    rw [Configuration.get_update]
    split
    · next same =>
      rw [← same, Configuration.get, absent, getD_none]
    · rfl

/-- A library without provider functions. -/
def bare : Library where
  dump := fun _ => none
  provider := fun _ => none
  builtIn_eq_none := fun _ _ provided => nomatch provided

/-- The expression that reads a variable. -/
def variable' (name : Str) : Value :=
  .map [(lit "type", .string (lit "var")), (lit "name", .string name)]

/-- The fields of a loop over the variable `ys` whose body is the loop variable. -/
def copyFields : Fields := [(lit "type", .string (lit "foreach")), (lit "var", .string (lit "x")),
  (lit "range", variable' (lit "ys")), (lit "body", variable' (lit "x"))]

theorem reads_variable {key name : Str} (reads : Reads bare none (variable' key) name) :
    name = key := by
  have isVar : ∀ {form : String},
      token [(lit "type", .string (lit "var")), (lit "name", .string key)] = some (lit form) →
      form = "var" := fun type => (lit_inj.mp (some.inj type)).symm
  cases reads with
  | mention type mentions =>
    cases mentions with
    | var named => cases named; rfl
    | env => exact absurd (isVar type) (by decide)
  | part type occurs free reads =>
    cases occurs with
    | @field form field _ _ plain found =>
      rw [isVar type] at plain
      have default : field = "default" := by simpa [isPlain, plainFields] using plain.symm
      rw [default] at found
      cases found
    | condition junctor => exact absurd junctor (by rw [isVar type]; decide)
    | pair listed => simp [pairFields, isVar type] at listed
    | _ => exact absurd (isVar type) (by decide)
  | provided _ found => cases found

theorem reads_copy {name : Str} (reads : Reads bare none (.map copyFields) name) :
    name = lit "ys" := by
  have isForeach : ∀ {form : String}, token copyFields = some (lit form) → form = "foreach" :=
    fun type => (lit_inj.mp (some.inj type)).symm
  cases reads with
  | mention type mentions =>
    cases mentions with
    | _ => exact absurd (isForeach type) (by decide)
  | part type occurs free reads =>
    cases occurs with
    | @field form field _ _ plain found =>
      rw [isForeach type] at plain
      have range : field = "range" := by simpa [isPlain, plainFields] using plain.symm
      rw [range] at found
      cases found
      exact reads_variable reads
    | condition junctor => exact absurd junctor (by rw [isForeach type]; decide)
    | pair listed => simp [pairFields, isForeach type] at listed
    | foreach bound =>
      cases bound
      exact absurd (mem_singleton.mpr (reads_variable reads)) free
    | _ => exact absurd (isForeach type) (by decide)
  | provided _ found => cases found

theorem copy_pruned :
    evaluate bare none (.map copyFields) [(lit "x", .none), (lit "ys", .list [.bool true])] =
      evaluate bare none (.map copyFields)
        (Configuration.prune [(lit "x", .none), (lit "ys", .list [.bool true])] [lit "ys"]) ∧
    evaluate bare none (.map copyFields)
        (Configuration.update [(lit "x", .none), (lit "ys", .list [.bool true])] (lit "z") .none) =
      evaluate bare none (.map copyFields) [(lit "x", .none), (lit "ys", .list [.bool true])] :=
  have result := evaluate_free_variables bare none (.map copyFields)
    [(lit "x", .none), (lit "ys", .list [.bool true])]
  ⟨result.1 [lit "ys"] fun _ reads => mem_singleton.mpr (reads_copy reads),
    result.2 (lit "z") (by decide)⟩

end Evaluation

end Jst.Verif.FreeVariables
