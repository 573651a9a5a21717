import Mathlib.Data.List.Nodup
import Jst.Lang.ToJson
import Jst.Lang.Parameters
import Jst.Verif.FreeVariables
/-!
# The values that syntax trees denote

A syntax tree denotes, in a configuration, what its serialisation evaluates to. The evaluation of a
form and of a list is described by equations without fuel; the calls that built-in functions leave
for the evaluation are then computed from what their arguments denote.
-/
namespace Jst.Verif.Denotation

open Jst.Expression Jst.Expression.Evaluator Jst.SortedMap Jst.Lang Jst.Verif.FreeVariables

variable {library : Library} {imports : Option (List (Str × ExpressionFunction))}
  {env : Configuration} {expr : Fields}

variable {args : List (String × Node)} {form key : String} {node : Node}

section Evaluation

theorem evaluate_atom {expr : Value} (atom : expr.depth = 0) :
    evaluate library imports expr env = some expr := by
  rw [evaluate, atom, Nat.zero_add, Nat.add_comm]
  cases expr with
  | list items => cases atom
  | map fields => cases atom
  | _ => rfl

theorem evaluate_list (items : List Value) : evaluate library imports (.list items) env =
      (items.mapM fun item => evaluate library imports item env).map .list := by
  have step : evaluate library imports (.list items) env =
      (items.mapM fun item => evaluateWithin library
        (Value.depthList items + 1 + scopeWeight imports) imports item env).map .list := by
    rw [evaluate, Value.depth, show Value.depthList items + 1 + 1 + scopeWeight imports =
      Value.depthList items + 1 + scopeWeight imports + 1 by omega, evaluateWithin]
    exact (Option.map_eq_bind ..).symm
  rw [step]
  congr 1
  refine Loops.mapM_congr fun item member => ?_
  have below := Value.depth_le_of_mem member
  exact evaluate_stable (by omega) env

theorem builtIn_names_nodup (dump : Value → Option Str) :
    ((builtInFunctions dump).map fun entry => lit entry.1).Nodup := by
  have names : ((builtInFunctions dump).map fun entry => lit entry.1) =
      ((builtInFunctions fun _ => none).map fun entry => lit entry.1) := rfl
  rw [names]
  decide

theorem libraryFunction_builtIn {function : Function}
    (listed : (form, function) ∈ builtInFunctions library.dump) :
    libraryFunction library (lit form) = some function := by
  have own : library.provider (lit form) = none := by
    cases provided : library.provider (lit form) with
    | none => rfl
    | some other => exact absurd rfl (library.builtIn_eq_none _ _ provided _ listed)
  rw [libraryFunction, own]
  refine find_of_unique (mem_map.mpr ⟨_, listed, rfl⟩) fun other member => ?_
  obtain ⟨entry, member, same⟩ := mem_map.mp member
  have named : lit entry.1 = lit form := congrArg fst same
  have stored : entry.2 = other := congrArg snd same
  have unique := List.inj_on_of_nodup_map (builtIn_names_nodup library.dump) member listed named
  rw [← stored, unique]

theorem evaluate_form {function : Function} {expr : Fields}
    (listed : (form, function) ∈ builtInFunctions library.dump)
    (type : token expr = some (lit form)) :
    evaluate library imports (.map expr) env = function (evaluate library imports) expr env := by
  have calls : form ≠ "CALL_EXPRESSION" := by
    intro same
    have named : form ∈ (builtInFunctions library.dump).map fst := mem_map.mpr ⟨_, listed, rfl⟩
    rw [same] at named
    exact absurd (show "CALL_EXPRESSION" ∈ (builtInFunctions fun _ => none).map fst from named)
      (by decide)
  rw [evaluate, show (Value.map expr).depth + 1 + scopeWeight imports =
    (Value.map expr).depth + scopeWeight imports + 1 by omega, evaluateWithin]
  simp only [type, bind_eq_bind, bind_some]
  rw [functionFor_library fun _ same => calls (lit_inj.mp same),
    libraryFunction_builtIn listed, bind_some]
  refine builtIn_respects library.dump (form, function) listed ?_
  have defaults : ∀ {part : Value} (env' other' : Configuration), IsDefault part →
      evaluateWithin library ((Value.map expr).depth + scopeWeight imports) imports part env' =
        evaluate library imports part other' := by
    intro part env' other' isDefault
    rw [Value.depth]
    exact evaluateWithin_default isDefault (by omega) (by omega) env' other'
  refine @similar_of_agree library imports _ _ _ _ _ _ type (fun _ _ => rfl)
    (fun part env' other' size agree => ?_) fun part env' other' isDefault =>
      defaults env' other' isDefault
  cases size with
  | inl smaller => exact evaluateWithin_congr _ _ part env' other' (by omega) (by omega) agree
  | inr isDefault => exact defaults env' other' isDefault

end Evaluation

section Denotation

/-- The value of a syntax tree in a configuration: its serialisation, evaluated. -/
def denote (library : Library) (imports : Option (List (Str × ExpressionFunction))) (node : Node)
    (env : Configuration) : Option Value := do
  evaluate library imports (← node.toJson false .none) env

/-- What a built-in function computes while compiling denotes the value of what it would leave for
the evaluation, wherever that has a value. -/
def Agrees (library : Library) (imports : Option (List (Str × ExpressionFunction)))
    (branches : Branches) : Prop :=
  ∀ node, branches.static = .ok (some node) → ∀ env value,
    denote library imports branches.fallback env = some value →
      denote library imports node env = some value

theorem toJsonItems_eq_mapM (jsonOnly : Bool) (mode : VerbatimType) (items : List Node) :
    Node.toJsonItems jsonOnly mode items = items.mapM (Node.toJson jsonOnly mode) := by
  induction items with
  | nil => rfl
  | cons item items step =>
    rw [Node.toJsonItems, mapM_cons, step]

theorem denote_list (items : List Node) : denote library imports (.list items) env =
      (items.mapM fun item => denote library imports item env).map .list := by
  rw [denote, Node.toJson, show VerbatimType.inner .none .none = .none from rfl,
    toJsonItems_eq_mapM]
  simp only [bind_eq_bind, pure_def, Option.bind_assoc, bind_some, evaluate_list]
  have joined := congrArg (Option.map Value.list) (Loops.mapM_bind_mapM items
    (Node.toJson false .none) fun json => evaluate library imports json env)
  rw [Option.map_bind] at joined
  exact joined

theorem denote_string (text : Str) :
    denote library imports (.string text) env = some (.string text) := evaluate_atom rfl

theorem toJsonFields_eq (jsonOnly : Bool) (mode : VerbatimType) (fields : List (Str × Node))
    (root : Fields) :
    Node.toJsonFields jsonOnly mode (fields.map fun field => (.string field.1, field.2)) root =
      ((fields.filter fun field => !field.2.isFunc).mapM fun field : Str × Node =>
        (field.2.toJson jsonOnly mode).map (field.1, ·)).map fun entries =>
          entries.foldl (fun root entry => insert entry.1 entry.2 root) root := by
  induction fields generalizing root with
  | nil => rfl
  | cons field fields step =>
    obtain ⟨key, node⟩ := field
    rw [map_cons, Node.toJsonFields, filter_cons]
    cases isFunc : node.isFunc with
    | true => simp [step]
    | false =>
      cases json : node.toJson jsonOnly mode with
      | none => simp [json]
      | some value =>
        simp only [bind_eq_bind, bind_some, step, Bool.not_false, if_true,
          mapM_cons, json, map_some, pure_def, false_eq_true, if_false]
        cases List.mapM (fun field : Str × Node => (field.2.toJson jsonOnly mode).map (field.1, ·))
          (fields.filter fun field => !field.2.isFunc) with
        | none => rfl
        | some entries => rfl

theorem toJsonFields_call (args : List (String × Node)) (root : Fields) :
    Node.toJsonFields false .none (args.map fun (key, node) => (.string (lit key), node)) root =
      ((args.filter fun arg => !arg.2.isFunc).mapM fun arg : String × Node =>
        (arg.2.toJson false .none).map (lit arg.1, ·)).map fun entries =>
          entries.foldl (fun root entry => insert entry.1 entry.2 root) root := by
  have fields := toJsonFields_eq false .none (args.map fun arg => (lit arg.1, arg.2)) root
  rw [map_map, List.filter_map, List.mapM_map] at fields
  exact fields

theorem toJson_func (isFunc : node.isFunc = true) (jsonOnly : Bool) (mode : VerbatimType) :
    node.toJson jsonOnly mode = none := by
  cases node with
  | func params body => rfl
  | _ => cases isFunc

/-- The fields of the serialised call of a function: its type and the arguments. -/
structure Written (form : String) (args : List (String × Node)) (expr : Fields) : Prop where
  type : token expr = some (lit form)
  argument : ∀ {key node}, (key, node) ∈ args → find (lit key) expr = node.toJson false .none
  serialised : ∀ {key node}, (key, node) ∈ args → node.isFunc = false →
    (node.toJson false .none).isSome
  missing : ∀ {key}, key ≠ "type" → (∀ arg ∈ args, arg.1 ≠ key) → find (lit key) expr = none

theorem written_of_entries {entries : Fields} (distinct : ("type" :: args.map fst).Nodup)
    (success : (args.filter fun arg => !arg.2.isFunc).mapM (fun arg : String × Node =>
      (arg.2.toJson false .none).map (lit arg.1, ·)) = some entries) :
    Written form args (entries.foldl (fun root entry => insert entry.1 entry.2 root)
      [(lit "type", .string (lit form))]) := by
  obtain ⟨untyped, distinct⟩ := nodup_cons.mp distinct
  have listed : ∀ {key json}, (lit key, json) ∈ entries.reverse →
      ∃ arg ∈ args, arg.1 = key ∧ arg.2.toJson false .none = some json := by
    intro key json member
    obtain ⟨arg, inside, called⟩ := Loops.exists_of_mem_mapM success (List.mem_reverse.mp member)
    obtain ⟨json', serialised, same⟩ := map_eq_some_iff.mp called
    cases Prod.mk.inj same with
    | intro sameKey sameJson =>
      exact ⟨arg, (mem_filter.mp inside).1, lit_inj.mp sameKey, sameJson ▸ serialised⟩
  have absent : ∀ {key}, (∀ arg ∈ args, arg.1 ≠ key) → find (lit key) entries.reverse = none := by
    intro key other
    cases found : find (lit key) entries.reverse with
    | none => rfl
    | some json =>
      obtain ⟨arg, member, named, -⟩ := listed (mem_of_find found)
      exact absurd named (other arg member)
  constructor
  · have typed := absent fun arg member same =>
      untyped (mem_map.mpr ⟨arg, member, same⟩)
    rw [token, find_foldl_insert, typed, none_or, find_cons, if_pos rfl]
    rfl
  · intro key node member
    have other : lit key ≠ lit "type" := fun same =>
      untyped (mem_map.mpr ⟨_, member, lit_inj.mp same⟩)
    have unique : ∀ {json}, (lit key, json) ∈ entries.reverse →
        node.toJson false .none = some json := by
      intro json stored
      obtain ⟨arg, inside, named, serialised⟩ := listed stored
      have same : arg = (key, node) := List.inj_on_of_nodup_map distinct inside member named
      rw [same] at serialised
      exact serialised
    rw [find_foldl_insert, find_cons, if_neg other.symm, find_nil, Option.or_none]
    cases found : find (lit key) entries.reverse with
    | some json => exact (unique (mem_of_find found)).symm
    | none =>
      cases isFunc : node.isFunc with
      | true => exact (toJson_func isFunc false .none).symm
      | false =>
        obtain ⟨entry, inside, called⟩ := Loops.mem_of_mapM success
          (mem_filter.mpr ⟨member, by simp [isFunc]⟩)
        obtain ⟨json, -, same⟩ := map_eq_some_iff.mp called
        rw [← same] at inside
        exact absurd rfl (find_eq_none.mp found _ (List.mem_reverse.mpr inside))
  · intro key node member notFunc
    obtain ⟨entry, -, called⟩ := Loops.mem_of_mapM success
      (mem_filter.mpr ⟨member, by simp [notFunc]⟩)
    obtain ⟨json, serialised, -⟩ := map_eq_some_iff.mp called
    exact isSome_of_eq_some serialised
  · intro key other missing
    rw [find_foldl_insert, absent missing, find_cons,
      if_neg fun same => other (lit_inj.mp same).symm]
    rfl

theorem toJson_runtimeCall (form : String) (type : ValueType)
    (distinct : ("type" :: args.map fst).Nodup) :
    ((∃ arg ∈ args, arg.2.isFunc = false ∧ arg.2.toJson false .none = none) ∧
      (runtimeCall form args type).toJson false .none = none) ∨
    ∃ expr, (runtimeCall form args type).toJson false .none = some (.map expr) ∧
      Written form args expr := by
  have json : (runtimeCall form args type).toJson false .none =
      (((args.filter fun arg => !arg.2.isFunc).mapM fun arg : String × Node =>
        (arg.2.toJson false .none).map (lit arg.1, ·)).map fun entries =>
          .map (entries.foldl (fun root entry => insert entry.1 entry.2 root)
            [(lit "type", .string (lit form))])) := by
    have literal : (((Node.string (lit "type"), Node.string (lit form)) ::
        args.map fun (key, node) => (.string (lit key), node)).all fun field =>
          field.1.isString) = true := by
      simp [Node.isString, comp_def]
    rw [runtimeCall, Node.toJson, if_neg (by decide), Node.toJson, if_neg (by decide),
      if_pos literal, show VerbatimType.inner (VerbatimType.inner .none .flat) .none = .none from rfl,
      Node.toJsonFields]
    simp only [Node.isFunc, false_eq_true, if_false, Node.toJson, bind_eq_bind,
      bind_some, toJsonFields_call]
    rw [Option.bind_map]
    exact (Option.map_eq_bind ..).symm
  rw [json]
  cases entries : (args.filter fun arg => !arg.2.isFunc).mapM fun arg : String × Node =>
      (arg.2.toJson false .none).map (lit arg.1, ·) with
  | none =>
    obtain ⟨arg, member, fails⟩ := Loops.mapM_eq_none.mp entries
    rw [mem_filter] at member
    exact .inl ⟨⟨arg, member.1, by simpa using member.2, Option.map_eq_none_iff.mp fails⟩, rfl⟩
  | some entries =>
    exact .inr ⟨_, rfl, written_of_entries distinct entries⟩

variable {form : String} {function : Function} {args : List (String × Node)}

theorem denote_runtimeCall (type : ValueType) (env : Configuration)
    (listed : (form, function) ∈ builtInFunctions library.dump)
    (distinct : ("type" :: args.map fst).Nodup) :
    ((∃ arg ∈ args, arg.2.isFunc = false ∧ arg.2.toJson false .none = none) ∧
      denote library imports (runtimeCall form args type) env = none) ∨
    ∃ expr, Written form args expr ∧ denote library imports (runtimeCall form args type) env =
      function (evaluate library imports) expr env := by
  cases toJson_runtimeCall form type distinct with
  | inl fails => exact .inl ⟨fails.1, by rw [denote, fails.2]; rfl⟩
  | inr written =>
    obtain ⟨expr, json, written⟩ := written
    refine .inr ⟨expr, written, ?_⟩
    rw [denote, json]
    exact evaluate_form listed written.type

theorem of_denote_runtimeCall {type : ValueType} {value : Value}
    (success : denote library imports (runtimeCall form args type) env = some value)
    (listed : (form, function) ∈ builtInFunctions library.dump)
    (distinct : ("type" :: args.map fst).Nodup) :
    ∃ expr, Written form args expr ∧ function (evaluate library imports) expr env = some value := by
  cases denote_runtimeCall type env listed distinct with
  | inl fails => rw [fails.2] at success; cases success
  | inr written =>
    obtain ⟨expr, written, denotes⟩ := written
    exact ⟨expr, written, denotes ▸ success⟩

theorem Written.evalArgument_eq (written : Written form args expr) (member : (key, node) ∈ args) :
    evalArgument expr key (evaluate library imports) env = denote library imports node env := by
  rw [evalArgument, written.argument member, denote]

theorem Written.evalGet_eq (written : Written form args expr) (member : (key, node) ∈ args)
    (notFunc : node.isFunc = false) (default : Value) :
    evalGet expr key default (evaluate library imports) env = denote library imports node env := by
  obtain ⟨json, serialised⟩ := isSome_iff_exists.mp (written.serialised member notFunc)
  rw [evalGet, Value.get, written.argument member, denote, serialised]
  rfl

theorem Written.evalGet_missing (written : Written form args expr) (typed : key ≠ "type")
    (missing : ∀ arg ∈ args, arg.1 ≠ key) (default : Value) :
    evalGet expr key default (evaluate library imports) env =
      evaluate library imports default env := by
  rw [evalGet, Value.get, written.missing typed missing]
  rfl

end Denotation

section Arguments

variable {builtin name : String}

variable {named : NamedParams}

theorem lookup_of_retrieve (success : retrieve builtin named name = .ok node) :
    lookupParam (lit name) named = some node := by
  unfold retrieve at success
  cases found : lookupParam (lit name) named with
  | none => rw [found] at success; cases success
  | some other => rw [found] at success; cases success; rfl

variable {branches : Branches}

theorem of_retrieve {body : Node → Except Str Branches}
    (success : (retrieve builtin named name >>= body) = .ok branches) :
    ∃ node, lookupParam (lit name) named = some node ∧ body node = .ok branches := by
  cases retrieved : retrieve builtin named name with
  | error message => rw [retrieved] at success; cases success
  | ok node =>
    rw [retrieved] at success
    exact ⟨node, lookup_of_retrieve retrieved, success⟩

theorem of_withParameters {expected : List ExpectedParameter} {args : Params}
    {body : NamedParams → Except Str Branches}
    (success : withParameters builtin expected args body = .ok branches) :
    ∃ named, makeNamedParameters args expected = .ok named ∧ body named = .ok branches := by
  unfold withParameters at success
  cases made : makeNamedParameters args expected with
  | error message => rw [made] at success; cases success
  | ok named => rw [made] at success; exact ⟨named, rfl, success⟩

theorem evalGet_optional (written : Written form args expr) {node : Option Node}
    {fallback : Node} {default : Value} (typed : key ≠ "type")
    (literal : ∃ text, node.getD fallback = .string text)
    (json : fallback.toJson false .none = some default)
    (given : ∀ arg, node = some arg → (key, arg) ∈ args)
    (missing : node = none → ∀ arg ∈ args, arg.1 ≠ key) :
    evalGet expr key default (evaluate library imports) env =
      denote library imports (node.getD fallback) env := by
  obtain ⟨text, literal⟩ := literal
  cases node with
  | none =>
    rw [written.evalGet_missing typed (missing rfl), denote, getD_none, json]
    rfl
  | some arg =>
    have notFunc : arg.isFunc = false := by
      rw [show arg = .string text from literal]
      rfl
    exact written.evalGet_eq (given arg rfl) notFunc default

end Arguments

end Jst.Verif.Denotation
