import Jst.Lang.Inlined
import Jst.Lang.MapBuiltins
import Jst.Lang.StringBuiltins
import Jst.Verif.Literals
/-!
# The evaluation types of syntax trees

Every node is given the type of the value that it evaluates to. The functions of the expression
language have the types that the built-in functions expect of them, except that a call of `zip_map`
is taken for a list, and the type of a fold is that of its start, whatever its body makes of it. A
type that mends both is always right where it is known.
-/
namespace Jst.Verif.EvaluationTypes

open Jst.Expression Jst.Expression.Evaluator Jst.Expression.Functions Jst.SortedMap Jst.Lang
open Jst.Verif.FreeVariables Jst.Verif.Denotation

variable {known : Str → ValueType} {value : Value} {fallback : Fallback} {env : Configuration}

/-- The type of a value. The values of targets have none of the types that a node can be given. -/
def kind : Value → ValueType
  | .none => .null
  | .bool _ => .bool
  | .number _ => .number
  | .string _ => .string
  | .list _ => .list
  | .map _ => .map
  | .entity _ => .any

/-- A type that tells what the values are: not any, nor that of a reference or a function. -/
def IsConcrete (type : ValueType) : Prop := type ≠ .any ∧ type ≠ .ref ∧ type ≠ .func

instance (type : ValueType) : Decidable (IsConcrete type) :=
  inferInstanceAs (Decidable (_ ∧ _))

section Results

/-- A result is an error or a value of the type. -/
def Yields (type : ValueType) (result : Option Value) : Prop :=
  type ≠ .any → ∀ value ∈ result, kind value = type

variable {type : ValueType} {Item : Type}

theorem yields_any (result : Option Value) : Yields .any result := fun known => absurd rfl known

theorem yields_none (type : ValueType) : Yields type none := nofun

theorem yields_some (same : kind value = type) : Yields type (some value) := by
  intro _ other member
  rw [← Option.mem_some_iff.mp member]
  exact same

theorem yields_bind {result : Option Item} {next : Item → Option Value}
    (all : ∀ item, result = some item → Yields type (next item)) : Yields type (result >>= next) := by
  cases result with
  | none => exact yields_none type
  | some item => exact all item rfl

theorem yields_ite {condition : Prop} [Decidable condition] {left right : Option Value}
    (first : Yields type left) (second : Yields type right) :
    Yields type (if condition then left else right) := by
  split
  · exact first
  · exact second

end Results

section Forms

/-- A function whose values are of the type. -/
def Returns (type : ValueType) (function : Function) : Prop :=
  ∀ eval expr env, Yields type (function eval expr env)

/-- The type of the values of a function of the expression language. -/
def formType (form : String) : ValueType :=
  if form ∈ ["and", "or", "not", "=="] then .bool
  else if form ∈ ["+", "*", "length"] then .number
  else if form ∈ ["change_ending", "basename", "join", "join_cmd", "json_encode", "escape_chars"]
  then .string
  else if form ∈ ["++", "nub_right", "nub_left", "range", "keys", "values", "reverse", "foreach",
    "foreach_map", "zip_with"] then .list
  else if form ∈ ["enumerate", "set", "empty_map", "singleton_map", "disjoint_map_union",
    "map_union", "to_subdir", "from_subdir", "zip_map", "env"] then .map
  else .any

theorem returns_unary {type : ValueType} {f : Value → Option Value}
    (all : ∀ value, Yields type (f value)) : Returns type (unaryExpr f) :=
  fun _ _ _ => yields_bind fun value _ => all value

theorem returns_any (function : Function) : Returns .any function := fun _ _ _ => yields_any _

theorem yields_logicalAnd (eval : SubExprEvaluator) (env : Configuration) (list : List Value) :
    Yields .bool (logicalAnd eval env list) := by
  induction list with
  | nil => exact yields_some rfl
  | cons c list step =>
    rw [logicalAnd]
    exact yields_bind fun value _ => yields_ite step (yields_some rfl)

theorem yields_logicalOr (eval : SubExprEvaluator) (env : Configuration) (list : List Value) :
    Yields .bool (logicalOr eval env list) := by
  induction list with
  | nil => exact yields_some rfl
  | cons c list step =>
    rw [logicalOr]
    exact yields_bind fun value _ => yields_ite (yields_some rfl) step

theorem returns_and : Returns .bool andExpr := by
  intro eval expr env
  unfold andExpr
  split
  · exact yields_some rfl
  · exact yields_logicalAnd eval env _
  · have conditions : ∀ list, Yields .bool (all list) :=
      fun _ => yields_bind fun _ _ => yields_some rfl
    exact returns_unary conditions eval expr env

theorem returns_or : Returns .bool orExpr := by
  intro eval expr env
  unfold orExpr
  split
  · exact yields_some rfl
  · exact yields_logicalOr eval env _
  · have conditions : ∀ list, Yields .bool (any list) :=
      fun _ => yields_bind fun _ _ => yields_some rfl
    exact returns_unary conditions eval expr env

theorem returns_equal : Returns .bool equalExpr := by
  intro eval expr env
  refine yields_bind fun a _ => ?_
  refine yields_ite (yields_none _) (yields_bind fun b _ => ?_)
  exact yields_ite (yields_none _) (yields_some rfl)

theorem yields_join (doQuote allowString : Bool) (expr : Value) (sep : Str) :
    Yields .string (join doQuote allowString expr sep) := by
  cases expr with
  | string text => exact yields_ite (yields_some rfl) (yields_none _)
  | list items => exact yields_bind fun _ _ => yields_some rfl
  | _ => exact yields_none _

theorem yields_range (expr : Value) : Yields .list (range expr) :=
  yields_ite (yields_none _) (yields_some rfl)

theorem yields_nubRight (expr : Value) : Yields .list (nubRight expr) :=
  yields_bind fun _ _ => yields_ite (yields_none _) (yields_some rfl)

theorem yields_nubLeft (expr : Value) : Yields .list (nubLeft expr) :=
  yields_bind fun _ _ => yields_ite (yields_none _) (yields_some rfl)

theorem yields_escapeChars (string chars escapePrefix : Value) :
    Yields .string (escapeChars string chars escapePrefix) :=
  yields_bind fun _ _ => yields_bind fun _ _ => yields_some rfl

theorem yields_toSubdir (d s : Value) (flat : Bool) : Yields .map (toSubdir d s flat) :=
  yields_bind fun _ _ => yields_bind fun _ _ => yields_bind fun _ _ => yields_some rfl

theorem yields_fromSubdir (d s : Value) : Yields .map (fromSubdir d s) :=
  yields_bind fun _ _ => yields_bind fun _ _ => yields_bind fun _ _ => yields_some rfl

theorem yields_union (disjoint : Bool) (expr : Value) : Yields .map (union disjoint expr) :=
  yields_bind fun _ _ => yields_bind fun _ _ => yields_some rfl

theorem returns_changeEnding : Returns .string changeEndingExpr := fun _ _ _ =>
  yields_bind fun _ _ => yields_bind fun _ _ => yields_bind fun _ _ => yields_bind fun _ _ =>
    yields_some rfl

theorem returns_join : Returns .string joinExpr := fun _ _ _ =>
  yields_bind fun list _ => yields_bind fun _ _ => yields_bind fun separator _ =>
    yields_join false false list separator

theorem returns_joinCmd : Returns .string joinCmdExpr := fun _ _ _ =>
  yields_bind fun list _ => yields_join true false list (lit " ")

theorem returns_jsonEncode (dump : Value → Option Str) : Returns .string (jsonEncodeExpr dump) :=
  fun _ _ _ => yields_bind fun _ _ => yields_bind fun _ _ => yields_some rfl

theorem returns_escapeChars : Returns .string escapeCharsExpr := fun _ _ _ =>
  yields_bind fun string _ => yields_bind fun chars _ => yields_bind fun escapePrefix _ =>
    yields_escapeChars string chars escapePrefix

theorem returns_singletonMap : Returns .map singletonMapExpr := fun _ _ _ =>
  yields_bind fun _ _ => yields_bind fun _ _ => yields_bind fun _ _ => yields_some rfl

theorem returns_disjointUnion : Returns .map disjointUnionExpr := fun _ _ _ =>
  yields_bind fun argument _ => yields_ite (yields_none _) (yields_union true argument)

theorem returns_toSubdir : Returns .map toSubdirExpr := fun _ _ _ =>
  yields_bind fun d _ => yields_bind fun s _ => yields_bind fun flat _ =>
    yields_toSubdir d s (valueIsTrue flat)

theorem returns_fromSubdir : Returns .map fromSubdirExpr := fun _ _ _ =>
  yields_bind fun d _ => yields_bind fun s _ => yields_fromSubdir d s

theorem returns_foreach : Returns .list foreachExpr := fun _ _ _ =>
  yields_bind fun _ _ => yields_bind fun _ _ => yields_bind fun _ _ => yields_some rfl

theorem returns_foreachMap : Returns .list foreachMapExpr := fun _ _ _ =>
  yields_bind fun _ _ => yields_bind fun _ _ => yields_bind fun _ _ => yields_some rfl

theorem returns_zipWith : Returns .list zipWithExpr := fun _ _ _ =>
  yields_bind fun _ _ => yields_bind fun _ _ => yields_ite (yields_some rfl)
    (yields_bind fun _ _ => yields_bind fun _ _ => yields_bind fun _ _ => yields_some rfl)

theorem returns_zipMap : Returns .map zipMapExpr := fun _ _ _ =>
  yields_bind fun _ _ => yields_bind fun _ _ => yields_ite (yields_some rfl)
    (yields_bind fun _ _ => yields_bind fun _ _ => yields_bind fun _ _ => yields_some rfl)

theorem returns_env : Returns .map envExpr := by
  intro eval expr env
  unfold envExpr
  split
  · exact yields_some rfl
  · exact yields_bind fun _ _ => yields_bind fun _ _ => yields_some rfl

theorem builtIn_returns (dump : Value → Option Str) :
    ∀ entry ∈ builtInFunctions dump, Returns (formType entry.1) entry.2 := by
  simp only [builtInFunctions, forall_mem_cons]
  refine ⟨returns_any _, returns_any _, returns_any _, returns_any _, returns_any _, returns_any _,
    returns_any _, returns_any _, returns_any _, returns_any _, returns_any _, returns_any _,
    returns_any _, returns_equal, returns_and, returns_or, returns_unary fun _ => yields_some rfl,
    returns_unary fun _ => yields_bind fun _ _ => yields_bind fun _ _ => yields_some rfl,
    returns_unary fun _ => yields_bind fun _ _ => yields_bind fun _ _ => yields_some rfl,
    returns_unary fun _ => yields_bind fun _ _ => yields_bind fun _ _ => yields_some rfl,
    returns_unary yields_nubRight, returns_unary yields_nubLeft, returns_unary yields_range,
    returns_changeEnding, returns_unary fun _ => yields_bind fun _ _ => yields_some rfl,
    returns_join, returns_joinCmd, returns_jsonEncode dump, returns_escapeChars,
    returns_unary fun _ => yields_bind fun _ _ => yields_some rfl,
    returns_unary fun _ => yields_bind fun _ _ => yields_some rfl,
    returns_unary fun _ => yields_bind fun _ _ => yields_bind fun _ _ => yields_some rfl,
    returns_unary fun _ => yields_bind fun _ _ => yields_some rfl,
    returns_unary fun _ => yields_bind fun _ _ => yields_some rfl,
    returns_unary fun _ => yields_bind fun _ _ => yields_some rfl, returns_any _, returns_any _,
    fun _ _ _ => yields_some rfl, returns_singletonMap, returns_disjointUnion,
    returns_unary (yields_union false), returns_toSubdir, returns_fromSubdir, returns_foreach,
    returns_foreachMap, returns_zipWith, returns_zipMap, returns_any _, returns_any _,
    returns_env, returns_any _, by simp⟩

end Forms

section Kept

/-- The type of a call, if one of `zip_map` is a map. -/
def callType : Node → ValueType → ValueType
  | .map ((_, .string form) :: _), type => if form = lit "zip_map" then .map else type
  | _, type => type

/-- The type of a node, given what is known of the types of variables: a call of `zip_map` is a map,
and a fold has the type of its start only if its body keeps that type. -/
def keptType (known : Str → ValueType) : Node → ValueType
  | .verbatim expr _ valueType => callType expr (valueType.getD expr.evalType)
  | .var name default _ => if default.isSome then .any else known name
  | .ite _ thenBranch elseBranch =>
    if (match thenBranch with | some node => keptType known node | none => .list) =
        (match elseBranch with | some node => keptType known node | none => .list) then
      match thenBranch with | some node => keptType known node | none => .list
    else .any
  | .foldLeft iterVar accuVar init _ body =>
    let start := keptType known init
    let bound := update (update known accuVar start) iterVar .any
    if keptType bound body = start then start else .any
  | .ref _ => .any
  | node => node.evalType

/-- The type of a branch of a condition: a missing branch is the empty list. -/
def branchType (known : Str → ValueType) : Option Node → ValueType
  | some node => keptType known node
  | none => .list

theorem keptType_ite (known : Str → ValueType) (cond : Node) (thenBranch elseBranch : Option Node) :
    keptType known (.ite cond thenBranch elseBranch) =
      if branchType known thenBranch = branchType known elseBranch then branchType known thenBranch
      else .any := by
  cases thenBranch with
  | none => cases elseBranch <;> rfl
  | some thenNode => cases elseBranch <;> rfl

theorem keptType_foldLeft (known : Str → ValueType) (iterVar accuVar : Str)
    (init range body : Node) : keptType known (.foldLeft iterVar accuVar init range body) =
      if keptType (update (update known accuVar (keptType known init)) iterVar
        .any) body = keptType known init then keptType known init else .any := rfl

/-- The variables have the types that are known of them. -/
def Meets (known : Str → ValueType) (env : Configuration) : Prop :=
  ∀ name, known name ≠ .any → kind (env.get name) = known name

end Kept

section Nodes

variable {library : Library} {imports : Option (List (Str × ExpressionFunction))}
  {env : Configuration}

theorem yields_form {form : String} {function : Function} {expr : Fields}
    (listed : (form, function) ∈ builtInFunctions library.dump)
    (type : token expr = some (lit form)) :
    Yields (formType form) (evaluate library imports (.map expr) env) := by
  rw [evaluate_form listed type]
  exact builtIn_returns library.dump _ listed _ _ _

theorem denote_forEach (iterVar : Str) (range body : Node) :
    Yields .list (denote library imports (.forEach iterVar range body) env) := by
  refine yields_bind fun json written => ?_
  rw [Node.toJson, if_neg (by decide)] at written
  simp only [bind_eq_bind, bind_eq_some_iff, pure_def, some.injEq] at written
  obtain ⟨range, -, body, -, rfl⟩ := written
  exact yields_form (show ("foreach", foreachExpr) ∈ _ by simp [builtInFunctions]) rfl

theorem denote_zipWith (var1 var2 : Str) (range1 range2 body : Node) :
    Yields .list (denote library imports (.zipWith var1 var2 range1 range2 body) env) := by
  refine yields_bind fun json written => ?_
  rw [Node.toJson, if_neg (by decide)] at written
  simp only [bind_eq_bind, bind_eq_some_iff, pure_def, some.injEq] at written
  obtain ⟨range1, -, range2, -, body, -, rfl⟩ := written
  exact yields_form (show ("zip_with", zipWithExpr) ∈ _ by simp [builtInFunctions]) rfl

theorem denote_map (fields : List (Node × Node)) :
    Yields .map (denote library imports (.map fields) env) := by
  rw [Literals.denote_map_eq, Option.map_eq_bind]
  exact yields_bind fun _ _ => yields_some rfl

/-- A branch of a condition is written under a key, unless it is missing. -/
def BranchWritten (branch : Option Node) (key : String) (expr : Fields) : Prop :=
  (branch.mapM fun node => node.toJson false .none) = some (find (lit key) expr)

variable {elseBranch thenBranch : Option Node}

theorem toJson_ite {cond : Node} {json : Value}
    (written : (Node.ite cond thenBranch elseBranch).toJson false .none = some json) :
    ∃ expr, json = .map expr ∧ token expr = some (lit "if") ∧
      cond.toJson false .none = find (lit "cond") expr ∧
      BranchWritten thenBranch "then" expr ∧ BranchWritten elseBranch "else" expr := by
  unfold Node.toJson at written
  rw [if_neg (by decide), show VerbatimType.inner .none .none = .none from rfl] at written
  cases thenBranch with
  | none =>
    cases elseBranch with
    | none =>
      simp only [bind_eq_bind, bind_eq_some_iff, pure_def, some.injEq] at written
      obtain ⟨condJson, asked, _, rfl, _, rfl, rfl⟩ := written
      exact ⟨_, rfl, rfl, asked, rfl, rfl⟩
    | some elseNode =>
      simp only [bind_eq_bind, bind_eq_some_iff, pure_def, some.injEq] at written
      obtain ⟨condJson, asked, _, rfl, elseJson, elseWritten, _, rfl, rfl⟩ := written
      exact ⟨_, rfl, rfl, asked, rfl, congrArg (Option.map some) elseWritten⟩
  | some thenNode =>
    cases elseBranch with
    | none =>
      simp only [bind_eq_bind, bind_eq_some_iff, pure_def, some.injEq] at written
      obtain ⟨condJson, asked, thenJson, thenWritten, _, rfl, _, rfl, rfl⟩ := written
      exact ⟨_, rfl, rfl, asked, congrArg (Option.map some) thenWritten, rfl⟩
    | some elseNode =>
      simp only [bind_eq_bind, bind_eq_some_iff, pure_def, some.injEq] at written
      obtain ⟨condJson, asked, thenJson, thenWritten, _, rfl, elseJson, elseWritten, _, rfl, rfl⟩ :=
        written
      exact ⟨_, rfl, rfl, asked, congrArg (Option.map some) thenWritten,
        congrArg (Option.map some) elseWritten⟩

/-- What a branch of a condition denotes: a missing branch is the empty list. -/
def denoteBranch (library : Library) (imports : Option (List (Str × ExpressionFunction)))
    (branch : Option Node) (env : Configuration) : Option Value :=
  match branch with
  | some node => denote library imports node env
  | none => some (.list [])

theorem evalGet_branch {branch : Option Node} {key : String} {expr : Fields}
    (written : BranchWritten branch key expr) :
    evalGet expr key (.list []) (evaluate library imports) env =
      denoteBranch library imports branch env := by
  rw [evalGet, Value.get]
  cases branch with
  | none =>
    rw [← some.inj written]
    exact evaluate_list []
  | some node =>
    obtain ⟨json, made, same⟩ := map_eq_some_iff.mp written
    rw [← same, denoteBranch, denote, show node.toJson false .none = some json from made]
    rfl

theorem of_denote_ite {cond : Node}
    (success : denote library imports (.ite cond thenBranch elseBranch) env = some value) :
    ∃ asked, denote library imports cond env = some asked ∧
      denoteBranch library imports (if valueIsTrue asked then thenBranch else elseBranch) env =
        some value := by
  obtain ⟨json, written, success⟩ := bind_eq_some_iff.mp success
  obtain ⟨expr, rfl, type, condWritten, thenWritten, elseWritten⟩ := toJson_ite written
  rw [evaluate_form (show ("if", ifExpr) ∈ _ by simp [builtInFunctions]) type] at success
  obtain ⟨asked, evaluated, success⟩ := bind_eq_some_iff.mp success
  rw [evalGet_branch thenWritten, evalGet_branch elseWritten, ← apply_ite
    (denoteBranch library imports · env)] at success
  rw [evalArgument, ← condWritten] at evaluated
  exact ⟨asked, evaluated, success⟩

theorem of_denote_foldLeft {iterVar accuVar : Str} {init range body : Node}
    (success : denote library imports (.foldLeft iterVar accuVar init range body) env = some value) :
    ∃ (start : Value) (items : List Value), denote library imports init env = some start ∧
      items.foldlM (fun val x => denote library imports body
        (env.updateAll (emplaceAll [(iterVar, x), (accuVar, val)] []))) start = some value := by
  simp only [denote, Node.toJson] at success
  rw [if_neg (by decide), show VerbatimType.inner .none .none = .none from rfl] at success
  simp only [bind_eq_bind, bind_eq_some_iff, pure_def, some.injEq] at success
  obtain ⟨_, ⟨initJson, init, rangeJson, -, bodyJson, body, rfl⟩, success⟩ := success
  have listed : ("foldl", foldLeftExpr) ∈ builtInFunctions library.dump := by
    simp [builtInFunctions]
  rw [object, evaluate_form listed rfl] at success
  have folds : (do
      let range ← evaluate library imports rangeJson env
      let start ← evaluate library imports initJson env
      (← range.asList).foldlM (fun val x => evaluate library imports bodyJson
        (env.updateAll (emplaceAll [(iterVar, x), (accuVar, val)] []))) start) = some value :=
    success
  simp only [bind_eq_bind, bind_eq_some_iff] at folds
  obtain ⟨range, -, start, starts, items, -, folds⟩ := folds
  refine ⟨start, items, ?_, ?_⟩
  · rw [denote, init]
    exact starts
  · simp only [denote, body]
    exact folds

end Nodes

section Soundness

variable {library : Library} {imports : Option (List (Str × ExpressionFunction))}

theorem listed_of_fallback (dump : Value → Option Str) (listed : fallback ∈ fallbacks) :
    ∃ function, (fallback.form, function) ∈ builtInFunctions dump := by
  have table : ∀ fallback ∈ fallbacks,
      fallback.form ∈ (builtInFunctions fun _ => none).map fst := by decide
  have named : fallback.form ∈ (builtInFunctions dump).map fst := table fallback listed
  obtain ⟨⟨form, function⟩, member, same⟩ := mem_map.mp named
  exact ⟨function, same ▸ member⟩

theorem callType_eq (known : Str → ValueType) (listed : fallback ∈ fallbacks)
    (args : List (String × Node)) :
    keptType known (runtimeCall fallback.form args fallback.type) = .any ∨
      keptType known (runtimeCall fallback.form args fallback.type) = formType fallback.form := by
  have table : ∀ fallback ∈ fallbacks,
      (if lit fallback.form = lit "zip_map" then .map else fallback.type) = ValueType.any ∨
      (if lit fallback.form = lit "zip_map" then .map else fallback.type) =
        formType fallback.form := by decide
  exact table fallback listed

theorem denote_call (known : Str → ValueType) (listed : fallback ∈ fallbacks)
    {args : List (String × Node)} (accepted : fallback.Accepts args) (env : Configuration) :
    Yields (keptType known (runtimeCall fallback.form args fallback.type))
      (denote library imports (runtimeCall fallback.form args fallback.type) env) := by
  intro concrete value success
  obtain ⟨function, stored⟩ := listed_of_fallback library.dump listed
  obtain ⟨expr, -, called⟩ := of_denote_runtimeCall success stored (accepted.distinct listed)
  cases callType_eq known listed args with
  | inl unknown => exact absurd unknown concrete
  | inr same =>
    rw [same] at concrete ⊢
    exact builtIn_returns library.dump _ stored _ _ _ concrete value called

theorem denote_var (meets : Meets known env) (name : Str) (origin : VarOrigin) :
    Yields (known name) (denote library imports (.var name none origin) env) := by
  intro concrete value success
  have listed : ("var", varExpr) ∈ builtInFunctions library.dump := by simp [builtInFunctions]
  change evaluate library imports (object "var" [("name", .string name)]) env = some value at success
  rw [object, evaluate_form listed rfl] at success
  have reads : (if env.get name = .none then evaluate library imports .none env
      else some (env.get name)) = some value := success
  have same : some (env.get name) = some value := by
    split at reads
    · next missing =>
      rw [missing]
      exact (evaluate_atom (show Value.none.depth = 0 from rfl)).symm.trans reads
    · exact reads
  cases same
  exact meets name concrete

theorem meets_fold (meets : Meets known env) (iterVar accuVar : Str) {start : ValueType}
    {item accu : Value} (same : start ≠ .any → kind accu = start) :
    Meets (update (update known accuVar start) iterVar .any)
      (env.updateAll (emplaceAll [(iterVar, item), (accuVar, accu)] [])) := by
  intro name concrete
  rw [Configuration.get_updateAll, find_emplaceAll, find_nil, none_or, find_cons, find_cons,
    find_nil]
  by_cases item : iterVar = name
  · rw [item, update_self] at concrete
    exact absurd rfl concrete
  · rw [update_of_ne (Ne.symm item)] at concrete ⊢
    rw [if_neg item]
    by_cases carried : accuVar = name
    · rw [carried, update_self] at concrete ⊢
      rw [if_pos rfl]
      exact same concrete
    · rw [update_of_ne (Ne.symm carried)] at concrete ⊢
      rw [if_neg carried]
      exact meets name concrete

theorem yields_fold {Item : Type} {type : ValueType} {body : Value → Item → Option Value}
    (keeps : ∀ accu item, (type ≠ .any → kind accu = type) → Yields type (body accu item))
    (items : List Item) {start : Value} (starts : type ≠ .any → kind start = type) :
    Yields type (items.foldlM body start) := by
  induction items generalizing start with
  | nil => exact fun concrete value same => Option.mem_some_iff.mp same ▸ starts concrete
  | cons item items step =>
    rw [foldlM_cons]
    exact yields_bind fun accu made => step fun concrete =>
      keeps start item starts concrete accu made

theorem yields_branch {branch : Option Node}
    (all : ∀ node ∈ branch, Yields (keptType known node) (denote library imports node env)) :
    Yields (branchType known branch) (denoteBranch library imports branch env) := by
  cases branch with
  | none => exact yields_some rfl
  | some node => exact all node rfl

theorem yields_atom (env : Configuration) (atom : value.depth = 0) :
    Yields (kind value) (evaluate library imports value env) := by
  rw [evaluate_atom atom]
  exact yields_some rfl

theorem denote_yields {node : Node} (inlined : Inlined node) :
    ∀ (known : Str → ValueType) (env : Configuration), Meets known env →
      Yields (keptType known node) (denote library imports node env) := by
  induction inlined with
  | func params body => exact fun _ _ _ => yields_none _
  | builtin name => exact fun _ _ _ => yields_none _
  | bool value => exact fun _ env _ => yields_atom env (show (Value.bool value).depth = 0 from rfl)
  | string value =>
    exact fun _ env _ => yields_atom env (show (Value.string value).depth = 0 from rfl)
  | number value =>
    exact fun _ env _ => yields_atom env (show (Value.number value).depth = 0 from rfl)
  | null => exact fun _ env _ => yields_atom env (show Value.none.depth = 0 from rfl)
  | ref data => exact fun _ _ _ => yields_any _
  | @list items each steps =>
    intro known env meets
    rw [denote_list, Option.map_eq_bind]
    exact yields_bind fun values _ => yields_some rfl
  | map keys values => exact fun _ _ _ => denote_map _
  | @var name default origin given steps =>
    intro known env meets
    cases default with
    | none => exact denote_var meets name origin
    | some node => exact yields_any _
  | @ite cond thenBranch elseBranch asked whenTrue whenFalse _ thenSteps elseSteps =>
    intro known env meets
    rw [keptType_ite]
    split
    · next same =>
      intro concrete value success
      obtain ⟨asked, -, chosen⟩ := of_denote_ite success
      split at chosen
      · exact yields_branch (fun node given => thenSteps node given known env meets) concrete value
          chosen
      · rw [same] at concrete ⊢
        exact yields_branch (fun node given => elseSteps node given known env meets) concrete value
          chosen
    · exact yields_any _
  | forEach iterVar ranged inside => exact fun _ _ _ => denote_forEach _ _ _
  | zipWith var1 var2 over1 over2 inside => exact fun _ _ _ => denote_zipWith _ _ _ _ _
  | foldLeft iterVar accuVar start ranged inside initStep _ bodyStep =>
    intro known env meets
    rw [keptType_foldLeft]
    split
    · next same =>
      intro concrete value success
      obtain ⟨start, items, starts, folds⟩ := of_denote_foldLeft success
      refine yields_fold (fun accu item typed => ?_) items
        (fun known' => initStep known env meets known' start starts) concrete value folds
      exact same ▸ bodyStep _ _ (meets_fold meets iterVar accuVar typed)
    · exact yields_any _
  | call listed accepted given => exact fun known env _ => denote_call known listed accepted env

end Soundness

section Claim

variable {library : Library} {imports : Option (List (Str × ExpressionFunction))}

/-- Nothing is known of the types of the variables of a configuration. -/
def unknown : Str → ValueType := fun _ => .any

theorem meets_unknown (env : Configuration) : Meets unknown env := fun _ concrete =>
  absurd rfl concrete

/-- The type of a node is that of its value if the kept type is the same, and is not if the kept
type is another one; only where the kept type is any, the configuration decides. -/
theorem kind_eq_evalType_iff (library : Library)
    (imports : Option (List (Str × ExpressionFunction))) {node : Node} (inlined : Inlined node)
    (concrete : IsConcrete node.evalType) (env : Configuration) {value : Value}
    (success : denote library imports node env = some value) :
    (keptType unknown node = node.evalType → kind value = node.evalType) ∧
      (keptType unknown node ≠ .any → kind value = node.evalType →
        keptType unknown node = node.evalType) := by
  have typed := @denote_yields library imports node inlined unknown env (meets_unknown env)
  constructor
  · intro same
    rw [same] at typed
    exact typed concrete.1 value success
  · intro settled right
    exact (typed settled value success).symm.trans right

/-- `jst.foldl` over a list of the configuration that appends its texts to the empty text. -/
def appending : Node :=
  .foldLeft (lit "text") (lit "all") (.string []) (.var (lit "texts") none .runtime)
    (runtimeCall "join" [("$1", .list [.var (lit "all") none .iteration,
      .var (lit "text") none .iteration])] .string)

theorem kind_appending :
    denote FreeVariables.bare none appending
        [(lit "texts", .list [.string (lit "a"), .string (lit "b")])] =
      some (.string (lit "ab")) ∧
    kind (.string (lit "ab")) = appending.evalType := by
  have variable_inlined : ∀ (name : Str) (origin : VarOrigin),
      Inlined (.var name none origin) := fun name origin => .var name origin nofun
  have call : Inlined (runtimeCall "join" [("$1", .list [.var (lit "all") none .iteration,
      .var (lit "text") none .iteration])] .string) :=
    .call (show ⟨"join", "join", ["$1"], ["separator"], .string⟩ ∈ fallbacks by decide)
      ⟨[], by decide, rfl⟩ (List.forall_mem_singleton.mpr (.list (forall_mem_cons.mpr
        ⟨variable_inlined _ _, List.forall_mem_singleton.mpr (variable_inlined _ _)⟩)))
  have value : denote FreeVariables.bare none appending
      [(lit "texts", .list [.string (lit "a"), .string (lit "b")])] =
      some (.string (lit "ab")) := by decide
  exact ⟨value, (kind_eq_evalType_iff FreeVariables.bare none
    (.foldLeft _ _ (.string []) (variable_inlined _ _) call) (by decide) _ value).1 (by decide)⟩

theorem kind_zipMap_ne :
    ∃ branches node, BuiltIn.zipMap [(none, .var (lit "keys") none .runtime),
        (none, .var (lit "values") none .runtime)] = .ok branches ∧
      branches.result = .ok node ∧ Inlined node ∧ IsConcrete node.evalType ∧
      ∃ env value, denote FreeVariables.bare none node env = some value ∧
        kind value ≠ node.evalType := by
  have variable_inlined : ∀ (name : Str), Inlined (.var name none .runtime) :=
    fun name => .var name .runtime nofun
  refine ⟨_, _, rfl, rfl, ?_, by decide, ?_⟩
  · exact .call
      (show ⟨"zip_map", "zip_map", ["range_key", "range_val"], [], .list⟩ ∈ fallbacks by decide)
      ⟨[], by decide, rfl⟩ (forall_mem_cons.mpr
        ⟨variable_inlined _, List.forall_mem_singleton.mpr (variable_inlined _)⟩)
  · exact ⟨[(lit "keys", .list [.string (lit "a")]), (lit "values", .list [.none])],
      .map [(lit "a", .none)], by decide, by decide⟩

end Claim

end Jst.Verif.EvaluationTypes
