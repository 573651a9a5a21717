import Jst.Lang.StaticBuiltins
import Jst.Verif.EvaluationTypes
/-!
# Truth values of syntax trees

The truth value that a tree is given is that of the value it evaluates to, unless that comes from a
map all of whose fields are functions: the map is taken for true, and evaluates to the empty map.
Where no such map counts, the truth values decide as the evaluation does.
-/
namespace Jst.Verif.TruthValues

open Jst.Expression Jst.Expression.Evaluator Jst.Expression.Functions Jst.SortedMap Jst.Lang
open FreeVariables Denotation EvaluationTypes

variable {library : Library} {imports : Option (List (Str × ExpressionFunction))}
  {env : Configuration}

/-- The literal that the evaluation reaches in the branches of a tree is a map all of whose fields
are functions, of which there are some. -/
def misjudged (library : Library) (imports : Option (List (Str × ExpressionFunction)))
    (env : Configuration) : Node → Bool
  | .ite cond (some thenBranch) (some elseBranch) =>
    match denote library imports cond env with
    | some asked =>
      if valueIsTrue asked then misjudged library imports env thenBranch
      else misjudged library imports env elseBranch
    | none => false
  | .map fields => !fields.isEmpty && fields.all fun field => field.2.isFunc
  | _ => false

theorem truth_map {fields : List (Node × Node)} {value : Value}
    (denotes : denote library imports (.map fields) env = some value) :
    valueIsTrue value = !fields.isEmpty ↔
      (!fields.isEmpty && fields.all fun field => field.2.isFunc) = false := by
  rw [Literals.denote_map_eq] at denotes
  obtain ⟨entries, made, rfl⟩ := map_eq_some_iff.mp denotes
  have asMany := (Loops.mapM_eq_some.mp made).length_eq
  have noEntry : entries.isEmpty = fields.all fun field => field.2.isFunc := by
    rw [Bool.eq_iff_iff, List.isEmpty_iff_length_eq_zero, ← asMany, List.length_eq_zero_iff,
      List.filter_eq_nil_iff, List.all_eq_true]
    simp
  rw [valueIsTrue, Literals.store_isEmpty, noEntry]
  cases fields with
  | nil => exact iff_of_true rfl rfl
  | cons field fields =>
    cases (field :: fields).all fun field => field.2.isFunc <;> simp

theorem truth_iff : ∀ (node : Node) {truth : Bool} {value : Value}, node.truthValue = some truth →
    denote library imports node env = some value →
    (valueIsTrue value = truth ↔ misjudged library imports env node = false)
  | .ite cond (some thenBranch) (some elseBranch), truth, value, known, denotes => by
    rw [Node.truthValue] at known
    split at known
    · next same =>
      obtain ⟨asked, isAsked, chosen⟩ := of_denote_ite denotes
      rw [misjudged, isAsked]
      dsimp only
      split at chosen
      · next isTrue =>
        rw [if_pos isTrue]
        exact truth_iff thenBranch known chosen
      · next isFalse =>
        rw [if_neg isFalse]
        exact truth_iff elseBranch (same ▸ known) chosen
    · cases known
  | .map fields, truth, value, known, denotes => by
    cases known
    exact truth_map denotes
  | .list items, truth, value, known, denotes => by
    cases known
    rw [denote_list] at denotes
    obtain ⟨values, made, rfl⟩ := map_eq_some_iff.mp denotes
    have asMany := (Loops.mapM_eq_some.mp made).length_eq
    refine iff_of_true ?_ rfl
    cases items with
    | nil => rw [List.length_eq_zero_iff.mp asMany.symm]; rfl
    | cons _ _ =>
      cases values with
      | nil => cases asMany
      | cons _ _ => rfl
  | .bool _, truth, value, known, denotes | .string _, truth, value, known, denotes
  | .number _, truth, value, known, denotes | .null, truth, value, known, denotes => by
    cases known
    rw [denote, Node.toJson, bind_eq_bind, bind_some, evaluate_atom rfl] at denotes
    cases denotes
    exact iff_of_true rfl rfl

/-- No truth value that is asked of an argument, or of the items of a list, is that of a misjudged
map. -/
def Judged (library : Library) (imports : Option (List (Str × ExpressionFunction)))
    (node : Node) : Prop :=
  ∀ env, misjudged library imports env node = false ∧
    ∀ items, node = .list items → ∀ item ∈ items, misjudged library imports env item = false

/-! ## Decisions -/

theorem chooseBranch_denotes {cond : Node} {thenBranch elseBranch : Option Node} {value : Value}
    (judged : misjudged library imports env cond = false)
    (denotes : denote library imports (.ite cond thenBranch elseBranch) env = some value) :
    denote library imports (BuiltIn.chooseBranch cond thenBranch elseBranch) env = some value := by
  unfold BuiltIn.chooseBranch
  cases known : cond.truthValue with
  | none => exact denotes
  | some truth =>
    obtain ⟨asked, isAsked, chosen⟩ := of_denote_ite denotes
    rw [(truth_iff cond known isAsked).mpr judged] at chosen
    change denote library imports ((if truth = true then thenBranch else elseBranch).getD
      (.list [])) env = some value
    cases branch : if truth then thenBranch else elseBranch with
    | some node =>
      rw [branch] at chosen
      exact chosen
    | none =>
      rw [branch] at chosen
      exact (denote_list []).trans chosen

section Conditions

variable {run : List Value → Option Value} {truth : Bool}
  (end' : run [] = some (.bool !truth))
  (step : ∀ cond conds, run (cond :: conds) = do
    if valueIsTrue (← evaluate library imports cond env) = truth then some (.bool truth)
    else run conds)
include end' step

theorem settled_denotes {items : List Node} {conds : List Value} {value : Value}
    (written : List.Forall₂ (fun item cond => item.toJson false .none = some cond) items conds)
    (judged : ∀ item ∈ items, misjudged library imports env item = false)
    (success : run conds = some value) :
    ((∃ item ∈ items, item.truthValue = some truth) → value = .bool truth) ∧
    ((∀ item ∈ items, item.truthValue = some !truth) → value = .bool !truth) := by
  induction written with
  | nil =>
    refine ⟨fun settled => ?_, fun _ => ?_⟩
    · obtain ⟨_, impossible, _⟩ := settled
      cases impossible
    · rw [end'] at success
      exact (some.inj success).symm
  | @cons item cond items conds here later rest =>
    rw [step] at success
    obtain ⟨asked, isAsked, success⟩ := bind_eq_some_iff.mp success
    have denotes : denote library imports item env = some asked := by rw [denote, here]; exact isAsked
    have agrees : ∀ {known}, item.truthValue = some known → valueIsTrue asked = known :=
      fun known => (truth_iff item known denotes).mpr (judged item mem_cons_self)
    have further := rest (forall_mem_cons.mp judged).2
    split at success
    · next isTruth =>
      have settled := (some.inj success).symm
      refine ⟨fun _ => settled, fun all => ?_⟩
      have opposite := agrees (all item mem_cons_self)
      rw [isTruth] at opposite
      exact absurd opposite (by cases truth <;> decide)
    · next isOther =>
      refine ⟨fun settled => ?_, fun all =>
        (further success).2 (forall_mem_cons.mp all).2⟩
      obtain ⟨other, member, known⟩ := settled
      cases mem_cons.mp member with
      | inl same => exact absurd (agrees (same ▸ known)) isOther
      | inr inside => exact (further success).1 ⟨other, inside, known⟩

end Conditions

theorem given_of_gather {args : Params} {nameless : List ExpectedParameter}
    {named result : NamedParams} (success : gatherParams args nameless named = .ok result)
    {entry : Str × Node} (member : entry ∈ result) :
    entry ∈ named ∨ ∃ arg ∈ args, arg.2 = entry.2 := by
  induction args generalizing nameless named with
  | nil =>
    cases success
    exact .inl member
  | cons arg args step =>
    obtain ⟨name, node⟩ := arg
    have further : ∀ {nameless key}, gatherParams args nameless (named ++ [(key, node)]) =
        .ok result → entry ∈ named ∨ ∃ arg ∈ (name, node) :: args, arg.2 = entry.2 := by
      intro nameless key success
      cases step success with
      | inr given =>
        obtain ⟨arg, inside, same⟩ := given
        exact .inr ⟨arg, mem_cons_of_mem _ inside, same⟩
      | inl before =>
        cases mem_append.mp before with
        | inl earlier => exact .inl earlier
        | inr here =>
          rw [mem_singleton.mp here]
          exact .inr ⟨_, mem_cons_self, rfl⟩
    cases name with
    | some name =>
      rw [gatherParams] at success
      split at success
      · cases success
      · exact further success
    | none =>
      cases nameless with
      | nil => cases success
      | cons expected nameless =>
        rw [gatherParams] at success
        split at success
        · cases success
        · exact further success

theorem given_of_lookup {args : Params} {expected : List ExpectedParameter} {named : NamedParams}
    {name : Str} {node : Node} (made : makeNamedParameters args expected = .ok named)
    (found : lookupParam name named = some node) : ∃ arg ∈ args, arg.2 = node := by
  unfold makeNamedParameters at made
  obtain ⟨entry, isEntry, rfl⟩ := map_eq_some_iff.mp found
  cases gathered : gatherParams args expected [] with
  | error _ => rw [gathered] at made; cases made
  | ok result =>
    rw [gathered] at made
    have same : result = named := by
      change (checkParams result expected >>= fun _ => .ok result) = .ok named at made
      cases checked : checkParams result expected with
      | error _ => rw [checked] at made; cases made
      | ok _ => rw [checked] at made; exact ok.inj made
    cases given_of_gather gathered (same ▸ List.mem_of_find?_eq_some isEntry) with
    | inl impossible => cases impossible
    | inr given => exact given

theorem quantifier_agrees {builtin form : String} {truth : Bool} {function : Function}
    {run : Configuration → List Value → Option Value} {args : Params} {branches : Branches}
    (listed : (form, function) ∈ builtInFunctions library.dump)
    (literal : ∀ expr conds env, find (lit "$1") expr = some (.list conds) →
      function (evaluate library imports) expr env = run env conds)
    (end' : ∀ env, run env [] = some (.bool !truth))
    (step : ∀ env cond conds, run env (cond :: conds) = do
      if valueIsTrue (← evaluate library imports cond env) = truth then some (.bool truth)
      else run env conds) (success : BuiltIn.quantifier builtin form truth args = .ok branches)
    (judged : ∀ arg ∈ args, Judged library imports arg.2) : Agrees library imports branches := by
  obtain ⟨named, made, success⟩ := of_withParameters success
  obtain ⟨argsNode, found, success⟩ := of_retrieve success
  obtain ⟨arg, member, given⟩ := given_of_lookup made found
  have judgedNode := judged arg member
  rw [given] at judgedNode
  cases success
  intro node settled env value denotes
  have distinct : ("type" :: [("$1", argsNode)].map fst).Nodup := by simp
  obtain ⟨expr, written, evaluated⟩ := of_denote_runtimeCall denotes listed distinct
  cases argsNode with
  | list items =>
    obtain ⟨json, isJson⟩ := isSome_iff_exists.mp
      (written.serialised mem_cons_self (by rfl))
    have isArgument := (written.argument mem_cons_self).trans isJson
    rw [Node.toJson] at isJson
    obtain ⟨conds, isConds, same⟩ := bind_eq_some_iff.mp isJson
    cases same
    rw [literal expr conds env isArgument] at evaluated
    rw [show VerbatimType.inner .none .none = .none from rfl, toJsonItems_eq_mapM,
      Loops.mapM_eq_some] at isConds
    have decided := settled_denotes (end' env) (step env) isConds
      ((judgedNode env).2 items rfl) evaluated
    have isBool : ∀ {known : Bool}, value = .bool known →
        denote library imports (.bool known) env = some value := by
      intro known isValue
      rw [isValue]
      exact evaluate_atom rfl
    have settled : BuiltIn.settledBy truth items = some node := ok.inj settled
    unfold BuiltIn.settledBy at settled
    by_cases found : (items.any fun item => item.truthValue = some truth) = true
    · rw [if_pos found] at settled
      cases settled
      obtain ⟨item, inside, known⟩ := List.any_eq_true.mp found
      exact isBool (decided.1 ⟨item, inside, of_decide_eq_true known⟩)
    · rw [if_neg found] at settled
      by_cases all : (items.all fun item => item.truthValue.isSome) = true
      · rw [if_pos all] at settled
        cases settled
        refine isBool (decided.2 fun item inside => ?_)
        obtain ⟨known, isKnown⟩ := isSome_iff_exists.mp (List.all_eq_true.mp all item inside)
        have other : known ≠ truth := fun same =>
          found (List.any_eq_true.mpr ⟨item, inside, by simp [isKnown, same]⟩)
        rw [isKnown, Bool.eq_not_of_ne other]
      · rw [if_neg all] at settled
        cases settled
  | _ => cases settled

theorem negate_agrees {args : Params} {branches : Branches}
    (success : BuiltIn.negate args = .ok branches)
    (judged : ∀ arg ∈ args, Judged library imports arg.2) : Agrees library imports branches := by
  obtain ⟨named, made, success⟩ := of_withParameters success
  obtain ⟨expr, found, success⟩ := of_retrieve success
  obtain ⟨arg, member, given⟩ := given_of_lookup made found
  cases success
  intro node settled env value denotes
  have distinct : ("type" :: [("$1", expr)].map fst).Nodup := by simp
  obtain ⟨fields, written, evaluated⟩ := of_denote_runtimeCall denotes
    (show ("not", unaryExpr Functions.not) ∈ _ by simp [builtInFunctions]) distinct
  obtain ⟨truth, known, rfl⟩ := map_eq_some_iff.mp (ok.inj settled)
  rw [unaryExpr, written.evalArgument_eq mem_cons_self] at evaluated
  obtain ⟨asked, isAsked, isNot⟩ := bind_eq_some_iff.mp evaluated
  have isTrue := (truth_iff expr known isAsked).mpr (given ▸ (judged arg member env).1)
  rw [← some.inj isNot, isTrue]
  exact evaluate_atom rfl

/-- A known truth value is that of the value if and only if no map is misjudged. Where none is, what
is decided by truth values while compiling is what the evaluation decides. -/
theorem truthValue_iff (library : Library) (imports : Option (List (Str × ExpressionFunction))) :
    (∀ env node truth value, node.truthValue = some truth →
      denote library imports node env = some value →
      (valueIsTrue value = truth ↔ misjudged library imports env node = false)) ∧
    (∀ env cond thenBranch elseBranch value, misjudged library imports env cond = false →
      denote library imports (.ite cond thenBranch elseBranch) env = some value →
      denote library imports (BuiltIn.chooseBranch cond thenBranch elseBranch) env = some value) ∧
    ∀ args branches, (∀ arg ∈ args, Judged library imports arg.2) →
      BuiltIn.all args = .ok branches ∨ BuiltIn.any args = .ok branches ∨
        BuiltIn.negate args = .ok branches → Agrees library imports branches := by
  refine ⟨fun env node truth value => truth_iff node, fun env cond thenBranch elseBranch value =>
    chooseBranch_denotes, fun args branches judged called => ?_⟩
  rcases called with isAll | isAny | isNot
  · refine @quantifier_agrees library imports "all" "and" false andExpr
      (fun env => logicalAnd (evaluate library imports) env) _ _ (by simp [builtInFunctions])
      (fun expr conds env found => ?_) (fun env => rfl) (fun env cond conds => ?_) isAll judged
    · rw [andExpr, found]
    · rw [logicalAnd]
      congr 1
      funext asked
      cases valueIsTrue asked <;> rfl
  · refine @quantifier_agrees library imports "any" "or" true orExpr
      (fun env => logicalOr (evaluate library imports) env) _ _ (by simp [builtInFunctions])
      (fun expr conds env found => ?_) (fun env => rfl) (fun env cond conds => rfl) isAny judged
    rw [orExpr, found]
  · exact negate_agrees isNot judged

/-- A map with a function for its field. -/
def methods : Node := .map [(.string (lit "f"), .func [] .null)]

theorem methods_misjudged : methods.truthValue = some true ∧
    denote bare none methods [] = some (.map []) ∧ valueIsTrue (.map []) = false ∧
    denote bare none (.ite methods (some (.bool true)) none) [] = some (.list []) ∧
    denote bare none (BuiltIn.chooseBranch methods (some (.bool true)) none) [] =
      some (.bool true) := by
  decide

theorem singleton_judged : valueIsTrue (.list [.none]) = true :=
  ((truthValue_iff bare none).1 [] (.list [.null]) true (.list [.none]) rfl (by decide)).mpr
    (by decide)

end Jst.Verif.TruthValues
