import Jst.Data.Loops
import Jst.Lang.FunctionCalls
import Mathlib.Data.List.Perm.Basic
import Mathlib.Data.List.Perm.Subperm
/-!
# Arguments are bound to parameters

Named arguments take the place of the parameter at their position, whatever their name. So a call
binds the parameters as it should if and only if the named arguments are those of the parameters
that follow the positional ones, in some order.
-/
namespace Jst.Verif.ArgumentBinding

open Lang Lang.ASTInlineVisitor
open Node (bool null)

/-! ## What parameters should be bound to -/

/-- The argument for a parameter, and the positional arguments that are left: that of its name, or
else the next positional argument. -/
def argumentFor (named : List (Str × Node)) (name : Str) (positional : List Node) :
    Option Node × List Node :=
  match named.find? (·.1 = name) with
  | some arg => (some arg.2, positional)
  | none => (positional.head?, positional.tail)

/-- The arguments of a call; the parser rejects positional arguments behind named ones. -/
def arguments (positional : List Node) (named : List (Str × Node)) : Params :=
  positional.map (none, ·) ++ named.map fun arg => (some arg.1, arg.2)

@[simp] theorem arguments_length (positional : List Node) (named : List (Str × Node)) :
    (arguments positional named).length = positional.length + named.length := by
  simp [arguments]

section Binding

variable (inlineFunctions : Node → Except Str Node) (inlineIn : ScopeDefs → Node → Except Str Node)

/-- The value of an argument, or else of the default value of a parameter. -/
def valueFor (defs : ScopeDefs) : Option Node → Option Node → Except Str Node
  | some arg, _ => inlineFunctions arg
  | none, some default => inlineIn defs default
  | none, none => .error []

/-- What parameters should be bound to, in a scope that defines those before. -/
def expected (named : List (Str × Node)) :
    FuncParams → List Node → ScopeDefs → Except Str (List (Str × Node))
  | [], _, _ => .ok []
  | (name, default) :: params, positional, defs => do
    let value ← valueFor inlineFunctions inlineIn defs (argumentFor named name positional).1 default
    let others ← expected named params (argumentFor named name positional).2
      (defs.addDef name value)
    return (name, value) :: others

/-- Definitions are added to a scope. -/
def extend (defs : ScopeDefs) (bindings : List (Str × Node)) : ScopeDefs :=
  bindings.foldl (fun defs binding => defs.addDef binding.1 binding.2) defs

end Binding

/-- A call with some number of positional arguments and named arguments of some names binds the
arguments as it should: the order of the named arguments does not matter, and if the call succeeds,
then each parameter has a binding of its own, to what it should be bound to. -/
def BindsArguments (params : FuncParams) (count : Nat) (names : List Str) : Prop :=
  ∀ (inlineFunctions : Node → Except Str Node) (inlineIn : ScopeDefs → Node → Except Str Node)
    (positional : List Node) (named : List (Str × Node)),
    positional.length = count → named.map fst = names →
    (∀ order, order.Perm named → ∀ scope,
      functionScope inlineFunctions inlineIn params (arguments positional order) = .ok scope ↔
        functionScope inlineFunctions inlineIn params (arguments positional named) = .ok scope) ∧
    ∀ scope,
      functionScope inlineFunctions inlineIn params (arguments positional named) = .ok scope →
      ∃ bindings,
        expected inlineFunctions inlineIn named params positional (fun _ => none) = .ok bindings ∧
        (bindings.map fst).Nodup ∧ ∀ binding ∈ bindings, scope binding.1 = some binding.2

/-- A call with some number of arguments is rejected. -/
def Rejected (params : FuncParams) (count : Nat) : Prop :=
  count < numMandatory params ∨ ∃ param ∈ params.drop count, param.2 = none

/-- The parameters have different names, and either all of them take positional arguments and none
is named as well, or the named arguments are those of the parameters after the positional ones. -/
def WellMatched (params : FuncParams) (count : Nat) (names : List Str) : Prop :=
  (params.map fst).Nodup ∧
    (params.length ≤ count ∧ (∀ name ∈ names, name ∉ params.map fst) ∨
      count + names.length ≤ params.length ∧
        names.Perm (((params.map fst).drop count).take names.length))

section Properties

variable {inlineFunctions : Node → Except Str Node}
  {inlineIn : ScopeDefs → Node → Except Str Node} {named : List (Str × Node)}
  {params : FuncParams} {positional : List Node} {args : Params} {defs scope : ScopeDefs}
  {bindings : List (Str × Node)}

/-! ## Scopes -/

theorem bind_eq_ok {Value Result : Type} {first : Except Str Value}
    {next : Value → Except Str Result} {result : Result} :
    first >>= next = .ok result ↔ ∃ value, first = .ok value ∧ next value = .ok result := by
  cases first with
  | error text => exact ⟨(by cases ·), fun ⟨_, failed, _⟩ => (by cases failed)⟩
  | ok value => exact ⟨fun ok => ⟨value, rfl, ok⟩, fun ⟨_, same, ok⟩ => (by cases same; exact ok)⟩

variable {name : Str}

theorem extend_other (fresh : name ∉ bindings.map fst) : extend defs bindings name = defs name := by
  induction bindings generalizing defs with
  | nil => rfl
  | cons binding rest step =>
    rw [map_cons, mem_cons, not_or] at fresh
    exact (step fresh.2).trans (update_of_ne fresh.1 _ _)

theorem extend_of_mem (distinct : (bindings.map fst).Nodup) {binding : Str × Node}
    (member : binding ∈ bindings) : extend defs bindings binding.1 = some binding.2 := by
  induction bindings generalizing defs with
  | nil => cases member
  | cons first rest step =>
    have others := nodup_cons.mp distinct
    cases mem_cons.mp member with
    | inl same =>
      subst same
      exact (extend_other others.1).trans (update_self _ _ _)
    | inr later => exact step others.2 later

theorem expected_names
    (success : expected inlineFunctions inlineIn named params positional defs = .ok bindings) :
    bindings.map fst = params.map fst := by
  induction params generalizing positional defs bindings with
  | nil =>
    cases success
    rfl
  | cons param rest step =>
    simp only [expected, bind_eq_ok] at success
    obtain ⟨value, -, others, isOthers, success⟩ := success
    cases success
    rw [map_cons, map_cons, step isOthers]

theorem expected_inlines
    (success : expected inlineFunctions inlineIn named params positional defs = .ok bindings)
    {param : Str × Option Node} (member : param ∈ params) {arg : Str × Node}
    (given : named.find? (·.1 = param.1) = some arg) : ∃ value, inlineFunctions arg.2 = .ok value := by
  induction params generalizing positional defs bindings with
  | nil => cases member
  | cons first rest step =>
    simp only [expected, bind_eq_ok] at success
    obtain ⟨value, isValue, others, isOthers, -⟩ := success
    cases mem_cons.mp member with
    | inl same =>
      subst same
      simp only [argumentFor, given, valueFor] at isValue
      exact ⟨value, isValue⟩
    | inr later => exact step isOthers later

/-! ## Arguments in the order of the parameters -/

/-- Every argument is the one for the parameter at its position. -/
inductive Aligned (named : List (Str × Node)) : FuncParams → List Node → Params → Prop
  | done (positional : List Node) (args : Params) : Aligned named [] positional args
  | arg {name : Str} {default : Option Node} {params : FuncParams} {positional rest : List Node}
      {cname : Option Str} {cexpr : Node} {args : Params} (isName : cname.getD name = name)
      (isArg : argumentFor named name positional = (some cexpr, rest))
      (others : Aligned named params rest args) :
      Aligned named ((name, default) :: params) positional ((cname, cexpr) :: args)
  | default {name : Str} {default : Option Node} {params : FuncParams}
      {positional rest : List Node} (noArg : argumentFor named name positional = (none, rest))
      (others : Aligned named params rest []) :
      Aligned named ((name, default) :: params) positional []

theorem bound_iff {head : Except Str Node} {next : ScopeDefs → Except Str ScopeDefs}
    {others : ScopeDefs → Except Str (List (Str × Node))} (step : ∀ {defs}, next defs = .ok scope ↔
      ∃ bindings, others defs = .ok bindings ∧ scope = extend defs bindings) :
    (do let value ← head; next (defs.addDef name value)) = .ok scope ↔ ∃ bindings, (do
        let value ← head let rest ← others (defs.addDef name value)
        return (name, value) :: rest) = .ok bindings ∧ scope = extend defs bindings := by
  simp only [bind_eq_ok]
  constructor
  · rintro ⟨value, isValue, ok⟩
    obtain ⟨bindings, isBindings, same⟩ := step.mp ok
    exact ⟨_, ⟨value, isValue, bindings, isBindings, rfl⟩, same⟩
  · rintro ⟨_, ⟨value, isValue, bindings, isBindings, same⟩, isScope⟩
    cases same
    exact ⟨value, isValue, step.mpr ⟨bindings, isBindings, isScope⟩⟩

theorem Aligned.addArguments_iff (aligned : Aligned named params positional args) :
    addArguments inlineFunctions inlineIn params args defs = .ok scope ↔
      ∃ bindings, expected inlineFunctions inlineIn named params positional defs = .ok bindings ∧
        scope = extend defs bindings := by
  induction aligned generalizing defs with
  | done positional args =>
    constructor
    · intro ok
      cases ok
      exact ⟨[], rfl, rfl⟩
    · rintro ⟨bindings, ok, rfl⟩
      cases ok
      rfl
  | arg isName isArg others step =>
    simp only [addArguments, expected, isArg, isName, valueFor]
    exact bound_iff step
  | @default name default params positional rest noArg others step =>
    simp only [expected, noArg]
    cases default with
    | none => exact ⟨(by cases ·), fun ⟨_, failed, _⟩ => (by cases failed)⟩
    | some default => exact bound_iff step

theorem argumentFor_of_fresh (fresh : name ∉ named.map fst) :
    argumentFor named name positional = (positional.head?, positional.tail) := by
  have missing : named.find? (·.1 = name) = none :=
    List.find?_eq_none.mpr fun arg member same =>
      fresh (of_decide_eq_true same ▸ mem_map_of_mem member)
  unfold argumentFor
  rw [missing]

theorem aligned_positional
    (fresh : ∀ param ∈ params.take positional.length, param.1 ∉ named.map fst)
    (others : Aligned named (params.drop positional.length) [] args) :
    Aligned named params positional (positional.map (none, ·) ++ args) := by
  induction positional generalizing params with
  | nil => exact others
  | cons node rest step =>
    cases params with
    | nil => exact .done _ _
    | cons param params =>
      exact .arg rfl (argumentFor_of_fresh (fresh param mem_cons_self))
        (step (forall_mem_cons.mp fresh).2 others)

theorem aligned_default (fresh : ∀ param ∈ params, param.1 ∉ named.map fst) :
    Aligned named params [] [] := by
  induction params with
  | nil => exact .done [] []
  | cons param rest step =>
    exact .default (argumentFor_of_fresh (fresh param mem_cons_self))
      (step (forall_mem_cons.mp fresh).2)

theorem aligned_named (distinct : (named.map fst).Nodup) {given : List (Str × Node)}
    (isPart : ∀ arg ∈ given, arg ∈ named)
    (names : given.map fst = (params.map fst).take given.length)
    (fresh : ∀ param ∈ params.drop given.length, param.1 ∉ named.map fst) :
    Aligned named params [] (given.map fun arg => (some arg.1, arg.2)) := by
  induction given generalizing params with
  | nil => exact aligned_default fresh
  | cons arg rest step =>
    cases params with
    | nil => cases names
    | cons param params =>
      obtain ⟨same, others⟩ := cons.inj names
      have isArg : argumentFor named param.1 [] = (some arg.2, []) := by
        unfold argumentFor
        rw [← same, Loops.find?_of_nodup distinct (isPart arg mem_cons_self)]
      exact .arg same isArg (step (forall_mem_cons.mp isPart).2
        others fresh)

/-! ## The walk over the arguments -/

theorem functionScope_iff : functionScope inlineFunctions inlineIn params args = .ok scope ↔
    numMandatory params ≤ args.length ∧
      addArguments inlineFunctions inlineIn params args (fun _ => none) = .ok scope := by
  unfold functionScope inlineCall
  cases params with
  | nil => exact ⟨fun ok => ⟨Nat.zero_le _, ok⟩, fun ok => ok.2⟩
  | cons param rest =>
    rw [if_neg (by simp)]
    by_cases few : args.length < numMandatory (param :: rest)
    · rw [if_pos few]
      exact ⟨(by cases ·), fun ok => absurd ok.1 (by omega)⟩
    · rw [if_neg few]
      cases addArguments inlineFunctions inlineIn (param :: rest) args fun _ => none with
      | error text => exact ⟨(by cases ·), fun ok => by cases ok.2⟩
      | ok found => exact ⟨fun ok => ⟨by omega, ok⟩, fun ok => ok.2⟩

theorem addArguments_append (enough : params.length ≤ args.length) (others : Params) :
    addArguments inlineFunctions inlineIn params (args ++ others) defs =
      addArguments inlineFunctions inlineIn params args defs := by
  induction params generalizing args defs with
  | nil => rfl
  | cons param rest step =>
    cases args with
    | nil => cases enough
    | cons arg args =>
      have later := Nat.le_of_succ_le_succ enough
      simp only [cons_append, addArguments, step later]

theorem addArguments_perm {order order' : List (Str × Node)} (perm : order.Perm order')
    (distinct : (order.map fst).Nodup) (few : order.length ≤ params.length) :
    addArguments inlineFunctions inlineIn params (order.map fun arg => (some arg.1, arg.2)) defs =
        .ok scope ↔
      addArguments inlineFunctions inlineIn params (order'.map fun arg => (some arg.1, arg.2)) defs =
        .ok scope := by
  induction perm generalizing params defs with
  | nil => rfl
  | cons arg _ step =>
    cases params with
    | nil => cases few
    | cons param rest =>
      have others := (nodup_cons.mp distinct).2
      simp only [map_cons, addArguments, bind_eq_ok, step others (Nat.le_of_succ_le_succ few)]
  | swap first second rest =>
    have different : second.1 ≠ first.1 := by
      simp only [map_cons, nodup_cons, mem_cons, not_or] at distinct
      exact distinct.1.1
    rcases params with _ | ⟨param, _ | ⟨param', params⟩⟩
    · cases few
    · cases Nat.le_of_succ_le_succ few
    · simp only [map_cons, addArguments, bind_eq_ok, getD_some, ScopeDefs.addDef]
      constructor
      · rintro ⟨value, isValue, value', isValue', ok⟩
        rw [Function.update_comm different] at ok
        exact ⟨value', isValue', value, isValue, ok⟩
      · rintro ⟨value, isValue, value', isValue', ok⟩
        rw [Function.update_comm different.symm] at ok
        exact ⟨value', isValue', value, isValue, ok⟩
  | trans perm _ step step' =>
    exact (step distinct few).trans
      (step' ((perm.map fst).nodup_iff.mp distinct) (perm.length_eq ▸ few))

theorem addArguments_after {others others' : Params}
    (same : ∀ (params' : FuncParams) (defs : ScopeDefs), params.length ≤ params'.length + positional.length →
      (addArguments inlineFunctions inlineIn params' others defs = .ok scope ↔
        addArguments inlineFunctions inlineIn params' others' defs = .ok scope)) :
    addArguments inlineFunctions inlineIn params (positional.map (none, ·) ++ others) defs =
        .ok scope ↔
      addArguments inlineFunctions inlineIn params (positional.map (none, ·) ++ others') defs =
        .ok scope := by
  induction positional generalizing params defs with
  | nil => exact same params defs le_rfl
  | cons node rest step =>
    cases params with
    | nil => rfl
    | cons param params =>
      have later : ∀ defs, _ := fun defs => @step params defs fun params' defs long =>
        same params' defs (Nat.succ_le_succ long)
      simp only [map_cons, cons_append, addArguments, bind_eq_ok, later]

/-- The names that the walk defines. -/
def written : FuncParams → Params → List Str
  | [], _ => []
  | param :: params, arg :: args => arg.1.getD param.1 :: written params args
  | param :: params, [] => param.1 :: written params []

theorem of_addArguments (ok : addArguments inlineFunctions inlineIn params args defs = .ok scope) :
    (∀ arg ∈ args.take params.length, ∃ value, inlineFunctions arg.2 = .ok value) ∧
    (∀ param ∈ params.drop args.length, param.2 ≠ none) ∧
    ∀ name, scope name ≠ none → defs name ≠ none ∨ name ∈ written params args := by
  have added : ∀ {name written : Str} {value : Node} {defs : ScopeDefs},
      defs.addDef written value name ≠ none → defs name ≠ none ∨ name = written := by
    intro name written value defs bound
    by_cases same : name = written
    · exact .inr same
    · exact .inl (by rwa [ScopeDefs.addDef, update_of_ne same] at bound)
  induction params generalizing args defs with
  | nil =>
    cases ok
    exact ⟨fun _ none => by simp at none, fun _ none => by simp at none, fun _ => .inl⟩
  | cons param rest step =>
    cases args with
    | nil =>
      obtain ⟨name, default⟩ := param
      cases default with
      | none => cases ok
      | some default =>
        simp only [addArguments, bind_eq_ok] at ok
        obtain ⟨value, -, ok⟩ := ok
        obtain ⟨-, defaults, names⟩ := step ok
        refine ⟨fun _ none => by simp at none, fun other member => ?_, fun other bound => ?_⟩
        · cases mem_cons.mp member with
          | inl same => exact same ▸ Option.some_ne_none default
          | inr later => exact defaults other later
        · cases names other bound with
          | inl before =>
            cases added before with
            | inl old => exact .inl old
            | inr same => exact .inr (same ▸ mem_cons_self)
          | inr later => exact .inr (mem_cons_of_mem _ later)
    | cons arg args =>
      simp only [addArguments, bind_eq_ok] at ok
      obtain ⟨value, isValue, ok⟩ := ok
      obtain ⟨values, defaults, names⟩ := step ok
      refine ⟨fun other member => ?_, defaults, fun other bound => ?_⟩
      · cases mem_cons.mp member with
        | inl same => exact ⟨value, same ▸ isValue⟩
        | inr later => exact values other later
      · cases names other bound with
        | inl before =>
          cases added before with
          | inl old => exact .inl old
          | inr same => exact .inr (same ▸ mem_cons_self)
        | inr later => exact .inr (mem_cons_of_mem _ later)

theorem addArguments_total
    (values : ∀ arg ∈ args.take params.length, ∃ value, inlineFunctions arg.2 = .ok value)
    (defaults : ∀ param ∈ params.drop args.length, param.2 ≠ none) :
    ∃ scope, addArguments inlineFunctions (fun _ => .ok) params args defs = .ok scope := by
  induction params generalizing args defs with
  | nil => exact ⟨defs, rfl⟩
  | cons param rest step =>
    cases args with
    | nil =>
      obtain ⟨name, default⟩ := param
      cases default with
      | none => exact absurd rfl (defaults _ mem_cons_self)
      | some default =>
        exact step (fun _ none => by simp at none)
          (forall_mem_cons.mp defaults).2
    | cons arg args =>
      obtain ⟨value, isValue⟩ := values arg mem_cons_self
      obtain ⟨scope, ok⟩ := @step args (defs.addDef (arg.1.getD param.1) value)
        (forall_mem_cons.mp values).2 defaults
      exact ⟨scope, bind_eq_ok.mpr ⟨value, isValue, ok⟩⟩

/-! ## Calls that bind their arguments -/

theorem bindsArguments_of_rejected {count : Nat} {names : List Str}
    (rejected : Rejected params (count + names.length)) : BindsArguments params count names := by
  intro inlineFunctions inlineIn positional named isCount isNames
  have fails : ∀ order : List (Str × Node), order.length = named.length → ∀ scope,
      functionScope inlineFunctions inlineIn params (arguments positional order) ≠ .ok scope := by
    intro order long scope ok
    obtain ⟨enough, ok⟩ := functionScope_iff.mp ok
    have length : (arguments positional order).length = count + names.length := by
      rw [arguments_length, isCount, long, ← isNames, length_map]
    rw [length] at enough
    have defaults := (of_addArguments ok).2.1
    rw [length] at defaults
    cases rejected with
    | inl few => omega
    | inr missing =>
      obtain ⟨param, member, none⟩ := missing
      exact defaults param member none
  exact ⟨fun order perm scope => iff_of_false (fails order perm.length_eq scope)
    (fails named rfl scope), fun scope ok => absurd ok (fails named rfl scope)⟩

theorem bindsArguments_of_aligned {count : Nat} {names : List Str}
    (distinct : (params.map fst).Nodup)
    (aligns : ∀ (positional : List Node) (named : List (Str × Node)), positional.length = count →
      named.map fst = names → ∃ args, args.length = count + names.length ∧
        Aligned named params positional args ∧
        ∀ inlineFunctions inlineIn order, order.Perm named → ∀ scope,
          addArguments inlineFunctions inlineIn params (arguments positional order)
              (fun _ => none) = .ok scope ↔
            addArguments inlineFunctions inlineIn params args (fun _ => none) = .ok scope) :
    BindsArguments params count names := by
  intro inlineFunctions inlineIn positional named isCount isNames
  obtain ⟨args, long, aligned, same⟩ := aligns positional named isCount isNames
  have isScope : ∀ order, order.Perm named → ∀ scope,
      (functionScope inlineFunctions inlineIn params (arguments positional order) = .ok scope ↔
        numMandatory params ≤ count + names.length ∧
          addArguments inlineFunctions inlineIn params args (fun _ => none) = .ok scope) := by
    intro order perm scope
    have length : (arguments positional order).length = count + names.length := by
      rw [arguments_length, isCount, perm.length_eq, ← isNames, length_map]
    rw [functionScope_iff, same _ _ _ perm, length]
  refine ⟨fun order perm scope => (isScope order perm scope).trans
    (isScope named (.refl _) scope).symm, fun scope ok => ?_⟩
  obtain ⟨bindings, isBindings, rfl⟩ :=
    aligned.addArguments_iff.mp ((isScope named (.refl _) scope).mp ok).2
  have distinct' : (bindings.map fst).Nodup := expected_names isBindings ▸ distinct
  exact ⟨bindings, isBindings, distinct', fun binding member => extend_of_mem distinct' member⟩

theorem bindsArguments_of_wellMatched {count : Nat} {names : List Str}
    (matched : WellMatched params count names) : BindsArguments params count names := by
  obtain ⟨distinct, cases⟩ := matched
  refine bindsArguments_of_aligned distinct fun positional named isCount isNames => ?_
  subst isCount isNames
  cases cases with
  | inl all =>
    obtain ⟨enough, fresh⟩ := all
    have long : params.length ≤ (positional.map fun node => ((none : Option Str), node)).length := by
      rw [length_map]
      exact enough
    refine ⟨arguments positional named, by simp, aligned_positional ?_ ?_, ?_⟩
    · exact fun param member isNamed =>
        fresh _ isNamed (mem_map_of_mem (List.mem_of_mem_take member))
    · rw [List.drop_eq_nil_of_le enough]
      exact .done _ _
    · intro inlineFunctions inlineIn order _ scope
      unfold arguments
      rw [addArguments_append long, addArguments_append long]
  | inr some =>
    obtain ⟨few, perm⟩ := some
    have aligned : List.Forall₂ (fun name (arg : Str × Node) => name = arg.1)
        (named.map fst) named :=
      List.forall₂_map_left_iff.mpr (List.forall₂_same.mpr fun _ _ => rfl)
    obtain ⟨given, isGiven, others⟩ := List.perm_comp_forall₂ perm.symm aligned
    have names : ((params.map fst).drop positional.length).take (named.map fst).length =
        given.map fst := by
      rw [← List.forall₂_map_right_iff, List.forall₂_eq_eq_eq] at isGiven
      exact isGiven
    have distinct' : (named.map fst).Nodup :=
      perm.nodup_iff.mpr ((distinct.sublist (List.drop_sublist _ _)).sublist (List.take_sublist _ _))
    have long : (named.map fst).length = given.length := by
      rw [length_map, others.length_eq]
    rw [long] at names few perm
    refine ⟨arguments positional given, by rw [arguments_length, long], aligned_positional ?_
      (aligned_named distinct' (fun arg member => others.subset member) ?_ ?_), ?_⟩
    · intro param member isNamed
      exact List.disjoint_take_drop distinct le_rfl
        (List.map_take ▸ mem_map_of_mem member)
        (List.mem_of_mem_take (perm.subset isNamed))
    · rw [List.map_drop]
      exact names.symm
    · intro param member isNamed
      have isLater : param.1 ∈ ((params.map fst).drop positional.length).drop given.length := by
        rw [← List.map_drop, ← List.map_drop]
        exact mem_map_of_mem member
      exact List.disjoint_take_drop (distinct.sublist (List.drop_sublist _ _)) le_rfl
        (perm.subset isNamed) isLater
    · intro inlineFunctions inlineIn order isOrder scope
      refine addArguments_after fun params' defs enough => addArguments_perm
        (isOrder.trans others.symm) ((isOrder.map fst).nodup_iff.mpr distinct') ?_
      rw [isOrder.length_eq, ← others.length_eq]
      omega

/-! ## Calls that do not -/

theorem written_length : (written params args).length = params.length := by
  induction params generalizing args with
  | nil => rfl
  | cons param rest step => cases args <;> exact congrArg (· + 1) step

theorem written_arguments (few : positional.length + named.length ≤ params.length) :
    written params (arguments positional named) = (params.map fst).take positional.length ++
      (named.map fst ++ (params.map fst).drop (positional.length + named.length)) := by
  have defaults : ∀ params, written params [] = params.map fst := by
    intro params
    induction params with
    | nil => rfl
    | cons param rest step => exact congrArg (param.1 :: ·) step
  induction positional generalizing params with
  | nil =>
    rw [length_nil, Nat.zero_add] at few ⊢
    change written params (named.map fun arg => (some arg.1, arg.2)) = named.map fst ++ _
    induction named generalizing params with
    | nil => exact defaults params
    | cons arg rest step =>
      cases params with
      | nil => cases few
      | cons param params => exact congrArg (arg.1 :: ·) (step (Nat.le_of_succ_le_succ few))
  | cons node rest step =>
    cases params with
    | nil => simp at few
    | cons param params =>
      have later := @step params (by simp only [length_cons] at few; omega)
      rw [length_cons, Nat.add_right_comm]
      exact congrArg (param.1 :: ·) later

/-- Expressions that can be inlined unless they are truth values. -/
def inlineUnlessBool : Node → Except Str Node
  | .bool _ => .error []
  | node => .ok node

theorem map_fst_pair (names : List Str) (node : Node) : (names.map (·, node)).map fst = names := by
  rw [map_map]
  exact List.map_id _

section Necessity

variable {count : Nat} {names : List Str}

theorem null_of_mem {arg : Option Str × Node}
    (member : arg ∈ arguments (.replicate count .null) (names.map (·, null))) : arg.2 = .null := by
  simp only [arguments, mem_append, mem_map, List.mem_replicate] at member
  rcases member with ⟨_, ⟨-, rfl⟩, rfl⟩ | ⟨_, ⟨_, -, rfl⟩, rfl⟩ <;> rfl

variable (accepted : ¬ Rejected params (count + names.length))

include accepted in
theorem functionScope_total (long : named.length = names.length)
    (nulls : ∀ arg ∈ (arguments (.replicate count .null) named).take params.length, arg.2 = .null) :
    ∃ scope, functionScope inlineUnlessBool (fun _ => .ok) params
      (arguments (.replicate count .null) named) = .ok scope := by
  have length : (arguments (.replicate count .null) named).length = count + names.length := by
    rw [arguments_length, length_replicate, long]
  have enough : numMandatory params ≤ count + names.length := by
    by_contra few
    exact accepted (.inl (by omega))
  have defaults : ∀ param ∈ params.drop (count + names.length), param.2 ≠ none :=
    fun param member none => accepted (.inr ⟨param, member, none⟩)
  obtain ⟨scope, ok⟩ := @addArguments_total inlineUnlessBool params _ (fun _ => none)
    (fun arg member => ⟨.null, by rw [nulls arg member]; rfl⟩) (length ▸ defaults)
  exact ⟨scope, functionScope_iff.mpr ⟨length ▸ enough, ok⟩⟩

variable (binds : BindsArguments params count names)

include accepted binds

theorem perm_written_of_binds : (params.map fst).Nodup ∧ (params.map fst).Perm
    (written params (arguments (.replicate count .null) (names.map (·, null)))) := by
  obtain ⟨scope, ok⟩ := functionScope_total accepted (length_map _) fun arg member =>
    null_of_mem (List.mem_of_mem_take member)
  obtain ⟨bindings, isBindings, distinct, bound⟩ :=
    (binds _ _ _ _ length_replicate (map_fst_pair names _)).2 scope ok
  rw [expected_names isBindings] at distinct
  refine ⟨distinct, (List.subperm_of_subset distinct fun name member => ?_).perm_of_length_le
    (by rw [written_length, length_map])⟩
  rw [← expected_names isBindings] at member
  obtain ⟨binding, isBinding, rfl⟩ := mem_map.mp member
  have isBound : scope binding.1 ≠ none := bound binding isBinding ▸ Option.some_ne_none _
  exact ((of_addArguments (functionScope_iff.mp ok).2).2.2 _ isBound).resolve_left (· rfl)

theorem unnamed_of_binds (enough : params.length ≤ count) :
    ∀ name ∈ names, name ∉ params.map fst := by
  intro name isNamed isParam
  obtain ⟨scope, ok⟩ := functionScope_total accepted
    (length_map fun name => (name, bool true)) (by
      intro arg member
      rw [arguments, List.take_append_of_le_length (by simpa using enough)] at member
      exact @null_of_mem count [] arg (mem_append_left _ (List.mem_of_mem_take member)))
  obtain ⟨bindings, isBindings, -⟩ :=
    (binds _ _ _ _ length_replicate (map_fst_pair names _)).2 scope ok
  obtain ⟨param, member, rfl⟩ := mem_map.mp isParam
  cases found : (names.map (·, bool true)).find? (·.1 = param.1) with
  | none =>
    have absent := List.find?_eq_none.mp found _ (mem_map_of_mem isNamed)
    exact absent (decide_eq_true rfl)
  | some arg =>
    obtain ⟨value, isValue⟩ := expected_inlines isBindings member found
    obtain ⟨_, -, rfl⟩ := mem_map.mp (List.mem_of_find?_eq_some found)
    cases isValue

theorem few_of_binds (needed : count < params.length) : count + names.length ≤ params.length := by
  by_contra many
  cases names with
  | nil => simp only [length_nil] at many; omega
  | cons first rest =>
    rw [length_cons] at many
    have isAppend : arguments (.replicate count .null)
        (rest.map (·, null) ++ [(first, bool true)]) =
          arguments (.replicate count .null) (rest.map (·, null)) ++
            [(some first, .bool true)] := by
      simp only [arguments, map_append, append_assoc, map_cons, map_nil]
    obtain ⟨scope, ok⟩ := @functionScope_total (rest.map (·, null) ++ [(first, .bool true)])
      params count (first :: rest) accepted (by simp) (by
      intro arg member
      rw [isAppend, List.take_append_of_le_length (by rw [arguments_length]; simp; omega)] at member
      exact null_of_mem (List.mem_of_mem_take member))
    have names : ((first, bool true) :: rest.map (·, null)).map fst = first :: rest :=
      congrArg _ (map_fst_pair rest _)
    have ok' := ((binds _ _ _ _ length_replicate names).1 _
      (List.perm_append_singleton _ _) scope).mp ok
    have isReached : (some first, bool true) ∈ (arguments (.replicate count .null)
        ((first, bool true) :: rest.map (·, null))).take params.length := by
      rw [arguments, map_cons, List.append_cons, List.take_append,
        List.take_of_length_le (by simp; omega)]
      exact mem_append_left _ (mem_append_right _ mem_cons_self)
    obtain ⟨value, isValue⟩ := (of_addArguments (functionScope_iff.mp ok').2).1 _ isReached
    cases isValue

theorem wellMatched_of_binds : WellMatched params count names := by
  obtain ⟨distinct, perm⟩ := perm_written_of_binds accepted binds
  refine ⟨distinct, ?_⟩
  by_cases enough : params.length ≤ count
  · exact .inl ⟨enough, unnamed_of_binds accepted binds enough⟩
  · have few := few_of_binds accepted binds (by omega)
    refine .inr ⟨few, ?_⟩
    rw [written_arguments (by simpa using few), map_fst_pair, length_replicate, length_map] at perm
    have split : (params.map fst).take count ++
        (((params.map fst).drop count).take names.length ++
          (params.map fst).drop (count + names.length)) = params.map fst := by
      rw [← List.drop_drop, List.take_append_drop, List.take_append_drop]
    have later := (List.perm_append_left_iff _).mp ((List.Perm.of_eq split).trans perm)
    exact ((List.perm_append_right_iff _).mp later).symm

end Necessity

end Properties

/-- A call binds its arguments as it should if and only if it is rejected, or its named arguments are
those of the parameters that follow the positional ones. -/
theorem bindsArguments_iff (params : FuncParams) (count : Nat) (names : List Str) :
    BindsArguments params count names ↔
      Rejected params (count + names.length) ∨ WellMatched params count names := by
  constructor
  · intro binds
    by_cases rejected : Rejected params (count + names.length)
    · exact .inl rejected
    · exact .inr (wellMatched_of_binds rejected binds)
  · rintro (rejected | matched)
    · exact bindsArguments_of_rejected rejected
    · exact bindsArguments_of_wellMatched matched

theorem named_misbound : ¬ ∀ params count names, BindsArguments params count names := by
  intro binds
  obtain ⟨bindings, isBindings, -⟩ := (binds [(lit "a", none), (lit "b", some .null)] 0 [lit "b"]
    .ok (fun _ => .ok) [] [(lit "b", .null)] rfl rfl).2 _ rfl
  cases isBindings

end Jst.Verif.ArgumentBinding
