import Mathlib.Data.Nat.Init
/-!
# Consumers of a stream

A consumer reads symbols from the front of a list and returns a result or an error. Two kinds of
facts about consumers are put together along their binds: that a consumer reads enough of a stream
of a given length without a certain error, and that two consumers read the same until one of them
stops.
-/
namespace Jst

/-- A computation that consumes a list of symbols. -/
abbrev Consumer (Symbol Error Result : Type) := StateT (List Symbol) (Except Error) Result

namespace Consumer

variable {Symbol Error Result Other Left Right : Type}

/-! ## Runs -/

variable {first : Consumer Symbol Error Result}

theorem bind_ok {next : Result → Consumer Symbol Error Other}
    {symbols rest : List Symbol} {result : Result} (done : first symbols = .ok (result, rest)) :
    (first >>= next) symbols = next result rest := by
  show (first symbols >>= fun pair => next pair.1 pair.2) = _
  rw [done]
  rfl

theorem bind_error
    {next : Result → Consumer Symbol Error Other} {symbols : List Symbol} {error : Error}
    (failed : first symbols = .error error) : (first >>= next) symbols = .error error := by
  show (first symbols >>= fun pair => next pair.1 pair.2) = _
  rw [failed]
  rfl

/-! ## Runs that depend on a value -/

/-- A run that goes on with what is found, and fails if nothing is. -/
def Follows (found : Option Result) (next : Result → Except Error Other) (run : Except Error Other) :
    Prop :=
  match found with
  | some result => run = next result
  | none => ∃ error, run = .error error

namespace Follows

variable {next : Result → Except Error Other} {found : Option Result} {run : Except Error Other}

theorem bind {first : Consumer Symbol Error Result} {next : Result → Consumer Symbol Error Other}
    {symbols rest : List Symbol}
    (head : Follows found (fun result => .ok (result, rest)) (first symbols)) :
    Follows found (fun result => next result rest) ((first >>= next) symbols) := by
  cases found with
  | some result => exact bind_ok head
  | none =>
    obtain ⟨error, failed⟩ := head
    exact ⟨error, bind_error failed⟩

theorem trans {Value : Type} {step : Result → Option Value} {after : Value → Except Error Other}
    (head : Follows found next run)
    (tail : ∀ result, found = some result → Follows (step result) after (next result)) :
    Follows (found.bind step) after run := by
  cases found with
  | some result =>
    rw [show run = next result from head]
    exact tail result rfl
  | none => exact head

theorem map {Value : Type} {step : Result → Value} {after : Value → Except Error Other}
    (head : Follows found next run)
    (same : ∀ result, found = some result → next result = after (step result)) :
    Follows (found.map step) after run := by
  cases found with
  | some result => exact (show run = next result from head).trans (same result rfl)
  | none => exact head

theorem congr {next' : Result → Except Error Other} (head : Follows found next run)
    (same : ∀ result, next result = next' result) : Follows found next' run := by
  rwa [← funext same]

theorem fails (head : Follows found next run)
    (tail : ∀ result, found = some result → ∃ error, next result = .error error) :
    ∃ error, run = .error error := by
  cases found with
  | some result =>
    obtain ⟨error, failed⟩ := tail result rfl
    exact ⟨error, (show run = next result from head).trans failed⟩
  | none => exact head

theorem error {error : Error} : Follows none next (.error error) := ⟨error, rfl⟩

end Follows

/-! ## Bounds -/

/-- On at most `available` symbols the consumer does not fail with a certain error, and where it
returns a result it leaves at most as many symbols as `left` says for the result. -/
def Bounded (excluded : Error) (available : Nat) (left : Result → Nat)
    (consumer : Consumer Symbol Error Result) : Prop :=
  ∀ symbols, symbols.length ≤ available →
    consumer symbols ≠ .error excluded ∧
      ∀ result rest, consumer symbols = .ok (result, rest) → rest.length ≤ left result

namespace Bounded

variable {excluded : Error} {available : Nat} {middle left : Result → Nat} {last : Other → Nat}

theorem pure (result : Result) (enough : available ≤ left result) :
    Bounded excluded available left (pure result : Consumer Symbol Error Result) := by
  intro symbols bound
  constructor
  · intro same
    cases same
  · intro other rest same
    cases same
    exact Nat.le_trans bound enough

theorem throw {error : Error} (differs : error ≠ excluded) :
    Bounded excluded available left (throw error : Consumer Symbol Error Result) := by
  intro symbols _
  constructor
  · intro same
    exact differs (Except.error.inj same)
  · intro other rest same
    cases same

theorem bind {first : Consumer Symbol Error Result} {next : Result → Consumer Symbol Error Other}
    (head : Bounded excluded available middle first)
    (tail : ∀ result, Bounded excluded (middle result) last (next result)) :
    Bounded excluded available last (first >>= next) := by
  intro symbols bound
  obtain ⟨noError, fewer⟩ := head symbols bound
  cases ran : first symbols with
  | error error =>
    rw [bind_error ran]
    constructor
    · intro same
      rw [ran] at noError
      exact noError (congrArg Except.error (Except.error.inj same))
    · intro result rest same
      cases same
  | ok pair =>
    rw [bind_ok ran]
    exact tail pair.1 pair.2 (fewer pair.1 pair.2 ran)

theorem mono {more : Result → Nat} {consumer : Consumer Symbol Error Result}
    (holds : Bounded excluded available left consumer) (enough : ∀ result, left result ≤ more result) :
    Bounded excluded available more consumer := by
  intro symbols bound
  obtain ⟨noError, leaves⟩ := holds symbols bound
  exact ⟨noError, fun result rest same => Nat.le_trans (leaves result rest same) (enough result)⟩

end Bounded

/-! ## Related consumers -/

/-- Two consumers read the same symbols and return related results, or one of them stops. What
`Stop` says of a side is an error that this side has, and nothing about it otherwise. -/
def Related (Stop : Option Error → Option Error → Prop) (Value : Left → Right → Prop)
    (left : Consumer Symbol Error Left) (right : Consumer Symbol Error Right) : Prop :=
  ∀ symbols,
    (∃ first second rest, left symbols = .ok (first, rest) ∧ right symbols = .ok (second, rest) ∧
      Value first second) ∨
    ∃ first second, Stop first second ∧ (∀ error, first = some error → left symbols = .error error) ∧
      ∀ error, second = some error → right symbols = .error error

namespace Related

variable {Stop : Option Error → Option Error → Prop} {Value : Left → Right → Prop}
  {NextLeft NextRight : Type} {Next : NextLeft → NextRight → Prop}

theorem pure {first : Left} {second : Right} (related : Value first second) :
    Related Stop Value (pure first : Consumer Symbol Error Left)
      (pure second : Consumer Symbol Error Right) :=
  fun symbols => .inl ⟨first, second, symbols, rfl, rfl, related⟩

theorem refl {consumer : Consumer Symbol Error Result}
    (stops : ∀ symbols error, consumer symbols = .error error → Stop (some error) (some error)) :
    Related Stop Eq consumer consumer := by
  intro symbols
  cases ran : consumer symbols with
  | error error =>
    exact .inr ⟨some error, some error, stops symbols error ran,
      fun _ same => congrArg Except.error (Option.some.inj same),
      fun _ same => congrArg Except.error (Option.some.inj same)⟩
  | ok pair => exact .inl ⟨pair.1, pair.1, pair.2, rfl, rfl, rfl⟩

theorem bind {left : Consumer Symbol Error Left} {right : Consumer Symbol Error Right}
    {nextLeft : Left → Consumer Symbol Error NextLeft}
    {nextRight : Right → Consumer Symbol Error NextRight} (head : Related Stop Value left right)
    (tail : ∀ first second, Value first second →
      Related Stop Next (nextLeft first) (nextRight second)) :
    Related Stop Next (left >>= nextLeft) (right >>= nextRight) := by
  intro symbols
  rcases head symbols with ⟨first, second, rest, ranLeft, ranRight, related⟩ |
    ⟨first, second, stops, failedLeft, failedRight⟩
  · rw [bind_ok ranLeft, bind_ok ranRight]
    exact tail first second related rest
  · exact .inr ⟨first, second, stops, fun error same => bind_error (failedLeft error same),
      fun error same => bind_error (failedRight error same)⟩

/-- Where the values do not matter, what comes next is related on its own. -/
theorem skip {left : Consumer Symbol Error Left} {right : Consumer Symbol Error Right}
    {nextLeft : Consumer Symbol Error NextLeft} {nextRight : Consumer Symbol Error NextRight}
    (head : Related Stop Value left right) (tail : Related Stop Next nextLeft nextRight) :
    Related Stop Next (left >>= fun _ => nextLeft) (right >>= fun _ => nextRight) :=
  head.bind fun _ _ _ => tail

end Related

end Consumer

end Jst
