import Jst.Data.Bytes
/-!
# Waiting before another attempt

The waiting time is doubled with every attempt, up to a limit, and a random time is added to it.
-/
namespace Jst.Remote

structure RetryConfig where
  initialBackoffSeconds : UInt32
  maxBackoffSeconds : UInt32
  attempts : UInt32
  /-- Only the builder makes configurations. -/
  positive : 0 < initialBackoffSeconds ∧ 0 < maxBackoffSeconds ∧ 0 < attempts

namespace RetryConfig

structure Builder where
  initialBackoffSeconds : Option UInt32
  maxBackoffSeconds : Option UInt32
  attempts : Option UInt32

/-- The check of a setting, which is one more than the number in front of the default. -/
def Builder.check (what : Str) (default : UInt32) (positive : 0 < default) :
    Option UInt32 → Except Str { value : UInt32 // 0 < value }
  | none => .ok ⟨default, positive⟩
  | some value =>
    if valid : 0 < value then .ok ⟨value, valid⟩
    else .error (lit "Invalid " ++ what ++ lit (" provided: " ++ toString value.toNat) ++
      lit ".\nValue must be strictly greater than 0.")

def Builder.build (builder : Builder) : Except Str RetryConfig := do
  let initial ← check (lit "initial amount of seconds") 1 (by decide) builder.initialBackoffSeconds
  let max ← check (lit "max backoff") 60 (by decide) builder.maxBackoffSeconds
  let attempts ← check (lit "max number of attempts") 1 (by decide) builder.attempts
  return ⟨initial, max, attempts, initial.2, max.2, attempts.2⟩

/-- The loop of `GetSleepTimeSeconds`, for the rounds that are left. -/
def doubled (max : UInt32) : (rounds : Nat) → (backoff : UInt32) → UInt32
  | 0, backoff => backoff
  | rounds + 1, backoff =>
    let backoff := backoff <<< 1
    if max ≤ backoff then max else doubled max rounds backoff

/-- The waiting time without jitter. The loop counts from one up to the attempt. -/
def backoff (config : RetryConfig) (attempt : UInt32) : UInt32 :=
  doubled config.maxBackoffSeconds (attempt.toNat - 1) config.initialBackoffSeconds

/-- The largest jitter. -/
def maxJitter (backoff : UInt32) : UInt64 := 3 * backoff.toUInt64

/-- `GetSleepTimeSeconds`, where the jitter is drawn at random; it has 64 bits. -/
def getSleepTimeSeconds (config : RetryConfig) (attempt : UInt32) (jitter : UInt64) : UInt32 :=
  ((config.backoff attempt).toUInt64 + jitter).toUInt32

end RetryConfig

end Jst.Remote
