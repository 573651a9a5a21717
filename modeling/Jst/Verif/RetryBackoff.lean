import Mathlib.Data.UInt
import Mathlib.Order.Monotone.Basic
import Mathlib.Tactic.Ring
import Jst.Remote.RetryConfig
/-!
# The waiting times of attempts

The doubling may overflow, the limit is not applied to the first attempt, and a large jitter does
not fit. The waiting times are right just if none of this happens.
-/
namespace Jst.Verif.RetryBackoff

open Remote RetryConfig

variable (config : RetryConfig)

/-- The waiting time that an attempt should have without jitter. -/
def base (attempt : Nat) : Nat :=
  min (config.initialBackoffSeconds.toNat * 2 ^ (attempt - 1)) config.maxBackoffSeconds.toNat

/-- An attempt has the right waiting times. -/
structure Waits (attempt : UInt32) : Prop where
  exact : (config.backoff attempt).toNat = base config attempt.toNat
  jittered : ∀ jitter ≤ maxJitter (config.backoff attempt),
    base config attempt.toNat ≤ (config.getSleepTimeSeconds attempt jitter).toNat ∧
      (config.getSleepTimeSeconds attempt jitter).toNat ≤ 4 * base config attempt.toNat

/-- Four times the time fits 32 bits. If the initial time is above the maximum, it is not the first
attempt, and what is left of the double time is doubled until it is above the maximum again. -/
def Fits (attempt : Nat) : Prop :=
  4 * base config attempt < 2 ^ 32 ∧
    (config.initialBackoffSeconds.toNat ≤ config.maxBackoffSeconds.toNat ∨
      2 ≤ attempt ∧ config.maxBackoffSeconds.toNat ≤
        2 * config.initialBackoffSeconds.toNat % 2 ^ 32 * 2 ^ (attempt - 2))

variable {config} {attempt : UInt32} {max start : UInt32}

theorem toNat_double : (start <<< 1).toNat = 2 * start.toNat % 2 ^ 32 := by
  simp [Nat.shiftLeft_eq, Nat.mul_comm]

theorem doubled_toNat (rounds : Nat) (low : start.toNat ≤ max.toNat)
    (fits : 4 * min (start.toNat * 2 ^ rounds) max.toNat < 2 ^ 32) :
    (doubled max rounds start).toNat = min (start.toNat * 2 ^ rounds) max.toNat := by
  induction rounds generalizing start with
  | zero => simp [doubled, low]
  | succ rounds step =>
    have power : start.toNat * 2 ^ (rounds + 1) = 2 * start.toNat * 2 ^ rounds := by ring
    have grows := Nat.le_mul_of_pos_right (2 * start.toNat) (Nat.two_pow_pos rounds)
    have twice : (start <<< 1).toNat = 2 * start.toNat := by
      rw [toNat_double]
      omega
    rw [power] at fits ⊢
    rw [doubled]
    by_cases capped : max ≤ start <<< 1
    · rw [UInt32.le_iff_toNat_le, twice] at capped
      rw [if_pos (by rwa [UInt32.le_iff_toNat_le, twice])]
      omega
    · rw [if_neg capped]
      rw [UInt32.le_iff_toNat_le, twice] at capped
      rw [step (by omega) (by rwa [twice]), twice]

theorem doubled_succ {rounds : Nat} (fits : 4 * max.toNat < 2 ^ 32) :
    (doubled max (rounds + 1) start).toNat = max.toNat ↔
      max.toNat ≤ 2 * start.toNat % 2 ^ 32 * 2 ^ rounds := by
  rw [doubled]
  by_cases capped : max ≤ start <<< 1
  · rw [if_pos capped]
    rw [UInt32.le_iff_toNat_le, toNat_double] at capped
    have := Nat.le_mul_of_pos_right (2 * start.toNat % 2 ^ 32) (Nat.two_pow_pos rounds)
    omega
  · rw [if_neg capped]
    rw [UInt32.le_iff_toNat_le, toNat_double] at capped
    rw [doubled_toNat rounds (by rw [toNat_double]; omega) (by omega), toNat_double]
    omega

theorem waits_iff : Waits config attempt ↔ 4 * base config attempt.toNat < 2 ^ 32 ∧
      (config.backoff attempt).toNat = base config attempt.toNat := by
  have sleeps (exact : (config.backoff attempt).toNat = base config attempt.toNat)
      (jitter : UInt64) : (config.getSleepTimeSeconds attempt jitter).toNat =
        (base config attempt.toNat + jitter.toNat) % 2 ^ 64 % 2 ^ 32 := by
    simp [getSleepTimeSeconds, exact]
  have jitters (exact : (config.backoff attempt).toNat = base config attempt.toNat) :
      (maxJitter (config.backoff attempt)).toNat = 3 * base config attempt.toNat := by
    have := (config.backoff attempt).toNat_lt
    simp [maxJitter, exact]
    omega
  constructor
  · intro waits
    refine ⟨?_, waits.exact⟩
    by_contra long
    have positive : 0 < base config attempt.toNat :=
      lt_min (Nat.mul_pos config.positive.1 (Nat.two_pow_pos _)) config.positive.2.1
    -- this jitter makes the waiting time zero
    have wraps := waits.jittered (UInt64.ofNat (2 ^ 32 - base config attempt.toNat))
      (by rw [UInt64.le_iff_toNat_le, jitters waits.exact]; simp; omega)
    rw [sleeps waits.exact] at wraps
    simp at wraps
    omega
  · intro ⟨fits, exact⟩
    refine ⟨exact, fun jitter bound => ?_⟩
    rw [UInt64.le_iff_toNat_le, jitters exact] at bound
    rw [sleeps exact]
    omega

/-- For a configuration that the builder makes, the times that the attempts should have grow up to
the maximum, and an attempt has them just if they fit. -/
theorem waits_iff_fits (config : RetryConfig) :
    (∃ builder : Builder, builder.build = .ok config) ∧
      Monotone (base config) ∧ (∀ attempt, base config attempt ≤ config.maxBackoffSeconds.toNat) ∧
      ∀ attempt : UInt32, Waits config attempt ↔ Fits config attempt.toNat := by
  refine ⟨?_, ?_, fun attempt => min_le_right _ _, fun attempt => ?_⟩
  · exact ⟨⟨some config.initialBackoffSeconds, some config.maxBackoffSeconds,
      some config.attempts⟩, by simp [Builder.build, Builder.check, config.positive]; rfl⟩
  · intro earlier later ordered
    exact min_le_min_right _ (Nat.mul_le_mul_left _ (Nat.pow_le_pow_right (by decide) (by omega)))
  · rw [waits_iff, Fits, and_congr_right_iff]
    intro fits
    by_cases low : config.initialBackoffSeconds.toNat ≤ config.maxBackoffSeconds.toNat
    · simp only [low, true_or, iff_true]
      exact doubled_toNat _ low fits
    · simp only [low, false_or]
      have above : base config attempt.toNat = config.maxBackoffSeconds.toNat := by
        have := Nat.le_mul_of_pos_right config.initialBackoffSeconds.toNat
          (Nat.two_pow_pos (attempt.toNat - 1))
        exact min_eq_right (by omega)
      rw [above] at fits ⊢
      rw [backoff]
      by_cases first : attempt.toNat < 2
      · have : attempt.toNat - 1 = 0 := by omega
        rw [this, doubled]
        omega
      · have : attempt.toNat - 1 = attempt.toNat - 2 + 1 := by omega
        rw [this, doubled_succ fits]
        omega

theorem waits_not :
    ((backoff ⟨2, 1, 1, by decide⟩ 1).toNat = 2 ∧
      getSleepTimeSeconds ⟨2 ^ 30, 2 ^ 30, 1, by decide⟩ 1 (3 * 2 ^ 30) = 0) ∧
    ¬ ∀ config attempt, Waits config attempt := by
  refine ⟨by decide, fun all => ?_⟩
  have exact := (all ⟨2, 1, 1, by decide⟩ 1).exact
  exact absurd exact (by decide)

end Jst.Verif.RetryBackoff
