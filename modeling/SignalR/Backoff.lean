/-
SignalR/Backoff.lean

`ReconnectPolicy::delay_for_attempt`: the wait before a reconnect attempt.

A `Duration` is a number of nanoseconds that does not exceed `Duration::MAX`, and
its product saturates there.  The attempt number is a 64-bit `usize`, which the
code narrows to 32 bits before it shifts a 32-bit multiplier; a shift of 32 or
more falls back to the largest multiplier.

The documented delay is `initial_delay * 2^(n-1)` up to `max_delay`
(`exactDelay`).  The code computes it for every attempt up to the 32nd, and later
only while the cap hides the multiplier (`delayForAttempt_eq_iff`).
-/
import Mathlib.Algebra.Order.Ring.Nat
import Mathlib.Algebra.Ring.Nat
import SignalR.Client

namespace SignalR

/-! ### Durations -/

/-- `Duration::MAX`: `u64::MAX` seconds and 999999999 nanoseconds. -/
def Duration.maxNanos : Nat := (2 ^ 64 - 1) * 10 ^ 9 + 999999999

/-- A `Duration`, in nanoseconds. -/
structure Duration where
  nanos : Nat
  le_max : nanos ≤ Duration.maxNanos
  deriving DecidableEq

namespace Duration

/-- Clip a number of nanoseconds at `Duration::MAX`. -/
def saturating (nanos : Nat) : Duration :=
  ⟨min nanos maxNanos, Nat.min_le_right ..⟩

/-- `Duration::from_secs`. -/
def fromSecs (secs : Nat) : Duration :=
  saturating (secs * 10 ^ 9)

/-- `Duration::saturating_mul`. -/
def saturatingMul (d : Duration) (k : Nat) : Duration :=
  saturating (d.nanos * k)

instance : Min Duration :=
  ⟨fun a b => if a.nanos ≤ b.nanos then a else b⟩

instance : Max Duration :=
  ⟨fun a b => if a.nanos ≤ b.nanos then b else a⟩

@[simp] theorem nanos_min (a b : Duration) : (min a b).nanos = min a.nanos b.nanos := by
  show (if a.nanos ≤ b.nanos then a else b).nanos = _
  split
  · rename_i h
    exact (Nat.min_eq_left h).symm
  · rename_i h
    exact (Nat.min_eq_right (Nat.le_of_not_le h)).symm

@[simp] theorem nanos_max (a b : Duration) : (max a b).nanos = max a.nanos b.nanos := by
  show (if a.nanos ≤ b.nanos then b else a).nanos = _
  split
  · rename_i h
    exact (Nat.max_eq_right h).symm
  · rename_i h
    exact (Nat.max_eq_left (Nat.le_of_not_le h)).symm

/-- A product that is capped by a duration need not saturate. -/
theorem nanos_min_saturatingMul (a b : Duration) (k : Nat) :
    (min (a.saturatingMul k) b).nanos = min (a.nanos * k) b.nanos := by
  rw [nanos_min]
  show min (min (a.nanos * k) maxNanos) b.nanos = _
  rw [Nat.min_assoc, Nat.min_eq_right b.le_max]

end Duration

/-! ### The delays of a policy -/

/-- The delays of a `ReconnectPolicy`. -/
structure ReconnectDelays where
  initialDelay : Duration
  maxDelay : Duration
  deriving DecidableEq

/-- `u32::checked_shl`. -/
def checkedShl (x k : Nat) : Option Nat :=
  if k < 32 then some (x * 2 ^ k % 2 ^ 32) else none

/-- The multiplier of an attempt; `as u32` drops the high half of the number. -/
def multiplier (attempt : Nat) : Nat :=
  (checkedShl 1 ((attempt - 1) % 2 ^ 32)).getD (2 ^ 32 - 1)

namespace ReconnectDelays

/-- `ReconnectPolicy::DEFAULT_INITIAL_DELAY` and `DEFAULT_MAX_DELAY`. -/
def default : ReconnectDelays where
  initialDelay := .fromSecs 1
  maxDelay := .fromSecs 30

/-- `with_reconnect_delays`. -/
def withReconnectDelays (initialDelay maxDelay : Duration) : ReconnectDelays where
  initialDelay
  maxDelay := max maxDelay initialDelay

/-- `ReconnectPolicy::delay_for_attempt`. -/
def delayForAttempt (d : ReconnectDelays) (attempt : Nat) : Duration :=
  min (d.initialDelay.saturatingMul (multiplier attempt)) d.maxDelay

/-- The delay that the documentation of `with_reconnect_delays` describes. -/
def exactDelay (d : ReconnectDelays) (attempt : Nat) : Nat :=
  min (d.initialDelay.nanos * 2 ^ (attempt - 1)) d.maxDelay.nanos

/-- Both ways to a policy order the delays. -/
theorem default_le : default.initialDelay.nanos ≤ default.maxDelay.nanos := by
  decide

theorem withReconnectDelays_le (initialDelay maxDelay : Duration) :
    (withReconnectDelays initialDelay maxDelay).initialDelay.nanos
      ≤ (withReconnectDelays initialDelay maxDelay).maxDelay.nanos := by
  show initialDelay.nanos ≤ (max maxDelay initialDelay).nanos
  rw [Duration.nanos_max]
  exact Nat.le_max_right ..

end ReconnectDelays

/-! ### The multiplier -/

/-- The multiplier is the power of the narrowed number, up to the largest `u32`. -/
theorem multiplier_eq (attempt : Nat) :
    multiplier attempt = min (2 ^ ((attempt - 1) % 2 ^ 32)) (2 ^ 32 - 1) := by
  rw [multiplier]
  generalize (attempt - 1) % 2 ^ 32 = e
  by_cases he : e < 32
  · have hpow : 2 ^ e < 2 ^ 32 := Nat.pow_lt_pow_right (by decide) he
    show ((if e < 32 then some (1 * 2 ^ e % 2 ^ 32) else none).getD _) = _
    rw [if_pos he, Nat.one_mul, Nat.mod_eq_of_lt hpow, Option.getD_some, Nat.min_eq_left]
    exact Nat.le_sub_one_of_lt hpow
  · have hpow : 2 ^ 32 ≤ 2 ^ e := Nat.pow_le_pow_right (by decide) (Nat.le_of_not_lt he)
    show ((if e < 32 then some (1 * 2 ^ e % 2 ^ 32) else none).getD _) = _
    rw [if_neg he, Option.getD_none, Nat.min_eq_right]
    exact (Nat.sub_le ..).trans hpow

theorem multiplier_pos (attempt : Nat) : 0 < multiplier attempt := by
  rw [multiplier_eq]
  exact Nat.lt_min.mpr ⟨Nat.pow_pos (by decide), by decide⟩

/-- Up to the 32nd attempt neither the narrowing nor the fallback is reached. -/
theorem multiplier_of_le {attempt : Nat} (h : attempt ≤ 32) :
    multiplier attempt = 2 ^ (attempt - 1) := by
  have hlt : attempt - 1 < 32 := by omega
  have hpow : 2 ^ (attempt - 1) < 2 ^ 32 := Nat.pow_lt_pow_right (by decide) hlt
  rw [multiplier_eq, Nat.mod_eq_of_lt (hlt.trans (by decide)), Nat.min_eq_left]
  exact Nat.le_sub_one_of_lt hpow

/-- From the 33rd attempt on the multiplier is too small: it is clipped at the width,
or the number has wrapped around. -/
theorem multiplier_lt {attempt : Nat} (h : 32 < attempt) :
    multiplier attempt < 2 ^ (attempt - 1) := by
  rw [multiplier_eq]
  have hpow : 2 ^ 32 ≤ 2 ^ (attempt - 1) := Nat.pow_le_pow_right (by decide) (by omega)
  calc min (2 ^ ((attempt - 1) % 2 ^ 32)) (2 ^ 32 - 1)
      ≤ 2 ^ 32 - 1 := Nat.min_le_right ..
    _ < 2 ^ 32 := by decide
    _ ≤ 2 ^ (attempt - 1) := hpow

/-! ### The delays -/

namespace ReconnectDelays

variable (d : ReconnectDelays)

theorem nanos_delayForAttempt (attempt : Nat) :
    (d.delayForAttempt attempt).nanos
      = min (d.initialDelay.nanos * multiplier attempt) d.maxDelay.nanos :=
  Duration.nanos_min_saturatingMul ..

/-- The code computes the documented delay of an attempt exactly when the multiplier
is right, or does not matter because the product is zero or capped. -/
theorem delayForAttempt_eq_iff (attempt : Nat) :
    (d.delayForAttempt attempt).nanos = d.exactDelay attempt ↔
      d.initialDelay.nanos = 0 ∨ attempt ≤ 32 ∨
        d.maxDelay.nanos
          ≤ d.initialDelay.nanos * min (2 ^ ((attempt - 1) % 2 ^ 32)) (2 ^ 32 - 1) := by
  rw [nanos_delayForAttempt, exactDelay, ← multiplier_eq]
  generalize d.initialDelay.nanos = i
  generalize d.maxDelay.nanos = M
  by_cases h32 : attempt ≤ 32
  · rw [multiplier_of_le h32]
    exact iff_of_true rfl (.inr (.inl h32))
  · rcases Nat.eq_zero_or_pos i with rfl | hi
    · simp
    · have hlt : i * multiplier attempt < i * 2 ^ (attempt - 1) :=
        Nat.mul_lt_mul_of_pos_left (multiplier_lt (Nat.lt_of_not_le h32)) hi
      generalize i * multiplier attempt = a at hlt ⊢
      generalize i * 2 ^ (attempt - 1) = b at hlt ⊢
      omega

/-- The documented backoff of a policy: every attempt waits the exact delay; hence
the delays never decrease, each is twice the one before until the cap is reached,
and a positive first delay reaches it. -/
structure Backoff : Prop where
  exact : ∀ n, 1 ≤ n → n < 2 ^ 64 → (d.delayForAttempt n).nanos = d.exactDelay n
  monotone : ∀ n, 1 ≤ n → n + 1 < 2 ^ 64 →
    (d.delayForAttempt n).nanos ≤ (d.delayForAttempt (n + 1)).nanos
  doubles : ∀ n, 1 ≤ n → n + 1 < 2 ^ 64 →
    (d.delayForAttempt (n + 1)).nanos
      = min (2 * (d.delayForAttempt n).nanos) d.maxDelay.nanos
  reached : 0 < d.initialDelay.nanos →
    ∃ n, 1 ≤ n ∧ n < 2 ^ 64 ∧ (d.delayForAttempt n).nanos = d.maxDelay.nanos

/-- Without a range to grow in, all delays are the same. -/
theorem delayForAttempt_flat (h : d.initialDelay.nanos = 0 ∨
    d.maxDelay.nanos ≤ d.initialDelay.nanos) (attempt : Nat) :
    (d.delayForAttempt attempt).nanos = min d.initialDelay.nanos d.maxDelay.nanos := by
  rw [nanos_delayForAttempt]
  rcases h with h | h
  · rw [h, Nat.zero_mul]
  · have hle : d.initialDelay.nanos ≤ d.initialDelay.nanos * multiplier attempt :=
      Nat.le_mul_of_pos_right _ (multiplier_pos attempt)
    omega

/-- So are the documented ones. -/
theorem exactDelay_flat (h : d.initialDelay.nanos = 0 ∨
    d.maxDelay.nanos ≤ d.initialDelay.nanos) (attempt : Nat) :
    d.exactDelay attempt = min d.initialDelay.nanos d.maxDelay.nanos := by
  rw [exactDelay]
  rcases h with h | h
  · rw [h, Nat.zero_mul]
  · have hle : d.initialDelay.nanos ≤ d.initialDelay.nanos * 2 ^ (attempt - 1) :=
      Nat.le_mul_of_pos_right _ (Nat.pow_pos (by decide))
    omega

theorem backoff_of_flat
    (h : d.initialDelay.nanos = 0 ∨ d.maxDelay.nanos ≤ d.initialDelay.nanos) : d.Backoff := by
  have hdelay := d.delayForAttempt_flat h
  refine ⟨?_, ?_, ?_, ?_⟩
  · intro n _ _
    rw [hdelay, d.exactDelay_flat h]
  · intro n _ _
    rw [hdelay, hdelay]
  · intro n _ _
    rw [hdelay, hdelay]
    omega
  · intro hpos
    refine ⟨1, Nat.le_refl 1, by decide, ?_⟩
    rw [hdelay]
    omega

/-- The number of the attempt whose narrowed value is that of the first one. -/
theorem multiplier_wrapped : multiplier (2 ^ 32 + 1) = 1 := by
  rw [multiplier_eq]
  rfl

end ReconnectDelays

/-- **When the backoff is the documented one.**  For a single attempt: up to the 32nd,
or when the first delay is zero, or when the product of the clipped multiplier is
capped already.  For all attempts of a policy, and with them the growth of the
delays: only when there is no range to grow in. -/
theorem backoff_iff (d : ReconnectDelays) :
    (∀ n, (d.delayForAttempt n).nanos = d.exactDelay n ↔
      d.initialDelay.nanos = 0 ∨ n ≤ 32 ∨
        d.maxDelay.nanos ≤ d.initialDelay.nanos * min (2 ^ ((n - 1) % 2 ^ 32)) (2 ^ 32 - 1)) ∧
    (d.Backoff ↔
      d.initialDelay.nanos = 0 ∨ d.maxDelay.nanos ≤ d.initialDelay.nanos) := by
  refine ⟨d.delayForAttempt_eq_iff, ?_, d.backoff_of_flat⟩
  intro h
  -- the attempt after 2^32 ones waits the first delay again
  have hwrap := (d.delayForAttempt_eq_iff _).mp
    (h.exact (2 ^ 32 + 1) (by decide) (by decide))
  rw [← multiplier_eq, ReconnectDelays.multiplier_wrapped, Nat.mul_one] at hwrap
  rcases hwrap with h0 | h32 | hmax
  · exact .inl h0
  · exact absurd h32 (by decide)
  · exact .inr hmax

/-- The 33rd attempt after a first delay of one nanosecond waits one nanosecond less
than documented, and so do all later ones up to the wrap-around. -/
theorem not_backoff_attempt_33 :
    ¬ ∀ d : ReconnectDelays, d.initialDelay.nanos ≤ d.maxDelay.nanos → d.Backoff := by
  intro h
  have h33 := (h (.withReconnectDelays ⟨1, by decide⟩ (.fromSecs 10)) (by decide)).exact 33
    (by decide) (by decide)
  exact absurd h33 (by decide)

end SignalR
