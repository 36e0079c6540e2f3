/-
**Session status, runner settings and the back-off.**

`termhub-core/src/session.rs`, `termhub-core/src/backoff.rs` and the settings of
`termhub-core/src/runner.rs`.
-/

import Mathlib.Algebra.Group.Nat.Defs

set_option relaxedAutoImplicit false
set_option autoImplicit false

namespace TermHub

/-- The values of the status watch. -/
inductive SessionStatus
  | idle
  | starting
  | running (uptimeSecs : ℕ)
  | reconnecting (attempt : ℕ)
  | failed (reason : String)
  | stopped
  deriving DecidableEq, Repr

namespace SessionStatus

/-- `Stopped` and `Failed` are the terminal values. -/
def isTerminal : SessionStatus → Bool
  | stopped => true
  | failed _ => true
  | _ => false

/-- `matches!(_, SessionStatus::Running { .. })`. -/
def isRunning : SessionStatus → Bool
  | running _ => true
  | _ => false

@[simp] theorem isTerminal_stopped : stopped.isTerminal = true := rfl

@[simp] theorem isTerminal_failed (r : String) : (failed r).isTerminal = true := rfl

@[simp] theorem isTerminal_running (n : ℕ) : (running n).isTerminal = false := rfl

@[simp] theorem isRunning_running (n : ℕ) : (running n).isRunning = true := rfl

/-- A terminal status is not `Running`. -/
theorem isRunning_of_isTerminal {s : SessionStatus} (h : s.isTerminal = true) :
    s.isRunning = false := by
  cases s <;> first | rfl | cases h

end SessionStatus

/-- The settings of a runner. -/
structure RunnerConfig where
  autoReconnect : Bool
  maxAttempts : Option ℕ
  deriving DecidableEq, Repr

/-- The back-off counts the losses since the last reset; `attempts` is a `u32`. -/
structure Backoff where
  attempts : ℕ
  deriving DecidableEq, Repr

namespace Backoff

/-- `u32::MAX`. -/
def u32Max : ℕ := 2 ^ 32 - 1

/-- `Backoff::next_delay`: the delay in seconds, and the counter one higher (saturating). -/
def nextDelay (b : Backoff) : ℕ × Backoff :=
  let secs := match b.attempts with
    | 0 | 1 => 1
    | n => min (1 <<< min (n - 1) 5) 30
  (secs, ⟨min (b.attempts + 1) u32Max⟩)

/-- `Backoff::reset`. -/
def reset (_ : Backoff) : Backoff := ⟨0⟩

/-- `Backoff::attempt`. -/
def attempt (b : Backoff) : ℕ := b.attempts

end Backoff

end TermHub
