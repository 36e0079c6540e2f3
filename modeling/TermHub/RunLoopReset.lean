/-
**A connection and the back-off.**

A driver that has connected tells its pump, and the pump resets the back-off when it gets to the
event.  The main loop aborts the pump as soon as the driver has ended and the bridge is gone,
whether the pump has got to it or not.

Main definitions:

* `WasConnected` — the instance that has been lost had connected;
* `ConnectedRestarts` — its loss is counted as the first one;
* `HandledInTime` — a pump has handled `Connected` since the loss before.

Main results:

* `losses_eq_zero_iff` — when the next loss is the first one;
* `connected_restarts_iff` — **a connection restarts the back-off exactly if it is handled in
  time**.
-/

import TermHub.RunLoopRetry

set_option relaxedAutoImplicit false
set_option autoImplicit false

namespace TermHub

namespace Runner

open Transition

/-- The last instance has sent `Connected`. -/
def WasConnected (log : List LoopEvent) : Prop :=
  ∃ earlier since, log = earlier ++ .called :: since ∧ .called ∉ since ∧ .connected ∈ since

/-- **A connection restarts the back-off**: the loss of an instance that had connected is announced
as the first attempt, and the loop does not give up at it unless no attempt is allowed. -/
def ConnectedRestarts (c : Params) (log : List LoopEvent) : Prop :=
  ∀ before after a, log = before ++ .published (.reconnecting a) :: after → WasConnected before →
    a = 1 ∧ ∀ max, c.cfg.maxAttempts = some max → 1 ≤ max →
      ∀ e, (ofLoop after).head? = some e → ∃ d, e = .sleeps d

/-- Whenever the loss of an instance that had connected is counted, a pump has handled `Connected`
since the loss that has been counted before it. -/
def HandledInTime (log : List LoopEvent) : Prop :=
  ∀ before after a, log = before ++ .published (.reconnecting a) :: after → WasConnected before →
    ∀ earlier between since, before = earlier ++ .lost :: (between ++ .lost :: since) →
      .lost ∉ since → .reset ∈ between

/-- **When the next loss is the first one**: when every loss before it is followed by a reset. -/
theorem losses_eq_zero_iff (log : List LoopEvent) :
    losses log = 0 ↔ ∀ earlier since, log = earlier ++ .lost :: since → .reset ∈ since := by
  induction log using List.reverseRecOn with
  | nil => simp
  | append_singleton log e ih =>
      by_cases hl : e = .lost
      · subst hl
        rw [losses_lost]
        refine iff_of_false (Nat.succ_ne_zero _) fun h => ?_
        cases h log [] rfl
      by_cases hr : e = .reset
      · subst hr
        rw [losses_reset]
        refine iff_of_true rfl fun earlier since hsplit => ?_
        rcases concat_eq_append_cons hsplit with ⟨-, he, -⟩ | ⟨since', rfl, -⟩
        · cases he
        · exact List.mem_append_right _ List.mem_cons_self
      · rw [losses_other hl hr, ih]
        constructor
        · intro h earlier since hsplit
          rcases concat_eq_append_cons hsplit with ⟨-, he, -⟩ | ⟨since', rfl, hlog⟩
          · exact absurd he hl
          · exact List.mem_append_left _ (h earlier since' hlog)
        · intro h earlier since hsplit
          have hmem := h earlier (since ++ [e]) (by simp [hsplit])
          rcases List.mem_append.1 hmem with hmem | hmem
          · exact hmem
          · exact absurd (List.mem_singleton.1 hmem).symm hr

/-- There is one last loss. -/
theorem last_lost_unique {l l' since since' : List LoopEvent}
    (h : l ++ .lost :: since = l' ++ .lost :: since') (hs : .lost ∉ since) (hs' : .lost ∉ since') :
    l = l' := by
  rcases List.append_eq_append_iff.1 h with ⟨m, rfl, hm⟩ | ⟨m, rfl, hm⟩
  · cases m with
    | nil => exact (List.append_nil l).symm
    | cons x m =>
        obtain ⟨-, rfl⟩ := List.cons.inj hm
        exact absurd (List.mem_append_right m List.mem_cons_self) hs
  · cases m with
    | nil => exact List.append_nil l'
    | cons x m =>
        obtain ⟨-, rfl⟩ := List.cons.inj hm
        exact absurd (List.mem_append_right m List.mem_cons_self) hs'

/-- An attempt is the first one exactly if every earlier loss has been followed by a reset. -/
theorem Counted.eq_one_iff {log : List LoopEvent} {a : ℕ} (h : Counted log a) :
    a = 1 ↔ ∀ earlier between since, log = earlier ++ .lost :: (between ++ .lost :: since) →
      .lost ∉ since → .reset ∈ between := by
  obtain ⟨earlier, since, rfl, hsince, rfl⟩ := h
  have hone : min (losses earlier + 1) Backoff.u32Max = 1 ↔ losses earlier = 0 := by
    unfold Backoff.u32Max
    omega
  rw [hone, losses_eq_zero_iff]
  constructor
  · intro hall earlier' between since' hsplit hsince'
    refine hall earlier' between ?_
    rw [← List.cons_append, ← List.append_assoc] at hsplit
    exact last_lost_unique hsplit hsince hsince'
  · intro hall earlier' between hsplit
    refine hall earlier' between since ?_ hsince
    rw [hsplit]
    simp

/-- **A connection restarts the back-off exactly if it is handled in time**, in every run. -/
theorem connected_restarts_iff (c : Params) (as : List Act) (t : RunState)
    (hr : exec (step c) RunState.init as = some t) :
    ∃ log, exec (recorded c) ([], RunState.init) as = some (log, t) ∧
      (ConnectedRestarts c log ↔ HandledInTime log) := by
  obtain ⟨log, hlog⟩ : ∃ log, exec (recorded c) ([], RunState.init) as = some (log, t) :=
    exec_observed [] hr
  have htr : Tracked c (log, t) :=
    (reachable_of_exec hlog).invariant (tracked_init c) fun _ _ _ h _ hs => h.step hs
  refine ⟨log, hlog, fun h before after a hsplit hconn => ?_,
    fun h before after a hsplit hconn => ?_⟩
  · exact (htr.counted before after a hsplit).eq_one_iff.1 (h before after a hsplit hconn).1
  · have hfirst : a = 1 :=
      (htr.counted before after a hsplit).eq_one_iff.2 (h before after a hsplit hconn)
    refine ⟨hfirst, fun max hmax hle e he => ?_⟩
    cases (htr.split rfl hsplit).1 e he with
    | sleeps => exact ⟨_, rfl⟩
    | givesUp hmax' hlt =>
        obtain rfl := Option.some_inj.1 (hmax.symm.trans hmax')
        omega

/-- The instance connects, and its pump gets to the event. -/
def connectHandled : List Act :=
  .main 0 :: (instanceLost [] ++ [.main 0, .wake] ++
    instanceLost [.driver (.send .connected), .pump 0 .poll, .pump 0 .take])

theorem connected_restarts_handled : ∃ t log,
    exec (step once) RunState.init connectHandled = some t ∧
    t.published = [.starting, .running 0, .reconnecting 1, .running 0, .reconnecting 1] ∧
    exec (recorded once) ([], RunState.init) connectHandled = some (log, t) ∧
    (ConnectedRestarts once log ↔ HandledInTime log) := by
  obtain ⟨log, hlog, hiff⟩ := connected_restarts_iff once connectHandled _ rfl
  exact ⟨_, log, rfl, rfl, hlog, hiff⟩

/-- The instance connects, and its pump is not polled before it is aborted. -/
def connectUnhandled : List Act :=
  .main 0 :: (instanceLost [] ++ [.main 0, .wake] ++ instanceLost [.driver (.send .connected)])

/-- **A session that has connected is given up at its next loss.** -/
theorem connected_counted : ¬ ∀ (c : Params) (as : List Act) (log : List LoopEvent) (t : RunState),
    exec (recorded c) ([], RunState.init) as = some (log, t) → ConnectedRestarts c log := by
  intro h
  have hrun : ∃ t, exec (recorded once) ([], RunState.init) connectUnhandled =
      some ([.published .starting, .called, .published (.running 0),
        .ended (.error (.ioLost "eof")), .lost, .published (.reconnecting 1), .sleeps 1, .called,
        .published (.running 0), .connected, .ended (.error (.ioLost "eof")), .lost,
        .published (.reconnecting 2)], t) := ⟨_, rfl⟩
  obtain ⟨t, hr⟩ := hrun
  have hrestarts := h once connectUnhandled _ t hr
    [.published .starting, .called, .published (.running 0), .ended (.error (.ioLost "eof")),
      .lost, .published (.reconnecting 1), .sleeps 1, .called, .published (.running 0), .connected,
      .ended (.error (.ioLost "eof")), .lost] [] 2 rfl
    ⟨[.published .starting, .called, .published (.running 0), .ended (.error (.ioLost "eof")),
      .lost, .published (.reconnecting 1), .sleeps 1], [.published (.running 0), .connected,
      .ended (.error (.ioLost "eof")), .lost], rfl, by simp, by simp⟩
  exact absurd hrestarts.1 (by decide)

end Runner

end TermHub
