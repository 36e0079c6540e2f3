/-
**Why a session ends.**

The runner ends a session with the status `Stopped` or `Failed`, by what a driver instance has
returned and by how often it has been tried.  With the driver in place these results have reasons:
an instance returns `Ok` when the session has been cancelled, and a fatal error only when its
upstream could not be opened.  Nothing else comes up, because the runner keeps the channels of an
instance open for as long as it runs.

Main definitions:

* `Result`, `Lost` — an instance has ended with a result, or has lost its upstream;
* `Due` — the reasons to publish a terminal status.

Main results:

* `Answers.of_reachable` — an instance ends for a reason that lies outside of the program;
* `session_verdict` — **why a session is shown as stopped or as failed**.
-/

import TermHub.Wired

set_option relaxedAutoImplicit false
set_option autoImplicit false

namespace TermHub

namespace Upstream

open Duplex Transition Runner

variable {D : Device} {cfg : RunnerConfig} {s t : Wired D}

/-! ### The results of the instances -/

/-- An instance has ended with this result. -/
def Result (s : Wired D) (r : Except DriverError Unit) : Prop := ∃ l ∈ s.loops, l.phase = .ended r

/-- An instance has lost its upstream. -/
def Lost (s : Wired D) (reason : String) : Prop := Result s (.error (.ioLost reason))

/-- **The reasons of an instance**: it has been cancelled, its upstream could not be opened, or it
has lost its upstream. -/
structure Answers (s : Wired D) : Prop where
  ok : Result s (.ok ()) → s.run.cancelled = true
  fatal : ∀ reason, Result s (.error (.fatal reason)) →
    ∃ o, D.machine.opening o = .error (.fatal reason)

theorem answers_init : Answers (Wired.init : Wired D) where
  ok h := by
    obtain ⟨l, hl, -⟩ := h
    cases hl
  fatal reason h := by
    obtain ⟨l, hl, -⟩ := h
    cases hl

/-- Nobody withdraws a cancellation. -/
theorem step_cancelled {c : Params} {r u : RunState} {a : Act} (h : Runner.step c r a = some u)
    (hc : r.cancelled = true) : u.cancelled = true := by
  cases step_stepped h with
  | main h => cases RunState.mainStep_stepped h <;> exact hc
  | wake | sendInput | forward => exact hc
  | cancel => rfl
  | uptime h =>
      rw [RunState.uptimeStep_eq h]
      exact hc
  | pump h =>
      rw [RunState.pumpStep_eq h]
      exact hc
  | bridge h =>
      rw [RunState.bridgeStep_eq h]
      exact hc
  | driver h =>
      rw [RunState.driverStep_eq h]
      exact hc

/-- The step of a session keeps its results, and only the loop of the present instance gives new
ones. -/
theorem wiredStep_result {a : WiredAct D} {r : Except DriverError Unit}
    (h : wiredStep cfg s a = some t) (hr : Result t r) :
    Result s r ∨ ∃ b l l' rest, a = .device b ∧ s.loops = l :: rest ∧
      s.run.driver = .running ∧ D.machine.step l b = some l' ∧ l'.phase = .ended r ∧
      exchange s.run l b = some t.run := by
  obtain ⟨l, hl, hend⟩ := hr
  cases wiredStep_stepped h with
  | task hd hu =>
      dsimp only at hl
      split at hl
      · rcases List.mem_cons.1 hl with rfl | hl
        · cases hend
        · exact .inl ⟨l, hl, hend⟩
      · exact .inl ⟨l, hl, hend⟩
  | @device b l₀ l' rest u hloops hd hm hx =>
      rcases List.mem_cons.1 hl with rfl | hl
      · exact .inr ⟨b, l₀, l, rest, rfl, hloops, hd, hm, hend, hx⟩
      · exact .inl ⟨l, hloops ▸ List.mem_cons_of_mem _ hl, hend⟩
  | returns hloops hphase hu => exact .inl ⟨l, hl, hend⟩

/-- A result stays: an instance that has ended does nothing any more. -/
theorem Result.mono {a : WiredAct D} {r : Except DriverError Unit}
    (h : wiredStep cfg s a = some t) (hr : Result s r) : Result t r := by
  obtain ⟨l, hl, hend⟩ := hr
  cases wiredStep_stepped h with
  | task hd hu =>
      refine ⟨l, ?_, hend⟩
      dsimp only
      split
      · exact List.mem_cons_of_mem _ hl
      · exact hl
  | device hloops hd hm hx =>
      rw [hloops] at hl
      rcases List.mem_cons.1 hl with rfl | hl
      · cases hm.symm.trans (Machine.step_ended hend)
      · exact ⟨l, List.mem_cons_of_mem _ hl, hend⟩
  | returns hloops hphase hu => exact ⟨l, hl, hend⟩

theorem wired_cancelled {a : WiredAct D} (h : wiredStep cfg s a = some t)
    (hc : s.run.cancelled = true) : t.run.cancelled = true := by
  rcases wiredStep_run h with heq | ⟨b, -, hb⟩
  · rwa [heq]
  · exact step_cancelled hb hc

theorem Answers.step {a : WiredAct D} (hi : Answers s) (ha : Attended s.run)
    (h : wiredStep cfg s a = some t) : Answers t := by
  -- the channels are open, so being cancelled is the only way to be told to stop
  have hblame : ∀ r, Result t r → Result s r ∨ ∃ b l l' rest, a = .device b ∧
      s.loops = l :: rest ∧ s.run.driver = .running ∧ D.machine.step l b = some l' ∧
      l'.phase = .ended r ∧ D.Blames l b r ∧ exchange s.run l b = some t.run := by
    intro r hr
    refine (wiredStep_result h hr).imp_right ?_
    rintro ⟨b, l, l', rest, rfl, hl, hd, hm, hend, hx⟩
    exact ⟨b, l, l', rest, rfl, hl, hd, hm, hend,
      Device.blames_of_ends (Machine.step_ends hm hend), hx⟩
  constructor
  · intro hok
    rcases hblame _ hok with hold | ⟨b, l, l', rest, -, -, hd, -, -, hb, hx⟩
    · exact wired_cancelled h (hi.ok hold)
    · obtain rfl : b = .stop := hb
      obtain ⟨hcause, heq⟩ := Option.ite_some_none_eq_some.1 hx
      rw [(ha.isOpen hd).1, Bool.or_false] at hcause
      rw [← heq]
      exact hcause
  · intro reason hfatal
    rcases hblame _ hfatal with hold | ⟨b, l, l', rest, -, -, hd, -, -, hb, hx⟩
    · exact hi.fatal reason hold
    · rcases hb with ⟨o, -, ho⟩ | ⟨rfl, -⟩
      · exact ⟨o, ho⟩
      · obtain ⟨hclosed, -⟩ := Option.ite_some_none_eq_some.1 hx
        cases (ha.isOpen hd).2.symm.trans hclosed

/-- **The instances of every session reached end for a reason outside of the program.** -/
theorem Answers.of_reachable (h : Reachable (wiredStep cfg) Wired.init s) : Answers s := by
  refine h.invariant_under (I := fun s => Attended s.run) attended_init ?_ answers_init ?_
  · intro s a t ha hstep
    rcases wiredStep_run hstep with heq | ⟨b, -, hb⟩
    · rwa [heq]
    · exact ha.step hb
  · intro s a t ha hi _ hstep
    exact hi.step ha hstep

/-! ### The status -/

/-- **The reasons to publish a terminal status.** -/
def Due (cfg : RunnerConfig) (s : Wired D) : SessionStatus → Prop
  | .stopped => s.run.cancelled = true ∨ cfg.autoReconnect = false ∧ ∃ lost, Lost s lost
  | .failed reason => Result s (.error (.fatal reason)) ∨
      ∃ max lost, cfg.maxAttempts = some max ∧
        reason = "max retries exceeded (" ++ lost ++ ")" ∧ Lost s lost
  | _ => True

theorem Due.mono {a : WiredAct D} {st : SessionStatus} (h : wiredStep cfg s a = some t)
    (hdue : Due cfg s st) : Due cfg t st := by
  cases st with
  | stopped =>
      rcases hdue with hc | ⟨hauto, lost, hlost⟩
      · exact .inl (wired_cancelled h hc)
      · exact .inr ⟨hauto, lost, hlost.mono h⟩
  | failed reason =>
      rcases hdue with hfatal | ⟨max, lost, hmax, hreason, hlost⟩
      · exact .inl (hfatal.mono h)
      · exact .inr ⟨max, lost, hmax, hreason, hlost.mono h⟩
  | _ => trivial

/-- What the main loop knows at its position. -/
def Knows (cfg : RunnerConfig) (s : Wired D) : Main → Prop
  | .cancelBridge r => Result s r
  | .awaitBridge r => Result s r
  | .abortPump r => Result s r
  | .matchResult r => Result s r
  | .broadcastLost reason => Lost s reason
  | .nextDelay reason => Lost s reason
  | .publishReconnecting _ _ reason => Lost s reason
  | .checkMax _ _ reason => Lost s reason
  | .abortUptime last => Due cfg s last
  | .publishLast last => Due cfg s last
  | _ => True

theorem Knows.mono {a : WiredAct D} {m : Main} (h : wiredStep cfg s a = some t)
    (hk : Knows cfg s m) : Knows cfg t m := by
  cases m with
  | cancelBridge r | awaitBridge r | abortPump r | matchResult r => exact Result.mono h hk
  | broadcastLost r | nextDelay r => exact Result.mono h hk
  | publishReconnecting d n r | checkMax d n r => exact Result.mono h hk
  | abortUptime last | publishLast last => exact Due.mono h hk
  | _ => trivial

/-- **What has been published and what will be has its reasons.** -/
structure Reasoned (cfg : RunnerConfig) (s : Wired D) : Prop where
  answers : Answers s
  driver : ∀ e, s.run.driver = .ended e → Result s e.result
  knows : Knows cfg s s.run.main
  published : ∀ st ∈ s.run.published, Due cfg s st

theorem reasoned_init : Reasoned cfg (Wired.init : Wired D) where
  answers := answers_init
  driver _ h := nomatch h
  knows := trivial
  published _ h := nomatch h

/-- What a step publishes has its reasons. -/
theorem Knows.publishes {b : Act} {st : SessionStatus} (hk : Knows cfg s s.run.main)
    (h : s.run.publishes b = some st) : Due cfg s st := by
  cases b with
  | main secs =>
      simp only [RunState.publishes] at h
      cases hm : s.run.main with
      | publishLast last =>
          rw [hm] at h hk
          obtain rfl := Option.some_inj.1 h
          exact hk
      | start | publishRunning | publishReconnecting =>
          rw [hm] at h
          obtain rfl := Option.some_inj.1 h
          trivial
      | _ =>
          rw [hm] at h
          cases h
  | uptime b =>
      cases b with
      | publish secs =>
          obtain rfl := Option.some_inj.1 h
          trivial
      | _ => cases h
  | _ => cases h

/-- What the main loop knows after a step, it has found out by it or has known before. -/
theorem Knows.mainStep {secs : ℕ} {u : RunState} (hi : Reasoned cfg s)
    (h : s.run.mainStep (sound cfg) secs = some u) (hrun : t.run = u)
    (hstep : wiredStep cfg s (.task (.main secs)) = some t) : Knows cfg t t.run.main := by
  have hk := hi.knows.mono hstep
  have hok := hi.answers.ok
  have hcancel : s.run.cancelled = true → t.run.cancelled = true := wired_cancelled hstep
  rw [hrun] at hcancel ⊢
  cases RunState.mainStep_stepped h with
  | starts | wires | creates | panics | shows | sleeps => trivial
  | stops hm hc | interrupted hm hc =>
      refine .inl ?_
      rw [hrun]
      exact hcancel hc
  | joins hm hd => exact (hi.driver _ hd).mono hstep
  | finishes hm =>
      refine .inl ?_
      rw [hm] at hk
      have hret : Result s (.ok ()) := by
        have hknows := hi.knows
        rw [hm] at hknows
        exact hknows
      rw [hrun]
      exact hcancel (hok hret)
  | fails hm =>
      rw [hm] at hk
      exact .inl hk
  | resigns hm hauto =>
      rw [hm] at hk
      exact .inr ⟨hauto, _, hk⟩
  | givesUp hm hmax hlt =>
      rw [hm] at hk
      exact .inr ⟨_, _, hmax, rfl, hk⟩
  | cancelsBridge hm | awaitsBridge hm | abortsPump hm | loses hm | tells hm | counts hm
  | announces hm | abortsUptime hm =>
      rw [hm] at hk
      exact hk
  | returns hm => trivial

/-- Only a driver that returns makes the instance one that has ended. -/
theorem step_driver {c : Params} {r u : RunState} {b : Act} {e : DriverEnd}
    (h : Runner.step c r b = some u) (hb : ∀ x, b ≠ .driver x) (he : u.driver = .ended e) :
    r.driver = .ended e := by
  cases step_stepped h with
  | main h =>
      cases RunState.mainStep_stepped h with
      | wires | creates | panics => cases he
      | starts | stops | shows | joins | cancelsBridge | awaitsBridge | abortsPump | finishes
      | fails | resigns | loses | tells | counts | announces | givesUp | sleeps | interrupted
      | abortsUptime | returns => exact he
  | wake | cancel | sendInput | forward => exact he
  | driver h => exact absurd rfl (hb _)
  | uptime h =>
      rw [RunState.uptimeStep_eq h] at he
      exact he
  | pump h =>
      rw [RunState.pumpStep_eq h] at he
      exact he
  | bridge h =>
      rw [RunState.bridgeStep_eq h] at he
      exact he

theorem Reasoned.task {b : Act} {u : RunState} (hi : Reasoned cfg s) (ha : Attended s.run)
    (hb : ∀ x, b ≠ .driver x) (h : Runner.step (sound cfg) s.run b = some u) (hrun : t.run = u)
    (hstep : wiredStep cfg s (.task b) = some t) : Reasoned cfg t where
  answers := hi.answers.step ha hstep
  driver e he := (hi.driver e (step_driver h hb (hrun ▸ he))).mono hstep
  knows := by
    by_cases hmain : ∃ secs, b = .main secs
    · obtain ⟨secs, rfl⟩ := hmain
      exact Knows.mainStep hi h hrun hstep
    · have hk := hi.knows.mono hstep
      by_cases huptime : ∃ x, b = .uptime x
      · obtain ⟨x, rfl⟩ := huptime
        rw [hrun, RunState.uptimeStep_eq (s := s.run) h]
        exact hk
      · obtain ⟨hm, -, -⟩ := step_elsewhere h (fun secs hs => hmain ⟨secs, hs⟩)
          fun x hx => huptime ⟨x, hx⟩
        rcases hm with hm | ⟨-, hm⟩
        · rw [hrun, hm]
          exact hk
        · rw [hrun, hm]
          trivial
  published st hst := by
    rw [hrun, step_published h, List.mem_append] at hst
    rcases hst with hold | hnew
    · exact (hi.published st hold).mono hstep
    · exact (hi.knows.publishes (Option.mem_toList.1 hnew)).mono hstep

/-- **Every step keeps the reasons.** -/
theorem Reasoned.step {a : WiredAct D} (hi : Reasoned cfg s) (ha : Attended s.run)
    (hstep : wiredStep cfg s a = some t) : Reasoned cfg t := by
  have hanswers := hi.answers.step ha hstep
  cases wiredStep_stepped hstep with
  | task hb h => exact hi.task ha hb h rfl hstep
  | device hl hd hm hx =>
      obtain ⟨hmain, hpublished, hdriver⟩ := (exchange_exchanged hx).frame
      refine ⟨hanswers, fun e he => ?_, ?_, fun st hst => ?_⟩
      · cases hd.symm.trans (hdriver.symm.trans he)
      · have hk := hi.knows.mono hstep
        rwa [← hmain] at hk
      · exact (hi.published st (hpublished ▸ hst)).mono hstep
  | @returns l rest r u hl hr h =>
      cases RunState.driverStep_stepped h with
      | finish hd =>
          refine ⟨hanswers, fun e he => ?_, hi.knows.mono hstep, fun st hst => ?_⟩
          · cases he
            exact ⟨l, hl ▸ List.mem_cons_self, hr⟩
          · exact (hi.published st hst).mono hstep

theorem Reasoned.of_reachable (h : Reachable (wiredStep cfg) Wired.init s) : Reasoned cfg s := by
  refine h.invariant_under (I := fun s => Attended s.run) attended_init ?_ reasoned_init ?_
  · intro s a t ha hstep
    rcases wiredStep_run hstep with heq | ⟨b, -, hb⟩
    · rwa [heq]
    · exact ha.step hb
  · intro s a t ha hi _ hstep
    exact hi.step ha hstep

/-- **Why a session is shown as failed or as stopped**, in every run with any driver whose loop is
that of a `Device`: it has failed because its upstream could not be opened, with the reason that
opening has given, or because a bound on the retries has been exceeded; and it has stopped because
it was cancelled, or because its upstream was lost and it does not reconnect. -/
theorem session_verdict (h : Reachable (wiredStep cfg) (Wired.init : Wired D) s) :
    (∀ reason, .failed reason ∈ s.run.published →
      (∃ o, D.machine.opening o = .error (.fatal reason)) ∨
      ∃ max lost, cfg.maxAttempts = some max ∧
        reason = "max retries exceeded (" ++ lost ++ ")" ∧ Lost s lost) ∧
    (.stopped ∈ s.run.published → s.run.cancelled = true ∨
      cfg.autoReconnect = false ∧ ∃ lost, Lost s lost) := by
  have hi := Reasoned.of_reachable h
  constructor
  · intro reason hfailed
    exact (hi.published _ hfailed).imp_left (hi.answers.fatal reason)
  · intro hstopped
    exact hi.published _ hstopped

/-- The server does not accept the password. -/
def rejected : List (WiredAct sshClientDevice) :=
  [.task (.main 0), .task (.main 0), .task (.main 0), .task (.main 0),
    .device (.opened ⟨.ok (), .ok false, .ok (), .ok (), .ok ()⟩), .returns, .task (.main 1),
    .task (.main 1), .task (.bridge .cancelled), .task (.main 1), .task (.main 1), .task (.main 1),
    .task (.main 1), .task (.main 1)]

theorem session_verdict_rejected : ∃ s, exec (wiredStep ⟨true, none⟩) Wired.init rejected = some s ∧
    s.run.published = [.starting, .running 0, .failed "ssh auth rejected"] ∧
    ∃ o : SshOpening, o.result = .error (.fatal "ssh auth rejected") := by
  have hrun : ∃ s, exec (wiredStep ⟨true, none⟩) Wired.init rejected = some s ∧
      s.run.published = [.starting, .running 0, .failed "ssh auth rejected"] := ⟨_, rfl, rfl⟩
  obtain ⟨s, hs, hpublished⟩ := hrun
  have hfailed := (session_verdict (reachable_of_exec hs)).1 "ssh auth rejected"
    (by simp [hpublished])
  refine ⟨s, hs, hpublished, ?_⟩
  rcases hfailed with ⟨o, ho⟩ | ⟨max, lost, hmax, -⟩
  · refine ⟨o, ?_⟩
    change o.result.map _ = _ at ho
    cases hr : o.result with
    | ok u =>
        rw [hr] at ho
        cases ho
    | error e =>
        rw [hr] at ho
        cases ho
        rfl
  · cases hmax

end Upstream

end TermHub
