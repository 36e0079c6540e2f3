/-
**The status events of a session.**

`spawn_session_status_listener` of `termhub-app/src/commands.rs` watches the status of a session and
emits it to the window, while `run_loop` and its ticker publish.  The senders of the channel are the
main loop and the ticker.

Main definitions:

* `statusChannel` — the watch channel of a session;
* `StatusEvent`, `Listened`, `listenedStep` — a session with its listener.

Main results:

* `status_events_in_order` — **the window is told statuses that have been published, in order, and
  at the end the last one**;
* `status_events_catch_up` — **the listener gets to the status that is shown elsewhere**, whatever
  it has missed.
-/

import TermHub.RunLoopStatus
import TermHub.Watch

set_option relaxedAutoImplicit false
set_option autoImplicit false

namespace TermHub

namespace Runner

open Transition Watch

/-! ### A session with its listener -/

/-- The watch channel of a session, from `status_channel`; the main loop and the ticker send. -/
def statusChannel (s : RunState) : Channel SessionStatus where
  first := .idle
  sent := s.published
  closed := s.main.ended && decide (s.uptime.phase = .ended)

/-- `StatusEvent`. -/
structure StatusEvent where
  name : String
  status : SessionStatus
  deriving DecidableEq, Repr

/-- A session with the task of `spawn_session_status_listener`. -/
structure Listened where
  run : RunState
  listener : Listener SessionStatus

/-- A session that has just been created. -/
def Listened.init : Listened := ⟨.init, .init⟩

/-- What the window has been told of the session called `name`. -/
def Listened.events (name : String) (s : Listened) : List StatusEvent :=
  s.listener.shown.map fun status => ⟨name, status⟩

/-- What can happen. -/
inductive ListenedAct
  | run (a : Runner.Act)
  | listener (a : Watch.Act)

/-- One step of the session or of the listener. -/
def listenedStep (c : Params) (s : Listened) : ListenedAct → Option Listened
  | .run a => (Runner.step c s.run a).map fun t => { s with run := t }
  | .listener a => (s.listener.step (statusChannel s.run) a).map fun l => { s with listener := l }

variable {c : Params} {s t : RunState}

theorem mainStep_ended {secs : ℕ} (hm : s.main.ended = true) : s.mainStep c secs = none := by
  unfold RunState.mainStep
  cases h : s.main with
  | returned | panicked => rfl
  | _ =>
      rw [h] at hm
      cases hm

/-- When the loop and the ticker have ended the status stays. -/
theorem statusChannel_later {a : Runner.Act} (h : step c s a = some t) :
    (statusChannel s).Later (statusChannel t) where
  first := rfl
  sent := by
    rw [statusChannel, statusChannel, step_published h]
    exact List.prefix_append _ _
  closed hc := by
    obtain ⟨hmain, huptime⟩ := Bool.and_eq_true_iff.1 hc
    have hphase := of_decide_eq_true huptime
    by_cases hm : ∃ secs, a = .main secs
    · obtain ⟨secs, rfl⟩ := hm
      cases (mainStep_ended hmain).symm.trans h
    · by_cases hu : ∃ b, a = .uptime b
      · obtain ⟨b, rfl⟩ := hu
        cases RunState.uptimeStep_stepped h with
        | poll hp | suspend hp | kill hp | tick hp | publish hp | cancelled hp =>
            cases hphase.symm.trans hp
      · obtain ⟨hsame | ⟨⟨d, hd⟩, -⟩, hup, hpub⟩ := step_elsewhere h (fun secs e => hm ⟨secs, e⟩)
          fun b e => hu ⟨b, e⟩
        · rw [statusChannel, statusChannel, hsame, hup, hpub]
        · rw [hd] at hmain
          cases hmain

/-- **The last word of the loop** is a terminal status, unless the ticker has had another one. -/
def LastWord (s : RunState) : Prop :=
  s.main = .returned → s.watch.isTerminal = true ∨ ∃ secs, s.watch = .running secs

theorem LastWord.step {a : Runner.Act} (he : Exits s) (hi : LastWord s) (h : step c s a = some t) :
    LastWord t := by
  intro ht
  by_cases hm : ∃ secs, a = .main secs
  · obtain ⟨secs, rfl⟩ := hm
    cases RunState.mainStep_stepped h with
    | returns hm =>
        rw [RunState.publish, RunState.watch, List.getLastD_concat]
        exact .inl (he.publish_terminal _ hm)
    | _ => cases ht
  · by_cases hu : ∃ b, a = .uptime b
    · obtain ⟨b, rfl⟩ := hu
      cases RunState.uptimeStep_stepped h with
      | publish hp =>
          right
          exact ⟨_, List.getLastD_concat⟩
      | poll | suspend | kill | tick | cancelled => exact hi ht
    · obtain ⟨hsame | ⟨-, htop⟩, -, hpub⟩ := step_elsewhere h (fun secs e => hm ⟨secs, e⟩)
        fun b e => hu ⟨b, e⟩
      · rw [RunState.watch, hpub]
        exact hi (hsame ▸ ht)
      · cases htop.symm.trans ht

/-- What every session with a listener keeps. -/
structure Listened.Kept (s : Listened) : Prop where
  exits : Exits s.run
  last : LastWord s.run
  attentive : ∃ ns, Attentive (statusChannel s.run) s.listener ns

theorem Listened.Kept.of_reachable {s : Listened}
    (h : Reachable (listenedStep c) Listened.init s) : s.Kept := by
  refine h.invariant ⟨exits_init, nofun, [], attentive_init _⟩ ?_
  rintro s a t ⟨he, hl, ns, hf⟩ - hs
  cases a with
  | run a =>
      obtain ⟨u, hu, rfl⟩ := Option.map_eq_some_iff.1 hs
      exact ⟨he.step hu, hl.step he hu, ns, hf.later (statusChannel_later hu)⟩
  | listener a =>
      obtain ⟨l, hl', rfl⟩ := Option.map_eq_some_iff.1 hs
      exact ⟨he, hl, hf.step hl'⟩

/-- **The window is told statuses that have been published, in order**, in every run of a session
and its listener: the events are the statuses at ascending positions of what has been published,
each twice at most and `Idle` before the first.  When the listener has ended nobody publishes any
more, and the last event is the last status; if the loop has returned this is a terminal status, or
the uptime that a late tick has published. -/
theorem status_events_in_order (name : String) {s : Listened}
    (h : Reachable (listenedStep c) Listened.init s) :
    (∃ ns : List ℕ, ns.Pairwise (· ≤ ·) ∧ (∀ n, ns.count n ≤ 2) ∧
      (s.events name).map some =
        ns.map fun n => ((.idle :: s.run.published)[n]?).map fun status => ⟨name, status⟩) ∧
    (s.listener.phase = .ended →
      s.run.main.ended = true ∧ s.run.uptime.phase = .ended ∧
      (s.events name).getLast? = some ⟨name, s.run.watch⟩ ∧
      (s.run.main = .returned →
        s.run.watch.isTerminal = true ∨ ∃ secs, s.run.watch = .running secs)) := by
  obtain ⟨-, hlast, ns, hf⟩ := Listened.Kept.of_reachable h
  refine ⟨⟨ns, hf.ascend, hf.twice, ?_⟩, fun hp => ?_⟩
  · have hshown := congrArg (List.map (Option.map (StatusEvent.mk name))) hf.shown
    rw [List.map_map, List.map_map] at hshown
    rw [Listened.events, List.map_map]
    exact hshown.symm
  · obtain ⟨hc, hs⟩ := hf.ended hp
    obtain ⟨hmain, huptime⟩ := Bool.and_eq_true_iff.1 hc
    refine ⟨hmain, of_decide_eq_true huptime, ?_, hlast⟩
    rw [Listened.events, List.getLast?_map, hf.shows_value (by rw [hp]; nofun) hs]
    rfl

/-- A session is stopped at once; the listener looks after the first status and after the last. -/
def stoppedAtOnce : List ListenedAct :=
  [.run (.main 0), .listener .emit, .run .cancel, .run (.main 0), .run (.main 0), .run (.main 0),
    .run (.uptime .kill), .listener .changed, .listener .emit, .listener .closed]

theorem status_events_in_order_stopped : ∃ s,
    exec (listenedStep steady) Listened.init stoppedAtOnce = some s ∧
    s.events "sw1" = [⟨"sw1", .starting⟩, ⟨"sw1", .stopped⟩] ∧
    (s.events "sw1").getLast? = some ⟨"sw1", s.run.watch⟩ := by
  have hrun : ∃ s, exec (listenedStep steady) Listened.init stoppedAtOnce = some s ∧
      s.events "sw1" = [⟨"sw1", .starting⟩, ⟨"sw1", .stopped⟩] ∧ s.listener.phase = .ended :=
    ⟨_, rfl, rfl, rfl⟩
  obtain ⟨s, hs, hevents, hended⟩ := hrun
  exact ⟨s, hs, hevents, ((status_events_in_order "sw1" (reachable_of_exec hs)).2 hended).2.2.1⟩

/-- The steps of the listener alone. -/
theorem exec_listener (s : Listened) (as : List Watch.Act) :
    exec (listenedStep c) s (as.map .listener) =
      (exec (Listener.step (statusChannel s.run)) s.listener as).map
        fun l => { s with listener := l } := by
  induction as generalizing s with
  | nil => rfl
  | cons a as ih =>
      rw [List.map_cons, exec_cons, exec_cons, listenedStep]
      cases s.listener.step (statusChannel s.run) a with
      | none => rfl
      | some l => exact ih { s with listener := l }

/-- **The listener gets to the status that is shown elsewhere**, from every state that a session can
be in and whatever it has missed: by four steps of its own at most it emits the present status, and
if nobody publishes any more it ends. -/
theorem status_events_catch_up (name : String) {s : Listened}
    (h : Reachable (listenedStep c) Listened.init s) :
    ∃ (as : List Watch.Act) (t : Listened),
      exec (listenedStep c) s (as.map .listener) = some t ∧ as.length ≤ 4 ∧
      t.run = s.run ∧ (t.events name).getLast? = some ⟨name, s.run.watch⟩ ∧
      (s.run.main.ended = true → s.run.uptime.phase = .ended → t.listener.phase = .ended) := by
  obtain ⟨-, -, ns, hf⟩ := Listened.Kept.of_reachable h
  obtain ⟨as, l, hl, hlen, hshown, hend⟩ := hf.catches_up
  refine ⟨as, { s with listener := l }, ?_, hlen, rfl, ?_, fun hm hu => hend ?_⟩
  · rw [exec_listener, hl]
    rfl
  · rw [Listened.events, List.getLast?_map, hshown]
    rfl
  · rw [statusChannel, hm, hu]
    rfl

/-- The listener has missed everything. -/
def unlistened : List ListenedAct :=
  [.run (.main 0), .run .cancel, .run (.main 0), .run (.main 0), .run (.main 0),
    .run (.uptime .kill)]

theorem status_events_catch_up_unlistened : ∃ s t : Listened,
    exec (listenedStep steady) Listened.init unlistened = some s ∧ s.events "sw1" = [] ∧
    Reachable (listenedStep steady) s t ∧ t.listener.phase = .ended ∧
    (t.events "sw1").getLast? = some ⟨"sw1", .stopped⟩ := by
  have hrun : ∃ s, exec (listenedStep steady) Listened.init unlistened = some s ∧
      s.events "sw1" = [] ∧ s.run.watch = .stopped ∧ s.run.main.ended = true ∧
      s.run.uptime.phase = .ended := ⟨_, rfl, rfl, rfl, rfl, rfl⟩
  obtain ⟨s, hs, hevents, hwatch, hmain, huptime⟩ := hrun
  obtain ⟨as, t, ht, -, -, hlast, hended⟩ := status_events_catch_up "sw1" (reachable_of_exec hs)
  exact ⟨s, t, hs, hevents, reachable_of_exec ht, hended hmain huptime, hwatch ▸ hlast⟩

end Runner

end TermHub
