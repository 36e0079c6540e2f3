/-
**What observers read while a session runs.**

Two tasks write to the status watch: the main loop, at four places, and the ticker, which publishes
`Running` once a second until it is cancelled or aborted.  The loop aborts the ticker before it
publishes its last status, but does not wait for it, and it never tells the ticker about a loss.

Main definitions:

* `TerminalLast`, `Final` — nothing is published after a terminal status, and the ticker cannot
  change that any more;
* `TickerQuiet` — the loop publishes its last status while the ticker is not being polled;
* `Announced`, `Alive` — what the watch shows during the back-off, and while an instance is alive;
* `TickerAway`, `TickerAlive` — the ticker does not publish during the back-off, and publishes only
  while an instance is alive.

Main results:

* `terminal_final_iff` — **a terminal status is final exactly in the runs whose last status is
  published while the ticker is not being polled**;
* `status_truthful_iff` — **the watch is truthful exactly in the runs whose ticker is**.
-/

import TermHub.RunLoop

set_option relaxedAutoImplicit false
set_option autoImplicit false

namespace TermHub

namespace Runner

open Transition

/-! ### The last status -/

/-- Nothing is published after a terminal status. -/
def TerminalLast (l : List SessionStatus) : Prop := ∀ st ∈ l.dropLast, st.isTerminal = false

theorem terminalLast_concat (l : List SessionStatus) (st : SessionStatus) :
    TerminalLast (l ++ [st]) ↔ ∀ x ∈ l, x.isTerminal = false := by
  rw [TerminalLast, List.dropLast_concat]

theorem terminalLast_of_forall {l : List SessionStatus} (h : ∀ x ∈ l, x.isTerminal = false) :
    TerminalLast l := fun st hst => h st (List.dropLast_subset l hst)

/-- The task is being polled. -/
def UptimePhase.inPoll : UptimePhase → Bool
  | polling => true
  | ticked => true
  | _ => false

/-- The ticker acts. -/
def Act.IsTicker : Act → Prop
  | .uptime _ => True
  | _ => False

/-- **The status is final**: whatever the ticker does from here, nothing is published after a
terminal status. -/
def Final (c : Params) (s : RunState) : Prop :=
  ∀ t, Reach (step c) (fun _ a => a.IsTicker) s t → TerminalLast t.published

/-- When the loop publishes its last status the ticker is not in the middle of a poll. -/
def TickerQuiet (s : RunState) : Act → Prop
  | .main _ =>
    match s.main with
    | .publishLast _ => s.uptime.phase.inPoll = false
    | _ => True
  | _ => True

instance (s : RunState) (a : Act) : Decidable (TickerQuiet s a) := by
  unfold TickerQuiet
  split
  · split <;> infer_instance
  · infer_instance

/-! ### The invariant of the main loop -/

/-- What every run keeps about the exits of the loop: the statuses it leaves with are terminal, it
aborts the ticker before it publishes them, and no terminal status is published before. -/
structure Exits (s : RunState) : Prop where
  abort_terminal : ∀ last, s.main = .abortUptime last → last.isTerminal = true
  publish_terminal : ∀ last, s.main = .publishLast last → last.isTerminal = true
  publish_aborted : ∀ last, s.main = .publishLast last → s.uptime.aborted = true
  returned_aborted : s.main = .returned → s.uptime.aborted = true
  returned_terminal : s.main = .returned → ∃ st ∈ s.published, st.isTerminal = true
  not_before : s.main ≠ .returned → ∀ st ∈ s.published, st.isTerminal = false

theorem exits_init : Exits RunState.init := by
  constructor <;> simp [RunState.init]

/-- The loop is about to leave, or has left. -/
def Main.isExit : Main → Bool
  | abortUptime _ => true
  | publishLast _ => true
  | returned => true
  | _ => false

/-- Before the loop leaves there is only one thing to keep. -/
theorem exits_of_not_isExit {s : RunState} (hm : s.main.isExit = false)
    (hp : ∀ st ∈ s.published, st.isTerminal = false) : Exits s where
  abort_terminal last h := by simp [h, Main.isExit] at hm
  publish_terminal last h := by simp [h, Main.isExit] at hm
  publish_aborted last h := by simp [h, Main.isExit] at hm
  returned_aborted h := by simp [h, Main.isExit] at hm
  returned_terminal h := by simp [h, Main.isExit] at hm
  not_before _ := hp

/-- The loop leaves with a terminal status. -/
theorem exits_of_abortUptime {s : RunState} {last : SessionStatus} (hm : s.main = .abortUptime last)
    (hlast : last.isTerminal = true) (hp : ∀ st ∈ s.published, st.isTerminal = false) :
    Exits s := by
  constructor <;> simp [hm, hlast]
  exact hp

theorem forall_mem_concat_not_terminal {l : List SessionStatus} {st : SessionStatus}
    (h : ∀ x ∈ l, x.isTerminal = false) (hst : st.isTerminal = false) :
    ∀ x ∈ l ++ [st], x.isTerminal = false := by
  simpa [or_imp, forall_and, hst] using h

theorem Exits.mainStep {c : Params} {secs : ℕ} {s t : RunState} (hi : Exits s)
    (h : s.mainStep c secs = some t) : Exits t := by
  cases RunState.mainStep_stepped h with
  | starts hm | shows hm | announces hm =>
      exact exits_of_not_isExit rfl
        (forall_mem_concat_not_terminal (hi.not_before (by simp [hm])) rfl)
  | wires hm | creates hm | panics hm | joins hm | cancelsBridge hm | awaitsBridge hm
  | abortsPump hm | loses hm | tells hm | counts hm | sleeps hm =>
      exact exits_of_not_isExit rfl (hi.not_before (by simp [hm]))
  | stops hm | finishes hm | fails hm | resigns hm | givesUp hm | interrupted hm =>
      exact exits_of_abortUptime rfl rfl (hi.not_before (by simp [hm]))
  | abortsUptime hm =>
      have hlast := hi.abort_terminal _ hm
      have hbefore := hi.not_before (by simp [hm])
      constructor <;> simp [hlast]
      exact hbefore
  | returns hm =>
      have hlast := hi.publish_terminal _ hm
      have haborted := hi.publish_aborted _ hm
      constructor <;> simp [haborted, RunState.publish]
      exact .inr hlast

theorem Exits.uptimeStep {s t : RunState} {a : UptimeAct} (hi : Exits s)
    (h : s.uptimeStep a = some t) : Exits t := by
  cases RunState.uptimeStep_stepped h with
  | publish =>
      refine ⟨hi.abort_terminal, hi.publish_terminal, hi.publish_aborted, hi.returned_aborted,
        fun hm => ?_, fun hm => ?_⟩
      · obtain ⟨st, hst, hterm⟩ := hi.returned_terminal hm
        exact ⟨st, List.mem_append_left _ hst, hterm⟩
      · exact forall_mem_concat_not_terminal (hi.not_before hm) rfl
  | _ => exact ⟨hi.abort_terminal, hi.publish_terminal, hi.publish_aborted, hi.returned_aborted,
      hi.returned_terminal, hi.not_before⟩

/-- What the exits are about is changed by the loop and the ticker only. -/
theorem Exits.congr {s t : RunState} (hi : Exits s) (hm : t.main = s.main)
    (hu : t.uptime = s.uptime) (hp : t.published = s.published) : Exits t := by
  constructor <;> simp only [hm, hu, hp]
  · exact hi.abort_terminal
  · exact hi.publish_terminal
  · exact hi.publish_aborted
  · exact hi.returned_aborted
  · exact hi.returned_terminal
  · exact hi.not_before

theorem Exits.step {c : Params} {s t : RunState} {a : Act} (hi : Exits s)
    (h : step c s a = some t) : Exits t := by
  by_cases hm : ∃ secs, a = .main secs
  · obtain ⟨secs, rfl⟩ := hm
    exact hi.mainStep h
  by_cases hu : ∃ b, a = .uptime b
  · obtain ⟨b, rfl⟩ := hu
    exact hi.uptimeStep h
  obtain ⟨hmain | ⟨⟨d, hd⟩, hmain⟩, hup, hpub⟩ :=
    step_elsewhere h (fun secs e => hm ⟨secs, e⟩) (fun b e => hu ⟨b, e⟩)
  · exact hi.congr hmain hup hpub
  · have hne : ∀ st ∈ s.published, st.isTerminal = false := hi.not_before (by simp [hd])
    constructor <;> simp [hmain, hpub]
    exact hne

/-! ### A terminal status is final -/

theorem Final.now {c : Params} {s : RunState} (h : Final c s) : TerminalLast s.published :=
  h s Reach.refl

/-- While the ticker is being polled, or was when it was aborted, it can still publish. -/
theorem inPoll_publishes (c : Params) {s : RunState} (h : s.uptime.phase.inPoll = true) :
    ∃ t, Reach (Runner.step c) (fun _ a => a.IsTicker) s t ∧
      t.published = s.published ++ [.running 0] := by
  have ticked : ∀ u : RunState, u.uptime.phase = .ticked → ∃ t,
      Runner.step c u (.uptime (.publish 0)) = some t ∧
        t.published = u.published ++ [.running 0] := by
    intro u hu
    exact ⟨_, if_pos hu, rfl⟩
  cases hp : s.uptime.phase with
  | polling =>
      have htick : Runner.step c s (.uptime .tick) =
          some { s with uptime := { s.uptime with phase := .ticked } } := if_pos hp
      obtain ⟨t, ht, hpub⟩ := ticked { s with uptime := { s.uptime with phase := .ticked } } rfl
      have hreach : Reach (Runner.step c) (fun _ a => a.IsTicker) s _ :=
        Reach.refl.tail (a := .uptime .tick) trivial htick
      exact ⟨t, hreach.tail (a := .uptime (.publish 0)) trivial ht, hpub⟩
  | ticked =>
      obtain ⟨t, ht, hpub⟩ := ticked s hp
      exact ⟨t, Reach.refl.tail (a := .uptime (.publish 0)) trivial ht, hpub⟩
  | unspawned => simp [hp, UptimePhase.inPoll] at h
  | suspended => simp [hp, UptimePhase.inPoll] at h
  | ended => simp [hp, UptimePhase.inPoll] at h

/-- The ticker, aborted while it is not being polled, does nothing any more. -/
theorem uptimeStep_quiet {s t : RunState} {a : UptimeAct} (ha : s.uptime.aborted = true)
    (hq : s.uptime.phase.inPoll = false) (h : s.uptimeStep a = some t) :
    t.uptime.aborted = true ∧ t.uptime.phase.inPoll = false ∧ t.published = s.published := by
  cases RunState.uptimeStep_stepped h with
  | kill => exact ⟨ha, rfl, rfl⟩
  | poll _ hpoll =>
      rw [ha] at hpoll
      cases hpoll
  | suspend hp | tick hp | publish hp | cancelled hp =>
      rw [hp] at hq
      cases hq

theorem final_of_quiet {c : Params} {s : RunState} (ha : s.uptime.aborted = true)
    (hq : s.uptime.phase.inPoll = false) (hl : TerminalLast s.published) : Final c s := by
  intro t ht
  have key : t.uptime.aborted = true ∧ t.uptime.phase.inPoll = false ∧
      t.published = s.published := by
    refine ht.invariant (I := fun u => u.uptime.aborted = true ∧
      u.uptime.phase.inPoll = false ∧ u.published = s.published) ⟨ha, hq, rfl⟩ ?_
    rintro u a v ⟨h1, h2, h3⟩ hok hs
    cases a with
    | uptime b =>
        obtain ⟨h4, h5, h6⟩ := uptimeStep_quiet h1 h2 hs
        exact ⟨h4, h5, h6.trans h3⟩
    | _ => exact hok.elim
  exact key.2.2 ▸ hl

theorem Exits.final_iff {c : Params} {s : RunState} (hi : Exits s) :
    Final c s ↔ (s.main = .returned → TerminalLast s.published ∧
      s.uptime.phase.inPoll = false) := by
  constructor
  · intro hf hm
    refine ⟨hf.now, Bool.eq_false_iff.2 fun hp => ?_⟩
    obtain ⟨t, ht, hpub⟩ := inPoll_publishes c hp
    obtain ⟨st, hst, hterm⟩ := hi.returned_terminal hm
    have hlast := hf t ht
    rw [hpub, terminalLast_concat] at hlast
    rw [hlast st hst] at hterm
    cases hterm
  · intro h
    by_cases hm : s.main = .returned
    · exact final_of_quiet (hi.returned_aborted hm) (h hm).2 (h hm).1
    · -- before the loop returns nothing terminal has been published
      intro t ht
      refine terminalLast_of_forall ?_
      have key : Exits t ∧ t.main ≠ .returned := by
        refine ht.invariant (I := fun u => Exits u ∧ u.main ≠ .returned) ⟨hi, hm⟩ ?_
        rintro u a v ⟨hu, hne⟩ hok hs
        refine ⟨hu.step hs, ?_⟩
        cases a with
        | uptime b =>
            rw [RunState.uptimeStep_eq hs]
            exact hne
        | _ => exact hok.elim
      exact key.1.not_before key.2

theorem tickerQuiet_main {s : RunState} {secs : ℕ} : TickerQuiet s (.main secs) ↔
    ∀ last, s.main = .publishLast last → s.uptime.phase.inPoll = false := by
  unfold TickerQuiet
  cases hm : s.main <;> simp

/-- From a final state a step leads to a final state exactly if the ticker is quiet. -/
theorem Final.step_iff {c : Params} {s t : RunState} {a : Act} (hi : Exits s) (hf : Final c s)
    (h : step c s a = some t) : Final c t ↔ TickerQuiet s a := by
  rw [(hi.step h).final_iff]
  rw [hi.final_iff] at hf
  cases a with
  | main secs =>
      rw [tickerQuiet_main]
      by_cases hlast : ∃ last, s.main = .publishLast last
      · obtain ⟨last, hlast⟩ := hlast
        have ht : t = { s.publish last with main := .returned, announced := none } := by
          have h' : s.mainStep c secs = some t := h
          simp only [RunState.mainStep, hlast] at h'
          exact (Option.some_inj.1 h').symm
        have hfirst : TerminalLast t.published := by
          rw [ht]
          exact (terminalLast_concat _ _).2 (hi.not_before (by simp [hlast]))
        constructor
        · intro hq last' _
          have := (hq (by rw [ht])).2
          rwa [ht] at this
        · intro hq _
          refine ⟨hfirst, ?_⟩
          rw [ht]
          exact hq last hlast
      · have hne : t.main ≠ .returned := by
          cases RunState.mainStep_stepped h with
          | returns hm => exact absurd ⟨_, hm⟩ hlast
          | _ => simp
        exact ⟨fun _ last hl => absurd ⟨last, hl⟩ hlast, fun _ hr => absurd hr hne⟩
  | uptime b =>
      refine ⟨fun _ => trivial, fun _ hm => ?_⟩
      have hs : s.main = .returned := by
        rw [← hm, RunState.uptimeStep_eq h]
      obtain ⟨hl, hq⟩ := hf hs
      obtain ⟨-, h2, h3⟩ := uptimeStep_quiet (hi.returned_aborted hs) hq h
      exact ⟨h3 ▸ hl, h2⟩
  | _ =>
      refine ⟨fun _ => trivial, fun _ hm => ?_⟩
      obtain ⟨hmain | ⟨-, hmain⟩, hup, hpub⟩ := step_elsewhere h (by simp) (by simp)
      · rw [hup, hpub]
        exact hf (hmain ▸ hm)
      · simp [hmain] at hm

/-- **A terminal status is final exactly if the ticker is not being polled** when the loop
publishes its last status. -/
theorem terminal_final_iff (c : Params) (as : List Act) (t : RunState)
    (hr : exec (step c) RunState.init as = some t) :
    Along (step c) (Final c) RunState.init as ↔ Meets (step c) TickerQuiet RunState.init as :=
  along_iff_meets (I := Exits) (fun _ _ _ hi h => hi.step h)
    (fun _ _ _ hi hf h => hf.step_iff hi h) exits_init
    (exits_init.final_iff.2 (by simp [RunState.init])) hr

/-- The ticker is being polled while the driver returns and the loop leaves. -/
def lateTick : List Act :=
  [.main 0, .main 0, .main 0, .main 0, .uptime .poll, .driver (.finish (.returned (.ok ()))),
    .main 5, .main 5, .bridge .cancelled, .main 5, .main 5, .main 5, .main 5, .main 5,
    .uptime .tick, .uptime (.publish 5)]

/-- **A session that has stopped shows `Running` again.** -/
theorem terminal_not_final : ¬ ∀ (c : Params) (s : RunState),
    Reachable (step c) RunState.init s → TerminalLast s.published := by
  intro h
  have hrun : ∃ s, exec (step steady) RunState.init lateTick = some s ∧
      s.published = [.starting, .running 0, .stopped, .running 5] := ⟨_, rfl, rfl⟩
  obtain ⟨s, hs, hpub⟩ := hrun
  have hlast := h steady s (reachable_of_exec hs)
  rw [hpub] at hlast
  exact absurd (hlast .stopped (by simp)) (by simp)

/-- The ticker is suspended when the loop leaves. -/
def earlyTick : List Act :=
  [.main 0, .uptime .poll, .uptime .tick, .uptime (.publish 0), .uptime .suspend, .cancel, .main 1,
    .main 1, .main 1, .uptime .kill]

theorem terminal_final_suspended : ∃ t, exec (step steady) RunState.init earlyTick = some t ∧
    t.published = [.starting, .running 0, .stopped] ∧
    Along (step steady) (Final steady) RunState.init earlyTick :=
  ⟨_, rfl, rfl, (terminal_final_iff steady earlyTick _ rfl).2 (by decide)⟩

/-! ### The watch tells the truth -/

/-- From the announcement of an attempt until a driver is started or the loop ends, the watch shows
the attempt. -/
def Announced (s : RunState) : Prop := ∀ a, s.announced = some a → s.watch = .reconnecting a

/-- An instance that the factory has made is alive until the loop has joined it. -/
def Main.hasInstance : Main → Bool
  | publishRunning => true
  | joinDriver => true
  | _ => false

/-- The loop waits for the instance. -/
def Main.awaits : Main → Bool
  | joinDriver => true
  | _ => false

/-- How many statuses had been published when the loop joined an instance last. -/
def joinedAt (n : ℕ) (s : RunState) (_ : Act) (t : RunState) : ℕ :=
  if s.main.awaits = true ∧ t.main.awaits = false then s.published.length else n

/-- **`Running` is shown only while an instance is alive**, or as what the watch has shown when the
loop joined the instance: the watch keeps that until the loop says what comes next. -/
def Alive (joined : ℕ) (s : RunState) : Prop :=
  s.watch.isRunning = true → s.main.hasInstance = true ∨ s.published.length = joined

/-- The ticker does not publish between an announcement and the start of a driver. -/
def TickerAway (s : RunState) : Act → Prop
  | .uptime (.publish _) => s.announced = none
  | _ => True

/-- The ticker publishes only while an instance is alive. -/
def TickerAlive (s : RunState) : Act → Prop
  | .uptime (.publish _) => s.main.hasInstance = true
  | _ => True

instance (s : RunState) : (a : Act) → Decidable (TickerAway s a)
  | .uptime (.publish _) => inferInstanceAs (Decidable (s.announced = none))
  | .uptime .poll | .uptime .suspend | .uptime .kill | .uptime .tick | .uptime .cancelled
  | .main _ | .wake | .cancel | .sendInput _ | .forward | .pump _ _ | .bridge _ | .driver _ =>
    .isTrue trivial

instance (s : RunState) : (a : Act) → Decidable (TickerAlive s a)
  | .uptime (.publish _) => inferInstanceAs (Decidable (s.main.hasInstance = true))
  | .uptime .poll | .uptime .suspend | .uptime .kill | .uptime .tick | .uptime .cancelled
  | .main _ | .wake | .cancel | .sendInput _ | .forward | .pump _ _ | .bridge _ | .driver _ =>
    .isTrue trivial

/-- Where the loop starts, and where it publishes `Running`, no announcement stands. -/
structure Placed (s : RunState) : Prop where
  start : s.main = .start → s.announced = none
  publishRunning : s.main = .publishRunning → s.announced = none

theorem placed_init : Placed RunState.init := by
  constructor <;> simp [RunState.init]

theorem Placed.step {c : Params} {s t : RunState} {a : Act} (hi : Placed s)
    (h : Runner.step c s a = some t) : Placed t := by
  cases step_stepped h with
  | main h => cases RunState.mainStep_stepped h <;> constructor <;> simp
  | wake => constructor <;> simp
  | cancel | sendInput | forward => exact ⟨hi.start, hi.publishRunning⟩
  | uptime h =>
      rw [RunState.uptimeStep_eq h]
      exact ⟨hi.start, hi.publishRunning⟩
  | pump h =>
      rw [RunState.pumpStep_eq h]
      exact ⟨hi.start, hi.publishRunning⟩
  | bridge h =>
      rw [RunState.bridgeStep_eq h]
      exact ⟨hi.start, hi.publishRunning⟩
  | driver h =>
      rw [RunState.driverStep_eq h]
      exact ⟨hi.start, hi.publishRunning⟩

theorem watch_publish (s : RunState) (st : SessionStatus) : (s.publish st).watch = st := by
  simp [RunState.watch, RunState.publish]

/-- An announcement stays true exactly if the ticker is away. -/
theorem Announced.step_iff {c : Params} {s t : RunState} {a : Act} (hi : Placed s)
    (hp : Announced s) (h : step c s a = some t) : Announced t ↔ TickerAway s a := by
  cases step_stepped h with
  | main h =>
      refine iff_of_true ?_ trivial
      cases RunState.mainStep_stepped h with
      | starts hm =>
          intro n hn
          cases (hi.start hm).symm.trans hn
      | shows hm =>
          intro n hn
          cases (hi.publishRunning hm).symm.trans hn
      | announces hm =>
          intro n hn
          obtain rfl := Option.some_inj.1 hn
          exact watch_publish s _
      | creates | returns =>
          intro n hn
          cases hn
      | _ => exact hp
  | uptime h =>
      cases RunState.uptimeStep_stepped h with
      | publish =>
          refine ⟨fun ht => ?_, fun hnone n hn => ?_⟩
          · refine Option.eq_none_iff_forall_ne_some.2 fun n hn => ?_
            cases (watch_publish s _).symm.trans (ht n hn)
          · cases hnone.symm.trans hn
      | _ => exact iff_of_true hp trivial
  | wake | cancel | sendInput | forward => exact iff_of_true hp trivial
  | pump h =>
      rw [RunState.pumpStep_eq h]
      exact iff_of_true hp trivial
  | bridge h =>
      rw [RunState.bridgeStep_eq h]
      exact iff_of_true hp trivial
  | driver h =>
      rw [RunState.driverStep_eq h]
      exact iff_of_true hp trivial

/-- What has been published last decides. -/
theorem alive_of_watch {n : ℕ} {s : RunState} {st : SessionStatus} (hw : s.watch = st)
    (hst : st.isRunning = false) : Alive n s := by
  intro hrun
  rw [hw, hst] at hrun
  cases hrun

/-- Where no instance is alive, what is shown has been shown since the last join. -/
theorem Alive.carry {n : ℕ} {s t : RunState} (hp : Alive n s) (hpub : t.published = s.published)
    (hm : s.main.hasInstance = true → t.main.hasInstance = true) : Alive n t := by
  intro hrun
  rw [RunState.watch, hpub] at hrun
  rw [hpub]
  exact (hp hrun).imp_left hm

/-- The note changes where an instance is joined. -/
theorem joinedAt_eq {n : ℕ} {s t : RunState} {a : Act} (h : s.main.awaits = false ∨
    t.main.awaits = true) : joinedAt n s a t = n := by
  refine if_neg fun hj => ?_
  rcases h with h | h
  · cases h.symm.trans hj.1
  · cases h.symm.trans hj.2

/-- **A step of the loop keeps `Running` true.** -/
theorem Alive.mainStep {c : Params} {n secs : ℕ} {s t : RunState} (he : Exits s) (hp : Alive n s)
    (h : s.mainStep c secs = some t) : Alive (joinedAt n s (.main secs) t) t := by
  have note : s.main ≠ .joinDriver → joinedAt n s (.main secs) t = n := by
    intro hne
    refine joinedAt_eq (.inl ?_)
    cases hm : s.main <;> first | rfl | exact absurd hm hne
  cases RunState.mainStep_stepped h with
  | joins hm hd => exact fun _ => .inr (by simp [joinedAt, hm, Main.awaits])
  | shows | creates => exact fun _ => .inl rfl
  | starts | announces => exact alive_of_watch (watch_publish s _) rfl
  | returns hm =>
      exact alive_of_watch (watch_publish s _)
        (SessionStatus.isRunning_of_isTerminal (he.publish_terminal _ hm))
  | wires hm | panics hm | stops hm | cancelsBridge hm | awaitsBridge hm | abortsPump hm
  | finishes hm | fails hm | resigns hm | loses hm | tells hm | counts hm | givesUp hm | sleeps hm
  | interrupted hm | abortsUptime hm =>
      rw [note (by simp [hm])]
      exact hp.carry rfl (by simp [hm, Main.hasInstance])

/-- `Running` stays true to the instances exactly if the step is. -/
theorem Alive.step_iff {c : Params} {n : ℕ} {s t : RunState} {a : Act} (he : Exits s)
    (hn : n ≤ s.published.length) (hp : Alive n s) (h : step c s a = some t) :
    Alive (joinedAt n s a t) t ↔ TickerAlive s a := by
  cases step_stepped h with
  | main h => exact iff_of_true (hp.mainStep he h) trivial
  | uptime h =>
      have hmain : t.main = s.main := by rw [RunState.uptimeStep_eq h]
      rw [joinedAt_eq (by rw [hmain]; cases s.main.awaits <;> simp)]
      cases RunState.uptimeStep_stepped h with
      | publish =>
          refine ⟨fun ht => (ht (by simp [RunState.watch, RunState.publish])).resolve_right ?_,
            fun ha _ => .inl ha⟩
          simp only [RunState.publish, List.length_append, List.length_singleton]
          omega
      | _ => exact iff_of_true (hp.carry rfl id) trivial
  | wake hm =>
      rw [joinedAt_eq (.inl (by simp [hm, Main.awaits]))]
      exact iff_of_true (hp.carry rfl (by simp [hm, Main.hasInstance])) trivial
  | cancel | sendInput | forward =>
      rw [joinedAt_eq (by cases s.main.awaits <;> simp)]
      exact iff_of_true (hp.carry rfl id) trivial
  | pump h =>
      rw [RunState.pumpStep_eq h, joinedAt_eq (by cases s.main.awaits <;> simp)]
      exact iff_of_true (hp.carry rfl id) trivial
  | bridge h =>
      rw [RunState.bridgeStep_eq h, joinedAt_eq (by cases s.main.awaits <;> simp)]
      exact iff_of_true (hp.carry rfl id) trivial
  | driver h =>
      rw [RunState.driverStep_eq h, joinedAt_eq (by cases s.main.awaits <;> simp)]
      exact iff_of_true (hp.carry rfl id) trivial

/-- At the last join no more had been published than now. -/
theorem joinedAt_le {c : Params} {n : ℕ} {s t : RunState} {a : Act} (hn : n ≤ s.published.length)
    (h : step c s a = some t) : joinedAt n s a t ≤ t.published.length := by
  rw [step_published h, List.length_append, joinedAt]
  split <;> omega

/-- **The watch is truthful exactly if the ticker is**: the announced attempt stays visible exactly
in the runs whose ticker does not publish from the announcement to the next instance, and `Running`
is shown only while an instance is alive exactly in the runs whose ticker publishes only then. -/
theorem status_truthful_iff (c : Params) (as : List Act) (t : RunState)
    (hr : exec (step c) RunState.init as = some t) :
    (Along (step c) Announced RunState.init as ↔ Meets (step c) TickerAway RunState.init as) ∧
    (Along (observed (step c) joinedAt) (fun p => Alive p.1 p.2) (0, RunState.init) as ↔
      Meets (step c) TickerAlive RunState.init as) := by
  constructor
  · refine along_iff_meets (I := Placed) (fun _ _ _ hi h => hi.step h)
      (fun _ _ _ hi hp h => hp.step_iff hi h) placed_init ?_ hr
    simp [Announced, RunState.init]
  · have hstep : ∀ (n : ℕ) (s : RunState) (a : Act) (t : RunState),
        Exits s ∧ n ≤ s.published.length → Alive n s → step c s a = some t →
        (Alive (joinedAt n s a t) t ↔ TickerAlive s a) := fun _ _ _ _ hi hp h =>
      hp.step_iff hi.1 hi.2 h
    refine (along_observed_iff_meets (fun _ _ _ _ hi h => ⟨hi.1.step h, joinedAt_le hi.2 h⟩)
      hstep ⟨exits_init, Nat.le_refl 0⟩ ?_ hr).trans (meets_observed 0 RunState.init as)
    simp [Alive, RunState.init, RunState.watch, SessionStatus.isRunning]

/-- A loss, and a tick during the back-off. -/
def tickInBackoff : List Act :=
  [.main 0, .main 0, .main 0, .main 0, .driver (.finish (.returned (.error (.ioLost "eof")))),
    .main 3, .main 3, .bridge .cancelled, .main 3, .main 3, .main 3, .main 3, .main 3, .main 3,
    .uptime .poll, .uptime .tick, .uptime (.publish 4)]

/-- **During the back-off the watch shows `Running`**, with an attempt announced and no instance
alive. -/
theorem status_not_truthful :
    (¬ ∀ (c : Params) (s : RunState), Reachable (step c) RunState.init s → Announced s) ∧
    (¬ ∀ (c : Params) (n : ℕ) (s : RunState),
      Reachable (observed (step c) joinedAt) (0, RunState.init) (n, s) → Alive n s) := by
  have hrun : ∃ s, exec (step steady) RunState.init tickInBackoff = some s ∧
      exec (observed (step steady) joinedAt) (0, RunState.init) tickInBackoff = some (2, s) ∧
      s.announced = some 1 ∧ s.watch = .running 4 ∧ s.main.hasInstance = false ∧
      s.published.length = 4 := ⟨_, rfl, rfl, rfl, rfl, rfl, rfl⟩
  obtain ⟨s, hs, hobs, hann, hwatch, hnone, hlen⟩ := hrun
  constructor
  · intro h
    have hrec := h steady s (reachable_of_exec hs) 1 hann
    rw [hwatch] at hrec
    cases hrec
  · intro h
    rcases h steady 2 s (reachable_of_exec hobs) (by rw [hwatch]; rfl) with hinst | hold
    · cases hnone.symm.trans hinst
    · cases hlen.symm.trans hold

/-- The ticker publishes while the first instance runs; this one is lost, the loop backs off while
the ticker is suspended, and the ticker publishes again when the next instance runs. -/
def tickWithInstance : List Act :=
  [.main 0, .main 0, .main 0, .main 0, .uptime .poll, .uptime .tick, .uptime (.publish 1),
    .uptime .suspend, .driver (.finish (.returned (.error (.ioLost "eof")))), .main 3, .main 3,
    .bridge .cancelled, .main 3, .main 3, .main 3, .main 3, .main 3, .main 3, .main 3, .wake,
    .main 4, .main 4, .main 4, .uptime .poll, .uptime .tick, .uptime (.publish 5)]

theorem status_truthful_reconnects :
    ∃ t, exec (step steady) RunState.init tickWithInstance = some t ∧
      t.published = [.starting, .running 0, .running 1, .reconnecting 1, .running 4, .running 5] ∧
      Along (step steady) Announced RunState.init tickWithInstance ∧
      Along (observed (step steady) joinedAt) (fun p => Alive p.1 p.2) (0, RunState.init)
        tickWithInstance := by
  have hiff := status_truthful_iff steady tickWithInstance _ rfl
  exact ⟨_, rfl, rfl, hiff.1.2 (by decide), hiff.2.2 (by decide)⟩

end Runner

end TermHub
