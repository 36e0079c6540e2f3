/-
**The end of a session.**

`stop_session` cancels the token of a session and then waits for its runner.  The main loop, the
bridge, the event pumps, the forwarding task and the driver take part in the end, over channels that
may be full; the driver looks at the token only when it has carried out all that it is doing.

Main definitions:

* `Closes` — the steps that bring a session to its end;
* `RunState.left` — how many of them are left;
* `Unaided` — what happens in a session while nobody outside helps it.

Main results:

* `cancelled_winds_down` — **a cancelled session takes a bounded number of these steps**, waits for
  nothing but its driver, and leaves no task of its own behind;
* `session_can_end` — **a cancelled session can always end**, with any driver whose loop is that of
  a `Device`: its tasks never wait for each other.
-/

import TermHub.RunLoopRetry
import TermHub.RunLoopStatus
import TermHub.Verdict

set_option relaxedAutoImplicit false
set_option autoImplicit false

namespace TermHub

namespace Runner

open Transition
open Upstream (Attended step_cancelled)

/-! ### What is left to do -/

/-- How many steps the main loop has still to take after a cancellation. -/
def Main.left : Main → ℕ
  | returned => 0
  | panicked => 0
  | publishLast _ => 1
  | abortUptime _ => 2
  | loopTop => 3
  | start => 4
  | sleep _ => 4
  | checkMax .. => 5
  | publishReconnecting .. => 6
  | nextDelay _ => 7
  | broadcastLost _ => 8
  | matchResult _ => 9
  | abortPump _ => 10
  | awaitBridge _ => 11
  | cancelBridge _ => 12
  | joinDriver => 13
  | publishRunning => 14
  | callFactory => 15

/-- How many steps a bridge can take without a driver. -/
def Bridge.left : Bridge → ℕ
  | ended => 0
  | holding _ => 1
  | waiting => 2

/-- How many steps are left to the end of a cancelled session. -/
def RunState.left (s : RunState) : ℕ :=
  s.main.left + if s.driver.receives then 2 else s.bridge.left

/-- The steps that bring a session to its end: those of the main loop, and those of the bridge of a
driver that is gone. -/
def Closes (s : RunState) : Act → Prop
  | .main _ => True
  | .wake => True
  | .bridge _ => s.driver.receives = false
  | _ => False

theorem Bridge.left_le (b : Bridge) : b.left ≤ 2 := by
  cases b <;> simp [Bridge.left]

theorem RunState.left_le (s : RunState) : s.left ≤ 17 := by
  have hm : s.main.left ≤ 15 := by cases s.main <;> simp [Main.left]
  have hb := s.bridge.left_le
  unfold RunState.left
  split <;> omega

/-- What is left, when only the main loop has gone on. -/
theorem RunState.left_lt {s t : RunState} (hm : t.main.left < s.main.left)
    (hd : t.driver = s.driver) (hb : t.bridge = s.bridge) : t.left < s.left := by
  simp only [RunState.left, hd, hb]
  omega

variable {c : Params} {s t : RunState}

/-- In a cancelled session the main loop does not start over. -/
theorem mainStep_left {secs : ℕ} (hi : Attended s) (hc : s.cancelled = true)
    (h : s.mainStep c secs = some t) : t.left < s.left := by
  cases RunState.mainStep_stepped h with
  | wires hm hnot => cases hc.symm.trans hnot
  | creates hm hf =>
      simp only [RunState.left, hm, hi.fresh hm, Driver.receives, Main.left]
      omega
  | panics hm hf =>
      have hb := s.bridge.left_le
      simp only [RunState.left, hm, hi.fresh hm, Driver.receives, Main.left]
      simp [RunState.modifyPump]
      omega
  | starts hm | stops hm | shows hm | joins hm | cancelsBridge hm | awaitsBridge hm | abortsPump hm
  | finishes hm | fails hm | resigns hm | loses hm | tells hm | counts hm | announces hm
  | givesUp hm | sleeps hm | interrupted hm | abortsUptime hm | returns hm =>
      exact RunState.left_lt (by simp [hm, Main.left]) rfl rfl

/-- Every step that brings a cancelled session to its end is one less to take. -/
theorem closes_left {a : Act} (hi : Attended s) (hc : s.cancelled = true) (ha : Closes s a)
    (h : step c s a = some t) : t.left < s.left := by
  cases step_stepped h with
  | main h => exact mainStep_left hi hc h
  | wake hm => exact RunState.left_lt (by simp [hm, Main.left]) rfl rfl
  | bridge h =>
      have hrec : s.driver.receives = false := ha
      cases RunState.bridgeStep_stepped h with
      | take hb | fail hb | cancelled hb => simp [RunState.left, hrec, hb, Bridge.left]
      | give hb hyes => cases hrec.symm.trans hyes
  | cancel | sendInput | forward | uptime | pump | driver => exact ha.elim

/-- The other steps add nothing to what is left. -/
theorem left_elsewhere {a : Act} (ha : ¬ Closes s a) (h : step c s a = some t) :
    t.left ≤ s.left := by
  cases step_stepped h with
  | main h => exact absurd trivial ha
  | wake hm => exact absurd trivial ha
  | cancel | sendInput | forward => exact Nat.le_refl _
  | uptime h =>
      rw [RunState.uptimeStep_eq h]
      exact Nat.le_refl _
  | pump h =>
      rw [RunState.pumpStep_eq h]
      exact Nat.le_refl _
  | bridge h =>
      have hrec : s.driver.receives = true := by
        cases hr : s.driver.receives with
        | true => rfl
        | false => exact absurd hr ha
      rw [RunState.bridgeStep_eq h]
      simp [RunState.left, hrec]
  | driver h =>
      cases RunState.driverStep_stepped h with
      | recv | send => exact Nat.le_refl _
      | finish hd =>
          have hb := s.bridge.left_le
          simp only [RunState.left, hd, Driver.receives]
          simp [RunState.modifyPump]
          omega

/-! ### What the main loop leaves behind -/

/-- The main loop has a bridge that it has not waited for. -/
def Main.bridged : Main → Bool
  | callFactory => true
  | publishRunning => true
  | joinDriver => true
  | cancelBridge _ => true
  | awaitBridge _ => true
  | panicked => true
  | _ => false

/-- The main loop has a pump that it has not aborted. -/
def Main.pumped : Main → Bool
  | abortPump _ => true
  | m => m.bridged

/-- The main loop sees to the tasks of its driver instances: it waits for every bridge, and aborts
every pump before it makes the next one. -/
structure Tended (s : RunState) : Prop where
  joined : s.main = .publishRunning ∨ s.main = .joinDriver →
    s.driver = .running ∨ ∃ e, s.driver = .ended e
  awaited : ∀ r, s.main = .awaitBridge r → s.bridgeCancelled = true
  bridge : s.main.bridged = false → s.bridge = .ended
  pump : s.main.pumped = false → ∀ p ∈ s.pumps, p.aborted = true
  older : ∀ p ∈ s.pumps.tail, p.aborted = true

theorem tended_init : Tended RunState.init where
  joined h := by rcases h with h | h <;> cases h
  awaited _ h := nomatch h
  bridge _ := rfl
  pump _ _ hp := nomatch hp
  older _ hp := nomatch hp

theorem tail_modify_zero {α : Type} (l : List α) (f : α → α) : (l.modify 0 f).tail = l.tail := by
  cases l <;> rfl

/-- Aborting the present pump leaves none that has not been aborted. -/
theorem forall_aborted_modify {ps : List Pump} (h : ∀ p ∈ ps.tail, p.aborted = true) :
    ∀ p ∈ ps.modify 0 (fun p => { p with aborted := true }), p.aborted = true := by
  cases ps with
  | nil => exact fun p hp => nomatch hp
  | cons q ps =>
      rintro p hp
      rcases List.mem_cons.1 hp with rfl | hp
      · rfl
      · exact h p hp

theorem Tended.mainStep {secs : ℕ} (hi : Tended s) (h : s.mainStep c secs = some t) :
    Tended t := by
  have hpumps : s.main.pumped = false → ∀ p ∈ s.pumps, p.aborted = true := hi.pump
  have hno {p : Prop} : true = false → p := fun h => by cases h
  cases RunState.mainStep_stepped h with
  | wires hm hc =>
      rw [hm] at hpumps
      exact ⟨by simp, by simp, hno, hno, hpumps rfl⟩
  | creates hm hf => exact ⟨fun _ => .inl rfl, by simp, hno, hno, hi.older⟩
  | panics hm hf =>
      refine ⟨by simp, by simp, hno, hno, fun p hp => hi.older p ?_⟩
      rwa [RunState.modifyPump, tail_modify_zero] at hp
  | shows hm => exact ⟨fun _ => hi.joined (.inl hm), by simp, hno, hno, hi.older⟩
  | joins hm hd => exact ⟨by simp, by simp, hno, hno, hi.older⟩
  | cancelsBridge hm => exact ⟨by simp, fun _ _ => rfl, hno, hno, hi.older⟩
  | awaitsBridge hm hb => exact ⟨by simp, by simp, fun _ => hb, hno, hi.older⟩
  | abortsPump hm =>
      have hb : s.bridge = .ended := hi.bridge (by rw [hm]; rfl)
      have hall := forall_aborted_modify hi.older
      exact ⟨by simp, by simp, fun _ => hb, fun _ => hall,
        fun p hp => hall p (List.mem_of_mem_tail hp)⟩
  | starts hm | stops hm | finishes hm | fails hm | resigns hm | loses hm | tells hm | counts hm
  | announces hm | givesUp hm | sleeps hm | interrupted hm | abortsUptime hm | returns hm =>
      have hb : s.bridge = .ended := hi.bridge (by rw [hm]; rfl)
      rw [hm] at hpumps
      exact ⟨by simp [RunState.publish], by simp [RunState.publish], fun _ => hb,
        fun _ => hpumps rfl, hi.older⟩

/-- A step of a pump does not undo its abortion. -/
theorem Pump.step_aborted {p q : Pump} {room : Bool} {a : PumpAct} {e : PumpEffect}
    (h : p.step room a = some (q, e)) : q.aborted = p.aborted := by
  cases Pump.step_stepped h <;> rfl

/-- A step after which the main loop, its bridge and its driver are where they were. -/
theorem Tended.congr (hi : Tended s) (hm : t.main = s.main) (hd : t.driver = s.driver)
    (hb : t.bridge = s.bridge) (hc : t.bridgeCancelled = s.bridgeCancelled)
    (hp : t.pumps.map Pump.aborted = s.pumps.map Pump.aborted) : Tended t where
  joined h := by
    rw [hd]
    exact hi.joined (hm ▸ h)
  awaited r h := by
    rw [hc]
    exact hi.awaited r (hm ▸ h)
  bridge h := by
    rw [hb]
    exact hi.bridge (hm ▸ h)
  pump h p hmem := by
    have hall := hi.pump (hm ▸ h)
    rw [← List.forall_mem_map (f := Pump.aborted) (P := fun b => b = true), ← hp,
      List.forall_mem_map] at hall
    exact hall p hmem
  older p hmem := by
    have hall := hi.older
    rw [← List.forall_mem_map (f := Pump.aborted) (P := fun b => b = true), List.map_tail, ← hp,
      ← List.map_tail, List.forall_mem_map] at hall
    exact hall p hmem

theorem map_aborted_modify (s : RunState) {f : Pump → Pump}
    (hf : ∀ p, (f p).aborted = p.aborted) :
    (s.modifyPump f).pumps.map Pump.aborted = s.pumps.map Pump.aborted := by
  unfold RunState.modifyPump
  cases s.pumps with
  | nil => rfl
  | cons p ps => exact congrArg (· :: _) (hf p)

theorem Tended.bridgeStep {a : BridgeAct} (hi : Tended s) (h : s.bridgeStep a = some t) :
    Tended t := by
  have hb : s.main.bridged = true := by
    cases hm : s.main.bridged with
    | true => rfl
    | false =>
        -- a bridge that has ended takes no step
        have hended := hi.bridge hm
        cases RunState.bridgeStep_stepped h with
        | take hb | give hb | fail hb | cancelled hb => cases hended.symm.trans hb
  have hp : s.main.pumped = true := by
    cases hm : s.main <;> simp_all [Main.bridged, Main.pumped]
  rw [RunState.bridgeStep_eq h]
  exact ⟨hi.joined, hi.awaited, fun h => absurd (hb.symm.trans h) nofun,
    fun h => absurd (hp.symm.trans h) nofun, hi.older⟩

theorem Tended.driverStep {a : DriverAct} (hi : Tended s) (h : s.driverStep a = some t) :
    Tended t := by
  cases RunState.driverStep_stepped h with
  | recv => exact hi.congr rfl rfl rfl rfl rfl
  | @send e =>
      exact hi.congr rfl rfl rfl rfl
        (map_aborted_modify s (f := fun p => p.send e) fun _ => rfl)
  | finish hd =>
      have hsame : Tended (s.modifyPump fun p => { p with senders := false }) :=
        hi.congr rfl rfl rfl rfl
          (map_aborted_modify s (f := fun p => { p with senders := false }) fun _ => rfl)
      exact ⟨fun _ => .inr ⟨_, rfl⟩, hsame.awaited, hsame.bridge, hsame.pump, hsame.older⟩

theorem Tended.step {a : Act} (hi : Tended s) (h : Runner.step c s a = some t) : Tended t := by
  cases step_stepped h with
  | main h => exact hi.mainStep h
  | wake hm =>
      have hb : s.bridge = .ended := hi.bridge (by rw [hm]; rfl)
      have hp : ∀ p ∈ s.pumps, p.aborted = true := hi.pump (by rw [hm]; rfl)
      exact ⟨by simp, nofun, fun _ => hb, fun _ => hp, hi.older⟩
  | cancel | sendInput | forward => exact hi.congr rfl rfl rfl rfl rfl
  | uptime h =>
      rw [RunState.uptimeStep_eq h]
      exact hi.congr rfl rfl rfl rfl rfl
  | pump h =>
      obtain ⟨p, q, e, hp, hq, rfl⟩ := RunState.pumpStep_some h
      obtain ⟨hlt, rfl⟩ := List.getElem?_eq_some_iff.1 hp
      rw [RunState.applyEffect_eq]
      refine hi.congr rfl rfl rfl rfl ?_
      rw [List.map_set, Pump.step_aborted hq, ← List.getElem_map Pump.aborted]
      · exact List.set_getElem_self _
      · rwa [List.length_map]
  | bridge h => exact hi.bridgeStep h
  | driver h => exact hi.driverStep h

theorem Tended.of_reachable (h : Reachable (Runner.step c) RunState.init s) : Tended s :=
  h.invariant tended_init fun _ _ _ hi _ hs => hi.step hs

/-! ### The end of the main loop -/

/-- The steps that a session takes by itself to come to its end. -/
def Act.winds : Act → Bool
  | .main _ => true
  | .bridge .fail => true
  | .bridge .cancelled => true
  | _ => false

/-- **The main loop of a cancelled session waits for nothing but its driver.** -/
theorem closes_or_waits (c : Params) (ha : Attended s) (ht : Tended s) (hc : s.cancelled = true) :
    s.main.ended = true ∨ (s.main = .joinDriver ∧ s.driver = .running) ∨
      ∃ a u, Act.winds a = true ∧ Closes s a ∧ step c s a = some u := by
  rcases mainStep_progress c s with hended | hwaits | hgoes
  · exact .inl hended
  · rcases hwaits with ⟨hm, hd⟩ | ⟨r, hm, hb⟩ | ⟨delay, hm, hnot⟩
    · rcases ht.joined (.inr hm) with hrun | ⟨e, he⟩
      · exact .inr (.inl ⟨hm, hrun⟩)
      · exact absurd he (hd e)
    · have hrec : s.driver.receives = false :=
        ha.elsewhere (by simp [hm]) (by simp [hm]) (by simp [hm])
      refine .inr (.inr ?_)
      cases hbridge : s.bridge with
      | waiting =>
          have hcancelled := ht.awaited r hm
          exact ⟨.bridge .cancelled, { s with bridge := .ended }, rfl, hrec,
            if_pos ⟨hbridge, hcancelled⟩⟩
      | holding b =>
          refine ⟨.bridge .fail, { s with bridge := .ended }, rfl, hrec, ?_⟩
          simp only [step, RunState.bridgeStep, hbridge, if_pos hrec]
      | ended => exact absurd hbridge hb
    · cases hc.symm.trans hnot
  · obtain ⟨u, hu⟩ := hgoes 0
    exact .inr (.inr ⟨.main 0, u, rfl, trivial, hu⟩)

/-- **The end of a cancelled session**, whatever else happens in between.  The main loop, and the
bridge once its driver is gone, take at most 17 steps more; they wait for nothing but a driver that
has not returned; and when the main loop has returned, its driver is gone, its bridge has ended, and
its ticker and all of its pumps have been aborted. -/
theorem cancelled_winds_down (c : Params) {n : ℕ}
    (hs : Reachable (step c) RunState.init s) (hc : s.cancelled = true)
    (h : Took (step c) Closes s n t) :
    n ≤ 17 ∧
      (t.main.ended = true ∨ (t.main = .joinDriver ∧ t.driver = .running) ∨
        ∃ a u, Closes t a ∧ step c t a = some u) ∧
      (t.main = .returned → t.driver.receives = false ∧ t.bridge = .ended ∧
        t.uptime.aborted = true ∧ ∀ p ∈ t.pumps, p.aborted = true) := by
  have hbudget : (Reachable (step c) RunState.init t ∧ t.cancelled = true) ∧ n + t.left ≤ s.left :=
    h.budget (I := fun s => Reachable (step c) RunState.init s ∧ s.cancelled = true) ⟨hs, hc⟩
    (fun _ _ _ hi hstep => ⟨hi.1.next hstep, step_cancelled hstep hi.2⟩)
    (fun _ _ _ hi ha hstep => closes_left (.of_reachable hi.1) hi.2 ha hstep)
    (fun _ _ _ _ ha hstep => left_elsewhere ha hstep)
  obtain ⟨⟨hreach, hcancelled⟩, hn⟩ := hbudget
  have hattended : Attended t := .of_reachable hreach
  have htended := Tended.of_reachable hreach
  refine ⟨?_, ?_, fun hm => ⟨?_, ?_, ?_, ?_⟩⟩
  · have hle := s.left_le
    omega
  · refine (closes_or_waits c hattended htended hcancelled).imp_right (Or.imp_right ?_)
    rintro ⟨a, u, -, ha, hu⟩
    exact ⟨a, u, ha, hu⟩
  · exact hattended.elsewhere (by simp [hm]) (by simp [hm]) (by simp [hm])
  · exact htended.bridge (by rw [hm]; rfl)
  · have hexits : Exits t := hreach.invariant exits_init fun _ _ _ hi _ hstep => hi.step hstep
    exact hexits.returned_aborted hm
  · exact htended.pump (by rw [hm]; rfl)

/-- A session that is cancelled while its first driver runs. -/
def cancelledOnce : List Act := [.main 0, .main 0, .main 0, .main 0, .cancel]

/-- The driver returns, and the main loop does. -/
def windsDown : List Act :=
  [.driver (.finish (.returned (.ok ()))), .main 0, .main 0, .bridge .cancelled, .main 0, .main 0,
    .main 0, .main 0, .main 0]

theorem cancelled_winds_down_once : ∃ s t n,
    exec (step steady) RunState.init cancelledOnce = some s ∧
    Took (step steady) Closes s n t ∧ t.main = .returned ∧ n ≤ 17 ∧ t.bridge = .ended := by
  obtain ⟨s, hs, hc⟩ : ∃ s, exec (step steady) RunState.init cancelledOnce = some s ∧
      s.cancelled = true := ⟨_, rfl, rfl⟩
  obtain ⟨t, ht, hm⟩ : ∃ t, exec (step steady) RunState.init (cancelledOnce ++ windsDown) = some t ∧
      t.main = .returned := ⟨_, rfl, rfl⟩
  rw [exec_append, hs, Option.bind_some] at ht
  obtain ⟨n, hn⟩ := exists_took Closes ht
  have hend := cancelled_winds_down steady (reachable_of_exec hs) hc hn
  exact ⟨s, t, n, hs, hn, hm, hend.1, (hend.2.2 hm).2.1⟩

/-! ### Room in the event channel -/

/-- While a pump works, the session goes on as it was. -/
theorem pumpWorks_frame {i : ℕ} (h : Reach (step c) (fun _ a => PumpWorks i a) s t) :
    t.main = s.main ∧ t.driver = s.driver ∧ t.cancelled = s.cancelled := by
  refine h.invariant (I := fun t => t.main = s.main ∧ t.driver = s.driver ∧
    t.cancelled = s.cancelled) ⟨rfl, rfl, rfl⟩ fun u a v hi ha hs => ?_
  cases step_stepped hs with
  | forward => exact hi
  | pump h =>
      rw [RunState.pumpStep_eq h]
      exact hi
  | main | wake | cancel | sendInput | uptime | bridge | driver => exact ha.elim

/-- A pump that is being polled takes one event after the other. -/
theorem polled_takes_all (c : Params) {i : ℕ} {s : RunState} {p : Pump} (hp : s.pumps[i]? = some p)
    (ho : p.ended = false) (hpoll : p.polled = true) :
    Leads c i s fun q => q.ended = false ∧ q.events = [] := by
  induction hev : p.events generalizing s p with
  | nil => exact ⟨s, p, Reach.refl, hp, ho, hev⟩
  | cons ev rest ih =>
      refine Leads.hand hp hpoll ho fun t ht => ?_
      cases ev with
      | output b =>
          refine Leads.pump (a := .take) (e := .silent) (q := { p with
            hand := some b, handed := p.handed ++ p.hand.toList, events := rest })
            ht (by simp) ?_ fun u hu => ih hu ho hpoll rfl
          simp [Pump.step, hpoll, ho, hev]
      | connected =>
          refine Leads.pump (a := .take) (e := .reset) (q := { p with
            hand := none, handed := p.handed ++ p.hand.toList, events := rest }) ht (by simp) ?_
            fun u hu => ih hu ho hpoll rfl
          simp [Pump.step, hpoll, ho, hev]
      | notice n =>
          refine Leads.pump (a := .take) (e := .broadcast (noticeLine n)) (q := { p with
            hand := none, handed := p.handed ++ p.hand.toList, events := rest }) ht (by simp) ?_
            fun u hu => ih hu ho hpoll rfl
          simp [Pump.step, hpoll, ho, hev]

/-- **The channel of a pump that has not been aborted can be emptied.** -/
theorem pump_takes_all (c : Params) {i : ℕ} {s : RunState} {p : Pump} (hp : s.pumps[i]? = some p)
    (ho : p.ended = false) (ha : p.aborted = false) :
    Leads c i s fun q => q.ended = false ∧ q.events = [] := by
  cases hpoll : p.polled with
  | true => exact polled_takes_all c hp ho hpoll
  | false =>
      refine Leads.pump (a := .poll) (e := .silent) (q := { p with polled := true }) hp (by simp)
        ?_ fun t ht => polled_takes_all c (p := { p with polled := true }) ht ho rfl
      simp [Pump.step, hpoll, ho, ha]

end Runner

namespace Upstream

open Duplex Transition Runner

variable {D : Device} {cfg : RunnerConfig} {s t : Wired D}

/-! ### A driver that is told to stop -/

/-- What happens in a session while nobody outside helps it: its tasks go on, and the upstream gives
the answer `o` when it is opened and takes what is being written. -/
def Unaided (o : D.Opening) : WiredAct D → Prop
  | .task (.pump i a) => PumpWorks 0 (.pump i a)
  | .task .forward => True
  | .task a => a.winds = true
  | .device (.opened o') => o' = o
  | .device .stop => True
  | .device (.write _) => True
  | .device .send => True
  | .device _ => False
  | .returns => True

/-- The run from `s` to `t` in which nobody outside helps. -/
abbrev Alone (cfg : RunnerConfig) (o : D.Opening) (s t : Wired D) : Prop :=
  Reach (wiredStep cfg) (fun _ a => Unaided o a) s t

/-- A session that has been cancelled while its driver runs, with the loop of the driver. -/
structure Told (cfg : RunnerConfig) (m : Main) (s : Wired D) (l : D.Run) : Prop where
  reach : Reachable (wiredStep cfg) Wired.init s
  cancelled : s.run.cancelled = true
  driver : s.run.driver = .running
  main : s.run.main = m
  loop : ∃ rest, s.loops = l :: rest

/-- A step of the loop that leaves the channels alone. -/
theorem Told.silent {m : Main} {l k : D.Run} {a : D.Act} {o : D.Opening} (h : Told cfg m s l)
    (hm : D.machine.step l a = some k) (hx : exchange s.run l a = some s.run)
    (ha : Unaided o (.device a)) : ∃ t, Alone cfg o s t ∧ Told cfg m t k := by
  obtain ⟨rest, hl⟩ := h.loop
  have hs : wiredStep cfg s (.device a) = some ⟨s.run, k :: rest⟩ := by
    simp only [wiredStep, hl, isRunning_iff.2 h.driver, hm, hx, if_true]
  exact ⟨_, Reach.refl.tail ha hs, h.reach.next hs, h.cancelled, h.driver, h.main, rest, rfl⟩

/-- What a pump does by itself, it does in the session. -/
theorem alone_of_pumpWorks (o : D.Opening) {r : RunState}
    (h : Reach (step (sound cfg)) (fun _ a => PumpWorks 0 a) s.run r) :
    Alone cfg o s ⟨r, s.loops⟩ := by
  induction h with
  | refl => exact Reach.refl
  | @tail u v a _ ha hs ih =>
      have hw : wires u a = false := wires_of_ne fun _ h => by
        subst h
        exact ha
      refine ih.tail (a := .task a) ?_ ?_
      · cases a with
        | pump i b => exact ha
        | forward => trivial
        | _ => exact ha.elim
      · have hmap : (step (sound cfg) u a).map (fun t =>
            (⟨t, if wires u a then Run.init :: s.loops else s.loops⟩ : Wired D)) =
              some ⟨v, s.loops⟩ := by
          rw [hs, hw]
          rfl
        cases a with
        | driver b => exact ha.elim
        | _ => exact hmap

theorem Alone.reachable {o : D.Opening} (h : Alone cfg o s t)
    (hs : Reachable (wiredStep cfg) Wired.init s) : Reachable (wiredStep cfg) Wired.init t :=
  hs.trans (Reach.reachable h)

/-- **A driver that waits to send an event can send it.** -/
theorem Told.send {m : Main} {l : D.Run} {x : D.Mem} {e : DriverEvent}
    {rest : List (Effect UInt8 DriverEvent)} (o : D.Opening) (h : Told cfg m s l)
    (hp : l.phase = .running x) (ht : l.todo = .send e :: rest) :
    ∃ t, Alone cfg o s t ∧ Told cfg m t { l with todo := rest, sent := l.sent ++ [e] } := by
  obtain ⟨others, hl⟩ := h.loop
  obtain ⟨p, ps, hpumps, ha, -, ho⟩ :=
    (Attended.of_reachable (wired_run h.reach)).pumped (by simp [h.driver, Driver.receives])
  -- first there is room for the event
  obtain ⟨r, q, hr, hq, hopen, hev⟩ :=
    pump_takes_all (sound cfg) (i := 0) (by rw [hpumps]; rfl) ho ha
  obtain ⟨hmain, hdriver, hcancelled⟩ := pumpWorks_frame hr
  have hroom := alone_of_pumpWorks (s := s) o hr
  have hpumps' : ∃ qs, r.pumps = q :: qs := by
    cases hps : r.pumps with
    | nil => simp [hps] at hq
    | cons q' qs =>
        rw [hps] at hq
        exact ⟨qs, by rw [Option.some_inj.1 hq]⟩
  obtain ⟨qs, hqs⟩ := hpumps'
  have hd : r.driver = .running := hdriver.trans h.driver
  have hsend : r.driverStep (.send e) = some (r.modifyPump fun p => p.send e) := by
    simp [RunState.driverStep, hd, hqs, hopen, hev, capacity]
  have hstep : D.machine.step l .send = some { l with todo := rest, sent := l.sent ++ [e] } := by
    simp only [Machine.step, hp, ht]
  have hs : wiredStep cfg ⟨r, s.loops⟩ (.device .send) =
      some ⟨r.modifyPump fun p => p.send e,
        { l with todo := rest, sent := l.sent ++ [e] } :: others⟩ := by
    simp only [wiredStep, hl, isRunning_iff.2 hd, hstep, exchange, ht, hsend, if_true]
  have halone : Alone cfg o s _ := hroom.tail (a := .device .send) trivial hs
  exact ⟨_, halone, halone.reachable h.reach, hcancelled.trans h.cancelled, hd,
    hmain.trans h.main, others, rfl⟩

/-- **A driver that runs can carry out what it is doing**, and then sees that it is to stop. -/
theorem Told.stops {m : Main} {l : D.Run} {x : D.Mem} (o : D.Opening) (h : Told cfg m s l)
    (hp : l.phase = .running x) :
    ∃ t l' r, Alone cfg o s t ∧ Told cfg m t l' ∧ l'.phase = .ended r := by
  induction htodo : l.todo generalizing s l with
  | nil =>
      obtain ⟨t, ht, htold⟩ := h.silent (a := .stop) (o := o)
        (k := { l with phase := .ended (.ok ()) }) (by simp only [Machine.step, hp, htodo])
        (by simp [exchange, h.cancelled]) trivial
      exact ⟨t, _, _, ht, htold, rfl⟩
  | cons e rest ih =>
      cases e with
      | write bs =>
          obtain ⟨t, ht, htold⟩ := h.silent (a := .write bs.length) (o := o)
            (k := { l with todo := rest, written := l.written ++ bs })
            (by simp [Machine.step, hp, htodo]) rfl trivial
          obtain ⟨u, l', r, hu, hrest⟩ := ih htold hp rfl
          exact ⟨u, l', r, ht.trans hu, hrest⟩
      | send e =>
          obtain ⟨t, ht, htold⟩ := h.send o hp htodo
          obtain ⟨u, l', r, hu, hrest⟩ := ih htold hp rfl
          exact ⟨u, l', r, ht.trans hu, hrest⟩

/-- **A driver that is told to stop can end**, wherever it is. -/
theorem Told.ends {m : Main} {l : D.Run} (o : D.Opening) (h : Told cfg m s l) :
    ∃ t l' r, Alone cfg o s t ∧ Told cfg m t l' ∧ l'.phase = .ended r := by
  cases hp : l.phase with
  | ended r => exact ⟨s, l, r, Reach.refl, h, hp⟩
  | running x => exact h.stops o hp
  | opening =>
      cases ho : D.machine.opening o with
      | error e =>
          obtain ⟨t, ht, htold⟩ := h.silent (a := .opened o) (o := o)
            (k := { l with phase := .ended (.error e) }) (by simp only [Machine.step, hp, ho]) rfl
            rfl
          exact ⟨t, _, _, ht, htold, rfl⟩
      | ok y =>
          obtain ⟨t, ht, htold⟩ := h.silent (a := .opened o) (o := o)
            (k := { l with phase := .running y.1, todo := y.2 })
            (by simp only [Machine.step, hp, ho]) rfl rfl
          obtain ⟨u, l', r, hu, hrest⟩ := htold.stops o rfl
          exact ⟨u, l', r, ht.trans hu, hrest⟩

/-! ### The end of a session with its driver -/

/-- The loop of the driver that runs. -/
theorem exists_loop (h : Reachable (wiredStep cfg) (Wired.init : Wired D) s)
    (hd : s.run.driver = .running) : ∃ l rest, s.loops = l :: rest := by
  obtain ⟨p, ps, hpumps, -⟩ :=
    (Attended.of_reachable (wired_run h)).pumped (by simp [hd, Driver.receives])
  have hsent := (Linked.of_reachable h).sent
  cases hl : s.loops with
  | nil => simp [hpumps, hl] at hsent
  | cons l rest => exact ⟨l, rest, rfl⟩

/-- A driver that runs can end in any way. -/
theorem exists_finish {r : RunState} (hd : r.driver = .running) (e : DriverEnd) :
    ∃ v, r.driverStep (.finish e) = some v ∧ v.driver = .ended e ∧ v.main = r.main ∧
      v.cancelled = r.cancelled := by
  simp only [RunState.driverStep, hd]
  exact ⟨_, rfl, rfl, rfl, rfl⟩

/-- The driver of a session that has been cancelled returns, and the main loop notices. -/
theorem joins_driver (o : D.Opening) (h : Reachable (wiredStep cfg) (Wired.init : Wired D) s)
    (hc : s.run.cancelled = true) (hm : s.run.main = .joinDriver) (hd : s.run.driver = .running) :
    ∃ t, Alone cfg o s t ∧ t.run.cancelled = true ∧ t.run.left < s.run.left := by
  obtain ⟨l, rest, hl⟩ := exists_loop h hd
  obtain ⟨u, l', r, hu, htold, hr⟩ := Told.ends o ⟨h, hc, hd, hm, rest, hl⟩
  obtain ⟨others, hl'⟩ := htold.loop
  -- the driver returns
  obtain ⟨v, hv, hdriver, hmain, hcancelled⟩ := exists_finish htold.driver (.returned r)
  rw [htold.main] at hmain
  rw [htold.cancelled] at hcancelled
  have hreturns : wiredStep cfg u .returns = some ⟨v, u.loops⟩ := by
    simp only [wiredStep, hl', hr, hv, Option.map_some]
  -- the main loop joins it
  have hjoins : wiredStep cfg ⟨v, u.loops⟩ (.task (.main 0)) =
      some ⟨{ v with main := .cancelBridge r }, u.loops⟩ := by
    simp only [wiredStep, step, RunState.mainStep, wires, hmain, hdriver, Option.map_some,
      Bool.false_eq_true, if_false]
    rfl
  have hend : Alone cfg o s _ := hu.tail (a := .returns) trivial hreturns
  have hjoined : Alone cfg o s _ := hend.tail (a := .task (.main 0)) rfl hjoins
  refine ⟨_, hjoined, hcancelled, ?_⟩
  have hb := v.bridge.left_le
  simp only [RunState.left, hm, hd, hdriver, Driver.receives, Main.left, Bool.false_eq_true,
    if_false, if_true]
  omega

/-- **A cancelled session can always end**, with any driver whose loop is that of a `Device`: from
every state a run leads to its end in which nobody types, no delay elapses, and the upstream only
gives the answer `o` when it is opened and takes what is being written.  In the end a terminal
status has been published. -/
theorem session_can_end (o : D.Opening) (h : Reachable (wiredStep cfg) (Wired.init : Wired D) s)
    (hc : s.run.cancelled = true) :
    ∃ t, Alone cfg o s t ∧ t.run.main = .returned ∧
      ∃ st ∈ t.run.published, st.isTerminal = true := by
  -- by what is left to do
  induction hk : s.run.left using Nat.strong_induction_on generalizing s with
  | _ k ih =>
      have hrun := wired_run h
      rcases closes_or_waits (sound cfg) (.of_reachable hrun) (.of_reachable hrun) hc with
        hended | ⟨hm, hd⟩ | ⟨a, u, ha, hcloses, hu⟩
      · have hm : s.run.main = .returned := by
          have hne := (First.of_reachable rfl hrun).sound
          cases hmain : s.run.main <;> simp_all [Main.ended]
        have hexits : Exits s.run :=
          hrun.invariant exits_init fun _ _ _ hi _ hstep => hi.step hstep
        exact ⟨s, Reach.refl, hm, hexits.returned_terminal hm⟩
      · obtain ⟨t, ht, htc, hlt⟩ := joins_driver o h hc hm hd
        obtain ⟨v, hv, hend⟩ := ih _ (hk ▸ hlt) (ht.reachable h) htc rfl
        exact ⟨v, ht.trans hv, hend⟩
      · have hs : wiredStep cfg s (.task a) =
            some ⟨u, if wires s.run a then Run.init :: s.loops else s.loops⟩ := by
          cases a with
          | main | bridge => simp only [wiredStep, hu, Option.map_some]
          | wake | cancel | sendInput | forward | uptime | pump | driver => cases ha
        have hunaided : Unaided o (.task a) := by
          cases a with
          | main | bridge => exact ha
          | wake | cancel | sendInput | forward | uptime | pump | driver => cases ha
        have hlt := closes_left (.of_reachable hrun) hc hcloses hu
        obtain ⟨v, hv, hend⟩ := ih _ (hk ▸ hlt) (h.next hs) (step_cancelled hu hc) rfl
        have hfirst : Alone cfg o s _ := Reach.refl.tail (a := .task a) hunaided hs
        exact ⟨v, hfirst.trans hv, hend⟩

/-- A session that is cancelled while it connects. -/
def cancelledConnecting : List (WiredAct rawTcpDevice) :=
  [.task (.main 0), .task (.main 0), .task (.main 0), .task (.main 0), .task (.sendInput [104]),
    .task (.bridge .take), .task .cancel]

theorem session_can_end_connecting : ∃ s : Wired rawTcpDevice,
    exec (wiredStep ⟨true, none⟩) Wired.init cancelledConnecting = some s ∧
    ∃ t, Alone ⟨true, none⟩ (Except.error "refused" : Except String Unit) s t ∧
      t.run.main = .returned ∧
      ∃ st ∈ t.run.published, st.isTerminal = true := by
  obtain ⟨s, hs, hc⟩ : ∃ s : Wired rawTcpDevice,
      exec (wiredStep ⟨true, none⟩) Wired.init cancelledConnecting = some s ∧
        s.run.cancelled = true := ⟨_, rfl, rfl⟩
  exact ⟨s, hs, session_can_end (D := rawTcpDevice)
    (Except.error "refused" : Except String Unit) (reachable_of_exec hs) hc⟩

end Upstream

end TermHub
