/-
**A session with its driver.**

`run_loop` tells a driver by what it does at its channels: it receives input, sends events and
returns.  Here the driver is one of the loops of `TermHub.DriverLoops`, so what passes through the
channels comes from its upstream and goes there.  Every driver instance has a loop of its own, just
as it has an event pump of its own.

Main definitions:

* `Wired` — a session and the loops of its driver instances;
* `wiredStep` — a step of a task of the session, or of the loop of the present instance.

Main results:

* `wired_run`, `wired_loops` — a session with its driver is a session, and the loops are runs of the
  driver;
* `Linked.of_reachable` — **what passes through the channels** is what the loops have sent and
  taken;
* `session_writes` — **the input of a session reaches its upstreams** in order.
-/

import TermHub.DriverLoops
import TermHub.RunLoopOutput
import TermHub.RunLoopInput

set_option relaxedAutoImplicit false
set_option autoImplicit false

namespace TermHub

namespace Upstream

open Duplex Transition Runner

/-! ### The channels of the present instance -/

/-- The driver runs. -/
def isRunning : Driver → Bool
  | .running => true
  | _ => false

/-- The main loop is inside the body of its loop, where it holds a sender of the input channel. -/
def holdsInput : Main → Bool
  | .start => false
  | .loopTop => false
  | .returned => false
  | .panicked => false
  | _ => true

/-- `input_rx.recv()` gives `None`: the channel is empty and no sender is left. -/
def inputClosed (s : RunState) : Bool :=
  s.drvIn.isEmpty && decide (s.bridge = .ended) && !holdsInput s.main

/-- Nobody receives the events of the present instance. -/
def eventsClosed (s : RunState) : Bool := s.pumps.head?.any Pump.ended

variable {D : Device}

/-- What a step of the loop of the present instance does to the rest of the session. -/
def exchange (s : RunState) (l : D.Run) : D.Act → Option RunState
  | .stop => if s.cancelled || inputClosed s then some s else none
  | .turn (.input b) => if s.drvIn.head? = some b then s.driverStep .recv else none
  | .send =>
    match l.todo with
    | .send e :: _ => s.driverStep (.send e)
    | _ => none
  | .sendFails => if eventsClosed s then some s else none
  | _ => some s

/-! ### Sessions -/

/-- A session with the loops of its driver instances, the present one first.  Like its channels, the
loop of an instance is there before the instance is started. -/
structure Wired (D : Device) where
  run : RunState
  loops : List D.Run

/-- The state in which the session is started. -/
def Wired.init : Wired D := ⟨RunState.init, []⟩

/-- What can happen to a session. -/
inductive WiredAct (D : Device)
  /-- A step of the main loop, of a task other than the driver, or of somebody outside. -/
  | task (a : Act)
  | device (a : D.Act)
  /-- The driver returns what its loop has ended with. -/
  | returns

/-- The step of the main loop that makes the channels of an instance. -/
def wires (s : RunState) : Act → Bool
  | .main _ =>
    match s.main with
    | .loopTop => !s.cancelled
    | _ => false
  | _ => false

/-- The parameters of a session whose description has been checked. -/
abbrev sound (cfg : RunnerConfig) : Params := ⟨.ok (), cfg⟩

/-- One step of a session with its driver. -/
def wiredStep (cfg : RunnerConfig) (s : Wired D) : WiredAct D → Option (Wired D)
  | .task (.driver _) => none
  | .task a => (step (sound cfg) s.run a).map fun t =>
      ⟨t, if wires s.run a then Run.init :: s.loops else s.loops⟩
  | .device a =>
    match s.loops with
    | l :: rest =>
      if isRunning s.run.driver then
        match D.machine.step l a, exchange s.run l a with
        | some l', some t => some ⟨t, l' :: rest⟩
        | _, _ => none
      else none
    | [] => none
  | .returns =>
    match s.loops with
    | l :: _ =>
      match l.phase with
      | .ended r => (s.run.driverStep (.finish (.returned r))).map fun t => ⟨t, s.loops⟩
      | _ => none
    | [] => none

/-- What a step of a session with its driver does. -/
inductive WiredStepped (cfg : RunnerConfig) (s : Wired D) : WiredAct D → Wired D → Prop
  | task {a : Act} {t : RunState} (hd : ∀ b, a ≠ .driver b)
      (h : step (sound cfg) s.run a = some t) :
      WiredStepped cfg s (.task a) ⟨t, if wires s.run a then Run.init :: s.loops else s.loops⟩
  | device {a : D.Act} {l l' : D.Run} {rest : List D.Run} {t : RunState}
      (hl : s.loops = l :: rest) (hd : s.run.driver = .running) (hm : D.machine.step l a = some l')
      (hx : exchange s.run l a = some t) : WiredStepped cfg s (.device a) ⟨t, l' :: rest⟩
  | returns {l : D.Run} {rest : List D.Run} {r : Except DriverError Unit} {t : RunState}
      (hl : s.loops = l :: rest) (hr : l.phase = .ended r)
      (h : s.run.driverStep (.finish (.returned r)) = some t) :
      WiredStepped cfg s .returns ⟨t, s.loops⟩

variable {cfg : RunnerConfig} {s t : Wired D} {a : WiredAct D}

theorem isRunning_iff {d : Driver} : isRunning d = true ↔ d = .running := by
  cases d <;> simp [isRunning]

theorem wiredStep_stepped (h : wiredStep cfg s a = some t) : WiredStepped cfg s a t := by
  cases a with
  | task a =>
      have hd : ∀ b, a ≠ .driver b := by
        rintro b rfl
        cases h
      have hmap : (step (sound cfg) s.run a).map (fun t =>
          (⟨t, if wires s.run a then Run.init :: s.loops else s.loops⟩ : Wired D)) = some t := by
        cases a with
        | driver b => exact absurd rfl (hd b)
        | _ => exact h
      obtain ⟨u, hu, rfl⟩ := Option.map_eq_some_iff.1 hmap
      exact .task hd hu
  | device a =>
      simp only [wiredStep] at h
      split at h
      · rename_i l rest hl
        split at h
        · rename_i hrun
          split at h
          · rename_i l' u hm hx
            obtain rfl := Option.some_inj.1 h
            exact .device hl (isRunning_iff.1 hrun) hm hx
          · cases h
        · cases h
      · cases h
  | returns =>
      simp only [wiredStep] at h
      split at h
      · rename_i l rest hl
        split at h
        · rename_i r hr
          obtain ⟨u, hu, rfl⟩ := Option.map_eq_some_iff.1 h
          exact .returns hl hr hu
        · cases h
      · cases h

/-- What the loop of the present instance does at the channels of the session. -/
inductive Exchanged (s : RunState) (l : D.Run) : D.Act → RunState → Prop
  | silent {a : D.Act} (hin : ∀ b, a ≠ .turn (.input b)) (hsend : a ≠ .send) :
      Exchanged s l a s
  | took {b : Bytes} {t : RunState} (hb : s.drvIn.head? = some b)
      (h : s.driverStep .recv = some t) : Exchanged s l (.turn (.input b)) t
  | sent {e : DriverEvent} {rest : List (Effect UInt8 DriverEvent)} {t : RunState}
      (ht : l.todo = .send e :: rest) (h : s.driverStep (.send e) = some t) :
      Exchanged s l .send t

theorem exchange_exchanged {s t : RunState} {l : D.Run} {a : D.Act}
    (h : exchange s l a = some t) : Exchanged s l a t := by
  unfold exchange at h
  split at h
  · obtain ⟨-, rfl⟩ := Option.ite_some_none_eq_some.1 h
    exact .silent (by simp) (by simp)
  · split at h
    · rename_i hb
      exact .took hb h
    · cases h
  · split at h
    · rename_i ht
      exact .sent ht h
    · cases h
  · obtain ⟨-, rfl⟩ := Option.ite_some_none_eq_some.1 h
    exact .silent (by simp) (by simp)
  · rename_i hne1 hne2 hne3 hne4
    obtain rfl := Option.some_inj.1 h
    exact .silent hne2 hne3

/-- A driver that has not returned changes neither the position of the main loop nor the status. -/
theorem Exchanged.frame {s t : RunState} {l : D.Run} {a : D.Act} (h : Exchanged s l a t) :
    t.main = s.main ∧ t.published = s.published ∧ t.driver = s.driver := by
  cases h with
  | silent => exact ⟨rfl, rfl, rfl⟩
  | took hb h =>
      cases RunState.driverStep_stepped h with
      | recv => exact ⟨rfl, rfl, rfl⟩
  | sent ht h =>
      cases RunState.driverStep_stepped h with
      | send => exact ⟨rfl, rfl, rfl⟩

/-! ### The parts of a session -/

/-- The driver returns, and the bridge takes a chunk, only when no input gets lost. -/
def HandsOver (s : Wired D) : WiredAct D → Prop
  | .returns => s.run.drvIn = [] ∧ s.run.bridge.hand = []
  | .task (.bridge .take) => s.run.driver.receives = true
  | _ => True

instance (s : Wired D) (a : WiredAct D) : Decidable (HandsOver s a) := by
  unfold HandsOver
  split <;> infer_instance

/-- **A step of a session with its driver is a step of the session**, or of the loop alone. -/
theorem wiredStep_run (h : wiredStep cfg s a = some t) :
    t.run = s.run ∨
      ∃ b, (HandsOver s a → HandedOver s.run b) ∧ step (sound cfg) s.run b = some t.run := by
  cases wiredStep_stepped h with
  | @task a u hd hu =>
      refine .inr ⟨a, fun hok => ?_, hu⟩
      cases a with
      | driver b => exact absurd rfl (hd b)
      | bridge b =>
          cases b with
          | take => exact hok
          | give | fail | cancelled => trivial
      | main | wake | cancel | sendInput | forward | uptime | pump => trivial
  | device hl hd hm hx =>
      cases exchange_exchanged hx with
      | silent => exact .inl rfl
      | took hb hu => exact .inr ⟨.driver .recv, fun _ => trivial, hu⟩
      | @sent e _ _ _ hu => exact .inr ⟨.driver (.send e), fun _ => trivial, hu⟩
  | @returns _ _ r _ hl hr hu => exact .inr ⟨.driver (.finish (.returned r)), fun hok => hok, hu⟩

/-- **A session with its driver is a session**: it only reaches what a session reaches. -/
theorem wired_run (h : Reachable (wiredStep cfg) Wired.init s) :
    Reachable (step (sound cfg)) RunState.init s.run :=
  h.part (f := Wired.run) fun _ _ _ _ hstep =>
    (wiredStep_run hstep).imp_right fun ⟨b, _, hb⟩ => ⟨b, trivial, hb⟩

/-- The loops of the instances are runs of the driver. -/
def Runs (s : Wired D) : Prop := ∀ l ∈ s.loops, Reachable D.machine.step Run.init l

theorem runs_init : Runs (Wired.init : Wired D) := fun _ hl => nomatch hl

theorem Runs.step (hi : Runs s) (h : wiredStep cfg s a = some t) : Runs t := by
  cases wiredStep_stepped h with
  | task hd hu =>
      intro l hl
      dsimp only at hl
      split at hl
      · rcases List.mem_cons.1 hl with rfl | hl
        · exact Reach.refl
        · exact hi l hl
      · exact hi l hl
  | device hl hd hm hx =>
      rw [Runs, hl] at hi
      intro l' hl'
      rcases List.mem_cons.1 hl' with rfl | hl'
      · exact (hi _ List.mem_cons_self).next hm
      · exact hi l' (List.mem_cons_of_mem _ hl')
  | returns hl hr hu => exact hi

/-- **The loops of a session are runs of its driver.** -/
theorem wired_loops (h : Reachable (wiredStep cfg) Wired.init s) : Runs s :=
  h.invariant runs_init fun _ _ _ hi _ hstep => hi.step hstep

/-! ### The present instance -/

/-- As long as a driver instance has its channels, the main loop waits for it, and its pump takes
what it sends. -/
structure Attended (s : RunState) : Prop where
  placed : s.driver.receives = true →
    s.main = .callFactory ∨ s.main = .publishRunning ∨ s.main = .joinDriver
  pumped : s.driver.receives = true →
    ∃ p rest, s.pumps = p :: rest ∧ p.aborted = false ∧ p.senders = true ∧ p.ended = false
  fresh : s.main = .callFactory → s.driver = .pending
  unread : s.driver ≠ .running → s.received = []

theorem attended_init : Attended RunState.init where
  placed h := nomatch h
  pumped h := nomatch h
  fresh h := nomatch h
  unread _ := rfl

/-- Somewhere else the main loop has no instance to wait for. -/
theorem Attended.elsewhere {s : RunState} (hi : Attended s) (h₁ : s.main ≠ .callFactory)
    (h₂ : s.main ≠ .publishRunning) (h₃ : s.main ≠ .joinDriver) : s.driver.receives = false := by
  cases hrec : s.driver.receives with
  | false => rfl
  | true =>
      rcases hi.placed hrec with h | h | h
      · exact absurd h h₁
      · exact absurd h h₂
      · exact absurd h h₃

/-- A state in which no instance has its channels. -/
theorem Attended.of_none {s : RunState} (hrec : s.driver.receives = false)
    (hm : s.main ≠ .callFactory) (hr : s.received = []) : Attended s where
  placed h := by simp [hrec] at h
  pumped h := by simp [hrec] at h
  fresh h := absurd h hm
  unread _ := hr

theorem Attended.mainStep {c : Params} {secs : ℕ} {s t : RunState} (hi : Attended s)
    (h : s.mainStep c secs = some t) : Attended t := by
  have hquiet : s.driver.receives = false → s.received = [] := by
    intro hrec
    refine hi.unread ?_
    rintro hd
    simp [hd, Driver.receives] at hrec
  cases RunState.mainStep_stepped h with
  | wires hm hc =>
      refine ⟨fun _ => .inl rfl, fun _ => ⟨_, _, rfl, rfl, rfl, rfl⟩, fun _ => rfl, fun _ => ?_⟩
      exact hquiet (hi.elsewhere (by simp [hm]) (by simp [hm]) (by simp [hm]))
  | creates hm hf =>
      have hd := hi.fresh hm
      refine ⟨fun _ => .inr (.inl rfl), fun _ => hi.pumped (by simp [hd, Driver.receives]), by simp,
        fun h => absurd rfl h⟩
  | panics hm hf =>
      have hd := hi.fresh hm
      exact .of_none rfl (by simp) (hi.unread (by simp [hd]))
  | shows hm =>
      exact ⟨fun _ => .inr (.inr rfl), hi.pumped, by simp, hi.unread⟩
  | joins hm hd =>
      have hrec : s.driver.receives = false := by simp [hd, Driver.receives]
      exact .of_none hrec (by simp) (hquiet hrec)
  | starts hm | stops hm | cancelsBridge hm | awaitsBridge hm | abortsPump hm | finishes hm
  | fails hm | resigns hm | loses hm | tells hm | counts hm | announces hm | givesUp hm | sleeps hm
  | interrupted hm | abortsUptime hm | returns hm =>
      have hrec := hi.elsewhere (by simp [hm]) (by simp [hm]) (by simp [hm])
      exact .of_none hrec (by simp) (hquiet hrec)

theorem Attended.pumpStep {s t : RunState} {i : ℕ} {a : PumpAct} (hi : Attended s)
    (h : s.pumpStep i a = some t) : Attended t := by
  obtain ⟨p, q, e, hp, hq, rfl⟩ := RunState.pumpStep_some h
  rw [RunState.applyEffect_eq]
  refine ⟨hi.placed, fun hrec => ?_, hi.fresh, hi.unread⟩
  obtain ⟨p', rest, hpumps, ha, hs, ho⟩ := hi.pumped hrec
  rw [hpumps] at hp ⊢
  cases i with
  | succ i => exact ⟨p', _, rfl, ha, hs, ho⟩
  | zero =>
      obtain rfl := Option.some_inj.1 hp
      refine ⟨q, rest, rfl, ?_⟩
      -- a pump that has a sender and has not been aborted goes on
      cases Pump.step_stepped hq with
      | kill _ _ haborted => cases ha.symm.trans haborted
      | finish _ _ _ _ hsenders => cases hs.symm.trans hsenders
      | poll | suspend | takeConnected | takeOutput | takeNotice | hand => exact ⟨ha, hs, ho⟩

theorem Attended.driverStep {s t : RunState} {a : DriverAct} (hi : Attended s)
    (h : s.driverStep a = some t) : Attended t := by
  cases RunState.driverStep_stepped h with
  | recv hd hin =>
      exact ⟨hi.placed, hi.pumped, hi.fresh, fun h => absurd hd h⟩
  | @send e _ _ hd hp ho hroom =>
      refine ⟨hi.placed, fun hrec => ?_, hi.fresh, hi.unread⟩
      obtain ⟨p, rest, hpumps, ha, hs, hopen⟩ := hi.pumped hrec
      refine ⟨p.send e, rest, ?_, ha, hs, hopen⟩
      rw [RunState.modifyPump, hpumps]
      rfl
  | finish hd =>
      refine .of_none rfl (fun hm => ?_) rfl
      cases hd.symm.trans (hi.fresh hm)

theorem Attended.step {c : Params} {s t : RunState} {a : Act} (hi : Attended s)
    (h : step c s a = some t) : Attended t := by
  cases step_stepped h with
  | main h => exact hi.mainStep h
  | pump h => exact hi.pumpStep h
  | driver h => exact hi.driverStep h
  | wake hm =>
      have hrec := hi.elsewhere (by simp [hm]) (by simp [hm]) (by simp [hm])
      refine .of_none hrec nofun (hi.unread fun hd => ?_)
      simp [hd, Driver.receives] at hrec
  | cancel => exact ⟨hi.placed, hi.pumped, hi.fresh, hi.unread⟩
  | sendInput => exact ⟨hi.placed, hi.pumped, hi.fresh, hi.unread⟩
  | forward => exact ⟨hi.placed, hi.pumped, hi.fresh, hi.unread⟩
  | uptime h =>
      rw [RunState.uptimeStep_eq h]
      exact ⟨hi.placed, hi.pumped, hi.fresh, hi.unread⟩
  | bridge h =>
      rw [RunState.bridgeStep_eq h]
      exact ⟨hi.placed, hi.pumped, hi.fresh, hi.unread⟩

theorem Attended.of_reachable {c : Params} {s : RunState}
    (h : Reachable (Runner.step c) RunState.init s) : Attended s :=
  h.invariant attended_init fun _ _ _ hi _ hstep => hi.step hstep

/-- **While a driver runs, its channels are open**: somebody holds a sender of its input, and its
events are taken. -/
theorem Attended.isOpen {s : RunState} (hi : Attended s) (hd : s.driver = .running) :
    inputClosed s = false ∧ eventsClosed s = false := by
  have hrec : s.driver.receives = true := by simp [hd, Driver.receives]
  constructor
  · have hholds : holdsInput s.main = true := by
      rcases hi.placed hrec with h | h | h
      · rw [h]
        rfl
      · rw [h]
        rfl
      · rw [h]
        rfl
    simp [inputClosed, hholds]
  · obtain ⟨p, rest, hpumps, -, -, ho⟩ := hi.pumped hrec
    simp [eventsClosed, hpumps, ho]

/-! ### What passes through the channels -/

/-- A pump keeps the history of what it has been sent. -/
theorem pump_sent {p q : Pump} {room : Bool} {a : PumpAct} {e : PumpEffect}
    (h : p.step room a = some (q, e)) : q.sent = p.sent := by
  cases Pump.step_stepped h <;> rfl

/-- A step of a loop that takes no input and sends no event. -/
theorem machine_silent {l l' : D.Run} {a : D.Act} (h : D.machine.step l a = some l')
    (hin : ∀ b, a ≠ .turn (.input b)) (hsend : a ≠ .send) :
    l'.sent = l.sent ∧ inputs l'.turns = inputs l.turns := by
  cases Machine.step_stepped h with
  | @turned m m' u es hp ht hm =>
      cases u with
      | read r => exact ⟨rfl, by simp [inputs, Turn.taken]⟩
      | input b => exact absurd rfl (hin b)
  | sent => exact absurd rfl hsend
  | opened | refused | stopped | failed | wrote | writeFailed | sendFailed => exact ⟨rfl, rfl⟩

/-- A loop that takes a chunk of input notes it: no driver fails for that. -/
theorem machine_took {l l' : D.Run} {b : Bytes}
    (h : D.machine.step l (.turn (.input b)) = some l') :
    l'.sent = l.sent ∧ inputs l'.turns = inputs l.turns ++ [b] := by
  cases Machine.step_stepped h with
  | turned hp ht hm => exact ⟨rfl, by simp [inputs, Turn.taken]⟩
  | @failed m _ _ hp ht hm =>
      obtain ⟨x, hx⟩ := D.takesInput m b
      cases hx.symm.trans hm

theorem machine_sent {l l' : D.Run} {e : DriverEvent} {rest : List (Effect UInt8 DriverEvent)}
    (h : D.machine.step l .send = some l') (ht : l.todo = .send e :: rest) :
    l'.sent = l.sent ++ [e] ∧ l'.turns = l.turns := by
  cases Machine.step_stepped h with
  | sent hp ht' =>
      cases ht.symm.trans ht'
      exact ⟨rfl, rfl⟩

/-- **What passes through the channels**: every pump has been sent what the loop of its instance has
sent, and every instance has received what its loop has taken. -/
structure Linked (s : Wired D) : Prop where
  sent : s.run.pumps.map Pump.sent = s.loops.map fun l => outputs l.sent
  taken : s.run.past ++ (if s.run.driver.receives then [s.run.received] else []) =
    (s.loops.map fun l => inputs l.turns).reverse

theorem linked_init : Linked (Wired.init : Wired D) where
  sent := rfl
  taken := rfl

theorem wires_of_ne {r : RunState} {b : Act} (h : ∀ secs, b ≠ .main secs) :
    wires r b = false := by
  cases b with
  | main secs => exact absurd rfl (h secs)
  | _ => rfl

/-- Changing a pump in the histories of no chunk changes nothing. -/
theorem map_sent_modify (ps : List Pump) {f : Pump → Pump} (hf : ∀ p, (f p).sent = p.sent) :
    (ps.modify 0 f).map Pump.sent = ps.map Pump.sent := by
  cases ps with
  | nil => rfl
  | cons p ps => simp [hf]

theorem Linked.mainStep {secs : ℕ} {r : RunState} (hi : Linked s) (ha : Attended s.run)
    (h : s.run.mainStep (sound cfg) secs = some r) :
    Linked ⟨r, if wires s.run (.main secs) then Run.init :: s.loops else s.loops⟩ := by
  cases RunState.mainStep_stepped h with
  | wires hm hc =>
      have hrec := ha.elsewhere (by simp [hm]) (by simp [hm]) (by simp [hm])
      have hunread : s.run.received = [] := by
        refine ha.unread fun hd => ?_
        simp [hd, Driver.receives] at hrec
      have htaken := hi.taken
      rw [hrec, if_neg Bool.false_ne_true, List.append_nil] at htaken
      have hw : wires s.run (.main secs) = true := by simp [wires, hm, hc]
      rw [hw]
      refine ⟨?_, ?_⟩
      · simp only [if_true, List.map_cons, hi.sent]
        rfl
      · simp only [if_true, List.map_cons, List.reverse_cons, ← htaken, hunread]
        rfl
  | creates hm hf =>
      have hw : wires s.run (.main secs) = false := by simp [wires, hm]
      have htaken := hi.taken
      rw [ha.fresh hm] at htaken
      rw [hw]
      exact ⟨hi.sent, htaken⟩
  | panics hm hf => cases hf
  | abortsPump hm =>
      have hw : wires s.run (.main secs) = false := by simp [wires, hm]
      rw [hw]
      refine ⟨Eq.trans ?_ hi.sent, hi.taken⟩
      exact map_sent_modify _ fun _ => rfl
  | starts hm | stops hm hc | shows hm | joins hm | cancelsBridge hm | awaitsBridge hm | finishes hm
  | fails hm | resigns hm | loses hm | tells hm | counts hm | announces hm | givesUp hm | sleeps hm
  | interrupted hm hc | abortsUptime hm | returns hm =>
      have hw : wires s.run (.main secs) = false := by simp_all [wires]
      rw [hw]
      exact ⟨hi.sent, hi.taken⟩

theorem Linked.task {b : Act} {r : RunState} (hi : Linked s) (ha : Attended s.run)
    (hd : ∀ x, b ≠ .driver x) (h : Runner.step (sound cfg) s.run b = some r) :
    Linked ⟨r, if wires s.run b then Run.init :: s.loops else s.loops⟩ := by
  cases step_stepped h with
  | main h => exact hi.mainStep ha h
  | driver h => exact absurd rfl (hd _)
  | pump h =>
      rw [wires_of_ne (by simp), if_neg Bool.false_ne_true]
      obtain ⟨p, q, e, hp, hq, rfl⟩ := RunState.pumpStep_some h
      rw [RunState.applyEffect_eq]
      refine ⟨?_, hi.taken⟩
      dsimp only
      obtain ⟨hlt, rfl⟩ := List.getElem?_eq_some_iff.1 hp
      rw [← hi.sent, List.map_set, pump_sent hq, ← List.getElem_map Pump.sent]
      · exact List.set_getElem_self _
      · rwa [List.length_map]
  | wake | cancel | sendInput | forward =>
      rw [wires_of_ne (by simp), if_neg Bool.false_ne_true]
      exact ⟨hi.sent, hi.taken⟩
  | uptime h =>
      rw [wires_of_ne (by simp), if_neg Bool.false_ne_true, RunState.uptimeStep_eq h]
      exact ⟨hi.sent, hi.taken⟩
  | bridge h =>
      rw [wires_of_ne (by simp), if_neg Bool.false_ne_true, RunState.bridgeStep_eq h]
      exact ⟨hi.sent, hi.taken⟩

theorem Linked.device {b : D.Act} {l l' : D.Run} {rest : List D.Run} {r : RunState} (hi : Linked s)
    (hl : s.loops = l :: rest) (hd : s.run.driver = .running) (hm : D.machine.step l b = some l')
    (hx : Exchanged s.run l b r) : Linked ⟨r, l' :: rest⟩ := by
  have hsent := hi.sent
  have htaken := hi.taken
  simp only [hd, Driver.receives, if_true, hl, List.map_cons, List.reverse_cons] at hsent htaken
  obtain ⟨hpast, hreceived⟩ := List.append_inj' htaken rfl
  have hnow := List.singleton_inj.1 hreceived
  cases hx with
  | silent hin hsend =>
      obtain ⟨hs, ht⟩ := machine_silent hm hin hsend
      refine ⟨?_, ?_⟩
      · simp [hs, hsent]
      · simp [hd, Driver.receives, ht, hpast, hnow]
  | took hb h =>
      obtain ⟨hs, ht⟩ := machine_took hm
      cases RunState.driverStep_stepped h with
      | recv _ hin =>
          rw [hin, List.head?_cons, Option.some_inj] at hb
          refine ⟨?_, ?_⟩
          · simp [hs, hsent]
          · simp [hd, Driver.receives, ht, hpast, hnow, hb]
  | sent ht h =>
      obtain ⟨hs, hu⟩ := machine_sent hm ht
      cases RunState.driverStep_stepped h with
      | send _ hp ho hroom =>
          rw [hp, List.map_cons, List.cons.injEq] at hsent
          refine ⟨?_, ?_⟩
          · simp [RunState.modifyPump, hp, Pump.send, hs, outputs_append, hsent]
          · simp [RunState.modifyPump, hd, Driver.receives, hu, hpast, hnow]

theorem Linked.returns {r : Except DriverError Unit} {u : RunState} (hi : Linked s)
    (h : s.run.driverStep (.finish (.returned r)) = some u) : Linked ⟨u, s.loops⟩ := by
  have htaken := hi.taken
  cases RunState.driverStep_stepped h with
  | finish hd =>
      simp only [hd, Driver.receives, if_true] at htaken
      refine ⟨Eq.trans ?_ hi.sent, ?_⟩
      · exact map_sent_modify _ fun _ => rfl
      · simpa [Driver.receives] using htaken

/-- **The channels of every session reached are linked to the loops.** -/
theorem Linked.of_reachable (h : Reachable (wiredStep cfg) Wired.init s) : Linked s := by
  have hboth : Attended s.run ∧ Linked s := by
    refine h.invariant (I := fun s => Attended s.run ∧ Linked s)
      ⟨attended_init, linked_init⟩ ?_
    rintro s a t ⟨ha, hi⟩ _ hstep
    refine ⟨?_, ?_⟩
    · rcases wiredStep_run hstep with heq | ⟨b, -, hb⟩
      · rwa [heq]
      · exact ha.step hb
    · cases wiredStep_stepped hstep with
      | task hd hu => exact hi.task ha hd hu
      | device hl hd hm hx => exact hi.device hl hd hm (exchange_exchanged hx)
      | returns hl hr hu => exact hi.returns hu
  exact hboth.2

/-! ### The way of the input -/

/-- What the loops have taken is what the instances have received. -/
theorem taken_eq (h : Reachable (wiredStep cfg) (Wired.init : Wired D) s) :
    (s.loops.reverse.map fun l => inputs l.turns).flatten =
      s.run.past.flatten ++ s.run.received := by
  have hunread := (Attended.of_reachable (wired_run h)).unread
  rw [List.map_reverse, ← (Linked.of_reachable h).taken]
  split
  · rw [List.flatten_append, List.flatten_singleton]
  · rename_i hrec
    have hnone : s.run.received = [] := by
      refine hunread fun hd => hrec ?_
      rw [hd]
      rfl
    rw [hnone, List.append_nil, List.append_nil]

/-- What a loop has written is a beginning of what its driver is to write. -/
theorem Device.written_prefix {l : D.Run} (h : Reachable D.machine.step Run.init l) :
    l.written <+: D.wire l.turns := by
  rcases Device.relays_of_reachable h with ⟨-, hw⟩ | hidle
  · exact ⟨_, hw⟩
  · rw [hidle.2.2.1]
    exact List.nil_prefix

/-- **The input of a session reaches its upstreams**, with any driver whose loop is that of a
`Device`, as long as the session hands its input over: what the loops of the instances have taken,
one after the other, is a beginning of what the hub has accepted, and what each of them has put on
its wire is a beginning of what it makes of that. -/
theorem session_writes (h : Reach (wiredStep cfg) HandsOver (Wired.init : Wired D) s) :
    (s.loops.reverse.map fun l => inputs l.turns).flatten <+: s.run.accepted ∧
      ∀ l ∈ s.loops, l.written <+: D.wire l.turns := by
  refine ⟨?_, fun l hl => Device.written_prefix (wired_loops h.reachable l hl)⟩
  have hrun : Reach (step (sound cfg)) HandedOver RunState.init s.run :=
    h.part (f := Wired.run) fun _ _ _ hok hstep =>
      (wiredStep_run hstep).imp_right fun ⟨b, hb, hs⟩ => ⟨b, hb hok, hs⟩
  have hway : OnTheWay s.run :=
    hrun.invariant onTheWay_init fun _ _ _ hi hok hs => hi.step hok hs
  rw [taken_eq h.reachable]
  exact hway.ordered

/-- Two keys are pressed; the first one is on its way through the socket. -/
def twoKeys : List (WiredAct rawTcpDevice) :=
  [.task (.main 0), .task (.main 0), .task (.main 0), .task (.main 0), .device (.opened (.ok ())),
    .task (.sendInput [104, 105]), .task (.sendInput [106]), .task (.bridge .take),
    .task (.bridge .give), .device .send, .device (.turn (.input [104, 105])), .device (.write 1)]

theorem session_writes_twoKeys : ∃ s : Wired rawTcpDevice,
    Reach (wiredStep ⟨true, none⟩) HandsOver Wired.init s ∧ s.loops.map Run.written = [[104]] ∧
    (s.loops.reverse.map fun l => inputs l.turns).flatten <+: s.run.accepted := by
  have hrun : ∃ s, exec (wiredStep ⟨true, none⟩) Wired.init twoKeys = some s ∧
      s.loops.map Run.written = [[104]] := ⟨_, rfl, rfl⟩
  obtain ⟨s, hs, hwritten⟩ := hrun
  have hmeets : Meets (wiredStep ⟨true, none⟩) HandsOver Wired.init twoKeys := by decide
  have hreach := hmeets.reach hs
  exact ⟨s, hreach, hwritten, (session_writes hreach).1⟩

end Upstream

end TermHub
