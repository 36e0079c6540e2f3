/-
**The runner of a session.**

`run_loop` of `termhub-core/src/runner.rs`, with the tasks it spawns: the ticker that publishes the
uptime, and for each driver instance an event pump, a bridge for the input, and the driver itself.
They share the status watch, the back-off counter and bounded channels, and run on a runtime with
several threads, so between any two steps of one of them the others may move.

A task is *polled* by the runtime from one suspension point to the next.  `JoinHandle::abort` does
not stop a task in the middle of a poll: it takes effect at the next suspension point, and a task
that is suspended when it is aborted is not polled again.  The ticker and the pumps, which are
aborted, are therefore modelled with their polls.

Main definitions:

* `Pump`, `Pump.step` — the event pump of one driver instance;
* `Main` — the position of the main loop;
* `RunState` — the state of the loop with its tasks, channels and histories;
* `step` — the transition function.

Main results:

* `mainStep_stepped`, `uptimeStep_stepped`, `Pump.step_stepped`, `bridgeStep_stepped`,
  `driverStep_stepped`, `step_stepped` — what a step can be, one case for each thing it can do;
* `step_published` — who publishes what;
* `step_elsewhere` — only the main loop and the ticker have a say in the status;
* `uptimeStep_eq`, `pumpStep_some`, `bridgeStep_eq`, `driverStep_eq` — what a task can change.
-/

import TermHub.Session
import TermHub.Persist
import TermHub.Transition

set_option relaxedAutoImplicit false
set_option autoImplicit false

namespace TermHub

namespace Runner

/-- `bytes::Bytes`. -/
abbrev Bytes := List UInt8

/-- The capacity of every `mpsc` channel of a session. -/
def capacity : ℕ := 256

/-! ### Drivers -/

/-- `DriverEvent`. -/
inductive DriverEvent
  | connected
  | output (b : Bytes)
  | notice (s : String)
  deriving DecidableEq, Repr

/-- `DriverError`. -/
inductive DriverError
  | fatal (reason : String)
  | ioLost (reason : String)
  deriving DecidableEq, Repr

/-- How the task of a driver ends: `run` returns, or it panics. -/
inductive DriverEnd
  | returned (r : Except DriverError Unit)
  | panicked (e : String)

/-- `drv_join.await.unwrap_or_else(..)`. -/
def DriverEnd.result : DriverEnd → Except DriverError Unit
  | returned r => r
  | panicked e => .error (.ioLost ("driver join: " ++ e))

/-- The present driver instance: its channels have been made, it runs, it has ended, or there is
none (before the first one, or after the factory has panicked). -/
inductive Driver
  | pending
  | running
  | ended (e : DriverEnd)
  | none

/-- The receiver of the driver's input channel exists. -/
def Driver.receives : Driver → Bool
  | pending => true
  | running => true
  | _ => false

/-! ### The event pump -/

/-- An event pump: the events in its channel, whether a sender is left, the chunk it is handing to
`up_tx`, and the histories of the chunks sent to it and handed on by it. -/
structure Pump where
  events : List DriverEvent
  senders : Bool
  hand : Option Bytes
  polled : Bool
  aborted : Bool
  ended : Bool
  sent : List Bytes
  handed : List Bytes
  deriving DecidableEq, Repr

/-- A pump that has just been spawned. -/
def Pump.new : Pump := ⟨[], true, none, false, false, false, [], []⟩

/-- The steps of a pump and of the runtime with it. -/
inductive PumpAct
  | poll | suspend | kill | take | hand | finish
  deriving DecidableEq, Repr

/-- What a step of a pump does to the rest of the session. -/
inductive PumpEffect
  | silent
  | reset
  | push (b : Bytes)
  | broadcast (b : Bytes)
  deriving DecidableEq, Repr

/-- The line that announces a notice of the driver. -/
def noticeLine (s : String) : Bytes := asBytes ("\x1b[33m*** termhub: " ++ s ++ "\x1b[0m\r\n")

/-- One step of a pump; `room` says that `up_tx` has room for a chunk. -/
def Pump.step (p : Pump) (room : Bool) : PumpAct → Option (Pump × PumpEffect)
  | .poll => if !p.polled && !p.ended && !p.aborted then some ({ p with polled := true }, .silent)
      else none
  | .suspend => if p.polled && !p.ended then some ({ p with polled := false }, .silent) else none
  | .kill =>
      -- the task is dropped with everything it holds
      if !p.polled && !p.ended && p.aborted then some ({ p with ended := true }, .silent) else none
  | .take =>
      if p.polled && !p.ended && p.hand.isNone then
        match p.events with
        | .connected :: rest => some ({ p with events := rest }, .reset)
        | .output b :: rest => some ({ p with events := rest, hand := some b }, .silent)
        | .notice s :: rest => some ({ p with events := rest }, .broadcast (noticeLine s))
        | [] => none
      else none
  | .hand =>
      match p.hand with
      | some b =>
        if p.polled && !p.ended && room then
          some ({ p with hand := none, handed := p.handed ++ [b] }, .push b)
        else none
      | none => none
  | .finish =>
      if p.polled && !p.ended && p.hand.isNone && p.events.isEmpty && !p.senders then
        some ({ p with ended := true }, .silent)
      else none

/-- What a step of a pump does. -/
inductive Pump.Stepped (p : Pump) (room : Bool) : PumpAct → Pump → PumpEffect → Prop
  | poll (hp : p.polled = false) (ho : p.ended = false) (ha : p.aborted = false) :
      Stepped p room .poll { p with polled := true } .silent
  | suspend (hp : p.polled = true) (ho : p.ended = false) :
      Stepped p room .suspend { p with polled := false } .silent
  | kill (hp : p.polled = false) (ho : p.ended = false) (ha : p.aborted = true) :
      Stepped p room .kill { p with ended := true } .silent
  | takeConnected {rest : List DriverEvent} (hp : p.polled = true) (ho : p.ended = false)
      (hh : p.hand = none) (hev : p.events = .connected :: rest) :
      Stepped p room .take { p with events := rest } .reset
  | takeOutput {b : Bytes} {rest : List DriverEvent} (hp : p.polled = true) (ho : p.ended = false)
      (hh : p.hand = none) (hev : p.events = .output b :: rest) :
      Stepped p room .take { p with events := rest, hand := some b } .silent
  | takeNotice {n : String} {rest : List DriverEvent} (hp : p.polled = true) (ho : p.ended = false)
      (hh : p.hand = none) (hev : p.events = .notice n :: rest) :
      Stepped p room .take { p with events := rest } (.broadcast (noticeLine n))
  | hand {b : Bytes} (hp : p.polled = true) (ho : p.ended = false) (hh : p.hand = some b)
      (hroom : room = true) :
      Stepped p room .hand { p with hand := none, handed := p.handed ++ [b] } (.push b)
  | finish (hp : p.polled = true) (ho : p.ended = false) (hh : p.hand = none) (hev : p.events = [])
      (hsend : p.senders = false) : Stepped p room .finish { p with ended := true } .silent

theorem Pump.step_stepped {p q : Pump} {room : Bool} {a : PumpAct} {e : PumpEffect}
    (h : p.step room a = some (q, e)) : p.Stepped room a q e := by
  cases a with
  | poll =>
      simp only [step, Option.ite_some_none_eq_some, Prod.mk.injEq, Bool.and_eq_true,
        Bool.not_eq_true'] at h
      obtain ⟨⟨⟨hp, ho⟩, ha⟩, rfl, rfl⟩ := h
      exact .poll hp ho ha
  | suspend =>
      simp only [step, Option.ite_some_none_eq_some, Prod.mk.injEq, Bool.and_eq_true,
        Bool.not_eq_true'] at h
      obtain ⟨⟨hp, ho⟩, rfl, rfl⟩ := h
      exact .suspend hp ho
  | kill =>
      simp only [step, Option.ite_some_none_eq_some, Prod.mk.injEq, Bool.and_eq_true,
        Bool.not_eq_true'] at h
      obtain ⟨⟨⟨hp, ho⟩, ha⟩, rfl, rfl⟩ := h
      exact .kill hp ho ha
  | take =>
      simp only [step, Bool.and_eq_true, Bool.not_eq_true', Option.isNone_iff_eq_none] at h
      split at h
      · rename_i hready
        obtain ⟨⟨hp, ho⟩, hh⟩ := hready
        split at h
        · rename_i rest hev
          obtain ⟨rfl, rfl⟩ := Prod.mk.inj (Option.some_inj.1 h)
          exact .takeConnected hp ho hh hev
        · rename_i b rest hev
          obtain ⟨rfl, rfl⟩ := Prod.mk.inj (Option.some_inj.1 h)
          exact .takeOutput hp ho hh hev
        · rename_i n rest hev
          obtain ⟨rfl, rfl⟩ := Prod.mk.inj (Option.some_inj.1 h)
          exact .takeNotice hp ho hh hev
        · cases h
      · cases h
  | hand =>
      simp only [step, Bool.and_eq_true, Bool.not_eq_true'] at h
      split at h
      · rename_i b hh
        obtain ⟨⟨⟨hp, ho⟩, hroom⟩, hq⟩ := Option.ite_some_none_eq_some.1 h
        obtain ⟨rfl, rfl⟩ := Prod.mk.inj hq
        exact .hand hp ho hh hroom
      · cases h
  | finish =>
      simp only [step, Option.ite_some_none_eq_some, Prod.mk.injEq, Bool.and_eq_true,
        Bool.not_eq_true', Option.isNone_iff_eq_none, List.isEmpty_iff] at h
      obtain ⟨⟨⟨⟨⟨hp, ho⟩, hh⟩, hev⟩, hsend⟩, rfl, rfl⟩ := h
      exact .finish hp ho hh hev hsend

/-- The chunks among some events. -/
def outputs (es : List DriverEvent) : List Bytes :=
  es.filterMap fun
    | .output b => some b
    | _ => none

/-- The driver puts an event into the channel of its pump. -/
def Pump.send (p : Pump) (e : DriverEvent) : Pump :=
  { p with events := p.events ++ [e], sent := p.sent ++ outputs [e] }

/-! ### The ticker and the bridge -/

/-- Where the task is that publishes the uptime. -/
inductive UptimePhase
  | unspawned
  /-- Suspended in `select!`. -/
  | suspended
  /-- Being polled, in front of `select!`. -/
  | polling
  /-- Being polled, the tick has been taken and the status is about to be published. -/
  | ticked
  | ended
  deriving DecidableEq, Repr

/-- The ticker, and whether `abort` has been called on it. -/
structure Uptime where
  phase : UptimePhase
  aborted : Bool
  deriving DecidableEq, Repr

/-- The steps of the ticker and of the runtime with it. -/
inductive UptimeAct
  | poll | suspend | kill | tick | publish (secs : ℕ) | cancelled
  deriving DecidableEq, Repr

/-- The bridge from the hub's input to the driver's. -/
inductive Bridge
  | waiting
  | holding (b : Bytes)
  | ended
  deriving DecidableEq, Repr

/-- The chunk the bridge holds. -/
def Bridge.hand : Bridge → List Bytes
  | holding b => [b]
  | _ => []

/-- The steps of the bridge: take a chunk, give it to the driver, fail to, see the cancellation. -/
inductive BridgeAct
  | take | give | fail | cancelled
  deriving DecidableEq, Repr

/-- The steps of a driver. -/
inductive DriverAct
  | recv | send (e : DriverEvent) | finish (e : DriverEnd)

/-! ### The main loop -/

/-- What the main loop is about to do. -/
inductive Main
  | start
  | loopTop
  | callFactory
  | publishRunning
  | joinDriver
  | cancelBridge (r : Except DriverError Unit)
  | awaitBridge (r : Except DriverError Unit)
  | abortPump (r : Except DriverError Unit)
  | matchResult (r : Except DriverError Unit)
  | broadcastLost (reason : String)
  | nextDelay (reason : String)
  | publishReconnecting (delay attempt : ℕ) (reason : String)
  | checkMax (delay attempt : ℕ) (reason : String)
  | sleep (delay : ℕ)
  | abortUptime (last : SessionStatus)
  | publishLast (last : SessionStatus)
  | returned
  | panicked

/-- The task has ended, by return or by panic. -/
def Main.ended : Main → Bool
  | returned => true
  | panicked => true
  | _ => false

/-- The parameters of `run_loop`: what `factory()` does (it returns a driver, or panics with a
message), and the settings. -/
structure Params where
  factory : Except String Unit
  cfg : RunnerConfig

/-- The state of a run.  The histories `published`, `accepted`, `past` and `received` (the chunks
that earlier driver instances and the present one have received) and the note `announced` (the
attempt last announced, until a driver is started or the loop ends) are not part of the code. -/
structure RunState where
  main : Main
  cancelled : Bool
  published : List SessionStatus
  uptime : Uptime
  backoff : Backoff
  /-- The input channel of the hub. -/
  hubIn : List Bytes
  accepted : List Bytes
  /-- The channel behind `up_tx`, and what has been broadcast. -/
  upQueue : List Bytes
  out : List Bytes
  /-- The pumps of all driver instances, the present one first. -/
  pumps : List Pump
  bridge : Bridge
  bridgeCancelled : Bool
  drvIn : List Bytes
  driver : Driver
  past : List (List Bytes)
  received : List Bytes
  announced : Option ℕ

/-- The state in which the task is spawned. -/
def RunState.init : RunState where
  main := .start
  cancelled := false
  published := []
  uptime := ⟨.unspawned, false⟩
  backoff := ⟨0⟩
  hubIn := []
  accepted := []
  upQueue := []
  out := []
  pumps := []
  bridge := .ended
  bridgeCancelled := false
  drvIn := []
  driver := .none
  past := []
  received := []
  announced := none

namespace RunState

/-- What observers read from the watch channel. -/
def watch (s : RunState) : SessionStatus := s.published.getLastD .idle

/-- `status.send(..)`. -/
def publish (s : RunState) (st : SessionStatus) : RunState :=
  { s with published := s.published ++ [st] }

/-- Change the pump of the present driver instance. -/
def modifyPump (s : RunState) (f : Pump → Pump) : RunState :=
  { s with pumps := s.pumps.modify 0 f }

/-- The line that announces a loss. -/
def lostLine : Bytes :=
  asBytes "\x1b[33m*** termhub: upstream lost, reconnecting...\x1b[0m\r\n"

/-- The next step of the main loop, at `secs` seconds of uptime. -/
def mainStep (c : Params) (secs : ℕ) (s : RunState) : Option RunState :=
  match s.main with
  | .start => some { s.publish .starting with main := .loopTop, uptime := ⟨.suspended, false⟩ }
  | .loopTop =>
    if s.cancelled then some { s with main := .abortUptime .stopped }
    else some { s with
      main := .callFactory
      pumps := Pump.new :: s.pumps
      bridge := .waiting
      bridgeCancelled := false
      drvIn := []
      driver := .pending }
  | .callFactory =>
    match c.factory with
    | .ok () => some { s with main := .publishRunning, driver := .running, announced := none }
    | .error _ =>
      -- unwinding drops the ends of the driver's channels; the spawned tasks go on
      some { s.modifyPump (fun p => { p with senders := false }) with
        main := .panicked, driver := .none }
  | .publishRunning => some { s.publish (.running secs) with main := .joinDriver }
  | .joinDriver =>
    match s.driver with
    | .ended e => some { s with main := .cancelBridge e.result }
    | _ => none
  | .cancelBridge r => some { s with main := .awaitBridge r, bridgeCancelled := true }
  | .awaitBridge r => if s.bridge = .ended then some { s with main := .abortPump r } else none
  | .abortPump r =>
    some { s.modifyPump (fun p => { p with aborted := true }) with main := .matchResult r }
  | .matchResult r =>
    match r with
    | .ok () => some { s with main := .abortUptime .stopped }
    | .error (.fatal reason) => some { s with main := .abortUptime (.failed reason) }
    | .error (.ioLost reason) =>
      if !c.cfg.autoReconnect then some { s with main := .abortUptime .stopped }
      else some { s with main := .broadcastLost reason }
  | .broadcastLost reason => some { s with main := .nextDelay reason, out := s.out ++ [lostLine] }
  | .nextDelay reason =>
    let (delay, backoff) := s.backoff.nextDelay
    some { s with main := .publishReconnecting delay backoff.attempt reason, backoff := backoff }
  | .publishReconnecting delay attempt reason =>
    some { s.publish (.reconnecting attempt) with
      main := .checkMax delay attempt reason, announced := some attempt }
  | .checkMax delay attempt reason =>
    match c.cfg.maxAttempts with
    | some max =>
      if attempt > max then
        some { s with
          main := .abortUptime (.failed ("max retries exceeded (" ++ reason ++ ")")) }
      else some { s with main := .sleep delay }
    | none => some { s with main := .sleep delay }
  | .sleep _ => if s.cancelled then some { s with main := .abortUptime .stopped } else none
  | .abortUptime last =>
    some { s with main := .publishLast last, uptime := { s.uptime with aborted := true } }
  | .publishLast last => some { s.publish last with main := .returned, announced := none }
  | .returned => none
  | .panicked => none

/-- One step of the ticker. -/
def uptimeStep (s : RunState) : UptimeAct → Option RunState
  | .poll =>
    if s.uptime.phase = .suspended ∧ s.uptime.aborted = false then
      some { s with uptime := { s.uptime with phase := .polling } }
    else none
  | .suspend =>
    if s.uptime.phase = .polling then
      some { s with uptime := { s.uptime with phase := .suspended } }
    else none
  | .kill =>
    if s.uptime.phase = .suspended ∧ s.uptime.aborted = true then
      some { s with uptime := { s.uptime with phase := .ended } }
    else none
  | .tick =>
    if s.uptime.phase = .polling then
      some { s with uptime := { s.uptime with phase := .ticked } }
    else none
  | .publish secs =>
    if s.uptime.phase = .ticked then
      some { s.publish (.running secs) with uptime := { s.uptime with phase := .polling } }
    else none
  | .cancelled =>
    if s.uptime.phase = .polling ∧ s.cancelled = true then
      some { s with uptime := { s.uptime with phase := .ended } }
    else none

/-- What a step of a pump does outside of the pump. -/
def applyEffect (s : RunState) : PumpEffect → RunState
  | .silent => s
  | .reset => { s with backoff := s.backoff.reset }
  | .push b => { s with upQueue := s.upQueue ++ [b] }
  | .broadcast b => { s with out := s.out ++ [b] }

/-- One step of the pump at position `i`. -/
def pumpStep (s : RunState) (i : ℕ) (a : PumpAct) : Option RunState :=
  match s.pumps[i]? with
  | some p =>
    match p.step (decide (s.upQueue.length < capacity)) a with
    | some (q, eff) => some { s.applyEffect eff with pumps := s.pumps.set i q }
    | none => none
  | none => none

/-- One step of the bridge. -/
def bridgeStep (s : RunState) : BridgeAct → Option RunState
  | .take =>
    match s.bridge, s.hubIn with
    | .waiting, b :: rest => some { s with bridge := .holding b, hubIn := rest }
    | _, _ => none
  | .give =>
    match s.bridge with
    | .holding b =>
      if s.driver.receives = true ∧ s.drvIn.length < capacity then
        some { s with bridge := .waiting, drvIn := s.drvIn ++ [b] }
      else none
    | _ => none
  | .fail =>
    match s.bridge with
    | .holding _ => if s.driver.receives = false then some { s with bridge := .ended } else none
    | _ => none
  | .cancelled =>
    if s.bridge = .waiting ∧ s.bridgeCancelled = true then some { s with bridge := .ended }
    else none

/-- One step of the driver. -/
def driverStep (s : RunState) : DriverAct → Option RunState
  | .recv =>
    match s.driver, s.drvIn with
    | .running, b :: rest => some { s with drvIn := rest, received := s.received ++ [b] }
    | _, _ => none
  | .send e =>
    match s.driver, s.pumps with
    | .running, p :: _ =>
      if p.ended = false ∧ p.events.length < capacity then some (s.modifyPump fun p => p.send e)
      else none
    | _, _ => none
  | .finish e =>
    match s.driver with
    | .running =>
      some { s.modifyPump (fun p => { p with senders := false }) with
        driver := .ended e, drvIn := [], past := s.past ++ [s.received], received := [] }
    | _ => none

end RunState

/-! ### The transition function -/

/-- What can happen in a run. -/
inductive Act
  | main (secs : ℕ)
  /-- The back-off delay has elapsed. -/
  | wake
  | cancel
  | sendInput (b : Bytes)
  /-- The task of `make_forward` broadcasts a chunk. -/
  | forward
  | uptime (a : UptimeAct)
  | pump (i : ℕ) (a : PumpAct)
  | bridge (a : BridgeAct)
  | driver (a : DriverAct)

/-- The step of an action. -/
def step (c : Params) (s : RunState) : Act → Option RunState
  | .main secs => s.mainStep c secs
  | .wake =>
    match s.main with
    | .sleep _ => some { s with main := .loopTop }
    | _ => none
  | .cancel => some { s with cancelled := true }
  | .sendInput b =>
    -- the receiver lives as long as the loop or a bridge has it
    if (s.main.ended = false ∨ s.bridge ≠ .ended) ∧ s.hubIn.length < capacity then
      some { s with hubIn := s.hubIn ++ [b], accepted := s.accepted ++ [b] }
    else none
  | .forward =>
    match s.upQueue with
    | b :: rest => some { s with upQueue := rest, out := s.out ++ [b] }
    | [] => none
  | .uptime a => s.uptimeStep a
  | .pump i a => s.pumpStep i a
  | .bridge a => s.bridgeStep a
  | .driver a => s.driverStep a

/-- The settings of a session that reconnects for ever, with a factory that returns a driver. -/
def steady : Params := ⟨.ok (), ⟨true, none⟩⟩

/-! ### Who changes what -/

/-- The status that a step of the main loop publishes. -/
def Main.publishes (secs : ℕ) : Main → Option SessionStatus
  | .start => some .starting
  | .publishRunning => some (.running secs)
  | .publishReconnecting _ attempt _ => some (.reconnecting attempt)
  | .publishLast last => some last
  | _ => none

/-- The status that an action publishes. -/
def RunState.publishes (s : RunState) : Act → Option SessionStatus
  | .main secs => s.main.publishes secs
  | .uptime (.publish secs) => some (.running secs)
  | _ => none

namespace RunState

/-- What a step of the main loop does, one case for each thing it can do. -/
inductive MainStepped (c : Params) (secs : ℕ) (s : RunState) : RunState → Prop
  | starts (hm : s.main = .start) : MainStepped c secs s
      { s.publish .starting with main := .loopTop, uptime := ⟨.suspended, false⟩ }
  | stops (hm : s.main = .loopTop) (hc : s.cancelled = true) : MainStepped c secs s
      { s with main := .abortUptime .stopped }
  | wires (hm : s.main = .loopTop) (hc : s.cancelled = false) : MainStepped c secs s
      { s with
        main := .callFactory
        pumps := Pump.new :: s.pumps
        bridge := .waiting
        bridgeCancelled := false
        drvIn := []
        driver := .pending }
  | creates (hm : s.main = .callFactory) (hf : c.factory = .ok ()) : MainStepped c secs s
      { s with main := .publishRunning, driver := .running, announced := none }
  | panics {e : String} (hm : s.main = .callFactory) (hf : c.factory = .error e) :
      MainStepped c secs s
      { s.modifyPump (fun p => { p with senders := false }) with
        main := .panicked, driver := .none }
  | shows (hm : s.main = .publishRunning) : MainStepped c secs s
      { s.publish (.running secs) with main := .joinDriver }
  | joins {e : DriverEnd} (hm : s.main = .joinDriver) (hd : s.driver = .ended e) :
      MainStepped c secs s { s with main := .cancelBridge e.result }
  | cancelsBridge {r : Except DriverError Unit} (hm : s.main = .cancelBridge r) :
      MainStepped c secs s { s with main := .awaitBridge r, bridgeCancelled := true }
  | awaitsBridge {r : Except DriverError Unit} (hm : s.main = .awaitBridge r)
      (hb : s.bridge = .ended) : MainStepped c secs s { s with main := .abortPump r }
  | abortsPump {r : Except DriverError Unit} (hm : s.main = .abortPump r) : MainStepped c secs s
      { s.modifyPump (fun p => { p with aborted := true }) with main := .matchResult r }
  | finishes (hm : s.main = .matchResult (.ok ())) : MainStepped c secs s
      { s with main := .abortUptime .stopped }
  | fails {reason : String} (hm : s.main = .matchResult (.error (.fatal reason))) :
      MainStepped c secs s { s with main := .abortUptime (.failed reason) }
  | resigns {reason : String} (hm : s.main = .matchResult (.error (.ioLost reason)))
      (hauto : c.cfg.autoReconnect = false) : MainStepped c secs s
      { s with main := .abortUptime .stopped }
  | loses {reason : String} (hm : s.main = .matchResult (.error (.ioLost reason)))
      (hauto : c.cfg.autoReconnect = true) : MainStepped c secs s
      { s with main := .broadcastLost reason }
  | tells {reason : String} (hm : s.main = .broadcastLost reason) : MainStepped c secs s
      { s with main := .nextDelay reason, out := s.out ++ [lostLine] }
  | counts {reason : String} (hm : s.main = .nextDelay reason) : MainStepped c secs s
      { s with
        main := .publishReconnecting s.backoff.nextDelay.1 s.backoff.nextDelay.2.attempt reason
        backoff := s.backoff.nextDelay.2 }
  | announces {delay attempt : ℕ} {reason : String}
      (hm : s.main = .publishReconnecting delay attempt reason) : MainStepped c secs s
      { s.publish (.reconnecting attempt) with
        main := .checkMax delay attempt reason, announced := some attempt }
  | givesUp {delay attempt max : ℕ} {reason : String}
      (hm : s.main = .checkMax delay attempt reason) (hmax : c.cfg.maxAttempts = some max)
      (hlt : max < attempt) : MainStepped c secs s
      { s with main := .abortUptime (.failed ("max retries exceeded (" ++ reason ++ ")")) }
  | sleeps {delay attempt : ℕ} {reason : String} (hm : s.main = .checkMax delay attempt reason)
      (hmax : ∀ max, c.cfg.maxAttempts = some max → attempt ≤ max) : MainStepped c secs s
      { s with main := .sleep delay }
  | interrupted {delay : ℕ} (hm : s.main = .sleep delay) (hc : s.cancelled = true) :
      MainStepped c secs s { s with main := .abortUptime .stopped }
  | abortsUptime {last : SessionStatus} (hm : s.main = .abortUptime last) : MainStepped c secs s
      { s with main := .publishLast last, uptime := { s.uptime with aborted := true } }
  | returns {last : SessionStatus} (hm : s.main = .publishLast last) : MainStepped c secs s
      { s.publish last with main := .returned, announced := none }

/-- Every step of the main loop is one of these. -/
theorem mainStep_stepped {c : Params} {secs : ℕ} {s t : RunState}
    (h : s.mainStep c secs = some t) : MainStepped c secs s t := by
  unfold mainStep at h
  split at h
  case h_1 hm =>
    obtain rfl := Option.some_inj.1 h
    exact .starts hm
  case h_2 hm =>
    split at h
    · rename_i hc
      obtain rfl := Option.some_inj.1 h
      exact .stops hm hc
    · rename_i hc
      obtain rfl := Option.some_inj.1 h
      exact .wires hm (Bool.eq_false_iff.2 hc)
  case h_3 hm =>
    split at h
    · rename_i hf
      obtain rfl := Option.some_inj.1 h
      exact .creates hm hf
    · rename_i hf
      obtain rfl := Option.some_inj.1 h
      exact .panics hm hf
  case h_4 hm =>
    obtain rfl := Option.some_inj.1 h
    exact .shows hm
  case h_5 hm =>
    split at h
    · rename_i e hd
      obtain rfl := Option.some_inj.1 h
      exact .joins hm hd
    · cases h
  case h_6 r hm =>
    obtain rfl := Option.some_inj.1 h
    exact .cancelsBridge hm
  case h_7 r hm =>
    split at h
    · rename_i hb
      obtain rfl := Option.some_inj.1 h
      exact .awaitsBridge hm hb
    · cases h
  case h_8 r hm =>
    obtain rfl := Option.some_inj.1 h
    exact .abortsPump hm
  case h_9 r hm =>
    split at h
    · obtain rfl := Option.some_inj.1 h
      exact .finishes hm
    · obtain rfl := Option.some_inj.1 h
      exact .fails hm
    · split at h
      · rename_i hauto
        obtain rfl := Option.some_inj.1 h
        exact .resigns hm (by simpa using hauto)
      · rename_i hauto
        obtain rfl := Option.some_inj.1 h
        exact .loses hm (by simpa using hauto)
  case h_10 reason hm =>
    obtain rfl := Option.some_inj.1 h
    exact .tells hm
  case h_11 reason hm =>
    obtain rfl := Option.some_inj.1 h
    exact .counts hm
  case h_12 delay attempt reason hm =>
    obtain rfl := Option.some_inj.1 h
    exact .announces hm
  case h_13 delay attempt reason hm =>
    split at h
    · rename_i max hmax
      split at h
      · rename_i hlt
        obtain rfl := Option.some_inj.1 h
        exact .givesUp hm hmax hlt
      · rename_i hle
        obtain rfl := Option.some_inj.1 h
        refine .sleeps hm fun m hm' => ?_
        obtain rfl := Option.some_inj.1 (hmax.symm.trans hm')
        exact Nat.not_lt.1 hle
    · rename_i hmax
      obtain rfl := Option.some_inj.1 h
      exact .sleeps hm (by simp [hmax])
  case h_14 delay hm =>
    split at h
    · rename_i hc
      obtain rfl := Option.some_inj.1 h
      exact .interrupted hm hc
    · cases h
  case h_15 last hm =>
    obtain rfl := Option.some_inj.1 h
    exact .abortsUptime hm
  case h_16 last hm =>
    obtain rfl := Option.some_inj.1 h
    exact .returns hm
  case h_17 => cases h
  case h_18 => cases h

theorem mainStep_published {c : Params} {secs : ℕ} {s t : RunState}
    (h : s.mainStep c secs = some t) :
    t.published = s.published ++ (s.main.publishes secs).toList := by
  cases mainStep_stepped h with
  | starts hm | shows hm | announces hm | returns hm => simp [hm, publish, Main.publishes]
  | stops hm | wires hm | creates hm | panics hm | joins hm | cancelsBridge hm | awaitsBridge hm
  | abortsPump hm | finishes hm | fails hm | resigns hm | loses hm | tells hm | counts hm
  | givesUp hm | sleeps hm | interrupted hm | abortsUptime hm =>
      simp [hm, Main.publishes, modifyPump]

/-- What a step of the ticker does. -/
inductive UptimeStepped (s : RunState) : UptimeAct → RunState → Prop
  | poll (hp : s.uptime.phase = .suspended) (ha : s.uptime.aborted = false) :
      UptimeStepped s .poll { s with uptime := { s.uptime with phase := .polling } }
  | suspend (hp : s.uptime.phase = .polling) :
      UptimeStepped s .suspend { s with uptime := { s.uptime with phase := .suspended } }
  | kill (hp : s.uptime.phase = .suspended) (ha : s.uptime.aborted = true) :
      UptimeStepped s .kill { s with uptime := { s.uptime with phase := .ended } }
  | tick (hp : s.uptime.phase = .polling) :
      UptimeStepped s .tick { s with uptime := { s.uptime with phase := .ticked } }
  | publish {secs : ℕ} (hp : s.uptime.phase = .ticked) : UptimeStepped s (.publish secs)
      { s.publish (.running secs) with uptime := { s.uptime with phase := .polling } }
  | cancelled (hp : s.uptime.phase = .polling) (hc : s.cancelled = true) :
      UptimeStepped s .cancelled { s with uptime := { s.uptime with phase := .ended } }

theorem uptimeStep_stepped {s t : RunState} {a : UptimeAct} (h : s.uptimeStep a = some t) :
    UptimeStepped s a t := by
  cases a with
  | poll =>
      obtain ⟨⟨hp, ha⟩, rfl⟩ := Option.ite_some_none_eq_some.1 h
      exact .poll hp ha
  | suspend =>
      obtain ⟨hp, rfl⟩ := Option.ite_some_none_eq_some.1 h
      exact .suspend hp
  | kill =>
      obtain ⟨⟨hp, ha⟩, rfl⟩ := Option.ite_some_none_eq_some.1 h
      exact .kill hp ha
  | tick =>
      obtain ⟨hp, rfl⟩ := Option.ite_some_none_eq_some.1 h
      exact .tick hp
  | publish secs =>
      obtain ⟨hp, rfl⟩ := Option.ite_some_none_eq_some.1 h
      exact .publish hp
  | cancelled =>
      obtain ⟨⟨hp, hc⟩, rfl⟩ := Option.ite_some_none_eq_some.1 h
      exact .cancelled hp hc

/-- The ticker changes the status and its own position. -/
theorem uptimeStep_eq {s t : RunState} {a : UptimeAct} (h : s.uptimeStep a = some t) :
    t = { s with published := t.published, uptime := t.uptime } := by
  cases uptimeStep_stepped h <;> rfl

theorem uptimeStep_published {s t : RunState} {a : UptimeAct} (h : s.uptimeStep a = some t) :
    t.published = s.published ++ (s.publishes (.uptime a)).toList := by
  cases uptimeStep_stepped h <;> simp [RunState.publish, publishes]

theorem applyEffect_eq (s : RunState) (e : PumpEffect) :
    s.applyEffect e = { s with
      backoff := (s.applyEffect e).backoff, upQueue := (s.applyEffect e).upQueue,
      out := (s.applyEffect e).out } := by
  cases e <;> rfl

/-- A pump steps, and what it does outside is done. -/
theorem pumpStep_some {s t : RunState} {i : ℕ} {a : PumpAct} (h : s.pumpStep i a = some t) :
    ∃ p q e, s.pumps[i]? = some p ∧
      p.step (decide (s.upQueue.length < capacity)) a = some (q, e) ∧
      t = { s.applyEffect e with pumps := s.pumps.set i q } := by
  unfold pumpStep at h
  split at h
  · rename_i p hp
    split at h
    · rename_i q e hq
      exact ⟨p, q, e, hp, hq, (Option.some_inj.1 h).symm⟩
    · cases h
  · cases h

/-- A pump changes itself, the back-off and what goes to the clients. -/
theorem pumpStep_eq {s t : RunState} {i : ℕ} {a : PumpAct} (h : s.pumpStep i a = some t) :
    t = { s with
      pumps := t.pumps, backoff := t.backoff, upQueue := t.upQueue, out := t.out } := by
  obtain ⟨p, q, e, -, -, rfl⟩ := pumpStep_some h
  rw [applyEffect_eq]

/-- What a step of the bridge does. -/
inductive BridgeStepped (s : RunState) : BridgeAct → RunState → Prop
  | take {b : Bytes} {rest : List Bytes} (hb : s.bridge = .waiting) (hin : s.hubIn = b :: rest) :
      BridgeStepped s .take { s with bridge := .holding b, hubIn := rest }
  | give {b : Bytes} (hb : s.bridge = .holding b) (hrec : s.driver.receives = true)
      (hroom : s.drvIn.length < capacity) :
      BridgeStepped s .give { s with bridge := .waiting, drvIn := s.drvIn ++ [b] }
  | fail {b : Bytes} (hb : s.bridge = .holding b) (hrec : s.driver.receives = false) :
      BridgeStepped s .fail { s with bridge := .ended }
  | cancelled (hb : s.bridge = .waiting) (hc : s.bridgeCancelled = true) :
      BridgeStepped s .cancelled { s with bridge := .ended }

theorem bridgeStep_stepped {s t : RunState} {a : BridgeAct} (h : s.bridgeStep a = some t) :
    BridgeStepped s a t := by
  unfold bridgeStep at h
  cases a with
  | take =>
      dsimp only at h
      split at h
      · rename_i b rest hb hin
        obtain rfl := Option.some_inj.1 h
        exact .take hb hin
      · cases h
  | give =>
      dsimp only at h
      split at h
      · rename_i b hb
        obtain ⟨⟨hrec, hroom⟩, rfl⟩ := Option.ite_some_none_eq_some.1 h
        exact .give hb hrec hroom
      · cases h
  | fail =>
      dsimp only at h
      split at h
      · rename_i b hb
        obtain ⟨hrec, rfl⟩ := Option.ite_some_none_eq_some.1 h
        exact .fail hb hrec
      · cases h
  | cancelled =>
      obtain ⟨⟨hb, hc⟩, rfl⟩ := Option.ite_some_none_eq_some.1 h
      exact .cancelled hb hc

/-- The bridge changes its own position and the two input channels. -/
theorem bridgeStep_eq {s t : RunState} {a : BridgeAct} (h : s.bridgeStep a = some t) :
    t = { s with bridge := t.bridge, hubIn := t.hubIn, drvIn := t.drvIn } := by
  cases bridgeStep_stepped h <;> rfl

/-- What a step of the driver does. -/
inductive DriverStepped (s : RunState) : DriverAct → RunState → Prop
  | recv {b : Bytes} {rest : List Bytes} (hd : s.driver = .running) (hin : s.drvIn = b :: rest) :
      DriverStepped s .recv { s with drvIn := rest, received := s.received ++ [b] }
  | send {e : DriverEvent} {p : Pump} {rest : List Pump} (hd : s.driver = .running)
      (hp : s.pumps = p :: rest) (ho : p.ended = false) (hroom : p.events.length < capacity) :
      DriverStepped s (.send e) (s.modifyPump fun p => p.send e)
  | finish {e : DriverEnd} (hd : s.driver = .running) : DriverStepped s (.finish e)
      { s.modifyPump (fun p => { p with senders := false }) with
        driver := .ended e, drvIn := [], past := s.past ++ [s.received], received := [] }

theorem driverStep_stepped {s t : RunState} {a : DriverAct} (h : s.driverStep a = some t) :
    DriverStepped s a t := by
  unfold driverStep at h
  cases a with
  | recv =>
      dsimp only at h
      split at h
      · rename_i b rest hd hin
        obtain rfl := Option.some_inj.1 h
        exact .recv hd hin
      · cases h
  | send e =>
      dsimp only at h
      split at h
      · rename_i p rest hd hp
        obtain ⟨⟨ho, hroom⟩, rfl⟩ := Option.ite_some_none_eq_some.1 h
        exact .send hd hp ho hroom
      · cases h
  | finish e =>
      dsimp only at h
      split at h
      · rename_i hd
        obtain rfl := Option.some_inj.1 h
        exact .finish hd
      · cases h

/-- The driver changes its own state, the channels it holds an end of, and its history. -/
theorem driverStep_eq {s t : RunState} {a : DriverAct} (h : s.driverStep a = some t) :
    t = { s with
      driver := t.driver, drvIn := t.drvIn, pumps := t.pumps, past := t.past,
      received := t.received } := by
  cases driverStep_stepped h <;> rfl

end RunState

/-- A step of the run: of the loop, of a task, or of somebody outside. -/
inductive Stepped (c : Params) (s : RunState) : Act → RunState → Prop
  | main {secs : ℕ} {t : RunState} (h : s.mainStep c secs = some t) : Stepped c s (.main secs) t
  | wake {delay : ℕ} (hm : s.main = .sleep delay) : Stepped c s .wake { s with main := .loopTop }
  | cancel : Stepped c s .cancel { s with cancelled := true }
  | sendInput {b : Bytes} (hopen : s.main.ended = false ∨ s.bridge ≠ .ended)
      (hroom : s.hubIn.length < capacity) : Stepped c s (.sendInput b)
      { s with hubIn := s.hubIn ++ [b], accepted := s.accepted ++ [b] }
  | forward {b : Bytes} {rest : List Bytes} (hq : s.upQueue = b :: rest) :
      Stepped c s .forward { s with upQueue := rest, out := s.out ++ [b] }
  | uptime {a : UptimeAct} {t : RunState} (h : s.uptimeStep a = some t) : Stepped c s (.uptime a) t
  | pump {i : ℕ} {a : PumpAct} {t : RunState} (h : s.pumpStep i a = some t) :
      Stepped c s (.pump i a) t
  | bridge {a : BridgeAct} {t : RunState} (h : s.bridgeStep a = some t) : Stepped c s (.bridge a) t
  | driver {a : DriverAct} {t : RunState} (h : s.driverStep a = some t) : Stepped c s (.driver a) t

theorem step_stepped {c : Params} {s t : RunState} {a : Act} (h : step c s a = some t) :
    Stepped c s a t := by
  cases a with
  | main secs => exact .main h
  | wake =>
      simp only [step] at h
      split at h
      · rename_i delay hm
        obtain rfl := Option.some_inj.1 h
        exact .wake hm
      · cases h
  | cancel =>
      obtain rfl := Option.some_inj.1 h
      exact .cancel
  | sendInput b =>
      obtain ⟨⟨hopen, hroom⟩, rfl⟩ := Option.ite_some_none_eq_some.1 h
      exact .sendInput hopen hroom
  | forward =>
      simp only [step] at h
      split at h
      · rename_i b rest hq
        obtain rfl := Option.some_inj.1 h
        exact .forward hq
      · cases h
  | uptime a => exact .uptime h
  | pump i a => exact .pump h
  | bridge a => exact .bridge h
  | driver a => exact .driver h

/-- **Who publishes what.** -/
theorem step_published {c : Params} {s t : RunState} {a : Act} (h : step c s a = some t) :
    t.published = s.published ++ (s.publishes a).toList := by
  cases step_stepped h with
  | main h => exact RunState.mainStep_published h
  | uptime h => exact RunState.uptimeStep_published h
  | wake | cancel | sendInput | forward => simp [RunState.publishes]
  | pump h =>
      rw [RunState.pumpStep_eq h]
      simp [RunState.publishes]
  | bridge h =>
      rw [RunState.bridgeStep_eq h]
      simp [RunState.publishes]
  | driver h =>
      rw [RunState.driverStep_eq h]
      simp [RunState.publishes]

/-- The other tasks and the callers change neither the position of the loop nor the ticker nor what
has been published, apart from ending the back-off delay. -/
theorem step_elsewhere {c : Params} {s t : RunState} {a : Act} (h : step c s a = some t)
    (hm : ∀ secs, a ≠ .main secs) (hu : ∀ b, a ≠ .uptime b) :
    (t.main = s.main ∨ (∃ d, s.main = .sleep d) ∧ t.main = .loopTop) ∧ t.uptime = s.uptime ∧
      t.published = s.published := by
  cases step_stepped h with
  | main _ => exact absurd rfl (hm _)
  | uptime _ => exact absurd rfl (hu _)
  | wake hd => exact ⟨.inr ⟨⟨_, hd⟩, rfl⟩, rfl, rfl⟩
  | cancel | sendInput | forward => exact ⟨.inl rfl, rfl, rfl⟩
  | pump h =>
      rw [RunState.pumpStep_eq h]
      exact ⟨.inl rfl, rfl, rfl⟩
  | bridge h =>
      rw [RunState.bridgeStep_eq h]
      exact ⟨.inl rfl, rfl, rfl⟩
  | driver h =>
      rw [RunState.driverStep_eq h]
      exact ⟨.inl rfl, rfl, rfl⟩

end Runner

end TermHub
