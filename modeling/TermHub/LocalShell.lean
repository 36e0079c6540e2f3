/-
**The driver of a local shell.**

`LocalShellDriver::run` of `termhub-drivers/src/local_shell.rs`.  The shell runs on a pseudo
terminal.  A blocking task reads the terminal and sends what it has read, while the driver itself
waits for the cancellation, for input and for the timer that has it ask whether the shell has
exited.  The driver and the task run side by side, and before it returns the driver waits for the
task, for five seconds at most; a task that takes longer goes on without it.

Main definitions:

* `LocalShellDriver`, `Pty` — the driver, and the calls that open its terminal;
* `Shell`, `LocalShellDriver.step` — the driver with its task, and the transition function;
* `Verdict` — what the driver may return, and when.

Main results:

* `local_shell_relays` — **what has been sent is what has been read, and what has been written is
  what has been taken**, at every suspension point of the driver and of its task;
* `local_shell_returns` — **what the driver returns, and what it leaves behind**.
-/

import TermHub.DriverLoops

set_option relaxedAutoImplicit false
set_option autoImplicit false

namespace TermHub

namespace Upstream

open Transition
open Runner (Bytes DriverError DriverEvent)

/-! ### The driver and its task -/

/-- `LocalShellDriver`. -/
structure LocalShellDriver where
  command : String
  args : List String
  cols : UInt16
  rows : UInt16
  deriving DecidableEq, Repr

/-- `portable_pty::PtySize`. -/
structure PtySize where
  rows : UInt16
  cols : UInt16
  pixelWidth : UInt16
  pixelHeight : UInt16

/-- The system that gives out pseudo terminals: what it says to the calls of a driver. -/
structure Pty where
  openpty : PtySize → Except String Unit
  /-- A command and its arguments. -/
  spawnCommand : String → List String → Except String Unit
  tryCloneReader : Except String Unit
  takeWriter : Except String Unit

namespace LocalShellDriver

/-- The calls before the first event. -/
def opening (d : LocalShellDriver) (p : Pty) : Except DriverError Unit := do
  (p.openpty ⟨d.rows, d.cols, 0, 0⟩).mapError fun e => .fatal ("openpty: " ++ e)
  (p.spawnCommand d.command d.args).mapError fun e => .fatal ("spawn " ++ d.command ++ ": " ++ e)
  p.tryCloneReader.mapError fun e => .fatal ("clone reader: " ++ e)
  p.takeWriter.mapError fun e => .fatal ("take writer: " ++ e)

/-- A driver that cannot open its terminal fails for good. -/
theorem opening_fatal {d : LocalShellDriver} {p : Pty} {e : DriverError}
    (h : d.opening p = .error e) : ∃ reason, e = .fatal reason := by
  unfold opening at h
  cases ho : p.openpty ⟨d.rows, d.cols, 0, 0⟩ with
  | error a =>
      rw [ho] at h
      exact ⟨_, (Except.error.inj h).symm⟩
  | ok _ =>
      cases hs : p.spawnCommand d.command d.args with
      | error a =>
          rw [ho, hs] at h
          exact ⟨_, (Except.error.inj h).symm⟩
      | ok _ =>
          cases hr : p.tryCloneReader with
          | error a =>
              rw [ho, hs, hr] at h
              exact ⟨_, (Except.error.inj h).symm⟩
          | ok _ =>
              cases hw : p.takeWriter with
              | error a =>
                  rw [ho, hs, hr, hw] at h
                  exact ⟨_, (Except.error.inj h).symm⟩
              | ok _ =>
                  rw [ho, hs, hr, hw] at h
                  cases h

end LocalShellDriver

/-- The task that reads the terminal. -/
inductive Reader
  | unspawned
  | reading
  /-- It waits for room in the event channel. -/
  | sending (b : Bytes)
  /-- The terminal has been closed, or could not be read. -/
  | ended
  /-- Nobody takes its events. -/
  | refused (b : Bytes)
  deriving DecidableEq, Repr

/-- What the task has read and not sent. -/
def Reader.held : Reader → List Bytes
  | .sending b => [b]
  | .refused b => [b]
  | _ => []

/-- The task is over. -/
def Reader.Over : Reader → Prop
  | .ended => True
  | .refused _ => True
  | _ => False

instance : DecidablePred Reader.Over
  | .ended => .isTrue trivial
  | .refused _ => .isTrue trivial
  | .unspawned | .reading | .sending _ => .isFalse id

/-- Where the driver is. -/
inductive ShellPhase
  | opening
  /-- It sends `Connected`. -/
  | greeting
  | selecting
  /-- It writes a chunk of input, of which these bytes are left. -/
  | writing (rest : Bytes)
  /-- It waits for the task before it returns. -/
  | draining (r : Except DriverError Unit)
  | returned (r : Except DriverError Unit)

/-- The driver and its task.  `closed` tells that nobody takes their events any more; `reads`,
`taken`, `written` and `sent` are histories. -/
structure Shell where
  phase : ShellPhase
  reader : Reader
  closed : Bool
  killed : Bool
  reads : List Bytes
  taken : List Bytes
  written : Bytes
  sent : List DriverEvent

/-- A driver that has just been started. -/
def Shell.init : Shell := ⟨.opening, .unspawned, false, false, [], [], [], []⟩

/-- What can happen. -/
inductive ShellAct
  | opened (p : Pty)
  | greet
  | greetFails
  | cancelled
  | inputClosed
  | take (b : Bytes)
  | wrote (n : ℕ)
  | flushed
  /-- Writing or flushing fails, or the task that does it panics. -/
  | writeFails
  /-- `child.try_wait()`, with the code of a shell that has exited. -/
  | tryWait (r : Except String (Option UInt32))
  | drained
  | timedOut
  /-- Nobody takes the events any more. -/
  | close
  | read (r : Except String Bytes)
  | readSent
  | readRefused

/-- What is returned when the input cannot be written. -/
def writeFailed : Except DriverError Unit := .error (.ioLost "pty write failed")

/-- What is returned when the shell has exited. -/
def shellExited : Except DriverError Unit := .error (.ioLost "local shell exited")

/-- The size of the buffer of the task. -/
def readBuf : ℕ := 4096

/-- One step of the driver, of its task, or of those who take its events. -/
def LocalShellDriver.step (d : LocalShellDriver) (s : Shell) : ShellAct → Option Shell
  | .opened p =>
    match s.phase with
    | .opening =>
      match d.opening p with
      | .ok () => some { s with phase := .greeting }
      | .error e => some { s with phase := .returned (.error e) }
    | _ => none
  | .greet =>
    match s.phase, s.closed with
    | .greeting, false =>
      some { s with phase := .selecting, reader := .reading, sent := s.sent ++ [.connected] }
    | _, _ => none
  | .greetFails =>
    match s.phase, s.closed with
    | .greeting, true => some { s with phase := .returned (.error evtClosed) }
    | _, _ => none
  | .cancelled =>
    match s.phase with
    | .selecting => some { s with phase := .draining (.ok ()), killed := true }
    | _ => none
  | .inputClosed =>
    match s.phase with
    | .selecting => some { s with phase := .draining (.ok ()), killed := true }
    | _ => none
  | .take b =>
    match s.phase with
    | .selecting => some { s with phase := .writing b, taken := s.taken ++ [b] }
    | _ => none
  | .wrote n =>
    match s.phase with
    | .writing rest =>
      if n ≤ rest.length then
        some { s with phase := .writing (rest.drop n), written := s.written ++ rest.take n }
      else none
    | _ => none
  | .flushed =>
    match s.phase with
    | .writing [] => some { s with phase := .selecting }
    | _ => none
  | .writeFails =>
    match s.phase with
    | .writing _ => some { s with phase := .draining writeFailed }
    | _ => none
  | .tryWait r =>
    match s.phase with
    | .selecting =>
      match r with
      | .ok (some _) => some { s with phase := .draining shellExited }
      | .ok none => some s
      | .error _ => some s
    | _ => none
  | .drained =>
    match s.phase with
    | .draining r => if s.reader.Over then some { s with phase := .returned r } else none
    | _ => none
  | .timedOut =>
    match s.phase with
    | .draining r => some { s with phase := .returned r }
    | _ => none
  | .close => some { s with closed := true }
  | .read r =>
    match s.reader with
    | .reading =>
      match r with
      | .ok [] => some { s with reader := .ended }
      | .ok (b :: bs) =>
        if (b :: bs).length ≤ readBuf then
          some { s with reader := .sending (b :: bs), reads := s.reads ++ [b :: bs] }
        else none
      | .error _ => some { s with reader := .ended }
    | _ => none
  | .readSent =>
    match s.reader, s.closed with
    | .sending b, false => some { s with reader := .reading, sent := s.sent ++ [.output b] }
    | _, _ => none
  | .readRefused =>
    match s.reader, s.closed with
    | .sending b, true => some { s with reader := .refused b }
    | _, _ => none

/-- What a step does. -/
inductive ShellStepped (d : LocalShellDriver) (s : Shell) : ShellAct → Shell → Prop
  | opened {p : Pty} (hp : s.phase = .opening) (ho : d.opening p = .ok ()) :
      ShellStepped d s (.opened p) { s with phase := .greeting }
  | unopened {p : Pty} {e : DriverError} (hp : s.phase = .opening) (ho : d.opening p = .error e) :
      ShellStepped d s (.opened p) { s with phase := .returned (.error e) }
  | greeted (hp : s.phase = .greeting) (hc : s.closed = false) : ShellStepped d s .greet
      { s with phase := .selecting, reader := .reading, sent := s.sent ++ [.connected] }
  | unheard (hp : s.phase = .greeting) (hc : s.closed = true) :
      ShellStepped d s .greetFails { s with phase := .returned (.error evtClosed) }
  | stopped {a : ShellAct} (hp : s.phase = .selecting) (ha : a = .cancelled ∨ a = .inputClosed) :
      ShellStepped d s a { s with phase := .draining (.ok ()), killed := true }
  | took {b : Bytes} (hp : s.phase = .selecting) :
      ShellStepped d s (.take b) { s with phase := .writing b, taken := s.taken ++ [b] }
  | wrote {rest : Bytes} {n : ℕ} (hp : s.phase = .writing rest) (hn : n ≤ rest.length) :
      ShellStepped d s (.wrote n)
        { s with phase := .writing (rest.drop n), written := s.written ++ rest.take n }
  | flushed (hp : s.phase = .writing []) :
      ShellStepped d s .flushed { s with phase := .selecting }
  | unwritten {rest : Bytes} (hp : s.phase = .writing rest) :
      ShellStepped d s .writeFails { s with phase := .draining writeFailed }
  | exited {code : UInt32} (hp : s.phase = .selecting) :
      ShellStepped d s (.tryWait (.ok (some code))) { s with phase := .draining shellExited }
  | alive {r : Except String (Option UInt32)} (hp : s.phase = .selecting)
      (hr : ∀ code, r ≠ .ok (some code)) : ShellStepped d s (.tryWait r) s
  | drained {r : Except DriverError Unit} (hp : s.phase = .draining r) (ho : s.reader.Over) :
      ShellStepped d s .drained { s with phase := .returned r }
  | timedOut {r : Except DriverError Unit} (hp : s.phase = .draining r) :
      ShellStepped d s .timedOut { s with phase := .returned r }
  | closed : ShellStepped d s .close { s with closed := true }
  | readEnds {r : Except String Bytes} (hr : s.reader = .reading) :
      ShellStepped d s (.read r) { s with reader := .ended }
  | read {b : UInt8} {bs : Bytes} (hr : s.reader = .reading)
      (hn : (b :: bs).length ≤ readBuf) : ShellStepped d s (.read (.ok (b :: bs)))
        { s with reader := .sending (b :: bs), reads := s.reads ++ [b :: bs] }
  | readSent {b : Bytes} (hr : s.reader = .sending b) (hc : s.closed = false) :
      ShellStepped d s .readSent { s with reader := .reading, sent := s.sent ++ [.output b] }
  | readRefused {b : Bytes} (hr : s.reader = .sending b) (hc : s.closed = true) :
      ShellStepped d s .readRefused { s with reader := .refused b }

variable {d : LocalShellDriver} {s t : Shell} {a : ShellAct}

/-- Every step is one of these. -/
theorem LocalShellDriver.step_stepped (h : d.step s a = some t) : ShellStepped d s a t := by
  cases a with
  | opened p =>
      simp only [step] at h
      split at h
      · rename_i hp
        split at h
        · rename_i ho
          obtain rfl := Option.some_inj.1 h
          exact .opened hp ho
        · rename_i ho
          obtain rfl := Option.some_inj.1 h
          exact .unopened hp ho
      · cases h
  | greet =>
      simp only [step] at h
      split at h
      · rename_i hp hc
        obtain rfl := Option.some_inj.1 h
        exact .greeted hp hc
      · cases h
  | greetFails =>
      simp only [step] at h
      split at h
      · rename_i hp hc
        obtain rfl := Option.some_inj.1 h
        exact .unheard hp hc
      · cases h
  | cancelled =>
      simp only [step] at h
      split at h
      · rename_i hp
        obtain rfl := Option.some_inj.1 h
        exact .stopped hp (.inl rfl)
      · cases h
  | inputClosed =>
      simp only [step] at h
      split at h
      · rename_i hp
        obtain rfl := Option.some_inj.1 h
        exact .stopped hp (.inr rfl)
      · cases h
  | take b =>
      simp only [step] at h
      split at h
      · rename_i hp
        obtain rfl := Option.some_inj.1 h
        exact .took hp
      · cases h
  | wrote n =>
      simp only [step] at h
      split at h
      · rename_i hp
        obtain ⟨hn, rfl⟩ := Option.ite_some_none_eq_some.1 h
        exact .wrote hp hn
      · cases h
  | flushed =>
      simp only [step] at h
      split at h
      · rename_i hp
        obtain rfl := Option.some_inj.1 h
        exact .flushed hp
      · cases h
  | writeFails =>
      simp only [step] at h
      split at h
      · rename_i hp
        obtain rfl := Option.some_inj.1 h
        exact .unwritten hp
      · cases h
  | tryWait r =>
      simp only [step] at h
      split at h
      · rename_i hp
        split at h
        · obtain rfl := Option.some_inj.1 h
          exact .exited hp
        · obtain rfl := Option.some_inj.1 h
          exact .alive hp nofun
        · obtain rfl := Option.some_inj.1 h
          exact .alive hp nofun
      · cases h
  | drained =>
      simp only [step] at h
      split at h
      · rename_i hp
        obtain ⟨ho, rfl⟩ := Option.ite_some_none_eq_some.1 h
        exact .drained hp ho
      · cases h
  | timedOut =>
      simp only [step] at h
      split at h
      · rename_i hp
        obtain rfl := Option.some_inj.1 h
        exact .timedOut hp
      · cases h
  | close =>
      obtain rfl := Option.some_inj.1 h
      exact .closed
  | read r =>
      simp only [step] at h
      split at h
      · rename_i hr
        split at h
        · obtain rfl := Option.some_inj.1 h
          exact .readEnds hr
        · obtain ⟨hn, rfl⟩ := Option.ite_some_none_eq_some.1 h
          exact .read hr hn
        · obtain rfl := Option.some_inj.1 h
          exact .readEnds hr
      · cases h
  | readSent =>
      simp only [step] at h
      split at h
      · rename_i hr hc
        obtain rfl := Option.some_inj.1 h
        exact .readSent hr hc
      · cases h
  | readRefused =>
      simp only [step] at h
      split at h
      · rename_i hr hc
        obtain rfl := Option.some_inj.1 h
        exact .readRefused hr hc
      · cases h

/-! ### What is sent and written -/

/-- The driver has sent `Connected`; with a fatal error it has not, and it does not wait. -/
def ShellPhase.Begun : ShellPhase → Prop
  | .opening => False
  | .greeting => False
  | .draining (.error (.fatal _)) => False
  | .returned (.error (.fatal _)) => False
  | _ => True

theorem ShellPhase.begun_returned (r : Except DriverError Unit) :
    (ShellPhase.returned r).Begun ↔ (ShellPhase.draining r).Begun := by
  rcases r with (_ | _) | _
  all_goals rfl

/-- What of its input the driver has taken and not written; after a write that has failed it is not
known how much. -/
inductive Owes : ShellPhase → Bytes → Prop
  | opening : Owes .opening []
  | greeting : Owes .greeting []
  | selecting : Owes .selecting []
  | writing {rest : Bytes} : Owes (.writing rest) rest
  | draining {r : Except DriverError Unit} {rest : Bytes} (h : r = writeFailed ∨ rest = []) :
      Owes (.draining r) rest
  | returned {r : Except DriverError Unit} {rest : Bytes} (h : r = writeFailed ∨ rest = []) :
      Owes (.returned r) rest

/-- **The account of a local shell.**  The task runs from `Connected` on; what it has sent, with
what it holds, is what it has read, and it stops sending only when nobody takes its events.  What
has been written, with what is owed, is what has been taken. -/
structure Shell.Relays (s : Shell) : Prop where
  task : s.phase.Begun ↔ s.reader ≠ .unspawned
  unbegun : s.reader = .unspawned → s.sent = [] ∧ s.reads = [] ∧ s.taken = [] ∧ s.written = []
  shown : s.reader ≠ .unspawned →
    s.sent ++ s.reader.held.map .output = .connected :: s.reads.map .output
  bounded : ∀ b ∈ s.reads, b ≠ [] ∧ b.length ≤ readBuf
  refused : ∀ b, s.reader = .refused b → s.closed = true
  put : ∃ rest, Owes s.phase rest ∧ s.written ++ rest = s.taken.flatten

theorem Shell.relays_init : Shell.init.Relays where
  task := ⟨False.elim, fun h => absurd rfl h⟩
  unbegun _ := ⟨rfl, rfl, rfl, rfl⟩
  shown h := absurd rfl h
  bounded _ h := nomatch h
  refused _ h := nomatch h
  put := ⟨[], .opening, rfl⟩

/-- What the task does concerns nothing else. -/
theorem Shell.Relays.task_moves (hi : s.Relays) {r : Reader} {reads : List Bytes}
    {sent : List DriverEvent} (hs : s.reader ≠ .unspawned) (hr : r ≠ .unspawned)
    (hshown : sent ++ r.held.map .output = .connected :: reads.map .output)
    (hbounded : ∀ b ∈ reads, b ≠ [] ∧ b.length ≤ readBuf)
    (hrefused : ∀ b, r = .refused b → s.closed = true) :
    { s with reader := r, reads := reads, sent := sent }.Relays where
  task := ⟨fun _ => hr, fun _ => hi.task.2 hs⟩
  unbegun h := absurd h hr
  shown _ := hshown
  bounded := hbounded
  refused := hrefused
  put := hi.put

/-- The driver moves on, and the task has begun before or not. -/
theorem Shell.Relays.driver_moves (hi : s.Relays) {p : ShellPhase} {k : Bool}
    (hp : p.Begun ↔ s.phase.Begun) {rest : Bytes} (hrest : Owes s.phase rest → Owes p rest)
    (howes : Owes s.phase rest ∧ s.written ++ rest = s.taken.flatten) :
    { s with phase := p, killed := k }.Relays where
  task := hp.trans hi.task
  unbegun := hi.unbegun
  shown := hi.shown
  bounded := hi.bounded
  refused := hi.refused
  put := ⟨rest, hrest howes.1, howes.2⟩

theorem Shell.Relays.step (hi : s.Relays) (h : d.step s a = some t) : t.Relays := by
  obtain ⟨rest, howes, hput⟩ := hi.put
  cases LocalShellDriver.step_stepped h with
  | opened hp ho =>
      rw [hp] at howes
      cases howes
      exact hi.driver_moves (k := s.killed) (by rw [hp]; rfl) (fun _ => .greeting)
        ⟨hp ▸ .opening, hput⟩
  | unopened hp ho =>
      rw [hp] at howes
      cases howes
      obtain ⟨reason, rfl⟩ := LocalShellDriver.opening_fatal ho
      exact hi.driver_moves (k := s.killed) (by rw [hp]; rfl) (fun _ => .returned (.inr rfl))
        ⟨hp ▸ .opening, hput⟩
  | unheard hp hc =>
      rw [hp] at howes
      cases howes
      exact hi.driver_moves (k := s.killed) (by rw [hp]; rfl) (fun _ => .returned (.inr rfl))
        ⟨hp ▸ .greeting, hput⟩
  | greeted hp hc =>
      have hs : s.reader = .unspawned := by
        by_contra hne
        have hbegun := hi.task.2 hne
        rw [hp] at hbegun
        exact hbegun
      obtain ⟨hsent, hreads, htaken, hwritten⟩ := hi.unbegun hs
      exact {
        task := ⟨fun _ => nofun, fun _ => trivial⟩
        unbegun := nofun
        shown := fun _ => by simp [hsent, hreads, Reader.held]
        bounded := hi.bounded
        refused := nofun
        put := ⟨[], .selecting, by simp [htaken, hwritten]⟩ }
  | stopped hp ha =>
      exact hi.driver_moves (by rw [hp]; rfl) (fun h => by
        rw [hp] at h
        cases h
        exact .draining (.inr rfl)) ⟨howes, hput⟩
  | exited hp =>
      exact hi.driver_moves (k := s.killed) (by rw [hp]; rfl) (fun h => by
        rw [hp] at h
        cases h
        exact .draining (.inr rfl)) ⟨howes, hput⟩
  | unwritten hp =>
      exact hi.driver_moves (k := s.killed) (by rw [hp]; rfl) (fun _ => .draining (.inl rfl))
        ⟨howes, hput⟩
  | flushed hp =>
      exact hi.driver_moves (k := s.killed) (by rw [hp]; rfl) (fun h => by
        rw [hp] at h
        cases h
        exact .selecting) ⟨howes, hput⟩
  | took hp =>
      rw [hp] at howes
      cases howes
      rw [List.append_nil] at hput
      have hbegun : s.phase.Begun := by
        rw [hp]
        trivial
      exact {
        task := ⟨fun _ => hi.task.1 hbegun, fun _ => trivial⟩
        unbegun := fun hs => absurd hs (hi.task.1 hbegun)
        shown := hi.shown
        bounded := hi.bounded
        refused := hi.refused
        put := ⟨_, .writing, by simp [hput]⟩ }
  | wrote hp hn =>
      rw [hp] at howes
      cases howes
      have hbegun : s.phase.Begun := by
        rw [hp]
        trivial
      exact {
        task := ⟨fun _ => hi.task.1 hbegun, fun _ => trivial⟩
        unbegun := fun hs => absurd hs (hi.task.1 hbegun)
        shown := hi.shown
        bounded := hi.bounded
        refused := hi.refused
        put := ⟨_, .writing, by
          rw [List.append_assoc, List.take_append_drop]
          exact hput⟩ }
  | alive hp => exact hi
  | drained hp | timedOut hp =>
      exact hi.driver_moves (k := s.killed) (by rw [hp, ShellPhase.begun_returned]) (fun h => by
        rw [hp] at h
        cases h with
        | draining h => exact .returned h) ⟨howes, hput⟩
  | closed =>
      exact { hi with refused := fun _ _ => rfl }
  | readEnds hr =>
      have hs : s.reader ≠ .unspawned := by simp [hr]
      have hshown := hi.shown hs
      rw [hr] at hshown
      exact hi.task_moves hs nofun hshown hi.bounded nofun
  | @read b bs hr hn =>
      have hs : s.reader ≠ .unspawned := by simp [hr]
      have hshown := hi.shown hs
      rw [hr] at hshown
      refine hi.task_moves hs nofun ?_ ?_ nofun
      · simp only [Reader.held, List.map_nil, List.append_nil] at hshown
        simp [Reader.held, hshown]
      · intro c hc
        rcases List.mem_append.1 hc with hc | hc
        · exact hi.bounded c hc
        · obtain rfl := List.mem_singleton.1 hc
          exact ⟨List.cons_ne_nil _ _, hn⟩
  | readSent hr hc =>
      have hs : s.reader ≠ .unspawned := by simp [hr]
      have hshown := hi.shown hs
      rw [hr] at hshown
      exact hi.task_moves hs nofun (by simpa [Reader.held] using hshown) hi.bounded nofun
  | readRefused hr hc =>
      have hs : s.reader ≠ .unspawned := by simp [hr]
      have hshown := hi.shown hs
      rw [hr] at hshown
      exact hi.task_moves hs nofun hshown hi.bounded fun _ _ => hc

theorem Shell.Relays.of_reachable (h : Reachable d.step Shell.init s) : s.Relays :=
  h.invariant Shell.relays_init fun _ _ _ hi _ hs => hi.step hs

/-- **What a local shell shows and what it is given**, in every run and at every suspension point:
the events that have been sent are `Connected` and the chunks that have been read, in order, up to
the one that the task holds; the bytes that have been written are a beginning of the input that has
been taken, and all of it whenever the driver listens. -/
theorem local_shell_relays (h : Reachable d.step Shell.init s) :
    (s.phase.Begun →
      s.sent ++ s.reader.held.map .output = .connected :: s.reads.map .output) ∧
    (¬ s.phase.Begun → s.sent = [] ∧ s.reads = [] ∧ s.taken = [] ∧ s.written = []) ∧
    s.written <+: s.taken.flatten ∧
    (s.phase = .selecting → s.written = s.taken.flatten) := by
  have hi := Shell.Relays.of_reachable h
  obtain ⟨rest, howes, hput⟩ := hi.put
  refine ⟨fun hb => hi.shown (hi.task.1 hb), fun hb => hi.unbegun ?_, ⟨rest, hput⟩, fun hp => ?_⟩
  · by_contra hne
    exact hb (hi.task.2 hne)
  · rw [hp] at howes
    cases howes
    rwa [List.append_nil] at hput

/-! ### What is returned -/

/-- **What the driver may return**, after these events: `Ok` when it was told to stop, and then it
has killed the shell; a loss when the shell has exited or its input could not be written, and then
it has not; and a fatal error only before the shell has been heard of. -/
inductive Verdict (d : LocalShellDriver) (as : List ShellAct) (s : Shell) :
    Except DriverError Unit → Prop
  | stopped (ha : .cancelled ∈ as ∨ .inputClosed ∈ as) (hk : s.killed = true) :
      Verdict d as s (.ok ())
  | exited {code : UInt32} (ha : .tryWait (.ok (some code)) ∈ as) (hk : s.killed = false) :
      Verdict d as s shellExited
  | unwritten (ha : .writeFails ∈ as) (hk : s.killed = false) : Verdict d as s writeFailed
  | unopened {p : Pty} {e : DriverError} (ha : .opened p ∈ as) (ho : d.opening p = .error e)
      (hs : s.reader = .unspawned) (hk : s.killed = false) : Verdict d as s (.error e)
  | unheard (ha : .close ∈ as) (hs : s.reader = .unspawned) (hk : s.killed = false) :
      Verdict d as s (.error evtClosed)

/-- A verdict stands. -/
theorem Verdict.later {as : List ShellAct} {r : Except DriverError Unit} (h : Verdict d as s r)
    (a : ShellAct) (hk : t.killed = s.killed) (hs : s.reader = .unspawned → t.reader = .unspawned) :
    Verdict d (as ++ [a]) t r := by
  have hmem {x : ShellAct} (hx : x ∈ as) : x ∈ as ++ [a] := List.mem_append_left _ hx
  cases h with
  | stopped ha h => exact .stopped (ha.imp hmem hmem) (hk.trans h)
  | exited ha h => exact .exited (hmem ha) (hk.trans h)
  | unwritten ha h => exact .unwritten (hmem ha) (hk.trans h)
  | unopened ha ho hr h => exact .unopened (hmem ha) ho (hs hr) (hk.trans h)
  | unheard ha hr h => exact .unheard (hmem ha) (hs hr) (hk.trans h)

/-- The result that the driver has settled on. -/
def ShellPhase.result : ShellPhase → Option (Except DriverError Unit)
  | .draining r => some r
  | .returned r => some r
  | _ => none

/-- **The verdict of a run**: the result that the driver has settled on is one that it may return,
and it has waited for its task. -/
structure Settles (d : LocalShellDriver) (as : List ShellAct) (s : Shell) : Prop where
  verdict : ∀ r, s.phase.result = some r → Verdict d as s r
  alive : s.phase.result = none → s.killed = false
  waited : ∀ r, s.phase = .returned r →
    s.reader = .unspawned ∨ s.reader.Over ∨ .timedOut ∈ as
  closed : s.closed = true → .close ∈ as

/-- The driver goes on, and so does its task. -/
theorem Settles.goes_on {as : List ShellAct} (hi : Settles d as s) (ha : s.phase.result = none)
    (hp : t.phase.result = none) (hk : t.killed = s.killed) (hc : t.closed = s.closed)
    (a : ShellAct) : Settles d (as ++ [a]) t where
  verdict r hr := nomatch hp.symm.trans hr
  alive _ := hk.trans (hi.alive ha)
  waited r hr := by
    rw [hr] at hp
    cases hp
  closed h := List.mem_append_left _ (hi.closed (hc.symm.trans h))

/-- The driver settles on a result. -/
theorem Settles.settles {as : List ShellAct} (hi : Settles d as s) {r : Except DriverError Unit}
    {a : ShellAct} (hp : t.phase.result = some r) (hv : Verdict d (as ++ [a]) t r)
    (hw : ∀ r', t.phase = .returned r' → t.reader = .unspawned) (hc : t.closed = s.closed) :
    Settles d (as ++ [a]) t where
  verdict r' hr := by
    obtain rfl := Option.some_inj.1 (hp.symm.trans hr)
    exact hv
  alive h := nomatch hp.symm.trans h
  waited r' hr := .inl (hw r' hr)
  closed h := List.mem_append_left _ (hi.closed (hc.symm.trans h))

/-- The task moves, or those who take the events do. -/
theorem Settles.task_moves {as : List ShellAct} (hi : Settles d as s) {a : ShellAct}
    (hp : t.phase = s.phase) (hk : t.killed = s.killed)
    (hu : s.reader = .unspawned → t.reader = .unspawned) (ho : s.reader.Over → t.reader.Over)
    (hc : t.closed = true → .close ∈ as ++ [a]) : Settles d (as ++ [a]) t where
  verdict r hr := (hi.verdict r (hp ▸ hr)).later a hk hu
  alive h := hk.trans (hi.alive (hp ▸ h))
  waited r hr := by
    rcases hi.waited r (hp ▸ hr) with h | h | h
    · exact .inl (hu h)
    · exact .inr (.inl (ho h))
    · exact .inr (.inr (List.mem_append_left _ h))
  closed := hc

/-- The driver returns the result that it has settled on. -/
theorem Settles.returns {as : List ShellAct} (hi : Settles d as s) {a : ShellAct}
    {r : Except DriverError Unit} (hp : s.phase = .draining r)
    (hw : s.reader.Over ∨ a = .timedOut) :
    Settles d (as ++ [a]) { s with phase := .returned r } where
  verdict r' hr := by
    obtain rfl := Option.some_inj.1 hr
    exact (hi.verdict r (by rw [hp]; rfl)).later a rfl id
  alive h := nomatch h
  waited _ _ := by
    rcases hw with h | rfl
    · exact .inr (.inl h)
    · exact .inr (.inr (List.mem_append_right _ (List.mem_singleton_self _)))
  closed h := List.mem_append_left _ (hi.closed h)

theorem settles_init : Settles d [] Shell.init where
  verdict _ h := nomatch h
  alive _ := rfl
  waited _ h := nomatch h
  closed h := nomatch h

theorem Settles.step {as : List ShellAct} (hr : s.Relays) (hi : Settles d as s)
    (h : d.step s a = some t) : Settles d (as ++ [a]) t := by
  have hlast : a ∈ as ++ [a] := List.mem_append_right _ (List.mem_singleton_self _)
  have hbefore {p : ShellPhase} (hp : s.phase = p) (hb : ¬ p.Begun) : s.reader = .unspawned := by
    by_contra hne
    exact hb (hp ▸ hr.task.2 hne)
  cases LocalShellDriver.step_stepped h with
  | opened hp | greeted hp | took hp | wrote hp | flushed hp =>
      exact hi.goes_on (by rw [hp]; rfl) (by rfl) (by rfl) (by rfl) _
  | alive hp =>
      have hgoes : s.phase.result = none := by rw [hp]; rfl
      exact hi.goes_on hgoes hgoes rfl rfl _
  | unopened hp ho =>
      have hs := hbefore hp id
      exact hi.settles rfl (.unopened hlast ho hs (hi.alive (by rw [hp]; rfl))) (fun _ _ => hs) rfl
  | unheard hp hc =>
      have hs := hbefore hp id
      exact hi.settles rfl (.unheard (List.mem_append_left _ (hi.closed hc)) hs
        (hi.alive (by rw [hp]; rfl))) (fun _ _ => hs) rfl
  | stopped hp ha =>
      refine hi.settles rfl (.stopped ?_ rfl) nofun rfl
      rcases ha with rfl | rfl
      · exact .inl hlast
      · exact .inr hlast
  | exited hp =>
      exact hi.settles rfl (.exited hlast (hi.alive (by rw [hp]; rfl))) nofun rfl
  | unwritten hp =>
      exact hi.settles rfl (.unwritten hlast (hi.alive (by rw [hp]; rfl))) nofun rfl
  | drained hp ho => exact hi.returns hp (.inl ho)
  | timedOut hp => exact hi.returns hp (.inr rfl)
  | closed => exact hi.task_moves rfl rfl id id fun _ => hlast
  | readEnds hr | read hr | readSent hr | readRefused hr =>
      refine hi.task_moves rfl rfl (fun h => nomatch hr.symm.trans h) (fun h => ?_)
        fun h => List.mem_append_left _ (hi.closed h)
      rw [hr] at h
      exact h.elim

/-- **What the driver of a local shell returns, and what it leaves behind**, in every run: it
returns for a reason that it may have; before it has returned its task is over or has had its five
seconds; all of the input that it has taken is written, unless writing has failed; and if its task
is over and its events were taken, all that has been read has been sent. -/
theorem local_shell_returns {as : List ShellAct} {r : Except DriverError Unit}
    (h : exec d.step Shell.init as = some s) (hr : s.phase = .returned r) :
    Verdict d as s r ∧
    (s.reader = .unspawned ∨ s.reader.Over ∨ .timedOut ∈ as) ∧
    (r ≠ writeFailed → s.written = s.taken.flatten) ∧
    (s.reader.Over → .close ∉ as → s.sent = .connected :: s.reads.map .output) := by
  have hrelays := Shell.Relays.of_reachable (reachable_of_exec h)
  have hi : s.Relays ∧ Settles d as s := by
    refine exec_invariant (I := fun as s => s.Relays ∧ Settles d as s)
      ⟨Shell.relays_init, settles_init⟩ ?_ h
    rintro as s a t ⟨hrel, hi⟩ hstep
    exact ⟨hrel.step hstep, hi.step hrel hstep⟩
  refine ⟨hi.2.verdict r (by rw [hr]; rfl), hi.2.waited r hr, fun hne => ?_, fun hover hopen => ?_⟩
  · obtain ⟨rest, howes, hput⟩ := hrelays.put
    rw [hr] at howes
    cases howes with
    | returned h =>
        obtain rfl := h.resolve_left hne
        rwa [List.append_nil] at hput
  · cases hreader : s.reader with
    | ended =>
        have hshown := hrelays.shown (by rw [hreader]; nofun)
        rw [hreader] at hshown
        change s.sent ++ [] = _ at hshown
        rwa [List.append_nil] at hshown
    | refused b => exact absurd (hi.2.closed (hrelays.refused b hreader)) hopen
    | unspawned | reading | sending b =>
        rw [hreader] at hover
        exact hover.elim

/-- A terminal that opens. -/
def openPty : Pty := ⟨fun _ => .ok (), fun _ _ => .ok (), .ok (), .ok ()⟩

/-- `exit` is typed, the shell says `bye` and exits. -/
def typedExit : List ShellAct :=
  [.opened openPty, .greet, .take [101, 120, 105, 116, 13], .read (.ok [98, 121, 101]), .wrote 2,
    .readSent, .wrote 3, .flushed, .tryWait (.ok none), .tryWait (.ok (some 0)), .read (.ok []),
    .drained]

theorem local_shell_relays_typedExit : ∃ s,
    exec (LocalShellDriver.step ⟨"sh", ["-i"], 80, 24⟩) Shell.init typedExit = some s ∧
    s.sent ++ s.reader.held.map .output = .connected :: s.reads.map .output := by
  have hrun : ∃ s,
      exec (LocalShellDriver.step ⟨"sh", ["-i"], 80, 24⟩) Shell.init typedExit = some s ∧
      s.phase = .returned shellExited := ⟨_, rfl, rfl⟩
  obtain ⟨s, hs, hphase⟩ := hrun
  exact ⟨s, hs, (local_shell_relays (reachable_of_exec hs)).1 (by rw [hphase]; trivial)⟩

theorem local_shell_returns_typedExit : ∃ s,
    exec (LocalShellDriver.step ⟨"sh", ["-i"], 80, 24⟩) Shell.init typedExit = some s ∧
    s.written = s.taken.flatten ∧ s.sent = .connected :: s.reads.map .output := by
  have hrun : ∃ s,
      exec (LocalShellDriver.step ⟨"sh", ["-i"], 80, 24⟩) Shell.init typedExit = some s ∧
      s.phase = .returned shellExited ∧ s.reader = .ended := ⟨_, rfl, rfl, rfl⟩
  obtain ⟨s, hs, hphase, hreader⟩ := hrun
  obtain ⟨-, -, hwritten, hsent⟩ := local_shell_returns hs hphase
  refine ⟨s, hs, hwritten (by decide), hsent (by rw [hreader]; trivial) ?_⟩
  simp [typedExit]

end Upstream

end TermHub
