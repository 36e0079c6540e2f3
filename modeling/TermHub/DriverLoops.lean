/-
**The loops of the drivers.**

`run` of the drivers in `termhub-drivers/src/`: `raw_tcp.rs`, `serial.rs`, `telnet.rs`,
`ssh_client.rs` and `loopback.rs`.  Each of them opens its upstream, sends `Connected`, and then
waits in `select!` for the cancellation, for the upstream and for its input.  While it writes, or
waits for room in the event channel, it does not look at the other two.

Main definitions:

* `Turn` — what `select!` can choose besides the cancellation;
* `rawTcp`, `serial`, `telnet`, `sshClient`, `loopback` — the drivers;
* `Device` — a driver, with what it is to show and to put on the wire;
* `UpstreamDriver.device` — the driver that has been made from a description.

Main results:

* `upstream_contract` — **the contract of a driver**: why it returns what;
* `Device.relays_of_reachable` — **what a driver shows and what it puts on the wire**, at every
  moment of every run.
-/

import TermHub.Duplex
import TermHub.Drivers
import TermHub.Eol
import TermHub.Telnet

set_option relaxedAutoImplicit false
set_option autoImplicit false

namespace TermHub

namespace Upstream

open Duplex Transition
open Runner (Bytes DriverError DriverEvent)

/-! ### Turns -/

/-- What `select!` can choose: what comes from the upstream, or a chunk of input. -/
inductive Turn (ρ : Type)
  | read (r : ρ)
  | input (b : Bytes)
  deriving DecidableEq, Repr

variable {ω σ ρ : Type}

/-- The chunk of input that a turn takes. -/
def Turn.taken : Turn ρ → List Bytes
  | .read _ => []
  | .input b => [b]

/-- The bytes that a turn reads from a stream. -/
def Turn.streamed : Turn (Except String Bytes) → List Bytes
  | .read (.ok bytes) => [bytes]
  | _ => []

/-- The chunks of input that some turns have taken. -/
def inputs (ts : List (Turn ρ)) : List Bytes := ts.flatMap Turn.taken

/-- What some turns have read from a stream. -/
def reads (ts : List (Turn (Except String Bytes))) : List Bytes := ts.flatMap Turn.streamed

/-- The machine of a driver. -/
abbrev DriverMachine (ω σ ρ : Type) := Machine ω σ (Turn ρ) UInt8 DriverEvent DriverError

/-- The first event of a driver. -/
def greeting : List (Effect UInt8 DriverEvent) := [.send .connected]

/-- The error of a driver whose event channel is closed. -/
def evtClosed : DriverError := .fatal "evt closed: channel closed"

/-! ### Raw TCP -/

/-- `TcpStream::connect`, for the driver called `what`. -/
def tcpOpening (what : String) : Except String Unit → Except DriverError Unit
  | .ok () => .ok ()
  | .error e => .error (.ioLost (what ++ " connect: " ++ e))

/-- `RawTcpDriver::run`. -/
def rawTcp : DriverMachine (Except String Unit) Unit (Except String Bytes) where
  opening o := (tcpOpening "tcp" o).map fun _ => ((), greeting)
  turn _
    | .read (.error e) => .error (.ioLost ("tcp read: " ++ e))
    | .read (.ok bytes) =>
      if bytes = [] then .error (.ioLost "tcp EOF") else .ok ((), [.send (.output bytes)])
    | .input b => .ok ((), [.write b])
  writeError e := .ioLost ("tcp write: " ++ e)
  sendError := evtClosed

/-! ### Serial -/

/-- `tokio_serial::Error`, with its description. -/
inductive SerialError
  | noDevice (e : String)
  | invalidInput (e : String)
  | io (e : String)
  | unknown (e : String)
  deriving DecidableEq, Repr

/-- `classify_open_error`. -/
def classifyOpenError (port : String) : SerialError → DriverError
  | .noDevice _ => .fatal ("no such serial device: " ++ port)
  | .invalidInput _ => .fatal "invalid serial parameters"
  | .io e => .ioLost ("serial open io: " ++ e)
  | .unknown e => .ioLost ("serial open: " ++ e)

/-- `SerialDriver::run`. -/
def serial (port : String) (inputEol outputEol : EolMode) :
    DriverMachine (Except SerialError Unit) Unit (Except String Bytes) where
  opening o := (o.mapError (classifyOpenError port)).map fun _ => ((), greeting)
  turn _
    | .read (.error e) => .error (.ioLost ("serial read: " ++ e))
    | .read (.ok bytes) =>
      if bytes = [] then .error (.ioLost "serial EOF")
      else .ok ((), [.send (.output (transform outputEol bytes))])
    | .input b => .ok ((), [.write (transform inputEol b)])
  writeError e := .ioLost ("serial write: " ++ e)
  sendError := evtClosed

/-! ### Telnet -/

/-- `TelnetDriver::run`: the memory is the tail that could not be decoded yet.  The replies to what
has been read go out before the data are sent. -/
def telnet : DriverMachine (Except String Unit) Bytes (Except String Bytes) where
  opening o := (tcpOpening "telnet" o).map fun _ => ([], greeting)
  turn tail
    | .read (.error e) => .error (.ioLost ("telnet read: " ++ e))
    | .read (.ok bytes) => (Telnet.readArm ⟨tail, [], []⟩ bytes).map fun d =>
        (d.tail, .write d.written :: d.outputs.map fun b => .send (.output b))
    | .input b => .ok (tail, [.write (Telnet.escape b)])
  writeError e := .ioLost ("telnet write: " ++ e)
  sendError := evtClosed

/-! ### SSH -/

/-- `russh::ChannelMsg`, as far as it is told apart. -/
inductive SshMsg
  | data (b : Bytes)
  | extendedData (b : Bytes)
  | eof
  | close
  | other
  deriving DecidableEq, Repr

/-- What comes of the calls by which the driver opens its channel. -/
structure SshOpening where
  connect : Except String Unit
  auth : Except String Bool
  channel : Except String Unit
  pty : Except String Unit
  shell : Except String Unit

/-- The first half of `SshClientDriver::run`. -/
def SshOpening.result (o : SshOpening) : Except DriverError Unit := do
  o.connect.mapError fun e => .ioLost ("ssh connect: " ++ e)
  let ok ← o.auth.mapError fun e => .ioLost ("ssh auth io: " ++ e)
  if !ok then throw (.fatal "ssh auth rejected")
  o.channel.mapError fun e => .ioLost ("open session: " ++ e)
  o.pty.mapError fun e => .ioLost ("pty: " ++ e)
  o.shell.mapError fun e => .ioLost ("shell: " ++ e)

/-- `SshClientDriver::run`; `none` is the end of the channel. -/
def sshClient : DriverMachine SshOpening Unit (Option SshMsg) where
  opening o := o.result.map fun _ => ((), greeting)
  turn _
    | .read none => .error (.ioLost "ssh channel closed")
    | .read (some (.data b)) => .ok ((), [.send (.output b)])
    | .read (some (.extendedData b)) => .ok ((), [.send (.output b)])
    | .read (some .eof) => .error (.ioLost "ssh remote closed")
    | .read (some .close) => .error (.ioLost "ssh remote closed")
    | .read (some .other) => .ok ((), [])
    | .input b => .ok ((), [.write b])
  writeError e := .ioLost ("ssh write: " ++ e)
  sendError := evtClosed

/-! ### Loopback -/

/-- `LoopbackDriver::run`. -/
def loopback : DriverMachine Unit Unit Empty where
  opening _ := .ok ((), greeting)
  turn _
    | .input b => .ok ((), [.send (.output b)])
  -- nothing is written
  writeError e := .ioLost e
  sendError := .fatal "evt_tx closed: channel closed"

/-! ### Devices -/

/-- A driver as a machine, with what it is to show (`shown`) and what it is to put on the wire
(`wire`) after some turns.  Its first event is `Connected`; only the upstream and a failing write
make it lose its upstream, and its turns are never fatal. -/
structure Device where
  Opening : Type
  Mem : Type
  Reading : Type
  machine : DriverMachine Opening Mem Reading
  shown : List (Turn Reading) → List Bytes
  wire : List (Turn Reading) → Bytes
  greets : ∀ o m es, machine.opening o = .ok (m, es) → es = greeting
  takesInput : ∀ m b, ∃ x, machine.turn m (.input b) = .ok x
  loses : ∀ m u e, machine.turn m u = .error e → ∃ reason, e = .ioLost reason
  writeLost : ∀ e, ∃ reason, machine.writeError e = .ioLost reason
  sendFatal : ∃ reason, machine.sendError = .fatal reason
  relays : ∀ ts m es, machine.Asked ts m es →
    sends es = .connected :: (shown ts).map .output ∧ words es = wire ts

/-- An opening that is followed by the greeting. -/
theorem eq_greeting {α : Type} {r : Except DriverError α} {m₀ m : σ}
    {es : List (Effect UInt8 DriverEvent)}
    (h : r.map (fun _ => (m₀, greeting)) = .ok (m, es)) : m = m₀ ∧ es = greeting := by
  cases r with
  | error e => cases h
  | ok x =>
      cases h
      exact ⟨rfl, rfl⟩

/-- A driver whose turns do not depend on its memory. -/
theorem relays_of_turns {M : DriverMachine ω σ ρ} (shown : Turn ρ → List Bytes)
    (wire : Turn ρ → Bytes) (hopen : ∀ o m es, M.opening o = .ok (m, es) → es = greeting)
    (hturn : ∀ m u m' es, M.turn m u = .ok (m', es) →
      sends es = (shown u).map .output ∧ words es = wire u)
    {ts : List (Turn ρ)} {m : σ} {es : List (Effect UInt8 DriverEvent)} (h : M.Asked ts m es) :
    sends es = .connected :: (ts.flatMap shown).map .output ∧ words es = ts.flatMap wire := by
  obtain ⟨hs, hw⟩ := h.sends_words [.connected] (fun u => (shown u).map .output) wire
    (fun o m es ho => by
      obtain rfl := hopen o m es ho
      exact ⟨rfl, rfl⟩) hturn
  refine ⟨?_, hw⟩
  rw [hs, List.map_flatMap]
  rfl

/-- The raw TCP driver shows what it reads, and writes its input. -/
def rawTcpDevice : Device where
  Opening := Except String Unit
  Mem := Unit
  Reading := Except String Bytes
  machine := rawTcp
  shown := reads
  wire ts := ts.flatMap fun u => u.taken.flatten
  greets _ _ _ h := (eq_greeting h).2
  takesInput _ _ := ⟨_, rfl⟩
  loses m u e h := by
    rcases u with (e | bytes) | b
    · exact ⟨_, (Except.error.inj h).symm⟩
    · simp only [rawTcp] at h
      split at h
      · exact ⟨_, (Except.error.inj h).symm⟩
      · cases h
    · cases h
  writeLost _ := ⟨_, rfl⟩
  sendFatal := ⟨_, rfl⟩
  relays ts m es h := relays_of_turns _ _ (fun _ _ _ h => (eq_greeting h).2) (by
    rintro m ((e | bytes) | b) m' es h
    · cases h
    · simp only [rawTcp] at h
      split at h
      · cases h
      · cases h
        exact ⟨rfl, rfl⟩
    · cases h
      exact ⟨rfl, rfl⟩) h

/-- The serial driver converts the line ends of what it reads and of its input. -/
def serialDevice (port : String) (inputEol outputEol : EolMode) : Device where
  Opening := Except SerialError Unit
  Mem := Unit
  Reading := Except String Bytes
  machine := serial port inputEol outputEol
  shown ts := ts.flatMap fun u => u.streamed.map (transform outputEol)
  wire ts := ts.flatMap fun u => (u.taken.map (transform inputEol)).flatten
  greets _ _ _ h := (eq_greeting h).2
  takesInput _ _ := ⟨_, rfl⟩
  loses m u e h := by
    rcases u with (e | bytes) | b
    · exact ⟨_, (Except.error.inj h).symm⟩
    · simp only [serial] at h
      split at h
      · exact ⟨_, (Except.error.inj h).symm⟩
      · cases h
    · cases h
  writeLost _ := ⟨_, rfl⟩
  sendFatal := ⟨_, rfl⟩
  relays ts m es h := relays_of_turns _ _ (fun _ _ _ h => (eq_greeting h).2) (by
    rintro m ((e | bytes) | b) m' es h
    · cases h
    · simp only [serial] at h
      split at h
      · cases h
      · cases h
        exact ⟨rfl, rfl⟩
    · cases h
      simp [Turn.taken, Turn.streamed]) h

/-- What a message of the SSH server shows. -/
def Turn.payload : Turn (Option SshMsg) → List Bytes
  | .read (some (.data b)) => [b]
  | .read (some (.extendedData b)) => [b]
  | _ => []

/-- The SSH driver shows both kinds of data, and writes its input. -/
def sshClientDevice : Device where
  Opening := SshOpening
  Mem := Unit
  Reading := Option SshMsg
  machine := sshClient
  shown ts := ts.flatMap Turn.payload
  wire ts := ts.flatMap fun u => u.taken.flatten
  greets _ _ _ h := (eq_greeting h).2
  takesInput _ _ := ⟨_, rfl⟩
  loses m u e h := by
    rcases u with (_ | (b | b | _ | _ | _)) | b
    all_goals cases h
    all_goals exact ⟨_, rfl⟩
  writeLost _ := ⟨_, rfl⟩
  sendFatal := ⟨_, rfl⟩
  relays ts m es h := relays_of_turns _ _ (fun _ _ _ h => (eq_greeting h).2) (by
    rintro m ((_ | (b | b | _ | _ | _)) | b) m' es h
    all_goals cases h
    all_goals exact ⟨rfl, by simp [Turn.taken]⟩) h

/-- The loopback driver shows its input. -/
def loopbackDevice : Device where
  Opening := Unit
  Mem := Unit
  Reading := Empty
  machine := loopback
  shown := inputs
  wire _ := []
  greets _ _ _ h := (eq_greeting (r := .ok ()) h).2
  takesInput _ _ := ⟨_, rfl⟩
  loses m u e h := by
    rcases u with r | b
    · exact r.elim
    · cases h
  writeLost _ := ⟨_, rfl⟩
  sendFatal := ⟨_, rfl⟩
  relays ts m es h := by
    have hturns := relays_of_turns Turn.taken (fun _ => [])
      (fun _ _ _ h => (eq_greeting (r := .ok ()) h).2) (by
        rintro m (r | b) m' es h
        · exact r.elim
        · cases h
          exact ⟨rfl, rfl⟩) h
    exact ⟨hturns.1, hturns.2.trans (by simp)⟩

/-! ### The Telnet driver -/

/-- A turn as it is told of the driver turn by turn; the turn that fails to read ends the driver. -/
def Turn.act : Turn (Except String Bytes) → List Telnet.TelnetAct
  | .read (.ok bytes) => [.read bytes]
  | .read (.error _) => []
  | .input b => [.input b]

/-- The driver after some turns. -/
def telnetAfter (ts : List (Turn (Except String Bytes))) : Telnet.TelnetDriver :=
  (exec Telnet.TelnetDriver.step .new (ts.flatMap Turn.act)).getD .new

/-- The read arm only adds to what the driver has shown and written. -/
theorem readArm_append (d : Telnet.TelnetDriver) (bytes : Bytes) :
    Telnet.readArm d bytes = (Telnet.readArm ⟨d.tail, [], []⟩ bytes).map fun e =>
      ⟨e.tail, d.outputs ++ e.outputs, d.written ++ e.written⟩ := by
  unfold Telnet.readArm
  split
  · rfl
  · dsimp only
    split
    · simp [Except.map]
    · simp [Except.map]

/-- **The loop of the Telnet driver refines the driver told turn by turn.** -/
theorem telnet_refines {ts : List (Turn (Except String Bytes))} {m : Bytes}
    {es : List (Effect UInt8 DriverEvent)} (h : telnet.Asked ts m es) :
    ∃ d, exec Telnet.TelnetDriver.step .new (ts.flatMap Turn.act) = some d ∧ d.tail = m ∧
      sends es = .connected :: d.outputs.map .output ∧ words es = d.written := by
  induction h with
  | opened ho =>
      obtain ⟨rfl, rfl⟩ := eq_greeting ho
      exact ⟨_, rfl, rfl, rfl, rfl⟩
  | @turned us m m' es fs u h hm ih =>
      obtain ⟨d, hd, rfl, hs, hw⟩ := ih
      rw [List.flatMap_append, List.flatMap_singleton, exec_append, hd, Option.bind_some,
        sends_append, words_append, hs, hw]
      rcases u with (e | bytes) | b
      · cases hm
      · cases hr : Telnet.readArm ⟨d.tail, [], []⟩ bytes with
        | error e =>
            simp only [telnet, hr] at hm
            cases hm
        | ok x =>
            simp only [telnet, hr] at hm
            cases hm
            have hstep : d.step (.read bytes) =
                some ⟨x.tail, d.outputs ++ x.outputs, d.written ++ x.written⟩ := by
              change (Telnet.readArm d bytes).toOption = _
              rw [readArm_append, hr]
              rfl
            refine ⟨_, exec_cons_some hstep [], rfl, ?_, ?_⟩
            · simp
            · simp
      · cases hm
        exact ⟨_, rfl, rfl, by simp [Telnet.writeArm], by simp [Telnet.writeArm]⟩

/-- The Telnet driver decodes what it reads; it answers commands, and escapes its input. -/
def telnetDevice : Device where
  Opening := Except String Unit
  Mem := Bytes
  Reading := Except String Bytes
  machine := telnet
  shown ts := (telnetAfter ts).outputs
  wire ts := (telnetAfter ts).written
  greets _ _ _ h := (eq_greeting h).2
  takesInput _ _ := ⟨_, rfl⟩
  loses m u e h := by
    rcases u with (e | bytes) | b
    · exact ⟨_, (Except.error.inj h).symm⟩
    · simp only [telnet, Telnet.readArm] at h
      split at h
      · exact ⟨_, (Except.error.inj h).symm⟩
      · cases h
    · cases h
  writeLost _ := ⟨_, rfl⟩
  sendFatal := ⟨_, rfl⟩
  relays ts m es h := by
    obtain ⟨d, hd, -, hs, hw⟩ := telnet_refines h
    rw [telnetAfter, hd]
    exact ⟨hs, hw⟩

/-! ### The drivers -/

end Upstream

open Upstream Duplex Transition
open Runner (Bytes DriverError DriverEvent)

/-- The driver that has been made from a description, as a device.  A local shell is none: a thread
of its own reads its output. -/
def UpstreamDriver.device : UpstreamDriver → Option Device
  | .loopback => some loopbackDevice
  | .serial port _ _ inputEol outputEol => some (serialDevice port inputEol outputEol)
  | .sshClient .. => some sshClientDevice
  | .telnet .. => some telnetDevice
  | .rawTcp .. => some rawTcpDevice
  | .localShell .. => none

namespace Upstream

variable {D : Device}

/-- The run of a device. -/
abbrev Device.Run (D : Device) := Duplex.Run D.Mem (Turn D.Reading) UInt8 DriverEvent DriverError

/-- What can happen to a device. -/
abbrev Device.Act (D : Device) := Duplex.Act D.Opening (Turn D.Reading)

/-- **What a driver may return, and when**, at a step from the state `s`: `Ok` when it is told to
stop; a fatal error when opening its upstream has given this one, or when nobody takes its events; a
loss when opening the upstream, or reading from it, has given this one, or for the error of a write
that fails. -/
def Device.Blames (D : Device) (s : D.Run) (a : D.Act) : Except DriverError Unit → Prop
  | .ok () => a = .stop
  | .error (.fatal reason) =>
    (∃ o, a = .opened o ∧ D.machine.opening o = .error (.fatal reason)) ∨
    (a = .sendFails ∧ D.machine.sendError = .fatal reason)
  | .error (.ioLost reason) =>
    (∃ o, a = .opened o ∧ D.machine.opening o = .error (.ioLost reason)) ∨
    (∃ m r, a = .turn (.read r) ∧ s.phase = .running m ∧
      D.machine.turn m (.read r) = .error (.ioLost reason)) ∨
    ∃ e, a = .writeFails e ∧ D.machine.writeError e = .ioLost reason

/-- A driver that has not sent `Connected` has done nothing. -/
def Device.Greets (D : Device) (s : D.Run) : Prop :=
  s.sent = [] → s.written = [] ∧ s.turns = [] ∧
    (s.todo = greeting ∨ s.todo = [] ∧ ∀ m, s.phase ≠ .running m)

theorem Device.Greets.step {s t : D.Run} {a : D.Act} (hi : D.Greets s)
    (h : D.machine.step s a = some t) : D.Greets t := by
  intro ht
  cases Machine.step_stepped h with
  | opened hp ho =>
      obtain ⟨hw, hu, -⟩ := hi ht
      exact ⟨hw, hu, .inl (D.greets _ _ _ ho)⟩
  | refused hp ho =>
      obtain ⟨hw, hu, htodo⟩ := hi ht
      exact ⟨hw, hu, htodo.imp_right fun h => ⟨h.1, fun _ h => nomatch h⟩⟩
  | stopped hp htodo | turned hp htodo | failed hp htodo =>
      -- there would be something to carry out
      rcases (hi ht).2.2 with h | ⟨-, h⟩
      · cases htodo.symm.trans h
      · exact absurd hp (h _)
  | wrote hp htodo | writeFailed hp htodo =>
      rcases (hi ht).2.2 with h | ⟨-, h⟩
      · cases htodo.symm.trans h
      · exact absurd hp (h _)
  | sent hp htodo => exact absurd ht (List.append_ne_nil_of_right_ne_nil _ (List.cons_ne_nil _ _))
  | sendFailed hp htodo =>
      obtain ⟨hw, hu, h⟩ := hi ht
      exact ⟨hw, hu, h.imp_right fun h => ⟨h.1, fun _ h => nomatch h⟩⟩

/-- A reason to end is one that the driver may have. -/
theorem Device.blames_of_ends {s : D.Run} {a : D.Act} {r : Except DriverError Unit}
    (h : D.machine.Ends s a r) : D.Blames s a r := by
  cases h with
  | @refused o e ho =>
      cases e with
      | fatal reason => exact .inl ⟨o, rfl, ho⟩
      | ioLost reason => exact .inl ⟨o, rfl, ho⟩
  | stopped => rfl
  | @failed m u e hp hm =>
      obtain ⟨reason, rfl⟩ := D.loses _ _ _ hm
      cases u with
      | read x => exact .inr (.inl ⟨m, x, rfl, hp, hm⟩)
      | input b =>
          obtain ⟨x, hx⟩ := D.takesInput m b
          cases hx.symm.trans hm
  | @writeFailed e =>
      obtain ⟨reason, hr⟩ := D.writeLost e
      rw [hr]
      exact .inr (.inr ⟨e, rfl, hr⟩)
  | sendFailed =>
      obtain ⟨reason, hr⟩ := D.sendFatal
      rw [hr]
      exact .inr ⟨rfl, hr⟩

/-- The contract of a device, in every run. -/
theorem Device.contract {as : List D.Act} {s : D.Run}
    (h : exec D.machine.step Run.init as = some s) :
    (∀ r, s.phase = .ended r → ∃ before a u, as = before ++ [a] ∧
      exec D.machine.step Run.init before = some u ∧ D.Blames u a r) ∧
      (s.sent = [] → s.written = [] ∧ s.turns = []) := by
  constructor
  · intro r hr
    obtain ⟨before, a, u, has, hu, he⟩ := Machine.exists_ends h hr
    exact ⟨before, a, u, has, hu, Device.blames_of_ends he⟩
  · intro hs
    have hgreets : D.Greets s := (reachable_of_exec h).invariant
      (fun _ => ⟨rfl, rfl, .inr ⟨rfl, fun _ h => nomatch h⟩⟩) fun _ _ _ hi _ hstep => hi.step hstep
    exact ⟨(hgreets hs).1, (hgreets hs).2.1⟩

/-- **The contract of the drivers**: of those that can be made, each but the local shell is a device
which keeps it in every run.  What it returns, it returns for a reason that it may have; and before
it has sent `Connected` it has neither written nor read nor taken anything. -/
theorem upstream_contract (d : UpstreamDriver) :
    (∃ command args cols rows, d = .localShell command args cols rows) ∨
    ∃ D, d.device = some D ∧ ∀ (as : List D.Act) (s : D.Run),
      exec D.machine.step Run.init as = some s →
      (∀ r, s.phase = .ended r → ∃ before a u, as = before ++ [a] ∧
        exec D.machine.step Run.init before = some u ∧ D.Blames u a r) ∧
        (s.sent = [] → s.written = [] ∧ s.turns = []) := by
  cases d with
  | localShell => exact .inl ⟨_, _, _, _, rfl⟩
  | loopback | serial | sshClient | telnet | rawTcp =>
      exact .inr ⟨_, rfl, fun _ _ h => Device.contract h⟩

/-- A raw TCP driver that shows one byte, and then reads the end of the stream. -/
def oneByteRun : rawTcpDevice.Run where
  phase := .ended (.error (.ioLost "tcp EOF"))
  todo := []
  turns := [.read (.ok [104])]
  written := []
  sent := [.connected, .output [104]]

theorem upstream_contract_oneByte :
    (∀ r, oneByteRun.phase = .ended r → ∃ before a u,
      [.opened (.ok ()), .send, .turn (.read (.ok [104])), .send, .turn (.read (.ok []))] =
        before ++ [a] ∧ exec rawTcpDevice.machine.step Run.init before = some u ∧
        rawTcpDevice.Blames u a r) ∧
      (oneByteRun.sent = [] → oneByteRun.written = [] ∧ oneByteRun.turns = []) := by
  rcases upstream_contract (.rawTcp "10.0.0.1" 23) with ⟨_, _, _, _, h⟩ | ⟨D, hD, h⟩
  · cases h
  · obtain rfl := Option.some_inj.1 hD
    exact h _ _ rfl

/-- **What a driver has sent and written, and what it has still to send and to write**, is what it
is to show and to put on the wire, unless it is still opening its upstream or could not open it. -/
def Device.Relays (D : Device) (s : D.Run) : Prop :=
  s.sent ++ sends s.todo = .connected :: (D.shown s.turns).map .output ∧
    s.written ++ words s.todo = D.wire s.turns

/-- Nothing has been read, sent or written. -/
def Device.Idle (D : Device) (s : D.Run) : Prop :=
  s.todo = [] ∧ s.turns = [] ∧ s.written = [] ∧ s.sent = []

theorem Device.relays_of_reachable {s : D.Run} (h : Reachable D.machine.step Run.init s) :
    D.Relays s ∨ D.Idle s := by
  cases Machine.Accounts.of_reachable h with
  | idle hp hok ht hu hw hs => exact .inr ⟨ht, hu, hw, hs⟩
  | busy ha hp hm hw hs =>
      obtain ⟨hsends, hwords⟩ := D.relays _ _ _ ha
      exact .inl ⟨hs.trans hsends, hw.trans hwords⟩

end Upstream

end TermHub
