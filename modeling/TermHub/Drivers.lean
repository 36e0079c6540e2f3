/-
**Making a driver from the description of an upstream.**

`create_driver` of `termhub-drivers/src/factory.rs`, with `parse_serial_params` of `serial.rs` and
`EolMode::parse` of `eol.rs`.  A description is checked here and nowhere else: it is stored and
handed to the runner as it is.

Main definitions: `EolMode`, `SerialParams`, `parseSerialParams`, `UpstreamDriver`, `createDriver`.

Main results:

* `parseSerialParams_ok_iff`, `parseSerialParams_error_iff` — the settings that are accepted, and
  what a refusal says;
* `createDriver_ok_iff`, `createDriver_error_iff` — **a driver is made exactly from a valid
  description**, and what is said of the others.
-/

import TermHub.Config

set_option relaxedAutoImplicit false
set_option autoImplicit false

namespace TermHub

/-! ### Line ends -/

/-- `EolMode`. -/
inductive EolMode
  | asIs | lf | crlf | cr
  deriving DecidableEq, Repr

/-- `EolMode::parse`: what is not known counts as `asIs`. -/
def EolMode.parse (s : String) : EolMode :=
  if s = "lf" ∨ s = "\n" then lf
  else if s = "crlf" ∨ s = "\r\n" then crlf
  else if s = "cr" ∨ s = "\r" then cr
  else asIs

/-! ### Serial settings -/

inductive DataBits
  | five | six | seven | eight
  deriving DecidableEq, Repr

inductive Parity
  | none | even | odd
  deriving DecidableEq, Repr

inductive StopBits
  | one | two
  deriving DecidableEq, Repr

inductive FlowControl
  | none | hardware | software
  deriving DecidableEq, Repr

/-- `SerialParams`. -/
structure SerialParams where
  dataBits : DataBits
  parity : Parity
  stopBits : StopBits
  flow : FlowControl
  deriving DecidableEq, Repr

/-- A setting is looked up among the values that are known; `what` names it in the error. -/
def parseSetting {α β : Type} [DecidableEq α] [ToString α] (what : String) (known : List (α × β))
    (x : α) : Except String β :=
  match known.lookup x with
  | some y => .ok y
  | none => .error ("invalid " ++ what ++ ": " ++ toString x)

/-- The data bits that are known. -/
def knownDataBits : List (UInt8 × DataBits) := [(5, .five), (6, .six), (7, .seven), (8, .eight)]

/-- The parities that are known. -/
def knownParities : List (String × Parity) := [("none", .none), ("even", .even), ("odd", .odd)]

/-- The stop bits that are known. -/
def knownStopBits : List (UInt8 × StopBits) := [(1, .one), (2, .two)]

/-- The kinds of flow control that are known. -/
def knownFlows : List (String × FlowControl) :=
  [("none", .none), ("hardware", .hardware), ("software", .software)]

/-- `parse_serial_params`. -/
def parseSerialParams (dataBits : UInt8) (parity : String) (stopBits : UInt8) (flow : String) :
    Except String SerialParams := do
  let dataBits ← parseSetting "data_bits" knownDataBits dataBits
  let parity ← parseSetting "parity" knownParities parity
  let stopBits ← parseSetting "stop_bits" knownStopBits stopBits
  let flow ← parseSetting "flow" knownFlows flow
  return ⟨dataBits, parity, stopBits, flow⟩

/-- A program goes on after a setting that is known. -/
theorem parseSetting_bind_known {α β γ : Type} [DecidableEq α] [ToString α] {what : String}
    {known : List (α × β)} {x : α} {y : β} (h : known.lookup x = some y)
    (k : β → Except String γ) : (parseSetting what known x >>= k) = k y := by
  unfold parseSetting
  rw [h]
  rfl

theorem parseSetting_bind_ok {α β γ : Type} [DecidableEq α] [ToString α] {what : String}
    {known : List (α × β)} {x : α} {k : β → Except String γ} {z : γ} :
    (parseSetting what known x >>= k) = .ok z ↔ ∃ y, known.lookup x = some y ∧ k y = .ok z := by
  unfold parseSetting
  cases known.lookup x with
  | none => simp [bind, Except.bind]
  | some y => simp [bind, Except.bind]

/-- A program ends at a setting that is not known, with the name and the value of the setting. -/
theorem parseSetting_bind_unknown {α β γ : Type} [DecidableEq α] [ToString α] {what : String}
    {known : List (α × β)} {x : α} (h : known.lookup x = none) (k : β → Except String γ) :
    (parseSetting what known x >>= k) = .error ("invalid " ++ what ++ ": " ++ toString x) := by
  unfold parseSetting
  rw [h]
  rfl

/-- **The settings that are accepted**: every one of the four is known. -/
theorem parseSerialParams_ok_iff {dataBits : UInt8} {parity : String} {stopBits : UInt8}
    {flow : String} {p : SerialParams} :
    parseSerialParams dataBits parity stopBits flow = .ok p ↔
      knownDataBits.lookup dataBits = some p.dataBits ∧
      knownParities.lookup parity = some p.parity ∧
      knownStopBits.lookup stopBits = some p.stopBits ∧
      knownFlows.lookup flow = some p.flow := by
  unfold parseSerialParams
  simp only [parseSetting_bind_ok]
  constructor
  · rintro ⟨d, hd, q, hq, s, hs, f, hf, h⟩
    cases h
    exact ⟨hd, hq, hs, hf⟩
  · rintro ⟨hd, hq, hs, hf⟩
    exact ⟨_, hd, _, hq, _, hs, _, hf, rfl⟩

/-- What is said of serial settings that are not accepted: the first one that is not known is named,
with its value. -/
def SerialRefusal (dataBits : UInt8) (parity : String) (stopBits : UInt8) (flow e : String) :
    Prop :=
  if knownDataBits.lookup dataBits = none then e = "invalid data_bits: " ++ toString dataBits
  else if knownParities.lookup parity = none then e = "invalid parity: " ++ parity
  else if knownStopBits.lookup stopBits = none then e = "invalid stop_bits: " ++ toString stopBits
  else knownFlows.lookup flow = none ∧ e = "invalid flow: " ++ flow

/-- **A refusal names the first setting that is not known, and its value.** -/
theorem parseSerialParams_error_iff {dataBits : UInt8} {parity : String} {stopBits : UInt8}
    {flow e : String} : parseSerialParams dataBits parity stopBits flow = .error e ↔
      SerialRefusal dataBits parity stopBits flow e := by
  have hsame : ∀ text : String,
      (Except.error text : Except String SerialParams) = .error e ↔ e = text :=
    fun text => by rw [Except.error.injEq, eq_comm]
  unfold parseSerialParams SerialRefusal
  cases hd : knownDataBits.lookup dataBits with
  | none =>
      rw [parseSetting_bind_unknown hd, if_pos rfl, hsame]
      rfl
  | some d =>
      rw [parseSetting_bind_known hd, if_neg nofun]
      cases hp : knownParities.lookup parity with
      | none =>
          rw [parseSetting_bind_unknown hp, if_pos rfl, hsame]
          rfl
      | some q =>
          rw [parseSetting_bind_known hp, if_neg nofun]
          cases hs : knownStopBits.lookup stopBits with
          | none =>
              rw [parseSetting_bind_unknown hs, if_pos rfl, hsame]
              rfl
          | some s =>
              rw [parseSetting_bind_known hs, if_neg nofun]
              cases hf : knownFlows.lookup flow with
              | none =>
                  rw [parseSetting_bind_unknown hf, hsame]
                  exact (and_iff_right rfl).symm
              | some f =>
                  rw [parseSetting_bind_known hf]
                  exact iff_of_false nofun fun h => nomatch h.1

/-! ### Drivers -/

/-- The drivers, with the fields they are built from. -/
inductive UpstreamDriver
  | loopback
  | serial (port : String) (baud : UInt32) (params : SerialParams) (inputEol outputEol : EolMode)
  | sshClient (host : String) (port : UInt16) (user password : String)
  | telnet (host : String) (port : UInt16)
  | rawTcp (host : String) (port : UInt16)
  | localShell (command : String) (args : List String) (cols rows : UInt16)
  deriving DecidableEq, Repr

/-- `create_driver`. -/
def createDriver : UpstreamSpec → Except String UpstreamDriver
  | .loopback => return .loopback
  | .serial port baud dataBits parity stopBits flow inputEol outputEol => do
    let params ← parseSerialParams dataBits parity stopBits flow
    return .serial port baud params (EolMode.parse inputEol) (EolMode.parse outputEol)
  | .ssh host port user password => return .sshClient host port user password
  | .telnet host port => return .telnet host port
  | .rawTcp host port => return .rawTcp host port
  | .localShell command args => return .localShell command args 80 24
  | .httpProxy .. =>
    .error "HttpProxy does not use UpstreamDriver; it runs as a standalone TCP proxy"

/-- The description of an upstream is valid: it is no port forward, and the settings of a serial
line are known. -/
def UpstreamSpec.Valid : UpstreamSpec → Prop
  | .serial _ _ dataBits parity stopBits flow _ _ =>
    (knownDataBits.lookup dataBits).isSome ∧ (knownParities.lookup parity).isSome ∧
      (knownStopBits.lookup stopBits).isSome ∧ (knownFlows.lookup flow).isSome
  | .httpProxy .. => False
  | _ => True

/-- **A driver is made exactly from a valid description.** -/
theorem createDriver_ok_iff (spec : UpstreamSpec) :
    (∃ d, createDriver spec = .ok d) ↔ spec.Valid := by
  cases spec with
  | serial port baud dataBits parity stopBits flow inputEol outputEol =>
      simp only [createDriver, UpstreamSpec.Valid, Option.isSome_iff_exists]
      constructor
      · rintro ⟨d, h⟩
        cases hp : parseSerialParams dataBits parity stopBits flow with
        | error e =>
            rw [hp] at h
            cases h
        | ok p =>
            obtain ⟨hd, hq, hs, hf⟩ := parseSerialParams_ok_iff.1 hp
            exact ⟨⟨_, hd⟩, ⟨_, hq⟩, ⟨_, hs⟩, ⟨_, hf⟩⟩
      · rintro ⟨⟨d, hd⟩, ⟨q, hq⟩, ⟨s, hs⟩, ⟨f, hf⟩⟩
        rw [parseSerialParams_ok_iff (p := ⟨d, q, s, f⟩) |>.2 ⟨hd, hq, hs, hf⟩]
        exact ⟨_, rfl⟩
  | httpProxy listen target protocol => simp [createDriver, UpstreamSpec.Valid]
  | _ => exact iff_of_true ⟨_, rfl⟩ trivial

/-- What is said of a description that is not valid. -/
def UpstreamSpec.Refusal : UpstreamSpec → String → Prop
  | .serial _ _ dataBits parity stopBits flow _ _, e =>
    SerialRefusal dataBits parity stopBits flow e
  | .httpProxy .., e =>
    e = "HttpProxy does not use UpstreamDriver; it runs as a standalone TCP proxy"
  | _, _ => False

theorem createDriver_error_iff {spec : UpstreamSpec} {e : String} :
    createDriver spec = .error e ↔ spec.Refusal e := by
  cases spec with
  | serial port baud dataBits parity stopBits flow inputEol outputEol =>
      rw [UpstreamSpec.Refusal, ← parseSerialParams_error_iff, createDriver]
      cases parseSerialParams dataBits parity stopBits flow with
      | error text =>
          change (Except.error text : Except String UpstreamDriver) = .error e ↔ _
          rw [Except.error.injEq, Except.error.injEq]
      | ok p => exact iff_of_false nofun nofun
  | httpProxy listen target protocol =>
      rw [createDriver, UpstreamSpec.Refusal, Except.error.injEq]
      exact eq_comm
  | _ => exact iff_of_false nofun id

example : createDriver (.serial "COM3" 9600 9 "none" 1 "none" "lf" "as_is") =
    .error "invalid data_bits: 9" := by rfl

end TermHub
