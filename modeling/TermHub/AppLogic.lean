/-
**The session operations.**

`termhub-app/src/app_logic.rs` and the start-up loop of `termhub-app/src/main.rs`, with
`start_session` of the core crate and the bind of `termhub_sshd::start`.  Each operation is a
program of atomic sections (`Sections.Prog`): a section is a block under the lock of `runners`, or
what lies between two suspension points.

The outcomes that the operating system decides are parameters: the result of binding the listen
address of the SSH server, and the faults of each save.

Main definitions:

* `startSession`, `sshdStart`, `persistNow` — the parts that are shared;
* `createSession`, `stopSession`, `deleteSession`, `restartSession`, `updateSession` — the five
  operations;
* `Call`, `Call.prog` — the operations as the HTTP handlers call them;
* `startup`, `Boots`, `ReachableWorld` — the start-up loop, and the states that completed calls
  reach.
-/

import TermHub.AppState
import TermHub.Sections

set_option relaxedAutoImplicit false
set_option autoImplicit false

namespace TermHub

open Sections

/-- `AppError`. -/
inductive AppError
  | notFound (m : String)
  | internal (e : String)
  deriving DecidableEq, Repr

/-- `StartedSession` with the manager it was registered in. -/
abbrev Registered := StartedSession × SessionMgr

/-! ### The parts of an operation -/

/-- The hub, the status watch and the token that `start_session` makes, with the entry it registers
for them and the runner it spawns. -/
def World.newSession (w : World) (sshUser password : String) (upstream : UpstreamSpec)
    (cfg : RunnerConfig) : SessionEntry × TaskId × World :=
  let (hub, w) := w.newObject
  let (status, w) := w.newObject
  let (clients, w) := w.newObject
  let (cancel, handle, w) := w.spawn (.runner hub upstream cfg)
  (⟨sshUser, password, hub, status, cancel, clients⟩, handle, w)

/-- `start_session` on a new manager.  When the manager refuses the user name, nothing has been
spawned yet and the new objects are dropped. -/
def startSession (sshUser password : String) (upstream : UpstreamSpec) (cfg : RunnerConfig) :
    Prog World (Except String Registered) :=
  Prog.atomic fun w =>
    let (entry, handle, w₁) := w.newSession sshUser password upstream cfg
    match SessionMgr.new.register entry with
    | .error e => (.error e, w)
    | .ok mgr => (.ok (⟨entry.status, entry.cancel, handle⟩, mgr), w₁)

/-- `termhub_sshd::start`: bind the listen address, then spawn the accept loop. -/
def sshdStart (bind : Except String Unit) (listen : String) (mgr : SessionMgr) :
    Prog World (Except String (Token × TaskId)) :=
  Prog.atomic fun w =>
    match bind with
    | .error e => (.error e, w)
    | .ok () =>
      let (cancel, handle, w) := w.spawn (.acceptLoop listen mgr)
      (.ok (cancel, handle), w)

/-- The document that `persist_now` writes: the server section is put together anew. -/
def World.config (w : World) : Config where
  server := ⟨"0.0.0.0:2222", "host_key", w.app.maxClientsPerSession, w.app.apiListen⟩
  ui := UiConfig.default
  sessions := w.app.runners.entries.map fun e => e.2.config

/-- Write the document of the present state. -/
def World.persist (C : Codec) (io : SaveIo) (w : World) : Except String Unit × World :=
  let (r, fs) := save C io w.config w.fs
  (r, { w with fs })

/-- `persist_now`, under a read lock of `runners`. -/
def persistNow (C : Codec) (io : SaveIo) : Prog World (Except String Unit) :=
  Prog.atomic (World.persist C io)

/-- Wait for a task that was taken out of an entry. -/
def join : Option TaskId → Prog World Unit
  | some h => Prog.await (fun w => w.joinable h) fun w => w.endTask h
  | none => pure ()

/-- Cancel the tokens that the entry under `key` holds. -/
def World.cancelEntry (w : World) (key : String) : World :=
  match w.lookup key with
  | some r => w.cancelAll r.tokens
  | none => w

/-- The handles of the entry under `key`, which is left without tokens and handles. -/
def World.takeHandles (w : World) (key : String) :
    (Option TaskId × Option TaskId) × World :=
  match w.lookup key with
  | some r => ((r.started.map StartedSession.handle, r.sshdHandle), w.insert key r.taken)
  | none => ((none, none), w)

/-! ### The five operations -/

section Operations

variable (C : Codec)

/-- `create_session`. -/
def createSession (bind : Except String Unit) (io : SaveIo) (cfg : SessionConfig) :
    Prog World (Except AppError (String × StatusRx)) := do
  let cfg := { cfg with launchOnStartup := true }
  let name := cfg.name
  match cfg.upstream with
  | .httpProxy listen target protocol =>
    -- the forward binds its address inside the task, so a failure is not seen here
    let (proxyCancel, statusRx) ← Prog.atomic fun w =>
      let (proxyCancel, _, w) := w.spawn (.portForward listen target protocol)
      let (statusRx, w) := w.newObject
      ((proxyCancel, statusRx), w)
    Prog.atomic fun w => (PUnit.unit, w.insert (toAsciiLowercase name)
      { started := none, config := cfg, proxyCancel := some proxyCancel, sshdCancel := none,
        sshdHandle := none, sessionMgr := none })
    match ← persistNow C io with
    | .error e => return .error (.internal e)
    | .ok () => return .ok (name, statusRx)
  | upstream =>
    match ← startSession cfg.sshUser cfg.password upstream ⟨cfg.autoReconnect, none⟩ with
    | .error e => return .error (.internal e)
    | .ok (started, mgr) =>
      match ← sshdStart bind cfg.listen mgr with
      | .error e => return .error (.internal e)
      | .ok (sshdCancel, sshdHandle) =>
        Prog.atomic fun w => (PUnit.unit, w.insert (toAsciiLowercase name)
          { started := some started, config := cfg, proxyCancel := none,
            sshdCancel := some sshdCancel, sshdHandle := some sshdHandle,
            sessionMgr := some mgr })
        match ← persistNow C io with
        | .error e => return .error (.internal e)
        | .ok () => return .ok (name, started.statusRx)

/-- `stop_session`. -/
def stopSession (io : SaveIo) (name : String) : Prog World (Except AppError Unit) := do
  let key := toAsciiLowercase name
  Prog.atomic fun w => (PUnit.unit, w.cancelEntry key)
  let (runnerHandle, sshdHandle) ← Prog.atomic fun w => w.takeHandles key
  join runnerHandle
  join sshdHandle
  Prog.atomic fun w => (PUnit.unit, w.modifyEntry key RunnerEntry.demoted)
  match ← persistNow C io with
  | .error e => return .error (.internal e)
  | .ok () => return .ok ()

/-- `delete_session`. -/
def deleteSession (stopIo io : SaveIo) (name : String) : Prog World (Except AppError Unit) := do
  match ← stopSession C stopIo name with
  | .error e => return .error e
  | .ok () =>
    Prog.atomic fun w => (PUnit.unit, w.remove (toAsciiLowercase name))
    match ← persistNow C io with
    | .error e => return .error (.internal e)
    | .ok () => return .ok ()

/-- `restart_session`. -/
def restartSession (stopIo : SaveIo) (bind : Except String Unit) (io : SaveIo) (name : String) :
    Prog World (Except AppError StatusRx) := do
  let cfg ← Prog.atomic fun w => ((w.lookup (toAsciiLowercase name)).map RunnerEntry.config, w)
  match cfg with
  | none => return .error (.notFound "no such session")
  | some cfg =>
    match ← stopSession C stopIo name with
    | .error e => return .error e
    | .ok () =>
      match ← createSession C bind io cfg with
      | .error e => return .error e
      | .ok (_, statusRx) => return .ok statusRx

/-- The configuration `update_session` uses: an empty password stands for the one of the entry
under `old_name`. -/
def World.keepPassword (w : World) (oldName : String) (cfg : SessionConfig) : SessionConfig :=
  match w.lookup (toAsciiLowercase oldName) with
  | some r => if cfg.password.isEmpty then { cfg with password := r.config.password } else cfg
  | none => cfg

/-- `update_session`. -/
def updateSession (stopIo : SaveIo) (bind : Except String Unit) (io : SaveIo) (oldName : String)
    (cfg : SessionConfig) : Prog World (Except AppError StatusRx) := do
  let cfg ← Prog.atomic fun w => (w.keepPassword oldName cfg, w)
  match ← stopSession C stopIo oldName with
  | .error e => return .error e
  | .ok () =>
    match ← createSession C bind io cfg with
    | .error e => return .error e
    | .ok (_, statusRx) => return .ok statusRx

end Operations

/-! ### Calls -/

/-- A call of one of the five operations. -/
inductive Call
  | create (cfg : SessionConfig)
  | stop (name : String)
  | delete (name : String)
  | restart (name : String)
  | update (oldName : String) (cfg : SessionConfig)
  deriving DecidableEq, Repr

/-- What the operating system does during a call: the save at the end of a stop, the bind, and the
last save of the call. -/
structure CallIo where
  stopSave : SaveIo
  bind : Except String Unit
  save : SaveIo

/-- Every bind and every system call of a save succeeds. -/
def CallIo.none : CallIo := ⟨SaveIo.none, .ok (), SaveIo.none⟩

/-- Run an operation and forget the value of its result, as the HTTP handlers do. -/
def discard {α : Type} (p : Prog World (Except AppError α)) :
    Prog World (Except AppError Unit) := do
  match ← p with
  | .error e => return .error e
  | .ok _ => return .ok ()

/-- The program of a call. -/
def Call.prog (C : Codec) (io : CallIo) : Call → Prog World (Except AppError Unit)
  | create cfg => discard (createSession C io.bind io.save cfg)
  | stop name => stopSession C io.save name
  | delete name => deleteSession C io.stopSave io.save name
  | restart name => discard (restartSession C io.stopSave io.bind io.save name)
  | update oldName cfg => discard (updateSession C io.stopSave io.bind io.save oldName cfg)

/-! ### Start-up -/

/-- One round of the start-up loop of `main`: a session that the user had stopped is only entered
in the map, any other is started; the first failure ends the program. -/
def startStored (bind : Except String Unit) (s : SessionConfig) :
    Prog World (Except String Unit) := do
  let key := toAsciiLowercase s.name
  if !s.launchOnStartup then
    Prog.atomic fun w => (PUnit.unit, w.insert key ⟨none, s, none, none, none, none⟩)
    return .ok ()
  else
    match s.upstream with
    | .httpProxy listen target protocol =>
      Prog.atomic fun w =>
        let (proxyCancel, _, w) := w.spawn (.portForward listen target protocol)
        (PUnit.unit, w.insert key ⟨none, s, some proxyCancel, none, none, none⟩)
      return .ok ()
    | upstream =>
      match ← startSession s.sshUser s.password upstream ⟨s.autoReconnect, none⟩ with
      | .error e => return .error e
      | .ok (started, mgr) =>
        match ← sshdStart bind s.listen mgr with
        | .error e => return .error e
        | .ok (sshdCancel, sshdHandle) =>
          Prog.atomic fun w => (PUnit.unit,
            w.insert key ⟨some started, s, none, some sshdCancel, some sshdHandle, some mgr⟩)
          return .ok ()

/-- The start-up loop, with the outcome of each bind. -/
def startup : List (SessionConfig × Except String Unit) → Prog World (Except String Unit)
  | [] => return .ok ()
  | (s, bind) :: rest => do
    match ← startStored bind s with
    | .error e => return .error e
    | .ok () => startup rest

/-- The session that the variables `TERMHUB_DEV_SERIAL` and `TERMHUB_DEV_BAUD` add; `main` starts
it after the loop, by the same steps as a stored one. -/
def devSession (port : String) (baud : UInt32) : SessionConfig where
  name := "com"
  password := "pass"
  sshUser := "admin"
  listen := "0.0.0.0:2223"
  autoReconnect := true
  launchOnStartup := true
  ptyOverride := none
  upstream := .serial port baud 8 "none" 1 "none" "as_is" "as_is"

/-- `AppState::new` with the settings of the stored document, before any session is entered. -/
def World.new (stored : Config) (hostKeyFpr : String) (fs : Fs) : World where
  app := ⟨∅, hostKeyFpr, stored.server.maxClientsPerSession, stored.server.apiListen⟩
  rt := ⟨[], [], 0⟩
  fs := fs

/-- The states in which the program is ready after a successful start. -/
def Boots (C : Codec) (w : World) : Prop :=
  ∃ fs stored fpr sessions, ∃ dev : Option (String × UInt32),
    loadOrDefault C fs = .ok stored ∧
    stored.sessions ++ (dev.map fun d => devSession d.1 d.2).toList = sessions.map Prod.fst ∧
    (startup sessions).run (World.new stored fpr fs) = some (.ok (), w)

/-- **The states between calls**: those reached from a successful start by completed calls,
whatever their outcome, and by tasks ending by themselves. -/
inductive ReachableWorld (C : Codec) : World → Prop
  | boot {w : World} : Boots C w → ReachableWorld C w
  | call {w w' : World} {r : Except AppError Unit} (c : Call) (io : CallIo) : ReachableWorld C w →
      (c.prog C io).run w = some (r, w') → ReachableWorld C w'
  | taskEnds {w : World} (t : TaskId) : ReachableWorld C w → ReachableWorld C (w.endTask t)

end TermHub
