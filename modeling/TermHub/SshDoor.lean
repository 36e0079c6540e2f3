/-
**The SSH door of a session.**

`termhub-sshd/src/handler.rs` and the accept loop of `server.rs`, with `ClientRegistry` of
`termhub-core/src/clients.rs`.  Every session has its own listener, manager, hub and registry.  A
connection handles one request after the other; between the sections of a request, which are cut at
its suspension points, other connections, forward tasks and the upstream may move.

Dropping a `JoinHandle` does not end its task, and `abort` takes effect when the task is not being
polled.

Main definitions:

* `ClientRegistry` — the records of the clients, and which of them are listed;
* `ClientHandler`, `Conn` — a connection and the request it is handling;
* `Door`, `doorStep` — the door with its hub, and its transition function;
* `execInput` — the input that an exec request stands for;
* `Stepped` — what a step of the door can do, one case for each outcome.
-/

import TermHub.FanOut
import TermHub.SessionMgr

set_option relaxedAutoImplicit false
set_option autoImplicit false

namespace TermHub

namespace Sshd

open Hub Broadcast
open Runner (Bytes)

/-! ### The registry of the clients -/

/-- `ClientRecord`; its `bytes_out` is counted by the forward task that writes for it. -/
structure ClientRecord where
  id : ℕ
  remote : String
  bytesIn : ℕ
  kicked : Bool
  deriving DecidableEq, Repr

/-- `ClientRegistry`: the last number given, the numbers that are listed, and all records made so
far, which live on while somebody holds them. -/
structure ClientRegistry where
  nextId : ℕ
  listed : List ℕ
  records : List ClientRecord
  deriving DecidableEq, Repr

namespace ClientRegistry

/-- `ClientRegistry::default`. -/
def new : ClientRegistry := ⟨0, [], []⟩

/-- `ClientRegistry::attach`. -/
def attach (r : ClientRegistry) (remote : String) : ℕ × ClientRegistry :=
  (r.nextId + 1, ⟨r.nextId + 1, r.listed ++ [r.nextId + 1],
    r.records ++ [⟨r.nextId + 1, remote, 0, false⟩]⟩)

/-- `ClientRegistry::detach`. -/
def detach (r : ClientRegistry) (id : ℕ) : ClientRegistry :=
  { r with listed := r.listed.filter fun x => x != id }

/-- `ClientRegistry::kick`. -/
def kick (r : ClientRegistry) (id : ℕ) : Bool × ClientRegistry :=
  if id ∈ r.listed then
    (true, { r with records := r.records.map fun c => if c.id = id then { c with kicked := true }
      else c })
  else (false, r)

/-- `rec.bytes_in.fetch_add(n)`. -/
def addIn (r : ClientRegistry) (id n : ℕ) : ClientRegistry :=
  { r with records := r.records.map fun c => if c.id = id then { c with bytesIn := c.bytesIn + n }
    else c }

/-- The kick token of a record has been cancelled. -/
def isKicked (r : ClientRegistry) (id : ℕ) : Bool := r.records.any fun c => c.id = id && c.kicked

end ClientRegistry

/-! ### Connections -/

/-- What the handler itself answers on a channel. -/
inductive Reply
  | success
  | message (m : ChannelMsg)
  deriving DecidableEq, Repr

/-- `ClientHandler`; the manager and the limit are those of the door. -/
structure ClientHandler where
  peer : String
  user : Option String
  entry : Option SessionEntry
  forwardTask : Option ℕ
  clientRec : Option ℕ
  isExec : Bool
  deriving DecidableEq, Repr

/-- `ClientHandler::new`. -/
def ClientHandler.new (peer : String) : ClientHandler := ⟨peer, none, none, none, none, false⟩

/-- Where a shell or exec request is that has passed the limit: it is about to attach the client, to
send the input of the command, or to subscribe. -/
inductive Pending
  | attach (channel : ℕ) (input : Option Bytes) (isExec : Bool)
  | sendInput (channel : ℕ) (input : Bytes) (isExec : Bool) (client : ℕ)
  | subscribe (channel : ℕ) (isExec : Bool) (client : ℕ)
  deriving DecidableEq, Repr

/-- A connection: its handler, the request that is being handled, whether it is open, and the
answers so far. -/
structure Conn where
  handler : ClientHandler
  pending : Option Pending
  isOpen : Bool
  replies : List (ℕ × Reply)
  deriving DecidableEq, Repr

/-- A forward task: its channel, the record of its client, and how the runtime sees it. -/
structure ForwardTask where
  channel : ℕ
  client : ℕ
  polled : Bool
  aborted : Bool
  deriving DecidableEq, Repr

/-- What a full session answers. -/
def fullLine : Bytes := asBytes "*** termhub: session is full\r\n"

/-- The input that an exec request stands for: the command with a line end. -/
def execInput (data : Bytes) : Option Bytes :=
  if data = [] then none
  else if data.getLast? = some 10 then some data
  else if data.getLast? = some 13 then some (data ++ [10])
  else some (data ++ [13, 10])

/-! ### The door -/

/-- The door of a session.  The history `typed` of the input that the hub has accepted, with the
number of the connection it came from, is not part of the code. -/
structure Door (cap : ℕ) where
  mgr : SessionMgr
  maxClients : ℕ
  hub : HubState cap
  registry : ClientRegistry
  conns : List Conn
  tasks : List ForwardTask
  typed : List (ℕ × Bytes)

/-- The door of a session that has just been started. -/
def Door.new (cap : ℕ) (mgr : SessionMgr) (maxClients : ℕ) : Door cap :=
  ⟨mgr, maxClients, HubState.init cap, ClientRegistry.new, [], [], []⟩

/-- The steps of a forward task and of the runtime with it. -/
inductive TaskAct
  | poll | suspend | kill
  | loop (a : ForwarderAct)
  deriving DecidableEq, Repr

/-- What can happen at a door.  In `data` and `inputSent` the flag tells whether the hub has taken
the input, which it does while somebody receives it. -/
inductive DoorAct
  | accept (peer : String)
  | auth (i : ℕ) (user password : String)
  | shell (i channel : ℕ)
  | exec (i channel : ℕ) (data : Bytes)
  | attach (i : ℕ)
  | inputSent (i : ℕ) (taken : Bool)
  | subscribe (i : ℕ)
  | data (i : ℕ) (b : Bytes) (taken : Bool)
  | eof (i channel : ℕ)
  | close (i channel : ℕ)
  | disconnect (i : ℕ)
  | kick (id : ℕ)
  | task (n : ℕ) (a : TaskAct)
  /-- The upstream and the system. -/
  | push (b : Bytes)
  | forward
  | system (b : Bytes)
  /-- The last holder of the hub is gone. -/
  | shutdown
  deriving DecidableEq, Repr

variable {cap : ℕ}

namespace Door

/-- Change a connection. -/
def setConn (d : Door cap) (i : ℕ) (c : Conn) : Door cap := { d with conns := d.conns.set i c }

/-- An open connection. -/
def openConn (d : Door cap) (i : ℕ) : Option Conn := (d.conns[i]?).filter fun c => c.isOpen

/-- An open connection that is not handling a request. -/
def idleConn (d : Door cap) (i : ℕ) : Option Conn :=
  (d.openConn i).filter fun c => c.pending.isNone

/-- `task.abort()`, if there is a task. -/
def abortTask (d : Door cap) : Option ℕ → Door cap
  | some n => { d with tasks := d.tasks.modify n fun t => { t with aborted := true } }
  | none => d

/-- Take a client off the list, if there is one. -/
def detachClient (d : Door cap) : Option ℕ → Door cap
  | some id => { d with registry := d.registry.detach id }
  | none => d

theorem openConn_some {d : Door cap} {i : ℕ} {c : Conn} (h : d.openConn i = some c) :
    d.conns[i]? = some c ∧ c.isOpen = true := Option.filter_eq_some_iff.1 h

theorem idleConn_some {d : Door cap} {i : ℕ} {c : Conn} (h : d.idleConn i = some c) :
    d.conns[i]? = some c ∧ c.isOpen = true ∧ c.pending = none := by
  obtain ⟨ho, hp⟩ := Option.filter_eq_some_iff.1 h
  obtain ⟨hc, hopen⟩ := openConn_some ho
  exact ⟨hc, hopen, Option.isNone_iff_eq_none.1 hp⟩

theorem openConn_of {d : Door cap} {i : ℕ} {c : Conn} (h : d.conns[i]? = some c)
    (ho : c.isOpen = true) : d.openConn i = some c := Option.filter_eq_some_iff.2 ⟨h, ho⟩

theorem idleConn_of {d : Door cap} {i : ℕ} {c : Conn} (h : d.conns[i]? = some c)
    (ho : c.isOpen = true) (hp : c.pending = none) : d.idleConn i = some c :=
  Option.filter_eq_some_iff.2 ⟨openConn_of h ho, Option.isNone_iff_eq_none.2 hp⟩

theorem mem_setConn {d : Door cap} {i : ℕ} {c c' : Conn} (h : c' ∈ (d.setConn i c).conns) :
    c' = c ∨ c' ∈ d.conns := (List.mem_or_eq_of_mem_set h).symm

@[simp] theorem abortTask_hub (d : Door cap) (t : Option ℕ) : (d.abortTask t).hub = d.hub := by
  cases t <;> rfl

@[simp] theorem abortTask_conns (d : Door cap) (t : Option ℕ) :
    (d.abortTask t).conns = d.conns := by
  cases t <;> rfl

@[simp] theorem abortTask_registry (d : Door cap) (t : Option ℕ) :
    (d.abortTask t).registry = d.registry := by
  cases t <;> rfl

@[simp] theorem abortTask_maxClients (d : Door cap) (t : Option ℕ) :
    (d.abortTask t).maxClients = d.maxClients := by
  cases t <;> rfl

@[simp] theorem abortTask_mgr (d : Door cap) (t : Option ℕ) : (d.abortTask t).mgr = d.mgr := by
  cases t <;> rfl

@[simp] theorem abortTask_tasks_length (d : Door cap) (t : Option ℕ) :
    (d.abortTask t).tasks.length = d.tasks.length := by
  cases t <;> simp [Door.abortTask]

@[simp] theorem detachClient_hub (d : Door cap) (c : Option ℕ) :
    (d.detachClient c).hub = d.hub := by
  cases c <;> rfl

@[simp] theorem detachClient_conns (d : Door cap) (c : Option ℕ) :
    (d.detachClient c).conns = d.conns := by
  cases c <;> rfl

@[simp] theorem detachClient_maxClients (d : Door cap) (c : Option ℕ) :
    (d.detachClient c).maxClients = d.maxClients := by
  cases c <;> rfl

@[simp] theorem detachClient_mgr (d : Door cap) (c : Option ℕ) :
    (d.detachClient c).mgr = d.mgr := by
  cases c <;> rfl

@[simp] theorem detachClient_tasks (d : Door cap) (c : Option ℕ) :
    (d.detachClient c).tasks = d.tasks := by
  cases c <;> rfl

@[simp] theorem abortTask_typed (d : Door cap) (t : Option ℕ) :
    (d.abortTask t).typed = d.typed := by
  cases t <;> rfl

@[simp] theorem detachClient_typed (d : Door cap) (c : Option ℕ) :
    (d.detachClient c).typed = d.typed := by
  cases c <;> rfl

/-- A connection whose client leaves. -/
theorem closed_conns (d : Door cap) (task client : Option ℕ) (i : ℕ) (c : Conn) :
    (((d.abortTask task).detachClient client).setConn i c).conns = d.conns.set i c := by
  simp [Door.setConn]

/-- The first section of `start_shell_or_exec`: without an entry the channel is closed, and so it is
when the session is full. -/
def startShellOrExec (d : Door cap) (i : ℕ) (c : Conn) (channel : ℕ) (input : Option Bytes)
    (isExec : Bool) : Door cap :=
  match c.handler.entry with
  | none => d.setConn i { c with replies := c.replies ++ [(channel, .message .close)] }
  | some _ =>
    if d.hub.chan.rxCount ≥ d.maxClients then
      d.setConn i { c with
        replies := c.replies ++
          [(channel, .message (.data fullLine)), (channel, .message .close)] }
    else
      d.setConn i { c with
        replies := c.replies ++ [(channel, .success)]
        pending := some (.attach channel input isExec) }

/-- A request only moves its connection. -/
theorem startShellOrExec_frame (d : Door cap) (i : ℕ) (c : Conn) (channel : ℕ)
    (input : Option Bytes) (isExec : Bool) :
    ∃ c', d.startShellOrExec i c channel input isExec = d.setConn i c' := by
  unfold startShellOrExec
  split
  · exact ⟨_, rfl⟩
  · split <;> exact ⟨_, rfl⟩

section Frame

variable {d : Door cap} {i channel : ℕ} {c : Conn} {input : Option Bytes} {isExec : Bool}

@[simp] theorem startShellOrExec_hub :
    (d.startShellOrExec i c channel input isExec).hub = d.hub := by
  obtain ⟨c', h⟩ := d.startShellOrExec_frame i c channel input isExec
  rw [h, setConn]

@[simp] theorem startShellOrExec_mgr :
    (d.startShellOrExec i c channel input isExec).mgr = d.mgr := by
  obtain ⟨c', h⟩ := d.startShellOrExec_frame i c channel input isExec
  rw [h, setConn]

@[simp] theorem startShellOrExec_maxClients :
    (d.startShellOrExec i c channel input isExec).maxClients = d.maxClients := by
  obtain ⟨c', h⟩ := d.startShellOrExec_frame i c channel input isExec
  rw [h, setConn]

@[simp] theorem startShellOrExec_registry :
    (d.startShellOrExec i c channel input isExec).registry = d.registry := by
  obtain ⟨c', h⟩ := d.startShellOrExec_frame i c channel input isExec
  rw [h, setConn]

end Frame

variable [NeZero cap]

/-- The forward task `n` does a step of its loop. -/
def loopStep (d : Door cap) (n : ℕ) (a : ForwarderAct) : Option (Door cap) :=
  (hubStep d.hub (.client n a)).map fun hub => { d with hub }

/-- One step of a forward task.  The loop sees a kick when the token of its record is cancelled. -/
def taskStep (d : Door cap) (n : ℕ) (t : ForwardTask) : TaskAct → Option (Door cap)
  | .poll =>
    if t.polled = false ∧ t.aborted = false then
      some { d with tasks := d.tasks.set n { t with polled := true } }
    else none
  | .suspend =>
    if t.polled = true then some { d with tasks := d.tasks.set n { t with polled := false } }
    else none
  | .kill => if t.polled = false ∧ t.aborted = true then d.loopStep n .aborted else none
  | .loop a =>
    if t.polled = true ∧ a ≠ .aborted ∧
        (a = .kicked → d.registry.isKicked t.client = true) then
      d.loopStep n a
    else none

end Door

variable [NeZero cap]

/-- The step of an action. -/
def doorStep (d : Door cap) : DoorAct → Option (Door cap)
  | .accept peer =>
    if d.hub.hubOpen then
      some { d with conns := d.conns ++ [⟨ClientHandler.new peer, none, true, []⟩] }
    else none
  | .auth i user password =>
    match d.idleConn i with
    | some c =>
      -- a connection that has been let in is not asked again
      if c.handler.entry.isSome then none
      else match d.mgr.authenticate user password with
        | some e => some (d.setConn i { c with
            handler := { c.handler with user := some user, entry := some e } })
        | none => some d
    | none => none
  | .shell i channel =>
    (d.idleConn i).map fun c => d.startShellOrExec i c channel none false
  | .exec i channel data =>
    (d.idleConn i).map fun c => d.startShellOrExec i c channel (execInput data) true
  | .attach i =>
    match d.openConn i with
    | some c =>
      match c.pending with
      | some (.attach channel input isExec) =>
        let (id, registry) := d.registry.attach c.handler.peer
        some ({ d with registry }.setConn i { c with
          handler := { c.handler with clientRec := some id, isExec := isExec }
          pending := match input with
            | some b => some (.sendInput channel b isExec id)
            | none => some (.subscribe channel isExec id) })
      | _ => none
    | none => none
  | .inputSent i taken =>
    match d.openConn i with
    | some c =>
      match c.pending with
      | some (.sendInput channel b isExec id) =>
        some ({ d with
          registry := d.registry.addIn id b.length
          typed := if taken then d.typed ++ [(i, b)] else d.typed }.setConn i
            { c with pending := some (.subscribe channel isExec id) })
      | _ => none
    | none => none
  | .subscribe i =>
    match d.openConn i with
    | some c =>
      match c.pending with
      | some (.subscribe channel isExec id) =>
        (hubStep d.hub (.subscribe d.tasks.length isExec)).map fun hub =>
          Door.setConn { d with hub, tasks := d.tasks ++ [⟨channel, id, false, false⟩] } i
            { c with
              -- the handle of an earlier forward task is dropped
              handler := { c.handler with forwardTask := some d.tasks.length }
              pending := none }
      | _ => none
    | none => none
  | .data i b taken =>
    match d.idleConn i with
    | some c =>
      match c.handler.entry with
      | some _ =>
        some { d with
          typed := if taken then d.typed ++ [(i, b)] else d.typed
          registry := match c.handler.clientRec with
            | some id => d.registry.addIn id b.length
            | none => d.registry }
      | none => some d
    | none => none
  | .eof i channel =>
    match d.idleConn i with
    | some c =>
      if c.handler.isExec then
        some (((d.abortTask c.handler.forwardTask).detachClient c.handler.clientRec).setConn i
          { c with
            handler := { c.handler with forwardTask := none, clientRec := none }
            replies := c.replies ++
              [(channel, .message (.exitStatus 0)), (channel, .message .close)] })
      else some d
    | none => none
  | .close i _ =>
    (d.idleConn i).map fun c =>
      ((d.abortTask c.handler.forwardTask).detachClient c.handler.clientRec).setConn i
        { c with handler := { c.handler with forwardTask := none, clientRec := none } }
  | .disconnect i =>
    -- dropping the handler aborts its task and leaves the client on the list
    (d.idleConn i).map fun c =>
      (d.abortTask c.handler.forwardTask).setConn i
        { c with handler := { c.handler with forwardTask := none }, isOpen := false }
  | .kick id => some { d with registry := (d.registry.kick id).2 }
  | .task n a =>
    match d.tasks[n]? with
    | some t => d.taskStep n t a
    | none => none
  | .push b => (hubStep d.hub (.push b)).map fun hub => { d with hub }
  | .forward => (hubStep d.hub .forward).map fun hub => { d with hub }
  | .system b => (hubStep d.hub (.system b)).map fun hub => { d with hub }
  | .shutdown =>
    if d.conns.all fun c => !c.isOpen then
      (hubStep d.hub .shutdown).map fun hub => { d with hub }
    else none

/-! ### What a section of a request does -/

theorem doorStep_attach {d t : Door cap} {i : ℕ} (h : doorStep d (.attach i) = some t) :
    ∃ c channel input isExec, d.openConn i = some c ∧
      c.pending = some (.attach channel input isExec) ∧
      ∃ pending, (pending = .subscribe channel isExec (d.registry.attach c.handler.peer).1 ∨
        ∃ b, pending = .sendInput channel b isExec (d.registry.attach c.handler.peer).1) ∧
      t = Door.setConn { d with registry := (d.registry.attach c.handler.peer).2 } i
        { c with
          handler := { c.handler with
            clientRec := some (d.registry.attach c.handler.peer).1, isExec := isExec }
          pending := some pending } := by
  simp only [doorStep] at h
  split at h
  · rename_i c hc
    split at h
    · rename_i channel input isExec hp
      refine ⟨c, channel, input, isExec, hc, hp, ?_⟩
      cases input with
      | none => exact ⟨_, .inl rfl, (Option.some_inj.1 h).symm⟩
      | some b => exact ⟨_, .inr ⟨b, rfl⟩, (Option.some_inj.1 h).symm⟩
    · cases h
  · cases h

theorem doorStep_inputSent {d t : Door cap} {i : ℕ} {taken : Bool}
    (h : doorStep d (.inputSent i taken) = some t) :
    ∃ c channel b isExec id, d.openConn i = some c ∧
      c.pending = some (.sendInput channel b isExec id) ∧
      t = Door.setConn { d with
          registry := d.registry.addIn id b.length
          typed := if taken then d.typed ++ [(i, b)] else d.typed } i
        { c with pending := some (.subscribe channel isExec id) } := by
  simp only [doorStep] at h
  split at h
  · rename_i c hc
    split at h
    · rename_i channel b isExec id hp
      exact ⟨c, channel, b, isExec, id, hc, hp, (Option.some_inj.1 h).symm⟩
    · cases h
  · cases h

theorem doorStep_subscribe {d t : Door cap} {i : ℕ} (h : doorStep d (.subscribe i) = some t) :
    ∃ c channel isExec id hub, d.openConn i = some c ∧
      c.pending = some (.subscribe channel isExec id) ∧
      hubStep d.hub (.subscribe d.tasks.length isExec) = some hub ∧
      t = Door.setConn { d with hub, tasks := d.tasks ++ [⟨channel, id, false, false⟩] } i
        { c with
          handler := { c.handler with forwardTask := some d.tasks.length }
          pending := none } := by
  simp only [doorStep] at h
  split at h
  · rename_i c hc
    split at h
    · rename_i channel isExec id hp
      obtain ⟨hub, hhub, rfl⟩ := Option.map_eq_some_iff.1 h
      exact ⟨c, channel, isExec, id, hub, hc, hp, hhub, rfl⟩
    · cases h
  · cases h

theorem doorStep_auth {d t : Door cap} {i : ℕ} {user password : String}
    (h : doorStep d (.auth i user password) = some t) :
    ∃ c, d.idleConn i = some c ∧ c.handler.entry = none ∧
      ((d.mgr.authenticate user password = none ∧ t = d) ∨
        ∃ e, d.mgr.authenticate user password = some e ∧
          t = d.setConn i { c with
            handler := { c.handler with user := some user, entry := some e } }) := by
  simp only [doorStep] at h
  split at h
  · rename_i c hc
    split at h
    · cases h
    · rename_i hentry
      refine ⟨c, hc, by simpa using hentry, ?_⟩
      split at h
      · rename_i e he
        exact .inr ⟨e, he, (Option.some_inj.1 h).symm⟩
      · rename_i he
        exact .inl ⟨he, (Option.some_inj.1 h).symm⟩
  · cases h

/-- Data of a connection that has not been let in are dropped; those of the others are typed. -/
theorem doorStep_data {d t : Door cap} {i : ℕ} {b : Bytes} {taken : Bool}
    (h : doorStep d (.data i b taken) = some t) :
    ∃ c, d.idleConn i = some c ∧ ((c.handler.entry = none ∧ t = d) ∨
      c.handler.entry.isSome = true ∧ t = { d with
        typed := if taken then d.typed ++ [(i, b)] else d.typed
        registry := c.handler.clientRec.elim d.registry fun id =>
          d.registry.addIn id b.length }) := by
  simp only [doorStep] at h
  split at h
  · rename_i c hc
    refine ⟨c, hc, ?_⟩
    split at h
    · rename_i e he
      obtain rfl := Option.some_inj.1 h
      refine .inr ⟨by rw [he]; rfl, ?_⟩
      cases c.handler.clientRec <;> rfl
    · rename_i he
      exact .inl ⟨he, (Option.some_inj.1 h).symm⟩
  · cases h

theorem doorStep_eof {d t : Door cap} {i channel : ℕ} (h : doorStep d (.eof i channel) = some t) :
    ∃ c, d.idleConn i = some c ∧ ((c.handler.isExec = false ∧ t = d) ∨
      c.handler.isExec = true ∧ ∃ replies,
        t = ((d.abortTask c.handler.forwardTask).detachClient c.handler.clientRec).setConn i
          { c with
            handler := { c.handler with forwardTask := none, clientRec := none }
            replies }) := by
  simp only [doorStep] at h
  split at h
  · rename_i c hc
    refine ⟨c, hc, ?_⟩
    split at h
    · rename_i hexec
      exact .inr ⟨hexec, _, (Option.some_inj.1 h).symm⟩
    · rename_i hexec
      exact .inl ⟨by simpa using hexec, (Option.some_inj.1 h).symm⟩
  · cases h

/-- A step of a forward task is a poll that begins or ends, or one of its loop. -/
theorem taskStep_some {d t : Door cap} {n : ℕ} {k : ForwardTask} {a : TaskAct}
    (h : d.taskStep n k a = some t) :
    (∃ polled, t = { d with tasks := d.tasks.set n { k with polled } }) ∨
      ∃ b, d.loopStep n b = some t := by
  cases a with
  | poll =>
      simp only [Door.taskStep] at h
      split at h
      · exact .inl ⟨true, (Option.some_inj.1 h).symm⟩
      · cases h
  | suspend =>
      simp only [Door.taskStep] at h
      split at h
      · exact .inl ⟨false, (Option.some_inj.1 h).symm⟩
      · cases h
  | kill =>
      simp only [Door.taskStep] at h
      split at h
      · exact .inr ⟨.aborted, h⟩
      · cases h
  | loop b =>
      simp only [Door.taskStep] at h
      split at h
      · exact .inr ⟨b, h⟩
      · cases h

/-- A step of a forward task touches the hub and the tasks only. -/
theorem taskStep_frame {d t : Door cap} {n : ℕ} {k : ForwardTask} {a : TaskAct}
    (h : d.taskStep n k a = some t) : ∃ hub tasks, t = { d with hub, tasks } ∧
      (hub = d.hub ∨ ∃ b, hubStep d.hub (.client n b) = some hub) := by
  obtain ⟨polled, rfl⟩ | ⟨b, hl⟩ := taskStep_some h
  · exact ⟨_, _, rfl, .inl rfl⟩
  · obtain ⟨hub, hhub, rfl⟩ := Option.map_eq_some_iff.1 hl
    exact ⟨_, _, rfl, .inr ⟨b, hhub⟩⟩

/-- An action of the upstream, of the system, or the end of the hub. -/
def DoorAct.IsHubAct : DoorAct → Prop
  | .push _ | .forward | .system _ | .shutdown => True
  | _ => False

/-- Such an action changes the hub only, and leaves the forward tasks alone. -/
theorem doorStep_hub {d t : Door cap} {a : DoorAct} (h : doorStep d a = some t)
    (ha : a.IsHubAct) :
    ∃ b hub, hubStep d.hub b = some hub ∧ t = { d with hub } ∧
      (∀ n isExec, b ≠ .subscribe n isExec) ∧ hub.forwarders = d.hub.forwarders ∧
      (hub.hubOpen = d.hub.hubOpen ∨ ∀ c ∈ d.conns, c.isOpen = false) := by
  cases a with
  | push b =>
      obtain ⟨hub, hhub, rfl⟩ := Option.map_eq_some_iff.1 h
      obtain ⟨-, -, rfl⟩ := hubStep_push hhub
      exact ⟨_, _, hhub, rfl, fun _ _ => by simp, rfl, .inl rfl⟩
  | forward =>
      obtain ⟨hub, hhub, rfl⟩ := Option.map_eq_some_iff.1 h
      obtain ⟨b, rest, -, rfl⟩ := hubStep_forward hhub
      exact ⟨_, _, hhub, rfl, fun _ _ => by simp, rfl, .inl rfl⟩
  | system b =>
      obtain ⟨hub, hhub, rfl⟩ := Option.map_eq_some_iff.1 h
      obtain ⟨-, rfl⟩ := hubStep_system hhub
      exact ⟨_, _, hhub, rfl, fun _ _ => by simp, rfl, .inl rfl⟩
  | shutdown =>
      simp only [doorStep] at h
      split at h
      · rename_i hall
        obtain ⟨hub, hhub, rfl⟩ := Option.map_eq_some_iff.1 h
        obtain ⟨-, -, rfl⟩ := hubStep_shutdown hhub
        exact ⟨_, _, hhub, rfl, fun _ _ => by simp, rfl, .inr (by simpa using hall)⟩
      · cases h
  | _ => exact absurd ha id

/-- **What a step of the door can do**, one constructor for each outcome of an action. -/
inductive Stepped (d : Door cap) : DoorAct → Door cap → Prop
  | accept {peer : String} (hopen : d.hub.hubOpen = true) : Stepped d (.accept peer)
      { d with conns := d.conns ++ [⟨ClientHandler.new peer, none, true, []⟩] }
  | turnedAway {i : ℕ} {user password : String} {c : Conn} (hc : d.idleConn i = some c)
      (hentry : c.handler.entry = none) (hno : d.mgr.authenticate user password = none) :
      Stepped d (.auth i user password) d
  | letIn {i : ℕ} {user password : String} {c : Conn} {e : SessionEntry}
      (hc : d.idleConn i = some c) (hentry : c.handler.entry = none)
      (he : d.mgr.authenticate user password = some e) : Stepped d (.auth i user password)
      (d.setConn i { c with handler := { c.handler with user := some user, entry := some e } })
  | shell {i channel : ℕ} {c : Conn} (hc : d.idleConn i = some c) :
      Stepped d (.shell i channel) (d.startShellOrExec i c channel none false)
  | exec {i channel : ℕ} {data : Bytes} {c : Conn} (hc : d.idleConn i = some c) :
      Stepped d (.exec i channel data) (d.startShellOrExec i c channel (execInput data) true)
  | attach {i channel : ℕ} {c : Conn} {input : Option Bytes} {isExec : Bool} {pending : Pending}
      (hc : d.openConn i = some c) (hp : c.pending = some (.attach channel input isExec))
      (hnext : pending = .subscribe channel isExec (d.registry.attach c.handler.peer).1 ∨
        ∃ b, pending = .sendInput channel b isExec (d.registry.attach c.handler.peer).1) :
      Stepped d (.attach i)
        (Door.setConn { d with registry := (d.registry.attach c.handler.peer).2 } i
          { c with
            handler := { c.handler with
              clientRec := some (d.registry.attach c.handler.peer).1, isExec := isExec }
            pending := some pending })
  | inputSent {i channel id : ℕ} {taken : Bool} {c : Conn} {b : Bytes} {isExec : Bool}
      (hc : d.openConn i = some c) (hp : c.pending = some (.sendInput channel b isExec id)) :
      Stepped d (.inputSent i taken)
        (Door.setConn { d with
            registry := d.registry.addIn id b.length
            typed := if taken then d.typed ++ [(i, b)] else d.typed } i
          { c with pending := some (.subscribe channel isExec id) })
  | subscribe {i channel id : ℕ} {c : Conn} {isExec : Bool} {hub : HubState cap}
      (hc : d.openConn i = some c) (hp : c.pending = some (.subscribe channel isExec id))
      (hhub : hubStep d.hub (.subscribe d.tasks.length isExec) = some hub) :
      Stepped d (.subscribe i)
        (Door.setConn { d with hub, tasks := d.tasks ++ [⟨channel, id, false, false⟩] } i
          { c with
            handler := { c.handler with forwardTask := some d.tasks.length }
            pending := none })
  | dropped {i : ℕ} {b : Bytes} {taken : Bool} {c : Conn} (hc : d.idleConn i = some c)
      (hentry : c.handler.entry = none) : Stepped d (.data i b taken) d
  | data {i : ℕ} {b : Bytes} {taken : Bool} {c : Conn} (hc : d.idleConn i = some c)
      (hentry : c.handler.entry.isSome = true) : Stepped d (.data i b taken)
      { d with
        typed := if taken then d.typed ++ [(i, b)] else d.typed
        registry := c.handler.clientRec.elim d.registry fun id => d.registry.addIn id b.length }
  | eofOfShell {i channel : ℕ} {c : Conn} (hc : d.idleConn i = some c)
      (hexec : c.handler.isExec = false) : Stepped d (.eof i channel) d
  | eof {i channel : ℕ} {c : Conn} {replies : List (ℕ × Reply)} (hc : d.idleConn i = some c)
      (hexec : c.handler.isExec = true) : Stepped d (.eof i channel)
      (((d.abortTask c.handler.forwardTask).detachClient c.handler.clientRec).setConn i
        { c with handler := { c.handler with forwardTask := none, clientRec := none }, replies })
  | close {i channel : ℕ} {c : Conn} (hc : d.idleConn i = some c) : Stepped d (.close i channel)
      (((d.abortTask c.handler.forwardTask).detachClient c.handler.clientRec).setConn i
        { c with handler := { c.handler with forwardTask := none, clientRec := none } })
  | disconnect {i : ℕ} {c : Conn} (hc : d.idleConn i = some c) : Stepped d (.disconnect i)
      ((d.abortTask c.handler.forwardTask).setConn i
        { c with handler := { c.handler with forwardTask := none }, isOpen := false })
  | kick (id : ℕ) : Stepped d (.kick id) { d with registry := (d.registry.kick id).2 }
  | task {n : ℕ} {k : ForwardTask} {a : TaskAct} {t : Door cap} (hk : d.tasks[n]? = some k)
      (hs : d.taskStep n k a = some t) : Stepped d (.task n a) t
  | hub {a : DoorAct} {b : HubAct} {hub : HubState cap} (ha : a.IsHubAct)
      (hhub : hubStep d.hub b = some hub) (hsub : ∀ n isExec, b ≠ .subscribe n isExec)
      (hforw : hub.forwarders = d.hub.forwarders)
      (hopen : hub.hubOpen = d.hub.hubOpen ∨ ∀ c ∈ d.conns, c.isOpen = false) :
      Stepped d a { d with hub }

/-- **Every step of the door is one of these.** -/
theorem doorStep_stepped {d t : Door cap} {a : DoorAct} (h : doorStep d a = some t) :
    Stepped d a t := by
  have hhub (ha : a.IsHubAct) : Stepped d a t := by
    obtain ⟨b, hub, hhub, rfl, hsub, hforw, hopen⟩ := doorStep_hub h ha
    exact .hub ha hhub hsub hforw hopen
  cases a with
  | accept peer =>
      simp only [doorStep] at h
      split at h
      · rename_i hopen
        exact Option.some_inj.1 h ▸ .accept hopen
      · cases h
  | auth i user password =>
      obtain ⟨c, hc, hentry, ⟨hno, rfl⟩ | ⟨e, he, rfl⟩⟩ := doorStep_auth h
      · exact .turnedAway hc hentry hno
      · exact .letIn hc hentry he
  | shell i channel =>
      obtain ⟨c, hc, rfl⟩ := Option.map_eq_some_iff.1 h
      exact .shell hc
  | exec i channel data =>
      obtain ⟨c, hc, rfl⟩ := Option.map_eq_some_iff.1 h
      exact .exec hc
  | attach i =>
      obtain ⟨c, channel, input, isExec, hc, hp, pending, hnext, rfl⟩ := doorStep_attach h
      exact .attach hc hp hnext
  | inputSent i taken =>
      obtain ⟨c, channel, b, isExec, id, hc, hp, rfl⟩ := doorStep_inputSent h
      exact .inputSent hc hp
  | subscribe i =>
      obtain ⟨c, channel, isExec, id, hub, hc, hp, hsub, rfl⟩ := doorStep_subscribe h
      exact .subscribe hc hp hsub
  | data i b taken =>
      obtain ⟨c, hc, ⟨hentry, rfl⟩ | ⟨hentry, rfl⟩⟩ := doorStep_data h
      · exact .dropped hc hentry
      · exact .data hc hentry
  | eof i channel =>
      obtain ⟨c, hc, ⟨hexec, rfl⟩ | ⟨hexec, replies, rfl⟩⟩ := doorStep_eof h
      · exact .eofOfShell hc hexec
      · exact .eof hc hexec
  | close i channel =>
      obtain ⟨c, hc, rfl⟩ := Option.map_eq_some_iff.1 h
      exact .close hc
  | disconnect i =>
      obtain ⟨c, hc, rfl⟩ := Option.map_eq_some_iff.1 h
      exact .disconnect hc
  | kick id => exact Option.some_inj.1 h ▸ .kick id
  | task n b =>
      simp only [doorStep] at h
      split at h
      · rename_i k hk
        exact .task hk h
      · cases h
  -- the rest belongs to the hub
  | _ => exact hhub trivial

/-- A shell or exec request. -/
def DoorAct.IsRequest : DoorAct → Prop
  | .shell _ _ | .exec _ _ _ => True
  | _ => False

/-- What a step may do to a connection: it ends only by a disconnect, and a request is handled only
after it has passed the limit. -/
structure Moves (d : Door cap) (a : DoorAct) (i : ℕ) (c c' : Conn) : Prop where
  wasOpen : d.openConn i = some c
  closed : c'.isOpen = false → a = .disconnect i
  limit : ∀ {channel : ℕ} {input : Option Bytes} {isExec : Bool},
    c'.pending = some (.attach channel input isExec) → d.hub.chan.rxCount < d.maxClients
  waits : c'.pending.isSome = true → c.pending.isSome = true ∨
    a.IsRequest ∧ d.hub.chan.rxCount < d.maxClients

omit [NeZero cap] in
/-- A connection that is not handling a request moves on without handling one. -/
theorem Moves.idle {d : Door cap} {a : DoorAct} {i : ℕ} {c c' : Conn} (hc : d.idleConn i = some c)
    (hclosed : c'.isOpen = c.isOpen ∨ a = .disconnect i) (hp : c'.pending = c.pending) :
    Moves d a i c c' := by
  obtain ⟨hi, hopen, hidle⟩ := Door.idleConn_some hc
  refine ⟨Door.openConn_of hi hopen, fun ho => hclosed.resolve_left fun h => ?_, fun hp' => ?_,
    fun hw => .inl (hp ▸ hw)⟩
  · rw [h, hopen] at ho
    cases ho
  · rw [hp, hidle] at hp'
    cases hp'

omit [NeZero cap] in
theorem startShellOrExec_moves {d : Door cap} {a : DoorAct} {i : ℕ} {c : Conn}
    (hc : d.idleConn i = some c) (ha : a.IsRequest) (channel : ℕ) (input : Option Bytes)
    (isExec : Bool) :
    ∃ c', d.startShellOrExec i c channel input isExec = d.setConn i c' ∧ Moves d a i c c' := by
  obtain ⟨hi, hopen, -⟩ := Door.idleConn_some hc
  unfold Door.startShellOrExec
  split
  · exact ⟨_, rfl, .idle hc (.inl rfl) rfl⟩
  · split
    · exact ⟨_, rfl, .idle hc (.inl rfl) rfl⟩
    · rename_i hroom
      refine ⟨_, rfl, Door.openConn_of hi hopen, fun ho => ?_, fun _ => Nat.lt_of_not_le hroom,
        fun _ => .inr ⟨ha, Nat.lt_of_not_le hroom⟩⟩
      exact absurd (hopen.symm.trans ho) (by simp)

/-- **The connections**: a step leaves them as they are, or adds one, or one of them moves. -/
theorem doorStep_conns {d t : Door cap} {a : DoorAct} (h : doorStep d a = some t) :
    t.conns = d.conns ∨
      (∃ peer, t.conns = d.conns ++ [⟨ClientHandler.new peer, none, true, []⟩]) ∨
      ∃ i c c', t.conns = d.conns.set i c' ∧ Moves d a i c c' := by
  cases doorStep_stepped h with
  | @accept peer => exact .inr (.inl ⟨peer, rfl⟩)
  | turnedAway | dropped | data | eofOfShell | kick | hub => exact .inl rfl
  | @letIn i _ _ c _ hc => exact .inr (.inr ⟨i, c, _, rfl, .idle hc (.inl rfl) rfl⟩)
  | @shell i channel c hc =>
      obtain ⟨c', hc', hm⟩ := startShellOrExec_moves (a := .shell i channel) hc trivial channel
        none false
      exact .inr (.inr ⟨i, c, c', congrArg Door.conns hc', hm⟩)
  | @exec i channel data c hc =>
      obtain ⟨c', hc', hm⟩ := startShellOrExec_moves (a := .exec i channel data) hc trivial channel
        (execInput data) true
      exact .inr (.inr ⟨i, c, c', congrArg Door.conns hc', hm⟩)
  | @attach i _ c _ _ _ hc hp hnext =>
      refine .inr (.inr ⟨i, c, _, rfl, hc, fun ho => ?_, fun hp => ?_, fun _ => .inl ?_⟩)
      · exact absurd ((Door.openConn_some hc).2.symm.trans ho) (by simp)
      · rcases hnext with rfl | ⟨b, rfl⟩ <;> cases hp
      · rw [hp]
        rfl
  | @inputSent i _ _ _ c _ _ hc hp =>
      refine .inr (.inr ⟨i, c, _, rfl, hc, fun ho => ?_, fun hp => absurd hp (by simp),
        fun _ => .inl (hp ▸ rfl)⟩)
      exact absurd ((Door.openConn_some hc).2.symm.trans ho) (by simp)
  | @subscribe i _ _ c _ _ hc =>
      refine .inr (.inr ⟨i, c, _, rfl, hc, fun ho => ?_, fun hp => absurd hp (by simp),
        fun hw => absurd hw (by simp)⟩)
      exact absurd ((Door.openConn_some hc).2.symm.trans ho) (by simp)
  | @eof i _ c _ hc =>
      exact .inr (.inr ⟨i, c, _, Door.closed_conns .., .idle hc (.inl rfl) rfl⟩)
  | @close i _ c hc =>
      exact .inr (.inr ⟨i, c, _, Door.closed_conns .., .idle hc (.inl rfl) rfl⟩)
  | @disconnect i c hc =>
      exact .inr (.inr ⟨i, c, _, Door.closed_conns d c.handler.forwardTask none i _,
        .idle hc (.inr rfl) rfl⟩)
  | task _ hs =>
      obtain ⟨hub, tasks, rfl, -⟩ := taskStep_frame hs
      exact .inl rfl

/-- **The hub**: a step of the door leaves it as it is or is a step of it, and only a subscription
is a subscription. -/
theorem doorStep_hubStep {d t : Door cap} {a : DoorAct} (h : doorStep d a = some t) :
    t.hub = d.hub ∨ ∃ b, hubStep d.hub b = some t.hub ∧
      ∀ n isExec, b = .subscribe n isExec → ∃ i, a = .subscribe i := by
  cases doorStep_stepped h with
  | @subscribe i _ _ _ _ _ _ _ hhub => exact .inr ⟨_, hhub, fun _ _ _ => ⟨i, rfl⟩⟩
  | shell | exec | eof | close | disconnect => exact .inl (by simp [Door.setConn])
  | task _ hs =>
      obtain ⟨hub, tasks, rfl, rfl | ⟨c, hhub⟩⟩ := taskStep_frame hs
      · exact .inl rfl
      · exact .inr ⟨_, hhub, fun _ _ he => absurd he (by simp)⟩
  | hub _ hhub hsub => exact .inr ⟨_, hhub, fun n isExec he => absurd he (hsub n isExec)⟩
  | _ => exact .inl rfl

/-- The manager and the limit of a door are fixed. -/
theorem doorStep_fixed {d t : Door cap} {a : DoorAct} (hs : doorStep d a = some t) :
    t.mgr = d.mgr ∧ t.maxClients = d.maxClients := by
  cases doorStep_stepped hs with
  | shell | exec | eof | close | disconnect => simp [Door.setConn]
  | task _ hs =>
      obtain ⟨hub, tasks, rfl, -⟩ := taskStep_frame hs
      exact ⟨rfl, rfl⟩
  | _ => exact ⟨rfl, rfl⟩

end Sshd

end TermHub
