/-
**A subcommand is the operation it is meant for.**

`main` of `termhub-cli/src/main.rs` against the handlers of `termhub-app/src/api_server.rs`.
Between the arguments of a subcommand and the operation there are a request path, a JSON document,
the route table, the extractors, the envelope of the answer and the way it is read back.  For names
that are plain all this is invisible: the run of the subcommand is the run of the operation, and
what is printed is its result.

Main definitions:

* `Live`, `Api` — what belongs to the running sessions, and the state that the API works on;
* `kickClient` — `kick_client`, on the client registry of the session;
* `Host`, `ApiServer.serve` — the handlers behind the routes;
* `Cli.Command`, `Cli.main` — the subcommands, and the program of the command line;
* `Cli.operate` — the operation that a subcommand is meant for, with nothing in between.

Main results:

* `Cli.main_serve` — **a subcommand does what its operation does**, in every state;
* `Cli.session_list_tells` — **the list tells the sessions apart**;
* `kick_client_one` — **a kick cancels one client**, which the list has shown.
-/

import TermHub.ApiWire
import TermHub.ClientIds
import TermHub.CliUpdate

set_option relaxedAutoImplicit false
set_option autoImplicit false

namespace TermHub

open Serde Sections

/-! ### The state -/

/-- What belongs to the running sessions: the present statuses, and the registries of clients. -/
structure Live where
  status : StatusRx → SessionStatus
  clients : ClientRegistryId → Clients.ClientRegistry

/-- What the lists see of it. -/
def Live.shared (l : Live) : Shared where
  status := l.status
  clients id := (l.clients id).list.map fun s =>
    ⟨s.id.toNat, s.remote, s.connectedAt, s.bytesIn.toNat, s.bytesOut.toNat⟩

/-- The numbers are of their types. -/
structure Live.Fits (l : Live) : Prop where
  status : ∀ rx, (l.status rx).Fits
  count : ∀ id, (l.clients id).list.length < u64Bound
  seconds : ∀ id, ∀ s ∈ (l.clients id).list, s.connectedAt / 1000000000 < u64Bound

/-- The state of the application, and what belongs to the running sessions. -/
abbrev Api := World × Live

/-- The registry of the clients of a session. -/
def World.clientsOf (w : World) (session : String) : Option ClientRegistryId :=
  ((w.lookup (toAsciiLowercase session)).bind RunnerEntry.mgrEntry).map SessionEntry.clients

/-- `kick_client`. -/
def kickClient (session : String) (id : UInt64) (s : Api) : Bool × Api :=
  match s.1.clientsOf session with
  | none => (false, s)
  | some key =>
    let (kicked, registry) := (s.2.clients key).kick id
    (kicked, (s.1, { s.2 with clients := Function.update s.2.clients key registry }))

/-! ### The handlers -/

/-- A request with the JSON document it carries. -/
structure Request where
  method : Http.Method
  path : String
  body : Option Value

/-- What the program runs on: how the configuration is written, what the operating system does
during a call, the serial ports it lists, and the answers of the HTTP library to a request that no
route takes and to a body that is no session. -/
structure Host where
  codec : Codec
  io : CallIo
  ports : Except String (List String)
  unrouted : Http.Method → String → Response
  badBody : Option Value → Response

/-- A call of an operation that answers without a value. -/
def Host.call (h : Host) (c : Call) : Prog Api (Except AppError Unit) :=
  (c.prog h.codec h.io).first

namespace ApiServer

/-- A handler for a call without a value. -/
def unitHandler (h : Host) (c : Call) : Prog Api Response := do
  return respondUnit (← h.call c)

/-- A handler that looks at the state. -/
def lookHandler (f : Api → Value) : Prog Api Response := Prog.atomic fun s => (ok (f s), s)

/-- The `Json` extractor of a session, and then the handler. -/
def withConfig (h : Host) (body : Option Value) (next : SessionConfig → Prog Api Response) :
    Prog Api Response :=
  match body.bind SessionConfig.fromValue with
  | some config => next config
  | none => return h.badBody body

/-- The handlers of the API. -/
def handle (h : Host) (body : Option Value) : Operation → Prog Api Response
  | .listSessions => lookHandler fun s =>
    .arr ((listSessions s.2.shared s.1.app).map SessionView.toValue)
  | .createSession => withConfig h body fun config => unitHandler h (.create config)
  | .stopSession name => unitHandler h (.stop name)
  | .restartSession name => unitHandler h (.restart name)
  | .updateSession name => withConfig h body fun config => unitHandler h (.update name config)
  | .deleteSession name => unitHandler h (.delete name)
  | .listClients name => lookHandler fun s =>
    .arr ((listClients s.2.shared s.1.app name).map ClientView.toValue)
  | .kickClient session id => Prog.atomic fun s =>
    let (kicked, s) := kickClient session id s
    (ok (.bool kicked), s)
  | .getServerInfo => lookHandler fun s => (getServerInfo s.1.app).toValue
  | .listSerialPorts =>
    match h.ports with
    | .ok ports => return ok (.arr (ports.map .str))
    | .error e => return mapErr (.internal e)
  | .setServerListen => return h.unrouted .put "/api/server/listen"

/-- What is done with a request. -/
def serve (h : Host) (r : Request) : Prog Api Response :=
  match dispatch r.method r.path with
  | some op => handle h r.body op
  | none => return h.unrouted r.method r.path

end ApiServer

/-! ### The subcommands -/

namespace Cli

/-- `CreateArgs`. -/
structure CreateArgs where
  name : String
  password : String
  sshUser : String
  listen : String
  autoReconnect : Bool
  cols : Option UInt16
  rows : Option UInt16
  upstream : UpstreamCmd

/-- The configuration that is sent. -/
def CreateArgs.config (args : CreateArgs) : SessionConfig where
  name := args.name
  password := args.password
  sshUser := args.sshUser
  listen := args.listen
  autoReconnect := args.autoReconnect
  launchOnStartup := true
  ptyOverride :=
    match args.cols, args.rows with
    | some cols, some rows => some ⟨cols, rows⟩
    | _, _ => none
  upstream := upstreamToSpec args.upstream

/-- `Command`, with the actions of its four groups. -/
inductive Command
  | sessionList
  | sessionCreate (args : CreateArgs)
  | sessionStop (name : String)
  | sessionRestart (name : String)
  | sessionDelete (name : String)
  | sessionUpdate (args : UpdateArgs)
  | clientList (session : String)
  | clientKick (session : String) (id : UInt64)
  | serverInfo
  | serverListen (addr : String)
  | serialPorts

/-- What of the arguments goes into request paths. -/
def Command.shape : Command → CliCommand
  | sessionList => .sessionList
  | sessionCreate args => .sessionCreate args.config
  | sessionStop name => .sessionStop name
  | sessionRestart name => .sessionRestart name
  | sessionDelete name => .sessionDelete name
  | sessionUpdate args => .sessionUpdate args.name
  | clientList session => .clientList session
  | clientKick session id => .clientKick session id
  | serverInfo => .serverInfo
  | serverListen addr => .serverListen addr
  | serialPorts => .serialPorts

/-- What is printed: a JSON document, a table, or a line. -/
inductive Printed
  | json (v : Value)
  | sessions (rows : List SessionRow)
  | clients (rows : List ClientView)
  | server (rows : List (String × String))
  | line (s : String)

/-- The result of a run: what is printed, or how it fails. -/
abbrev Result := Except Failure (List Printed)

/-- The report of a subcommand without a value. -/
def report (asJson : Bool) (text : String) : List Printed :=
  if asJson then [.json (.obj [("ok", .bool true)])] else [.line text]

/-- The list of the clients. -/
def printClients (asJson : Bool) (session : String) (clients : List ClientView) : List Printed :=
  if asJson then [.json (.arr (clients.map ClientView.toValue))]
  else if clients.isEmpty then [.line ("No clients connected to session '" ++ session ++ "'.")]
  else [.clients clients]

/-- The outcome of a kick. -/
def printKick (asJson : Bool) (session : String) (id : UInt64) (kicked : Bool) : List Printed :=
  if asJson then [.json (.obj [("kicked", .bool kicked), ("ok", .bool true)])]
  else if kicked then
    [.line ("Client " ++ toString id ++ " kicked from session '" ++ session ++ "'.")]
  else [.line ("Client " ++ toString id ++ " not found in session '" ++ session ++ "'.")]

/-- The information about the server. -/
def printInfo (asJson : Bool) (info : ServerInfo) : List Printed :=
  if asJson then [.json info.toValue]
  else [.server [("Host Key Fingerprint", info.hostKeyFpr)]]

/-- The serial ports. -/
def printPorts (asJson : Bool) (ports : List String) : List Printed :=
  if asJson then [.json (.arr (ports.map .str))]
  else if ports.isEmpty then [.line "No serial ports found."]
  else ports.map .line

/-- The table of the sessions, or their documents. -/
def printSessions (debug : Option String → String) (asJson : Bool) (sessions : List SessionView) :
    List Printed :=
  if asJson then [.json (.arr (sessions.map SessionView.toValue))]
  else [.sessions (sessions.map (sessionRow debug))]

section Send

variable (send : Request → Prog Api Response)

/-- `api_get`. -/
def apiGet {α : Type} (read : Value → Option α) (path : String) :
    Prog Api (Except Failure α) := do
  return apiAnswer read (← send ⟨.get, path, none⟩)

/-- `api_post`. -/
def apiPost {α : Type} (read : Value → Option α) (path : String) (body : Value) :
    Prog Api (Except Failure α) := do
  return apiAnswer read (← send ⟨.post, path, some body⟩)

/-- `api_post_unit`. -/
def apiPostUnit (path : String) (body : Value) : Prog Api (Except Failure Unit) := do
  return checkUnitResponse (← send ⟨.post, path, some body⟩)

/-- `api_put_unit`. -/
def apiPutUnit (path : String) (body : Value) : Prog Api (Except Failure Unit) := do
  return checkUnitResponse (← send ⟨.put, path, some body⟩)

/-- `api_delete_unit`. -/
def apiDeleteUnit (path : String) : Prog Api (Except Failure Unit) := do
  return checkUnitResponse (← send ⟨.delete, path, none⟩)

/-- Print what a call has brought, or fail as it has. -/
def finish {α : Type} (call : Prog Api (Except Failure α)) (print : α → List Printed) :
    Prog Api Result := do
  match ← call with
  | .error e => return .error e
  | .ok x => return .ok (print x)

/-- The configuration that `session update` sends. -/
def updateConfig (args : UpdateArgs) (current : SessionView) : SessionConfig where
  name := args.name
  password := args.password.getD current.name
  sshUser := args.sshUser.getD current.sshUser
  listen := args.listen.getD current.listen
  autoReconnect := args.autoReconnect.getD current.autoReconnect
  launchOnStartup := true
  ptyOverride := none
  upstream := (args.upstream.map upstreamToSpec).getD .loopback

/-- The failure of `session update` when no session has the name. -/
def noSession (name : String) : Failure := .message ("session '" ++ name ++ "' not found")

/-- `main`, after the arguments have been parsed. -/
def main (debug : Option String → String) (asJson : Bool) : Command → Prog Api Result
  | .sessionList =>
    finish (apiGet send (Value.asList SessionView.fromValue) "/api/sessions")
      (printSessions debug asJson)
  | .sessionCreate args =>
    finish (apiPostUnit send "/api/sessions" args.config.toValue) fun () =>
      report asJson ("Session '" ++ args.name ++ "' created.")
  | .sessionStop name =>
    finish (apiPostUnit send (sessionPath name "/stop") .null) fun () =>
      report asJson ("Session '" ++ name ++ "' stopped.")
  | .sessionRestart name =>
    finish (apiPostUnit send (sessionPath name "/restart") .null) fun () =>
      report asJson ("Session '" ++ name ++ "' restarted.")
  | .sessionDelete name =>
    finish (apiDeleteUnit send (sessionPath name "")) fun () =>
      report asJson ("Session '" ++ name ++ "' deleted.")
  | .sessionUpdate args => do
    match ← apiGet send (Value.asList SessionView.fromValue) "/api/sessions" with
    | .error e => return .error e
    | .ok sessions =>
      match sessions.find? fun s => eqIgnoreAsciiCase s.name args.name with
      | none => return .error (noSession args.name)
      | some current =>
        finish (apiPutUnit send (sessionPath args.name "") (updateConfig args current).toValue)
          fun () => report asJson ("Session '" ++ args.name ++ "' updated.")
  | .clientList session =>
    finish (apiGet send (Value.asList readClient) (sessionPath session "/clients"))
      (printClients asJson session)
  | .clientKick session id =>
    finish (apiPost send Value.asBool
      (sessionPath session ("/clients/" ++ toString id ++ "/kick")) .null)
      (printKick asJson session id)
  | .serverInfo => finish (apiGet send readInfo "/api/server") (printInfo asJson)
  | .serverListen addr =>
    finish (apiPutUnit send "/api/server/listen" (.obj [("addr", .str addr)])) fun () =>
      report asJson ("Server listen address changed to " ++ addr ++ ".")
  | .serialPorts =>
    finish (apiGet send (Value.asList Value.asStr) "/api/serial-ports") (printPorts asJson)

end Send

/-! ### What the subcommands are meant for -/

/-- What is to be printed of a session. -/
def shownRow (v : TermHub.SessionView) : SessionRow where
  name := v.name
  sshUser := v.sshUser
  listen := v.listen
  status := v.status.text
  upstream := v.upstreamKind ++ " (" ++ v.upstreamSummary ++ ")"
  autoReconnect := if v.autoReconnect then "yes" else "no"
  clients := v.clientCount

/-- The sessions as they are to be printed. -/
def showSessions (asJson : Bool) (views : List TermHub.SessionView) : List Printed :=
  if asJson then [.json (.arr (views.map fun v => (SessionView.of v).toValue))]
  else [.sessions (views.map shownRow)]

/-- Look at the state and print. -/
def look (f : Api → List Printed) : Prog Api Result := Prog.atomic fun s => (.ok (f s), s)

/-- Do an operation and report. -/
def perform (h : Host) (c : Call) (done : List Printed) : Prog Api Result := do
  match ← h.call c with
  | .error e => return .error (httpError e)
  | .ok () => return .ok done

/-- **The operation that a subcommand is meant for**, with nothing in between. -/
def operate (h : Host) (asJson : Bool) : Command → Prog Api Result
  | .sessionList => look fun s => showSessions asJson (listSessions s.2.shared s.1.app)
  | .sessionCreate args =>
    perform h (.create args.config) (report asJson ("Session '" ++ args.name ++ "' created."))
  | .sessionStop name =>
    perform h (.stop name) (report asJson ("Session '" ++ name ++ "' stopped."))
  | .sessionRestart name =>
    perform h (.restart name) (report asJson ("Session '" ++ name ++ "' restarted."))
  | .sessionDelete name =>
    perform h (.delete name) (report asJson ("Session '" ++ name ++ "' deleted."))
  | .sessionUpdate args => do
    let sessions ← Prog.atomic fun s => (listSessions s.2.shared s.1.app, s)
    match findSession args.name sessions with
    | none => return .error (noSession args.name)
    | some current =>
      perform h (.update args.name (args.config current))
        (report asJson ("Session '" ++ args.name ++ "' updated."))
  | .clientList session =>
    look fun s => printClients asJson session (listClients s.2.shared s.1.app session)
  | .clientKick session id => Prog.atomic fun s =>
    (.ok (printKick asJson session id (kickClient session id s).1), (kickClient session id s).2)
  | .serverInfo => look fun s => printInfo asJson (getServerInfo s.1.app)
  | .serverListen _ => return .error (.message "HTTP 404 Not Found: ")
  | .serialPorts =>
    match h.ports with
    | .ok ports => return .ok (printPorts asJson ports)
    | .error e => return .error (.message e)

/-! ### What arrives -/

section Serve

variable {h : Host} {m : Http.Method} {path : String} {op : Operation} {body : Option Value}

theorem serve_eq (hd : dispatch m path = some op) :
    ApiServer.serve h ⟨m, path, body⟩ = ApiServer.handle h body op := by
  unfold ApiServer.serve
  rw [hd]

/-- A call without data is the operation. -/
theorem finish_unit {c : Call} {send : Prog Api Response} {done : List Printed}
    (hs : send = ApiServer.unitHandler h c) :
    finish (do return checkUnitResponse (← send)) (fun () => done) = perform h c done := by
  subst hs
  unfold finish perform ApiServer.unitHandler
  rw [Prog.bind_assoc, Prog.bind_assoc]
  refine congrArg _ (funext fun r => ?_)
  rw [Prog.pure_eq, Prog.ret_bind, Prog.pure_eq, Prog.ret_bind, checkUnitResponse_respond]
  cases r with
  | ok u => rfl
  | error e => rfl

/-- A call that no route answers. -/
theorem finish_notFound {send : Prog Api Response} {done : List Printed}
    (hs : send = .ret ⟨.notFound, .empty⟩) :
    finish (do return checkUnitResponse (← send)) (fun () => done) =
      .ret (.error (.message "HTTP 404 Not Found: ")) := by
  have hmsg : "HTTP " ++ StatusCode.notFound.text ++ ": " = "HTTP 404 Not Found: " := by decide
  rw [hs, ← hmsg]
  rfl

/-- A call for data brings it, or its error. -/
theorem run_answer {α : Type} {read : Value → Option α} {send : Prog Api Response} {s t : Api}
    {r : Except AppError Value} {x : Value → α}
    (hs : send.run s = some (ApiServer.respond r, t))
    (hread : ∀ data, r = .ok data → data.asOption read = some (some (x data))) :
    (do return apiAnswer read (← send) : Prog Api (Except Failure α)).run s =
      some ((r.map x).mapError fun e => .message e.text, t) := by
  rw [Prog.run_bind, hs, Option.bind_some]
  dsimp only
  rw [apiAnswer_respond r hread]
  rfl

/-- A call for data prints it, or its error. -/
theorem finish_data {α : Type} {read : Value → Option α} {send : Prog Api Response}
    {print : α → List Printed} {s t : Api} {r : Except AppError Value} {x : Value → α}
    (hs : send.run s = some (ApiServer.respond r, t))
    (hread : ∀ data, r = .ok data → data.asOption read = some (some (x data))) :
    (finish (do return apiAnswer read (← send)) print).run s =
      some ((r.map fun data => print (x data)).mapError fun e => .message e.text, t) := by
  unfold finish
  rw [Prog.run_bind, run_answer hs hread, Option.bind_some]
  cases r with
  | ok data => rfl
  | error e => rfl

/-- A call for what the state shows. -/
theorem finish_look {α : Type} {read : Value → Option α} {f : Api → Value}
    {send : Prog Api Response} {print : α → List Printed} (hs : send = ApiServer.lookHandler f)
    {s : Api} {x : α} (hread : (f s).asOption read = some (some x)) :
    (finish (do return apiAnswer read (← send)) print).run s = some (.ok (print x), s) := by
  refine finish_data (r := .ok (f s)) (x := fun _ => x) (hs ▸ rfl) fun data hdata => ?_
  cases hdata
  exact hread

end Serve

/-! ### The numbers fit -/

theorem fits_clientCount {l : Live} (hl : l.Fits) (r : RunnerEntry) :
    (sessionView l.shared r).clientCount < u64Bound := by
  unfold sessionView
  dsimp only
  cases r.mgrEntry with
  | none => exact Nat.two_pow_pos 64
  | some e =>
      have hlen := hl.count e.clients
      simpa [Live.shared] using hlen

theorem fits_status {l : Live} (hl : l.Fits) (r : RunnerEntry) :
    (sessionView l.shared r).status.Fits := by
  unfold sessionView
  dsimp only
  cases r.mgrEntry with
  | some e => exact hl.status e.status
  | none =>
      cases r.proxyCancel.isSome with
      | true => exact (by decide : 0 < u64Bound)
      | false => trivial

theorem fits_clients {l : Live} (hl : l.Fits) (a : AppState) (name : String) :
    ∀ c ∈ listClients l.shared a name, c.Fits := by
  intro c hc
  unfold listClients at hc
  split at hc
  · cases hc
  · split at hc
    · rename_i e _
      obtain ⟨snapshot, hsnapshot, rfl⟩ := List.mem_map.1 hc
      obtain ⟨s, hs, rfl⟩ := List.mem_map.1 hsnapshot
      have hsec := hl.seconds e.clients s hs
      refine ⟨s.id.toNat_lt, ?_, s.bytesIn.toNat_lt, s.bytesOut.toNat_lt⟩
      change ((s.connectedAt : ℤ) / 1000000000).toNat < u64Bound
      omega
    · cases hc

/-- The list of the sessions is read as it is shown. -/
theorem asList_listSessions {l : Live} (hl : l.Fits) (a : AppState) :
    Value.asList SessionView.fromValue
      (.arr ((listSessions l.shared a).map TermHub.SessionView.toValue)) =
        some ((listSessions l.shared a).map SessionView.of) := by
  refine Value.mapM_map_eq fun v hv => ?_
  obtain ⟨e, -, rfl⟩ := List.mem_map.1 hv
  exact SessionView.fromValue_toValue _ (fits_clientCount hl e.2)

/-- **What is printed of the sessions** is what there is to be printed. -/
theorem printSessions_of (debug : Option String → String) (asJson : Bool) {l : Live} (hl : l.Fits)
    (a : AppState) : printSessions debug asJson ((listSessions l.shared a).map SessionView.of) =
      showSessions asJson (listSessions l.shared a) := by
  unfold printSessions showSessions
  rw [List.map_map, List.map_map]
  have hrow : (listSessions l.shared a).map (sessionRow debug ∘ SessionView.of) =
      (listSessions l.shared a).map shownRow := by
    refine List.map_congr_left fun v hv => ?_
    obtain ⟨e, -, rfl⟩ := List.mem_map.1 hv
    have hs := formatStatus_toValue debug (fits_status hl e.2)
    simp only [Function.comp_apply, sessionRow, shownRow, SessionView.of, hs]
    rfl
  rw [hrow]
  rfl

/-- The session that is found is the same one. -/
theorem find_of (name : String) (views : List TermHub.SessionView) :
    ((views.map SessionView.of).find? fun s => eqIgnoreAsciiCase s.name name) =
      (findSession name views).map SessionView.of :=
  List.find?_map ..

theorem updateConfig_of (args : UpdateArgs) (v : TermHub.SessionView) :
    updateConfig args (.of v) = args.config v := rfl

/-! ### The subcommands and their operations -/

theorem asOption_arr {α : Type} {read : Value → Option α} {vs : List Value} {x : α}
    (hread : read (.arr vs) = some x) : (Value.arr vs).asOption read = some (some x) := by
  change (read (.arr vs)).map some = _
  rw [hread]
  rfl

/-- The requests with a plain name. -/
theorem dispatch_plain (q : SessionRequest) {name : String} (hp : Http.Plain name.toList)
    (hend : q.rest = [] → Http.EndsPlain name.toList) :
    dispatch q.method (q.path name) = some (q.operation name) :=
  (dispatch_session_iff q name).2 ⟨hp, hend⟩

/-- What an operation is sent for, it gets. -/
theorem withConfig_toValue (h : Host) (config : SessionConfig)
    (next : SessionConfig → Prog Api Response) :
    ApiServer.withConfig h (some config.toValue) next = next config := by
  unfold ApiServer.withConfig
  rw [Option.bind_some, config.fromValue_toValue]

theorem dispatch_list : dispatch .get "/api/sessions" = some .listSessions := by decide

/-- The list of the sessions, through the API. -/
theorem run_sessionList (h : Host) (debug : Option String → String) (asJson : Bool) {s : Api}
    (hfit : s.2.Fits) : (main (ApiServer.serve h) debug asJson .sessionList).run s =
      some (.ok (showSessions asJson (listSessions s.2.shared s.1.app)), s) := by
  refine (finish_look (serve_eq dispatch_list) (asOption_arr (asList_listSessions hfit _))).trans ?_
  rw [printSessions_of debug asJson hfit]

/-- The names are plain; or it is the one subcommand that no route answers. -/
def Command.Served (c : Command) : Prop := c.shape.Plain ∨ ∃ addr, c = .serverListen addr

theorem Command.Served.plain {c : Command} (hc : c.Served) (hne : ∀ addr, c ≠ .serverListen addr) :
    c.shape.Plain :=
  hc.resolve_right fun ⟨addr, heq⟩ => hne addr heq

/-- **A subcommand does what its operation does.**  For plain names and every state, the run of the
subcommand through the HTTP API, and what it prints, are those of the operation that it is meant
for; `server listen` fails and changes nothing. -/
theorem main_serve (h : Host) (debug : Option String → String) (asJson : Bool) (c : Command)
    (hunrouted : h.unrouted .put "/api/server/listen" = ⟨.notFound, .empty⟩) (hc : c.Served)
    {s : Api} (hfit : s.2.Fits) :
    (main (ApiServer.serve h) debug asJson c).run s = (operate h asJson c).run s := by
  cases c with
  | sessionList => exact run_sessionList h debug asJson hfit
  | sessionCreate args =>
      have hd : dispatch .post "/api/sessions" = some .createSession := by decide
      refine congrArg (fun p : Prog Api Result => p.run s) (finish_unit ?_)
      rw [serve_eq hd]
      exact withConfig_toValue h _ _
  | sessionStop name =>
      have hd := dispatch_plain .stop (hc.plain nofun) nofun
      rw [(path_eq name).2.2.1] at hd
      exact congrArg (fun p : Prog Api Result => p.run s) (finish_unit (serve_eq hd))
  | sessionRestart name =>
      have hd := dispatch_plain .restart (hc.plain nofun) nofun
      rw [(path_eq name).2.2.2.1] at hd
      exact congrArg (fun p : Prog Api Result => p.run s) (finish_unit (serve_eq hd))
  | sessionDelete name =>
      obtain ⟨hplain, hend⟩ := hc.plain nofun
      have hd := dispatch_plain .delete hplain fun _ => hend
      rw [(path_eq name).2.1] at hd
      exact congrArg (fun p : Prog Api Result => p.run s) (finish_unit (serve_eq hd))
  | sessionUpdate args =>
      obtain ⟨hplain, hend⟩ := hc.plain nofun
      have hd := dispatch_plain .update hplain fun _ => hend
      rw [(path_eq args.name).1] at hd
      have hget : (apiGet (ApiServer.serve h) (Value.asList SessionView.fromValue)
          "/api/sessions").run s =
            some (.ok ((listSessions s.2.shared s.1.app).map SessionView.of), s) := by
        refine run_answer (r := .ok _) (x := fun _ => _)
          (by rw [serve_eq dispatch_list]; rfl) ?_
        intro data hdata
        cases hdata
        exact asOption_arr (asList_listSessions hfit _)
      unfold main operate
      rw [Prog.run_bind, hget, Option.bind_some, Prog.run_bind, Prog.run_atomic, Option.bind_some]
      dsimp only
      rw [find_of]
      -- the same session is found, or none
      cases findSession args.name (listSessions s.2.shared s.1.app) with
      | none => rfl
      | some current =>
          refine congrArg (fun p : Prog Api Result => p.run s) (finish_unit ?_)
          rw [updateConfig_of]
          exact (serve_eq hd).trans (withConfig_toValue h _ _)
  | clientList session =>
      have hd := dispatch_plain .clients (hc.plain nofun) nofun
      rw [(path_eq session).2.2.2.2] at hd
      have hread : Value.asList readClient
          (.arr ((listClients s.2.shared s.1.app session).map ClientView.toValue)) =
            some (listClients s.2.shared s.1.app session) :=
        Value.mapM_map_some fun c hc => readClient_toValue c (fits_clients hfit _ _ c hc)
      exact finish_look (serve_eq hd) (asOption_arr hread)
  | clientKick session id =>
      have hd := (dispatch_kick_session_iff session id).2 (hc.plain nofun)
      refine finish_data (r := .ok (.bool (kickClient session id s).1))
        (x := fun _ => (kickClient session id s).1) ?_ fun data hdata => ?_
      · rw [serve_eq hd]
        rfl
      · cases hdata
        rfl
  | serverInfo =>
      have hd : dispatch .get "/api/server" = some .getServerInfo := by decide
      refine finish_look (serve_eq hd) ?_
      change (readInfo (getServerInfo s.1.app).toValue).map some = _
      rw [readInfo_toValue]
      rfl
  | serverListen addr =>
      have hd : dispatch .put "/api/server/listen" = none := by decide
      refine congrArg (fun p : Prog Api Result => p.run s) (finish_notFound ?_)
      unfold ApiServer.serve
      rw [hd, hunrouted]
      rfl
  | serialPorts =>
      have hd : dispatch .get "/api/serial-ports" = some .listSerialPorts := by decide
      unfold operate
      cases hp : h.ports with
      | ok ports =>
          refine finish_data (r := .ok (.arr (ports.map .str))) (x := fun _ => ports) ?_ ?_
          · rw [serve_eq hd, ApiServer.handle, hp]
            rfl
          · intro data hdata
            cases hdata
            exact asOption_arr (asList_asStr ports)
      | error e =>
          refine finish_data (r := .error (.internal e)) (x := fun _ => []) ?_ nofun
          rw [serve_eq hd, ApiServer.handle, hp]
          rfl

/-- A program that has just been started, with one session that has been stopped. -/
def stoppedSession : Api :=
  ((World.new defaultConfig "SHA256:" Fs.empty).insert "dev" sshSession,
    ⟨fun _ => .idle, fun _ => Clients.ClientRegistry.new⟩)

theorem fits_stoppedSession : stoppedSession.2.Fits :=
  ⟨fun _ => trivial, fun _ => Nat.two_pow_pos 64, fun _ _ hs => by cases hs⟩

/-- A host on which every call succeeds. -/
def quietHost : Host :=
  ⟨plainCodec, CallIo.none, .ok [], fun _ _ => ⟨.notFound, .empty⟩, fun _ => ⟨⟨422, ""⟩, .text ""⟩⟩

/-- The list of one session, and a kick in it. -/
theorem main_serve_list :
    (main (ApiServer.serve quietHost) (fun _ => "") false .sessionList).run stoppedSession =
      some (.ok [.sessions [⟨"dev", "admin", "0.0.0.0:2301", "stopped", "ssh (root@host:22)", "yes",
        0⟩]], stoppedSession) ∧
    (main (ApiServer.serve quietHost) (fun _ => "") false (.clientKick "dev" 1)).run
        stoppedSession =
      some (.ok [.line "Client 1 not found in session 'dev'."], stoppedSession) := by
  refine ⟨?_, ?_⟩
  · exact (main_serve quietHost (fun _ => "") false .sessionList rfl (.inl trivial)
      fits_stoppedSession).trans rfl
  · have hplain : Http.Plain "dev".toList := by decide
    exact (main_serve quietHost (fun _ => "") false (.clientKick "dev" 1) rfl (.inl hplain)
      fits_stoppedSession).trans rfl

/-! ### What the list tells -/

/-- What the table shows of a session, apart from its upstream. -/
def told (v : TermHub.SessionView) : String × String × String × SessionStatus × Bool × ℕ :=
  (v.name, v.sshUser, v.listen, v.status, v.autoReconnect, v.clientCount)

theorem told_of_shownRow {v v' : TermHub.SessionView} (h : shownRow v = shownRow v') :
    told v = told v' := by
  unfold shownRow at h
  obtain ⟨hname, huser, hlisten, hstatus, -, hauto, hcount⟩ := SessionRow.mk.inj h
  have hrc : v.autoReconnect = v'.autoReconnect := by
    cases hv : v.autoReconnect <;> cases hv' : v'.autoReconnect <;> simp [hv, hv'] at hauto ⊢
  unfold told
  rw [hname, huser, hlisten, SessionStatus.text_injective hstatus, hrc, hcount]

/-- **The list tells the sessions apart**: two states for which `session list` hands the same rows
to the table have the same sessions, each with the same address, the same status and as many
clients. -/
theorem session_list_tells (h h' : Host) (debug debug' : Option String → String) {s t : Api}
    (hs : s.2.Fits) (ht : t.2.Fits)
    (hsame : ((main (ApiServer.serve h) debug false .sessionList).run s).map Prod.fst =
      ((main (ApiServer.serve h') debug' false .sessionList).run t).map Prod.fst) :
    (listSessions s.2.shared s.1.app).map told = (listSessions t.2.shared t.1.app).map told := by
  rw [run_sessionList h debug false hs, run_sessionList h' debug' false ht] at hsame
  have hrows : (listSessions s.2.shared s.1.app).map shownRow =
      (listSessions t.2.shared t.1.app).map shownRow := by
    injection hsame with hsame
    injection hsame with hsame
    injection hsame with hsame
    injection hsame
  -- what is told depends on the row alone
  have hfactor : Function.FactorsThrough told shownRow := fun _ _ => told_of_shownRow
  have hcomp := hfactor.extend_comp fun _ => ("", "", "", .idle, false, 0)
  rw [← hcomp, ← List.map_map, ← List.map_map, hrows]

/-- The same session with another password. -/
def changedSession : Api :=
  ((World.new defaultConfig "SHA256:" Fs.empty).insert "dev"
    { sshSession with config := { sshSession.config with password := "other" } }, stoppedSession.2)

theorem session_list_tells_password :
    (listSessions stoppedSession.2.shared stoppedSession.1.app).map told =
      (listSessions changedSession.2.shared changedSession.1.app).map told := by
  refine session_list_tells quietHost quietHost (fun _ => "") (fun _ => "") fits_stoppedSession
    fits_stoppedSession ?_
  have hstopped := run_sessionList quietHost (fun _ => "") false fits_stoppedSession
  have hchanged : (main (ApiServer.serve quietHost) (fun _ => "") false .sessionList).run
      changedSession = _ := run_sessionList quietHost (fun _ => "") false fits_stoppedSession
  rw [hstopped, hchanged]
  rfl

end Cli

/-! ### A kick -/

section Kick

variable {s : Api} {session : String} {id : UInt64}

/-- The list of the clients is that of the registry. -/
theorem listClients_eq (l : Live) (w : World) (session : String) :
    listClients l.shared w.app session =
      match w.clientsOf session with
      | some key => (l.shared.clients key).map clientView
      | none => [] := by
  unfold listClients World.clientsOf World.lookup
  cases w.app.runners.lookup (toAsciiLowercase session) with
  | none => rfl
  | some r =>
      simp only [Option.bind_some]
      cases r.mgrEntry with
      | none => rfl
      | some e => rfl

/-- The numbers that are listed are those of the clients that are attached. -/
theorem listed_iff {l : Live} {calls : List Clients.Call} {key : ClientRegistryId}
    (hled : Clients.Ledger (l.clients key) (Clients.issued calls) (Clients.Attached calls))
    (id : UInt64) : (∃ c ∈ (l.shared.clients key).map clientView, c.id = id.toNat) ↔
      ∃ rec, Clients.Attached calls rec ∧ rec.id = id := by
  constructor
  · rintro ⟨c, hc, hid⟩
    obtain ⟨snapshot, hsnapshot, rfl⟩ := List.mem_map.1 hc
    obtain ⟨x, hx, rfl⟩ := List.mem_map.1 hsnapshot
    obtain ⟨rec, hrec, rfl⟩ := hled.mem_list.1 hx
    exact ⟨rec, hrec, UInt64.toNat_inj.1 hid⟩
  · rintro ⟨rec, hrec, rfl⟩
    exact ⟨_, List.mem_map_of_mem (List.mem_map_of_mem (hled.mem_list.2 ⟨rec, hrec, rfl⟩)), rfl⟩

theorem list_kick (r : Clients.ClientRegistry) (id : UInt64) : (r.kick id).2.list = r.list := by
  unfold Clients.ClientRegistry.kick
  cases r.map.lookup id with
  | none => rfl
  | some rec => rfl

/-- Every registry is the one of some calls. -/
def Live.FromCalls (l : Live) (calls : ClientRegistryId → List Clients.Call) : Prop :=
  ∀ key, l.clients key = Clients.after (calls key) ∧ Clients.attaches (calls key) < 2 ^ 64

theorem kickClient_some {key : ClientRegistryId} (h : s.1.clientsOf session = some key) :
    kickClient session id s = (((s.2.clients key).kick id).1, (s.1,
      { s.2 with clients := Function.update s.2.clients key ((s.2.clients key).kick id).2 })) := by
  unfold kickClient
  rw [h]

theorem kickClient_none (h : s.1.clientsOf session = none) :
    kickClient session id s = (false, s) := by
  unfold kickClient
  rw [h]

/-- **A kick cancels one client, which the list has shown.**  The answer of `kick_client` tells
whether `list_clients` shows the number for that session; of all tokens in all registries only that
of the client becomes cancelled; the sessions are untouched, and no list changes until the client
has left. -/
theorem kick_client_one {calls : ClientRegistryId → List Clients.Call}
    (hcalls : s.2.FromCalls calls) (session : String) (id : UInt64) :
    ((kickClient session id s).1 = true ↔
      ∃ c ∈ listClients s.2.shared s.1.app session, c.id = id.toNat) ∧
    (∀ key token, ((kickClient session id s).2.2.clients key).isCancelled token = true ↔
      (s.2.clients key).isCancelled token = true ∨ s.1.clientsOf session = some key ∧
        ∃ rec, Clients.Attached (calls key) rec ∧ rec.id = id ∧ rec.kick = token) ∧
    (kickClient session id s).2.1 = s.1 ∧
    (∀ name, listClients (kickClient session id s).2.2.shared s.1.app name =
      listClients s.2.shared s.1.app name) ∧
    listSessions (kickClient session id s).2.2.shared s.1.app =
      listSessions s.2.shared s.1.app := by
  have hled := fun key => (hcalls key).1 ▸ Clients.ledger_run (calls key) (hcalls key).2
  cases hreg : s.1.clientsOf session with
  | none =>
      rw [kickClient_none hreg]
      refine ⟨⟨nofun, ?_⟩, fun key token => ?_, rfl, fun _ => rfl, rfl⟩
      · rintro ⟨c, hc, -⟩
        rw [listClients_eq, hreg] at hc
        cases hc
      · exact ⟨.inl, fun h => h.resolve_right fun h => nomatch h.1⟩
  | some key =>
      rw [kickClient_some hreg]
      have hlist : ∀ key', ((Function.update s.2.clients key ((s.2.clients key).kick id).2)
          key').list = (s.2.clients key').list := by
        intro key'
        by_cases hk : key' = key
        · rw [hk, Function.update_self, list_kick]
        · rw [Function.update_of_ne hk]
      have hshared : Live.shared { s.2 with
          clients := Function.update s.2.clients key ((s.2.clients key).kick id).2 } =
            s.2.shared := by
        unfold Live.shared
        simp only [hlist]
      refine ⟨?_, fun key' token => ?_, rfl, fun name => ?_, ?_⟩
      · rw [listClients_eq, hreg]
        exact ((hled key).kick_fst id).trans (listed_iff (hled key) id).symm
      · by_cases hk : key' = key
        · subst hk
          dsimp only
          rw [Function.update_self, (hled key').isCancelled_kick id token]
          exact or_congr_right (and_iff_right rfl).symm
        · dsimp only
          rw [Function.update_of_ne hk]
          refine ⟨.inl, fun h => h.resolve_right ?_⟩
          rintro ⟨hkey, -⟩
          exact hk (Option.some_inj.1 hkey).symm
      · rw [hshared]
      · rw [hshared]

/-- The registry of a running session after one client has come; all others are new. -/
def oneClient (key : ClientRegistryId) : List Clients.Call :=
  if key = 2 then [.attach "peer" 0] else []

/-- A running session with one client. -/
def servedSession : Api :=
  ((World.new defaultConfig "SHA256:" Fs.empty).insert "dev"
      { sshSession with sessionMgr := some (AList.insert "admin" ⟨"admin", "pass", 0, 1, 0, 2⟩ ∅) },
    ⟨fun _ => .running 0, fun key => Clients.after (oneClient key)⟩)

theorem kick_client_one_attached : (kickClient "dev" 1 servedSession).1 = true ∧
    ((kickClient "dev" 1 servedSession).2.2.clients 2).isCancelled 0 = true := by
  have hcalls : servedSession.2.FromCalls oneClient := by
    refine fun key => ⟨rfl, ?_⟩
    unfold oneClient
    split <;> decide
  obtain ⟨hkick, htoken, -⟩ := kick_client_one hcalls "dev" 1
  have hone : listClients servedSession.2.shared servedSession.1.app "dev" =
      [⟨1, "peer", 0, 0, 0⟩] := by decide
  refine ⟨hkick.2 ⟨⟨1, "peer", 0, 0, 0⟩, by rw [hone]; exact List.mem_singleton_self _, rfl⟩, ?_⟩
  refine (htoken 2 0).2 (.inr ⟨by decide, ⟨1, "peer", 0, 0, 1, 0⟩, ?_, rfl, rfl⟩)
  exact ⟨[], "peer", 0, [], rfl, rfl, List.not_mem_nil⟩

end Kick

end TermHub
