/-
**The documents of the HTTP API.**

What `termhub-app/src/api_server.rs` answers with and what `termhub-cli/src/main.rs` makes of it.
Every answer has one envelope; a call for data looks at the envelope alone, a call without data
looks at the status code first.  The command line reads a session but keeps the documents of its
status and of its upstream as they are, with their fields in order.

Main definitions:

* `SessionStatus.toValue`, `SessionView.toValue`, `ClientView.toValue`, `ServerInfo.toValue` — the
  documents of the views;
* `ApiServer.ok`, `ApiServer.err`, `ApiServer.mapErr` — the answers;
* `Cli.apiAnswer`, `Cli.checkUnitResponse` — what the command line takes from an answer;
* `Cli.SessionView`, `Cli.formatStatus`, `Cli.SessionRow` — the session as it is printed.

Main results:

* `Cli.apiAnswer_respond`, `Cli.checkUnitResponse_respond` — the answer of an operation arrives;
* `Cli.SessionView.fromValue_toValue` — a session is read as it was shown;
* `Cli.formatStatus_toValue` — **every status is printed**, never as an unknown one;
* `SessionStatus.text_injective` — **no two statuses look alike**.
-/

import TermHub.AppLogic
import TermHub.ConfigWire

set_option relaxedAutoImplicit false
set_option autoImplicit false

namespace TermHub

open Serde Members

/-! ### The documents of the views -/

/-- A `u64`, and a `usize`. -/
abbrev u64Bound : ℕ := 2 ^ 64

namespace SessionStatus

/-- The name of the variant, after `rename_all = "snake_case"`. -/
def tag : SessionStatus → String
  | idle => "idle"
  | starting => "starting"
  | running _ => "running"
  | reconnecting _ => "reconnecting"
  | failed _ => "failed"
  | stopped => "stopped"

/-- The fields of the variant. -/
def fields : SessionStatus → List (String × Value)
  | running uptimeSecs => [("uptime_secs", .int uptimeSecs)]
  | reconnecting attempt => [("attempt", .int attempt)]
  | failed reason => [("reason", .str reason)]
  | _ => []

/-- `Serialize` of `SessionStatus`. -/
def toValue (s : SessionStatus) : Value := .obj (("state", .str s.tag) :: s.fields)

/-- The numbers are of their types. -/
def Fits : SessionStatus → Prop
  | running uptimeSecs => uptimeSecs < u64Bound
  | reconnecting attempt => attempt < 2 ^ 32
  | _ => True

end SessionStatus

/-- `Serialize` of `SessionView`. -/
def SessionView.toValue (v : SessionView) : Value :=
  .obj [("name", .str v.name), ("ssh_user", .str v.sshUser), ("listen", .str v.listen),
    ("status", v.status.toValue), ("upstream_kind", .str v.upstreamKind),
    ("upstream_summary", .str v.upstreamSummary), ("upstream", v.upstream.toValue),
    ("auto_reconnect", .bool v.autoReconnect), ("client_count", .int v.clientCount)]

/-- `Serialize` of `ClientView`. -/
def ClientView.toValue (c : ClientView) : Value :=
  .obj [("id", .int c.id), ("remote", .str c.remote),
    ("connected_at_secs", .int c.connectedAtSecs), ("bytes_in", .int c.bytesIn),
    ("bytes_out", .int c.bytesOut)]

/-- The numbers are of their types. -/
structure ClientView.Fits (c : ClientView) : Prop where
  id : c.id < u64Bound
  connectedAtSecs : c.connectedAtSecs < u64Bound
  bytesIn : c.bytesIn < u64Bound
  bytesOut : c.bytesOut < u64Bound

/-- `Serialize` of `ServerInfo`. -/
def ServerInfo.toValue (i : ServerInfo) : Value := .obj [("host_key_fpr", .str i.hostKeyFpr)]

/-! ### The answers -/

/-- `Display` of `AppError`. -/
def AppError.text : AppError → String
  | notFound m => m
  | internal e => e

/-- `StatusCode`, with the reason that is shown next to its number. -/
structure StatusCode where
  code : ℕ
  reason : String
  deriving DecidableEq, Repr

namespace StatusCode

def ok : StatusCode := ⟨200, "OK"⟩

def notFound : StatusCode := ⟨404, "Not Found"⟩

def internalServerError : StatusCode := ⟨500, "Internal Server Error"⟩

/-- `StatusCode::is_success`. -/
def isSuccess (s : StatusCode) : Bool := decide (200 ≤ s.code ∧ s.code < 300)

/-- How a status code is shown. -/
def text (s : StatusCode) : String := toString s.code ++ " " ++ s.reason

end StatusCode

/-- What an answer carries: nothing, a JSON document, or a text that is none. -/
inductive Body
  | empty
  | json (v : Value)
  | text (s : String)

/-- An answer to a request. -/
structure Response where
  status : StatusCode
  body : Body

namespace ApiServer

/-- `Serialize` of `ApiResponse`, which leaves out what is `None`. -/
def apiResponse (ok : Bool) (data : Option Value) (error : Option String) : Value :=
  .obj (("ok", .bool ok) :: (data.toList.map fun d => ("data", d)) ++
    error.toList.map fun m => ("error", .str m))

/-- `ok`. -/
def ok (data : Value) : Response := ⟨.ok, .json (apiResponse true (some data) none)⟩

/-- `err`. -/
def err (status : StatusCode) (msg : String) : Response :=
  ⟨status, .json (apiResponse false none (some msg))⟩

/-- `map_err`. -/
def mapErr : AppError → Response
  | .notFound m => err .notFound m
  | .internal e => err .internalServerError e

/-- The status code of an error. -/
def status : AppError → StatusCode
  | .notFound _ => .notFound
  | .internal _ => .internalServerError

/-- The answer to a request that an operation has served. -/
def respond : Except AppError Value → Response
  | .ok data => ok data
  | .error e => mapErr e

/-- An operation without a value is answered by `null`. -/
def respondUnit (r : Except AppError Unit) : Response := respond (r.map fun _ => .null)

end ApiServer

/-! ### What the command line reads -/

namespace Cli

/-- How a subcommand fails: with a message of its own, or because an answer cannot be read. -/
inductive Failure
  | message (m : String)
  | unreadable
  deriving DecidableEq, Repr

/-- `Deserialize` of `ApiResponse`: whether it is ok, its data, and its error. -/
def apiResponse {α : Type} (read : Value → Option α) (v : Value) :
    Option (Bool × Option α × Option String) := do
  let m ← v.members ["ok", "data", "error"]
  return (← m.required "ok" Value.asBool, ← m.optional "data" read,
    ← m.optional "error" Value.asStr)

/-- What `api_get` and `api_post` take from the answer. -/
def apiAnswer {α : Type} (read : Value → Option α) (r : Response) : Except Failure α :=
  match r.body with
  | .json v =>
    match apiResponse read v with
    | none => .error .unreadable
    | some (ok, data, error) =>
      if ok then
        match data with
        | some x => .ok x
        | none => .error (.message "API returned ok=true but no data")
      else .error (.message (error.getD "unknown error"))
  | _ => .error .unreadable

/-- The text under `error` of a document. -/
def errorText (v : Value) : String := ((v.get "error").bind Value.asStr).getD "unknown error"

/-- `check_unit_response`. -/
def checkUnitResponse (r : Response) : Except Failure Unit :=
  if r.status.isSuccess then
    match r.body with
    | .empty => .ok ()
    | .text _ => .error .unreadable
    | .json v =>
      if ((v.sorted.get "ok").bind Value.asBool).getD false then .ok ()
      else .error (.message (errorText v.sorted))
  else
    match r.body with
    | .json v => .error (.message ("HTTP " ++ r.status.text ++ ": " ++ errorText v.sorted))
    | .text s => .error (.message ("HTTP " ++ r.status.text ++ ": " ++ s))
    | .empty => .error (.message ("HTTP " ++ r.status.text ++ ": "))

/-- `SessionView` of the command line, which keeps two of the documents. -/
structure SessionView where
  name : String
  sshUser : String
  listen : String
  status : Value
  upstreamKind : String
  upstreamSummary : String
  upstream : Value
  autoReconnect : Bool
  clientCount : ℕ

namespace SessionView

/-- The names of the fields. -/
def names : List String :=
  ["name", "ssh_user", "listen", "status", "upstream_kind", "upstream_summary", "upstream",
    "auto_reconnect", "client_count"]

/-- `Deserialize` of `SessionView`. -/
def fromValue (v : Value) : Option SessionView := do
  let m ← v.members names
  return {
    name := ← m.required "name" Value.asStr
    sshUser := ← m.required "ssh_user" Value.asStr
    listen := ← m.required "listen" Value.asStr
    status := ← m.required "status" fun v => some v.sorted
    upstreamKind := ← m.required "upstream_kind" Value.asStr
    upstreamSummary := ← m.required "upstream_summary" Value.asStr
    upstream := ← m.required "upstream" fun v => some v.sorted
    autoReconnect := ← m.required "auto_reconnect" Value.asBool
    clientCount := ← m.required "client_count" (Value.asNat u64Bound) }

/-- `Serialize` of `SessionView`. -/
def toValue (s : SessionView) : Value :=
  .obj [("name", .str s.name), ("ssh_user", .str s.sshUser), ("listen", .str s.listen),
    ("status", s.status), ("upstream_kind", .str s.upstreamKind),
    ("upstream_summary", .str s.upstreamSummary), ("upstream", s.upstream),
    ("auto_reconnect", .bool s.autoReconnect), ("client_count", .int s.clientCount)]

end SessionView

/-- `Deserialize` of `ClientView`. -/
def readClient (v : Value) : Option ClientView := do
  let m ← v.members ["id", "remote", "connected_at_secs", "bytes_in", "bytes_out"]
  return {
    id := ← m.required "id" (Value.asNat u64Bound)
    remote := ← m.required "remote" Value.asStr
    connectedAtSecs := ← m.required "connected_at_secs" (Value.asNat u64Bound)
    bytesIn := ← m.required "bytes_in" (Value.asNat u64Bound)
    bytesOut := ← m.required "bytes_out" (Value.asNat u64Bound) }

/-- `Deserialize` of `ServerInfo`. -/
def readInfo (v : Value) : Option ServerInfo := do
  let m ← v.members ["host_key_fpr"]
  return ⟨← m.required "host_key_fpr" Value.asStr⟩

/-! ### What the command line prints -/

/-- `format_status`; `debug` is what `{:?}` makes of a state that is not known. -/
def formatStatus (debug : Option String → String) (v : Value) : String :=
  match (v.get "state").bind Value.asStr with
  | some "idle" => "idle"
  | some "starting" => "starting"
  | some "running" =>
    let secs := ((v.get "uptime_secs").bind (Value.asNat u64Bound)).getD 0
    "running (" ++ toString secs ++ "s)"
  | some "reconnecting" =>
    let n := ((v.get "attempt").bind (Value.asNat u64Bound)).getD 0
    "reconnecting #" ++ toString n
  | some "failed" =>
    let reason := ((v.get "reason").bind Value.asStr).getD "unknown"
    "failed: " ++ reason
  | some "stopped" => "stopped"
  | other => debug other

/-- `SessionRow`. -/
structure SessionRow where
  name : String
  sshUser : String
  listen : String
  status : String
  upstream : String
  autoReconnect : String
  clients : ℕ
  deriving DecidableEq, Repr

/-- The row of a session. -/
def sessionRow (debug : Option String → String) (s : SessionView) : SessionRow where
  name := s.name
  sshUser := s.sshUser
  listen := s.listen
  status := formatStatus debug s.status
  upstream := s.upstreamKind ++ " (" ++ s.upstreamSummary ++ ")"
  autoReconnect := if s.autoReconnect then "yes" else "no"
  clients := s.clientCount

/-! ### What arrives -/

/-- The fields of an object that has these and no others. -/
theorem members_self (names : List String) (fs : List (String × Value))
    (hfs : fs.map Prod.fst = names) (hn : names.Nodup) :
    (Value.obj fs).members names = some (leaving [] fs) :=
  members_omit [] fs (known_perm fun _ hkv => hfs ▸ List.mem_map_of_mem hkv) (hfs.symm ▸ hn)

/-- The failure of a call without data, when its operation fails. -/
def httpError (e : AppError) : Failure :=
  .message ("HTTP " ++ (ApiServer.status e).text ++ ": " ++ e.text)

/-- **The answer of an operation arrives** at a call for data: its data, or its error. -/
theorem apiAnswer_respond {α : Type} {read : Value → Option α} (r : Except AppError Value)
    {x : Value → α} (hread : ∀ data, r = .ok data → data.asOption read = some (some (x data))) :
    apiAnswer read (ApiServer.respond r) =
      (r.map x).mapError fun e => .message e.text := by
  cases r with
  | ok data =>
      have hm : apiResponse read (ApiServer.apiResponse true (some data) none) =
          some (true, some (x data), none) := by
        change (do
          return (← some true, ← data.asOption read, ← some none)) =
            some (true, some (x data), none)
        rw [hread data rfl]
        rfl
      change (match apiResponse read (ApiServer.apiResponse true (some data) none) with
        | none => _
        | some (ok, data, error) => _) = _
      rw [hm]
      rfl
  | error e => cases e <;> rfl

/-- **The answer of an operation arrives** at a call without data; an error comes with the status
code. -/
theorem checkUnitResponse_respond (r : Except AppError Unit) :
    checkUnitResponse (ApiServer.respondUnit r) = r.mapError httpError := by
  cases r with
  | ok u => rfl
  | error e => cases e <;> rfl

/-! ### Sessions as they are printed -/

/-- The session as the command line has it. -/
def SessionView.of (v : TermHub.SessionView) : SessionView where
  name := v.name
  sshUser := v.sshUser
  listen := v.listen
  status := v.status.toValue.sorted
  upstreamKind := v.upstreamKind
  upstreamSummary := v.upstreamSummary
  upstream := v.upstream.toValue.sorted
  autoReconnect := v.autoReconnect
  clientCount := v.clientCount

/-- **A session is read as it was shown.** -/
theorem SessionView.fromValue_toValue (v : TermHub.SessionView) (h : v.clientCount < u64Bound) :
    fromValue v.toValue = some (of v) := by
  have hm := members_self names [("name", .str v.name), ("ssh_user", .str v.sshUser),
    ("listen", .str v.listen), ("status", v.status.toValue),
    ("upstream_kind", .str v.upstreamKind), ("upstream_summary", .str v.upstreamSummary),
    ("upstream", v.upstream.toValue), ("auto_reconnect", .bool v.autoReconnect),
    ("client_count", .int v.clientCount)] rfl (by decide)
  have hn {key : String} : key ∉ ([] : List String) := List.not_mem_nil
  rw [fromValue, TermHub.SessionView.toValue, hm, Option.bind_eq_bind, Option.bind_some,
    required_leaving "name" Value.asStr hn rfl (Value.asStr_str _),
    required_leaving "ssh_user" Value.asStr hn rfl (Value.asStr_str _),
    required_leaving "listen" Value.asStr hn rfl (Value.asStr_str _),
    required_leaving "status" (fun v => some v.sorted) hn rfl rfl,
    required_leaving "upstream_kind" Value.asStr hn rfl (Value.asStr_str _),
    required_leaving "upstream_summary" Value.asStr hn rfl (Value.asStr_str _),
    required_leaving "upstream" (fun v => some v.sorted) hn rfl rfl,
    required_leaving "auto_reconnect" Value.asBool hn rfl (Value.asBool_bool _),
    required_leaving "client_count" (Value.asNat u64Bound) hn rfl (Value.asNat_int h)]
  rfl

theorem readClient_toValue (c : ClientView) (h : c.Fits) : readClient c.toValue = some c := by
  have hm := members_self ["id", "remote", "connected_at_secs", "bytes_in", "bytes_out"]
    [("id", .int c.id), ("remote", .str c.remote),
      ("connected_at_secs", .int c.connectedAtSecs), ("bytes_in", .int c.bytesIn),
      ("bytes_out", .int c.bytesOut)] rfl (by decide)
  have hn {key : String} : key ∉ ([] : List String) := List.not_mem_nil
  rw [readClient, ClientView.toValue, hm, Option.bind_eq_bind, Option.bind_some,
    required_leaving "id" (Value.asNat u64Bound) hn rfl (Value.asNat_int h.id),
    required_leaving "remote" Value.asStr hn rfl (Value.asStr_str _),
    required_leaving "connected_at_secs" (Value.asNat u64Bound) hn rfl
      (Value.asNat_int h.connectedAtSecs),
    required_leaving "bytes_in" (Value.asNat u64Bound) hn rfl (Value.asNat_int h.bytesIn),
    required_leaving "bytes_out" (Value.asNat u64Bound) hn rfl (Value.asNat_int h.bytesOut)]
  rfl

theorem readInfo_toValue (i : ServerInfo) : readInfo i.toValue = some i := by
  have hm := members_self ["host_key_fpr"] [("host_key_fpr", .str i.hostKeyFpr)] rfl (by decide)
  rw [readInfo, ServerInfo.toValue, hm, Option.bind_eq_bind, Option.bind_some,
    required_leaving "host_key_fpr" Value.asStr List.not_mem_nil rfl (Value.asStr_str _)]
  rfl

end Cli

namespace SessionStatus

/-- What is printed of a status. -/
def text : SessionStatus → String
  | idle => "idle"
  | starting => "starting"
  | running uptimeSecs => "running (" ++ toString uptimeSecs ++ "s)"
  | reconnecting attempt => "reconnecting #" ++ toString attempt
  | failed reason => "failed: " ++ reason
  | stopped => "stopped"

/-- Different numbers have different digits. -/
theorem toDigits_injective {m n : ℕ} (h : Nat.toDigits 10 m = Nat.toDigits 10 n) : m = n := by
  have hv := congrArg (fun l => Nat.ofDigitChars 10 l 0) h
  rwa [Nat.ofDigitChars_toDigits (by decide) (by decide),
    Nat.ofDigitChars_toDigits (by decide) (by decide)] at hv

/-- **No two statuses look alike.** -/
theorem text_injective : Function.Injective text := by
  intro s t h
  have hl := congrArg String.toList h
  -- the variants differ in what they begin with
  cases s with
  | idle | starting | stopped => cases t <;> first | rfl | simp [text] at hl
  | running m =>
      cases t with
      | running n => exact congrArg running (toDigits_injective (by simpa [text] using hl))
      | _ => simp [text] at hl
  | reconnecting m =>
      cases t with
      | reconnecting n =>
          exact congrArg reconnecting (toDigits_injective (by simpa [text] using hl))
      | _ => simp [text] at hl
  | failed reason =>
      cases t with
      | failed reason' => exact congrArg failed (by simpa [text] using h)
      | _ => simp [text] at hl

end SessionStatus

namespace Cli

/-- **Every status is printed**, and never as an unknown one. -/
theorem formatStatus_toValue (debug : Option String → String) {s : SessionStatus} (h : s.Fits) :
    formatStatus debug s.toValue.sorted = s.text := by
  cases s with
  | running uptimeSecs =>
      change "running (" ++ toString (((Value.int uptimeSecs).asNat u64Bound).getD 0) ++ "s)" = _
      rw [Value.asNat_int h]
      rfl
  | reconnecting attempt =>
      have hlt : attempt < u64Bound := lt_trans h (by decide)
      change "reconnecting #" ++ toString (((Value.int attempt).asNat u64Bound).getD 0) = _
      rw [Value.asNat_int hlt]
      rfl
  | _ => rfl

end Cli

end TermHub
