/-
**The requests of the command line reach their operations.**

`termhub-cli/src/main.rs` splices session names into request paths; `api_router` of
`termhub-app/src/api_server.rs` takes the paths apart again.  A name arrives exactly if it is a
plain segment, and there is one subcommand that no route answers.

Main definitions:

* `Handler`, `apiRouter`, `dispatch` — the routes, and the operation that a request is given to;
* `CliCommand`, `CliCommand.requests`, `CliCommand.operations` — the requests that a subcommand
  makes, and the operations they are meant for;
* `CliCommand.Plain` — what the names of a subcommand must be like.

Main results:

* `dispatch_session_iff` — a request that names a session arrives exactly if the name is plain;
* `cliReaches_iff` — **a subcommand reaches its operations exactly if** its session name is plain,
  and it is not `server listen`.
-/

import TermHub.Config
import TermHub.Http
import Mathlib.Algebra.Group.Nat.Defs

set_option relaxedAutoImplicit false
set_option autoImplicit false

namespace TermHub

open Http

/-! ### The routes -/

/-- The handlers of the HTTP API. -/
inductive Handler
  | listSessions | createSession | updateSession | deleteSession | stopSession | restartSession
  | listClients | kickClient | getServerInfo | listSerialPorts
  deriving DecidableEq, Repr

/-- An operation of the API with what it takes from the path. -/
inductive Operation
  | listSessions
  | createSession
  | updateSession (name : String)
  | deleteSession (name : String)
  | stopSession (name : String)
  | restartSession (name : String)
  | listClients (name : String)
  | kickClient (session : String) (id : UInt64)
  | getServerInfo
  | listSerialPorts
  /-- Change the listen address of the server; there is no handler for it. -/
  | setServerListen
  deriving DecidableEq, Repr

/-- `api_router`. -/
def apiRouter : List (Route Handler) :=
  [⟨[.lit "api", .lit "sessions"], [(.get, .listSessions), (.post, .createSession)]⟩,
    ⟨[.lit "api", .lit "sessions", .param], [(.put, .updateSession), (.delete, .deleteSession)]⟩,
    ⟨[.lit "api", .lit "sessions", .param, .lit "stop"], [(.post, .stopSession)]⟩,
    ⟨[.lit "api", .lit "sessions", .param, .lit "restart"], [(.post, .restartSession)]⟩,
    ⟨[.lit "api", .lit "sessions", .param, .lit "clients"], [(.get, .listClients)]⟩,
    ⟨[.lit "api", .lit "sessions", .param, .lit "clients", .param, .lit "kick"],
      [(.post, .kickClient)]⟩,
    ⟨[.lit "api", .lit "server"], [(.get, .getServerInfo)]⟩,
    ⟨[.lit "api", .lit "serial-ports"], [(.get, .listSerialPorts)]⟩]

/-- What stands behind a plus sign, if there is one. -/
def unsigned (l : List Char) : List Char := if l.head? = some '+' then l.tail else l

/-- `u64::from_str`: digits, perhaps after a plus sign. -/
def parseU64 (s : String) : Option UInt64 :=
  let digits := unsigned s.toList
  if digits ≠ [] ∧ digits.all Char.isDigit ∧ Nat.ofDigitChars 10 digits 0 < 2 ^ 64 then
    some (UInt64.ofNat (Nat.ofDigitChars 10 digits 0))
  else none

/-- The `Path` extractors of the handlers. -/
def Handler.extract : Handler → List (List Char) → Option Operation
  | .listSessions, _ => some .listSessions
  | .createSession, _ => some .createSession
  | .updateSession, [s] => (percentDecode s).map .updateSession
  | .deleteSession, [s] => (percentDecode s).map .deleteSession
  | .stopSession, [s] => (percentDecode s).map .stopSession
  | .restartSession, [s] => (percentDecode s).map .restartSession
  | .listClients, [s] => (percentDecode s).map .listClients
  | .kickClient, [s, i] => do
    let session ← percentDecode s
    let id ← (percentDecode i).bind parseU64
    return .kickClient session id
  | .getServerInfo, _ => some .getServerInfo
  | .listSerialPorts, _ => some .listSerialPorts
  | _, _ => none

/-- The operation that a request is given to, if it is given to one. -/
def dispatch (m : Method) (path : String) : Option Operation :=
  (lookup apiRouter m (segments path.toList)).bind fun p => p.1.extract p.2

/-! ### The subcommands -/

/-- The subcommands, with the arguments that go into the paths of their requests. -/
inductive CliCommand
  | sessionList
  | sessionCreate (config : SessionConfig)
  | sessionStop (name : String)
  | sessionRestart (name : String)
  | sessionDelete (name : String)
  | sessionUpdate (name : String)
  | clientList (session : String)
  | clientKick (session : String) (id : UInt64)
  | serverInfo
  | serverListen (addr : String)
  | serialPorts
  deriving DecidableEq, Repr

/-- The path of a request that names a session. -/
def sessionPath (name rest : String) : String := "/api/sessions/" ++ name ++ rest

/-- The requests that `main` makes for a subcommand. -/
def CliCommand.requests : CliCommand → List (Method × String)
  | .sessionList => [(.get, "/api/sessions")]
  | .sessionCreate _ => [(.post, "/api/sessions")]
  | .sessionStop name => [(.post, sessionPath name "/stop")]
  | .sessionRestart name => [(.post, sessionPath name "/restart")]
  | .sessionDelete name => [(.delete, sessionPath name "")]
  -- the present session is read before it is written
  | .sessionUpdate name => [(.get, "/api/sessions"), (.put, sessionPath name "")]
  | .clientList session => [(.get, sessionPath session "/clients")]
  | .clientKick session id =>
    [(.post, sessionPath session ("/clients/" ++ toString id ++ "/kick"))]
  | .serverInfo => [(.get, "/api/server")]
  | .serverListen _ => [(.put, "/api/server/listen")]
  | .serialPorts => [(.get, "/api/serial-ports")]

/-- The operations that the requests of a subcommand are meant for. -/
def CliCommand.operations : CliCommand → List Operation
  | .sessionList => [.listSessions]
  | .sessionCreate _ => [.createSession]
  | .sessionStop name => [.stopSession name]
  | .sessionRestart name => [.restartSession name]
  | .sessionDelete name => [.deleteSession name]
  | .sessionUpdate name => [.listSessions, .updateSession name]
  | .clientList session => [.listClients session]
  | .clientKick session id => [.kickClient session id]
  | .serverInfo => [.getServerInfo]
  | .serverListen _ => [.setServerListen]
  | .serialPorts => [.listSerialPorts]

/-- Each request of the subcommand is given to the operation it is meant for. -/
def CliCommand.Reaches (c : CliCommand) : Prop :=
  c.requests.map (fun r => dispatch r.1 r.2) = c.operations.map some

/-- There is a route for the subcommand, and a session name in it is a plain segment.  Where the
name is the end of the request path, the end of the name is kept, too. -/
def CliCommand.Plain : CliCommand → Prop
  | .sessionStop name | .sessionRestart name | .clientList name | .clientKick name _ =>
    Http.Plain name.toList
  | .sessionDelete name | .sessionUpdate name => Http.Plain name.toList ∧ EndsPlain name.toList
  | .serverListen _ => False
  | _ => True

/-! ### Numbers -/

theorem toList_toString (id : UInt64) : (toString id).toList = Nat.toDigits 10 id.toNat := by
  change (toString id.toNat).toList = _
  rw [Nat.toString_eq_ofList_toDigits, String.toList_ofList]

theorem isDigit_toString (id : UInt64) : ∀ c ∈ (toString id).toList, c.isDigit = true := by
  rw [toList_toString]
  exact fun c hc => Nat.isDigit_of_mem_toDigits (by decide) (by decide) hc

/-- **A number is read back.** -/
theorem parseU64_toString (id : UInt64) : parseU64 (toString id) = some id := by
  have hne : (toString id).toList ≠ [] := by
    rw [toList_toString]
    exact Nat.toDigits_ne_nil
  have hplus : unsigned (toString id).toList = (toString id).toList :=
    if_neg fun h => absurd (isDigit_toString id '+' (List.mem_of_head? h)) (by decide)
  have hval : Nat.ofDigitChars 10 (toString id).toList 0 = id.toNat := by
    rw [toList_toString, Nat.ofDigitChars_toDigits (by decide) (by decide)]
  unfold parseU64
  rw [hplus, if_pos ⟨hne, List.all_eq_true.2 (isDigit_toString id), hval ▸ id.toNat_lt⟩, hval,
    UInt64.ofNat_toNat]

theorem length_unsigned_le (l : List Char) : (unsigned l).length ≤ l.length := by
  unfold unsigned
  split
  · rw [List.length_tail]
    exact Nat.sub_le _ _
  · exact le_rfl

theorem ofDigitChars_lt {l : List Char} (h : ∀ c ∈ l, c.isDigit = true) :
    Nat.ofDigitChars 10 l 0 < 10 ^ l.length := by
  induction l using List.reverseRecOn with
  | nil => decide
  | append_singleton l c ih =>
      have hc : c.toNat - '0'.toNat < 10 := by
        have hd := h c (by simp)
        rw [Char.isDigit, Bool.and_eq_true, decide_eq_true_eq, decide_eq_true_eq] at hd
        have hle : c.toNat ≤ '9'.toNat := hd.2
        have h9 : '9'.toNat = 57 := rfl
        have h0 : '0'.toNat = 48 := rfl
        omega
      have hl := ih fun d hd => h d (List.mem_append_left _ hd)
      rw [Nat.ofDigitChars_append, Nat.ofDigitChars_cons, Nat.ofDigitChars_nil, List.length_append,
        List.length_singleton, Nat.pow_succ]
      omega

/-- Digits without a leading zero are the shortest way to write a number. -/
theorem length_toString_le {s : String} {id : UInt64} (h : parseU64 s = some id) :
    (toString id).toList.length ≤ s.toList.length := by
  unfold parseU64 at h
  dsimp only at h
  split at h
  · rename_i hd
    obtain ⟨hne, hall, hlt⟩ := hd
    have hval : id.toNat = Nat.ofDigitChars 10 (unsigned s.toList) 0 := by
      rw [← Option.some_inj.1 h]
      exact UInt64.toNat_ofNat_of_lt' hlt
    have hbound := ofDigitChars_lt (List.all_eq_true.1 hall)
    rw [toList_toString]
    refine le_trans ?_ (length_unsigned_le s.toList)
    rw [Nat.length_toDigits_le_iff (by decide) (List.length_pos_iff.2 hne), hval]
    exact hbound
  · cases h

/-! ### Requests that name a session -/

/-- The requests that name one session and nothing else. -/
inductive SessionRequest
  | update | delete | stop | restart | clients
  deriving DecidableEq, Repr

namespace SessionRequest

/-- The method of the request. -/
def method : SessionRequest → Method
  | update => .put
  | delete => .delete
  | stop | restart => .post
  | clients => .get

/-- What comes behind the name. -/
def rest : SessionRequest → List String
  | update | delete => []
  | stop => ["stop"]
  | restart => ["restart"]
  | clients => ["clients"]

/-- The handler that takes the request. -/
def handler : SessionRequest → Handler
  | update => .updateSession
  | delete => .deleteSession
  | stop => .stopSession
  | restart => .restartSession
  | clients => .listClients

/-- What the request is meant for. -/
def operation (name : String) : SessionRequest → Operation
  | update => .updateSession name
  | delete => .deleteSession name
  | stop => .stopSession name
  | restart => .restartSession name
  | clients => .listClients name

/-- The segments behind the name. -/
def tail (q : SessionRequest) : List (List Char) := q.rest.map String.toList

/-- The pattern of its route. -/
def pattern (q : SessionRequest) : List Pattern :=
  [.lit "api", .lit "sessions", .param] ++ q.rest.map .lit

/-- The path of the request. -/
def path (q : SessionRequest) (name : String) : String :=
  sessionPath name (String.ofList (join q.tail))

end SessionRequest

theorem toList_sessionPath (name : String) (tail : List (List Char)) :
    (sessionPath name (String.ofList (join tail))).toList =
      join (["api".toList, "sessions".toList] ++ name.toList :: tail) := by
  have hroot : "/api/sessions/".toList = join ["api".toList, "sessions".toList] ++ ['/'] := by
    decide
  have htail : (String.ofList (join tail)).toList = join tail := String.toList_ofList
  change ("/api/sessions/" ++ name ++ String.ofList (join tail)).toList = _
  rw [String.toList_append, String.toList_append, hroot, htail, join_append, join_cons,
    List.append_assoc, List.append_assoc]
  rfl

theorem dispatch_eq_some {m : Method} {path : String} {op : Operation} :
    dispatch m path = some op ↔
      ∃ h cs, lookup apiRouter m (segments path.toList) = some (h, cs) ∧
        h.extract cs = some op := by
  unfold dispatch
  rw [Option.bind_eq_some_iff]
  exact Prod.exists

/-- What the extractors let through: the handlers without parameters take every path of theirs, and
the segments of the other ones are decoded. -/
inductive Extracted : Handler → List (List Char) → Operation → Prop
  | listSessions (cs : List (List Char)) : Extracted .listSessions cs .listSessions
  | createSession (cs : List (List Char)) : Extracted .createSession cs .createSession
  | getServerInfo (cs : List (List Char)) : Extracted .getServerInfo cs .getServerInfo
  | listSerialPorts (cs : List (List Char)) : Extracted .listSerialPorts cs .listSerialPorts
  | named (q : SessionRequest) {s : List Char} {name : String}
      (hs : percentDecode s = some name) : Extracted q.handler [s] (q.operation name)
  | kick {s i : List Char} {session : String} {id : UInt64} (hs : percentDecode s = some session)
      (hi : (percentDecode i).bind parseU64 = some id) :
      Extracted .kickClient [s, i] (.kickClient session id)

theorem extract_extracted {h : Handler} {cs : List (List Char)} {op : Operation}
    (hx : h.extract cs = some op) : Extracted h cs op := by
  have named : ∀ (q : SessionRequest) (s : List Char),
      (percentDecode s).map q.operation = some op → Extracted q.handler [s] op := by
    intro q s hx
    obtain ⟨name, hs, rfl⟩ := Option.map_eq_some_iff.1 hx
    exact .named q hs
  unfold Handler.extract at hx
  split at hx
  · exact Option.some_inj.1 hx ▸ .listSessions cs
  · exact Option.some_inj.1 hx ▸ .createSession cs
  · exact named .update _ hx
  · exact named .delete _ hx
  · exact named .stop _ hx
  · exact named .restart _ hx
  · exact named .clients _ hx
  · obtain ⟨session, hs, hx⟩ := Option.bind_eq_some_iff.1 hx
    obtain ⟨id, hi, hx⟩ := Option.bind_eq_some_iff.1 hx
    exact Option.some_inj.1 hx ▸ .kick hs hi
  · exact Option.some_inj.1 hx ▸ .getServerInfo cs
  · exact Option.some_inj.1 hx ▸ .listSerialPorts cs
  · cases hx

theorem extract_operation (q : SessionRequest) {h : Handler} {cs : List (List Char)}
    {name : String} (hx : h.extract cs = some (q.operation name)) :
    h = q.handler ∧ ∃ s, cs = [s] ∧ percentDecode s = some name := by
  generalize hop : q.operation name = op at hx
  cases extract_extracted hx with
  | named q' hs =>
      -- a request is told by the operation it is meant for
      cases q <;> cases q' <;> cases hop <;> exact ⟨rfl, _, rfl, hs⟩
  | _ => cases q <;> cases hop

theorem extract_kick {h : Handler} {cs : List (List Char)} {session : String} {id : UInt64}
    (hx : h.extract cs = some (.kickClient session id)) :
    h = .kickClient ∧ ∃ s i, cs = [s, i] ∧ percentDecode s = some session ∧
      (percentDecode i).bind parseU64 = some id := by
  generalize hop : Operation.kickClient session id = op at hx
  cases extract_extracted hx with
  | named q hs => cases q <;> cases hop
  | kick hs hi =>
      cases hop
      exact ⟨rfl, _, _, rfl, hs, hi⟩
  | _ => cases hop

/-- Each handler has one route. -/
theorem route_of_handler (q : SessionRequest) (m : Method) :
    ∀ r ∈ apiRouter, r.handlers.lookup m = some q.handler → r.path = q.pattern := by
  cases q <;> cases m <;> decide

theorem fill_pattern (q : SessionRequest) (s : List Char) :
    fill q.pattern [s] = ["api".toList, "sessions".toList] ++ s :: q.tail := by
  cases q <;> rfl

/-- The requests that a handler gets which takes one name. -/
theorem dispatch_operation_iff (q : SessionRequest) {path name : String} :
    dispatch q.method path = some (q.operation name) ↔
      ∃ s, segments path.toList = ["api".toList, "sessions".toList] ++ s :: q.tail ∧ s ≠ [] ∧
        percentDecode s = some name := by
  rw [dispatch_eq_some]
  constructor
  · rintro ⟨h, cs, hl, hx⟩
    obtain ⟨r, hr, hm, hss, hne⟩ := lookup_some hl
    obtain ⟨rfl, s, rfl, hd⟩ := extract_operation q hx
    rw [route_of_handler q _ r hr hm, fill_pattern] at hss
    exact ⟨s, hss, hne s (List.mem_singleton_self s), hd⟩
  · rintro ⟨s, hss, hne, hd⟩
    obtain ⟨c, s, rfl⟩ := List.exists_cons_of_ne_nil hne
    refine ⟨q.handler, [c :: s], ?_, ?_⟩
    · rw [hss]
      cases q <;> rfl
    · cases q <;> simp [Handler.extract, hd, SessionRequest.handler, SessionRequest.operation]

theorem plain_tail (q : SessionRequest) : ∀ s ∈ q.tail, Http.Plain s := by
  cases q <;> decide

theorem plain_api : ∀ s ∈ ["api".toList, "sessions".toList], Http.Plain s := by decide

/-- **A request that names a session arrives exactly if the name is plain.** -/
theorem dispatch_session_iff (q : SessionRequest) (name : String) :
    dispatch q.method (q.path name) = some (q.operation name) ↔
      Http.Plain name.toList ∧ (q.rest = [] → EndsPlain name.toList) := by
  have htail : q.tail = [] ↔ q.rest = [] := List.map_eq_nil_iff
  rw [dispatch_operation_iff, SessionRequest.path, toList_sessionPath]
  constructor
  · rintro ⟨s, hss, hne, hd⟩
    rw [← htail]
    exact plain_of_segments hss le_rfl hne hd
  · rintro ⟨hplain, hend⟩
    refine ⟨name.toList, segments_join ?_ ?_, hplain.ne_nil, ?_⟩
    · intro s hs
      rcases List.mem_append.1 hs with hs | hs
      · exact plain_api s hs
      · rcases List.mem_cons.1 hs with rfl | hs
        · exact hplain
        · exact plain_tail q s hs
    · cases q with
      | update => exact (endsPlain_join hplain.ne_nil).2 (hend rfl)
      | delete => exact (endsPlain_join hplain.ne_nil).2 (hend rfl)
      | stop =>
          exact (endsPlain_join (A := ["api".toList, "sessions".toList, name.toList])
            (by decide)).2 (by decide)
      | restart =>
          exact (endsPlain_join (A := ["api".toList, "sessions".toList, name.toList])
            (by decide)).2 (by decide)
      | clients =>
          exact (endsPlain_join (A := ["api".toList, "sessions".toList, name.toList])
            (by decide)).2 (by decide)
    · rw [percentDecode_of_not_hasEscape hplain.escape, String.ofList_toList]

/-! ### The request that names a client -/

/-- The segments behind the session name, when the client is written as `i`. -/
def kickTail (i : List Char) : List (List Char) := ["clients".toList, i, "kick".toList]

/-- The requests that `kick_client` gets. -/
theorem dispatch_kick_iff {path session : String} {id : UInt64} :
    dispatch .post path = some (.kickClient session id) ↔
      ∃ s i, segments path.toList = ["api".toList, "sessions".toList] ++ s :: kickTail i ∧
        s ≠ [] ∧ i ≠ [] ∧ percentDecode s = some session ∧
        (percentDecode i).bind parseU64 = some id := by
  rw [dispatch_eq_some]
  constructor
  · rintro ⟨h, cs, hl, hx⟩
    obtain ⟨r, hr, hm, hss, hne⟩ := lookup_some hl
    obtain ⟨rfl, s, i, rfl, hs, hi⟩ := extract_kick hx
    have hpath : ∀ r ∈ apiRouter, r.handlers.lookup .post = some .kickClient →
        r.path = [.lit "api", .lit "sessions", .param, .lit "clients", .param, .lit "kick"] := by
      decide
    rw [hpath r hr hm] at hss
    exact ⟨s, i, hss, hne s (by simp), hne i (by simp), hs, hi⟩
  · rintro ⟨s, i, hss, hs, hi, hds, hdi⟩
    obtain ⟨c, s, rfl⟩ := List.exists_cons_of_ne_nil hs
    obtain ⟨d, i, rfl⟩ := List.exists_cons_of_ne_nil hi
    refine ⟨.kickClient, [c :: s, d :: i], ?_, ?_⟩
    · rw [hss]
      rfl
    · rw [Handler.extract, hds, hdi]
      rfl

/-- A text has at least as many bytes as characters; digits have as many. -/
theorem length_le_size (l : List Char) : l.length ≤ size l := by
  induction l with
  | nil => exact le_rfl
  | cons c l ih =>
      have hc := Char.utf8Size_pos c
      rw [size_cons, List.length_cons]
      omega

theorem size_of_digits {l : List Char} (h : ∀ c ∈ l, c.isDigit = true) : size l = l.length := by
  induction l with
  | nil => rfl
  | cons c l ih =>
      have hc : c.utf8Size = 1 := by
        have hd := h c List.mem_cons_self
        rw [Char.isDigit, Bool.and_eq_true, decide_eq_true_eq, decide_eq_true_eq] at hd
        exact if_pos (UInt32.le_trans hd.2 (by decide))
      rw [size_cons, List.length_cons, hc, ih fun d hd => h d (List.mem_cons_of_mem _ hd),
        Nat.add_comm]

/-- **A kick arrives exactly if the session name is plain.** -/
theorem dispatch_kick_session_iff (session : String) (id : UInt64) :
    dispatch .post (sessionPath session ("/clients/" ++ toString id ++ "/kick")) =
        some (.kickClient session id) ↔ Http.Plain session.toList := by
  have hrest : "/clients/" ++ toString id ++ "/kick" =
      String.ofList (join (kickTail (toString id).toList)) := by
    rw [← String.toList_inj]
    simp [join, kickTail]
  have hne : (toString id).toList ≠ [] := by
    rw [toList_toString]
    exact Nat.toDigits_ne_nil
  rw [dispatch_kick_iff, hrest, toList_sessionPath]
  constructor
  · rintro ⟨s, i, hss, hs, -, hds, hdi⟩
    obtain ⟨t, ht, hparse⟩ := Option.bind_eq_some_iff.1 hdi
    have hsize : size (toString id).toList ≤ size i :=
      calc size (toString id).toList
          = (toString id).toList.length := size_of_digits (isDigit_toString id)
        _ ≤ t.toList.length := length_toString_le hparse
        _ ≤ size t.toList := length_le_size _
        _ ≤ size i := (percentDecode_size ht).1
    refine (plain_of_segments hss ?_ hs hds).1
    simp only [kickTail, weight_cons]
    omega
  · intro hplain
    have hdigits := plain_of_digits hne (isDigit_toString id)
    refine ⟨session.toList, (toString id).toList, segments_join ?_ ?_, hplain.ne_nil, hne, ?_, ?_⟩
    · intro s hs
      rcases List.mem_append.1 hs with hs | hs
      · exact plain_api s hs
      · simp only [kickTail, List.mem_cons, List.not_mem_nil, or_false] at hs
        rcases hs with rfl | rfl | rfl | rfl
        · exact hplain
        · decide
        · exact hdigits
        · decide
    · exact (endsPlain_join (A := ["api".toList, "sessions".toList, session.toList,
        "clients".toList, (toString id).toList]) (by decide)).2 (by decide)
    · rw [percentDecode_of_not_hasEscape hplain.escape, String.ofList_toList]
    · rw [percentDecode_of_not_hasEscape hdigits.escape, String.ofList_toList, Option.bind_some,
        parseU64_toString]

/-! ### What the subcommands reach -/

/-- The paths of the requests, as `main` writes them. -/
theorem path_eq (name : String) :
    SessionRequest.update.path name = sessionPath name "" ∧
      SessionRequest.delete.path name = sessionPath name "" ∧
      SessionRequest.stop.path name = sessionPath name "/stop" ∧
      SessionRequest.restart.path name = sessionPath name "/restart" ∧
      SessionRequest.clients.path name = sessionPath name "/clients" :=
  ⟨congrArg (sessionPath name) (by decide), congrArg (sessionPath name) (by decide),
    congrArg (sessionPath name) (by decide), congrArg (sessionPath name) (by decide),
    congrArg (sessionPath name) (by decide)⟩

/-- **A subcommand reaches its operations exactly if** there is a route for it and the session name
that goes into its paths is plain. -/
theorem cliReaches_iff (c : CliCommand) : c.Reaches ↔ c.Plain := by
  have hlist : dispatch .get "/api/sessions" = some .listSessions := by decide
  cases c with
  | sessionList => exact iff_of_true (congrArg (fun o => [o]) hlist) trivial
  | sessionCreate config =>
      have hd : dispatch .post "/api/sessions" = some .createSession := by decide
      exact iff_of_true (congrArg (fun o => [o]) hd) trivial
  | serverInfo =>
      have hd : dispatch .get "/api/server" = some .getServerInfo := by decide
      exact iff_of_true (congrArg (fun o => [o]) hd) trivial
  | serialPorts =>
      have hd : dispatch .get "/api/serial-ports" = some .listSerialPorts := by decide
      exact iff_of_true (congrArg (fun o => [o]) hd) trivial
  | serverListen addr =>
      -- no route has this path
      have hd : dispatch .put "/api/server/listen" = none := by decide
      refine iff_of_false (fun h => ?_) not_false
      have hsome : dispatch .put "/api/server/listen" = some .setServerListen :=
        List.singleton_injective h
      rw [hd] at hsome
      cases hsome
  | sessionStop name =>
      have hd := dispatch_session_iff .stop name
      rw [(path_eq name).2.2.1] at hd
      refine List.singleton_injective.eq_iff.trans (hd.trans ?_)
      exact and_iff_left_of_imp fun _ => nofun
  | sessionRestart name =>
      have hd := dispatch_session_iff .restart name
      rw [(path_eq name).2.2.2.1] at hd
      refine List.singleton_injective.eq_iff.trans (hd.trans ?_)
      exact and_iff_left_of_imp fun _ => nofun
  | clientList session =>
      have hd := dispatch_session_iff .clients session
      rw [(path_eq session).2.2.2.2] at hd
      refine List.singleton_injective.eq_iff.trans (hd.trans ?_)
      exact and_iff_left_of_imp fun _ => nofun
  | sessionDelete name =>
      have hd := dispatch_session_iff .delete name
      rw [(path_eq name).2.1] at hd
      refine List.singleton_injective.eq_iff.trans (hd.trans ?_)
      exact and_congr_right fun _ => ⟨fun h => h rfl, fun h _ => h⟩
  | sessionUpdate name =>
      have hd := dispatch_session_iff .update name
      rw [(path_eq name).1] at hd
      have htwo : CliCommand.Reaches (.sessionUpdate name) ↔
          dispatch .put (sessionPath name "") = some (.updateSession name) := by
        change [dispatch .get "/api/sessions", dispatch .put (sessionPath name "")] =
          [some .listSessions, some (.updateSession name)] ↔ _
        rw [hlist]
        simp
      refine htwo.trans (hd.trans ?_)
      exact and_congr_right fun _ => ⟨fun h => h rfl, fun h _ => h⟩
  | clientKick session id =>
      exact List.singleton_injective.eq_iff.trans (dispatch_kick_session_iff session id)

/-- A name with a question mark: the session that is deleted is another one. -/
theorem question_mark_deletes_other :
    dispatch .delete (sessionPath "a?b" "") = some (.deleteSession "a") ∧
      ¬ ∀ c : CliCommand, c.Reaches := by
  have hother : dispatch .delete (sessionPath "a?b" "") = some (.deleteSession "a") := by decide
  refine ⟨hother, fun h => ?_⟩
  have hreq : dispatch .delete (sessionPath "a?b" "") = some (.deleteSession "a?b") :=
    List.singleton_injective (h (.sessionDelete "a?b"))
  rw [hother] at hreq
  exact absurd hreq (by decide)

end TermHub
