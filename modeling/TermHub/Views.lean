/-
**What the lists show.**

The views of `termhub-app/src/app_logic.rs`: `list_sessions`, `list_clients` and `get_server_info`,
which the HTTP API gives to whoever asks.  The values behind the handles, the present statuses and
the client records, belong to the running sessions and are a parameter.

Main definitions:

* `sessionView`, `listSessions`, `listClients`, `getServerInfo` — the views;
* `AppState.redacted` — the state without its passwords;
* `RevealsNothing` — whoever sees the views learns nothing of the passwords.

Main results:

* `revealsNothing_iff` — **the views reveal no password exactly if no session has an SSH upstream**.
-/

import TermHub.AppState

set_option relaxedAutoImplicit false
set_option autoImplicit false

namespace TermHub

/-! ### The views -/

/-- `ClientRecordSnapshot`; `connectedAt` counts nanoseconds from the epoch. -/
structure ClientRecordSnapshot where
  id : ℕ
  remote : String
  connectedAt : ℤ
  bytesIn : ℕ
  bytesOut : ℕ
  deriving DecidableEq, Repr

/-- What the status watches and the client registries hold at present. -/
structure Shared where
  status : StatusRx → SessionStatus
  clients : ClientRegistryId → List ClientRecordSnapshot

/-- `SessionView`. -/
structure SessionView where
  name : String
  sshUser : String
  listen : String
  status : SessionStatus
  upstreamKind : String
  upstreamSummary : String
  upstream : UpstreamSpec
  autoReconnect : Bool
  clientCount : ℕ
  deriving DecidableEq, Repr

/-- `ClientView`. -/
structure ClientView where
  id : ℕ
  remote : String
  connectedAtSecs : ℕ
  bytesIn : ℕ
  bytesOut : ℕ
  deriving DecidableEq, Repr

/-- `ServerInfo`. -/
structure ServerInfo where
  hostKeyFpr : String
  deriving DecidableEq, Repr

/-- `upstream_kind_label`. -/
def upstreamKindLabel : UpstreamSpec → String
  | .loopback => "loopback"
  | .serial .. => "serial"
  | .ssh .. => "ssh"
  | .telnet .. => "telnet"
  | .rawTcp .. => "raw_tcp"
  | .localShell .. => "local_shell"
  | .httpProxy .. => "http_proxy"

/-- `upstream_summary`. -/
def upstreamSummary : UpstreamSpec → String
  | .loopback => "internal loopback"
  | .serial port baud dataBits parity stopBits flow _ _ =>
    let p := if parity = "none" then "N" else if parity = "even" then "E"
      else if parity = "odd" then "O" else "?"
    port ++ " @ " ++ toString baud ++ " " ++ toString dataBits ++ p ++ toString stopBits ++ " " ++
      flow
  | .ssh host port user _ => user ++ "@" ++ host ++ ":" ++ toString port
  | .telnet host port => host ++ ":" ++ toString port ++ " (telnet)"
  | .rawTcp host port => host ++ ":" ++ toString port ++ " (raw)"
  | .localShell command _ => command
  | .httpProxy listen target protocol => listen ++ " -> " ++ target ++ " (" ++ protocol ++ ")"

/-- The entry that the manager of a session has under its SSH user. -/
def RunnerEntry.mgrEntry (r : RunnerEntry) : Option SessionEntry :=
  r.sessionMgr.bind fun mgr => mgr.get r.config.sshUser

/-- The view of one entry. -/
def sessionView (o : Shared) (r : RunnerEntry) : SessionView where
  name := r.config.name
  sshUser := r.config.sshUser
  listen := r.config.listen
  status := match r.mgrEntry with
    | some e => o.status e.status
    -- a session that is not in a manager has been stopped, or is a port forward
    | none => if r.proxyCancel.isSome then .running 0 else .stopped
  upstreamKind := upstreamKindLabel r.config.upstream
  upstreamSummary := upstreamSummary r.config.upstream
  upstream := r.config.upstream
  autoReconnect := r.config.autoReconnect
  clientCount := match r.mgrEntry with
    | some e => (o.clients e.clients).length
    | none => 0

/-- `list_sessions`. -/
def listSessions (o : Shared) (a : AppState) : List SessionView :=
  a.runners.entries.map fun e => sessionView o e.2

/-- The view of one client; a time before the epoch counts as zero. -/
def clientView (s : ClientRecordSnapshot) : ClientView :=
  ⟨s.id, s.remote, (s.connectedAt / 1000000000).toNat, s.bytesIn, s.bytesOut⟩

/-- `list_clients`. -/
def listClients (o : Shared) (a : AppState) (name : String) : List ClientView :=
  match a.runners.lookup (toAsciiLowercase name) with
  | none => []
  | some r =>
    match r.mgrEntry with
    | some e => (o.clients e.clients).map clientView
    | none => []

/-- `get_server_info`. -/
def getServerInfo (a : AppState) : ServerInfo := ⟨a.hostKeyFpr⟩

/-! ### The state without its passwords -/

/-- Change the values of a map. -/
def mapValues {β γ : Type} (f : β → γ) (m : AList fun _ : String => β) :
    AList fun _ : String => γ where
  entries := m.entries.map fun e => ⟨e.1, f e.2⟩
  nodupKeys := by
    have hkeys : (m.entries.map fun e => (⟨e.1, f e.2⟩ : Σ _ : String, γ)).keys =
        m.entries.keys := by
      simp [List.keys]
    unfold List.NodupKeys
    rw [hkeys]
    exact m.nodupKeys

theorem lookup_mapValues {β γ : Type} (f : β → γ) (m : AList fun _ : String => β) (k : String) :
    (mapValues f m).lookup k = (m.lookup k).map f :=
  List.dlookup_map₂ (f := fun _ => f) k

theorem mapValues_mapValues {β γ δ : Type} (f : β → γ) (g : γ → δ)
    (m : AList fun _ : String => β) : mapValues g (mapValues f m) = mapValues (g ∘ f) m := by
  simp [mapValues, Function.comp_def]

/-- An upstream without its password. -/
def UpstreamSpec.redacted : UpstreamSpec → UpstreamSpec
  | .ssh host port user _ => .ssh host port user ""
  | u => u

/-- The upstream is an SSH server, and has a password. -/
def UpstreamSpec.isSsh : UpstreamSpec → Bool
  | .ssh .. => true
  | _ => false

def SessionConfig.redacted (s : SessionConfig) : SessionConfig :=
  { s with password := "", upstream := s.upstream.redacted }

def SessionEntry.redacted (e : SessionEntry) : SessionEntry := { e with password := "" }

def RunnerEntry.redacted (r : RunnerEntry) : RunnerEntry :=
  { r with
    config := r.config.redacted
    sessionMgr := r.sessionMgr.map (mapValues SessionEntry.redacted) }

/-- The state without its passwords: those of the sessions, of their SSH upstreams, and those that
their managers compare with. -/
def AppState.redacted (a : AppState) : AppState :=
  { a with runners := mapValues RunnerEntry.redacted a.runners }

/-- **Whoever sees the views learns nothing of the passwords**: a state that differs in passwords
only has the same views. -/
def RevealsNothing (o : Shared) (a : AppState) : Prop :=
  ∀ b : AppState, b.redacted = a.redacted →
    listSessions o b = listSessions o a ∧ (∀ name, listClients o b name = listClients o a name) ∧
      getServerInfo b = getServerInfo a

/-! ### What the views depend on -/

theorem upstreamKindLabel_redacted (u : UpstreamSpec) :
    upstreamKindLabel u.redacted = upstreamKindLabel u := by
  cases u <;> rfl

theorem upstreamSummary_redacted (u : UpstreamSpec) :
    upstreamSummary u.redacted = upstreamSummary u := by
  cases u <;> rfl

theorem redacted_of_not_ssh {u : UpstreamSpec} (h : u.isSsh = false) : u.redacted = u := by
  cases u <;> first | rfl | cases h

theorem isSsh_redacted (u : UpstreamSpec) : u.redacted.isSsh = u.isSsh := by
  cases u <;> rfl

theorem mgrEntry_redacted (r : RunnerEntry) :
    r.redacted.mgrEntry = r.mgrEntry.map SessionEntry.redacted := by
  unfold RunnerEntry.mgrEntry RunnerEntry.redacted SessionMgr.get
  cases r.sessionMgr with
  | none => rfl
  | some mgr =>
      simp only [Option.map_some, Option.bind_some, SessionConfig.redacted]
      cases normalizeName r.config.sshUser with
      | none => rfl
      | some key => exact lookup_mapValues _ mgr key

/-- Of all its fields, only `upstream` shows a password. -/
theorem sessionView_redacted (o : Shared) (r : RunnerEntry) : sessionView o r.redacted =
    { sessionView o r with upstream := r.config.upstream.redacted } := by
  unfold sessionView
  rw [mgrEntry_redacted]
  simp only [RunnerEntry.redacted, SessionConfig.redacted, upstreamKindLabel_redacted,
    upstreamSummary_redacted]
  cases r.mgrEntry <;> rfl

/-- The list of the clients shows no password. -/
theorem listClients_redacted (o : Shared) (a : AppState) (name : String) :
    listClients o a.redacted name = listClients o a name := by
  unfold listClients AppState.redacted
  rw [lookup_mapValues]
  cases a.runners.lookup (toAsciiLowercase name) with
  | none => rfl
  | some r =>
      simp only [Option.map_some, mgrEntry_redacted]
      cases r.mgrEntry <;> rfl

theorem getServerInfo_redacted (a : AppState) : getServerInfo a.redacted = getServerInfo a := rfl

/-- The list of the sessions shows no password if there is no SSH upstream. -/
theorem listSessions_redacted (o : Shared) {a : AppState}
    (h : ∀ key r, a.runners.lookup key = some r → r.config.upstream.isSsh = false) :
    listSessions o a.redacted = listSessions o a := by
  simp only [listSessions, AppState.redacted, mapValues, List.map_map]
  refine List.map_congr_left fun e he => ?_
  have hssh := h e.1 e.2 (AList.mem_lookup_iff.2 he)
  simp only [Function.comp_apply, sessionView_redacted, redacted_of_not_ssh hssh]
  rfl

/-! ### The passwords that are shown -/

/-- Another password for an SSH upstream. -/
def UpstreamSpec.changed : UpstreamSpec → UpstreamSpec
  | .ssh host port user password => .ssh host port user (password ++ "x")
  | u => u

/-- The entry with another password for its SSH upstream. -/
def RunnerEntry.changed (r : RunnerEntry) : RunnerEntry :=
  { r with config := { r.config with upstream := r.config.upstream.changed } }

theorem redacted_changed (r : RunnerEntry) : r.changed.redacted = r.redacted := by
  unfold RunnerEntry.redacted RunnerEntry.changed SessionConfig.redacted
  cases r.config.upstream <;> rfl

theorem changed_ne {u : UpstreamSpec} (h : u.isSsh = true) : u.changed ≠ u := by
  cases u with
  | ssh host port user password =>
      intro heq
      have hp : password ++ "x" = password := by
        injection heq
      have hlen := congrArg String.length hp
      rw [String.length_append] at hlen
      have hone : "x".length = 1 := rfl
      omega
  | _ => cases h

/-- A session with an SSH upstream shows its password: with another one the list is another. -/
theorem not_ssh_of_revealsNothing {o : Shared} {a : AppState} (h : RevealsNothing o a) :
    ∀ key r, a.runners.lookup key = some r → r.config.upstream.isSsh = false := by
  intro key r hr
  have hb : ({ a with runners := mapValues RunnerEntry.changed a.runners } : AppState).redacted =
      a.redacted := by
    have hsame : RunnerEntry.redacted ∘ RunnerEntry.changed = RunnerEntry.redacted :=
      funext redacted_changed
    simp only [AppState.redacted, mapValues_mapValues, hsame]
  obtain ⟨hlist, -⟩ := h _ hb
  simp only [listSessions, mapValues, List.map_map] at hlist
  have hview := List.map_inj_left.1 hlist ⟨key, r⟩ (AList.mem_lookup_iff.1 hr)
  have hup : r.config.upstream.changed = r.config.upstream :=
    congrArg SessionView.upstream hview
  by_contra hssh
  exact changed_ne (by simpa using hssh) hup

/-- **The views reveal no password exactly if no session has an SSH upstream.** -/
theorem revealsNothing_iff (o : Shared) (a : AppState) : RevealsNothing o a ↔
    ∀ key r, a.runners.lookup key = some r → r.config.upstream.isSsh = false := by
  constructor
  · exact not_ssh_of_revealsNothing
  · intro h b hb
    have hrunners : ∀ key, (b.runners.lookup key).map RunnerEntry.redacted =
        (a.runners.lookup key).map RunnerEntry.redacted := by
      intro key
      rw [← lookup_mapValues, ← lookup_mapValues]
      exact congrArg (fun s : AppState => s.runners.lookup key) hb
    -- the kind of an upstream does not depend on its password
    have hb' : ∀ key r, b.runners.lookup key = some r → r.config.upstream.isSsh = false := by
      intro key r hr
      have hkey := hrunners key
      rw [hr, Option.map_some] at hkey
      obtain ⟨r', hr', hsame⟩ := Option.map_eq_some_iff.1 hkey.symm
      have hup := congrArg (fun x : RunnerEntry => x.config.upstream.isSsh) hsame
      simp only [RunnerEntry.redacted, SessionConfig.redacted, isSsh_redacted] at hup
      rw [← hup]
      exact h key r' hr'
    refine ⟨?_, fun name => ?_, ?_⟩
    · rw [← listSessions_redacted o hb', ← listSessions_redacted o h, hb]
    · rw [← listClients_redacted o b, ← listClients_redacted o a, hb]
    · rw [← getServerInfo_redacted b, ← getServerInfo_redacted a, hb]

/-- A session on an SSH server. -/
def sshSession : RunnerEntry where
  started := none
  config := ⟨"dev", "pass", "admin", "0.0.0.0:2301", true, false, none,
    .ssh "host" 22 "root" "secret"⟩
  proxyCancel := none
  sshdCancel := none
  sshdHandle := none
  sessionMgr := none

/-- **The password of an SSH upstream is shown to everybody.** -/
theorem views_reveal_password : ¬ ∀ (o : Shared) (a : AppState), RevealsNothing o a := by
  intro h
  have hno := not_ssh_of_revealsNothing (h ⟨fun _ => .idle, fun _ => []⟩
    ⟨AList.insert "dev" sshSession ∅, "SHA256:", 16, "127.0.0.1:2223"⟩)
  cases hno "dev" sshSession (AList.lookup_insert _)

end TermHub
