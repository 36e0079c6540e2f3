/-
**The update of the command line.**

`session update` of `termhub-cli/src/main.rs`: the present session is read, its settings are taken
where an argument is omitted, and the whole configuration is sent.  But the list of the sessions
shows neither the password nor the size of the terminal, and the upstream that it shows is not
used: what stands in for them is the name of the session, no size, and a loopback.

Main definitions:

* `UpdateArgs`, `UpdateArgs.config` — the arguments, and the configuration that is sent;
* `cliUpdate` — the subcommand, with the operation that answers its second request;
* `UpdateArgs.applied` — the configuration with the supplied arguments replaced;
* `UpdateKeeps` — when the update does no more than that.

Main results:

* `cliUpdate_stored` — what an update that succeeds has stored;
* `cliUpdate_keeps_iff` — **an update keeps what is omitted exactly if** what stands in for it is
  what was stored;
* `cliUpdate_changes_password` — an update of the user name alone makes the session name the
  password.
-/

import TermHub.CliRoutes
import TermHub.Recreate
import TermHub.Views

set_option relaxedAutoImplicit false
set_option autoImplicit false

namespace TermHub

open Sections

/-! ### The subcommand -/

/-- `UpstreamCmd`: an upstream as it is given on the command line. -/
inductive UpstreamCmd
  | loopback
  | serial (port : String) (baud : UInt32) (dataBits : UInt8) (parity : String)
      (stopBits : UInt8) (flow inputEol outputEol : String)
  | ssh (host : String) (port : UInt16) (user password : String)
  | telnet (host : String) (port : UInt16)
  | rawTcp (host : String) (port : UInt16)
  | localShell (command : String) (args : List String)
  | httpProxy (listen target protocol : String)
  deriving DecidableEq, Repr

/-- `upstream_to_spec`. -/
def upstreamToSpec : UpstreamCmd → UpstreamSpec
  | .loopback => .loopback
  | .serial port baud dataBits parity stopBits flow inputEol outputEol =>
    .serial port baud dataBits parity stopBits flow inputEol outputEol
  | .ssh host port user password => .ssh host port user password
  | .telnet host port => .telnet host port
  | .rawTcp host port => .rawTcp host port
  | .localShell command args => .localShell command args
  | .httpProxy listen target protocol => .httpProxy listen target protocol

/-- `UpdateArgs`. -/
structure UpdateArgs where
  name : String
  password : Option String
  sshUser : Option String
  listen : Option String
  autoReconnect : Option Bool
  upstream : Option UpstreamCmd
  deriving DecidableEq, Repr

/-- The session that the name stands for. -/
def findSession (name : String) (sessions : List SessionView) : Option SessionView :=
  sessions.find? fun s => eqIgnoreAsciiCase s.name name

/-- The configuration that is sent. -/
def UpdateArgs.config (args : UpdateArgs) (current : SessionView) : SessionConfig where
  name := args.name
  -- the list does not show the password
  password := args.password.getD current.name
  sshUser := args.sshUser.getD current.sshUser
  listen := args.listen.getD current.listen
  autoReconnect := args.autoReconnect.getD current.autoReconnect
  launchOnStartup := true
  ptyOverride := none
  upstream := (args.upstream.map upstreamToSpec).getD .loopback

/-- How the subcommand fails. -/
inductive CliError
  /-- No session of the list has the name. -/
  | notFound (name : String)
  /-- The second request is not given to `update_session`. -/
  | notDispatched
  | api (e : AppError)
  deriving DecidableEq, Repr

/-- `SessionAction::Update`: the present sessions are fetched, and the session is put. -/
def cliUpdate (C : Codec) (io : CallIo) (o : Shared) (args : UpdateArgs) :
    Prog World (Except CliError Unit) := do
  let sessions ← Prog.atomic fun w => (listSessions o w.app, w)
  match findSession args.name sessions with
  | none => return .error (.notFound args.name)
  | some current =>
    match dispatch .put (sessionPath args.name "") with
    | some (.updateSession name) =>
      match ← (Call.update name (args.config current)).prog C io with
      | .error e => return .error (.api e)
      | .ok () => return .ok ()
    | _ => return .error .notDispatched

/-- The configuration with the supplied arguments replaced. -/
def UpdateArgs.applied (args : UpdateArgs) (s : SessionConfig) : SessionConfig :=
  { s with
    password := args.password.getD s.password
    sshUser := args.sshUser.getD s.sshUser
    listen := args.listen.getD s.listen
    autoReconnect := args.autoReconnect.getD s.autoReconnect
    upstream := (args.upstream.map upstreamToSpec).getD s.upstream }

/-- **When the update keeps what is omitted**: the name is spelled as it is stored, the session has
not been stopped and has no terminal size, and what stands in for an omitted upstream or password is
what was stored.  An empty password stands for the one of the entry that the request names. -/
structure UpdateKeeps (w : World) (args : UpdateArgs) (s : SessionConfig) : Prop where
  name : args.name = s.name
  launchOnStartup : s.launchOnStartup = true
  ptyOverride : s.ptyOverride = none
  upstream : args.upstream = none → s.upstream = .loopback
  omitted : args.password = none → s.password = s.name
  empty : args.password = some "" → ∀ name, dispatch .put (sessionPath args.name "") =
    some (.updateSession name) → ((w.configAt (toAsciiLowercase name)).map
      SessionConfig.password).getD "" = ""

/-! ### What is found -/

theorem toAsciiLowercase_eq_empty {s : String} : toAsciiLowercase s = "" ↔ s = "" := by
  rw [toAsciiLowercase, ← String.toList_inj, ← String.toList_inj, String.toList_ofList]
  exact List.map_eq_nil_iff

/-- **The session that is found is the one under the name.** -/
theorem findSession_listSessions {w : World} (hw : w.Wf) {o : Shared} {name : String}
    {old : RunnerEntry} {current : SessionView}
    (hold : w.lookup (toAsciiLowercase name) = some old)
    (hfind : findSession name (listSessions o w.app) = some current) :
    current = sessionView o old := by
  have hmem := List.mem_of_find?_eq_some hfind
  have hname := List.find?_some hfind
  obtain ⟨⟨key, r⟩, he, rfl⟩ := List.mem_map.1 hmem
  have hr : w.lookup key = some r := AList.mem_lookup_iff.2 he
  have hkey : key = toAsciiLowercase name :=
    (hw.keyed key r hr).symm.trans (beq_iff_eq.1 hname)
  rw [hkey, hold] at hr
  rw [Option.some_inj.1 hr]

/-- A session without a name cannot be put. -/
theorem name_ne_of_dispatch {name : String} {op : Operation}
    (h : dispatch .put (sessionPath name "") = some op) : name ≠ "" := by
  rintro rfl
  have hnone : dispatch .put (sessionPath "" "") = none := by decide
  rw [hnone] at h
  cases h

/-! ### What is stored -/

section Stored

variable {C : Codec} {io : CallIo} {o : Shared} {args : UpdateArgs} {w w' : World}
  {old : RunnerEntry}

/-- The two requests of an update that succeeds. -/
theorem cliUpdate_ok (h : (cliUpdate C io o args).run w = some (.ok (), w')) :
    ∃ current name, findSession args.name (listSessions o w.app) = some current ∧
      dispatch .put (sessionPath args.name "") = some (.updateSession name) ∧
      ((Call.update name (args.config current)).prog C io).run w = some (.ok (), w') := by
  unfold cliUpdate at h
  rw [Prog.run_bind, Prog.run_atomic, Option.bind_some] at h
  dsimp only at h
  split at h
  · cases h
  · rename_i current hfind
    split at h
    · rename_i name hput
      rw [Prog.run_bind] at h
      obtain ⟨⟨r, w₁⟩, hr, h⟩ := Option.bind_eq_some_iff.1 h
      cases r with
      | error e => cases h
      | ok u =>
          cases h
          exact ⟨current, name, hfind, hput, hr⟩
    · cases h

/-- The password that is stored. -/
def UpdateArgs.storedPassword (args : UpdateArgs) (w : World) (name : String)
    (old : SessionConfig) : String :=
  match args.password with
  | none => old.name
  | some "" => ((w.configAt (toAsciiLowercase name)).map SessionConfig.password).getD ""
  | some password => password

theorem UpdateArgs.storedPassword_eq (args : UpdateArgs) (w : World) (name : String)
    {old : SessionConfig} (hne : old.name ≠ "") :
    args.storedPassword w name old = if args.password.getD old.name = "" then
      ((w.configAt (toAsciiLowercase name)).map SessionConfig.password).getD ""
    else args.password.getD old.name := by
  unfold UpdateArgs.storedPassword
  split
  · rename_i hp
    rw [hp, Option.getD_none, if_neg hne]
  · rename_i hp
    rw [hp, Option.getD_some, if_pos rfl]
  · rename_i password hempty hp
    rw [hp, Option.getD_some, if_neg hempty]

/-- **What an update that succeeds has stored.** -/
theorem cliUpdate_stored (hw : w.Wf) (hold : w.lookup (toAsciiLowercase args.name) = some old)
    (h : (cliUpdate C io o args).run w = some (.ok (), w')) :
    ∃ name, dispatch .put (sessionPath args.name "") = some (.updateSession name) ∧
      w'.configAt (toAsciiLowercase args.name) = some
        { name := args.name
          password := args.storedPassword w name old.config
          sshUser := args.sshUser.getD old.config.sshUser
          listen := args.listen.getD old.config.listen
          autoReconnect := args.autoReconnect.getD old.config.autoReconnect
          launchOnStartup := true
          ptyOverride := none
          upstream := (args.upstream.map upstreamToSpec).getD .loopback } := by
  obtain ⟨current, name, hfind, hput, hr⟩ := cliUpdate_ok h
  obtain rfl := findSession_listSessions hw hold hfind
  refine ⟨name, hput, ?_⟩
  -- the name of the session stands in for a password, and is not empty
  have hne : old.config.name ≠ "" := by
    intro hempty
    refine name_ne_of_dispatch hput (toAsciiLowercase_eq_empty.1 ?_)
    rw [← hw.keyed _ _ hold, hempty]
    rfl
  rw [args.storedPassword_eq w name hne]
  exact (Call.update_configAt hr).trans (congrArg some (by rw [World.keepPassword_configAt]; rfl))

/-- The stored password is the one that is asked for. -/
theorem storedPassword_applied_iff {name : String} {s : SessionConfig}
    (hput : dispatch .put (sessionPath args.name "") = some (.updateSession name)) :
    args.storedPassword w name s = args.password.getD s.password ↔
      (args.password = none → s.password = s.name) ∧
      (args.password = some "" → ∀ name, dispatch .put (sessionPath args.name "") =
        some (.updateSession name) → ((w.configAt (toAsciiLowercase name)).map
          SessionConfig.password).getD "" = "") := by
  unfold UpdateArgs.storedPassword
  split
  · rename_i hp
    rw [hp, Option.getD_none]
    exact ⟨fun h => ⟨fun _ => h.symm, nofun⟩, fun h => (h.1 rfl).symm⟩
  · rename_i hp
    rw [hp, Option.getD_some]
    refine ⟨fun h => ⟨nofun, fun _ name' hput' => ?_⟩, fun h => h.2 rfl name hput⟩
    rw [hput] at hput'
    cases hput'
    exact h
  · rename_i password hempty hp
    rw [hp, Option.getD_some]
    exact iff_of_true rfl ⟨nofun, fun hq => absurd (Option.some_inj.1 hq) hempty⟩

/-- **An update keeps what is omitted exactly if** the name is spelled as it is stored, the session
has not been stopped and has no terminal size, and what stands in for an omitted upstream or
password is what was stored. -/
theorem cliUpdate_keeps_iff (hreach : ReachableWorld C w)
    (hold : w.lookup (toAsciiLowercase args.name) = some old)
    (h : (cliUpdate C io o args).run w = some (.ok (), w')) :
    w'.configAt (toAsciiLowercase args.name) = some (args.applied old.config) ↔
      UpdateKeeps w args old.config := by
  obtain ⟨name, hput, hat⟩ := cliUpdate_stored hreach.wf hold h
  have hpass := storedPassword_applied_iff (w := w) (s := old.config) hput
  have hup : (args.upstream.map upstreamToSpec).getD .loopback =
      (args.upstream.map upstreamToSpec).getD old.config.upstream ↔
      (args.upstream = none → old.config.upstream = .loopback) := by
    cases args.upstream with
    | none => exact ⟨fun h _ => h.symm, fun h => (h rfl).symm⟩
    | some u => exact iff_of_true rfl nofun
  rw [hat, Option.some_inj, UpdateArgs.applied, SessionConfig.mk.injEq, hpass, hup]
  constructor
  · rintro ⟨hname, ⟨homit, hempty⟩, -, -, -, hflag, hpty, hkeep⟩
    exact ⟨hname, hflag.symm, hpty.symm, hkeep, homit, hempty⟩
  · rintro ⟨hname, hflag, hpty, hkeep, homit, hempty⟩
    exact ⟨hname, ⟨homit, hempty⟩, rfl, rfl, rfl, hflag.symm, hpty.symm, hkeep⟩

end Stored

/-! ### An update on the development port -/

/-- The subcommand succeeds for the session of the development port. -/
theorem devSession_cliUpdate (args : UpdateArgs) (hname : args.name = "com")
    (hadm : ∀ current : SessionView, current.sshUser = "admin" →
      Admitted (.ok ()) (args.config current)) : ∃ w w' old o, ReachableWorld plainCodec w ∧
      w.lookup (toAsciiLowercase args.name) = some old ∧ old.config = devSession "COM3" 9600 ∧
      (cliUpdate plainCodec CallIo.none o args).run w = some (.ok (), w') := by
  obtain ⟨w, old, hreach, -, hold, hcfg, -⟩ := devSession_boots plainCodec
  let o : Shared := ⟨fun _ => .idle, fun _ => []⟩
  have hmem : sessionView o old ∈ listSessions o w.app :=
    List.mem_map.2 ⟨⟨_, old⟩, AList.mem_lookup_iff.1 hold, rfl⟩
  rw [← hname] at hold
  obtain ⟨current, hfind⟩ : ∃ c, findSession args.name (listSessions o w.app) = some c := by
    refine Option.isSome_iff_exists.1 (List.find?_isSome.2 ⟨_, hmem, ?_⟩)
    rw [hname]
    change eqIgnoreAsciiCase old.config.name "com" = true
    rw [hcfg]
    decide
  obtain rfl := findSession_listSessions hreach.wf hold hfind
  have ha : Admitted (.ok ()) (args.config (sessionView o old)) := by
    refine hadm _ ?_
    change old.config.sshUser = "admin"
    rw [hcfg]
    rfl
  obtain ⟨w', hr⟩ := plainCodec_update_ok hreach.wf "com" ha
  have hput : dispatch .put (sessionPath args.name "") = some (.updateSession "com") := by
    rw [hname]
    decide
  refine ⟨w, w', old, o, hreach, hold, hcfg, ?_⟩
  unfold cliUpdate
  rw [Prog.run_bind, Prog.run_atomic, Option.bind_some]
  simp only [hfind, hput]
  rw [Prog.run_bind, hr]
  rfl

/-- An update of the password, with the upstream given again. -/
theorem cliUpdate_keeps_dev : ∃ (w w' : World) (old : RunnerEntry),
    w.lookup (toAsciiLowercase "com") = some old ∧ old.config = devSession "COM3" 9600 ∧
    w'.configAt (toAsciiLowercase "com") = some { old.config with password := "new" } := by
  let args : UpdateArgs := ⟨"com", some "new", none, none, none,
    some (.serial "COM3" 9600 8 "none" 1 "none" "as_is" "as_is")⟩
  obtain ⟨w, w', old, o, hreach, hold, hcfg, hr⟩ :=
    devSession_cliUpdate args rfl fun current hadmin => by
      refine .inr ⟨?_, rfl⟩
      change (normalizeName current.sshUser).isSome = true
      rw [hadmin]
      decide
  refine ⟨w, w', old, hold, hcfg, ((cliUpdate_keeps_iff hreach hold hr).2 ?_).trans ?_⟩
  · rw [hcfg]
    exact ⟨rfl, rfl, rfl, nofun, nofun, fun h => absurd (Option.some_inj.1 h) (by decide)⟩
  · rw [hcfg]
    rfl

/-- **An update of the user name alone** makes the session name the password, and the upstream a
loopback. -/
theorem cliUpdate_changes_password :
    ¬ ∀ (C : Codec) (io : CallIo) (o : Shared) (args : UpdateArgs) (w w' : World)
      (old : RunnerEntry), ReachableWorld C w → w.lookup (toAsciiLowercase args.name) = some old →
      (cliUpdate C io o args).run w = some (.ok (), w') →
      w'.configAt (toAsciiLowercase args.name) = some (args.applied old.config) := by
  intro h
  let args : UpdateArgs := ⟨"com", none, some "root", none, none, none⟩
  obtain ⟨w, w', old, o, hreach, hold, hcfg, hr⟩ := devSession_cliUpdate args rfl fun _ _ =>
    .inr ⟨(by decide : (normalizeName "root").isSome = true), rfl⟩
  obtain ⟨name, -, hat⟩ := cliUpdate_stored hreach.wf hold hr
  have hsame := Option.some_inj.1 (hat.symm.trans (h _ _ _ args w w' old hreach hold hr))
  have hpass : old.config.name = old.config.password := congrArg SessionConfig.password hsame
  rw [hcfg] at hpass
  exact absurd hpass (by decide)

end TermHub
