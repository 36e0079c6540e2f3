/-
**The edit dialog.**

`openEditDialog` and `applyEdit` of `termhub-app/ui/src/App.tsx`.  The dialog is filled from the
view of the selected session, and what it holds is submitted as a whole configuration, which
`update_session` merges.  To open the dialog and to save at once is therefore a way through four
shapes of a configuration: stored, shown, in the dialog, and submitted.

Main definitions:

* `EditState`, `openEditDialog`, `applyEdit` — the dialog;
* `saveUnchanged` — what is submitted when nothing has been changed;
* `EditKeeps` — which configurations get through.

Main results:

* `saveUnchanged_eq` — what is submitted;
* `editDialog_identity_iff` — **saving without a change is the identity exactly if** the dialog can
  hold the configuration;
* `editDialog_drops_args` — the arguments of a shell are lost.
-/

import TermHub.Recreate
import TermHub.Views
import Mathlib.Data.List.DropRight

set_option relaxedAutoImplicit false
set_option autoImplicit false

namespace TermHub

/-! ### The dialog -/

/-- `UpKind`. -/
inductive UpKind
  | loopback | ssh | telnet | rawTcp | serial | localShell | httpProxy
  deriving DecidableEq, Repr

/-- `kindToUpKind`: an unknown kind counts as a loopback. -/
def kindToUpKind (kind : String) : UpKind :=
  if kind = "loopback" then .loopback
  else if kind = "ssh" then .ssh
  else if kind = "telnet" then .telnet
  else if kind = "raw_tcp" then .rawTcp
  else if kind = "serial" then .serial
  else if kind = "local_shell" then .localShell
  else if kind = "http_proxy" then .httpProxy
  else .loopback

/-- `defaultUpstream`. -/
def defaultUpstream : UpKind → UpstreamSpec
  | .loopback => .loopback
  | .ssh => .ssh "127.0.0.1" 22 "user" ""
  | .telnet => .telnet "127.0.0.1" 23
  | .rawTcp => .rawTcp "127.0.0.1" 4000
  | .serial => .serial "COM3" 115200 8 "none" 1 "none" "as_is" "as_is"
  | .localShell => .localShell "cmd.exe" []
  | .httpProxy => .httpProxy "0.0.0.0:8080" "127.0.0.1:80" "tcp"

/-- The state of the dialog. -/
structure EditState where
  showEdit : Bool
  editName : String
  editSshUser : String
  editListen : String
  editPassword : String
  editAutoRc : Bool
  editUpKind : UpKind
  editUpstream : UpstreamSpec
  deriving DecidableEq, Repr

/-- `openEditDialog`. -/
def openEditDialog (selected : Option SessionView) (s : EditState) : EditState :=
  match selected with
  | none => s
  | some v =>
    let k := kindToUpKind v.upstreamKind
    { showEdit := true
      editName := v.name
      editSshUser := v.sshUser
      editListen := v.listen
      editPassword := ""
      editAutoRc := v.autoReconnect
      -- the dialog does not offer the loopback
      editUpKind := if k = .loopback then .ssh else k
      editUpstream := if v.upstream = .loopback then defaultUpstream .ssh else v.upstream }

/-- The characters that `String.prototype.trim` removes: white space and line ends. -/
def isTrimmed (c : Char) : Bool :=
  let n := c.toNat
  (9 ≤ n && n ≤ 13) || n == 0x20 || n == 0xA0 || n == 0x1680 || (0x2000 ≤ n && n ≤ 0x200A) ||
    n == 0x2028 || n == 0x2029 || n == 0x202F || n == 0x205F || n == 0x3000 || n == 0xFEFF

/-- `String.prototype.trim`. -/
def trim (s : String) : String :=
  String.ofList ((s.toList.dropWhile isTrimmed).rdropWhile isTrimmed)

/-- `applyEdit`: the name and the configuration that are given to `update_session`.  A flag that is
not submitted is read as `true`. -/
def applyEdit (selected : Option SessionView) (s : EditState) : Option (String × SessionConfig) :=
  match selected with
  | none => none
  | some v =>
    let up := match s.editUpstream with
      | .localShell command _ => .localShell command []
      | up => up
    let isHttpProxy := up.isHttpProxy
    some (v.name,
      { name := trim s.editName
        password := if isHttpProxy then "" else s.editPassword
        sshUser := if isHttpProxy then "" else s.editSshUser
        listen := if isHttpProxy then "" else s.editListen
        autoReconnect := if isHttpProxy then false else s.editAutoRc
        launchOnStartup := true
        ptyOverride := none
        upstream := up })

/-- What is submitted when the dialog is opened for an entry and saved without a change, whatever it
held before. -/
def saveUnchanged (o : Shared) (r : RunnerEntry) (s : EditState) :
    Option (String × SessionConfig) :=
  let selected := some (sessionView o r)
  applyEdit selected (openEditDialog selected s)

/-- What `update_session` makes of what is submitted. -/
def World.merged (w : World) (submitted : String × SessionConfig) : SessionConfig :=
  w.keepPassword submitted.1 submitted.2

/-- The name has no white space at its ends. -/
def Trimmed (name : String) : Prop :=
  (∀ c, name.toList.head? = some c → isTrimmed c = false) ∧
    ∀ c, name.toList.getLast? = some c → isTrimmed c = false

/-- **The configurations that the dialog can hold**: the name has no white space at its ends, there
is no terminal size, the upstream is not a loopback, a shell has no arguments, and the settings of
the SSH server are blank for a port forward. -/
structure EditKeeps (s : SessionConfig) : Prop where
  name : Trimmed s.name
  ptyOverride : s.ptyOverride = none
  upstream : match s.upstream with
    | .loopback => False
    | .localShell _ args => args = []
    | .httpProxy .. => s.sshUser = "" ∧ s.listen = "" ∧ s.autoReconnect = false
    | _ => True

/-! ### Saving without a change -/

theorem head_not_trimmed_iff {l : List Char} :
    l.dropWhile isTrimmed = l ↔ ∀ c, l.head? = some c → isTrimmed c = false := by
  cases l with
  | nil => exact iff_of_true rfl nofun
  | cons c l =>
      rw [List.dropWhile_eq_self_iff]
      simp

theorem last_not_trimmed_iff {l : List Char} :
    l.rdropWhile isTrimmed = l ↔ ∀ c, l.getLast? = some c → isTrimmed c = false := by
  rw [List.rdropWhile_eq_self_iff]
  constructor
  · intro h c hc
    obtain ⟨hne, rfl⟩ := List.mem_getLast?_eq_getLast hc
    exact Bool.eq_false_iff.2 (h hne)
  · intro h hne
    exact Bool.eq_false_iff.1 (h _ (List.getLast?_eq_getLast_of_ne_nil hne))

/-- **A name is kept exactly if it has no white space at its ends.** -/
theorem trim_eq_iff {name : String} : trim name = name ↔ Trimmed name := by
  unfold trim Trimmed
  rw [← head_not_trimmed_iff, ← last_not_trimmed_iff, ← String.toList_inj, String.toList_ofList]
  constructor
  · intro h
    -- neither end gets longer, so neither gets shorter
    have hlast := (List.rdropWhile_prefix isTrimmed (name.toList.dropWhile isTrimmed)).length_le
    have hhead := (List.dropWhile_suffix (l := name.toList) isTrimmed).length_le
    rw [h] at hlast
    have hdrop := (List.dropWhile_suffix (l := name.toList) isTrimmed).eq_of_length
      (le_antisymm hhead hlast)
    rw [hdrop] at h
    exact ⟨hdrop, h⟩
  · rintro ⟨hhead, hlast⟩
    rw [hhead, hlast]

/-- The upstream that is submitted. -/
def submittedUpstream : UpstreamSpec → UpstreamSpec
  | .loopback => defaultUpstream .ssh
  | .localShell command _ => .localShell command []
  | up => up

/-- **What is submitted**: the password is left to `update_session`. -/
theorem saveUnchanged_eq (o : Shared) (r : RunnerEntry) (s : EditState) :
    saveUnchanged o r s = some (r.config.name,
      { name := trim r.config.name
        password := ""
        sshUser := if r.config.upstream.isHttpProxy then "" else r.config.sshUser
        listen := if r.config.upstream.isHttpProxy then "" else r.config.listen
        autoReconnect := if r.config.upstream.isHttpProxy then false else r.config.autoReconnect
        launchOnStartup := true
        ptyOverride := none
        upstream := submittedUpstream r.config.upstream }) := by
  unfold saveUnchanged openEditDialog applyEdit sessionView
  cases r.config.upstream <;> rfl

/-- The settings of the SSH server are submitted as they are stored, or are blank. -/
theorem submitted_upstream_iff (s : SessionConfig) :
    ((if s.upstream.isHttpProxy then "" else s.sshUser) = s.sshUser ∧
      (if s.upstream.isHttpProxy then "" else s.listen) = s.listen ∧
      (if s.upstream.isHttpProxy then false else s.autoReconnect) = s.autoReconnect ∧
      submittedUpstream s.upstream = s.upstream) ↔
    match s.upstream with
    | .loopback => False
    | .localShell _ args => args = []
    | .httpProxy .. => s.sshUser = "" ∧ s.listen = "" ∧ s.autoReconnect = false
    | _ => True := by
  cases s.upstream with
  | loopback => simp [submittedUpstream, defaultUpstream]
  | localShell command args =>
      simp only [submittedUpstream, UpstreamSpec.isHttpProxy, UpstreamSpec.localShell.injEq,
        Bool.false_eq_true, if_false, true_and]
      exact ⟨Eq.symm, Eq.symm⟩
  | httpProxy l t p =>
      simp only [submittedUpstream, UpstreamSpec.isHttpProxy, if_true, and_true]
      exact and_congr eq_comm (and_congr eq_comm eq_comm)
  | _ => simp [submittedUpstream, UpstreamSpec.isHttpProxy]

variable {C : Codec} {w : World} {key : String} {old : RunnerEntry}

/-- **Saving without a change is the identity exactly if** the dialog can hold the configuration:
apart from the flag, what `update_session` merges is what is stored. -/
theorem editDialog_identity_iff (hreach : ReachableWorld C w) (hold : w.lookup key = some old)
    (o : Shared) (s : EditState) :
    (saveUnchanged o old s).map w.merged = some { old.config with launchOnStartup := true } ↔
      EditKeeps old.config := by
  have hat : w.configAt (toAsciiLowercase old.config.name) = some old.config := by
    rw [hreach.wf.keyed key old hold, World.configAt, hold, Option.map_some]
  rw [saveUnchanged_eq, Option.map_some, Option.some_inj, World.merged,
    World.keepPassword_configAt, hat]
  simp only [if_true, Option.map_some, Option.getD_some, SessionConfig.mk.injEq, true_and]
  constructor
  · rintro ⟨hname, huser, hlisten, hauto, hpty, hup⟩
    exact ⟨trim_eq_iff.1 hname, hpty.symm,
      (submitted_upstream_iff _).1 ⟨huser, hlisten, hauto, hup⟩⟩
  · rintro ⟨hname, hpty, hup⟩
    obtain ⟨huser, hlisten, hauto, hup⟩ := (submitted_upstream_iff _).2 hup
    exact ⟨trim_eq_iff.2 hname, huser, hlisten, hauto, hpty.symm, hup⟩

/-- A session on a serial port, without a terminal size. -/
theorem editDialog_identity_dev : ∃ (w : World) (old : RunnerEntry),
    w.lookup (toAsciiLowercase "com") = some old ∧ old.config = devSession "COM3" 9600 ∧
    ∀ (o : Shared) (s : EditState),
      (saveUnchanged o old s).map w.merged = some { old.config with launchOnStartup := true } := by
  obtain ⟨w, old, hreach, -, hold, hcfg, -⟩ := devSession_boots plainCodec
  refine ⟨w, old, hold, hcfg, fun o s => (editDialog_identity_iff hreach hold o s).2 ?_⟩
  have hname : Trimmed "com" := trim_eq_iff.1 (by decide)
  rw [hcfg]
  exact ⟨hname, rfl, trivial⟩

/-- A session that runs a shell with arguments. -/
def shellSession : SessionConfig where
  name := "com"
  password := "pass"
  sshUser := "admin"
  listen := "0.0.0.0:2223"
  autoReconnect := true
  launchOnStartup := true
  ptyOverride := none
  upstream := .localShell "cmd.exe" ["/k", "prompt"]

/-- **The arguments of a shell are lost** when its session is saved without a change. -/
theorem editDialog_drops_args :
    ¬ ∀ (C : Codec) (w : World) (key : String) (old : RunnerEntry) (o : Shared) (s : EditState),
      ReachableWorld C w → w.lookup key = some old →
      (saveUnchanged o old s).map w.merged =
        some { old.config with launchOnStartup := true } := by
  intro h
  obtain ⟨v, -, hreach, -⟩ := devSession_boots plainCodec
  have hadm : Admitted (.ok ()) shellSession :=
    .inr ⟨(by decide : (normalizeName "admin").isSome = true), rfl⟩
  obtain ⟨w, hr⟩ := plainCodec_update_ok hreach.wf "com" hadm
  have hpass : shellSession.password ≠ "" := by decide
  have hat := Call.update_configAt hr
  rw [World.keepPassword_configAt, if_neg hpass] at hat
  obtain ⟨old, hold, hcfg⟩ := Option.map_eq_some_iff.1 hat
  have hsame := h plainCodec w _ old ⟨fun _ => .idle, fun _ => []⟩
    ⟨false, "", "", "", "", false, .ssh, .loopback⟩ (.call _ _ hreach hr) hold
  rw [saveUnchanged_eq, Option.map_some, Option.some_inj, World.merged,
    World.keepPassword_configAt, hcfg] at hsame
  have hargs : UpstreamSpec.localShell "cmd.exe" [] =
      .localShell "cmd.exe" ["/k", "prompt"] := congrArg SessionConfig.upstream hsame
  cases hargs

end TermHub
