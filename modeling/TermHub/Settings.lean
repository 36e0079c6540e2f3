/-
**What the session operations do to the rest of the configuration.**

`persist_now` puts the whole document together anew.  Two settings of the `[server]` section come
from the application state, which `main` has filled from the document it loaded; the others are
constants of the program, and so is the `[ui]` section.

A run is followed section by section, so that what a start would find is also known while an
operation is under way.

Main definitions:

* `BootsFrom` — a successful start from a stored configuration;
* `Moment` — a point of a run of session operations, with the knowledge whether `config.toml` has
  been written since the start;
* `SettingsKept` — the next start loads the `[server]` and `[ui]` sections of the last one.

Main results:

* `Call.updates` — **a section of an operation saves the state or leaves the settings alone**;
* `Moment.kept` — what has been written has the settings of the program;
* `settingsKept_iff` — **the sections are kept exactly if they hold the constants already**;
* `host_keys_forgotten` — a host key path of one's own is lost with the first operation.
-/

import TermHub.LoadSave
import TermHub.AppInvariant
import TermHub.AppSections

set_option relaxedAutoImplicit false
set_option autoImplicit false

namespace TermHub

open Sections
open Saves (FsOk)

/-! ### Sections of the operations -/

/-- The update leaves the directory and the two settings in the application state alone. -/
def LeavesSettings (u : World → World) : Prop :=
  ∀ w, (u w).fs = w.fs ∧ (u w).app.maxClientsPerSession = w.app.maxClientsPerSession ∧
    (u w).app.apiListen = w.app.apiListen

/-- The update saves the state, or leaves the settings alone. -/
def SavesOrLeaves (C : Codec) (u : World → World) : Prop :=
  (∃ io, u = fun w => (w.persist C io).2) ∨ LeavesSettings u

namespace LeavesSettings

theorem id : LeavesSettings fun w => w := fun _ => ⟨rfl, rfl, rfl⟩

theorem insert (key : String) (r : World → RunnerEntry) :
    LeavesSettings fun w => w.insert key (r w) := fun _ => ⟨rfl, rfl, rfl⟩

theorem remove (key : String) : LeavesSettings fun w => w.remove key := fun _ => ⟨rfl, rfl, rfl⟩

theorem modifyEntry (key : String) (f : RunnerEntry → RunnerEntry) :
    LeavesSettings fun w => w.modifyEntry key f := by
  intro w
  simp only [World.modifyEntry]
  cases w.lookup key <;> exact ⟨rfl, rfl, rfl⟩

theorem endTask (t : TaskId) : LeavesSettings fun w => w.endTask t := fun _ => ⟨rfl, rfl, rfl⟩

theorem takeHandles (key : String) : LeavesSettings fun w => (w.takeHandles key).2 := by
  intro w
  simp only [World.takeHandles]
  cases w.lookup key <;> exact ⟨rfl, rfl, rfl⟩

theorem cancelEntry (key : String) : LeavesSettings fun w => w.cancelEntry key := by
  intro w
  simp only [World.cancelEntry]
  cases w.lookup key with
  | none => exact ⟨rfl, rfl, rfl⟩
  | some r =>
      dsimp only
      rw [World.fs_cancelAll, World.app_cancelAll]
      exact ⟨rfl, rfl, rfl⟩

/-- No section but a save touches the settings. -/
theorem rules : StartupRules LeavesSettings where
  look := .id
  newSession _ _ _ _ _ := ⟨rfl, rfl, rfl⟩
  acceptLoop _ _ _ := ⟨rfl, rfl, rfl⟩
  portForward _ _ _ _ := ⟨rfl, rfl, rfl⟩
  endTask := .endTask
  cancelEntry := .cancelEntry
  takeHandles := .takeHandles
  demote key := .modifyEntry key _
  remove := .remove
  enter key r _ := .insert key fun _ => r
  enterForward _ _ _ _ _ _ _ := ⟨rfl, rfl, rfl⟩

end LeavesSettings

section Operations

variable (C : Codec)

/-- **A section of an operation saves the state or leaves the settings alone.** -/
theorem Call.updates (c : Call) (io : CallIo) : (c.prog C io).Updates (SavesOrLeaves C) :=
  (LeavesSettings.rules.toSectionRules.mono fun _ => .inr).call (fun io => .inl ⟨io, rfl⟩) c io

/-! ### Starting -/

theorem startup_leaves (sessions : List (SessionConfig × Except String Unit)) :
    (startup sessions).Updates LeavesSettings := LeavesSettings.rules.startup sessions

/-- The settings of the application state are those of the document that was loaded. -/
structure World.HasSettings (stored : Config) (w : World) : Prop where
  maxClients : w.app.maxClientsPerSession = stored.server.maxClientsPerSession
  apiListen : w.app.apiListen = stored.server.apiListen

theorem World.HasSettings.leaves {stored : Config} {w : World} {u : World → World}
    (h : w.HasSettings stored) (hu : LeavesSettings u) : (u w).HasSettings stored :=
  ⟨(hu w).2.1.trans h.maxClients, (hu w).2.2.trans h.apiListen⟩

/-- The program is ready after a start that has loaded `stored`. -/
def BootsFrom (stored : Config) (w : World) : Prop :=
  ∃ fs fpr sessions, ∃ dev : Option (String × UInt32),
    loadOrDefault C fs = .ok stored ∧
    stored.sessions ++ (dev.map fun d => devSession d.1 d.2).toList = sessions.map Prod.fst ∧
    (startup sessions).run (World.new stored fpr fs) = some (.ok (), w)

theorem BootsFrom.hasSettings {stored : Config} {w : World} (h : BootsFrom C stored w) :
    w.HasSettings stored := by
  obtain ⟨fs, fpr, sessions, dev, -, -, hr⟩ := h
  have hkeep : (startup sessions).Updates
      fun u => ∀ v, World.HasSettings stored v → World.HasSettings stored (u v) :=
    (startup_leaves sessions).mono fun u hu v hv => hv.leaves hu
  exact hkeep.run_preserves hr ⟨rfl, rfl⟩

/-! ### Runs, section by section -/

/-- **The points of a run from `w₀`**: what remains of the operation under way, the state, and
whether `config.toml` has been written since the start.  An operation begins when the one before it
has returned; tasks end by themselves at any time. -/
inductive Moment (w₀ : World) : Prog World (Except AppError Unit) → World → Bool → Prop
  | start : Moment w₀ (.ret (.ok ())) w₀ false
  | call {r : Except AppError Unit} {w : World} {written : Bool} (c : Call) (io : CallIo) :
      Moment w₀ (.ret r) w written → Moment w₀ (c.prog C io) w written
  | taskEnds {p : Prog World (Except AppError Unit)} {w : World} {written : Bool} (t : TaskId) :
      Moment w₀ p w written → Moment w₀ p (w.endTask t) written
  | step {ready : World → Bool} {upd : World → World}
      {next : World → Prog World (Except AppError Unit)} {w : World} {written : Bool} :
      Moment w₀ (.sec ready upd next) w written → ready w = true →
      Moment w₀ (next w) (upd w) written
  | saved {ready : World → Bool} {next : World → Prog World (Except AppError Unit)} {w : World}
      {written : Bool} (io : SaveIo) :
      Moment w₀ (.sec ready (fun v => (v.persist C io).2) next) w written → ready w = true →
      (w.persist C io).1 = .ok () → Moment w₀ (next w) (w.persist C io).2 true

/-- The `[server]` section that the program writes. -/
def writtenServer (stored : Config) : ServerConfig :=
  ⟨"0.0.0.0:2222", "host_key", stored.server.maxClientsPerSession, stored.server.apiListen⟩

/-- `config.toml` is the document of a configuration with the settings of the program. -/
def World.Wrote (stored : Config) (w : World) : Prop :=
  ∃ c d, C.document c = .ok d ∧ w.fs.readConfig = some d ∧ c.server = writtenServer stored ∧
    c.ui = UiConfig.default

/-- What every moment of a run keeps. -/
structure Moment.Kept (stored : Config) (p : Prog World (Except AppError Unit)) (w : World)
    (written : Bool) : Prop where
  updates : p.Updates (SavesOrLeaves C)
  settings : w.HasSettings stored
  fsOk : FsOk w.fs
  wrote : written = true → w.Wrote C stored

theorem World.HasSettings.config {stored : Config} {w : World} (h : w.HasSettings stored) :
    w.config.server = writtenServer stored ∧ w.config.ui = UiConfig.default := by
  unfold World.config writtenServer
  rw [h.maxClients, h.apiListen]
  exact ⟨rfl, rfl⟩

/-- A save writes the settings of the program, or leaves the file as it is. -/
theorem World.HasSettings.persist {stored : Config} {w : World} (h : w.HasSettings stored)
    (hfs : FsOk w.fs) (io : SaveIo) :
    (w.persist C io).2.HasSettings stored ∧ FsOk (w.persist C io).2.fs ∧
      ((w.persist C io).2.Wrote C stored ∨
        ((w.persist C io).1 ≠ .ok () ∧ (w.persist C io).2.fs.readConfig = w.fs.readConfig)) := by
  obtain ⟨hok, hcase⟩ := save_cases C io w.config hfs
  refine ⟨⟨h.maxClients, h.apiListen⟩, hok, ?_⟩
  obtain ⟨d, hd, -, hread⟩ | ⟨e, he, hread⟩ := hcase
  · exact .inl ⟨w.config, d, hd, hread, h.config⟩
  · refine .inr ⟨fun hr => ?_, hread⟩
    have herr : (w.persist C io).1 = .error e := he
    rw [herr] at hr
    cases hr

/-- **The invariant of the runs.** -/
theorem Moment.kept {stored : Config} {w₀ : World} (hboot : w₀.HasSettings stored)
    (hfs : FsOk w₀.fs) {p : Prog World (Except AppError Unit)} {w : World} {written : Bool}
    (h : Moment C w₀ p w written) : Moment.Kept C stored p w written := by
  induction h with
  | start => exact ⟨trivial, hboot, hfs, fun hw => by cases hw⟩
  | call c io _ ih => exact ⟨c.updates C io, ih.settings, ih.fsOk, ih.wrote⟩
  | taskEnds t _ ih => exact ⟨ih.updates, ⟨ih.settings.1, ih.settings.2⟩, ih.fsOk, ih.wrote⟩
  | @step ready upd next w written _ _ ih =>
      -- the section is a save, or it leaves the directory and the settings alone
      obtain ⟨hu, hnext⟩ := ih.updates
      obtain ⟨io, rfl⟩ | hu := hu
      · obtain ⟨hs, hok, hw | ⟨-, hread⟩⟩ := ih.settings.persist C ih.fsOk io
        · exact ⟨hnext _, hs, hok, fun _ => hw⟩
        -- a save that fails before its rename keeps what an earlier one has written
        · refine ⟨hnext _, hs, hok, fun hw => ?_⟩
          obtain ⟨c, d, hd, hfile, hc⟩ := ih.wrote hw
          exact ⟨c, d, hd, hread.trans hfile, hc⟩
      · have hsame := (hu w).1
        refine ⟨hnext _, ih.settings.leaves hu, ?_, fun hw => ?_⟩
        · rw [hsame]
          exact ih.fsOk
        · obtain ⟨c, d, hd, hfile, hc⟩ := ih.wrote hw
          exact ⟨c, d, hd, by rw [hsame]; exact hfile, hc⟩
  | saved io _ _ hsave ih =>
      obtain ⟨hs, hok, hw | ⟨hne, -⟩⟩ := ih.settings.persist C ih.fsOk io
      · exact ⟨ih.updates.2 _, hs, hok, fun _ => hw⟩
      · exact absurd hsave hne

/-- To stop a session that does not exist saves the state, and does nothing else. -/
theorem Moment.stop {w₀ w : World} {r : Except AppError Unit} {written : Bool}
    (h : Moment C w₀ (.ret r) w written) (name : String)
    (hnone : w.lookup (toAsciiLowercase name) = none)
    (hsave : (w.persist C SaveIo.none).1 = .ok ()) :
    ∃ p, Moment C w₀ p (w.persist C SaveIo.none).2 true := by
  have hcancel : w.cancelEntry (toAsciiLowercase name) = w := by
    rw [World.cancelEntry, hnone]
  have htake : w.takeHandles (toAsciiLowercase name) = ((none, none), w) := by
    rw [World.takeHandles, hnone]
  have hdemote : w.modifyEntry (toAsciiLowercase name) RunnerEntry.demoted = w := by
    rw [World.modifyEntry, hnone]
  have h₀ : Moment C w₀ ((Call.stop name).prog C CallIo.none) w written := .call _ _ h
  -- the tokens, the handles and the flag, and there is nothing to wait for
  have h₁ := Moment.step h₀ rfl
  simp only [hcancel] at h₁
  have h₂ := Moment.step h₁ rfl
  simp only [htake] at h₂
  have h₃ := Moment.step h₂ rfl
  simp only [hdemote] at h₃
  exact ⟨_, Moment.saved SaveIo.none h₃ rfl hsave⟩

/-! ### The settings -/

/-- The next start loads the `[server]` and the `[ui]` section of the document `stored`. -/
def SettingsKept (stored : Config) (w : World) : Prop :=
  ∃ next, loadOrDefault C w.fs = .ok next ∧ next.server = stored.server ∧ next.ui = stored.ui

/-- What a start after the program has written `config.toml` loads. -/
theorem Moment.loads {C : Codec} (hC : C.Inverts) {stored : Config} {w₀ w : World}
    (hboot : BootsFrom C stored w₀) (hfs : FsOk w₀.fs) {p : Prog World (Except AppError Unit)}
    (h : Moment C w₀ p w true) : ∃ next, loadOrDefault C w.fs = .ok next ∧
      next.server = writtenServer stored ∧ next.ui = UiConfig.default := by
  obtain ⟨c, d, hd, hread, hc⟩ := (Moment.kept C (hboot.hasSettings C) hfs h).wrote rfl
  exact ⟨c, loadOrDefault_document hC hd hread, hc⟩

/-- **The sections are kept exactly if they hold the constants of the program already**, at every
moment after a save; and the next start uses the same host keys exactly if their path is the
constant. -/
theorem settingsKept_iff {C : Codec} (hC : C.Inverts) {stored : Config} {w₀ w : World}
    (hboot : BootsFrom C stored w₀) (hfs : FsOk w₀.fs) {p : Prog World (Except AppError Unit)}
    (h : Moment C w₀ p w true) :
    (SettingsKept C stored w ↔ stored.server.listen = "0.0.0.0:2222" ∧
      stored.server.hostKeyPath = "host_key" ∧ stored.ui = UiConfig.default) ∧
    ∃ next, loadOrDefault C w.fs = .ok next ∧
      (next.server.hostKeyPath = stored.server.hostKeyPath ↔
        stored.server.hostKeyPath = "host_key") := by
  obtain ⟨next, hload, hserver, hui⟩ := Moment.loads hC hboot hfs h
  refine ⟨⟨?_, ?_⟩, next, hload, ?_⟩
  · rintro ⟨next', hload', hserver', hui'⟩
    obtain rfl : next = next' := Except.ok.inj (hload.symm.trans hload')
    rw [← hserver', ← hui', hserver, hui]
    exact ⟨rfl, rfl, rfl⟩
  · rintro ⟨hlisten, hpath, hdefault⟩
    refine ⟨next, hload, ?_, hui.trans hdefault.symm⟩
    rw [hserver, writtenServer, ← hlisten, ← hpath]
  · rw [hserver]
    exact eq_comm

end Operations

/-! ### Settings of one's own -/

/-- A codec writes down the documents that it knows. -/
theorem document_knownCodec {known : List Config} {c r : Config}
    (hredact : redactForSave (knownCodec known) c = .ok r) (hknown : r ∈ known) :
    (knownCodec known).document c = .ok (asBytes r.toToml) := by
  unfold Codec.document
  rw [hredact]
  exact knownCodec_toStringPretty hknown

/-- A document with one session, with a limit and an API address of the user's own. -/
def ownLimits (password upPassword : String) : Config where
  server := ⟨"0.0.0.0:2222", "host_key", 4, "127.0.0.1:9000"⟩
  ui := UiConfig.default
  sessions := [jumpSession password upPassword]

/-- The document as it is saved. -/
def ownLimitsSaved : Config :=
  ownLimits ("plain:" ++ base64Encode (asBytes "pass")) ("plain:" ++ base64Encode (asBytes "root"))

/-- The directory with the document. -/
def ownLimitsFs : Fs := ⟨[asBytes ownLimitsSaved.toToml], some 0, none⟩

theorem ownLimitsFs_ok : FsOk ownLimitsFs := by
  refine ⟨?_, ?_, ?_⟩ <;> intro i hi <;> cases hi
  · exact Nat.zero_lt_one
  · intro hd
    cases hd

/-- The limit and the API address are kept: a stop of a session that does not exist saves the
document that has been loaded. -/
theorem settingsKept_iff_ownLimits : ∃ (C : Codec) (w₀ w : World),
    BootsFrom C (ownLimits "pass" "root") w₀ ∧ (w₀.lookup "jump").isSome = true ∧
    (∃ p, Moment C w₀ p w true) ∧ SettingsKept C (ownLimits "pass" "root") w := by
  let C := knownCodec [ownLimitsSaved]
  have hC : C.Inverts := by
    refine knownCodec_inverts fun c hc c' hc' _ => ?_
    rw [List.mem_singleton.1 hc, List.mem_singleton.1 hc']
  have hdoc : C.document (ownLimits "pass" "root") = .ok (asBytes ownLimitsSaved.toToml) :=
    document_knownCodec rfl (List.mem_singleton_self _)
  have hload : loadOrDefault C ownLimitsFs = .ok (ownLimits "pass" "root") :=
    loadOrDefault_document hC hdoc rfl
  obtain ⟨w₀, hstart, hconfig, hfs, hjump, hnone⟩ : ∃ w₀,
      (startup [(jumpSession "pass" "root", .ok ())]).run
        (World.new (ownLimits "pass" "root") "SHA256:" ownLimitsFs) = some (.ok (), w₀) ∧
      w₀.config = ownLimits "pass" "root" ∧ w₀.fs = ownLimitsFs ∧
      (w₀.lookup "jump").isSome = true ∧ w₀.lookup "lab" = none := ⟨_, rfl, rfl, rfl, rfl, rfl⟩
  have hkey : toAsciiLowercase "lab" = "lab" := by decide
  have hboot : BootsFrom C (ownLimits "pass" "root") w₀ :=
    ⟨ownLimitsFs, "SHA256:", _, none, hload, rfl, hstart⟩
  have hsave : (w₀.persist C SaveIo.none).1 = .ok () :=
    (save_ok_iff _ _ _ _).2 ⟨⟨_, hconfig ▸ hdoc⟩, rfl⟩
  obtain ⟨p, hp⟩ := Moment.stop C .start "lab" (hkey.symm ▸ hnone) hsave
  refine ⟨C, w₀, _, hboot, hjump, ⟨p, hp⟩, ?_⟩
  exact (settingsKept_iff hC hboot (hfs ▸ ownLimitsFs_ok) hp).1.2 ⟨rfl, rfl, rfl⟩

/-- A document with a host key path of the user's own. -/
def ownKeyPath : Config :=
  { defaultConfig with server := { defaultConfig.server with hostKeyPath := "keys/own" } }

/-- The program has been started with the document `c`, which has no sessions. -/
def startedWith (c : Config) (fs : Fs) : World := World.new c "" fs

theorem lookup_startedWith (c : Config) (fs : Fs) (key : String) :
    (startedWith c fs).lookup key = none := AList.lookup_empty key

/-- Without sessions the program writes the document of the default configuration. -/
theorem persist_startedWith {known : List Config} (hknown : defaultConfig ∈ known) (c : Config)
    (hmax : c.server.maxClientsPerSession = 16) (hapi : c.server.apiListen = "127.0.0.1:2223")
    (fs : Fs) : ((startedWith c fs).persist (knownCodec known) SaveIo.none).1 = .ok () := by
  have hconfig : (startedWith c fs).config = defaultConfig := by
    unfold World.config startedWith World.new defaultConfig
    rw [hmax, hapi]
    rfl
  refine (save_ok_iff _ _ _ _).2 ⟨⟨asBytes defaultConfig.toToml, ?_⟩, rfl⟩
  rw [hconfig]
  exact document_knownCodec rfl hknown

/-- **A host key path of one's own is lost with the first operation**: the next start uses other
keys. -/
theorem host_keys_forgotten :
    ¬ ∀ (C : Codec) (stored : Config) (w₀ w : World) (p : Prog World (Except AppError Unit)),
      C.Inverts → BootsFrom C stored w₀ → FsOk w₀.fs → Moment C w₀ p w true →
      SettingsKept C stored w := by
  intro h
  let C := knownCodec [defaultConfig, ownKeyPath]
  let fs : Fs := ⟨[asBytes ownKeyPath.toToml], some 0, none⟩
  have hne : asBytes defaultConfig.toToml ≠ asBytes ownKeyPath.toToml := by decide +kernel
  have hC : C.Inverts := by
    refine knownCodec_inverts fun c hc c' hc' heq => ?_
    obtain rfl | rfl := List.mem_pair.1 hc <;> obtain rfl | rfl := List.mem_pair.1 hc'
    · rfl
    · exact absurd heq.symm hne
    · exact absurd heq hne
    · rfl
  have hfs : FsOk fs := by
    refine ⟨?_, ?_, ?_⟩ <;> intro i hi <;> cases hi
    · exact Nat.zero_lt_one
    · intro hd
      cases hd
  have hdoc : C.document ownKeyPath = .ok (asBytes ownKeyPath.toToml) :=
    document_knownCodec rfl (List.mem_cons_of_mem _ (List.mem_singleton_self _))
  have hload : loadOrDefault C fs = .ok ownKeyPath := loadOrDefault_document hC hdoc rfl
  have hboot : BootsFrom C ownKeyPath (startedWith ownKeyPath fs) :=
    ⟨fs, "", [], none, hload, rfl, rfl⟩
  obtain ⟨p, hp⟩ := Moment.stop C .start "a" (lookup_startedWith _ _ _)
    (persist_startedWith List.mem_cons_self ownKeyPath rfl rfl fs)
  obtain ⟨next, hnext, hserver, -⟩ := Moment.loads hC hboot hfs hp
  obtain ⟨next', hnext', hserver', -⟩ := h C ownKeyPath _ _ p hC hboot hfs hp
  obtain rfl : next = next' := Except.ok.inj (hnext.symm.trans hnext')
  -- "host_key" has been written, and the user had "keys/own"
  exact absurd (hserver.symm.trans hserver') (by decide)

end TermHub
