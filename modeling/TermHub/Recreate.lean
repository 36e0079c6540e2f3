/-
**Stopping a session and creating it anew.**

`restart_session` and `update_session` are a `stop_session` followed by a `create_session`.  The
stop is carried out and saved before anything is known of the creation, and the creation looks at
its own name only.  So the old name stays in the map when a session is renamed, a session that has
the new name already is replaced as well, and what the stop has done is not taken back when the
creation fails.

Main definitions:

* `Call.recreates` — which session such a call stops, and what it goes on to create;
* `World.Replaced`, `World.SameAs`, `ReplacesOne` — one session has been replaced, or nothing has
  changed;
* `UpdateSafe` — the names and the outcomes on which `update_session` does so;
* `World.Keeps` — a session stands in the map and in `config.toml` as it did.

Main results:

* `World.Wf.recreated` — **what such a call comes to**;
* `replacesOne_iff` — **when `update_session` replaces exactly one session**;
* `failed_recreation_keeps_iff` — **when a failed restart or update keeps the session**.
-/

import TermHub.CreateAtomic
import TermHub.Restart

set_option relaxedAutoImplicit false
set_option autoImplicit false

namespace TermHub

open Sections
open Saves (FsOk)

variable {C : Codec}

/-! ### The two operations -/

/-- The name under which a call stops a session, and the configuration with which it goes on. -/
def Call.recreates (w : World) : Call → Option (String × SessionConfig)
  | restart name => (w.lookup (toAsciiLowercase name)).map fun r => (name, r.config)
  | update oldName cfg => some (oldName, w.keepPassword oldName cfg)
  | _ => none

theorem World.app_insert (w : World) (key : String) (r : RunnerEntry) :
    (w.insert key r).app = { w.app with runners := OrderedMap.put w.app.runners key r } := rfl

/-- Stopping a session changes its entry. -/
theorem World.app_stopped {w : World} {key : String} {r : RunnerEntry}
    (hr : w.lookup key = some r) : (w.stopped key).app =
      { w.app with runners := OrderedMap.put w.app.runners key r.taken.demoted } := by
  simp only [World.stopped, hr, World.app_insert, World.app_endAll, World.app_cancelAll,
    OrderedMap.put_put]

/-- The document in which the flag of the session is down. -/
def World.configDown (w : World) (key : String) : Config :=
  { w.config with
    sessions := w.app.runners.entries.map fun e =>
      if e.1 = key then { e.2.config with launchOnStartup := false } else e.2.config }

/-- **What a stop writes.** -/
theorem World.config_stopped (w : World) (key : String) :
    (w.stopped key).config = w.configDown key := by
  unfold World.configDown
  cases hr : w.lookup key with
  | none =>
      have hnot : key ∉ w.app.runners := AList.lookup_eq_none.1 hr
      unfold World.stopped
      rw [hr]
      refine congrArg (Config.mk _ _) (List.map_congr_left fun e he => ?_)
      rw [if_neg]
      rintro rfl
      exact hnot (List.mem_keys_of_mem he)
  | some r =>
      unfold World.config
      rw [World.app_stopped hr]
      refine congrArg (Config.mk _ _) ?_
      dsimp only
      have hmem : key ∈ w.app.runners := AList.lookup_isSome.1 (Option.isSome_of_eq_some hr)
      rw [OrderedMap.entries_put_of_mem hmem, List.map_map]
      refine List.map_congr_left fun e he => ?_
      by_cases hk : e.1 = key
      · -- the only entry under the key
        obtain ⟨k, e⟩ := e
        obtain rfl : k = key := hk
        obtain rfl := Option.some_inj.1 ((AList.mem_lookup_iff.2 he).symm.trans hr)
        simp [RunnerEntry.demoted, RunnerEntry.taken]
      · simp [hk]

/-- A session whose flag is down already is written as it is. -/
theorem World.configDown_of_down {w : World} {key : String} {r : RunnerEntry}
    (hr : w.lookup key = some r) (hf : r.config.launchOnStartup = false) :
    w.configDown key = w.config := by
  refine congrArg (Config.mk _ _) (List.map_congr_left fun e he => ?_)
  by_cases hk : e.1 = key
  · obtain ⟨k, e⟩ := e
    obtain rfl : k = key := hk
    obtain rfl := Option.some_inj.1 ((AList.mem_lookup_iff.2 he).symm.trans hr)
    rw [if_pos rfl, ← hf]
  · rw [if_neg hk]

/-- The state in which the creation starts. -/
def World.afterStop (C : Codec) (w : World) (io : SaveIo) (name : String) : World :=
  ((w.stopped (toAsciiLowercase name)).persist C io).2

theorem World.afterStop_eq (w : World) (io : SaveIo) (name : String) :
    ∃ fs, w.afterStop C io name = (w.stopped (toAsciiLowercase name)).withFs fs :=
  ⟨_, rfl⟩

/-- The save at the end of the stop succeeds. -/
def StopSaved (C : Codec) (w : World) (io : SaveIo) (name : String) : Prop :=
  C.Writes (w.configDown (toAsciiLowercase name)) ∧ io = SaveIo.none

theorem stopSaved_iff {w : World} {io : SaveIo} {name : String} :
    StopSaved C w io name ↔ ((w.stopped (toAsciiLowercase name)).persist C io).1 = .ok () := by
  unfold StopSaved
  rw [← World.config_stopped]
  exact (save_ok_iff _ _ _ _).symm

theorem World.lookup_afterStop (w : World) (io : SaveIo) (name key : String) :
    (w.afterStop C io name).lookup key = if key = toAsciiLowercase name then
      (w.lookup (toAsciiLowercase name)).map fun r => r.taken.demoted else w.lookup key :=
  w.lookup_stopped (toAsciiLowercase name) key

/-- What `config.toml` holds after a stop that has been saved. -/
theorem World.readConfig_saved {w : World} (hfs : FsOk w.fs) {io : SaveIo} {name : String}
    (hsave : StopSaved C w io name) :
    ∃ d, C.document (w.configDown (toAsciiLowercase name)) = .ok d ∧
      (w.afterStop C io name).fs.readConfig = some d := by
  rw [stopSaved_iff] at hsave
  rw [← World.config_stopped]
  rw [← World.fs_stopped w (toAsciiLowercase name)] at hfs
  obtain ⟨d, hd, -, hread⟩ | ⟨e, he, -⟩ := (save_cases C io _ hfs).2
  · exact ⟨d, hd, hread⟩
  · cases he.symm.trans hsave

theorem World.readConfig_unsaved {w : World} (hfs : FsOk w.fs) {io : SaveIo} {name : String}
    (hsave : ¬ StopSaved C w io name) :
    (w.afterStop C io name).fs.readConfig = w.fs.readConfig := by
  rw [stopSaved_iff] at hsave
  rw [← World.fs_stopped w (toAsciiLowercase name)] at hfs
  obtain ⟨-, -, hok, -⟩ | ⟨e, -, hread⟩ := (save_cases C io _ hfs).2
  · exact absurd hok hsave
  · exact hread.trans (congrArg Fs.readConfig (World.fs_stopped w _))

theorem not_admitted_of_refused {bind : Except String Unit} {cfg : SessionConfig}
    (hp : cfg.upstream.isHttpProxy = false) (hn : normalizeName cfg.sshUser = none) :
    ¬ Admitted bind cfg := by
  rintro (hp' | ⟨hn', -⟩)
  · exact Bool.false_ne_true (hp.symm.trans hp')
  · rw [hn] at hn'
    cases hn'

/-- What both operations do once they have read the map. -/
def recreate (C : Codec) (io : CallIo) (name : String) (cfg : SessionConfig) :
    Prog World (Except AppError StatusRx) := do
  match ← stopSession C io.stopSave name with
  | .error e => return .error e
  | .ok () =>
    match ← createSession C io.bind io.save cfg with
    | .error e => return .error e
    | .ok (_, statusRx) => return .ok statusRx

theorem Call.run_recreates {w : World} {c : Call} {io : CallIo} {name : String}
    {cfg : SessionConfig} (hc : c.recreates w = some (name, cfg)) :
    (c.prog C io).run w = (discard (recreate C io name cfg)).run w := by
  cases c with
  | restart name' =>
      obtain ⟨r, hr, heq⟩ := Option.map_eq_some_iff.1 hc
      obtain ⟨rfl, rfl⟩ := Prod.mk.inj heq
      rw [Call.prog, discard_run, discard_run, restartSession, Prog.run_bind, Prog.run_atomic,
        Option.bind_some, hr]
      rfl
  | update oldName cfg' =>
      obtain ⟨rfl, rfl⟩ := Prod.mk.inj (Option.some_inj.1 hc)
      rw [Call.prog, discard_run, discard_run, updateSession, Prog.run_bind, Prog.run_atomic,
        Option.bind_some]
      rfl
  | _ => cases hc

theorem saveResult_map_ok_iff {α : Type} {a : α} {r : Except String Unit} :
    (saveResult a r).map (fun _ => ()) = .ok () ↔ r = .ok () := by
  cases r with
  | error e => exact iff_of_false (fun h => by cases h) fun h => by cases h
  | ok u => exact iff_of_true rfl rfl

/-- **The four ways in which such a call can go**: the stop is not saved, the user name is refused,
the listen address is not bound, or the session is entered and the last save decides. -/
inductive Recreated (C : Codec) (w : World) (io : CallIo) (name : String) (cfg : SessionConfig) :
    Except AppError Unit → World → Prop
  | unsaved {e : AppError} : ¬ StopSaved C w io.stopSave name →
      Recreated C w io name cfg (.error e) (w.afterStop C io.stopSave name)
  | refused {e : AppError} : StopSaved C w io.stopSave name → cfg.upstream.isHttpProxy = false →
      normalizeName cfg.sshUser = none →
      Recreated C w io name cfg (.error e) (w.afterStop C io.stopSave name)
  | unbound {e : AppError} : StopSaved C w io.stopSave name → ¬ Admitted io.bind cfg →
      (normalizeName cfg.sshUser).isSome = true →
      Recreated C w io name cfg (.error e) ((w.afterStop C io.stopSave name).newSession cfg.sshUser
        cfg.password cfg.upstream ⟨cfg.autoReconnect, none⟩).2.2
  | entered {r : Except AppError Unit} : StopSaved C w io.stopSave name → Admitted io.bind cfg →
      (r = .ok () ↔ C.Writes ((w.stopped (toAsciiLowercase name)).configWith cfg) ∧
        io.save = SaveIo.none) → (fs : Fs) →
      Recreated C w io name cfg r (((w.stopped (toAsciiLowercase name)).entered cfg).2.withFs fs)

namespace World.Wf

variable {w : World} {c : Call} {io : CallIo} {name : String} {cfg : SessionConfig}

/-- **After a stop that has been saved the session is created anew.** -/
theorem run_recreate_saved (h : w.Wf) (hsave : StopSaved C w io.stopSave name) :
    (discard (recreate C io name cfg)).run w = ((createSession C io.bind io.save cfg).run
      (w.afterStop C io.stopSave name)).map fun x => (x.1.map fun _ => (), x.2) := by
  rw [discard_run, recreate, h.run_stop_bind, stopSaved_iff.1 hsave, World.afterStop]
  simp only [saveResult, Prog.run_bind]
  cases (createSession C io.bind io.save cfg).run
      ((w.stopped (toAsciiLowercase name)).persist C io.stopSave).2 with
  | none => rfl
  | some x =>
      obtain ⟨r, w'⟩ := x
      cases r <;> rfl

/-- **A stop that has not been saved ends the call.** -/
theorem run_recreate_unsaved (h : w.Wf) (hsave : ¬ StopSaved C w io.stopSave name) :
    ∃ e, (discard (recreate C io name cfg)).run w =
      some (.error e, w.afterStop C io.stopSave name) := by
  rw [stopSaved_iff] at hsave
  cases hres : ((w.stopped (toAsciiLowercase name)).persist C io.stopSave).1 with
  | ok u => exact absurd hres hsave
  | error m =>
      refine ⟨.internal m, ?_⟩
      rw [discard_run, recreate, h.run_stop_bind, hres]
      rfl

/-- **What such a call comes to.** -/
theorem recreated (h : w.Wf) (hc : c.recreates w = some (name, cfg)) {r : Except AppError Unit}
    {w' : World} (hr : (c.prog C io).run w = some (r, w')) :
    Recreated C w io name cfg r w' := by
  rw [Call.run_recreates hc] at hr
  by_cases hsave : StopSaved C w io.stopSave name
  · rw [h.run_recreate_saved hsave] at hr
    obtain ⟨⟨r', v⟩, hcreate, heq⟩ := Option.map_eq_some_iff.1 hr
    obtain ⟨rfl, rfl⟩ := Prod.mk.inj heq
    by_cases ha : Admitted io.bind cfg
    · obtain ⟨fs, hfs⟩ := w.afterStop_eq (C := C) io.stopSave name
      rw [run_createSession_admitted C ha, hfs, World.entered_withFs] at hcreate
      obtain ⟨rfl, rfl⟩ := Prod.mk.inj (Option.some_inj.1 hcreate)
      refine .entered hsave ha ?_ _
      rw [saveResult_map_ok_iff, ← World.config_entered]
      exact save_ok_iff C io.save _ _
    · have hp : cfg.upstream.isHttpProxy = false := Bool.eq_false_iff.2 fun hp => ha (.inl hp)
      cases hn : normalizeName cfg.sshUser with
      | none =>
          rw [run_createSession_refused C hp hn] at hcreate
          obtain ⟨rfl, rfl⟩ := Prod.mk.inj (Option.some_inj.1 hcreate)
          exact .refused hsave hp hn
      | some key =>
          cases hb : io.bind with
          | ok u => exact absurd (.inr ⟨by rw [hn]; rfl, hb⟩) ha
          | error e =>
              rw [hb, run_createSession_unbound C hp hn] at hcreate
              obtain ⟨rfl, rfl⟩ := Prod.mk.inj (Option.some_inj.1 hcreate)
              exact .unbound hsave ha (by rw [hn]; rfl)
  · obtain ⟨e, he⟩ := h.run_recreate_unsaved hsave
    rw [he] at hr
    obtain ⟨rfl, rfl⟩ := Prod.mk.inj (Option.some_inj.1 hr)
    exact .unsaved hsave

end World.Wf

/-- To stop a session a second time writes the same. -/
theorem World.configDown_afterStop {w : World} {name : String} {r : RunnerEntry} {io : SaveIo}
    (hr : w.lookup (toAsciiLowercase name) = some r) :
    (w.afterStop C io name).configDown (toAsciiLowercase name) =
      w.configDown (toAsciiLowercase name) := by
  have hr' : (w.afterStop C io name).lookup (toAsciiLowercase name) = some r.taken.demoted := by
    rw [World.lookup_afterStop, if_pos rfl, hr, Option.map_some]
  have happ : (w.afterStop C io name).app =
      { w.app with
        runners := OrderedMap.put w.app.runners (toAsciiLowercase name) r.taken.demoted } :=
    World.app_stopped hr
  rw [← World.config_stopped, ← World.config_stopped]
  unfold World.config
  rw [World.app_stopped hr', happ, World.app_stopped hr, r.idle_stopped.stopped_eq,
    OrderedMap.put_put]

/-- **The configuration that `update_session` merges**: an empty password is the one of the entry
under the old name, if there is one. -/
theorem World.keepPassword_configAt (w : World) (oldName : String) (cfg : SessionConfig) :
    w.keepPassword oldName cfg = { cfg with
      password := if cfg.password = "" then
        ((w.configAt (toAsciiLowercase oldName)).map SessionConfig.password).getD ""
      else cfg.password } := by
  unfold World.keepPassword World.configAt
  cases w.lookup (toAsciiLowercase oldName) with
  | none =>
      by_cases hp : cfg.password = ""
      · simp only [hp, if_true, Option.map_none, Option.getD_none]
        rw [← hp]
      · simp [hp]
  | some r => by_cases hp : cfg.password = "" <;> simp [hp]

/-- **What an update that succeeds has stored** under the name it was given. -/
theorem Call.update_configAt {io : CallIo} {oldName : String} {cfg : SessionConfig} {w w' : World}
    (h : ((Call.update oldName cfg).prog C io).run w = some (.ok (), w')) :
    w'.configAt (toAsciiLowercase cfg.name) =
      some { w.keepPassword oldName cfg with launchOnStartup := true } := by
  obtain ⟨fs, rfl⟩ := Call.run_ok C h
  have hat := ((w.stopped (toAsciiLowercase oldName)).entered_enters
    (w.keepPassword oldName cfg)).configAt (toAsciiLowercase cfg.name)
  rw [if_pos (congrArg toAsciiLowercase (w.name_keepPassword oldName cfg))] at hat
  exact hat

/-! ### Replacing one session -/

section Replace

/-- Between the two states one session has been replaced: the old name is gone, a running session
with the new configuration stands under the new name, and the other entries are as they were. -/
structure World.Replaced (w : World) (oldName : String) (old : RunnerEntry) (cfg : SessionConfig)
    (w' : World) : Prop where
  entered : ∃ r, w'.lookup (toAsciiLowercase cfg.name) = some r ∧ w'.Up r ∧ r.config = { cfg with
    password := if cfg.password = "" then old.config.password else cfg.password
    launchOnStartup := true }
  removed : toAsciiLowercase oldName ≠ toAsciiLowercase cfg.name →
    w'.lookup (toAsciiLowercase oldName) = none
  others : ∀ key, key ≠ toAsciiLowercase oldName → key ≠ toAsciiLowercase cfg.name →
    w'.lookup key = w.lookup key

/-- The same live tasks, the same entries under the same keys, and the same contents of
`config.toml`. -/
structure World.SameAs (w w' : World) : Prop where
  live : ∀ t, w'.Live t ↔ w.Live t
  lookup : ∀ key, w'.lookup key = w.lookup key
  file : w'.fs.readConfig = w.fs.readConfig

/-- The new name belongs to another session. -/
def World.NameTaken (w : World) (oldName : String) (cfg : SessionConfig) : Prop :=
  toAsciiLowercase cfg.name ≠ toAsciiLowercase oldName ∧
    (w.lookup (toAsciiLowercase cfg.name)).isSome = true

/-- What is expected of `update_session`: a call that returns `Ok` has replaced one session, and a
name that belongs to another session is refused without a change. -/
def ReplacesOne (C : Codec) (w : World) (io : CallIo) (oldName : String) (old : RunnerEntry)
    (cfg : SessionConfig) : Prop :=
  ∀ r w', ((Call.update oldName cfg).prog C io).run w = some (r, w') →
    (r = .ok () → w.Replaced oldName old cfg w') ∧
    (w.NameTaken oldName cfg → (∃ e, r = .error e) ∧ w.SameAs w')

/-- The document in which the new session stands beside the old one. -/
def World.configBeside (w : World) (oldName : String) (cfg : SessionConfig) : Config where
  server := w.config.server
  ui := w.config.ui
  sessions := { w.keepPassword oldName cfg with launchOnStartup := true } ::
    (w.configDown (toAsciiLowercase oldName)).sessions

/-- Nothing stops the call: both saves succeed, and the creation is admitted. -/
def UpdateGoesThrough (C : Codec) (w : World) (io : CallIo) (oldName : String)
    (cfg : SessionConfig) : Prop :=
  StopSaved C w io.stopSave oldName ∧ Admitted io.bind cfg ∧
    C.Writes (w.configBeside oldName cfg) ∧ io.save = SaveIo.none

/-- The call does not get far enough to change anything: the old session is stopped already, and
the save of the stop fails, or `config.toml` is up to date and the user name is refused. -/
def UpdateWithoutTrace (C : Codec) (w : World) (io : CallIo) (oldName : String) (old : RunnerEntry)
    (cfg : SessionConfig) : Prop :=
  old.config.launchOnStartup = false ∧ (StopSaved C w io.stopSave oldName →
    cfg.upstream.isHttpProxy = false ∧ normalizeName cfg.sshUser = none ∧
    ∃ d, C.document w.config = .ok d ∧ w.fs.readConfig = some d)

/-- The new name is the old one, apart from case; or it is free and the call does not go through;
or it is taken and the call leaves no trace. -/
def UpdateSafe (C : Codec) (w : World) (io : CallIo) (oldName : String) (old : RunnerEntry)
    (cfg : SessionConfig) : Prop :=
  toAsciiLowercase cfg.name = toAsciiLowercase oldName ∨
    if (w.lookup (toAsciiLowercase cfg.name)).isSome then UpdateWithoutTrace C w io oldName old cfg
    else ¬ UpdateGoesThrough C w io oldName cfg

@[simp] theorem World.upstream_keepPassword (w : World) (oldName : String) (cfg : SessionConfig) :
    (w.keepPassword oldName cfg).upstream = cfg.upstream := by
  unfold World.keepPassword
  split
  · split <;> rfl
  · rfl

@[simp] theorem World.sshUser_keepPassword (w : World) (oldName : String) (cfg : SessionConfig) :
    (w.keepPassword oldName cfg).sshUser = cfg.sshUser := by
  unfold World.keepPassword
  split
  · split <;> rfl
  · rfl

theorem World.admitted_keepPassword (w : World) (oldName : String) {bind : Except String Unit}
    {cfg : SessionConfig} : Admitted bind (w.keepPassword oldName cfg) ↔ Admitted bind cfg := by
  unfold Admitted
  rw [w.upstream_keepPassword, w.sshUser_keepPassword]

/-- The configuration that is entered. -/
theorem World.keepPassword_eq {w : World} {oldName : String} {old : RunnerEntry}
    (hold : w.lookup (toAsciiLowercase oldName) = some old) (cfg : SessionConfig) :
    { w.keepPassword oldName cfg with launchOnStartup := true } = { cfg with
      password := if cfg.password = "" then old.config.password else cfg.password
      launchOnStartup := true } := by
  unfold World.keepPassword
  rw [hold]
  by_cases hp : cfg.password = ""
  · simp [hp]
  · simp [hp]

variable {w : World} {io : CallIo} {oldName : String} {old : RunnerEntry} {cfg : SessionConfig}

/-- Where a task has been spawned, something has changed. -/
theorem World.SameAs.not_live_next {w' : World} (h : w.SameAs w') :
    ¬ w'.Live w.rt.tasks.length :=
  fun hlive => w.not_live_next ((h.live _).1 hlive)

/-- **To stop a session that has been stopped already changes nothing.** -/
theorem World.Sound.stopped_sameAs (hs : w.Sound) (hw : w.Wf) {key : String}
    (hold : w.lookup key = some old) (hf : old.config.launchOnStartup = false) (fs : Fs)
    (hfile : fs.readConfig = w.fs.readConfig) : w.SameAs ((w.stopped key).withFs fs) := by
  -- of the three kinds of entries only the idle one has its flag down
  have hidle : old.Idle := by
    obtain h | ⟨-, -, -, -, -, -, hf', -, -⟩ | ⟨-, -, -, -, -, -, hf', -⟩ := hs.formed key old hold
    · exact h
    · exact absurd (hf.symm.trans hf') Bool.false_ne_true
    · exact absurd (hf.symm.trans hf') Bool.false_ne_true
  refine ⟨fun t => ?_, fun key' => ?_, hfile⟩
  · have hnot : ¬ w.Holds key t := by
      rintro ⟨k, -, r, hr, hc⟩
      obtain rfl := Option.some_inj.1 (hold.symm.trans hr)
      rw [hidle.tokens] at hc
      cases hc
    exact (World.live_stopped hw key t).trans (and_iff_left hnot)
  · rw [World.lookup_withFs, World.lookup_stopped]
    split
    · rename_i hk
      rw [hk, hold, Option.map_some, hidle.stopped_eq]
    · rfl

/-- The map after the session has been entered. -/
theorem World.Wf.entered_update (hw : w.Wf) {bind : Except String Unit}
    (hold : w.lookup (toAsciiLowercase oldName) = some old) (ha : Admitted bind cfg) (fs : Fs)
    {w' : World} (hw' : w' = ((w.stopped (toAsciiLowercase oldName)).entered
      (w.keepPassword oldName cfg)).2.withFs fs) :
    (∃ r, w'.lookup (toAsciiLowercase cfg.name) = some r ∧ w'.Up r ∧ r.config = { cfg with
      password := if cfg.password = "" then old.config.password else cfg.password
      launchOnStartup := true }) ∧
    ∀ key, key ≠ toAsciiLowercase cfg.name →
      w'.lookup key = (w.stopped (toAsciiLowercase oldName)).lookup key := by
  subst hw'
  have hs := World.entered_starts ((w.admitted_keepPassword oldName).2 ha)
    (w.stopped (toAsciiLowercase oldName))
  obtain ⟨r, hr, hcfg, hup⟩ := hs.up (hw.stopped _) rfl
  have hname := w.name_keepPassword oldName cfg
  refine ⟨⟨r, ?_, hup, hcfg.trans (World.keepPassword_eq hold cfg)⟩, fun key hk => ?_⟩
  · rw [World.lookup_withFs, ← hname]
    exact hr
  · rw [World.lookup_withFs]
    exact hs.enters.lookup key (by simpa only [hname] using hk)

/-- Under its own name the session is replaced. -/
theorem World.Wf.replaced (hw : w.Wf) {bind : Except String Unit}
    (hold : w.lookup (toAsciiLowercase oldName) = some old) (ha : Admitted bind cfg)
    (hname : toAsciiLowercase cfg.name = toAsciiLowercase oldName) (fs : Fs) :
    w.Replaced oldName old cfg (((w.stopped (toAsciiLowercase oldName)).entered
      (w.keepPassword oldName cfg)).2.withFs fs) := by
  obtain ⟨hentered, hothers⟩ := hw.entered_update hold ha fs rfl
  refine ⟨hentered, fun hne => absurd hname.symm hne, fun key hk hk' => ?_⟩
  rw [hothers key hk', World.lookup_stopped, if_neg hk]

/-- Under another name the old entry stays. -/
theorem World.Wf.not_replaced (hw : w.Wf) {bind : Except String Unit}
    (hold : w.lookup (toAsciiLowercase oldName) = some old) (ha : Admitted bind cfg)
    (hname : toAsciiLowercase cfg.name ≠ toAsciiLowercase oldName) (fs : Fs) :
    ¬ w.Replaced oldName old cfg (((w.stopped (toAsciiLowercase oldName)).entered
      (w.keepPassword oldName cfg)).2.withFs fs) := by
  intro h
  obtain ⟨-, hothers⟩ := hw.entered_update hold ha fs rfl
  have hgone := h.removed hname.symm
  rw [hothers _ hname.symm, World.lookup_stopped, if_pos rfl, hold] at hgone
  cases hgone

/-- What a creation writes under a free name. -/
theorem World.configWith_stopped {key : String}
    (hfree : w.lookup (toAsciiLowercase cfg.name) = none)
    (hname : toAsciiLowercase cfg.name ≠ key) : (w.stopped key).configWith cfg =
      ⟨w.config.server, w.config.ui,
        { cfg with launchOnStartup := true } :: (w.configDown key).sessions⟩ := by
  have hnone : (w.stopped key).lookup (toAsciiLowercase cfg.name) = none := by
    rw [World.lookup_stopped, if_neg hname]
    exact hfree
  have hdown := w.config_stopped key
  unfold World.configWith World.sessionsWith
  rw [hnone, if_neg (by simp)]
  exact congrArg (fun c : Config => Config.mk _ _ (_ :: c.sessions)) hdown

/-- A free name: the call has to fail. -/
theorem replacesOne_free_iff (hw : w.Wf) (hold : w.lookup (toAsciiLowercase oldName) = some old)
    (hname : toAsciiLowercase cfg.name ≠ toAsciiLowercase oldName)
    (hfree : (w.lookup (toAsciiLowercase cfg.name)).isSome = false) :
    ReplacesOne C w io oldName old cfg ↔ ¬ UpdateGoesThrough C w io oldName cfg := by
  have hbeside : (w.stopped (toAsciiLowercase oldName)).configWith (w.keepPassword oldName cfg) =
      w.configBeside oldName cfg := by
    have hkept := w.name_keepPassword oldName cfg
    have hnone := Option.not_isSome_iff_eq_none.1 (Bool.eq_false_iff.1 hfree)
    exact World.configWith_stopped (by rw [hkept]; exact hnone) (by rw [hkept]; exact hname)
  constructor
  · rintro h ⟨hsave, ha, hwrites⟩
    obtain ⟨r, w', hr⟩ := Call.returns (C := C) hw io (.update oldName cfg)
    cases hw.recreated rfl hr with
    | unsaved hunsaved => exact hunsaved hsave
    | refused _ hp hn =>
        exact not_admitted_of_refused hp hn ((w.admitted_keepPassword oldName).2 ha)
    | unbound _ hunbound _ => exact hunbound ((w.admitted_keepPassword oldName).2 ha)
    | entered _ _ hok fs =>
        rw [hbeside] at hok
        exact hw.not_replaced hold ha hname fs ((h _ _ hr).1 (hok.2 hwrites))
  · intro hfails r w' hr
    refine ⟨fun hok => absurd ?_ hfails, fun htaken => ?_⟩
    · cases hw.recreated rfl hr with
      | unsaved _ => cases hok
      | refused _ _ _ => cases hok
      | unbound _ _ _ => cases hok
      | entered hsave ha hiff fs =>
          rw [hbeside] at hiff
          exact ⟨hsave, (w.admitted_keepPassword oldName).1 ha, hiff.1 hok⟩
    · rw [htaken.2] at hfree
      cases hfree

/-- A name that is taken: the call must not show. -/
theorem replacesOne_taken_iff (hs : w.Sound) (hw : w.Wf) (hfs : FsOk w.fs)
    (hold : w.lookup (toAsciiLowercase oldName) = some old) (htaken : w.NameTaken oldName cfg) :
    ReplacesOne C w io oldName old cfg ↔ UpdateWithoutTrace C w io oldName old cfg := by
  have hnext := World.tasks_length_stopped w (toAsciiLowercase oldName)
  constructor
  · intro h
    obtain ⟨r, w', hr⟩ := Call.returns (C := C) hw io (.update oldName cfg)
    obtain ⟨⟨e, rfl⟩, hsame⟩ := (h r w' hr).2 htaken
    -- an entry that the stop has not changed had its flag down
    have hdown : w.SameAs (w.afterStop C io.stopSave oldName) →
        old.config.launchOnStartup = false := by
      intro hsame
      have hl := hsame.lookup (toAsciiLowercase oldName)
      rw [World.lookup_afterStop, if_pos rfl, hold] at hl
      rw [← Option.some_inj.1 hl]
      rfl
    cases hw.recreated rfl hr with
    | unsaved hunsaved => exact ⟨hdown hsame, fun hsave => absurd hsave hunsaved⟩
    | refused hsave hp hn =>
        rw [w.upstream_keepPassword] at hp
        rw [w.sshUser_keepPassword] at hn
        obtain ⟨d, hd, hread⟩ := World.readConfig_saved hfs hsave
        rw [World.configDown_of_down hold (hdown hsame)] at hd
        exact ⟨hdown hsame, fun _ => ⟨hp, hn, d, hd, hsame.file.symm.trans hread⟩⟩
    | unbound _ _ _ =>
        have hlive := (w.afterStop C io.stopSave oldName).live_next_newSession
          (w.keepPassword oldName cfg).sshUser (w.keepPassword oldName cfg).password
          (w.keepPassword oldName cfg).upstream ⟨(w.keepPassword oldName cfg).autoReconnect, none⟩
        exact absurd (hnext ▸ hlive) hsame.not_live_next
    | entered _ _ _ fs =>
        have hlive := (w.stopped (toAsciiLowercase oldName)).live_next_entered
          (w.keepPassword oldName cfg)
        exact absurd (hnext ▸ hlive) hsame.not_live_next
  · rintro ⟨hflag, hsaved⟩ r w' hr
    have hsame : ∀ fs : Fs, fs.readConfig = w.fs.readConfig →
        w.SameAs ((w.stopped (toAsciiLowercase oldName)).withFs fs) :=
      hs.stopped_sameAs hw hold hflag
    cases hw.recreated rfl hr with
    | unsaved hunsaved =>
        exact ⟨nofun, fun _ => ⟨⟨_, rfl⟩, hsame _ (World.readConfig_unsaved hfs hunsaved)⟩⟩
    | refused hsave _ _ =>
        obtain ⟨-, -, d, hd, hread⟩ := hsaved hsave
        obtain ⟨d', hd', hread'⟩ := World.readConfig_saved hfs hsave
        rw [World.configDown_of_down hold hflag] at hd'
        obtain rfl := Except.ok.inj (hd.symm.trans hd')
        exact ⟨nofun, fun _ => ⟨⟨_, rfl⟩, hsame _ (hread'.trans hread.symm)⟩⟩
    | unbound hsave _ hn =>
        obtain ⟨-, hn', -⟩ := hsaved hsave
        rw [w.sshUser_keepPassword, hn'] at hn
        cases hn
    | entered hsave ha _ fs =>
        obtain ⟨hp, hn, -⟩ := hsaved hsave
        exact absurd ((w.admitted_keepPassword oldName).1 ha) (not_admitted_of_refused hp hn)

/-- **When `update_session` replaces exactly one session**: in a reachable state, for a session
there is, whatever the environment does. -/
theorem replacesOne_iff (hreach : ReachableWorld C w) (hfs : FsOk w.fs)
    (hold : w.lookup (toAsciiLowercase oldName) = some old) (cfg : SessionConfig) (io : CallIo) :
    ReplacesOne C w io oldName old cfg ↔ UpdateSafe C w io oldName old cfg := by
  have hw := hreach.wf
  by_cases hname : toAsciiLowercase cfg.name = toAsciiLowercase oldName
  · refine iff_of_true (fun r w' hr => ⟨fun hok => ?_, fun htaken => absurd hname htaken.1⟩)
      (.inl hname)
    subst hok
    cases hw.recreated rfl hr with
    | entered _ ha _ fs => exact hw.replaced hold ((w.admitted_keepPassword oldName).1 ha) hname fs
  · rw [UpdateSafe, or_iff_right hname]
    split
    · rename_i htaken
      exact replacesOne_taken_iff hreach.sound hw hfs hold ⟨hname, htaken⟩
    · rename_i hfree
      exact replacesOne_free_iff hw hold hname (Bool.eq_false_iff.2 hfree)

end Replace

/-! ### When the creation fails -/

section Failure

/-- The session stands under its key with the configuration, in the map and in `config.toml`, and
the next start brings it up exactly if it has not been stopped. -/
structure World.Keeps (C : Codec) (w : World) (key : String) (s : SessionConfig) : Prop where
  entry : w.configAt key = some s
  file : ∃ next, loadOrDefault C w.fs = .ok next ∧ sessionAt next.sessions key = some s ∧
    ∀ (fpr : String) (l : List SessionConfig), l.Perm next.sessions →
      ∃ w', (startup (l.map fun s => (s, .ok ()))).run (World.new next fpr w.fs) =
        some (.ok (), w') ∧ ∃ r, w'.lookup key = some r ∧ r.config = s ∧
          (s.launchOnStartup = true → w'.Up r) ∧ (s.launchOnStartup = false → r.Down)

variable {w : World} {c : Call} {io : CallIo} {name : String} {cfg : SessionConfig}
  {old : RunnerEntry}

/-- A state whose file agrees with the map keeps what the map has. -/
theorem World.Sound.keeps {key : String} {r : RunnerEntry} (h : w.Sound) (hfile : w.InFile C)
    (hr : w.lookup key = some r) : w.Keeps C key r.config := by
  have hat : w.configAt key = some r.config := by
    unfold World.configAt
    rw [hr, Option.map_some]
  obtain ⟨next, hload, -, hkeys⟩ := id hfile
  refine ⟨hat, next, hload, (hkeys key).trans hat, fun fpr l hl => ?_⟩
  obtain ⟨next', hload', hstart⟩ := hfile.rebuilds h fpr
  obtain rfl := Except.ok.inj (hload.symm.trans hload')
  obtain ⟨w', hw', hrebuilt⟩ := hstart l hl
  obtain ⟨r', hr', hcfg⟩ := Option.map_eq_some_iff.1 ((hrebuilt.configAt key).trans hat)
  exact ⟨w', hw', r', hr', hcfg, fun hf => hrebuilt.up key r' hr' (hcfg ▸ hf),
    fun hf => hrebuilt.down key r' hr' (hcfg ▸ hf)⟩

/-- **What is left when the creation fails**: the stopped entry, in the map and in the file. -/
theorem World.Wf.failed_recreation (hC : C.Inverts) (hw : w.Wf) (hs : w.Sound) (hfs : FsOk w.fs)
    (hc : c.recreates w = some (name, cfg))
    (hold : w.lookup (toAsciiLowercase name) = some old)
    (hsave : StopSaved C w io.stopSave name) (hfail : ¬ Admitted io.bind cfg) :
    ∃ e w', (c.prog C io).run w = some (.error e, w') ∧ w'.Sound ∧ w'.InFile C ∧
      w'.lookup (toAsciiLowercase name) = some old.taken.demoted := by
  have hsound : (w.afterStop C io.stopSave name).Sound :=
    stable_sound.fs _ _ (stable_sound.stopped w (toAsciiLowercase name) hs)
  have hsynced : (w.afterStop C io.stopSave name).Synced C := by
    obtain ⟨hwrites, hio⟩ := hsave
    rw [← World.config_stopped] at hwrites
    rw [hio]
    exact (hw.stopped _).synced_persist hC (by rw [World.fs_stopped]; exact hfs) hwrites
  have hlookup : (w.afterStop C io.stopSave name).lookup (toAsciiLowercase name) =
      some old.taken.demoted := by
    rw [World.lookup_afterStop, if_pos rfl, hold, Option.map_some]
  obtain ⟨r, w', hr⟩ := Call.returns (C := C) hw io c
  cases hw.recreated hc hr with
  | unsaved hunsaved => exact absurd hsave hunsaved
  | refused _ _ _ => exact ⟨_, _, hr, hsound, hsynced.inFile, hlookup⟩
  | unbound _ _ _ =>
      -- a runner has been left behind, which no entry knows of
      have hspawned := (w.afterStop C io.stopSave name).newSession_spawned cfg.sshUser
        cfg.password cfg.upstream ⟨cfg.autoReconnect, none⟩
      refine ⟨_, _, hr, stable_sound.leftBehind _ cfg hsound, ?_, ?_⟩
      · refine (hsynced.same hspawned.fs fun key => ?_).inFile
        unfold World.configAt
        rw [hspawned.lookup]
      · rw [hspawned.lookup]
        exact hlookup
  | entered _ ha _ _ => exact absurd ha hfail

/-- **When a failed restart or update keeps the session**: for a session there is in a reachable
state, if the stop has been saved and the creation is then refused, exactly if the session had been
stopped before. -/
theorem failed_recreation_keeps_iff (hC : C.Inverts) (hreach : ReachableWorld C w)
    (hfs : FsOk w.fs) (hc : c.recreates w = some (name, cfg))
    (hold : w.lookup (toAsciiLowercase name) = some old)
    (hsave : StopSaved C w io.stopSave name) (hfail : ¬ Admitted io.bind cfg) :
    (∀ e w', (c.prog C io).run w = some (.error e, w') →
      w'.Keeps C (toAsciiLowercase name) old.config) ↔ old.config.launchOnStartup = false := by
  obtain ⟨e, w', hr, hsound, hfile, hlookup⟩ :=
    hreach.wf.failed_recreation hC hreach.sound hfs hc hold hsave hfail
  have hkeeps := hsound.keeps hfile hlookup
  constructor
  · intro h
    have hsame := Option.some_inj.1 (hkeeps.entry.symm.trans (h e w' hr).entry)
    rw [← hsame]
    rfl
  · intro hf e' w'' hr'
    obtain ⟨-, rfl⟩ := Prod.mk.inj (Option.some_inj.1 (hr.symm.trans hr'))
    have hsame : old.taken.demoted.config = old.config := by
      change { old.config with launchOnStartup := false } = old.config
      rw [← hf]
    rw [← hsame]
    exact hkeeps

end Failure

/-! ### The session of the development port -/

/-- A start without a stored session, and with the variables of the development port set. -/
theorem devSession_boots (C : Codec) : ∃ w old, ReachableWorld C w ∧ w.fs = Fs.empty ∧
    w.lookup (toAsciiLowercase "com") = some old ∧ old.config = devSession "COM3" 9600 ∧
    w.lookup (toAsciiLowercase "dev") = none ∧
    w.configDown (toAsciiLowercase "com") = { defaultConfig with
      sessions := [{ devSession "COM3" 9600 with launchOnStartup := false }] } := by
  let dev := devSession "COM3" 9600
  have hdev : dev.Startable := fun _ _ => by decide
  obtain ⟨w, hw⟩ := startup_returns (l := [dev]) (fun s hs => List.mem_singleton.1 hs ▸ hdev)
    (World.new defaultConfig "SHA256:" Fs.empty)
  have hboot : Boots C w :=
    ⟨Fs.empty, defaultConfig, "SHA256:", [(dev, .ok ())], some ("COM3", 9600), rfl, rfl, hw⟩
  obtain ⟨w₁, hs, hnil⟩ : ∃ w₁, (startStored (.ok ()) dev).run
      (World.new defaultConfig "SHA256:" Fs.empty) = some (.ok (), w₁) ∧
      (startup []).run w₁ = some (.ok (), w) := startup_cons hw
  obtain rfl := (Prod.mk.inj (Option.some_inj.1 hnil)).2
  have hstarts := (startStored_starts hs).2
  have hother := hstarts.enters.lookup (toAsciiLowercase "dev") (by decide)
  obtain ⟨v, e, rfl, hcfg, hspawned, -⟩ := hstarts
  have hold : (v.insert (toAsciiLowercase dev.name) e).lookup (toAsciiLowercase "com") = some e :=
    World.lookup_insert _ _ _
  refine ⟨_, e, .boot hboot, hspawned.fs, hold, hcfg, hother.trans (AList.lookup_empty _), ?_⟩
  have hempty : v.app.runners = ∅ := by
    rw [hspawned.app]
    rfl
  have hentries : (v.insert (toAsciiLowercase dev.name) e).app.runners.entries =
      [⟨toAsciiLowercase dev.name, e⟩] := by
    rw [World.app_insert, hempty]
    dsimp only
    rw [OrderedMap.put_empty, AList.singleton_entries]
  unfold World.configDown World.config
  have hkey : toAsciiLowercase dev.name = toAsciiLowercase "com" := rfl
  rw [hentries, World.app_insert, hspawned.app]
  simp only [List.map_cons, List.map_nil, if_pos hkey, hcfg]
  rfl

/-- Two sessions, of which one has been stopped. -/
theorem stoppedBesideRunning : ∃ w old, ReachableWorld plainCodec w ∧ FsOk w.fs ∧
    w.lookup (toAsciiLowercase "com") = some old ∧ old.config.launchOnStartup = false ∧
    (w.lookup (toAsciiLowercase "dev")).isSome = true ∧
    ∃ d, plainCodec.document w.config = .ok d ∧ w.fs.readConfig = some d := by
  obtain ⟨v, old, hreach, hfs, hold, -⟩ := devSession_boots plainCodec
  -- another session is created
  let cfg : SessionConfig := { devSession "COM4" 9600 with name := "dev" }
  let u : World := ((v.entered cfg).2.persist plainCodec SaveIo.none).2
  have hcreate : ((Call.create cfg).prog plainCodec CallIo.none).run v = some
      ((saveResult (cfg.name, (v.entered cfg).1)
        ((v.entered cfg).2.persist plainCodec SaveIo.none).1).map fun _ => (), u) := by
    have ha : Admitted (.ok ()) cfg := .inr ⟨by decide, rfl⟩
    rw [Call.prog, discard_run]
    exact congrArg _ (run_createSession_admitted plainCodec ha SaveIo.none v)
  have hu : ReachableWorld plainCodec u := .call (.create cfg) CallIo.none hreach hcreate
  have henters := v.entered_enters cfg
  have hcom : u.lookup (toAsciiLowercase "com") = some old :=
    (henters.lookup _ (by decide)).trans hold
  obtain ⟨w₁, e, hspawned, he, -, -⟩ := henters
  have hdev : u.lookup (toAsciiLowercase "dev") = some e := by
    change (v.entered cfg).2.lookup _ = _
    rw [he]
    exact World.lookup_insert _ _ _
  have hufs : FsOk u.fs := by
    refine (save_cases plainCodec SaveIo.none _ ?_).1
    rw [he, World.fs_insert, hspawned.fs, hfs]
    exact Saves.fsOk_empty
  -- and the first one is stopped
  have hsave : StopSaved plainCodec u SaveIo.none "com" := ⟨plainCodec_writes _, rfl⟩
  obtain ⟨d, hd, hread⟩ := World.readConfig_saved hufs hsave
  refine ⟨u.afterStop plainCodec SaveIo.none "com", old.taken.demoted,
    .call (.stop "com") CallIo.none hu (hu.wf.stop_returns _ SaveIo.none "com"),
    (save_cases plainCodec SaveIo.none _ (by rw [World.fs_stopped]; exact hufs)).1, ?_, rfl, ?_, d,
    ?_, hread⟩
  · rw [World.lookup_afterStop, if_pos rfl, hcom, Option.map_some]
  · rw [World.lookup_afterStop, if_neg (by decide), hdev]
    rfl
  · rw [← World.config_stopped] at hd
    exact hd

/-- The port of the session is changed, under another spelling of its name; and a session that has
been stopped is not renamed to another one, with a user name that is refused. -/
theorem replacesOne_dev :
    (∃ w old, w.lookup (toAsciiLowercase "COM") = some old ∧
      ReplacesOne plainCodec w CallIo.none "COM" old (devSession "COM4" 9600)) ∧
    ∃ w old cfg, w.lookup (toAsciiLowercase "com") = some old ∧ w.NameTaken "com" cfg ∧
      ReplacesOne plainCodec w CallIo.none "com" old cfg := by
  constructor
  · obtain ⟨w, old, hreach, hfs, hold, -⟩ := devSession_boots plainCodec
    have hname : toAsciiLowercase "COM" = toAsciiLowercase "com" := by decide
    rw [← hname] at hold
    exact ⟨w, old, hold,
      (replacesOne_iff hreach (hfs ▸ Saves.fsOk_empty) hold (devSession "COM4" 9600) CallIo.none).2
        (.inl hname.symm)⟩
  · obtain ⟨w, old, hreach, hfs, hold, hflag, hdev, hfile⟩ := stoppedBesideRunning
    let cfg : SessionConfig := { devSession "COM4" 9600 with name := "dev", sshUser := "" }
    have htaken : w.NameTaken "com" cfg := ⟨by decide, hdev⟩
    refine ⟨w, old, cfg, hold, htaken,
      (replacesOne_iff hreach hfs hold cfg CallIo.none).2 (.inr ?_)⟩
    rw [if_pos htaken.2]
    exact ⟨hflag, fun _ => ⟨rfl, rfl, hfile⟩⟩

/-- **A session that is renamed stays under its old name as well.** -/
theorem renamed_twice :
    ¬ ∀ (C : Codec) (w : World) (io : CallIo) (oldName : String) (old : RunnerEntry)
      (cfg : SessionConfig), ReachableWorld C w → FsOk w.fs →
      w.lookup (toAsciiLowercase oldName) = some old → ReplacesOne C w io oldName old cfg := by
  intro h
  let cfg : SessionConfig := { devSession "COM3" 9600 with name := "dev" }
  obtain ⟨w, old, hreach, hfs, hold, -, hfree, -⟩ := devSession_boots plainCodec
  have hok : FsOk w.fs := by
    rw [hfs]
    exact Saves.fsOk_empty
  have hgo : UpdateGoesThrough plainCodec w CallIo.none "com" cfg :=
    ⟨⟨plainCodec_writes _, rfl⟩, .inr ⟨by decide, rfl⟩, plainCodec_writes _, rfl⟩
  have hfree' : (w.lookup (toAsciiLowercase cfg.name)).isSome = false := by
    change (w.lookup (toAsciiLowercase "dev")).isSome = false
    rw [hfree]
    rfl
  have hname : toAsciiLowercase cfg.name ≠ toAsciiLowercase "com" := by decide
  exact (replacesOne_free_iff hreach.wf hold hname hfree').1
    (h plainCodec w CallIo.none "com" old cfg hreach hok hold) hgo

/-- With a text format that can write everything, an update that is admitted succeeds. -/
theorem plainCodec_update_ok {w : World} (hw : w.Wf) (oldName : String) {cfg : SessionConfig}
    (ha : Admitted (.ok ()) cfg) : ∃ w',
      ((Call.update oldName cfg).prog plainCodec CallIo.none).run w = some (.ok (), w') := by
  obtain ⟨r, w', hr⟩ := Call.returns (C := plainCodec) hw CallIo.none (.update oldName cfg)
  have ha' := (w.admitted_keepPassword oldName).2 ha
  cases hw.recreated rfl hr with
  | unsaved hunsaved => exact absurd ⟨plainCodec_writes _, rfl⟩ hunsaved
  | refused _ hp hn => exact absurd ha' (not_admitted_of_refused hp hn)
  | unbound _ hn _ => exact absurd ha' hn
  | entered _ _ hok _ =>
      rw [hok.2 ⟨plainCodec_writes _, rfl⟩] at hr
      exact ⟨_, hr⟩

/-- The codec that knows the document of the stopped session. -/
def stoppedDevCodec : Codec := knownCodec [{ defaultConfig with sessions := [{
  devSession "COM3" 9600 with
    password := "plain:" ++ base64Encode (asBytes "pass")
    launchOnStartup := false }] }]

theorem stoppedDevCodec_inverts : stoppedDevCodec.Inverts := by
  refine knownCodec_inverts fun c hc c' hc' _ => ?_
  rw [List.mem_singleton.1 hc, List.mem_singleton.1 hc']

theorem stoppedDevCodec_writes : stoppedDevCodec.Writes { defaultConfig with
    sessions := [{ devSession "COM3" 9600 with launchOnStartup := false }] } := by
  have htext := knownCodec_toStringPretty (List.mem_singleton_self ({ defaultConfig with
    sessions := [{ devSession "COM3" 9600 with
      password := "plain:" ++ base64Encode (asBytes "pass")
      launchOnStartup := false }] } : Config))
  exact ⟨_, htext⟩

/-- A restart whose listen address is taken by another program. -/
theorem failed_recreation_demotes :
    ¬ ∀ (C : Codec) (w : World) (c : Call) (io : CallIo) (name : String) (cfg : SessionConfig)
      (old : RunnerEntry), C.Inverts → ReachableWorld C w → FsOk w.fs →
      c.recreates w = some (name, cfg) → w.lookup (toAsciiLowercase name) = some old →
      StopSaved C w io.stopSave name → ¬ Admitted io.bind cfg →
      ∀ e w', (c.prog C io).run w = some (.error e, w') →
        w'.Keeps C (toAsciiLowercase name) old.config := by
  intro h
  have hC := stoppedDevCodec_inverts
  obtain ⟨w, old, hreach, hfs, hold, hcfg, -, hdoc⟩ := devSession_boots stoppedDevCodec
  have hok : FsOk w.fs := by
    rw [hfs]
    exact Saves.fsOk_empty
  let io : CallIo := ⟨SaveIo.none, .error "Address already in use (os error 98)", SaveIo.none⟩
  have hc : (Call.restart "com").recreates w = some ("com", old.config) := by
    rw [Call.recreates, hold, Option.map_some]
  have hsave : StopSaved stoppedDevCodec w io.stopSave "com" := by
    refine ⟨?_, rfl⟩
    rw [hdoc]
    exact stoppedDevCodec_writes
  have hfail : ¬ Admitted io.bind old.config := by
    rintro (hp | ⟨-, hb⟩)
    · rw [hcfg] at hp
      cases hp
    · cases hb
  obtain ⟨e, w', hr, -, -, hlookup⟩ :=
    hreach.wf.failed_recreation hC hreach.sound hok hc hold hsave hfail
  have hentry := (h _ w _ io "com" _ old hC hreach hok hc hold hsave hfail e w' hr).entry
  rw [World.configAt, hlookup, hcfg] at hentry
  -- the flag has gone down
  exact Bool.false_ne_true (congrArg SessionConfig.launchOnStartup (Option.some_inj.1 hentry))

/-- A session that has been stopped is updated with a user name that is refused. -/
theorem failed_recreation_keeps_stopped : ∃ C w old,
    w.lookup (toAsciiLowercase "com") = some old ∧ ∀ e w',
      ((Call.update "com" { devSession "COM3" 9600 with sshUser := "" }).prog C
        CallIo.none).run w = some (.error e, w') →
      w'.Keeps C (toAsciiLowercase "com") old.config := by
  have hC := stoppedDevCodec_inverts
  obtain ⟨v, old, hreach, hfs, hold, -, -, hdoc⟩ := devSession_boots stoppedDevCodec
  have hstop : StopSaved stoppedDevCodec v SaveIo.none "com" := by
    refine ⟨?_, rfl⟩
    rw [hdoc]
    exact stoppedDevCodec_writes
  let w := v.afterStop stoppedDevCodec SaveIo.none "com"
  have hw : ReachableWorld stoppedDevCodec w :=
    .call (.stop "com") CallIo.none hreach (hreach.wf.stop_returns _ SaveIo.none "com")
  have hok : FsOk w.fs :=
    (save_cases _ SaveIo.none _ (by rw [World.fs_stopped, hfs]; exact Saves.fsOk_empty)).1
  have hold' : w.lookup (toAsciiLowercase "com") = some old.taken.demoted := by
    rw [World.lookup_afterStop, if_pos rfl, hold, Option.map_some]
  have hsave : StopSaved stoppedDevCodec w SaveIo.none "com" := by
    refine ⟨?_, rfl⟩
    rw [World.configDown_afterStop hold, hdoc]
    exact stoppedDevCodec_writes
  have hkeep : w.keepPassword "com" { devSession "COM3" 9600 with sshUser := "" } =
      { devSession "COM3" 9600 with sshUser := "" } := by
    unfold World.keepPassword
    rw [hold']
    rfl
  refine ⟨stoppedDevCodec, w, _, hold', (failed_recreation_keeps_iff hC hw hok (c := .update _ _)
    (congrArg (fun cfg => some ("com", cfg)) hkeep) hold' hsave
    (not_admitted_of_refused rfl rfl)).2 rfl⟩

end TermHub
