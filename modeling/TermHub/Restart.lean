/-
**A restart restores the sessions.**

`persist_now` writes the configurations of all entries, with a flag that tells whether the user has
stopped the session; the start-up loop of `main` starts the sessions with the flag and enters the
others.  So what a restart makes of the file is the session map of the run before, with every
session that had not been stopped running.

The proof has two halves.  The file that was written last agrees with the map (`World.InFile`),
because every operation ends with a save and what it does before one that fails does not show in the
map; and starting the sessions of a list builds the map of the list.

Main definitions:

* `sessionAt`, `World.configAt` — what a list of sessions and the session map have under a key;
* `World.InFile` — loading `config.toml` gives the sessions of the map;
* `WrittenByProgram` — `config.toml` has been written by the program, in some run;
* `Call.SavesSucceed`, `SavingRun` — runs of calls in which every save succeeds;
* `World.Up` — the tasks of a session are running.

Main results:

* `startup_configAt`, `startup_returns` — what the start-up loop builds, and that it does;
* `SavingRun.synced` — **the file agrees with the map** in every such run;
* `restart_restores` — **a restart restores the sessions**.
-/

import TermHub.Entries
import TermHub.Settings
import TermHub.Ownership

set_option relaxedAutoImplicit false
set_option autoImplicit false

namespace TermHub

open Sections
open Saves (FsOk)

/-! ### What stands under a key -/

/-- The session of the list with the key. -/
def sessionAt (l : List SessionConfig) (key : String) : Option SessionConfig :=
  l.find? fun s => toAsciiLowercase s.name = key

/-- No two sessions of the list have the same key. -/
def DistinctKeys (l : List SessionConfig) : Prop :=
  (l.map fun s => toAsciiLowercase s.name).Nodup

/-- The configuration of the entry under a key. -/
def World.configAt (w : World) (key : String) : Option SessionConfig :=
  (w.lookup key).map RunnerEntry.config

theorem sessionAt_cons (s : SessionConfig) (l : List SessionConfig) (key : String) :
    sessionAt (s :: l) key =
      if toAsciiLowercase s.name = key then some s else sessionAt l key := by
  unfold sessionAt
  rw [List.find?_cons]
  by_cases h : toAsciiLowercase s.name = key <;> simp [h]

theorem sessionAt_eq_some {l : List SessionConfig} {key : String} {s : SessionConfig}
    (h : sessionAt l key = some s) : s ∈ l ∧ toAsciiLowercase s.name = key := by
  have hkey := List.find?_some h
  exact ⟨List.mem_of_find?_eq_some h, of_decide_eq_true hkey⟩

theorem sessionAt_of_mem {l : List SessionConfig} (hl : DistinctKeys l) {s : SessionConfig}
    (hs : s ∈ l) : sessionAt l (toAsciiLowercase s.name) = some s := by
  induction l with
  | nil => cases hs
  | cons x l ih =>
      obtain ⟨hx, hl⟩ := List.nodup_cons.1 hl
      rw [sessionAt_cons]
      obtain rfl | hs := List.mem_cons.1 hs
      · rw [if_pos rfl]
      · rw [if_neg, ih hl hs]
        intro heq
        refine hx ?_
        simp only [heq]
        exact List.mem_map_of_mem hs

/-- Without duplicates the order of the list does not matter. -/
theorem sessionAt_perm {l l' : List SessionConfig} (hp : l'.Perm l) (hl : DistinctKeys l)
    (key : String) : sessionAt l' key = sessionAt l key := by
  have hl' : DistinctKeys l' := (hp.map _).nodup_iff.2 hl
  ext s
  constructor <;> intro hs <;> obtain ⟨hmem, rfl⟩ := sessionAt_eq_some hs
  · exact sessionAt_of_mem hl (hp.mem_iff.1 hmem)
  · exact sessionAt_of_mem hl' (hp.mem_iff.2 hmem)

theorem sessionAt_append (l l' : List SessionConfig) (key : String) :
    sessionAt (l ++ l') key = (sessionAt l key).or (sessionAt l' key) :=
  List.find?_append

/-- The sessions that a save writes are those of the map. -/
theorem World.mem_config_sessions {w : World} {s : SessionConfig} :
    s ∈ w.config.sessions ↔ ∃ key, w.configAt key = some s := by
  unfold World.config World.configAt World.lookup
  rw [List.mem_map]
  constructor
  · rintro ⟨⟨key, r⟩, hmem, rfl⟩
    exact ⟨key, by rw [AList.mem_lookup_iff.2 hmem]; rfl⟩
  · rintro ⟨key, hs⟩
    obtain ⟨r, hr, rfl⟩ := Option.map_eq_some_iff.1 hs
    exact ⟨⟨key, r⟩, AList.mem_lookup_iff.1 hr, rfl⟩

theorem World.Wf.configAt_key {w : World} (h : w.Wf) {key : String} {s : SessionConfig}
    (hs : w.configAt key = some s) : toAsciiLowercase s.name = key := by
  obtain ⟨r, hr, rfl⟩ := Option.map_eq_some_iff.1 hs
  exact h.keyed key r hr

theorem World.Wf.distinctKeys {w : World} (h : w.Wf) : DistinctKeys w.config.sessions := by
  have hkeys : (w.config.sessions.map fun s => toAsciiLowercase s.name) = w.app.runners.keys := by
    unfold World.config AList.keys List.keys
    rw [List.map_map]
    refine List.map_congr_left fun e he => ?_
    exact h.keyed e.1 e.2 (AList.mem_lookup_iff.2 he)
  unfold DistinctKeys
  rw [hkeys]
  exact w.app.runners.keys_nodup

/-- **What is written under a key is what stands there.** -/
theorem World.Wf.sessionAt_config {w : World} (h : w.Wf) (key : String) :
    sessionAt w.config.sessions key = w.configAt key := by
  ext s
  constructor
  · intro hs
    obtain ⟨hmem, hkey⟩ := sessionAt_eq_some hs
    obtain ⟨key', hs'⟩ := World.mem_config_sessions.1 hmem
    obtain rfl : key' = key := (h.configAt_key hs').symm.trans hkey
    exact hs'
  · intro hs
    have hmem := World.mem_config_sessions.2 ⟨key, hs⟩
    rw [← h.configAt_key hs]
    exact sessionAt_of_mem h.distinctKeys hmem

/-! ### What a start builds -/

/-- A session that has been entered stands under its key; the other keys keep what they have. -/
theorem World.Enters.configAt {w w' : World} {cfg : SessionConfig} (h : w.Enters cfg w')
    (key : String) :
    w'.configAt key = if toAsciiLowercase cfg.name = key then some cfg else w.configAt key := by
  obtain ⟨w₁, e, hs, rfl, rfl, -⟩ := h
  unfold World.configAt
  split
  · rename_i hk
    rw [← hk, World.lookup_insert, Option.map_some]
  · rename_i hk
    rw [World.lookup_insert_ne (Ne.symm hk), hs.lookup]

theorem World.Starts.configAt {w w' : World} {cfg : SessionConfig} (h : w.Starts cfg w')
    (key : String) :
    w'.configAt key = if toAsciiLowercase cfg.name = key then some cfg else w.configAt key :=
  h.enters.configAt key

/-- **The start-up loop enters the sessions one after the other**: of two with the same key the
later one stays. -/
theorem startup_configAt_last {sessions : List (SessionConfig × Except String Unit)} {w w' : World}
    (h : (startup sessions).run w = some (.ok (), w')) (key : String) :
    w'.configAt key = (sessionAt (sessions.map Prod.fst).reverse key).or (w.configAt key) := by
  induction sessions generalizing w with
  | nil =>
      obtain ⟨-, rfl⟩ := Prod.mk.inj (Option.some_inj.1 h)
      rfl
  | cons x rest ih =>
      obtain ⟨w₁, hs, h⟩ := startup_cons h
      rw [ih h, (startStored_starts hs).2.configAt, List.map_cons, List.reverse_cons,
        sessionAt_append, sessionAt_cons, Option.or_assoc]
      split
      · rfl
      · rfl

/-- **The start-up loop builds the map of the list**, on top of what there is. -/
theorem startup_configAt {sessions : List (SessionConfig × Except String Unit)} {w w' : World}
    (hd : DistinctKeys (sessions.map Prod.fst)) (h : (startup sessions).run w = some (.ok (), w'))
    (key : String) :
    w'.configAt key = (sessionAt (sessions.map Prod.fst) key).or (w.configAt key) := by
  rw [startup_configAt_last h, sessionAt_perm (List.reverse_perm _) hd]

/-- A session that can be started is started, unless its listen address is not bound. -/
theorem startStored_returns {s : SessionConfig} {bind : Except String Unit} (hs : s.Startable)
    (hbind : s.launchOnStartup = true → s.upstream.isHttpProxy = false → bind = .ok ())
    (w : World) : ∃ w', (startStored bind s).run w = some (.ok (), w') := by
  cases hl : s.launchOnStartup with
  | false =>
      unfold startStored
      simp only [hl, Bool.not_false, if_true]
      exact ⟨_, rfl⟩
  | true =>
      cases hp : s.upstream.isHttpProxy with
      | true =>
          unfold startStored
          cases hu : s.upstream with
          | httpProxy l t p =>
              simp only [hl, Bool.not_true, Bool.false_eq_true, if_false]
              exact ⟨_, rfl⟩
          | _ => rw [hu] at hp; cases hp
      | false =>
          obtain ⟨k, hk⟩ := Option.isSome_iff_exists.1 (hs hl hp)
          rw [run_startStored_session _ hl hp, hk, hbind hl hp]
          exact ⟨_, rfl⟩

/-- **The start-up loop succeeds** when every session can be started and every bind succeeds. -/
theorem startup_returns {l : List SessionConfig} (hl : ∀ s ∈ l, s.Startable) (w : World) :
    ∃ w', (startup (l.map fun s => (s, .ok ()))).run w = some (.ok (), w') := by
  induction l generalizing w with
  | nil => exact ⟨w, rfl⟩
  | cons s l ih =>
      obtain ⟨w₁, hs⟩ := startStored_returns (hl s List.mem_cons_self) (fun _ _ => rfl) w
      obtain ⟨w', hw'⟩ := ih (fun x hx => hl x (List.mem_cons_of_mem s hx)) w₁
      refine ⟨w', ?_⟩
      rw [List.map_cons, startup, Prog.run_bind, hs, Option.bind_some]
      exact hw'

/-- An entry holds tasks only if its session can be started. -/
theorem RunnerEntry.Formed.startable {w : World} {r : RunnerEntry} (h : r.Formed w) :
    r.config.Startable := by
  intro hf hp
  obtain h | ⟨l, t, p, c, n, hu, -, -, -⟩ | ⟨s, c, n, mgr, e, -, -, hreg, -, -, -⟩ := h
  · rw [h.flag] at hf
    cases hf
  · rw [hu] at hp
    cases hp
  · exact hreg.valid

/-- Every task that an entry holds is running. -/
def World.AllLive (w : World) : Prop := ∀ key t, w.Holds key t → w.Live t

/-- A start leaves no task that is held and does not run. -/
theorem startup_allLive {sessions : List (SessionConfig × Except String Unit)} {w w' : World}
    (hwf : w.Wf) (hlive : w.AllLive) (h : (startup sessions).run w = some (.ok (), w')) :
    w'.AllLive := by
  induction sessions generalizing w with
  | nil =>
      obtain ⟨-, rfl⟩ := Prod.mk.inj (Option.some_inj.1 h)
      exact hlive
  | cons x rest ih =>
      obtain ⟨w₁, hs, h⟩ := startup_cons h
      have he := (startStored_starts hs).2.enters
      refine ih (he.wf hwf) (fun key t ht => ?_) h
      obtain ⟨-, hfresh⟩ | ⟨-, ht⟩ := (he.holds hwf key t).1 ht
      · exact (he.live t).2 (.inr hfresh)
      · exact (he.live t).2 (.inl (hlive key t ht))

/-- The tasks of the session are running: the port forward, or the runner and the accept loop. -/
def World.Up (w : World) (r : RunnerEntry) : Prop :=
  (∃ listen target protocol c t, r.config.upstream = .httpProxy listen target protocol ∧
    r.proxyCancel = some c ∧ w.Runs t (.portForward listen target protocol) c ∧ w.Live t) ∨
  ∃ s c t mgr hub, r.config.upstream.isHttpProxy = false ∧ r.started = some s ∧
    r.sshdCancel = some c ∧ r.sshdHandle = some t ∧
    w.Runs s.handle (.runner hub r.config.upstream ⟨r.config.autoReconnect, none⟩) s.cancel ∧
    w.Live s.handle ∧ w.Runs t (.acceptLoop r.config.listen mgr) c ∧ w.Live t

/-- The entry has no tasks. -/
def RunnerEntry.Down (r : RunnerEntry) : Prop := r.tokens = [] ∧ r.handles = []

theorem World.holds_of_runs {w : World} {key : String} {r : RunnerEntry}
    (hr : w.lookup key = some r) {t : TaskId} {kind : TaskKind} {c : Token}
    (h : w.Runs t kind c) (hc : c ∈ r.tokens) : w.Holds key t := by
  obtain ⟨k, hk, -, rfl⟩ := h
  exact ⟨k, hk, r, hr, hc⟩

/-- **Where the tasks of an entry are running, its session runs exactly if it has not been
stopped.** -/
theorem RunnerEntry.Formed.up_or_down {w : World} {key : String} {r : RunnerEntry}
    (h : r.Formed w) (hlive : ∀ t, w.Holds key t → w.Live t) (hr : w.lookup key = some r) :
    (r.config.launchOnStartup = true → w.Up r) ∧ (r.config.launchOnStartup = false → r.Down) := by
  -- an idle entry has the flag down, the two others have it up and hold tasks
  obtain h | ⟨l, a, p, c, t, hu, hf, ht, heq⟩ | ⟨s, c, t, mgr, e, hu, hf, -, hrun, hacc, heq⟩ := h
  · exact ⟨fun hf => absurd (h.flag.symm.trans hf) Bool.false_ne_true,
      fun _ => ⟨h.tokens, h.handles⟩⟩
  · refine ⟨fun _ => .inl ⟨l, a, p, c, t, hu, by rw [heq], ht, ?_⟩,
      fun hf' => absurd (hf'.symm.trans hf) Bool.false_ne_true⟩
    exact hlive t (World.holds_of_runs hr ht (by rw [heq]; simp [RunnerEntry.tokens]))
  · refine ⟨fun _ => .inr ⟨s, c, t, mgr, e.hub, hu, by rw [heq], by rw [heq], by rw [heq], hrun,
      ?_, hacc, ?_⟩, fun hf' => absurd (hf'.symm.trans hf) Bool.false_ne_true⟩
    · exact hlive _ (World.holds_of_runs hr hrun (by rw [heq]; simp [RunnerEntry.tokens]))
    · exact hlive _ (World.holds_of_runs hr hacc (by rw [heq]; simp [RunnerEntry.tokens]))

/-- **A session that has been started is running.** -/
theorem World.Starts.up {w w' : World} {cfg : SessionConfig} (h : w.Starts cfg w') (hw : w.Wf)
    (hf : cfg.launchOnStartup = true) :
    ∃ r, w'.lookup (toAsciiLowercase cfg.name) = some r ∧ r.config = cfg ∧ w'.Up r := by
  have he := h.enters
  obtain ⟨w₁, r, rfl, hcfg, -, -, hformed, -⟩ := h
  have hr : (w₁.insert (toAsciiLowercase cfg.name) r).lookup (toAsciiLowercase cfg.name) =
      some r := World.lookup_insert _ _ _
  refine ⟨r, hr, hcfg, (RunnerEntry.Formed.up_or_down ?_ (fun t ht => ?_) hr).1 (hcfg ▸ hf)⟩
  · exact hformed.mono fun _ _ _ ht => ht
  · obtain ⟨-, hfresh⟩ | ⟨hne, -⟩ := (he.holds hw _ t).1 ht
    · exact (he.live t).2 (.inr hfresh)
    · exact absurd rfl hne

/-- **What runs after a start**: the sessions that have not been stopped. -/
theorem startup_up_or_down {stored : Config} {fpr : String} {fs : Fs}
    {sessions : List (SessionConfig × Except String Unit)} {w : World}
    (h : (startup sessions).run (World.new stored fpr fs) = some (.ok (), w)) {key : String}
    {r : RunnerEntry} (hr : w.lookup key = some r) :
    (r.config.launchOnStartup = true → w.Up r) ∧ (r.config.launchOnStartup = false → r.Down) := by
  have hsound : w.Sound := stable_sound.startup h (World.new_sound stored fpr fs)
  have hlive : w.AllLive := by
    -- a new state has no tasks
    refine startup_allLive (World.new_wf stored fpr fs) ?_ h
    rintro key t ⟨k, hk, -⟩
    cases hk
  exact (hsound.formed key r hr).up_or_down (hlive key) hr

/-! ### The file and the map -/

section File

variable (C : Codec)

/-- Loading `config.toml` gives the sessions of the map, each under its key. -/
def World.InFile (w : World) : Prop :=
  ∃ cfg, loadOrDefault C w.fs = .ok cfg ∧ DistinctKeys cfg.sessions ∧
    ∀ key, sessionAt cfg.sessions key = w.configAt key

/-- `config.toml` is missing, or the program has written it, in some run. -/
def WrittenByProgram (fs : Fs) : Prop :=
  fs.readConfig = none ∨ ∃ v d, ReachableWorld C v ∧ C.document v.config = .ok d ∧
    fs.readConfig = some d

/-- Every save that the call makes on its way can write its document down. -/
def Call.SavesSucceed (bind : Except String Unit) (w : World) : Call → Prop
  | create cfg => Admitted bind cfg → C.Writes (w.entered cfg).2.config
  | stop name => C.Writes (w.stopped (toAsciiLowercase name)).config
  | delete name => C.Writes (w.stopped (toAsciiLowercase name)).config ∧
      C.Writes ((w.stopped (toAsciiLowercase name)).remove (toAsciiLowercase name)).config
  | restart name => ∀ r, w.lookup (toAsciiLowercase name) = some r →
      C.Writes (w.stopped (toAsciiLowercase name)).config ∧
      (Admitted bind r.config →
        C.Writes ((w.stopped (toAsciiLowercase name)).entered r.config).2.config)
  | update oldName cfg => C.Writes (w.stopped (toAsciiLowercase oldName)).config ∧
      (Admitted bind (w.keepPassword oldName cfg) → C.Writes
        ((w.stopped (toAsciiLowercase oldName)).entered (w.keepPassword oldName cfg)).2.config)

/-- **Runs in which every save succeeds**: completed calls, which may still be refused by the
manager or by a bind, and tasks that end by themselves. -/
inductive SavingRun (w₀ : World) : World → Prop
  | start : SavingRun w₀ w₀
  | call {w w' : World} {r : Except AppError Unit} (c : Call) (bind : Except String Unit) :
      SavingRun w₀ w → c.SavesSucceed C bind w →
      (c.prog C ⟨SaveIo.none, bind, SaveIo.none⟩).run w = some (r, w') → SavingRun w₀ w'
  | taskEnds {w : World} (t : TaskId) : SavingRun w₀ w → SavingRun w₀ (w.endTask t)

theorem SavingRun.reachable {w₀ w : World} (h : SavingRun C w₀ w) (hw : ReachableWorld C w₀) :
    ReachableWorld C w := by
  induction h with
  | start => exact hw
  | call c bind _ _ hr ih => exact .call c _ ih hr
  | taskEnds t _ ih => exact .taskEnds t ih

/-- What such a run keeps of the directory. -/
structure World.Synced (w : World) : Prop where
  fsOk : FsOk w.fs
  inFile : w.InFile C

variable {C}

/-- The state is not written, and shows the same configurations. -/
theorem World.Synced.same {w w' : World} (h : w.Synced C) (hfs : w'.fs = w.fs)
    (hat : ∀ key, w'.configAt key = w.configAt key) : w'.Synced C := by
  obtain ⟨cfg, hload, hd, hkeys⟩ := h.inFile
  refine ⟨hfs ▸ h.fsOk, cfg, hfs ▸ hload, hd, fun key => ?_⟩
  rw [hkeys key, hat key]

/-- **A save that succeeds brings the file up to date**, whatever it was before. -/
theorem World.Wf.synced_persist (hC : C.Inverts) {w : World} (h : w.Wf) (hfs : FsOk w.fs)
    (hwrites : C.Writes w.config) : (w.persist C SaveIo.none).2.Synced C := by
  obtain ⟨hok, hcase⟩ := save_cases C SaveIo.none w.config hfs
  obtain ⟨d, hd, -, hread⟩ | ⟨e, he, -⟩ := hcase
  · exact ⟨hok, w.config, loadOrDefault_document hC hd hread, h.distinctKeys,
      h.sessionAt_config⟩
  · rw [(save_ok_iff _ _ _ _).2 ⟨hwrites, rfl⟩] at he
    cases he

/-- `create_session` brings the file up to date, or it has been refused and leaves it so. -/
theorem World.Synced.create (hC : C.Inverts) {w w' : World} (hw : w.Wf) (h : w.Synced C)
    {bind : Except String Unit} {cfg : SessionConfig} {r : Except AppError (String × StatusRx)}
    (hwrites : Admitted bind cfg → C.Writes (w.entered cfg).2.config)
    (hr : (createSession C bind SaveIo.none cfg).run w = some (r, w')) : w'.Synced C := by
  obtain ⟨e, -, rfl⟩ | ⟨e, -, -, rfl⟩ | ⟨ha, -, rfl⟩ := createSession_cases C hr
  · exact h
  · have hs := w.newSession_spawned cfg.sshUser cfg.password cfg.upstream ⟨cfg.autoReconnect, none⟩
    refine h.same hs.fs fun key => ?_
    unfold World.configAt
    rw [hs.lookup]
  · have he := w.entered_enters cfg
    refine (he.wf hw).synced_persist hC ?_ (hwrites ha)
    obtain ⟨w₁, e, hs, hw', -⟩ := he
    rw [hw', World.fs_insert, hs.fs]
    exact h.fsOk

/-- After a stop whose save succeeds the operation goes on. -/
theorem stopSession_bind_saved {α : Type} {io : SaveIo} {name : String} {w w' : World}
    {f : Except AppError Unit → Prog World (Except AppError α)} {r : Except AppError α}
    (h : (stopSession C io name >>= f).run w = some (r, w'))
    (hsave : ((w.stopped (toAsciiLowercase name)).persist C io).1 = .ok ()) :
    (f (.ok ())).run ((w.stopped (toAsciiLowercase name)).persist C io).2 = some (r, w') := by
  rw [Prog.run_bind] at h
  obtain ⟨⟨res, w₁⟩, hs, h⟩ := Option.bind_eq_some_iff.1 h
  obtain ⟨rfl, rfl⟩ := stopSession_run_some C hs
  rw [hsave] at h
  exact h

/-- **Every call keeps the file and the map in step.** -/
theorem World.Synced.call (hC : C.Inverts) {w w' : World} (hw : w.Wf) (h : w.Synced C) {c : Call}
    {bind : Except String Unit} {r : Except AppError Unit} (hsaves : c.SavesSucceed C bind w)
    (hr : (c.prog C ⟨SaveIo.none, bind, SaveIo.none⟩).run w = some (r, w')) : w'.Synced C := by
  -- the state in which an operation that has stopped a session goes on
  have hstop : ∀ name, C.Writes (w.stopped (toAsciiLowercase name)).config →
      ((w.stopped (toAsciiLowercase name)).persist C SaveIo.none).1 = .ok () ∧
        ((w.stopped (toAsciiLowercase name)).persist C SaveIo.none).2.Wf ∧
        ((w.stopped (toAsciiLowercase name)).persist C SaveIo.none).2.Synced C := by
    intro name hwrites
    refine ⟨(save_ok_iff _ _ _ _).2 ⟨hwrites, rfl⟩, (hw.stopped _).withFs _, ?_⟩
    exact (hw.stopped _).synced_persist hC (by rw [fs_stopped]; exact h.fsOk) hwrites
  -- how `restart_session` and `update_session` end
  have hcreate : ∀ (name : String) (cfg : SessionConfig) (r' : Except AppError (String × StatusRx)),
      C.Writes (w.stopped (toAsciiLowercase name)).config → (Admitted bind cfg →
        C.Writes ((w.stopped (toAsciiLowercase name)).entered cfg).2.config) →
      (createSession C bind SaveIo.none cfg).run
        ((w.stopped (toAsciiLowercase name)).persist C SaveIo.none).2 = some (r', w') →
      w'.Synced C := by
    intro name cfg r' hwrites hwrites' hc
    obtain ⟨-, hwf, hsynced⟩ := hstop name hwrites
    refine World.Synced.create hC hwf hsynced (fun ha => ?_) hc
    rw [World.persist_snd, World.entered_withFs]
    exact hwrites' ha
  cases c with
  | create cfg =>
      obtain ⟨r', hr⟩ := discard_some hr
      exact World.Synced.create hC hw h hsaves hr
  | stop name =>
      obtain ⟨-, rfl⟩ := stopSession_run_some C hr
      exact (hstop name hsaves).2.2
  | delete name =>
      obtain ⟨hok, hwf, hsynced⟩ := hstop name hsaves.1
      have hgo := stopSession_bind_saved hr hok
      simp only [Prog.run_bind, Prog.run_atomic, Option.bind_some, run_persistNow] at hgo
      -- whatever the last save answers, the state is the one it leaves
      have hw' : (World.persist C SaveIo.none
          (((w.stopped (toAsciiLowercase name)).persist C SaveIo.none).2.remove
            (toAsciiLowercase name))).2 = w' := by
        split at hgo <;> exact (Prod.mk.inj (Option.some_inj.1 hgo)).2
      rw [← hw']
      exact (hwf.remove _).synced_persist hC hsynced.fsOk hsaves.2
  | restart name =>
      obtain ⟨r', hr⟩ := discard_some hr
      rw [restartSession, Prog.run_bind, Prog.run_atomic, Option.bind_some] at hr
      cases hl : w.lookup (toAsciiLowercase name) with
      | none =>
          rw [hl] at hr
          obtain ⟨-, rfl⟩ := Prod.mk.inj (Option.some_inj.1 hr)
          exact h
      | some e =>
          rw [hl] at hr
          obtain ⟨hwrites, hwrites'⟩ := hsaves e hl
          have hgo := stopSession_bind_saved hr (hstop name hwrites).1
          obtain ⟨r'', hc, -⟩ := createSession_bind_run C hgo
          exact hcreate name e.config r'' hwrites hwrites' hc
  | update oldName cfg =>
      obtain ⟨r', hr⟩ := discard_some hr
      rw [updateSession, Prog.run_bind, Prog.run_atomic, Option.bind_some] at hr
      have hgo := stopSession_bind_saved hr (hstop oldName hsaves.1).1
      obtain ⟨r'', hc, -⟩ := createSession_bind_run C hgo
      exact hcreate oldName _ r'' hsaves.1 hsaves.2 hc

/-- **The file agrees with the map** in every run in which the saves succeed. -/
theorem SavingRun.synced (hC : C.Inverts) {w₀ w : World} (h : SavingRun C w₀ w)
    (hreach : ReachableWorld C w₀) (hs : w₀.Synced C) : w.Synced C := by
  induction h with
  | start => exact hs
  | call c bind hrun hsaves hr ih =>
      exact ih.call hC (hrun.reachable C hreach).wf hsaves hr
  | taskEnds t _ ih => exact ih.same rfl fun _ => rfl

/-- A start from a file that the program has written begins in step. -/
theorem synced_startup (hC : C.Inverts) {fs : Fs} (hfs : FsOk fs) (hwritten : WrittenByProgram C fs)
    {stored : Config} {fpr : String} {sessions : List (SessionConfig × Except String Unit)}
    {w : World} (hload : loadOrDefault C fs = .ok stored)
    (hsessions : sessions.map Prod.fst = stored.sessions)
    (hr : (startup sessions).run (World.new stored fpr fs) = some (.ok (), w)) : w.Synced C := by
  have hdistinct : DistinctKeys stored.sessions := by
    -- without a file the default configuration is loaded, which has no sessions
    obtain hnone | ⟨v, d, hv, hd, hread⟩ := hwritten
    · unfold loadOrDefault at hload
      rw [hnone] at hload
      obtain rfl := Except.ok.inj hload
      exact List.nodup_nil
    · rw [loadOrDefault_document hC hd hread] at hload
      obtain rfl := Except.ok.inj hload
      exact hv.wf.distinctKeys
  have hsame : w.fs = fs := by
    have hkeep : (startup sessions).Updates fun u => ∀ v : World, v.fs = fs → (u v).fs = fs :=
      (startup_leaves sessions).mono fun u hu v hv => (hu v).1.trans hv
    exact hkeep.run_preserves hr rfl
  refine ⟨hsame ▸ hfs, stored, hsame ▸ hload, hdistinct, fun key => ?_⟩
  rw [startup_configAt (hsessions ▸ hdistinct) hr, hsessions]
  exact (Option.or_none).symm

/-! ### The restart -/

/-- The map has been rebuilt: the same keys with the same configurations, and the tasks of exactly
those sessions that have not been stopped. -/
structure Rebuilt (w w' : World) : Prop where
  configAt : ∀ key, w'.configAt key = w.configAt key
  up : ∀ key r, w'.lookup key = some r → r.config.launchOnStartup = true → w'.Up r
  down : ∀ key r, w'.lookup key = some r → r.config.launchOnStartup = false → r.Down

/-- The flag of every entry tells whether it holds tasks, and its key is that of its session. -/
structure Marked (w : World) : Prop where
  flag : ∀ key r, w.lookup key = some r →
    (r.config.launchOnStartup = true ↔ r.started.isSome = true ∨ r.proxyCancel.isSome = true)
  key : ∀ key r, w.lookup key = some r → toAsciiLowercase r.config.name = key

/-- **What a file that agrees with the map makes of a start**, whatever the order of its
sessions. -/
theorem World.InFile.rebuilds {w : World} (h : w.InFile C) (hsound : w.Sound) (fpr : String) :
    ∃ next, loadOrDefault C w.fs = .ok next ∧ ∀ l : List SessionConfig, l.Perm next.sessions →
      ∃ w', (startup (l.map fun s => (s, .ok ()))).run (World.new next fpr w.fs) =
        some (.ok (), w') ∧ Rebuilt w w' := by
  obtain ⟨next, hload, hdistinct, hkeys⟩ := h
  refine ⟨next, hload, fun l hp => ?_⟩
  -- what stands in the map could be started, so it can be started again
  have hstartable : ∀ s ∈ l, s.Startable := by
    intro s hs
    have hat := sessionAt_of_mem hdistinct (hp.mem_iff.1 hs)
    rw [hkeys] at hat
    obtain ⟨r, hr, rfl⟩ := Option.map_eq_some_iff.1 hat
    exact (hsound.formed _ r hr).startable
  obtain ⟨w', hw'⟩ := startup_returns hstartable (World.new next fpr w.fs)
  have hl : (l.map fun s => (s, (.ok () : Except String Unit))).map Prod.fst = l := by
    rw [List.map_map]
    exact List.map_id l
  have hl' : DistinctKeys l := (hp.map _).nodup_iff.2 hdistinct
  refine ⟨w', hw', fun key => ?_, fun key r hr => ?_, fun key r hr => ?_⟩
  · rw [startup_configAt (by rw [hl]; exact hl') hw', hl, sessionAt_perm hp hdistinct, hkeys]
    exact Option.or_none
  · exact (startup_up_or_down hw' hr).1
  · exact (startup_up_or_down hw' hr).2

/-- **A restart restores the sessions.**  The program is started from a file that it has written
itself, and any calls follow, in which every save succeeds.  Then the flags and the keys of the map
are right, the file is loaded again, and when all binds succeed the start-up loop rebuilds the
map. -/
theorem restart_restores (hC : C.Inverts) {fs : Fs} (hfs : FsOk fs)
    (hwritten : WrittenByProgram C fs) {stored : Config} {fpr : String}
    {sessions : List (SessionConfig × Except String Unit)} {w₀ w : World}
    (hload : loadOrDefault C fs = .ok stored)
    (hsessions : sessions.map Prod.fst = stored.sessions)
    (hstart : (startup sessions).run (World.new stored fpr fs) = some (.ok (), w₀))
    (hrun : SavingRun C w₀ w) (fpr' : String) :
    Marked w ∧ ∃ next, loadOrDefault C w.fs = .ok next ∧
      ∀ l : List SessionConfig, l.Perm next.sessions →
        ∃ w', (startup (l.map fun s => (s, .ok ()))).run (World.new next fpr' w.fs) =
          some (.ok (), w') ∧ Rebuilt w w' := by
  have hboot : Boots C w₀ := by
    refine ⟨fs, stored, fpr, sessions, none, hload, ?_, hstart⟩
    rw [hsessions]
    exact List.append_nil _
  have hreach := hrun.reachable C (.boot hboot)
  have hsynced := hrun.synced hC (.boot hboot)
    (synced_startup hC hfs hwritten hload hsessions hstart)
  refine ⟨⟨fun key r hr => (hreach.sound.formed key r hr).flag_iff, hreach.wf.keyed⟩, ?_⟩
  exact hsynced.inFile.rebuilds hreach.sound fpr'

end File

/-- What is written for one session on the loopback upstream. -/
def loopbackSaved : Config :=
  { defaultConfig with sessions := [{ loopbackSession "a" "0.0.0.0:2301" with
      password := "plain:" ++ base64Encode (asBytes "pass") }] }

theorem restart_restores_loopback : ∃ (C : Codec) (w : World), (w.lookup "a").isSome = true ∧
    Marked w ∧ ∃ next, loadOrDefault C w.fs = .ok next ∧
      ∀ l : List SessionConfig, l.Perm next.sessions →
        ∃ w', (startup (l.map fun s => (s, .ok ()))).run (World.new next "SHA256:" w.fs) =
          some (.ok (), w') ∧ Rebuilt w w' := by
  let C := knownCodec [loopbackSaved]
  let cfg := loopbackSession "a" "0.0.0.0:2301"
  have hC : C.Inverts := by
    refine knownCodec_inverts fun c hc c' hc' _ => ?_
    rw [List.mem_singleton.1 hc, List.mem_singleton.1 hc']
  have hwrites : C.Writes (World.empty.entered cfg).2.config := by
    have hredact : redactForSave C (World.empty.entered cfg).2.config = .ok loopbackSaved := rfl
    refine ⟨asBytes loopbackSaved.toToml, ?_⟩
    have htext : C.toStringPretty loopbackSaved = .ok (asBytes loopbackSaved.toToml) :=
      knownCodec_toStringPretty (List.mem_singleton_self _)
    rw [hredact]
    exact htext
  have hadmitted : Admitted (.ok ()) cfg := .inr ⟨by decide, rfl⟩
  obtain ⟨res, w, hcall, ha⟩ : ∃ (res : Except AppError Unit) (w : World),
      ((Call.create cfg).prog C ⟨SaveIo.none, .ok (), SaveIo.none⟩).run World.empty =
        some (res, w) ∧ (w.lookup "a").isSome = true := by
    rw [Call.prog, discard_run, run_createSession_admitted C hadmitted]
    refine ⟨_, _, rfl, ?_⟩
    obtain ⟨w₁, e, -, hw, -⟩ := World.empty.entered_enters cfg
    have hkey : toAsciiLowercase "a" = "a" := by decide
    rw [World.persist_snd, World.lookup_withFs, hw]
    change ((w₁.insert (toAsciiLowercase "a") e).lookup "a").isSome = true
    rw [hkey, World.lookup_insert]
    rfl
  have hstart : (startup []).run (World.new defaultConfig "SHA256:" Fs.empty) =
      some (.ok (), World.empty) := rfl
  exact ⟨C, w, ha, restart_restores hC Saves.fsOk_empty (.inl rfl) rfl rfl hstart
    (.call (.create cfg) (.ok ()) .start (fun _ => hwrites) hcall) "SHA256:"⟩

end TermHub
