/-
**What an entry of the session map can look like.**

The session operations and the start-up loop of `main` start a session by separate pieces of code.
Seen from the map they do the same: an entry is idle, or it holds a port forward, or it holds a
runner and an accept loop that belong together.  A manager that is kept in an entry knows one
session, by the user name and the password of the entry's own configuration, and its hub belongs to
no other entry.

Main definitions:

* `RunnerEntry.Idle`, `RunnerEntry.Forwards`, `RunnerEntry.Serves` — the three kinds of entries;
* `SessionConfig.Registers` — what the manager of a session knows;
* `World.Starts` — a state with one session more;
* `World.Sound` — the invariant of the entries.

Main results:

* `World.entered_starts`, `startStored_starts` — **both ways to start a session do the same**;
* `ReachableWorld.rule` — **the induction rule of the reachable states**;
* `ReachableWorld.sound` — every reachable state is sound.
-/

import TermHub.AppLogicSpec

set_option relaxedAutoImplicit false
set_option autoImplicit false

namespace TermHub

open Sections

/-! ### Entries -/

/-- The task has been spawned for `kind` and listens to the token. -/
def World.Runs (w : World) (t : TaskId) (kind : TaskKind) (c : Token) : Prop :=
  ∃ k, w.rt.tasks[t]? = some k ∧ k.kind = kind ∧ k.cancel = c

/-- The manager knows the session and nothing else. -/
structure SessionConfig.Registers (cfg : SessionConfig) (e : SessionEntry) (mgr : SessionMgr) :
    Prop where
  mgr_eq : mgr = AList.insert (toAsciiLowercase cfg.sshUser) e ∅
  name : e.name = cfg.sshUser
  password : e.password = cfg.password
  valid : (normalizeName cfg.sshUser).isSome = true

namespace RunnerEntry

/-- The session has been stopped, and nothing is held. -/
structure Idle (r : RunnerEntry) : Prop where
  flag : r.config.launchOnStartup = false
  tokens : r.tokens = []
  handles : r.handles = []

/-- The session is a port forward. -/
def Forwards (w : World) (r : RunnerEntry) : Prop :=
  ∃ listen target protocol c t, r.config.upstream = .httpProxy listen target protocol ∧
    r.config.launchOnStartup = true ∧ w.Runs t (.portForward listen target protocol) c ∧
    r = ⟨none, r.config, some c, none, none, none⟩

/-- The session has a runner and an accept loop: the accept loop asks the manager of the entry, and
the hub that the manager hands out is the runner's. -/
def Serves (w : World) (r : RunnerEntry) : Prop :=
  ∃ s c h mgr e, r.config.upstream.isHttpProxy = false ∧ r.config.launchOnStartup = true ∧
    r.config.Registers e mgr ∧
    w.Runs s.handle (.runner e.hub r.config.upstream ⟨r.config.autoReconnect, none⟩) s.cancel ∧
    w.Runs h (.acceptLoop r.config.listen mgr) c ∧
    r = ⟨some s, r.config, none, some c, some h, some mgr⟩

/-- The entry is of one of the three kinds. -/
def Formed (w : World) (r : RunnerEntry) : Prop := r.Idle ∨ r.Forwards w ∨ r.Serves w

theorem Formed.mono {w w' : World} {r : RunnerEntry} (h : r.Formed w)
    (hruns : ∀ t kind c, w.Runs t kind c → w'.Runs t kind c) : r.Formed w' := by
  obtain h | ⟨l, t, p, c, n, hu, hf, hn, hr⟩ | ⟨s, c, n, mgr, e, hu, hf, hreg, hrun, hacc, hr⟩ := h
  · exact .inl h
  · exact .inr (.inl ⟨l, t, p, c, n, hu, hf, hruns _ _ _ hn, hr⟩)
  · exact .inr (.inr ⟨s, c, n, mgr, e, hu, hf, hreg, hruns _ _ _ hrun, hruns _ _ _ hacc, hr⟩)

/-- **The flag tells whether tasks are held.** -/
theorem Formed.flag_iff {w : World} {r : RunnerEntry} (h : r.Formed w) :
    r.config.launchOnStartup = true ↔ r.started.isSome = true ∨ r.proxyCancel.isSome = true := by
  obtain h | ⟨l, t, p, c, n, -, hf, -, hr⟩ | ⟨s, c, n, mgr, e, -, hf, -, -, -, hr⟩ := h
  · rw [h.flag]
    have htok := h.tokens
    unfold tokens at htok
    cases hs : r.started with
    | some s => simp [hs] at htok
    | none =>
        cases hp : r.proxyCancel with
        | some c => simp [hp] at htok
        | none => simp
  · rw [hr]
    simp [hf]
  · rw [hr]
    simp [hf]

/-- The handles of an entry are those of tasks that listen to its tokens. -/
theorem Formed.handles_held {w : World} {r : RunnerEntry} (h : r.Formed w) :
    ∀ t ∈ r.handles, ∃ k, w.rt.tasks[t]? = some k ∧ k.cancel ∈ r.tokens := by
  intro t ht
  -- a port forward keeps its token and lets go of its handle
  obtain h | ⟨l, a, p, c, n, -, -, -, hr⟩ | ⟨s, c, n, mgr, e, -, -, -, hrun, hacc, hr⟩ := h
  · rw [h.handles] at ht
    cases ht
  · rw [hr] at ht
    cases ht
  · rw [hr] at ht ⊢
    obtain rfl | rfl : t = s.handle ∨ t = n := by simpa [handles] using ht
    · obtain ⟨k, hk, -, hc⟩ := hrun
      exact ⟨k, hk, by simp [tokens, hc]⟩
    · obtain ⟨k, hk, -, hc⟩ := hacc
      exact ⟨k, hk, by simp [tokens, hc]⟩

/-- An idle entry does not change when its session is stopped. -/
theorem Idle.stopped_eq {r : RunnerEntry} (h : r.Idle) : r.taken.demoted = r := by
  obtain ⟨started, ⟨name, password, sshUser, listen, autoReconnect, launch, pty, upstream⟩,
    proxyCancel, sshdCancel, sshdHandle, mgr⟩ := r
  obtain ⟨rfl, htok, hhan⟩ := h
  simp only [RunnerEntry.tokens, RunnerEntry.handles, List.append_eq_nil_iff,
    Option.toList_eq_nil_iff, Option.map_eq_none_iff] at htok hhan
  obtain ⟨⟨rfl, rfl⟩, rfl⟩ := htok
  obtain ⟨-, rfl⟩ := hhan
  rfl

/-- A session that has been stopped is idle. -/
theorem idle_stopped (r : RunnerEntry) : r.taken.demoted.Idle := ⟨rfl, rfl, rfl⟩

end RunnerEntry

/-! ### Starting a session -/

/-- `w'` is `w` with fresh tasks and objects and a new entry, for `cfg`, of one of the three
kinds. -/
def World.Starts (w : World) (cfg : SessionConfig) (w' : World) : Prop :=
  ∃ w₁ e, w' = w₁.insert (toAsciiLowercase cfg.name) e ∧ e.config = cfg ∧
    World.Spawned w w₁ e.tokens ∧ w.rt.objects ≤ w₁.rt.objects ∧ e.Formed w₁ ∧
    ∀ mgr, e.sessionMgr = some mgr →
      ∃ s, cfg.Registers s mgr ∧ w.rt.objects ≤ s.hub ∧ s.hub < w₁.rt.objects

namespace World

theorem Starts.enters {w w' : World} {cfg : SessionConfig} (h : w.Starts cfg w') :
    w.Enters cfg w' := by
  obtain ⟨w₁, e, hw, hcfg, hs, -, hformed, -⟩ := h
  exact ⟨w₁, e, hs, hw, hcfg, hformed.handles_held⟩

theorem runs_spawn (w : World) (kind : TaskKind) :
    (w.spawn kind).2.2.Runs (w.spawn kind).2.1 kind (w.spawn kind).1 :=
  ⟨_, tasks_spawn_self w kind, rfl, rfl⟩

theorem Runs.spawn {w : World} {t : TaskId} {kind : TaskKind} {c : Token} (h : w.Runs t kind c)
    (kind' : TaskKind) : (w.spawn kind').2.2.Runs t kind c := by
  obtain ⟨k, hk, hkind, hc⟩ := h
  exact ⟨k, tasks_spawn_of_some hk kind', hkind, hc⟩

/-- A session that the user had stopped is only entered. -/
theorem starts_idle (w : World) {cfg : SessionConfig} (hf : cfg.launchOnStartup = false) :
    w.Starts cfg (w.insert (toAsciiLowercase cfg.name) ⟨none, cfg, none, none, none, none⟩) :=
  ⟨w, ⟨none, cfg, none, none, none, none⟩, rfl, rfl, Spawned.refl w, le_rfl,
    .inl ⟨hf, rfl, rfl⟩, fun mgr hmgr => by cases hmgr⟩

/-- A port forward: its task is spawned, and nothing else that listens to a token. -/
theorem starts_forward {w w₁ : World} (cfg : SessionConfig) {listen target protocol : String}
    {c : Token} {t : TaskId} (hu : cfg.upstream = .httpProxy listen target protocol)
    (hf : cfg.launchOnStartup = true) (hs : Spawned w w₁ [c])
    (hobj : w.rt.objects ≤ w₁.rt.objects) (ht : w₁.Runs t (.portForward listen target protocol) c) :
    w.Starts cfg
      (w₁.insert (toAsciiLowercase cfg.name) ⟨none, cfg, some c, none, none, none⟩) :=
  ⟨w₁, ⟨none, cfg, some c, none, none, none⟩, rfl, rfl, hs, hobj,
    .inr (.inl ⟨listen, target, protocol, c, t, hu, hf, ht, rfl⟩), fun mgr hmgr => by cases hmgr⟩

/-- A regular session: hub, manager, runner and accept loop. -/
theorem starts_session (w : World) (cfg : SessionConfig) (hu : cfg.upstream.isHttpProxy = false)
    (hf : cfg.launchOnStartup = true) (hn : (normalizeName cfg.sshUser).isSome = true) :
    let n := w.newSession cfg.sshUser cfg.password cfg.upstream ⟨cfg.autoReconnect, none⟩
    let mgr : SessionMgr := AList.insert (toAsciiLowercase cfg.sshUser) n.1 ∅
    let a := n.2.2.spawn (.acceptLoop cfg.listen mgr)
    w.Starts cfg (a.2.2.insert (toAsciiLowercase cfg.name)
      ⟨some ⟨n.1.status, n.1.cancel, n.2.1⟩, cfg, none, some a.1, some a.2.1, some mgr⟩) := by
  intro n mgr a
  have hreg : cfg.Registers n.1 mgr := ⟨rfl, rfl, rfl, hn⟩
  have hobj : a.2.2.rt.objects = w.rt.objects + 3 := rfl
  have hhub : n.1.hub = w.rt.objects := rfl
  have hrun : a.2.2.Runs n.2.1 (.runner n.1.hub cfg.upstream ⟨cfg.autoReconnect, none⟩)
      n.1.cancel := Runs.spawn (runs_spawn _ _) _
  refine ⟨a.2.2, ⟨some ⟨n.1.status, n.1.cancel, n.2.1⟩, cfg, none, some a.1, some a.2.1, some mgr⟩,
    rfl, rfl, ?_, ?_, ?_, ?_⟩
  · exact (newSession_spawned w cfg.sshUser cfg.password cfg.upstream _).spawn _
  · rw [hobj]
    exact Nat.le_add_right _ _
  · exact .inr (.inr ⟨_, _, _, mgr, n.1, hu, hf, hreg, hrun, runs_spawn _ _, rfl⟩)
  · intro mgr' hmgr'
    obtain rfl : mgr = mgr' := Option.some_inj.1 hmgr'
    refine ⟨n.1, hreg, le_of_eq hhub.symm, ?_⟩
    rw [hhub, hobj]
    exact Nat.lt_add_of_pos_right (by decide)

/-- **What `create_session` starts**, once it is admitted. -/
theorem entered_starts {bind : Except String Unit} {cfg : SessionConfig} (h : Admitted bind cfg)
    (w : World) : w.Starts { cfg with launchOnStartup := true } (w.entered cfg).2 := by
  cases hp : cfg.upstream.isHttpProxy with
  | true =>
      obtain ⟨name, password, sshUser, listen, autoReconnect, launch, pty, upstream⟩ := cfg
      cases upstream with
      | httpProxy l t p =>
          exact starts_forward ⟨name, password, sshUser, listen, autoReconnect, true, pty, _⟩
            rfl rfl ((Spawned.refl w).spawn (.portForward l t p)).newObject (Nat.le_succ _)
            (runs_spawn w (.portForward l t p))
      | _ => cases hp
  | false =>
      obtain ⟨hn, -⟩ := h.resolve_left (by rw [hp]; exact Bool.false_ne_true)
      rw [entered_session hp]
      exact starts_session w { cfg with launchOnStartup := true } hp rfl hn

end World

/-- A stored session starts if it is not a regular one, or has a user name that is accepted. -/
def SessionConfig.Startable (s : SessionConfig) : Prop :=
  s.launchOnStartup = true → s.upstream.isHttpProxy = false →
    (normalizeName s.sshUser).isSome = true

/-- The regular branch of the start-up loop. -/
theorem run_startStored_session (bind : Except String Unit) {s : SessionConfig}
    (hf : s.launchOnStartup = true) (hp : s.upstream.isHttpProxy = false) (w : World) :
    (startStored bind s).run w =
      let n := w.newSession s.sshUser s.password s.upstream ⟨s.autoReconnect, none⟩
      let mgr : SessionMgr := AList.insert (toAsciiLowercase s.sshUser) n.1 ∅
      let a := n.2.2.spawn (.acceptLoop s.listen mgr)
      match normalizeName s.sshUser, bind with
      | none, _ => some (.error "invalid session name", w)
      | some _, .error e => some (.error e, n.2.2)
      | some _, .ok () => some (.ok (), a.2.2.insert (toAsciiLowercase s.name)
          ⟨some ⟨n.1.status, n.1.cancel, n.2.1⟩, s, none, some a.1, some a.2.1, some mgr⟩) := by
  unfold startStored
  simp only [hf, Bool.not_true, Bool.false_eq_true, if_false]
  have hreg := register_newSession w s.sshUser s.password s.upstream ⟨s.autoReconnect, none⟩
  cases hu : s.upstream with
  | httpProxy l t p => rw [hu] at hp; cases hp
  | _ =>
      rw [hu] at hreg
      simp only [startSession, sshdStart, Prog.run_bind, Prog.run_atomic, Option.bind_some, hreg]
      cases normalizeName s.sshUser with
      | none => rfl
      | some key => cases bind <;> rfl

/-- **What the start-up loop starts.** -/
theorem startStored_starts {bind : Except String Unit} {s : SessionConfig} {w w' : World}
    (h : (startStored bind s).run w = some (.ok (), w')) : s.Startable ∧ w.Starts s w' := by
  cases hl : s.launchOnStartup with
  | false =>
      unfold startStored at h
      simp only [hl, Bool.not_false, if_true] at h
      obtain ⟨-, rfl⟩ := Prod.mk.inj (Option.some_inj.1 h)
      exact ⟨fun hf => absurd (hl.symm.trans hf) Bool.false_ne_true, w.starts_idle hl⟩
  | true =>
      cases hp : s.upstream.isHttpProxy with
      | true =>
          refine ⟨fun _ hp' => absurd (hp'.symm.trans hp) Bool.false_ne_true, ?_⟩
          unfold startStored at h
          cases hu : s.upstream with
          | httpProxy l t p =>
              simp only [hl, Bool.not_true, Bool.false_eq_true, if_false, hu] at h
              obtain ⟨-, rfl⟩ := Prod.mk.inj (Option.some_inj.1 h)
              exact World.starts_forward s hu hl
                ((World.Spawned.refl w).spawn (.portForward l t p)) le_rfl
                (w.runs_spawn (.portForward l t p))
          | _ => rw [hu] at hp; cases hp
      | false =>
          rw [run_startStored_session bind hl hp] at h
          cases hn : normalizeName s.sshUser with
          | none =>
              rw [hn] at h
              cases Prod.mk.inj (Option.some_inj.1 h) |>.1
          | some key =>
              rw [hn] at h
              have hsome : (normalizeName s.sshUser).isSome = true := by rw [hn]; rfl
              cases bind with
              | error e => cases Prod.mk.inj (Option.some_inj.1 h) |>.1
              | ok u =>
                  obtain ⟨-, rfl⟩ := Prod.mk.inj (Option.some_inj.1 h)
                  exact ⟨fun _ _ => hsome, w.starts_session s hp hl hsome⟩

/-! ### The induction rule -/

section Reachable

variable (C : Codec)

/-- A property that is kept when tasks end, when a save has changed the directory, when a session
is stopped, removed or started, and when a runner is left behind. -/
structure Stable (I : World → Prop) : Prop where
  fs : ∀ (w : World) (fs : Fs), I w → I (w.withFs fs)
  endTask : ∀ (w : World) (t : TaskId), I w → I (w.endTask t)
  stopped : ∀ (w : World) (key : String), I w → I (w.stopped key)
  remove : ∀ (w : World) (key : String), I w → I (w.remove key)
  leftBehind : ∀ (w : World) (cfg : SessionConfig), I w → I (w.newSession cfg.sshUser cfg.password
    cfg.upstream ⟨cfg.autoReconnect, none⟩).2.2
  starts : ∀ (w : World) (cfg : SessionConfig) (w' : World), I w → w.Starts cfg w' → I w'

variable {C} {I : World → Prop}

theorem Stable.createSession (h : Stable I) {bind : Except String Unit} {io : SaveIo}
    {cfg : SessionConfig} {w w' : World} {r : Except AppError (String × StatusRx)}
    (hr : (createSession C bind io cfg).run w = some (r, w')) (hw : I w) : I w' := by
  obtain ⟨e, -, rfl⟩ | ⟨e, -, -, rfl⟩ | ⟨ha, -, rfl⟩ := createSession_cases C hr
  · exact hw
  · exact h.leftBehind w cfg hw
  · exact h.fs _ _ (h.starts w _ _ hw (World.entered_starts ha w))

/-- **Every call keeps it**, whatever its outcome. -/
theorem Stable.call (h : Stable I) {c : Call} {io : CallIo} {w w' : World}
    {r : Except AppError Unit} (hr : (c.prog C io).run w = some (r, w')) (hw : I w) : I w' := by
  have hstopped := fun name => h.stopped w (toAsciiLowercase name) hw
  cases c with
  | create cfg =>
      obtain ⟨r', hr⟩ := discard_some hr
      exact h.createSession hr hw
  | stop name =>
      obtain ⟨fs, rfl⟩ := stopSession_ok C hr
      exact h.fs _ _ (hstopped name)
  | delete name =>
      obtain ⟨fs, ⟨e, -, rfl⟩ | rfl⟩ := deleteSession_run_some C hr
      · exact h.fs _ _ (hstopped name)
      · exact h.fs _ _ (h.remove _ _ (hstopped name))
  | restart name =>
      obtain ⟨r', hr⟩ := discard_some hr
      obtain ⟨-, -, rfl⟩ | ⟨e, fs, -, ⟨m, -, rfl⟩ | ⟨r'', hc, -⟩⟩ := restartSession_run_some C hr
      · exact hw
      · exact h.fs _ _ (hstopped name)
      · exact h.createSession hc (h.fs _ _ (hstopped name))
  | update oldName cfg =>
      obtain ⟨r', hr⟩ := discard_some hr
      obtain ⟨fs, ⟨m, -, rfl⟩ | ⟨r'', hc, -⟩⟩ := updateSession_run_some C hr
      · exact h.fs _ _ (hstopped oldName)
      · exact h.createSession hc (h.fs _ _ (hstopped oldName))

theorem Stable.startup (h : Stable I) {sessions : List (SessionConfig × Except String Unit)}
    {w w' : World} (hr : (startup sessions).run w = some (.ok (), w')) (hw : I w) : I w' := by
  induction sessions generalizing w with
  | nil =>
      obtain ⟨-, rfl⟩ := Prod.mk.inj (Option.some_inj.1 hr)
      exact hw
  | cons x rest ih =>
      obtain ⟨w₁, hs, hr⟩ := startup_cons hr
      exact ih hr (h.starts w _ _ hw (startStored_starts hs).2)

/-- **The induction rule of the reachable states.** -/
theorem ReachableWorld.rule (h : Stable I)
    (hnew : ∀ stored fpr fs, I (World.new stored fpr fs)) {w : World} (hw : ReachableWorld C w) :
    I w := by
  induction hw with
  | boot hb =>
      obtain ⟨fs, stored, fpr, sessions, dev, -, -, hr⟩ := hb
      exact h.startup hr (hnew stored fpr fs)
  | call c io _ hr ih => exact h.call hr ih
  | taskEnds t _ ih => exact h.endTask _ t ih

end Reachable

/-! ### Sound entries -/

namespace World

/-- The manager of the entry under `key` hands out the hub. -/
def HasHub (w : World) (key : String) (hub : HubHandle) : Prop :=
  ∃ r mgr name e, w.lookup key = some r ∧ r.sessionMgr = some mgr ∧
    mgr.lookup name = some e ∧ e.hub = hub

/-- **The invariant of the entries.** -/
structure Sound (w : World) : Prop where
  formed : ∀ key r, w.lookup key = some r → r.Formed w
  registers : ∀ key r mgr, w.lookup key = some r → r.sessionMgr = some mgr →
    ∃ e, r.config.Registers e mgr
  hub_lt : ∀ key hub, w.HasHub key hub → hub < w.rt.objects
  hub_once : ∀ key key' hub, w.HasHub key hub → w.HasHub key' hub → key = key'

/-- Tasks keep what they run, objects are not forgotten, and entries go or are stopped. -/
theorem Sound.of_fewer {w w' : World} (h : w.Sound)
    (hruns : ∀ t kind c, w.Runs t kind c → w'.Runs t kind c)
    (hobj : w.rt.objects ≤ w'.rt.objects)
    (hent : ∀ key r', w'.lookup key = some r' →
      ∃ r, w.lookup key = some r ∧ (r' = r ∨ r' = r.taken.demoted)) : w'.Sound := by
  have hmgr : ∀ r r' : RunnerEntry, (r' = r ∨ r' = r.taken.demoted) →
      r'.sessionMgr = r.sessionMgr := by
    rintro r r' (rfl | rfl)
    · rfl
    · rfl
  -- stopping an entry leaves its manager
  have hhub : ∀ key hub, w'.HasHub key hub → w.HasHub key hub := by
    rintro key hub ⟨r', mgr, name, e, hr', hm, he⟩
    obtain ⟨r, hr, hsame⟩ := hent key r' hr'
    exact ⟨r, mgr, name, e, hr, (hmgr r r' hsame) ▸ hm, he⟩
  refine ⟨?_, ?_, ?_, ?_⟩
  · intro key r' hr'
    obtain ⟨r, hr, rfl | rfl⟩ := hent key r' hr'
    · exact (h.formed key r' hr).mono hruns
    · exact .inl r.idle_stopped
  · intro key r' mgr hr' hm
    obtain ⟨r, hr, hsame⟩ := hent key r' hr'
    obtain ⟨e, he⟩ := h.registers key r mgr hr ((hmgr r r' hsame) ▸ hm)
    refine ⟨e, ?_⟩
    obtain rfl | rfl := hsame
    · exact he
    · exact ⟨he.mgr_eq, he.name, he.password, he.valid⟩
  · exact fun key hub hk => Nat.lt_of_lt_of_le (h.hub_lt key hub (hhub key hub hk)) hobj
  · exact fun key key' hub hk hk' => h.hub_once key key' hub (hhub key hub hk) (hhub key' hub hk')

theorem Spawned.runs {w w' : World} {cs : List Token} (hs : Spawned w w' cs) {t : TaskId}
    {kind : TaskKind} {c : Token} (h : w.Runs t kind c) : w'.Runs t kind c := by
  obtain ⟨k, hk, hkc⟩ := h
  refine ⟨k, ?_, hkc⟩
  rw [hs.tasks_old t (List.getElem?_eq_some_iff.1 hk).1]
  exact hk

/-- The hubs after a session has been started: a fresh one, or those there were. -/
theorem Starts.hasHub {w w' : World} {cfg : SessionConfig} (h : w.Starts cfg w') {key : String}
    {hub : HubHandle} (hk : w'.HasHub key hub) :
    (key = toAsciiLowercase cfg.name ∧ w.rt.objects ≤ hub ∧ hub < w'.rt.objects) ∨
      (key ≠ toAsciiLowercase cfg.name ∧ w.HasHub key hub) := by
  obtain ⟨w₁, e, rfl, -, hs, -, -, hmgr⟩ := h
  obtain ⟨r, mgr, name, x, hr, hm, hx, rfl⟩ := hk
  by_cases heq : key = toAsciiLowercase cfg.name
  · subst heq
    rw [lookup_insert] at hr
    obtain rfl := Option.some_inj.1 hr
    obtain ⟨y, hreg, hge, hlt⟩ := hmgr mgr hm
    rw [hreg.mgr_eq] at hx
    by_cases hname : name = toAsciiLowercase cfg.sshUser
    · rw [hname, AList.lookup_insert] at hx
      obtain rfl := Option.some_inj.1 hx
      exact .inl ⟨rfl, hge, hlt⟩
    · rw [AList.lookup_insert_ne hname, AList.lookup_empty] at hx
      cases hx
  · rw [lookup_insert_ne heq, hs.lookup] at hr
    exact .inr ⟨heq, r, mgr, name, x, hr, hm, hx, rfl⟩

/-- **Starting a session keeps the entries sound.** -/
theorem Sound.starts {w w' : World} {cfg : SessionConfig} (h : w.Sound) (hw : w.Starts cfg w') :
    w'.Sound := by
  have hhub : ∀ key hub, w'.HasHub key hub →
      (key = toAsciiLowercase cfg.name ∧ w.rt.objects ≤ hub ∧ hub < w'.rt.objects) ∨
        (key ≠ toAsciiLowercase cfg.name ∧ w.HasHub key hub) := fun key hub => hw.hasHub
  obtain ⟨w₁, e, rfl, hcfg, hs, hobj, hformed, hmgr⟩ := hw
  have hlookup : ∀ key r, (w₁.insert (toAsciiLowercase cfg.name) e).lookup key = some r →
      r = e ∨ w.lookup key = some r := by
    intro key r hr
    by_cases hk : key = toAsciiLowercase cfg.name
    · rw [hk, lookup_insert] at hr
      exact .inl (Option.some_inj.1 hr).symm
    · rw [lookup_insert_ne hk, hs.lookup] at hr
      exact .inr hr
  refine ⟨?_, ?_, ?_, ?_⟩
  · intro key r hr
    obtain rfl | hr := hlookup key r hr
    · exact hformed
    · exact (h.formed key r hr).mono fun t kind c ht => hs.runs ht
  · intro key r mgr hr hm
    obtain rfl | hr := hlookup key r hr
    · obtain ⟨s, hreg, -⟩ := hmgr mgr hm
      exact ⟨s, hcfg ▸ hreg⟩
    · exact h.registers key r mgr hr hm
  · intro key hub hk
    obtain ⟨-, -, hlt⟩ | ⟨-, hk⟩ := hhub key hub hk
    · exact hlt
    · exact Nat.lt_of_lt_of_le (h.hub_lt key hub hk) hobj
  · intro key key' hub hk hk'
    -- a hub is fresh, or it is an old one
    obtain ⟨hc, hge, -⟩ | ⟨-, hk⟩ := hhub key hub hk <;>
      obtain ⟨hc', hge', -⟩ | ⟨-, hk'⟩ := hhub key' hub hk'
    · rw [hc, hc']
    · exact absurd (h.hub_lt key' hub hk') (Nat.not_lt.2 hge)
    · exact absurd (h.hub_lt key hub hk) (Nat.not_lt.2 hge')
    · exact h.hub_once key key' hub hk hk'

/-- A task keeps what it runs when others are ended or stopped. -/
theorem Runs.of_tasks {w w' : World} {t : TaskId}
    (h : (w'.rt.tasks[t]?).map (fun k => (k.kind, k.cancel)) =
      (w.rt.tasks[t]?).map (fun k => (k.kind, k.cancel)))
    {kind : TaskKind} {c : Token} (ht : w.Runs t kind c) : w'.Runs t kind c := by
  obtain ⟨k, hk, rfl, rfl⟩ := ht
  rw [hk, Option.map_some] at h
  obtain ⟨k', hk', hsame⟩ := Option.map_eq_some_iff.1 h
  obtain ⟨hkind, hcancel⟩ := Prod.mk.inj hsame
  exact ⟨k', hk', hkind, hcancel⟩

theorem tasks_kind_endAll (w : World) (ts : List TaskId) (t : TaskId) :
    ((w.endAll ts).rt.tasks[t]?).map (fun k => (k.kind, k.cancel)) =
      (w.rt.tasks[t]?).map (fun k => (k.kind, k.cancel)) := by
  rw [tasks_endAll, Option.map_map]
  rfl

theorem runs_stopped {w : World} {t : TaskId} {kind : TaskKind} {c : Token} (key : String)
    (h : w.Runs t kind c) : (w.stopped key).Runs t kind c := by
  refine h.of_tasks ?_
  unfold stopped
  cases w.lookup key with
  | none => rfl
  | some r =>
      rw [rt_insert, tasks_kind_endAll, rt_insert, tasks_cancelAll]

theorem objects_cancelAll (w : World) (cs : List Token) :
    (w.cancelAll cs).rt.objects = w.rt.objects := by
  induction cs generalizing w with
  | nil => rfl
  | cons c cs ih => exact ih (w.cancel c)

theorem objects_endAll (w : World) (ts : List TaskId) :
    (w.endAll ts).rt.objects = w.rt.objects := by
  induction ts generalizing w with
  | nil => rfl
  | cons t ts ih => exact ih (w.endTask t)

theorem objects_stopped (w : World) (key : String) :
    (w.stopped key).rt.objects = w.rt.objects := by
  unfold stopped
  cases w.lookup key with
  | none => rfl
  | some r => rw [rt_insert, objects_endAll, rt_insert, objects_cancelAll]

end World

/-- **Soundness is kept by all that happens.** -/
theorem stable_sound : Stable World.Sound where
  fs w fs h := h.of_fewer (fun _ _ _ ht => ht) le_rfl fun key r hr => ⟨r, hr, .inl rfl⟩
  endTask w t h := h.of_fewer (fun u kind c hu => hu.of_tasks (w.tasks_kind_endAll [t] u)) le_rfl
    fun key r hr => ⟨r, hr, .inl rfl⟩
  stopped w key h := by
    have hobj := le_of_eq (w.objects_stopped key).symm
    refine h.of_fewer (fun _ _ _ ht => World.runs_stopped key ht) hobj fun key' r' hr' => ?_
    rw [World.lookup_stopped] at hr'
    split at hr'
    · rename_i hk
      obtain ⟨r, hr, rfl⟩ := Option.map_eq_some_iff.1 hr'
      exact ⟨r, hk ▸ hr, .inr rfl⟩
    · exact ⟨r', hr', .inl rfl⟩
  remove w key h := by
    refine h.of_fewer (fun _ _ _ ht => ht) le_rfl fun key' r hr => ?_
    by_cases hk : key' = key
    · rw [hk, World.lookup_remove] at hr
      cases hr
    · rw [World.lookup_remove_ne hk] at hr
      exact ⟨r, hr, .inl rfl⟩
  leftBehind w cfg h := by
    have hs := w.newSession_spawned cfg.sshUser cfg.password cfg.upstream ⟨cfg.autoReconnect, none⟩
    refine h.of_fewer (fun _ _ _ ht => hs.runs ht) (Nat.le_add_right _ 3) fun key r hr => ?_
    rw [hs.lookup] at hr
    exact ⟨r, hr, .inl rfl⟩
  starts _ _ _ h hw := h.starts hw

theorem World.new_sound (stored : Config) (fpr : String) (fs : Fs) :
    (World.new stored fpr fs).Sound := by
  have hl : ∀ key, (World.new stored fpr fs).lookup key = none := fun key =>
    AList.lookup_empty key
  refine ⟨?_, ?_, ?_, ?_⟩
  · intro key r hr
    rw [hl] at hr
    cases hr
  · intro key r mgr hr
    rw [hl] at hr
    cases hr
  · rintro key hub ⟨r, mgr, name, e, hr, -⟩
    rw [hl] at hr
    cases hr
  · rintro key key' hub ⟨r, mgr, name, e, hr, -⟩
    rw [hl] at hr
    cases hr

/-- **Every reachable state is sound.** -/
theorem ReachableWorld.sound {C : Codec} {w : World} (h : ReachableWorld C w) : w.Sound :=
  ReachableWorld.rule stable_sound World.new_sound h

end TermHub
