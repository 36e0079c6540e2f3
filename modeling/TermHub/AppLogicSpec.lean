/-
**What the session operations do to the state.**

`TermHub/AppLogic.lean` gives the operations as programs of sections.  Here each of them, run on
its own, is described once and for all by a function of the state before it, and everything later
is derived from these descriptions: the programs are not unfolded again.

Main definitions:

* `World.Spawned` — a state that differs from an earlier one by freshly spawned tasks only;
* `World.stopped`, `World.entered` — the states that `stop_session` and `create_session` persist;
* `Call.effect` — the state that a successful call persists.

Main results:

* `run_createSession_forward`, `run_createSession_refused`, `run_createSession_unbound`,
  `run_createSession_started` — the four ways `create_session` can go;
* `run_stopSession`, `stopSession_run_some` — `stop_session`, with and without the knowledge that
  it returns;
* `deleteSession_run_some`, `restartSession_run_some`, `updateSession_run_some` — the operations
  that stop a session and go on;
* `Call.run_ok` — **a successful call has exactly its effect**, apart from `config.toml`.
-/

import TermHub.AppLogic

set_option relaxedAutoImplicit false
set_option autoImplicit false

namespace TermHub

open Sections

variable (C : Codec)

/-! ### Saving -/

/-- The state with another configuration directory. -/
def World.withFs (w : World) (fs : Fs) : World := { w with fs }

@[simp] theorem World.lookup_withFs (w : World) (fs : Fs) (key : String) :
    (w.withFs fs).lookup key = w.lookup key := rfl

@[simp] theorem World.rt_withFs (w : World) (fs : Fs) : (w.withFs fs).rt = w.rt := rfl

@[simp] theorem World.app_withFs (w : World) (fs : Fs) : (w.withFs fs).app = w.app := rfl

@[simp] theorem World.withFs_withFs (w : World) (fs fs' : Fs) :
    (w.withFs fs).withFs fs' = w.withFs fs' := rfl

@[simp] theorem World.isCancelled_withFs (w : World) (fs : Fs) (c : Token) :
    (w.withFs fs).isCancelled c = w.isCancelled c := rfl

/-- The result of an operation that ends with a save. -/
def saveResult {α : Type} (a : α) : Except String Unit → Except AppError α
  | .error e => .error (.internal e)
  | .ok () => .ok a

/-- A save changes the configuration directory only. -/
theorem World.persist_snd (io : SaveIo) (w : World) :
    (w.persist C io).2 = w.withFs (save C io w.config w.fs).2 := rfl

theorem run_persistNow (io : SaveIo) (w : World) :
    (persistNow C io).run w = some (w.persist C io) := rfl

/-! ### Fresh tasks -/

/-- `w'` differs from `w` by freshly spawned tasks only, which listen to the tokens `cs`. -/
structure World.Spawned (w w' : World) (cs : List Token) : Prop where
  app : w'.app = w.app
  fs : w'.fs = w.fs
  tasks_old : ∀ t < w.rt.tasks.length, w'.rt.tasks[t]? = w.rt.tasks[t]?
  tasks_new : ∀ t k, w.rt.tasks.length ≤ t → w'.rt.tasks[t]? = some k →
    k.ended = false ∧ k.cancel ∈ cs
  cancelled : ∀ c, w'.isCancelled c = w.isCancelled c
  fresh : ∀ c ∈ cs, w.rt.tokens.length ≤ c ∧ c < w'.rt.tokens.length
  tokens_le : w.rt.tokens.length ≤ w'.rt.tokens.length
  tasks_le : w.rt.tasks.length ≤ w'.rt.tasks.length

namespace World

theorem Spawned.refl (w : World) : Spawned w w [] where
  app := rfl
  fs := rfl
  tasks_old := fun _ _ => rfl
  tasks_new := fun t k ht hk => by
    rw [List.getElem?_eq_none ht] at hk
    cases hk
  cancelled := fun _ => rfl
  fresh := fun c hc => by cases hc
  tokens_le := le_rfl
  tasks_le := le_rfl

/-- A new object is not a task. -/
theorem Spawned.newObject {w w' : World} {cs : List Token} (h : Spawned w w' cs) :
    Spawned w w'.newObject.2 cs where
  app := h.app
  fs := h.fs
  tasks_old := h.tasks_old
  tasks_new := h.tasks_new
  cancelled := h.cancelled
  fresh := h.fresh
  tokens_le := h.tokens_le
  tasks_le := h.tasks_le

@[simp] theorem tokens_length_spawn (w : World) (kind : TaskKind) :
    (w.spawn kind).2.2.rt.tokens.length = w.rt.tokens.length + 1 := by
  simp [World.spawn]

/-- The task that has just been spawned. -/
theorem tasks_spawn_self (w : World) (kind : TaskKind) :
    (w.spawn kind).2.2.rt.tasks[(w.spawn kind).2.1]? =
      some ⟨kind, (w.spawn kind).1, false⟩ := by
  simp [World.spawn]

/-- Spawning changes no task there is. -/
theorem tasks_spawn_of_some {w : World} {t : TaskId} {k : Task} (h : w.rt.tasks[t]? = some k)
    (kind : TaskKind) : (w.spawn kind).2.2.rt.tasks[t]? = some k := by
  rw [← h]
  exact List.getElem?_append_left (List.getElem?_eq_some_iff.1 h).1

theorem isCancelled_spawn (w : World) (kind : TaskKind) (c : Token) :
    (w.spawn kind).2.2.isCancelled c = w.isCancelled c := by
  simp only [isCancelled, spawn]
  rw [List.getElem?_append]
  split
  · rfl
  · rename_i h
    rw [List.getElem?_eq_none (l := w.rt.tokens) (by omega)]
    rcases Nat.eq_zero_or_pos (c - w.rt.tokens.length) with h0 | h0
    · rw [h0]
      rfl
    · rw [List.getElem?_eq_none (by rw [List.length_singleton]; omega)]

/-- One more task. -/
theorem Spawned.spawn {w w' : World} {cs : List Token} (h : Spawned w w' cs) (kind : TaskKind) :
    Spawned w (w'.spawn kind).2.2 (cs ++ [w'.rt.tokens.length]) where
  app := h.app
  fs := h.fs
  tasks_old := fun t ht => by
    rw [← h.tasks_old t ht]
    exact List.getElem?_append_left (lt_of_lt_of_le ht h.tasks_le)
  tasks_new := fun t k ht hk => by
    rcases Nat.lt_or_ge t w'.rt.tasks.length with hlt | hge
    · have hk' : w'.rt.tasks[t]? = some k := by
        rw [← hk]
        exact (List.getElem?_append_left hlt).symm
      obtain ⟨he, hc⟩ := h.tasks_new t k ht hk'
      exact ⟨he, List.mem_append_left _ hc⟩
    · have hk' : [(⟨kind, w'.rt.tokens.length, false⟩ : Task)][t - w'.rt.tasks.length]? =
          some k := by
        rw [← hk]
        exact (List.getElem?_append_right hge).symm
      have hmem := List.mem_of_getElem? hk'
      rw [List.mem_singleton] at hmem
      subst hmem
      exact ⟨rfl, by simp⟩
  cancelled := fun c => (isCancelled_spawn w' kind c).trans (h.cancelled c)
  fresh := fun c hc => by
    rw [tokens_length_spawn]
    rcases List.mem_append.1 hc with hc | hc
    · obtain ⟨h1, h2⟩ := h.fresh c hc
      exact ⟨h1, Nat.lt_succ_of_lt h2⟩
    · rw [List.mem_singleton] at hc
      subst hc
      exact ⟨h.tokens_le, Nat.lt_succ_self _⟩
  tokens_le := by
    have := h.tokens_le
    simp only [World.spawn, List.length_append]
    omega
  tasks_le := by
    have := h.tasks_le
    simp only [World.spawn, List.length_append]
    omega

/-- A token that does not exist yet has not been cancelled. -/
theorem isCancelled_of_ge {w : World} {c : Token} (h : w.rt.tokens.length ≤ c) :
    w.isCancelled c = false := by
  simp [isCancelled, List.getElem?_eq_none h]

/-- **The live tasks are the old ones and the fresh ones.** -/
theorem Spawned.live {w w' : World} {cs : List Token} (h : Spawned w w' cs) {t : TaskId} :
    w'.Live t ↔ w.Live t ∨ (w.rt.tasks.length ≤ t ∧ t < w'.rt.tasks.length) := by
  rcases Nat.lt_or_ge t w.rt.tasks.length with hlt | hge
  · have hiff : w'.Live t ↔ w.Live t := by
      unfold Live
      rw [h.tasks_old t hlt]
      simp only [h.cancelled]
    rw [hiff]
    constructor
    · exact Or.inl
    · rintro (hl | ⟨hge, _⟩)
      · exact hl
      · omega
  · constructor
    · rintro ⟨k, hk, _⟩
      exact Or.inr ⟨hge, (List.getElem?_eq_some_iff.1 hk).1⟩
    · rintro (⟨k, hk, _⟩ | ⟨_, hlt⟩)
      · have := (List.getElem?_eq_some_iff.1 hk).1
        omega
      · obtain ⟨he, hc⟩ := h.tasks_new t _ hge (List.getElem?_eq_getElem hlt)
        refine ⟨_, List.getElem?_eq_getElem hlt, he, ?_⟩
        rw [h.cancelled]
        exact isCancelled_of_ge (h.fresh _ hc).1

@[simp] theorem Spawned.lookup {w w' : World} {cs : List Token} (h : Spawned w w' cs)
    (key : String) : w'.lookup key = w.lookup key := by
  unfold World.lookup
  rw [h.app]

/-- `start_session` spawns the runner, on the token of the entry. -/
theorem newSession_spawned (w : World) (sshUser password : String) (upstream : UpstreamSpec)
    (cfg : RunnerConfig) :
    Spawned w (w.newSession sshUser password upstream cfg).2.2
      [(w.newSession sshUser password upstream cfg).1.cancel] :=
  (Spawned.refl w).newObject.newObject.newObject.spawn (.runner w.rt.objects upstream cfg)

end World

/-! ### `create_session` -/

/-- The status watch that `create_session` returns, and the state it persists: the tasks of the
session have been spawned and its entry has been put in the map. -/
def World.entered (w : World) (cfg : SessionConfig) : StatusRx × World :=
  let key := toAsciiLowercase cfg.name
  let cfg := { cfg with launchOnStartup := true }
  match cfg.upstream with
  | .httpProxy listen target protocol =>
    let (proxyCancel, _, w) := w.spawn (.portForward listen target protocol)
    let (statusRx, w) := w.newObject
    (statusRx, w.insert key ⟨none, cfg, some proxyCancel, none, none, none⟩)
  | _ =>
    let (entry, handle, w) := w.newSession cfg.sshUser cfg.password cfg.upstream
      ⟨cfg.autoReconnect, none⟩
    let mgr : SessionMgr := AList.insert (toAsciiLowercase cfg.sshUser) entry ∅
    let (sshdCancel, sshdHandle, w) := w.spawn (.acceptLoop cfg.listen mgr)
    (entry.status, w.insert key ⟨some ⟨entry.status, entry.cancel, handle⟩, cfg, none,
      some sshdCancel, some sshdHandle, some mgr⟩)

theorem World.entered_session {cfg : SessionConfig} (h : cfg.upstream.isHttpProxy = false)
    (w : World) : w.entered cfg =
      let cfg := { cfg with launchOnStartup := true }
      let (entry, handle, w) := w.newSession cfg.sshUser cfg.password cfg.upstream
        ⟨cfg.autoReconnect, none⟩
      let mgr : SessionMgr := AList.insert (toAsciiLowercase cfg.sshUser) entry ∅
      let (sshdCancel, sshdHandle, w) := w.spawn (.acceptLoop cfg.listen mgr)
      (entry.status, w.insert (toAsciiLowercase cfg.name)
        ⟨some ⟨entry.status, entry.cancel, handle⟩, cfg, none, some sshdCancel, some sshdHandle,
          some mgr⟩) := by
  unfold World.entered
  cases hu : cfg.upstream with
  | httpProxy l t p => rw [hu] at h; cases h
  | _ => simp only

theorem register_newSession (w : World) (sshUser password : String) (upstream : UpstreamSpec)
    (cfg : RunnerConfig) :
    SessionMgr.new.register (w.newSession sshUser password upstream cfg).1 =
      match normalizeName sshUser with
      | none => .error "invalid session name"
      | some _ => .ok (AList.insert (toAsciiLowercase sshUser)
          (w.newSession sshUser password upstream cfg).1 ∅) := by
  have hname : (w.newSession sshUser password upstream cfg).1.name = sshUser := rfl
  rw [SessionMgr.register_new, hname]
  cases h : normalizeName sshUser with
  | none => rfl
  | some key => rw [normalizeName_eq_some h]

/-- A port forward: the task is spawned, the entry put in the map, and the state saved. -/
theorem run_createSession_forward {cfg : SessionConfig} (h : cfg.upstream.isHttpProxy = true)
    (bind : Except String Unit) (io : SaveIo) (w : World) :
    (createSession C bind io cfg).run w =
      some (saveResult (cfg.name, (w.entered cfg).1) ((w.entered cfg).2.persist C io).1,
        ((w.entered cfg).2.persist C io).2) := by
  unfold createSession World.entered
  cases hu : cfg.upstream with
  | httpProxy l t p =>
      simp only [Prog.run_bind, Prog.run_atomic, Option.bind_some, run_persistNow]
      split <;> rename_i he <;> rw [he] <;> rfl
  | _ => rw [hu] at h; cases h

/-- The manager refuses the user name: nothing has happened. -/
theorem run_createSession_refused {cfg : SessionConfig} (h : cfg.upstream.isHttpProxy = false)
    (hn : normalizeName cfg.sshUser = none) (bind : Except String Unit) (io : SaveIo)
    (w : World) :
    (createSession C bind io cfg).run w =
      some (.error (.internal "invalid session name"), w) := by
  have hreg := register_newSession w cfg.sshUser cfg.password cfg.upstream
    ⟨cfg.autoReconnect, none⟩
  rw [hn] at hreg
  unfold createSession
  cases hu : cfg.upstream with
  | httpProxy l t p => rw [hu] at h; cases h
  | _ =>
      rw [hu] at hreg
      simp only [startSession, Prog.run_bind, Prog.run_atomic, Option.bind_some, hreg]
      rfl

/-- The listen address cannot be bound: the runner that has been spawned stays. -/
theorem run_createSession_unbound {cfg : SessionConfig} (h : cfg.upstream.isHttpProxy = false)
    {key : String} (hn : normalizeName cfg.sshUser = some key) (e : String) (io : SaveIo)
    (w : World) :
    (createSession C (.error e) io cfg).run w =
      some (.error (.internal e), (w.newSession cfg.sshUser cfg.password cfg.upstream
        ⟨cfg.autoReconnect, none⟩).2.2) := by
  have hreg := register_newSession w cfg.sshUser cfg.password cfg.upstream
    ⟨cfg.autoReconnect, none⟩
  rw [hn] at hreg
  unfold createSession
  cases hu : cfg.upstream with
  | httpProxy l t p => rw [hu] at h; cases h
  | _ =>
      rw [hu] at hreg
      simp only [startSession, sshdStart, Prog.run_bind, Prog.run_atomic, Option.bind_some, hreg]
      rfl

/-- A regular session: runner and accept loop are spawned, the entry put in the map, and the state
saved. -/
theorem run_createSession_started {cfg : SessionConfig} (h : cfg.upstream.isHttpProxy = false)
    {key : String} (hn : normalizeName cfg.sshUser = some key) (io : SaveIo) (w : World) :
    (createSession C (.ok ()) io cfg).run w =
      some (saveResult (cfg.name, (w.entered cfg).1) ((w.entered cfg).2.persist C io).1,
        ((w.entered cfg).2.persist C io).2) := by
  have hreg := register_newSession w cfg.sshUser cfg.password cfg.upstream
    ⟨cfg.autoReconnect, none⟩
  rw [hn] at hreg
  unfold createSession World.entered
  cases hu : cfg.upstream with
  | httpProxy l t p => rw [hu] at h; cases h
  | _ =>
      rw [hu] at hreg
      simp only [startSession, sshdStart, Prog.run_bind, Prog.run_atomic, Option.bind_some, hreg,
        run_persistNow]
      split <;> rename_i he <;> rw [he] <;> rfl

/-- The call is not refused by the manager or by the operating system before the save. -/
def Admitted (bind : Except String Unit) (cfg : SessionConfig) : Prop :=
  cfg.upstream.isHttpProxy = true ∨ ((normalizeName cfg.sshUser).isSome = true ∧ bind = .ok ())

/-- An admitted `create_session` enters the session and saves the state. -/
theorem run_createSession_admitted {cfg : SessionConfig} {bind : Except String Unit}
    (h : Admitted bind cfg) (io : SaveIo) (w : World) :
    (createSession C bind io cfg).run w =
      some (saveResult (cfg.name, (w.entered cfg).1) ((w.entered cfg).2.persist C io).1,
        ((w.entered cfg).2.persist C io).2) := by
  rcases h with h | ⟨hn, rfl⟩
  · exact run_createSession_forward C h bind io w
  · cases hp : cfg.upstream.isHttpProxy with
    | true => exact run_createSession_forward C hp _ io w
    | false =>
        obtain ⟨key, hkey⟩ := Option.isSome_iff_exists.1 hn
        exact run_createSession_started C hp hkey io w

/-- **The outcomes of `create_session`**: refused with nothing done, refused with a runner left
behind, or entered and saved. -/
theorem createSession_cases {bind : Except String Unit} {io : SaveIo} {cfg : SessionConfig}
    {w w' : World} {r : Except AppError (String × StatusRx)}
    (h : (createSession C bind io cfg).run w = some (r, w')) :
    (∃ e, r = .error e ∧ w' = w) ∨
    (∃ e, r = .error e ∧ cfg.upstream.isHttpProxy = false ∧
      w' = (w.newSession cfg.sshUser cfg.password cfg.upstream ⟨cfg.autoReconnect, none⟩).2.2) ∨
    (Admitted bind cfg ∧
      r = saveResult (cfg.name, (w.entered cfg).1) ((w.entered cfg).2.persist C io).1 ∧
      w' = ((w.entered cfg).2.persist C io).2) := by
  by_cases ha : Admitted bind cfg
  · rw [run_createSession_admitted C ha] at h
    obtain ⟨rfl, rfl⟩ := Prod.mk.inj (Option.some_inj.1 h)
    exact Or.inr (Or.inr ⟨ha, rfl, rfl⟩)
  · have hp : cfg.upstream.isHttpProxy = false :=
      Bool.eq_false_iff.2 fun hp => ha (Or.inl hp)
    cases hn : normalizeName cfg.sshUser with
    | none =>
        rw [run_createSession_refused C hp hn] at h
        obtain ⟨rfl, rfl⟩ := Prod.mk.inj (Option.some_inj.1 h)
        exact Or.inl ⟨_, rfl, rfl⟩
    | some key =>
        cases bind with
        | ok u => exact absurd (Or.inr ⟨by rw [hn]; rfl, rfl⟩) ha
        | error e =>
            rw [run_createSession_unbound C hp hn] at h
            obtain ⟨rfl, rfl⟩ := Prod.mk.inj (Option.some_inj.1 h)
            exact Or.inr (Or.inl ⟨_, rfl, hp, rfl⟩)

/-- `w'` is `w` with fresh tasks and one new entry, for `cfg`, which holds exactly their tokens and
whose handles are theirs. -/
def World.Enters (w : World) (cfg : SessionConfig) (w' : World) : Prop :=
  ∃ w₁ e, World.Spawned w w₁ e.tokens ∧ w' = w₁.insert (toAsciiLowercase cfg.name) e ∧
    e.config = cfg ∧ ∀ t ∈ e.handles, ∃ k, w₁.rt.tasks[t]? = some k ∧ k.cancel ∈ e.tokens

/-- The runner and the accept loop of a regular session, and its entry. -/
theorem World.enters_session (w : World) (cfg : SessionConfig) (mgr : SessionMgr) :
    let n := w.newSession cfg.sshUser cfg.password cfg.upstream ⟨cfg.autoReconnect, none⟩
    let a := n.2.2.spawn (.acceptLoop cfg.listen mgr)
    w.Enters cfg (a.2.2.insert (toAsciiLowercase cfg.name)
      ⟨some ⟨n.1.status, n.1.cancel, n.2.1⟩, cfg, none, some a.1, some a.2.1, some mgr⟩) := by
  intro n a
  have hrunner : a.2.2.rt.tasks[n.2.1]? = some
      ⟨.runner n.1.hub cfg.upstream ⟨cfg.autoReconnect, none⟩, n.1.cancel, false⟩ :=
    World.tasks_spawn_of_some (World.tasks_spawn_self _ _) _
  refine ⟨_, _, (World.newSession_spawned w cfg.sshUser cfg.password cfg.upstream
    ⟨cfg.autoReconnect, none⟩).spawn (.acceptLoop cfg.listen mgr), rfl, rfl, ?_⟩
  intro t ht
  obtain rfl | rfl : t = n.2.1 ∨ t = a.2.1 := by simpa [RunnerEntry.handles] using ht
  · exact ⟨_, hrunner, RunnerEntry.mem_tokens.2 (Or.inl ⟨_, rfl, rfl⟩)⟩
  · exact ⟨_, World.tasks_spawn_self _ _, RunnerEntry.mem_tokens.2 (Or.inr (Or.inr rfl))⟩

/-- **What `create_session` enters.** -/
theorem World.entered_enters (w : World) (cfg : SessionConfig) :
    w.Enters { cfg with launchOnStartup := true } (w.entered cfg).2 := by
  cases hp : cfg.upstream.isHttpProxy with
  | true =>
      unfold World.entered
      cases hu : cfg.upstream with
      | httpProxy l t p =>
          refine ⟨_, _, ((World.Spawned.refl w).spawn (.portForward l t p)).newObject, rfl, ?_, ?_⟩
          · rw [← hu]
          · intro t ht
            cases ht
      | _ => rw [hu] at hp; cases hp
  | false =>
      rw [World.entered_session hp]
      exact World.enters_session w { cfg with launchOnStartup := true } _

/-! ### `stop_session` -/

namespace World

/-- Each of the tasks ends. -/
def endAll (w : World) (ts : List TaskId) : World := ts.foldl endTask w

/-- The state that `stop_session` persists: the tokens of the entry have been cancelled, the tasks
whose handles it held have ended, and the entry is left without either. -/
def stopped (w : World) (key : String) : World :=
  match w.lookup key with
  | some r => (((w.cancelAll r.tokens).insert key r.taken).endAll r.handles).insert key
      r.taken.demoted
  | none => w

@[simp] theorem app_endAll (w : World) (ts : List TaskId) : (w.endAll ts).app = w.app := by
  induction ts generalizing w with
  | nil => rfl
  | cons t ts ih => exact ih (w.endTask t)

@[simp] theorem lookup_endAll (w : World) (ts : List TaskId) (key : String) :
    (w.endAll ts).lookup key = w.lookup key := by
  unfold lookup
  rw [app_endAll]

@[simp] theorem fs_endAll (w : World) (ts : List TaskId) : (w.endAll ts).fs = w.fs := by
  induction ts generalizing w with
  | nil => rfl
  | cons t ts ih => exact ih (w.endTask t)

@[simp] theorem tokens_endAll (w : World) (ts : List TaskId) :
    (w.endAll ts).rt.tokens = w.rt.tokens := by
  induction ts generalizing w with
  | nil => rfl
  | cons t ts ih => exact ih (w.endTask t)

/-- Ending tasks changes none of them but in that it has ended. -/
theorem tasks_endAll (w : World) (ts : List TaskId) (t : TaskId) :
    (w.endAll ts).rt.tasks[t]? =
      (w.rt.tasks[t]?).map fun k => { k with ended := k.ended || decide (t ∈ ts) } := by
  induction ts generalizing w with
  | nil => simp [endAll]
  | cons u ts ih =>
      rw [endAll, List.foldl_cons, ← endAll, ih]
      simp only [endTask, List.getElem?_modify]
      by_cases h : u = t
      · subst h
        cases w.rt.tasks[u]? <;> simp
      · have h' : t ≠ u := fun e => h e.symm
        cases w.rt.tasks[t]? <;> simp [h, h']

/-- A task that has ended stays so. -/
theorem ended_endTask {w : World} {t : TaskId} (h : w.ended t = true) (u : TaskId) :
    (w.endTask u).ended t = true := by
  have htask := tasks_endAll w [u] t
  rw [endAll, List.foldl_cons, List.foldl_nil] at htask
  unfold ended at h ⊢
  rw [htask]
  cases hk : w.rt.tasks[t]? with
  | none => simp [hk] at h
  | some k =>
      rw [hk, Option.any_some] at h
      simp [h]

/-- A task that can be joined has ended when it has been joined. -/
theorem ended_of_joinable {w : World} {t : TaskId} (h : w.joinable t = true) :
    (w.endTask t).ended t = true := by
  have htask := tasks_endAll w [t] t
  rw [endAll, List.foldl_cons, List.foldl_nil] at htask
  unfold joinable at h
  unfold ended
  rw [htask]
  cases hk : w.rt.tasks[t]? with
  | none => simp [hk] at h
  | some k => simp

/-- A task that has ended does not come back to life, and no other task is touched. -/
theorem live_endAll (w : World) (ts : List TaskId) (t : TaskId) :
    (w.endAll ts).Live t ↔ w.Live t ∧ t ∉ ts := by
  unfold Live isCancelled
  rw [tasks_endAll, tokens_endAll]
  cases w.rt.tasks[t]? with
  | none => simp
  | some k =>
      simp only [Option.map_some, Option.some.injEq, exists_eq_left']
      by_cases h : t ∈ ts <;> simp [h]

/-- What has been joined can be joined. -/
theorem joinable_endAll {w : World} {t : TaskId} (h : w.joinable t = true) (ts : List TaskId) :
    (w.endAll ts).joinable t = true := by
  unfold joinable isCancelled at *
  rw [tasks_endAll, tokens_endAll]
  cases hk : w.rt.tasks[t]? with
  | none =>
      rw [hk] at h
      cases h
  | some k =>
      rw [hk] at h
      rcases Bool.or_eq_true_iff.1 h with he | hc
      · simp [he]
      · simp [hc]

end World

theorem run_join {w : World} {h : Option TaskId} (hj : ∀ t ∈ h.toList, w.joinable t = true) :
    (join h).run w = some ((), w.endAll h.toList) := by
  cases h with
  | none => rfl
  | some t =>
      rw [join, Prog.await, Prog.run_sec, if_pos (hj t (by simp))]
      rfl

theorem join_run_some {w w' : World} {h : Option TaskId} {u : Unit}
    (hr : (join h).run w = some (u, w')) : w' = w.endAll h.toList := by
  cases h with
  | none =>
      obtain ⟨-, rfl⟩ := Prod.mk.inj (Option.some_inj.1 hr)
      rfl
  | some t =>
      rw [join, Prog.await, Prog.run_sec] at hr
      split at hr
      · obtain ⟨-, rfl⟩ := Prod.mk.inj (Option.some_inj.1 hr)
        rfl
      · cases hr

/-- What `stop_session` does up to the two joins, and after them. -/
theorem stopSession_run (io : SaveIo) (name : String) (w : World) :
    (stopSession C io name).run w =
      let key := toAsciiLowercase name
      let taken := (w.cancelEntry key).takeHandles key
      ((join taken.1.1).run taken.2).bind fun x => ((join taken.1.2).run x.2).bind fun y =>
        let w' := y.2.modifyEntry key RunnerEntry.demoted
        some (saveResult () (w'.persist C io).1, (w'.persist C io).2) := by
  unfold stopSession
  simp only [Prog.run_bind, Prog.run_atomic, Option.bind_some, run_persistNow]
  refine Option.bind_congr fun x _ => Option.bind_congr fun y _ => ?_
  split <;> rename_i he <;> rw [he] <;> rfl

theorem World.app_cancelEntry (w : World) (key : String) : (w.cancelEntry key).app = w.app := by
  unfold World.cancelEntry
  split
  · exact World.app_cancelAll w _
  · rfl

/-- The state before the joins. -/
theorem World.takeHandles_cancelEntry (w : World) (key : String) :
    (w.cancelEntry key).takeHandles key = match w.lookup key with
      | some r => ((r.started.map StartedSession.handle, r.sshdHandle),
          (w.cancelAll r.tokens).insert key r.taken)
      | none => ((none, none), w) := by
  unfold World.cancelEntry World.takeHandles
  cases h : w.lookup key with
  | none => simp [h]
  | some r => simp [h]

/-- The state after the joins. -/
theorem World.stopped_eq (w : World) (key : String) :
    (((((w.cancelEntry key).takeHandles key).2.endAll
      ((w.cancelEntry key).takeHandles key).1.1.toList).endAll
      ((w.cancelEntry key).takeHandles key).1.2.toList).modifyEntry key RunnerEntry.demoted) =
      w.stopped key := by
  rw [World.takeHandles_cancelEntry]
  unfold World.stopped
  cases h : w.lookup key with
  | none =>
      simp only [Option.toList_none]
      exact (by simp [World.endAll, World.modifyEntry, h])
  | some r =>
      simp only [RunnerEntry.handles, World.endAll, List.foldl_append]
      have hl : ∀ v : World, v.lookup key = some r.taken →
          v.modifyEntry key RunnerEntry.demoted = v.insert key r.taken.demoted := by
        intro v hv
        simp [World.modifyEntry, hv]
      refine hl _ ?_
      rw [← World.endAll, World.lookup_endAll, ← World.endAll, World.lookup_endAll,
        World.lookup_insert]

/-- **`stop_session`, when it returns**: the entry has been stopped and the state saved. -/
theorem stopSession_run_some {io : SaveIo} {name : String} {w w' : World}
    {res : Except AppError Unit} (h : (stopSession C io name).run w = some (res, w')) :
    res = saveResult () ((w.stopped (toAsciiLowercase name)).persist C io).1 ∧
      w' = ((w.stopped (toAsciiLowercase name)).persist C io).2 := by
  rw [stopSession_run] at h
  obtain ⟨⟨u, w₁⟩, h₁, h⟩ := Option.bind_eq_some_iff.1 h
  obtain ⟨⟨v, w₂⟩, h₂, h⟩ := Option.bind_eq_some_iff.1 h
  obtain rfl := join_run_some h₁
  obtain rfl := join_run_some h₂
  obtain ⟨rfl, rfl⟩ := Prod.mk.inj (Option.some_inj.1 h)
  rw [World.stopped_eq]
  exact ⟨rfl, rfl⟩

/-- **`stop_session` returns** when the handles of the entry can be joined once its tokens have
been cancelled. -/
theorem run_stopSession (io : SaveIo) {name : String} {w : World}
    (hj : ∀ r, w.lookup (toAsciiLowercase name) = some r → ∀ t ∈ r.handles,
      (w.cancelAll r.tokens).joinable t = true) :
    (stopSession C io name).run w =
      some (saveResult () ((w.stopped (toAsciiLowercase name)).persist C io).1,
        ((w.stopped (toAsciiLowercase name)).persist C io).2) := by
  have hjoin : ∀ t, t ∈ ((w.cancelEntry (toAsciiLowercase name)).takeHandles
      (toAsciiLowercase name)).1.1.toList ++ ((w.cancelEntry (toAsciiLowercase name)).takeHandles
      (toAsciiLowercase name)).1.2.toList → ((w.cancelEntry (toAsciiLowercase name)).takeHandles
      (toAsciiLowercase name)).2.joinable t = true := by
    rw [World.takeHandles_cancelEntry]
    cases h : w.lookup (toAsciiLowercase name) with
    | none =>
        intro t ht
        cases ht
    | some r => exact hj r h
  rw [stopSession_run, ← World.stopped_eq]
  simp only
  rw [run_join fun t ht => hjoin t (List.mem_append_left _ ht), Option.bind_some,
    run_join fun t ht => World.joinable_endAll (hjoin t (List.mem_append_right _ ht)) _,
    Option.bind_some]

/-- The entry that `stop_session` leaves. -/
theorem World.lookup_stopped (w : World) (key key' : String) :
    (w.stopped key).lookup key' = if key' = key then
      (w.lookup key).map fun r => r.taken.demoted else w.lookup key' := by
  unfold World.stopped
  by_cases hk : key' = key
  · rw [if_pos hk, hk]
    cases h : w.lookup key with
    | none => exact h
    | some r => exact World.lookup_insert _ _ _
  · rw [if_neg hk]
    cases h : w.lookup key with
    | none => rfl
    | some r => simp only [World.lookup_insert_ne hk, World.lookup_endAll, World.lookup_cancelAll]

/-- To stop a session does not write. -/
@[simp] theorem World.fs_stopped (w : World) (key : String) : (w.stopped key).fs = w.fs := by
  unfold World.stopped
  cases w.lookup key with
  | none => rfl
  | some r => rw [World.fs_insert, World.fs_endAll, World.fs_insert, World.fs_cancelAll]

/-! ### Calls -/

/-- The state that a successful call persists at its end. -/
def Call.effect (w : World) : Call → World
  | create cfg => (w.entered cfg).2
  | stop name => w.stopped (toAsciiLowercase name)
  | delete name => (w.stopped (toAsciiLowercase name)).remove (toAsciiLowercase name)
  | restart name =>
    match w.lookup (toAsciiLowercase name) with
    | some r => ((w.stopped (toAsciiLowercase name)).entered r.config).2
    | none => w
  | update oldName cfg =>
    ((w.stopped (toAsciiLowercase oldName)).entered (w.keepPassword oldName cfg)).2

@[simp] theorem World.entered_withFs (w : World) (fs : Fs) (cfg : SessionConfig) :
    (w.withFs fs).entered cfg = ((w.entered cfg).1, (w.entered cfg).2.withFs fs) := by
  unfold World.entered
  cases cfg.upstream <;> rfl

theorem discard_run {α : Type} (p : Prog World (Except AppError α)) (w : World) :
    (discard p).run w = (p.run w).map fun x => (x.1.map fun _ => (), x.2) := by
  rw [discard, Prog.run_bind]
  cases p.run w with
  | none => rfl
  | some x =>
      obtain ⟨r, w'⟩ := x
      cases r <;> rfl

theorem discard_some {α : Type} {p : Prog World (Except AppError α)} {w w' : World}
    {r : Except AppError Unit} (h : (discard p).run w = some (r, w')) :
    ∃ r', p.run w = some (r', w') := by
  rw [discard_run] at h
  obtain ⟨⟨r', v⟩, hp, hx⟩ := Option.map_eq_some_iff.1 h
  obtain ⟨-, rfl⟩ := Prod.mk.inj hx
  exact ⟨r', hp⟩

theorem discard_ok {α : Type} {p : Prog World (Except AppError α)} {w w' : World}
    (h : (discard p).run w = some (.ok (), w')) : ∃ a, p.run w = some (.ok a, w') := by
  rw [discard_run] at h
  obtain ⟨⟨r, v⟩, hp, hx⟩ := Option.map_eq_some_iff.1 h
  obtain ⟨hr, rfl⟩ := Prod.mk.inj hx
  cases r with
  | error e => cases hr
  | ok a => exact ⟨a, hp⟩

/-- A successful `create_session` has entered the session. -/
theorem createSession_ok {bind : Except String Unit} {io : SaveIo} {cfg : SessionConfig}
    {w w' : World} {a : String × StatusRx}
    (h : (createSession C bind io cfg).run w = some (.ok a, w')) :
    ∃ fs, w' = (w.entered cfg).2.withFs fs := by
  obtain ⟨e, he, -⟩ | ⟨e, he, -⟩ | ⟨-, -, rfl⟩ := createSession_cases C h
  · cases he
  · cases he
  · exact ⟨_, rfl⟩

theorem stopSession_ok {io : SaveIo} {name : String} {w w' : World} {r : Except AppError Unit}
    (h : (stopSession C io name).run w = some (r, w')) :
    ∃ fs, w' = (w.stopped (toAsciiLowercase name)).withFs fs :=
  ⟨_, (stopSession_run_some C h).2⟩

/-- An operation that stops a session and then goes on has stopped the session, and has gone on
if the save succeeded. -/
theorem stopSession_bind_some {α : Type} {io : SaveIo} {name : String} {w w' : World}
    {f : Except AppError Unit → Prog World (Except AppError α)} {r : Except AppError α}
    (h : (stopSession C io name >>= f).run w = some (r, w'))
    (hf : ∀ e, f (.error e) = .ret (.error e)) :
    ∃ fs, (∃ e, r = .error e ∧ w' = (w.stopped (toAsciiLowercase name)).withFs fs) ∨
      (f (.ok ())).run ((w.stopped (toAsciiLowercase name)).withFs fs) = some (r, w') := by
  rw [Prog.run_bind] at h
  obtain ⟨⟨res, w₁⟩, hs, h⟩ := Option.bind_eq_some_iff.1 h
  obtain ⟨fs, rfl⟩ := stopSession_ok C hs
  refine ⟨fs, ?_⟩
  cases res with
  | error e =>
      rw [hf, Prog.run_ret] at h
      obtain ⟨rfl, rfl⟩ := Prod.mk.inj (Option.some_inj.1 h)
      exact Or.inl ⟨e, rfl, rfl⟩
  | ok u => exact Or.inr h

/-- The end of `restart_session` and `update_session`. -/
theorem createSession_bind_run {bind : Except String Unit} {io : SaveIo} {cfg : SessionConfig}
    {w w' : World} {r : Except AppError StatusRx}
    (h : (createSession C bind io cfg >>= fun
      | .error e => Prog.ret (.error e)
      | .ok (_, statusRx) => Prog.ret (.ok statusRx)).run w = some (r, w')) :
    ∃ r', (createSession C bind io cfg).run w = some (r', w') ∧ r = r'.map Prod.snd := by
  rw [Prog.run_bind] at h
  obtain ⟨⟨r', w₁⟩, hc, h⟩ := Option.bind_eq_some_iff.1 h
  cases r' with
  | error e =>
      obtain ⟨rfl, rfl⟩ := Prod.mk.inj (Option.some_inj.1 h)
      exact ⟨_, hc, rfl⟩
  | ok a =>
      obtain ⟨rfl, rfl⟩ := Prod.mk.inj (Option.some_inj.1 h)
      exact ⟨_, hc, rfl⟩

/-- **`delete_session`, when it returns.** -/
theorem deleteSession_run_some {stopIo io : SaveIo} {name : String} {w w' : World}
    {r : Except AppError Unit} (h : (deleteSession C stopIo io name).run w = some (r, w')) :
    ∃ fs, (∃ e, r = .error e ∧ w' = (w.stopped (toAsciiLowercase name)).withFs fs) ∨
      w' = ((w.stopped (toAsciiLowercase name)).remove (toAsciiLowercase name)).withFs fs := by
  rw [deleteSession] at h
  obtain ⟨fs, hstop | hgo⟩ := stopSession_bind_some C h fun _ => rfl
  · exact ⟨fs, Or.inl hstop⟩
  · simp only [Prog.run_bind, Prog.run_atomic, Option.bind_some, run_persistNow] at hgo
    have hw : (World.persist C io
        (((w.stopped (toAsciiLowercase name)).withFs fs).remove (toAsciiLowercase name))).2 =
        w' := by
      split at hgo <;> exact (Prod.mk.inj (Option.some_inj.1 hgo)).2
    exact ⟨_, Or.inr hw.symm⟩

/-- **`restart_session`, when it returns.** -/
theorem restartSession_run_some {stopIo io : SaveIo} {bind : Except String Unit} {name : String}
    {w w' : World} {r : Except AppError StatusRx}
    (h : (restartSession C stopIo bind io name).run w = some (r, w')) :
    (w.lookup (toAsciiLowercase name) = none ∧ r = .error (.notFound "no such session") ∧
      w' = w) ∨
    ∃ e fs, w.lookup (toAsciiLowercase name) = some e ∧
      ((∃ m, r = .error m ∧ w' = (w.stopped (toAsciiLowercase name)).withFs fs) ∨
        ∃ r', (createSession C bind io e.config).run
          ((w.stopped (toAsciiLowercase name)).withFs fs) = some (r', w') ∧
          r = r'.map Prod.snd) := by
  rw [restartSession, Prog.run_bind, Prog.run_atomic, Option.bind_some] at h
  cases hl : w.lookup (toAsciiLowercase name) with
  | none =>
      rw [hl] at h
      obtain ⟨rfl, rfl⟩ := Prod.mk.inj (Option.some_inj.1 h)
      exact Or.inl ⟨rfl, rfl, rfl⟩
  | some e =>
      rw [hl] at h
      obtain ⟨fs, hstop | hgo⟩ := stopSession_bind_some C h fun _ => rfl
      · exact Or.inr ⟨e, fs, rfl, Or.inl hstop⟩
      · exact Or.inr ⟨e, fs, rfl, Or.inr (createSession_bind_run C hgo)⟩

/-- **`update_session`, when it returns.** -/
theorem updateSession_run_some {stopIo io : SaveIo} {bind : Except String Unit} {oldName : String}
    {cfg : SessionConfig} {w w' : World} {r : Except AppError StatusRx}
    (h : (updateSession C stopIo bind io oldName cfg).run w = some (r, w')) :
    ∃ fs, (∃ m, r = .error m ∧ w' = (w.stopped (toAsciiLowercase oldName)).withFs fs) ∨
      ∃ r', (createSession C bind io (w.keepPassword oldName cfg)).run
        ((w.stopped (toAsciiLowercase oldName)).withFs fs) = some (r', w') ∧
        r = r'.map Prod.snd := by
  rw [updateSession, Prog.run_bind, Prog.run_atomic, Option.bind_some] at h
  obtain ⟨fs, hstop | hgo⟩ := stopSession_bind_some C h fun _ => rfl
  · exact ⟨fs, Or.inl hstop⟩
  · exact ⟨fs, Or.inr (createSession_bind_run C hgo)⟩

/-- The continuation of a stop and a `create_session` that together succeed. -/
theorem createSession_map_ok {bind : Except String Unit} {io : SaveIo} {cfg : SessionConfig}
    {w w' : World} {fs : Fs} {r : Except AppError (String × StatusRx)} {a : StatusRx}
    (h : (createSession C bind io cfg).run (w.withFs fs) = some (r, w'))
    (hr : Except.ok a = r.map Prod.snd) : ∃ fs', w' = (w.entered cfg).2.withFs fs' := by
  cases r with
  | error e => cases hr
  | ok b =>
      obtain ⟨fs', rfl⟩ := createSession_ok C h
      refine ⟨fs', ?_⟩
      rw [World.entered_withFs]
      rfl

/-- **A successful call has exactly its effect**, apart from `config.toml`. -/
theorem Call.run_ok {c : Call} {io : CallIo} {w w' : World}
    (h : (c.prog C io).run w = some (.ok (), w')) : ∃ fs, w' = (c.effect w).withFs fs := by
  cases c with
  | create cfg =>
      obtain ⟨a, ha⟩ := discard_ok h
      exact createSession_ok C ha
  | stop name => exact stopSession_ok C h
  | delete name =>
      obtain ⟨fs, ⟨e, he, -⟩ | rfl⟩ := deleteSession_run_some C h
      · cases he
      · exact ⟨fs, rfl⟩
  | restart name =>
      obtain ⟨a, ha⟩ := discard_ok h
      obtain ⟨-, he, -⟩ | ⟨e, fs, hl, ⟨m, he, -⟩ | ⟨r', hc, hr⟩⟩ :=
        restartSession_run_some C ha
      · cases he
      · cases he
      · rw [Call.effect, hl]
        exact createSession_map_ok C hc hr
  | update oldName cfg =>
      obtain ⟨a, ha⟩ := discard_ok h
      obtain ⟨fs, ⟨m, he, -⟩ | ⟨r', hc, hr⟩⟩ := updateSession_run_some C ha
      · cases he
      · exact createSession_map_ok C hc hr

/-! ### The start-up loop -/

/-- A successful start has entered the first session, and then the others. -/
theorem startup_cons {x : SessionConfig × Except String Unit}
    {rest : List (SessionConfig × Except String Unit)} {w w' : World}
    (h : (startup (x :: rest)).run w = some (.ok (), w')) :
    ∃ w₁, (startStored x.2 x.1).run w = some (.ok (), w₁) ∧
      (startup rest).run w₁ = some (.ok (), w') := by
  rw [startup, Prog.run_bind] at h
  obtain ⟨⟨r, w₁⟩, hs, h⟩ := Option.bind_eq_some_iff.1 h
  cases r with
  | error e => cases Prod.mk.inj (Option.some_inj.1 h) |>.1
  | ok u => exact ⟨w₁, hs, h⟩

end TermHub
