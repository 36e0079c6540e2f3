/-
**When a failed `create_session` has left no trace.**

`create_session` acquires one thing after the other: a runner, a listener, an entry of the map, a
file.  A failure after the first of them leaves what has been acquired so far where it is.  Here
the failures without a trace are characterized.

Main definitions:

* `World.Unchanged` — the same live tasks, the same entries, the same `config.toml`;
* `World.configWith` — the document with the new session in it;
* `CreateSafe` — the inputs on which a failure leaves no trace.

Main results:

* `createSession_atomic_iff` — **a failed `create_session` leaves the state unchanged exactly if
  the user name is refused, or nothing after that can fail**;
* `createSession_not_atomic` — a listen address that is in use leaves a runner behind.
-/

import TermHub.AppLogicSpec
import TermHub.PlainCodec

set_option relaxedAutoImplicit false
set_option autoImplicit false

namespace TermHub

open Sections

variable (C : Codec)

/-- The same live tasks, the same entries and the same contents of `config.toml`. -/
structure World.Unchanged (w w' : World) : Prop where
  live : ∀ t, w'.Live t ↔ w.Live t
  runners : w'.app.runners = w.app.runners
  file : w'.fs.readConfig = w.fs.readConfig

/-- The configurations in the order of the map, with the one given under the key. -/
def World.sessionsWith (w : World) (key : String) (cfg : SessionConfig) : List SessionConfig :=
  if (w.lookup key).isSome then
    w.app.runners.entries.map fun e => if e.1 = key then cfg else e.2.config
  else cfg :: w.app.runners.entries.map fun e => e.2.config

/-- The document with the new session, which takes the place of one of the same name. -/
def World.configWith (w : World) (cfg : SessionConfig) : Config :=
  { w.config with
    sessions := w.sessionsWith (toAsciiLowercase cfg.name) { cfg with launchOnStartup := true } }

/-- A failure leaves no trace: a port forward is saved without a failure; a regular session is
refused for its user name, or it is bound and saved without a failure. -/
def CreateSafe (bind : Except String Unit) (io : SaveIo) (cfg : SessionConfig) (w : World) : Prop :=
  if cfg.upstream.isHttpProxy then C.Writes (w.configWith cfg) ∧ io = SaveIo.none
  else normalizeName cfg.sshUser = none ∨
    (bind = .ok () ∧ C.Writes (w.configWith cfg) ∧ io = SaveIo.none)

/-- **The document after an entry has been put into the map.** -/
theorem World.config_insert (w : World) (key : String) (r : RunnerEntry) :
    (w.insert key r).config = { w.config with sessions := w.sessionsWith key r.config } := by
  refine congrArg (Config.mk _ _) ?_
  dsimp only [World.insert, World.sessionsWith]
  by_cases h : (w.lookup key).isSome = true
  · rw [if_pos h, OrderedMap.entries_put_of_mem (AList.lookup_isSome.1 h), List.map_map]
    refine List.map_congr_left fun e _ => ?_
    by_cases he : e.1 = key <;> simp [he]
  · rw [if_neg h, OrderedMap.entries_put_of_notMem fun hmem => h (AList.lookup_isSome.2 hmem),
      List.map_cons]

/-- What is saved is the document with the new session. -/
theorem World.config_entered (w : World) (cfg : SessionConfig) :
    (w.entered cfg).2.config = w.configWith cfg := by
  obtain ⟨w₁, e, hs, he, hcfg, -⟩ := w.entered_enters cfg
  have hruns : w₁.app = w.app := hs.app
  rw [he, World.config_insert, hcfg]
  unfold World.config World.sessionsWith World.lookup
  rw [hruns]
  rfl

/-- The next task is not live. -/
theorem World.not_live_next (w : World) : ¬ w.Live w.rt.tasks.length := by
  rintro ⟨k, hk, -⟩
  exact absurd (List.getElem?_eq_some_iff.1 hk).1 (lt_irrefl _)

/-- An entered session has a live task that was not there before. -/
theorem World.live_next_entered (w : World) (cfg : SessionConfig) :
    (w.entered cfg).2.Live w.rt.tasks.length := by
  have hlt : w.rt.tasks.length < (w.entered cfg).2.rt.tasks.length := by
    unfold World.entered
    cases cfg.upstream <;> simp [World.newSession, World.spawn, World.newObject]
  obtain ⟨w₁, e, hs, he, -, -⟩ := w.entered_enters cfg
  rw [he] at hlt ⊢
  exact hs.live.2 (Or.inr ⟨le_rfl, hlt⟩)

/-- The runner that is left behind when the listen address cannot be bound is live. -/
theorem World.live_next_newSession (w : World) (sshUser password : String)
    (upstream : UpstreamSpec) (cfg : RunnerConfig) :
    (w.newSession sshUser password upstream cfg).2.2.Live w.rt.tasks.length :=
  (World.newSession_spawned w sshUser password upstream cfg).live.2
    (Or.inr ⟨le_rfl, by simp [World.newSession, World.spawn, World.newObject]⟩)

theorem World.entered_changed (w : World) (cfg : SessionConfig) (fs : Fs) :
    ¬ w.Unchanged ((w.entered cfg).2.withFs fs) := fun h =>
  w.not_live_next ((h.live _).1 (w.live_next_entered cfg))

theorem World.newSession_changed (w : World) (sshUser password : String) (upstream : UpstreamSpec)
    (cfg : RunnerConfig) :
    ¬ w.Unchanged (w.newSession sshUser password upstream cfg).2.2 := fun h =>
  w.not_live_next ((h.live _).1 (w.live_next_newSession sshUser password upstream cfg))

/-- An admitted call fails exactly if its save does, and then it has left a trace. -/
theorem createSession_admitted_iff {bind : Except String Unit} {io : SaveIo} {cfg : SessionConfig}
    {w : World} (ha : Admitted bind cfg) :
    (∀ e w', (createSession C bind io cfg).run w = some (.error e, w') → w.Unchanged w') ↔
      C.Writes (w.configWith cfg) ∧ io = SaveIo.none := by
  rw [run_createSession_admitted C ha, ← World.config_entered,
    ← save_ok_iff C io (w.entered cfg).2.config (w.entered cfg).2.fs]
  have hsave : ((w.entered cfg).2.persist C io).1 =
      (save C io (w.entered cfg).2.config (w.entered cfg).2.fs).1 := rfl
  rw [← hsave]
  constructor
  · intro h
    cases hp : ((w.entered cfg).2.persist C io).1 with
    | ok u => rfl
    | error e =>
        rw [hp] at h
        exact absurd (h _ _ rfl) (w.entered_changed cfg _)
  · intro hp e w' h
    rw [hp] at h
    cases Prod.mk.inj (Option.some_inj.1 h) |>.1

/-- **When a failed `create_session` has left no trace, exactly.** -/
theorem createSession_atomic_iff (bind : Except String Unit) (io : SaveIo) (cfg : SessionConfig)
    (w : World) :
    (∀ e w', (createSession C bind io cfg).run w = some (.error e, w') → w.Unchanged w') ↔
      CreateSafe C bind io cfg w := by
  unfold CreateSafe
  cases hp : cfg.upstream.isHttpProxy with
  | true =>
      rw [if_pos rfl]
      exact createSession_admitted_iff C (Or.inl hp)
  | false =>
      rw [if_neg Bool.false_ne_true]
      cases hn : normalizeName cfg.sshUser with
      | none =>
          refine iff_of_true (fun e w' h => ?_) (Or.inl rfl)
          rw [run_createSession_refused C hp hn] at h
          obtain ⟨-, rfl⟩ := Prod.mk.inj (Option.some_inj.1 h)
          exact ⟨fun _ => Iff.rfl, rfl, rfl⟩
      | some key =>
          cases bind with
          | ok u =>
              rw [createSession_admitted_iff C (Or.inr ⟨by rw [hn]; rfl, rfl⟩)]
              simp
          | error m =>
              refine iff_of_false (fun h => ?_) (by simp)
              exact w.newSession_changed _ _ _ _ (h _ _ (run_createSession_unbound C hp hn m io w))

/-- **A failure can leave a runner behind**: the listen address of the new session is in use. -/
theorem createSession_not_atomic :
    ¬ ∀ (C : Codec) (bind : Except String Unit) (io : SaveIo) (cfg : SessionConfig) (w : World)
      (e : AppError) (w' : World),
      (createSession C bind io cfg).run w = some (.error e, w') → w.Unchanged w' := by
  intro h
  have hrun := h plainCodec (.error "Address already in use (os error 98)") SaveIo.none
    (devSession "COM3" 9600) (World.new defaultConfig "SHA256:" Fs.empty) _ _ rfl
  obtain ⟨k, hk, -⟩ := (hrun.live 0).1 ⟨_, rfl, rfl, rfl⟩
  cases hk

end TermHub
