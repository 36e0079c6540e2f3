/-
**What becomes of a session whose description is not valid.**

The description of an upstream is checked when the runner calls the driver factory, in the middle
of `run_loop`: the factory panics, the unwinding drops the channels of the driver, and the ticker,
which nobody aborts, goes on publishing.

Main definitions:

* `driverFactory`, `TaskKind.params` — the factory that `create_session` builds, and what a runner
  task runs;
* `ConfigErrorHandled` — the call fails and leaves nothing running, or the runner shows `Failed`;
* `NeverStarted` — what a runner whose factory panics can do.

Main results:

* `configErrorHandled_iff` — **a configuration error is handled exactly if the user name is refused
  first**;
* `panicking_never_failed`, `panicking_shows_running` — the runner never shows `Failed`, and shows
  `Running` after it has panicked;
* `invalid_description_runs_on` — **a description that is not valid leaves such a runner behind**.
-/

import TermHub.AppLogicSpec
import TermHub.Drivers
import TermHub.PlainCodec
import TermHub.RunLoop

set_option relaxedAutoImplicit false
set_option autoImplicit false

namespace TermHub

open Sections

/-! ### The factory of a session -/

/-- The closure `move || create_driver(&spec).expect("driver factory")`. -/
def driverFactory (spec : UpstreamSpec) : Except String Unit :=
  match createDriver spec with
  | .ok _ => .ok ()
  | .error e => .error ("driver factory: " ++ e)

/-- What a task runs, if it is a runner. -/
def TaskKind.params : TaskKind → Option Runner.Params
  | .runner _ upstream cfg => some ⟨driverFactory upstream, cfg⟩
  | _ => none

namespace Runner

/-- Some run shows `Failed`. -/
def ReachesFailed (c : Params) : Prop :=
  ∃ s r, Transition.Reachable (step c) RunState.init s ∧ s.watch = .failed r

/-- Whenever the runner has ended, by return or by panic, the watch shows a terminal status. -/
def EndsTerminal (c : Params) : Prop :=
  ∀ s, Transition.Reachable (step c) RunState.init s → s.main.ended = true →
    s.watch.isTerminal = true

end Runner

/-- The call fails and leaves nothing running that was not running before, or the runner that it has
spawned shows `Failed` and never ends without a terminal status. -/
def ConfigErrorHandled (C : Codec) (bind : Except String Unit) (io : SaveIo) (cfg : SessionConfig)
    (w : World) : Prop :=
  ∀ res w', (createSession C bind io cfg).run w = some (res, w') →
    ((∃ e, res = .error e) ∧ ∀ t, w'.Live t ↔ w.Live t) ∨
    ∀ t k c, w.rt.tasks.length ≤ t → w'.rt.tasks[t]? = some k → k.kind.params = some c →
      Runner.ReachesFailed c ∧ Runner.EndsTerminal c

/-! ### A runner whose factory panics -/

namespace Runner

/-- The positions of a loop that has never had a driver. -/
def Main.isIdle : Main → Bool
  | .start => true
  | .loopTop => true
  | .callFactory => true
  | .abortUptime .stopped => true
  | .publishLast .stopped => true
  | .returned => true
  | .panicked => true
  | _ => false

/-- What a runner whose factory panics can do: it has no driver and does not show `Failed`. -/
structure NeverStarted (s : RunState) : Prop where
  idle : s.main.isIdle = true
  not_failed : ∀ r, .failed r ∉ s.published

theorem neverStarted_init : NeverStarted RunState.init :=
  ⟨rfl, fun _ h => nomatch h⟩

theorem Main.publishes_of_isIdle {m : Main} (h : m.isIdle = true) (secs : ℕ) (r : String) :
    m.publishes secs ≠ some (.failed r) := by
  cases m with
  | publishLast last => cases last <;> simp_all [Main.isIdle, Main.publishes]
  | _ => simp_all [Main.isIdle, Main.publishes]

theorem NeverStarted.step {c : Params} {m : String} (hc : c.factory = .error m) {s t : RunState}
    {a : Act} (hi : NeverStarted s) (h : step c s a = some t) : NeverStarted t := by
  have hpub : t.published = s.published ++ (s.publishes a).toList := step_published h
  obtain ⟨hidle, hnot⟩ := hi
  constructor
  · by_cases hm : ∃ secs, a = .main secs
    · obtain ⟨secs, rfl⟩ := hm
      cases RunState.mainStep_stepped h with
      | creates hm hf => cases hc.symm.trans hf
      | starts | stops | wires | panics | returns => rfl
      | @abortsUptime last hm =>
          rw [hm] at hidle
          cases last <;> first | rfl | cases hidle
      | shows hm | joins hm | cancelsBridge hm | awaitsBridge hm | abortsPump hm | finishes hm
      | fails hm | resigns hm | loses hm | tells hm | counts hm | announces hm | givesUp hm
      | sleeps hm | interrupted hm =>
          rw [hm] at hidle
          cases hidle
    · by_cases hu : ∃ b, a = .uptime b
      · obtain ⟨b, rfl⟩ := hu
        rw [RunState.uptimeStep_eq h]
        exact hidle
      · obtain ⟨hmain | ⟨-, hmain⟩, -, -⟩ :=
          step_elsewhere h (fun secs e => hm ⟨secs, e⟩) (fun b e => hu ⟨b, e⟩)
        · rw [hmain]
          exact hidle
        · rw [hmain]
          rfl
  · intro r hr
    rw [hpub, List.mem_append, Option.mem_toList] at hr
    rcases hr with hr | hr
    · exact hnot r hr
    · cases a with
      | main secs => exact Main.publishes_of_isIdle hidle secs r hr
      | uptime b => cases b <;> cases hr
      | _ => cases hr

/-- **The runner never shows `Failed`**, whatever else happens. -/
theorem panicking_never_failed {c : Params} {m : String} (hc : c.factory = .error m) :
    ¬ ReachesFailed c := by
  rintro ⟨s, r, hs, hw⟩
  have hnever : NeverStarted s :=
    hs.invariant neverStarted_init fun _ _ _ hi _ h => hi.step hc h
  have hlast : s.published.getLastD .idle = .failed r := hw
  cases hp : s.published with
  | nil =>
      rw [hp] at hlast
      cases hlast
  | cons st rest =>
      refine hnever.not_failed r ?_
      rw [← hlast, hp, List.getLastD_cons]
      exact List.getLastD_mem_cons

/-- The factory panics, and then the ticker ticks. -/
def panicThenTick : List Act :=
  [.main 0, .main 0, .main 0, .uptime .poll, .uptime .tick, .uptime (.publish 1)]

/-- **After the panic the ticker shows `Running`.** -/
theorem panicking_shows_running {c : Params} {m : String} (hc : c.factory = .error m) :
    ∃ s, Transition.Reachable (step c) RunState.init s ∧ s.main = .panicked ∧
      s.watch = .running 1 := by
  obtain ⟨factory, cfg⟩ := c
  obtain rfl : factory = .error m := hc
  have hrun : ∃ s, Transition.exec (step ⟨.error m, cfg⟩) RunState.init panicThenTick = some s ∧
      s.main = .panicked ∧ s.watch = .running 1 := ⟨_, rfl, rfl, rfl⟩
  obtain ⟨s, hs, hmain, hwatch⟩ := hrun
  exact ⟨s, Transition.reachable_of_exec hs, hmain, hwatch⟩

theorem panicking_not_terminal {c : Params} {m : String} (hc : c.factory = .error m) :
    ¬ EndsTerminal c := by
  intro h
  obtain ⟨s, hs, hmain, hwatch⟩ := panicking_shows_running hc
  have hterm := h s hs (by rw [hmain]; rfl)
  rw [hwatch] at hterm
  cases hterm

end Runner

/-! ### The call -/

theorem driverFactory_error {spec : UpstreamSpec} {e : String} (h : createDriver spec = .error e) :
    driverFactory spec = .error ("driver factory: " ++ e) := by
  rw [driverFactory, h]

/-- The runner of a new session, which has just been spawned. -/
def newRunner (cfg : SessionConfig) (w : World) : Task :=
  ⟨.runner w.rt.objects cfg.upstream ⟨cfg.autoReconnect, none⟩, w.rt.tokens.length, false⟩

theorem newSession_runner (w : World) (cfg : SessionConfig) :
    (w.newSession cfg.sshUser cfg.password cfg.upstream
      ⟨cfg.autoReconnect, none⟩).2.2.rt.tasks[w.rt.tasks.length]? = some (newRunner cfg w) := by
  simp [World.newSession, World.spawn, World.newObject, newRunner]

theorem entered_runner {cfg : SessionConfig} (h : cfg.upstream.isHttpProxy = false) (w : World) :
    (w.entered cfg).2.rt.tasks[w.rt.tasks.length]? = some (newRunner cfg w) := by
  rw [World.entered_session h]
  exact World.tasks_spawn_of_some (newSession_runner w cfg) _

/-- **Once the user name is accepted, the runner is spawned** and goes on living, whatever becomes
of the listener and of the save. -/
theorem createSession_spawns (C : Codec) (bind : Except String Unit) (io : SaveIo)
    {cfg : SessionConfig} (w : World) (hu : cfg.upstream.isHttpProxy = false) {key : String}
    (hn : normalizeName cfg.sshUser = some key) :
    ∃ res w', (createSession C bind io cfg).run w = some (res, w') ∧
      w'.rt.tasks[w.rt.tasks.length]? = some (newRunner cfg w) ∧ w'.Live w.rt.tasks.length := by
  cases bind with
  | error m =>
      have hs := World.newSession_spawned w cfg.sshUser cfg.password cfg.upstream
        ⟨cfg.autoReconnect, none⟩
      have hk := newSession_runner w cfg
      exact ⟨_, _, run_createSession_unbound C hu hn m io w, hk,
        hs.live.2 (.inr ⟨le_rfl, (List.getElem?_eq_some_iff.1 hk).1⟩)⟩
  | ok u =>
      obtain ⟨w₁, r, hs, hr, -, -⟩ := w.entered_enters cfg
      have hk := entered_runner hu w
      refine ⟨_, _, run_createSession_started C hu hn io w, hk, ?_⟩
      have hlt := (List.getElem?_eq_some_iff.1 hk).1
      rw [hr] at hlt
      rw [World.persist_snd, hr]
      exact hs.live.2 (.inr ⟨le_rfl, hlt⟩)

/-- The error is not handled then. -/
theorem not_handled_of_name (C : Codec) (bind : Except String Unit) (io : SaveIo)
    {cfg : SessionConfig} (w : World) (hu : cfg.upstream.isHttpProxy = false) {e key : String}
    (he : createDriver cfg.upstream = .error e) (hn : normalizeName cfg.sshUser = some key) :
    ¬ ConfigErrorHandled C bind io cfg w := by
  obtain ⟨res, w', hrun, hk, hlive⟩ := createSession_spawns C bind io w hu hn
  intro hall
  rcases hall res w' hrun with ⟨-, hsame⟩ | hnew
  · obtain ⟨k, hk', -⟩ := (hsame _).1 hlive
    exact absurd (List.getElem?_eq_some_iff.1 hk').1 (lt_irrefl _)
  · have hfail := hnew _ _ ⟨driverFactory cfg.upstream, ⟨cfg.autoReconnect, none⟩⟩ le_rfl hk rfl
    exact Runner.panicking_never_failed (driverFactory_error he) hfail.1

/-- **A configuration error is handled exactly if the user name is refused first.** -/
theorem configErrorHandled_iff (C : Codec) (bind : Except String Unit) (io : SaveIo)
    (cfg : SessionConfig) (w : World) (hu : cfg.upstream.isHttpProxy = false) {e : String}
    (he : createDriver cfg.upstream = .error e) :
    ConfigErrorHandled C bind io cfg w ↔ normalizeName cfg.sshUser = none := by
  cases hn : normalizeName cfg.sshUser with
  | none =>
      refine iff_of_true (fun res w' h => .inl ?_) rfl
      rw [run_createSession_refused C hu hn] at h
      obtain ⟨rfl, rfl⟩ := Prod.mk.inj (Option.some_inj.1 h)
      exact ⟨⟨_, rfl⟩, fun t => Iff.rfl⟩
  | some key => exact iff_of_false (not_handled_of_name C bind io w hu he hn) (by simp)

/-- A serial session with nine data bits. -/
def nineBits : SessionConfig :=
  { devSession "COM3" 9600 with upstream := .serial "COM3" 9600 9 "none" 1 "none" "as_is" "as_is" }

/-- Without a user name the call fails before a runner is spawned. -/
theorem configErrorHandled_unnamed : ConfigErrorHandled plainCodec (.ok ()) SaveIo.none
    { nineBits with sshUser := "" } (World.new defaultConfig "SHA256:" Fs.empty) :=
  (configErrorHandled_iff plainCodec _ _ _ _ (by decide) (e := "invalid data_bits: 9") rfl).2
    (by decide)

/-- **A configuration error is not handled**: the session with nine data bits is created, and its
runner panics. -/
theorem configError_not_handled : ¬ ∀ (C : Codec) (bind : Except String Unit) (io : SaveIo)
    (cfg : SessionConfig) (w : World) (e : String), cfg.upstream.isHttpProxy = false →
    createDriver cfg.upstream = .error e → ConfigErrorHandled C bind io cfg w := by
  intro h
  have hnine := h plainCodec (.ok ()) SaveIo.none nineBits
    (World.new defaultConfig "SHA256:" Fs.empty) "invalid data_bits: 9" (by decide) rfl
  have hname : normalizeName nineBits.sshUser = some "admin" := by decide
  exact not_handled_of_name plainCodec _ _ _ (by decide) rfl hname hnine

/-- **A description that is not valid leaves a runner behind**: once the user name of a session is
accepted, `create_session` spawns a runner that goes on living, whatever becomes of the listener and
of the save.  Its factory panics with a text that names the first setting that is not known; it
never shows `Failed`, and after the panic it may show a status that is not terminal. -/
theorem invalid_description_runs_on (C : Codec) (bind : Except String Unit) (io : SaveIo)
    {cfg : SessionConfig} (w : World) (hu : cfg.upstream.isHttpProxy = false) {key : String}
    (hn : normalizeName cfg.sshUser = some key) (hv : ¬ cfg.upstream.Valid) :
    ∃ res w' t k c e, (createSession C bind io cfg).run w = some (res, w') ∧
      w.rt.tasks.length ≤ t ∧ w'.rt.tasks[t]? = some k ∧ w'.Live t ∧ k.kind.params = some c ∧
      cfg.upstream.Refusal e ∧ c.factory = .error ("driver factory: " ++ e) ∧
      ¬ Runner.ReachesFailed c ∧ ¬ Runner.EndsTerminal c := by
  obtain ⟨res, w', hrun, hk, hlive⟩ := createSession_spawns C bind io w hu hn
  obtain ⟨e, he⟩ : ∃ e, createDriver cfg.upstream = .error e := by
    cases hd : createDriver cfg.upstream with
    | error e => exact ⟨e, rfl⟩
    | ok d => exact absurd ((createDriver_ok_iff cfg.upstream).1 ⟨d, hd⟩) hv
  have hpanics := driverFactory_error he
  exact ⟨res, w', _, _, _, e, hrun, le_rfl, hk, hlive, rfl, createDriver_error_iff.1 he, hpanics,
    Runner.panicking_never_failed hpanics, Runner.panicking_not_terminal hpanics⟩

/-- The runner of the session with nine data bits. -/
theorem invalid_description_nineBits : ∃ res w' t k c,
    (createSession plainCodec (.ok ()) SaveIo.none nineBits).run
      (World.new defaultConfig "SHA256:" Fs.empty) = some (res, w') ∧
    w'.rt.tasks[t]? = some k ∧ w'.Live t ∧ k.kind.params = some c ∧
    c.factory = .error "driver factory: invalid data_bits: 9" ∧
    ¬ Runner.ReachesFailed c ∧ ¬ Runner.EndsTerminal c := by
  have hname : normalizeName nineBits.sshUser = some "admin" := by decide
  have hv : ¬ nineBits.upstream.Valid := fun h => absurd h.1 (by decide)
  obtain ⟨res, w', t, k, c, e, hrun, -, hk, hlive, hc, he, hpanics, hnever⟩ :=
    invalid_description_runs_on plainCodec (.ok ()) SaveIo.none
      (World.new defaultConfig "SHA256:" Fs.empty) (by decide) hname hv
  obtain rfl : e = "invalid data_bits: 9" := he
  exact ⟨res, w', t, k, c, hrun, hk, hlive, hc, hpanics, hnever⟩

end TermHub
