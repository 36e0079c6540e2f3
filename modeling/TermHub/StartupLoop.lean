/-
**One stored session that fails at the start.**

The start-up loop of `main` starts the stored sessions one after the other, and `?` takes the first
failure out of the loop and out of `main`.  Port forwards bind their address inside their task and
cannot fail the loop; a regular session fails for its user name or for its listen address.  The map
is built under the lower-case names, so of two sessions with the same key the later one stays.

Main definitions:

* `StartFails` — a stored session whose start fails;
* `Isolates` — the loop comes to its end, every session is in the map, and those that do not fail
  are running.

Main results:

* `startup_ok_iff` — **the loop comes to its end exactly if no session fails**;
* `startup_first_failure` — at the first failure the loop ends;
* `isolates_iff` — **when the loop isolates failures**.
-/

import TermHub.Restart

set_option relaxedAutoImplicit false
set_option autoImplicit false

namespace TermHub

open Sections

/-! ### The failure of one session -/

/-- The session is to be started, it is not a port forward, and its user name is refused or its
listen address is not bound. -/
def StartFails (x : SessionConfig × Except String Unit) : Prop :=
  x.1.launchOnStartup = true ∧ x.1.upstream.isHttpProxy = false ∧
    (normalizeName x.1.sshUser = none ∨ ∃ e, x.2 = .error e)

theorem startStored_fails {x : SessionConfig × Except String Unit} (h : StartFails x) (w : World) :
    ∃ e w', (startStored x.2 x.1).run w = some (.error e, w') := by
  obtain ⟨hl, hp, hfail⟩ := h
  rw [run_startStored_session x.2 hl hp]
  cases hn : normalizeName x.1.sshUser with
  | none => exact ⟨_, _, rfl⟩
  | some key =>
      obtain hn' | ⟨e, he⟩ := hfail
      · rw [hn] at hn'
        cases hn'
      · rw [he]
        exact ⟨_, _, rfl⟩

theorem startStored_succeeds {x : SessionConfig × Except String Unit} (h : ¬ StartFails x)
    (w : World) : ∃ w', (startStored x.2 x.1).run w = some (.ok (), w') := by
  refine startStored_returns (fun hl hp => ?_) (fun hl hp => ?_) w
  · cases hn : normalizeName x.1.sshUser with
    | none => exact absurd ⟨hl, hp, .inl hn⟩ h
    | some key => rfl
  · cases hb : x.2 with
    | ok u => rfl
    | error e => exact absurd ⟨hl, hp, .inr ⟨e, hb⟩⟩ h

/-! ### The loop -/

/-- **The loop comes to its end exactly if no session fails.** -/
theorem startup_ok_iff {sessions : List (SessionConfig × Except String Unit)} {w : World} :
    (∃ w', (startup sessions).run w = some (.ok (), w')) ↔ ∀ x ∈ sessions, ¬ StartFails x := by
  induction sessions generalizing w with
  | nil => exact iff_of_true ⟨w, rfl⟩ fun x hx => by cases hx
  | cons x rest ih =>
      rw [List.forall_mem_cons]
      constructor
      · rintro ⟨w', h⟩
        obtain ⟨w₁, hs, h⟩ := startup_cons h
        refine ⟨fun hfails => ?_, ih.1 ⟨w', h⟩⟩
        obtain ⟨e, w₂, he⟩ := startStored_fails hfails w
        rw [hs] at he
        cases Prod.mk.inj (Option.some_inj.1 he) |>.1
      · rintro ⟨hx, hrest⟩
        obtain ⟨w₁, hs⟩ := startStored_succeeds hx w
        obtain ⟨w', h⟩ := ih.2 hrest
        refine ⟨w', ?_⟩
        rw [startup, Prog.run_bind, hs, Option.bind_some]
        exact h

/-- **At the first failure the loop ends**: the error is the program's, and no session after it
has been looked at. -/
theorem startup_first_failure {started rest : List (SessionConfig × Except String Unit)}
    {x : SessionConfig × Except String Unit} {w : World} (hstarted : ∀ y ∈ started, ¬ StartFails y)
    (hx : StartFails x) : ∃ w₁ e w', (startup started).run w = some (.ok (), w₁) ∧
      (startStored x.2 x.1).run w₁ = some (.error e, w') ∧
      (startup (started ++ x :: rest)).run w = some (.error e, w') := by
  induction started generalizing w with
  | nil =>
      obtain ⟨e, w', he⟩ := startStored_fails hx w
      refine ⟨w, e, w', rfl, he, ?_⟩
      rw [List.nil_append, startup, Prog.run_bind, he]
      rfl
  | cons y started ih =>
      obtain ⟨hy, hstarted⟩ := List.forall_mem_cons.1 hstarted
      obtain ⟨w₀, hs⟩ := startStored_succeeds hy w
      obtain ⟨w₁, e, w', hrun, he, hall⟩ := ih (w := w₀) hstarted
      refine ⟨w₁, e, w', ?_, he, ?_⟩
      · rw [startup, Prog.run_bind, hs, Option.bind_some]
        exact hrun
      · rw [List.cons_append, startup, Prog.run_bind, hs, Option.bind_some]
        exact hall

/-- What is expected of the loop: it comes to its end, every stored session stands in the map with
its configuration, and those that are to be started and do not fail are running. -/
def Isolates (sessions : List (SessionConfig × Except String Unit)) (w : World) : Prop :=
  ∃ w', (startup sessions).run w = some (.ok (), w') ∧ ∀ x ∈ sessions,
    ∃ r, w'.lookup (toAsciiLowercase x.1.name) = some r ∧ r.config = x.1 ∧
      (x.1.launchOnStartup = true → ¬ StartFails x → w'.Up r)

/-- No two different sessions of the list have the same key. -/
def KeysApart (sessions : List (SessionConfig × Except String Unit)) : Prop :=
  ∀ x ∈ sessions, ∀ y ∈ sessions, toAsciiLowercase x.1.name = toAsciiLowercase y.1.name →
    x.1 = y.1

/-- What stands under the key of a session of the list. -/
theorem sessionAt_keysApart {sessions : List (SessionConfig × Except String Unit)}
    (h : KeysApart sessions) {x : SessionConfig × Except String Unit} (hx : x ∈ sessions) :
    sessionAt (sessions.map Prod.fst).reverse (toAsciiLowercase x.1.name) = some x.1 := by
  have hmem : x.1 ∈ (sessions.map Prod.fst).reverse :=
    List.mem_reverse.2 (List.mem_map_of_mem hx)
  cases hat : sessionAt (sessions.map Prod.fst).reverse (toAsciiLowercase x.1.name) with
  | none =>
      unfold sessionAt at hat
      exact absurd (decide_eq_true rfl) (List.find?_eq_none.1 hat x.1 hmem)
  | some s =>
      obtain ⟨hs, hkey⟩ := sessionAt_eq_some hat
      obtain ⟨y, hy, rfl⟩ := List.mem_map.1 (List.mem_reverse.1 hs)
      exact congrArg some (h y hy x hx hkey)

/-- **When the start-up loop isolates failures**: exactly if there are none, and different sessions
have different keys.  A single session that fails takes down all others. -/
theorem isolates_iff (stored : Config) (fpr : String) (fs : Fs)
    (sessions : List (SessionConfig × Except String Unit)) :
    Isolates sessions (World.new stored fpr fs) ↔
      (∀ x ∈ sessions, ¬ StartFails x) ∧ KeysApart sessions := by
  constructor
  · rintro ⟨w, hw, h⟩
    refine ⟨startup_ok_iff.1 ⟨w, hw⟩, fun x hx y hy hkey => ?_⟩
    obtain ⟨r, hr, hcfg, -⟩ := h x hx
    obtain ⟨r', hr', hcfg', -⟩ := h y hy
    rw [← hkey, hr] at hr'
    rw [← hcfg, ← hcfg', Option.some_inj.1 hr']
  · rintro ⟨hnone, hkeys⟩
    obtain ⟨w, hw⟩ := startup_ok_iff.2 hnone
    refine ⟨w, hw, fun x hx => ?_⟩
    have hat := startup_configAt_last hw (toAsciiLowercase x.1.name)
    rw [sessionAt_keysApart hkeys hx] at hat
    obtain ⟨r, hr, hcfg⟩ := Option.map_eq_some_iff.1 hat
    exact ⟨r, hr, hcfg, fun hl _ => (startup_up_or_down hw hr).1 (hcfg ▸ hl)⟩

/-- **One listen address that is in use keeps the program from starting.** -/
theorem startup_taken_down :
    ¬ ∀ (stored : Config) (fpr : String) (fs : Fs)
      (sessions : List (SessionConfig × Except String Unit)),
      Isolates sessions (World.new stored fpr fs) := by
  intro h
  let a : SessionConfig × Except String Unit :=
    (loopbackSession "a" "0.0.0.0:2301", .error "Address already in use (os error 98)")
  let b : SessionConfig × Except String Unit := (loopbackSession "b" "0.0.0.0:2302", .ok ())
  obtain ⟨w, hw, -⟩ := h { defaultConfig with sessions := [a.1, b.1] } "SHA256:" Fs.empty [a, b]
  exact startup_ok_iff.1 ⟨w, hw⟩ a List.mem_cons_self ⟨rfl, rfl, .inr ⟨_, rfl⟩⟩

end TermHub
