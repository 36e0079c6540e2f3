/-
**Who owns the background tasks.**

Nothing but an entry of the session map remembers how to end the tasks of a session.  A task is
*owned* when exactly one entry holds its cancellation token, so that `stop_session` on that entry's
name ends it; a live task that nobody owns is an orphan and keeps its device or its listener for
ever.

`SessionMgr::register` refuses a name that is in use, but the map of the sessions does not:
`create_session` inserts over whatever stands under the lower-case name.

Main definitions:

* `SessionAct`, `sessionStep` — successful calls, each completed before the next, and tasks that
  end by themselves;
* `World.Owns`, `NoOrphan` — ownership, and that every live task is owned;
* `World.Vacant`, `NameFree` — the entry that a call will replace has no live task.

Main results:

* `noOrphan_iff_nameFree` — **no run leaves an orphan exactly if every call that enters a session
  finds its name free**;
* `noOrphan_fails` — creating `a` and then `A` leaves two orphans.
-/

import TermHub.AppInvariant
import TermHub.PlainCodec
import TermHub.Transition

set_option relaxedAutoImplicit false
set_option autoImplicit false

namespace TermHub

open Sections Transition

/-! ### Runs of calls -/

/-- What happens between two states: a call that succeeds, or a task that ends by itself. -/
inductive SessionAct
  | call (c : Call) (io : CallIo)
  | taskEnds (t : TaskId)

/-- The step of an action. -/
def sessionStep (C : Codec) (w : World) : SessionAct → Option World
  | .call c io =>
    match (c.prog C io).run w with
    | some (.ok (), w') => some w'
    | _ => none
  | .taskEnds t => some (w.endTask t)

theorem sessionStep_call {C : Codec} {w w' : World} {c : Call} {io : CallIo}
    (h : sessionStep C w (.call c io) = some w') :
    (c.prog C io).run w = some (.ok (), w') := by
  simp only [sessionStep] at h
  split at h
  · rename_i hr
    rw [hr, Option.some_inj.1 h]
  · cases h

/-! ### Ownership -/

/-- The entry under `key` owns the task: it holds the task's token, and stopping the session of the
entry ends the task. -/
def World.Owns (C : Codec) (w : World) (key : String) (t : TaskId) : Prop :=
  w.Holds key t ∧ ∀ r, w.lookup key = some r → ∀ io, ∃ res w',
    (stopSession C io r.config.name).run w = some (res, w') ∧ ¬ w'.Live t

/-- The tasks that calls have spawned since the state `w₀`, and those that the entries of `w₀`
held. -/
def Tracked (w₀ : World) (t : TaskId) : Prop :=
  w₀.rt.tasks.length ≤ t ∨ ∃ key, w₀.Holds key t

/-- **Every live task is owned by one entry**, and held by no other. -/
def NoOrphan (C : Codec) (w₀ w : World) : Prop :=
  ∀ t, Tracked w₀ t → w.Live t →
    ∃ key, w.Owns C key t ∧ ∀ key', w.Holds key' t → key' = key

/-- The entry under `key`, if there is one, has no live task. -/
def World.Vacant (w : World) (key : String) : Prop := ∀ t, w.Holds key t → ¬ w.Live t

/-- A call that enters a session finds its name free, or stops the session that has it. -/
def NameFree (w : World) : SessionAct → Prop
  | .call (.create cfg) _ => w.Vacant (toAsciiLowercase cfg.name)
  | .call (.update oldName cfg) _ =>
    toAsciiLowercase cfg.name ≠ toAsciiLowercase oldName → w.Vacant (toAsciiLowercase cfg.name)
  | _ => True

/-- In a well-formed state to be held is to be owned. -/
theorem World.Wf.owns {C : Codec} {w : World} (h : w.Wf) {key : String} {t : TaskId}
    (ht : w.Holds key t) : w.Owns C key t := by
  refine ⟨ht, fun r hr io => ⟨_, _, h.stop_returns C io r.config.name, ?_⟩⟩
  rw [h.keyed key r hr]
  intro hlive
  have hlive' : (w.stopped key).Live t := hlive
  rw [World.live_stopped h] at hlive'
  exact hlive'.2 ht

theorem World.Wf.noOrphan_iff {C : Codec} {w₀ w : World} (h : w.Wf) :
    NoOrphan C w₀ w ↔ ∀ t, Tracked w₀ t → w.Live t → ∃ key, w.Holds key t := by
  constructor
  · intro hno t ht hl
    obtain ⟨key, hk, -⟩ := hno t ht hl
    exact ⟨key, hk.1⟩
  · intro hheld t ht hl
    obtain ⟨key, hk⟩ := hheld t ht hl
    exact ⟨key, h.owns hk, fun key' hk' => h.holds_once hk' hk⟩

/-! ### One step -/

/-- What the runs keep: the state is well formed, no task is forgotten, and only tracked tasks are
held. -/
structure Kept (w₀ w : World) : Prop where
  wf : w.Wf
  tasks_le : w₀.rt.tasks.length ≤ w.rt.tasks.length
  tracked : ∀ key t, w.Holds key t → Tracked w₀ t

theorem Kept.withFs {w₀ w : World} (h : Kept w₀ w) (fs : Fs) : Kept w₀ (w.withFs fs) :=
  ⟨h.wf.withFs fs, h.tasks_le, h.tracked⟩

theorem Kept.stopped {w₀ w : World} (h : Kept w₀ w) (key : String) : Kept w₀ (w.stopped key) := by
  refine ⟨h.wf.stopped key, ?_, fun key' t ht => ?_⟩
  · rw [World.tasks_length_stopped]
    exact h.tasks_le
  · exact h.tracked key' t ((World.holds_stopped w key key' t).1 ht).2

theorem Kept.enters {w₀ w w' : World} {cfg : SessionConfig} (h : Kept w₀ w)
    (he : w.Enters cfg w') : Kept w₀ w' := by
  refine ⟨he.wf h.wf, le_trans h.tasks_le he.tasks_le, fun key t ht => ?_⟩
  obtain ⟨-, hge, -⟩ | ⟨-, ht⟩ := (he.holds h.wf key t).1 ht
  · exact Or.inl (le_trans h.tasks_le hge)
  · exact h.tracked key t ht

theorem World.holds_remove (w : World) (key key' : String) (t : TaskId) :
    (w.remove key).Holds key' t ↔ key' ≠ key ∧ w.Holds key' t := by
  unfold World.Holds World.HoldsToken
  by_cases hk : key' = key
  · rw [hk, World.lookup_remove]
    simp
  · rw [World.lookup_remove_ne hk]
    simp [hk]

theorem World.live_endTask (w : World) (t u : TaskId) :
    (w.endTask u).Live t ↔ w.Live t ∧ t ≠ u := by
  have h := World.live_endAll w [u] t
  rwa [List.mem_singleton] at h

theorem World.holds_endTask (w : World) (u : TaskId) (key : String) (t : TaskId) :
    (w.endTask u).Holds key t ↔ w.Holds key t := by
  have hmap : ((w.endTask u).rt.tasks[t]?).map Task.cancel = (w.rt.tasks[t]?).map Task.cancel :=
    World.tasks_cancel_endAll w [u] t
  have hiff : ∀ v : World, v.Holds key t ↔
      ∃ c, (v.rt.tasks[t]?).map Task.cancel = some c ∧ v.HoldsToken key c := by
    intro v
    simp only [World.Holds, Option.map_eq_some_iff, exists_exists_and_eq_and]
  rw [hiff, hiff, hmap]
  rfl

/-- **Stopping a session leaves no orphan.** -/
theorem NoOrphan.stopped {C : Codec} {w₀ w : World} (h : Kept w₀ w) (hno : NoOrphan C w₀ w)
    (key : String) : NoOrphan C w₀ (w.stopped key) := by
  rw [(h.wf.stopped key).noOrphan_iff]
  rw [h.wf.noOrphan_iff] at hno
  intro t ht hl
  rw [World.live_stopped h.wf] at hl
  obtain ⟨key', hk⟩ := hno t ht hl.1
  refine ⟨key', (World.holds_stopped w key key' t).2 ⟨?_, hk⟩⟩
  rintro rfl
  exact hl.2 hk

/-- A stopped entry has no live task. -/
theorem World.vacant_stopped (w : World) (key : String) : (w.stopped key).Vacant key := by
  intro t ht
  exact absurd rfl ((World.holds_stopped w key key t).1 ht).1

/-- Stopping one session does not make another vacant. -/
theorem World.vacant_stopped_ne {w : World} (h : w.Wf) {key key' : String} (hne : key' ≠ key) :
    (w.stopped key).Vacant key' ↔ w.Vacant key' := by
  unfold World.Vacant
  simp only [World.holds_stopped, World.live_stopped h]
  constructor
  · intro hv t ht hl
    exact hv t ⟨hne, ht⟩ ⟨hl, fun ht' => hne (h.holds_once ht ht')⟩
  · rintro hv t ⟨-, ht⟩ ⟨hl, -⟩
    exact hv t ht hl

/-- **Entering a session leaves no orphan exactly if its name is free.** -/
theorem NoOrphan.enters_iff {C : Codec} {w₀ w w' : World} {cfg : SessionConfig} (h : Kept w₀ w)
    (hno : NoOrphan C w₀ w) (he : w.Enters cfg w') :
    NoOrphan C w₀ w' ↔ w.Vacant (toAsciiLowercase cfg.name) := by
  rw [(he.wf h.wf).noOrphan_iff]
  rw [h.wf.noOrphan_iff] at hno
  constructor
  · intro hno' t ht hl
    -- a live task of the replaced entry would be held by nobody
    obtain ⟨key, hk⟩ := hno' t (h.tracked _ t ht) ((he.live t).2 (Or.inl hl))
    obtain ⟨-, hge, -⟩ | ⟨hne, hk⟩ := (he.holds h.wf key t).1 hk
    · obtain ⟨k, hk, -⟩ := ht
      exact absurd (List.getElem?_eq_some_iff.1 hk).1 (Nat.not_lt.2 hge)
    · exact hne (h.wf.holds_once hk ht)
  · intro hv t ht hl
    obtain hl | hfresh := (he.live t).1 hl
    · obtain ⟨key, hk⟩ := hno t ht hl
      refine ⟨key, (he.holds h.wf key t).2 (Or.inr ⟨?_, hk⟩)⟩
      rintro rfl
      exact hv t hk hl
    · exact ⟨_, (he.holds h.wf _ t).2 (Or.inl ⟨rfl, hfresh⟩)⟩

@[simp] theorem World.name_keepPassword (w : World) (oldName : String) (cfg : SessionConfig) :
    (w.keepPassword oldName cfg).name = cfg.name := by
  unfold World.keepPassword
  split
  · split <;> rfl
  · rfl

theorem noOrphan_withFs {C : Codec} {w₀ w : World} (h : Kept w₀ w) (fs : Fs) :
    NoOrphan C w₀ (w.withFs fs) ↔ NoOrphan C w₀ w := by
  rw [(h.wf.withFs fs).noOrphan_iff, h.wf.noOrphan_iff]
  rfl

/-- The effect of a call keeps what the runs keep. -/
theorem Kept.effect {w₀ w : World} (h : Kept w₀ w) (c : Call) : Kept w₀ (c.effect w) := by
  cases c with
  | create cfg => exact h.enters (World.entered_enters w cfg)
  | stop name => exact h.stopped _
  | delete name =>
      have hs := h.stopped (toAsciiLowercase name)
      exact ⟨hs.wf.remove _, hs.tasks_le,
        fun key t ht => hs.tracked key t ((World.holds_remove _ _ _ _).1 ht).2⟩
  | restart name =>
      simp only [Call.effect]
      cases w.lookup (toAsciiLowercase name) with
      | none => exact h
      | some r => exact (h.stopped _).enters (World.entered_enters _ _)
  | update oldName cfg => exact (h.stopped _).enters (World.entered_enters _ _)

/-- **One call leaves no orphan exactly if the name it needs is free.** -/
theorem NoOrphan.effect_iff {C : Codec} {w₀ w : World} (h : Kept w₀ w) (hno : NoOrphan C w₀ w)
    (c : Call) (io : CallIo) : NoOrphan C w₀ (c.effect w) ↔ NameFree w (.call c io) := by
  cases c with
  | create cfg =>
      have hiff := hno.enters_iff h (World.entered_enters w cfg)
      exact hiff
  | stop name => exact iff_of_true (hno.stopped h _) trivial
  | delete name =>
      refine iff_of_true ?_ trivial
      have hs := h.stopped (toAsciiLowercase name)
      have hnos := (hs.wf.noOrphan_iff).1 (hno.stopped h (toAsciiLowercase name))
      rw [Call.effect, (hs.wf.remove _).noOrphan_iff]
      intro t ht hl
      obtain ⟨key, hk⟩ := hnos t ht hl
      have hne := ((World.holds_stopped w _ key t).1 hk).1
      exact ⟨key, (World.holds_remove _ _ _ _).2 ⟨hne, hk⟩⟩
  | restart name =>
      refine iff_of_true ?_ trivial
      simp only [Call.effect]
      cases hl : w.lookup (toAsciiLowercase name) with
      | none => exact hno
      | some r =>
          -- the entry is entered again under its own, now vacant, name
          refine ((hno.stopped h _).enters_iff (h.stopped _) (World.entered_enters _ _)).2 ?_
          have hkey : toAsciiLowercase r.config.name = toAsciiLowercase name :=
            h.wf.keyed _ r hl
          rw [hkey]
          exact World.vacant_stopped w _
  | update oldName cfg =>
      have hiff := (hno.stopped h (toAsciiLowercase oldName)).enters_iff (h.stopped _)
        (World.entered_enters (w.stopped (toAsciiLowercase oldName)) (w.keepPassword oldName cfg))
      rw [Call.effect, hiff]
      simp only [World.name_keepPassword, NameFree]
      by_cases hn : toAsciiLowercase cfg.name = toAsciiLowercase oldName
      · rw [hn]
        exact iff_of_true (World.vacant_stopped w _) fun hne => absurd rfl hne
      · rw [World.vacant_stopped_ne h.wf hn]
        exact ⟨fun hv _ => hv, fun hv => hv hn⟩

/-! ### Whole runs -/

theorem Kept.step {C : Codec} {w₀ w w' : World} {a : SessionAct} (h : Kept w₀ w)
    (hs : sessionStep C w a = some w') : Kept w₀ w' := by
  cases a with
  | call c io =>
      obtain ⟨fs, rfl⟩ := Call.run_ok C (sessionStep_call hs)
      exact (h.effect c).withFs fs
  | taskEnds t =>
      obtain rfl := Option.some_inj.1 hs
      refine ⟨h.wf.endTask t, ?_, fun key u hu => h.tracked key u ((w.holds_endTask t key u).1 hu)⟩
      simp only [World.endTask, List.length_modify]
      exact h.tasks_le

theorem NoOrphan.step_iff {C : Codec} {w₀ w w' : World} {a : SessionAct} (h : Kept w₀ w)
    (hno : NoOrphan C w₀ w) (hs : sessionStep C w a = some w') :
    NoOrphan C w₀ w' ↔ NameFree w a := by
  cases a with
  | call c io =>
      obtain ⟨fs, rfl⟩ := Call.run_ok C (sessionStep_call hs)
      rw [noOrphan_withFs (h.effect c)]
      exact hno.effect_iff h c io
  | taskEnds t =>
      have hrun := h.step hs
      obtain rfl := Option.some_inj.1 hs
      refine iff_of_true ?_ trivial
      rw [hrun.wf.noOrphan_iff]
      rw [h.wf.noOrphan_iff] at hno
      intro u hu hl
      obtain ⟨key, hk⟩ := hno u hu ((w.live_endTask u t).1 hl).1
      exact ⟨key, (w.holds_endTask t key u).2 hk⟩

/-- **No orphans, exactly**: in a run of successful calls from a successful start, every live task
is owned in every state between calls if and only if each call that enters a session finds the name
free, or held by the session that it stops itself. -/
theorem noOrphan_iff_nameFree {C : Codec} {w₀ w : World} {as : List SessionAct}
    (hb : Boots C w₀) (hr : exec (sessionStep C) w₀ as = some w) :
    Along (sessionStep C) (NoOrphan C w₀) w₀ as ↔ Meets (sessionStep C) NameFree w₀ as := by
  have hrun : Kept w₀ w₀ := ⟨hb.wf, le_rfl, fun key t ht => Or.inr ⟨key, ht⟩⟩
  have hno : NoOrphan C w₀ w₀ := by
    rw [hrun.wf.noOrphan_iff]
    rintro t (hge | hheld) ⟨k, hk, -⟩
    · exact absurd (List.getElem?_eq_some_iff.1 hk).1 (Nat.not_lt.2 hge)
    · exact hheld
  exact along_iff_meets (I := Kept w₀) (fun s a t hs => hs.step)
    (fun s a t hs hp => NoOrphan.step_iff hs hp) hrun hno hr

/-! ### A run on its own -/

/-- The state after a start without any stored session. -/
def World.empty : World := World.new defaultConfig "SHA256:" Fs.empty

theorem World.empty_boots (C : Codec) : Boots C World.empty :=
  ⟨Fs.empty, defaultConfig, "SHA256:", [], none, rfl, rfl, rfl⟩

/-- A session on the loopback upstream. -/
def loopbackSession (name listen : String) : SessionConfig where
  name := name
  password := "pass"
  sshUser := "admin"
  listen := listen
  autoReconnect := true
  launchOnStartup := true
  ptyOverride := none
  upstream := .loopback

/-- A session that is created, restarted under another spelling of its name and updated. -/
theorem noOrphan_restart :
    Along (sessionStep plainCodec) (NoOrphan plainCodec World.empty) World.empty
      [.call (.create (loopbackSession "a" "0.0.0.0:2301")) CallIo.none,
        .call (.restart "A") CallIo.none,
        .call (.update "a" (loopbackSession "A" "0.0.0.0:2302")) CallIo.none] := by
  refine (noOrphan_iff_nameFree (World.empty_boots plainCodec) rfl).2 ⟨?_, fun _ _ =>
    ⟨trivial, fun _ _ => ⟨fun hne => absurd rfl hne, fun _ _ => trivial⟩⟩⟩
  rintro t ⟨k, hk, -⟩
  cases hk

/-- **The name of a session can be taken over**: after `a` has been created, creating `A` succeeds,
and the runner of the first session is left to nobody. -/
theorem noOrphan_fails :
    ¬ ∀ (C : Codec) (w₀ w : World) (as : List SessionAct), Boots C w₀ →
      exec (sessionStep C) w₀ as = some w → NoOrphan C w₀ w := by
  intro h
  let a : SessionAct := .call (.create (loopbackSession "a" "0.0.0.0:2301")) CallIo.none
  let b : SessionAct := .call (.create (loopbackSession "A" "0.0.0.0:2302")) CallIo.none
  have hb := World.empty_boots plainCodec
  obtain ⟨w₁, h₁⟩ : ∃ w₁, sessionStep plainCodec World.empty a = some w₁ := ⟨_, rfl⟩
  obtain ⟨w₂, h₂⟩ : ∃ w₂, exec (sessionStep plainCodec) World.empty [a, b] = some w₂ := ⟨_, rfl⟩
  have hno₁ : NoOrphan plainCodec World.empty w₁ := h _ _ _ [a] hb (by rw [exec_cons_some h₁]; rfl)
  have hno₂ : NoOrphan plainCodec World.empty w₂ := h _ _ _ [a, b] hb h₂
  rw [exec_cons_some h₁, exec_cons] at h₂
  obtain ⟨w', hs, he⟩ := Option.bind_eq_some_iff.1 h₂
  obtain rfl := Option.some_inj.1 he
  have hrun : Kept World.empty w₁ := Kept.step ⟨hb.wf, le_rfl, fun key t ht => Or.inr ⟨key, ht⟩⟩ h₁
  have hv : w₁.Vacant "a" := (NoOrphan.step_iff hrun hno₁ hs).1 hno₂
  obtain rfl := Option.some_inj.1 h₁
  exact hv 0 ⟨_, rfl, _, rfl, by decide⟩ ⟨_, rfl, rfl, rfl⟩

end TermHub
