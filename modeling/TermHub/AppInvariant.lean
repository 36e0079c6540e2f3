/-
**The invariant of the application state.**

Every state in which the program can be between two calls is well formed: the entries stand under
the lower-case names of their sessions, each token is held by one entry at most, and the handles
that an entry holds belong to tasks that listen to tokens of the same entry.  The last fact is why
`stop_session` returns: what it waits for it has cancelled.

Main definitions:

* `World.Holds` — the entry under a key holds the token of a task;
* `World.Wf` — the invariant.

Main results:

* `World.live_stopped`, `World.holds_stopped`, `World.Enters.live`, `World.Enters.holds` — what
  stopping and entering a session do to live tasks and to who holds them;
* `ReachableWorld.wf` — **every reachable state is well formed**;
* `World.Wf.stop_returns` — `stop_session` returns in a well-formed state.
-/

import TermHub.Entries

set_option relaxedAutoImplicit false
set_option autoImplicit false

namespace TermHub

open Sections

namespace World

/-- The entry under `key` holds the token `c`. -/
def HoldsToken (w : World) (key : String) (c : Token) : Prop :=
  ∃ r, w.lookup key = some r ∧ c ∈ r.tokens

/-- The entry under `key` holds the token of the task `t`. -/
def Holds (w : World) (key : String) (t : TaskId) : Prop :=
  ∃ k, w.rt.tasks[t]? = some k ∧ w.HoldsToken key k.cancel

/-- **The invariant.** -/
structure Wf (w : World) : Prop where
  keyed : ∀ key r, w.lookup key = some r → toAsciiLowercase r.config.name = key
  tasks_lt : ∀ (t : TaskId) (k : Task), w.rt.tasks[t]? = some k → k.cancel < w.rt.tokens.length
  held_lt : ∀ key c, w.HoldsToken key c → c < w.rt.tokens.length
  held_once : ∀ key key' c, w.HoldsToken key c → w.HoldsToken key' c → key = key'
  handles : ∀ key r, w.lookup key = some r → ∀ t ∈ r.handles,
    ∃ k, w.rt.tasks[t]? = some k ∧ k.cancel ∈ r.tokens

theorem Wf.holds_once {w : World} (h : w.Wf) {key key' : String} {t : TaskId}
    (ht : w.Holds key t) (ht' : w.Holds key' t) : key = key' := by
  obtain ⟨k, hk, hc⟩ := ht
  obtain ⟨k', hk', hc'⟩ := ht'
  obtain rfl : k = k' := Option.some_inj.1 (hk.symm.trans hk')
  exact h.held_once _ _ _ hc hc'

/-! ### Keeping the invariant -/

/-- The invariant speaks of the entries, the tasks' tokens and the number of tokens only, and it is
kept when entries go or give up what they hold. -/
theorem Wf.of_fewer {w w' : World} (h : w.Wf)
    (hlen : w'.rt.tokens.length = w.rt.tokens.length)
    (htasks : ∀ t : TaskId, (w'.rt.tasks[t]?).map Task.cancel = (w.rt.tasks[t]?).map Task.cancel)
    (hent : ∀ key r', w'.lookup key = some r' → ∃ r, w.lookup key = some r ∧
      r'.config.name = r.config.name ∧ ((r'.tokens = r.tokens ∧ r'.handles = r.handles) ∨
        (r'.tokens = [] ∧ r'.handles = []))) : w'.Wf := by
  have hheld : ∀ key c, w'.HoldsToken key c → w.HoldsToken key c := by
    rintro key c ⟨r', hr', hc⟩
    obtain ⟨r, hr, -, ⟨ht, -⟩ | ⟨ht, -⟩⟩ := hent key r' hr'
    · exact ⟨r, hr, ht ▸ hc⟩
    · rw [ht] at hc
      cases hc
  refine ⟨?_, ?_, ?_, ?_, ?_⟩
  · intro key r' hr'
    obtain ⟨r, hr, hname, -⟩ := hent key r' hr'
    rw [hname]
    exact h.keyed key r hr
  · intro t k' hk'
    have hmap := htasks t
    rw [hk', Option.map_some] at hmap
    obtain ⟨k, hk, hc⟩ := Option.map_eq_some_iff.1 hmap.symm
    rw [hlen, ← hc]
    exact h.tasks_lt t k hk
  · intro key c hc
    rw [hlen]
    exact h.held_lt key c (hheld key c hc)
  · intro key key' c hc hc'
    exact h.held_once key key' c (hheld key c hc) (hheld key' c hc')
  · intro key r' hr' t ht
    obtain ⟨r, hr, -, ⟨htok, hhan⟩ | ⟨-, hhan⟩⟩ := hent key r' hr'
    · obtain ⟨k, hk, hc⟩ := h.handles key r hr t (hhan ▸ ht)
      have hmap := htasks t
      rw [hk, Option.map_some] at hmap
      obtain ⟨k', hk', hcc⟩ := Option.map_eq_some_iff.1 hmap
      exact ⟨k', hk', by rw [hcc, htok]; exact hc⟩
    · rw [hhan] at ht
      cases ht

theorem Wf.withFs {w : World} (h : w.Wf) (fs : Fs) : (w.withFs fs).Wf :=
  h.of_fewer rfl (fun _ => rfl) fun _ r hr => ⟨r, hr, rfl, Or.inl ⟨rfl, rfl⟩⟩

theorem Wf.remove {w : World} (h : w.Wf) (key : String) : (w.remove key).Wf := by
  refine h.of_fewer rfl (fun _ => rfl) fun key' r hr => ?_
  by_cases hk : key' = key
  · rw [hk, lookup_remove] at hr
    cases hr
  · rw [lookup_remove_ne hk] at hr
    exact ⟨r, hr, rfl, Or.inl ⟨rfl, rfl⟩⟩

theorem tasks_cancel_endAll (w : World) (ts : List TaskId) (t : TaskId) :
    ((w.endAll ts).rt.tasks[t]?).map Task.cancel = (w.rt.tasks[t]?).map Task.cancel := by
  rw [tasks_endAll, Option.map_map]
  rfl

theorem Wf.endTask {w : World} (h : w.Wf) (t : TaskId) : (w.endTask t).Wf :=
  h.of_fewer rfl (fun u => tasks_cancel_endAll w [t] u)
    fun _ r hr => ⟨r, hr, rfl, Or.inl ⟨rfl, rfl⟩⟩

/-! ### Stopping -/

@[simp] theorem tokens_length_stopped (w : World) (key : String) :
    (w.stopped key).rt.tokens.length = w.rt.tokens.length := by
  unfold stopped
  cases w.lookup key with
  | none => rfl
  | some r => simp only [rt_insert, tokens_endAll, tokens_length_cancelAll]

theorem tasks_cancel_stopped (w : World) (key : String) (t : TaskId) :
    ((w.stopped key).rt.tasks[t]?).map Task.cancel = (w.rt.tasks[t]?).map Task.cancel := by
  unfold stopped
  cases w.lookup key with
  | none => rfl
  | some r => simp only [rt_insert, tasks_cancel_endAll, tasks_cancelAll]

@[simp] theorem tasks_length_stopped (w : World) (key : String) :
    (w.stopped key).rt.tasks.length = w.rt.tasks.length := by
  refine le_antisymm ?_ ?_ <;> refine Nat.le_of_not_lt fun hlt => ?_
  · have h := tasks_cancel_stopped w key (w.rt.tasks.length)
    rw [List.getElem?_eq_getElem hlt, List.getElem?_eq_none le_rfl] at h
    cases h
  · have h := tasks_cancel_stopped w key ((w.stopped key).rt.tasks.length)
    rw [List.getElem?_eq_none le_rfl, List.getElem?_eq_getElem hlt] at h
    cases h

theorem Wf.stopped {w : World} (h : w.Wf) (key : String) : (w.stopped key).Wf := by
  refine h.of_fewer (tokens_length_stopped w key) (tasks_cancel_stopped w key) ?_
  intro key' r' hr'
  rw [lookup_stopped] at hr'
  split at hr'
  · rename_i hk
    obtain ⟨r, hr, rfl⟩ := Option.map_eq_some_iff.1 hr'
    exact ⟨r, hk ▸ hr, rfl, Or.inr ⟨rfl, rfl⟩⟩
  · exact ⟨r', hr', rfl, Or.inl ⟨rfl, rfl⟩⟩

/-- The stopped entry holds no task any more, the others hold what they held. -/
theorem holds_stopped (w : World) (key key' : String) (t : TaskId) :
    (w.stopped key).Holds key' t ↔ key' ≠ key ∧ w.Holds key' t := by
  have hheld : ∀ c, (w.stopped key).HoldsToken key' c ↔ key' ≠ key ∧ w.HoldsToken key' c := by
    intro c
    unfold HoldsToken
    rw [lookup_stopped]
    split
    · rename_i hk
      constructor
      · rintro ⟨r', hr', hc⟩
        obtain ⟨r, -, rfl⟩ := Option.map_eq_some_iff.1 hr'
        cases hc
      · rintro ⟨hne, -⟩
        exact absurd hk hne
    · rename_i hk
      simp [hk]
  unfold Holds
  simp only [hheld]
  have hmap := tasks_cancel_stopped w key t
  constructor
  · rintro ⟨k', hk', hne, hc⟩
    rw [hk', Option.map_some] at hmap
    obtain ⟨k, hk, hkc⟩ := Option.map_eq_some_iff.1 hmap.symm
    exact ⟨hne, k, hk, hkc ▸ hc⟩
  · rintro ⟨hne, k, hk, hc⟩
    rw [hk, Option.map_some] at hmap
    obtain ⟨k', hk', hkc⟩ := Option.map_eq_some_iff.1 hmap
    exact ⟨k', hk', hne, hkc ▸ hc⟩

/-- **Stopping an entry ends the tasks it holds, and no others.** -/
theorem live_stopped {w : World} (h : w.Wf) (key : String) (t : TaskId) :
    (w.stopped key).Live t ↔ w.Live t ∧ ¬ w.Holds key t := by
  unfold World.stopped
  cases hl : w.lookup key with
  | none =>
      have hnot : ¬ w.Holds key t := by
        rintro ⟨k, -, r, hr, -⟩
        rw [hl] at hr
        cases hr
      simp only [hnot, not_false_iff, and_true]
  | some r =>
      have hlive : ∀ (v : World) (e : RunnerEntry), (v.insert key e).Live t ↔ v.Live t :=
        fun _ _ => Iff.rfl
      -- the tasks that are waited for are among those that are cancelled
      rw [hlive, live_endAll, hlive]
      have hhan : t ∈ r.handles → w.Holds key t := by
        intro ht
        obtain ⟨k, hk, hc⟩ := h.handles key r hl t ht
        exact ⟨k, hk, r, hl, hc⟩
      have hcan : (w.cancelAll r.tokens).Live t ↔ w.Live t ∧ ¬ w.Holds key t := by
        unfold Live Holds HoldsToken
        rw [tasks_cancelAll, hl]
        constructor
        · rintro ⟨k, hk, he, hc⟩
          rw [Bool.eq_false_iff, Ne, isCancelled_cancelAll, not_or] at hc
          refine ⟨⟨k, hk, he, Bool.eq_false_iff.2 hc.2⟩, ?_⟩
          rintro ⟨k', hk', r', hr', hmem⟩
          obtain rfl : k = k' := Option.some_inj.1 (hk.symm.trans hk')
          obtain rfl : r = r' := Option.some_inj.1 hr'
          exact hc.1 ⟨hmem, h.tasks_lt t k hk⟩
        · rintro ⟨⟨k, hk, he, hc⟩, hnot⟩
          refine ⟨k, hk, he, ?_⟩
          rw [Bool.eq_false_iff, Ne, isCancelled_cancelAll, not_or]
          exact ⟨fun hm => hnot ⟨k, hk, r, rfl, hm.1⟩, Bool.eq_false_iff.1 hc⟩
      rw [hcan]
      constructor
      · exact And.left
      · exact fun hlv => ⟨hlv, fun ht => hlv.2 (hhan ht)⟩

/-! ### Entering -/

/-- Fresh tasks keep the invariant. -/
theorem Spawned.wf {w w₁ : World} {cs : List Token} (hs : Spawned w w₁ cs) (h : w.Wf) :
    w₁.Wf := by
  refine ⟨?_, ?_, ?_, ?_, ?_⟩
  · intro key r hr
    rw [hs.lookup] at hr
    exact h.keyed key r hr
  · intro t k hk
    rcases Nat.lt_or_ge t w.rt.tasks.length with hlt | hge
    · rw [hs.tasks_old t hlt] at hk
      exact lt_of_lt_of_le (h.tasks_lt t k hk) hs.tokens_le
    · exact (hs.fresh _ (hs.tasks_new t k hge hk).2).2
  · rintro key c ⟨r, hr, hc⟩
    rw [hs.lookup] at hr
    exact lt_of_lt_of_le (h.held_lt key c ⟨r, hr, hc⟩) hs.tokens_le
  · rintro key key' c ⟨r, hr, hc⟩ ⟨r', hr', hc'⟩
    rw [hs.lookup] at hr hr'
    exact h.held_once key key' c ⟨r, hr, hc⟩ ⟨r', hr', hc'⟩
  · intro key r hr t ht
    rw [hs.lookup] at hr
    obtain ⟨k, hk, hc⟩ := h.handles key r hr t ht
    refine ⟨k, ?_, hc⟩
    rw [hs.tasks_old t (List.getElem?_eq_some_iff.1 hk).1]
    exact hk

theorem Enters.lookup {w w' : World} {cfg : SessionConfig} (he : w.Enters cfg w') (key : String)
    (hk : key ≠ toAsciiLowercase cfg.name) : w'.lookup key = w.lookup key := by
  obtain ⟨w₁, e, hs, rfl, -, -⟩ := he
  rw [lookup_insert_ne hk, hs.lookup]

/-- **Entering a session keeps the invariant.** -/
theorem Enters.wf {w w' : World} {cfg : SessionConfig} (he : w.Enters cfg w') (h : w.Wf) :
    w'.Wf := by
  obtain ⟨w₁, e, hs, rfl, hcfg, hhan⟩ := he
  have h₁ := hs.wf h
  -- a held token is the new entry's, and fresh, or an old one
  have hheld : ∀ key c, (w₁.insert (toAsciiLowercase cfg.name) e).HoldsToken key c →
      (key = toAsciiLowercase cfg.name ∧ c ∈ e.tokens) ∨
        (key ≠ toAsciiLowercase cfg.name ∧ w.HoldsToken key c) := by
    rintro key c ⟨r, hr, hc⟩
    by_cases hk : key = toAsciiLowercase cfg.name
    · rw [hk, lookup_insert] at hr
      obtain rfl := Option.some_inj.1 hr
      exact Or.inl ⟨hk, hc⟩
    · rw [lookup_insert_ne hk, hs.lookup] at hr
      exact Or.inr ⟨hk, r, hr, hc⟩
  refine ⟨?_, h₁.tasks_lt, ?_, ?_, ?_⟩
  · intro key r hr
    by_cases hk : key = toAsciiLowercase cfg.name
    · rw [hk, lookup_insert] at hr
      obtain rfl := Option.some_inj.1 hr
      rw [hcfg, hk]
    · rw [lookup_insert_ne hk] at hr
      exact h₁.keyed key r hr
  · intro key c hc
    obtain ⟨-, hc⟩ | ⟨-, hc⟩ := hheld key c hc
    · exact (hs.fresh c hc).2
    · exact lt_of_lt_of_le (h.held_lt key c hc) hs.tokens_le
  · intro key key' c hc hc'
    obtain ⟨hk, hc⟩ | ⟨hk, hc⟩ := hheld key c hc <;>
      obtain ⟨hk', hc'⟩ | ⟨hk', hc'⟩ := hheld key' c hc'
    · rw [hk, hk']
    · exact absurd (h.held_lt key' c hc') (Nat.not_lt.2 (hs.fresh c hc).1)
    · exact absurd (h.held_lt key c hc) (Nat.not_lt.2 (hs.fresh c hc').1)
    · exact h.held_once key key' c hc hc'
  · intro key r hr t ht
    by_cases hk : key = toAsciiLowercase cfg.name
    · rw [hk, lookup_insert] at hr
      obtain rfl := Option.some_inj.1 hr
      exact hhan t ht
    · rw [lookup_insert_ne hk] at hr
      exact h₁.handles key r hr t ht

theorem Enters.tasks_le {w w' : World} {cfg : SessionConfig} (he : w.Enters cfg w') :
    w.rt.tasks.length ≤ w'.rt.tasks.length := by
  obtain ⟨w₁, e, hs, rfl, -, -⟩ := he
  exact hs.tasks_le

/-- Entering a session ends no task. -/
theorem Enters.live {w w' : World} {cfg : SessionConfig} (he : w.Enters cfg w') (t : TaskId) :
    w'.Live t ↔ w.Live t ∨ (w.rt.tasks.length ≤ t ∧ t < w'.rt.tasks.length) := by
  obtain ⟨w₁, e, hs, rfl, -, -⟩ := he
  exact hs.live

/-- **The entered session holds the fresh tasks**; whatever its key held before is held no more. -/
theorem Enters.holds {w w' : World} {cfg : SessionConfig} (he : w.Enters cfg w') (h : w.Wf)
    (key : String) (t : TaskId) : w'.Holds key t ↔
      (key = toAsciiLowercase cfg.name ∧ w.rt.tasks.length ≤ t ∧ t < w'.rt.tasks.length) ∨
      (key ≠ toAsciiLowercase cfg.name ∧ w.Holds key t) := by
  obtain ⟨w₁, e, hs, rfl, -, -⟩ := he
  by_cases hk : key = toAsciiLowercase cfg.name
  · subst hk
    simp only [ne_eq, not_true_eq_false, false_and, or_false, true_and]
    constructor
    · rintro ⟨k, hk, r, hr, hc⟩
      rw [lookup_insert] at hr
      obtain rfl := Option.some_inj.1 hr
      refine ⟨Nat.le_of_not_lt fun hlt => ?_, (List.getElem?_eq_some_iff.1 hk).1⟩
      -- an old task listens to an old token
      rw [rt_insert, hs.tasks_old t hlt] at hk
      exact absurd (h.tasks_lt t k hk) (Nat.not_lt.2 (hs.fresh _ hc).1)
    · rintro ⟨hge, hlt⟩
      have hk := List.getElem?_eq_getElem hlt
      exact ⟨_, hk, e, lookup_insert _ _ _, (hs.tasks_new t _ hge hk).2⟩
  · simp only [hk, false_and, ne_eq, not_false_iff, true_and, false_or]
    unfold Holds HoldsToken
    rw [lookup_insert_ne hk, hs.lookup, rt_insert]
    constructor
    · rintro ⟨k, hkt, r, hr, hc⟩
      refine ⟨k, ?_, r, hr, hc⟩
      rcases Nat.lt_or_ge t w.rt.tasks.length with hlt | hge
      · rwa [hs.tasks_old t hlt] at hkt
      · exact absurd (h.held_lt key _ ⟨r, hr, hc⟩)
          (Nat.not_lt.2 (hs.fresh _ (hs.tasks_new t k hge hkt).2).1)
    · rintro ⟨k, hkt, r, hr, hc⟩
      refine ⟨k, ?_, r, hr, hc⟩
      rw [hs.tasks_old t (List.getElem?_eq_some_iff.1 hkt).1]
      exact hkt

end World

/-! ### Reachable states -/

section Reachable

variable (C : Codec)

theorem World.new_wf (stored : Config) (fpr : String) (fs : Fs) :
    (World.new stored fpr fs).Wf := by
  have hl : ∀ key, (World.new stored fpr fs).lookup key = none := fun key =>
    AList.lookup_empty key
  refine ⟨?_, ?_, ?_, ?_, ?_⟩
  · intro key r hr
    rw [hl] at hr
    cases hr
  · intro t k hk
    cases hk
  · rintro key c ⟨r, hr, -⟩
    rw [hl] at hr
    cases hr
  · rintro key key' c ⟨r, hr, -⟩
    rw [hl] at hr
    cases hr
  · intro key r hr
    rw [hl] at hr
    cases hr

/-- **Well-formedness is kept by all that happens.** -/
theorem stable_wf : Stable World.Wf where
  fs _ fs h := h.withFs fs
  endTask _ t h := h.endTask t
  stopped _ key h := h.stopped key
  remove _ key h := h.remove key
  leftBehind _ _ h := (World.newSession_spawned _ _ _ _ _).wf h
  starts _ _ _ h hw := hw.enters.wf h

/-- **Every call keeps the invariant**, whatever its outcome. -/
theorem Call.wf {c : Call} {io : CallIo} {w w' : World} {r : Except AppError Unit} (hw : w.Wf)
    (h : (c.prog C io).run w = some (r, w')) : w'.Wf :=
  stable_wf.call h hw

/-- **Every reachable state is well formed.** -/
theorem ReachableWorld.wf {w : World} (h : ReachableWorld C w) : w.Wf :=
  ReachableWorld.rule stable_wf World.new_wf h

theorem Boots.wf {w : World} (h : Boots C w) : w.Wf := (ReachableWorld.boot h).wf

/-- **`stop_session` returns**: what it waits for it has cancelled. -/
theorem World.Wf.stop_returns {w : World} (h : w.Wf) (io : SaveIo) (name : String) :
    (stopSession C io name).run w =
      some (saveResult () ((w.stopped (toAsciiLowercase name)).persist C io).1,
        ((w.stopped (toAsciiLowercase name)).persist C io).2) := by
  refine run_stopSession C io fun r hr t ht => ?_
  obtain ⟨k, hk, hc⟩ := h.handles _ r hr t ht
  have hcan : (w.cancelAll r.tokens).isCancelled k.cancel = true :=
    (World.isCancelled_cancelAll w r.tokens k.cancel).2 (Or.inl ⟨hc, h.tasks_lt t k hk⟩)
  unfold World.joinable
  rw [World.tasks_cancelAll, hk]
  simp [hcan]

/-- What follows a stop runs in the state that the stop has saved. -/
theorem World.Wf.run_stop_bind {α : Type} {w : World} (h : w.Wf) (io : SaveIo) (name : String)
    (f : Except AppError Unit → Prog World (Except AppError α)) :
    (stopSession C io name >>= f).run w =
      (f (saveResult () ((w.stopped (toAsciiLowercase name)).persist C io).1)).run
        ((w.stopped (toAsciiLowercase name)).persist C io).2 := by
  rw [Prog.run_bind, h.stop_returns C io name, Option.bind_some]

end Reachable

/-! ### Calls return -/

section Returns

variable {C : Codec}

/-- `create_session` returns. -/
theorem createSession_returns (bind : Except String Unit) (io : SaveIo) (cfg : SessionConfig)
    (w : World) : ∃ x, (createSession C bind io cfg).run w = some x := by
  by_cases ha : Admitted bind cfg
  · exact ⟨_, run_createSession_admitted C ha io w⟩
  · have hp : cfg.upstream.isHttpProxy = false :=
      Bool.eq_false_iff.2 fun hp => ha (Or.inl hp)
    cases hn : normalizeName cfg.sshUser with
    | none => exact ⟨_, run_createSession_refused C hp hn bind io w⟩
    | some key =>
        cases bind with
        | ok u => exact absurd (Or.inr ⟨by rw [hn]; rfl, rfl⟩) ha
        | error e => exact ⟨_, run_createSession_unbound C hp hn e io w⟩

/-- **Every call returns** in a well-formed state. -/
theorem Call.returns {w : World} (hw : w.Wf) (io : CallIo) (c : Call) :
    ∃ a w', (c.prog C io).run w = some (a, w') := by
  have hstop : ∀ {α : Type} (io : SaveIo) (name : String)
      {f : Except AppError Unit → Prog World (Except AppError α)},
      (∀ r w', ∃ x, (f r).run w' = some x) →
      ∃ x, (stopSession C io name >>= f).run w = some x := by
    intro α io name f hf
    rw [hw.run_stop_bind]
    exact hf _ _
  have hcreate : ∀ {α : Type} (cfg : SessionConfig) (w' : World)
      {g : Except AppError (String × StatusRx) → Prog World (Except AppError α)},
      (∀ a, ∃ b, g a = .ret b) →
      ∃ x, (createSession C io.bind io.save cfg >>= g).run w' = some x := by
    intro α cfg w' g hg
    obtain ⟨x, hx⟩ := createSession_returns (C := C) io.bind io.save cfg w'
    obtain ⟨b, hb⟩ := hg x.1
    rw [Prog.run_bind, hx, Option.bind_some, hb]
    exact ⟨_, rfl⟩
  have hdiscard : ∀ {α : Type} {p : Prog World (Except AppError α)},
      (∃ x, p.run w = some x) → ∃ a w', (discard p).run w = some (a, w') := by
    rintro α p ⟨x, hx⟩
    rw [discard_run, hx]
    exact ⟨_, _, rfl⟩
  cases c with
  | create cfg => exact hdiscard (createSession_returns io.bind io.save cfg w)
  | stop name => exact ⟨_, _, hw.stop_returns C io.save name⟩
  | delete name =>
      obtain ⟨x, hx⟩ : ∃ x, (deleteSession C io.stopSave io.save name).run w = some x := by
        refine hstop io.stopSave name fun r w' => ?_
        cases r with
        | error e => exact ⟨_, rfl⟩
        | ok u =>
            rw [Prog.run_bind, Prog.run_atomic, Option.bind_some, Prog.run_bind, run_persistNow,
              Option.bind_some]
            split <;> exact ⟨_, rfl⟩
      exact ⟨x.1, x.2, hx⟩
  | restart name =>
      refine hdiscard ?_
      rw [restartSession, Prog.run_bind, Prog.run_atomic, Option.bind_some]
      cases w.lookup (toAsciiLowercase name) with
      | none => exact ⟨_, rfl⟩
      | some e =>
          refine hstop io.stopSave name fun r w' => ?_
          cases r with
          | error e => exact ⟨_, rfl⟩
          | ok u => exact hcreate _ _ fun a => by cases a <;> exact ⟨_, rfl⟩
  | update oldName cfg =>
      refine hdiscard ?_
      rw [updateSession, Prog.run_bind, Prog.run_atomic, Option.bind_some]
      refine hstop io.stopSave oldName fun r w' => ?_
      cases r with
      | error e => exact ⟨_, rfl⟩
      | ok u => exact hcreate _ _ fun a => by cases a <;> exact ⟨_, rfl⟩

end Returns

end TermHub
