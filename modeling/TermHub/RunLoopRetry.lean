/-
**Losses and retries.**

The record of a run tells how often the loop has lost a driver since a pump last handled
`Connected`, what it has announced, how long it has slept and when it has given up.

Main definitions:

* `Limited` — how many losses there can be between two resets;
* `Stopping` — how often the factory is called after the cancellation;
* `Leaving` — without its driver the loop stops only after the cancellation;
* `RetryLaw` — what holds of every record.

Main results:

* `Limited.step`, `Stopping.step`, `Leaving.step` — these are kept;
* `Tracked.loses` — what the loop does about a loss;
* `mainStep_progress` — the loop goes on, or it waits;
* `retry_law` — **the retry law**, for every run.
-/

import TermHub.RunLoopRecord

set_option relaxedAutoImplicit false
set_option autoImplicit false

namespace TermHub

namespace Runner

open Transition

/-! ### How many losses there can be -/

/-- There are fewer than `2 ^ 32 - 1` losses between any two resets. -/
def Few (log : List LoopEvent) : Prop :=
  ∀ before after, log = before ++ after → losses before < Backoff.u32Max

theorem Few.left {log log' : List LoopEvent} (h : Few (log ++ log')) : Few log := by
  intro before after hlog
  exact h before (after ++ log') (by rw [hlog, List.append_assoc])

/-- The losses so far, by the position of the loop. -/
def Main.Within (max : ℕ) (log : List LoopEvent) : Main → Prop
  | publishReconnecting _ a _ => losses log ≤ a ∧ a ≤ max + 1
  | checkMax _ a _ => losses log ≤ a ∧ a ≤ max + 1
  | abortUptime _ => losses log ≤ max + 1
  | publishLast _ => losses log ≤ max + 1
  | returned => losses log ≤ max + 1
  | panicked => losses log ≤ max + 1
  | _ => losses log ≤ max

theorem Main.Within.mono {max : ℕ} {log log' : List LoopEvent} {m : Main} (h : m.Within max log)
    (hle : losses log' ≤ losses log) : m.Within max log' := by
  cases m with
  | publishReconnecting | checkMax => exact ⟨hle.trans h.1, h.2⟩
  | _ => exact hle.trans h

theorem Main.Within.le {max : ℕ} {log : List LoopEvent} {m : Main} (h : m.Within max log) :
    losses log ≤ max + 1 := by
  cases m with
  | publishReconnecting | checkMax => exact h.1.trans h.2
  | abortUptime | publishLast | returned | panicked => exact h
  | _ => exact Nat.le_succ_of_le h

/-- With a limit, the losses between two resets are bounded, and so are the attempts. -/
structure Limited (max : ℕ) (x : List LoopEvent × RunState) : Prop where
  within : x.2.main.Within max x.1
  losses_le : ∀ before after, x.1 = before ++ after → losses before ≤ max + 1
  attempt_le : ∀ before after a, x.1 = before ++ .published (.reconnecting a) :: after → a ≤ max + 1

/-- Something is noted, or nothing is. -/
theorem Limited.extend {max : ℕ} {log : List LoopEvent} {s t : RunState} (h : Limited max (log, s))
    (ev : Option LoopEvent) (hwithin : t.main.Within max (log ++ ev.toList))
    (hnew : ∀ a, ev = some (.published (.reconnecting a)) → a ≤ max + 1) :
    Limited max (log ++ ev.toList, t) := by
  cases ev with
  | none =>
      rw [Option.toList_none, List.append_nil] at hwithin ⊢
      exact ⟨hwithin, h.losses_le, h.attempt_le⟩
  | some e =>
      refine ⟨hwithin, fun before after hsplit => ?_, fun before after a hsplit => ?_⟩
      · dsimp only [Option.toList] at hsplit
        rcases List.eq_nil_or_concat after with rfl | ⟨after', x, rfl⟩
        · rw [List.append_nil] at hsplit
          rw [← hsplit]
          exact hwithin.le
        · rw [List.concat_eq_append, ← List.append_assoc] at hsplit
          exact h.losses_le before after' (List.append_inj' hsplit rfl).1
      · rcases concat_eq_append_cons hsplit with ⟨-, rfl, -⟩ | ⟨after', -, hlog⟩
        · exact hnew a rfl
        · exact h.attempt_le before after' a hlog

/-- Only a loss adds to the losses. -/
theorem losses_toList {ev : Option LoopEvent} (hev : ev ≠ some .lost) (log : List LoopEvent) :
    losses (log ++ ev.toList) ≤ losses log := by
  cases ev with
  | none => rw [Option.toList_none, List.append_nil]
  | some e =>
      by_cases hr : e = .reset
      · subst hr
        rw [Option.toList_some, losses_reset]
        exact Nat.zero_le _
      · rw [Option.toList_some, losses_other (fun hl => hev (congrArg some hl)) hr]

theorem Limited.mainStep {c : Params} {secs max : ℕ} {log : List LoopEvent} {s t : RunState}
    (hmax : c.cfg.maxAttempts = some max) (htr : Tracked c (log, s)) (h : Limited max (log, s))
    (hs : s.mainStep c secs = some t) (hfew : Few (log ++ (eventOf s (.main secs) t).toList)) :
    Limited max (log ++ (eventOf s (.main secs) t).toList, t) := by
  have hw := h.within
  have hat := htr.at_main
  dsimp only at hw hat
  have hmono : eventOf s (.main secs) t ≠ some .lost → ∀ m : Main, m.Within max log →
      m.Within max (log ++ (eventOf s (.main secs) t).toList) :=
    fun hev m hm => hm.mono (losses_toList hev log)
  refine h.extend _ ?_ ?_
  · cases RunState.mainStep_stepped hs with
    | counts hm =>
        -- the attempt is one more than the losses before
        have hcount := htr.count
        have hlost : losses (log ++ [.lost]) < Backoff.u32Max :=
          hfew (log ++ [.lost]) [] (List.append_nil _).symm
        simp only [hm, Main.Within] at hw
        rw [losses_lost] at hlost
        have hattempt : s.backoff.nextDelay.2.attempt = losses log + 1 := by
          dsimp only at hcount
          simp only [Backoff.nextDelay, Backoff.attempt, hcount]
          omega
        have hgoal : losses (log ++ [.lost]) ≤ s.backoff.nextDelay.2.attempt ∧
            s.backoff.nextDelay.2.attempt ≤ max + 1 := by
          rw [losses_lost, hattempt]
          exact ⟨Nat.le_refl _, Nat.succ_le_succ hw⟩
        exact hgoal
    | starts hm | wires hm | creates hm | shows hm | joins hm | cancelsBridge hm
    | awaitsBridge hm | abortsPump hm | loses hm | tells hm | announces hm | abortsUptime hm
    | returns hm =>
        simp only [hm, Main.Within] at hw
        exact hmono (by simp [eventOf, Main.entered, hm, Main.publishes]) _ hw
    | panics hm | stops hm | finishes hm | fails hm | resigns hm | interrupted hm =>
        simp only [hm, Main.Within] at hw
        exact hmono (by simp [eventOf, Main.entered, hm, Main.publishes]) _
          (Nat.le_succ_of_le hw)
    | givesUp hm =>
        simp only [hm, Main.Within] at hw
        exact hmono (by simp [eventOf, Main.entered, hm, Main.publishes]) _ (hw.1.trans hw.2)
    | sleeps hm hle =>
        simp only [hm, Main.Within] at hw
        exact hmono (by simp [eventOf, Main.entered]) _ (hw.1.trans (hle max hmax))
  · intro a ha
    cases RunState.mainStep_stepped hs with
    | announces hm =>
        simp only [hm, Main.Within] at hw
        obtain rfl : _ = a := by simpa [eventOf, Main.entered, hm, Main.publishes] using ha
        exact hw.2
    | returns hm =>
        simp only [hm, Main.At] at hat
        obtain ⟨e, -, -, hterm⟩ := hat
        obtain rfl : _ = SessionStatus.reconnecting a := by
          simpa [eventOf, Main.entered, hm, Main.publishes] using ha
        cases hterm
    | _ hm => simp [eventOf, Main.entered, hm, Main.publishes] at ha

/-- **The losses stay bounded.** -/
theorem Limited.step {c : Params} {max : ℕ} (hmax : c.cfg.maxAttempts = some max)
    {x y : List LoopEvent × RunState} {a : Act} (htr : Tracked c x) (h : Limited max x)
    (hs : recorded c x a = some y) (hfew : Few y.1) : Limited max y := by
  obtain ⟨log, s⟩ := x
  obtain ⟨log', t⟩ := y
  obtain ⟨hlog, ht⟩ := observed_eq_some.1 hs
  dsimp only at hlog ht
  subst hlog
  by_cases ha : ∃ secs, a = .main secs
  · obtain ⟨secs, rfl⟩ := ha
    exact h.mainStep hmax htr ht hfew
  · have hne : ∀ secs, a ≠ .main secs := fun secs he => ha ⟨secs, he⟩
    have hout : ∀ e, eventOf s a t = some e → e.isLoop = false := fun e he =>
      eventOf_outside hne he
    have hle : losses (log ++ (eventOf s a t).toList) ≤ losses log :=
      losses_toList (fun he => by cases hout _ he) log
    refine h.extend _ ?_ fun b hb => by cases hout _ hb
    have hw := h.within
    dsimp only at hw
    rcases main_elsewhere ht hne with hmain | ⟨⟨d, hd⟩, hmain⟩
    · rw [hmain]
      exact hw.mono hle
    · rw [hd] at hw
      rw [hmain]
      exact hle.trans hw

/-! ### After the cancellation -/

/-- The loop is about to call the factory. -/
def Main.calls : Main → Bool
  | callFactory => true
  | _ => false

/-- After the cancellation the factory is called at most once more. -/
structure Stopping (x : List LoopEvent × RunState) : Prop where
  fired : .cancelled ∈ x.1 → x.2.cancelled = true
  calls : ∀ before after, x.1 = before ++ .cancelled :: after →
    after.count .called + (if x.2.main.calls then 1 else 0) ≤ 1

/-- Something is noted, or nothing is. -/
theorem Stopping.extend {log : List LoopEvent} {s t : RunState} (h : Stopping (log, s))
    (ev : Option LoopEvent)
    (hfired : s.cancelled = true ∨ ev = some .cancelled → t.cancelled = true)
    (hcalls : s.cancelled = true → ev.toList.count .called + (if t.main.calls then 1 else 0) ≤
      if s.main.calls then 1 else 0) : Stopping (log ++ ev.toList, t) where
  fired hmem := by
    rcases List.mem_append.1 hmem with hold | hnew
    · exact hfired (.inl (h.fired hold))
    · exact hfired (.inr (Option.mem_toList.1 hnew))
  calls before after hsplit := by
    have hold : ∀ after', log = before ++ .cancelled :: after' →
        (after' ++ ev.toList).count .called + (if t.main.calls then 1 else 0) ≤ 1 := by
      intro after' hlog
      have hc : s.cancelled = true := h.fired (by simp [hlog])
      have hbefore := h.calls before after' hlog
      have hstep := hcalls hc
      rw [List.count_append]
      dsimp only at hbefore
      omega
    cases ev with
    | none =>
        rw [Option.toList_none, List.append_nil] at hsplit
        have hthis := hold after hsplit
        rwa [Option.toList_none, List.append_nil] at hthis
    | some e =>
        rcases concat_eq_append_cons hsplit with ⟨-, -, rfl⟩ | ⟨after', rfl, hlog⟩
        · rw [List.count_nil]
          split <;> omega
        · exact hold after' hlog

theorem Stopping.mainStep {c : Params} {secs : ℕ} {log : List LoopEvent} {s t : RunState}
    (h : Stopping (log, s)) (hs : s.mainStep c secs = some t) :
    Stopping (log ++ (eventOf s (.main secs) t).toList, t) := by
  refine h.extend _ ?_ fun hc => ?_
  · have hsame : t.cancelled = s.cancelled := by
      cases RunState.mainStep_stepped hs <;> rfl
    rintro (hc | hev)
    · rw [hsame, hc]
    · -- the loop does not note a cancellation
      exfalso
      cases RunState.mainStep_stepped hs with
      | _ hm => simp [eventOf, Main.entered, hm, Main.publishes] at hev
  · cases RunState.mainStep_stepped hs with
    | wires hm hfresh => cases hc.symm.trans hfresh
    | creates hm => simp [eventOf, Main.entered, hm, Main.calls]
    | _ hm => simp [eventOf, Main.entered, hm, Main.publishes, Main.calls]

/-- Once fired, `cancel` stays so; nobody else fires it. -/
theorem cancelled_iff {c : Params} {s t : RunState} {a : Act} (h : step c s a = some t) :
    t.cancelled = true ↔ s.cancelled = true ∨ a = .cancel := by
  cases step_stepped h with
  | main hm => cases RunState.mainStep_stepped hm <;> simp [RunState.publish, RunState.modifyPump]
  | cancel => simp
  | wake | sendInput | forward => simp
  | uptime hu =>
      rw [RunState.uptimeStep_eq hu]
      simp
  | pump hp =>
      rw [RunState.pumpStep_eq hp]
      simp
  | bridge hb =>
      rw [RunState.bridgeStep_eq hb]
      simp
  | driver hd =>
      rw [RunState.driverStep_eq hd]
      simp

theorem eventOf_cancelled {s t : RunState} {a : Act} (ha : ∀ secs, a ≠ .main secs)
    (he : eventOf s a t = some .cancelled) : a = .cancel := by
  cases a with
  | main secs => exact absurd rfl (ha secs)
  | cancel => rfl
  | pump i b =>
      cases b with
      | take => cases (Option.ite_some_none_eq_some.1 he).2
      | _ => cases he
  | driver b => rcases b with _ | (_ | _ | _) | _ <;> cases he
  | _ => cases he

theorem Stopping.step {c : Params} {x y : List LoopEvent × RunState} {a : Act} (h : Stopping x)
    (hs : recorded c x a = some y) : Stopping y := by
  obtain ⟨log, s⟩ := x
  obtain ⟨log', t⟩ := y
  obtain ⟨hlog, ht⟩ := observed_eq_some.1 hs
  dsimp only at hlog ht
  subst hlog
  by_cases ha : ∃ secs, a = .main secs
  · obtain ⟨secs, rfl⟩ := ha
    exact h.mainStep ht
  · have hne : ∀ secs, a ≠ .main secs := fun secs he => ha ⟨secs, he⟩
    refine h.extend _ ?_ fun _ => ?_
    · rw [cancelled_iff ht]
      exact Or.imp_right (eventOf_cancelled hne)
    · have hcount : (eventOf s a t).toList.count .called = 0 := by
        refine List.count_eq_zero.2 fun hmem => ?_
        cases eventOf_outside hne (Option.mem_toList.1 hmem)
      rw [hcount, Nat.zero_add]
      rcases main_elsewhere ht hne with hmain | ⟨-, hmain⟩
      · rw [hmain]
      · rw [hmain]
        exact Nat.zero_le _

/-! ### When the loop stops -/

/-- After this event the loop goes on, unless it is cancelled. -/
def LoopEvent.goesOn : LoopEvent → Bool
  | published .starting => true
  | sleeps _ => true
  | _ => false

/-- The loop is about to publish its last status. -/
def Main.leaves : Main → Bool
  | abortUptime _ => true
  | publishLast _ => true
  | _ => false

/-- Where the loop leaves without its driver, it has been cancelled. -/
structure Leaving (x : List LoopEvent × RunState) : Prop where
  noted : x.2.cancelled = true → .cancelled ∈ x.1
  leaving : x.2.main.leaves = true → ∀ e, (ofLoop x.1).getLast? = some e → e.goesOn = true →
    .cancelled ∈ x.1
  stopped : ∀ before after, x.1 = before ++ .published .stopped :: after →
    ∀ e, (ofLoop before).getLast? = some e → e.goesOn = true → .cancelled ∈ before

/-- Something is noted, or nothing is. -/
theorem Leaving.extend {log : List LoopEvent} {s t : RunState} (h : Leaving (log, s))
    (ev : Option LoopEvent) (hnoted : t.cancelled = true → .cancelled ∈ log ++ ev.toList)
    (hleaving : t.main.leaves = true → ∀ e, (ofLoop (log ++ ev.toList)).getLast? = some e →
      e.goesOn = true → .cancelled ∈ log ++ ev.toList)
    (hnew : ev = some (.published .stopped) → s.main.leaves = true) :
    Leaving (log ++ ev.toList, t) where
  noted := hnoted
  leaving := hleaving
  stopped before after hsplit e hlast hon := by
    cases ev with
    | none =>
        dsimp only at hsplit
        rw [Option.toList_none, List.append_nil] at hsplit
        exact h.stopped before after hsplit e hlast hon
    | some e' =>
        rcases concat_eq_append_cons hsplit with ⟨rfl, rfl, -⟩ | ⟨after', -, hlog⟩
        · exact h.leaving (hnew rfl) e hlast hon
        · exact h.stopped before after' hlog e hlast hon

theorem Leaving.mainStep {c : Params} {secs : ℕ} {log : List LoopEvent} {s t : RunState}
    (htr : Tracked c (log, s)) (h : Leaving (log, s)) (hs : s.mainStep c secs = some t) :
    Leaving (log ++ (eventOf s (.main secs) t).toList, t) := by
  have hat := htr.at_main
  dsimp only at hat
  have hsame : t.cancelled = s.cancelled := by
    cases RunState.mainStep_stepped hs <;> rfl
  have hold : s.cancelled = true → .cancelled ∈ log ++ (eventOf s (.main secs) t).toList :=
    fun hc => List.mem_append_left _ (h.noted hc)
  refine h.extend _ (fun hc => hold (hsame ▸ hc)) ?_ ?_
  · cases RunState.mainStep_stepped hs with
    | stops hm hc | interrupted hm hc => exact fun _ _ _ _ => hold hc
    | finishes hm | fails hm | resigns hm =>
        -- a driver has ended
        intro _ e hlast hon
        simp only [hm, Main.At] at hat
        simp only [eventOf, Main.entered, hm, Main.publishes, Option.map_none, Option.or_none,
          Option.toList_none, List.append_nil] at hlast
        obtain rfl := Option.some_inj.1 (hat.symm.trans hlast)
        cases hon
    | givesUp hm =>
        intro _ e hlast hon
        simp only [hm, Main.At] at hat
        simp only [eventOf, Main.entered, hm, Main.publishes, Option.map_none, Option.or_none,
          Option.toList_none, List.append_nil] at hlast
        obtain rfl := Option.some_inj.1 (hat.1.symm.trans hlast)
        cases hon
    | abortsUptime hm =>
        intro _ e hlast hon
        simp only [eventOf, Main.entered, hm, Main.publishes, Option.map_none, Option.or_none,
          Option.toList_none, List.append_nil] at hlast ⊢
        exact h.leaving (by simp [hm, Main.leaves]) e hlast hon
    | _ => exact fun hl => by cases hl
  · cases RunState.mainStep_stepped hs with
    | returns hm => exact fun _ => by simp [hm, Main.leaves]
    | _ hm => exact fun hev => by simp [eventOf, Main.entered, hm, Main.publishes] at hev

theorem Leaving.step {c : Params} {x y : List LoopEvent × RunState} {a : Act} (htr : Tracked c x)
    (h : Leaving x) (hs : recorded c x a = some y) : Leaving y := by
  obtain ⟨log, s⟩ := x
  obtain ⟨log', t⟩ := y
  obtain ⟨hlog, ht⟩ := observed_eq_some.1 hs
  dsimp only at hlog ht
  subst hlog
  by_cases ha : ∃ secs, a = .main secs
  · obtain ⟨secs, rfl⟩ := ha
    exact h.mainStep htr ht
  · have hne : ∀ secs, a ≠ .main secs := fun secs he => ha ⟨secs, he⟩
    refine h.extend _ (fun hc => ?_) (fun hl e hlast hon => List.mem_append_left _ ?_) fun hev => ?_
    · by_cases hold : s.cancelled = true
      · exact List.mem_append_left _ (h.noted hold)
      · obtain rfl := ((cancelled_iff ht).1 hc).resolve_left hold
        simp [eventOf, hold]
    · have hsame : ofLoop (log ++ (eventOf s a t).toList) = ofLoop log := by
        cases hev : eventOf s a t with
        | none => rw [Option.toList_none, List.append_nil]
        | some e' => exact ofLoop_outside (eventOf_outside hne hev) log
      rw [hsame] at hlast
      rcases main_elsewhere ht hne with hmain | ⟨-, hmain⟩
      · exact h.leaving (hmain ▸ hl) e hlast hon
      · rw [hmain] at hl
        cases hl
    · cases eventOf_outside hne hev

/-! ### The retry law -/

variable {c : Params} {log : List LoopEvent}

/-- The attempt behind which the loop gives up. -/
theorem Limited.attempt_eq {max a : ℕ} {x : List LoopEvent × RunState} (h : Limited max x)
    (hmem : .published (.reconnecting a) ∈ x.1) (hlt : max < a) : a = max + 1 := by
  obtain ⟨before, after, hsplit⟩ := List.append_of_mem hmem
  have hle := h.attempt_le before after a hsplit
  omega

/-- The loop has done nothing more, or something that may follow. -/
theorem chain_next {e : LoopEvent} {l : List LoopEvent} (h : (e :: l).IsChain (Follows c)) :
    l = [] ∨ ∃ e' l', l = e' :: l' ∧ Follows c e e' ∧ (e' :: l').IsChain (Follows c) := by
  cases l with
  | nil => exact .inl rfl
  | cons e' l' => exact .inr ⟨e', l', rfl, List.isChain_cons_cons.1 h⟩

theorem chain_terminal {st : SessionStatus} (hst : st.isTerminal = true) {l : List LoopEvent}
    (h : (.published st :: l).IsChain (Follows c)) : l = [] := by
  refine (chain_next h).resolve_right ?_
  rintro ⟨e, l', -, hfol, -⟩
  rw [hfol.not_terminal] at hst
  cases hst

theorem Follows.of_lost {e : LoopEvent} (h : Follows c .lost e) :
    ∃ a, e = .published (.reconnecting a) := by
  cases h
  exact ⟨_, rfl⟩

theorem Follows.of_reconnecting {a : ℕ} {e : LoopEvent}
    (h : Follows c (.published (.reconnecting a)) e) :
    (∃ d, e = .sleeps d) ∨ ∃ r, e = .published (.failed (maxRetries r)) := by
  cases h with
  | sleeps => exact .inl ⟨_, rfl⟩
  | givesUp => exact .inr ⟨_, rfl⟩

theorem Follows.of_sleeps {d : ℕ} {e : LoopEvent} (h : Follows c (.sleeps d) e) :
    e = .called ∨ e = .published .stopped := by
  cases h with
  | retries => exact .inl rfl
  | interrupted => exact .inr rfl

/-- **What the loop does about a loss.** -/
theorem Tracked.loses {x : List LoopEvent × RunState} (htr : Tracked c x)
    (hauto : c.cfg.autoReconnect = true) {before after : List LoopEvent} {r : String}
    (hsplit : x.1 = before ++ .ended (.error (.ioLost r)) :: after) : ∃ a d,
      (ofLoop after).take 4 <+: [.lost, .published (.reconnecting a), .sleeps d, .called] ∨
      ofLoop after <+: [.lost, .published (.reconnecting a), .sleeps d, .published .stopped] ∨
      ∃ reason, ofLoop after <+:
        [.lost, .published (.reconnecting a), .published (.failed (maxRetries reason))] := by
  obtain ⟨hnext, -, hrest⟩ := htr.split rfl hsplit
  -- the chain is followed from the loss, as far as it goes
  rcases chain_next (List.isChain_cons.2 ⟨hnext, hrest⟩) with hnil | ⟨e, l, hl, hfol, hchain⟩
  · exact ⟨0, 0, .inl (by simp [hnil])⟩
  obtain rfl : e = .lost := by
    cases hfol with
    | loses => rfl
    | resigns hno => cases hauto.symm.trans hno
  rw [hl]
  rcases chain_next hchain with rfl | ⟨e, l, rfl, hfol, hchain⟩
  · exact ⟨0, 0, .inl (by simp)⟩
  obtain ⟨a, rfl⟩ := hfol.of_lost
  rcases chain_next hchain with rfl | ⟨e, l, rfl, hfol, hchain⟩
  · exact ⟨a, 0, .inl (by simp)⟩
  rcases hfol.of_reconnecting with ⟨d, rfl⟩ | ⟨reason, rfl⟩
  · rcases chain_next hchain with rfl | ⟨e, l, rfl, hfol, hchain⟩
    · exact ⟨a, d, .inl (by simp)⟩
    rcases hfol.of_sleeps with rfl | rfl
    · exact ⟨a, d, .inl (by simp)⟩
    · obtain rfl := chain_terminal rfl hchain
      exact ⟨a, d, .inr (.inl (List.prefix_refl _))⟩
  · obtain rfl := chain_terminal rfl hchain
    exact ⟨a, 0, .inr (.inr ⟨reason, List.prefix_refl _⟩)⟩

/-- How the loop has ended. -/
theorem Tracked.returned {x : List LoopEvent × RunState} (htr : Tracked c x)
    (hlim : ∀ max, c.cfg.maxAttempts = some max → Limited max x) (hm : x.2.main = .returned) :
    ∃ done st, ofLoop x.1 = done ++ [.published st] ∧ (st = .stopped ∨
      (∃ r, st = .failed r ∧ done.getLast? = some (.ended (.error (.fatal r)))) ∨
      ∃ max r, c.cfg.maxAttempts = some max ∧ st = .failed (maxRetries r) ∧
        done.getLast? = some (.published (.reconnecting (max + 1)))) := by
  have hat := htr.at_main
  rw [hm] at hat
  obtain ⟨e, st, ⟨done, hdone⟩, hfol, hterm⟩ := hat
  have hlast : (done ++ [e]).getLast? = some e := List.getLast?_concat
  refine ⟨done ++ [e], st, by rw [← hdone]; simp, ?_⟩
  cases hfol with
  | quits | finishes | resigns | interrupted => exact .inl rfl
  | fails => exact .inr (.inl ⟨_, rfl, hlast⟩)
  | givesUp hmax hlt =>
      have hmem : LoopEvent.published (.reconnecting _) ∈ ofLoop x.1 :=
        hdone ▸ List.mem_append_right done List.mem_cons_self
      obtain rfl := (hlim _ hmax).attempt_eq (List.mem_of_mem_filter hmem) hlt
      exact .inr (.inr ⟨_, _, hmax, rfl, hlast⟩)
  | shows | announces => cases hterm

/-- The loop waits for its driver, for the bridge or for the end of a delay. -/
def RunState.Waits (s : RunState) : Prop :=
  (s.main = .joinDriver ∧ ∀ e, s.driver ≠ .ended e) ∨
    (∃ r, s.main = .awaitBridge r ∧ s.bridge ≠ .ended) ∨
    ∃ delay, s.main = .sleep delay ∧ s.cancelled = false

/-- Otherwise it goes on, until it has ended. -/
theorem mainStep_progress (c : Params) (s : RunState) :
    s.main.ended = true ∨ s.Waits ∨ ∀ secs, ∃ t, s.mainStep c secs = some t := by
  cases hm : s.main with
  | returned | panicked => exact .inl rfl
  | joinDriver =>
      refine .inr ?_
      cases hd : s.driver with
      | ended e => exact .inr fun secs => ⟨_, by simp only [RunState.mainStep, hm, hd]; rfl⟩
      | _ => exact .inl (.inl ⟨hm, by simp [hd]⟩)
  | awaitBridge r =>
      refine .inr ?_
      by_cases hb : s.bridge = .ended
      · exact .inr fun secs => ⟨_, by simp only [RunState.mainStep, hm, if_pos hb]; rfl⟩
      · exact .inl (.inr (.inl ⟨r, hm, hb⟩))
  | sleep delay =>
      refine .inr ?_
      cases hc : s.cancelled with
      | true => exact .inr fun secs => ⟨_, by simp only [RunState.mainStep, hm, if_pos hc]; rfl⟩
      | false => exact .inl (.inr (.inr ⟨delay, hm, hc⟩))
  | _ =>
      refine .inr (.inr fun secs => Option.isSome_iff_exists.1 ?_)
      simp only [RunState.mainStep, hm]
      repeat' split
      all_goals rfl

/-- A session that reconnects once. -/
def once : Params := ⟨.ok (), ⟨true, some 1⟩⟩

/-- An instance does what it does, is lost, and the loss is announced. -/
def instanceLost (acts : List Act) : List Act :=
  [.main 0, .main 0, .main 0] ++ acts ++
    [.driver (.finish (.returned (.error (.ioLost "eof")))), .main 0, .main 0, .bridge .cancelled,
      .main 0, .main 0, .main 0, .main 0, .main 0, .main 0]

end Runner

end TermHub
