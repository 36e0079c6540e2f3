/-
**The record of the run loop.**

The main loop counts a loss when it asks the back-off for the next delay, and an event pump resets
the counter when it handles `Connected`.  An observer writes down what the loop does, one event
after the other, with the resets and the cancellation between them.

Main definitions:

* `LoopEvent`, `eventOf` — what the observer writes down;
* `losses` — the losses since the last reset;
* `Follows` — what the loop does next;
* `Tracked` — the record is that of the loop.

Main results:

* `delay_of_attempt` — the delay before the next instance;
* `Tracked.step` — **the position of the loop is known from the record**;
* `Tracked.split`, `Tracked.last` — what stands around an event of the record.
-/

import Mathlib.Data.List.Chain
import Mathlib.Tactic.IntervalCases
import TermHub.RunLoop

set_option relaxedAutoImplicit false
set_option autoImplicit false

namespace TermHub

namespace Runner

open Transition

/-! ### The record of a run -/

/-- What the observer writes down: what the main loop does, and between that what a driver, a pump
and a caller do that matters for it. -/
inductive LoopEvent
  /-- The loop has called the factory. -/
  | called
  /-- The driver has ended, and the loop knows how. -/
  | ended (r : Except DriverError Unit)
  /-- The loop has counted a loss. -/
  | lost
  /-- The loop has published a status. -/
  | published (st : SessionStatus)
  /-- The loop has gone to sleep. -/
  | sleeps (delay : ℕ)
  /-- The present driver instance has sent `Connected`. -/
  | connected
  /-- A pump has handled `Connected`. -/
  | reset
  /-- `cancel` has fired. -/
  | cancelled
  deriving DecidableEq

/-- The event is one of the main loop. -/
def LoopEvent.isLoop : LoopEvent → Bool
  | connected => false
  | reset => false
  | cancelled => false
  | _ => true

/-- What the main loop does when it gets to a position, apart from publishing. -/
def Main.entered : Main → Option LoopEvent
  | publishRunning => some .called
  | cancelBridge r => some (.ended r)
  | publishReconnecting _ _ _ => some .lost
  | sleep delay => some (.sleeps delay)
  | _ => none

/-- The pump at position `i` is about to take `Connected`. -/
def RunState.connectedNext (s : RunState) (i : ℕ) : Bool :=
  match s.pumps[i]?.bind fun p => p.events.head? with
  | some .connected => true
  | _ => false

/-- What the observer writes down about a step from `s` to `t`. -/
def eventOf (s : RunState) (a : Act) (t : RunState) : Option LoopEvent :=
  match a with
  | .main secs => t.main.entered.or ((s.main.publishes secs).map .published)
  | .pump i .take => if s.connectedNext i then some .reset else none
  | .driver (.send .connected) => some .connected
  | .cancel => if s.cancelled then none else some .cancelled
  | _ => none

/-- The run loop with its record. -/
def recorded (c : Params) : List LoopEvent × RunState → Act → Option (List LoopEvent × RunState) :=
  observed (step c) fun log s a t => log ++ (eventOf s a t).toList

/-- The losses since the last reset. -/
def losses (log : List LoopEvent) : ℕ :=
  log.foldl (fun n e => match e with
    | .lost => n + 1
    | .reset => 0
    | _ => n) 0

/-- What the main loop has done. -/
def ofLoop (log : List LoopEvent) : List LoopEvent := log.filter LoopEvent.isLoop

@[simp] theorem losses_nil : losses [] = 0 := rfl

@[simp] theorem losses_lost (log : List LoopEvent) : losses (log ++ [.lost]) = losses log + 1 := by
  simp [losses]

@[simp] theorem losses_reset (log : List LoopEvent) : losses (log ++ [.reset]) = 0 := by
  simp [losses]

theorem losses_other {e : LoopEvent} (hl : e ≠ .lost) (hr : e ≠ .reset) (log : List LoopEvent) :
    losses (log ++ [e]) = losses log := by
  cases e with
  | lost => exact absurd rfl hl
  | reset => exact absurd rfl hr
  | _ => simp [losses]

theorem ofLoop_append (log log' : List LoopEvent) :
    ofLoop (log ++ log') = ofLoop log ++ ofLoop log' :=
  List.filter_append _ _

theorem ofLoop_cons {e : LoopEvent} (he : e.isLoop = true) (log : List LoopEvent) :
    ofLoop (e :: log) = e :: ofLoop log := List.filter_cons_of_pos he

/-! ### What the loop does next -/

/-- The reason of a session that has given up. -/
def maxRetries (reason : String) : String := "max retries exceeded (" ++ reason ++ ")"

/-- **What the loop does next.** -/
inductive Follows (c : Params) : LoopEvent → LoopEvent → Prop
  | begins : Follows c (.published .starting) .called
  | quits : Follows c (.published .starting) (.published .stopped)
  | shows {secs : ℕ} : Follows c .called (.published (.running secs))
  | ends {secs : ℕ} {r : Except DriverError Unit} :
      Follows c (.published (.running secs)) (.ended r)
  | finishes : Follows c (.ended (.ok ())) (.published .stopped)
  | fails {r : String} : Follows c (.ended (.error (.fatal r))) (.published (.failed r))
  | resigns {r : String} (hauto : c.cfg.autoReconnect = false) :
      Follows c (.ended (.error (.ioLost r))) (.published .stopped)
  | loses {r : String} (hauto : c.cfg.autoReconnect = true) :
      Follows c (.ended (.error (.ioLost r))) .lost
  | announces {a : ℕ} : Follows c .lost (.published (.reconnecting a))
  | givesUp {a max : ℕ} {r : String} (hmax : c.cfg.maxAttempts = some max) (hlt : max < a) :
      Follows c (.published (.reconnecting a)) (.published (.failed (maxRetries r)))
  | sleeps {a : ℕ} (hmax : ∀ max, c.cfg.maxAttempts = some max → a ≤ max) :
      Follows c (.published (.reconnecting a)) (.sleeps (min 30 (2 ^ (a - 2))))
  | retries {d : ℕ} : Follows c (.sleeps d) .called
  | interrupted {d : ℕ} : Follows c (.sleeps d) (.published .stopped)

/-! ### The delay -/

/-- **The delay before the next instance**: 1, 1, 2, 4, 8, 16 and then 30 seconds. -/
theorem delay_of_attempt (b : Backoff) :
    b.nextDelay.1 = min 30 (2 ^ (b.nextDelay.2.attempt - 2)) := by
  obtain ⟨n⟩ := b
  by_cases hn : n ≤ 6
  · interval_cases n <;> rfl
  · -- from here on both are 30
    have hcode : (Backoff.mk n).nextDelay.1 = min (1 <<< min (n - 1) 5) 30 := by
      match n with
      | 0 | 1 => omega
      | n + 2 => rfl
    have hexp : min (n - 1) 5 = 5 := by omega
    have hattempt : 5 ≤ (Backoff.mk n).nextDelay.2.attempt - 2 := by
      simp only [Backoff.nextDelay, Backoff.attempt, Backoff.u32Max]
      omega
    have hpow : 2 ^ 5 ≤ 2 ^ ((Backoff.mk n).nextDelay.2.attempt - 2) :=
      Nat.pow_le_pow_right (by omega) hattempt
    rw [hcode, hexp]
    omega

/-! ### The loop and its record -/

/-- The loss that is being dealt with is the last one of the record, and `a` is its attempt. -/
def Counted (log : List LoopEvent) (a : ℕ) : Prop :=
  ∃ earlier since, log = earlier ++ .lost :: since ∧ .lost ∉ since ∧
    a = min (losses earlier + 1) Backoff.u32Max

/-- **Where the loop is, by its record**: the last thing that it has done may be followed by what it
is about to do. -/
def Main.At (c : Params) (log : List LoopEvent) : Main → Prop
  | start => ofLoop log = []
  | loopTop => ∃ e, (ofLoop log).getLast? = some e ∧ Follows c e .called ∧
      Follows c e (.published .stopped)
  | callFactory => ∃ e, (ofLoop log).getLast? = some e ∧ Follows c e .called
  | publishRunning => (ofLoop log).getLast? = some .called
  | joinDriver => ∃ secs, (ofLoop log).getLast? = some (.published (.running secs))
  | cancelBridge r => (ofLoop log).getLast? = some (.ended r)
  | awaitBridge r => (ofLoop log).getLast? = some (.ended r)
  | abortPump r => (ofLoop log).getLast? = some (.ended r)
  | matchResult r => (ofLoop log).getLast? = some (.ended r)
  | broadcastLost _ => ∃ e, (ofLoop log).getLast? = some e ∧ Follows c e .lost
  | nextDelay _ => ∃ e, (ofLoop log).getLast? = some e ∧ Follows c e .lost
  | publishReconnecting delay a _ => (ofLoop log).getLast? = some .lost ∧
      delay = min 30 (2 ^ (a - 2)) ∧ Counted log a
  | checkMax delay a _ => (ofLoop log).getLast? = some (.published (.reconnecting a)) ∧
      delay = min 30 (2 ^ (a - 2))
  | sleep delay => (ofLoop log).getLast? = some (.sleeps delay)
  | abortUptime last => ∃ e, (ofLoop log).getLast? = some e ∧ Follows c e (.published last) ∧
      last.isTerminal = true
  | publishLast last => ∃ e, (ofLoop log).getLast? = some e ∧ Follows c e (.published last) ∧
      last.isTerminal = true
  | returned => ∃ e last, [e, .published last] <:+ ofLoop log ∧ Follows c e (.published last) ∧
      last.isTerminal = true
  | panicked => True

/-- **The record is that of the loop**: each thing it does follows the one before, the counter is
the number of losses since the last reset, and every attempt is that of a counted loss. -/
structure Tracked (c : Params) (x : List LoopEvent × RunState) : Prop where
  first : ∀ e, (ofLoop x.1).head? = some e → e = .published .starting
  chain : (ofLoop x.1).IsChain (Follows c)
  at_main : x.2.main.At c x.1
  count : x.2.backoff.attempts = min (losses x.1) Backoff.u32Max
  counted : ∀ before after a, x.1 = before ++ .published (.reconnecting a) :: after →
    Counted before a

theorem tracked_init (c : Params) : Tracked c ([], RunState.init) where
  first e he := by cases he
  chain := List.isChain_nil
  at_main := rfl
  count := rfl
  counted before after a h := by simp at h

/-- Something else than a loss is noted. -/
theorem Counted.other {log : List LoopEvent} {a : ℕ} (h : Counted log a) {e : LoopEvent}
    (he : e ≠ .lost) : Counted (log ++ [e]) a := by
  obtain ⟨earlier, since, rfl, hsince, ha⟩ := h
  refine ⟨earlier, since ++ [e], by simp, ?_, ha⟩
  simp [hsince, he.symm]

/-- Where the last event of a record can be. -/
theorem concat_eq_append_cons {α : Type*} {l before after : List α} {x y : α}
    (h : l ++ [x] = before ++ y :: after) :
    (before = l ∧ x = y ∧ after = []) ∨
      ∃ after', after = after' ++ [x] ∧ l = before ++ y :: after' := by
  rcases List.eq_nil_or_concat after with rfl | ⟨after', z, rfl⟩
  · obtain ⟨hl, hx⟩ := List.append_inj' h rfl
    exact .inl ⟨hl.symm, List.singleton_inj.1 hx, rfl⟩
  · rw [List.concat_eq_append, ← List.cons_append, ← List.append_assoc] at h
    obtain ⟨hl, hx⟩ := List.append_inj' h rfl
    obtain rfl := List.singleton_inj.1 hx
    exact .inr ⟨after', List.concat_eq_append, hl⟩

/-- The loop does something that may follow what it has done last. -/
theorem Tracked.extend {c : Params} {log : List LoopEvent} {s t : RunState} {a : Act}
    {e e' : LoopEvent} (h : Tracked c (log, s)) (hev : eventOf s a t = some e)
    (hlast : (ofLoop log).getLast? = some e') (hfol : Follows c e' e)
    (he : e.isLoop = true) (hat : t.main.At c (log ++ [e]))
    (hcount : t.backoff.attempts = min (losses (log ++ [e])) Backoff.u32Max)
    (hnew : ∀ n, e = .published (.reconnecting n) → Counted log n) :
    Tracked c (log ++ (eventOf s a t).toList, t) := by
  rw [hev, Option.toList_some]
  refine ⟨fun x hx => h.first x ?_, ?_, hat, hcount, fun before after n hsplit => ?_⟩
  · dsimp only at hx ⊢
    obtain ⟨done, hdone⟩ := List.getLast?_eq_some_iff.1 hlast
    rw [ofLoop_append, hdone] at hx
    rw [hdone]
    cases done <;> exact hx
  · dsimp only
    rw [ofLoop_append, ofLoop_cons he]
    refine List.isChain_append.2 ⟨h.chain, List.isChain_singleton _, ?_⟩
    intro x hx y hy
    rw [hlast, Option.mem_some_iff] at hx
    rw [List.head?_cons, Option.mem_some_iff] at hy
    exact hx ▸ hy ▸ hfol
  · rcases concat_eq_append_cons hsplit with ⟨rfl, rfl, -⟩ | ⟨after', -, hlog⟩
    · exact hnew n rfl
    · exact h.counted before after' n hlog

/-- The loop begins. -/
theorem Tracked.begin {c : Params} {log : List LoopEvent} {s t : RunState} {a : Act}
    (h : Tracked c (log, s)) (hev : eventOf s a t = some (.published .starting))
    (hnone : ofLoop log = [])
    (hat : t.main.At c (log ++ [.published .starting]))
    (hcount : t.backoff.attempts =
      min (losses (log ++ [.published .starting])) Backoff.u32Max) :
    Tracked c (log ++ (eventOf s a t).toList, t) := by
  rw [hev, Option.toList_some]
  have hall : ofLoop (log ++ [.published .starting]) = [.published .starting] := by
    rw [ofLoop_append, hnone]
    rfl
  refine ⟨fun e he => ?_, ?_, hat, hcount, fun before after a hsplit => ?_⟩
  · rw [hall] at he
    exact (Option.some_inj.1 he).symm
  · rw [hall]
    exact List.isChain_singleton _
  · rcases concat_eq_append_cons hsplit with ⟨-, hx, -⟩ | ⟨after', -, hlog⟩
    · cases hx
    · exact h.counted before after' a hlog

/-- Nothing is noted. -/
theorem Tracked.quiet {c : Params} {log : List LoopEvent} {s t : RunState} {a : Act}
    (h : Tracked c (log, s)) (hev : eventOf s a t = none) (hat : t.main.At c log)
    (hback : t.backoff = s.backoff) : Tracked c (log ++ (eventOf s a t).toList, t) := by
  rw [hev, Option.toList_none, List.append_nil]
  exact ⟨h.first, h.chain, hat, hback ▸ h.count, h.counted⟩

theorem getLast_ofLoop {e : LoopEvent} (he : e.isLoop = true) (log : List LoopEvent) :
    (ofLoop (log ++ [e])).getLast? = some e := by
  rw [ofLoop_append, ofLoop_cons he]
  exact List.getLast?_concat

theorem Tracked.mainStep {c : Params} {secs : ℕ} {log : List LoopEvent} {s t : RunState}
    (h : Tracked c (log, s)) (hs : s.mainStep c secs = some t) :
    Tracked c (log ++ (eventOf s (.main secs) t).toList, t) := by
  have hat := h.at_main
  have hcount := h.count
  dsimp only at hat hcount
  -- how the counter goes with the record
  have hsame : ∀ e : LoopEvent, e ≠ .lost → e ≠ .reset →
      s.backoff.attempts = min (losses (log ++ [e])) Backoff.u32Max := by
    intro e hl hr
    rw [losses_other hl hr, hcount]
  have hquiet : ∀ {u : RunState}, u.main.entered = none → s.main.publishes secs = none →
      u.main.At c log → u.backoff = s.backoff →
      Tracked c (log ++ (eventOf s (.main secs) u).toList, u) := by
    intro u he hp hu hback
    exact h.quiet (by simp [eventOf, he, hp]) hu hback
  cases RunState.mainStep_stepped hs with
  | starts hm =>
      simp only [hm, Main.At] at hat
      exact h.begin (by rw [eventOf, hm]; rfl) hat ⟨_, getLast_ofLoop rfl log, .begins, .quits⟩
        (hsame _ (by simp) (by simp))
  | creates hm =>
      simp only [hm, Main.At] at hat
      obtain ⟨e, hlast, hcall⟩ := hat
      exact h.extend rfl hlast hcall rfl (getLast_ofLoop rfl log) (hsame _ (by simp) (by simp))
        (by simp)
  | shows hm =>
      simp only [hm, Main.At] at hat
      exact h.extend (by rw [eventOf, hm]; rfl) hat .shows rfl ⟨secs, getLast_ofLoop rfl log⟩
        (hsame _ (by simp) (by simp)) (by simp)
  | joins hm =>
      simp only [hm, Main.At] at hat
      obtain ⟨secs', hlast⟩ := hat
      exact h.extend rfl hlast .ends rfl (getLast_ofLoop rfl log) (hsame _ (by simp) (by simp))
        (by simp)
  | counts hm =>
      simp only [hm, Main.At] at hat
      obtain ⟨e, hlast, hlost⟩ := hat
      have hattempt : s.backoff.nextDelay.2.attempt = min (losses log + 1) Backoff.u32Max := by
        simp only [Backoff.nextDelay, Backoff.attempt, hcount]
        omega
      refine h.extend rfl hlast hlost rfl ⟨getLast_ofLoop rfl log, delay_of_attempt s.backoff,
        log, [], rfl, by simp, hattempt⟩ ?_ (by simp)
      rw [losses_lost]
      exact hattempt
  | announces hm =>
      simp only [hm, Main.At] at hat
      obtain ⟨hlast, hdelay, hcounted⟩ := hat
      refine h.extend (by rw [eventOf, hm]; rfl) hlast .announces rfl
        ⟨getLast_ofLoop rfl log, hdelay⟩ (hsame _ (by simp) (by simp)) fun a ha => ?_
      obtain rfl : _ = a := by simpa using ha
      exact hcounted
  | sleeps hm hmax =>
      simp only [hm, Main.At] at hat
      obtain ⟨hlast, rfl⟩ := hat
      exact h.extend rfl hlast (.sleeps hmax) rfl (getLast_ofLoop rfl log)
        (hsame _ (by simp) (by simp)) (by simp)
  | returns hm =>
      rename_i last
      simp only [hm, Main.At] at hat
      obtain ⟨e, hlast, hfol, hterm⟩ := hat
      have hreturned : [e, .published last] <:+ ofLoop (log ++ [.published last]) := by
        obtain ⟨done, hdone⟩ := List.getLast?_eq_some_iff.1 hlast
        rw [ofLoop_append, hdone, List.append_assoc]
        exact List.suffix_append _ _
      refine h.extend (by rw [eventOf, hm]; rfl) hlast hfol rfl ⟨e, last, hreturned, hfol, hterm⟩
        (hsame _ (by simp) (by simp)) fun a ha => ?_
      obtain rfl : last = .reconnecting a := by simpa using ha
      cases hterm
  | panics hm => exact hquiet rfl (by rw [hm]; rfl) trivial rfl
  | stops hm =>
      simp only [hm, Main.At] at hat
      obtain ⟨e, hlast, -, hstop⟩ := hat
      exact hquiet rfl (by rw [hm]; rfl) ⟨e, hlast, hstop, rfl⟩ rfl
  | wires hm =>
      simp only [hm, Main.At] at hat
      obtain ⟨e, hlast, hcall, -⟩ := hat
      exact hquiet rfl (by rw [hm]; rfl) ⟨e, hlast, hcall⟩ rfl
  | cancelsBridge hm | awaitsBridge hm | abortsPump hm | tells hm | abortsUptime hm =>
      simp only [hm, Main.At] at hat
      exact hquiet rfl (by rw [hm]; rfl) hat rfl
  | finishes hm =>
      simp only [hm, Main.At] at hat
      exact hquiet rfl (by rw [hm]; rfl) ⟨_, hat, .finishes, rfl⟩ rfl
  | fails hm =>
      simp only [hm, Main.At] at hat
      exact hquiet rfl (by rw [hm]; rfl) ⟨_, hat, .fails, rfl⟩ rfl
  | resigns hm hauto =>
      simp only [hm, Main.At] at hat
      exact hquiet rfl (by rw [hm]; rfl) ⟨_, hat, .resigns hauto, rfl⟩ rfl
  | loses hm hauto =>
      simp only [hm, Main.At] at hat
      exact hquiet rfl (by rw [hm]; rfl) ⟨_, hat, .loses hauto⟩ rfl
  | givesUp hm hmax hlt =>
      simp only [hm, Main.At] at hat
      exact hquiet rfl (by rw [hm]; rfl) ⟨_, hat.1, .givesUp hmax hlt, rfl⟩ rfl
  | interrupted hm =>
      simp only [hm, Main.At] at hat
      exact hquiet rfl (by rw [hm]; rfl) ⟨_, hat, .interrupted, rfl⟩ rfl

/-- What others do is not what the loop does. -/
theorem ofLoop_outside {e : LoopEvent} (he : e.isLoop = false) (log : List LoopEvent) :
    ofLoop (log ++ [e]) = ofLoop log := by
  rw [ofLoop_append]
  have hnone : ofLoop [e] = [] := List.filter_eq_nil_iff.2 fun x hx => by
    rw [List.mem_singleton.1 hx, he]
    exact Bool.false_ne_true
  rw [hnone, List.append_nil]

/-- What others do does not move the loop. -/
theorem Main.At.outside {c : Params} {log : List LoopEvent} {m : Main} {e : LoopEvent}
    (h : m.At c log) (he : e.isLoop = false) : m.At c (log ++ [e]) := by
  have hne : e ≠ .lost := by
    rintro rfl
    cases he
  cases m with
  | publishReconnecting delay a reason =>
      obtain ⟨hlast, hdelay, hcounted⟩ := h
      refine ⟨?_, hdelay, hcounted.other hne⟩
      rw [ofLoop_outside he]
      exact hlast
  | panicked => exact h
  | start | loopTop | callFactory | publishRunning | joinDriver | cancelBridge | awaitBridge
  | abortPump | matchResult | broadcastLost | nextDelay | checkMax | sleep | abortUptime
  | publishLast | returned =>
      simp only [At, ofLoop_outside he] at h ⊢
      exact h

/-- Something that others do is noted. -/
theorem Tracked.outside {c : Params} {log : List LoopEvent} {s t : RunState} {a : Act}
    {e : LoopEvent} (h : Tracked c (log, s)) (hev : eventOf s a t = some e) (he : e.isLoop = false)
    (hmain : t.main = s.main)
    (hcount : t.backoff.attempts = min (losses (log ++ [e])) Backoff.u32Max) :
    Tracked c (log ++ (eventOf s a t).toList, t) := by
  rw [hev, Option.toList_some]
  constructor
  · dsimp only
    rw [ofLoop_outside he]
    exact h.first
  · dsimp only
    rw [ofLoop_outside he]
    exact h.chain
  · dsimp only
    rw [hmain]
    exact h.at_main.outside he
  · exact hcount
  · intro before after a hsplit
    rcases concat_eq_append_cons hsplit with ⟨-, rfl, -⟩ | ⟨after', -, hlog⟩
    · cases he
    · exact h.counted before after' a hlog

theorem Tracked.pumpStep {c : Params} {log : List LoopEvent} {s t : RunState} {i : ℕ} {a : PumpAct}
    (h : Tracked c (log, s)) (hs : s.pumpStep i a = some t) :
    Tracked c (log ++ (eventOf s (.pump i a) t).toList, t) := by
  obtain ⟨p, q, eff, hp, hq, rfl⟩ := RunState.pumpStep_some hs
  cases Pump.step_stepped hq with
  | poll | suspend | kill | finish | hand => exact h.quiet rfl h.at_main rfl
  | takeOutput hpoll ho hh hev | takeNotice hpoll ho hh hev =>
      have hnext : s.connectedNext i = false := by simp [RunState.connectedNext, hp, hev]
      exact h.quiet (by simp [eventOf, hnext]) h.at_main rfl
  | takeConnected hpoll ho hh hev =>
      have hnext : s.connectedNext i = true := by simp [RunState.connectedNext, hp, hev]
      refine h.outside (if_pos hnext) rfl rfl ?_
      rw [losses_reset]
      rfl

theorem Tracked.driverStep {c : Params} {log : List LoopEvent} {s t : RunState} {a : DriverAct}
    (h : Tracked c (log, s)) (hs : s.driverStep a = some t) :
    Tracked c (log ++ (eventOf s (.driver a) t).toList, t) := by
  rw [RunState.driverStep_eq hs]
  cases a with
  | recv | finish => exact h.quiet rfl h.at_main rfl
  | send e =>
      cases e with
      | output | notice => exact h.quiet rfl h.at_main rfl
      | connected =>
          refine h.outside rfl rfl rfl ?_
          rw [losses_other (by simp) (by simp)]
          exact h.count

/-- **The record stays that of the loop.** -/
theorem Tracked.step {c : Params} {x y : List LoopEvent × RunState} {a : Act} (h : Tracked c x)
    (hs : recorded c x a = some y) : Tracked c y := by
  obtain ⟨log, s⟩ := x
  obtain ⟨log', t⟩ := y
  obtain ⟨hlog, ht⟩ := observed_eq_some.1 hs
  dsimp only at hlog ht
  subst hlog
  cases step_stepped ht with
  | main hm => exact h.mainStep hm
  | wake hm =>
      have hat := h.at_main
      simp only [hm, Main.At] at hat
      exact h.quiet rfl ⟨_, hat, .retries, .interrupted⟩ rfl
  | cancel =>
      by_cases hc : s.cancelled = true
      · exact h.quiet (if_pos hc) h.at_main rfl
      · refine h.outside (if_neg hc) rfl rfl ?_
        rw [losses_other (by simp) (by simp)]
        exact h.count
  | sendInput | forward => exact h.quiet rfl h.at_main rfl
  | uptime hu =>
      rw [RunState.uptimeStep_eq hu]
      exact h.quiet rfl h.at_main rfl
  | pump hp => exact h.pumpStep hp
  | bridge hb =>
      rw [RunState.bridgeStep_eq hb]
      exact h.quiet rfl h.at_main rfl
  | driver hd => exact h.driverStep hd

/-- What the others do is none of the events of the loop. -/
theorem eventOf_outside {s t : RunState} {a : Act} (ha : ∀ secs, a ≠ .main secs) {e : LoopEvent}
    (he : eventOf s a t = some e) : e.isLoop = false := by
  cases a with
  | main secs => exact absurd rfl (ha secs)
  | cancel =>
      obtain ⟨-, he⟩ := Option.ite_none_left_eq_some.1 he
      obtain rfl := Option.some_inj.1 he
      rfl
  | pump i b =>
      cases b with
      | take =>
          obtain ⟨-, rfl⟩ := Option.ite_some_none_eq_some.1 he
          rfl
      | _ => cases he
  | driver b =>
      rcases b with _ | (_ | _ | _) | _
      case send.connected =>
        obtain rfl := Option.some_inj.1 he
        rfl
      all_goals cases he
  | _ => cases he

/-- The others do not move the loop, apart from waking it. -/
theorem main_elsewhere {c : Params} {s t : RunState} {a : Act} (h : step c s a = some t)
    (ha : ∀ secs, a ≠ .main secs) :
    t.main = s.main ∨ (∃ d, s.main = .sleep d) ∧ t.main = .loopTop := by
  cases a with
  | main secs => exact absurd rfl (ha secs)
  | uptime b =>
      rw [RunState.uptimeStep_eq h]
      exact .inl rfl
  | _ => exact (step_elsewhere h (by simp) (by simp)).1

/-! ### What stands around an event -/

variable {c : Params} {log before after : List LoopEvent} {e : LoopEvent}

/-- Nothing follows a terminal status. -/
theorem Follows.not_terminal {c : Params} {st : SessionStatus} {e : LoopEvent}
    (h : Follows c (.published st) e) : st.isTerminal = false := by
  cases h <;> rfl

/-- The chain of what the loop has done, around one of its events. -/
theorem Tracked.split {x : List LoopEvent × RunState} (h : Tracked c x) (he : e.isLoop = true)
    (hsplit : x.1 = before ++ e :: after) :
    (∀ e', (ofLoop after).head? = some e' → Follows c e e') ∧
      (e ≠ .published .starting → ∃ e', (ofLoop before).getLast? = some e' ∧ Follows c e' e) ∧
      (ofLoop after).IsChain (Follows c) := by
  have hchain := h.chain
  have hfirst := h.first
  rw [hsplit, ofLoop_append, ofLoop_cons he] at hchain hfirst
  obtain ⟨-, hafter, hbefore⟩ := List.isChain_append.1 hchain
  obtain ⟨hnext, hrest⟩ := List.isChain_cons.1 hafter
  refine ⟨fun e' he' => hnext e' he', fun hne => ?_, hrest⟩
  cases hlast : (ofLoop before).getLast? with
  | none =>
      rw [List.getLast?_eq_none_iff] at hlast
      rw [hlast] at hfirst
      exact absurd (hfirst e rfl) hne
  | some e' => exact ⟨e', rfl, hbefore e' hlast e rfl⟩

/-- An event with one kind of successor, a terminal status. -/
theorem Tracked.last {x : List LoopEvent × RunState} (h : Tracked c x) (he : e.isLoop = true)
    (hsplit : x.1 = before ++ e :: after) {st : SessionStatus} (hst : st.isTerminal = true)
    (hnext : ∀ e', Follows c e e' → e' = .published st) : ofLoop after <+: [.published st] := by
  obtain ⟨hhead, -, hchain⟩ := h.split he hsplit
  cases hafter : ofLoop after with
  | nil => exact List.nil_prefix
  | cons e' rest =>
      rw [hafter] at hhead hchain
      obtain rfl := hnext e' (hhead e' rfl)
      cases rest with
      | nil => exact List.prefix_refl _
      | cons e'' rest =>
          have hfol := (List.isChain_cons_cons.1 hchain).1
          rw [hfol.not_terminal] at hst
          cases hst

end Runner

end TermHub
