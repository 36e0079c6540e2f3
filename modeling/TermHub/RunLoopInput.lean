/-
**What becomes of the input across reconnects.**

A chunk of input goes from the hub's channel through the hands of the bridge into the channel of the
present driver instance, which is destroyed with the instance.  What is in that channel or in the
hands of the bridge when the instance ends is gone, and so is the chunk that the bridge takes before
it has noticed the end.

Main definitions:

* `Ordered` — the instances have received, in order, a beginning of what the hub has accepted;
* `HandedOver` — an instance ends, and the bridge takes a chunk, only when nothing is on its way to
  an instance that does not receive any more.

Main results:

* `input_ordered` — **no chunk is lost, duplicated or reordered** in a run whose steps are so;
* `input_lost` — the second instance receives the second chunk and nobody the first.
-/

import TermHub.RunLoop

set_option relaxedAutoImplicit false
set_option autoImplicit false

namespace TermHub

namespace Runner

open Transition

/-- **What the instances have received, one after the other, is a beginning of what the hub has
accepted.** -/
def Ordered (s : RunState) : Prop := s.past.flatten ++ s.received <+: s.accepted

/-- An instance ends when nothing is on its way to it, and the bridge takes a chunk while there is
an instance that receives. -/
def HandedOver (s : RunState) : Act → Prop
  | .driver (.finish _) => s.drvIn = [] ∧ s.bridge.hand = []
  | .bridge .take => s.driver.receives = true
  | _ => True

instance (s : RunState) (a : Act) : Decidable (HandedOver s a) := by
  unfold HandedOver
  split <;> infer_instance

/-- What such runs keep: until a panic every chunk accepted has been received or is on its way, and
only to an instance that receives. -/
structure OnTheWay (s : RunState) : Prop where
  ordered : Ordered s
  accounted : s.main ≠ .panicked →
    s.accepted = s.past.flatten ++ (s.received ++ (s.drvIn ++ (s.bridge.hand ++ s.hubIn)))
  nothing : s.main ≠ .panicked → s.driver.receives = false → s.drvIn = [] ∧ s.bridge.hand = []
  receives : s.driver.receives = true →
    s.main = .callFactory ∨ s.main = .publishRunning ∨ s.main = .joinDriver

theorem onTheWay_init : OnTheWay RunState.init := by
  constructor <;> simp [RunState.init, Ordered, Driver.receives, Bridge.hand]

/-- Once all chunks are accounted for, those received are a beginning. -/
theorem ordered_of_accounted {s : RunState} (h : s.accepted =
    s.past.flatten ++ (s.received ++ (s.drvIn ++ (s.bridge.hand ++ s.hubIn)))) : Ordered s := by
  unfold Ordered
  rw [h, ← List.append_assoc]
  exact List.prefix_append _ _

/-- An instance receives while it is started and waited for. -/
theorem OnTheWay.receives_eq_false {s : RunState} (hi : OnTheWay s) (hc : s.main ≠ .callFactory)
    (hr : s.main ≠ .publishRunning) (hj : s.main ≠ .joinDriver) : s.driver.receives = false := by
  refine Bool.eq_false_iff.2 fun hrec => ?_
  rcases hi.receives hrec with h | h | h
  · exact hc h
  · exact hr h
  · exact hj h

theorem OnTheWay.ne_panicked {s : RunState} (hi : OnTheWay s) (hd : s.driver.receives = true) :
    s.main ≠ .panicked := by
  rcases hi.receives hd with h | h | h <;> simp [h]

/-- The loop does not touch a chunk, except that it makes the channel of a new instance. -/
theorem OnTheWay.mainStep {c : Params} {secs : ℕ} {s t : RunState} (hi : OnTheWay s)
    (h : s.mainStep c secs = some t) : OnTheWay t := by
  cases RunState.mainStep_stepped h with
  | wires hm =>
      have hd : s.driver.receives = false :=
        hi.receives_eq_false (by simp [hm]) (by simp [hm]) (by simp [hm])
      have hne : s.main ≠ .panicked := by simp [hm]
      obtain ⟨hin, hhand⟩ := hi.nothing hne hd
      have hacc := hi.accounted hne
      rw [hin, hhand] at hacc
      exact ⟨hi.ordered, fun _ => hacc, fun _ hr => (nomatch hr), fun _ => .inl rfl⟩
  | creates hm =>
      exact ⟨hi.ordered, fun _ => hi.accounted (by simp [hm]), fun _ hr => (nomatch hr),
        fun _ => .inr (.inl rfl)⟩
  | panics hm =>
      exact ⟨hi.ordered, fun hne => absurd rfl hne, fun hne => absurd rfl hne,
        fun hr => (nomatch hr)⟩
  | shows hm =>
      have hne : s.main ≠ .panicked := by simp [hm]
      exact ⟨hi.ordered, fun _ => hi.accounted hne, fun _ => hi.nothing hne,
        fun _ => .inr (.inr rfl)⟩
  | joins hm hd =>
      have hne : s.main ≠ .panicked := by simp [hm]
      have hrec : s.driver.receives = false := by
        rw [hd]
        rfl
      exact ⟨hi.ordered, fun _ => hi.accounted hne, fun _ => hi.nothing hne,
        fun hr => absurd (hrec.symm.trans hr) Bool.false_ne_true⟩
  | starts hm | stops hm | cancelsBridge hm | awaitsBridge hm | abortsPump hm | finishes hm
  | fails hm | resigns hm | loses hm | tells hm | counts hm | announces hm | givesUp hm
  | sleeps hm | interrupted hm | abortsUptime hm | returns hm =>
      have hd : s.driver.receives = false :=
        hi.receives_eq_false (by simp [hm]) (by simp [hm]) (by simp [hm])
      have hne : s.main ≠ .panicked := by simp [hm]
      exact ⟨hi.ordered, fun _ => hi.accounted hne, fun _ => hi.nothing hne,
        fun hr => absurd (hd.symm.trans hr) Bool.false_ne_true⟩

/-- The bridge moves the first chunk that has not been received yet. -/
theorem OnTheWay.bridgeStep {s t : RunState} {a : BridgeAct} (hi : OnTheWay s)
    (hok : HandedOver s (.bridge a)) (h : s.bridgeStep a = some t) : OnTheWay t := by
  cases RunState.bridgeStep_stepped h with
  | @take b rest hb hin =>
      have hne := hi.ne_panicked hok
      have hacc := hi.accounted hne
      rw [hb, hin] at hacc
      exact ⟨hi.ordered, fun _ => hacc,
        fun _ hr => absurd (hok.symm.trans hr) Bool.noConfusion, hi.receives⟩
  | @give b hb hrec hroom =>
      have hne := hi.ne_panicked hrec
      have hacc := hi.accounted hne
      rw [hb] at hacc
      refine ⟨hi.ordered, fun _ => ?_,
        fun _ hr => absurd (hrec.symm.trans hr) Bool.noConfusion, hi.receives⟩
      simpa [Bridge.hand] using hacc
  | @fail b hb hrec =>
      refine ⟨hi.ordered, fun hne => ?_, fun hne _ => ⟨(hi.nothing hne hrec).1, rfl⟩, hi.receives⟩
      -- the chunk that the bridge held would be lost, but it holds none
      have hhand := (hi.nothing hne hrec).2
      rw [hb] at hhand
      cases hhand
  | cancelled hb hc =>
      refine ⟨hi.ordered, fun hne => ?_, fun hne hr => ⟨(hi.nothing hne hr).1, rfl⟩, hi.receives⟩
      have hacc := hi.accounted hne
      rw [hb] at hacc
      exact hacc

/-- The driver receives the first chunk on its way, and takes nothing with it when it ends. -/
theorem OnTheWay.driverStep {s t : RunState} {a : DriverAct} (hi : OnTheWay s)
    (hok : HandedOver s (.driver a)) (h : s.driverStep a = some t) : OnTheWay t := by
  cases RunState.driverStep_stepped h with
  | @recv b rest hd hin =>
      have hrec : s.driver.receives = true := by rw [hd]; rfl
      have hacc : s.accepted = s.past.flatten ++
          ((s.received ++ [b]) ++ (rest ++ (s.bridge.hand ++ s.hubIn))) := by
        rw [hi.accounted (hi.ne_panicked hrec), hin]
        simp
      exact ⟨ordered_of_accounted hacc, fun _ => hacc,
        fun _ hr => absurd (hrec.symm.trans hr) Bool.noConfusion, hi.receives⟩
  | send => exact ⟨hi.ordered, hi.accounted, hi.nothing, hi.receives⟩
  | finish hd =>
      obtain ⟨hin, hhand⟩ := hok
      have hrec : s.driver.receives = true := by rw [hd]; rfl
      have hacc : s.accepted = (s.past ++ [s.received]).flatten ++
          ([] ++ ([] ++ (s.bridge.hand ++ s.hubIn))) := by
        rw [hi.accounted (hi.ne_panicked hrec), hin]
        simp
      exact ⟨ordered_of_accounted hacc, fun _ => hacc, fun _ _ => ⟨rfl, hhand⟩,
        fun hr => (nomatch hr)⟩

theorem OnTheWay.step {c : Params} {s t : RunState} {a : Act} (hi : OnTheWay s)
    (hok : HandedOver s a) (h : step c s a = some t) : OnTheWay t := by
  cases step_stepped h with
  | main h => exact hi.mainStep h
  | bridge h => exact hi.bridgeStep hok h
  | driver h => exact hi.driverStep hok h
  | uptime h =>
      rw [RunState.uptimeStep_eq h]
      exact ⟨hi.ordered, hi.accounted, hi.nothing, hi.receives⟩
  | pump h =>
      rw [RunState.pumpStep_eq h]
      exact ⟨hi.ordered, hi.accounted, hi.nothing, hi.receives⟩
  | wake hm =>
      have hd : s.driver.receives = false :=
        hi.receives_eq_false (by simp [hm]) (by simp [hm]) (by simp [hm])
      have hne : s.main ≠ .panicked := by simp [hm]
      exact ⟨hi.ordered, fun _ => hi.accounted hne, fun _ => hi.nothing hne,
        fun hr => absurd (hd.symm.trans hr) Bool.false_ne_true⟩
  | cancel | forward => exact ⟨hi.ordered, hi.accounted, hi.nothing, hi.receives⟩
  | @sendInput b _ _ =>
      refine ⟨hi.ordered.trans (List.prefix_append _ _), fun hne => ?_, hi.nothing, hi.receives⟩
      show s.accepted ++ [b] = _
      rw [hi.accounted hne]
      simp

/-- **Input is neither lost nor reordered** in a run whose instances end, and whose bridge takes,
with nothing on the way to an instance that does not receive. -/
theorem input_ordered (c : Params) (s : RunState) (h : Reach (step c) HandedOver RunState.init s) :
    Ordered s :=
  (h.invariant onTheWay_init fun _ _ _ hi hok hs => hi.step hok hs).ordered

/-- Instances end by losing the upstream, and nobody cancels the session. -/
def Act.IsLossy : Act → Prop
  | .cancel => False
  | .driver (.finish e) => ∃ reason, e.result = .error (.ioLost reason)
  | _ => True

/-- The first instance ends with a chunk in its channel, the second one receives the next. -/
def lostInput : List Act :=
  [.main 0, .main 0, .main 0, .main 0, .sendInput [1], .bridge .take, .bridge .give,
    .driver (.finish (.returned (.error (.ioLost "eof")))), .main 1, .main 1, .bridge .cancelled,
    .main 1, .main 1, .main 1, .main 1, .main 1, .main 1, .main 1, .wake, .main 2, .main 2, .main 2,
    .sendInput [2], .bridge .take, .bridge .give, .driver .recv]

/-- **A chunk that was accepted is skipped.** -/
theorem input_lost : ¬ ∀ (c : Params) (s : RunState), c.cfg.autoReconnect = true →
    Reach (step c) (fun _ a => a.IsLossy) RunState.init s → Ordered s := by
  intro h
  have hrun : ∃ s, exec (step steady) RunState.init lostInput = some s ∧
      s.past = [[]] ∧ s.received = [[2]] ∧ s.accepted = [[1], [2]] := ⟨_, rfl, rfl, rfl, rfl⟩
  obtain ⟨s, hs, hpast, hrec, hacc⟩ := hrun
  have hlossy : ∀ a ∈ lostInput, a.IsLossy := by
    simp [lostInput, Act.IsLossy, DriverEnd.result]
  have hord : Ordered s := h steady s rfl ((meets_of_forall hlossy _).reach hs)
  unfold Ordered at hord
  rw [hpast, hrec, hacc] at hord
  exact absurd hord (by decide)

/-- The first instance receives its chunk before it ends, the second one receives the next. -/
def orderedInput : List Act :=
  [.main 0, .main 0, .main 0, .main 0, .sendInput [1], .bridge .take, .bridge .give, .driver .recv,
    .driver (.finish (.returned (.error (.ioLost "eof")))), .main 1, .main 1, .bridge .cancelled,
    .main 1, .main 1, .main 1, .main 1, .main 1, .main 1, .main 1, .wake, .main 2, .main 2, .main 2,
    .sendInput [2], .bridge .take, .bridge .give, .driver .recv]

theorem input_ordered_two : ∃ s, Reach (step steady) HandedOver RunState.init s ∧
    s.past = [[[1]]] ∧ s.received = [[2]] ∧ Ordered s := by
  have hrun : ∃ s, exec (step steady) RunState.init orderedInput = some s ∧
      s.past = [[[1]]] ∧ s.received = [[2]] := ⟨_, rfl, rfl, rfl⟩
  obtain ⟨s, hs, hpast, hrec⟩ := hrun
  have hreach : Reach (step steady) HandedOver RunState.init s :=
    (show Meets (step steady) HandedOver RunState.init orderedInput by decide).reach hs
  exact ⟨s, hreach, hpast, hrec, input_ordered steady s hreach⟩

/-! ### Whatever gets lost -/

/-- What the instances have received, and behind it what is on its way to them. -/
def RunState.passing (s : RunState) : List Bytes :=
  s.past.flatten ++ (s.received ++ (s.drvIn ++ (s.bridge.hand ++ s.hubIn)))

/-- A step drops some of what is on its way, or puts a chunk behind it that it accepts. -/
theorem step_passing {c : Params} {s t : RunState} {a : Act} (h : step c s a = some t) :
    (t.passing.Sublist s.passing ∧ t.accepted = s.accepted) ∨
      ∃ b, t.passing = s.passing ++ [b] ∧ t.accepted = s.accepted ++ [b] := by
  cases step_stepped h with
  | main h =>
      cases RunState.mainStep_stepped h with
      | wires hm =>
          refine .inl ⟨List.Sublist.append_left (List.Sublist.append_left ?_ _) _, rfl⟩
          exact (List.sublist_append_right _ _).trans (List.sublist_append_right _ _)
      | starts | stops | creates | panics | shows | joins | cancelsBridge | awaitsBridge
      | abortsPump | finishes | fails | resigns | loses | tells | counts | announces | givesUp
      | sleeps | interrupted | abortsUptime | returns => exact .inl ⟨List.Sublist.refl _, rfl⟩
  | bridge h =>
      refine .inl ?_
      cases RunState.bridgeStep_stepped h with
      | take hb hin => exact ⟨by simp [RunState.passing, hb, hin, Bridge.hand], rfl⟩
      | give hb hrec hroom => exact ⟨by simp [RunState.passing, hb, Bridge.hand], rfl⟩
      | fail hb hrec => exact ⟨by simp [RunState.passing, hb, Bridge.hand], rfl⟩
      | cancelled hb hc => exact ⟨by simp [RunState.passing, hb, Bridge.hand], rfl⟩
  | driver h =>
      refine .inl ?_
      cases RunState.driverStep_stepped h with
      | recv hd hin => exact ⟨by simp [RunState.passing, hin], rfl⟩
      | send => exact ⟨List.Sublist.refl _, rfl⟩
      | finish hd => exact ⟨by simp [RunState.passing, RunState.modifyPump], rfl⟩
  | uptime h =>
      rw [RunState.uptimeStep_eq h]
      exact .inl ⟨List.Sublist.refl _, rfl⟩
  | pump h =>
      rw [RunState.pumpStep_eq h]
      exact .inl ⟨List.Sublist.refl _, rfl⟩
  | wake | cancel | forward => exact .inl ⟨List.Sublist.refl _, rfl⟩
  | @sendInput b _ _ => exact .inr ⟨b, by simp [RunState.passing], rfl⟩

/-- **Whatever gets lost, nothing is received twice or out of order**, in every run. -/
theorem received_sublist {c : Params} {s : RunState}
    (h : Reachable (step c) RunState.init s) :
    (s.past.flatten ++ s.received).Sublist s.accepted := by
  have hpassing : s.passing.Sublist s.accepted := by
    refine h.invariant (I := fun s => s.passing.Sublist s.accepted) (List.Sublist.refl _) ?_
    intro s a t hi _ hs
    rcases step_passing hs with ⟨hsub, hacc⟩ | ⟨b, hpass, hacc⟩
    · exact hacc ▸ hsub.trans hi
    · rw [hpass, hacc]
      exact List.Sublist.append_right hi _
  refine List.Sublist.trans ?_ hpassing
  rw [RunState.passing, ← List.append_assoc]
  exact List.sublist_append_left _ _

/-! ### The first instance -/

/-- Only an instance that ends adds to the past. -/
theorem step_past {c : Params} {s t : RunState} {a : Act} (h : step c s a = some t) :
    s.accepted <+: t.accepted ∧
      (t.past = s.past ∨ t.past = s.past ++ [s.received]) ∧
      (t.past = s.past → ∀ e, a ≠ .driver (.finish e)) := by
  cases step_stepped h with
  | main h =>
      cases RunState.mainStep_stepped h <;> exact ⟨List.prefix_rfl, .inl rfl, fun _ _ => by simp⟩
  | bridge h =>
      rw [RunState.bridgeStep_eq h]
      exact ⟨List.prefix_rfl, .inl rfl, fun _ _ => by simp⟩
  | driver h =>
      cases RunState.driverStep_stepped h with
      | recv | send => exact ⟨List.prefix_rfl, .inl rfl, fun _ _ => by simp⟩
      | finish => exact ⟨List.prefix_rfl, .inr rfl, fun hp => absurd hp (by simp)⟩
  | uptime h =>
      rw [RunState.uptimeStep_eq h]
      exact ⟨List.prefix_rfl, .inl rfl, fun _ _ => by simp⟩
  | pump h =>
      rw [RunState.pumpStep_eq h]
      exact ⟨List.prefix_rfl, .inl rfl, fun _ _ => by simp⟩
  | wake | cancel | forward => exact ⟨List.prefix_rfl, .inl rfl, fun _ _ => by simp⟩
  | sendInput => exact ⟨List.prefix_append _ _, .inl rfl, fun _ _ => by simp⟩

/-- As long as no instance has ended, everything accepted is accounted for, and a bridge that has
not ended has an instance to give to; what the first instance has received when it ends is a
beginning of what has been accepted. -/
structure First (s : RunState) : Prop where
  sound : s.main ≠ .panicked
  onTheWay : s.past = [] → OnTheWay s
  attended : s.past = [] → s.driver.receives = true ∨ s.bridge = .ended
  ordered : ∀ r rest, s.past = r :: rest → r <+: s.accepted

theorem first_init : First RunState.init where
  sound := by simp [RunState.init]
  onTheWay _ := onTheWay_init
  attended _ := .inr rfl
  ordered _ _ h := by simp [RunState.init] at h

theorem First.attends {c : Params} (hc : c.factory = .ok ()) {s t : RunState} {a : Act}
    (h : step c s a = some t) (hne : ∀ e, a ≠ .driver (.finish e))
    (hi : s.driver.receives = true ∨ s.bridge = .ended) :
    t.driver.receives = true ∨ t.bridge = .ended := by
  cases step_stepped h with
  | main h =>
      cases RunState.mainStep_stepped h with
      | wires | creates => exact .inl rfl
      | panics hm hf => cases hc.symm.trans hf
      | starts | stops | shows | joins | cancelsBridge | awaitsBridge | abortsPump | finishes
      | fails | resigns | loses | tells | counts | announces | givesUp | sleeps | interrupted
      | abortsUptime | returns => exact hi
  | bridge h =>
      cases RunState.bridgeStep_stepped h with
      | take hb hin => exact .inl (hi.resolve_right (by simp [hb]))
      | give hb hrec hroom => exact .inl hrec
      | fail hb hrec => exact .inr rfl
      | cancelled hb hcancel => exact .inr rfl
  | driver h =>
      cases RunState.driverStep_stepped h with
      | recv | send => exact hi
      | finish => exact absurd rfl (hne _)
  | uptime h =>
      rw [RunState.uptimeStep_eq h]
      exact hi
  | pump h =>
      rw [RunState.pumpStep_eq h]
      exact hi
  | wake | cancel | forward | sendInput => exact hi

/-- A factory that returns a driver makes no main loop panic. -/
theorem step_unpanicked {c : Params} (hc : c.factory = .ok ()) {s t : RunState} {a : Act}
    (h : step c s a = some t) (hi : s.main ≠ .panicked) : t.main ≠ .panicked := by
  cases step_stepped h with
  | main h =>
      cases RunState.mainStep_stepped h with
      | panics hm hf => cases hc.symm.trans hf
      | starts | stops | wires | creates | shows | joins | cancelsBridge | awaitsBridge
      | abortsPump | finishes | fails | resigns | loses | tells | counts | announces | givesUp
      | sleeps | interrupted | abortsUptime | returns => simp
  | bridge h =>
      rw [RunState.bridgeStep_eq h]
      exact hi
  | driver h =>
      rw [RunState.driverStep_eq h]
      exact hi
  | uptime h =>
      rw [RunState.uptimeStep_eq h]
      exact hi
  | pump h =>
      rw [RunState.pumpStep_eq h]
      exact hi
  | wake => simp
  | cancel | forward | sendInput => exact hi

theorem First.step {c : Params} (hc : c.factory = .ok ()) {s t : RunState} {a : Act}
    (hi : First s) (h : step c s a = some t) : First t := by
  obtain ⟨hacc, hpast, hfinish⟩ := step_past h
  -- as long as nothing is past, nothing was before
  have hback : t.past = [] → s.past = [] ∧ ∀ e, a ≠ .driver (.finish e) := by
    intro hp
    rcases hpast with hsame | hmore
    · exact ⟨hsame ▸ hp, hfinish hsame⟩
    · simp [hmore] at hp
  refine ⟨step_unpanicked hc h hi.sound, fun hp => ?_, fun hp => ?_, fun r rest hp => ?_⟩
  · obtain ⟨hs, hne⟩ := hback hp
    refine (hi.onTheWay hs).step ?_ h
    cases a with
    | driver b =>
        cases b with
        | finish e => exact absurd rfl (hne e)
        | recv | send => trivial
    | bridge b =>
        cases b with
        | take =>
            have hstep : s.bridgeStep .take = some t := h
            cases RunState.bridgeStep_stepped hstep with
            | take hb hin => exact (hi.attended hs).resolve_right (by rw [hb]; simp)
        | give | fail | cancelled => trivial
    | main | wake | cancel | sendInput | forward | uptime | pump => trivial
  · obtain ⟨hs, hne⟩ := hback hp
    exact First.attends hc h hne (hi.attended hs)
  · refine List.IsPrefix.trans ?_ hacc
    rcases hpast with hsame | hmore
    · exact hi.ordered r rest (hsame ▸ hp)
    · cases hs : s.past with
      | nil =>
          rw [hmore, hs, List.nil_append, List.cons.injEq] at hp
          have hordered := (hi.onTheWay hs).ordered
          rwa [Ordered, hs, List.flatten_nil, List.nil_append, hp.1] at hordered
      | cons r' rest' =>
          rw [hmore, hs, List.cons_append, List.cons.injEq] at hp
          exact hi.ordered r rest' (by rw [hs, hp.1])

/-- **The first instance receives a beginning of what is accepted**, in every run. -/
theorem First.of_reachable {c : Params} (hc : c.factory = .ok ()) {s : RunState}
    (h : Reachable (Runner.step c) RunState.init s) : First s :=
  h.invariant first_init fun _ _ _ hi _ hs => hi.step hc hs

end Runner

end TermHub
