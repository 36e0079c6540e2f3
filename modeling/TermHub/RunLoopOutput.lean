/-
**What becomes of the output of a driver.**

The chunks that a driver instance has sent wait in the channel of its event pump, or in the hands of
the pump while `up_tx` is full.  A pump that is left alone hands all of them on.  The main loop
aborts it as soon as the driver has ended and the bridge is gone, whatever the pump still holds.

Main definitions:

* `Pump.Intact` — every chunk sent has been handed on, in order, or is still on its way;
* `PumpEmpty` — a pump is dropped only when it holds no chunk.

Main results:

* `output_intact_iff` — **no chunk is lost exactly in the runs that drop empty pumps**;
* `pump_hands_all` — a pump that is not dropped can hand on all it holds;
* `output_lost` — the last words of a driver are dropped.
-/

import TermHub.RunLoop

set_option relaxedAutoImplicit false
set_option autoImplicit false

namespace TermHub

namespace Runner

open Transition

/-! ### One pump -/

@[simp] theorem outputs_nil : outputs [] = [] := rfl

@[simp] theorem outputs_output (b : Bytes) (es : List DriverEvent) :
    outputs (.output b :: es) = b :: outputs es := rfl

@[simp] theorem outputs_connected (es : List DriverEvent) :
    outputs (.connected :: es) = outputs es := rfl

@[simp] theorem outputs_notice (s : String) (es : List DriverEvent) :
    outputs (.notice s :: es) = outputs es := rfl

@[simp] theorem outputs_map_output (bs : List Bytes) : outputs (bs.map .output) = bs := by
  induction bs with
  | nil => rfl
  | cons b bs ih => rw [List.map_cons, outputs_output, ih]

theorem outputs_append (es fs : List DriverEvent) : outputs (es ++ fs) = outputs es ++ outputs fs :=
  List.filterMap_append

/-- The chunks that are still on their way through the pump. -/
def Pump.held (p : Pump) : List Bytes := p.hand.toList ++ outputs p.events

/-- **The output is intact**: the chunks sent are those handed on and those still on their way, in
order; once the pump has ended, all of them have been handed on. -/
def Pump.Intact (p : Pump) : Prop :=
  p.sent = p.handed ++ if p.ended then [] else p.held

theorem Pump.intact_new : Pump.new.Intact := rfl

/-- What the driver sends is on its way. -/
theorem Pump.Intact.send {p : Pump} (h : p.Intact) (ho : p.ended = false) (e : DriverEvent) :
    (p.send e).Intact := by
  have hs : p.sent = p.handed ++ (p.hand.toList ++ outputs p.events) := by
    rw [h, if_neg (by simp [ho])]
    rfl
  simp [Intact, Pump.send, held, ho, hs, outputs_append]

/-- A pump that is not dropped passes the chunks on in order, and ends when it holds none. -/
theorem Pump.step_conserves {p q : Pump} {room : Bool} {a : PumpAct} {e : PumpEffect}
    (h : p.step room a = some (q, e)) (ha : a ≠ .kill) :
    p.ended = false ∧ q.sent = p.sent ∧ q.handed ++ q.held = p.handed ++ p.held ∧
      (q.ended = true → q.held = []) := by
  cases step_stepped h with
  | kill => exact absurd rfl ha
  | poll hp ho | suspend hp ho => simp [held, ho]
  | takeConnected hp ho hh hev | takeNotice hp ho hh hev => simp [held, hev, ho]
  | takeOutput hp ho hh hev => simp [held, hev, hh, ho]
  | hand hp ho hh => simp [held, hh, ho]
  | finish hp ho hh hev => simp [held, hh, hev, ho]

/-- A step of a pump keeps its output intact unless it drops the pump with a chunk. -/
theorem Pump.Intact.step_iff {p q : Pump} {room : Bool} {a : PumpAct} {e : PumpEffect}
    (h : p.Intact) (hs : p.step room a = some (q, e)) :
    q.Intact ↔ (a = .kill → p.held = []) := by
  by_cases ha : a = .kill
  · subst ha
    cases step_stepped hs with
    | kill hp ho =>
        simp only [Intact, ho] at h ⊢
        simp [h]
  · obtain ⟨ho, hsent, hcons, hend⟩ := step_conserves hs ha
    have hq : q.sent = q.handed ++ q.held := by
      rw [hsent, h, if_neg (by simp [ho]), hcons]
    refine iff_of_true ?_ (fun hk => absurd hk ha)
    unfold Intact
    split
    · rename_i hover
      rw [hq, hend hover]
    · exact hq

/-! ### All pumps of a run -/

/-- Every chunk that an instance has sent is handed on, or on its way. -/
def AllIntact (s : RunState) : Prop := ∀ p ∈ s.pumps, p.Intact

/-- A pump is dropped only when it holds no chunk. -/
def PumpEmpty (s : RunState) : Act → Prop
  | .pump i .kill => ∀ p ∈ s.pumps[i]?, p.held = []
  | _ => True

instance (s : RunState) (a : Act) : Decidable (PumpEmpty s a) := by
  unfold PumpEmpty
  split <;> infer_instance

/-- A change of the pump of the present instance that keeps its output intact. -/
theorem AllIntact.modify {s : RunState} {f : Pump → Pump} (h : AllIntact s)
    (hf : ∀ p, p.Intact → (f p).Intact) : ∀ p ∈ s.pumps.modify 0 f, p.Intact := by
  cases hp : s.pumps with
  | nil => simp
  | cons q rest =>
      rw [AllIntact, hp] at h
      simp only [List.modify_zero_cons, List.mem_cons, forall_eq_or_imp] at h ⊢
      exact ⟨hf q h.1, h.2⟩

theorem AllIntact.mainStep {c : Params} {secs : ℕ} {s t : RunState} (hi : AllIntact s)
    (h : s.mainStep c secs = some t) : AllIntact t := by
  cases RunState.mainStep_stepped h with
  | wires hm =>
      simp only [AllIntact, List.mem_cons, forall_eq_or_imp]
      exact ⟨Pump.intact_new, hi⟩
  | panics hm => exact hi.modify fun p hp => hp
  | abortsPump hm => exact hi.modify fun p hp => hp
  | _ => exact hi

theorem AllIntact.driverStep {s t : RunState} {a : DriverAct} (hi : AllIntact s)
    (h : s.driverStep a = some t) : AllIntact t := by
  cases RunState.driverStep_stepped h with
  | recv => exact hi
  | send hd hp ho =>
      simp only [AllIntact, RunState.modifyPump, hp, List.modify_zero_cons, List.mem_cons,
        forall_eq_or_imp] at hi ⊢
      exact ⟨hi.1.send ho _, hi.2⟩
  | finish => exact hi.modify fun p hp => hp

/-- The step of a pump keeps all output intact exactly if the pump is not dropped with a chunk. -/
theorem AllIntact.pumpStep_iff {s t : RunState} {i : ℕ} {a : PumpAct} (hi : AllIntact s)
    (h : s.pumpStep i a = some t) : AllIntact t ↔ PumpEmpty s (.pump i a) := by
  obtain ⟨p, q, e, hp, hq, rfl⟩ := RunState.pumpStep_some h
  have hstep : q.Intact ↔ (a = .kill → p.held = []) := (hi p (List.mem_of_getElem? hp)).step_iff hq
  have hall : AllIntact { s.applyEffect e with pumps := s.pumps.set i q } ↔ q.Intact := by
    constructor
    · exact fun hall => hall q (List.mem_set (List.getElem?_eq_some_iff.1 hp).1 q)
    · intro hq' r hr
      rcases List.mem_or_eq_of_mem_set hr with hr | rfl
      · exact hi r hr
      · exact hq'
  rw [hall, hstep]
  cases a <;> simp [PumpEmpty, hp]

theorem AllIntact.step_iff {c : Params} {s t : RunState} {a : Act} (hi : AllIntact s)
    (h : step c s a = some t) : AllIntact t ↔ PumpEmpty s a := by
  cases step_stepped h with
  | main h => exact iff_of_true (hi.mainStep h) trivial
  | pump h => exact hi.pumpStep_iff h
  | driver h => exact iff_of_true (hi.driverStep h) trivial
  | wake | cancel | sendInput | forward => exact iff_of_true hi trivial
  | uptime h =>
      rw [RunState.uptimeStep_eq h]
      exact iff_of_true hi trivial
  | bridge h =>
      rw [RunState.bridgeStep_eq h]
      exact iff_of_true hi trivial

/-- **No chunk is lost exactly if every pump that is dropped is empty.** -/
theorem output_intact_iff (c : Params) (as : List Act) (t : RunState)
    (hr : exec (step c) RunState.init as = some t) :
    Along (step c) AllIntact RunState.init as ↔ Meets (step c) PumpEmpty RunState.init as :=
  along_iff_meets (I := fun _ => True) (fun _ _ _ _ _ => trivial)
    (fun _ _ _ _ hi h => hi.step_iff h) trivial (fun _ hp => nomatch hp) hr

/-- A driver sends its last words and returns, before its pump has been polled. -/
def lastWords : List Act :=
  [.main 0, .main 0, .main 0, .main 0, .driver (.send (.output [111, 107])),
    .driver (.finish (.returned (.ok ()))), .main 1, .main 1, .bridge .cancelled, .main 1, .main 1,
    .pump 0 .kill]

/-- **The last words of a driver are dropped.** -/
theorem output_lost : ¬ ∀ (c : Params) (s : RunState),
    Reachable (step c) RunState.init s → AllIntact s := by
  intro h
  have hrun : ∃ s, exec (step steady) RunState.init lastWords = some s ∧
      s.pumps = [{ Pump.new with
        events := [.output [111, 107]], senders := false, aborted := true, ended := true,
        sent := [[111, 107]] }] := ⟨_, rfl, rfl⟩
  obtain ⟨s, hs, hpumps⟩ := hrun
  have hint := h steady s (reachable_of_exec hs)
  rw [AllIntact, hpumps] at hint
  exact absurd (hint _ List.mem_cons_self) (by simp [Pump.Intact, Pump.new])

/-- The pump hands the last words on before it is dropped. -/
def wordsHanded : List Act :=
  [.main 0, .main 0, .main 0, .main 0, .driver (.send (.output [111, 107])), .pump 0 .poll,
    .driver (.finish (.returned (.ok ()))), .pump 0 .take, .pump 0 .hand, .pump 0 .suspend,
    .main 1, .main 1, .bridge .cancelled, .main 1, .main 1, .pump 0 .kill]

theorem output_intact_handed : ∃ t, exec (step steady) RunState.init wordsHanded = some t ∧
    t.upQueue = [[111, 107]] ∧ Along (step steady) AllIntact RunState.init wordsHanded :=
  ⟨_, rfl, rfl, (output_intact_iff steady wordsHanded _ rfl).2 (by decide)⟩

/-! ### A pump that is left alone -/

/-- The pump at position `i` works, and what it hands on is broadcast. -/
def PumpWorks (i : ℕ) : Act → Prop
  | .forward => True
  | .pump j a => j = i ∧ a ≠ .kill
  | _ => False

/-- The run in which the pump at position `i` works leads to a pump as described. -/
def Leads (c : Params) (i : ℕ) (s : RunState) (P : Pump → Prop) : Prop :=
  ∃ t q, Reach (step c) (fun _ a => PumpWorks i a) s t ∧ t.pumps[i]? = some q ∧ P q

theorem Leads.trans {c : Params} {i : ℕ} {s t : RunState} {P : Pump → Prop}
    (h : Reach (step c) (fun _ a => PumpWorks i a) s t) (ht : Leads c i t P) : Leads c i s P := by
  obtain ⟨u, q, hu, hq, hP⟩ := ht
  exact ⟨u, q, h.trans hu, hq, hP⟩

/-- A step of the pump leads on from the pump after it. -/
theorem Leads.pump {c : Params} {i : ℕ} {s : RunState} {P : Pump → Prop} {p q : Pump}
    {a : PumpAct} {e : PumpEffect} (hp : s.pumps[i]? = some p) (ha : a ≠ .kill)
    (hq : p.step (decide (s.upQueue.length < capacity)) a = some (q, e))
    (h : ∀ t : RunState, t.pumps[i]? = some q → Leads c i t P) : Leads c i s P := by
  have hs : step c s (.pump i a) = some { s.applyEffect e with pumps := s.pumps.set i q } := by
    simp only [step, RunState.pumpStep, hp, hq]
  have hlt : i < s.pumps.length := (List.getElem?_eq_some_iff.1 hp).1
  have hwork : PumpWorks i (.pump i a) := ⟨rfl, ha⟩
  exact (h _ (by simp [hlt])).trans (Reach.refl.tail hwork hs)

/-- The queue behind `up_tx` is emptied. -/
theorem forward_all (c : Params) (i : ℕ) (s : RunState) : ∃ t,
    Reach (step c) (fun _ a => PumpWorks i a) s t ∧ t.upQueue = [] ∧ t.pumps = s.pumps := by
  induction hq : s.upQueue generalizing s with
  | nil => exact ⟨s, Reach.refl, hq, rfl⟩
  | cons b rest ih =>
      have hs : step c s .forward = some { s with upQueue := rest, out := s.out ++ [b] } := by
        simp only [step, hq]
      obtain ⟨t, ht, hup, hpumps⟩ := ih { s with upQueue := rest, out := s.out ++ [b] } rfl
      exact ⟨t, (Reach.refl.tail trivial hs).trans ht, hup, hpumps⟩

/-- The chunk in the hands of a pump is handed on. -/
theorem Leads.hand {c : Params} {i : ℕ} {s : RunState} {P : Pump → Prop} {p : Pump}
    (hp : s.pumps[i]? = some p) (hpoll : p.polled = true) (ho : p.ended = false)
    (h : ∀ t : RunState, t.pumps[i]? =
      some { p with hand := none, handed := p.handed ++ p.hand.toList } → Leads c i t P) :
    Leads c i s P := by
  cases hh : p.hand with
  | none =>
      refine h s ?_
      rw [hp, hh, Option.toList_none, List.append_nil, ← hh]
  | some b =>
      obtain ⟨t, ht, hup, hpumps⟩ := forward_all c i s
      refine Leads.trans ht ?_
      rw [hh, Option.toList_some] at h
      refine Leads.pump (a := .hand) (e := .push b) (hpumps ▸ hp) (by simp) ?_ h
      simp [Pump.step, hh, hpoll, ho, hup, capacity]

theorem Leads.mono {c : Params} {i : ℕ} {s : RunState} {P Q : Pump → Prop}
    (h : Leads c i s P) (hPQ : ∀ q, P q → Q q) : Leads c i s Q := by
  obtain ⟨t, q, ht, hq, hP⟩ := h
  exact ⟨t, q, ht, hq, hPQ q hP⟩

/-- A pump that is being polled takes and hands on one event after the other, and ends. -/
theorem polled_hands_all (c : Params) {i : ℕ} {s : RunState} {p : Pump}
    (hp : s.pumps[i]? = some p) (ho : p.ended = false) (hsend : p.senders = false)
    (hpoll : p.polled = true) :
    Leads c i s fun q => q.ended = true ∧ q.handed = p.handed ++ p.held := by
  induction hev : p.events generalizing s p with
  | nil =>
      refine Leads.hand hp hpoll ho fun t ht => ?_
      refine Leads.pump (a := .finish) (e := .silent) (q := { p with
        hand := none, handed := p.handed ++ p.hand.toList, ended := true }) ht (by simp) ?_ ?_
      · simp [Pump.step, hpoll, ho, hev, hsend]
      · exact fun u hu => ⟨u, _, Reach.refl, hu, rfl, by simp [Pump.held, hev]⟩
  | cons ev rest ih =>
      refine Leads.hand hp hpoll ho fun t ht => ?_
      cases ev with
      | output b =>
          refine Leads.pump (a := .take) (e := .silent) (q := { p with
            hand := some b, handed := p.handed ++ p.hand.toList, events := rest })
            ht (by simp) ?_ ?_
          · simp [Pump.step, hpoll, ho, hev]
          · refine fun u hu => (ih hu ho hsend hpoll rfl).mono ?_
            simp [Pump.held, hev]
      | connected =>
          refine Leads.pump (a := .take) (e := .reset) (q := { p with
            hand := none, handed := p.handed ++ p.hand.toList, events := rest }) ht (by simp) ?_ ?_
          · simp [Pump.step, hpoll, ho, hev]
          · refine fun u hu => (ih hu ho hsend hpoll rfl).mono ?_
            simp [Pump.held, hev]
      | notice n =>
          refine Leads.pump (a := .take) (e := .broadcast (noticeLine n)) (q := { p with
            hand := none, handed := p.handed ++ p.hand.toList, events := rest }) ht (by simp) ?_ ?_
          · simp [Pump.step, hpoll, ho, hev]
          · refine fun u hu => (ih hu ho hsend hpoll rfl).mono ?_
            simp [Pump.held, hev]

/-- **A pump that is not dropped can hand on all it holds**, once the driver has ended. -/
theorem pump_hands_all (c : Params) {i : ℕ} {s : RunState} {p : Pump}
    (hp : s.pumps[i]? = some p) (ho : p.ended = false) (hsend : p.senders = false)
    (hleft : p.polled = true ∨ p.aborted = false) :
    Leads c i s fun q => q.ended = true ∧ q.handed = p.handed ++ p.held := by
  cases hpoll : p.polled with
  | true => exact polled_hands_all c hp ho hsend hpoll
  | false =>
      have ha : p.aborted = false := by simpa [hpoll] using hleft
      refine Leads.pump (a := .poll) (e := .silent) (q := { p with polled := true }) hp (by simp)
        ?_ ?_
      · simp [Pump.step, hpoll, ho, ha]
      · exact fun t ht => polled_hands_all c (p := { p with polled := true }) ht ho hsend rfl

end Runner

end TermHub
