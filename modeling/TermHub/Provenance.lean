/-
**Where the bytes that a client sees come from.**

From the socket of an upstream to the SSH channel of a client a chunk passes through the loop of the
driver, the event pump of its instance, the queue behind `up_tx`, the hub and the forward task of
the client.  The tasks run side by side, and the pump of an earlier instance may still be at work
when the next instance is running.

Main definitions:

* `chunksOf` — what one instance has contributed to a list of chunks with their origins;
* `Sourced` — everything in front of and behind the queue has an origin;
* `Whole`, `wholeStep` — a session with its driver and with its hub.

Main results:

* `Sourced.step` — a step keeps track of the origins;
* `client_sees_upstream` — **what a client is handed comes from the upstreams**, in order.
-/

import TermHub.Wired
import TermHub.FanOut

set_option relaxedAutoImplicit false
set_option autoImplicit false

namespace TermHub

namespace Upstream

open Duplex Transition Runner

/-! ### Chunks with their origins -/

/-- What the instance number `k` has contributed; a chunk without a number is a line of the program
itself. -/
def chunksOf (k : ℕ) (tags : List (Option ℕ × Bytes)) : List Bytes :=
  tags.filterMap fun x => if x.1 = some k then some x.2 else none

theorem chunksOf_append (k : ℕ) (tags tags' : List (Option ℕ × Bytes)) :
    chunksOf k (tags ++ tags') = chunksOf k tags ++ chunksOf k tags' := List.filterMap_append

theorem chunksOf_line (k : ℕ) (b : Bytes) : chunksOf k [(none, b)] = [] := by simp [chunksOf]

theorem chunksOf_chunk (k n : ℕ) (b : Bytes) :
    chunksOf k [(some n, b)] = if k = n then [b] else [] := by
  by_cases h : k = n
  · simp [chunksOf, h]
  · simp [chunksOf, h, Ne.symm h]

/-- The chunks that the instances have handed on, by number; the first instance is the last pump. -/
def handedBy (s : RunState) (k : ℕ) : List Bytes :=
  ((s.pumps.map Pump.handed).reverse[k]?).getD []

/-- A position counted from the end. -/
theorem getElem?_reverse_set {α : Type*} {l : List α} {i : ℕ} (hi : i < l.length) (x : α) (k : ℕ) :
    (l.set i x).reverse[k]? = if k = l.length - 1 - i then some x else l.reverse[k]? := by
  by_cases hk : k < l.length
  · rw [List.getElem?_reverse (by rwa [List.length_set]), List.getElem?_reverse hk,
      List.length_set, List.getElem?_set]
    by_cases hki : k = l.length - 1 - i
    · rw [if_pos (by omega), if_pos (by omega), if_pos hki]
    · rw [if_neg (by omega), if_neg hki]
  · rw [List.getElem?_eq_none (by simpa using hk), if_neg (by omega),
      List.getElem?_eq_none (by simpa using hk)]

/-- **Everything in front of and behind the queue has an origin**: it is the line that tells of a
loss, or has been handed on by the pump of an instance, which has been sent it; the chunks of an
instance are in order, and nothing of it is there twice.  `lines` tells whether a loss can be told
of. -/
structure Sourced (lines : Prop) (s : RunState) : Prop where
  quiet : ∀ p ∈ s.pumps, ∀ n, .notice n ∉ p.events
  passes : ∀ p ∈ s.pumps, p.handed <+: p.sent ∧ (p.ended = false → p.sent = p.handed ++ p.held)
  tagged : ∃ tags : List (Option ℕ × Bytes), tags.map Prod.snd = s.out ++ s.upQueue ∧
    (∀ x ∈ tags, x.1 = none → lines ∧ x.2 = RunState.lostLine) ∧ ∀ k, chunksOf k tags = handedBy s k

variable {lines : Prop}

theorem sourced_init : Sourced lines RunState.init where
  quiet _ h := nomatch h
  passes _ h := nomatch h
  tagged := ⟨[], rfl, fun _ h => (List.not_mem_nil h).elim, fun _ => rfl⟩

/-- The driver sends no notice. -/
def Silent : Act → Prop
  | .driver (.send (.notice _)) => False
  | _ => True

/-- A step that only changes which pumps there are, and adds none with chunks. -/
theorem Sourced.keep {s t : RunState} (hi : Sourced lines s)
    (hout : t.out ++ t.upQueue = s.out ++ s.upQueue)
    (hquiet : ∀ p ∈ t.pumps, ∀ n, .notice n ∉ p.events)
    (hpasses : ∀ p ∈ t.pumps, p.handed <+: p.sent ∧ (p.ended = false → p.sent = p.handed ++ p.held))
    (hhanded : ∀ k, handedBy t k = handedBy s k) : Sourced lines t := by
  obtain ⟨tags, hmap, hline, hchunks⟩ := hi.tagged
  exact ⟨hquiet, hpasses, tags, hmap.trans hout.symm, hline, fun k =>
    (hchunks k).trans (hhanded k).symm⟩

/-- A pump that is quiet, and passes on what it has been sent. -/
def Orderly (p : Pump) : Prop :=
  (∀ n, .notice n ∉ p.events) ∧ p.handed <+: p.sent ∧
    (p.ended = false → p.sent = p.handed ++ p.held)

/-- A step that changes the pump of the present instance, but nothing that has been handed on. -/
theorem Sourced.modify {s t : RunState} {f : Pump → Pump} (hi : Sourced lines s)
    (hpumps : t.pumps = s.pumps.modify 0 f) (hout : t.out ++ t.upQueue = s.out ++ s.upQueue)
    (hf : ∀ p rest, s.pumps = p :: rest → Orderly p → Orderly (f p) ∧ (f p).handed = p.handed) :
    Sourced lines t := by
  cases hs : s.pumps with
  | nil =>
      have ht : t.pumps = s.pumps := by rw [hpumps, hs, List.modify_nil]
      refine hi.keep hout (ht ▸ hi.quiet) (ht ▸ hi.passes) fun k => ?_
      rw [handedBy, handedBy, ht]
  | cons p rest =>
      rw [hs, List.modify_zero_cons] at hpumps
      have hall : ∀ q ∈ p :: rest, Orderly q := fun q hq =>
        ⟨hi.quiet q (hs ▸ hq), hi.passes q (hs ▸ hq)⟩
      obtain ⟨horderly, hhanded⟩ := hf p rest hs (hall p List.mem_cons_self)
      have hnew : ∀ q ∈ t.pumps, Orderly q := by
        intro q hq
        rw [hpumps] at hq
        rcases List.mem_cons.1 hq with rfl | hq
        · exact horderly
        · exact hall q (List.mem_cons_of_mem _ hq)
      refine hi.keep hout (fun q hq => (hnew q hq).1) (fun q hq => (hnew q hq).2) fun k => ?_
      rw [handedBy, handedBy, hpumps, hs, List.map_cons, List.map_cons, hhanded]

theorem Sourced.mainStep {c : Params} {secs : ℕ} {s t : RunState} (hi : Sourced lines s)
    (hlines : ∀ reason, s.main = .broadcastLost reason → lines)
    (h : s.mainStep c secs = some t) : Sourced lines t := by
  cases RunState.mainStep_stepped h with
  | wires hm hc =>
      refine hi.keep rfl ?_ ?_ ?_
      · intro p hp
        rcases List.mem_cons.1 hp with rfl | hp
        · exact fun n hn => nomatch hn
        · exact hi.quiet p hp
      · intro p hp
        rcases List.mem_cons.1 hp with rfl | hp
        · exact ⟨List.prefix_rfl, fun _ => rfl⟩
        · exact hi.passes p hp
      · intro k
        simp only [handedBy, List.map_cons, List.reverse_cons]
        rw [List.getElem?_append]
        split
        · rfl
        · rename_i hk
          rw [List.getElem?_eq_none (Nat.not_lt.1 hk)]
          cases k - (s.pumps.map Pump.handed).reverse.length with
          | zero => rfl
          | succ n => rfl
  | panics hm hf =>
      refine hi.modify rfl rfl ?_
      exact fun p rest _ hp => ⟨hp, rfl⟩
  | abortsPump hm =>
      refine hi.modify rfl rfl ?_
      exact fun p rest _ hp => ⟨hp, rfl⟩
  | tells hm =>
      obtain ⟨tags, hmap, hline, hchunks⟩ := hi.tagged
      -- the line goes between what has been broadcast and what is in the queue
      obtain ⟨before, after, rfl, hbefore, hafter⟩ := List.map_eq_append_iff.1 hmap
      refine ⟨hi.quiet, hi.passes, before ++ (none, RunState.lostLine) :: after, ?_, ?_,
        fun k => ?_⟩
      · rw [List.map_append, List.map_cons, hbefore, hafter, ← List.append_cons]
      · intro x hx
        rcases List.mem_append.1 hx with hx | hx
        · exact hline x (List.mem_append_left _ hx)
        · rcases List.mem_cons.1 hx with rfl | hx
          · exact fun _ => ⟨hlines _ hm, rfl⟩
          · exact hline x (List.mem_append_right _ hx)
      · have hk := hchunks k
        rw [chunksOf_append] at hk
        rw [List.append_cons, chunksOf_append, chunksOf_append, chunksOf_line, List.append_nil]
        exact hk
  | starts | stops | creates | shows | joins | cancelsBridge | awaitsBridge | finishes | fails
  | resigns | loses | counts | announces | givesUp | sleeps | interrupted | abortsUptime
  | returns => exact hi.keep rfl hi.quiet hi.passes fun _ => rfl

/-- **A step of a pump**: what it hands on goes to the end of the queue, as a chunk of its own. -/
theorem Sourced.pumpStep {s t : RunState} {i : ℕ} {a : PumpAct} (hi : Sourced lines s)
    (h : s.pumpStep i a = some t) : Sourced lines t := by
  obtain ⟨p, q, e, hp, hq, rfl⟩ := RunState.pumpStep_some h
  obtain ⟨hlt, hget⟩ := List.getElem?_eq_some_iff.1 hp
  have hmem : p ∈ s.pumps := List.mem_of_getElem? hp
  obtain ⟨hstart, hopen⟩ := hi.passes p hmem
  have hquiet := hi.quiet p hmem
  -- the other pumps stay as they are
  have hset : ∀ P : Pump → Prop, (∀ r ∈ s.pumps, P r) → P q → ∀ r ∈ s.pumps.set i q, P r := by
    intro P hall hnew r hr
    rcases List.mem_or_eq_of_mem_set hr with hr | rfl
    · exact hall r hr
    · exact hnew
  have hnow : ∀ k, (((s.pumps.set i q).map Pump.handed).reverse[k]?).getD [] =
      if k = s.pumps.length - 1 - i then q.handed else handedBy s k := by
    intro k
    rw [List.map_set, getElem?_reverse_set (by rwa [List.length_map]), List.length_map]
    split
    · rfl
    · rfl
  have hsame : q.handed = p.handed →
      ∀ k, (((s.pumps.set i q).map Pump.handed).reverse[k]?).getD [] = handedBy s k := by
    intro hhanded k
    rw [List.map_set, hhanded, ← hget, ← List.getElem_map Pump.handed]
    · rw [List.set_getElem_self]
      rfl
    · rwa [List.length_map]
  have hpasses : q.handed <+: q.sent ∧ (q.ended = false → q.sent = q.handed ++ q.held) := by
    by_cases hkill : a = .kill
    · subst hkill
      cases Pump.step_stepped hq with
      | kill => exact ⟨hstart, nofun⟩
    · obtain ⟨ho, hsent, hheld, -⟩ := Pump.step_conserves hq hkill
      have hall : q.sent = q.handed ++ q.held := by rw [hsent, hopen ho, hheld]
      exact ⟨⟨_, hall.symm⟩, fun _ => hall⟩
  have hpassesAll := hset _ hi.passes hpasses
  cases Pump.step_stepped hq with
  | poll | suspend | kill | finish =>
      exact hi.keep rfl (hset _ hi.quiet hquiet) hpassesAll (hsame rfl)
  | takeConnected hpoll ho hh hev | takeOutput hpoll ho hh hev =>
      refine hi.keep rfl (hset _ hi.quiet fun n hn => ?_) hpassesAll (hsame rfl)
      exact hquiet n (hev ▸ List.mem_cons_of_mem _ hn)
  | @takeNotice n rest hpoll ho hh hev => exact absurd (hev ▸ List.mem_cons_self) (hquiet n)
  | @hand b hpoll ho hh hroom =>
      obtain ⟨tags, hmap, hline, hchunks⟩ := hi.tagged
      refine ⟨hset _ hi.quiet hquiet, hpassesAll,
        tags ++ [(some (s.pumps.length - 1 - i), b)], ?_, ?_, fun k => ?_⟩
      · rw [List.map_append, hmap, List.append_assoc]
        rfl
      · intro x hx hnone
        rcases List.mem_append.1 hx with hx | hx
        · exact hline x hx hnone
        · obtain rfl := List.mem_singleton.1 hx
          cases hnone
      · rw [chunksOf_append, hchunks, chunksOf_chunk]
        refine Eq.trans ?_ (hnow k).symm
        split
        · rename_i hk
          rw [hk, handedBy, List.getElem?_reverse (by rw [List.length_map]; omega),
            List.length_map, List.getElem?_map]
          have hpos : s.pumps.length - 1 - (s.pumps.length - 1 - i) = i := by omega
          rw [hpos, hp]
          rfl
        · rw [List.append_nil]

theorem Sourced.driverStep {s t : RunState} {a : DriverAct} (hi : Sourced lines s)
    (hsilent : Silent (.driver a)) (h : s.driverStep a = some t) : Sourced lines t := by
  cases RunState.driverStep_stepped h with
  | recv => exact hi.keep rfl hi.quiet hi.passes fun _ => rfl
  | @send e p rest hd hp ho hroom =>
      refine hi.modify rfl rfl fun q rest' hq horderly =>
        ⟨⟨fun n hn => ?_, ?_, fun hopen => ?_⟩, rfl⟩
      · rcases List.mem_append.1 hn with hn | hn
        · exact horderly.1 n hn
        · obtain rfl := List.mem_singleton.1 hn
          exact hsilent
      · exact horderly.2.1.trans (List.prefix_append _ _)
      · have hsent := horderly.2.2 hopen
        simp [Pump.send, Pump.held, outputs_append, hsent]
  | finish =>
      refine hi.modify rfl rfl ?_
      exact fun p rest _ hp => ⟨hp, rfl⟩

/-- **Every step keeps track of the origins**, as long as the driver sends no notices. -/
theorem Sourced.step {c : Params} {s t : RunState} {a : Act} (hi : Sourced lines s)
    (hlines : ∀ reason, s.main = .broadcastLost reason → lines) (hsilent : Silent a)
    (h : Runner.step c s a = some t) : Sourced lines t := by
  cases step_stepped h with
  | main h => exact hi.mainStep hlines h
  | pump h => exact hi.pumpStep h
  | driver h => exact hi.driverStep hsilent h
  | forward hq =>
      refine hi.keep ?_ hi.quiet hi.passes fun _ => rfl
      rw [hq, List.append_assoc]
      rfl
  | wake | cancel | sendInput => exact hi.keep rfl hi.quiet hi.passes fun _ => rfl
  | uptime h =>
      rw [RunState.uptimeStep_eq h]
      exact hi.keep rfl hi.quiet hi.passes fun _ => rfl
  | bridge h =>
      rw [RunState.bridgeStep_eq h]
      exact hi.keep rfl hi.quiet hi.passes fun _ => rfl

/-! ### The chunks of the present instance -/

variable {D : Device} {cfg : RunnerConfig} {cap : ℕ} [NeZero cap]

/-- No driver sends a notice. -/
theorem Device.not_notice {l : D.Run} (h : Reachable D.machine.step Run.init l) {e : DriverEvent}
    {rest : List (Effect UInt8 DriverEvent)} (ht : l.todo = .send e :: rest) (n : String) :
    e ≠ .notice n := by
  rintro rfl
  rcases Device.relays_of_reachable h with ⟨hs, -⟩ | hidle
  · have hmem : DriverEvent.notice n ∈ l.sent ++ sends l.todo := by simp [ht]
    rw [hs] at hmem
    simp at hmem
  · cases ht.symm.trans hidle.1

/-- What a loop has sent is a beginning of what its driver is to show. -/
theorem Device.outputs_prefix {l : D.Run} (h : Reachable D.machine.step Run.init l) :
    outputs l.sent <+: D.shown l.turns := by
  rcases Device.relays_of_reachable h with ⟨hs, -⟩ | hidle
  · have hall := congrArg outputs hs
    rw [outputs_append, outputs_connected, outputs_map_output] at hall
    exact ⟨_, hall⟩
  · rw [hidle.2.2.2]
    exact List.nil_prefix

/-- **Everything that is broadcast has an origin**, in every session with such a driver. -/
theorem Sourced.of_reachable
    (hlines : ∀ s : Wired D, Reachable (wiredStep cfg) Wired.init s →
      ∀ reason, s.run.main = .broadcastLost reason → lines)
    {s : Wired D} (h : Reachable (wiredStep cfg) Wired.init s) : Sourced lines s.run := by
  have hboth : Reachable (wiredStep cfg) Wired.init s ∧ Sourced lines s.run := by
    refine h.invariant (I := fun s => Reachable (wiredStep cfg) Wired.init s ∧ Sourced lines s.run)
      ⟨Reach.refl, sourced_init⟩ ?_
    rintro s a t ⟨hreach, hi⟩ _ hstep
    refine ⟨hreach.next hstep, ?_⟩
    cases wiredStep_stepped hstep with
    | @task b u hd hu =>
        refine hi.step (a := b) (hlines s hreach) ?_ hu
        cases b with
        | driver x => exact absurd rfl (hd x)
        | _ => trivial
    | @device b l l' rest u hl hd hm hx =>
        cases exchange_exchanged hx with
        | silent => exact hi
        | took hb hu => exact hi.driverStep (a := .recv) trivial hu
        | @sent e _ _ ht hu =>
            refine hi.driverStep (a := .send e) ?_ hu
            have hne := Device.not_notice (wired_loops hreach l (hl ▸ List.mem_cons_self)) ht
            cases e with
            | notice n => exact hne n rfl
            | _ => trivial
    | @returns l rest r u hl hr hu => exact hi.driverStep (a := .finish (.returned r)) trivial hu
  exact hboth.2

/-! ### The hub -/

/-- A session with its driver and with its hub. -/
structure Whole (D : Device) (cap : ℕ) where
  wired : Wired D
  hub : Hub.HubState cap

/-- The state in which the session is started. -/
def Whole.init : Whole D cap := ⟨Wired.init, Hub.HubState.init cap⟩

/-- What can happen to a session and to the clients of its hub. -/
inductive WholeAct (D : Device)
  | session (a : WiredAct D)
  | subscribe (i : ℕ) (isExec : Bool)
  | client (i : ℕ) (a : Hub.ForwarderAct)
  /-- The last sender of the hub is dropped. -/
  | shutdown

/-- What a step of a task of the session does at the hub. -/
def hubAct (s : RunState) : Act → Option Hub.HubAct
  | .forward => some .forward
  | .main _ =>
    match s.main with
    | .broadcastLost _ => some (.system RunState.lostLine)
    | _ => none
  | .pump i a =>
    match s.pumps[i]? with
    | some p =>
      match p.step (decide (s.upQueue.length < capacity)) a with
      | some (_, .push b) => some (.push b)
      | some (_, .broadcast b) => some (.system b)
      | _ => none
    | none => none
  | _ => none

/-- The hub after a step of the session. -/
def hubAfter (s : Whole D cap) : WiredAct D → Option (Hub.HubState cap)
  | .task a =>
    match hubAct s.wired.run a with
    | some b => Hub.hubStep s.hub b
    | none => some s.hub
  | _ => some s.hub

/-- One step: the session, or somebody at the hub. -/
def wholeStep (cfg : RunnerConfig) (s : Whole D cap) : WholeAct D → Option (Whole D cap)
  | .session a =>
    match wiredStep cfg s.wired a, hubAfter s a with
    | some t, some u => some ⟨t, u⟩
    | _, _ => none
  | .subscribe i isExec => (Hub.hubStep s.hub (.subscribe i isExec)).map fun u => ⟨s.wired, u⟩
  | .client i a => (Hub.hubStep s.hub (.client i a)).map fun u => ⟨s.wired, u⟩
  | .shutdown =>
    -- the main loop and the pumps hold senders
    if s.wired.run.main.ended && s.wired.run.pumps.all Pump.ended then
      (Hub.hubStep s.hub .shutdown).map fun u => ⟨s.wired, u⟩
    else none

/-- **The hub has been given what the session has given away**, and its forward tasks follow it. -/
structure Joined (s : Whole D cap) : Prop where
  queue : s.hub.upQueue = s.wired.run.upQueue
  broadcasts : s.hub.broadcasts = s.wired.run.out
  tracks : ∃ live, s.hub.Tracks live

theorem joined_init : Joined (Whole.init : Whole D cap) where
  queue := rfl
  broadcasts := rfl
  tracks := ⟨∅, Hub.HubState.tracks_init⟩

/-- **What a step of a task does at the hub** it does at both ends of the queue. -/
theorem hubAct_spec {c : Params} {r u : RunState} {a : Act} {hub hub' : Hub.HubState cap}
    (hq : hub.upQueue = r.upQueue) (hb : hub.broadcasts = r.out) (h : Runner.step c r a = some u)
    (hhub : (match hubAct r a with
      | some b => Hub.hubStep hub b
      | none => some hub) = some hub') :
    hub'.upQueue = u.upQueue ∧ hub'.broadcasts = u.out := by
  have hnone : hubAct r a = none → hub' = hub := by
    intro hact
    rw [hact] at hhub
    exact (Option.some_inj.1 hhub).symm
  have hsome : ∀ b, hubAct r a = some b → Hub.hubStep hub b = some hub' := by
    intro b hact
    rwa [hact] at hhub
  cases step_stepped h with
  | main h =>
      cases RunState.mainStep_stepped h with
      | tells hm =>
          obtain ⟨-, rfl⟩ := Hub.hubStep_system (hsome (.system RunState.lostLine)
            (by simp [hubAct, hm]))
          exact ⟨hq, congrArg (· ++ [RunState.lostLine]) hb⟩
      | starts hm | stops hm | wires hm | creates hm | panics hm | shows hm | joins hm
      | cancelsBridge hm | awaitsBridge hm | abortsPump hm | finishes hm | fails hm | resigns hm
      | loses hm | counts hm | announces hm | givesUp hm | sleeps hm | interrupted hm
      | abortsUptime hm | returns hm =>
          obtain rfl := hnone (by simp [hubAct, hm])
          exact ⟨hq, hb⟩
  | forward hqueue =>
      obtain ⟨b, rest, hhead, rfl⟩ := Hub.hubStep_forward (hsome .forward rfl)
      rw [hq, hqueue] at hhead
      cases hhead
      exact ⟨rfl, congrArg (· ++ [_]) hb⟩
  | wake | cancel | sendInput =>
      obtain rfl := hnone rfl
      exact ⟨hq, hb⟩
  | uptime h =>
      obtain rfl := hnone rfl
      rw [RunState.uptimeStep_eq h]
      exact ⟨hq, hb⟩
  | bridge h =>
      obtain rfl := hnone rfl
      rw [RunState.bridgeStep_eq h]
      exact ⟨hq, hb⟩
  | driver h =>
      obtain rfl := hnone rfl
      rw [RunState.driverStep_eq h]
      exact ⟨hq, hb⟩
  | pump h =>
      obtain ⟨p, q, e, hp, hstep, rfl⟩ := RunState.pumpStep_some h
      cases e with
      | silent | reset =>
          obtain rfl := hnone (by simp only [hubAct, hp, hstep])
          exact ⟨hq, hb⟩
      | push b =>
          obtain ⟨-, -, rfl⟩ :=
            Hub.hubStep_push (hsome (.push b) (by simp only [hubAct, hp, hstep]))
          exact ⟨congrArg (· ++ [b]) hq, hb⟩
      | broadcast b =>
          obtain ⟨-, rfl⟩ := Hub.hubStep_system (hsome (.system b)
            (by simp only [hubAct, hp, hstep]))
          exact ⟨hq, congrArg (· ++ [b]) hb⟩

/-- What somebody does at the hub changes neither the queue nor what has been broadcast. -/
theorem hubStep_frame {hub hub' : Hub.HubState cap} {a : Hub.HubAct}
    (h : Hub.hubStep hub a = some hub')
    (ha : (∃ i isExec, a = .subscribe i isExec) ∨ (∃ i b, a = .client i b) ∨ a = .shutdown) :
    hub'.upQueue = hub.upQueue ∧ hub'.broadcasts = hub.broadcasts := by
  rcases ha with ⟨i, isExec, rfl⟩ | ⟨i, b, rfl⟩ | rfl
  · obtain ⟨-, rfl⟩ := Hub.hubStep_subscribe h
    exact ⟨rfl, rfl⟩
  · obtain ⟨f, g, -, -, -, rfl⟩ := Hub.hubStep_client h
    exact ⟨rfl, rfl⟩
  · obtain ⟨-, -, rfl⟩ := Hub.hubStep_shutdown h
    exact ⟨rfl, rfl⟩

/-- A step at the hub alone. -/
theorem Joined.outside {s : Whole D cap} {hub : Hub.HubState cap} {a : Hub.HubAct} (hi : Joined s)
    (h : Hub.hubStep s.hub a = some hub)
    (ha : (∃ i isExec, a = .subscribe i isExec) ∨ (∃ i b, a = .client i b) ∨ a = .shutdown) :
    Joined ⟨s.wired, hub⟩ := by
  obtain ⟨live, hlive⟩ := hi.tracks
  obtain ⟨hq, hb⟩ := hubStep_frame h ha
  exact ⟨hq.trans hi.queue, hb.trans hi.broadcasts, Hub.hubStep_tracks hlive h⟩

/-- A step that leaves the queue and what has been broadcast as they are. -/
theorem Joined.quiet {s : Whole D cap} {u : Wired D} (hi : Joined s)
    (hq : u.run.upQueue = s.wired.run.upQueue) (ho : u.run.out = s.wired.run.out) :
    Joined ⟨u, s.hub⟩ := ⟨hi.queue.trans hq.symm, hi.broadcasts.trans ho.symm, hi.tracks⟩

theorem Joined.session {s : Whole D cap} {u : Wired D} {hub : Hub.HubState cap} {a : WiredAct D}
    (hi : Joined s) (h : wiredStep cfg s.wired a = some u) (hhub : hubAfter s a = some hub) :
    Joined ⟨u, hub⟩ := by
  cases wiredStep_stepped h with
  | @task b r hd hu =>
      obtain ⟨live, hlive⟩ := hi.tracks
      obtain ⟨hq, hb⟩ := hubAct_spec hi.queue hi.broadcasts hu hhub
      refine ⟨hq, hb, ?_⟩
      simp only [hubAfter] at hhub
      split at hhub
      · exact Hub.hubStep_tracks hlive hhub
      · rw [← Option.some_inj.1 hhub]
        exact ⟨live, hlive⟩
  | device hl hd hm hx =>
      obtain rfl := Option.some_inj.1 hhub
      cases exchange_exchanged hx with
      | silent => exact hi.quiet rfl rfl
      | took hb hu =>
          rw [RunState.driverStep_eq hu]
          exact hi.quiet rfl rfl
      | sent ht hu =>
          rw [RunState.driverStep_eq hu]
          exact hi.quiet rfl rfl
  | returns hl hr hu =>
      obtain rfl := Option.some_inj.1 hhub
      rw [RunState.driverStep_eq hu]
      exact hi.quiet rfl rfl

theorem Joined.step {s t : Whole D cap} {a : WholeAct D} (hi : Joined s)
    (h : wholeStep cfg s a = some t) : Joined t := by
  cases a with
  | session b =>
      simp only [wholeStep] at h
      split at h
      · rename_i u hub hu hhub
        obtain rfl := Option.some_inj.1 h
        exact hi.session hu hhub
      · cases h
  | subscribe i isExec =>
      obtain ⟨hub, hhub, rfl⟩ := Option.map_eq_some_iff.1 h
      exact hi.outside hhub (.inl ⟨i, isExec, rfl⟩)
  | client i b =>
      obtain ⟨hub, hhub, rfl⟩ := Option.map_eq_some_iff.1 h
      exact hi.outside hhub (.inr (.inl ⟨i, b, rfl⟩))
  | shutdown =>
      obtain ⟨-, hmap⟩ := Option.ite_none_right_eq_some.1 h
      obtain ⟨hub, hhub, rfl⟩ := Option.map_eq_some_iff.1 hmap
      exact hi.outside hhub (.inr (.inr rfl))

/-- What the session's part reaches, a session with its driver reaches. -/
theorem whole_wired {s : Whole D cap} (h : Reachable (wholeStep cfg) Whole.init s) :
    Reachable (wiredStep cfg) Wired.init s.wired := by
  refine h.part (f := Whole.wired) ?_
  intro s a t _ hstep
  cases a with
  | session b =>
      simp only [wholeStep] at hstep
      split at hstep
      · rename_i u hub hu hhub
        obtain rfl := Option.some_inj.1 hstep
        exact .inr ⟨b, trivial, hu⟩
      · cases hstep
  | subscribe i isExec =>
      obtain ⟨hub, -, rfl⟩ := Option.map_eq_some_iff.1 hstep
      exact .inl rfl
  | client i b =>
      obtain ⟨hub, -, rfl⟩ := Option.map_eq_some_iff.1 hstep
      exact .inl rfl
  | shutdown =>
      obtain ⟨-, hmap⟩ := Option.ite_none_right_eq_some.1 hstep
      obtain ⟨hub, -, rfl⟩ := Option.map_eq_some_iff.1 hmap
      exact .inl rfl

/-! ### What a client sees -/

/-- What the instance number `k` has been given to show. -/
def shownBy (s : Wired D) (k : ℕ) : List Bytes :=
  ((s.loops.map fun l => D.shown l.turns).reverse[k]?).getD []

/-- The pump of an instance hands on a beginning of what the instance is to show. -/
theorem handedBy_prefix {s : Wired D} (h : Reachable (wiredStep cfg) Wired.init s) (k : ℕ) :
    handedBy s.run k <+: shownBy s k := by
  have hpasses := (Sourced.of_reachable (fun _ _ _ _ => trivial) h).passes
  have hsent := (Linked.of_reachable h).sent
  have hlen : s.run.pumps.length = s.loops.length := by
    simpa using congrArg List.length hsent
  unfold handedBy shownBy
  by_cases hk : k < s.loops.length
  · have hkp : k < s.run.pumps.length := by omega
    rw [List.getElem?_reverse (by rwa [List.length_map]),
      List.getElem?_reverse (by rwa [List.length_map]), List.length_map, List.length_map, hlen]
    obtain ⟨n, hn, hnl⟩ : ∃ n, n = s.loops.length - 1 - k ∧ n < s.loops.length :=
      ⟨_, rfl, by omega⟩
    have hnp : n < s.run.pumps.length := by omega
    rw [← hn, List.getElem?_eq_getElem (by rwa [List.length_map]),
      List.getElem?_eq_getElem (by rwa [List.length_map]), List.getElem_map, List.getElem_map,
      Option.getD_some, Option.getD_some]
    have hpair : s.run.pumps[n].sent = outputs s.loops[n].sent := by
      have hat := congrArg (fun l => l[n]?) hsent
      simpa [hnp, hnl] using hat
    refine ((hpasses _ (List.getElem_mem hnp)).1).trans ?_
    rw [hpair]
    exact Device.outputs_prefix (wired_loops h _ (List.getElem_mem hnl))
  · have hkp : ¬ k < s.run.pumps.length := by omega
    rw [List.getElem?_eq_none (by simpa using hkp)]
    exact List.nil_prefix

theorem Joined.of_reachable {s : Whole D cap} (h : Reachable (wholeStep cfg) Whole.init s) :
    Joined s := h.invariant joined_init fun _ _ _ hi _ hs => hi.step hs

/-- **What has been broadcast comes from the upstreams**: it is an interleaving of what the pumps of
the instances have handed on, and of lines that tell of a loss, if there can be any. -/
theorem broadcast_tagged
    (hlines : ∀ s : Wired D, Reachable (wiredStep cfg) Wired.init s →
      ∀ reason, s.run.main = .broadcastLost reason → lines)
    {s : Whole D cap} (h : Reachable (wholeStep cfg) Whole.init s) :
    ∃ tags : List (Option ℕ × Bytes), tags.map Prod.snd = s.hub.broadcasts ∧
      (∀ x ∈ tags, x.1 = none → lines ∧ x.2 = RunState.lostLine) ∧
      ∀ k, chunksOf k tags <+: shownBy s.wired k := by
  have hwired := whole_wired h
  obtain ⟨tags, hmap, hline, hchunks⟩ := (Sourced.of_reachable hlines hwired).tagged
  -- what is still in the queue comes last
  obtain ⟨before, after, rfl, hbefore, -⟩ := List.map_eq_append_iff.1 hmap
  refine ⟨before, hbefore.trans (Joined.of_reachable h).broadcasts.symm,
    fun x hx => hline x (List.mem_append_left _ hx), fun k => ?_⟩
  have hk := hchunks k
  rw [chunksOf_append] at hk
  exact (List.prefix_append _ _).trans (hk ▸ handedBy_prefix hwired k)

/-- A client is handed a piece of what has been broadcast. -/
theorem Joined.delivers {s : Whole D cap} (hi : Joined s) {i : ℕ} {f : Hub.Forwarder}
    (hf : s.hub.forwarders i = some f) (hok : f.failed = false) :
    ∃ seen pending, s.hub.broadcasts.drop f.start = seen ++ pending ∧
      Broadcast.Marked cap (s.hub.broadcasts.drop f.start).length seen f.handed := by
  obtain ⟨live, hlive⟩ := hi.tracks
  exact hlive.delivers hf hok

/-- **What a client sees comes from the upstreams**, with any driver whose loop is that of a
`Device` and in every run of the tasks: what has been broadcast is an interleaving of the line that
tells of a loss and, for each instance, a beginning of what the instance has been given to show; and
what a client has been handed is a piece of it without gaps, with a mark wherever the client has
lagged by more than the ring. -/
theorem client_sees_upstream {s : Whole D cap} (h : Reachable (wholeStep cfg) Whole.init s) {i : ℕ}
    {f : Hub.Forwarder} (hf : s.hub.forwarders i = some f) (hok : f.failed = false) :
    ∃ tags : List (Option ℕ × Bytes), tags.map Prod.snd = s.hub.broadcasts ∧
      (∀ x ∈ tags, x.1 = none → x.2 = RunState.lostLine) ∧
      (∀ k, chunksOf k tags <+: shownBy s.wired k) ∧
      ∃ seen pending, s.hub.broadcasts.drop f.start = seen ++ pending ∧
        Broadcast.Marked cap (s.hub.broadcasts.drop f.start).length seen f.handed := by
  obtain ⟨tags, hmap, hline, hchunks⟩ :=
    broadcast_tagged (fun _ _ _ _ => trivial) h
  exact ⟨tags, hmap, fun x hx hnone => (hline x hx hnone).2, hchunks,
    (Joined.of_reachable h).delivers hf hok⟩

/-- A byte comes from a socket and goes to a client. -/
def oneByte : List (WholeAct rawTcpDevice) :=
  [.session (.task (.main 0)), .session (.task (.main 0)), .session (.task (.main 0)),
    .session (.task (.main 0)), .subscribe 0 false, .session (.device (.opened (.ok ()))),
    .session (.device .send), .session (.device (.turn (.read (.ok [104])))),
    .session (.device .send), .session (.task (.pump 0 .poll)), .session (.task (.pump 0 .take)),
    .session (.task (.pump 0 .take)), .session (.task (.pump 0 .hand)),
    .session (.task .forward), .client 0 .recv, .client 0 .written]

theorem client_sees_oneByte : ∃ (s : Whole rawTcpDevice 4) (f : Hub.Forwarder),
    exec (wholeStep ⟨true, none⟩) Whole.init oneByte = some s ∧ s.hub.forwarders 0 = some f ∧
    f.handed = [.value [104]] ∧
    ∃ tags : List (Option ℕ × Bytes), tags.map Prod.snd = s.hub.broadcasts ∧
      (∀ k, chunksOf k tags <+: shownBy s.wired k) ∧
      ∃ seen pending, s.hub.broadcasts.drop f.start = seen ++ pending ∧
        Broadcast.Marked 4 (s.hub.broadcasts.drop f.start).length seen f.handed := by
  have hrun : ∃ (s : Whole rawTcpDevice 4) (f : Hub.Forwarder),
      exec (wholeStep ⟨true, none⟩) Whole.init oneByte = some s ∧ s.hub.forwarders 0 = some f ∧
      f.handed = [.value [104]] ∧ f.failed = false := ⟨_, _, rfl, rfl, rfl, rfl⟩
  obtain ⟨s, f, hs, hf, hhanded, hok⟩ := hrun
  obtain ⟨tags, hmap, -, hchunks, hseen⟩ := client_sees_upstream (reachable_of_exec hs) hf hok
  exact ⟨s, f, hs, hf, hhanded, tags, hmap, hchunks, hseen⟩

end Upstream

end TermHub
