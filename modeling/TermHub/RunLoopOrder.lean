/-
**The order of what is broadcast.**

The chunks of a driver go through the channel of its pump, `up_tx` and the task of `make_forward`
before they are broadcast.  The lines of the system, that a driver has been lost and the notices of
the driver, are broadcast at once, and so they can overtake chunks that were sent before them.

An observer numbers the events of every driver instance in the order in which it sends them, and
follows the chunks and notices to the broadcast channel.

Main definitions:

* `Mark`, `Mark.Before` — what is broadcast, and which of two of them has to come first;
* `Log`, `Log.note` — what the observer writes down;
* `Marked` — the log tells where everything that is broadcast comes from;
* `Orderly` — a line is broadcast only when nothing that was sent before it is on its way.

Main results:

* `Marked.step` — the log stays true;
* `output_order_iff` — **the broadcast stream is in order exactly in the runs that are orderly**.
-/

import Mathlib.Data.List.Forall2
import TermHub.RunLoop

set_option relaxedAutoImplicit false
set_option autoImplicit false

namespace TermHub

namespace Runner

open Transition

/-! ### What is broadcast -/

/-- Where something that is broadcast comes from: event `k` of a driver instance, or the loss of an
instance.  The instances are numbered from 0 on, and so are the events of each. -/
inductive Mark
  | chunk (inst k : ℕ)
  | notice (inst k : ℕ)
  | lost (inst : ℕ)
  deriving DecidableEq, Repr

/-- The first one has to come before the second one: a chunk before every line that comes after it,
and a line before every chunk of the instances after it. -/
def Mark.Before : Mark → Mark → Prop
  | chunk i k, notice j l => i < j ∨ i = j ∧ k < l
  | chunk i _, lost j => i ≤ j
  | notice i _, chunk j _ => i < j
  | lost i, chunk j _ => i < j
  | _, _ => False

/-- Nothing comes behind something that it has to come before. -/
def InOrder (marks : List Mark) : Prop := marks.Pairwise fun m m' => ¬ m'.Before m

/-- What the observer writes down: the events that each instance has sent, how many of them its pump
is through with, and the marks of what waits behind `up_tx` and of what has been broadcast. -/
structure Log where
  sent : ℕ → List DriverEvent
  passed : ℕ → ℕ
  queue : List Mark
  stream : List Mark

def Log.init : Log := ⟨fun _ => [], fun _ => 0, [], []⟩

/-- The number of the instance whose pump is at position `i`. -/
def RunState.instanceAt (s : RunState) (i : ℕ) : ℕ := s.pumps.length - 1 - i

/-- The loop is about to announce a loss. -/
def Main.tellsLoss : Main → Bool
  | broadcastLost _ => true
  | _ => false

namespace Log

/-- The pump of the instance is through with an event. -/
def pass (g : Log) (inst : ℕ) : Log :=
  { g with passed := Function.update g.passed inst (g.passed inst + 1) }

/-- The pump of the instance takes an event. -/
def take (g : Log) (inst : ℕ) : DriverEvent → Log
  | .connected => g.pass inst
  | .notice _ => { g.pass inst with stream := g.stream ++ [.notice inst (g.passed inst)] }
  | .output _ => g

/-- What the observer writes down about an action in the state before it. -/
def note (g : Log) (s : RunState) : Act → Log
  | .main _ =>
    if s.main.tellsLoss then { g with stream := g.stream ++ [.lost (s.instanceAt 0)] } else g
  | .forward => { g with queue := g.queue.tail, stream := g.stream ++ g.queue.head?.toList }
  | .driver (.send e) =>
    { g with
      sent := Function.update g.sent (s.instanceAt 0) (g.sent (s.instanceAt 0) ++ [e]) }
  | .pump i .take =>
    match s.pumps[i]?.bind fun p => p.events.head? with
    | some e => g.take (s.instanceAt i) e
    | none => g
  | .pump i .hand =>
    { g.pass (s.instanceAt i) with
      queue := g.queue ++ [.chunk (s.instanceAt i) (g.passed (s.instanceAt i))] }
  | _ => g

end Log

/-- The run loop with the observer. -/
def logged (c : Params) : Log × RunState → Act → Option (Log × RunState) :=
  observed (step c) fun g s a _ => g.note s a

/-! ### The log is true -/

/-- What the pump is not through with. -/
def Pump.toPass (p : Pump) : List DriverEvent := p.hand.toList.map .output ++ p.events

/-- The pump is through with the events that the log says. -/
def Log.Follows (g : Log) (inst : ℕ) (p : Pump) : Prop :=
  ∃ done, g.sent inst = done ++ p.toPass ∧ done.length = g.passed inst

/-- The bytes are those of the event that the mark stands for. -/
def Mark.Names (sent : ℕ → List DriverEvent) : Mark → Bytes → Prop
  | chunk i k, b => (sent i)[k]? = some (.output b)
  | notice i k, b => ∃ n, (sent i)[k]? = some (.notice n) ∧ b = noticeLine n
  | lost _, b => b = RunState.lostLine

/-- The mark is that of an event that the pump is through with, or of one of the first `n`
instances. -/
def Mark.Below (passed : ℕ → ℕ) (n : ℕ) : Mark → Prop
  | chunk i k => k < passed i
  | notice i k => k < passed i
  | lost i => i < n

def Mark.isChunk : Mark → Bool
  | chunk _ _ => true
  | _ => false

/-- The instance that the mark belongs to. -/
def Mark.inst : Mark → ℕ
  | chunk i _ => i
  | notice i _ => i
  | lost i => i

/-- The loop is between two instances: every instance so far is known to be lost. -/
def Main.toldLoss : Main → Bool
  | start => true
  | nextDelay _ => true
  | publishReconnecting _ _ _ => true
  | checkMax _ _ _ => true
  | sleep _ => true
  | loopTop => true
  | _ => false

/-- The loop is at an instance: its channels have been made, and its loss has not been announced. -/
def Main.inInstance : Main → Bool
  | callFactory => true
  | publishRunning => true
  | joinDriver => true
  | cancelBridge _ => true
  | awaitBridge _ => true
  | abortPump _ => true
  | matchResult _ => true
  | broadcastLost _ => true
  | _ => false

/-- **The log is true**: what is broadcast, and what waits behind `up_tx`, comes from the events
that the marks stand for, and the pumps are through with as many events as the log says. -/
structure Marked (x : Log × RunState) : Prop where
  stream : List.Forall₂ (Mark.Names x.1.sent) x.1.stream x.2.out
  queue : List.Forall₂ (Mark.Names x.1.sent) x.1.queue x.2.upQueue
  chunks : ∀ m ∈ x.1.queue, m.isChunk = true
  pumps : ∀ i p, x.2.pumps[i]? = some p → x.1.Follows (x.2.instanceAt i) p
  fresh : ∀ j, x.2.pumps.length ≤ j → x.1.sent j = [] ∧ x.1.passed j = 0
  below : ∀ m ∈ x.1.stream ++ x.1.queue, m.Below x.1.passed x.2.pumps.length
  older : ∀ j, j + 1 < x.2.pumps.length → .lost j ∈ x.1.stream
  told : x.2.main.toldLoss = true → ∀ j < x.2.pumps.length, .lost j ∈ x.1.stream
  wired : x.2.main.inInstance = true → 0 < x.2.pumps.length

theorem marked_init : Marked (Log.init, RunState.init) := by
  constructor <;> simp [Log.init, RunState.init, Main.inInstance]

/-- A step that neither moves an event nor announces anything. -/
theorem Marked.congr {g : Log} {s t : RunState} (h : Marked (g, s)) (hout : t.out = s.out)
    (hup : t.upQueue = s.upQueue) (hlen : t.pumps.length = s.pumps.length)
    (hpumps : ∀ (i : ℕ) (q : Pump), t.pumps[i]? = some q →
      ∃ p : Pump, s.pumps[i]? = some p ∧ q.toPass = p.toPass)
    (htold : t.main.toldLoss = true → s.main.toldLoss = true)
    (hin : t.main.inInstance = true → s.main.inInstance = true) : Marked (g, t) where
  stream := hout ▸ h.stream
  queue := hup ▸ h.queue
  chunks := h.chunks
  pumps i q hq := by
    obtain ⟨p, hp, hpass⟩ := hpumps i q hq
    have hinst : t.instanceAt i = s.instanceAt i := by rw [RunState.instanceAt, hlen]; rfl
    obtain ⟨done, hdone, hlen⟩ := h.pumps i p hp
    dsimp only
    rw [hinst]
    exact ⟨done, by rw [hpass, hdone], hlen⟩
  fresh j hj := h.fresh j (hlen ▸ hj)
  below m hm := by
    dsimp only
    rw [hlen]
    exact h.below m hm
  older j hj := h.older j (hlen ▸ hj)
  told hm j hj := h.told (htold hm) j (hlen ▸ hj)
  wired hm := by
    dsimp only
    rw [hlen]
    exact h.wired (hin hm)

/-- The next event that a pump is not through with. -/
theorem Log.Follows.event {g : Log} {inst : ℕ} {p : Pump} {e : DriverEvent}
    {rest : List DriverEvent} (h : g.Follows inst p) (he : p.toPass = e :: rest) :
    (g.sent inst)[g.passed inst]? = some e ∧
      ∃ done, g.sent inst = done ++ rest ∧ done.length = g.passed inst + 1 := by
  obtain ⟨done, hdone, hlen⟩ := h
  rw [he] at hdone
  constructor
  · rw [hdone, ← hlen, List.getElem?_append_right (Nat.le_refl _), Nat.sub_self]
    rfl
  · refine ⟨done ++ [e], ?_, by rw [List.length_append, hlen]; rfl⟩
    rw [hdone, List.append_assoc]
    rfl

/-- The numbers of the instances differ. -/
theorem RunState.instanceAt_ne {s : RunState} {i j : ℕ} (hi : i < s.pumps.length)
    (hj : j < s.pumps.length) (hne : i ≠ j) : s.instanceAt i ≠ s.instanceAt j := by
  unfold instanceAt
  omega

/-- A mark below a number of events is below a larger one. -/
theorem Mark.Below.pass {g : Log} {n inst : ℕ} {m : Mark} (h : m.Below g.passed n) :
    m.Below (g.pass inst).passed n := by
  have hle : ∀ j, g.passed j ≤ (g.pass inst).passed j := by
    intro j
    simp only [Log.pass, Function.update_apply]
    split
    · rename_i hj
      rw [hj]
      omega
    · exact Nat.le_refl _
  cases m with
  | chunk j k => exact Nat.lt_of_lt_of_le h (hle j)
  | notice j k => exact Nat.lt_of_lt_of_le h (hle j)
  | lost j => exact h

/-- A pump gets through with an event. -/
theorem Marked.passes {g : Log} {s t : RunState} {i : ℕ} {p q : Pump} {e : DriverEvent}
    {stream queue : List Mark} (h : Marked (g, s)) (hp : s.pumps[i]? = some p)
    (he : p.toPass = e :: q.toPass) (hpumps : t.pumps = s.pumps.set i q) (hmain : t.main = s.main)
    (hstream : List.Forall₂ (Mark.Names g.sent) stream t.out)
    (hqueue : List.Forall₂ (Mark.Names g.sent) queue t.upQueue)
    (hchunks : ∀ m ∈ queue, m.isChunk = true)
    (hmarks : ∀ m ∈ stream ++ queue, m ∈ g.stream ++ g.queue ∨
      m.Below (g.pass (s.instanceAt i)).passed s.pumps.length)
    (hlost : ∀ j, .lost j ∈ g.stream → .lost j ∈ stream) :
    Marked ({ g.pass (s.instanceAt i) with stream := stream, queue := queue }, t) where
  stream := hstream
  queue := hqueue
  chunks := hchunks
  pumps j q' hq' := by
    dsimp only at hq' ⊢
    have hlen : t.instanceAt j = s.instanceAt j := by simp [RunState.instanceAt, hpumps]
    obtain ⟨hi, -⟩ := List.getElem?_eq_some_iff.1 hp
    rw [hpumps] at hq'
    rw [hlen]
    by_cases hij : i = j
    · subst hij
      rw [List.getElem?_set_self hi, Option.some_inj] at hq'
      subst hq'
      obtain ⟨-, done, hdone, hlen'⟩ := (h.pumps i p hp).event he
      refine ⟨done, hdone, ?_⟩
      simp only [Log.pass, Function.update_self]
      exact hlen'
    · rw [List.getElem?_set_ne hij] at hq'
      obtain ⟨hj, -⟩ := List.getElem?_eq_some_iff.1 hq'
      obtain ⟨done, hdone, hlen'⟩ := h.pumps j q' hq'
      refine ⟨done, hdone, ?_⟩
      simp only [Log.pass, Function.update_of_ne (RunState.instanceAt_ne hj hi (Ne.symm hij))]
      exact hlen'
  fresh j hj := by
    dsimp only at hj ⊢
    rw [hpumps, List.length_set] at hj
    obtain ⟨hi, -⟩ := List.getElem?_eq_some_iff.1 hp
    have hne : j ≠ s.instanceAt i := by
      unfold RunState.instanceAt
      omega
    simp only [Log.pass, Function.update_of_ne hne]
    exact h.fresh j hj
  below m hm := by
    dsimp only
    rw [hpumps, List.length_set]
    rcases hmarks m hm with hold | hnew
    · exact (h.below m hold).pass
    · exact hnew
  older j hj := by
    dsimp only at hj
    rw [hpumps, List.length_set] at hj
    exact hlost j (h.older j hj)
  told hm j hj := by
    dsimp only at hm hj
    rw [hmain] at hm
    rw [hpumps, List.length_set] at hj
    exact hlost j (h.told hm j hj)
  wired hm := by
    dsimp only at hm ⊢
    rw [hmain] at hm
    rw [hpumps, List.length_set]
    exact h.wired hm

/-- A change of the present pump that moves no event. -/
theorem toPass_modify {pumps : List Pump} {f : Pump → Pump} (hf : ∀ p, (f p).toPass = p.toPass)
    (i : ℕ) (q : Pump) (hq : (pumps.modify 0 f)[i]? = some q) :
    ∃ p : Pump, pumps[i]? = some p ∧ q.toPass = p.toPass := by
  rw [List.getElem?_modify, Option.map_eq_map, Option.map_eq_some_iff] at hq
  obtain ⟨p, hp, rfl⟩ := hq
  refine ⟨p, hp, ?_⟩
  split
  · exact hf p
  · rfl

/-- The loss of the present instance is announced. -/
theorem Marked.tells {g : Log} {s t : RunState} (h : Marked (g, s)) (hpos : 0 < s.pumps.length)
    (hout : t.out = s.out ++ [RunState.lostLine]) (hup : t.upQueue = s.upQueue)
    (hpumps : t.pumps = s.pumps) (hin : t.main.inInstance = false) :
    Marked ({ g with stream := g.stream ++ [.lost (s.instanceAt 0)] }, t) := by
  have hinst : ∀ i, t.instanceAt i = s.instanceAt i := fun i => by
    rw [RunState.instanceAt, hpumps]
    rfl
  have hlost : ∀ j < s.pumps.length, .lost j ∈ g.stream ++ [.lost (s.instanceAt 0)] := by
    -- the losses of the instances before the present one have been announced before
    intro j hj
    by_cases hlast : j + 1 < s.pumps.length
    · exact List.mem_append_left _ (h.older j hlast)
    · have hj0 : j = s.instanceAt 0 := by
        unfold RunState.instanceAt
        omega
      rw [hj0]
      exact List.mem_append_right _ List.mem_cons_self
  constructor <;> dsimp only
  · rw [hout]
    exact List.rel_append h.stream (.cons rfl .nil)
  · rw [hup]
    exact h.queue
  · exact h.chunks
  · intro i p hp
    rw [hpumps] at hp
    rw [hinst]
    exact h.pumps i p hp
  · rw [hpumps]
    exact h.fresh
  · intro m hm
    rw [hpumps]
    simp only [List.append_assoc, List.mem_append, List.mem_singleton] at hm
    rcases hm with hm | rfl | hm
    · exact h.below m (List.mem_append_left _ hm)
    · simp only [Mark.Below, RunState.instanceAt]
      omega
    · exact h.below m (List.mem_append_right _ hm)
  · rw [hpumps]
    exact fun j hj => List.mem_append_left _ (h.older j hj)
  · rw [hpumps]
    exact fun _ => hlost
  · intro hm
    rw [hin] at hm
    cases hm

/-- The channels of a new instance are made. -/
theorem Marked.wires {g : Log} {s t : RunState} (h : Marked (g, s))
    (htold : ∀ j < s.pumps.length, .lost j ∈ g.stream) (hout : t.out = s.out)
    (hup : t.upQueue = s.upQueue) (hpumps : t.pumps = Pump.new :: s.pumps)
    (hmain : t.main.toldLoss = false) : Marked (g, t) := by
  have hlen : t.pumps.length = s.pumps.length + 1 := by rw [hpumps, List.length_cons]
  constructor <;> dsimp only
  · rw [hout]
    exact h.stream
  · rw [hup]
    exact h.queue
  · exact h.chunks
  · intro i p hp
    rw [hpumps] at hp
    cases i with
    | zero =>
        obtain rfl := Option.some_inj.1 hp
        obtain ⟨hsent, hpassed⟩ := h.fresh s.pumps.length (Nat.le_refl _)
        have hinst : t.instanceAt 0 = s.pumps.length := by
          rw [RunState.instanceAt, hpumps]
          rfl
        rw [hinst]
        exact ⟨[], hsent, hpassed.symm⟩
    | succ i =>
        have hinst : t.instanceAt (i + 1) = s.instanceAt i := by
          simp only [RunState.instanceAt, hlen]
          omega
        rw [hinst]
        exact h.pumps i p hp
  · intro j hj
    rw [hlen] at hj
    exact h.fresh j (Nat.le_of_succ_le hj)
  · intro m hm
    rw [hlen]
    have hbelow := h.below m hm
    cases m with
    | chunk j k => exact hbelow
    | notice j k => exact hbelow
    | lost j => exact Nat.lt_succ_of_lt hbelow
  · intro j hj
    rw [hlen] at hj
    exact htold j (Nat.lt_of_succ_lt_succ hj)
  · intro hm
    rw [hmain] at hm
    cases hm
  · intro _
    rw [hlen]
    exact Nat.succ_pos _

theorem Marked.mainStep {c : Params} {secs : ℕ} {g : Log} {s t : RunState} (h : Marked (g, s))
    (hs : s.mainStep c secs = some t) : Marked (g.note s (.main secs), t) := by
  have hquiet : s.main.tellsLoss = false → g.note s (.main secs) = g := fun hm =>
    if_neg (Bool.eq_false_iff.1 hm)
  cases RunState.mainStep_stepped hs with
  | tells hm =>
      have hnote : g.note s (.main secs) =
          { g with stream := g.stream ++ [.lost (s.instanceAt 0)] } :=
        if_pos (by simp [hm, Main.tellsLoss])
      rw [hnote]
      exact h.tells (h.wired (by simp [hm, Main.inInstance])) rfl rfl rfl rfl
  | wires hm =>
      rw [hquiet (by simp [hm, Main.tellsLoss])]
      exact h.wires (h.told (by simp [hm, Main.toldLoss])) rfl rfl rfl rfl
  | panics hm | abortsPump hm =>
      rw [hquiet (by simp [hm, Main.tellsLoss])]
      exact h.congr rfl rfl (List.length_modify _ _ _) (toPass_modify fun _ => rfl)
        (by simp [Main.toldLoss]) (by simp [hm, Main.inInstance])
  | starts hm | stops hm | creates hm | shows hm | joins hm | cancelsBridge hm | awaitsBridge hm
  | finishes hm | fails hm | resigns hm | loses hm | counts hm | announces hm | givesUp hm
  | sleeps hm | interrupted hm | abortsUptime hm | returns hm =>
      rw [hquiet (by simp [hm, Main.tellsLoss])]
      exact h.congr rfl rfl rfl (fun i q hq => ⟨q, hq, rfl⟩)
        (by simp [hm, Main.toldLoss]) (by simp [hm, Main.inInstance])

/-- A chunk arrives at the broadcast channel. -/
theorem Marked.forward {g : Log} {s : RunState} {b : Bytes} {rest : List Bytes}
    (h : Marked (g, s)) (hq : s.upQueue = b :: rest) :
    Marked (g.note s .forward, { s with upQueue := rest, out := s.out ++ [b] }) := by
  have hqueue := h.queue
  dsimp only at hqueue
  rw [hq] at hqueue
  obtain ⟨m, ms, hm, hms, hg⟩ := List.forall₂_cons_right_iff.1 hqueue
  have hnote : g.note s .forward = { g with queue := ms, stream := g.stream ++ [m] } := by
    simp [Log.note, hg]
  rw [hnote]
  have hchunks := h.chunks
  dsimp only at hchunks
  rw [hg] at hchunks
  constructor
  · exact List.rel_append h.stream (.cons hm .nil)
  · exact hms
  · exact fun m' hm' => hchunks m' (List.mem_cons_of_mem m hm')
  · exact h.pumps
  · exact h.fresh
  · intro m' hm'
    refine h.below m' ?_
    dsimp only at hm' ⊢
    rw [hg]
    rwa [List.append_assoc, List.singleton_append] at hm'
  · exact fun j hj => List.mem_append_left _ (h.older j hj)
  · exact fun ht j hj => List.mem_append_left _ (h.told ht j hj)
  · exact h.wired

/-- More events sent do not change what the marks stand for. -/
theorem Mark.Names.mono {sent sent' : ℕ → List DriverEvent} (hsent : ∀ i, sent i <+: sent' i)
    {m : Mark} {b : Bytes} (h : m.Names sent b) : m.Names sent' b := by
  have hget : ∀ (i k : ℕ) (e : DriverEvent), (sent i)[k]? = some e → (sent' i)[k]? = some e := by
    intro i k e he
    obtain ⟨rest, hrest⟩ := hsent i
    obtain ⟨hlt, -⟩ := List.getElem?_eq_some_iff.1 he
    rw [← hrest, List.getElem?_append_left hlt, he]
  cases m with
  | chunk i k => exact hget i k _ h
  | notice i k =>
      obtain ⟨n, hn, hb⟩ := h
      exact ⟨n, hget i k _ hn, hb⟩
  | lost i => exact h

theorem Marked.driverStep {g : Log} {s t : RunState} {a : DriverAct} (h : Marked (g, s))
    (hs : s.driverStep a = some t) : Marked (g.note s (.driver a), t) := by
  cases RunState.driverStep_stepped hs with
  | recv => exact h.congr rfl rfl rfl (fun i q hq => ⟨q, hq, rfl⟩) id id
  | finish =>
      exact h.congr rfl rfl (List.length_modify _ _ _) (toPass_modify fun _ => rfl) id id
  | send hd hp =>
      rename_i e p rest _ _
      have hsent : ∀ i, g.sent i <+: (g.note s (.driver (.send e))).sent i := by
        intro i
        simp only [Log.note, Function.update_apply]
        split
        · rename_i hi
          rw [hi]
          exact List.prefix_append _ _
        · exact List.prefix_refl _
      have hpumps : (s.modifyPump fun p => p.send e).pumps = p.send e :: rest := by
        simp [RunState.modifyPump, hp]
      have hlen : (s.modifyPump fun p => p.send e).pumps.length = s.pumps.length :=
        List.length_modify _ _ _
      have hinst : ∀ i, (s.modifyPump fun p => p.send e).instanceAt i = s.instanceAt i := by
        intro i
        rw [RunState.instanceAt, hlen]
        rfl
      constructor
      · exact h.stream.imp fun _ _ hm => hm.mono hsent
      · exact h.queue.imp fun _ _ hm => hm.mono hsent
      · exact h.chunks
      · intro i q hq
        have hi : i < s.pumps.length := hlen ▸ (List.getElem?_eq_some_iff.1 hq).1
        dsimp only at hq ⊢
        rw [hinst]
        rw [hpumps] at hq
        cases i with
        | zero =>
            obtain rfl := Option.some_inj.1 hq
            obtain ⟨done, hdone, hlen'⟩ := h.pumps 0 p (by simp [hp])
            refine ⟨done, ?_, hlen'⟩
            simp only [Log.note, Function.update_self, Pump.toPass, Pump.send]
            rw [hdone]
            simp [Pump.toPass]
        | succ i =>
            have hne : s.instanceAt (i + 1) ≠ s.instanceAt 0 :=
              RunState.instanceAt_ne hi (Nat.zero_lt_of_lt hi) (Nat.succ_ne_zero i)
            obtain ⟨done, hdone, hlen'⟩ := h.pumps (i + 1) q (by rw [hp]; exact hq)
            refine ⟨done, ?_, hlen'⟩
            simp only [Log.note, Function.update_of_ne hne]
            exact hdone
      · intro j hj
        dsimp only at hj ⊢
        rw [hlen] at hj
        have hpos : 0 < s.pumps.length := by simp [hp]
        have hne : j ≠ s.instanceAt 0 := by
          unfold RunState.instanceAt
          omega
        simp only [Log.note, Function.update_of_ne hne]
        exact h.fresh j hj
      · intro m hm
        dsimp only
        rw [hlen]
        exact h.below m hm
      · intro j hj
        dsimp only at hj
        rw [hlen] at hj
        exact h.older j hj
      · intro hm j hj
        dsimp only at hj
        rw [hlen] at hj
        exact h.told hm j hj
      · intro hm
        dsimp only
        rw [hlen]
        exact h.wired hm

/-- A pump that moves no event. -/
theorem toPass_set {pumps : List Pump} {i : ℕ} {p q : Pump} (hp : pumps[i]? = some p)
    (hq : q.toPass = p.toPass) (j : ℕ) (q' : Pump) (hq' : (pumps.set i q)[j]? = some q') :
    ∃ p' : Pump, pumps[j]? = some p' ∧ q'.toPass = p'.toPass := by
  by_cases hij : i = j
  · subst hij
    obtain ⟨hi, -⟩ := List.getElem?_eq_some_iff.1 hp
    rw [List.getElem?_set_self hi, Option.some_inj] at hq'
    exact ⟨p, hp, hq' ▸ hq⟩
  · rw [List.getElem?_set_ne hij] at hq'
    exact ⟨q', hq', rfl⟩

/-- A pump takes an event. -/
theorem Log.note_take {g : Log} {s : RunState} {i : ℕ} {p : Pump} {e : DriverEvent}
    {rest : List DriverEvent} (hp : s.pumps[i]? = some p) (hev : p.events = e :: rest) :
    g.note s (.pump i .take) = g.take (s.instanceAt i) e := by
  simp [note, hp, hev]

theorem Marked.pumpStep {g : Log} {s t : RunState} {i : ℕ} {a : PumpAct} (h : Marked (g, s))
    (hs : s.pumpStep i a = some t) : Marked (g.note s (.pump i a), t) := by
  obtain ⟨p, q, eff, hp, hq, rfl⟩ := RunState.pumpStep_some hs
  have hset : (s.pumps.set i q).length = s.pumps.length := List.length_set
  -- what the mark of the event is below once the pump is through with it
  have hnew : g.passed (s.instanceAt i) < (g.pass (s.instanceAt i)).passed (s.instanceAt i) := by
    simp [Log.pass]
  cases Pump.step_stepped hq with
  | poll | suspend | kill | finish =>
      exact h.congr rfl rfl hset (toPass_set hp rfl) id id
  | takeOutput hpoll ho hh hev =>
      rw [Log.note_take hp hev]
      exact h.congr rfl rfl hset (toPass_set hp (by simp [Pump.toPass, hh, hev])) id id
  | takeConnected hpoll ho hh hev =>
      rw [Log.note_take hp hev]
      refine h.passes (e := .connected) hp (by simp [Pump.toPass, hh, hev]) rfl rfl h.stream h.queue
        h.chunks (fun m hm => .inl hm) fun j hj => hj
  | takeNotice hpoll ho hh hev =>
      rename_i n rest
      have he : p.toPass = .notice n :: Pump.toPass { p with events := rest } := by
        simp [Pump.toPass, hh, hev]
      have hname : Mark.Names g.sent (.notice (s.instanceAt i) (g.passed (s.instanceAt i)))
          (noticeLine n) := ⟨n, ((h.pumps i p hp).event he).1, rfl⟩
      rw [Log.note_take hp hev]
      refine h.passes hp he rfl rfl (List.rel_append h.stream (.cons hname .nil)) h.queue h.chunks
        ?_ fun j hj => List.mem_append_left _ hj
      intro m hm
      simp only [List.append_assoc, List.mem_append, List.mem_singleton] at hm
      rcases hm with hm | rfl | hm
      · exact .inl (List.mem_append_left _ hm)
      · exact .inr hnew
      · exact .inl (List.mem_append_right _ hm)
  | hand hpoll ho hh =>
      rename_i b _
      have he : p.toPass =
          .output b :: Pump.toPass { p with hand := none, handed := p.handed ++ [b] } := by
        simp [Pump.toPass, hh]
      have hname : Mark.Names g.sent (.chunk (s.instanceAt i) (g.passed (s.instanceAt i))) b :=
        ((h.pumps i p hp).event he).1
      refine h.passes hp he rfl rfl h.stream (List.rel_append h.queue (.cons hname .nil))
        ?_ ?_ fun j hj => hj
      · intro m hm
        rcases List.mem_append.1 hm with hm | hm
        · exact h.chunks m hm
        · obtain rfl := List.mem_singleton.1 hm
          rfl
      · intro m hm
        rw [← List.append_assoc] at hm
        rcases List.mem_append.1 hm with hm | hm
        · exact .inl hm
        · obtain rfl := List.mem_singleton.1 hm
          exact .inr hnew

/-- **The log stays true.** -/
theorem Marked.step {c : Params} {x y : Log × RunState} {a : Act} (h : Marked x)
    (hs : logged c x a = some y) : Marked y := by
  obtain ⟨g, s⟩ := x
  obtain ⟨g', t⟩ := y
  obtain ⟨hg, ht⟩ := observed_eq_some.1 hs
  dsimp only at hg ht
  subst hg
  have hsame : ∀ (i : ℕ) (q : Pump), s.pumps[i]? = some q →
      ∃ p : Pump, s.pumps[i]? = some p ∧ q.toPass = p.toPass := fun i q hq => ⟨q, hq, rfl⟩
  cases step_stepped ht with
  | main hm => exact h.mainStep hm
  | wake hm =>
      exact h.congr rfl rfl rfl hsame (fun _ => by simp [hm, Main.toldLoss])
        (by simp [Main.inInstance])
  | cancel | sendInput => exact h.congr rfl rfl rfl hsame id id
  | forward hq => exact h.forward hq
  | uptime hu =>
      rw [RunState.uptimeStep_eq hu]
      exact h.congr rfl rfl rfl hsame id id
  | pump hp => exact h.pumpStep hp
  | bridge hb =>
      rw [RunState.bridgeStep_eq hb]
      exact h.congr rfl rfl rfl hsame id id
  | driver hd => exact h.driverStep hd

/-! ### What keeps the order -/

/-- The pump at position `i` is about to take a notice. -/
def RunState.noticeNext (s : RunState) (i : ℕ) : Bool :=
  match s.pumps[i]?.bind fun p => p.events.head? with
  | some (.notice _) => true
  | _ => false

/-- **Nothing overtakes a chunk**: a loss is announced when no chunk waits behind `up_tx`, a notice
when no chunk of its instance does and no chunk of a later one has been broadcast, and a pump hands
on no chunk after the loss of its instance. -/
def Orderly (x : Log × RunState) : Act → Prop
  | .main _ => x.2.main.tellsLoss = true → x.2.upQueue = []
  | .pump i .take => x.2.noticeNext i = true →
      (∀ m ∈ x.1.queue, m.inst ≠ x.2.instanceAt i) ∧
        ∀ m ∈ x.1.stream, m.isChunk = true → m.inst ≤ x.2.instanceAt i
  | .pump i .hand => .lost (x.2.instanceAt i) ∉ x.1.stream
  | _ => True

instance (x : Log × RunState) : (a : Act) → Decidable (Orderly x a)
  | .main _ => inferInstanceAs (Decidable (_ → _))
  | .pump _ .take => inferInstanceAs (Decidable (_ → _))
  | .pump _ .hand => inferInstanceAs (Decidable (¬ _))
  | .pump _ .poll | .pump _ .suspend | .pump _ .kill | .pump _ .finish | .wake | .cancel
  | .sendInput _ | .forward | .uptime _ | .bridge _ | .driver _ => .isTrue trivial

/-- Everything that is broadcast, or on its way to the broadcast channel, is in order. -/
def Log.InOrder (g : Log) : Prop := Runner.InOrder (g.stream ++ g.queue)

/-- A mark is put between two parts of what is in order. -/
theorem inOrder_insert {l l' : List Mark} (h : InOrder (l ++ l')) (m : Mark) :
    InOrder (l ++ [m] ++ l') ↔ (∀ a ∈ l, ¬ m.Before a) ∧ ∀ b ∈ l', ¬ b.Before m := by
  obtain ⟨hl, hl', hboth⟩ := List.pairwise_append.1 h
  simp only [InOrder, List.append_assoc, List.singleton_append, List.pairwise_append,
    List.pairwise_cons, List.mem_cons, forall_eq_or_imp]
  constructor
  · rintro ⟨-, ⟨hm, -⟩, hall⟩
    exact ⟨fun a ha => (hall a ha).1, hm⟩
  · rintro ⟨hbefore, hbehind⟩
    exact ⟨hl, ⟨hbehind, hl'⟩, fun a ha => ⟨hbefore a ha, hboth a ha⟩⟩

/-- Only instances there have been have handed something on. -/
theorem Marked.inst_le {g : Log} {s : RunState} {i k : ℕ} (h : Marked (g, s))
    (hk : k < g.passed i) : i ≤ s.instanceAt 0 := by
  by_contra hi
  have hfresh := (h.fresh i (by unfold RunState.instanceAt at hi; dsimp only; omega)).2
  dsimp only at hfresh
  omega

theorem Marked.chunk_inst {g : Log} {s : RunState} {i k : ℕ} (h : Marked (g, s))
    (hm : .chunk i k ∈ g.stream ++ g.queue) : i ≤ s.instanceAt 0 :=
  h.inst_le (h.below _ hm)

theorem Marked.notice_inst {g : Log} {s : RunState} {i k : ℕ} (h : Marked (g, s))
    (hm : .notice i k ∈ g.stream ++ g.queue) : k < g.passed i ∧ i ≤ s.instanceAt 0 :=
  ⟨h.below _ hm, h.inst_le (h.below _ hm)⟩

/-- The loss of the present instance is announced in order exactly if no chunk waits. -/
theorem Marked.lost_iff {g : Log} {s : RunState} (h : Marked (g, s)) (ho : g.InOrder) :
    InOrder (g.stream ++ [.lost (s.instanceAt 0)] ++ g.queue) ↔ s.upQueue = [] := by
  have hlen : g.queue.length = s.upQueue.length := h.queue.length_eq
  rw [inOrder_insert ho]
  constructor
  · rintro ⟨-, hqueue⟩
    refine List.length_eq_zero_iff.1 (hlen ▸ List.length_eq_zero_iff.2 ?_)
    refine List.eq_nil_iff_forall_not_mem.2 fun m hm => hqueue m hm ?_
    have hchunk := h.chunks m hm
    cases m with
    | chunk j k => exact h.chunk_inst (List.mem_append_right _ hm)
    | notice | lost => cases hchunk
  · intro hnone
    have hq : g.queue = [] := List.length_eq_zero_iff.1 (by rw [hlen, hnone]; rfl)
    refine ⟨fun m hm hbefore => ?_, by simp [hq]⟩
    cases m with
    | chunk j k =>
        have hle := h.chunk_inst (List.mem_append_left _ hm)
        simp only [Mark.Before] at hbefore
        omega
    | notice | lost => exact hbefore

/-- No chunk of an instance waits behind `up_tx` once its loss has been announced in order. -/
theorem Log.InOrder.not_queued {g : Log} (ho : g.InOrder) {j k : ℕ} (hl : .lost j ∈ g.stream) :
    .chunk j k ∉ g.queue := fun hm =>
  (List.pairwise_append.1 ho).2.2 _ hl _ hm (Nat.le_refl j)

/-- A notice is broadcast in order exactly if no chunk of its instance waits and none of a later one
has been broadcast. -/
theorem Marked.notice_iff {g : Log} {s : RunState} {i : ℕ} (h : Marked (g, s)) (ho : g.InOrder)
    (hi : i < s.pumps.length) :
    InOrder (g.stream ++ [.notice (s.instanceAt i) (g.passed (s.instanceAt i))] ++ g.queue) ↔
      (∀ m ∈ g.queue, m.inst ≠ s.instanceAt i) ∧
        ∀ m ∈ g.stream, m.isChunk = true → m.inst ≤ s.instanceAt i := by
  rw [inOrder_insert ho, and_comm]
  refine and_congr ⟨fun hqueue m hm hinst => ?_, fun hqueue m hm hbefore => ?_⟩
    ⟨fun hstream m hm hchunk => ?_, fun hstream m hm hbefore => ?_⟩
  · have hchunk := h.chunks m hm
    cases m with
    | chunk j k =>
        have hk : k < g.passed j := h.below _ (List.mem_append_right _ hm)
        obtain rfl : j = s.instanceAt i := hinst
        exact hqueue _ hm (.inr ⟨rfl, hk⟩)
    | notice | lost => cases hchunk
  · have hchunk := h.chunks m hm
    cases m with
    | chunk j k =>
        rcases hbefore with hlt | ⟨heq, -⟩
        · -- the earlier instance has been lost, and that has been announced
          refine ho.not_queued (h.older j ?_) hm
          unfold RunState.instanceAt at hlt
          dsimp only
          omega
        · exact hqueue _ hm heq
    | notice | lost => cases hchunk
  · cases m with
    | chunk j k => exact Nat.not_lt.1 (hstream _ hm)
    | notice | lost => cases hchunk
  · cases m with
    | chunk j k => exact Nat.not_lt.2 (hstream _ hm rfl) hbefore
    | notice | lost => exact hbefore

/-- A chunk is handed on in order exactly if the loss of its instance has not been announced. -/
theorem Marked.hand_iff {g : Log} {s : RunState} {i : ℕ} (h : Marked (g, s)) (ho : g.InOrder)
    (hi : i < s.pumps.length) :
    InOrder (g.stream ++ (g.queue ++ [.chunk (s.instanceAt i) (g.passed (s.instanceAt i))])) ↔
      .lost (s.instanceAt i) ∉ g.stream := by
  have hend : InOrder ((g.stream ++ g.queue) ++ []) := by
    rw [List.append_nil]
    exact ho
  have hinsert := inOrder_insert hend (.chunk (s.instanceAt i) (g.passed (s.instanceAt i)))
  rw [List.append_nil, List.append_assoc] at hinsert
  rw [hinsert]
  constructor
  · rintro ⟨hbefore, -⟩ hlost
    exact hbefore _ (List.mem_append_left _ hlost) (Nat.le_refl _)
  · intro hlost
    have hlast : s.instanceAt i = s.instanceAt 0 := by
      -- the losses of all other instances have been announced
      by_contra hne
      refine hlost (h.older _ ?_)
      unfold RunState.instanceAt at hne ⊢
      dsimp only
      omega
    refine ⟨fun m hm hbefore => ?_, by simp⟩
    cases m with
    | chunk => exact hbefore
    | notice j l =>
        obtain ⟨hl, hj⟩ := h.notice_inst hm
        rcases hbefore with hlt | ⟨heq, hlt⟩
        · omega
        · rw [← heq] at hl
          omega
    | lost j =>
        have hj : j < s.pumps.length := h.below _ hm
        have hle : s.instanceAt i ≤ j := hbefore
        have heq : j = s.instanceAt i := by
          unfold RunState.instanceAt at hlast hle ⊢
          omega
        rcases List.mem_append.1 hm with hm | hm
        · exact hlost (heq ▸ hm)
        · cases h.chunks _ hm

/-- **A step keeps the order exactly if it is orderly.** -/
theorem Marked.inOrder_iff {c : Params} {x y : Log × RunState} {a : Act} (h : Marked x)
    (ho : x.1.InOrder) (hs : logged c x a = some y) : y.1.InOrder ↔ Orderly x a := by
  obtain ⟨g, s⟩ := x
  obtain ⟨g', t⟩ := y
  obtain ⟨hg, ht⟩ := observed_eq_some.1 hs
  dsimp only at hg ht ho
  subst hg
  cases step_stepped ht with
  | main hm =>
      by_cases htells : s.main.tellsLoss = true
      · have hnote : ∀ secs, g.note s (.main secs) =
            { g with stream := g.stream ++ [.lost (s.instanceAt 0)] } := fun _ => if_pos htells
        dsimp only
        rw [hnote]
        exact (h.lost_iff ho).trans ⟨fun hq _ => hq, fun hq => hq htells⟩
      · have hnote : ∀ secs, g.note s (.main secs) = g := fun _ => if_neg htells
        dsimp only
        rw [hnote]
        exact iff_of_true ho fun htells' => absurd htells' htells
  | forward hq =>
      refine iff_of_true ?_ trivial
      have hsame : (g.note s .forward).stream ++ (g.note s .forward).queue =
          g.stream ++ g.queue := by
        cases hg : g.queue <;> simp [Log.note, hg]
      rw [Log.InOrder, hsame]
      exact ho
  | pump hpump =>
      rename_i i a
      obtain ⟨p, q, eff, hp, hq, rfl⟩ := RunState.pumpStep_some hpump
      obtain ⟨hi, -⟩ := List.getElem?_eq_some_iff.1 hp
      cases Pump.step_stepped hq with
      | poll | suspend | kill | finish => exact iff_of_true ho trivial
      | takeOutput hpoll hopen hh hev | takeConnected hpoll hopen hh hev =>
          have hnext : s.noticeNext i = false := by simp [RunState.noticeNext, hp, hev]
          dsimp only
          rw [Log.note_take hp hev]
          refine iff_of_true ho fun hn => ?_
          cases hnext.symm.trans hn
      | takeNotice hpoll hopen hh hev =>
          have hnext : s.noticeNext i = true := by simp [RunState.noticeNext, hp, hev]
          dsimp only
          rw [Log.note_take hp hev]
          exact (h.notice_iff ho hi).trans ⟨fun hok _ => hok, fun hok => hok hnext⟩
      | hand => exact h.hand_iff ho hi
  | driver hd =>
      cases RunState.driverStep_stepped hd with
      | recv | send | finish => exact iff_of_true ho trivial
  | wake | cancel | sendInput | uptime | bridge => exact iff_of_true ho trivial

/-- **The broadcast stream is in order exactly in the runs that are orderly**: every run has a log
that tells where what is broadcast comes from; it is in order all along exactly if every step of the
run is orderly, and then so is the part of it that a subscriber sees. -/
theorem output_order_iff (c : Params) (as : List Act) (t : RunState)
    (hr : exec (step c) RunState.init as = some t) :
    ∃ g : Log, exec (logged c) (Log.init, RunState.init) as = some (g, t) ∧
      List.Forall₂ (Mark.Names g.sent) g.stream t.out ∧
      (Along (logged c) (fun x => x.1.InOrder) (Log.init, RunState.init) as ↔
        Meets (logged c) Orderly (Log.init, RunState.init) as) ∧
      (Meets (logged c) Orderly (Log.init, RunState.init) as →
        ∀ seen, seen <:+: g.stream → InOrder seen) := by
  obtain ⟨g, hg⟩ : ∃ g, exec (logged c) (Log.init, RunState.init) as = some (g, t) :=
    exec_observed Log.init hr
  have hmarked : Marked (g, t) :=
    (reachable_of_exec hg).invariant marked_init fun _ _ _ h _ hs => h.step hs
  have hiff : Along (logged c) (fun x => x.1.InOrder) (Log.init, RunState.init) as ↔
      Meets (logged c) Orderly (Log.init, RunState.init) as :=
    along_iff_meets (I := Marked) (fun _ _ _ h hs => h.step hs)
      (fun _ _ _ h ho hs => h.inOrder_iff ho hs) marked_init List.Pairwise.nil hg
  refine ⟨g, hg, hmarked.stream, hiff, fun hmeets seen hseen => ?_⟩
  have ho : g.InOrder := (hiff.2 hmeets).last hg
  exact (List.pairwise_append.1 ho).1.sublist hseen.sublist

/-- A chunk is broadcast before the loss of its instance is announced. -/
def chunkThenLoss : List Act :=
  [.main 0, .main 0, .main 0, .main 0, .driver (.send (.output [120])), .pump 0 .poll,
    .pump 0 .take, .pump 0 .hand, .forward, .driver (.finish (.returned (.error (.ioLost "eof")))),
    .main 3, .main 3, .bridge .cancelled, .main 3, .main 3, .main 3, .main 3]

theorem output_order_chunk : ∃ t g, exec (step steady) RunState.init chunkThenLoss = some t ∧
    t.out = [[120], RunState.lostLine] ∧
    exec (logged steady) (Log.init, RunState.init) chunkThenLoss = some (g, t) ∧
    InOrder g.stream := by
  obtain ⟨g, hg, -, -, hseen⟩ := output_order_iff steady chunkThenLoss _ rfl
  exact ⟨_, g, rfl, rfl, hg, hseen (by decide) g.stream (List.infix_refl _)⟩

/-- The loss is announced while a chunk waits behind `up_tx`. -/
def lossThenChunk : List Act :=
  [.main 0, .main 0, .main 0, .main 0, .driver (.send (.output [120])), .pump 0 .poll,
    .pump 0 .take, .pump 0 .hand, .driver (.finish (.returned (.error (.ioLost "eof")))), .main 3,
    .main 3, .bridge .cancelled, .main 3, .main 3, .main 3, .main 3, .forward]

/-- **The loss of a driver is announced before its last output.** -/
theorem output_overtaken : ¬ ∀ (c : Params) (as : List Act) (g : Log) (t : RunState),
    exec (logged c) (Log.init, RunState.init) as = some (g, t) → InOrder g.stream := by
  intro h
  have hrun : ∃ g t, exec (logged steady) (Log.init, RunState.init) lossThenChunk = some (g, t) ∧
      g.stream = [.lost 0, .chunk 0 0] ∧ t.out = [RunState.lostLine, [120]] :=
    ⟨_, _, rfl, rfl, rfl⟩
  obtain ⟨g, t, hr, hstream, -⟩ := hrun
  have ho := h steady lossThenChunk g t hr
  rw [hstream] at ho
  exact List.rel_of_pairwise_cons ho List.mem_cons_self (Nat.le_refl 0)

end Runner

end TermHub
