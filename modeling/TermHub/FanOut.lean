/-
**From the upstream to the clients.**

`termhub-core/src/hub.rs` and the forward task of `termhub-sshd/src/handler.rs`.  The output of a
session goes through the queue behind `up_tx` into the broadcast channel of the hub, next to the
lines that `broadcast_system` sends; every client has a task that receives from the channel and
writes to its SSH channel.

Main definitions:

* `Forwarder`, `Forwarder.step` — the loop of a forward task;
* `HubState`, `hubStep` — the hub with its forward tasks;
* `HubState.Tracks` — the invariant: the ring holds the last values, and every forwarder has a
  marked delivery of what was broadcast since its subscription;
* `KeepsUp` — what it means for a client not to lag, in terms of how often it has received;
* `concerns` — the actions that a client would see if it were alone.

Main results:

* `hubStep_tracks` — every step keeps the invariant;
* `Tracks.recv` — a mark is received if more than a ring of chunks is unread, and else the oldest
  unread chunk;
* `fanOut_integrity` — **a client gets what is broadcast after its subscription, in order, except
  for marked gaps, and as if it were alone**.
-/

import Mathlib.Data.Finset.Card
import TermHub.Broadcast
import TermHub.RunLoop

set_option relaxedAutoImplicit false
set_option autoImplicit false

namespace TermHub

namespace Hub

open Broadcast Transition
open Runner (Bytes capacity)

/-! ### The forward task -/

/-- What a forward task writes when it leaves its loop. -/
inductive ChannelMsg
  | data (b : Bytes)
  | exitStatus (code : ℕ)
  | close
  deriving DecidableEq, Repr

/-- The line that marks a gap. -/
def laggedLine : Bytes :=
  asBytes "\x1b[33m*** termhub: client lagged, output truncated\x1b[0m\r\n"

/-- The line of a client that is kicked. -/
def kickedLine : Bytes := asBytes "*** termhub: kicked by host\r\n"

/-- The bytes that a forward task writes for a delivery. -/
def deliveryBytes : Delivery Bytes → Bytes
  | .value b => b
  | .mark => laggedLine

/-- A forward task: its cursor, the delivery that is being written to the SSH channel, and what has
been written.  `start` is the number of chunks that had been broadcast when it subscribed, and
`failed` tells that writing a mark has failed, which the code ignores. -/
structure Forwarder where
  isExec : Bool
  next : ℕ
  hand : Option (Delivery Bytes)
  handed : List (Delivery Bytes)
  farewell : List ChannelMsg
  bytesOut : ℕ
  ended : Bool
  start : ℕ
  failed : Bool
  deriving DecidableEq, Repr

/-- A forward task that has just subscribed. -/
def Forwarder.new (isExec : Bool) (next start : ℕ) : Forwarder :=
  ⟨isExec, next, none, [], [], 0, false, start, false⟩

/-- The steps of a forward task. -/
inductive ForwarderAct
  | recv
  | written
  | writeFails
  | kicked
  | silence
  | closed
  | aborted
  deriving DecidableEq, Repr

/-- The loop is left. -/
def Forwarder.leave (f : Forwarder) (farewell : List ChannelMsg) : Forwarder :=
  { f with ended := true, hand := none, farewell := farewell }

/-- The end of a command, for an exec channel. -/
def Forwarder.exit (f : Forwarder) : List ChannelMsg :=
  if f.isExec then [.exitStatus 0, .close] else []

/-- One step of a forward task that has not ended; `got` is what its receiver gives, and `hubOpen`
says whether a sender is left. -/
def Forwarder.step (f : Forwarder) (got : Recv Bytes × ℕ) (hubOpen : Bool) :
    ForwarderAct → Option Forwarder
  | .recv =>
    if f.hand = none then
      match got with
      | (.value b, next) =>
        some { f with next, hand := some (.value b), bytesOut := f.bytesOut + b.length }
      | (.lagged _, next) => some { f with next, hand := some .mark }
      | (.empty, _) => none
    else none
  | .written =>
    match f.hand with
    | some d => some { f with hand := none, handed := f.handed ++ [d] }
    | none => none
  | .writeFails =>
    match f.hand with
    | some (.value _) => some (f.leave [])
    | some .mark => some { f with hand := none, failed := true }
    | none => none
  | .kicked =>
    if f.hand = none then
      some (f.leave (if f.isExec then f.exit else [.data kickedLine, .close]))
    else none
  | .silence => if f.hand = none then some (f.leave f.exit) else none
  | .closed =>
    if f.hand = none ∧ hubOpen = false ∧ got.1 = .empty then some (f.leave f.exit) else none
  | .aborted => some (f.leave [])

/-- What a step of a forward task does. -/
inductive Forwarder.Stepped (f : Forwarder) (got : Recv Bytes × ℕ) (hubOpen : Bool) :
    ForwarderAct → Forwarder → Prop
  | recvValue {b : Bytes} (hh : f.hand = none) (hgot : got.1 = .value b) :
      Stepped f got hubOpen .recv
        { f with next := got.2, hand := some (.value b), bytesOut := f.bytesOut + b.length }
  | recvLagged {n : ℕ} (hh : f.hand = none) (hgot : got.1 = .lagged n) :
      Stepped f got hubOpen .recv { f with next := got.2, hand := some .mark }
  | written {d : Delivery Bytes} (hh : f.hand = some d) :
      Stepped f got hubOpen .written { f with hand := none, handed := f.handed ++ [d] }
  | valueFails {b : Bytes} (hh : f.hand = some (.value b)) :
      Stepped f got hubOpen .writeFails (f.leave [])
  | markFails (hh : f.hand = some .mark) :
      Stepped f got hubOpen .writeFails { f with hand := none, failed := true }
  | kicked (hh : f.hand = none) : Stepped f got hubOpen .kicked
      (f.leave (if f.isExec then f.exit else [.data kickedLine, .close]))
  | silence (hh : f.hand = none) : Stepped f got hubOpen .silence (f.leave f.exit)
  | closed (hh : f.hand = none) (hclosed : hubOpen = false) (hgot : got.1 = .empty) :
      Stepped f got hubOpen .closed (f.leave f.exit)
  | aborted : Stepped f got hubOpen .aborted (f.leave [])

theorem Forwarder.step_iff_stepped {f g : Forwarder} {got : Recv Bytes × ℕ} {hubOpen : Bool}
    {a : ForwarderAct} : f.step got hubOpen a = some g ↔ f.Stepped got hubOpen a g := by
  constructor
  · intro h
    obtain ⟨r, next⟩ := got
    cases a with
    | recv =>
        simp only [step] at h
        split at h
        · rename_i hh
          cases r with
          | value b =>
              obtain rfl := Option.some_inj.1 h
              exact .recvValue hh rfl
          | lagged n =>
              obtain rfl := Option.some_inj.1 h
              exact .recvLagged hh rfl
          | empty => cases h
        · cases h
    | written =>
        simp only [step] at h
        split at h
        · rename_i d hh
          obtain rfl := Option.some_inj.1 h
          exact .written hh
        · cases h
    | writeFails =>
        simp only [step] at h
        split at h
        · rename_i b hh
          obtain rfl := Option.some_inj.1 h
          exact .valueFails hh
        · rename_i hh
          obtain rfl := Option.some_inj.1 h
          exact .markFails hh
        · cases h
    | kicked =>
        obtain ⟨hh, rfl⟩ := Option.ite_some_none_eq_some.1 h
        exact .kicked hh
    | silence =>
        obtain ⟨hh, rfl⟩ := Option.ite_some_none_eq_some.1 h
        exact .silence hh
    | closed =>
        obtain ⟨⟨hh, hclosed, hgot⟩, rfl⟩ := Option.ite_some_none_eq_some.1 h
        exact .closed hh hclosed hgot
    | aborted =>
        obtain rfl := Option.some_inj.1 h
        exact .aborted
  · intro h
    obtain ⟨r, next⟩ := got
    cases h with
    | recvValue hh hgot | recvLagged hh hgot =>
        subst hgot
        simp [step, hh]
    | written hh | valueFails hh | markFails hh | kicked hh | silence hh => simp [step, hh]
    | closed hh hclosed hgot => exact if_pos ⟨hh, hclosed, hgot⟩
    | aborted => rfl

/-! ### The hub -/

/-- The hub of a session and its forward tasks, by number.  The histories `broadcasts` (everything
that was sent to the channel) and `log` (what the channel has kept, while there was a receiver) are
not part of the code. -/
structure HubState (cap : ℕ) where
  upQueue : List Bytes
  chan : Channel Bytes cap
  hubOpen : Bool
  forwarders : ℕ → Option Forwarder
  broadcasts : List Bytes
  log : List Bytes

/-- `Hub::new`. -/
def HubState.init (cap : ℕ) : HubState cap :=
  ⟨[], Channel.new Bytes cap, true, fun _ => none, [], []⟩

/-- What can happen to a hub. -/
inductive HubAct
  | push (b : Bytes)
  /-- The task of `make_forward` broadcasts the next chunk. -/
  | forward
  /-- `broadcast_system`. -/
  | system (b : Bytes)
  /-- The last sender is dropped. -/
  | shutdown
  | subscribe (i : ℕ) (isExec : Bool)
  | client (i : ℕ) (a : ForwarderAct)
  deriving DecidableEq, Repr

variable {cap : ℕ} [NeZero cap]

/-- `out_tx.send(b)`. -/
def HubState.broadcast (s : HubState cap) (b : Bytes) : HubState cap :=
  { s with
    chan := s.chan.send b
    broadcasts := s.broadcasts ++ [b]
    log := if s.chan.rxCount = 0 then s.log else s.log ++ [b] }

/-- The forward task number `i` is as given; when it has ended its receiver is dropped. -/
def HubState.update (s : HubState cap) (i : ℕ) (f : Forwarder) : HubState cap :=
  { s with
    chan := if f.ended then s.chan.unsubscribe else s.chan
    forwarders := Function.update s.forwarders i (some f) }

/-- The step of an action. -/
def hubStep (s : HubState cap) : HubAct → Option (HubState cap)
  | .push b =>
    if s.hubOpen = true ∧ s.upQueue.length < capacity then
      some { s with upQueue := s.upQueue ++ [b] }
    else none
  | .forward =>
    match s.upQueue with
    | b :: rest => some ({ s with upQueue := rest }.broadcast b)
    | [] => none
  | .system b => if s.hubOpen then some (s.broadcast b) else none
  | .shutdown =>
    if s.hubOpen = true ∧ s.upQueue = [] then some { s with hubOpen := false } else none
  | .subscribe i isExec =>
    if s.hubOpen = true ∧ s.forwarders i = none then
      some { s with
        chan := s.chan.subscribe.2
        forwarders := Function.update s.forwarders i
          (some (Forwarder.new isExec s.chan.subscribe.1 s.broadcasts.length)) }
    else none
  | .client i a =>
    match s.forwarders i with
    | some f =>
      if f.ended then none
      else (f.step (s.chan.recv f.next) s.hubOpen a).map (s.update i)
    | none => none

/-! ### One forward task -/

/-- A forward task has a marked delivery of what was broadcast since its subscription, up to its
cursor. -/
structure Forwarder.Follows (cap : ℕ) (broadcasts log : List Bytes) (f : Forwarder) : Prop where
  start_le : f.start ≤ broadcasts.length
  cursor : f.ended = false → f.next ≤ log.length
  marked : f.failed = false → ∃ consumed unread, broadcasts.drop f.start = consumed ++ unread ∧
    Marked cap (broadcasts.drop f.start).length consumed (f.handed ++ f.hand.toList) ∧
    (f.ended = false → unread = log.drop f.next)

namespace Forwarder

omit [NeZero cap] in
theorem follows_new (isExec : Bool) (broadcasts log : List Bytes) :
    (Forwarder.new isExec log.length broadcasts.length).Follows cap broadcasts log where
  start_le := le_rfl
  cursor _ := le_rfl
  marked _ := ⟨[], [], by simp [Forwarder.new], Marked.nil, fun _ => by simp [Forwarder.new]⟩

omit [NeZero cap] in
/-- A broadcast is one more chunk to read. -/
theorem Follows.broadcast {broadcasts log : List Bytes} {f : Forwarder}
    (h : f.Follows cap broadcasts log) {rx : ℕ} (hrx : f.ended = false → rx ≠ 0) (b : Bytes) :
    f.Follows cap (broadcasts ++ [b]) (if rx = 0 then log else log ++ [b]) where
  start_le := by
    have := h.start_le
    rw [List.length_append]
    omega
  cursor he := by
    have := h.cursor he
    rw [if_neg (hrx he), List.length_append]
    omega
  marked hf := by
    obtain ⟨consumed, unread, hsplit, hmarked, hunread⟩ := h.marked hf
    rw [List.drop_append_of_le_length h.start_le]
    refine ⟨consumed, unread ++ [b], ?_, hmarked.mono ?_, fun he => ?_⟩
    · rw [hsplit, List.append_assoc]
    · rw [List.length_append]
      exact Nat.le_add_right _ _
    · rw [if_neg (hrx he), List.drop_append_of_le_length (h.cursor he), hunread he]

omit [NeZero cap] in
/-- When the loop is left, what has been written stays a marked delivery. -/
theorem Follows.leave {broadcasts log : List Bytes} {f : Forwarder}
    (h : f.Follows cap broadcasts log) (farewell : List ChannelMsg) :
    (f.leave farewell).Follows cap broadcasts log where
  start_le := h.start_le
  cursor he := nomatch he
  marked hf := by
    obtain ⟨consumed, unread, hsplit, hmarked, -⟩ := h.marked hf
    cases hh : f.hand with
    | none =>
        refine ⟨consumed, unread, hsplit, ?_, fun he => nomatch he⟩
        rwa [hh] at hmarked
    | some d =>
        rw [hh, Option.toList_some] at hmarked
        obtain ⟨before, g, rfl, hbefore⟩ := hmarked.of_concat
        refine ⟨before, g ++ unread, ?_, ?_, fun he => nomatch he⟩
        · rw [← List.append_assoc]
          exact hsplit
        · simpa [Forwarder.leave] using hbefore

/-- **A step of the loop keeps the delivery marked.** -/
theorem Follows.step {broadcasts log : List Bytes} {f g : Forwarder} {c : Channel Bytes cap}
    (h : f.Follows cap broadcasts log) (hc : c.Holds log) (he : f.ended = false) {hubOpen : Bool}
    {a : ForwarderAct} (hs : f.step (c.recv f.next) hubOpen a = some g) :
    g.Follows cap broadcasts log := by
  have received : ∀ d n, f.hand = none → (c.recv f.next).1.deliveries = [d] →
      { f with
        next := (c.recv f.next).2, hand := some d, bytesOut := n }.Follows cap broadcasts log := by
    intro d n hhand hd
    obtain ⟨hgot, hrest, hle⟩ := hc.recv (h.cursor he)
    refine ⟨h.start_le, fun _ => hle, fun hf => ?_⟩
    obtain ⟨consumed, unread, hsplit, hmarked, hunread⟩ := h.marked hf
    rw [hhand, Option.toList_none, List.append_nil] at hmarked
    -- what the ring gives is the next item of a marked delivery of the unread chunks
    obtain ⟨got, htake, hnext⟩ := hmarked.take (congrArg List.length hsplit).ge
    rw [← hunread he] at hgot hrest
    rw [← hgot, hd] at hnext
    refine ⟨consumed ++ got, (Broadcast.take cap unread).2, ?_, hnext, fun _ => hrest.symm⟩
    rw [List.append_assoc, ← htake]
    exact hsplit
  cases step_iff_stepped.1 hs with
  | recvValue hh hgot => exact received _ _ hh (by rw [hgot]; rfl)
  | recvLagged hh hgot => exact received _ _ hh (by rw [hgot]; rfl)
  | written hh =>
      refine ⟨h.start_le, h.cursor, fun hf => ?_⟩
      obtain ⟨consumed, unread, hsplit, hmarked, hunread⟩ := h.marked hf
      rw [hh] at hmarked
      exact ⟨consumed, unread, hsplit, by simpa using hmarked, hunread⟩
  | markFails => exact ⟨h.start_le, h.cursor, fun hf => nomatch hf⟩
  | valueFails | kicked | silence | closed | aborted => exact h.leave _

end Forwarder

/-! ### The hub and its forward tasks -/

/-- The ring holds the last chunks, its receivers are those of the forward tasks in `live`, and
every forward task follows what is broadcast. -/
structure HubState.Tracks (s : HubState cap) (live : Finset ℕ) : Prop where
  holds : s.chan.Holds s.log
  count : s.chan.rxCount = live.card
  mem_live : ∀ i, i ∈ live ↔ ∃ f, s.forwarders i = some f ∧ f.ended = false
  follows : ∀ i f, s.forwarders i = some f → f.Follows cap s.broadcasts s.log

namespace HubState

theorem tracks_init : (HubState.init cap).Tracks ∅ where
  holds := Channel.Holds.new
  count := rfl
  mem_live := by simp [HubState.init]
  follows := by simp [HubState.init]

/-- While a forward task has not ended there is a receiver. -/
theorem Tracks.rxCount_ne {s : HubState cap} {live : Finset ℕ} (h : s.Tracks live) {i : ℕ}
    {f : Forwarder} (hf : s.forwarders i = some f) (he : f.ended = false) :
    s.chan.rxCount ≠ 0 := by
  rw [h.count]
  exact Finset.card_ne_zero_of_mem ((h.mem_live i).2 ⟨f, hf, he⟩)

theorem Tracks.broadcast {s : HubState cap} {live : Finset ℕ} (h : s.Tracks live) (b : Bytes) :
    (s.broadcast b).Tracks live where
  holds := by
    by_cases hrx : s.chan.rxCount = 0
    · simpa [HubState.broadcast, Channel.send, hrx] using h.holds
    · simpa [HubState.broadcast, hrx] using h.holds.send hrx b
  count := by
    rw [← h.count]
    unfold HubState.broadcast Channel.send
    split <;> rfl
  mem_live := h.mem_live
  follows i f hf := (h.follows i f hf).broadcast (fun he => h.rxCount_ne hf he) b

theorem Tracks.subscribe {s : HubState cap} {live : Finset ℕ} (h : s.Tracks live) {i : ℕ}
    (hi : s.forwarders i = none) (isExec : Bool) :
    HubState.Tracks { s with
      chan := s.chan.subscribe.2
      forwarders := Function.update s.forwarders i
        (some (Forwarder.new isExec s.chan.subscribe.1 s.broadcasts.length)) }
      (insert i live) where
  holds := h.holds.subscribe
  count := by
    have hnot : i ∉ live := by
      rw [h.mem_live]
      simp [hi]
    rw [Finset.card_insert_of_notMem hnot, ← h.count]
    rfl
  mem_live j := by
    by_cases hj : j = i
    · subst hj
      simp [Forwarder.new]
    · simp [hj, h.mem_live]
  follows j f hf := by
    by_cases hj : j = i
    · subst hj
      simp only [Function.update_self, Option.some_inj] at hf
      subst hf
      have hpos : s.chan.subscribe.1 = s.log.length := h.holds.pos
      rw [hpos]
      exact Forwarder.follows_new isExec s.broadcasts s.log
    · simp only [Function.update_of_ne hj] at hf
      exact h.follows j f hf

theorem Tracks.update {s : HubState cap} {live : Finset ℕ} (h : s.Tracks live) {i : ℕ}
    {f g : Forwarder} (hf : s.forwarders i = some f) (he : f.ended = false)
    (hg : g.Follows cap s.broadcasts s.log) :
    (s.update i g).Tracks (if g.ended then live.erase i else live) where
  holds := by
    unfold HubState.update
    cases g.ended with
    | true => exact h.holds.unsubscribe
    | false => exact h.holds
  count := by
    have hi : i ∈ live := (h.mem_live i).2 ⟨f, hf, he⟩
    unfold HubState.update
    cases g.ended with
    | true => simp [Channel.unsubscribe, h.count, Finset.card_erase_of_mem hi]
    | false => exact h.count
  mem_live j := by
    have hi : i ∈ live := (h.mem_live i).2 ⟨f, hf, he⟩
    by_cases hj : j = i
    · subst hj
      cases hgend : g.ended <;> simp [HubState.update, hgend, hi]
    · cases hgend : g.ended <;> simp [HubState.update, hj, h.mem_live]
  follows j f' hf' := by
    by_cases hj : j = i
    · subst hj
      simp only [HubState.update, Function.update_self, Option.some_inj] at hf'
      exact hf' ▸ hg
    · simp only [HubState.update, Function.update_of_ne hj] at hf'
      exact h.follows j f' hf'

end HubState

/-- A forward task that has not ended steps. -/
theorem hubStep_client_eq {s : HubState cap} {i : ℕ} {f : Forwarder} (hf : s.forwarders i = some f)
    (he : f.ended = false) (a : ForwarderAct) : hubStep s (.client i a) =
      (f.step (s.chan.recv f.next) s.hubOpen a).map (s.update i) := by
  simp only [hubStep, hf]
  exact if_neg (by simp [he])

theorem hubStep_client {s t : HubState cap} {i : ℕ} {a : ForwarderAct}
    (h : hubStep s (.client i a) = some t) : ∃ f g, s.forwarders i = some f ∧ f.ended = false ∧
      f.step (s.chan.recv f.next) s.hubOpen a = some g ∧ t = s.update i g := by
  simp only [hubStep] at h
  split at h
  · rename_i f hf
    split at h
    · cases h
    · rename_i he
      obtain ⟨g, hg, rfl⟩ := Option.map_eq_some_iff.1 h
      exact ⟨f, g, hf, Bool.eq_false_iff.2 he, hg, rfl⟩
  · cases h

theorem hubStep_push {s t : HubState cap} {b : Bytes} (h : hubStep s (.push b) = some t) :
    s.hubOpen = true ∧ s.upQueue.length < capacity ∧
      t = { s with upQueue := s.upQueue ++ [b] } := by
  simp only [hubStep] at h
  split at h
  · rename_i hroom
    exact ⟨hroom.1, hroom.2, (Option.some_inj.1 h).symm⟩
  · cases h

theorem hubStep_forward {s t : HubState cap} (h : hubStep s .forward = some t) :
    ∃ b rest, s.upQueue = b :: rest ∧ t = { s with upQueue := rest }.broadcast b := by
  simp only [hubStep] at h
  split at h
  · rename_i b rest hq
    exact ⟨b, rest, hq, (Option.some_inj.1 h).symm⟩
  · cases h

theorem hubStep_system {s t : HubState cap} {b : Bytes} (h : hubStep s (.system b) = some t) :
    s.hubOpen = true ∧ t = s.broadcast b := by
  simp only [hubStep] at h
  split at h
  · rename_i hopen
    exact ⟨hopen, (Option.some_inj.1 h).symm⟩
  · cases h

theorem hubStep_shutdown {s t : HubState cap} (h : hubStep s .shutdown = some t) :
    s.hubOpen = true ∧ s.upQueue = [] ∧ t = { s with hubOpen := false } := by
  simp only [hubStep] at h
  split at h
  · rename_i hend
    exact ⟨hend.1, hend.2, (Option.some_inj.1 h).symm⟩
  · cases h

theorem hubStep_subscribe {s t : HubState cap} {i : ℕ} {isExec : Bool}
    (h : hubStep s (.subscribe i isExec) = some t) : s.forwarders i = none ∧
      t = { s with
        chan := s.chan.subscribe.2
        forwarders := Function.update s.forwarders i
          (some (Forwarder.new isExec s.chan.subscribe.1 s.broadcasts.length)) } := by
  simp only [hubStep] at h
  split at h
  · rename_i hi
    exact ⟨hi.2, (Option.some_inj.1 h).symm⟩
  · cases h

/-- **Every step keeps the invariant.** -/
theorem hubStep_tracks {s t : HubState cap} {live : Finset ℕ} {a : HubAct} (h : s.Tracks live)
    (hs : hubStep s a = some t) : ∃ live', t.Tracks live' := by
  cases a with
  | push b =>
      obtain ⟨-, -, rfl⟩ := hubStep_push hs
      exact ⟨live, h.holds, h.count, h.mem_live, h.follows⟩
  | forward =>
      obtain ⟨b, rest, -, rfl⟩ := hubStep_forward hs
      have hrest : { s with upQueue := rest }.Tracks live :=
        ⟨h.holds, h.count, h.mem_live, h.follows⟩
      exact ⟨live, hrest.broadcast b⟩
  | system b =>
      obtain ⟨-, rfl⟩ := hubStep_system hs
      exact ⟨live, h.broadcast b⟩
  | shutdown =>
      obtain ⟨-, -, rfl⟩ := hubStep_shutdown hs
      exact ⟨live, h.holds, h.count, h.mem_live, h.follows⟩
  | subscribe i isExec =>
      obtain ⟨hi, rfl⟩ := hubStep_subscribe hs
      exact ⟨_, h.subscribe hi isExec⟩
  | client i a =>
      obtain ⟨f, g, hf, he, hg, rfl⟩ := hubStep_client hs
      exact ⟨_, h.update hf he ((h.follows i f hf).step h.holds he hg)⟩

/-! ### A client and the others -/

/-- The action is one of the upstream, of the system, or of the client `i`. -/
def concerns (i : ℕ) : HubAct → Bool
  | .subscribe j _ => j == i
  | .client j _ => j == i
  | _ => true

/-- To the client `i` the two hubs look alike: the same chunks have been broadcast, and its forward
task is the same up to the position of its cursor, with the same chunks to read. -/
structure Alike (i : ℕ) (s s' : HubState cap) : Prop where
  upQueue : s'.upQueue = s.upQueue
  hubOpen : s'.hubOpen = s.hubOpen
  broadcasts : s'.broadcasts = s.broadcasts
  unsubscribed : s.forwarders i = none → s'.forwarders i = none
  subscribed : ∀ f, s.forwarders i = some f → ∃ next, s'.forwarders i = some { f with next } ∧
    (f.ended = false → s'.log.drop next = s.log.drop f.next)

/-- What the other clients do makes no difference. -/
theorem Alike.others {i : ℕ} {s s' t : HubState cap} {a : HubAct} (h : Alike i s s')
    (ha : concerns i a = false) (hs : hubStep s a = some t) : Alike i t s' := by
  cases a with
  | subscribe j isExec =>
      have hj : i ≠ j := by
        rintro rfl
        simp [concerns] at ha
      simp only [hubStep] at hs
      split at hs
      · obtain rfl := Option.some_inj.1 hs
        refine ⟨h.upQueue, h.hubOpen, h.broadcasts, ?_, ?_⟩
        · simpa [Function.update_of_ne hj] using h.unsubscribed
        · simpa [Function.update_of_ne hj] using h.subscribed
      · cases hs
  | client j b =>
      have hj : i ≠ j := by
        rintro rfl
        simp [concerns] at ha
      obtain ⟨f, g, -, -, -, rfl⟩ := hubStep_client hs
      refine ⟨h.upQueue, h.hubOpen, h.broadcasts, ?_, ?_⟩
      · simpa [HubState.update, Function.update_of_ne hj] using h.unsubscribed
      · simpa [HubState.update, Function.update_of_ne hj] using h.subscribed
  | _ => simp [concerns] at ha

/-- A broadcast is one more chunk to read, here and there. -/
theorem Alike.broadcast {i : ℕ} {s s' : HubState cap} {live live' : Finset ℕ} (h : Alike i s s')
    (hs : s.Tracks live) (hs' : s'.Tracks live') (b : Bytes) :
    Alike i (s.broadcast b) (s'.broadcast b) where
  upQueue := h.upQueue
  hubOpen := h.hubOpen
  broadcasts := by
    simp [HubState.broadcast, h.broadcasts]
  unsubscribed := h.unsubscribed
  subscribed f hf := by
    obtain ⟨next, hf', hsame⟩ := h.subscribed f hf
    refine ⟨next, hf', fun he => ?_⟩
    have hle : f.next ≤ s.log.length := (hs.follows i f hf).cursor he
    have hle' : next ≤ s'.log.length := (hs'.follows i _ hf').cursor he
    simp only [HubState.broadcast, hs.rxCount_ne hf he, hs'.rxCount_ne hf' he, if_false]
    rw [List.drop_append_of_le_length hle, List.drop_append_of_le_length hle', hsame he]

/-- A forward task does the same at another cursor, if it gets the same. -/
theorem Forwarder.step_shift {f g : Forwarder} {got got' : Recv Bytes × ℕ} {hubOpen : Bool}
    {a : ForwarderAct} (h : f.step got hubOpen a = some g) (hgot : got'.1 = got.1) (next : ℕ) :
    ∃ m, Forwarder.step { f with next } got' hubOpen a = some { g with next := m } ∧
      (g.next = f.next ∧ m = next ∨ g.next = got.2 ∧ m = got'.2) := by
  simp only [step_iff_stepped]
  cases step_iff_stepped.1 h with
  | recvValue hh hr => exact ⟨got'.2, .recvValue hh (hgot.trans hr), .inr ⟨rfl, rfl⟩⟩
  | recvLagged hh hr => exact ⟨got'.2, .recvLagged hh (hgot.trans hr), .inr ⟨rfl, rfl⟩⟩
  | written hh => exact ⟨next, .written hh, .inl ⟨rfl, rfl⟩⟩
  | valueFails hh => exact ⟨next, .valueFails hh, .inl ⟨rfl, rfl⟩⟩
  | markFails hh => exact ⟨next, .markFails hh, .inl ⟨rfl, rfl⟩⟩
  | kicked hh => exact ⟨next, .kicked hh, .inl ⟨rfl, rfl⟩⟩
  | silence hh => exact ⟨next, .silence hh, .inl ⟨rfl, rfl⟩⟩
  | closed hh hclosed hr => exact ⟨next, .closed hh hclosed (hgot.trans hr), .inl ⟨rfl, rfl⟩⟩
  | aborted => exact ⟨next, .aborted, .inl ⟨rfl, rfl⟩⟩

/-- The client does the same. -/
theorem Alike.client {i : ℕ} {s s' t : HubState cap} {live live' : Finset ℕ} {a : ForwarderAct}
    (h : Alike i s s') (hs : s.Tracks live) (hs' : s'.Tracks live')
    (hstep : hubStep s (.client i a) = some t) :
    ∃ t', hubStep s' (.client i a) = some t' ∧ Alike i t t' := by
  obtain ⟨f, g, hf, he, hg, rfl⟩ := hubStep_client hstep
  obtain ⟨next, hf', hsame⟩ := h.subscribed f hf
  obtain ⟨hgot, hrest, -⟩ := hs.holds.recv ((hs.follows i f hf).cursor he)
  obtain ⟨hgot', hrest', -⟩ := hs'.holds.recv ((hs'.follows i _ hf').cursor he)
  dsimp only at hgot' hrest'
  rw [hsame he] at hgot' hrest'
  obtain ⟨m, hg', hm⟩ := Forwarder.step_shift hg (hgot'.trans hgot.symm) next
  refine ⟨s'.update i { g with next := m }, ?_, h.upQueue, h.hubOpen, h.broadcasts, ?_, ?_⟩
  · rw [hubStep_client_eq hf' he, h.hubOpen, hg', Option.map_some]
  · simp [HubState.update]
  · intro g' hg''
    simp only [HubState.update, Function.update_self, Option.some_inj] at hg''
    subst hg''
    refine ⟨m, by simp [HubState.update], fun _ => ?_⟩
    rcases hm with ⟨hgn, rfl⟩ | ⟨hgn, rfl⟩
    · rw [hgn]
      exact hsame he
    · rw [hgn]
      exact hrest'.trans hrest.symm

/-- The step that a client sees happens in both hubs. -/
theorem Alike.step {i : ℕ} {s s' t : HubState cap} {live live' : Finset ℕ} {a : HubAct}
    (h : Alike i s s') (hs : s.Tracks live) (hs' : s'.Tracks live') (ha : concerns i a = true)
    (hstep : hubStep s a = some t) : ∃ t', hubStep s' a = some t' ∧ Alike i t t' := by
  cases a with
  | push b =>
      obtain ⟨hopen, hroom, rfl⟩ := hubStep_push hstep
      have hroom' : s'.upQueue.length < capacity := h.upQueue.symm ▸ hroom
      exact ⟨_, if_pos ⟨h.hubOpen.trans hopen, hroom'⟩, congrArg (· ++ [b]) h.upQueue, h.hubOpen,
        h.broadcasts, h.unsubscribed, h.subscribed⟩
  | forward =>
      obtain ⟨b, rest, hq, rfl⟩ := hubStep_forward hstep
      have hrest : Alike i { s with upQueue := rest } { s' with upQueue := rest } :=
        ⟨rfl, h.hubOpen, h.broadcasts, h.unsubscribed, h.subscribed⟩
      refine ⟨HubState.broadcast { s' with upQueue := rest } b, ?_,
        hrest.broadcast ⟨hs.holds, hs.count, hs.mem_live, hs.follows⟩
          ⟨hs'.holds, hs'.count, hs'.mem_live, hs'.follows⟩ b⟩
      simp only [hubStep, h.upQueue, hq]
  | system b =>
      obtain ⟨hopen, rfl⟩ := hubStep_system hstep
      exact ⟨_, if_pos (h.hubOpen.trans hopen), h.broadcast hs hs' b⟩
  | shutdown =>
      obtain ⟨hopen, hq, rfl⟩ := hubStep_shutdown hstep
      exact ⟨_, if_pos ⟨h.hubOpen.trans hopen, h.upQueue.trans hq⟩, h.upQueue, rfl, h.broadcasts,
        h.unsubscribed, h.subscribed⟩
  | subscribe j isExec =>
      obtain rfl : j = i := by simpa [concerns] using ha
      simp only [hubStep] at hstep ⊢
      split at hstep
      · rename_i hfree
        rw [h.hubOpen, if_pos ⟨hfree.1, h.unsubscribed hfree.2⟩]
        obtain rfl := Option.some_inj.1 hstep
        refine ⟨_, rfl, h.upQueue, rfl, h.broadcasts, by simp, ?_⟩
        intro f hf
        simp only [Function.update_self, Option.some_inj] at hf
        subst hf
        refine ⟨s'.chan.subscribe.1, by simp [Forwarder.new, h.broadcasts], fun _ => ?_⟩
        have hpos : s.chan.subscribe.1 = s.log.length := hs.holds.pos
        have hpos' : s'.chan.subscribe.1 = s'.log.length := hs'.holds.pos
        simp [Forwarder.new, hpos, hpos']
      · cases hstep
  | client j b =>
      obtain rfl : j = i := by simpa [concerns] using ha
      exact h.client hs hs' hstep

/-- **The others might as well not be there**: without their actions a run of the hub is still one,
and the client sees the same. -/
theorem Alike.run {i : ℕ} {s s' t : HubState cap} {live live' : Finset ℕ} {as : List HubAct}
    (h : Alike i s s') (hs : s.Tracks live) (hs' : s'.Tracks live')
    (hr : exec hubStep s as = some t) :
    ∃ t', exec hubStep s' (as.filter (concerns i)) = some t' ∧ Alike i t t' := by
  -- the hub with all clients moves at each action, the other one at those that concern the client
  induction as generalizing s s' live live' with
  | nil =>
      obtain rfl := Option.some_inj.1 hr
      exact ⟨s', rfl, h⟩
  | cons a as ih =>
      obtain ⟨u, hu, hut⟩ := Option.bind_eq_some_iff.1 hr
      obtain ⟨liveu, hlive⟩ := hubStep_tracks hs hu
      cases ha : concerns i a with
      | false =>
          rw [List.filter_cons_of_neg (by simp [ha])]
          exact ih (h.others ha hu) hlive hs' hut
      | true =>
          obtain ⟨u', hu', halike⟩ := h.step hs hs' ha hu
          obtain ⟨liveu', hlive'⟩ := hubStep_tracks hs' hu'
          obtain ⟨t', ht', hsame⟩ := ih halike hlive hlive' hut
          rw [List.filter_cons_of_pos ha, exec_cons_some hu']
          exact ⟨t', ht', hsame⟩

/-! ### Lagging -/

/-- What a forward task has received, not counting a chunk that it has failed to write. -/
def Forwarder.received (f : Forwarder) : List (Delivery Bytes) := f.handed ++ f.hand.toList

/-- **The client does not lag** at this step: when it receives, the chunks that have been broadcast
since its subscription are at most a ring of chunks more than the times it has received. -/
def KeepsUp (i : ℕ) (s : HubState cap) (a : HubAct) : Prop :=
  a = .client i .recv → ∀ f, s.forwarders i = some f →
    (s.broadcasts.drop f.start).length ≤ f.received.length + cap

instance (i : ℕ) (s : HubState cap) (a : HubAct) : Decidable (KeepsUp i s a) :=
  decidable_of_iff (a = .client i .recv → ∀ f ∈ s.forwarders i,
    (s.broadcasts.drop f.start).length ≤ f.received.length + cap) Iff.rfl

/-- The client has not received a mark. -/
def Unmarked (i : ℕ) (s : HubState cap) : Prop :=
  ∀ f, s.forwarders i = some f → f.failed = false ∧ .mark ∉ f.received

/-- **What is received**: if more than a ring of chunks is unread, a mark, and else the oldest
unread chunk. -/
theorem HubState.Tracks.recv {s t : HubState cap} {live : Finset ℕ} (h : s.Tracks live) {i : ℕ}
    {f : Forwarder} (hf : s.forwarders i = some f) (hs : hubStep s (.client i .recv) = some t) :
    ∃ g, t.forwarders i = some g ∧ f.hand = none ∧ g.handed = f.handed ∧ g.failed = f.failed ∧
      g.hand = if cap < (s.log.drop f.next).length then some .mark
        else (s.log.drop f.next).head?.map .value := by
  obtain ⟨f', g, hf', he, hg, rfl⟩ := hubStep_client hs
  obtain rfl := Option.some_inj.1 (hf.symm.trans hf')
  obtain ⟨hgot, -, -⟩ := h.holds.recv ((h.follows i f hf).cursor he)
  refine ⟨g, by simp [HubState.update], ?_⟩
  by_cases hlt : cap < (s.log.drop f.next).length
  · rw [take_of_lt hlt] at hgot
    rw [if_pos hlt]
    cases Forwarder.step_iff_stepped.1 hg with
    | recvValue hh hval => cases hgot.symm.trans hval
    | recvLagged hh _ => exact ⟨hh, rfl, rfl, rfl⟩
  · rw [if_neg hlt]
    cases hunread : s.log.drop f.next with
    | nil =>
        rw [hunread, take_nil] at hgot
        cases Forwarder.step_iff_stepped.1 hg with
        | recvValue hh hval => cases hgot.symm.trans hval
        | recvLagged hh hlag => cases hgot.symm.trans hlag
    | cons b rest =>
        rw [hunread] at hgot hlt
        rw [take_cons (Nat.not_lt.1 hlt)] at hgot
        cases Forwarder.step_iff_stepped.1 hg with
        | recvValue hh hval =>
            obtain rfl : b = _ := Recv.value.inj (hgot.symm.trans hval)
            exact ⟨hh, rfl, rfl, rfl⟩
        | recvLagged hh hlag => cases hgot.symm.trans hlag

omit [NeZero cap] in
/-- Without marks, a forward task has received what was broadcast up to its cursor. -/
theorem Forwarder.Follows.unmarked {broadcasts log : List Bytes} {f : Forwarder}
    (h : f.Follows cap broadcasts log) (hok : f.failed = false) (hmark : .mark ∉ f.received) :
    ∃ unread, (broadcasts.drop f.start).map .value = f.received ++ unread.map .value ∧
      (f.ended = false → unread = log.drop f.next) := by
  obtain ⟨consumed, unread, hsplit, hmarked, hunread⟩ := h.marked hok
  refine ⟨unread, ?_, hunread⟩
  rw [hsplit, List.map_append, received, hmarked.complete hmark]

/-- No other step than receiving brings a mark. -/
theorem Forwarder.step_unmarked {f g : Forwarder} {got : Recv Bytes × ℕ} {hubOpen : Bool}
    {a : ForwarderAct} (hs : f.step got hubOpen a = some g) (ha : a ≠ .recv)
    (hok : f.failed = false) (hmark : .mark ∉ f.received) :
    g.failed = false ∧ .mark ∉ g.received := by
  have left : ∀ farewell, (f.leave farewell).failed = false ∧
      .mark ∉ (f.leave farewell).received := fun farewell =>
    ⟨hok, fun hmem => hmark (List.mem_append_left _ (by simpa [received, leave] using hmem))⟩
  cases step_iff_stepped.1 hs with
  | recvValue | recvLagged => exact absurd rfl ha
  | written hh => exact ⟨hok, by simpa [received, hh] using hmark⟩
  | markFails hh => exact absurd (by simp [received, hh]) hmark
  | valueFails | kicked | silence | closed | aborted => exact left _

/-- **A client that has not received a mark receives none exactly if it does not lag.** -/
theorem HubState.Tracks.unmarked_iff {s t : HubState cap} {live : Finset ℕ} (h : s.Tracks live)
    {i : ℕ} {a : HubAct} (hp : Unmarked i s) (hs : hubStep s a = some t) :
    Unmarked i t ↔ KeepsUp i s a := by
  have other : a ≠ .client i .recv → Unmarked i t → (Unmarked i t ↔ KeepsUp i s a) :=
    fun ha ht => iff_of_true ht fun hrecv => absurd hrecv ha
  cases a with
  | push b =>
      obtain ⟨-, -, rfl⟩ := hubStep_push hs
      exact other nofun hp
  | forward =>
      obtain ⟨b, rest, -, rfl⟩ := hubStep_forward hs
      exact other nofun hp
  | system b =>
      obtain ⟨-, rfl⟩ := hubStep_system hs
      exact other nofun hp
  | shutdown =>
      obtain ⟨-, -, rfl⟩ := hubStep_shutdown hs
      exact other nofun hp
  | subscribe j isExec =>
      obtain ⟨-, rfl⟩ := hubStep_subscribe hs
      refine other nofun fun f hf => ?_
      by_cases hj : i = j
      · subst hj
        obtain rfl := Option.some_inj.1 ((Function.update_self i _ s.forwarders).symm.trans hf)
        exact ⟨rfl, List.not_mem_nil⟩
      · exact hp f ((Function.update_of_ne hj _ s.forwarders).symm.trans hf)
  | client j b =>
      by_cases hj : i = j
      · subst hj
        obtain ⟨f, g, hf, he, hg, rfl⟩ := hubStep_client hs
        obtain ⟨hok, hmark⟩ := hp f hf
        by_cases hb : b = .recv
        · -- what the client has received is as long as what it has read
          subst hb
          obtain ⟨unread, hall, hunread⟩ := (h.follows i f hf).unmarked hok hmark
          obtain rfl := hunread he
          have hlen := congrArg List.length hall
          rw [List.length_append, List.length_map, List.length_map] at hlen
          have hkeeps : KeepsUp i s (.client i .recv) ↔ ¬ cap < (s.log.drop f.next).length := by
            constructor
            · intro hk
              have := hk rfl f hf
              omega
            · rintro hle - f' hf'
              obtain rfl := Option.some_inj.1 (hf.symm.trans hf')
              omega
          obtain ⟨g', hg', hhand, hhanded, hfailed, hgot⟩ := h.recv hf hs
          rw [hkeeps]
          constructor
          · intro ht hlt
            rw [if_pos hlt] at hgot
            exact (ht g' hg').2 (by simp [Forwarder.received, hgot])
          · intro hle f' hf'
            obtain rfl := Option.some_inj.1 (hg'.symm.trans hf')
            rw [if_neg hle] at hgot
            refine ⟨hfailed.trans hok, fun hmem => hmark ?_⟩
            rw [Forwarder.received, hhanded, hgot] at hmem
            rcases List.mem_append.1 hmem with hmem | hmem
            · exact List.mem_append_left _ hmem
            · cases (s.log.drop f.next).head? <;> simp at hmem
        · refine other (fun heq => hb (by injection heq)) fun f' hf' => ?_
          obtain rfl := Option.some_inj.1 ((Function.update_self i _ s.forwarders).symm.trans hf')
          exact Forwarder.step_unmarked hg hb hok hmark
      · obtain ⟨f, g, -, -, -, rfl⟩ := hubStep_client hs
        refine other (fun heq => hj (by injection heq with h; exact h.symm)) fun f' hf' => ?_
        exact hp f' ((Function.update_of_ne hj _ s.forwarders).symm.trans hf')

/-! ### The result -/

/-- **What a client has been handed**, until writing to its SSH channel fails, is a marked delivery
of a beginning of what was broadcast after its subscription. -/
def HubState.Delivers (s : HubState cap) (f : Forwarder) : Prop :=
  f.failed = false → ∃ consumed pending, s.broadcasts.drop f.start = consumed ++ pending ∧
    Marked cap (s.broadcasts.drop f.start).length consumed f.handed

/-- **What a client receives** is the next item of a marked delivery: it goes on where what it has
received ends, with a mark if more than a ring of chunks is unread, and else with the oldest unread
chunk. -/
def HubState.Reads (s : HubState cap) (i : ℕ) (f : Forwarder) : Prop :=
  f.failed = false → f.ended = false → ∃ consumed unread,
    s.broadcasts.drop f.start = consumed ++ unread ∧
    Marked cap (s.broadcasts.drop f.start).length consumed f.received ∧
    ∀ t, hubStep s (.client i .recv) = some t → ∃ g, t.forwarders i = some g ∧
      g.received = f.received ++ Option.toList (if cap < unread.length then some .mark
        else unread.head?.map .value)

/-- **A client misses nothing**: all that was broadcast after its subscription has been handed to
it, is being written, or can be read; and after its end, what it has been handed is a beginning. -/
def HubState.MissesNothing (s : HubState cap) (f : Forwarder) : Prop :=
  f.received <+: (s.broadcasts.drop f.start).map .value ∧
  (f.ended = false → (s.broadcasts.drop f.start).map .value =
    f.received ++ (s.log.drop f.next).map .value)

/-- **Nobody waits for a client**: the upstream and the system can broadcast, and the client `i`
can receive what it has to read, whatever the others do. -/
def HubState.Flows (s : HubState cap) (i : ℕ) (f : Forwarder) : Prop :=
  (s.upQueue ≠ [] → (hubStep s .forward).isSome) ∧
  (s.hubOpen = true → ∀ b, (hubStep s (.system b)).isSome) ∧
  (f.ended = false → f.hand = none → s.log.drop f.next ≠ [] →
    (hubStep s (.client i .recv)).isSome)

theorem HubState.Tracks.delivers {s : HubState cap} {live : Finset ℕ} (h : s.Tracks live) {i : ℕ}
    {f : Forwarder} (hf : s.forwarders i = some f) : s.Delivers f := by
  intro hok
  obtain ⟨consumed, unread, hsplit, hmarked, -⟩ := (h.follows i f hf).marked hok
  cases hh : f.hand with
  | none =>
      rw [hh, Option.toList_none, List.append_nil] at hmarked
      exact ⟨consumed, unread, hsplit, hmarked⟩
  | some d =>
      rw [hh, Option.toList_some] at hmarked
      obtain ⟨before, g, rfl, hbefore⟩ := hmarked.of_concat
      exact ⟨before, g ++ unread, by rw [hsplit, List.append_assoc], hbefore⟩

theorem HubState.Tracks.reads {s : HubState cap} {live : Finset ℕ} (h : s.Tracks live) {i : ℕ}
    {f : Forwarder} (hf : s.forwarders i = some f) : s.Reads i f := by
  intro hok he
  obtain ⟨consumed, unread, hsplit, hmarked, hunread⟩ := (h.follows i f hf).marked hok
  refine ⟨consumed, unread, hsplit, hmarked, fun t hs => ?_⟩
  obtain ⟨g, hg, hhand, hhanded, -, hgot⟩ := h.recv hf hs
  refine ⟨g, hg, ?_⟩
  rw [Forwarder.received, Forwarder.received, hhanded, hgot, hunread he, hhand,
    Option.toList_none, List.append_nil]

theorem HubState.Tracks.missesNothing {s : HubState cap} {live : Finset ℕ} (h : s.Tracks live)
    {i : ℕ} {f : Forwarder} (hf : s.forwarders i = some f) (hmark : Unmarked i s) :
    s.MissesNothing f := by
  obtain ⟨unread, hall, hunread⟩ := (h.follows i f hf).unmarked (hmark f hf).1 (hmark f hf).2
  exact ⟨⟨_, hall.symm⟩, fun he => hunread he ▸ hall⟩

theorem HubState.Tracks.flows {s : HubState cap} {live : Finset ℕ} (h : s.Tracks live) {i : ℕ}
    {f : Forwarder} (hf : s.forwarders i = some f) : s.Flows i f := by
  refine ⟨fun hq => ?_, fun ho b => ?_, fun he hh hread => ?_⟩
  · cases hup : s.upQueue with
    | nil => exact absurd hup hq
    | cons b rest => simp [hubStep, hup]
  · simp [hubStep, ho]
  · rw [hubStep_client_eq hf he, Option.isSome_map]
    obtain ⟨hgot, -, -⟩ := h.holds.recv ((h.follows i f hf).cursor he)
    by_cases hlt : cap < (s.log.drop f.next).length
    · rw [take_of_lt hlt] at hgot
      rw [Forwarder.step_iff_stepped.2 (.recvLagged hh hgot)]
      rfl
    · cases hr : s.log.drop f.next with
      | nil => exact absurd hr hread
      | cons b rest =>
          rw [hr] at hgot hlt
          rw [take_cons (Nat.not_lt.1 hlt)] at hgot
          rw [Forwarder.step_iff_stepped.2 (.recvValue hh hgot)]
          rfl

/-- **The fan-out of a hub**, for every run, every client and every capacity of the ring. -/
theorem fanOut_integrity (as : List HubAct) (s : HubState cap)
    (hr : exec hubStep (HubState.init cap) as = some s) (i : ℕ) (f : Forwarder)
    (hf : s.forwarders i = some f) :
    s.Delivers f ∧ s.Reads i f ∧
      (Along hubStep (Unmarked i) (HubState.init cap) as ↔
        Meets hubStep (KeepsUp i) (HubState.init cap) as) ∧
      (Meets hubStep (KeepsUp i) (HubState.init cap) as → s.MissesNothing f) ∧ s.Flows i f ∧
      ∃ s', exec hubStep (HubState.init cap) (as.filter (concerns i)) = some s' ∧
        Alike i s s' := by
  have hstep : ∀ (u : HubState cap) (a : HubAct) (v : HubState cap), (∃ live, u.Tracks live) →
      hubStep u a = some v → ∃ live, v.Tracks live := fun u a v ⟨live, hlive⟩ hs =>
    hubStep_tracks hlive hs
  obtain ⟨live, hlive⟩ : ∃ live, s.Tracks live :=
    (reachable_of_exec hr).invariant (I := fun s => ∃ live, HubState.Tracks s live)
      ⟨∅, HubState.tracks_init⟩ fun u a v hu _ hs => hstep u a v hu hs
  have hexact : Along hubStep (Unmarked i) (HubState.init cap) as ↔
      Meets hubStep (KeepsUp i) (HubState.init cap) as :=
    along_iff_meets hstep (fun u a v ⟨_, hu⟩ hp hs => hu.unmarked_iff hp hs)
      ⟨∅, HubState.tracks_init⟩ (fun f hf => nomatch hf) hr
  -- both runs start from the same hub
  have hself : Alike i (HubState.init cap) (HubState.init cap) :=
    ⟨rfl, rfl, rfl, fun h => h, fun g hg => nomatch hg⟩
  exact ⟨hlive.delivers hf, hlive.reads hf, hexact,
    fun hmeets => hlive.missesNothing hf ((hexact.2 hmeets).last hr), hlive.flows hf,
    hself.run HubState.tracks_init HubState.tracks_init hr⟩

/-- Two clients, a ring of two chunks, and three chunks: the second client keeps up, the first one
lags. -/
def slowAndFast : List HubAct :=
  [.subscribe 0 false, .subscribe 1 false, .system [1], .client 1 .recv, .client 1 .written,
    .system [2], .client 1 .recv, .client 1 .written, .push [3], .forward, .client 1 .recv,
    .client 1 .written, .client 0 .recv, .client 0 .written, .client 0 .recv, .client 0 .written]

theorem fanOut_integrity_slow : ∃ (s : HubState 2) (f g : Forwarder),
    exec hubStep (HubState.init 2) slowAndFast = some s ∧ s.forwarders 0 = some f ∧
    f.handed.map deliveryBytes = [laggedLine, [2]] ∧ s.Delivers f ∧
    ¬ Along hubStep (Unmarked 0) (HubState.init 2) slowAndFast ∧
    s.forwarders 1 = some g ∧ g.handed.map deliveryBytes = [[1], [2], [3]] ∧ s.MissesNothing g ∧
    ∃ s', exec hubStep (HubState.init 2) (slowAndFast.filter (concerns 1)) = some s' ∧
      Alike 1 s s' := by
  have hrun : ∃ (s : HubState 2) (f g : Forwarder),
      exec hubStep (HubState.init 2) slowAndFast = some s ∧ s.forwarders 0 = some f ∧
      f.handed.map deliveryBytes = [laggedLine, [2]] ∧ s.forwarders 1 = some g ∧
      g.handed.map deliveryBytes = [[1], [2], [3]] := ⟨_, _, _, rfl, rfl, rfl, rfl, rfl⟩
  obtain ⟨s, f, g, hs, hf, hhanded, hg, hghanded⟩ := hrun
  obtain ⟨hdel, -, hexact, -, -, -⟩ := fanOut_integrity slowAndFast s hs 0 f hf
  obtain ⟨-, -, -, hall, -, halone⟩ := fanOut_integrity slowAndFast s hs 1 g hg
  exact ⟨s, f, g, hs, hf, hhanded, hdel, fun h => absurd (hexact.1 h) (by decide), hg, hghanded,
    hall (by decide), halone⟩

end Hub

end TermHub
