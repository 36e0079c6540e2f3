/-
**The limit of the clients.**

`start_shell_or_exec` compares `subscriber_count` with `max_clients` and subscribes only later,
after it has attached the client and sent the input of the command.  Between the two the handler
suspends, and requests of other connections may pass the same comparison.

Main definitions:

* `WithinLimit` — no more forwarders are live than the limit allows;
* `Room` — a subscription finds room;
* `Door.waiting`, `Reserved` — the requests between the comparison and their subscriptions, and the
  comparison that would count them.

Main results:

* `withinLimit_iff` — the forwarders are counted by the receivers of the hub;
* `limit_iff` — **the limit holds along a run exactly if every subscription finds room, and it does
  if no request passes the comparison when the waiting ones have taken the last places**.
-/

import TermHub.Outlive

set_option relaxedAutoImplicit false
set_option autoImplicit false

namespace TermHub

namespace Sshd

open Transition Hub Broadcast
open Runner (Bytes)

variable {cap : ℕ}

/-! ### What is wanted -/

/-- **The limit holds**: there are at most `maxClients` live forwarders. -/
def WithinLimit (d : Door cap) : Prop :=
  ∀ live : Finset ℕ, (∀ n ∈ live, ∃ f, d.hub.forwarders n = some f ∧ f.ended = false) →
    live.card ≤ d.maxClients

/-- A subscription finds room. -/
def Room (d : Door cap) : DoorAct → Prop
  | .subscribe _ => d.hub.chan.rxCount < d.maxClients
  | _ => True

instance (d : Door cap) : (a : DoorAct) → Decidable (Room d a)
  | .subscribe _ => inferInstanceAs (Decidable (d.hub.chan.rxCount < d.maxClients))
  | .accept _ | .auth _ _ _ | .shell _ _ | .exec _ _ _ | .attach _ | .inputSent _ _ | .data _ _ _
  | .eof _ _ | .close _ _ | .disconnect _ | .kick _ | .task _ _ | .push _ | .forward | .system _
  | .shutdown => .isTrue trivial

/-- How many requests have passed the limit and not yet subscribed. -/
def Door.waiting (d : Door cap) : ℕ := d.conns.countP fun c => c.pending.isSome

/-- A request that passes the comparison would pass it also if the waiting ones were counted. -/
def Reserved (d : Door cap) (a : DoorAct) : Prop :=
  a.IsRequest → d.hub.chan.rxCount < d.maxClients → d.hub.chan.rxCount + d.waiting < d.maxClients

instance : (a : DoorAct) → Decidable a.IsRequest
  | .shell _ _ | .exec _ _ _ => .isTrue trivial
  | .accept _ | .auth _ _ _ | .attach _ | .inputSent _ _ | .subscribe _ | .data _ _ _ | .eof _ _
  | .close _ _ | .disconnect _ | .kick _ | .task _ _ | .push _ | .forward | .system _
  | .shutdown => .isFalse id

instance (d : Door cap) (a : DoorAct) : Decidable (Reserved d a) :=
  inferInstanceAs (Decidable (a.IsRequest → d.hub.chan.rxCount < d.maxClients →
    d.hub.chan.rxCount + d.waiting < d.maxClients))

/-! ### Counting -/

/-- The forwarders are counted by the receivers of the hub. -/
theorem withinLimit_iff [NeZero cap] {d : Door cap} {live : Finset ℕ} (h : d.hub.Tracks live) :
    WithinLimit d ↔ d.hub.chan.rxCount ≤ d.maxClients := by
  rw [h.count]
  constructor
  · exact fun hall => hall live fun n hn => (h.mem_live n).1 hn
  · intro hle s hs
    exact (Finset.card_le_card fun n hn => (h.mem_live n).2 (hs n hn)).trans hle

variable [NeZero cap]

theorem hubStep_rxCount {s t : HubState cap} {b : HubAct} (h : hubStep s b = some t)
    (hb : ∀ n isExec, b ≠ .subscribe n isExec) : t.chan.rxCount ≤ s.chan.rxCount := by
  have broadcast_same (u : HubState cap) (x : Bytes) :
      (u.broadcast x).chan.rxCount = u.chan.rxCount := by
    unfold HubState.broadcast Channel.send
    split <;> rfl
  cases b with
  | push x =>
      obtain ⟨-, -, rfl⟩ := hubStep_push h
      exact Nat.le_refl _
  | forward =>
      obtain ⟨x, rest, -, rfl⟩ := hubStep_forward h
      exact (broadcast_same _ x).le
  | system x =>
      obtain ⟨-, rfl⟩ := hubStep_system h
      exact (broadcast_same s x).le
  | shutdown =>
      obtain ⟨-, -, rfl⟩ := hubStep_shutdown h
      exact Nat.le_refl _
  | subscribe n isExec => exact absurd rfl (hb n isExec)
  | client n a =>
      obtain ⟨f, g, -, -, -, rfl⟩ := hubStep_client h
      unfold HubState.update
      split
      · exact Nat.sub_le _ _
      · exact Nat.le_refl _

section Steps

variable {d t : Door cap} {a : DoorAct}

/-- What every run keeps. -/
def Counted (d : Door cap) : Prop := ∃ live, d.hub.Tracks live

theorem Counted.step (h : Counted d) (hs : doorStep d a = some t) : Counted t := by
  obtain ⟨live, hlive⟩ := h
  rcases doorStep_hubStep hs with hhub | ⟨b, hhub, -⟩
  · exact ⟨live, hhub ▸ hlive⟩
  · exact hubStep_tracks hlive hhub

/-- Only a subscription adds a receiver. -/
theorem doorStep_rxCount (hs : doorStep d a = some t) (ha : ∀ i, a ≠ .subscribe i) :
    t.hub.chan.rxCount ≤ d.hub.chan.rxCount := by
  rcases doorStep_hubStep hs with hhub | ⟨b, hhub, hb⟩
  · rw [hhub]
  · refine hubStep_rxCount hhub fun n isExec he => ?_
    obtain ⟨i, hi⟩ := hb n isExec he
    exact ha i hi

theorem subscribe_rxCount {i : ℕ} (hs : doorStep d (.subscribe i) = some t) :
    t.hub.chan.rxCount = d.hub.chan.rxCount + 1 := by
  obtain ⟨c, channel, isExec, id, hub, -, -, hhub, rfl⟩ := doorStep_subscribe hs
  obtain ⟨-, rfl⟩ := hubStep_subscribe hhub
  rfl

/-- A door stays within its limit exactly if the step finds room. -/
theorem withinLimit_step (hc : Counted d) (hw : WithinLimit d) (hs : doorStep d a = some t) :
    WithinLimit t ↔ Room d a := by
  obtain ⟨live, hlive⟩ := hc
  obtain ⟨live', hlive'⟩ := Counted.step ⟨live, hlive⟩ hs
  have hmax := (doorStep_fixed hs).2
  rw [withinLimit_iff hlive] at hw
  rw [withinLimit_iff hlive', hmax]
  cases a with
  | subscribe i =>
      rw [subscribe_rxCount hs]
      exact Nat.succ_le_iff
  | _ =>
      have hle := doorStep_rxCount hs (by simp)
      exact ⟨fun _ => trivial, fun _ => hle.trans hw⟩

/-- Only a request that passes the comparison adds one that waits. -/
theorem doorStep_waiting (hs : doorStep d a = some t) : t.waiting ≤ d.waiting ∨
    a.IsRequest ∧ d.hub.chan.rxCount < d.maxClients ∧ t.waiting ≤ d.waiting + 1 := by
  unfold Door.waiting
  rcases doorStep_conns hs with hc | ⟨peer, hc⟩ | ⟨i, c, c', hc, hm⟩
  · exact .inl (hc ▸ Nat.le_refl _)
  · exact .inl (by simp [hc])
  · obtain ⟨hi, rfl⟩ := List.getElem?_eq_some_iff.1 (Door.openConn_some hm.wasOpen).1
    rw [hc, List.countP_set hi]
    cases hw : c'.pending.isSome with
    | false =>
        refine .inl ?_
        simp only [Bool.false_eq_true, if_false]
        omega
    | true =>
        rcases hm.waits hw with hold | ⟨ha, hroom⟩
        · have hpos : 0 < d.conns.countP fun c => c.pending.isSome :=
            List.countP_pos_iff.2 ⟨_, List.getElem_mem hi, hold⟩
          refine .inl ?_
          simp only [hold, if_true]
          omega
        -- a request that has passed the comparison waits until it subscribes
        · refine .inr ⟨ha, hroom, ?_⟩
          simp only [if_true]
          split <;> omega

/-- A subscription ends the wait. -/
theorem subscribe_waiting {i : ℕ} (hs : doorStep d (.subscribe i) = some t) :
    t.waiting + 1 = d.waiting := by
  obtain ⟨c, channel, isExec, id, hub, hc, hp, -, rfl⟩ := doorStep_subscribe hs
  obtain ⟨hi, rfl⟩ := List.getElem?_eq_some_iff.1 (Door.openConn_some hc).1
  have hpos : 0 < d.conns.countP fun c => c.pending.isSome :=
    List.countP_pos_iff.2 ⟨_, List.getElem_mem hi, by rw [hp]; rfl⟩
  simp only [Door.waiting, Door.setConn]
  rw [List.countP_set hi, hp]
  simp only [Option.isSome_some, Option.isSome_none, Bool.false_eq_true, if_true, if_false]
  omega

/-- **Places that are counted as taken stay within the limit.** -/
theorem reserved_step (hle : d.hub.chan.rxCount + d.waiting ≤ d.maxClients) (ha : Reserved d a)
    (hs : doorStep d a = some t) : t.hub.chan.rxCount + t.waiting ≤ t.maxClients := by
  have hmax := (doorStep_fixed hs).2
  by_cases hsub : ∃ i, a = .subscribe i
  · obtain ⟨i, rfl⟩ := hsub
    have h₁ := subscribe_rxCount hs
    have h₂ := subscribe_waiting hs
    omega
  · have h₁ := doorStep_rxCount hs fun i hi => hsub ⟨i, hi⟩
    rcases doorStep_waiting hs with h₂ | ⟨hreq, hroom, h₂⟩
    · omega
    · have h₃ := ha hreq hroom
      omega

end Steps

/-! ### Whole runs -/

/-- A door with nobody at it. -/
theorem counted_new (mgr : SessionMgr) (maxClients : ℕ) :
    Counted (Door.new cap mgr maxClients) := ⟨∅, HubState.tracks_init⟩

/-- Reserving the places is enough. -/
theorem withinLimit_of_reserved {d : Door cap} (as : List DoorAct) (hc : Counted d)
    (hle : d.hub.chan.rxCount + d.waiting ≤ d.maxClients) (ha : Meets doorStep Reserved d as) :
    Along doorStep WithinLimit d as := by
  have hw : WithinLimit d := by
    obtain ⟨live, hlive⟩ := hc
    exact (withinLimit_iff hlive).2 ((Nat.le_add_right _ _).trans hle)
  induction as generalizing d with
  | nil => exact hw
  | cons a as ih =>
      refine ⟨hw, fun t ht => ?_⟩
      have hct := hc.step ht
      have hlet := reserved_step hle ha.1 ht
      refine ih hct hlet (ha.2 t ht) ?_
      obtain ⟨live, hlive⟩ := hct
      exact (withinLimit_iff hlive).2 ((Nat.le_add_right _ _).trans hlet)

/-- **The limit holds in every state of a run exactly if every subscription of the run finds room;
and every subscription does, if each request that passes the comparison would pass it also with the
waiting requests counted.** -/
theorem limit_iff {mgr : SessionMgr} {maxClients : ℕ} {as : List DoorAct} {t : Door cap}
    (hr : exec doorStep (Door.new cap mgr maxClients) as = some t) :
    (Along doorStep WithinLimit (Door.new cap mgr maxClients) as ↔
      Meets doorStep Room (Door.new cap mgr maxClients) as) ∧
    (Meets doorStep Reserved (Door.new cap mgr maxClients) as →
      Along doorStep WithinLimit (Door.new cap mgr maxClients) as) := by
  have hzero : (Door.new cap mgr maxClients).hub.chan.rxCount +
      (Door.new cap mgr maxClients).waiting ≤ maxClients := Nat.zero_le _
  refine ⟨?_, withinLimit_of_reserved as (counted_new mgr maxClients) hzero⟩
  refine along_iff_meets (I := Counted) (fun d a t hc hs => hc.step hs) ?_
    (counted_new mgr maxClients) ?_ hr
  · exact fun d a t hc hw hs => withinLimit_step hc hw hs
  · exact (withinLimit_iff HubState.tracks_init).2 (Nat.zero_le _)

/-- Three clients at a session for two: the requests of two of them overlap, and the third one comes
when they have subscribed. -/
def overlappingRequests : List DoorAct :=
  [.accept "10.0.0.9:50000", .accept "10.0.0.9:50001", .accept "10.0.0.9:50002",
    .auth 0 "admin" "pass", .auth 1 "admin" "pass", .auth 2 "admin" "pass", .shell 0 0, .shell 1 0,
    .attach 1, .attach 0, .subscribe 1, .subscribe 0, .shell 2 0]

theorem limit_iff_overlapping :
    Along doorStep WithinLimit (Door.new 4 createdMgr 2) overlappingRequests := by
  obtain ⟨t, ht⟩ : ∃ t, exec doorStep (Door.new 4 createdMgr 2) overlappingRequests = some t :=
    ⟨_, rfl⟩
  exact (limit_iff ht).2 (by decide)

/-- **Two clients in a session for one**: both have passed the comparison before either of them has
subscribed. -/
theorem limit_exceeded :
    ¬ ∀ (mgr : SessionMgr) (maxClients : ℕ) (as : List DoorAct) (t : Door 4),
      exec doorStep (Door.new 4 mgr maxClients) as = some t →
      Along doorStep WithinLimit (Door.new 4 mgr maxClients) as := by
  intro h
  obtain ⟨t, f, g, ht, hf, hg, hfe, hge, hmax⟩ : ∃ t f g,
      exec doorStep (Door.new 4 createdMgr 1)
        [.accept "10.0.0.9:50000", .accept "10.0.0.9:50001", .auth 0 "admin" "pass",
          .auth 1 "admin" "pass", .shell 0 0, .shell 1 0, .attach 0, .attach 1, .subscribe 0,
          .subscribe 1] = some t ∧
      t.hub.forwarders 0 = some f ∧ t.hub.forwarders 1 = some g ∧ f.ended = false ∧
      g.ended = false ∧ t.maxClients = 1 := ⟨_, _, _, rfl, rfl, rfl, rfl, rfl, rfl⟩
  have hle := (h createdMgr 1 _ t ht).last ht {0, 1} fun n hn => by
    rcases Finset.mem_insert.1 hn with rfl | hn
    · exact ⟨f, hf, hfe⟩
    · rw [Finset.mem_singleton.1 hn]
      exact ⟨g, hg, hge⟩
  rw [hmax] at hle
  exact absurd hle (by decide)

end Sshd

end TermHub
