/-
**What an exec client gets to see of the reply.**

`start_shell_or_exec` sends the command to the hub first and subscribes to the output after that; a
forward task then writes what it receives.  The upstream answers as soon as it has the command, the
task leaves its loop when its timer fires, and it is aborted when a channel of the connection ends.

Main definitions:

* `Exchange`, `Answer`, `Replies` — the commands that the hub has accepted, those whose channel is
  open, and what was written to the others until they were closed;
* `HubState.Covers`, `Replies.Heard` — every chunk since the command has been written, is being
  written, or can still be read; on a closed channel it has been written;
* `HubState.Drained`, `Timely` — a forward task has nothing left to write; it is not cut short
  before that, and nothing is broadcast before it has subscribed.

Main results:

* `covers_broadcast`, `covers_step` — what a chunk and a step of the forward task do;
* `heard_step` — a step keeps the replies exactly if it is timely;
* `reply_heard_iff` — **exec clients see the whole reply along a run exactly if every step of it is
  timely**.
-/

import TermHub.ClientLimit

set_option relaxedAutoImplicit false
set_option autoImplicit false

namespace TermHub

namespace Hub

open Broadcast
open Runner (Bytes)

variable {cap : ℕ}

/-! ### One forward task -/

/-- Every chunk that was broadcast after the first `since` ones has been written, is being written,
or can be read. -/
def HubState.Covers (s : HubState cap) (since : ℕ) (f : Forwarder) : Prop :=
  (s.broadcasts.drop since).map .value =
    f.handed ++ f.hand.toList ++ (if f.ended then [] else (s.log.drop f.next).map .value)

/-- A forward task has nothing left to write. -/
def HubState.Drained (s : HubState cap) (f : Forwarder) : Prop :=
  f.hand = none ∧ (f.ended = true ∨ s.log.length ≤ f.next)

instance (s : HubState cap) (f : Forwarder) : Decidable (s.Drained f) :=
  inferInstanceAs (Decidable (f.hand = none ∧ (f.ended = true ∨ s.log.length ≤ f.next)))

/-- What has been broadcast stays. -/
theorem hubStep_broadcasts [NeZero cap] {s t : HubState cap} {a : HubAct}
    (h : hubStep s a = some t) : ∃ more, t.broadcasts = s.broadcasts ++ more := by
  cases a with
  | push b =>
      obtain ⟨-, -, rfl⟩ := hubStep_push h
      exact ⟨[], (List.append_nil _).symm⟩
  | forward =>
      obtain ⟨b, rest, -, rfl⟩ := hubStep_forward h
      exact ⟨[b], rfl⟩
  | system b =>
      obtain ⟨-, rfl⟩ := hubStep_system h
      exact ⟨[b], rfl⟩
  | shutdown =>
      obtain ⟨-, -, rfl⟩ := hubStep_shutdown h
      exact ⟨[], (List.append_nil _).symm⟩
  | subscribe i isExec =>
      obtain ⟨-, rfl⟩ := hubStep_subscribe h
      exact ⟨[], (List.append_nil _).symm⟩
  | client i a =>
      obtain ⟨f, g, -, -, -, rfl⟩ := hubStep_client h
      exact ⟨[], (List.append_nil _).symm⟩

section Covers

variable {s t : HubState cap} {since : ℕ} {f g : Forwarder}

/-- All has been written exactly if nothing is left to write. -/
theorem handed_eq_iff (h : s.Covers since f) :
    f.handed = (s.broadcasts.drop since).map .value ↔ s.Drained f := by
  rw [h, List.append_assoc, List.self_eq_append_right, List.append_eq_nil_iff, HubState.Drained]
  refine and_congr (by cases f.hand <;> simp) ?_
  cases f.ended <;> simp

/-- **A chunk** is not lost exactly if the forward task is there to read it. -/
theorem covers_broadcast (h : s.Covers since f) (hle : since ≤ s.broadcasts.length)
    (hnext : f.ended = false → f.next ≤ s.log.length) {b : Bytes}
    (hb : t.broadcasts = s.broadcasts ++ [b]) (hl : f.ended = false → t.log = s.log ++ [b]) :
    t.Covers since f ↔ f.ended = false := by
  unfold HubState.Covers at h ⊢
  rw [hb, List.drop_append_of_le_length hle, List.map_append, h]
  cases he : f.ended with
  | true => simp
  | false => simp [hl he, List.drop_append_of_le_length (hnext he)]

/-- The forward task leaves its loop. -/
theorem covers_leave (h : s.Covers since f) (hb : t.broadcasts = s.broadcasts)
    (farewell : List ChannelMsg) : t.Covers since (f.leave farewell) ↔ s.Drained f := by
  rw [← handed_eq_iff h, HubState.Covers, hb, eq_comm]
  simp [Forwarder.leave]

/-- **A step of the forward task**, whose receiver has not been overrun: it goes on and nothing is
lost, or it leaves its loop, and what it has not written is lost. -/
theorem covers_step [NeZero cap] (h : s.Covers since f) (hc : s.chan.Holds s.log)
    (he : f.ended = false) (hnext : f.next ≤ s.log.length) (hfits : s.log.length ≤ f.next + cap)
    {a : ForwarderAct} (hs : f.step (s.chan.recv f.next) s.hubOpen a = some g)
    (hb : t.broadcasts = s.broadcasts) (hl : t.log = s.log) :
    (a = .recv ∨ a = .written) ∧ t.Covers since g ∨
      (a ≠ .recv ∧ a ≠ .written) ∧ g.ended = true ∧ (t.Covers since g ↔ s.Drained f) := by
  obtain ⟨hgot, hrest, -⟩ := hc.recv hnext
  -- the receiver gets the next chunk, if there is one
  have htake : ¬ cap < (s.log.drop f.next).length := by
    rw [List.length_drop]
    omega
  cases Forwarder.step_iff_stepped.1 hs with
  | @recvValue b hh hr =>
      refine .inl ⟨.inl rfl, ?_⟩
      cases hread : s.log.drop f.next with
      | nil =>
          rw [hread, take_nil, hr] at hgot
          cases hgot
      | cons x rest =>
          rw [hread] at htake hgot hrest
          rw [take_cons (Nat.not_lt.1 htake)] at hgot hrest
          obtain rfl : b = x := by simpa [hr] using hgot
          rw [HubState.Covers, hb, h, hl]
          simp [hh, he, hread, hrest]
  | recvLagged hh hr =>
      rw [hr] at hgot
      cases hread : s.log.drop f.next with
      | nil =>
          rw [hread, take_nil] at hgot
          cases hgot
      | cons x rest =>
          rw [hread] at htake hgot
          rw [take_cons (Nat.not_lt.1 htake)] at hgot
          cases hgot
  | written hh =>
      refine .inl ⟨.inr rfl, ?_⟩
      rw [HubState.Covers, hb, h, hl]
      simp [hh, he]
  | markFails hh =>
      -- a mark is not among the chunks
      have hmem : Delivery.mark ∈ (s.broadcasts.drop since).map .value := by
        rw [h, hh]
        simp
      obtain ⟨b, -, hmark⟩ := List.mem_map.1 hmem
      cases hmark
  | valueFails | kicked | silence | closed | aborted =>
      exact .inr ⟨by simp, rfl, covers_leave h hb _⟩

end Covers

end Hub

namespace Sshd

open Transition Hub Broadcast
open Runner (Bytes)

variable {cap : ℕ}

/-! ### What is wanted -/

/-- An exec request whose command the hub has accepted, when `since` chunks had been broadcast, and
whose channel is open.  `lagged` tells that its receiver has been overrun. -/
structure Exchange where
  task : ℕ
  conn : ℕ
  channel : ℕ
  since : ℕ
  lagged : Bool
  deriving DecidableEq, Repr

/-- What was broadcast for an exchange until its channel was closed, and what was written to it. -/
structure Answer where
  due : List Bytes
  got : List (Delivery Bytes)
  lagged : Bool
  deriving DecidableEq, Repr

/-- The commands that have been accepted on connections that have not subscribed yet, the exchanges
that are open, and the answers of those that are closed. -/
structure Replies where
  accepted : ℕ → Option ℕ
  exchanges : List Exchange
  answers : List Answer

/-- The whole answer has been written, unless the receiver has lagged. -/
def Answer.Complete (r : Answer) : Prop := r.lagged = true ∨ r.got = r.due.map .value

namespace Exchange

/-- No chunk is lost, unless the receiver has lagged. -/
def Served (e : Exchange) (d : Door cap) : Prop :=
  e.lagged = true ∨ ∀ f ∈ d.hub.forwarders e.task, d.hub.Covers e.since f

/-- The action closes the channel of the exchange: the forward task leaves its loop, the client or
the handler closes the channel, or the connection ends. -/
def closes (e : Exchange) (d : Door cap) : DoorAct → Bool
  | .task n (.loop .silence) | .task n (.loop .kicked) | .task n (.loop .closed) => e.task == n
  | .eof i channel =>
    e.conn == i && e.channel == channel && (d.conns[i]?).any fun c => c.handler.isExec
  | .close i channel => e.conn == i && e.channel == channel
  | .disconnect i => e.conn == i
  | _ => false

/-- The action cuts the forward task short while the channel is open. -/
def fails (e : Exchange) : DoorAct → Bool
  | .task n .kill | .task n (.loop .writeFails) => e.task == n
  | _ => false

/-- The receiver has been overrun. -/
def mark (d : Door cap) (e : Exchange) : Exchange :=
  { e with lagged := e.lagged || (d.hub.forwarders e.task).any fun f =>
      !f.ended && decide (f.next + cap < d.hub.log.length) }

/-- The channel is closed. -/
def answer (d : Door cap) (e : Exchange) : Answer :=
  ⟨d.hub.broadcasts.drop e.since, (d.hub.forwarders e.task).elim [] Forwarder.handed, e.lagged⟩

end Exchange

namespace Replies

/-- Nobody has sent a command. -/
def new : Replies := ⟨fun _ => none, [], []⟩

/-- The exchange that a subscription begins. -/
def opened (w : Replies) (d : Door cap) : DoorAct → List Exchange
  | .subscribe i =>
    match w.accepted i, (d.openConn i).bind Conn.pending with
    | some n, some (.subscribe channel _ _) => [⟨d.tasks.length, i, channel, n, false⟩]
    | _, _ => []
  | _ => []

/-- What is noted about a step. -/
def note (w : Replies) (d : Door cap) (a : DoorAct) (t : Door cap) : Replies where
  accepted :=
    match a with
    | .inputSent i true => Function.update w.accepted i (some d.hub.broadcasts.length)
    | .subscribe i => Function.update w.accepted i none
    | _ => w.accepted
  exchanges :=
    ((w.exchanges.filter fun e => !e.closes d a) ++ w.opened d a).map (Exchange.mark t)
  answers := w.answers ++ (w.exchanges.filter fun e => e.closes d a).map (Exchange.answer d)

/-- **Exec clients see the reply.** -/
def Heard (w : Replies) (d : Door cap) : Prop :=
  (∀ e ∈ w.exchanges, e.Served d) ∧ ∀ r ∈ w.answers, r.Complete

end Replies

/-! ### What it takes -/

/-- Chunks come while the forward task is there, and it is closed or cut short only when it has
nothing left to write. -/
def Exchange.Keeps (e : Exchange) (d : Door cap) (f : Forwarder) : DoorAct → Prop
  | .forward | .system _ => f.ended = false
  | a => (e.closes d a || e.fails a) = true → d.hub.Drained f

instance (e : Exchange) (d : Door cap) (f : Forwarder) (a : DoorAct) :
    Decidable (e.Keeps d f a) := by
  unfold Exchange.Keeps
  split <;> infer_instance

/-- Nothing has been broadcast between the command and the subscription. -/
def Prompt (w : Replies) (d : Door cap) : DoorAct → Prop
  | .subscribe i => ∀ n ∈ w.accepted i, n = d.hub.broadcasts.length
  | _ => True

instance (w : Replies) (d : Door cap) (a : DoorAct) : Decidable (Prompt w d a) := by
  unfold Prompt
  split <;> infer_instance

/-- **A timely step**, as far as the exchanges are concerned that have not lagged. -/
def Timely (w : Replies) (d : Door cap) (a : DoorAct) : Prop :=
  (∀ e ∈ w.exchanges, e.lagged = true ∨ ∀ f ∈ d.hub.forwarders e.task, e.Keeps d f a) ∧
    Prompt w d a

instance (w : Replies) (d : Door cap) (a : DoorAct) : Decidable (Timely w d a) :=
  inferInstanceAs (Decidable (_ ∧ _))

/-! ### What a step does to a forward task -/

variable [NeZero cap]

/-- The hub stays as it is, unless the action is one of it, a subscription or one of a task. -/
theorem doorStep_quiet {d t : Door cap} {a : DoorAct} (hs : doorStep d a = some t)
    (ha : ¬ a.IsHubAct) (hsub : ∀ i, a ≠ .subscribe i) (htask : ∀ n x, a ≠ .task n x) :
    t.hub = d.hub := by
  cases doorStep_stepped hs with
  | subscribe => exact absurd rfl (hsub _)
  | task => exact absurd rfl (htask _ _)
  | hub h => exact absurd h ha
  | shell | exec | eof | close | disconnect => simp [Door.setConn]
  | _ => rfl

/-- What has been broadcast stays. -/
theorem doorStep_broadcasts {d t : Door cap} {a : DoorAct} (hs : doorStep d a = some t) :
    ∃ more, t.hub.broadcasts = d.hub.broadcasts ++ more := by
  rcases doorStep_hubStep hs with hhub | ⟨b, hhub, -⟩
  · exact ⟨[], by simp [hhub]⟩
  · exact hubStep_broadcasts hhub

/-- What a step does to the forward task `m`: there is one more chunk, the task makes a step of its
loop, or neither. -/
inductive Feeds (d t : Door cap) (m : ℕ) (f g : Forwarder) : DoorAct → Prop
  | chunk {a : DoorAct} {b : Bytes} (ha : a = .forward ∨ ∃ x, a = .system x) (hg : g = f)
      (hb : t.hub.broadcasts = d.hub.broadcasts ++ [b])
      (hl : t.hub.log = if d.hub.chan.rxCount = 0 then d.hub.log else d.hub.log ++ [b]) :
      Feeds d t m f g a
  | loop {x : TaskAct} {y : ForwarderAct}
      (hx : x = .loop y ∧ y ≠ .aborted ∨ x = .kill ∧ y = .aborted) (he : f.ended = false)
      (hs : f.step (d.hub.chan.recv f.next) d.hub.hubOpen y = some g)
      (hb : t.hub.broadcasts = d.hub.broadcasts) (hl : t.hub.log = d.hub.log) :
      Feeds d t m f g (.task m x)
  | rest {a : DoorAct} (ha : a ≠ .forward ∧ (∀ b, a ≠ .system b) ∧
        (∀ y, a ≠ .task m (.loop y)) ∧ a ≠ .task m .kill) (hg : g = f)
      (hb : t.hub.broadcasts = d.hub.broadcasts) (hl : t.hub.log = d.hub.log) :
      Feeds d t m f g a

/-- A step of another forward task, or one of the runtime. -/
theorem feeds_task {d t : Door cap} {n m : ℕ} {x : TaskAct} {f : Forwarder}
    (hs : doorStep d (.task n x) = some t) (hf : d.hub.forwarders m = some f) :
    ∃ g, t.hub.forwarders m = some g ∧ Feeds d t m f g (.task n x) := by
  have hstep : ∀ y, (x = .loop y ∧ y ≠ .aborted ∨ x = .kill ∧ y = .aborted) →
      d.loopStep n y = some t → ∃ g, t.hub.forwarders m = some g ∧ Feeds d t m f g (.task n x) := by
    intro y hx hl
    obtain ⟨hub, hhub, rfl⟩ := Option.map_eq_some_iff.1 hl
    obtain ⟨f', g, hf', he, hg, rfl⟩ := hubStep_client hhub
    by_cases hn : n = m
    · subst hn
      obtain rfl : f' = f := Option.some_inj.1 (hf'.symm.trans hf)
      exact ⟨g, by simp [HubState.update], .loop hx he hg rfl rfl⟩
    · refine ⟨f, ?_, .rest (by simp [hn]) rfl rfl rfl⟩
      simp [HubState.update, Function.update_of_ne (Ne.symm hn), hf]
  simp only [doorStep] at hs
  split at hs
  · cases x with
    | poll | suspend =>
        simp only [Door.taskStep] at hs
        split at hs
        · obtain rfl := Option.some_inj.1 hs
          exact ⟨f, hf, .rest (by simp) rfl rfl rfl⟩
        · cases hs
    | kill =>
        simp only [Door.taskStep] at hs
        split at hs
        · exact hstep .aborted (.inr ⟨rfl, rfl⟩) hs
        · cases hs
    | loop y =>
        simp only [Door.taskStep] at hs
        split at hs
        · rename_i hok
          exact hstep y (.inl ⟨rfl, hok.2.1⟩) hs
        · cases hs
  · cases hs

/-- **Every step of the door is one of these for a forward task.** -/
theorem doorStep_feeds {d t : Door cap} {a : DoorAct} {m : ℕ} {f : Forwarder}
    (hs : doorStep d a = some t) (hf : d.hub.forwarders m = some f) :
    ∃ g, t.hub.forwarders m = some g ∧ Feeds d t m f g a := by
  cases a with
  | forward =>
      obtain ⟨hub, hhub, rfl⟩ := Option.map_eq_some_iff.1 hs
      obtain ⟨b, rest, -, rfl⟩ := hubStep_forward hhub
      exact ⟨f, hf, .chunk (.inl rfl) rfl rfl rfl⟩
  | system b =>
      obtain ⟨hub, hhub, rfl⟩ := Option.map_eq_some_iff.1 hs
      obtain ⟨-, rfl⟩ := hubStep_system hhub
      exact ⟨f, hf, .chunk (.inr ⟨b, rfl⟩) rfl rfl rfl⟩
  | push b =>
      obtain ⟨hub, hhub, rfl⟩ := Option.map_eq_some_iff.1 hs
      obtain ⟨-, -, rfl⟩ := hubStep_push hhub
      exact ⟨f, hf, .rest (by simp) rfl rfl rfl⟩
  | shutdown =>
      simp only [doorStep] at hs
      split at hs
      · obtain ⟨hub, hhub, rfl⟩ := Option.map_eq_some_iff.1 hs
        obtain ⟨-, -, rfl⟩ := hubStep_shutdown hhub
        exact ⟨f, hf, .rest (by simp) rfl rfl rfl⟩
      · cases hs
  | subscribe i =>
      obtain ⟨c, channel, isExec, id, hub, -, -, hhub, rfl⟩ := doorStep_subscribe hs
      obtain ⟨hfree, rfl⟩ := hubStep_subscribe hhub
      have hne : m ≠ d.tasks.length := by
        rintro rfl
        cases hf.symm.trans hfree
      refine ⟨f, ?_, .rest (by simp) rfl rfl rfl⟩
      simp [Door.setConn, Function.update_of_ne hne, hf]
  | task n x => exact feeds_task hs hf
  | _ =>
      have hhub := doorStep_quiet hs id (by simp) (by simp)
      exact ⟨f, by rw [hhub, hf], .rest (by simp) rfl (by rw [hhub]) (by rw [hhub])⟩

/-! ### What a step does to the exchanges -/

/-- What every observed run keeps. -/
structure Watches (w : Replies) (d : Door cap) : Prop where
  counted : Counted d
  accepted : ∀ {i n : ℕ}, w.accepted i = some n → n ≤ d.hub.broadcasts.length
  exchanges : ∀ e ∈ w.exchanges, ∃ f, d.hub.forwarders e.task = some f ∧
    e.since ≤ d.hub.broadcasts.length ∧
    (e.lagged = false → f.ended = false → d.hub.log.length ≤ f.next + cap)

theorem watches_new (mgr : SessionMgr) (maxClients : ℕ) :
    Watches .new (Door.new cap mgr maxClients) where
  counted := counted_new mgr maxClients
  accepted h := nomatch h
  exchanges _ he := nomatch he

section Step

variable {w : Replies} {d t : Door cap} {a : DoorAct} {e : Exchange}

omit [NeZero cap] in
theorem keeps_iff {f : Forwarder} (ha : a ≠ .forward) (ha' : ∀ b, a ≠ .system b) :
    e.Keeps d f a ↔ ((e.closes d a || e.fails a) = true → d.hub.Drained f) := by
  cases a with
  | forward => exact absurd rfl ha
  | system b => exact absurd rfl (ha' b)
  | _ => exact Iff.rfl

theorem fails_eq_false (hloop : ∀ y, a ≠ .task e.task (.loop y))
    (hkill : a ≠ .task e.task .kill) : e.fails a = false := by
  unfold Exchange.fails
  split
  · exact beq_false_of_ne fun h => hkill (by rw [h])
  · exact beq_false_of_ne fun h => hloop .writeFails (by rw [h])
  · rfl

omit [NeZero cap] in
/-- A forward task that has ended is not overrun any more. -/
theorem served_mark {g : Forwarder} (hg : t.hub.forwarders e.task = some g)
    (hlag : e.lagged = false) (h : g.ended = true ∨ t.hub.Covers e.since g) :
    (e.mark t).Served t ↔ t.hub.Covers e.since g := by
  have hone : (∀ f ∈ t.hub.forwarders e.task, t.hub.Covers e.since f) ↔
      t.hub.Covers e.since g := by
    simp [hg]
  rcases h with hend | hcov
  · refine (or_iff_right ?_).trans hone
    simp [Exchange.mark, hlag, hg, hend]
  · exact iff_of_true (.inr (hone.2 hcov)) hcov

omit [NeZero cap] in
/-- A task that leaves its loop and does not close the channel has failed. -/
theorem fails_of_open {m : ℕ} {x : TaskAct} {y : ForwarderAct} (hm : e.task = m)
    (hopen : e.closes d (.task m x) = false)
    (hx : x = .loop y ∧ y ≠ .aborted ∨ x = .kill ∧ y = .aborted) (hr : y ≠ .recv)
    (hwr : y ≠ .written) : e.fails (.task m x) = true := by
  subst hm
  rcases hx with ⟨rfl, hy⟩ | ⟨rfl, -⟩
  · cases y with
    | recv => exact absurd rfl hr
    | written => exact absurd rfl hwr
    | aborted => exact absurd rfl hy
    | writeFails => simp [Exchange.fails]
    | silence | kicked | closed => simp [Exchange.closes] at hopen
  · simp [Exchange.fails]

/-- An exchange stays open: nothing is lost exactly if the step keeps its forward task. -/
theorem served_step (hw : Watches w d) (he : e ∈ w.exchanges) (hopen : e.closes d a = false)
    (hserved : e.Served d) (hs : doorStep d a = some t) :
    (e.mark t).Served t ↔ e.lagged = true ∨ ∀ f ∈ d.hub.forwarders e.task, e.Keeps d f a := by
  cases hlag : e.lagged with
  | true =>
      refine iff_of_true (.inl ?_) (.inl rfl)
      simp [Exchange.mark, hlag]
  | false =>
      obtain ⟨live, hlive⟩ := hw.counted
      obtain ⟨f, hf, hsince, hfits⟩ := hw.exchanges e he
      have hcov : d.hub.Covers e.since f := hserved.resolve_left (by simp [hlag]) f hf
      have hnext := (hlive.follows _ f hf).cursor
      obtain ⟨g, hg, hfeeds⟩ := doorStep_feeds hs hf
      have hone : (∀ f' ∈ d.hub.forwarders e.task, e.Keeps d f' a) ↔ e.Keeps d f a := by
        simp [hf]
      rw [hone, or_iff_right (by simp)]
      generalize hm : e.task = m at hfeeds
      cases hfeeds with
      | chunk ha hgf hb hl =>
          subst hgf
          have hlog : g.ended = false → t.hub.log = d.hub.log ++ [_] := fun hlive' => by
            rw [hl, if_neg (hlive.rxCount_ne hf hlive')]
          have hiff := covers_broadcast hcov hsince hnext hb hlog
          have hkeeps : e.Keeps d g a ↔ g.ended = false := by
            rcases ha with rfl | ⟨b, rfl⟩ <;> exact Iff.rfl
          rw [hkeeps, served_mark hg hlag, hiff]
          cases hend : g.ended with
          | true => exact .inl rfl
          | false => exact .inr (hiff.2 hend)
      | @loop x y hx hfe hstep hb hl =>
          rw [keeps_iff (by simp) (by simp), hopen, Bool.false_or]
          rcases covers_step hcov hlive.holds hfe (hnext hfe) (hfits hlag hfe) hstep hb hl with
            ⟨hy, hcov'⟩ | ⟨⟨hr, hwr⟩, hend, hiff⟩
          · -- the task goes on
            refine iff_of_true ((served_mark hg hlag (.inr hcov')).2 hcov') ?_
            rcases hx with ⟨rfl, -⟩ | ⟨-, rfl⟩
            · rcases hy with rfl | rfl <;> simp [Exchange.fails]
            · simp at hy
          · -- it has left its loop while the channel is open
            rw [served_mark hg hlag (.inl hend), hiff, fails_of_open hm hopen hx hr hwr]
            exact ⟨fun h _ => h, fun h => h rfl⟩
      | rest ha hgf hb hl =>
          subst hgf
          have hcov' : t.hub.Covers e.since g := by
            rw [HubState.Covers, hb, hl]
            exact hcov
          refine iff_of_true ((served_mark hg hlag (.inr hcov')).2 hcov') ?_
          subst hm
          rw [keeps_iff ha.1 ha.2.1, hopen, fails_eq_false ha.2.2.1 ha.2.2.2]
          simp

/-- A channel is closed: all has been written exactly if the forward task had nothing left. -/
theorem complete_step (hw : Watches w d) (he : e ∈ w.exchanges) (hclosed : e.closes d a = true)
    (hserved : e.Served d) :
    (e.answer d).Complete ↔ e.lagged = true ∨ ∀ f ∈ d.hub.forwarders e.task, e.Keeps d f a := by
  cases hlag : e.lagged with
  | true => exact iff_of_true (.inl hlag) (.inl rfl)
  | false =>
      obtain ⟨f, hf, -⟩ := hw.exchanges e he
      have hcov : d.hub.Covers e.since f := hserved.resolve_left (by simp [hlag]) f hf
      have hkeeps : e.Keeps d f a ↔ d.hub.Drained f := by
        rw [keeps_iff (by rintro rfl; simp [Exchange.closes] at hclosed)
          (by rintro b rfl; simp [Exchange.closes] at hclosed), hclosed, Bool.true_or]
        exact forall_prop_of_true rfl
      have hgot : (e.answer d).got = f.handed := by simp [Exchange.answer, hf]
      rw [Answer.Complete, hgot]
      simp only [Exchange.answer, hlag, Bool.false_eq_true, false_or]
      rw [handed_eq_iff hcov, ← hkeeps]
      simp [hf]

/-- A subscription adds a forward task. -/
theorem doorStep_subscribed {i : ℕ} (hs : doorStep d (.subscribe i) = some t) :
    ∃ channel isExec id,
      (d.openConn i).bind Conn.pending = some (.subscribe channel isExec id) ∧
      t.hub.broadcasts = d.hub.broadcasts ∧ t.hub.log = d.hub.log ∧
      t.hub.forwarders d.tasks.length =
        some (Forwarder.new isExec d.hub.chan.subscribe.1 d.hub.broadcasts.length) := by
  obtain ⟨c, channel, isExec, id, hub, hc, hp, hhub, rfl⟩ := doorStep_subscribe hs
  obtain ⟨-, rfl⟩ := hubStep_subscribe hhub
  exact ⟨channel, isExec, id, by rw [hc, Option.bind_some, hp], rfl, rfl,
    Function.update_self ..⟩

/-- A subscription begins an exchange with nothing lost exactly if it is prompt. -/
theorem prompt_step (hw : Watches w d) (hs : doorStep d a = some t) :
    (∀ e ∈ w.opened d a, (e.mark t).Served t) ↔ Prompt w d a := by
  cases a with
  | subscribe i =>
      obtain ⟨channel, isExec, id, hp, hb, hl, hf⟩ := doorStep_subscribed hs
      obtain ⟨live, hlive⟩ := hw.counted
      simp only [Replies.opened, Prompt, hp]
      cases hacc : w.accepted i with
      | none => simp
      | some n =>
          have hle := hw.accepted hacc
          -- the cursor of the new receiver is behind all that has been broadcast
          have hpos : d.hub.chan.subscribe.1 = d.hub.log.length := hlive.holds.pos
          have hcov : t.hub.Covers n
              (Forwarder.new isExec d.hub.chan.subscribe.1 d.hub.broadcasts.length) ↔
              n = d.hub.broadcasts.length := by
            simp only [HubState.Covers, Forwarder.new, hb, hl, hpos, List.drop_length]
            simp only [Option.toList_none, List.append_nil, Bool.false_eq_true, if_false,
              List.map_nil, List.map_eq_nil_iff, List.drop_eq_nil_iff]
            omega
          simp only [List.mem_singleton, forall_eq, Option.mem_def, Option.some_inj, forall_eq']
          rw [← hcov]
          simp [Exchange.Served, Exchange.mark, hf, hl, Forwarder.new, hpos]
  | _ => simp [Replies.opened, Prompt]

/-- **A step keeps the replies exactly if it is timely.** -/
theorem heard_step (hw : Watches w d) (hh : w.Heard d) (hs : doorStep d a = some t) :
    (w.note d a t).Heard t ↔ Timely w d a := by
  have hone : ∀ e ∈ w.exchanges,
      ((e.closes d a = false → (e.mark t).Served t) ∧
        (e.closes d a = true → (e.answer d).Complete) ↔
      (e.lagged = true ∨ ∀ f ∈ d.hub.forwarders e.task, e.Keeps d f a)) := by
    intro e he
    cases hcl : e.closes d a with
    | false => simpa using served_step hw he hcl (hh.1 e he) hs
    | true => simpa using complete_step hw he hcl (hh.1 e he)
  rw [Timely, ← prompt_step hw hs, ← forall₂_congr hone]
  simp only [Replies.Heard, Replies.note, List.forall_mem_map, List.forall_mem_append,
    List.mem_filter, Bool.not_eq_true', and_imp]
  constructor
  · rintro ⟨⟨hopen, hnew⟩, -, hclosed⟩
    exact ⟨fun e he => ⟨hopen e he, hclosed e he⟩, hnew⟩
  · rintro ⟨hold, hnew⟩
    exact ⟨⟨fun e he => (hold e he).1, hnew⟩, hh.2, fun e he => (hold e he).2⟩

theorem Watches.step (hw : Watches w d) (hs : doorStep d a = some t) :
    Watches (w.note d a t) t where
  counted := hw.counted.step hs
  accepted := by
    intro i n hi
    obtain ⟨more, hmore⟩ := doorStep_broadcasts hs
    rw [hmore, List.length_append]
    have hold : w.accepted i = some n → n ≤ d.hub.broadcasts.length + more.length :=
      fun h => (hw.accepted h).trans (Nat.le_add_right _ _)
    simp only [Replies.note] at hi
    split at hi
    · rename_i j
      by_cases hij : i = j
      · subst hij
        rw [Function.update_self, Option.some_inj] at hi
        omega
      · exact hold (by rwa [Function.update_of_ne hij] at hi)
    · rename_i j
      by_cases hij : i = j
      · subst hij
        rw [Function.update_self] at hi
        cases hi
      · exact hold (by rwa [Function.update_of_ne hij] at hi)
    · exact hold hi
  exchanges := by
    -- a receiver that has been overrun has been marked
    have hmark : ∀ {e : Exchange} {f : Forwarder}, t.hub.forwarders e.task = some f →
        (e.mark t).lagged = false → f.ended = false → t.hub.log.length ≤ f.next + cap := by
      intro e f hf hlag he
      simpa [Exchange.mark, hf, he] using (Bool.or_eq_false_iff.1 hlag).2
    obtain ⟨more, hmore⟩ := doorStep_broadcasts hs
    have hle : ∀ {n : ℕ}, n ≤ d.hub.broadcasts.length → n ≤ t.hub.broadcasts.length := by
      intro n hn
      rw [hmore, List.length_append]
      omega
    simp only [Replies.note, List.forall_mem_map, List.forall_mem_append]
    refine ⟨fun e he => ?_, fun e he => ?_⟩
    · obtain ⟨f, hf, hsince, -⟩ := hw.exchanges e (List.mem_filter.1 he).1
      obtain ⟨g, hg, -⟩ := doorStep_feeds hs hf
      exact ⟨g, hg, hle hsince, hmark hg⟩
    · cases a with
      | subscribe i =>
          obtain ⟨channel, isExec, id, hp, -, -, hf⟩ := doorStep_subscribed hs
          simp only [Replies.opened, hp] at he
          cases hacc : w.accepted i with
          | none => simp [hacc] at he
          | some n =>
              simp only [hacc, List.mem_singleton] at he
              subst he
              exact ⟨_, hf, hle (hw.accepted hacc), hmark hf⟩
      | _ => exact absurd he List.not_mem_nil

end Step

/-! ### Whole runs -/

/-- The door with the observer of the exec requests. -/
def watchedStep : Replies × Door cap → DoorAct → Option (Replies × Door cap) :=
  observed doorStep Replies.note

/-- **Exec clients see the whole reply in every state of a run exactly if every step of the run is
timely.** -/
theorem reply_heard_iff {mgr : SessionMgr} {maxClients : ℕ} {as : List DoorAct} {t : Door cap}
    (hr : exec doorStep (Door.new cap mgr maxClients) as = some t) :
    Along watchedStep (fun p => p.1.Heard p.2) (.new, Door.new cap mgr maxClients) as ↔
      Meets watchedStep (fun p => Timely p.1 p.2) (.new, Door.new cap mgr maxClients) as := by
  have hstep : ∀ (w : Replies) (d : Door cap) (a : DoorAct) (t : Door cap), Watches w d →
      doorStep d a = some t → Watches (w.note d a t) t := fun w d a t hp hs => hp.step hs
  refine along_observed_iff_meets hstep (fun w d a t hp hh hs => heard_step hp hh hs)
    (watches_new mgr maxClients) ?_ hr
  exact ⟨List.forall_mem_nil _, List.forall_mem_nil _⟩

/-- A client sends a command. -/
def sentCommand : List DoorAct :=
  [.accept "10.0.0.9:50000", .auth 0 "admin" "pass", .exec 0 0 [100], .attach 0,
    .inputSent 0 true]

/-- The upstream answers after the client has subscribed. -/
def answeredLater : List DoorAct :=
  sentCommand ++ [.subscribe 0, .push [79, 75], .forward, .task 0 .poll, .task 0 (.loop .recv),
    .task 0 (.loop .written), .task 0 (.loop .silence)]

/-- The upstream answers at once. -/
def answeredAtOnce : List DoorAct :=
  sentCommand ++ [.push [79, 75], .forward, .subscribe 0, .task 0 .poll, .task 0 (.loop .silence)]

/-- A reply that comes late is seen. -/
theorem reply_heard_later :
    Along watchedStep (fun p => p.1.Heard p.2) (.new, Door.new 4 createdMgr 16) answeredLater := by
  obtain ⟨t, ht⟩ : ∃ t, exec doorStep (Door.new 4 createdMgr 16) answeredLater = some t :=
    ⟨_, rfl⟩
  exact (reply_heard_iff ht).2 (by decide)

/-- **A reply that comes at once is lost**: the channel is closed with the exit status 0, and
nothing has been written to it. -/
theorem reply_lost :
    ¬ ∀ (mgr : SessionMgr) (maxClients : ℕ) (as : List DoorAct) (t : Door 4),
      exec doorStep (Door.new 4 mgr maxClients) as = some t →
      Along watchedStep (fun p => p.1.Heard p.2) (.new, Door.new 4 mgr maxClients) as := by
  intro h
  obtain ⟨t, ht⟩ : ∃ t, exec doorStep (Door.new 4 createdMgr 16) answeredAtOnce = some t :=
    ⟨_, rfl⟩
  obtain ⟨p, hp, hanswers⟩ : ∃ p,
      exec watchedStep (.new, Door.new 4 createdMgr 16) answeredAtOnce = some p ∧
      p.1.answers = [⟨[[79, 75]], [], false⟩] := ⟨_, rfl, rfl⟩
  have hheard := ((h createdMgr 16 _ t ht).last hp).2 ⟨[[79, 75]], [], false⟩
    (by rw [hanswers]; exact List.mem_cons_self)
  rcases hheard with hlag | hgot
  · cases hlag
  · cases hgot

end Sshd

end TermHub
