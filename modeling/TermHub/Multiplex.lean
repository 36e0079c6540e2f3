/-
**Several channels on one connection.**

The callbacks of a connection carry a channel number, and `ClientHandler` has one `forward_task` and
one `client_rec`, so `channel_eof` and `channel_close` act on the last admitted request, whatever
the channel.

Main definitions:

* `Conn.Works`, `Works` — the forward task of a handler is the one of its last admitted request;
* `OnlyOwn`, `OwnGone`, `Separate` — what is wanted of an end of input and of a close;
* `Steady` — the channel that ends is the one of the last admitted request, and has no other.

Main results:

* `Works.step` — every step keeps the forward tasks in place;
* `separate_iff` — in a steady run, a callback keeps to its channel exactly if it is steady;
* `channels_separate_iff` — **the channels of a connection are kept apart along a run exactly if
  every step of it is steady**.
-/

import TermHub.Tickets

set_option relaxedAutoImplicit false
set_option autoImplicit false

namespace TermHub

namespace Sshd

open Transition Hub Broadcast
open Runner (Bytes)

variable {cap : ℕ}

/-! ### The forward tasks of the handlers -/

/-- The clients of the forward tasks, by the numbers of the tasks. -/
def Door.clients (d : Door cap) : List ℕ := d.tasks.map ForwardTask.client

/-- The client that the request which is being handled has attached. -/
def Pending.client : Pending → Option ℕ
  | .attach _ _ _ => none
  | .sendInput _ _ _ id => some id
  | .subscribe _ _ id => some id

/-- The client that a connection has attached and not yet subscribed. -/
def Conn.attached (c : Conn) : Option ℕ := c.pending.bind Pending.client

/-- The forward task of a handler is the one of its last admitted request, and there is none yet for
a client that waits for its subscription. -/
structure Conn.Works (h : History) (clients : List ℕ) (i : ℕ) (c : Conn) : Prop where
  holds : c.attached = none → ∀ n, c.handler.forwardTask = some n ↔
    ∃ k, h.last i = some k ∧ clients[n]? = some k.client
  fresh : ∀ {id : ℕ}, c.attached = some id →
    (∃ k, h.last i = some k ∧ k.client = id) ∧ id ∉ clients

/-- Every open connection has its forward task in place. -/
structure Works (h : History) (d : Door cap) : Prop where
  client_le : ∀ id ∈ d.clients, id ≤ h.made
  conns : ∀ {i : ℕ} {c : Conn}, d.openConn i = some c → c.Works h d.clients i

theorem works_new (mgr : SessionMgr) (maxClients : ℕ) :
    Works .new (Door.new cap mgr maxClients) where
  client_le _ hid := nomatch hid
  conns hi := absurd (Door.openConn_some hi).1 (by simp [Door.new])

section Frame

variable {h h' : History} {d t : Door cap} {i : ℕ} {c c' : Conn} {clients : List ℕ}

/-- What counts is the forward task, the request that is being handled, and what is noted. -/
theorem Conn.Works.congr (hw : c.Works h clients i) (hlast : h'.last i = h.last i)
    (htask : c'.handler.forwardTask = c.handler.forwardTask) (hatt : c'.attached = c.attached) :
    c'.Works h' clients i where
  holds ha n := by
    rw [htask, hlast]
    exact hw.holds (hatt ▸ ha) n
  fresh ha := by
    rw [hlast]
    exact hw.fresh (hatt ▸ ha)

/-- One connection moves. -/
theorem Works.move (hi : d.conns[i]? = some c) (hconns : t.conns = d.conns.set i c')
    (hle : ∀ id ∈ t.clients, id ≤ h'.made)
    (hne : ∀ j e, j ≠ i → d.openConn j = some e → e.Works h' t.clients j)
    (hc : c'.isOpen = true → c'.Works h' t.clients i) : Works h' t := by
  refine ⟨hle, fun {j e} hj => ?_⟩
  obtain ⟨hj, ho⟩ := Door.openConn_some hj
  rw [hconns] at hj
  by_cases hij : i = j
  · subst hij
    rw [List.getElem?_set_self (List.getElem?_eq_some_iff.1 hi).1, Option.some_inj] at hj
    subst hj
    exact hc ho
  · rw [List.getElem?_set_ne hij] at hj
    exact hne j e (Ne.symm hij) (Door.openConn_of hj ho)

/-- One connection moves, the forward tasks stay, and nothing is noted about the others. -/
theorem Works.setConn (hw : Works h d) (hi : d.conns[i]? = some c)
    (hconns : t.conns = d.conns.set i c') (hclients : t.clients = d.clients)
    (hmade : h.made ≤ h'.made) (hne : ∀ j, j ≠ i → h'.last j = h.last j)
    (hc : c'.isOpen = true → c'.Works h' d.clients i) : Works h' t := by
  refine Works.move hi hconns ?_ ?_ ?_
  · intro id hid
    exact (hw.client_le id (hclients ▸ hid)).trans hmade
  · intro j e hj he
    rw [hclients]
    exact (hw.conns he).congr (hne j hj) rfl rfl
  · rwa [hclients]

/-- The connections and the clients of the forward tasks are the same. -/
theorem Works.of_eq (hw : Works h d) (hclients : t.clients = d.clients) (hconns : t.conns = d.conns)
    (hmade : h'.made = h.made) (hlast : ∀ j c, d.openConn j = some c → h'.last j = h.last j) :
    Works h' t := by
  have hopen : ∀ {j : ℕ}, t.openConn j = d.openConn j := by
    intro j
    simp only [Door.openConn, hconns]
  refine ⟨fun id hid => hmade ▸ hw.client_le id (hclients ▸ hid), fun hj => ?_⟩
  rw [hopen] at hj
  rw [hclients]
  exact (hw.conns hj).congr (hlast _ _ hj) rfl rfl

theorem abortTask_clients (d : Door cap) (task : Option ℕ) :
    (d.abortTask task).clients = d.clients := by
  cases task with
  | none => rfl
  | some n =>
      simp only [Door.clients, Door.abortTask]
      refine List.ext_getElem? fun m => ?_
      simp only [List.getElem?_map, List.getElem?_modify]
      split <;> cases d.tasks[m]? <;> rfl

theorem taskStep_clients [NeZero cap] {n : ℕ} {k : ForwardTask} {a : TaskAct}
    (hn : d.tasks[n]? = some k) (hs : d.taskStep n k a = some t) : t.clients = d.clients := by
  have set_same (k' : ForwardTask) (hk : k'.client = k.client) :
      (d.tasks.set n k').map ForwardTask.client = d.tasks.map ForwardTask.client := by
    refine List.ext_getElem? fun m => ?_
    rw [List.getElem?_map, List.getElem?_map]
    by_cases hm : n = m
    · subst hm
      rw [List.getElem?_set_self (List.getElem?_eq_some_iff.1 hn).1, hn]
      exact congrArg some hk
    · rw [List.getElem?_set_ne hm]
  obtain ⟨polled, rfl⟩ | ⟨b, hl⟩ := taskStep_some hs
  · exact set_same _ rfl
  · obtain ⟨hub, -, rfl⟩ := Option.map_eq_some_iff.1 hl
    rfl

end Frame

section Steps

variable {h : History} {d t : Door cap} {a : DoorAct} {mgr : SessionMgr} {i : ℕ} {c : Conn}

/-- A shell or exec request is about to attach its client, or has been refused. -/
theorem startShellOrExec_works (hc : d.idleConn i = some c) (channel : ℕ) (input : Option Bytes)
    (isExec : Bool) : ∃ c', d.startShellOrExec i c channel input isExec = d.setConn i c' ∧
      c'.handler.forwardTask = c.handler.forwardTask ∧ c'.attached = c.attached := by
  obtain ⟨-, -, hidle⟩ := Door.idleConn_some hc
  unfold Door.startShellOrExec
  split
  · exact ⟨_, rfl, rfl, rfl⟩
  · split
    · exact ⟨_, rfl, rfl, rfl⟩
    · exact ⟨_, rfl, rfl, by simp [Conn.attached, hidle, Pending.client]⟩

variable [NeZero cap]

/-- The client of a new request has no forward task yet. -/
theorem Works.attach (hw : Works h d) (hh : Agrees h d) (hs : doorStep d (.attach i) = some t) :
    Works (note mgr h (.attach i)) t := by
  obtain ⟨c, channel, input, isExec, hc, -, pending, hnext, rfl⟩ := doorStep_attach hs
  obtain ⟨hi, -⟩ := Door.openConn_some hc
  refine hw.setConn hi rfl rfl (Nat.le_succ _) (fun j hj => Function.update_of_ne hj _ _)
    fun _ => ?_
  have hnew : (d.registry.attach c.handler.peer).1 = (h.ticket i).client :=
    congrArg (· + 1) hh.seats.made
  have hatt : pending.client = some (h.ticket i).client := by
    rw [← hnew]
    rcases hnext with rfl | ⟨b, rfl⟩ <;> rfl
  refine ⟨fun ha => absurd (hatt.symm.trans ha) (by simp), fun {id} ha => ?_⟩
  obtain rfl := Option.some_inj.1 (hatt.symm.trans ha)
  refine ⟨⟨_, Function.update_self .., rfl⟩, fun hmem => ?_⟩
  exact Nat.not_succ_le_self _ (hw.client_le _ hmem)

/-- The forward task of a new client becomes the one of the handler. -/
theorem Works.subscribe (hw : Works h d) (hh : Agrees h d)
    (hs : doorStep d (.subscribe i) = some t) : Works h t := by
  obtain ⟨c, channel, isExec, id, hub, hc, hp, -, rfl⟩ := doorStep_subscribe hs
  obtain ⟨hi, -⟩ := Door.openConn_some hc
  have hatt : c.attached = some id := by rw [Conn.attached, hp]; rfl
  obtain ⟨⟨k, hk, rfl⟩, hnew⟩ := (hw.conns hc).fresh hatt
  have hlen : d.tasks.length = d.clients.length := (List.length_map _).symm
  -- the new task is the last one
  have htasks : ∀ {e : Door cap}, e.tasks = d.tasks ++ [⟨channel, k.client, false, false⟩] →
      e.clients = d.clients ++ [k.client] := by
    intro e he
    simp [Door.clients, he]
  refine Works.move hi rfl ?_ ?_ ?_
  · intro id hid
    rw [htasks rfl] at hid
    rcases List.mem_append.1 hid with hid | hid
    · exact hw.client_le id hid
    · exact List.mem_singleton.1 hid ▸ hh.seats.client_le hk
  · -- the client belongs to the connection `i` alone
    intro j e hj he
    have hown : ∀ {k' : Ticket}, h.last j = some k' → k'.client ≠ k.client :=
      fun hk' heq => hj (hh.seats.own hk' hk heq)
    have hwj := hw.conns he
    rw [htasks rfl]
    refine ⟨fun ha n => ?_, fun ha => ⟨(hwj.fresh ha).1, fun hmem => ?_⟩⟩
    · rw [hwj.holds ha n]
      refine exists_congr fun k' => and_congr_right fun hk' => ?_
      rw [getElem?_concat_eq_some]
      exact ⟨.inl, fun h => h.resolve_right fun ⟨_, heq⟩ => hown hk' heq⟩
    · obtain ⟨⟨k', hk', rfl⟩, hnot⟩ := hwj.fresh ha
      rcases List.mem_append.1 hmem with hmem | hmem
      · exact hnot hmem
      · exact hown hk' (List.mem_singleton.1 hmem)
  · intro _
    rw [htasks rfl]
    refine ⟨fun _ n => ?_, fun ha => absurd ha (by simp [Conn.attached])⟩
    simp only [Option.some_inj, getElem?_concat_eq_some, hlen]
    constructor
    · rintro rfl
      exact ⟨k, hk, .inr ⟨rfl, rfl⟩⟩
    · rintro ⟨k', hk', hx | ⟨rfl, -⟩⟩
      · obtain rfl := Option.some_inj.1 (hk.symm.trans hk')
        exact absurd (List.mem_of_getElem? hx) hnew
      · rfl

omit [NeZero cap] in
/-- A client leaves, and so does the forward task of its handler. -/
theorem Works.leave (hw : Works h d) (hc : d.idleConn i = some c) {c' : Conn} {h' : History}
    (hmade : h'.made = h.made) (hlast : h'.last = Function.update h.last i none)
    (htask : c'.handler.forwardTask = none) (hatt : c'.attached = c.attached) :
    Works h' (((d.abortTask c.handler.forwardTask).detachClient c.handler.clientRec).setConn i
      c') := by
  obtain ⟨hi, -, hidle⟩ := Door.idleConn_some hc
  have hnone : c.attached = none := by rw [Conn.attached, hidle]; rfl
  refine hw.setConn hi (Door.closed_conns ..) ?_ (Nat.le_of_eq hmade.symm) (fun j hj => ?_)
    fun _ => ⟨fun _ n => ?_, fun ha => ?_⟩
  · have hd : ∀ {e : Door cap}, (e.detachClient c.handler.clientRec).clients = e.clients := by
      intro e
      cases c.handler.clientRec <;> rfl
    exact hd.trans (abortTask_clients d _)
  · rw [hlast, Function.update_of_ne hj]
  · rw [htask, hlast, Function.update_self]
    simp
  · rw [hatt, hnone] at ha
    cases ha

omit [NeZero cap] in
/-- A login asks for no client. -/
theorem note_auth (mgr : SessionMgr) (h : History) (i : ℕ) (user password : String) :
    (note mgr h (.auth i user password)).last = h.last ∧
      (note mgr h (.auth i user password)).made = h.made := by
  simp only [note]
  split <;> exact ⟨rfl, rfl⟩

/-- **Every step keeps the forward tasks in place.** -/
theorem Works.step (hw : Works h d) (hh : Agrees h d) (hs : doorStep d a = some t) :
    Works (note mgr h a) t := by
  cases doorStep_stepped hs with
  | accept =>
      refine ⟨hw.client_le, fun {i c} hi => ?_⟩
      obtain ⟨hi, ho⟩ := Door.openConn_some hi
      rcases getElem?_concat_eq_some.1 hi with hi | ⟨rfl, rfl⟩
      · exact (hw.conns (Door.openConn_of hi ho)).congr rfl rfl rfl
      -- the connection that has just been accepted has asked for nothing
      · refine ⟨fun _ n => ?_, fun ha => absurd ha (by simp [Conn.attached])⟩
        have hlast := (hh.handlers.rest _ (Nat.le_refl _)).2.1
        simp [ClientHandler.new, note, hlast]
  | @turnedAway i user password =>
      obtain ⟨hlast, hmade⟩ := note_auth mgr h i user password
      exact hw.of_eq rfl rfl hmade fun j _ _ => congrFun hlast j
  | @letIn i user password _ _ hc =>
      obtain ⟨hlast, hmade⟩ := note_auth mgr h i user password
      obtain ⟨hi, hopen, -⟩ := Door.idleConn_some hc
      exact hw.setConn hi rfl rfl hmade.ge (fun j _ => congrFun hlast j) fun _ =>
        (hw.conns (Door.openConn_of hi hopen)).congr (congrFun hlast i) rfl rfl
  | shell hc | exec hc =>
      obtain ⟨hi, hopen, -⟩ := Door.idleConn_some hc
      obtain ⟨c', hc', htask, hatt⟩ := startShellOrExec_works hc _ _ _
      rw [hc']
      exact hw.setConn hi rfl rfl (Nat.le_refl _) (fun _ _ => rfl) fun _ =>
        (hw.conns (Door.openConn_of hi hopen)).congr rfl htask hatt
  | attach => exact hw.attach hh hs
  | inputSent hc hp =>
      obtain ⟨hi, -⟩ := Door.openConn_some hc
      refine hw.setConn hi rfl rfl (Nat.le_refl _) (fun _ _ => rfl) fun _ =>
        (hw.conns hc).congr rfl rfl ?_
      rw [Conn.attached, Conn.attached, hp]
      rfl
  | subscribe => exact hw.subscribe hh hs
  | eofOfShell hc hexec =>
      have he := (hh.handlers.agree (Door.idleConn_some hc).1).exec.symm.trans hexec
      exact hw.of_eq rfl rfl rfl fun j _ _ => by simp [note, he]
  | eof hc hexec =>
      have he := (hh.handlers.agree (Door.idleConn_some hc).1).exec.symm.trans hexec
      exact hw.leave hc rfl (by simp [note, he]) rfl rfl
  | close hc => exact hw.leave hc rfl rfl rfl rfl
  | @disconnect i c hc =>
      obtain ⟨hi, -, -⟩ := Door.idleConn_some hc
      exact hw.setConn hi (Door.closed_conns d c.handler.forwardTask none i _)
        (abortTask_clients d _) (Nat.le_refl _) (fun _ _ => rfl) fun ho => absurd ho (by simp)
  | dropped | data | kick => exact hw.of_eq rfl rfl rfl fun _ _ _ => rfl
  | task hk hs =>
      have hclients := taskStep_clients hk hs
      obtain ⟨hub, tasks, rfl, -⟩ := taskStep_frame hs
      exact hw.of_eq hclients rfl rfl fun _ _ _ => rfl
  | hub ha =>
      rw [note_hubAct mgr h ha]
      exact hw.of_eq rfl rfl rfl fun _ _ _ => rfl

end Steps

/-! ### What is wanted -/

/-- A callback for a channel takes off the list only the record attached for the channel, stops only
the forward task started for it, and leaves the other records and forwarders as they are. -/
structure OnlyOwn (h : History) (d t : Door cap) (i channel : ℕ) : Prop where
  record : ∀ id, id ∈ d.registry.listed → id ∉ t.registry.listed →
    ∃ k ∈ h.opened, k.client = id ∧ k.conn = i ∧ k.channel = channel
  task : ∀ n : ℕ, t.tasks[n]? ≠ d.tasks[n]? →
    ∃ k ∈ h.opened, d.clients[n]? = some k.client ∧ k.conn = i ∧ k.channel = channel
  no_new : ∀ id ∈ t.registry.listed, id ∈ d.registry.listed
  records : t.registry.records = d.registry.records
  hub : t.hub = d.hub

/-- The record and the forward task of the channel are gone. -/
def OwnGone (h : History) (t : Door cap) (i channel : ℕ) : Prop :=
  ∀ k ∈ h.opened, k.conn = i → k.channel = channel → k.client ∉ t.registry.listed ∧
    ∀ (n : ℕ) (task : ForwardTask), t.tasks[n]? = some task → task.client = k.client →
      task.aborted = true

/-- The records and the forward tasks of the other open channels are unchanged. -/
theorem OnlyOwn.others {h : History} {d t : Door cap} {i channel : ℕ}
    (ho : OnlyOwn h d t i channel) (hd : OpenTickets h d) {k : Ticket} (hk : k ∈ h.opened)
    (hne : ¬ (k.conn = i ∧ k.channel = channel)) :
    (k.client ∈ t.registry.listed ↔ k.client ∈ d.registry.listed) ∧
      ∀ n : ℕ, d.clients[n]? = some k.client → t.tasks[n]? = d.tasks[n]? := by
  refine ⟨⟨ho.no_new _, fun hin => ?_⟩, fun n hn => ?_⟩
  · by_contra hout
    obtain ⟨k', hk', heq, hown⟩ := ho.record _ hin hout
    exact hne (hd.distinct k' hk' k hk heq ▸ hown)
  · by_contra hout
    obtain ⟨k', hk', hn', hown⟩ := ho.task n hout
    have heq := Option.some_inj.1 (hn.symm.trans hn')
    exact hne (hd.distinct k hk k' hk' heq ▸ hown)

variable [NeZero cap]

/-- **Channels are kept apart**: an end of input and a close act on their own channels only, and
after a close nothing of the channel is left. -/
def Separate (h : History) (d : Door cap) : DoorAct → Prop
  | .eof i channel => ∀ t, doorStep d (.eof i channel) = some t → OnlyOwn h d t i channel
  | .close i channel => ∀ t, doorStep d (.close i channel) = some t →
      OnlyOwn h d t i channel ∧ OwnGone h t i channel
  | _ => True

/-- The channel that ends is the one of the request that the handler holds, if it holds one, and a
channel that closes has no other admitted request. -/
def Steady (h : History) : DoorAct → Prop
  | .eof i channel => ∀ k ∈ h.drops (.eof i channel), k.channel = channel
  | .close i channel => (∀ k ∈ h.last i, k.channel = channel) ∧
      ∀ k ∈ h.opened, k.conn = i → k.channel = channel → h.last i = some k
  | _ => True

instance (h : History) : (a : DoorAct) → Decidable (Steady h a)
  | .eof i channel =>
    inferInstanceAs (Decidable (∀ k ∈ h.drops (.eof i channel), k.channel = channel))
  | .close i channel => inferInstanceAs (Decidable ((∀ k ∈ h.last i, k.channel = channel) ∧
      ∀ k ∈ h.opened, k.conn = i → k.channel = channel → h.last i = some k))
  | .accept _ | .auth _ _ _ | .shell _ _ | .exec _ _ _ | .attach _ | .inputSent _ _
  | .subscribe _ | .data _ _ _ | .disconnect _ | .kick _ | .task _ _ | .push _
  | .forward | .system _ | .shutdown => .isTrue trivial

/-! ### Callbacks that end a channel -/

/-- What every run keeps in which all callbacks so far have been steady. -/
structure Settles (mgr : SessionMgr) (p : History × Door cap) : Prop extends Ledger mgr p where
  works : Works p.1 p.2
  listed : ∀ k ∈ p.1.opened, k.client ∈ p.2.registry.listed

section Ends

variable {mgr : SessionMgr} {p : History × Door cap} {t : Door cap} {a : DoorAct} {i channel : ℕ}
  {c c' : Conn}

/-- The callback takes the client and the forward task from the handler of an idle connection. -/
structure Ends (p : History × Door cap) (a : DoorAct) (t : Door cap) (i : ℕ) (c c' : Conn) :
    Prop where
  idle : p.2.idleConn i = some c
  drops : p.1.drops a = p.1.last i
  result : t = ((p.2.abortTask c.handler.forwardTask).detachClient
    c.handler.clientRec).setConn i c'
  step : doorStep p.2 a = some t

theorem Ends.held (he : Ends p a t i c c') (hp : Settles mgr p) {k : Ticket}
    (hk : p.1.last i = some k) : k ∈ p.1.opened :=
  hp.openTickets.drops_mem he.step (he.drops.trans hk)

theorem Ends.listed (he : Ends p a t i c c') (hp : Settles mgr p) (id : ℕ) :
    id ∈ t.registry.listed ↔
      id ∈ p.2.registry.listed ∧ ∀ k, p.1.last i = some k → k.client ≠ id := by
  obtain ⟨hi, -, -⟩ := Door.idleConn_some he.idle
  rw [he.result, ← ne_some_client, ← (hp.agrees.handlers.agree hi).client]
  exact mem_detachClient.trans (by simp)

/-- The tasks other than the one of the handler are not touched, and that one is stopped. -/
theorem Ends.tasks (he : Ends p a t i c c') (n : ℕ) :
    t.tasks[n]? = if c.handler.forwardTask = some n then
      (p.2.tasks[n]?).map fun k => { k with aborted := true } else p.2.tasks[n]? := by
  rw [he.result]
  cases htask : c.handler.forwardTask with
  | none => simp [Door.setConn, Door.abortTask]
  | some m =>
      have hm : (some m = some n) = (m = n) := by simp
      simp only [Door.setConn, Door.detachClient_tasks, Door.abortTask, List.getElem?_modify, hm]
      split <;> cases p.2.tasks[n]? <;> rfl

/-- A callback acts on its own channel only, exactly if the request that the handler holds is on
it. -/
theorem Ends.onlyOwn_iff (he : Ends p a t i c c') (hp : Settles mgr p) :
    OnlyOwn p.1 p.2 t i channel ↔ ∀ k ∈ p.1.last i, k.channel = channel := by
  -- the record that goes is that of the request the handler holds, so it must be on the channel
  obtain ⟨hi, hopen, hidle⟩ := Door.idleConn_some he.idle
  constructor
  · intro ho k hk
    have hin := hp.listed k (he.held hp hk)
    have hout : k.client ∉ t.registry.listed := fun h => ((he.listed hp _).1 h).2 k hk rfl
    obtain ⟨k', hk', heq, -, hchan⟩ := ho.record _ hin hout
    exact hp.openTickets.distinct k' hk' k (he.held hp hk) heq ▸ hchan
  · intro hall
    refine ⟨fun id hin hout => ?_, fun n hn => ?_, fun id hid => ((he.listed hp id).1 hid).1,
      ?_, ?_⟩
    · rw [he.listed hp] at hout
      have hex : ∃ k, p.1.last i = some k ∧ k.client = id := by
        by_contra hno
        exact hout ⟨hin, fun k hk heq => hno ⟨k, hk, heq⟩⟩
      obtain ⟨k, hk, heq⟩ := hex
      exact ⟨k, he.held hp hk, heq, hp.agrees.seats.conn hk, hall k hk⟩
    · have htask : c.handler.forwardTask = some n := by
        by_contra hno
        exact hn ((he.tasks n).trans (if_neg hno))
      have hnone : c.attached = none := by rw [Conn.attached, hidle]; rfl
      obtain ⟨k, hk, hclient⟩ :=
        ((hp.works.conns (Door.openConn_of hi hopen)).holds hnone n).1 htask
      exact ⟨k, he.held hp hk, hclient, hp.agrees.seats.conn hk, hall k hk⟩
    · rw [he.result]
      cases c.handler.clientRec <;> simp [Door.setConn, Door.detachClient, ClientRegistry.detach]
    · rw [he.result]
      simp [Door.setConn]

/-- Nothing of the channel is left, exactly if it has no other admitted request than the one the
handler holds. -/
theorem Ends.ownGone_iff (he : Ends p a t i c c') (hp : Settles mgr p) :
    OwnGone p.1 t i channel ↔
      ∀ k ∈ p.1.opened, k.conn = i → k.channel = channel → p.1.last i = some k := by
  obtain ⟨hi, hopen, hidle⟩ := Door.idleConn_some he.idle
  refine forall₂_congr fun k hk => forall₂_congr fun _ _ => ⟨fun ⟨hout, _⟩ => ?_, fun hlast => ?_⟩
  · by_contra hne
    refine hout ((he.listed hp _).2 ⟨hp.listed k hk, fun k' hk' heq => hne ?_⟩)
    rw [hk', hp.openTickets.distinct k' (he.held hp hk') k hk heq]
  · refine ⟨fun hin => ((he.listed hp _).1 hin).2 k hlast rfl, fun n task hn hclient => ?_⟩
    have hnone : c.attached = none := by rw [Conn.attached, hidle]; rfl
    have hkept : ∀ {task₀ : ForwardTask}, p.2.tasks[n]? = some task₀ →
        task₀.client = k.client → c.handler.forwardTask = some n := by
      intro task₀ h₀ hc₀
      refine ((hp.works.conns (Door.openConn_of hi hopen)).holds hnone n).2 ⟨k, hlast, ?_⟩
      rw [Door.clients, List.getElem?_map, h₀, ← hc₀]
      rfl
    have htasks := he.tasks n
    split at htasks
    · rw [hn] at htasks
      obtain ⟨task₀, -, rfl⟩ := Option.map_eq_some_iff.1 htasks.symm
      rfl
    · rename_i hno
      exact absurd (hkept (htasks.symm.trans hn) hclient) hno

/-- **A callback keeps to its channel exactly if it is steady.** -/
theorem separate_iff (hp : Settles mgr p) (hs : doorStep p.2 a = some t) :
    Separate p.1 p.2 a ↔ Steady p.1 a := by
  have only {P : Door cap → Prop} : (∀ u, doorStep p.2 a = some u → P u) ↔ P t :=
    ⟨fun h => h t hs, fun h u hu => Option.some_inj.1 (hs.symm.trans hu) ▸ h⟩
  cases a with
  | eof i channel =>
      refine only.trans ?_
      obtain ⟨c, hc, ⟨hexec, rfl⟩ | ⟨hexec, replies, rfl⟩⟩ := doorStep_eof hs
      · have he := (hp.agrees.handlers.agree (Door.idleConn_some hc).1).exec.symm.trans hexec
        refine ⟨fun _ k hk => ?_, fun _ => ⟨fun id hin hout => absurd hin hout,
          fun n hn => absurd rfl hn, fun id hid => hid, rfl, rfl⟩⟩
        simp [History.drops, he] at hk
      · have he := (hp.agrees.handlers.agree (Door.idleConn_some hc).1).exec.symm.trans hexec
        have hdrops : p.1.drops (.eof i channel) = p.1.last i := by simp [History.drops, he]
        have hends : Ends p (.eof i channel) _ i c _ := ⟨hc, hdrops, rfl, hs⟩
        rw [hends.onlyOwn_iff hp]
        simp only [Steady, hdrops]
  | close i channel =>
      refine only.trans ?_
      obtain ⟨c, hc, rfl⟩ := Option.map_eq_some_iff.1 hs
      have hends : Ends p (.close i channel) _ i c _ := ⟨hc, rfl, rfl, hs⟩
      rw [hends.onlyOwn_iff hp, hends.ownGone_iff hp]
      rfl
  | _ => exact Iff.rfl

/-- What is dropped by a steady callback leaves. -/
theorem leaves_of_drops (hp : Settles mgr p) (hst : Steady p.1 a) {k : Ticket}
    (hk : p.1.drops a = some k) : k.leaves a = true := by
  cases a with
  | eof i channel =>
      have hchan := hst k hk
      simp only [History.drops] at hk
      split at hk
      · rename_i hexec
        have hkind := hp.openTickets.kind hk
        simp [Ticket.leaves, hchan, hp.agrees.seats.conn hk, ← hkind, hexec]
      · cases hk
  | close i channel =>
      simp [Ticket.leaves, hst.1 k hk, hp.agrees.seats.conn hk]
  | _ => cases hk

/-- **A steady step keeps the records of the open channels on the list.** -/
theorem Settles.step {q : History × Door cap} (hp : Settles mgr p) (hst : Steady p.1 a)
    (hs : toldStep mgr p a = some q) : Settles mgr q := by
  obtain ⟨hq, hd⟩ := traced_eq_some.1 hs
  refine ⟨hp.toLedger.step hs, hq ▸ hp.works.step hp.agrees hd, ?_⟩
  rw [hq]
  by_cases ha : a.IsAttach
  · cases a with
    | attach i => exact opened_listed_attach mgr hp.agrees hp.listed hd
    | _ => exact absurd ha id
  · intro k hk
    rw [opened_step mgr p.1 ha] at hk
    obtain ⟨hk, hl⟩ := List.mem_filter.1 hk
    -- a record that is dropped belongs to a request that leaves
    refine (listed_step hp.agrees ha hd _).2 ⟨hp.listed k hk, fun k' hk' heq => ?_⟩
    have hmem := hp.openTickets.drops_mem hd hk'
    rw [hp.openTickets.distinct k' hmem k hk heq] at hk'
    simp [leaves_of_drops hp hst hk'] at hl

end Ends

/-- **The channels of the connections are kept apart along a run exactly if every step of it is
steady**: whenever the input of a command ends or a channel closes, the request that the handler
holds, if any, is on that channel, and a channel that closes has no other admitted request. -/
theorem channels_separate_iff {mgr : SessionMgr} {maxClients : ℕ} {as : List DoorAct} {t : Door cap}
    (hr : exec doorStep (Door.new cap mgr maxClients) as = some t) :
    Meets (toldStep mgr) (fun p => Separate p.1 p.2) (freshDoor cap mgr maxClients) as ↔
      Meets (toldStep mgr) (fun p => Steady p.1) (freshDoor cap mgr maxClients) as := by
  have hnew : Settles mgr (freshDoor cap mgr maxClients) :=
    ⟨ledger_fresh mgr maxClients, works_new mgr maxClients,
      fun k hk => absurd hk (by simp [History.new])⟩
  refine (meets_iff_meets (I := Settles mgr) (fun p a q hp hst hs => hp.step hst hs) ?_ hnew
    (exec_told hr)).symm
  intro p a q hp hs
  exact (separate_iff hp (traced_eq_some.1 hs).2).symm

/-- A client with two shells on one connection. -/
def twoShells : List DoorAct :=
  [.accept "10.0.0.9:50000", .auth 0 "admin" "pass", .shell 0 0, .attach 0, .subscribe 0,
    .shell 0 1, .attach 0, .subscribe 0]

/-- Its second shell is closed first, and it types into the first one. -/
theorem channels_separate_iff_twoShells :
    Meets (toldStep createdMgr) (fun p => Separate p.1 p.2) (freshDoor 4 createdMgr 16)
      (twoShells ++ [.close 0 1, .data 0 [108, 115, 13] true, .disconnect 0]) := by
  obtain ⟨t, ht⟩ : ∃ t, exec doorStep (Door.new 4 createdMgr 16)
      (twoShells ++ [.close 0 1, .data 0 [108, 115, 13] true, .disconnect 0]) = some t := ⟨_, rfl⟩
  exact (channels_separate_iff ht).2 (by decide)

/-- **Closing the first channel takes the client of the second one off the list and leaves its
own.** -/
theorem close_hits_other_channel :
    ¬ ∀ (mgr : SessionMgr) (maxClients : ℕ) (as : List DoorAct) (t : Door 4),
      exec doorStep (Door.new 4 mgr maxClients) as = some t →
      Meets (toldStep mgr) (fun p => Separate p.1 p.2) (freshDoor 4 mgr maxClients) as := by
  intro h
  obtain ⟨d, t, hd, ht, hopened, hin, hout⟩ : ∃ d t,
      exec doorStep (Door.new 4 createdMgr 16) twoShells = some d ∧
      doorStep d (.close 0 0) = some t ∧
      (twoShells.foldl (note createdMgr) .new).opened = [⟨0, 0, 1, false⟩, ⟨0, 1, 2, false⟩] ∧
      d.registry.listed = [1, 2] ∧ t.registry.listed = [1] := ⟨_, _, rfl, rfl, rfl, rfl, rfl⟩
  have hrun : exec doorStep (Door.new 4 createdMgr 16) (twoShells ++ [.close 0 0]) = some t := by
    rw [exec_append, hd, Option.bind_some, exec_cons_some ht, exec_nil]
  have hsep := (h createdMgr 16 _ t hrun).at (exec_told hd) t ht
  obtain ⟨k, hk, hclient, -, hchan⟩ := hsep.1.record 2 (by simp [hin]) (by simp [hout])
  simp only [hopened, List.mem_cons, List.not_mem_nil, or_false] at hk
  rcases hk with rfl | rfl
  · cases hclient
  · cases hchan

end Sshd

end TermHub
