/-
**The traffic counters of the clients.**

`start_shell_or_exec` and `ClientHandler::data` hand their bytes to the hub, drop the result, and
count the bytes for the record that the handler holds.  The handler holds the record of its last
admitted request, whatever the channel that the bytes have come over, and none after an end of input
or a close.

Main definitions:

* `Callback` — an action of the door with the channel that its data come over;
* `Traffic`, `Traffic.note` — which client has the channels, and what the hub has accepted from it;
* `Balanced` — the counters are what the hub has accepted;
* `Accounted` — bytes are handed over while somebody receives them, on the channel of the record
  that the handler holds.

Main results:

* `Books.step` — every step keeps the records, the owners and the commands in order;
* `balanced_step` — a step keeps the balance exactly if it is accounted;
* `traffic_iff` — **the counters add up along a run exactly if every step of it is accounted**.
-/

import TermHub.Admissions

set_option relaxedAutoImplicit false
set_option autoImplicit false

namespace TermHub

namespace Sshd

open Transition Hub Broadcast
open Runner (Bytes)

variable {cap : ℕ}

/-! ### What is wanted -/

/-- An action of the door, with the channel that its data come over; the handler does not look at
that. -/
structure Callback where
  act : DoorAct
  channel : ℕ
  deriving DecidableEq, Repr

/-- The client of each channel of a connection, the number of bytes that the hub has accepted from
each client, and what it has accepted over channels without one. -/
structure Traffic where
  owner : ℕ → ℕ → Option ℕ
  sent : ℕ → ℕ
  strays : List Bytes

namespace Traffic

/-- Nobody has sent anything. -/
def new : Traffic := ⟨fun _ _ => none, fun _ => 0, []⟩

/-- The client `id` has got the channel. -/
def give (l : Traffic) (i channel id : ℕ) : Traffic :=
  { l with owner := Function.update l.owner i (Function.update (l.owner i) channel (some id)) }

/-- The hub has accepted a chunk over the channel. -/
def credit (l : Traffic) (i channel : ℕ) (b : Bytes) : Traffic :=
  match l.owner i channel with
  | some id => { l with sent := Function.update l.sent id (l.sent id + b.length) }
  | none => { l with strays := l.strays ++ [b] }

/-- What is noted about a step. -/
def note (l : Traffic) (d : Door cap) (a : Callback) (t : Door cap) : Traffic :=
  match a.act with
  | .attach i =>
    match (d.openConn i).bind Conn.pending with
    | some (.attach channel _ _) => l.give i channel t.registry.nextId
    | _ => l
  | .inputSent i true =>
    match (d.openConn i).bind Conn.pending with
    | some (.sendInput channel b _ _) => l.credit i channel b
    | _ => l
  | .data i b true =>
    match (d.idleConn i).bind fun c => c.handler.entry with
    | some _ => l.credit i a.channel b
    | none => l
  | _ => l

end Traffic

/-- **The counters add up**: each is the number of bytes that the hub has accepted over the channels
of its client, and nothing has been accepted for nobody. -/
structure Balanced (l : Traffic) (d : Door cap) : Prop where
  records : ∀ r ∈ d.registry.records, r.bytesIn = l.sent r.id
  strays : l.strays = []

/-- **An accounted step**: a command is accepted; data of a connection that has been let in are
accepted over a channel whose client is the one that the handler holds, or are not counted. -/
def Accounted (l : Traffic) (d : Door cap) (a : Callback) : Prop :=
  match a.act with
  | .inputSent _ taken => taken = true
  | .data i b taken =>
    ∀ c ∈ d.idleConn i, c.handler.entry.isSome = true →
      if taken then
        ∃ id ∈ l.owner i a.channel, b = [] ∨ c.handler.clientRec = some id
      else b = [] ∨ c.handler.clientRec = none
  | _ => True

instance (l : Traffic) (d : Door cap) (a : Callback) : Decidable (Accounted l d a) := by
  unfold Accounted
  split <;> infer_instance

/-! ### The counters of the registry -/

/-- The numbers of the records, each with its counter. -/
def ClientRegistry.counts (r : ClientRegistry) : List (ℕ × ℕ) :=
  r.records.map fun c => (c.id, c.bytesIn)

section Owner

variable {l : Traffic} {i j channel channel' id id' : ℕ}

theorem owner_give_self : (l.give i channel id).owner i channel = some id := by
  simp [Traffic.give]

theorem owner_give_of_ne (h : j ≠ i) : (l.give i channel id).owner j = l.owner j :=
  Function.update_of_ne h ..

theorem owner_give (h : (l.give i channel id).owner j channel' = some id') :
    id' = id ∨ l.owner j channel' = some id' := by
  by_cases hj : j = i
  · subst hj
    simp only [Traffic.give, Function.update_self] at h
    by_cases hc : channel' = channel
    · rw [hc, Function.update_self, Option.some_inj] at h
      exact .inl h.symm
    · exact .inr (by rwa [Function.update_of_ne hc] at h)
  · exact .inr (by rwa [owner_give_of_ne hj] at h)

/-- A chunk that is accepted adds to what the client of its channel has sent. -/
theorem credit_sent (b : Bytes) (m : ℕ) : (l.credit i channel b).sent m =
    l.sent m + if l.owner i channel = some m then b.length else 0 := by
  unfold Traffic.credit
  split
  · rename_i id hid
    by_cases hm : id = m
    · subst hm
      simp [hid]
    · simp [hid, Function.update_of_ne (Ne.symm hm), hm]
  · rename_i hno
    simp [hno]

theorem credit_strays (b : Bytes) :
    (l.credit i channel b).strays = [] ↔ l.strays = [] ∧ (l.owner i channel).isSome = true := by
  unfold Traffic.credit
  split <;> rename_i hid <;> simp [hid]

end Owner

section Counts

variable {r : ClientRegistry} {id n : ℕ}

theorem counts_attach (remote : String) :
    (r.attach remote).2.counts = r.counts ++ [(r.nextId + 1, 0)] := by
  simp [ClientRegistry.counts, ClientRegistry.attach]

@[simp] theorem counts_detach : (r.detach id).counts = r.counts := rfl

@[simp] theorem counts_kick : (r.kick id).2.counts = r.counts := by
  unfold ClientRegistry.kick
  split
  · simp only [ClientRegistry.counts, List.map_map]
    congr 1
    funext c
    simp only [Function.comp_apply]
    split <;> rfl
  · rfl

theorem counts_addIn : (r.addIn id n).counts =
    r.counts.map fun p => if p.1 = id then (p.1, p.2 + n) else p := by
  simp only [ClientRegistry.counts, ClientRegistry.addIn, List.map_map]
  congr 1
  funext c
  simp only [Function.comp_apply]
  split <;> rfl

theorem ids_eq_counts : r.ids = r.counts.map Prod.fst := by
  simp [ClientRegistry.ids, ClientRegistry.counts]

/-- The counters after a chunk has been counted for the record `o`, if there is one. -/
theorem counted_iff {f g : ℕ → ℕ} (h : ∀ p ∈ r.counts, p.2 = f p.1) (o : Option ℕ) :
    (∀ p ∈ (o.elim r fun id => r.addIn id n).counts, p.2 = g p.1) ↔
      ∀ m ∈ r.ids, g m = f m + if o = some m then n else 0 := by
  rw [ids_eq_counts, List.forall_mem_map]
  cases o with
  | none =>
      refine forall₂_congr fun p hp => ?_
      rw [if_neg (by simp), h p hp, Nat.add_zero, eq_comm]
  | some id =>
      rw [Option.elim_some, counts_addIn, List.forall_mem_map]
      refine forall₂_congr fun p hp => ?_
      by_cases hid : p.1 = id
      · rw [if_pos hid, if_pos (by rw [hid]), h p hp, eq_comm]
      · rw [if_neg hid, if_neg (by simpa using Ne.symm hid), h p hp, Nat.add_zero, eq_comm]

end Counts

theorem balanced_iff {l : Traffic} {d : Door cap} :
    Balanced l d ↔ (∀ p ∈ d.registry.counts, p.2 = l.sent p.1) ∧ l.strays = [] := by
  simp only [ClientRegistry.counts, List.forall_mem_map]
  exact ⟨fun h => ⟨h.records, h.strays⟩, fun h => ⟨h.1, h.2⟩⟩

/-! ### What every run keeps -/

/-- The record that the handler holds has been made, and a command is on its way only for the client
of its channel. -/
structure Conn.Booked (l : Traffic) (ids : List ℕ) (i : ℕ) (c : Conn) : Prop where
  client : ∀ {id : ℕ}, c.handler.clientRec = some id → id ∈ ids
  input : ∀ {channel : ℕ} {b : Bytes} {isExec : Bool},
    c.pending = some (.attach channel (some b) isExec) → b ≠ []
  command : ∀ {channel : ℕ} {b : Bytes} {isExec : Bool} {id : ℕ},
    c.pending = some (.sendInput channel b isExec id) →
      b ≠ [] ∧ l.owner i channel = some id

/-- The records are numbered, the clients of the channels have records, and nothing has been sent by
a client that is not there yet. -/
structure Books (l : Traffic) (d : Door cap) : Prop where
  conns : ∀ {i : ℕ} {c : Conn}, d.conns[i]? = some c → c.Booked l d.registry.ids i
  owners : ∀ {i channel id : ℕ}, l.owner i channel = some id → id ∈ d.registry.ids
  numbered : ∀ id ∈ d.registry.ids, id ≤ d.registry.nextId
  fresh : ∀ {n : ℕ}, d.registry.nextId < n → l.sent n = 0

theorem books_new (mgr : SessionMgr) (maxClients : ℕ) :
    Books .new (Door.new cap mgr maxClients) where
  conns h := absurd h (by simp [Door.new])
  owners h := nomatch h
  numbered _ h := nomatch h
  fresh _ := rfl

/-- The input of a command is not empty. -/
theorem execInput_ne_nil {data b : Bytes} (h : execInput data = some b) : b ≠ [] := by
  unfold execInput at h
  split at h
  · cases h
  · rename_i hne
    split at h
    · exact Option.some_inj.1 h ▸ hne
    · split at h <;> exact Option.some_inj.1 h ▸ by simp

section Frame

/-! ### Steps keep the books -/

@[simp] theorem detachClient_ids (d : Door cap) (client : Option ℕ) :
    (d.detachClient client).registry.ids = d.registry.ids := by
  cases client <;> rfl

@[simp] theorem detachClient_nextId (d : Door cap) (client : Option ℕ) :
    (d.detachClient client).registry.nextId = d.registry.nextId := by
  cases client <;> rfl

@[simp] theorem detachClient_counts (d : Door cap) (client : Option ℕ) :
    (d.detachClient client).registry.counts = d.registry.counts := by
  cases client <;> rfl

variable {l : Traffic} {d t : Door cap} {i : ℕ} {c c' : Conn} {ids : List ℕ}

/-- The handler keeps its record or drops it, and no command is on its way that was not before. -/
theorem Conn.Booked.congr (hc : c.Booked l ids i)
    (hrec : c'.handler.clientRec = c.handler.clientRec ∨ c'.handler.clientRec = none)
    (hp : c'.pending = c.pending ∨ ∀ p ∈ c'.pending, ∃ channel isExec id,
      p = .subscribe channel isExec id) : c'.Booked l ids i where
  client hid := hrec.elim (fun h => hc.client (h ▸ hid)) fun h => nomatch h.symm.trans hid
  input h := by
    rcases hp with hp | hp
    · exact hc.input (hp ▸ h)
    · obtain ⟨_, _, _, hp⟩ := hp _ h
      cases hp
  command h := by
    rcases hp with hp | hp
    · exact hc.command (hp ▸ h)
    · obtain ⟨_, _, _, hp⟩ := hp _ h
      cases hp

/-- One connection moves. -/
theorem Books.setConn (hb : Books l d) (hi : d.conns[i]? = some c)
    (hconns : t.conns = d.conns.set i c') (hids : t.registry.ids = d.registry.ids)
    (hnext : t.registry.nextId = d.registry.nextId) (hc : c'.Booked l d.registry.ids i) :
    Books l t where
  conns {j e} hj := by
    rw [hids]
    rw [hconns] at hj
    by_cases hij : i = j
    · subst hij
      rw [List.getElem?_set_self (List.getElem?_eq_some_iff.1 hi).1, Option.some_inj] at hj
      exact hj ▸ hc
    · exact hb.conns (by rwa [List.getElem?_set_ne hij] at hj)
  owners h := hids ▸ hb.owners h
  numbered id hid := hnext ▸ hb.numbered id (hids ▸ hid)
  fresh hn := hb.fresh (hnext ▸ hn)

/-- The connections stay. -/
theorem Books.of_eq (hb : Books l d) (hconns : t.conns = d.conns)
    (hids : t.registry.ids = d.registry.ids) (hnext : t.registry.nextId = d.registry.nextId) :
    Books l t where
  conns hj := by
    rw [hids]
    exact hb.conns (hconns ▸ hj)
  owners h := hids ▸ hb.owners h
  numbered id hid := hnext ▸ hb.numbered id (hids ▸ hid)
  fresh hn := hb.fresh (hnext ▸ hn)

/-- A chunk is accepted. -/
theorem Books.credit (hb : Books l d) (i channel : ℕ) (b : Bytes) :
    Books (l.credit i channel b) d := by
  unfold Traffic.credit
  split
  · rename_i id hid
    have hle := hb.numbered id (hb.owners hid)
    refine ⟨fun hi => ?_, hb.owners, hb.numbered, fun {n} hn => ?_⟩
    · exact ⟨(hb.conns hi).client, (hb.conns hi).input, (hb.conns hi).command⟩
    · dsimp only
      rw [Function.update_of_ne (by omega), hb.fresh hn]
  · exact ⟨fun hi => ⟨(hb.conns hi).client, (hb.conns hi).input, (hb.conns hi).command⟩,
      hb.owners, hb.numbered, hb.fresh⟩

end Frame

section Steps

variable {l : Traffic} {d t : Door cap} {a : Callback} {i : ℕ} {c : Conn}

theorem startShellOrExec_booked (hb : Books l d) (hc : d.idleConn i = some c) (channel : ℕ)
    {input : Option Bytes} (hinput : ∀ b ∈ input, b ≠ []) (isExec : Bool) :
    Books l (d.startShellOrExec i c channel input isExec) := by
  obtain ⟨hi, -, hidle⟩ := Door.idleConn_some hc
  unfold Door.startShellOrExec
  split
  · exact hb.setConn hi rfl rfl rfl ((hb.conns hi).congr (.inl rfl) (.inl rfl))
  · split
    · exact hb.setConn hi rfl rfl rfl ((hb.conns hi).congr (.inl rfl) (.inl rfl))
    · refine hb.setConn hi rfl rfl rfl ⟨(hb.conns hi).client, fun {_ b _} h => ?_, fun h => ?_⟩
      · cases h
        exact hinput b rfl
      · cases h

variable [NeZero cap]

/-- The first section of a request gives its channel to the new client. -/
theorem attach_given (hs : doorStep d (.attach i) = some t) (channel' : ℕ) :
    ∃ c channel input isExec pending, d.conns[i]? = some c ∧
      c.pending = some (.attach channel input isExec) ∧
      (input = none ∧ pending = .subscribe channel isExec (d.registry.nextId + 1) ∨
        ∃ b, input = some b ∧
          pending = .sendInput channel b isExec (d.registry.nextId + 1)) ∧
      t = Door.setConn { d with registry := (d.registry.attach c.handler.peer).2 } i
        { c with
          handler := { c.handler with clientRec := some (d.registry.nextId + 1), isExec := isExec }
          pending := some pending } ∧
      l.note d ⟨.attach i, channel'⟩ t = l.give i channel (d.registry.nextId + 1) := by
  simp only [doorStep] at hs
  split at hs
  · rename_i c hc
    split at hs
    · rename_i channel input isExec hp
      have hi := (Door.openConn_some hc).1
      have hnote : l.note d ⟨.attach i, channel'⟩ t = l.give i channel t.registry.nextId := by
        simp only [Traffic.note, hc, Option.bind_some, hp]
      cases input with
      | none =>
          obtain rfl := Option.some_inj.1 hs
          exact ⟨c, channel, none, isExec, _, hi, hp, .inl ⟨rfl, rfl⟩, rfl, hnote⟩
      | some b =>
          obtain rfl := Option.some_inj.1 hs
          exact ⟨c, channel, some b, isExec, _, hi, hp, .inr ⟨b, rfl, rfl⟩, rfl, hnote⟩
    · cases hs
  · cases hs

theorem Books.attach (hb : Books l d) (hs : doorStep d (.attach i) = some t) (channel : ℕ) :
    Books (l.note d ⟨.attach i, channel⟩ t) t := by
  obtain ⟨c, channel', input, isExec, pending, hi, hp, hnext, rfl, hnote⟩ :=
    attach_given (l := l) hs channel
  rw [hnote]
  have hlt := (List.getElem?_eq_some_iff.1 hi).1
  have hids : ∀ id, id ∈ (d.registry.attach c.handler.peer).2.ids ↔
      id ∈ d.registry.ids ∨ id = d.registry.nextId + 1 := by
    intro id
    simp [ClientRegistry.ids, ClientRegistry.attach]
  constructor
  · intro j e hj
    by_cases hij : i = j
    · subst hij
      simp only [Door.setConn, List.getElem?_set_self hlt, Option.some_inj] at hj
      subst hj
      refine ⟨fun h => (hids _).2 (.inr (Option.some_inj.1 h).symm), fun h => ?_, fun h => ?_⟩
      · rcases hnext with ⟨-, rfl⟩ | ⟨b, -, rfl⟩ <;> cases h
      · rcases hnext with ⟨-, rfl⟩ | ⟨b, rfl, rfl⟩
        · cases h
        · cases h
          exact ⟨(hb.conns hi).input hp, owner_give_self ..⟩
    · simp only [Door.setConn, List.getElem?_set_ne hij] at hj
      have he := hb.conns hj
      refine ⟨fun h => (hids _).2 (.inl (he.client h)), he.input, fun h => ?_⟩
      rw [owner_give_of_ne (Ne.symm hij)]
      exact he.command h
  · intro j channel'' id h
    rcases owner_give h with rfl | h
    · exact (hids _).2 (.inr rfl)
    · exact (hids _).2 (.inl (hb.owners h))
  · intro id hid
    rcases (hids _).1 hid with hid | rfl
    · exact (hb.numbered id hid).trans (Nat.le_succ _)
    · exact Nat.le_refl _
  · intro n hn
    exact hb.fresh (Nat.lt_of_succ_lt hn)

/-- What a step that attaches nobody does to the books. -/
theorem Books.move {a : DoorAct} (hb : Books l d) (hs : doorStep d a = some t)
    (ha : ∀ i, a ≠ .attach i) : Books l t := by
  cases doorStep_stepped hs with
  | accept =>
      refine ⟨fun hi => ?_, hb.owners, hb.numbered, hb.fresh⟩
      rcases getElem?_concat_eq_some.1 hi with hi | ⟨-, rfl⟩
      · exact hb.conns hi
      · exact ⟨by simp [ClientHandler.new], by simp, by simp⟩
  | turnedAway | dropped | eofOfShell => exact hb
  | letIn hc =>
      obtain ⟨hi, -, -⟩ := Door.idleConn_some hc
      exact hb.setConn hi rfl rfl rfl ((hb.conns hi).congr (.inl rfl) (.inl rfl))
  | shell hc => exact startShellOrExec_booked hb hc _ (by simp) _
  | exec hc => exact startShellOrExec_booked hb hc _ (fun _ h => execInput_ne_nil h) _
  | attach => exact absurd rfl (ha _)
  | inputSent hc =>
      obtain ⟨hi, -⟩ := Door.openConn_some hc
      refine hb.setConn hi rfl addIn_ids rfl ((hb.conns hi).congr (.inl rfl) (.inr ?_))
      exact fun p hp => ⟨_, _, _, (Option.some_inj.1 hp).symm⟩
  | subscribe hc =>
      obtain ⟨hi, -⟩ := Door.openConn_some hc
      exact hb.setConn hi rfl rfl rfl ((hb.conns hi).congr (.inl rfl) (.inr fun _ h => nomatch h))
  | @data i _ _ c =>
      refine hb.of_eq rfl ?_ ?_ <;> cases c.handler.clientRec <;> simp
  | eof hc | close hc =>
      obtain ⟨hi, -, -⟩ := Door.idleConn_some hc
      refine hb.setConn hi (Door.closed_conns ..) ?_ ?_ ((hb.conns hi).congr (.inr rfl) (.inl rfl))
      all_goals simp [Door.setConn]
  | @disconnect i c hc =>
      obtain ⟨hi, -, -⟩ := Door.idleConn_some hc
      refine hb.setConn hi (Door.closed_conns d c.handler.forwardTask none i _) ?_ ?_
        ((hb.conns hi).congr (.inl rfl) (.inl rfl)) <;> simp [Door.setConn]
  | kick => exact hb.of_eq rfl kick_ids kick_nextId
  | task _ hs =>
      obtain ⟨hub, tasks, rfl, -⟩ := taskStep_frame hs
      exact hb.of_eq rfl rfl rfl
  | hub => exact hb.of_eq rfl rfl rfl

/-- **Every step keeps the books.** -/
theorem Books.step (hb : Books l d) (hs : doorStep d a.act = some t) : Books (l.note d a t) t := by
  obtain ⟨a, channel⟩ := a
  by_cases ha : ∃ i, a = .attach i
  · obtain ⟨i, rfl⟩ := ha
    exact hb.attach hs channel
  · have hbt : Books l t := hb.move hs fun i hi => ha ⟨i, hi⟩
    unfold Traffic.note
    split
    · rename_i i hi
      exact absurd ⟨i, hi⟩ ha
    · split
      · exact hbt.credit ..
      · exact hbt
    · split
      · exact hbt.credit ..
      · exact hbt
    · exact hbt

/-- Counters move only when bytes are handed over, and when a client is attached. -/
theorem doorStep_counts {a : DoorAct} (hs : doorStep d a = some t) (ha : ∀ i, a ≠ .attach i)
    (hsent : ∀ i taken, a ≠ .inputSent i taken) (hdata : ∀ i b taken, a ≠ .data i b taken) :
    t.registry.counts = d.registry.counts := by
  cases doorStep_stepped hs with
  | attach => exact absurd rfl (ha _)
  | inputSent => exact absurd rfl (hsent _ _)
  | data => exact absurd rfl (hdata _ _ _)
  | shell | exec | eof | close | disconnect => simp [Door.setConn]
  | kick => exact counts_kick
  | task _ hs =>
      obtain ⟨hub, tasks, rfl, -⟩ := taskStep_frame hs
      rfl
  | _ => rfl

omit [NeZero cap] in
/-- A chunk that the hub has not taken is counted for nobody, or it is empty. -/
theorem refused_iff (hl : Balanced l d) (b : Bytes) {o : Option ℕ}
    (ho : ∀ id, o = some id → id ∈ d.registry.ids) :
    (∀ p ∈ (o.elim d.registry fun id => d.registry.addIn id b.length).counts,
      p.2 = l.sent p.1) ↔ b = [] ∨ o = none := by
  rw [counted_iff (balanced_iff.1 hl).1]
  constructor
  · intro h
    cases o with
    | none => exact .inr rfl
    | some id =>
        have hid := h id (ho id rfl)
        rw [if_pos rfl] at hid
        exact .inl (List.eq_nil_of_length_eq_zero (by omega))
  · rintro (rfl | rfl) m - <;> simp

omit [NeZero cap] in
/-- A chunk that the hub has taken is counted for the client of its channel, or it is empty. -/
theorem credited_iff (hb : Books l d) (hl : Balanced l d) (i channel : ℕ) (b : Bytes)
    (o : Option ℕ) :
    ((∀ p ∈ (o.elim d.registry fun id => d.registry.addIn id b.length).counts,
      p.2 = (l.credit i channel b).sent p.1) ∧ (l.credit i channel b).strays = []) ↔
      ∃ id ∈ l.owner i channel, b = [] ∨ o = some id := by
  rw [counted_iff (balanced_iff.1 hl).1, credit_strays]
  simp only [credit_sent]
  constructor
  · rintro ⟨h, -, howner⟩
    obtain ⟨id, hid⟩ := Option.isSome_iff_exists.1 howner
    refine ⟨id, hid, ?_⟩
    have hsame := h id (hb.owners hid)
    rw [if_pos hid] at hsame
    by_cases ho : o = some id
    · exact .inr ho
    · rw [if_neg ho] at hsame
      exact .inl (List.eq_nil_of_length_eq_zero (by omega))
  · rintro ⟨id, hid, hcase⟩
    refine ⟨fun m _ => ?_, hl.strays, by rw [hid]; rfl⟩
    rcases hcase with rfl | rfl
    · simp
    · rw [hid]

/-- The command of an exec client is counted for it, whether or not the hub has taken it. -/
theorem balanced_inputSent {i channel : ℕ} {taken : Bool} (hb : Books l d) (hl : Balanced l d)
    (hs : doorStep d (.inputSent i taken) = some t) :
    Balanced (l.note d ⟨.inputSent i taken, channel⟩ t) t ↔ taken = true := by
  obtain ⟨hcounts, hstrays⟩ := balanced_iff.1 hl
  obtain ⟨c, channel', b, isExec, id, hc, hp, rfl⟩ := doorStep_inputSent hs
  obtain ⟨hne, howner⟩ := (hb.conns (Door.openConn_some hc).1).command hp
  have hpend : (d.openConn i).bind Conn.pending = some (.sendInput channel' b isExec id) := by
    rw [hc, Option.bind_some, hp]
  rw [balanced_iff]
  cases taken with
  | true =>
      refine iff_of_true ?_ rfl
      simp only [Traffic.note, hpend]
      refine ⟨(counted_iff hcounts (some id)).2 fun m _ => ?_, ?_⟩
      · rw [credit_sent, howner]
      · rw [credit_strays, howner]
        exact ⟨hstrays, rfl⟩
  | false =>
      refine iff_of_false (fun h => ?_) nofun
      have hsame := (counted_iff hcounts (some id)).1 h.1 id (hb.owners howner)
      rw [if_pos rfl] at hsame
      have hlen : 0 < b.length := List.length_pos_of_ne_nil hne
      simp only [Traffic.note] at hsame
      omega

/-- What a client types is counted for the record that the handler holds. -/
theorem balanced_data {i channel : ℕ} {b : Bytes} {taken : Bool} (hb : Books l d)
    (hl : Balanced l d) (hs : doorStep d (.data i b taken) = some t) :
    Balanced (l.note d ⟨.data i b taken, channel⟩ t) t ↔
      Accounted l d ⟨.data i b taken, channel⟩ := by
  obtain ⟨c, hc, hcase⟩ := doorStep_data hs
  have hentry : (d.idleConn i).bind (fun c => c.handler.entry) = c.handler.entry := by
    rw [hc, Option.bind_some]
  have hidle : Accounted l d ⟨.data i b taken, channel⟩ ↔ (c.handler.entry.isSome = true →
      if taken then ∃ id ∈ l.owner i channel, b = [] ∨ c.handler.clientRec = some id
      else b = [] ∨ c.handler.clientRec = none) := by
    simp [Accounted, hc]
  rw [hidle]
  rcases hcase with ⟨hno, rfl⟩ | ⟨hin, rfl⟩
  · refine iff_of_true ?_ (by simp [hno])
    cases taken <;> simpa only [Traffic.note, hentry, hno] using hl
  · obtain ⟨e, he⟩ := Option.isSome_iff_exists.1 hin
    rw [forall_prop_of_true hin, balanced_iff]
    cases taken with
    | true =>
        simp only [Traffic.note, hentry, he]
        exact credited_iff hb hl i channel b _
    | false =>
        simp only [Traffic.note]
        have hbooked := hb.conns (Door.idleConn_some hc).1
        have hrefused := refused_iff hl b fun id hid => hbooked.client hid
        exact (and_iff_left hl.strays).trans hrefused

/-- **A step keeps the balance exactly if it is accounted.** -/
theorem balanced_step (hb : Books l d) (hl : Balanced l d) (hs : doorStep d a.act = some t) :
    Balanced (l.note d a t) t ↔ Accounted l d a := by
  obtain ⟨a, channel⟩ := a
  cases a with
  | attach i =>
      refine iff_of_true ?_ trivial
      obtain ⟨c, channel', input, isExec, pending, -, -, -, rfl, hnote⟩ :=
        attach_given (l := l) hs channel
      obtain ⟨hcounts, hstrays⟩ := balanced_iff.1 hl
      rw [hnote]
      refine balanced_iff.2 ⟨fun p hp => ?_, hstrays⟩
      rw [Door.setConn, counts_attach, List.mem_append, List.mem_singleton] at hp
      rcases hp with hp | rfl
      · exact hcounts p hp
      · exact (hb.fresh (Nat.lt_succ_self _)).symm
  | inputSent i taken => exact balanced_inputSent hb hl hs
  | data i b taken => exact balanced_data hb hl hs
  | _ =>
      refine iff_of_true (balanced_iff.2 ⟨?_, hl.strays⟩) trivial
      rw [doorStep_counts hs (by simp) (by simp) (by simp)]
      exact (balanced_iff.1 hl).1

end Steps

/-! ### Whole runs -/

variable [NeZero cap]

/-- The door does not look at the channels that data come over. -/
def callbackStep (d : Door cap) (a : Callback) : Option (Door cap) := doorStep d a.act

/-- The door with the observer of the traffic. -/
def trafficStep : Traffic × Door cap → Callback → Option (Traffic × Door cap) :=
  observed callbackStep Traffic.note

/-- **The counters add up in every state of a run exactly if every step of it is accounted.** -/
theorem traffic_iff {mgr : SessionMgr} {maxClients : ℕ} {as : List Callback} {t : Door cap}
    (hr : exec callbackStep (Door.new cap mgr maxClients) as = some t) :
    Along trafficStep (fun p => Balanced p.1 p.2) (.new, Door.new cap mgr maxClients) as ↔
      Meets trafficStep (fun p => Accounted p.1 p.2) (.new, Door.new cap mgr maxClients) as := by
  have hstep : ∀ (l : Traffic) (d : Door cap) (a : Callback) (t : Door cap), Books l d →
      callbackStep d a = some t → Books (l.note d a t) t := fun l d a t hp hs => hp.step hs
  refine along_observed_iff_meets hstep (fun l d a t hp hb hs => balanced_step hp hb hs)
    (books_new mgr maxClients) ?_ hr
  exact ⟨List.forall_mem_nil _, rfl⟩

/-- A client gets a shell on the channel 7 and types two bytes. -/
def typedOnShell (taken : Bool) : List Callback :=
  [⟨.accept "10.0.0.9:50000", 0⟩, ⟨.auth 0 "admin" "pass", 0⟩, ⟨.shell 0 7, 7⟩, ⟨.attach 0, 7⟩,
    ⟨.subscribe 0, 7⟩, ⟨.data 0 [108, 115] taken, 7⟩]

/-- While the runner receives, what is typed is counted. -/
theorem traffic_typed :
    Along trafficStep (fun p => Balanced p.1 p.2) (.new, Door.new 4 createdMgr 16)
      (typedOnShell true) := by
  obtain ⟨t, ht⟩ : ∃ t, exec callbackStep (Door.new 4 createdMgr 16) (typedOnShell true) = some t :=
    ⟨_, rfl⟩
  exact (traffic_iff ht).2 (by decide)

/-- **After the runner has ended, bytes are counted that nobody has taken.** -/
theorem refused_bytes_counted :
    ¬ ∀ (mgr : SessionMgr) (maxClients : ℕ) (as : List Callback) (t : Door 4),
      exec callbackStep (Door.new 4 mgr maxClients) as = some t →
      Along trafficStep (fun p => Balanced p.1 p.2) (.new, Door.new 4 mgr maxClients) as := by
  intro h
  obtain ⟨t, ht⟩ : ∃ t, exec callbackStep (Door.new 4 createdMgr 16) (typedOnShell false) =
    some t := ⟨_, rfl⟩
  obtain ⟨p, hp, hcounts, hsent⟩ : ∃ p,
      exec trafficStep (.new, Door.new 4 createdMgr 16) (typedOnShell false) = some p ∧
      p.2.registry.counts = [(1, 2)] ∧ p.1.sent 1 = 0 := ⟨_, rfl, rfl, rfl⟩
  have hone := (balanced_iff.1 ((h createdMgr 16 _ t ht).last hp)).1 (1, 2)
    (by rw [hcounts]; exact List.mem_cons_self)
  rw [hsent] at hone
  cases hone

end Sshd

end TermHub
