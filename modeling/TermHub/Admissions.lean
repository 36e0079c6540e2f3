/-
**The history of a door.**

A connection has one handler, which keeps one forward task, one record and one flag, while its
requests carry channel numbers.  What the requests of a connection have been is told by a history of
the callbacks alone, and every run of the door keeps the handlers and the registry in agreement with
it.

Main definitions:

* `Ticket` — a request that has passed the limit, with the number of the record made for it;
* `History`, `note` — what the callbacks of a run tell;
* `Seats`, `Handlers` — the registry and the handlers agree with a history.

Main results:

* `Agrees.step`, `Told.step` — **every step keeps the agreement**.
-/

import TermHub.Outlive

set_option relaxedAutoImplicit false
set_option autoImplicit false

namespace TermHub

namespace Sshd

open Transition Hub Broadcast
open Runner (Bytes)

variable {cap : ℕ}

/-! ### What the callbacks tell -/

/-- A shell or exec request that has passed the limit: its connection and channel, the number of the
record that was made for it, and its kind. -/
structure Ticket where
  conn : ℕ
  channel : ℕ
  client : ℕ
  isExec : Bool
  deriving DecidableEq, Repr

/-- What the callbacks of a run tell: the last request of each connection, which connections have
been let in, how many records have been made, the last request of a connection that has passed the
limit, as long as no close and no end of a command has come after it, the kind of the last one, the
numbers that have been kicked, and the requests whose channels are open. -/
structure History where
  asked : ℕ → ℕ × Bool
  letIn : ℕ → Bool
  made : ℕ
  last : ℕ → Option Ticket
  exec : ℕ → Bool
  kicked : List ℕ
  opened : List Ticket

/-- Before the first callback. -/
def History.new : History :=
  ⟨fun _ => (0, false), fun _ => false, 0, fun _ => none, fun _ => false, [], []⟩

/-- The ticket of the request that the connection `i` attaches next. -/
def History.ticket (h : History) (i : ℕ) : Ticket :=
  ⟨i, (h.asked i).1, h.made + 1, (h.asked i).2⟩

/-- Note an action.  A channel is open from the request that has passed the limit to its close, to
the end of input of a command, or to the end of its connection. -/
def note (mgr : SessionMgr) (h : History) : DoorAct → History
  | .auth i user password =>
    if (mgr.authenticate user password).isSome then
      { h with letIn := Function.update h.letIn i true }
    else h
  | .shell i channel => { h with asked := Function.update h.asked i (channel, false) }
  | .exec i channel _ => { h with asked := Function.update h.asked i (channel, true) }
  | .attach i =>
    { h with
      made := h.made + 1
      last := Function.update h.last i (some (h.ticket i))
      exec := Function.update h.exec i (h.asked i).2
      opened := h.opened ++ [h.ticket i] }
  | .eof i channel =>
    { h with
      last := if h.exec i then Function.update h.last i none else h.last
      opened := h.opened.filter fun k => !(k.conn == i && k.channel == channel && k.isExec) }
  | .close i channel =>
    { h with
      last := Function.update h.last i none
      opened := h.opened.filter fun k => !(k.conn == i && k.channel == channel) }
  | .disconnect i => { h with opened := h.opened.filter fun k => !(k.conn == i) }
  | .kick id => { h with kicked := if id ≤ h.made then h.kicked ++ [id] else h.kicked }
  | _ => h

/-- The history hears nothing of the upstream. -/
theorem note_hubAct (mgr : SessionMgr) (h : History) {a : DoorAct} (ha : a.IsHubAct) :
    note mgr h a = h := by
  cases a with
  | push | forward | system | shutdown => rfl
  | _ => exact absurd ha id

/-! ### The registry -/

section Registry

variable {r : ClientRegistry} {id n : ℕ}

@[simp] theorem addIn_nextId : (r.addIn id n).nextId = r.nextId := rfl

@[simp] theorem addIn_listed : (r.addIn id n).listed = r.listed := rfl

@[simp] theorem isKicked_addIn (m : ℕ) : (r.addIn id n).isKicked m = r.isKicked m := by
  unfold ClientRegistry.isKicked ClientRegistry.addIn
  rw [List.any_map]
  congr 1
  funext c
  simp only [Function.comp_apply]
  split <;> rfl

@[simp] theorem isKicked_detach (m : ℕ) : (r.detach id).isKicked m = r.isKicked m := rfl

theorem mem_listed_detach {m : ℕ} : m ∈ (r.detach id).listed ↔ m ∈ r.listed ∧ m ≠ id := by
  simp [ClientRegistry.detach]

/-- A record that is made is not kicked, and the others stay as they are. -/
theorem isKicked_attach (remote : String) (m : ℕ) :
    (r.attach remote).2.isKicked m = r.isKicked m := by
  simp [ClientRegistry.isKicked, ClientRegistry.attach]

/-- The numbers of the records made so far. -/
def ClientRegistry.ids (r : ClientRegistry) : List ℕ := r.records.map ClientRecord.id

@[simp] theorem addIn_ids : (r.addIn id n).ids = r.ids := by
  simp only [ClientRegistry.ids, ClientRegistry.addIn, List.map_map]
  congr 1
  funext c
  simp only [Function.comp_apply]
  split <;> rfl

@[simp] theorem kick_ids : (r.kick id).2.ids = r.ids := by
  unfold ClientRegistry.kick
  split
  · simp only [ClientRegistry.ids, List.map_map]
    congr 1
    funext c
    simp only [Function.comp_apply]
    split <;> rfl
  · rfl

@[simp] theorem kick_listed : (r.kick id).2.listed = r.listed := by
  unfold ClientRegistry.kick
  split <;> rfl

@[simp] theorem kick_nextId : (r.kick id).2.nextId = r.nextId := by
  unfold ClientRegistry.kick
  split <;> rfl

theorem isKicked_kick (hid : id ∈ r.listed) (hrec : id ∈ r.ids) (m : ℕ) :
    (r.kick id).2.isKicked m = true ↔ r.isKicked m = true ∨ m = id := by
  unfold ClientRegistry.isKicked ClientRegistry.kick
  rw [if_pos hid]
  simp only [List.any_eq_true, List.mem_map, Bool.and_eq_true, decide_eq_true_eq]
  constructor
  · rintro ⟨c', ⟨c, hc, rfl⟩, hm, hk⟩
    split at hm
    · rename_i hcid
      exact .inr (hm.symm.trans hcid)
    · rename_i hcid
      rw [if_neg hcid] at hk
      exact .inl ⟨c, hc, hm, hk⟩
  · rintro (⟨c, hc, hm, hk⟩ | rfl)
    · refine ⟨_, ⟨c, hc, rfl⟩, ?_⟩
      split
      · exact ⟨hm, rfl⟩
      · exact ⟨hm, hk⟩
    · obtain ⟨c, hc, hcid⟩ := List.mem_map.1 hrec
      exact ⟨_, ⟨c, hc, rfl⟩, by simp [hcid]⟩

end Registry

/-- The registry agrees with a history: records are numbered in order, and the last record of a
connection is listed and has been kicked exactly if its number has. -/
structure Seats (h : History) (r : ClientRegistry) : Prop where
  made : r.nextId = h.made
  conn : ∀ {i : ℕ} {k : Ticket}, h.last i = some k → k.conn = i
  listed : ∀ {i : ℕ} {k : Ticket}, h.last i = some k → k.client ∈ r.listed
  kicked : ∀ {i : ℕ} {k : Ticket}, h.last i = some k →
    (r.isKicked k.client = true ↔ k.client ∈ h.kicked)
  own : ∀ {i j : ℕ} {k k' : Ticket}, h.last i = some k → h.last j = some k' →
    k.client = k'.client → i = j
  recorded : ∀ id ∈ r.listed, id ∈ r.ids
  numbered : ∀ id ∈ r.ids, id ≤ r.nextId
  kicked_le : ∀ id ∈ h.kicked, id ≤ h.made

section Seats

variable {h h' : History} {r r' : ClientRegistry} {i : ℕ}

theorem seats_new : Seats .new .new where
  made := rfl
  conn hk := nomatch hk
  listed hk := nomatch hk
  kicked hk := nomatch hk
  own hk := nomatch hk
  recorded _ hid := nomatch hid
  numbered _ hid := nomatch hid
  kicked_le _ hid := nomatch hid

/-- What counts of the registry are the numbers and the tokens. -/
theorem Seats.congr (hs : Seats h r) (hmade : h'.made = h.made) (hlast : h'.last = h.last)
    (hkicked : h'.kicked = h.kicked) (hnext : r'.nextId = r.nextId) (hlisted : r'.listed = r.listed)
    (hids : r'.ids = r.ids) (htok : ∀ id, r'.isKicked id = r.isKicked id) : Seats h' r' where
  made := by rw [hnext, hmade, hs.made]
  conn hk := hs.conn (hlast ▸ hk)
  listed hk := hlisted ▸ hs.listed (hlast ▸ hk)
  kicked hk := by
    rw [htok, hkicked]
    exact hs.kicked (hlast ▸ hk)
  own hk hk' := hs.own (hlast ▸ hk) (hlast ▸ hk')
  recorded id hid := hids ▸ hs.recorded id (hlisted ▸ hid)
  numbered id hid := hnext ▸ hs.numbered id (hids ▸ hid)
  kicked_le id hid := hmade ▸ hs.kicked_le id (hkicked ▸ hid)

/-- The number of a ticket has been given. -/
theorem Seats.client_le (hs : Seats h r) {k : Ticket} (hk : h.last i = some k) :
    k.client ≤ h.made :=
  hs.made ▸ hs.numbered _ (hs.recorded _ (hs.listed hk))

theorem Seats.attach (hs : Seats h r) (mgr : SessionMgr) (remote : String) :
    Seats (note mgr h (.attach i)) (r.attach remote).2 := by
  have hlast : ∀ {j : ℕ} {k : Ticket}, (note mgr h (.attach i)).last j = some k →
      (j = i ∧ k = h.ticket i) ∨ (j ≠ i ∧ h.last j = some k) := by
    intro j k hk
    by_cases hj : j = i
    · subst hj
      exact .inl ⟨rfl, (Option.some_inj.1 ((Function.update_self j _ h.last).symm.trans hk)).symm⟩
    · exact .inr ⟨hj, (Function.update_of_ne hj _ h.last).symm.trans hk⟩
  have hnew : (h.ticket i).client = r.nextId + 1 := by rw [hs.made]; rfl
  refine
    { made := congrArg (· + 1) hs.made
      conn := ?_, listed := ?_, kicked := ?_, own := ?_, recorded := ?_, numbered := ?_
      kicked_le := fun id hid => (hs.kicked_le id hid).trans (Nat.le_succ _) }
  · intro j k hk
    rcases hlast hk with ⟨rfl, rfl⟩ | ⟨-, hk⟩
    · rfl
    · exact hs.conn hk
  · intro j k hk
    rcases hlast hk with ⟨-, rfl⟩ | ⟨-, hk⟩
    · exact List.mem_append_right _ (List.mem_singleton.2 hnew)
    · exact List.mem_append_left _ (hs.listed hk)
  · intro j k hk
    rw [isKicked_attach]
    rcases hlast hk with ⟨-, rfl⟩ | ⟨-, hk⟩
    · -- neither the registry nor the history knows the new number
      have h₁ : r.isKicked (h.ticket i).client ≠ true := by
        intro hkick
        obtain ⟨c, hc, hck⟩ := List.any_eq_true.1 hkick
        simp only [Bool.and_eq_true, decide_eq_true_eq] at hck
        have := hs.numbered c.id (List.mem_map_of_mem hc)
        omega
      have h₂ : (h.ticket i).client ∉ h.kicked := by
        intro hkick
        have := hs.kicked_le _ hkick
        have := hs.made
        omega
      exact ⟨fun h => absurd h h₁, fun h => absurd h h₂⟩
    · exact hs.kicked hk
  · intro j j' k k' hk hk' heq
    rcases hlast hk with ⟨hj, rfl⟩ | ⟨-, hold⟩
    · rcases hlast hk' with ⟨hj', -⟩ | ⟨-, hold'⟩
      · exact hj.trans hj'.symm
      · exact absurd (heq.le.trans (hs.client_le hold')) (Nat.not_succ_le_self h.made)
    · rcases hlast hk' with ⟨-, rfl⟩ | ⟨-, hold'⟩
      · exact absurd (heq.ge.trans (hs.client_le hold)) (Nat.not_succ_le_self h.made)
      · exact hs.own hold hold' heq
  · intro id hid
    unfold ClientRegistry.ids ClientRegistry.attach
    rw [List.map_append]
    rcases List.mem_append.1 hid with hid | hid
    · exact List.mem_append_left _ (hs.recorded id hid)
    · exact List.mem_append_right _ hid
  · intro id hid
    unfold ClientRegistry.ids ClientRegistry.attach at hid
    rw [List.map_append] at hid
    rcases List.mem_append.1 hid with hid | hid
    · exact (hs.numbered id hid).trans (Nat.le_succ _)
    · exact (List.mem_singleton.1 hid).le

/-- The last client of a connection leaves. -/
theorem Seats.leave (hs : Seats h r) (hmade : h'.made = h.made)
    (hlast : h'.last = Function.update h.last i none) (hkicked : h'.kicked = h.kicked)
    (hr : r' = ((h.last i).map Ticket.client).elim r r.detach) : Seats h' r' := by
  have old : ∀ {j : ℕ} {k : Ticket}, h'.last j = some k → j ≠ i ∧ h.last j = some k := by
    intro j k hk
    rw [hlast] at hk
    by_cases hj : j = i
    · subst hj
      rw [Function.update_self] at hk
      cases hk
    · exact ⟨hj, (Function.update_of_ne hj _ _).symm.trans hk⟩
  cases hi : h.last i with
  | none =>
      rw [hi] at hr
      subst hr
      refine hs.congr hmade ?_ hkicked rfl rfl rfl fun _ => rfl
      rw [hlast, ← hi, Function.update_eq_self]
  | some k₀ =>
      rw [hi] at hr
      subst hr
      exact
        { made := hs.made.trans hmade.symm
          conn := fun hk => hs.conn (old hk).2
          listed := fun hk => mem_listed_detach.2 ⟨hs.listed (old hk).2, fun heq =>
            (old hk).1 (hs.own (old hk).2 hi heq)⟩
          kicked := fun hk => by
            rw [hkicked]
            exact hs.kicked (old hk).2
          own := fun hk hk' => hs.own (old hk).2 (old hk').2
          recorded := fun id hid => hs.recorded id (mem_listed_detach.1 hid).1
          numbered := hs.numbered
          kicked_le := fun id hid => hmade ▸ hs.kicked_le id (hkicked ▸ hid) }

theorem Seats.kick (hs : Seats h r) (mgr : SessionMgr) (id : ℕ) :
    Seats (note mgr h (.kick id)) (r.kick id).2 := by
  refine
    { made := kick_nextId.trans hs.made
      conn := hs.conn
      listed := fun hk => kick_listed.symm ▸ hs.listed hk
      kicked := ?_
      own := hs.own
      recorded := fun m hm => kick_ids.symm ▸ hs.recorded m (kick_listed ▸ hm)
      numbered := fun m hm => kick_nextId.symm ▸ hs.numbered m (kick_ids ▸ hm)
      kicked_le := ?_ }
  · intro i k hk
    have hlist := hs.listed hk
    by_cases hid : id ∈ r.listed
    · have hle : id ≤ h.made := hs.made ▸ hs.numbered id (hs.recorded id hid)
      rw [isKicked_kick hid (hs.recorded id hid), hs.kicked hk]
      simp [note, hle]
    · -- the number is not listed, so it is not the one of this client
      have hne : k.client ≠ id := fun heq => hid (heq ▸ hlist)
      have hkick : (r.kick id).2 = r := by
        unfold ClientRegistry.kick
        rw [if_neg hid]
      rw [hkick, hs.kicked hk]
      simp only [note]
      split
      · simp [hne]
      · rfl
  · intro m hm
    simp only [note] at hm ⊢
    split at hm
    · rename_i hle
      rcases List.mem_append.1 hm with hm | hm
      · exact hs.kicked_le m hm
      · exact List.mem_singleton.1 hm ▸ hle
    · exact hs.kicked_le m hm

end Seats

/-! ### The handlers -/

/-- A handler agrees with a history. -/
structure Conn.Agrees (h : History) (i : ℕ) (c : Conn) : Prop where
  asked : ∀ {channel : ℕ} {input : Option Bytes} {isExec : Bool},
    c.pending = some (.attach channel input isExec) → h.asked i = (channel, isExec)
  letIn : c.handler.entry.isSome = h.letIn i
  client : c.handler.clientRec = (h.last i).map Ticket.client
  exec : c.handler.isExec = h.exec i

/-- The handlers agree with a history, which tells nothing about connections to come. -/
structure Handlers (h : History) (conns : List Conn) : Prop where
  agree : ∀ {i : ℕ} {c : Conn}, conns[i]? = some c → c.Agrees h i
  rest : ∀ i, conns.length ≤ i → h.letIn i = false ∧ h.last i = none ∧ h.exec i = false

section Handlers

variable {h h' : History} {conns : List Conn} {i : ℕ} {c c' : Conn}

/-- What the history tells about a connection. -/
def History.about (h : History) (i : ℕ) : (ℕ × Bool) × Bool × Option Ticket × Bool :=
  (h.asked i, h.letIn i, h.last i, h.exec i)

theorem Conn.Agrees.congr (hc : c.Agrees h i) (ha : h'.about i = h.about i) : c.Agrees h' i := by
  simp only [History.about, Prod.mk.injEq] at ha
  obtain ⟨h₁, h₂, h₃, h₄⟩ := ha
  exact ⟨fun hp => h₁.trans (hc.asked hp), hc.letIn.trans h₂.symm, h₃ ▸ hc.client,
    hc.exec.trans h₄.symm⟩

/-- One connection moves, and nothing is noted about the others. -/
theorem Handlers.set (hh : Handlers h conns) (hi : conns[i]? = some c)
    (hne : ∀ j, j ≠ i → h'.about j = h.about j) (hc : c'.Agrees h' i) :
    Handlers h' (conns.set i c') where
  agree {j e} hj := by
    by_cases hij : i = j
    · subst hij
      rw [List.getElem?_set_self (List.getElem?_eq_some_iff.1 hi).1, Option.some_inj] at hj
      exact hj ▸ hc
    · rw [List.getElem?_set_ne hij] at hj
      exact (hh.agree hj).congr (hne j (Ne.symm hij))
  rest j hj := by
    rw [List.length_set] at hj
    have hne := hne j (by have := (List.getElem?_eq_some_iff.1 hi).1; omega)
    simp only [History.about, Prod.mk.injEq] at hne
    obtain ⟨-, h₂, h₃, h₄⟩ := hne
    rw [h₂, h₃, h₄]
    exact hh.rest j hj

theorem Handlers.congr (hh : Handlers h conns) (ha : ∀ i, h'.about i = h.about i) :
    Handlers h' conns where
  agree hi := (hh.agree hi).congr (ha _)
  rest i hi := by
    have ha := ha i
    simp only [History.about, Prod.mk.injEq] at ha
    obtain ⟨-, h₂, h₃, h₄⟩ := ha
    rw [h₂, h₃, h₄]
    exact hh.rest i hi

/-- A new connection. -/
theorem Handlers.accept (hh : Handlers h conns) (peer : String) :
    Handlers h (conns ++ [⟨ClientHandler.new peer, none, true, []⟩]) where
  agree {i c} hi := by
    rcases getElem?_concat_eq_some.1 hi with hi | ⟨rfl, rfl⟩
    · exact hh.agree hi
    · obtain ⟨h₂, h₃, h₄⟩ := hh.rest _ (Nat.le_refl _)
      exact ⟨fun hp => absurd hp (by simp), h₂.symm, by rw [h₃]; rfl, h₄.symm⟩
  rest i hi := by
    rw [List.length_append] at hi
    exact hh.rest i (by omega)

end Handlers

/-! ### Every step keeps the agreement -/

/-- The door agrees with a history. -/
structure Agrees (h : History) (d : Door cap) : Prop where
  seats : Seats h d.registry
  handlers : Handlers h d.conns

/-- The connection that the history hears about. -/
def DoorAct.speaker : DoorAct → Option ℕ
  | .auth i _ _ | .shell i _ | .exec i _ _ | .attach i | .eof i _ | .close i _ => some i
  | _ => none

theorem note_about (mgr : SessionMgr) (h : History) {a : DoorAct} {j : ℕ}
    (hj : a.speaker ≠ some j) : (note mgr h a).about j = h.about j := by
  have hne : ∀ {i : ℕ}, (some i : Option ℕ) ≠ some j → j ≠ i := by
    rintro i hij rfl
    exact hij rfl
  cases a with
  | auth i user password =>
      simp only [note]
      split
      · simp [History.about, Function.update_of_ne (hne hj)]
      · rfl
  | shell i channel => simp [note, History.about, Function.update_of_ne (hne hj)]
  | exec i channel data => simp [note, History.about, Function.update_of_ne (hne hj)]
  | attach i => simp [note, History.about, Function.update_of_ne (hne hj)]
  | eof i channel =>
      simp only [note, History.about]
      split
      · rw [Function.update_of_ne (hne hj)]
      · rfl
  | close i channel => simp [note, History.about, Function.update_of_ne (hne hj)]
  | _ => rfl

section Steps

variable {h : History} {d t : Door cap} {mgr : SessionMgr} {i : ℕ} {c c' : Conn} {a : DoorAct}

/-- The speaker moves. -/
theorem Agrees.speak (ha : Agrees h d) (hi : d.conns[i]? = some c) (hs : a.speaker = some i)
    (hc : c'.Agrees (note mgr h a) i) : Handlers (note mgr h a) (d.conns.set i c') :=
  ha.handlers.set hi (fun j hj => note_about mgr h (by
    rw [hs]
    intro hij
    exact hj (Option.some_inj.1 hij).symm)) hc

/-- A connection moves of which the history hears nothing. -/
theorem Agrees.silent (ha : Agrees h d) (hi : d.conns[i]? = some c) (hc : c'.Agrees h i) :
    Handlers h (d.conns.set i c') := ha.handlers.set hi (fun _ _ => rfl) hc

theorem agrees_new (mgr : SessionMgr) (maxClients : ℕ) :
    Agrees .new (Door.new cap mgr maxClients) where
  seats := seats_new
  handlers := ⟨fun hi => absurd hi (by simp [Door.new]), fun _ _ => ⟨rfl, rfl, rfl⟩⟩

/-- Requests are noted before the limit is looked at. -/
theorem Agrees.startShellOrExec (ha : Agrees h d) (hc : d.idleConn i = some c) (channel : ℕ)
    (input : Option Bytes) {isExec : Bool} (hs : a.speaker = some i)
    (hn : note mgr h a = { h with asked := Function.update h.asked i (channel, isExec) }) :
    Agrees (note mgr h a) (d.startShellOrExec i c channel input isExec) := by
  obtain ⟨hi, -, hidle⟩ := Door.idleConn_some hc
  obtain ⟨-, hletIn, hclient, hexec⟩ := ha.handlers.agree hi
  have hseats : Seats (note mgr h a) d.registry :=
    ha.seats.congr (by rw [hn]) (by rw [hn]) (by rw [hn]) rfl rfl rfl fun _ => rfl
  have hsame : (note mgr h a).letIn i = h.letIn i ∧ (note mgr h a).last i = h.last i ∧
      (note mgr h a).exec i = h.exec i := by
    rw [hn]
    exact ⟨rfl, rfl, rfl⟩
  obtain ⟨h₂, h₃, h₄⟩ := hsame
  unfold Door.startShellOrExec
  split
  · exact ⟨hseats, ha.speak hi hs ⟨fun hp => absurd (hidle.symm.trans hp) (by simp),
      hletIn.trans h₂.symm, h₃ ▸ hclient, hexec.trans h₄.symm⟩⟩
  · split
    · exact ⟨hseats, ha.speak hi hs ⟨fun hp => absurd (hidle.symm.trans hp) (by simp),
        hletIn.trans h₂.symm, h₃ ▸ hclient, hexec.trans h₄.symm⟩⟩
    · refine ⟨hseats, ha.speak hi hs ⟨fun hp => ?_, hletIn.trans h₂.symm, h₃ ▸ hclient,
        hexec.trans h₄.symm⟩⟩
      cases hp
      rw [hn]
      exact Function.update_self ..

/-- A step of the hub or of a forward task. -/
theorem Agrees.of_eq (ha : Agrees h d) (hr : t.registry = d.registry) (hc : t.conns = d.conns) :
    Agrees h t := ⟨hr ▸ ha.seats, hc ▸ ha.handlers⟩

/-- The last client of a connection leaves, by a close or by the end of a command. -/
theorem Agrees.leave (ha : Agrees h d) (hi : d.conns[i]? = some c) (hp : c.pending = none)
    (hs : a.speaker = some i) (hmade : (note mgr h a).made = h.made)
    (hlast : (note mgr h a).last = Function.update h.last i none)
    (hkicked : (note mgr h a).kicked = h.kicked) (hletIn : (note mgr h a).letIn = h.letIn)
    (hexec : (note mgr h a).exec = h.exec) (replies : List (ℕ × Reply)) :
    Agrees (note mgr h a)
      (((d.abortTask c.handler.forwardTask).detachClient c.handler.clientRec).setConn i
        { c with
          handler := { c.handler with forwardTask := none, clientRec := none }
          replies }) := by
  have hc := ha.handlers.agree hi
  refine ⟨ha.seats.leave hmade hlast hkicked ?_, ?_⟩
  · rw [← hc.client]
    cases c.handler.clientRec <;> simp [Door.setConn, Door.detachClient]
  · have hconns : ((d.abortTask c.handler.forwardTask).detachClient
        c.handler.clientRec).conns = d.conns := by simp
    simp only [Door.setConn, hconns]
    refine ha.speak hi hs ⟨fun hp' => absurd (hp.symm.trans hp') (by simp), ?_, ?_, ?_⟩
    · exact hc.letIn.trans (congrFun hletIn i).symm
    · rw [hlast, Function.update_self]
      rfl
    · exact hc.exec.trans (congrFun hexec i).symm

variable [NeZero cap]

/-- **Every step keeps the agreement.** -/
theorem Agrees.step (ha : Agrees h d) (hs : doorStep d a = some t) :
    Agrees (note d.mgr h a) t := by
  cases doorStep_stepped hs with
  | @accept peer => exact ⟨ha.seats, ha.handlers.accept peer⟩
  | turnedAway _ _ hno => simpa [note, hno] using ha
  | @letIn i user password c e hc _ he =>
      obtain ⟨hi, -, hidle⟩ := Door.idleConn_some hc
      have hcc := ha.handlers.agree hi
      have hn : note d.mgr h (.auth i user password) =
          { h with letIn := Function.update h.letIn i true } := by
        simp [note, he]
      refine ⟨?_, ha.speak hi rfl ⟨fun hp => absurd (hidle.symm.trans hp) (by simp), ?_, ?_, ?_⟩⟩
      · exact ha.seats.congr (by rw [hn]) (by rw [hn]) (by rw [hn]) rfl rfl rfl fun _ => rfl
      · rw [hn]
        exact (Function.update_self i true h.letIn).symm
      · rw [hn]
        exact hcc.client
      · rw [hn]
        exact hcc.exec
  | shell hc | exec hc => exact ha.startShellOrExec hc _ _ rfl rfl
  | @attach i _ c _ _ _ hc hp hnext =>
      obtain ⟨hi, -⟩ := Door.openConn_some hc
      have hcc := ha.handlers.agree hi
      refine ⟨ha.seats.attach d.mgr c.handler.peer, ha.speak hi rfl ⟨?_, hcc.letIn, ?_, ?_⟩⟩
      · rintro ch inp e hp'
        rcases hnext with rfl | ⟨b, rfl⟩ <;> cases hp'
      -- the number that the registry gives is the one of the ticket
      · have hnew : (d.registry.attach c.handler.peer).1 = (h.ticket i).client :=
          congrArg (· + 1) ha.seats.made
        rw [hnew]
        simp [note]
      · simp [note, hcc.asked hp]
  | inputSent hc hp =>
      obtain ⟨hi, -⟩ := Door.openConn_some hc
      have hcc := ha.handlers.agree hi
      exact ⟨ha.seats.congr rfl rfl rfl rfl rfl addIn_ids isKicked_addIn,
        ha.silent hi ⟨fun hp' => absurd hp' (by simp), hcc.letIn, hcc.client, hcc.exec⟩⟩
  | subscribe hc hp =>
      obtain ⟨hi, -⟩ := Door.openConn_some hc
      have hcc := ha.handlers.agree hi
      exact ⟨ha.seats, ha.silent hi ⟨fun hp' => absurd hp' (by simp), hcc.letIn, hcc.client,
        hcc.exec⟩⟩
  | dropped => exact ha
  | @data _ _ _ c =>
      refine ⟨?_, ha.handlers⟩
      cases c.handler.clientRec with
      | none => exact ha.seats
      | some id => exact ha.seats.congr rfl rfl rfl rfl rfl addIn_ids isKicked_addIn
  | @eofOfShell i channel c hc hexec =>
      obtain ⟨hi, -, -⟩ := Door.idleConn_some hc
      have he : h.exec i = false := (ha.handlers.agree hi).exec.symm.trans hexec
      have hlast : (note d.mgr h (.eof i channel)).last = h.last := by simp [note, he]
      -- the history hears of the EOF, and the last request stays the last one
      refine ⟨ha.seats.congr rfl hlast rfl rfl rfl rfl fun _ => rfl, ha.handlers.congr ?_⟩
      intro j
      simp only [History.about, hlast]
      simp only [note]
  | @eof i _ _ replies hc hexec =>
      obtain ⟨hi, -, hidle⟩ := Door.idleConn_some hc
      have he : h.exec i = true := (ha.handlers.agree hi).exec.symm.trans hexec
      exact ha.leave hi hidle rfl rfl (by simp [note, he]) rfl rfl rfl replies
  | @close _ _ c hc =>
      obtain ⟨hi, -, hidle⟩ := Door.idleConn_some hc
      exact ha.leave hi hidle rfl rfl rfl rfl rfl rfl c.replies
  | @disconnect _ c hc =>
      obtain ⟨hi, -, hidle⟩ := Door.idleConn_some hc
      have hcc := ha.handlers.agree hi
      refine ⟨?_, ?_⟩
      · have hr : ((d.abortTask c.handler.forwardTask).registry) = d.registry := by simp
        exact hr ▸ ha.seats.congr rfl rfl rfl rfl rfl rfl fun _ => rfl
      · have hconns : (d.abortTask c.handler.forwardTask).conns = d.conns := by simp
        simp only [Door.setConn, hconns]
        exact ha.handlers.set hi (fun _ _ => rfl) ⟨hcc.asked, hcc.letIn, hcc.client, hcc.exec⟩
  | kick id => exact ⟨ha.seats.kick d.mgr id, ha.handlers.congr fun _ => rfl⟩
  | task _ hs =>
      obtain ⟨hub, tasks, rfl, -⟩ := taskStep_frame hs
      exact ha.of_eq rfl rfl
  | hub ha' =>
      rw [note_hubAct d.mgr h ha']
      exact ha.of_eq rfl rfl

end Steps

/-! ### The door with its history -/

/-- The door with the history of its callbacks. -/
abbrev toldStep [NeZero cap] (mgr : SessionMgr) :
    History × Door cap → DoorAct → Option (History × Door cap) := traced doorStep (note mgr)

/-- The door of a session that has just been started, before the first callback. -/
abbrev freshDoor (cap : ℕ) (mgr : SessionMgr) (maxClients : ℕ) : History × Door cap :=
  (.new, Door.new cap mgr maxClients)

/-- What every run of a door with its history keeps. -/
structure Told (mgr : SessionMgr) (p : History × Door cap) : Prop where
  agrees : Agrees p.1 p.2
  mgr_eq : p.2.mgr = mgr

theorem told_fresh (mgr : SessionMgr) (maxClients : ℕ) :
    Told mgr (freshDoor cap mgr maxClients) := ⟨agrees_new mgr maxClients, rfl⟩

theorem Told.step [NeZero cap] {mgr : SessionMgr} {p q : History × Door cap} {a : DoorAct}
    (h : Told mgr p) (hs : toldStep mgr p a = some q) : Told mgr q := by
  obtain ⟨hq, hd⟩ := traced_eq_some.1 hs
  refine ⟨?_, (doorStep_fixed hd).1.trans h.mgr_eq⟩
  rw [hq, ← h.mgr_eq]
  exact h.agrees.step hd

/-- A run of the door is a run of the door with its history. -/
theorem exec_told [NeZero cap] {mgr : SessionMgr} {maxClients : ℕ} {as : List DoorAct}
    {t : Door cap} (hr : exec doorStep (Door.new cap mgr maxClients) as = some t) :
    exec (toldStep mgr) (freshDoor cap mgr maxClients) as =
      some (as.foldl (note mgr) .new, t) := by
  rw [exec_traced, hr, Option.map_some]

end Sshd

end TermHub
