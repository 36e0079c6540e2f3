/-
**The registry and the open channels.**

`ClientRegistry` is to list one record for each open channel with an admitted request.  A record is
added by `start_shell_or_exec` and taken away through the one field `client_rec` of the handler.

Main definitions:

* `Ticket.leaves`, `History.drops`, `History.admits` — the requests whose channels an action ends,
  the one whose record the handler takes off the list, and the channel of a new one;
* `OpenTickets` — what every run keeps about the open channels;
* `Mirrors` — what is wanted of the registry;
* `Tidy` — the handler takes off the list what leaves, and nothing else.

Main results:

* `listed_step`, `opened_step` — what a step does to the registry and to the open channels;
* `mirrors_step` — a step keeps the mirror exactly if it is tidy;
* `registry_mirrors_iff` — **the registry mirrors the open channels along a run exactly if every
  step of it is tidy**.
-/

import TermHub.Admissions

set_option relaxedAutoImplicit false
set_option autoImplicit false

namespace TermHub

namespace Sshd

open Transition Hub Broadcast
open Runner (Bytes)

variable {cap : ℕ}

/-! ### What leaves and what is taken off the list -/

/-- The action ends the channel of the request. -/
def Ticket.leaves (k : Ticket) : DoorAct → Bool
  | .eof i channel => k.conn == i && k.channel == channel && k.isExec
  | .close i channel => k.conn == i && k.channel == channel
  | .disconnect i => k.conn == i
  | _ => false

/-- The request whose record the handler takes off the list: the last one, whatever the channel. -/
def History.drops (h : History) : DoorAct → Option Ticket
  | .eof i _ => if h.exec i then h.last i else none
  | .close i _ => h.last i
  | _ => none

/-- The connection and the channel of the request whose client is attached. -/
def History.admits (h : History) : DoorAct → Option (ℕ × ℕ)
  | .attach i => some (i, (h.asked i).1)
  | _ => none

/-- Attaching a client. -/
def DoorAct.IsAttach : DoorAct → Prop
  | .attach _ => True
  | _ => False

/-- The open channels after a client has been attached. -/
theorem mem_opened_attach {mgr : SessionMgr} {h : History} {i : ℕ} {k : Ticket} :
    k ∈ (note mgr h (.attach i)).opened ↔ k ∈ h.opened ∨ k = h.ticket i := by
  simp [note]

/-- Only attaching a client counts one, and only it makes a command of a connection. -/
theorem note_same (mgr : SessionMgr) (h : History) {a : DoorAct} (ha : ¬ a.IsAttach) :
    (note mgr h a).made = h.made ∧ (note mgr h a).exec = h.exec := by
  cases a with
  | attach i => exact absurd trivial ha
  | auth i user password =>
      simp only [note]
      split <;> exact ⟨rfl, rfl⟩
  | _ => exact ⟨rfl, rfl⟩

/-- The open channels after an action. -/
theorem opened_step (mgr : SessionMgr) (h : History) {a : DoorAct} (ha : ¬ a.IsAttach) :
    (note mgr h a).opened = h.opened.filter fun k => !k.leaves a := by
  have hall : h.opened = h.opened.filter fun _ => !false := by simp
  cases a with
  | attach i => exact absurd trivial ha
  | eof i channel => rfl
  | close i channel => rfl
  | disconnect i => rfl
  | auth i user password =>
      simp only [note]
      split <;> exact hall
  | _ => exact hall

section Steps

variable {h : History} {d t : Door cap} {a : DoorAct}

/-- The list of the registry does not depend on the tokens and the counts. -/
theorem mem_detachClient {c : Option ℕ} {id : ℕ} :
    id ∈ (d.detachClient c).registry.listed ↔ id ∈ d.registry.listed ∧ c ≠ some id := by
  cases c with
  | none => simp [Door.detachClient]
  | some m =>
      rw [show (d.detachClient (some m)).registry = d.registry.detach m from rfl,
        mem_listed_detach]
      simp [eq_comm]

theorem ne_some_client {o : Option Ticket} {id : ℕ} :
    o.map Ticket.client ≠ some id ↔ ∀ k, o = some k → k.client ≠ id := by
  cases o <;> simp

variable [NeZero cap]

/-- The registry after an action. -/
theorem listed_step (hh : Agrees h d) (ha : ¬ a.IsAttach) (hs : doorStep d a = some t) (id : ℕ) :
    id ∈ t.registry.listed ↔
      id ∈ d.registry.listed ∧ ∀ k, h.drops a = some k → k.client ≠ id := by
  have same (hl : t.registry.listed = d.registry.listed) (hd : h.drops a = none) :
      id ∈ t.registry.listed ↔
        id ∈ d.registry.listed ∧ ∀ k, h.drops a = some k → k.client ≠ id := by
    rw [hl, hd]
    simp
  cases doorStep_stepped hs with
  | attach => exact absurd trivial ha
  | @data _ _ _ c => exact same (by cases c.handler.clientRec <;> rfl) rfl
  | eofOfShell hc hexec =>
      have he := (hh.handlers.agree (Door.idleConn_some hc).1).exec.symm.trans hexec
      exact same rfl (by simp [History.drops, he])
  | @eof i channel c replies hc hexec =>
      have hcc := hh.handlers.agree (Door.idleConn_some hc).1
      have hd : h.drops (.eof i channel) = h.last i := by
        simp [History.drops, hcc.exec.symm.trans hexec]
      rw [hd, ← ne_some_client, ← hcc.client]
      exact mem_detachClient.trans (by simp)
  | @close i channel c hc =>
      have hcc := hh.handlers.agree (Door.idleConn_some hc).1
      rw [show h.drops (.close i channel) = h.last i from rfl, ← ne_some_client, ← hcc.client]
      exact mem_detachClient.trans (by simp)
  | shell | exec | disconnect => exact same (by simp [Door.setConn]) rfl
  | kick => exact same kick_listed rfl
  | task _ hs =>
      obtain ⟨hub, tasks, rfl, -⟩ := taskStep_frame hs
      exact same rfl rfl
  | @hub a _ _ ha' =>
      refine same rfl ?_
      cases a with
      | eof | close => exact False.elim ha'
      | _ => rfl
  | _ => exact same rfl rfl

/-- The registry after a client has been attached. -/
theorem listed_attach {i : ℕ} (hh : Agrees h d) (hs : doorStep d (.attach i) = some t) :
    t.registry.listed = d.registry.listed ++ [(h.ticket i).client] := by
  obtain ⟨c, channel, input, isExec, -, -, pending, -, rfl⟩ := doorStep_attach hs
  have hnext : d.registry.nextId + 1 = (h.ticket i).client := congrArg (· + 1) hh.seats.made
  exact hnext ▸ rfl

/-- The new client is on the list with the others. -/
theorem opened_listed_attach {i : ℕ} (mgr : SessionMgr) (hh : Agrees h d)
    (hl : ∀ k ∈ h.opened, k.client ∈ d.registry.listed) (hs : doorStep d (.attach i) = some t) :
    ∀ k ∈ (note mgr h (.attach i)).opened, k.client ∈ t.registry.listed := by
  intro k hk
  rw [listed_attach hh hs]
  rcases mem_opened_attach.1 hk with hk | rfl
  · exact List.mem_append_left _ (hl k hk)
  · exact List.mem_append_right _ List.mem_cons_self

/-- A connection that is open after an action was open before or is new, and one that was open stays
so unless it drops. -/
theorem openConn_step (hs : doorStep d a = some t) {i : ℕ} (hi : (d.openConn i).isSome = true)
    (ha : a ≠ .disconnect i) : (t.openConn i).isSome = true := by
  obtain ⟨c, hc⟩ := Option.isSome_iff_exists.1 hi
  obtain ⟨hi, ho⟩ := Door.openConn_some hc
  have hlt := (List.getElem?_eq_some_iff.1 hi).1
  rcases doorStep_conns hs with hconns | ⟨peer, hconns⟩ | ⟨j, x, x', hconns, hm⟩
  · exact Option.isSome_iff_exists.2 ⟨c, Door.openConn_of (hconns ▸ hi) ho⟩
  · exact Option.isSome_iff_exists.2
      ⟨c, Door.openConn_of (hconns ▸ (List.getElem?_append_left hlt).trans hi) ho⟩
  · by_cases hij : j = i
    · subst hij
      refine Option.isSome_iff_exists.2
        ⟨x', Door.openConn_of (hconns ▸ List.getElem?_set_self hlt) ?_⟩
      exact Bool.not_eq_false _ ▸ fun ho' => ha (hm.closed ho')
    · exact Option.isSome_iff_exists.2
        ⟨c, Door.openConn_of (hconns ▸ (List.getElem?_set_ne hij).trans hi) ho⟩

theorem openConn_back (hs : doorStep d a = some t) {i : ℕ} (hi : (t.openConn i).isSome = true)
    (hlt : i < d.conns.length) : (d.openConn i).isSome = true := by
  obtain ⟨c, hc⟩ := Option.isSome_iff_exists.1 hi
  obtain ⟨hi, ho⟩ := Door.openConn_some hc
  rcases doorStep_conns hs with hconns | ⟨peer, hconns⟩ | ⟨j, x, x', hconns, hm⟩
  · exact Option.isSome_iff_exists.2 ⟨c, Door.openConn_of (hconns ▸ hi) ho⟩
  · rw [hconns, List.getElem?_append_left hlt] at hi
    exact Option.isSome_iff_exists.2 ⟨c, Door.openConn_of hi ho⟩
  · by_cases hij : j = i
    · subst hij
      exact Option.isSome_iff_exists.2 ⟨x, hm.wasOpen⟩
    · rw [hconns, List.getElem?_set_ne hij] at hi
      exact Option.isSome_iff_exists.2 ⟨c, Door.openConn_of hi ho⟩

end Steps

/-! ### The open channels -/

/-- What every run keeps about the open channels with admitted requests: their connections are open,
and the request that the handler of an open connection holds is among them. -/
structure OpenTickets (h : History) (d : Door cap) : Prop where
  alive : ∀ k ∈ h.opened, (d.openConn k.conn).isSome = true
  client_le : ∀ k ∈ h.opened, k.client ≤ h.made
  distinct : ∀ k ∈ h.opened, ∀ k' ∈ h.opened, k.client = k'.client → k = k'
  kind : ∀ {i : ℕ} {k : Ticket}, h.last i = some k → h.exec i = k.isExec
  held : ∀ {i : ℕ} {k : Ticket}, h.last i = some k → (d.openConn i).isSome = true → k ∈ h.opened

theorem openTickets_new (mgr : SessionMgr) (maxClients : ℕ) :
    OpenTickets .new (Door.new cap mgr maxClients) where
  alive _ hk := nomatch hk
  client_le _ hk := nomatch hk
  distinct _ hk := nomatch hk
  kind hk := nomatch hk
  held hk := nomatch hk

section Open

variable {h : History} {d t : Door cap} {a : DoorAct} {mgr : SessionMgr}

/-- What the handlers hold after an action they held before, unless the action makes them drop
it. -/
theorem last_step (hh : Seats h d.registry) (ha : ¬ a.IsAttach) {j : ℕ} {k : Ticket}
    (hk : (note mgr h a).last j = some k) : h.last j = some k ∧ h.drops a ≠ some k := by
  cases a with
  | attach i => exact absurd trivial ha
  | eof i channel =>
      simp only [note, History.drops] at hk ⊢
      split at hk
      · rename_i hexec
        rw [if_pos hexec]
        by_cases hj : j = i
        · rw [hj, Function.update_self] at hk
          cases hk
        · rw [Function.update_of_ne hj] at hk
          exact ⟨hk, fun hi => hj (hh.own hk hi rfl)⟩
      · rename_i hexec
        exact ⟨hk, by simp [hexec]⟩
  | close i channel =>
      simp only [note, History.drops] at hk ⊢
      by_cases hj : j = i
      · rw [hj, Function.update_self] at hk
        cases hk
      · rw [Function.update_of_ne hj] at hk
        exact ⟨hk, fun hi => hj (hh.own hk hi rfl)⟩
  | auth i user password =>
      simp only [note] at hk
      refine ⟨?_, by simp [History.drops]⟩
      split at hk <;> exact hk
  | _ => exact ⟨hk, by simp [History.drops]⟩

/-- Only connections that there are hold a request. -/
theorem Agrees.lt_of_last (hh : Agrees h d) {i : ℕ} {k : Ticket} (hk : h.last i = some k) :
    i < d.conns.length := by
  refine Nat.lt_of_not_le fun hle => ?_
  rw [(hh.handlers.rest i hle).2.1] at hk
  cases hk

/-- A request that is held and leaves is dropped, unless its connection ends. -/
theorem OpenTickets.drops_of_leaves (ho : OpenTickets h d) (hh : Seats h d.registry) {j : ℕ}
    {k : Ticket} (hk : h.last j = some k) (hl : k.leaves a = true) :
    h.drops a = some k ∨ a = .disconnect j := by
  have hconn := hh.conn hk
  cases a with
  | eof i channel =>
      simp only [Ticket.leaves, Bool.and_eq_true, beq_iff_eq] at hl
      obtain ⟨⟨rfl, -⟩, hexec⟩ := hl
      subst hconn
      simp [History.drops, ho.kind hk, hexec, hk]
  | close i channel =>
      simp only [Ticket.leaves, Bool.and_eq_true, beq_iff_eq] at hl
      obtain ⟨rfl, -⟩ := hl
      subst hconn
      exact .inl hk
  | disconnect i =>
      simp only [Ticket.leaves, beq_iff_eq] at hl
      subst hl
      exact .inr (hconn ▸ rfl)
  | _ => cases hl

variable [NeZero cap]

/-- The connection that drops is not open any more. -/
theorem openConn_disconnect {i : ℕ} (hs : doorStep d (.disconnect i) = some t) :
    t.openConn i = none := by
  obtain ⟨c, hc, rfl⟩ := Option.map_eq_some_iff.1 hs
  obtain ⟨hi, -, -⟩ := Door.idleConn_some hc
  have hlt := (List.getElem?_eq_some_iff.1 hi).1
  simp [Door.openConn, Door.setConn, List.getElem?_set_self hlt]

theorem OpenTickets.attach {i : ℕ} (ho : OpenTickets h d) (hh : Agrees h d)
    (hs : doorStep d (.attach i) = some t) :
    OpenTickets (note mgr h (.attach i)) t := by
  obtain ⟨c, channel, input, isExec, hc, -⟩ := doorStep_attach hs
  have hi : (t.openConn i).isSome = true :=
    openConn_step hs (Option.isSome_iff_exists.2 ⟨c, hc⟩) (by simp)
  have hnew : ∀ {k : Ticket}, k ∈ h.opened → k.client ≠ (h.ticket i).client := fun hk =>
    Nat.ne_of_lt (Nat.lt_succ_of_le (ho.client_le _ hk))
  have hlast : ∀ {j : ℕ} {k : Ticket}, (note mgr h (.attach i)).last j = some k →
      (j = i ∧ k = h.ticket i) ∨ (j ≠ i ∧ h.last j = some k) := by
    intro j k hk
    simp only [note] at hk
    by_cases hj : j = i
    · rw [hj, Function.update_self, Option.some_inj] at hk
      exact .inl ⟨hj, hk.symm⟩
    · rw [Function.update_of_ne hj] at hk
      exact .inr ⟨hj, hk⟩
  refine ⟨?_, ?_, ?_, ?_, ?_⟩
  · intro k hk
    rcases mem_opened_attach.1 hk with hk | rfl
    · exact openConn_step hs (ho.alive k hk) (by simp)
    · exact hi
  · intro k hk
    rcases mem_opened_attach.1 hk with hk | rfl
    · exact (ho.client_le k hk).trans (Nat.le_succ _)
    · exact Nat.le_refl _
  · intro k hk k' hk' heq
    rcases mem_opened_attach.1 hk with hk | rfl <;> rcases mem_opened_attach.1 hk' with hk' | rfl
    · exact ho.distinct k hk k' hk' heq
    · exact absurd heq (hnew hk)
    · exact absurd heq.symm (hnew hk')
    · rfl
  · intro j k hk
    rcases hlast hk with ⟨rfl, rfl⟩ | ⟨hj, hk⟩
    · exact Function.update_self ..
    · exact (Function.update_of_ne hj _ _).trans (ho.kind hk)
  · intro j k hk hopen
    rcases hlast hk with ⟨rfl, rfl⟩ | ⟨hj, hk⟩
    · exact mem_opened_attach.2 (.inr rfl)
    · exact mem_opened_attach.2 (.inl (ho.held hk (openConn_back hs hopen (hh.lt_of_last hk))))

/-- **Every step keeps it.** -/
theorem OpenTickets.step (ho : OpenTickets h d) (hh : Agrees h d) (hs : doorStep d a = some t) :
    OpenTickets (note mgr h a) t := by
  by_cases ha : a.IsAttach
  · cases a with
    | attach i => exact ho.attach hh hs
    | _ => exact absurd ha id
  · have hopened := opened_step mgr h ha
    have old : ∀ {k : Ticket}, k ∈ (note mgr h a).opened → k ∈ h.opened ∧ k.leaves a = false := by
      intro k hk
      rw [hopened] at hk
      simpa using List.mem_filter.1 hk
    obtain ⟨hmade, hexec⟩ := note_same mgr h ha
    refine ⟨?_, ?_, ?_, ?_, ?_⟩
    · intro k hk
      obtain ⟨hk, hl⟩ := old hk
      refine openConn_step hs (ho.alive k hk) ?_
      rintro rfl
      simp [Ticket.leaves] at hl
    · intro k hk
      exact hmade ▸ ho.client_le k (old hk).1
    · intro k hk k' hk'
      exact ho.distinct k (old hk).1 k' (old hk').1
    · intro i k hk
      exact hexec ▸ ho.kind (last_step hh.seats ha hk).1
    · intro i k hk hopen
      -- the last request is still the last one: it was open, and what leaves is what is dropped
      obtain ⟨hlast, hdrop⟩ := last_step hh.seats ha hk
      rw [hopened]
      refine List.mem_filter.2
        ⟨ho.held hlast (openConn_back hs hopen (hh.lt_of_last hlast)), ?_⟩
      simp only [Bool.not_eq_true']
      refine Bool.eq_false_iff.2 fun hl => ?_
      rcases ho.drops_of_leaves hh.seats hlast hl with hd | rfl
      · exact hdrop hd
      · rw [openConn_disconnect hs] at hopen
        cases hopen

end Open

/-! ### The mirror -/

/-- **The registry mirrors the open channels**: it lists exactly one record for each open channel
with an admitted request, and no record besides, so none of a connection that has dropped. -/
structure Mirrors (h : History) (d : Door cap) : Prop where
  listed : ∀ k ∈ h.opened, k.client ∈ d.registry.listed
  single : ∀ k ∈ h.opened, ∀ k' ∈ h.opened, k.conn = k'.conn → k.channel = k'.channel → k = k'
  no_ghost : ∀ id ∈ d.registry.listed,
    ∃ k ∈ h.opened, k.client = id ∧ (d.openConn k.conn).isSome = true

/-- What leaves is what the handler takes off the list, and no channel is admitted twice. -/
def Tidy (h : History) (a : DoorAct) : Prop :=
  ∀ k ∈ h.opened, (k.leaves a = true ↔ h.drops a = some k) ∧ h.admits a ≠ some (k.conn, k.channel)

instance (h : History) (a : DoorAct) : Decidable (Tidy h a) :=
  inferInstanceAs (Decidable (∀ k ∈ h.opened, _ ∧ _))

section Mirror

variable {h : History} {d t : Door cap} {a : DoorAct} {mgr : SessionMgr} [NeZero cap]

/-- The request that is dropped was open. -/
theorem OpenTickets.drops_mem (ho : OpenTickets h d) (hs : doorStep d a = some t) {k : Ticket}
    (hk : h.drops a = some k) : k ∈ h.opened := by
  cases a with
  | eof i channel =>
      obtain ⟨c, hc, -⟩ := doorStep_eof hs
      obtain ⟨hi, hopen, -⟩ := Door.idleConn_some hc
      simp only [History.drops] at hk
      split at hk
      · exact ho.held hk (Option.isSome_iff_exists.2 ⟨c, Door.openConn_of hi hopen⟩)
      · cases hk
  | close i channel =>
      obtain ⟨c, hc, -⟩ := Option.map_eq_some_iff.1 hs
      obtain ⟨hi, hopen, -⟩ := Door.idleConn_some hc
      exact ho.held hk (Option.isSome_iff_exists.2 ⟨c, Door.openConn_of hi hopen⟩)
  | _ => cases hk

/-- An action that attaches nobody keeps the mirror exactly if what leaves is dropped. -/
theorem mirrors_leave (hm : Mirrors h d) (hh : Agrees h d) (ho : OpenTickets h d)
    (ha : ¬ a.IsAttach) (hs : doorStep d a = some t) :
    Mirrors (note mgr h a) t ↔ ∀ k ∈ h.opened, (k.leaves a = true ↔ h.drops a = some k) := by
  have hopened : ∀ {k : Ticket}, k ∈ (note mgr h a).opened ↔
      k ∈ h.opened ∧ ¬ k.leaves a = true := by
    intro k
    rw [opened_step mgr h ha]
    simp
  -- the record of an open channel stays on the list unless it is dropped itself
  have hlisted : ∀ {k : Ticket}, k ∈ h.opened →
      (k.client ∈ t.registry.listed ↔ h.drops a ≠ some k) := by
    intro k hk
    rw [listed_step hh ha hs]
    constructor
    · rintro ⟨-, hne⟩ hdrop
      exact hne k hdrop rfl
    · intro hne
      refine ⟨hm.listed k hk, fun k' hk' heq => hne ?_⟩
      rwa [← ho.distinct k' (ho.drops_mem hs hk') k hk heq]
  constructor
  · intro hm' k hk
    constructor
    · intro hl
      by_contra hne
      obtain ⟨k', hk', heq, -⟩ := hm'.no_ghost _ ((hlisted hk).2 hne)
      obtain ⟨hk', hl'⟩ := hopened.1 hk'
      exact hl' (ho.distinct k' hk' k hk heq ▸ hl)
    · intro hdrop
      by_contra hl
      exact (hlisted hk).1 (hm'.listed k (hopened.2 ⟨hk, hl⟩)) hdrop
  · intro hiff
    refine ⟨?_, ?_, ?_⟩
    · intro k hk
      obtain ⟨hk, hl⟩ := hopened.1 hk
      exact (hlisted hk).2 fun hdrop => hl ((hiff k hk).2 hdrop)
    · intro k hk k' hk'
      exact hm.single k (hopened.1 hk).1 k' (hopened.1 hk').1
    · intro id hid
      obtain ⟨hid₀, -⟩ := (listed_step hh ha hs id).1 hid
      obtain ⟨k, hk, rfl, -⟩ := hm.no_ghost id hid₀
      have hk' : k ∈ (note mgr h a).opened :=
        hopened.2 ⟨hk, fun hl => (hlisted hk).1 hid ((hiff k hk).1 hl)⟩
      exact ⟨k, hk', rfl, (ho.step hh hs).alive k hk'⟩

/-- Attaching a client keeps the mirror exactly if its channel has no admitted request yet. -/
theorem mirrors_attach {i : ℕ} (hm : Mirrors h d) (hh : Agrees h d) (ho : OpenTickets h d)
    (hs : doorStep d (.attach i) = some t) :
    Mirrors (note mgr h (.attach i)) t ↔
      ∀ k ∈ h.opened, ¬ (k.conn = i ∧ k.channel = (h.asked i).1) := by
  have ho' : OpenTickets (note mgr h (.attach i)) t := ho.step hh hs
  have hnew : h.ticket i ∈ (note mgr h (.attach i)).opened := mem_opened_attach.2 (.inr rfl)
  constructor
  · rintro hm' k hk ⟨hconn, hchan⟩
    -- the new request has a client of its own
    have heq := hm'.single k (mem_opened_attach.2 (.inl hk)) _ hnew hconn hchan
    have hle := ho.client_le k hk
    rw [heq] at hle
    exact Nat.not_succ_le_self _ hle
  · intro hfree
    refine ⟨opened_listed_attach mgr hh hm.listed hs, ?_, ?_⟩
    · intro k hk k' hk' hconn hchan
      rcases mem_opened_attach.1 hk with hk | rfl <;> rcases mem_opened_attach.1 hk' with hk' | rfl
      · exact hm.single k hk k' hk' hconn hchan
      · exact absurd ⟨hconn, hchan⟩ (hfree k hk)
      · exact absurd ⟨hconn.symm, hchan.symm⟩ (hfree k' hk')
      · rfl
    · intro id hid
      rw [listed_attach hh hs] at hid
      rcases List.mem_append.1 hid with hid | hid
      · obtain ⟨k, hk, hkid, -⟩ := hm.no_ghost id hid
        have hk' : k ∈ (note mgr h (.attach i)).opened := mem_opened_attach.2 (.inl hk)
        exact ⟨k, hk', hkid, ho'.alive k hk'⟩
      · exact ⟨_, hnew, (List.mem_singleton.1 hid).symm, ho'.alive _ hnew⟩

/-- **A step keeps the mirror exactly if it is tidy.** -/
theorem mirrors_step (hm : Mirrors h d) (hh : Agrees h d) (ho : OpenTickets h d)
    (hs : doorStep d a = some t) : Mirrors (note mgr h a) t ↔ Tidy h a := by
  by_cases ha : a.IsAttach
  · cases a with
    | attach i =>
        rw [mirrors_attach hm hh ho hs]
        refine forall₂_congr fun k _ => ?_
        simp [Ticket.leaves, History.drops, History.admits, eq_comm]
    | _ => exact absurd ha id
  · rw [mirrors_leave hm hh ho ha hs]
    have hadmits : h.admits a = none := by
      cases a with
      | attach i => exact absurd trivial ha
      | _ => rfl
    refine forall₂_congr fun k _ => ?_
    simp [hadmits]

end Mirror

/-! ### Whole runs -/

theorem mirrors_new (mgr : SessionMgr) (maxClients : ℕ) :
    Mirrors .new (Door.new cap mgr maxClients) where
  listed _ hk := nomatch hk
  single _ hk := nomatch hk
  no_ghost _ hid := nomatch hid

/-- What every run of a door with its history keeps, the open channels included. -/
structure Ledger (mgr : SessionMgr) [NeZero cap] (p : History × Door cap) : Prop
    extends Told mgr p where
  openTickets : OpenTickets p.1 p.2

section Runs

variable [NeZero cap] {mgr : SessionMgr} {maxClients : ℕ}

theorem ledger_fresh (mgr : SessionMgr) (maxClients : ℕ) :
    Ledger mgr (freshDoor cap mgr maxClients) :=
  ⟨told_fresh mgr maxClients, openTickets_new mgr maxClients⟩

theorem Ledger.step {p q : History × Door cap} {a : DoorAct} (h : Ledger mgr p)
    (hs : toldStep mgr p a = some q) : Ledger mgr q := by
  obtain ⟨hq, hd⟩ := traced_eq_some.1 hs
  exact ⟨h.toTold.step hs, hq ▸ h.openTickets.step h.agrees hd⟩

/-- **The registry mirrors the open channels in every state of a run exactly if every step of the
run is tidy**: no request is admitted on a channel that has one, and whenever a channel closes, the
input of a command ends or a connection drops, the open requests whose channels end by it are those
that the handler holds. -/
theorem registry_mirrors_iff {as : List DoorAct} {t : Door cap}
    (hr : exec doorStep (Door.new cap mgr maxClients) as = some t) :
    Along (toldStep mgr) (fun p => Mirrors p.1 p.2) (freshDoor cap mgr maxClients) as ↔
      Meets (toldStep mgr) (fun p => Tidy p.1) (freshDoor cap mgr maxClients) as := by
  refine along_iff_meets (I := Ledger mgr) (fun p a q hp hs => hp.step hs) ?_
    (ledger_fresh mgr maxClients) (mirrors_new mgr maxClients) (exec_told hr)
  intro p a q hp hm hs
  obtain ⟨hq, hd⟩ := traced_eq_some.1 hs
  rw [hq]
  exact mirrors_step hm hp.agrees hp.openTickets hd

end Runs

/-- A client that gets a shell, closes its channel and disconnects. -/
theorem registry_mirrors_iff_leaving :
    Along (toldStep createdMgr) (fun p => Mirrors p.1 p.2) (freshDoor 4 createdMgr 16)
      leavingClient := by
  obtain ⟨t, ht⟩ : ∃ t, exec doorStep (Door.new 4 createdMgr 16) leavingClient = some t :=
    ⟨_, rfl⟩
  exact (registry_mirrors_iff ht).2 (by decide)

/-- No connection is handling a request. -/
def Settled (d : Door cap) : Prop := ∀ c ∈ d.conns, c.pending = none

/-- **A client whose connection drops stays on the list.** -/
theorem ghost_client :
    ¬ ∀ (mgr : SessionMgr) (maxClients : ℕ) (as : List DoorAct) (t : Door 4),
      exec doorStep (Door.new 4 mgr maxClients) as = some t →
      Along (toldStep mgr) (fun p => Settled p.2 → Mirrors p.1 p.2) (freshDoor 4 mgr maxClients)
        as := by
  intro h
  obtain ⟨t, ht, hsettled, hlisted, hopened⟩ : ∃ t,
      exec doorStep (Door.new 4 createdMgr 16) (stayingClient ++ [DoorAct.disconnect 0]) = some t ∧
      (t.conns.all fun c => c.pending.isNone) = true ∧ t.registry.listed = [1] ∧
      ((stayingClient ++ [DoorAct.disconnect 0]).foldl (note createdMgr) .new).opened = [] :=
    ⟨_, rfl, rfl, rfl, rfl⟩
  have hm := (h createdMgr 16 _ t ht).last (exec_told ht) fun c hc =>
    Option.isNone_iff_eq_none.1 (List.all_eq_true.1 hsettled c hc)
  obtain ⟨k, hk, -⟩ := hm.no_ghost 1 (by simp [hlisted])
  simp only [hopened] at hk
  cases hk

end Sshd

end TermHub
