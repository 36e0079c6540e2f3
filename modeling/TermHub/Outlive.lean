/-
**What is left of the clients when a session has been stopped.**

`stop_session` and `delete_session` cancel the runner and the accept loop and wait for both.  Every
connection that the accept loop has taken runs in a task of its own, with handles of the manager and
of the hub, and nothing tells it that the session has ended.

Main definitions:

* `NoClientOutlives` — no client is listed, no forward task is live, and no connection gets in any
  more;
* `Quiet` — nobody is connected;
* `DoorInv` — what every run of the door keeps;
* `Site`, `siteStep` — a session operation next to the door of its session.

Main results:

* `noClientOutlives_iff_quiet` — **no client outlives the session exactly if nobody is connected**;
* `stop_noClientOutlives` — the same for a stop or a delete, whatever happens at the door meanwhile;
* `client_outlives` — a client that has a shell keeps it when the session is stopped.
-/

import TermHub.Ownership
import TermHub.PlainCodec
import TermHub.SshDoor

set_option relaxedAutoImplicit false
set_option autoImplicit false

namespace TermHub

namespace Sshd

open Hub Transition Sections
open Runner (Bytes)

variable {cap : ℕ}

/-! ### Clients that outlive their session -/

/-- The action lets a connection in, or attaches a client to the hub. -/
def Attaches (d : Door cap) : DoorAct → Prop
  | .auth _ user password => (d.mgr.authenticate user password).isSome = true
  | .attach _ => True
  | .subscribe _ => True
  | _ => False

/-- The accept loop takes a connection. -/
def DoorAct.IsAccept : DoorAct → Prop
  | .accept _ => True
  | _ => False

/-- No forward task is live. -/
def NoForwarder (d : Door cap) : Prop := ∀ n f, d.hub.forwarders n = some f → f.ended = true

/-- **Nobody is connected**: no client is listed, no forward task is live, and no connection is
open, except for those let in to a session that admits no client at all. -/
structure Quiet (d : Door cap) : Prop where
  unlisted : d.registry.listed = []
  no_forwarder : NoForwarder d
  turned_away : ∀ c ∈ d.conns, c.isOpen = true → c.handler.entry.isSome = true ∧ d.maxClients = 0

/-- Being quiet depends on the list of the clients, the forward tasks, the connections and the
limit. -/
theorem Quiet.congr {d e : Door cap} (h : Quiet d) (hmax : e.maxClients = d.maxClients)
    (hlisted : e.registry.listed = d.registry.listed)
    (hforw : e.hub.forwarders = d.hub.forwarders) (hconns : e.conns = d.conns) : Quiet e where
  unlisted := hlisted.trans h.unlisted
  no_forwarder := by
    unfold NoForwarder
    rw [hforw]
    exact h.no_forwarder
  turned_away := by
    rw [hconns, hmax]
    exact h.turned_away

theorem Quiet.setConn {d : Door cap} (h : Quiet d) {i : ℕ} {c c' : Conn}
    (hc : d.conns[i]? = some c) (hentry : c'.handler.entry = c.handler.entry)
    (hopen : c'.isOpen = true → c.isOpen = true) : Quiet (d.setConn i c') where
  unlisted := h.unlisted
  no_forwarder := h.no_forwarder
  turned_away e he ho := by
    rcases Door.mem_setConn he with rfl | he
    · obtain ⟨hin, hmax⟩ := h.turned_away c (List.mem_of_getElem? hc) (hopen ho)
      exact ⟨hentry ▸ hin, hmax⟩
    · exact h.turned_away e he ho

theorem Quiet.closed {d : Door cap} (h : Quiet d) (t c : Option ℕ) :
    Quiet ((d.abortTask t).detachClient c) := by
  refine h.congr (by simp) ?_ (by simp) (by simp)
  cases c with
  | none => simp [Door.detachClient]
  | some id => simp [Door.detachClient, ClientRegistry.detach, h.unlisted]

/-- A request is refused where nobody is connected. -/
theorem Quiet.startShellOrExec {d : Door cap} (h : Quiet d) {i : ℕ} {c : Conn}
    (hc : d.idleConn i = some c) (channel : ℕ) (input : Option Bytes) (isExec : Bool) :
    Quiet (d.startShellOrExec i c channel input isExec) := by
  obtain ⟨hi, hopen, -⟩ := Door.idleConn_some hc
  have hmax := (h.turned_away c (List.mem_of_getElem? hi) hopen).2
  unfold Door.startShellOrExec
  cases c.handler.entry with
  | none => exact h.setConn hi rfl fun _ => hopen
  | some e =>
      dsimp only
      rw [if_pos (hmax ▸ Nat.zero_le _)]
      exact h.setConn hi rfl fun _ => hopen

variable [NeZero cap]

/-- **No client outlives the session**: no client is listed, no forward task is live, and whatever
the connections do that have been accepted so far, none of them gets in or attaches to the hub. -/
def NoClientOutlives (d : Door cap) : Prop :=
  d.registry.listed = [] ∧ NoForwarder d ∧
    ∀ u a v, Reach doorStep (fun _ b => ¬ b.IsAccept) d u → ¬ a.IsAccept →
      doorStep u a = some v → ¬ Attaches u a

/-! ### The invariant of the door -/

/-- What every run keeps about a connection: a request is handled only after it has been let in,
and only if the session admits clients. -/
structure Conn.Ok (maxClients : ℕ) (c : Conn) : Prop where
  let_in : c.handler.entry = none → c.pending = none
  admitted : maxClients = 0 → c.pending = none

/-- What every run of a door keeps. -/
structure DoorInv (d : Door cap) : Prop where
  lets_in : ∃ user password, (d.mgr.authenticate user password).isSome = true
  tracks : ∃ live, d.hub.Tracks live
  fresh : ∀ n, d.tasks.length ≤ n → d.hub.forwarders n = none
  hub_open : ∀ c ∈ d.conns, c.isOpen = true → d.hub.hubOpen = true
  conns_ok : ∀ c ∈ d.conns, c.Ok d.maxClients

/-- The invariant does not depend on the registry, on the states of the tasks or on the history. -/
theorem DoorInv.congr {d e : Door cap} (h : DoorInv d) (hmgr : e.mgr = d.mgr)
    (hmax : e.maxClients = d.maxClients) (hhub : e.hub = d.hub) (hconns : e.conns = d.conns)
    (htasks : e.tasks.length = d.tasks.length) : DoorInv e where
  lets_in := hmgr ▸ h.lets_in
  tracks := hhub ▸ h.tracks
  fresh := by
    rw [htasks, hhub]
    exact h.fresh
  hub_open := by
    rw [hconns, hhub]
    exact h.hub_open
  conns_ok := by
    rw [hconns, hmax]
    exact h.conns_ok

theorem DoorInv.setConn {d : Door cap} (h : DoorInv d) {i : ℕ} {c c' : Conn}
    (hc : d.conns[i]? = some c) (hok : c'.Ok d.maxClients)
    (hopen : c'.isOpen = true → c.isOpen = true) : DoorInv (d.setConn i c') where
  lets_in := h.lets_in
  tracks := h.tracks
  fresh := h.fresh
  hub_open e he ho := by
    rcases Door.mem_setConn he with rfl | he
    · exact h.hub_open c (List.mem_of_getElem? hc) (hopen ho)
    · exact h.hub_open e he ho
  conns_ok e he := by
    rcases Door.mem_setConn he with rfl | he
    · exact hok
    · exact h.conns_ok e he

/-- A step of the hub that makes no forward task. -/
theorem DoorInv.withHub {d : Door cap} (h : DoorInv d) {a : HubAct} {hub : HubState cap}
    (hs : hubStep d.hub a = some hub)
    (hfresh : ∀ n, d.hub.forwarders n = none → hub.forwarders n = none)
    (hopen : ∀ c ∈ d.conns, c.isOpen = true → hub.hubOpen = true) :
    DoorInv { d with hub } where
  lets_in := h.lets_in
  tracks := by
    obtain ⟨live, hlive⟩ := h.tracks
    exact hubStep_tracks hlive hs
  fresh n hn := hfresh n (h.fresh n hn)
  hub_open := hopen
  conns_ok := h.conns_ok

theorem doorInv_new {e : SessionEntry} {mgr : SessionMgr} (h : SessionMgr.new.register e = .ok mgr)
    (maxClients : ℕ) : DoorInv (Door.new cap mgr maxClients) where
  lets_in := ⟨e.name, e.password, Option.isSome_iff_exists.2 ⟨e, SessionMgr.authenticate_new h⟩⟩
  tracks := ⟨∅, HubState.tracks_init⟩
  fresh _ _ := rfl
  hub_open _ hc := nomatch hc
  conns_ok _ hc := nomatch hc

/-! ### The invariant step by step -/

/-- Aborting a task and detaching a client. -/
theorem DoorInv.closed {d : Door cap} (h : DoorInv d) (t c : Option ℕ) :
    DoorInv ((d.abortTask t).detachClient c) :=
  h.congr (by simp) (by simp) (by simp) (by simp) (by simp)

/-- The first section of a request keeps the invariant. -/
theorem DoorInv.startShellOrExec {d : Door cap} (h : DoorInv d) {i : ℕ} {c : Conn}
    (hc : d.idleConn i = some c) (channel : ℕ) (input : Option Bytes) (isExec : Bool) :
    DoorInv (d.startShellOrExec i c channel input isExec) := by
  obtain ⟨hi, hopen, hidle⟩ := Door.idleConn_some hc
  unfold Door.startShellOrExec
  cases he : c.handler.entry with
  | none => exact h.setConn hi ⟨fun _ => hidle, fun _ => hidle⟩ fun _ => hopen
  | some e =>
      dsimp only
      split
      · exact h.setConn hi ⟨fun _ => hidle, fun _ => hidle⟩ fun _ => hopen
      · rename_i hroom
        refine h.setConn hi ⟨fun hn => ?_, fun hm => ?_⟩ fun _ => hopen
        · rw [show c.handler.entry = none from hn] at he
          cases he
        · exact absurd (Nat.zero_le _) (hm ▸ hroom)

/-- A step of a forward task keeps the invariant. -/
theorem DoorInv.loopStep {d t : Door cap} (h : DoorInv d) {n : ℕ} {a : ForwarderAct}
    (hs : d.loopStep n a = some t) : DoorInv t := by
  obtain ⟨hub, hhub, rfl⟩ := Option.map_eq_some_iff.1 hs
  obtain ⟨f, g, hf, -, -, rfl⟩ := hubStep_client hhub
  refine h.withHub hhub (fun m hm => ?_) h.hub_open
  have hne : m ≠ n := by
    rintro rfl
    rw [hf] at hm
    cases hm
  simpa [HubState.update, Function.update_of_ne hne] using hm

/-- A new forward task. -/
theorem DoorInv.subscribed {d : Door cap} (h : DoorInv d) {isExec : Bool} {hub : HubState cap}
    (hs : hubStep d.hub (.subscribe d.tasks.length isExec) = some hub) (k : ForwardTask) :
    DoorInv { d with hub, tasks := d.tasks ++ [k] } where
  lets_in := h.lets_in
  tracks := by
    obtain ⟨live, hlive⟩ := h.tracks
    exact hubStep_tracks hlive hs
  fresh n hn := by
    rw [List.length_append, List.length_singleton] at hn
    obtain ⟨-, rfl⟩ := hubStep_subscribe hs
    have hne : n ≠ d.tasks.length := by omega
    simpa [Function.update_of_ne hne] using h.fresh n (by omega)
  hub_open c hc ho := by
    obtain ⟨-, rfl⟩ := hubStep_subscribe hs
    exact h.hub_open c hc ho
  conns_ok := h.conns_ok

theorem DoorInv.taskStep {d t : Door cap} (h : DoorInv d) {n : ℕ} {k : ForwardTask} {a : TaskAct}
    (hs : d.taskStep n k a = some t) : DoorInv t := by
  obtain ⟨polled, rfl⟩ | ⟨b, hl⟩ := taskStep_some hs
  · exact h.congr rfl rfl rfl rfl (by simp)
  · exact h.loopStep hl

/-- **Every step of the door keeps the invariant.** -/
theorem DoorInv.step {d t : Door cap} {a : DoorAct} (h : DoorInv d) (hs : doorStep d a = some t) :
    DoorInv t := by
  cases doorStep_stepped hs with
  | accept hopen =>
      refine ⟨h.lets_in, h.tracks, h.fresh, fun _ _ _ => hopen, fun c hc => ?_⟩
      rcases List.mem_append.1 hc with hc | hc
      · exact h.conns_ok c hc
      · obtain rfl := List.mem_singleton.1 hc
        exact ⟨fun _ => rfl, fun _ => rfl⟩
  | turnedAway | dropped | eofOfShell => exact h
  | letIn hc =>
      obtain ⟨hi, hopen, hidle⟩ := Door.idleConn_some hc
      exact h.setConn hi ⟨fun _ => hidle, fun _ => hidle⟩ fun _ => hopen
  | shell hc | exec hc => exact h.startShellOrExec hc _ _ _
  | @attach i _ c _ _ _ hc hp =>
      obtain ⟨hi, hopen⟩ := Door.openConn_some hc
      have hok := h.conns_ok c (List.mem_of_getElem? hi)
      have hsame : DoorInv { d with registry := (d.registry.attach c.handler.peer).2 } :=
        h.congr rfl rfl rfl rfl rfl
      refine hsame.setConn hi ⟨fun hn => ?_, fun hm => ?_⟩ fun _ => hopen
      · rw [hok.let_in hn] at hp
        cases hp
      · rw [hok.admitted hm] at hp
        cases hp
  | @inputSent i _ id taken c b _ hc hp =>
      obtain ⟨hi, hopen⟩ := Door.openConn_some hc
      have hok := h.conns_ok c (List.mem_of_getElem? hi)
      have hsame : DoorInv { d with
          registry := d.registry.addIn id b.length
          typed := if taken then d.typed ++ [(i, b)] else d.typed } := h.congr rfl rfl rfl rfl rfl
      refine hsame.setConn hi ⟨fun hn => ?_, fun hm => ?_⟩ fun _ => hopen
      · rw [hok.let_in hn] at hp
        cases hp
      · rw [hok.admitted hm] at hp
        cases hp
  | subscribe hc _ hhub =>
      obtain ⟨hi, hopen⟩ := Door.openConn_some hc
      exact DoorInv.setConn (h.subscribed hhub _) hi ⟨fun _ => rfl, fun _ => rfl⟩ fun _ => hopen
  | eof hc | close hc =>
      obtain ⟨hi, hopen, hidle⟩ := Door.idleConn_some hc
      exact (h.closed _ _).setConn (by simpa using hi) ⟨fun _ => hidle, fun _ => hidle⟩
        fun _ => hopen
  | disconnect hc =>
      obtain ⟨hi, hopen, hidle⟩ := Door.idleConn_some hc
      exact (h.closed _ none).setConn (by simpa using hi) ⟨fun _ => hidle, fun _ => hidle⟩
        fun _ => hopen
  | data | kick => exact h.congr rfl rfl rfl rfl rfl
  | task _ hs => exact h.taskStep hs
  | hub _ hhub _ hforw hopen =>
      -- the hub ends only when no connection is left
      refine h.withHub hhub (fun n hn => hforw ▸ hn) fun c hc ho => ?_
      rcases hopen with hopen | hclosed
      · exact hopen.trans (h.hub_open c hc ho)
      · rw [hclosed c hc] at ho
        cases ho

/-! ### Nobody is connected -/

/-- Where nobody is connected, a connection handles no request. -/
theorem Quiet.pending {d : Door cap} (h : Quiet d) (hi : DoorInv d) {i : ℕ} {c : Conn}
    (hc : d.openConn i = some c) : c.pending = none := by
  obtain ⟨hmem, hopen⟩ := Door.openConn_some hc
  have hc' := List.mem_of_getElem? hmem
  exact (hi.conns_ok c hc').admitted (h.turned_away c hc' hopen).2

/-- No forward task is left to do a step of its loop. -/
theorem Quiet.loopStep {d : Door cap} (h : Quiet d) (n : ℕ) (a : ForwarderAct) :
    d.loopStep n a = none := by
  cases hs : d.loopStep n a with
  | none => rfl
  | some t =>
      obtain ⟨hub, hhub, rfl⟩ := Option.map_eq_some_iff.1 hs
      obtain ⟨f, g, hf, he, -, -⟩ := hubStep_client hhub
      rw [h.no_forwarder n f hf] at he
      cases he

theorem Quiet.taskStep {d t : Door cap} (h : Quiet d) {n : ℕ} {k : ForwardTask} {a : TaskAct}
    (hs : d.taskStep n k a = some t) : Quiet t := by
  obtain ⟨polled, rfl⟩ | ⟨b, hl⟩ := taskStep_some hs
  · exact h.congr rfl rfl rfl rfl
  · rw [h.loopStep] at hl
    cases hl

/-- **Where nobody is connected nobody attaches**, and it stays so until the accept loop takes a
connection. -/
theorem Quiet.step {d t : Door cap} {a : DoorAct} (h : Quiet d) (hi : DoorInv d)
    (ha : ¬ a.IsAccept) (hs : doorStep d a = some t) : ¬ Attaches d a ∧ Quiet t := by
  cases doorStep_stepped hs with
  | accept => exact absurd trivial ha
  | dropped | eofOfShell => exact ⟨id, h⟩
  | turnedAway hc hentry | letIn hc hentry =>
      obtain ⟨hmem, hopen, -⟩ := Door.idleConn_some hc
      -- whoever is still connected has been let in already
      have hlet := (h.turned_away _ (List.mem_of_getElem? hmem) hopen).1
      rw [hentry] at hlet
      cases hlet
  | shell hc | exec hc => exact ⟨id, h.startShellOrExec hc _ _ _⟩
  | attach hc hp | inputSent hc hp | subscribe hc hp =>
      rw [h.pending hi hc] at hp
      cases hp
  | @data _ _ _ c =>
      refine ⟨id, h.congr rfl ?_ rfl rfl⟩
      cases c.handler.clientRec <;> rfl
  | @eof _ _ c _ hc | @close _ _ c hc =>
      obtain ⟨hmem, hopen, -⟩ := Door.idleConn_some hc
      exact ⟨id, Quiet.setConn (c := c) (h.closed _ _) (by simpa using hmem) rfl fun _ => hopen⟩
  | @disconnect _ c hc =>
      obtain ⟨hmem, hopen, -⟩ := Door.idleConn_some hc
      exact ⟨id, Quiet.setConn (c := c) (h.closed _ none) (by simpa using hmem) rfl fun _ => hopen⟩
  | kick id =>
      refine ⟨fun hf => hf, h.congr rfl ?_ rfl rfl⟩
      unfold ClientRegistry.kick
      split <;> rfl
  | task _ hs => exact ⟨id, h.taskStep hs⟩
  | @hub a _ _ ha' _ _ hforw =>
      refine ⟨?_, h.congr rfl rfl hforw rfl⟩
      cases a with
      | push | forward | system | shutdown => exact id
      | _ => exact False.elim ha'

/-! ### Somebody is connected -/

/-- Without a live forward task the hub has no receiver. -/
theorem DoorInv.rxCount {d : Door cap} (h : DoorInv d) (hf : NoForwarder d) :
    d.hub.chan.rxCount = 0 := by
  obtain ⟨live, hlive⟩ := h.tracks
  rw [hlive.count, Finset.card_eq_zero, Finset.eq_empty_iff_forall_notMem]
  intro n hn
  obtain ⟨f, hfn, he⟩ := (hlive.mem_live n).1 hn
  rw [hf n f hfn] at he
  cases he

/-- A request that is about to subscribe can do so. -/
theorem DoorInv.can_subscribe {d : Door cap} (h : DoorInv d) {i : ℕ} {c : Conn}
    (hc : d.openConn i = some c) {channel : ℕ} {isExec : Bool} {id : ℕ}
    (hp : c.pending = some (.subscribe channel isExec id)) :
    ∃ t, doorStep d (.subscribe i) = some t := by
  obtain ⟨hmem, hopen⟩ := Door.openConn_some hc
  have hhub : d.hub.hubOpen = true ∧ d.hub.forwarders d.tasks.length = none :=
    ⟨h.hub_open c (List.mem_of_getElem? hmem) hopen, h.fresh _ le_rfl⟩
  simp only [doorStep, hc, hp, hubStep, if_pos hhub]
  exact ⟨_, rfl⟩

/-- A request that is being handled leads to an attachment. -/
theorem NoClientOutlives.pending {d : Door cap} (h : NoClientOutlives d) (hi : DoorInv d) {i : ℕ}
    {c : Conn} (hc : d.openConn i = some c) : c.pending = none := by
  obtain ⟨-, -, hlater⟩ := h
  -- a request that is being handled would attach, or subscribe, in one or two steps
  cases hp : c.pending with
  | none => rfl
  | some p =>
      cases p with
      | attach channel input isExec =>
          obtain ⟨t, ht⟩ : ∃ t, doorStep d (.attach i) = some t := by
            simp only [doorStep, hc, hp]
            exact ⟨_, rfl⟩
          exact absurd trivial (hlater d _ t .refl id ht)
      | sendInput channel b isExec client =>
          -- the input is sent, then the request subscribes
          obtain ⟨u, hu⟩ : ∃ u, doorStep d (.inputSent i true) = some u := by
            simp only [doorStep, hc, hp]
            exact ⟨_, rfl⟩
          obtain ⟨c', channel', b', isExec', client', hc', -, rfl⟩ := doorStep_inputSent hu
          obtain ⟨hmem, hopen⟩ := Door.openConn_some hc'
          have hlt := (List.getElem?_eq_some_iff.1 hmem).1
          obtain ⟨t, ht⟩ := (hi.step hu).can_subscribe
            (Door.openConn_of (List.getElem?_set_self hlt) hopen) rfl
          exact absurd trivial (hlater _ _ t (Reach.refl.tail id hu) id ht)
      | subscribe channel isExec client =>
          obtain ⟨t, ht⟩ := hi.can_subscribe hc hp
          exact absurd trivial (hlater d _ t .refl id ht)

/-- A connection that has not been let in can still log in. -/
theorem NoClientOutlives.entry {d : Door cap} (h : NoClientOutlives d) (hi : DoorInv d) {i : ℕ}
    {c : Conn} (hc : d.openConn i = some c) : c.handler.entry.isSome = true := by
  obtain ⟨hmem, hopen⟩ := Door.openConn_some hc
  have hidle := Door.idleConn_of hmem hopen (h.pending hi hc)
  cases he : c.handler.entry with
  | some e => rfl
  | none =>
      obtain ⟨user, password, hauth⟩ := hi.lets_in
      obtain ⟨e, hauth'⟩ := Option.isSome_iff_exists.1 hauth
      obtain ⟨t, ht⟩ : ∃ t, doorStep d (.auth i user password) = some t := by
        simp only [doorStep, hidle, he, hauth']
        exact ⟨_, rfl⟩
      exact absurd hauth (h.2.2 d _ t .refl id ht)

/-- A connection that has been let in can ask for a shell, unless no client is admitted. -/
theorem NoClientOutlives.maxClients {d : Door cap} (h : NoClientOutlives d) (hi : DoorInv d) {i : ℕ}
    {c : Conn} (hc : d.openConn i = some c) : d.maxClients = 0 := by
  obtain ⟨hmem, hopen⟩ := Door.openConn_some hc
  have hidle := Door.idleConn_of hmem hopen (h.pending hi hc)
  obtain ⟨e, he⟩ := Option.isSome_iff_exists.1 (h.entry hi hc)
  by_contra hmax
  have hroom : ¬ d.hub.chan.rxCount ≥ d.maxClients := by
    rw [hi.rxCount h.2.1]
    omega
  let c' : Conn := { c with
    replies := c.replies ++ [(0, .success)]
    pending := some (.attach 0 none false) }
  have hshell : doorStep d (.shell i 0) = some (d.setConn i c') := by
    simp only [doorStep, hidle, Option.map_some, Door.startShellOrExec, he, if_neg hroom]
    rfl
  have hlt := (List.getElem?_eq_some_iff.1 hmem).1
  have hc' : (d.setConn i c').openConn i = some c' :=
    Door.openConn_of (List.getElem?_set_self hlt) hopen
  obtain ⟨t, ht⟩ : ∃ t, doorStep (d.setConn i c') (.attach i) = some t := by
    simp only [doorStep, hc']
    exact ⟨_, rfl⟩
  exact absurd trivial (h.2.2 _ _ t (Reach.refl.tail id hshell) id ht)

/-- **No client outlives the session exactly if nobody is connected.** -/
theorem noClientOutlives_iff_quiet {d : Door cap} (hi : DoorInv d) :
    NoClientOutlives d ↔ Quiet d := by
  constructor
  · intro h
    refine ⟨h.1, h.2.1, fun c hc ho => ?_⟩
    obtain ⟨i, hmem⟩ := List.mem_iff_getElem?.1 hc
    have hc' := Door.openConn_of hmem ho
    exact ⟨h.entry hi hc', h.maxClients hi hc'⟩
  · intro h
    refine ⟨h.unlisted, h.no_forwarder, fun u a v hr ha hs => ?_⟩
    have hu : Quiet u ∧ DoorInv u := by
      refine hr.invariant (I := fun d => Quiet d ∧ DoorInv d) ⟨h, hi⟩ ?_
      rintro d b e ⟨hd, hdi⟩ hb hs
      exact ⟨(hd.step hdi hb hs).2, hdi.step hs⟩
    exact (hu.1.step hu.2 ha hs).1

/-! ### A session operation next to the door -/

/-- A session operation under way, and the door of the session whose entry stands under `key`. -/
structure Site (cap : ℕ) where
  world : World
  call : Prog World (Except AppError Unit)
  key : String
  runner : TaskId
  acceptLoop : TaskId
  door : Door cap

/-- What can happen: the next section of the operation, a task that ends, or something at the
door. -/
inductive SiteAct
  | next
  | taskEnds (t : TaskId)
  | door (a : DoorAct)
  deriving DecidableEq, Repr

namespace Site

/-- Apart from the connections, nobody holds a handle of the hub. -/
def unheld (s : Site cap) : Bool :=
  s.world.ended s.runner && s.world.ended s.acceptLoop &&
    (s.world.lookup s.key).all fun r => r.sessionMgr ≠ some s.door.mgr

/-- Connections are taken while the accept loop runs. -/
def allows (s : Site cap) : DoorAct → Bool
  | .accept _ => !s.world.ended s.acceptLoop
  | .shutdown => s.unheld
  | _ => true

end Site

/-- The step of an action. -/
def siteStep (s : Site cap) : SiteAct → Option (Site cap)
  | .next =>
    match s.call with
    | .sec ready upd next =>
      if ready s.world then some { s with world := upd s.world, call := next s.world } else none
    | .ret _ => none
  | .taskEnds t => some { s with world := s.world.endTask t }
  | .door a =>
    if s.allows a then (doorStep s.door a).map fun door => { s with door } else none

/-- What happens at the door. -/
def doorActs (as : List SiteAct) : List DoorAct :=
  as.filterMap fun
    | .door a => some a
    | _ => none

/-- The session has been started: its entry holds the runner, the accept loop and the manager, and
the door is in a state that the clients have reached. -/
structure Site.Hosts (s : Site cap) : Prop where
  entry : ∃ r, s.world.lookup s.key = some r ∧
    r.started.map StartedSession.handle = some s.runner ∧
    r.sshdHandle = some s.acceptLoop ∧ r.sessionMgr = some s.door.mgr
  registered : ∃ e, SessionMgr.new.register e = .ok s.door.mgr
  reached : Reachable doorStep
    (Door.new cap s.door.mgr s.world.app.maxClientsPerSession) s.door

theorem Site.Hosts.inv {s : Site cap} (h : s.Hosts) : DoorInv s.door := by
  obtain ⟨e, he⟩ := h.registered
  exact h.reached.invariant (doorInv_new he _) fun _ _ _ hi _ hs => hi.step hs

/-- The operation does nothing at the door. -/
theorem exec_doorActs {s t : Site cap} {as : List SiteAct} (h : exec siteStep s as = some t) :
    exec doorStep s.door (doorActs as) = some t.door := by
  induction as generalizing s with
  | nil =>
      obtain rfl := Option.some_inj.1 h
      rfl
  | cons a as ih =>
      obtain ⟨u, hu, hut⟩ := Option.bind_eq_some_iff.1 h
      have hrest := ih hut
      cases a with
      | next =>
          simp only [siteStep] at hu
          split at hu
          · obtain ⟨-, rfl⟩ := Option.ite_some_none_eq_some.1 hu
            exact hrest
          · cases hu
      | taskEnds k =>
          obtain rfl := Option.some_inj.1 hu
          exact hrest
      | door a =>
          simp only [siteStep] at hu
          split at hu
          · obtain ⟨d, hd, rfl⟩ := Option.map_eq_some_iff.1 hu
            exact (exec_cons_some hd _).trans hrest
          · cases hu

/-! ### The accept loop has ended when a stop returns -/

/-- Tasks end by themselves. -/
def endsTask (w w' : World) : Prop := ∃ t, w' = w.endTask t

theorem endsTask.lookup {w w' : World} (h : Relation.ReflTransGen endsTask w w') (key : String) :
    w'.lookup key = w.lookup key := by
  induction h with
  | refl => rfl
  | tail _ hstep ih =>
      obtain ⟨t, rfl⟩ := hstep
      exact ih

theorem endsTask.ended (h : TaskId) (w w' : World) (hs : endsTask w w')
    (hw : w.ended h = true) : w'.ended h = true := by
  obtain ⟨t, rfl⟩ := hs
  exact World.ended_endTask hw t

/-- Waiting for a task brings it to its end. -/
theorem join_ensures {h : TaskId} {Q : Unit → World → Prop}
    (hQ : ∀ w : World, w.ended h = true → Q () w) (w : World) :
    (join (some h)).Ensures endsTask Q w := by
  intro w' _ hjoin
  exact hQ _ (World.ended_of_joinable hjoin)

/-- A save leaves the tasks alone. -/
theorem persistNow_updates (C : Codec) (io : SaveIo) (h : TaskId) :
    (persistNow C io).Updates fun u => ∀ w : World, w.ended h = true → (u w).ended h = true := by
  refine ⟨fun w hw => ?_, fun _ => trivial⟩
  change ((World.persist C io w).2).ended h = true
  rw [World.persist_snd]
  exact hw

/-- **When `stop_session` returns, the accept loop of the entry has ended.** -/
theorem stopSession_ensures (C : Codec) (io : SaveIo) {name : String} {w : World} {r : RunnerEntry}
    (hr : w.lookup (toAsciiLowercase name) = some r) {h : TaskId} (hh : r.sshdHandle = some h) :
    (stopSession C io name).Ensures endsTask (fun _ w => w.ended h = true) w := by
  unfold stopSession
  -- the tokens are cancelled, and the handles are taken out of the entry
  refine Prog.Ensures.atomic fun w₁ h₁ => Prog.Ensures.atomic fun w₂ h₂ => ?_
  have hlookup : w₂.lookup (toAsciiLowercase name) = some r := by
    rw [endsTask.lookup h₂]
    rw [World.cancelEntry, endsTask.lookup h₁, hr]
    dsimp only
    rw [World.lookup_cancelAll, endsTask.lookup h₁, hr]
  have htake : (w₂.takeHandles (toAsciiLowercase name)).1 =
      (r.started.map StartedSession.handle, some h) := by
    rw [World.takeHandles, hlookup, ← hh]
  rw [htake]
  dsimp only
  -- the runner is waited for, then the accept loop, and nothing wakes it up again
  refine Prog.Ensures.bind (Prog.Ensures.of_forall (fun _ w => ?_) _)
  refine Prog.Ensures.bind (join_ensures (fun w hw => ?_) w)
  refine Prog.Ensures.of_updates (I := fun w : World => w.ended h = true) ?_ (endsTask.ended h) hw
  refine Prog.Updates.bind ⟨fun w hw => ?_, fun _ => trivial⟩ fun _ => ?_
  · change (w.modifyEntry _ _).ended h = true
    rw [World.ended, World.rt_modifyEntry]
    exact hw
  · refine (persistNow_updates C io h).bind fun res => ?_
    cases res <;> trivial

/-- **When the call returns, the accept loop of the entry has ended.** -/
theorem Call.prog_ensures (C : Codec) (io : CallIo) {c : Call} {name : String}
    (hc : c = .stop name ∨ c = .delete name) {w : World} {r : RunnerEntry}
    (hr : w.lookup (toAsciiLowercase name) = some r) {h : TaskId} (hh : r.sshdHandle = some h) :
    (c.prog C io).Ensures endsTask (fun _ w => w.ended h = true) w := by
  obtain rfl | rfl := hc
  · exact stopSession_ensures C io.save hr hh
  · refine Prog.Ensures.bind (Prog.Ensures.mono (fun res w hw => ?_)
      (stopSession_ensures C io.stopSave hr hh))
    cases res with
    | error e => exact hw
    | ok _ =>
        refine Prog.Ensures.of_updates (I := fun w : World => w.ended h = true) ?_
          (endsTask.ended h) hw
        refine Prog.Updates.bind ⟨fun w hw => hw, fun _ => trivial⟩ fun _ => ?_
        refine (persistNow_updates C io.save h).bind fun res => ?_
        cases res <;> trivial

/-- A run of the site keeps what the call brings about. -/
theorem exec_ensures {Q : Except AppError Unit → World → Prop}
    (hQ : ∀ a w w', endsTask w w' → Q a w → Q a w') {s t : Site cap} {as : List SiteAct}
    (hrun : exec siteStep s as = some t) (h : s.call.Ensures endsTask Q s.world) :
    t.acceptLoop = s.acceptLoop ∧ t.call.Ensures endsTask Q t.world := by
  refine (reachable_of_exec hrun).invariant
    (I := fun t => t.acceptLoop = s.acceptLoop ∧ t.call.Ensures endsTask Q t.world) ⟨rfl, h⟩ ?_
  rintro u a v ⟨hloop, hu⟩ - hs
  cases a with
  | next =>
      simp only [siteStep] at hs
      split at hs
      · rename_i ready upd next hcall
        split at hs
        · rename_i hready
          obtain rfl := Option.some_inj.1 hs
          rw [hcall] at hu
          exact ⟨hloop, hu.next hready⟩
        · cases hs
      · cases hs
  | taskEnds k =>
      obtain rfl := Option.some_inj.1 hs
      exact ⟨hloop, hu.after_env hQ ⟨k, rfl⟩⟩
  | door b =>
      simp only [siteStep] at hs
      split at hs
      · obtain ⟨d, -, rfl⟩ := Option.map_eq_some_iff.1 hs
        exact ⟨hloop, hu⟩
      · cases hs

/-! ### After a stop or a delete -/

/-- **The clients of a session that has been stopped or deleted.**  When the call returns, the
accept loop has ended; no client outlives the session exactly if what happened at the door, taken
alone, has left nobody connected; and so it is if nobody is connected at the start and the accept
loop takes no connection during the call. -/
theorem stop_noClientOutlives (C : Codec) (io : CallIo) {c : Call} {s t : Site cap} {name : String}
    (hc : c = .stop name ∨ c = .delete name) (hkey : s.key = toAsciiLowercase name)
    (hs : s.Hosts) (hcall : s.call = c.prog C io) {as : List SiteAct}
    (hrun : exec siteStep s as = some t) (hok : t.call = .ret (.ok ())) :
    t.world.ended t.acceptLoop = true ∧
      (NoClientOutlives t.door ↔ ∃ d, exec doorStep s.door (doorActs as) = some d ∧ Quiet d) ∧
      (Quiet s.door → (∀ a ∈ doorActs as, ¬ a.IsAccept) → NoClientOutlives t.door) := by
  have hdoor := exec_doorActs hrun
  have hinv : DoorInv t.door :=
    (reachable_of_exec hdoor).invariant hs.inv fun _ _ _ hi _ hs => hi.step hs
  have hiff := noClientOutlives_iff_quiet hinv
  refine ⟨?_, ?_, ?_⟩
  · obtain ⟨r, hr, -, hloop, -⟩ := hs.entry
    have hcallEns := Call.prog_ensures C io hc (hkey ▸ hr) hloop
    obtain ⟨hsame, hret⟩ := exec_ensures (fun _ => endsTask.ended s.acceptLoop) hrun
      (hcall ▸ hcallEns)
    rw [hok] at hret
    rw [hsame]
    exact hret
  · rw [hiff]
    constructor
    · exact fun h => ⟨t.door, hdoor, h⟩
    · rintro ⟨d, hd, h⟩
      rwa [Option.some_inj.1 (hdoor.symm.trans hd)]
  · intro hq hno
    rw [hiff]
    refine ((meets_of_forall hno s.door).reach hdoor).invariant_under (I := DoorInv) hs.inv
      (fun _ _ _ hi hs => hi.step hs) hq fun d a e hi hd ha hs => (hd.step hi ha hs).2

/-- The state after the loopback session `a` has been created, with its manager. -/
def createdWorld : World :=
  (World.empty.entered (loopbackSession "a" "0.0.0.0:2301")).2

def createdMgr : SessionMgr :=
  ((createdWorld.lookup "a").bind RunnerEntry.sessionMgr).getD SessionMgr.new

/-- The session `a` is being stopped. -/
def stoppingSite (door : Door 4) : Site 4 where
  world := createdWorld
  call := stopSession plainCodec SaveIo.none "a"
  key := "a"
  runner := 0
  acceptLoop := 1
  door := door

theorem stoppingSite_hosts {d : Door 4} (acts : List DoorAct)
    (h : exec doorStep (Door.new 4 createdMgr 16) acts = some d) (hmgr : d.mgr = createdMgr) :
    (stoppingSite d).Hosts where
  entry := ⟨_, rfl, rfl, rfl, congrArg some hmgr.symm⟩
  registered := ⟨⟨"admin", "pass", 0, 1, 0, 2⟩, congrArg Except.ok hmgr.symm⟩
  reached := by
    change Reachable doorStep (Door.new 4 d.mgr 16) d
    rw [hmgr]
    exact reachable_of_exec h

/-- The six sections of a stop. -/
def stopSections : List SiteAct := [.next, .next, .next, .next, .next, .next]

/-- A client that logs in, gets a shell, types a command, and leaves. -/
def leavingClient : List DoorAct :=
  [.accept "10.0.0.9:50000", .auth 0 "admin" "pass", .shell 0 0, .attach 0, .subscribe 0,
    .data 0 [108, 115, 13] true, .close 0 0, .task 0 .kill, .disconnect 0]

/-- A client that logs in, gets a shell and stays. -/
def stayingClient : List DoorAct :=
  [.accept "10.0.0.9:50000", .auth 0 "admin" "pass", .shell 0 0, .attach 0, .subscribe 0]

/-- A client that has left before the stop does not outlive the session. -/
theorem stop_noClientOutlives_left : ∃ d t : Door 4,
    exec doorStep (Door.new 4 createdMgr 16) leavingClient = some d ∧
      (exec siteStep (stoppingSite d) stopSections).map Site.door = some t ∧
      NoClientOutlives t := by
  obtain ⟨d, t, f, hd, hmgr, hlisted, hzero, hended, hsucc, hclosed, ht, hok⟩ : ∃ d t f,
      exec doorStep (Door.new 4 createdMgr 16) leavingClient = some d ∧ d.mgr = createdMgr ∧
      d.registry.listed = [] ∧ d.hub.forwarders 0 = some f ∧ f.ended = true ∧
      (∀ n, d.hub.forwarders (n + 1) = none) ∧ (d.conns.all fun c => !c.isOpen) = true ∧
      exec siteStep (stoppingSite d) stopSections = some t ∧ t.call = .ret (.ok ()) :=
    ⟨_, _, _, rfl, rfl, rfl, rfl, rfl, fun _ => rfl, rfl, rfl, rfl⟩
  have hquiet : Quiet d := by
    refine ⟨hlisted, fun n g hg => ?_, fun c hc ho => ?_⟩
    · cases n with
      | zero =>
          obtain rfl := Option.some_inj.1 (hzero.symm.trans hg)
          exact hended
      | succ n => cases (hsucc n).symm.trans hg
    · have hnot := List.all_eq_true.1 hclosed c hc
      simp [ho] at hnot
  refine ⟨d, t.door, hd, congrArg (Option.map Site.door) ht, ?_⟩
  have hc : Call.stop "a" = .stop "a" ∨ Call.stop "a" = .delete "a" := .inl rfl
  refine (stop_noClientOutlives plainCodec CallIo.none hc rfl
    (stoppingSite_hosts leavingClient hd hmgr) rfl ht hok).2.2 hquiet ?_
  exact fun a ha => nomatch (show a ∈ [] from ha)

/-- **A client that has a shell keeps it when its session is stopped.** -/
theorem client_outlives :
    ¬ ∀ (C : Codec) (io : CallIo) (c : Call) (name : String) (s t : Site 4) (as : List SiteAct),
      c = .stop name ∨ c = .delete name → s.key = toAsciiLowercase name → s.Hosts →
      s.call = c.prog C io → exec siteStep s as = some t → t.call = .ret (.ok ()) →
      NoClientOutlives t.door := by
  intro h
  obtain ⟨d, t, hd, hmgr, ht, hok, hlisted⟩ : ∃ d t,
      exec doorStep (Door.new 4 createdMgr 16) stayingClient = some d ∧ d.mgr = createdMgr ∧
      exec siteStep (stoppingSite d) stopSections = some t ∧ t.call = .ret (.ok ()) ∧
      t.door.registry.listed = [1] := ⟨_, _, rfl, rfl, rfl, rfl, rfl⟩
  have hout := h plainCodec CallIo.none (.stop "a") "a" _ _ stopSections (.inl rfl) rfl
    (stoppingSite_hosts stayingClient hd hmgr) rfl ht hok
  rw [hout.1] at hlisted
  cases hlisted

end Sshd

end TermHub
