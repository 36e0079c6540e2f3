/-
**A session that is shared.**

The clients of a session come in through its SSH listener: what they type goes from the callbacks of
their connections into the input channel of the hub, and their forward tasks take what the hub
broadcasts.  Here the door is put next to the tasks of the session and to the loops of its driver
instances.

Main definitions:

* `Served`, `servedStep` — a session with its driver and its door;
* `given` — the chunk that a callback hands to the hub;
* `LetIn`, `Sworn` — the connections that have shown an accepted password in a run, and that only
  such connections have an entry and have typed.

Main results:

* `served_whole` — a session with its door is a session with its hub;
* `accepted_typed` — what the hub has accepted is what has been typed;
* `shared_session` — **who types and who sees what**, in every interleaving.
-/

import TermHub.Provenance
import TermHub.SshDoor

set_option relaxedAutoImplicit false
set_option autoImplicit false

namespace TermHub

namespace Upstream

open Duplex Transition Runner

variable {D : Device} {cfg : RunnerConfig} {cap : ℕ} [NeZero cap]

/-! ### What is handed to the hub -/

/-- The chunk that a callback hands to the hub, with the connection that it comes from and whether
the hub takes it. -/
def given (d : Sshd.Door cap) : Sshd.DoorAct → Option (ℕ × Bytes × Bool)
  | .data i b taken =>
    match d.idleConn i with
    | some c => if c.handler.entry.isSome then some (i, b, taken) else none
    | none => none
  | .inputSent i taken =>
    match d.openConn i with
    | some c =>
      match c.pending with
      | some (.sendInput _ b _ _) => some (i, b, taken)
      | _ => none
    | none => none
  | _ => none

/-- What has been typed by it. -/
def entries : Option (ℕ × Bytes × Bool) → List (ℕ × Bytes)
  | some (i, b, true) => [(i, b)]
  | _ => []

/-- **What a callback has handed over has been typed**, and its step does nothing at the hub. -/
theorem doorStep_typed {d t : Sshd.Door cap} {a : Sshd.DoorAct} (h : Sshd.doorStep d a = some t) :
    t.typed = d.typed ++ entries (given d a) ∧ (given d a ≠ none → t.hub = d.hub) := by
  cases Sshd.doorStep_stepped h with
  | @inputSent i channel id taken c b isExec hc hp =>
      have hg : given d (.inputSent i taken) = some (i, b, taken) := by simp [given, hc, hp]
      refine ⟨?_, fun _ => rfl⟩
      cases taken <;> simp [hg, entries, Sshd.Door.setConn]
  | @dropped i b taken c hc hentry =>
      have hg : given d (.data i b taken) = none := by simp [given, hc, hentry]
      exact ⟨by simp [hg, entries], fun _ => rfl⟩
  | @data i b taken c hc hentry =>
      have hg : given d (.data i b taken) = some (i, b, taken) := by simp [given, hc, hentry]
      refine ⟨?_, fun _ => rfl⟩
      cases taken <;> simp [hg, entries]
  | accept | turnedAway | letIn | attach | subscribe | eofOfShell | kick =>
      exact ⟨(List.append_nil _).symm, fun hg => absurd rfl hg⟩
  | shell | exec =>
      refine ⟨?_, fun hg => absurd rfl hg⟩
      obtain ⟨c', hc'⟩ := Sshd.Door.startShellOrExec_frame d _ _ _ _ _
      rw [hc']
      exact (List.append_nil _).symm
  | @eof i channel c | @close i channel c =>
      refine ⟨?_, fun hg => absurd rfl hg⟩
      cases c.handler.forwardTask <;> cases c.handler.clientRec <;> exact (List.append_nil _).symm
  | @disconnect i c =>
      refine ⟨?_, fun hg => absurd rfl hg⟩
      cases c.handler.forwardTask <;> exact (List.append_nil _).symm
  | task hk hs =>
      obtain ⟨hub, tasks, rfl, -⟩ := Sshd.taskStep_frame hs
      exact ⟨(List.append_nil _).symm, fun hg => absurd rfl hg⟩
  | hub ha hhub =>
      have hg : given d a = none := by
        cases a with
        | push | forward | system | shutdown => rfl
        | _ => exact ha.elim
      exact ⟨by simp [hg, entries], fun hne => absurd hg hne⟩

/-- What happens at the door happens at the hub only as a subscription or as a step of a client. -/
theorem doorStep_clients {d t : Sshd.Door cap} {a : Sshd.DoorAct} (h : Sshd.doorStep d a = some t)
    (ha : ¬ a.IsHubAct) : t.hub = d.hub ∨
      (∃ n isExec, Hub.hubStep d.hub (.subscribe n isExec) = some t.hub) ∨
      ∃ n b, Hub.hubStep d.hub (.client n b) = some t.hub := by
  cases Sshd.doorStep_stepped h with
  | subscribe hc hp hhub => exact .inr (.inl ⟨_, _, hhub⟩)
  | task hk hs =>
      obtain ⟨hub, tasks, rfl, rfl | ⟨b, hhub⟩⟩ := Sshd.taskStep_frame hs
      · exact .inl rfl
      · exact .inr (.inr ⟨_, b, hhub⟩)
  | hub hhub => exact absurd hhub ha
  | accept | turnedAway | letIn | attach | inputSent | dropped | data | eofOfShell | kick =>
      exact .inl rfl
  | shell | exec | eof | close | disconnect => exact .inl (by simp [Sshd.Door.setConn])

/-! ### Sessions with their doors -/

/-- A session with its driver, and the door at which its clients come in. -/
structure Served (D : Device) (cap : ℕ) where
  wired : Wired D
  door : Sshd.Door cap

/-- The session as its hub sees it. -/
def Served.whole (s : Served D cap) : Whole D cap := ⟨s.wired, s.door.hub⟩

/-- The state in which the session is started. -/
def Served.init (mgr : SessionMgr) (maxClients : ℕ) : Served D cap :=
  ⟨Wired.init, Sshd.Door.new cap mgr maxClients⟩

/-- What can happen to a session and at its door. -/
inductive ServedAct (D : Device)
  | session (a : WiredAct D)
  | door (a : Sshd.DoorAct)

/-- The session takes a chunk that is handed to it, or has nobody who would receive it. -/
def Wired.takes (cfg : RunnerConfig) (w : Wired D) : Option (ℕ × Bytes × Bool) → Option (Wired D)
  | some (_, b, true) => wiredStep cfg w (.task (.sendInput b))
  | some (_, _, false) =>
    if w.run.main.ended && decide (w.run.bridge = .ended) then some w else none
  | none => some w

/-- One step: a task of the session, or something at the door.  Only the callbacks hand over input,
and only the session pushes, forwards and broadcasts. -/
def servedStep (cfg : RunnerConfig) (s : Served D cap) : ServedAct D → Option (Served D cap)
  | .session (.task (.sendInput _)) => none
  | .session a =>
    match wiredStep cfg s.wired a, hubAfter s.whole a with
    | some wired, some hub => some ⟨wired, { s.door with hub }⟩
    | _, _ => none
  | .door (.push _) => none
  | .door .forward => none
  | .door (.system _) => none
  | .door .shutdown =>
    -- the main loop and the pumps hold senders
    if s.wired.run.main.ended && s.wired.run.pumps.all Pump.ended then
      (Sshd.doorStep s.door .shutdown).map fun door => ⟨s.wired, door⟩
    else none
  | .door a =>
    match s.wired.takes cfg (given s.door a), Sshd.doorStep s.door a with
    | some wired, some door => some ⟨wired, door⟩
    | _, _ => none

/-- What a step does. -/
inductive ServedStepped (cfg : RunnerConfig) (s : Served D cap) :
    ServedAct D → Served D cap → Prop
  | session {a : WiredAct D} {w : Wired D} {hub : Hub.HubState cap}
      (ha : ∀ b, a ≠ .task (.sendInput b)) (hw : wiredStep cfg s.wired a = some w)
      (hhub : hubAfter s.whole a = some hub) :
      ServedStepped cfg s (.session a) ⟨w, { s.door with hub }⟩
  | shutdown {d : Sshd.Door cap}
      (hg : (s.wired.run.main.ended && s.wired.run.pumps.all Pump.ended) = true)
      (hd : Sshd.doorStep s.door .shutdown = some d) :
      ServedStepped cfg s (.door .shutdown) ⟨s.wired, d⟩
  | door {a : Sshd.DoorAct} {w : Wired D} {d : Sshd.Door cap} (ha : ¬ a.IsHubAct)
      (hw : s.wired.takes cfg (given s.door a) = some w) (hd : Sshd.doorStep s.door a = some d) :
      ServedStepped cfg s (.door a) ⟨w, d⟩

variable {s t : Served D cap}

theorem servedStep_stepped {a : ServedAct D} (h : servedStep cfg s a = some t) :
    ServedStepped cfg s a t := by
  cases a with
  | session a =>
      have ha : ∀ b, a ≠ .task (.sendInput b) := by
        rintro b rfl
        cases h
      have hstep : (match wiredStep cfg s.wired a, hubAfter s.whole a with
          | some wired, some hub => some (⟨wired, { s.door with hub }⟩ : Served D cap)
          | _, _ => none) = some t := by
        cases a with
        | task b =>
            cases b with
            | sendInput b => exact absurd rfl (ha b)
            | _ => exact h
        | device | returns => exact h
      split at hstep
      · rename_i w hub hw hhub
        obtain rfl := Option.some_inj.1 hstep
        exact .session ha hw hhub
      · cases hstep
  | door a =>
      by_cases hshut : a = .shutdown
      · subst hshut
        obtain ⟨hg, hmap⟩ := Option.ite_none_right_eq_some.1 h
        obtain ⟨d, hd, rfl⟩ := Option.map_eq_some_iff.1 hmap
        exact .shutdown hg hd
      · have ha : ¬ a.IsHubAct := by
          intro hhub
          cases a with
          | push | forward | system => cases h
          | shutdown => exact hshut rfl
          | _ => exact hhub
        have hstep : (match s.wired.takes cfg (given s.door a), Sshd.doorStep s.door a with
            | some wired, some door => some (⟨wired, door⟩ : Served D cap)
            | _, _ => none) = some t := by
          cases a with
          | push | forward | system | shutdown => exact absurd trivial ha
          | _ => exact h
        split at hstep
        · rename_i w d hw hd
          obtain rfl := Option.some_inj.1 hstep
          exact .door ha hw hd
        · cases hstep

/-! ### What the session and the hub see of it -/

/-- What the session and its hub do, a session with its hub does. -/
theorem served_whole {mgr : SessionMgr} {maxClients : ℕ}
    (h : Reachable (servedStep cfg) (Served.init mgr maxClients) s) :
    Reachable (wholeStep cfg) Whole.init s.whole := by
  refine h.part (f := Served.whole) ?_
  intro s a t _ hstep
  cases servedStep_stepped hstep with
  | @session a w hub ha hw hhub =>
      refine .inr ⟨.session a, trivial, ?_⟩
      simp only [wholeStep, hhub]
      simp only [Served.whole, hw]
  | shutdown hg hd =>
      obtain ⟨-, hmap⟩ := Option.ite_none_right_eq_some.1 hd
      obtain ⟨hub, hhub, rfl⟩ := Option.map_eq_some_iff.1 hmap
      refine .inr ⟨.shutdown, trivial, ?_⟩
      simp only [wholeStep, Served.whole, hg, if_true, hhub, Option.map_some]
  | @door a w d ha hw hd =>
      cases hg : given s.door a with
      | none =>
          rw [hg] at hw
          obtain rfl := Option.some_inj.1 hw
          rcases doorStep_clients hd ha with hsame | ⟨n, isExec, hhub⟩ | ⟨n, b, hhub⟩
          · exact .inl (by rw [Served.whole, hsame]; rfl)
          · exact .inr ⟨.subscribe n isExec, trivial, by
              simp only [wholeStep, Served.whole, hhub, Option.map_some]⟩
          · exact .inr ⟨.client n b, trivial, by
              simp only [wholeStep, Served.whole, hhub, Option.map_some]⟩
      | some x =>
          have hsame := (doorStep_typed hd).2 (by simp [hg])
          rw [hg] at hw
          obtain ⟨i, b, taken⟩ := x
          cases taken with
          | true =>
              refine .inr ⟨.session (.task (.sendInput b)), trivial, ?_⟩
              have hw' : wiredStep cfg s.wired (.task (.sendInput b)) = some w := hw
              simp only [wholeStep, Served.whole, hw', hubAfter, hubAct, hsame]
          | false =>
              obtain ⟨-, rfl⟩ := Option.ite_some_none_eq_some.1 hw
              exact .inl (by rw [Served.whole, hsame]; rfl)

/-- Only what is sent is accepted. -/
theorem step_accepted {c : Params} {r u : RunState} {a : Act} (h : Runner.step c r a = some u) :
    u.accepted = r.accepted ∧ (∀ b, a ≠ .sendInput b) ∨
      ∃ b, a = .sendInput b ∧ u.accepted = r.accepted ++ [b] := by
  cases step_stepped h with
  | main h => cases RunState.mainStep_stepped h <;> exact .inl ⟨rfl, by simp⟩
  | sendInput => exact .inr ⟨_, rfl, rfl⟩
  | uptime h =>
      rw [RunState.uptimeStep_eq h]
      exact .inl ⟨rfl, by simp⟩
  | pump h =>
      rw [RunState.pumpStep_eq h]
      exact .inl ⟨rfl, by simp⟩
  | bridge h =>
      rw [RunState.bridgeStep_eq h]
      exact .inl ⟨rfl, by simp⟩
  | driver h =>
      rw [RunState.driverStep_eq h]
      exact .inl ⟨rfl, by simp⟩
  | wake | cancel | forward => exact .inl ⟨rfl, by simp⟩

/-- The tasks of a session accept nothing by themselves. -/
theorem wiredStep_accepted {w u : Wired D} {a : WiredAct D} (h : wiredStep cfg w a = some u)
    (ha : ∀ b, a ≠ .task (.sendInput b)) : u.run.accepted = w.run.accepted := by
  cases wiredStep_stepped h with
  | @task b r hd hu =>
      rcases step_accepted hu with ⟨hsame, -⟩ | ⟨b, rfl, -⟩
      · exact hsame
      · exact absurd rfl (ha b)
  | device hl hd hm hx =>
      cases exchange_exchanged hx with
      | silent => rfl
      | took hb hu =>
          rw [RunState.driverStep_eq hu]
      | sent ht hu =>
          rw [RunState.driverStep_eq hu]
  | returns hl hr hu =>
      rw [RunState.driverStep_eq hu]

/-- **What has been accepted is what has been typed**, by whomever. -/
theorem accepted_typed {mgr : SessionMgr} {maxClients : ℕ}
    (h : Reachable (servedStep cfg) (Served.init mgr maxClients) s) :
    s.wired.run.accepted = s.door.typed.map Prod.snd := by
  refine h.invariant (I := fun s => s.wired.run.accepted = s.door.typed.map Prod.snd) rfl ?_
  intro s a t hi _ hstep
  cases servedStep_stepped hstep with
  | session ha hw hhub => exact (wiredStep_accepted hw ha).trans hi
  | shutdown hg hd =>
      rw [(doorStep_typed hd).1]
      simpa [given, entries] using hi
  | @door a w d ha hw hd =>
      rw [(doorStep_typed hd).1, List.map_append, ← hi]
      cases hg : given s.door a with
      | none =>
          rw [hg] at hw
          obtain rfl := Option.some_inj.1 hw
          exact (List.append_nil _).symm
      | some x =>
          rw [hg] at hw
          obtain ⟨i, b, taken⟩ := x
          cases taken with
          | true =>
              obtain ⟨r, hr, rfl⟩ := Option.map_eq_some_iff.1 hw
              rcases step_accepted hr with ⟨-, hne⟩ | ⟨b', hb, hacc⟩
              · exact absurd rfl (hne b)
              · cases hb
                exact hacc
          | false =>
              obtain ⟨-, rfl⟩ := Option.ite_some_none_eq_some.1 hw
              exact (List.append_nil _).symm

/-! ### Who has typed -/

/-- The connections that may come in: only they have an entry or make a request, and only they have
typed. -/
structure Sworn (L : ℕ → Prop) (d : Sshd.Door cap) : Prop where
  entered : ∀ i c, d.conns[i]? = some c → (c.handler.entry.isSome ∨ c.pending.isSome) → L i
  typists : ∀ x ∈ d.typed, L x.1

variable {L : ℕ → Prop}

omit [NeZero cap] in
theorem Sworn.new (mgr : SessionMgr) (maxClients : ℕ) :
    Sworn L (Sshd.Door.new cap mgr maxClients) := by
  refine ⟨fun i c hc => ?_, fun x hx => (List.not_mem_nil hx).elim⟩
  simp [Sshd.Door.new] at hc

omit [NeZero cap] in
theorem Sworn.mono {M : ℕ → Prop} {d : Sshd.Door cap} (hi : Sworn L d) (hLM : ∀ i, L i → M i) :
    Sworn M d :=
  ⟨fun i c hc h => hLM i (hi.entered i c hc h), fun x hx => hLM x.1 (hi.typists x hx)⟩

omit [NeZero cap] in
/-- One connection moves on, and it may come in if it has an entry or makes a request now. -/
theorem Sworn.set {d t : Sshd.Door cap} (hi : Sworn L d) {i : ℕ} {c' : Sshd.Conn}
    (hconns : t.conns = d.conns.set i c')
    (hlet : c'.handler.entry.isSome ∨ c'.pending.isSome → L i)
    (htyped : t.typed = d.typed ∨ ∃ b, t.typed = d.typed ++ [(i, b)] ∧ L i) : Sworn L t := by
  refine ⟨fun j e he hj => ?_, fun x hx => ?_⟩
  · rw [hconns] at he
    by_cases hij : i = j
    · subst hij
      have hlt : i < d.conns.length := by
        simpa using (List.getElem?_eq_some_iff.1 he).1
      obtain rfl := Option.some_inj.1 ((List.getElem?_set_self hlt).symm.trans he)
      exact hlet hj
    · exact hi.entered j e ((List.getElem?_set_ne hij).symm.trans he) hj
  · rcases htyped with hsame | ⟨b, hsnoc, hL⟩
    · exact hi.typists x (hsame ▸ hx)
    · rcases List.mem_append.1 (hsnoc ▸ hx) with hx | hx
      · exact hi.typists x hx
      · obtain rfl := List.mem_singleton.1 hx
        exact hL

omit [NeZero cap] in
/-- One connection moves on with the entry that it has. -/
theorem Sworn.keep {d t : Sshd.Door cap} (hi : Sworn L d) {i : ℕ} {c c' : Sshd.Conn}
    (hc : d.conns[i]? = some c) (hconns : t.conns = d.conns.set i c')
    (hentry : c'.handler.entry = c.handler.entry)
    (hp : c'.pending.isSome → c.handler.entry.isSome ∨ c.pending.isSome)
    (htyped : t.typed = d.typed) : Sworn L t :=
  hi.set hconns (fun h => hi.entered i c hc (h.elim (fun h => .inl (hentry ▸ h)) hp)) (.inl htyped)

omit [NeZero cap] in
/-- A request is handled only with an entry. -/
theorem Sworn.startShellOrExec {d : Sshd.Door cap} (hi : Sworn L d) {i : ℕ} {c : Sshd.Conn}
    (hc : d.conns[i]? = some c) (channel : ℕ) (input : Option Bytes) (isExec : Bool) :
    Sworn L (d.startShellOrExec i c channel input isExec) := by
  unfold Sshd.Door.startShellOrExec
  split
  · exact hi.keep hc rfl rfl .inr rfl
  · rename_i e he
    split
    · exact hi.keep hc rfl rfl .inr rfl
    · exact hi.keep hc rfl rfl (fun _ => .inl (he ▸ rfl)) rfl

/-- **Every step of a door keeps it**, when who shows a password that is accepted may come in. -/
theorem Sworn.step {d t : Sshd.Door cap} {a : Sshd.DoorAct} (hi : Sworn L d)
    (hauth : ∀ i user password, a = .auth i user password →
      (d.mgr.authenticate user password).isSome → L i)
    (h : Sshd.doorStep d a = some t) : Sworn L t := by
  cases Sshd.doorStep_stepped h with
  | accept =>
      refine ⟨fun i c hc hsome => ?_, hi.typists⟩
      rcases getElem?_concat_eq_some.1 hc with hc | ⟨-, rfl⟩
      · exact hi.entered i c hc hsome
      · exact hsome.elim nofun nofun
  | turnedAway | dropped | eofOfShell => exact hi
  | kick | hub => exact ⟨hi.entered, hi.typists⟩
  | task hk hs =>
      obtain ⟨hub, tasks, rfl, -⟩ := Sshd.taskStep_frame hs
      exact ⟨hi.entered, hi.typists⟩
  | @letIn i user password c e hc hnone he =>
      exact hi.set rfl (fun _ => hauth i user password rfl (he ▸ rfl)) (.inl rfl)
  | shell hc => exact hi.startShellOrExec (Sshd.Door.idleConn_some hc).1 ..
  | exec hc => exact hi.startShellOrExec (Sshd.Door.idleConn_some hc).1 ..
  | attach hc hp =>
      exact hi.keep (Sshd.Door.openConn_some hc).1 rfl rfl (fun _ => .inr (hp ▸ rfl)) rfl
  | @inputSent i channel id taken c b isExec hc hp =>
      have hin : L i := hi.entered i c (Sshd.Door.openConn_some hc).1 (.inr (hp ▸ rfl))
      refine hi.set rfl (fun _ => hin) ?_
      cases taken with
      | true => exact .inr ⟨b, rfl, hin⟩
      | false => exact .inl rfl
  | subscribe hc hp => exact hi.keep (Sshd.Door.openConn_some hc).1 rfl rfl nofun rfl
  | @data i b taken c hc hentry =>
      have hin : L i := hi.entered i c (Sshd.Door.idleConn_some hc).1 (.inl hentry)
      refine ⟨hi.entered, fun x hx => ?_⟩
      cases taken with
      | true =>
          rcases List.mem_append.1 hx with hx | hx
          · exact hi.typists x hx
          · obtain rfl := List.mem_singleton.1 hx
            exact hin
      | false => exact hi.typists x hx
  | eof hc =>
      exact hi.keep (Sshd.Door.idleConn_some hc).1 (Sshd.Door.closed_conns ..) rfl .inr
        (by simp [Sshd.Door.setConn])
  | close hc =>
      exact hi.keep (Sshd.Door.idleConn_some hc).1 (Sshd.Door.closed_conns ..) rfl .inr
        (by simp [Sshd.Door.setConn])
  | @disconnect i c hc =>
      exact hi.keep (Sshd.Door.idleConn_some hc).1
        (Sshd.Door.closed_conns d c.handler.forwardTask none i _) rfl .inr
        (by simp [Sshd.Door.setConn])

/-- In the run `as` the connection `i` has named a user with a password that the manager accepts. -/
def LetIn (mgr : SessionMgr) (as : List (ServedAct D)) (i : ℕ) : Prop :=
  ∃ user password, .door (.auth i user password) ∈ as ∧ (mgr.authenticate user password).isSome

omit [NeZero cap] in
theorem LetIn.snoc {mgr : SessionMgr} {as : List (ServedAct D)} {i : ℕ} (h : LetIn mgr as i)
    (a : ServedAct D) : LetIn mgr (as ++ [a]) i := by
  obtain ⟨user, password, hmem, hok⟩ := h
  exact ⟨user, password, List.mem_append_left _ hmem, hok⟩

/-- The door of a session that is served. -/
theorem served_door {mgr : SessionMgr} {maxClients : ℕ} {as : List (ServedAct D)}
    (h : exec (servedStep cfg) (Served.init mgr maxClients) as = some s) :
    s.door.mgr = mgr ∧ Sworn (LetIn mgr as) s.door := by
  refine exec_invariant (I := fun as (s : Served D cap) =>
    s.door.mgr = mgr ∧ Sworn (LetIn mgr as) s.door)
    ⟨rfl, Sworn.new mgr maxClients⟩ ?_ h
  rintro as s a t ⟨hmgr, hi⟩ hstep
  have hi' : Sworn (LetIn mgr (as ++ [a])) s.door := hi.mono fun i h => h.snoc a
  have hdoor : ∀ {b : Sshd.DoorAct} {d : Sshd.Door cap}, a = .door b →
      Sshd.doorStep s.door b = some d → d.mgr = mgr ∧ Sworn (LetIn mgr (as ++ [a])) d := by
    rintro b d rfl hd
    refine ⟨(Sshd.doorStep_fixed hd).1.trans hmgr, hi'.step ?_ hd⟩
    rintro i user password rfl hok
    exact ⟨user, password, List.mem_append_right _ (List.mem_singleton_self _), hmgr ▸ hok⟩
  cases servedStep_stepped hstep with
  | session => exact ⟨hmgr, hi'.entered, hi'.typists⟩
  | shutdown hg hd => exact hdoor rfl hd
  | door ha hw hd => exact hdoor rfl hd

/-! ### Who types and who sees what -/

/-- **Who types and who sees what**, with any driver whose loop is that of a `Device`, with any
number of clients and in every interleaving of their callbacks with the tasks of the session.  What
the upstreams are given is, in order and never twice, what clients have typed, and who has typed has
shown before an accepted password; and what a client is handed is a piece of what the upstreams have
been given to show and of the lines that tell of a loss, without gaps, with a mark wherever the
client has lagged by more than the ring. -/
theorem shared_session {mgr : SessionMgr} {maxClients : ℕ} {as : List (ServedAct D)}
    (hrun : exec (servedStep cfg) (Served.init mgr maxClients) as = some s) :
    ((s.wired.loops.reverse.map fun l => inputs l.turns).flatten.Sublist
        (s.door.typed.map Prod.snd) ∧
      (∀ l ∈ s.wired.loops, l.written <+: D.wire l.turns) ∧
      ∀ x ∈ s.door.typed, LetIn mgr as x.1) ∧
    ∃ tags : List (Option ℕ × Bytes), tags.map Prod.snd = s.door.hub.broadcasts ∧
      (∀ x ∈ tags, x.1 = none → x.2 = RunState.lostLine) ∧
      (∀ k, chunksOf k tags <+: shownBy s.wired k) ∧
      ∀ i f, s.door.hub.forwarders i = some f → f.failed = false →
        ∃ seen pending, s.door.hub.broadcasts.drop f.start = seen ++ pending ∧
          Broadcast.Marked cap (s.door.hub.broadcasts.drop f.start).length seen f.handed := by
  have h : Reachable (servedStep cfg) (Served.init mgr maxClients) s := reachable_of_exec hrun
  have hwhole : Reachable (wholeStep cfg) Whole.init s.whole := served_whole h
  have hwired : Reachable (wiredStep cfg) Wired.init s.wired := whole_wired hwhole
  refine ⟨⟨?_, fun l hl => Device.written_prefix (wired_loops hwired l hl),
    (served_door hrun).2.typists⟩, ?_⟩
  · rw [taken_eq hwired, ← accepted_typed h]
    exact received_sublist (wired_run hwired)
  · obtain ⟨tags, hmap, hline, hchunks⟩ := broadcast_tagged (fun _ _ _ _ => trivial) hwhole
    exact ⟨tags, hmap, fun x hx hnone => (hline x hx hnone).2, hchunks,
      fun i f hf hok => (Joined.of_reachable hwhole).delivers hf hok⟩

/-- The manager of the session `lab`. -/
def labMgr : SessionMgr := SessionMgr.new.insert "lab" ⟨"lab", "pw", 0, 1, 0, 2⟩

/-- Two clients come in, one of them without the password; both type, and the upstream answers. -/
def oneLetIn : List (ServedAct rawTcpDevice) :=
  [.session (.task (.main 0)), .session (.task (.main 0)), .session (.task (.main 0)),
    .session (.task (.main 0)), .door (.accept "10.0.0.7:4001"), .door (.accept "10.0.0.8:4002"),
    .door (.auth 0 "lab" "pw"), .door (.auth 1 "lab" "guess"), .door (.shell 0 0),
    .door (.attach 0), .door (.subscribe 0), .door (.data 1 [120] true),
    .door (.data 0 [104] true), .session (.device (.opened (.ok ()))),
    .session (.task (.bridge .take)), .session (.task (.bridge .give)), .session (.device .send),
    .session (.device (.turn (.input [104]))), .session (.device (.write 1)),
    .session (.device (.turn (.read (.ok [111])))), .session (.device .send),
    .session (.task (.pump 0 .poll)), .session (.task (.pump 0 .take)),
    .session (.task (.pump 0 .take)), .session (.task (.pump 0 .hand)),
    .session (.task .forward), .door (.task 0 .poll), .door (.task 0 (.loop .recv)),
    .door (.task 0 (.loop .written))]

theorem shared_session_oneLetIn : ∃ (s : Served rawTcpDevice 4) (f : Hub.Forwarder),
    exec (servedStep ⟨true, none⟩) (Served.init labMgr 2) oneLetIn = some s ∧
    s.wired.loops.map Run.written = [[104]] ∧ s.door.hub.forwarders 0 = some f ∧
    f.handed = [.value [111]] ∧
    (s.wired.loops.reverse.map fun l => inputs l.turns).flatten.Sublist
      (s.door.typed.map Prod.snd) ∧
    s.door.typed = [(0, [104])] ∧ ∀ x ∈ s.door.typed, LetIn labMgr oneLetIn x.1 := by
  have hrun : ∃ (s : Served rawTcpDevice 4) (f : Hub.Forwarder),
      exec (servedStep ⟨true, none⟩) (Served.init labMgr 2) oneLetIn = some s ∧
      s.wired.loops.map Run.written = [[104]] ∧ s.door.hub.forwarders 0 = some f ∧
      f.handed = [.value [111]] ∧ s.door.typed = [(0, [104])] := ⟨_, _, rfl, rfl, rfl, rfl, rfl⟩
  obtain ⟨s, f, hs, hwritten, hf, hhanded, htyped⟩ := hrun
  obtain ⟨⟨htaken, -, hlet⟩, -⟩ := shared_session hs
  exact ⟨s, f, hs, hwritten, hf, hhanded, htaken, htyped, hlet⟩

end Upstream

end TermHub
