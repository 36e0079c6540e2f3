/-
**Who types into a session.**

`ClientHandler::data` looks at the entry of its connection, which is set when the connection is let
in and stays; admission, kicks, closes and ends of commands act on other fields.

Main definitions:

* `Forwards`, `Admitted` — a data callback passes its bytes on; the connection has a client that has
  not been kicked;
* `Guarded` — what is wanted of a data callback;
* `History.Seated`, `InTurn` — what the earlier callbacks must have been.

Main results:

* `typing_guarded_iff` — **only admitted clients type, exactly if every data callback comes in
  turn**.
-/

import TermHub.Admissions

set_option relaxedAutoImplicit false
set_option autoImplicit false

namespace TermHub

namespace Sshd

open Transition Hub Broadcast
open Runner (Bytes)

variable {cap : ℕ} [NeZero cap]

/-! ### What is wanted -/

/-- A data callback of the connection `i` passes its bytes on to the input of the hub. -/
def Forwards (d : Door cap) (i : ℕ) (b : Bytes) : Prop :=
  ∃ t, doorStep d (.data i b true) = some t ∧ t.typed = d.typed ++ [(i, b)]

/-- The connection `i` has a client that is attached and has not been kicked.  A client is attached
only by a request that has passed the limit. -/
def Admitted (d : Door cap) (i : ℕ) : Prop :=
  ∃ c id, d.conns[i]? = some c ∧ c.handler.clientRec = some id ∧ id ∈ d.registry.listed ∧
    d.registry.isKicked id = false

/-- **Only admitted clients type.** -/
def Guarded (d : Door cap) : DoorAct → Prop
  | .data i b _ => Forwards d i b → Admitted d i
  | _ => True

/-- The last request of the connection `i` that has passed the limit has been followed by no close
and by no end of a command, and its client has not been kicked. -/
def History.Seated (h : History) (i : ℕ) : Prop := ∃ k, h.last i = some k ∧ k.client ∉ h.kicked

instance (h : History) (i : ℕ) : Decidable (h.Seated i) :=
  match hk : h.last i with
  | none => .isFalse fun ⟨_, hk', _⟩ => nomatch hk.symm.trans hk'
  | some k => decidable_of_iff (k.client ∉ h.kicked) (by simp [History.Seated, hk])

/-- Data of a connection that has been let in come only while it is seated. -/
def InTurn (h : History) : DoorAct → Prop
  | .data i _ _ => h.letIn i = true → h.Seated i
  | _ => True

instance (h : History) : (a : DoorAct) → Decidable (InTurn h a)
  | .data i _ _ => inferInstanceAs (Decidable (h.letIn i = true → h.Seated i))
  | .accept _ | .auth _ _ _ | .shell _ _ | .exec _ _ _ | .attach _ | .inputSent _ _
  | .subscribe _ | .eof _ _ | .close _ _ | .disconnect _ | .kick _ | .task _ _ | .push _
  | .forward | .system _ | .shutdown => .isTrue trivial

/-! ### Every data callback -/

section Data

variable {h : History} {d t : Door cap} {i : ℕ} {b : Bytes} {taken : Bool}

/-- A connection types exactly if it has been let in. -/
theorem forwards_iff (ha : Agrees h d) (hs : doorStep d (.data i b taken) = some t) :
    Forwards d i b ↔ h.letIn i = true := by
  obtain ⟨c, hc, -⟩ := doorStep_data hs
  obtain ⟨hi, -, -⟩ := Door.idleConn_some hc
  rw [← (ha.handlers.agree hi).letIn]
  constructor
  · rintro ⟨u, hu, htyped⟩
    obtain ⟨c', hc', ⟨-, rfl⟩ | ⟨he, -⟩⟩ := doorStep_data hu
    · exact absurd htyped (by simp)
    · rw [hc, Option.some_inj] at hc'
      exact hc' ▸ he
  · intro he
    obtain ⟨e, he⟩ := Option.isSome_iff_exists.1 he
    have hu : ∃ u, doorStep d (.data i b true) = some u :=
      ⟨_, by simp only [doorStep, hc, he]; rfl⟩
    obtain ⟨u, hu⟩ := hu
    obtain ⟨c', hc', ⟨hno, -⟩ | ⟨-, rfl⟩⟩ := doorStep_data hu
    · rw [hc, Option.some_inj] at hc'
      rw [← hc', he] at hno
      cases hno
    · exact ⟨_, hu, rfl⟩

/-- A connection has an admitted client exactly if it is seated. -/
theorem admitted_iff (ha : Agrees h d) (hs : doorStep d (.data i b taken) = some t) :
    Admitted d i ↔ h.Seated i := by
  obtain ⟨c, hc, -⟩ := doorStep_data hs
  obtain ⟨hi, -, -⟩ := Door.idleConn_some hc
  have hclient := (ha.handlers.agree hi).client
  constructor
  · rintro ⟨c', id, hi', hid, -, hkick⟩
    obtain rfl : c = c' := Option.some_inj.1 (hi.symm.trans hi')
    obtain ⟨k, hk, rfl⟩ := Option.map_eq_some_iff.1 (hclient.symm.trans hid)
    refine ⟨k, hk, fun hmem => ?_⟩
    rw [(ha.seats.kicked hk).2 hmem] at hkick
    cases hkick
  · rintro ⟨k, hk, hnot⟩
    refine ⟨c, k.client, hi, by rw [hclient, hk]; rfl, ha.seats.listed hk, ?_⟩
    exact Bool.eq_false_iff.2 fun hkick => hnot ((ha.seats.kicked hk).1 hkick)

theorem guarded_iff {a : DoorAct} (ha : Agrees h d) (hs : doorStep d a = some t) :
    Guarded d a ↔ InTurn h a := by
  cases a with
  | data i b taken =>
      simp only [Guarded, InTurn]
      rw [forwards_iff ha hs, admitted_iff ha hs]
  | _ => exact Iff.rfl

end Data

/-- **Only admitted clients type, exactly if all data come in turn**: in every run of a door, each
data callback forwards its bytes only for an admitted client if and only if each data callback of a
connection that has been let in comes while the connection is seated. -/
theorem typing_guarded_iff {mgr : SessionMgr} {maxClients : ℕ} {as : List DoorAct} {t : Door cap}
    (hr : exec doorStep (Door.new cap mgr maxClients) as = some t) :
    Meets (toldStep mgr) (fun p => Guarded p.2) (freshDoor cap mgr maxClients) as ↔
      Meets (toldStep mgr) (fun p => InTurn p.1) (freshDoor cap mgr maxClients) as := by
  refine meets_iff_meets (I := Told mgr) (fun p a q hp _ hs => hp.step hs) ?_
    (told_fresh mgr maxClients) (exec_told hr)
  intro p a q hp hs
  exact guarded_iff hp.agrees (traced_eq_some.1 hs).2

/-- A client that logs in, gets a shell, types and leaves. -/
theorem typing_guarded_iff_leaving :
    Meets (toldStep createdMgr) (fun p => Guarded p.2) (freshDoor 4 createdMgr 16)
      leavingClient := by
  obtain ⟨t, ht⟩ : ∃ t, exec doorStep (Door.new 4 createdMgr 16) leavingClient = some t :=
    ⟨_, rfl⟩
  exact (typing_guarded_iff ht).2 (by decide)

/-- A client that logs in to a full session and asks for a shell. -/
def refusedClient : List DoorAct :=
  [.accept "10.0.0.9:50000", .auth 0 "admin" "pass", .shell 0 0]

/-- **A client that has been turned away types all the same**: the session is full, and its input
reaches the hub. -/
theorem refused_client_types :
    ¬ ∀ (mgr : SessionMgr) (maxClients : ℕ) (as : List DoorAct) (t : Door 4),
      exec doorStep (Door.new 4 mgr maxClients) as = some t →
      Meets (toldStep mgr) (fun p => Guarded p.2) (freshDoor 4 mgr maxClients) as := by
  intro h
  obtain ⟨d, u, hd, hu, htyped, hnone⟩ : ∃ d u,
      exec doorStep (Door.new 4 createdMgr 0) refusedClient = some d ∧
      doorStep d (.data 0 [108, 115, 13] true) = some u ∧
      u.typed = d.typed ++ [(0, [108, 115, 13])] ∧
      (d.conns[0]?).bind (fun c => c.handler.clientRec) = none := ⟨_, _, rfl, rfl, rfl, rfl⟩
  have ht : exec doorStep (Door.new 4 createdMgr 0)
      (refusedClient ++ [.data 0 [108, 115, 13] true]) = some u := by
    rw [exec_append, hd, Option.bind_some, exec_cons_some hu, exec_nil]
  have hg := (h createdMgr 0 _ u ht).at (exec_told hd)
  obtain ⟨c, id, hc, hid, -⟩ := hg ⟨u, hu, htyped⟩
  rw [hc, Option.bind_some, hid] at hnone
  cases hnone

end Sshd

end TermHub
