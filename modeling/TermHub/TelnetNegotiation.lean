/-
**Two drivers negotiate.**

Neither of them ever enables an option, and each answers what the other sends with
`process_iac_block`.  A refusal is answered as an offer or a request is, so every delivery puts
another command into flight.

Main definitions:

* `Flight`, `deliver` — the commands in flight between two endpoints, and the delivery of one;
* `IsRefusal` — a block that refuses an option.

Main results:

* `deliver_inFlight` — a delivery replaces a negotiation by its answer;
* `quiesces_iff` — **the negotiation comes to an end exactly if nothing is in flight**, and a
  refusal is left unanswered exactly if none arrives.
-/

import Mathlib.Data.List.InsertIdx
import TermHub.TelnetFormat
import TermHub.Transition

set_option relaxedAutoImplicit false
set_option autoImplicit false

namespace TermHub

namespace Telnet

open Resumable Transition
open Runner (Bytes)

/-! ### Commands in flight -/

/-- The two endpoints. -/
inductive Side
  | near | far
  deriving DecidableEq, Repr

def Side.peer : Side → Side
  | near => far
  | far => near

/-- The commands in flight, each with the endpoint it is for. -/
abbrev Flight := List (Side × Bytes)

/-- The command at position `i` arrives, and the endpoint sends its reply. -/
def deliver (fl : Flight) (i : ℕ) : Option Flight :=
  match fl[i]? with
  | some (side, command) =>
    let reply := (processIacBlock command).2
    some (fl.eraseIdx i ++ if reply = [] then [] else [(side.peer, reply)])
  | none => none

/-- Negotiations in flight. -/
def inFlight (cs : List (Side × Negotiation)) : Flight := cs.map fun c => (c.1, c.2.encode)

/-- The negotiation that the driver answers with. -/
def Negotiation.answer (n : Negotiation) : Negotiation :=
  match n.verb with
  | .will | .wont => ⟨.dont, n.option⟩
  | .do' | .dont => ⟨.wont, n.option⟩

theorem Negotiation.encode_answer (n : Negotiation) : n.answer.encode = n.reply := by
  obtain ⟨verb, option⟩ := n
  cases verb <;> rfl

/-- **A delivery replaces a negotiation by its answer.** -/
theorem deliver_inFlight {cs : List (Side × Negotiation)} {i : ℕ} {side : Side} {n : Negotiation}
    (h : cs[i]? = some (side, n)) :
    deliver (inFlight cs) i = some (inFlight (cs.eraseIdx i ++ [(side.peer, n.answer)])) := by
  have hi : (inFlight cs)[i]? = some (side, n.encode) := by simp [inFlight, h]
  have hreply : n.answer.encode ≠ [] := List.cons_ne_nil _ _
  unfold deliver
  rw [hi]
  simp only [processIacBlock_negotiation, ← n.encode_answer, if_neg hreply]
  rw [inFlight, inFlight, List.map_append, List.eraseIdx_map]
  rfl

/-- The deliveries come to an end exactly if there is nothing to deliver. -/
theorem halts_inFlight (cs : List (Side × Negotiation)) :
    Halts deliver (inFlight cs) ↔ cs = [] := by
  constructor
  · intro h
    by_contra hne
    refine not_halts (I := fun fl => ∃ ds : List (Side × Negotiation), ds ≠ [] ∧ fl = inFlight ds)
      ?_ ⟨cs, hne, rfl⟩ h
    -- the first command is delivered again and again
    rintro fl ⟨ds, hds, rfl⟩
    obtain ⟨⟨side, n⟩, ds, rfl⟩ := List.exists_cons_of_ne_nil hds
    exact ⟨0, _, deliver_inFlight rfl, _, List.append_ne_nil_of_right_ne_nil _ (by simp), rfl⟩
  · rintro rfl
    exact halts_of_stuck fun i => rfl

/-! ### Answers to refusals -/

/-- The block refuses an option. -/
def IsRefusal (block : Bytes) : Prop :=
  ∃ option, block = [IAC, WONT, option] ∨ block = [IAC, DONT, option]

/-- The driver answers every refusal. -/
theorem reply_of_isRefusal {s : Bytes} {x : Bytes × Bytes × Bytes}
    (h : x ∈ (body.sliced.readAll s).1) (hr : IsRefusal x.1) : x.2.2 ≠ [] := by
  obtain ⟨t, n, ht⟩ := Reader.mem_readAll h
  obtain ⟨hbody, hx⟩ := Reader.sliced_eq_some.1 ht
  -- the three bytes of the block are what the input starts with
  have hstart : x.1 ++ t.drop n = t := by rw [hx, List.take_append_drop]
  rw [← hstart] at hbody
  obtain ⟨option, hr | hr⟩ := hr
  · rw [hr] at hbody
    rw [← (Prod.mk.inj (Option.some_inj.1 hbody)).2]
    exact List.cons_ne_nil _ _
  · rw [hr] at hbody
    rw [← (Prod.mk.inj (Option.some_inj.1 hbody)).2]
    exact List.cons_ne_nil _ _

/-- **The negotiation comes to an end exactly if nothing is in flight**, and a stream is read
without an answer to a refusal exactly if there is no refusal in it. -/
theorem quiesces_iff (cs : List (Side × Negotiation)) (reads : List Bytes)
    (hne : ∀ r ∈ reads, r ≠ []) :
    (Halts deliver (inFlight cs) ↔ cs = []) ∧
    ∃ d, reads.foldlM readArm TelnetDriver.new = .ok d ∧
      let blocks := (body.sliced.readAll reads.flatten).1
      d.written = blocks.flatMap (fun x => x.2.2) ∧
      ((∀ x ∈ blocks, IsRefusal x.1 → x.2.2 = []) ↔ ∀ x ∈ blocks, ¬ IsRefusal x.1) := by
  obtain ⟨d, hd, hmade⟩ := reads_made reads hne
  rw [Reader.readAll_sliced] at hmade
  refine ⟨halts_inFlight cs, d, hd, ?_, ?_⟩
  · rw [hmade.written, List.flatMap_map]
  · exact ⟨fun h x hx hr => reply_of_isRefusal hx hr (h x hx hr), fun h x hx hr => (h x hx hr).elim⟩

/-- Nothing in flight, and a stream with an offer but no refusal. -/
theorem quiesces_offer : Halts deliver (inFlight []) ∧
    ∃ d, [[97, IAC], [WILL, 1]].foldlM readArm TelnetDriver.new = .ok d ∧
      d.written = [IAC, DONT, 1] := by
  obtain ⟨hhalts, d, hd, hwritten, -⟩ := quiesces_iff [] [[97, IAC], [WILL, 1]] (by decide)
  exact ⟨hhalts.2 rfl, d, hd, hwritten⟩

/-- **One offer is enough for an endless exchange.** -/
theorem negotiation_endless :
    ¬ ∀ cs : List (Side × Negotiation), Halts deliver (inFlight cs) := fun h =>
  List.cons_ne_nil _ _ ((halts_inFlight [(.near, ⟨.will, 1⟩)]).1 (h _))

end Telnet

end TermHub
