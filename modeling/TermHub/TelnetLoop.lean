/-
**The loop of the Telnet driver at work.**

`TelnetDriver::run` writes the replies to what it has read, and its escaped input, with `write_all`,
which may be suspended or fail in the middle; and it waits for room in the event channel before it
reads on.  What the other modules say of the driver turn by turn is carried over to every moment of
its loop.

Main results:

* `Telnet.Shown.step` — a turn decodes what it reads, whatever is written in between;
* `telnet_loop_transparent` — **the loop is transparent in both directions** at every moment.
-/

import TermHub.DriverLoops
import TermHub.RunLoopOutput
import TermHub.TelnetOutbound

set_option relaxedAutoImplicit false
set_option autoImplicit false

namespace TermHub

namespace Telnet

open Resumable Transition
open Runner (Bytes)

/-! ### The data of a run -/

/-- The driver has shown the data of what has been read, up to its tail. -/
structure Shown (as : List TelnetAct) (d : TelnetDriver) : Prop where
  tail : d.tail = (body.readAll (inbound as)).2
  outputs : d.outputs.flatten = (body.readAll (inbound as)).1.flatMap Prod.fst

theorem Shown.nil : Shown [] TelnetDriver.new := ⟨rfl, rfl⟩

theorem Shown.step {as : List TelnetAct} {d e : TelnetDriver} {a : TelnetAct} (h : Shown as d)
    (hs : d.step a = some e) : Shown (as ++ [a]) e := by
  cases a with
  | input b =>
      obtain rfl := Option.some_inj.1 hs
      have hin : inbound (as ++ [.input b]) = inbound as := by simp [inbound]
      exact ⟨hin ▸ h.tail, hin ▸ h.outputs⟩
  | read bytes =>
      have hin : inbound (as ++ [.read bytes]) = inbound as ++ bytes := by simp [inbound]
      have hne : bytes ≠ [] := by
        rintro rfl
        cases hs
      have hall := body_stable.readAll_append (inbound as) bytes
      rw [← h.tail] at hall
      simp only [TelnetDriver.step, readArm_eq d hne, Except.toOption, Option.some_inj] at hs
      subst hs
      constructor
      · rw [hin, hall]
      · rw [hin, hall, flatten_outputs, h.outputs, List.flatMap_append]

end Telnet

namespace Upstream

open Duplex Transition Resumable Runner Telnet

/-! ### The two streams of the loop -/

theorem inbound_act (ts : List (Turn (Except String Bytes))) :
    inbound (ts.flatMap Turn.act) = (reads ts).flatten := by
  induction ts with
  | nil => rfl
  | cons t ts ih =>
      change inbound (t.act ++ ts.flatMap Turn.act) = (t.streamed ++ reads ts).flatten
      rw [inbound, List.flatMap_append, ← inbound, ← inbound, ih, List.flatten_append]
      congr 1
      rcases t with (e | bytes) | b
      · rfl
      · simp [Turn.act, Turn.streamed, inbound]
      · rfl

theorem inputs_act (ts : List (Turn (Except String Bytes))) :
    Telnet.inputs (ts.flatMap Turn.act) = inputs ts := by
  induction ts with
  | nil => rfl
  | cons t ts ih =>
      change Telnet.inputs (t.act ++ ts.flatMap Turn.act) = t.taken ++ inputs ts
      rw [Telnet.inputs, List.filterMap_append, ← Telnet.inputs, ← Telnet.inputs, ih]
      congr 1
      rcases t with (e | bytes) | b
      · rfl
      · rfl
      · rfl

/-- **The loop of the Telnet driver is transparent in both directions**, at every moment of every
run, in the middle of a write and after a failure: what it has sent and has still to send are the
data of what it has read, and the tail it keeps is the rest; and what it has written and has still
to write can be read back as its input, and as its replies to what it has read. -/
theorem telnet_loop_transparent {s : telnetDevice.Run} (h : Reachable telnet.step Run.init s) :
    (outputs (s.sent ++ sends s.todo)).flatten =
        (body.readAll (reads s.turns).flatten).1.flatMap Prod.fst ∧
      (∀ tail, s.phase = .running tail → tail = (body.readAll (reads s.turns).flatten).2) ∧
      ∃ blocks, body.sliced.Reads (s.written ++ words s.todo) blocks ∧
        payload blocks = (inputs s.turns).flatten ∧
        commands blocks = replies (reads s.turns).flatten := by
  cases Machine.Accounts.of_reachable h with
  | idle hp hok ht hu hw hs =>
      rw [ht, hu, hw, hs]
      exact ⟨rfl, fun tail hrun => absurd hrun (hp tail), [], Reader.Reads.nil, rfl, rfl⟩
  | busy ha hp hm hw hs =>
      obtain ⟨d, hd, rfl, hsends, hwords⟩ := telnet_refines ha
      have hshown : Shown _ d := exec_invariant Shown.nil (fun _ _ _ _ h hs => h.step hs) hd
      have hsent : Sent _ d := exec_invariant Sent.nil (fun _ _ _ _ h hs => h.step hs) hd
      obtain ⟨blocks, hreads, hdata, hcommands⟩ := hsent.written
      rw [inbound_act] at hcommands
      rw [inputs_act] at hdata
      refine ⟨?_, fun tail hrun => ?_, blocks, ?_, hdata, hcommands⟩
      · rw [hs, hsends, outputs_connected, outputs_map_output, hshown.outputs, inbound_act]
      · rw [hm tail hrun, hshown.tail, inbound_act]
      · rw [hw, hwords]
        exact hreads

/-- The reply to an offer is on its way when a chunk of input is taken. -/
def offered : List telnetDevice.Act :=
  [.opened (.ok ()), .send, .turn (.read (.ok [97, IAC])), .write 0, .send,
    .turn (.read (.ok [WILL, 1])), .write 3, .turn (.input [IAC]), .write 1]

theorem telnet_loop_offered : ∃ s : telnetDevice.Run, exec telnet.step Run.init offered = some s ∧
    s.written = [IAC, DONT, 1, IAC] ∧
    (outputs (s.sent ++ sends s.todo)).flatten =
      (body.readAll (reads s.turns).flatten).1.flatMap Prod.fst := by
  have hrun : ∃ s : telnetDevice.Run, exec telnet.step Run.init offered = some s ∧
      s.written = [IAC, DONT, 1, IAC] := ⟨_, rfl, rfl⟩
  obtain ⟨s, hs, hwritten⟩ := hrun
  exact ⟨s, hs, hwritten, (telnet_loop_transparent (reachable_of_exec hs)).1⟩

end Upstream

end TermHub
