/-
**What the Telnet driver sends.**

The write arm escapes the chunks of input, and the read arm puts its replies between them.  What is
written is read back block by block, with the command and the data of each block.

Main definitions:

* `inputs`, `inbound` — what a run has taken from the user, and from the socket;
* `replies` — the replies of the driver to a stream;
* `Block`, `commands` — the blocks of a stream, and those that are commands.

Main results:

* `body_reply` — what a reply of the driver is;
* `Sent.step` — a turn of the driver sends what can be read back;
* `outbound_transparent` — **the outbound stream is transparent**.
-/

import TermHub.TelnetFormat
import TermHub.Transition

set_option relaxedAutoImplicit false
set_option autoImplicit false

namespace TermHub

namespace Telnet

open Resumable Transition
open Runner (Bytes)

/-! ### The two streams of a run -/

/-- The chunks of input that a run has taken. -/
def inputs (as : List TelnetAct) : List Bytes :=
  as.filterMap fun
    | .input b => some b
    | .read _ => none

/-- What a run has read from the socket. -/
def inbound (as : List TelnetAct) : Bytes :=
  as.flatMap fun
    | .read bytes => bytes
    | .input _ => []

/-- The replies among some rounds of the loop. -/
def repliesOf (rounds : List (Bytes × Bytes)) : List Bytes :=
  (rounds.map Prod.snd).filter fun reply => !reply.isEmpty

/-- The replies of the driver to a stream. -/
def replies (s : Bytes) : List Bytes := repliesOf (body.readAll s).1

/-- A block of a stream, its data and the reply to it. -/
abbrev Block := Bytes × Bytes × Bytes

/-- The blocks that are no data. -/
def commands (blocks : List Block) : List Bytes :=
  (blocks.filter fun x => x.2.1.isEmpty).map Prod.fst

/-- The data of the blocks. -/
def payload (blocks : List Block) : Bytes := blocks.flatMap fun x => x.2.1

theorem repliesOf_append (xs ys : List (Bytes × Bytes)) :
    repliesOf (xs ++ ys) = repliesOf xs ++ repliesOf ys := by
  simp [repliesOf]

theorem commands_append (xs ys : List Block) :
    commands (xs ++ ys) = commands xs ++ commands ys := by
  simp [commands]

theorem payload_append (xs ys : List Block) : payload (xs ++ ys) = payload xs ++ payload ys :=
  List.flatMap_append

/-! ### The blocks that the driver sends -/

theorem body_negotiation (n : Negotiation) : body n.encode = some (3, [], n.reply) :=
  body_iac (processIacBlock_negotiation n)

/-- A reply of the driver is a negotiation. -/
theorem simple3_reply {s : Bytes} {code : UInt8} {n : ℕ} {w : Bytes} (h : simple3 s code = (n, w)) :
    w = [] ∨ ∃ option, w = [IAC, code, option] := by
  unfold simple3 at h
  split at h
  · exact .inr ⟨_, (Prod.mk.inj h).2.symm⟩
  · exact .inl (Prod.mk.inj h).2.symm

theorem findSe_reply (s : Bytes) (i : ℕ) : (findSe i s).2 = [] := by
  induction s generalizing i with
  | nil => rfl
  | cons a s ih =>
      cases s with
      | nil => rfl
      | cons b s =>
          rw [findSe]
          split
          · rfl
          · exact ih (i + 1)

theorem processIacBlock_reply {s : Bytes} {n : ℕ} {w : Bytes} (h : processIacBlock s = (n, w)) :
    w = [] ∨ ∃ m : Negotiation, w = m.encode := by
  have hthree : ∀ verb : Verb, simple3 s verb.code = (n, w) →
      w = [] ∨ ∃ m : Negotiation, w = m.encode := by
    intro verb hv
    rcases simple3_reply hv with hw | ⟨option, hw⟩
    · exact .inl hw
    · exact .inr ⟨⟨verb, option⟩, hw⟩
  match s with
  | [] | [_] => exact .inl (Prod.mk.inj h).2.symm
  | a :: verb :: rest =>
      simp only [processIacBlock] at h
      split_ifs at h
      · exact .inl (Prod.mk.inj h).2.symm
      · exact .inl (Prod.mk.inj h).2.symm
      · exact hthree .wont h
      · exact hthree .wont h
      · exact hthree .dont h
      · exact hthree .dont h
      · have hend := findSe_reply rest 2
        rw [h] at hend
        exact .inl hend
      · exact .inl (Prod.mk.inj h).2.symm

/-- **What a reply of the driver is**: nothing, or a negotiation. -/
theorem body_reply {s : Bytes} {n : ℕ} {data w : Bytes} (h : body s = some (n, data, w)) :
    w = [] ∨ ∃ m : Negotiation, w = m.encode := by
  cases s with
  | nil => cases h
  | cons b rest =>
      by_cases hb : b = IAC
      · subst hb
        obtain ⟨m, v, hp⟩ : ∃ m v, processIacBlock (IAC :: rest) = (m, v) := ⟨_, _, rfl⟩
        rw [body_iac hp] at h
        obtain ⟨-, hx⟩ := Option.ite_none_left_eq_some.1 h
        obtain ⟨-, -, rfl⟩ : m = n ∧ _ = data ∧ v = w := by simpa using hx
        exact processIacBlock_reply hp
      · simp only [body, if_neg hb, Option.some_inj, Prod.mk.injEq] at h
        exact .inl h.2.2.symm

/-! ### A run of the driver -/

/-- The blocks that a chunk of input is sent as. -/
def inputBlocks (b : Bytes) : List Block := b.map fun byte => (escape [byte], [byte], [])

/-- The block that a reply is sent as. -/
def replyBlocks (w : Bytes) : List Block :=
  if w = [] then [] else [(w, [], (processIacBlock w).2)]

theorem reads_input (b : Bytes) : body.sliced.Reads (escape b) (inputBlocks b) := by
  have hone : ∀ byte, body.sliced.Reads (escape [byte]) [(escape [byte], [byte], [])] := by
    intro byte
    refine body_stable.sliced.reads_one (Reader.sliced_eq_some.2 ⟨?_, List.take_length.symm⟩)
    by_cases hb : byte = IAC
    · subst hb
      rfl
    · rw [escape_of_ne hb]
      simp [body, hb]
  have hb : escape b = b.flatMap fun byte => escape [byte] := by simp [escape]
  have hblocks : inputBlocks b = b.flatMap fun byte => [(escape [byte], [byte], [])] := by
    rw [inputBlocks, List.map_eq_flatMap]
  rw [hb, hblocks]
  exact Reader.Reads.flatMap hone b

theorem reads_reply {s : Bytes} {n : ℕ} {data w : Bytes} (h : body s = some (n, data, w)) :
    body.sliced.Reads w (replyBlocks w) := by
  rcases body_reply h with rfl | ⟨m, rfl⟩
  · exact Reader.Reads.nil
  · have hblock : body.sliced m.encode = some (m.encode.length, m.encode, [], m.reply) :=
      Reader.sliced_eq_some.2 ⟨body_negotiation m, rfl⟩
    have hne : m.encode ≠ [] := List.cons_ne_nil _ _
    have hblocks : replyBlocks m.encode = [(m.encode, [], m.reply)] := by
      rw [replyBlocks, if_neg hne, processIacBlock_negotiation]
    rw [hblocks]
    exact body_stable.sliced.reads_one hblock

/-- The replies of some rounds, and what they are read back as. -/
theorem reads_replies (s : Bytes) : body.sliced.Reads ((body.readAll s).1.flatMap Prod.snd)
    ((body.readAll s).1.flatMap fun x => replyBlocks x.2) := by
  have hall : ∀ xs : List (Bytes × Bytes), (∀ x ∈ xs, ∃ t n, body t = some (n, x)) →
      body.sliced.Reads (xs.flatMap Prod.snd) (xs.flatMap fun x => replyBlocks x.2) := by
    intro xs
    induction xs with
    | nil => exact fun _ => Reader.Reads.nil
    | cons x xs ih =>
        intro hxs
        obtain ⟨t, n, ht⟩ := hxs x List.mem_cons_self
        exact (reads_reply ht).append (ih fun y hy => hxs y (List.mem_cons_of_mem x hy))
  exact hall _ fun x hx => Reader.mem_readAll hx

theorem commands_inputBlocks (b : Bytes) : commands (inputBlocks b) = [] := by
  simp [commands, inputBlocks]

theorem payload_inputBlocks (b : Bytes) : payload (inputBlocks b) = b := by
  simp [payload, inputBlocks, List.flatMap_map]

theorem commands_replyBlocks (xs : List (Bytes × Bytes)) :
    commands (xs.flatMap fun x => replyBlocks x.2) = repliesOf xs := by
  induction xs with
  | nil => rfl
  | cons x xs ih =>
      rw [List.flatMap_cons, commands_append, ih]
      cases hx : x.2 <;> simp [repliesOf, replyBlocks, commands, hx]

theorem payload_replyBlocks (xs : List (Bytes × Bytes)) :
    payload (xs.flatMap fun x => replyBlocks x.2) = [] := by
  induction xs with
  | nil => rfl
  | cons x xs ih =>
      rw [List.flatMap_cons, payload_append, ih]
      cases hx : x.2 <;> simp [replyBlocks, payload]

/-- What the driver has written can be read back: the data is the input, and the commands are the
replies to what has been read. -/
structure Sent (as : List TelnetAct) (d : TelnetDriver) : Prop where
  tail : d.tail = (body.readAll (inbound as)).2
  written : ∃ blocks, body.sliced.Reads d.written blocks ∧ payload blocks = (inputs as).flatten ∧
    commands blocks = replies (inbound as)

theorem Sent.nil : Sent [] TelnetDriver.new := ⟨rfl, [], Reader.Reads.nil, rfl, rfl⟩

/-- **A turn of the driver sends what can be read back.** -/
theorem Sent.step {as : List TelnetAct} {d e : TelnetDriver} {a : TelnetAct} (h : Sent as d)
    (hs : d.step a = some e) : Sent (as ++ [a]) e := by
  obtain ⟨blocks, hreads, hdata, hcommands⟩ := h.written
  cases a with
  | input b =>
      obtain rfl := Option.some_inj.1 hs
      have hin : inbound (as ++ [.input b]) = inbound as := by simp [inbound]
      refine ⟨h.tail.trans (by rw [hin]), blocks ++ inputBlocks b, hreads.append (reads_input b),
        ?_, ?_⟩
      · rw [payload_append, hdata, payload_inputBlocks]
        simp [inputs]
      · rw [commands_append, hcommands, commands_inputBlocks, hin, List.append_nil]
  | read bytes =>
      have hin : inbound (as ++ [.read bytes]) = inbound as ++ bytes := by simp [inbound]
      have hinputs : inputs (as ++ [.read bytes]) = inputs as := by simp [inputs]
      have hne : bytes ≠ [] := by
        rintro rfl
        cases hs
      have hall := body_stable.readAll_append (inbound as) bytes
      rw [← h.tail] at hall
      simp only [TelnetDriver.step, readArm_eq d hne, Except.toOption, Option.some_inj] at hs
      subst hs
      refine ⟨by rw [hin, hall], _, hreads.append (reads_replies (d.tail ++ bytes)), ?_, ?_⟩
      · rw [payload_append, payload_replyBlocks, hdata, hinputs, List.append_nil]
      · rw [commands_append, commands_replyBlocks, hcommands, hin, replies, replies, hall,
          repliesOf_append]

/-- **The outbound stream is transparent**: whatever the socket and the user send and in whatever
order, and however the bytes written are cut into reads, they decode to the chunks of input, the
commands among them are the replies of the driver, and nothing is left over. -/
theorem outbound_transparent (as : List TelnetAct) (d : TelnetDriver)
    (hrun : exec TelnetDriver.step TelnetDriver.new as = some d) (pieces : List Bytes)
    (hne : ∀ p ∈ pieces, p ≠ []) (hcut : pieces.flatten = d.written) :
    ∃ e, pieces.foldlM readArm TelnetDriver.new = .ok e ∧
      e.outputs.flatten = (inputs as).flatten ∧ e.tail = [] ∧
      let blocks := pieces.foldl body.sliced.feed ([], [])
      commands blocks.1 = replies (inbound as) ∧ blocks.2 = [] := by
  have hsent : Sent as d := exec_invariant Sent.nil (fun _ _ _ _ h hs => h.step hs) hrun
  obtain ⟨blocks, hreads, hdata, hcommands⟩ := hsent.written
  obtain ⟨e, he, hmade⟩ := reads_made pieces hne
  have hfeed : pieces.foldl body.sliced.feed ([], []) = (blocks, []) := by
    have hfold := body_stable.sliced.foldl_feed pieces (rfl : body.sliced ([], []).2 = none)
    simpa only [List.nil_append, hcut, hreads.readAll] using hfold
  rw [hcut, Reader.readAll_sliced, hreads.readAll] at hmade
  refine ⟨e, he, ?_, hmade.tail, ?_⟩
  · rw [hmade.outputs, ← hdata, List.flatMap_map]
    rfl
  · dsimp only
    rw [hfeed]
    exact ⟨hcommands, rfl⟩

/-- A chunk with an `0xFF` at its edge, an offer with the option `0xFF`, and another chunk. -/
theorem outbound_transparent_offer :
    ∃ d, exec TelnetDriver.step TelnetDriver.new
        [.input [97, IAC], .read [98, IAC, WILL], .input [], .read [IAC], .input [SE]] = some d ∧
      ∃ e, [[97, IAC, IAC, IAC], [DONT], [IAC, SE]].foldlM readArm TelnetDriver.new = .ok e ∧
        e.outputs.flatten = [97, IAC, SE] ∧ e.tail = [] := by
  refine ⟨_, rfl, ?_⟩
  obtain ⟨e, he, hout, htail, -⟩ := outbound_transparent
    [.input [97, IAC], .read [98, IAC, WILL], .input [], .read [IAC], .input [SE]] _ rfl
    [[97, IAC, IAC, IAC], [DONT], [IAC, SE]] (by decide) (by decide)
  exact ⟨e, he, hout, htail⟩

end Telnet

end TermHub
