/-
**The Telnet driver.**

`termhub-drivers/src/telnet.rs`: `process_iac_block` and the two working arms of
`TelnetDriver::run`.  The socket and the event channel take what they are given; what is kept of the
driver is the tail that could not be decoded yet, the `Output` events and the bytes written to the
socket.

Main definitions:

* `processIacBlock`, `simple3` — the reply to a command;
* `body`, `loop` — the loop over `tail`;
* `readArm`, `writeArm` — the read arm and the write arm;
* `TelnetDriver.step` — a turn of the driver.

Main results:

* `body_stable` — later input does not change how a command is read;
* `loop_eq_items` — the loop reads items one by one;
* `decoding_independent` — **decoding does not depend on the boundaries of the reads**.
-/

import TermHub.Resumable
import TermHub.RunLoop

set_option relaxedAutoImplicit false
set_option autoImplicit false

namespace TermHub

namespace Telnet

open Resumable
open Runner (Bytes DriverError)

def IAC : UInt8 := 0xFF
def DONT : UInt8 := 0xFE
def DO : UInt8 := 0xFD
def WONT : UInt8 := 0xFC
def WILL : UInt8 := 0xFB
def SB : UInt8 := 0xFA
def SE : UInt8 := 0xF0

/-! ### Commands -/

/-- `simple3`: refuse the option of a negotiation. -/
def simple3 (input : Bytes) (replyVerb : UInt8) : ℕ × Bytes :=
  match input with
  | _ :: _ :: option :: _ => (3, [IAC, replyVerb, option])
  | _ => (0, [])

/-- The loop that looks for the end of a subnegotiation, from `input[i..]` on. -/
def findSe (i : ℕ) : Bytes → ℕ × Bytes
  | a :: b :: rest => if a = IAC ∧ b = SE then (i + 2, []) else findSe (i + 1) (b :: rest)
  | _ => (0, [])

/-- `process_iac_block`: how much of the input the command takes, and the reply. -/
def processIacBlock (input : Bytes) : ℕ × Bytes :=
  match input with
  | a :: verb :: rest =>
    if a ≠ IAC then (0, [])
    else if verb = IAC then (2, [])
    else if verb = DO then simple3 input WONT
    else if verb = DONT then simple3 input WONT
    else if verb = WILL then simple3 input DONT
    else if verb = WONT then simple3 input DONT
    else if verb = SB then findSe 2 rest
    else (2, [])
  | _ => (0, [])

/-! ### The read arm -/

/-- One round of the loop at `tail[i..]`: how far it goes, what it adds to `data_out`, and what it
writes to the socket.  Without a value the loop is left. -/
def body : Reader UInt8 (Bytes × Bytes)
  | [] => none
  | b :: rest =>
    if b = IAC then
      match processIacBlock (b :: rest) with
      | (0, _) => none
      | (consumed, reply) =>
        some (consumed, if consumed = 2 ∧ rest.head? = some IAC then [0xFF] else [], reply)
    else some (1, [b], [])

/-- The variables of the loop; `written` is what it has written to the socket. -/
structure Loop where
  i : ℕ
  dataOut : Bytes
  written : Bytes
  deriving DecidableEq, Repr

/-- At most `fuel` rounds of the loop. -/
def loop (tail : Bytes) : ℕ → Loop → Loop
  | 0, l => l
  | fuel + 1, l =>
    match body (tail.drop l.i) with
    | some (consumed, data, reply) =>
      loop tail fuel ⟨l.i + consumed, l.dataOut ++ data, l.written ++ reply⟩
    | none => l

/-- What `run` keeps: the tail, the `Output` events and the bytes written to the socket. -/
structure TelnetDriver where
  tail : Bytes
  outputs : List Bytes
  written : Bytes
  deriving DecidableEq, Repr

/-- The driver after it has connected. -/
def TelnetDriver.new : TelnetDriver := ⟨[], [], []⟩

/-- The read arm. -/
def readArm (d : TelnetDriver) (read : Bytes) : Except DriverError TelnetDriver :=
  if read = [] then .error (.ioLost "telnet EOF")
  else
    let tail := d.tail ++ read
    let l := loop tail tail.length ⟨0, [], []⟩
    .ok { tail := tail.drop l.i
          outputs := if l.dataOut = [] then d.outputs else d.outputs ++ [l.dataOut]
          written := d.written ++ l.written }

/-! ### The write arm -/

/-- The loop of the write arm doubles every `IAC`. -/
def escape (b : Bytes) : Bytes := b.flatMap fun byte => if byte = IAC then [IAC, IAC] else [byte]

/-- The write arm. -/
def writeArm (d : TelnetDriver) (b : Bytes) : TelnetDriver :=
  { d with written := d.written ++ escape b }

/-- What `select!` can choose, apart from what ends the run: the socket or the input. -/
inductive TelnetAct
  | read (bytes : Bytes)
  | input (b : Bytes)
  deriving DecidableEq, Repr

/-- A turn of the driver; it has returned after an error. -/
def TelnetDriver.step (d : TelnetDriver) : TelnetAct → Option TelnetDriver
  | .read bytes => (readArm d bytes).toOption
  | .input b => some (writeArm d b)

@[simp] theorem escape_nil : escape [] = [] := rfl

theorem escape_cons (b : UInt8) (s : Bytes) :
    escape (b :: s) = (if b = IAC then [IAC, IAC] else [b]) ++ escape s := rfl

theorem escape_iac (s : Bytes) : escape (IAC :: s) = IAC :: IAC :: escape s := rfl

theorem escape_of_ne {b : UInt8} (hb : b ≠ IAC) (s : Bytes) : escape (b :: s) = b :: escape s := by
  rw [escape_cons, if_neg hb]
  rfl

/-! ### Later input does not change a command -/

theorem findSe_stable {s : Bytes} {i n : ℕ} {w : Bytes} (h : findSe i s = (n, w)) (hn : n ≠ 0)
    (t : Bytes) : findSe i (s ++ t) = (n, w) ∧ i < n ∧ n ≤ i + s.length := by
  induction s generalizing i with
  | nil =>
      obtain ⟨rfl, -⟩ := Prod.mk.inj h
      exact absurd rfl hn
  | cons a s ih =>
      cases s with
      | nil =>
          obtain ⟨rfl, -⟩ := Prod.mk.inj h
          exact absurd rfl hn
      | cons b s =>
          -- the block ends with these two bytes, or its end is looked for one byte further on
          rw [List.cons_append, List.cons_append, findSe]
          rw [findSe] at h
          split at h
          · rename_i hend
            obtain ⟨rfl, rfl⟩ := Prod.mk.inj h
            rw [if_pos hend]
            refine ⟨rfl, by omega, ?_⟩
            simp only [List.length_cons]
            omega
          · rename_i hend
            obtain ⟨hs, hlt, hle⟩ := ih h
            rw [if_neg hend]
            refine ⟨hs, by omega, ?_⟩
            simp only [List.length_cons] at hle ⊢
            omega

theorem simple3_stable {s : Bytes} {verb : UInt8} {n : ℕ} {w : Bytes}
    (h : simple3 s verb = (n, w)) (hn : n ≠ 0) (t : Bytes) :
    simple3 (s ++ t) verb = (n, w) ∧ n ≤ s.length := by
  unfold simple3 at h
  split at h
  · obtain ⟨rfl, rfl⟩ := Prod.mk.inj h
    refine ⟨rfl, ?_⟩
    simp only [List.length_cons]
    omega
  · obtain ⟨rfl, -⟩ := Prod.mk.inj h
    exact absurd rfl hn

/-- **Later input does not change the reply to a command.** -/
theorem processIacBlock_stable {s : Bytes} {n : ℕ} {w : Bytes} (h : processIacBlock s = (n, w))
    (hn : n ≠ 0) (t : Bytes) : processIacBlock (s ++ t) = (n, w) ∧ n ≤ s.length := by
  match s with
  | [] | [_] =>
      obtain ⟨rfl, -⟩ := Prod.mk.inj h
      exact absurd rfl hn
  | a :: verb :: rest =>
      have hthree : ∀ v, simple3 (a :: verb :: rest) v = (n, w) →
          simple3 (a :: verb :: (rest ++ t)) v = (n, w) ∧ n ≤ (a :: verb :: rest).length :=
        fun v hv => simple3_stable hv hn t
      -- a command of two bytes is answered by nothing
      have htwo : (2, []) = (n, w) → (2, []) = (n, w) ∧ n ≤ (a :: verb :: rest).length := by
        intro h2
        obtain ⟨rfl, -⟩ := Prod.mk.inj h2
        refine ⟨h2, ?_⟩
        simp only [List.length_cons]
        omega
      have hend : findSe 2 rest = (n, w) →
          findSe 2 (rest ++ t) = (n, w) ∧ n ≤ (a :: verb :: rest).length := by
        intro hf
        obtain ⟨hs, -, hle⟩ := findSe_stable hf hn t
        refine ⟨hs, ?_⟩
        simp only [List.length_cons]
        omega
      rw [List.cons_append, List.cons_append]
      simp only [processIacBlock] at h ⊢
      -- the code goes the same way for both inputs
      split_ifs at h ⊢
      · obtain ⟨rfl, -⟩ := Prod.mk.inj h
        exact absurd rfl hn
      · exact htwo h
      · exact hthree _ h
      · exact hthree _ h
      · exact hthree _ h
      · exact hthree _ h
      · exact hend h
      · exact htwo h

/-- A round of the loop at a command. -/
theorem body_iac {rest : Bytes} {n : ℕ} {w : Bytes} (h : processIacBlock (IAC :: rest) = (n, w)) :
    body (IAC :: rest) = if n = 0 then none
      else some (n, if n = 2 ∧ rest.head? = some IAC then [0xFF] else [], w) := by
  simp only [body, if_pos, h]
  cases n with
  | zero => rfl
  | succ n => rfl

/-- What a round of the loop takes, it takes whatever comes later. -/
theorem body_append {s : Bytes} {n : ℕ} {x : Bytes × Bytes} (h : body s = some (n, x)) (t : Bytes) :
    body (s ++ t) = some (n, x) ∧ 0 < n ∧ n ≤ s.length := by
  cases s with
  | nil => cases h
  | cons b rest =>
      rw [List.cons_append]
      by_cases hb : b = IAC
      · subst hb
        obtain ⟨m, w, hp⟩ : ∃ m w, processIacBlock (IAC :: rest) = (m, w) := ⟨_, _, rfl⟩
        rw [body_iac hp] at h
        split at h
        · cases h
        · rename_i hm
          obtain ⟨rfl, rfl⟩ := Prod.mk.inj (Option.some_inj.1 h)
          obtain ⟨hp', hle⟩ := processIacBlock_stable hp hm t
          rw [List.cons_append] at hp'
          rw [body_iac hp', if_neg hm]
          refine ⟨?_, Nat.pos_of_ne_zero hm, hle⟩
          cases rest with
          | nil =>
              -- the command would be one byte long
              have hne : m ≠ 2 := by
                rintro rfl
                simp at hle
              simp [hne]
          | cons c rest => rfl
      · simp only [body, if_neg hb, Option.some_inj, Prod.mk.injEq] at h ⊢
        obtain ⟨rfl, rfl⟩ := h
        simp

/-- **One round of the loop is a stable reader.** -/
theorem body_stable : Reader.Stable body where
  pos h := (body_append h []).2.1
  le h := (body_append h []).2.2
  append h t := (body_append h t).1

/-! ### The loop reads items one by one -/

/-- **The loop over `tail`** collects what the items from `tail[i..]` on stand for. -/
theorem loop_eq_items (tail : Bytes) (fuel : ℕ) (l : Loop) :
    let x := body.items fuel (tail.drop l.i)
    tail.drop (loop tail fuel l).i = x.2 ∧
      (loop tail fuel l).dataOut = l.dataOut ++ x.1.flatMap Prod.fst ∧
      (loop tail fuel l).written = l.written ++ x.1.flatMap Prod.snd := by
  induction fuel generalizing l with
  | zero => simp [loop, Reader.items]
  | succ fuel ih =>
      unfold loop
      cases h : body (tail.drop l.i) with
      | none => simp [Reader.items_none h]
      | some x =>
          obtain ⟨consumed, data, reply⟩ := x
          obtain ⟨hi, hd, hw⟩ := ih ⟨l.i + consumed, l.dataOut ++ data, l.written ++ reply⟩
          rw [← List.drop_drop] at hi hd hw
          simp only [Reader.items_some h, List.flatMap_cons, ← List.append_assoc]
          exact ⟨hi, hd, hw⟩

/-- The read arm, item by item. -/
theorem readArm_eq (d : TelnetDriver) {read : Bytes} (hne : read ≠ []) :
    let x := body.readAll (d.tail ++ read)
    readArm d read = .ok
      { tail := x.2
        outputs := if x.1.flatMap Prod.fst = [] then d.outputs
          else d.outputs ++ [x.1.flatMap Prod.fst]
        written := d.written ++ x.1.flatMap Prod.snd } := by
  obtain ⟨hi, hd, hw⟩ := loop_eq_items (d.tail ++ read) (d.tail ++ read).length ⟨0, [], []⟩
  simp only [List.drop_zero, List.nil_append] at hi hd hw
  unfold readArm
  rw [if_neg hne]
  dsimp only
  rw [hi, hd, hw]
  rfl

/-! ### The boundaries of the reads -/

/-- What the driver has made of a list of items. -/
structure TelnetDriver.Made (d : TelnetDriver) (x : List (Bytes × Bytes) × Bytes) : Prop where
  tail : d.tail = x.2
  outputs : d.outputs.flatten = x.1.flatMap Prod.fst
  written : d.written = x.1.flatMap Prod.snd

/-- An `Output` event is sent unless there is nothing to send. -/
theorem flatten_outputs (outputs : List Bytes) (data : Bytes) :
    (if data = [] then outputs else outputs ++ [data]).flatten = outputs.flatten ++ data := by
  split
  · rename_i hnone
    rw [hnone, List.append_nil]
  · rw [List.flatten_append, List.flatten_singleton]

/-- A read reads the items of the next piece. -/
theorem readArm_made {d : TelnetDriver} {x : List (Bytes × Bytes) × Bytes} (h : d.Made x)
    {read : Bytes} (hne : read ≠ []) :
    ∃ e, readArm d read = .ok e ∧ e.Made (body.feed x read) := by
  refine ⟨_, readArm_eq d hne, ?_⟩
  constructor <;> simp only [Reader.feed, ← h.tail, List.flatMap_append]
  · rw [flatten_outputs, h.outputs]
  · rw [h.written]

/-- Reads that are not empty read the items of the whole stream. -/
theorem reads_made (reads : List Bytes) (hne : ∀ r ∈ reads, r ≠ []) :
    ∃ d, reads.foldlM readArm TelnetDriver.new = .ok d ∧ d.Made (body.readAll reads.flatten) := by
  have hrun : ∀ (reads : List Bytes) (d : TelnetDriver) (x : List (Bytes × Bytes) × Bytes),
      (∀ r ∈ reads, r ≠ []) → d.Made x →
      ∃ e, reads.foldlM readArm d = .ok e ∧ e.Made (reads.foldl body.feed x) := by
    -- the driver and the list of items it has made grow together, from any state of both
    intro reads
    induction reads with
    | nil => exact fun d x _ hd => ⟨d, rfl, hd⟩
    | cons r reads ih =>
        intro d x hne hd
        obtain ⟨e, he, hmade⟩ := readArm_made hd (hne r List.mem_cons_self)
        obtain ⟨f, hf, hmade'⟩ := ih e _ (fun r hr => hne r (List.mem_cons_of_mem _ hr)) hmade
        refine ⟨f, ?_, hmade'⟩
        rw [List.foldlM_cons, he]
        exact hf
  obtain ⟨d, hd, hmade⟩ := hrun reads TelnetDriver.new ([], []) hne ⟨rfl, rfl, rfl⟩
  refine ⟨d, hd, ?_⟩
  rw [body_stable.foldl_feed reads rfl] at hmade
  exact hmade

/-- **Decoding does not depend on the boundaries of the reads**: two ways of cutting a stream give
the same output, the same replies and the same tail, those of one read of the whole stream. -/
theorem decoding_independent (reads reads' : List Bytes) (hne : ∀ r ∈ reads, r ≠ [])
    (hne' : ∀ r ∈ reads', r ≠ []) (hsame : reads.flatten = reads'.flatten) :
    ∃ d d', reads.foldlM readArm TelnetDriver.new = .ok d ∧
      reads'.foldlM readArm TelnetDriver.new = .ok d' ∧
      d.outputs.flatten = d'.outputs.flatten ∧ d.written = d'.written ∧ d.tail = d'.tail ∧
      (reads.flatten ≠ [] → ∃ e, readArm TelnetDriver.new reads.flatten = .ok e ∧
        d.outputs.flatten = e.outputs.flatten ∧ d.written = e.written ∧ d.tail = e.tail) := by
  obtain ⟨d, hd, hmade⟩ := reads_made reads hne
  obtain ⟨d', hd', hmade'⟩ := reads_made reads' hne'
  rw [← hsame] at hmade'
  refine ⟨d, d', hd, hd', ?_, ?_, ?_, fun hall => ?_⟩
  · rw [hmade.outputs, hmade'.outputs]
  · rw [hmade.written, hmade'.written]
  · rw [hmade.tail, hmade'.tail]
  · obtain ⟨e, he, hmadee⟩ := readArm_made (d := TelnetDriver.new) (x := ([], [])) ⟨rfl, rfl, rfl⟩
      hall
    refine ⟨e, he, ?_, ?_, ?_⟩
    · rw [hmade.outputs, hmadee.outputs]
      rfl
    · rw [hmade.written, hmadee.written]
      rfl
    · rw [hmade.tail, hmadee.tail]
      rfl

/-- A text with a negotiation, a subnegotiation and a doubled `0xFF`, cut within each of them. -/
theorem decoding_independent_cut :
    ∃ d d', [[97, IAC], [WILL], [1, IAC, SB, 24], [IAC], [SE, IAC], [IAC, 98, IAC]].foldlM readArm
        TelnetDriver.new = .ok d ∧
      [[97, IAC, WILL, 1, IAC, SB, 24, IAC, SE, IAC, IAC, 98, IAC]].foldlM readArm
        TelnetDriver.new = .ok d' ∧
      d.outputs.flatten = d'.outputs.flatten ∧ d.written = d'.written ∧ d.tail = d'.tail := by
  obtain ⟨d, d', hd, hd', hout, hwritten, htail, -⟩ := decoding_independent
    [[97, IAC], [WILL], [1, IAC, SB, 24], [IAC], [SE, IAC], [IAC, 98, IAC]]
    [[97, IAC, WILL, 1, IAC, SB, 24, IAC, SE, IAC, IAC, 98, IAC]]
    (by decide) (by decide) rfl
  exact ⟨d, d', hd, hd', hout, hwritten, htail⟩

example : ([[97, IAC], [WILL], [1, IAC]].foldlM readArm TelnetDriver.new).toOption =
    some ⟨[IAC], [[97]], [IAC, DONT, 1]⟩ := by decide

end Telnet

end TermHub
