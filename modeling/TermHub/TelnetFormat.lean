/-
**Telnet items and how the driver reads them.**

A Telnet stream is a list of items: data bytes, negotiations, other commands of two bytes, and
subnegotiations whose payload is escaped as the data is.  The driver looks for the end of a
subnegotiation with `findSe`, which takes the first `IAC SE` it meets, also one whose `IAC` is the
second half of an escaped `0xFF` of the payload.

Main definitions:

* `Item`, `Item.encode` — the format;
* `leak` — what stands behind the first `0xFF 0xF0` of a payload;
* `Decoded` — what the driver should make of a list of items.

Main results:

* `Item.reads` — what the driver makes of an item;
* `decoded_iff` — **decoding is correct exactly if no payload goes on behind `0xFF 0xF0`**.
-/

import Mathlib.Data.List.Forall2
import TermHub.Telnet

set_option relaxedAutoImplicit false
set_option autoImplicit false

namespace TermHub

namespace Telnet

open Resumable
open Runner (Bytes)

/-! ### The format -/

/-- The verb of a negotiation. -/
inductive Verb
  | will | wont | do' | dont
  deriving DecidableEq, Repr

def Verb.code : Verb → UInt8
  | will => WILL
  | wont => WONT
  | do' => DO
  | dont => DONT

/-- A negotiation. -/
structure Negotiation where
  verb : Verb
  option : UInt8
  deriving DecidableEq, Repr

def Negotiation.encode (n : Negotiation) : Bytes := [IAC, n.verb.code, n.option]

/-- A command that stands alone behind `IAC`: it opens neither a negotiation nor a subnegotiation,
and it is not the other half of an escaped `0xFF`. -/
structure Command where
  code : UInt8
  two : code ∉ [IAC, DO, DONT, WILL, WONT, SB]
  deriving DecidableEq, Repr

/-- The items of a Telnet stream. -/
inductive Item
  | data (b : UInt8)
  | negotiation (n : Negotiation)
  | command (c : Command)
  | sub (payload : Bytes)
  deriving DecidableEq, Repr

namespace Item

/-- How an item is sent. -/
def encode : Item → Bytes
  | data b => escape [b]
  | negotiation n => n.encode
  | command c => [IAC, c.code]
  | sub payload => IAC :: SB :: (escape payload ++ [IAC, SE])

/-- The data of an item. -/
def bytes : Item → Bytes
  | data b => [b]
  | _ => []

/-- The refusals of a negotiation: an offer and a request are refused, a refusal of the other side
may be acknowledged. -/
def Answers : Item → Bytes → Prop
  | negotiation ⟨.will, option⟩, w => w = [IAC, DONT, option]
  | negotiation ⟨.do', option⟩, w => w = [IAC, WONT, option]
  | negotiation ⟨.wont, option⟩, w => w = [] ∨ w = [IAC, DONT, option]
  | negotiation ⟨.dont, option⟩, w => w = [] ∨ w = [IAC, WONT, option]
  | _, w => w = []

end Item

/-- What the driver should make of a list of items: the data in order, nothing left, and an answer
to every negotiation. -/
def Decoded (items : List Item) (d : TelnetDriver) : Prop :=
  d.outputs.flatten = items.flatMap Item.bytes ∧ d.tail = [] ∧
    ∃ replies : List Bytes, List.Forall₂ Item.Answers items replies ∧ d.written = replies.flatten

/-! ### What the driver makes of an item -/

/-- The reply of the driver to a negotiation. -/
def Negotiation.reply (n : Negotiation) : Bytes :=
  match n.verb with
  | .will | .wont => [IAC, DONT, n.option]
  | .do' | .dont => [IAC, WONT, n.option]

theorem processIacBlock_negotiation (n : Negotiation) :
    processIacBlock n.encode = (3, n.reply) := by
  obtain ⟨verb, option⟩ := n
  cases verb <;> rfl

theorem processIacBlock_command (c : Command) : processIacBlock [IAC, c.code] = (2, []) := by
  have htwo := c.two
  simp only [List.mem_cons, List.not_mem_nil, or_false, not_or] at htwo
  obtain ⟨hiac, hdo, hdont, hwill, hwont, hsb⟩ := htwo
  simp only [processIacBlock, ne_eq, not_true, if_false, hiac, hdo, hdont, hwill, hwont, hsb]

/-- What stands behind the first `0xFF 0xF0` of a payload. -/
def leak : Bytes → Option Bytes
  | [] => none
  | a :: s => if a = IAC ∧ s.head? = some SE then some s.tail else leak s

/-- What the driver leaves of a subnegotiation when it takes it to be over. -/
def behind (payload : Bytes) : Bytes :=
  match leak payload with
  | some rest => escape rest ++ [IAC, SE]
  | none => []

theorem findSe_of_ne {a : UInt8} (ha : a ≠ IAC) (i : ℕ) (s : Bytes) :
    findSe i (a :: s) = findSe (i + 1) s := by
  cases s with
  | nil => rfl
  | cons b s => rw [findSe, if_neg (fun h => ha h.1)]

theorem findSe_iac {s : Bytes} (hs : s.head? ≠ some SE) (i : ℕ) :
    findSe i (IAC :: s) = findSe (i + 1) s := by
  cases s with
  | nil => rfl
  | cons b s => rw [findSe, if_neg (fun h => hs (congrArg some h.2))]

theorem findSe_end (i : ℕ) (t : Bytes) : findSe i (IAC :: SE :: t) = (i + 2, []) :=
  if_pos ⟨rfl, rfl⟩

theorem leak_iac {s : Bytes} (hs : s.head? ≠ some SE) : leak (IAC :: s) = leak s :=
  if_neg fun h => hs h.2

theorem leak_of_ne {a : UInt8} (ha : a ≠ IAC) (s : Bytes) : leak (a :: s) = leak s :=
  if_neg fun h => ha h.1

/-- The first byte of a payload that does not start with `SE` is not `SE`, nor is what follows. -/
theorem head_escape {s : Bytes} (hs : s.head? ≠ some SE) (t : Bytes) :
    (escape s ++ IAC :: t).head? ≠ some SE := by
  cases s with
  | nil => simp [IAC, SE]
  | cons a s =>
      by_cases ha : a = IAC
      · subst ha
        rw [escape_iac]
        simp [IAC, SE]
      · rw [escape_of_ne ha]
        exact hs

/-- **Where the driver takes a subnegotiation to end.** -/
theorem findSe_escape (payload : Bytes) (i : ℕ) (t : Bytes) :
    ∃ q, escape payload ++ [IAC, SE] = q ++ behind payload ∧
      findSe i (escape payload ++ IAC :: SE :: t) = (i + q.length, []) := by
  induction payload generalizing i with
  | nil => exact ⟨[IAC, SE], rfl, findSe_end i t⟩
  | cons a s ih =>
      by_cases ha : a = IAC
      · subst ha
        by_cases hs : s.head? = some SE
        · -- the second half of the escaped byte and `SE` are taken for the end
          obtain ⟨rest, rfl⟩ : ∃ rest, s = SE :: rest := List.head?_eq_some_iff.1 hs
          refine ⟨[IAC, IAC, SE], rfl, ?_⟩
          exact (findSe_iac (by simp [IAC, SE]) i).trans (findSe_end (i + 1) _)
        · obtain ⟨q, hq, hf⟩ := ih (i + 2)
          refine ⟨IAC :: IAC :: q, ?_, ?_⟩
          · rw [escape_iac, List.cons_append, List.cons_append, hq, behind, behind, leak_iac hs]
            rfl
          · rw [escape_iac, List.cons_append, List.cons_append,
              findSe_iac (by simp [IAC, SE]), findSe_iac (head_escape hs _), hf]
            exact Prod.ext (Nat.add_right_comm i 2 q.length) rfl
      · obtain ⟨q, hq, hf⟩ := ih (i + 1)
        refine ⟨a :: q, ?_, ?_⟩
        · rw [escape_of_ne ha, List.cons_append, hq, behind, behind, leak_of_ne ha]
          rfl
        · rw [escape_of_ne ha, List.cons_append, findSe_of_ne ha, hf]
          exact Prod.ext (Nat.add_right_comm i 1 q.length) rfl

/-- What the driver makes of what it leaves of a subnegotiation: data, and a command. -/
def roundsBehind (payload : Bytes) : List (Bytes × Bytes) :=
  match leak payload with
  | some rest => rest.flatMap (fun b => [([b], [])]) ++ [([], [])]
  | none => []

/-- What the driver makes of an item: the data it hands on and the replies, one round of its loop
after the other. -/
def Item.rounds : Item → List (Bytes × Bytes)
  | data b => [([b], [])]
  | negotiation n => [([], n.reply)]
  | command _ => [([], [])]
  | sub payload => ([], []) :: roundsBehind payload

theorem reads_data (b : UInt8) : body.Reads (escape [b]) [([b], [])] := by
  refine body_stable.reads_one ?_
  by_cases hb : b = IAC
  · subst hb
    rfl
  · rw [escape_of_ne hb]
    simp [body, hb]

theorem reads_escape (s : Bytes) : body.Reads (escape s) (s.flatMap fun b => [([b], [])]) := by
  have hs : escape s = s.flatMap fun b => escape [b] := by simp [escape]
  rw [hs]
  exact Reader.Reads.flatMap reads_data s

/-- A command of two bytes. -/
theorem body_command (c : Command) : body [IAC, c.code] = some (2, [], []) := by
  have hne : c.code ≠ IAC := fun h => c.two (by simp [h])
  rw [body_iac (processIacBlock_command c)]
  simp [hne]

theorem reads_command (c : Command) : body.Reads [IAC, c.code] [([], [])] :=
  body_stable.reads_one (body_command c)

theorem reads_behind (payload : Bytes) : body.Reads (behind payload) (roundsBehind payload) := by
  unfold behind roundsBehind
  cases leak payload with
  | none => exact Reader.Reads.nil
  | some rest => exact (reads_escape rest).append (reads_command ⟨SE, by decide⟩)

/-- **What the driver makes of an item**, wherever it meets it. -/
theorem Item.reads (x : Item) : body.Reads x.encode x.rounds := by
  cases x with
  | data b => exact reads_data b
  | negotiation n =>
      refine body_stable.reads_one ?_
      exact body_iac (processIacBlock_negotiation n)
  | command c => exact reads_command c
  | sub payload =>
      obtain ⟨q, hq, hf⟩ := findSe_escape payload 2 []
      have hbody : body (IAC :: SB :: (escape payload ++ [IAC, SE])) =
          some (2 + q.length, [], []) := by
        have hp : processIacBlock (IAC :: SB :: (escape payload ++ [IAC, SE])) =
            (2 + q.length, []) := hf
        rw [body_iac hp]
        simp [SB, IAC]
      have hdrop : (IAC :: SB :: (escape payload ++ [IAC, SE])).drop (2 + q.length) =
          behind payload := by
        rw [hq, Nat.add_comm]
        exact List.drop_left
      exact body_stable.reads_cons hbody hdrop (reads_behind payload)

/-! ### Decoding a list of items -/

namespace Item

/-- The reply of the driver to an item. -/
def reply : Item → Bytes
  | negotiation n => n.reply
  | _ => []

/-- What the driver hands on of an item that is not data. -/
def leaked : Item → Bytes
  | sub payload => (leak payload).getD []
  | _ => []

theorem answers_reply (x : Item) : x.Answers x.reply := by
  cases x with
  | negotiation n =>
      obtain ⟨verb, option⟩ := n
      cases verb with
      | will | do' => exact rfl
      | wont | dont => exact .inr rfl
  | data | command | sub => exact rfl

/-- What a data byte of what is left of a subnegotiation adds up to. -/
theorem flatMap_fst_data (s : Bytes) :
    (s.flatMap fun b => [([b], ([] : Bytes))]).flatMap Prod.fst = s := by
  induction s with
  | nil => rfl
  | cons b s ih => exact congrArg (List.cons b) ih

theorem flatMap_snd_data (s : Bytes) :
    (s.flatMap fun b => [([b], ([] : Bytes))]).flatMap Prod.snd = [] := by
  induction s with
  | nil => rfl
  | cons b s ih => exact ih

theorem rounds_fst (x : Item) : x.rounds.flatMap Prod.fst = x.bytes ++ x.leaked := by
  cases x with
  | sub payload =>
      simp only [rounds, bytes, leaked, roundsBehind]
      cases leak payload with
      | none => rfl
      | some rest => simp [flatMap_fst_data]
  | data | negotiation | command => rfl

theorem rounds_snd (x : Item) : x.rounds.flatMap Prod.snd = x.reply := by
  cases x with
  | sub payload =>
      simp only [rounds, reply, roundsBehind]
      cases leak payload with
      | none => rfl
      | some rest => simp [flatMap_snd_data]
  | negotiation n => exact List.append_nil n.reply
  | data | command => rfl

end Item

/-- **When a payload leaks**: when it goes on behind `0xFF 0xF0`. -/
theorem leak_eq_nil (payload : Bytes) :
    (leak payload).getD [] = [] ↔ ∀ b, ¬ [IAC, SE, b] <:+: payload := by
  induction payload with
  | nil => simp [leak]
  | cons a s ih =>
      simp only [List.infix_cons_iff, not_or, forall_and, ← ih]
      by_cases h : a = IAC ∧ s.head? = some SE
      · obtain ⟨rfl, hs⟩ := h
        obtain ⟨rest, rfl⟩ : ∃ rest, s = SE :: rest := List.head?_eq_some_iff.1 hs
        cases rest with
        | nil => simp [leak, List.cons_prefix_cons, IAC, SE]
        | cons b rest => simp [leak, List.cons_prefix_cons]
      · -- the payload does not start with the two bytes
        have hstart : ∀ b, ¬ [IAC, SE, b] <+: a :: s := by
          intro b hb
          obtain ⟨ha, hs⟩ := List.cons_prefix_cons.1 hb
          obtain ⟨t, rfl⟩ := hs
          exact h ⟨ha.symm, rfl⟩
        rw [leak, if_neg h]
        exact ⟨fun hl => ⟨hstart, hl⟩, And.right⟩

/-- Data is added to the data of some items exactly if there is any to add. -/
theorem flatMap_leaked (items : List Item) :
    (items.flatMap fun x => x.bytes ++ x.leaked) = items.flatMap Item.bytes ↔
      ∀ x ∈ items, x.leaked = [] := by
  have hlen : (items.flatMap fun x => x.bytes ++ x.leaked).length =
      (items.flatMap Item.bytes).length + (items.flatMap Item.leaked).length := by
    induction items with
    | nil => rfl
    | cons x items ih =>
        simp only [List.flatMap_cons, List.length_append, ih]
        omega
  constructor
  · intro h
    rw [h] at hlen
    have hnone : items.flatMap Item.leaked = [] := List.length_eq_zero_iff.1 (by omega)
    exact List.flatMap_eq_nil_iff.1 hnone
  · intro h
    refine List.flatMap_congr fun x hx => ?_
    rw [h x hx, List.append_nil]

/-- **Decoding is correct exactly if no payload goes on behind `0xFF 0xF0`**, however the stream is
cut into reads. -/
theorem decoded_iff (items : List Item) (reads : List Bytes) (hne : ∀ r ∈ reads, r ≠ [])
    (hstream : reads.flatten = items.flatMap Item.encode) :
    ∃ d, reads.foldlM readArm TelnetDriver.new = .ok d ∧
      (Decoded items d ↔
        ∀ payload, Item.sub payload ∈ items → ∀ b, ¬ [IAC, SE, b] <:+: payload) := by
  obtain ⟨d, hd, hmade⟩ := reads_made reads hne
  rw [hstream, (Reader.Reads.flatMap Item.reads items).readAll] at hmade
  have hout : d.outputs.flatten = items.flatMap fun x => x.bytes ++ x.leaked := by
    rw [hmade.outputs, List.flatMap_assoc]
    exact List.flatMap_congr fun x _ => x.rounds_fst
  have hwritten : d.written = (items.map Item.reply).flatten := by
    rw [hmade.written, List.flatMap_assoc, ← List.flatMap_def]
    exact List.flatMap_congr fun x _ => x.rounds_snd
  have hanswers : List.Forall₂ Item.Answers items (items.map Item.reply) :=
    List.forall₂_map_right_iff.2 (List.forall₂_same.2 fun x _ => x.answers_reply)
  have hleaked : (∀ x ∈ items, x.leaked = []) ↔
      ∀ payload, Item.sub payload ∈ items → ∀ b, ¬ [IAC, SE, b] <:+: payload := by
    constructor
    · exact fun h payload hp => (leak_eq_nil payload).1 (h _ hp)
    · intro h x hx
      cases x with
      | sub payload => exact (leak_eq_nil payload).2 (h payload hx)
      | data | negotiation | command => rfl
  refine ⟨d, hd, ?_⟩
  rw [← hleaked, ← flatMap_leaked, ← hout]
  exact ⟨And.left, fun h => ⟨h, hmade.tail, _, hanswers, hwritten⟩⟩

/-- Data, an offer, and a subnegotiation whose payload ends with `0xFF`, cut within the payload. -/
theorem decoded_cut : ∃ d, [[97, IAC, WILL, IAC, IAC, SB, 24], [IAC, IAC, IAC, SE, 98]].foldlM
      readArm TelnetDriver.new = .ok d ∧
    Decoded [.data 97, .negotiation ⟨.will, IAC⟩, .sub [24, IAC], .data 98] d := by
  obtain ⟨d, hd, hiff⟩ := decoded_iff
    [.data 97, .negotiation ⟨.will, IAC⟩, .sub [24, IAC], .data 98]
    [[97, IAC, WILL, IAC, IAC, SB, 24], [IAC, IAC, IAC, SE, 98]] (by decide) (by decide)
  refine ⟨d, hd, hiff.2 fun payload hp => ?_⟩
  obtain rfl : payload = [24, IAC] := by simpa using hp
  exact (leak_eq_nil [24, IAC]).1 rfl

/-- **A byte of a payload is handed on as data**: the payload is `0xFF 0xF0 A`. -/
theorem decoding_leaks : ¬ ∀ (items : List Item) (reads : List Bytes), (∀ r ∈ reads, r ≠ []) →
    reads.flatten = items.flatMap Item.encode →
    ∃ d, reads.foldlM readArm TelnetDriver.new = .ok d ∧ Decoded items d := by
  intro h
  obtain ⟨d, hd, hdec⟩ := h [.sub [IAC, SE, 65]] [[IAC, SB, IAC, IAC, SE, 65, IAC, SE]]
    (by decide) (by decide)
  have hrun : [[IAC, SB, IAC, IAC, SE, 65, IAC, SE]].foldlM readArm TelnetDriver.new =
      .ok ⟨[], [[65]], []⟩ := rfl
  obtain rfl := Except.ok.inj (hrun.symm.trans hd)
  exact absurd hdec.1 (by decide)

end Telnet

end TermHub
