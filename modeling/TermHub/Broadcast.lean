/-
**A broadcast channel: a ring of fixed capacity with one cursor per receiver.**

Every value that is sent gets the next position and is stored in the slot `position % cap`, over the
value that was sent `cap` positions before.  A receiver reads the slot at its cursor.  If the slot
holds a later position, the receiver has lagged: it is told so and goes on at the oldest value that
is kept.  Nobody waits for a receiver.

Main definitions:

* `Broadcast.Channel`, `send`, `subscribe`, `unsubscribe`, `recv` — the ring;
* `Broadcast.Channel.Holds` — the ring holds the last values of a log;
* `Broadcast.take` — what a receiver gets from the values it has not read yet;
* `Broadcast.Marked` — a delivery that is complete except for gaps, each of them marked, and each
  of them of values that the ring no longer held.

Main results:

* `Channel.Holds.send` — the ring after a send;
* `Channel.Holds.recv` — **the ring refines the log**: what a receiver gets depends on the values
  sent since its cursor and on nothing else;
* `Marked.take` — taking keeps a delivery marked;
* `Marked.complete` — a delivery without a mark is complete.
-/

import Mathlib.Data.Fin.Basic
import Mathlib.Data.List.Basic
import Mathlib.Logic.Function.Basic
import Mathlib.Tactic.Ring

set_option relaxedAutoImplicit false
set_option autoImplicit false

namespace Broadcast

variable {α : Type*} {cap : ℕ}

/-! ### The ring -/

/-- A channel: the next position, the slots with the position and the value last stored in each,
and the number of receivers. -/
structure Channel (α : Type*) (cap : ℕ) where
  pos : ℕ
  slot : Fin cap → Option (ℕ × α)
  rxCount : ℕ

/-- What a receiver gets. -/
inductive Recv (α : Type*)
  | value (x : α)
  | lagged (missed : ℕ)
  | empty
  deriving DecidableEq, Repr

namespace Channel

/-- A channel to which nothing has been sent. -/
def new (α : Type*) (cap : ℕ) : Channel α cap := ⟨0, fun _ => none, 0⟩

/-- A new receiver, whose cursor is the next position. -/
def subscribe (c : Channel α cap) : ℕ × Channel α cap :=
  (c.pos, { c with rxCount := c.rxCount + 1 })

/-- A receiver is dropped. -/
def unsubscribe (c : Channel α cap) : Channel α cap := { c with rxCount := c.rxCount - 1 }

variable [NeZero cap]

/-- Send a value; without receivers it is dropped. -/
def send (c : Channel α cap) (x : α) : Channel α cap :=
  if c.rxCount = 0 then c
  else { c with
    pos := c.pos + 1
    slot := Function.update c.slot (Fin.ofNat cap c.pos) (some (c.pos, x)) }

/-- What a receiver gets, and its cursor after that. -/
def recv (c : Channel α cap) (next : ℕ) : Recv α × ℕ :=
  match c.slot (Fin.ofNat cap next) with
  | some (p, x) =>
    if p = next then (.value x, next + 1)
    else if p + cap = next then (.empty, next)
    else (.lagged (c.pos - cap - next), c.pos - cap)
  | none => (.empty, next)

/-! ### The ring and the log -/

/-- The ring holds the last `cap` values of the log of all values sent. -/
structure Holds (c : Channel α cap) (log : List α) : Prop where
  pos : c.pos = log.length
  slot : ∀ i p x, c.slot i = some (p, x) ↔
    log.length ≤ p + cap ∧ Fin.ofNat cap p = i ∧ log[p]? = some x

end Channel

theorem ofNat_eq_iff [NeZero cap] {p q : ℕ} :
    Fin.ofNat cap p = Fin.ofNat cap q ↔ p % cap = q % cap := by
  simp [Fin.ext_iff]

/-- Two positions of one slot that are less than a round apart are the same. -/
theorem eq_of_mod_eq {p q : ℕ} (h : p % cap = q % cap) (hpq : p ≤ q) (hq : q < p + cap) :
    p = q := by
  have hd : (q - p) % cap = 0 := Nat.sub_mod_eq_zero_of_mod_eq h.symm
  rw [Nat.mod_eq_of_lt (by omega)] at hd
  omega

namespace Channel

variable [NeZero cap]

theorem Holds.new : (Channel.new α cap).Holds [] :=
  ⟨rfl, fun i p x => by simp [Channel.new]⟩

theorem Holds.subscribe {c : Channel α cap} {log : List α} (h : c.Holds log) :
    c.subscribe.2.Holds log := ⟨h.pos, h.slot⟩

theorem Holds.unsubscribe {c : Channel α cap} {log : List α} (h : c.Holds log) :
    c.unsubscribe.Holds log := ⟨h.pos, h.slot⟩

/-- **The ring after a send**, while there is a receiver. -/
theorem Holds.send {c : Channel α cap} {log : List α} (h : c.Holds log) (hrx : c.rxCount ≠ 0)
    (x : α) : (c.send x).Holds (log ++ [x]) := by
  unfold Channel.send
  rw [if_neg hrx]
  refine ⟨by simp [h.pos], fun i p y => ?_⟩
  dsimp only
  rw [h.pos, List.length_append, List.length_singleton]
  by_cases hi : i = Fin.ofNat cap log.length
  · -- the slot of the new value
    rw [hi, Function.update_self]
    constructor
    · intro hp
      cases hp
      have hcap : 0 < cap := Nat.pos_of_ne_zero (NeZero.ne cap)
      exact ⟨by omega, rfl, by simp⟩
    · rintro ⟨hle, hslot, hp⟩
      have hlt : p < (log ++ [x]).length := (List.getElem?_eq_some_iff.1 hp).1
      rw [List.length_append, List.length_singleton] at hlt
      obtain rfl : p = log.length := eq_of_mod_eq (ofNat_eq_iff.1 hslot) (by omega) (by omega)
      rw [List.getElem?_concat_length, Option.some_inj] at hp
      rw [hp]
  · -- the other slots keep what they have, which is not out of date yet
    rw [Function.update_of_ne hi, h.slot]
    constructor
    · rintro ⟨hle, rfl, hp⟩
      have hne : p + cap ≠ log.length := by
        intro he
        exact hi (ofNat_eq_iff.2 (by rw [← he, Nat.add_mod_right]))
      refine ⟨by omega, rfl, ?_⟩
      rw [List.getElem?_append_left (List.getElem?_eq_some_iff.1 hp).1, hp]
    · rintro ⟨hle, rfl, hp⟩
      have hlt : p < (log ++ [x]).length := (List.getElem?_eq_some_iff.1 hp).1
      rw [List.length_append, List.length_singleton] at hlt
      have hne : p ≠ log.length := fun he => hi (by rw [he])
      rw [List.getElem?_append_left (by omega)] at hp
      exact ⟨by omega, rfl, hp⟩

/-- A slot that has been written once holds a value of the last round. -/
theorem Holds.slot_of_lt {c : Channel α cap} {log : List α} (h : c.Holds log) {next : ℕ}
    (hlt : next < log.length) : ∃ p x, c.slot (Fin.ofNat cap next) = some (p, x) ∧
      next ≤ p ∧ p < log.length ∧ log.length ≤ p + cap := by
  have hcap : 0 < cap := Nat.pos_of_ne_zero (NeZero.ne cap)
  -- the last position of the slot
  obtain ⟨p, hp⟩ : ∃ p, p = next + cap * ((log.length - 1 - next) / cap) := ⟨_, rfl⟩
  have hdiv : cap * ((log.length - 1 - next) / cap) + (log.length - 1 - next) % cap =
      log.length - 1 - next := Nat.div_add_mod _ _
  have hmod : (log.length - 1 - next) % cap < cap := Nat.mod_lt _ hcap
  have hplt : p < log.length := by omega
  refine ⟨p, log[p], (h.slot _ _ _).2 ⟨by omega, ofNat_eq_iff.2 ?_, List.getElem?_eq_getElem hplt⟩,
    by omega, hplt, by omega⟩
  rw [hp, Nat.add_mul_mod_self_left]

end Channel

/-! ### What a receiver gets -/

/-- What a receiver gets from the values it has not read yet, and what it has not read after that:
of more than `cap` values the oldest are lost. -/
def take (cap : ℕ) (unread : List α) : Recv α × List α :=
  if cap < unread.length then
    (.lagged (unread.length - cap), unread.drop (unread.length - cap))
  else
    match unread with
    | [] => (.empty, [])
    | x :: rest => (.value x, rest)

theorem take_of_lt {unread : List α} (h : cap < unread.length) :
    take cap unread = (.lagged (unread.length - cap), unread.drop (unread.length - cap)) :=
  if_pos h

theorem take_cons {x : α} {rest : List α} (h : (x :: rest).length ≤ cap) :
    take cap (x :: rest) = (.value x, rest) :=
  if_neg (Nat.not_lt.2 h)

theorem take_nil : take cap ([] : List α) = (.empty, []) := by
  simp [take]

namespace Channel

variable [NeZero cap]

/-- At the end of the log there is nothing to read. -/
theorem Holds.recv_end {c : Channel α cap} {log : List α} (h : c.Holds log) :
    c.recv log.length = (.empty, log.length) := by
  unfold recv
  cases hs : c.slot (Fin.ofNat cap log.length) with
  | none => rfl
  | some e =>
      obtain ⟨p, x⟩ := e
      obtain ⟨hle, hslot, hp⟩ := (h.slot _ _ _).1 hs
      have hlt : p < log.length := (List.getElem?_eq_some_iff.1 hp).1
      have he : p + cap = log.length := by
        by_contra hne
        exact hlt.ne (eq_of_mod_eq (ofNat_eq_iff.1 hslot) hlt.le (by omega))
      dsimp only
      rw [if_neg hlt.ne, if_pos he]

/-- **The ring refines the log**: what a receiver gets depends on the values sent since its cursor
and on nothing else. -/
theorem Holds.recv {c : Channel α cap} {log : List α} (h : c.Holds log) {next : ℕ}
    (hn : next ≤ log.length) :
    (c.recv next).1 = (take cap (log.drop next)).1 ∧
      log.drop (c.recv next).2 = (take cap (log.drop next)).2 ∧ (c.recv next).2 ≤ log.length := by
  rcases Nat.lt_or_eq_of_le hn with hlt | rfl
  · obtain ⟨p, x, hs, hnp, hplt, hle⟩ := h.slot_of_lt hlt
    obtain ⟨-, hslot, hp⟩ := (h.slot _ _ _).1 hs
    by_cases hpn : p = next
    · -- the value at the cursor is still there
      subst hpn
      have hcons : log.drop p = x :: log.drop (p + 1) := by
        rw [List.drop_eq_getElem_cons hplt, (List.getElem?_eq_some_iff.1 hp).2]
      have hrecv : c.recv p = (.value x, p + 1) := by
        simp only [Channel.recv, hs, if_true]
      have hfits : (x :: log.drop (p + 1)).length ≤ cap := by
        rw [← hcons, List.length_drop]
        omega
      rw [hrecv, hcons, take_cons hfits]
      exact ⟨rfl, rfl, hplt⟩
    · -- it has been overwritten
      have hround : next + cap ≤ p := by
        by_contra hcon
        exact hpn (eq_of_mod_eq (ofNat_eq_iff.1 hslot).symm hnp (by omega)).symm
      have hrecv : c.recv next = (.lagged (log.length - cap - next), log.length - cap) := by
        have hne : p + cap ≠ next := by omega
        simp only [Channel.recv, hs, if_neg hpn, if_neg hne, h.pos]
      have hlong : cap < (log.drop next).length := by
        rw [List.length_drop]
        omega
      rw [hrecv, take_of_lt hlong, List.length_drop, List.drop_drop]
      refine ⟨?_, ?_, Nat.sub_le _ _⟩
      · rw [Nat.sub_right_comm]
      · congr 1
        omega
  · rw [h.recv_end, List.drop_length, take_nil]
    exact ⟨rfl, rfl, le_rfl⟩

end Channel

/-! ### Deliveries with marked gaps -/

/-- What a receiver passes on: a value, or a mark. -/
inductive Delivery (α : Type*)
  | value (x : α)
  | mark
  deriving DecidableEq, Repr

/-- **A marked delivery** from a ring of `cap` values, of which `sent` have been sent: all values in
their order, except for gaps, each of them replaced by one mark.  Behind a gap there are still the
`cap` values that the ring keeps, so a gap is a lag and nothing else. -/
inductive Marked (cap sent : ℕ) : List α → List (Delivery α) → Prop
  | nil : Marked cap sent [] []
  | value {l : List α} {d : List (Delivery α)} (x : α) : Marked cap sent l d →
      Marked cap sent (l ++ [x]) (d ++ [.value x])
  | gap {l g : List α} {d : List (Delivery α)} : Marked cap sent l d → g ≠ [] →
      (l ++ g).length + cap ≤ sent → Marked cap sent (l ++ g) (d ++ [.mark])

namespace Marked

/-- What is sent later makes no difference. -/
theorem mono {sent sent' : ℕ} (hle : sent ≤ sent') {l : List α} {d : List (Delivery α)}
    (h : Marked cap sent l d) : Marked cap sent' l d := by
  induction h with
  | nil => exact .nil
  | value x _ ih => exact ih.value x
  | gap _ hg hlen ih => exact ih.gap hg (hlen.trans hle)

/-- A delivery without a mark is complete. -/
theorem complete {sent : ℕ} {l : List α} {d : List (Delivery α)} (h : Marked cap sent l d)
    (hm : .mark ∉ d) : d = l.map .value := by
  induction h with
  | nil => rfl
  | value x _ ih =>
      rw [List.map_append, ← ih fun hmem => hm (List.mem_append_left _ hmem)]
      rfl
  | gap _ _ _ _ => exact absurd (List.mem_append_right _ List.mem_cons_self) hm

/-- What has been passed on before the last item is a marked delivery of a beginning. -/
theorem of_concat {sent : ℕ} {l : List α} {d : List (Delivery α)} {e : Delivery α}
    (h : Marked cap sent l (d ++ [e])) : ∃ l' g, l = l' ++ g ∧ Marked cap sent l' d := by
  generalize hd : d ++ [e] = d' at h
  cases h with
  | nil => simp at hd
  | value x h =>
      obtain ⟨rfl, -⟩ := List.append_inj' hd rfl
      exact ⟨_, _, rfl, h⟩
  | gap h _ _ =>
      obtain ⟨rfl, -⟩ := List.append_inj' hd rfl
      exact ⟨_, _, rfl, h⟩

end Marked

/-- What a receiver passes on for what it gets. -/
def Recv.deliveries : Recv α → List (Delivery α)
  | value x => [.value x]
  | lagged _ => [.mark]
  | empty => []

/-- **Taking keeps a delivery marked.** -/
theorem Marked.take {sent : ℕ} {l : List α} {d : List (Delivery α)} (h : Marked cap sent l d)
    {unread : List α} (hsent : (l ++ unread).length ≤ sent) :
    ∃ g, unread = g ++ (Broadcast.take cap unread).2 ∧
      Marked cap sent (l ++ g) (d ++ (Broadcast.take cap unread).1.deliveries) := by
  by_cases hlt : cap < unread.length
  · have hlen : (unread.take (unread.length - cap)).length = unread.length - cap := by
      rw [List.length_take]
      omega
    rw [List.length_append] at hsent
    rw [take_of_lt hlt]
    refine ⟨unread.take (unread.length - cap), (List.take_append_drop _ _).symm, h.gap ?_ ?_⟩
    · intro hnil
      rw [hnil, List.length_nil] at hlen
      omega
    · rw [List.length_append, hlen]
      omega
  · cases unread with
    | nil =>
        rw [take_nil]
        exact ⟨[], rfl, by simpa [Recv.deliveries] using h⟩
    | cons x rest =>
        rw [take_cons (Nat.not_lt.1 hlt)]
        exact ⟨[x], rfl, h.value x⟩

end Broadcast
