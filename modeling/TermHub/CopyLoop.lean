/-
**A loop that copies a stream.**

A loop reads from one side into a buffer and writes the buffer to the other side, until the first
side ends its stream.  How much a read or a write gets done is not up to the loop, and neither is
when it gets to run: each of its polls is an event.  The three parts of the stream — written, in the
buffer, not yet read — are kept together with the fact that they make up the stream, so a loop that
has lost or doubled something cannot be written down.

Main definitions:

* `Copy` — a stream that has been copied in part;
* `Poll`, `Copy.poll` — what a poll of the loop can come to;
* `Copy.Drained` — nothing is left to be copied.

Main results:

* `Copy.written_eq_iff` — everything has been written exactly if nothing is left;
* `Copy.ends_ok` — **a loop that ends well has written everything**;
* `Copy.exists_drained` — **the loop can always go on until nothing is left**.
-/

import Mathlib.Data.List.Basic

set_option relaxedAutoImplicit false
set_option autoImplicit false

namespace CopyLoop

variable {α : Type*} {sent : List α}

/-! ### The state of the loop -/

/-- A stream, as far as it has been copied. -/
structure Copy (sent : List α) where
  written : List α
  buf : List α
  unread : List α
  parts : written ++ (buf ++ unread) = sent

namespace Copy

/-- Nothing has been copied. -/
def start (sent : List α) : Copy sent := ⟨[], [], sent, rfl⟩

/-- The next `n` items are read. -/
def read (c : Copy sent) (n : ℕ) : Copy sent where
  written := c.written
  buf := c.buf ++ c.unread.take n
  unread := c.unread.drop n
  parts := by
    rw [List.append_assoc, List.take_append_drop]
    exact c.parts

/-- The first `n` items of the buffer are written. -/
def write (c : Copy sent) (n : ℕ) : Copy sent where
  written := c.written ++ c.buf.take n
  buf := c.buf.drop n
  unread := c.unread
  parts := by
    rw [List.append_assoc, ← List.append_assoc (c.buf.take n), List.take_append_drop]
    exact c.parts

/-- Nothing is left to be copied. -/
def Drained (c : Copy sent) : Prop := c.buf = [] ∧ c.unread = []

/-- **Everything has been written exactly if nothing is left.** -/
theorem written_eq_iff (c : Copy sent) : c.written = sent ↔ c.Drained := by
  have hparts := c.parts
  unfold Drained
  rw [← List.append_eq_nil_iff]
  constructor
  · intro h
    rw [h] at hparts
    exact List.append_right_eq_self.1 hparts
  · intro h
    rw [h, List.append_nil] at hparts
    exact hparts

end Copy

/-! ### The loop -/

/-- What a poll of the loop comes to. -/
inductive Poll
  /-- A read of `n` items; none are read when the stream has ended. -/
  | read (n : ℕ)
  /-- A write of `n` items. -/
  | write (n : ℕ)
  /-- A read or a write that fails. -/
  | fail (e : String)
  deriving DecidableEq, Repr

/-- What becomes of the loop. -/
inductive Outcome (sent : List α)
  | goesOn (c : Copy sent)
  | ends (r : Except String Unit)

namespace Copy

/-- One poll of the loop, with room for `cap` items in the buffer: it reads when the buffer is
empty, ends when nothing comes, and writes until the buffer is empty again. -/
def poll (cap : ℕ) (c : Copy sent) : Poll → Option (Outcome sent)
  | .read n =>
    if c.buf = [] ∧ n ≤ cap ∧ n ≤ c.unread.length ∧ (n = 0 → c.unread = []) then
      some (if n = 0 then .ends (.ok ()) else .goesOn (c.read n))
    else none
  | .write n =>
    if 0 < n ∧ n ≤ c.buf.length then some (.goesOn (c.write n)) else none
  | .fail e => some (.ends (.error e))

/-- The polls of a loop that goes on. -/
def run (cap : ℕ) (c : Copy sent) : List Poll → Option (Copy sent)
  | [] => some c
  | p :: ps =>
    match c.poll cap p with
    | some (.goesOn c') => c'.run cap ps
    | _ => none

variable {cap : ℕ} {c c' : Copy sent} {p : Poll}

theorem poll_read_zero {o : Outcome sent} (h : c.poll cap (.read 0) = some o) :
    o = .ends (.ok ()) ∧ c.Drained := by
  rw [poll] at h
  split at h
  · rename_i hg
    exact ⟨(Option.some_inj.1 h).symm, hg.1, hg.2.2.2 rfl⟩
  · cases h

theorem poll_read_succ {n : ℕ} {o : Outcome sent} (h : c.poll cap (.read (n + 1)) = some o) :
    o = .goesOn (c.read (n + 1)) := by
  rw [poll] at h
  split at h
  · rw [if_neg (Nat.succ_ne_zero n)] at h
    exact (Option.some_inj.1 h).symm
  · cases h

theorem poll_write {n : ℕ} {o : Outcome sent} (h : c.poll cap (.write n) = some o) :
    o = .goesOn (c.write n) := by
  rw [poll] at h
  split at h
  · exact (Option.some_inj.1 h).symm
  · cases h

/-- **A loop that ends well has written everything.** -/
theorem ends_ok (h : c.poll cap p = some (.ends (.ok ()))) : p = .read 0 ∧ c.written = sent := by
  cases p with
  | read n =>
      cases n with
      | zero => exact ⟨rfl, c.written_eq_iff.2 (poll_read_zero h).2⟩
      | succ n => cases poll_read_succ h
  | write n => cases poll_write h
  | fail e => cases h

theorem run_append (ps qs : List Poll) :
    c.run cap (ps ++ qs) = (c.run cap ps).bind fun c' => c'.run cap qs := by
  induction ps generalizing c with
  | nil => rfl
  | cons p ps ih =>
      rw [List.cons_append, run, run]
      split
      · exact ih
      · rfl

/-- A buffer can be written. -/
theorem exists_written (cap : ℕ) (c : Copy sent) : ∃ ps c', c.run cap ps = some c' ∧ c'.buf = [] ∧
    c'.unread = c.unread := by
  by_cases hbuf : c.buf = []
  · exact ⟨[], c, rfl, hbuf, rfl⟩
  · have hpoll : c.poll cap (.write c.buf.length) = some (.goesOn (c.write c.buf.length)) :=
      if_pos ⟨List.length_pos_iff.2 hbuf, Nat.le_refl _⟩
    refine ⟨[.write c.buf.length], c.write c.buf.length, ?_, List.drop_length, rfl⟩
    rw [run, hpoll]
    rfl

/-- **The loop can always go on until nothing is left**, if the buffer has room for an item. -/
theorem exists_drained (hcap : 0 < cap) (c : Copy sent) :
    ∃ ps c', c.run cap ps = some c' ∧ c'.Drained := by
  induction hlen : c.unread.length generalizing c with
  | zero =>
      obtain ⟨ps, c', hr, hbuf, hun⟩ := c.exists_written cap
      exact ⟨ps, c', hr, hbuf, hun.trans (List.length_eq_zero_iff.1 hlen)⟩
  | succ n ih =>
      -- the buffer is written, then one more item is read
      obtain ⟨ps, c₁, hr₁, hbuf, hun⟩ := c.exists_written cap
      have hne : 1 ≤ c₁.unread.length := by
        rw [hun, hlen]
        exact Nat.succ_le_succ n.zero_le
      have hpoll : c₁.poll cap (.read 1) = some (.goesOn (c₁.read 1)) :=
        if_pos ⟨hbuf, hcap, hne, nofun⟩
      have hrest : (c₁.read 1).unread.length = n := by
        change (c₁.unread.drop 1).length = n
        rw [List.length_drop, hun, hlen, Nat.add_sub_cancel]
      obtain ⟨qs, c', hr', hdrained⟩ := ih (c₁.read 1) hrest
      refine ⟨ps ++ .read 1 :: qs, c', ?_, hdrained⟩
      rw [run_append, hr₁, Option.bind_some, run, hpoll]
      exact hr'

end Copy

end CopyLoop
