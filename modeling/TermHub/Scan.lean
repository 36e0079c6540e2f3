/-
**Loops that scan a buffer.**

A `while` loop runs its body as long as its condition holds; the body goes on with a new state or
leaves the loop with a result.  Reads, slices and cuts outside the buffer fail, and so does a loop
that takes more rounds than it is given, so a loop that returns has not panicked and has ended.

Main definitions:

* `Scan.Fault` — what can go wrong;
* `Scan.index`, `Scan.sliceFrom`, `Scan.splitOff` — access to a buffer;
* `Scan.While`, `Scan.While.run` — a loop, and at most so many rounds of it;
* `Scan.While.Correct` — an invariant, the number of rounds that are left, and what is promised of
  the result.

Main results:

* `Scan.While.Correct.run` — **the loop rule**: the loop returns within that number of rounds, with
  a result as promised.
-/

import Mathlib.Data.List.Basic

set_option relaxedAutoImplicit false
set_option autoImplicit false

namespace Scan

/-- A read at `i`, a slice from `i` on or a cut at `i` outside a buffer of `length` elements, or a
loop that has not ended. -/
inductive Fault
  | index (i length : ℕ)
  | slice (i length : ℕ)
  | cut (i length : ℕ)
  | rounds
  deriving DecidableEq, Repr

/-! ### Buffers -/

section Buffer

variable {α : Type*}

/-- `s[i]`. -/
def index (s : List α) (i : ℕ) : Except Fault α :=
  match s[i]? with
  | some a => .ok a
  | none => .error (.index i s.length)

/-- `&s[i..]`. -/
def sliceFrom (s : List α) (i : ℕ) : Except Fault (List α) :=
  if i ≤ s.length then .ok (s.drop i) else .error (.slice i s.length)

/-- `split_off`: what is before `i`, and the rest. -/
def splitOff (s : List α) (i : ℕ) : Except Fault (List α × List α) :=
  if i ≤ s.length then .ok (s.take i, s.drop i) else .error (.cut i s.length)

variable {s rest : List α} {i : ℕ} {a b : α}

theorem index_eq_ok (h : s[i]? = some a) : index s i = .ok a := by
  rw [index, h]

theorem sliceFrom_eq_ok (h : i ≤ s.length) : sliceFrom s i = .ok (s.drop i) := if_pos h

theorem splitOff_eq_ok (h : i ≤ s.length) : splitOff s i = .ok (s.take i, s.drop i) := if_pos h

/-- The element at the position that has been reached. -/
theorem index_of_drop (h : s.drop i = a :: rest) : index s i = .ok a := by
  refine index_eq_ok ?_
  rw [← Nat.add_zero i, ← List.getElem?_drop, h]
  rfl

/-- The element behind it. -/
theorem index_succ_of_drop (h : s.drop i = a :: b :: rest) : index s (i + 1) = .ok b := by
  refine index_eq_ok ?_
  rw [← List.getElem?_drop, h]
  rfl

theorem drop_succ_of_drop (h : s.drop i = a :: rest) : s.drop (i + 1) = rest := by
  rw [← List.drop_drop, h]
  rfl

theorem length_drop_of_cons (h : s.drop i = a :: rest) : s.length = i + 1 + rest.length := by
  have hlen : (s.drop i).length = s.length - i := List.length_drop
  rw [h, List.length_cons] at hlen
  omega

theorem exists_drop_eq_cons (h : i < s.length) : ∃ a rest, s.drop i = a :: rest :=
  ⟨_, _, List.drop_eq_getElem_cons h⟩

theorem exists_drop_eq_cons_cons (h : i + 1 < s.length) :
    ∃ a b rest, s.drop i = a :: b :: rest := by
  obtain ⟨b, rest, hnext⟩ := exists_drop_eq_cons h
  refine ⟨s[i], b, rest, ?_⟩
  rw [List.drop_eq_getElem_cons (Nat.lt_of_succ_lt h), hnext]

/-- Two elements at the front of a list. -/
theorem pair_prefix_cons {x y : α} :
    [x, y] <+: a :: s ↔ a = x ∧ s.head? = some y := by
  rw [List.cons_prefix_cons, eq_comm (a := x)]
  cases s with
  | nil => simp
  | cons b s => simp [List.cons_prefix_cons, eq_comm]

/-- Two elements side by side. -/
theorem pair_infix_cons {x y : α} :
    [x, y] <:+: a :: s ↔ (a = x ∧ s.head? = some y) ∨ [x, y] <:+: s := by
  rw [List.infix_cons_iff, pair_prefix_cons]

end Buffer

/-! ### Loops -/

/-- A `while` loop: its body goes on with a new state, or leaves the loop with a result. -/
structure While (σ β : Type*) where
  cond : σ → Bool
  body : σ → Except Fault (σ ⊕ β)
  done : σ → β

namespace While

variable {σ β : Type*}

/-- At most `n` rounds of the loop. -/
def run (L : While σ β) : ℕ → σ → Except Fault β
  | 0, s => if L.cond s then .error .rounds else .ok (L.done s)
  | n + 1, s =>
    if L.cond s then
      (L.body s).bind fun
        | .inl t => L.run n t
        | .inr b => .ok b
    else .ok (L.done s)

/-- In every round the body returns, and it keeps the invariant `I` with fewer rounds left, or
leaves the loop with a result as promised. -/
structure Correct (L : While σ β) (I : σ → Prop) (left : σ → ℕ) (Q : β → Prop) : Prop where
  pos : ∀ s, I s → L.cond s = true → 0 < left s
  body : ∀ s, I s → L.cond s = true →
    ∃ x, L.body s = .ok x ∧ x.elim (fun t => I t ∧ left t < left s) Q
  done : ∀ s, I s → L.cond s = false → Q (L.done s)

/-- **The loop rule.** -/
theorem Correct.run {L : While σ β} {I : σ → Prop} {left : σ → ℕ} {Q : β → Prop}
    (h : L.Correct I left Q) {n : ℕ} {s : σ} (hs : I s) (hn : left s ≤ n) :
    ∃ b, L.run n s = .ok b ∧ Q b := by
  induction n generalizing s with
  | zero =>
      cases hc : L.cond s with
      | false => exact ⟨L.done s, if_neg (by simp [hc]), h.done s hs hc⟩
      | true => exact absurd (h.pos s hs hc) (Nat.not_lt.2 hn)
  | succ n ih =>
      cases hc : L.cond s with
      | false => exact ⟨L.done s, if_neg (by simp [hc]), h.done s hs hc⟩
      | true =>
          obtain ⟨x, hx, hnext⟩ := h.body s hs hc
          rw [While.run, if_pos hc, hx]
          cases x with
          | inl t =>
              obtain ⟨ht, hlt⟩ := hnext
              exact ih ht (by omega)
          | inr b => exact ⟨b, rfl, hnext⟩

end While

end Scan
