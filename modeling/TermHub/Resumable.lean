/-
**Reading items from a stream that comes in pieces.**

A reader takes one item from the front of what has come so far, or waits for more.  It is *stable*
if what comes later does not change an item it has taken.  What a stable reader makes of a stream
does not depend on how the stream is cut: the part that it could not use is kept and put before the
next piece.

Main definitions:

* `Reader`, `Reader.Stable` — readers, and those that do not look ahead;
* `Reader.readAll` — read items as long as there are any;
* `Reader.feed` — read the next piece;
* `Reader.Reads` — a piece of input stands for some items, wherever it is met;
* `Reader.sliced` — items together with the part of the input that stands for them.

Main results:

* `Reader.Stable.readAll_append` — reading a stream in two parts;
* `Reader.Stable.foldl_feed` — **the cuts do not matter**;
* `Reader.readAll_parts` — what has been taken, and the rest, are the input;
* `Reader.Reads.flatMap` — the encodings of a list, one after the other, stand for what each of them
  stands for.
-/

import Mathlib.Data.List.Basic

set_option relaxedAutoImplicit false
set_option autoImplicit false

namespace Resumable

universe u v

variable {α : Type u} {β : Type v}

/-- A reader of one item: how much of the input it takes, and what it stands for. -/
abbrev Reader (α : Type u) (β : Type v) := List α → Option (ℕ × β)

namespace Reader

/-- An item is not empty, and later input does not change it. -/
structure Stable (r : Reader α β) : Prop where
  pos : ∀ {s n b}, r s = some (n, b) → 0 < n
  le : ∀ {s n b}, r s = some (n, b) → n ≤ s.length
  append : ∀ {s n b}, r s = some (n, b) → ∀ t, r (s ++ t) = some (n, b)

variable {r : Reader α β}

/-- At most `fuel` items, and the rest of the input. -/
def items (r : Reader α β) : ℕ → List α → List β × List α
  | 0, s => ([], s)
  | fuel + 1, s =>
    match r s with
    | some (n, b) => (b :: (items r fuel (s.drop n)).1, (items r fuel (s.drop n)).2)
    | none => ([], s)

/-- All items, and the rest of the input. -/
def readAll (r : Reader α β) (s : List α) : List β × List α := items r s.length s

/-! ### Reading item by item -/

theorem items_none {s : List α} (h : r s = none) (fuel : ℕ) : items r fuel s = ([], s) := by
  cases fuel with
  | zero => rfl
  | succ fuel => simp [items, h]

theorem items_some {s : List α} {n : ℕ} {b : β} (h : r s = some (n, b)) (fuel : ℕ) :
    items r (fuel + 1) s = (b :: (items r fuel (s.drop n)).1, (items r fuel (s.drop n)).2) := by
  simp [items, h]

/-- There are at most as many items as elements. -/
theorem Stable.items_congr (hr : r.Stable) {fuel fuel' : ℕ} {s : List α} (h : s.length ≤ fuel)
    (h' : s.length ≤ fuel') : items r fuel s = items r fuel' s := by
  induction fuel generalizing s fuel' with
  | zero =>
      obtain rfl := List.length_eq_zero_iff.1 (Nat.le_zero.1 h)
      cases hs : r ([] : List α) with
      | none => rw [items_none hs, items_none hs]
      | some x =>
          have hpos := hr.pos hs
          have hle := hr.le hs
          rw [List.length_nil] at hle
          omega
  | succ fuel ih =>
      cases hs : r s with
      | none => rw [items_none hs, items_none hs]
      | some x =>
          obtain ⟨n, b⟩ := x
          have hpos := hr.pos hs
          have hle := hr.le hs
          have hlen : (s.drop n).length = s.length - n := List.length_drop
          cases fuel' with
          | zero => omega
          | succ fuel' =>
              have hrest : items r fuel (s.drop n) = items r fuel' (s.drop n) :=
                ih (by omega) (by omega)
              rw [items_some hs, items_some hs, hrest]

theorem readAll_none {s : List α} (h : r s = none) : r.readAll s = ([], s) := items_none h _

theorem Stable.readAll_some (hr : r.Stable) {s : List α} {n : ℕ} {b : β} (h : r s = some (n, b)) :
    r.readAll s = (b :: (r.readAll (s.drop n)).1, (r.readAll (s.drop n)).2) := by
  have hpos := hr.pos h
  have hle := hr.le h
  have hlen : (s.drop n).length = s.length - n := List.length_drop
  have hfuel : r.readAll s = items r (s.length + 1) s :=
    hr.items_congr (Nat.le_refl _) (Nat.le_succ _)
  have hrest : items r s.length (s.drop n) = r.readAll (s.drop n) :=
    hr.items_congr (by omega) (Nat.le_refl _)
  rw [hfuel, items_some h, hrest]

/-- The rest does not start with an item. -/
theorem Stable.rest (hr : r.Stable) (s : List α) : r (r.readAll s).2 = none := by
  induction hn : s.length using Nat.strongRecOn generalizing s with
  | _ n ih =>
      cases hs : r s with
      | none => rw [readAll_none hs, hs]
      | some x =>
          obtain ⟨m, b⟩ := x
          have hpos := hr.pos hs
          have hle := hr.le hs
          have hlen : (s.drop m).length = s.length - m := List.length_drop
          rw [hr.readAll_some hs]
          exact ih _ (by omega) _ rfl

/-- Every item has been taken from the front of some input. -/
theorem mem_items {fuel : ℕ} {s : List α} {b : β} (h : b ∈ (items r fuel s).1) :
    ∃ t n, r t = some (n, b) := by
  induction fuel generalizing s with
  | zero => cases h
  | succ fuel ih =>
      cases hs : r s with
      | none =>
          rw [items_none hs] at h
          cases h
      | some x =>
          rw [items_some hs] at h
          rcases List.mem_cons.1 h with rfl | h
          · exact ⟨s, x.1, hs⟩
          · exact ih h

theorem mem_readAll {s : List α} {b : β} (h : b ∈ (r.readAll s).1) : ∃ t n, r t = some (n, b) :=
  mem_items h

/-! ### Reading piece by piece -/

/-- **A stream in two parts**: what the first part leaves is put before the second. -/
theorem Stable.readAll_append (hr : r.Stable) (s t : List α) :
    r.readAll (s ++ t) = ((r.readAll s).1 ++ (r.readAll ((r.readAll s).2 ++ t)).1,
      (r.readAll ((r.readAll s).2 ++ t)).2) := by
  induction hn : s.length using Nat.strongRecOn generalizing s with
  | _ n ih =>
      cases hs : r s with
      | none => simp [readAll_none hs]
      | some x =>
          obtain ⟨m, b⟩ := x
          have hpos := hr.pos hs
          have hle := hr.le hs
          have hlen : (s.drop m).length = s.length - m := List.length_drop
          rw [hr.readAll_some (hr.append hs t), hr.readAll_some hs,
            List.drop_append_of_le_length hle, ih _ (by omega) _ rfl]
          rfl

/-- Read the next piece: the items so far, and the part that was not used. -/
def feed (r : Reader α β) (st : List β × List α) (piece : List α) : List β × List α :=
  (st.1 ++ (r.readAll (st.2 ++ piece)).1, (r.readAll (st.2 ++ piece)).2)

/-- **The cuts do not matter**: the pieces give the items of the whole stream, and leave the same
rest. -/
theorem Stable.foldl_feed (hr : r.Stable) (pieces : List (List α)) {st : List β × List α}
    (h : r st.2 = none) : pieces.foldl r.feed st =
      (st.1 ++ (r.readAll (st.2 ++ pieces.flatten)).1,
        (r.readAll (st.2 ++ pieces.flatten)).2) := by
  induction pieces generalizing st with
  | nil => simp [readAll_none h]
  | cons piece pieces ih =>
      have hrest : r (r.feed st piece).2 = none := hr.rest _
      rw [List.foldl_cons, ih hrest, List.flatten_cons, ← List.append_assoc,
        hr.readAll_append (st.2 ++ piece)]
      simp [feed]

/-! ### What a piece of input stands for -/

/-- The input `s` stands for the items `bs`, whatever comes after it. -/
def Reads (r : Reader α β) (s : List α) (bs : List β) : Prop :=
  ∀ t, r.readAll (s ++ t) = (bs ++ (r.readAll t).1, (r.readAll t).2)

theorem Reads.nil : r.Reads [] [] := fun _ => rfl

theorem Reads.append {s t : List α} {bs cs : List β} (h : r.Reads s bs) (h' : r.Reads t cs) :
    r.Reads (s ++ t) (bs ++ cs) := by
  intro u
  rw [List.append_assoc, h, h', List.append_assoc]

/-- The encodings of a list. -/
theorem Reads.flatMap {γ : Type*} {enc : γ → List α} {val : γ → List β}
    (h : ∀ x, r.Reads (enc x) (val x)) (xs : List γ) :
    r.Reads (xs.flatMap enc) (xs.flatMap val) := by
  induction xs with
  | nil => exact Reads.nil
  | cons x xs ih =>
      rw [List.flatMap_cons, List.flatMap_cons]
      exact (h x).append ih

/-- What stands for items alone leaves nothing. -/
theorem Reads.readAll {s : List α} {bs : List β} (h : r.Reads s bs) : r.readAll s = (bs, []) := by
  have hs := h []
  rw [List.append_nil] at hs
  rw [hs]
  exact Prod.ext (List.append_nil bs) rfl

/-- An item, and what stands behind it. -/
theorem Stable.reads_cons (hr : r.Stable) {s t : List α} {n : ℕ} {b : β} {bs : List β}
    (h : r s = some (n, b)) (hs : s.drop n = t) (ht : r.Reads t bs) : r.Reads s (b :: bs) := by
  intro u
  rw [hr.readAll_some (hr.append h u), List.drop_append_of_le_length (hr.le h), hs, ht]
  rfl

/-- One item. -/
theorem Stable.reads_one (hr : r.Stable) {s : List α} {b : β} (h : r s = some (s.length, b)) :
    r.Reads s [b] :=
  hr.reads_cons h List.drop_length Reads.nil

/-! ### Items with their input -/

/-- Read an item together with the part of the input that stands for it. -/
def sliced (r : Reader α β) : Reader α (List α × β) := fun s =>
  (r s).map fun x => (x.1, (s.take x.1, x.2))

theorem sliced_eq_some {s : List α} {n : ℕ} {x : List α × β} :
    r.sliced s = some (n, x) ↔ r s = some (n, x.2) ∧ x.1 = s.take n := by
  unfold sliced
  rw [Option.map_eq_some_iff]
  constructor
  · rintro ⟨⟨m, b⟩, hs, hx⟩
    obtain ⟨rfl, rfl⟩ := Prod.mk.inj hx
    exact ⟨hs, rfl⟩
  · rintro ⟨hs, hx⟩
    exact ⟨(n, x.2), hs, by rw [← hx]⟩

theorem Stable.sliced (hr : r.Stable) : r.sliced.Stable where
  pos h := hr.pos (sliced_eq_some.1 h).1
  le h := hr.le (sliced_eq_some.1 h).1
  append h t := by
    obtain ⟨hs, hx⟩ := sliced_eq_some.1 h
    refine sliced_eq_some.2 ⟨hr.append hs t, ?_⟩
    rw [hx, List.take_append_of_le_length (hr.le hs)]

/-- The items are the same. -/
theorem items_sliced (r : Reader α β) (fuel : ℕ) (s : List α) :
    items r fuel s = ((items r.sliced fuel s).1.map Prod.snd, (items r.sliced fuel s).2) := by
  induction fuel generalizing s with
  | zero => rfl
  | succ fuel ih =>
      cases h : r s with
      | none => rw [items_none h, items_none (r := r.sliced) (by simp [Reader.sliced, h])]; rfl
      | some x =>
          have hs : r.sliced s = some (x.1, (s.take x.1, x.2)) := by simp [Reader.sliced, h]
          rw [items_some h, items_some hs, ih]
          rfl

theorem readAll_sliced (r : Reader α β) (s : List α) :
    r.readAll s = ((r.sliced.readAll s).1.map Prod.snd, (r.sliced.readAll s).2) :=
  items_sliced r s.length s

/-- The parts that have been taken, and the rest, are the input. -/
theorem items_sliced_flatMap (r : Reader α β) (fuel : ℕ) (s : List α) :
    (items r.sliced fuel s).1.flatMap Prod.fst ++ (items r.sliced fuel s).2 = s := by
  induction fuel generalizing s with
  | zero => rfl
  | succ fuel ih =>
      cases h : r.sliced s with
      | none =>
          rw [items_none h]
          rfl
      | some x =>
          obtain ⟨n, part, b⟩ := x
          obtain ⟨-, rfl⟩ := sliced_eq_some.1 h
          rw [items_some h, List.flatMap_cons, List.append_assoc, ih]
          exact List.take_append_drop n s

theorem readAll_parts (r : Reader α β) (s : List α) :
    (r.sliced.readAll s).1.flatMap Prod.fst ++ (r.readAll s).2 = s := by
  rw [readAll_sliced r s]
  exact items_sliced_flatMap r s.length s

theorem length_rest_le (r : Reader α β) (s : List α) : (r.readAll s).2.length ≤ s.length := by
  have hlen := congrArg List.length (readAll_parts r s)
  rw [List.length_append] at hlen
  omega

/-- The rest is where it has been in the input. -/
theorem drop_readAll (r : Reader α β) (s : List α) :
    s.drop (s.length - (r.readAll s).2.length) = (r.readAll s).2 := by
  have hparts := readAll_parts r s
  have hlen := congrArg List.length hparts
  rw [List.length_append] at hlen
  have hfront : s.length - (r.readAll s).2.length =
      ((r.sliced.readAll s).1.flatMap Prod.fst).length := by omega
  have hdrop : ((r.sliced.readAll s).1.flatMap Prod.fst ++ (r.readAll s).2).drop
      ((r.sliced.readAll s).1.flatMap Prod.fst).length = (r.readAll s).2 := List.drop_left
  rwa [hparts, ← hfront] at hdrop

end Reader

end Resumable
