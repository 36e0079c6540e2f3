/-
**Maps that are iterated in an order.**

The entries of a map are listed in some order when it is iterated.  To give a key that is there
another value leaves the order as it is; the entry of a key that is not there gets a place of its
own, here the first one.

Main definitions:

* `OrderedMap.put` — give a key a value.

Main results:

* `OrderedMap.entries_put_of_mem`, `OrderedMap.entries_put_of_notMem` — **which entries there are
  then, and in which order**;
* `OrderedMap.lookup_put`, `OrderedMap.lookup_put_ne` — what is found;
* `OrderedMap.put_put` — the last value counts.
-/

import Mathlib.Data.List.AList

set_option relaxedAutoImplicit false
set_option autoImplicit false

namespace OrderedMap

variable {κ β : Type*} [DecidableEq κ] {m : AList fun _ : κ => β} {k : κ}

/-- Give the key a value: one that is there is replaced in its place. -/
def put (m : AList fun _ : κ => β) (k : κ) (b : β) : AList fun _ : κ => β :=
  if k ∈ m then m.replace k b else m.insert k b

/-! ### The entries -/

theorem kreplace_cons (k : κ) (b : β) (e : Σ _ : κ, β) (l : List (Σ _ : κ, β)) :
    List.kreplace k b (e :: l) =
      if e.1 = k then ⟨k, b⟩ :: l else e :: List.kreplace k b l := by
  rw [List.kreplace, List.lookmap_cons]
  by_cases h : e.1 = k
  · simp [h]
  · simp [h, Ne.symm h]

theorem map_eq_self {l : List (Σ _ : κ, β)} (h : k ∉ l.keys) (b : β) :
    (l.map fun e => if e.1 = k then ⟨k, b⟩ else e) = l := by
  refine (List.map_congr_left fun e he => if_neg ?_).trans (List.map_id l)
  rintro rfl
  exact h (List.mem_keys_of_mem he)

/-- No other entry has the key. -/
theorem kreplace_eq_map {l : List (Σ _ : κ, β)} (hl : l.NodupKeys) (k : κ) (b : β) :
    List.kreplace k b l = l.map fun e => if e.1 = k then ⟨k, b⟩ else e := by
  induction l with
  | nil => rfl
  | cons e l ih =>
      obtain ⟨hnot, hl⟩ := List.nodupKeys_cons.1 hl
      rw [kreplace_cons, List.map_cons]
      by_cases h : e.1 = k
      · rw [if_pos h, if_pos h, map_eq_self (h ▸ hnot)]
      · rw [if_neg h, if_neg h, ih hl]

/-- **The entries after a value has been replaced.** -/
theorem entries_put_of_mem (h : k ∈ m) (b : β) :
    (put m k b).entries = m.entries.map fun e => if e.1 = k then ⟨k, b⟩ else e := by
  rw [put, if_pos h]
  exact kreplace_eq_map m.nodupKeys k b

/-- **The entries after one has been added.** -/
theorem entries_put_of_notMem (h : k ∉ m) (b : β) :
    (put m k b).entries = ⟨k, b⟩ :: m.entries := by
  rw [put, if_neg h, AList.entries_insert_of_notMem h]

theorem put_empty (k : κ) (b : β) : put ∅ k b = AList.singleton k b := by
  rw [put, if_neg (AList.notMem_empty k), AList.insert_empty]

/-! ### What is found -/

theorem mem_put (b : β) : k ∈ put m k b := by
  unfold put
  split
  · rwa [AList.mem_replace]
  · exact (AList.mem_insert m).2 (.inl rfl)

theorem dlookup_kreplace (k k' : κ) (b : β) (l : List (Σ _ : κ, β)) :
    List.dlookup k' (List.kreplace k b l) =
      if k' = k then (List.dlookup k l).map fun _ => b else List.dlookup k' l := by
  induction l with
  | nil => simp [List.kreplace]
  | cons e l ih =>
      obtain ⟨x, y⟩ := e
      rw [kreplace_cons]
      by_cases hx : x = k
      · subst hx
        by_cases hk : k' = x
        · subst hk
          simp
        · simp [hk, List.dlookup_cons_ne]
      · by_cases hk : k' = k
        · subst hk
          simp [hx, List.dlookup_cons_ne, Ne.symm hx, ih]
        · by_cases hkx : k' = x
          · subst hkx
            simp [hx]
          · simp [hx, hk, List.dlookup_cons_ne, hkx, ih]

@[simp] theorem lookup_put (b : β) : (put m k b).lookup k = some b := by
  unfold put
  split
  · rename_i h
    obtain ⟨b', hb'⟩ := Option.isSome_iff_exists.1 (AList.lookup_isSome.2 h)
    refine (dlookup_kreplace k k b m.entries).trans ?_
    rw [if_pos rfl]
    exact congrArg (Option.map fun _ => b) hb'
  · exact AList.lookup_insert m

theorem lookup_put_ne {k' : κ} (h : k' ≠ k) (b : β) : (put m k b).lookup k' = m.lookup k' := by
  unfold put
  split
  · exact (dlookup_kreplace k k' b m.entries).trans (if_neg h)
  · exact AList.lookup_insert_ne h

/-- **The last value counts.** -/
theorem put_put (b b' : β) : put (put m k b) k b' = put m k b' := by
  refine AList.ext ?_
  rw [entries_put_of_mem (mem_put b)]
  by_cases h : k ∈ m
  · rw [entries_put_of_mem h, entries_put_of_mem h, List.map_map]
    refine List.map_congr_left fun e _ => ?_
    by_cases he : e.1 = k <;> simp [he]
  · rw [entries_put_of_notMem h, entries_put_of_notMem h, List.map_cons, if_pos rfl, map_eq_self h]

end OrderedMap
