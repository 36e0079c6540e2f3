/-
**Maps keyed by names up to an equivalence.**

A *naming* says which names are valid and which names are the same.  A class map holds at most one
value for each class of valid names: a value is entered under a name that is free, and it stays
until one of the names of its class is left.

Such a map is usually kept in a table whose keys are *normal forms* of the names.  `find`, `enter`
and `leave` are the three operations on such a table, and `Naming.NormalForm` is what the function
that computes the normal forms must satisfy for the table to behave as the class map.

Main definitions:

* `ClassMap.Naming`, `ClassMap.Naming.NormalForm`;
* `ClassMap.Map`, `ClassMap.Map.enter`, `ClassMap.Map.leave` — the abstract map;
* `ClassMap.find`, `ClassMap.enter`, `ClassMap.leave` — the table;
* `ClassMap.Current` — the value that the history of the calls leaves under a name.

Main results:

* `ClassMap.toMap_enter`, `ClassMap.toMap_leave` — **the table simulates the map**;
* `ClassMap.Map.run_get_iff` — **a map holds what its history says**, after any calls.
-/

import Mathlib.Data.List.AList
import Mathlib.Data.List.Induction

set_option relaxedAutoImplicit false
set_option autoImplicit false

namespace ClassMap

variable {α β κ : Type*}

/-- Which names are the same, and which are valid. -/
structure Naming (α : Type*) where
  Same : α → α → Prop
  equivalence : Equivalence Same
  Valid : α → Prop
  valid_of_same : ∀ {a b : α}, Same a b → Valid a → Valid b

variable {N : Naming α}

/-- The valid names are those that have a normal form, and two of them are the same exactly if
their normal forms are equal. -/
structure Naming.NormalForm (N : Naming α) (norm : α → Option κ) : Prop where
  isSome_iff : ∀ a, (norm a).isSome = true ↔ N.Valid a
  eq_iff : ∀ {a b}, N.Valid a → (norm a = norm b ↔ N.Same a b)

/-! ### The abstract map -/

/-- At most one value for each class of valid names. -/
@[ext] structure Map (N : Naming α) (β : Type*) where
  get : α → Option β
  get_of_not_valid : ∀ {a}, ¬N.Valid a → get a = none
  get_congr : ∀ {a b}, N.Same a b → get a = get b

namespace Map

/-- The map that holds nothing. -/
def empty : Map N β := ⟨fun _ => none, fun _ => rfl, fun _ => rfl⟩

open Classical in
/-- Enter a value under a valid name that is free. -/
noncomputable def enter (m : Map N β) (a : α) (b : β) : Map N β where
  get x := if N.Valid a ∧ m.get a = none ∧ N.Same a x then some b else m.get x
  get_of_not_valid {x} hx := by
    rw [if_neg fun h => hx (N.valid_of_same h.2.2 h.1), m.get_of_not_valid hx]
  get_congr {x y} hxy := by
    have hiff : N.Same a x ↔ N.Same a y :=
      ⟨fun h => N.equivalence.trans h hxy, fun h => N.equivalence.trans h (N.equivalence.symm hxy)⟩
    rw [m.get_congr hxy, hiff]

open Classical in
/-- Leave the class of a name. -/
noncomputable def leave (m : Map N β) (a : α) : Map N β where
  get x := if N.Same a x then none else m.get x
  get_of_not_valid {x} hx := by rw [m.get_of_not_valid hx, ite_self]
  get_congr {x y} hxy := by
    have hiff : N.Same a x ↔ N.Same a y :=
      ⟨fun h => N.equivalence.trans h hxy, fun h => N.equivalence.trans h (N.equivalence.symm hxy)⟩
    rw [m.get_congr hxy, hiff]

theorem enter_get_eq_some {m : Map N β} {a x : α} {b c : β} :
    (m.enter a b).get x = some c ↔
      (N.Valid a ∧ m.get a = none ∧ N.Same a x ∧ b = c) ∨ m.get x = some c := by
  unfold enter
  dsimp only
  split
  · rename_i h
    have hx : m.get x = none := by rw [← m.get_congr h.2.2, h.2.1]
    simp [hx, h]
  · rename_i h
    constructor
    · exact Or.inr
    · rintro (⟨h₁, h₂, h₃, -⟩ | hx)
      · exact absurd ⟨h₁, h₂, h₃⟩ h
      · exact hx

theorem leave_get_eq_some {m : Map N β} {a x : α} {c : β} :
    (m.leave a).get x = some c ↔ ¬N.Same a x ∧ m.get x = some c := by
  unfold leave
  dsimp only
  split
  · rename_i h
    simp [h]
  · rename_i h
    simp [h]

end Map

/-! ### Calls and their history -/

/-- A call on the map. -/
inductive Call (α β : Type*)
  | enter (a : α) (b : β)
  | leave (a : α)
  | read

/-- The map after a call. -/
noncomputable def Map.call (m : Map N β) : Call α β → Map N β
  | .enter a b => m.enter a b
  | .leave a => m.leave a
  | .read => m

/-- The map after some calls on the empty one. -/
noncomputable def Map.run (cs : List (Call α β)) : Map N β := cs.foldl Map.call Map.empty

theorem Map.run_snoc (cs : List (Call α β)) (c : Call α β) :
    Map.run (N := N) (cs ++ [c]) = (Map.run cs).call c := List.foldl_concat ..

/-- A value has been entered under a name of the class of `x`, which was free, and no name of that
class has been left since. -/
def Entered (N : Naming α) (cs : List (Call α β)) (x : α) (b : β) : Prop :=
  ∃ pre a post, cs = pre ++ .enter a b :: post ∧ N.Valid a ∧
    (Map.run (N := N) pre).get a = none ∧ N.Same a x ∧ ∀ l, .leave l ∈ post → ¬N.Same l x

/-- The last value that has been entered in the class of `x` and has not been left since: all later
attempts to enter something there have found the class taken. -/
def Current (N : Naming α) (cs : List (Call α β)) (x : α) (b : β) : Prop :=
  ∃ pre a post, cs = pre ++ .enter a b :: post ∧ N.Valid a ∧
    (Map.run (N := N) pre).get a = none ∧ N.Same a x ∧ (∀ l, .leave l ∈ post → ¬N.Same l x) ∧
      ∀ pre' a' b' post', post = pre' ++ .enter a' b' :: post' → N.Same a' x →
        (Map.run (N := N) (pre ++ .enter a b :: pre')).get a' ≠ none

/-- What one more call does to the history of a class. -/
theorem entered_snoc {cs : List (Call α β)} {c : Call α β} {x : α} {b : β} :
    Entered N (cs ++ [c]) x b ↔
      (∃ a, c = .enter a b ∧ N.Valid a ∧ (Map.run (N := N) cs).get a = none ∧ N.Same a x) ∨
      (Entered N cs x b ∧ ∀ l, c = .leave l → ¬N.Same l x) := by
  constructor
  · rintro ⟨pre, a, post, hcs, hv, hfree, hsame, hleft⟩
    induction post using List.reverseRecOn with
    | nil =>
        obtain ⟨rfl, hc⟩ := List.append_inj' hcs rfl
        rw [List.cons.injEq] at hc
        exact Or.inl ⟨a, hc.1, hv, hfree, hsame⟩
    | append_singleton post d _ =>
        rw [← List.cons_append, ← List.append_assoc] at hcs
        obtain ⟨rfl, hc⟩ := List.append_inj' hcs rfl
        rw [List.cons.injEq] at hc
        obtain rfl : c = d := hc.1
        refine Or.inr ⟨⟨pre, a, post, rfl, hv, hfree, hsame, fun l hl => ?_⟩, fun l hl => ?_⟩
        · exact hleft l (List.mem_append_left _ hl)
        · exact hleft l (List.mem_append_right _ (List.mem_singleton.2 hl.symm))
  · rintro (⟨a, rfl, hv, hfree, hsame⟩ | ⟨⟨pre, a, post, rfl, hv, hfree, hsame, hleft⟩, hc⟩)
    · exact ⟨cs, a, [], rfl, hv, hfree, hsame, fun l hl => absurd hl List.not_mem_nil⟩
    · refine ⟨pre, a, post ++ [c], by simp, hv, hfree, hsame, fun l hl => ?_⟩
      rcases List.mem_append.1 hl with hl | hl
      · exact hleft l hl
      · exact hc l (List.mem_singleton.1 hl).symm

theorem Map.run_get_iff_entered (cs : List (Call α β)) (x : α) (b : β) :
    (Map.run (N := N) cs).get x = some b ↔ Entered N cs x b := by
  induction cs using List.reverseRecOn with
  | nil =>
      constructor
      · exact nofun
      · rintro ⟨pre, a, post, hcs, -⟩
        simp at hcs
  | append_singleton cs c ih =>
      rw [entered_snoc, Map.run_snoc, ← ih]
      cases c with
      | enter a b' =>
          rw [Map.call, Map.enter_get_eq_some]
          constructor
          · rintro (⟨hv, hfree, hsame, rfl⟩ | h)
            · exact Or.inl ⟨a, rfl, hv, hfree, hsame⟩
            · exact Or.inr ⟨h, nofun⟩
          · rintro (⟨a', hc, hv, hfree, hsame⟩ | h)
            · cases hc
              exact Or.inl ⟨hv, hfree, hsame, rfl⟩
            · exact Or.inr h.1
      | leave a =>
          rw [Map.call, Map.leave_get_eq_some]
          constructor
          · rintro ⟨hne, h⟩
            refine Or.inr ⟨h, fun l hl => ?_⟩
            cases hl
            exact hne
          · rintro (⟨a', hc, -⟩ | ⟨h, hne⟩)
            · cases hc
            · exact ⟨hne a rfl, h⟩
      | read =>
          constructor
          · exact fun h => Or.inr ⟨h, nofun⟩
          · rintro (⟨a', hc, -⟩ | ⟨h, -⟩)
            · cases hc
            · exact h

/-- While the class of a name is taken, no attempt to enter something there succeeds. -/
theorem Entered.current {cs : List (Call α β)} {x : α} {b : β} (h : Entered N cs x b) :
    Current N cs x b := by
  obtain ⟨pre, a, post, rfl, hv, hfree, hsame, hleft⟩ := h
  refine ⟨pre, a, post, rfl, hv, hfree, hsame, hleft, ?_⟩
  rintro pre' a' b' post' rfl hsame' hnone
  have hmid : Entered N (pre ++ .enter a b :: pre') x b :=
    ⟨pre, a, pre', rfl, hv, hfree, hsame, fun l hl => hleft l (List.mem_append_left _ hl)⟩
  rw [← Map.run_get_iff_entered, ← Map.get_congr _ hsame', hnone] at hmid
  exact nomatch hmid

/-- **A map holds what its history says**, whatever the calls. -/
theorem Map.run_get_iff (cs : List (Call α β)) (x : α) (b : β) :
    (Map.run (N := N) cs).get x = some b ↔ Current N cs x b := by
  rw [Map.run_get_iff_entered]
  constructor
  · exact Entered.current
  · rintro ⟨pre, a, post, hcs, hv, hfree, hsame, hleft, -⟩
    exact ⟨pre, a, post, hcs, hv, hfree, hsame, hleft⟩

/-! ### A table keyed by normal forms -/

section Table

variable [DecidableEq κ] (norm : α → Option κ)

/-- Look a name up under its normal form. -/
def find (t : AList fun _ : κ => β) (a : α) : Option β := (norm a).bind fun k => t.lookup k

/-- Enter a value under the normal form of a name, if there is one and it is free. -/
def enter (t : AList fun _ : κ => β) (a : α) (b : β) : AList fun _ : κ => β :=
  match norm a with
  | none => t
  | some k => if (t.lookup k).isSome then t else t.insert k b

/-- Erase the normal form of a name. -/
def leave (t : AList fun _ : κ => β) (a : α) : AList fun _ : κ => β :=
  match norm a with
  | none => t
  | some k => t.erase k

variable {norm} (hN : N.NormalForm norm)

/-- The abstract map that a table stands for. -/
def toMap (t : AList fun _ : κ => β) : Map N β where
  get := find norm t
  get_of_not_valid {a} ha := by
    rw [← hN.isSome_iff, Option.not_isSome_iff_eq_none] at ha
    rw [find, ha, Option.bind_none]
  get_congr {a b} hab := by
    by_cases ha : N.Valid a
    · rw [find, find, (hN.eq_iff ha).2 hab]
    · have hb : ¬N.Valid b := fun hb => ha (N.valid_of_same (N.equivalence.symm hab) hb)
      rw [← hN.isSome_iff, Option.not_isSome_iff_eq_none] at ha hb
      rw [find, find, ha, hb]

theorem toMap_empty : toMap hN (∅ : AList fun _ : κ => β) = Map.empty := by
  refine Map.ext (funext fun a => ?_)
  change find norm ∅ a = none
  unfold find
  cases norm a with
  | none => rfl
  | some k => rw [Option.bind_some, AList.lookup_empty]

open Classical in
/-- **Entering a value in the table enters it in the map.** -/
theorem toMap_enter (t : AList fun _ : κ => β) (a : α) (b : β) :
    toMap hN (enter norm t a b) = (toMap hN t).enter a b := by
  refine Map.ext (funext fun x => ?_)
  change find norm (enter norm t a b) x = ite _ _ (find norm t x)
  cases hk : norm a with
  | none =>
      have ha : ¬N.Valid a := by simp [← hN.isSome_iff, hk]
      rw [if_neg fun h => ha h.1]
      simp [enter, hk]
  | some k =>
      have ha : N.Valid a := by simp [← hN.isSome_iff, hk]
      have hfree : find norm t a = t.lookup k := by rw [find, hk, Option.bind_some]
      change _ = if N.Valid a ∧ find norm t a = none ∧ N.Same a x then _ else _
      rw [hfree, ← hN.eq_iff ha, hk]
      cases hx : norm x with
      | none => simp [find, hx]
      | some k' =>
          cases hl : t.lookup k with
          | some c => simp [find, enter, hx, hk, hl]
          | none =>
              simp only [find, enter, hx, hk, hl, Option.bind_some, Option.isSome_none,
                Bool.false_eq_true, if_false, ha, true_and, Option.some.injEq]
              by_cases hkk : k = k'
              · subst hkk
                rw [AList.lookup_insert, if_pos rfl]
              · rw [AList.lookup_insert_ne (Ne.symm hkk), if_neg hkk]

open Classical in
/-- **Erasing a name in the table leaves its class in the map.** -/
theorem toMap_leave (t : AList fun _ : κ => β) (a : α) :
    toMap hN (leave norm t a) = (toMap hN t).leave a := by
  refine Map.ext (funext fun x => ?_)
  change find norm (leave norm t a) x = ite _ _ (find norm t x)
  cases hk : norm a with
  | none =>
      have ha : ¬N.Valid a := by simp [← hN.isSome_iff, hk]
      split
      · rename_i hax
        have hx : norm x = none := by
          by_contra hx
          rw [← ne_eq, Option.ne_none_iff_isSome, hN.isSome_iff] at hx
          exact ha (N.valid_of_same (N.equivalence.symm hax) hx)
        rw [find, hx, Option.bind_none]
      · simp [leave, hk]
  | some k =>
      have ha : N.Valid a := by simp [← hN.isSome_iff, hk]
      rw [← hN.eq_iff ha, hk]
      cases hx : norm x with
      | none => simp [find, hx]
      | some k' =>
          simp only [find, leave, hx, hk, Option.bind_some, Option.some.injEq]
          by_cases hkk : k = k'
          · subst hkk
            rw [AList.lookup_erase, if_pos rfl]
          · rw [AList.lookup_erase_ne (Ne.symm hkk), if_neg hkk]

end Table

end ClassMap
