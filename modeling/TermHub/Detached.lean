/-
**A loop that spawns detached tasks.**

A server gets ready, and then accepts items until it is cancelled or cannot accept any more.  For
every item it spawns a task and does not look at it again.  The tasks take their steps at any time,
also after the loop has returned.

Main definitions:

* `Server` — what becomes of an item, and the steps of a task;
* `Pool`, `Server.step` — the loop with its tasks, and the transition function;
* `accepted`, `own` — what has been accepted in a run, and what has happened to one task.

Main results:

* `Server.alone_of_exec` — **every task has gone through a run of its own**, on what has happened to
  it, and there are as many tasks as items that have been accepted;
* `Server.over_of_exec` — a loop that has returned has done so for a reason;
* `Server.over_stays` — a loop that has returned accepts nothing.
-/

import TermHub.Transition
import Mathlib.Data.List.Forall2

set_option relaxedAutoImplicit false
set_option autoImplicit false

namespace Detached

open Transition

variable {α τ β ε : Type*}

/-! ### Lists side by side -/

/-- If every element of `ts` contributes nothing, or one thing that belongs to the element of `l`
beside it, then the contributions belong to a part of `l`, one by one. -/
theorem exists_sublist_of_forall₂ {γ : Type*} {R : α → τ → Prop} {f : τ → List γ}
    {A : α → γ → Prop} (hR : ∀ x t, R x t → f t = [] ∨ ∃ c, f t = [c] ∧ A x c) {l : List α}
    {ts : List τ} (h : List.Forall₂ R l ts) :
    ∃ ds, ds.Sublist l ∧ List.Forall₂ A ds (ts.flatMap f) := by
  induction h with
  | nil => exact ⟨[], .slnil, .nil⟩
  | @cons x t l ts hx _ ih =>
      obtain ⟨ds, hds, hA⟩ := ih
      rw [List.flatMap_cons]
      rcases hR x t hx with hf | ⟨c, hf, hc⟩
      · rw [hf]
        exact ⟨ds, hds.cons x, hA⟩
      · rw [hf]
        exact ⟨x :: ds, hds.cons_cons x, .cons hc hA⟩

/-! ### The loop and its tasks -/

/-- What the loop makes of an item, and how a task goes on. -/
structure Server (α τ β : Type*) where
  spawn : α → τ
  run : τ → β → Option τ

/-- Where the loop is. -/
inductive Stage (ε : Type*)
  | starting
  | serving
  | over (r : Except ε Unit)

/-- The loop with its tasks, in the order in which they have been spawned. -/
structure Pool (τ ε : Type*) where
  stage : Stage ε
  tasks : List τ

/-- Nothing has happened. -/
def Pool.init : Pool τ ε := ⟨.starting, []⟩

/-- What can happen. -/
inductive Act (α β ε : Type*)
  /-- The server gets ready, or fails to. -/
  | ready (r : Except ε Unit)
  | cancelled
  | accept (r : Except ε α)
  /-- Something happens to the `i`-th task. -/
  | task (i : ℕ) (b : β)
  deriving DecidableEq

/-- The item that is accepted. -/
def Act.item : Act α β ε → Option α
  | .accept (.ok x) => some x
  | _ => none

/-- What happens to the `i`-th task. -/
def Act.what (i : ℕ) : Act α β ε → Option β
  | .task j b => if j = i then some b else none
  | _ => none

/-- What has been accepted. -/
def accepted (as : List (Act α β ε)) : List α := as.filterMap Act.item

/-- What has happened to the `i`-th task. -/
def own (i : ℕ) (as : List (Act α β ε)) : List β := as.filterMap (Act.what i)

theorem mem_own {i : ℕ} {as : List (Act α β ε)} {b : β} : b ∈ own i as ↔ .task i b ∈ as := by
  rw [own, List.mem_filterMap]
  constructor
  · rintro ⟨a, ha, hb⟩
    unfold Act.what at hb
    split at hb
    · rename_i j b'
      obtain ⟨rfl, rfl⟩ := Option.ite_some_none_eq_some.1 hb
      exact ha
    · cases hb
  · intro h
    exact ⟨_, h, if_pos rfl⟩

theorem accepted_concat (as : List (Act α β ε)) (a : Act α β ε) :
    accepted (as ++ [a]) = accepted as ++ a.item.toList := by
  rw [accepted, List.filterMap_append]
  cases h : a.item with
  | none => rw [List.filterMap_cons_none h]; rfl
  | some x => rw [List.filterMap_cons_some h]; rfl

theorem own_concat (i : ℕ) (as : List (Act α β ε)) (a : Act α β ε) :
    own i (as ++ [a]) = own i as ++ (a.what i).toList := by
  rw [own, List.filterMap_append]
  cases h : a.what i with
  | none => rw [List.filterMap_cons_none h]; rfl
  | some x => rw [List.filterMap_cons_some h]; rfl

namespace Server

variable {S : Server α τ β}

/-- One step of the loop or of a task. -/
def step (S : Server α τ β) (s : Pool τ ε) : Act α β ε → Option (Pool τ ε)
  | .ready r =>
    match s.stage, r with
    | .starting, .ok () => some { s with stage := .serving }
    | .starting, .error e => some { s with stage := .over (.error e) }
    | _, _ => none
  | .cancelled =>
    match s.stage with
    | .serving => some { s with stage := .over (.ok ()) }
    | _ => none
  | .accept r =>
    match s.stage, r with
    | .serving, .ok x => some { s with tasks := s.tasks ++ [S.spawn x] }
    | .serving, .error e => some { s with stage := .over (.error e) }
    | _, _ => none
  | .task i b =>
    (s.tasks[i]?.bind fun t => S.run t b).map fun t => { s with tasks := s.tasks.set i t }

/-- What a step does. -/
inductive Stepped (S : Server α τ β) (s : Pool τ ε) : Act α β ε → Pool τ ε → Prop
  | ready (hp : s.stage = .starting) : Stepped S s (.ready (.ok ())) { s with stage := .serving }
  | unready {e : ε} (hp : s.stage = .starting) :
      Stepped S s (.ready (.error e)) { s with stage := .over (.error e) }
  | cancelled (hp : s.stage = .serving) :
      Stepped S s .cancelled { s with stage := .over (.ok ()) }
  | accepted {x : α} (hp : s.stage = .serving) :
      Stepped S s (.accept (.ok x)) { s with tasks := s.tasks ++ [S.spawn x] }
  | failed {e : ε} (hp : s.stage = .serving) :
      Stepped S s (.accept (.error e)) { s with stage := .over (.error e) }
  | task {i : ℕ} {t t' : τ} {b : β} (hi : s.tasks[i]? = some t) (hr : S.run t b = some t') :
      Stepped S s (.task i b) { s with tasks := s.tasks.set i t' }

variable {s u : Pool τ ε} {a : Act α β ε}

/-- Every step is one of these. -/
theorem step_stepped (h : S.step s a = some u) : S.Stepped s a u := by
  cases a with
  | ready r =>
      simp only [step] at h
      split at h
      · rename_i hp
        obtain rfl := Option.some_inj.1 h
        exact .ready hp
      · rename_i hp
        obtain rfl := Option.some_inj.1 h
        exact .unready hp
      · cases h
  | cancelled =>
      simp only [step] at h
      split at h
      · rename_i hp
        obtain rfl := Option.some_inj.1 h
        exact .cancelled hp
      · cases h
  | accept r =>
      simp only [step] at h
      split at h
      · rename_i hp
        obtain rfl := Option.some_inj.1 h
        exact .accepted hp
      · rename_i hp
        obtain rfl := Option.some_inj.1 h
        exact .failed hp
      · cases h
  | task i b =>
      obtain ⟨t', ht', rfl⟩ := Option.map_eq_some_iff.1 h
      obtain ⟨t, hi, hr⟩ := Option.bind_eq_some_iff.1 ht'
      exact .task hi hr

/-! ### The tasks go their own ways -/

/-- **The tasks after a run**: one for each item that has been accepted, and each has gone through a
run of its own. -/
structure Alone (S : Server α τ β) (as : List (Act α β ε)) (s : Pool τ ε) : Prop where
  length : s.tasks.length = (accepted as).length
  unborn : ∀ i, s.tasks.length ≤ i → own i as = []
  runs : ∀ i x, (accepted as)[i]? = some x →
    ∃ t, s.tasks[i]? = some t ∧ exec S.run (S.spawn x) (own i as) = some t

theorem alone_init : S.Alone ([] : List (Act α β ε)) Pool.init where
  length := rfl
  unborn _ _ := rfl
  runs _ _ h := nomatch h

/-- The loop moves, and spawns nothing. -/
theorem Alone.loop_moves {as : List (Act α β ε)} (hi : S.Alone as s) (hitem : a.item = none)
    (hwhat : ∀ i, a.what i = none) (p : Stage ε) : S.Alone (as ++ [a]) { s with stage := p } := by
  have hacc : accepted (as ++ [a]) = accepted as := by
    rw [accepted_concat, hitem, Option.toList_none, List.append_nil]
  have hown (i : ℕ) : own i (as ++ [a]) = own i as := by
    rw [own_concat, hwhat, Option.toList_none, List.append_nil]
  exact {
    length := by rw [hacc]; exact hi.length
    unborn := fun i h => by rw [hown]; exact hi.unborn i h
    runs := fun i x hx => by
      rw [hacc] at hx
      rw [hown]
      exact hi.runs i x hx }

theorem Alone.step {as : List (Act α β ε)} (hi : S.Alone as s) (h : S.step s a = some u) :
    S.Alone (as ++ [a]) u := by
  cases step_stepped h with
  | ready hp | unready hp | cancelled hp | failed hp => exact hi.loop_moves rfl (fun _ => rfl) _
  | @accepted x hp =>
      have hacc : accepted (as ++ [.accept (.ok x)]) = accepted as ++ [x] := accepted_concat ..
      have hown (i : ℕ) : own i (as ++ [.accept (.ok x)]) = own i as :=
        (own_concat ..).trans (List.append_nil _)
      refine ⟨by simp [hacc, hi.length], fun i hle => ?_, fun i y hy => ?_⟩
      · rw [hown]
        rw [List.length_append, List.length_singleton] at hle
        exact hi.unborn i (Nat.le_of_succ_le hle)
      · rw [hacc] at hy
        rw [hown]
        rcases getElem?_concat_eq_some.1 hy with hy | ⟨rfl, rfl⟩
        · obtain ⟨t, ht, hrun⟩ := hi.runs i y hy
          exact ⟨t, getElem?_concat_eq_some.2 (.inl ht), hrun⟩
        · refine ⟨S.spawn y, getElem?_concat_eq_some.2 (.inr ⟨hi.length.symm, rfl⟩), ?_⟩
          rw [hi.unborn _ (Nat.le_of_eq hi.length)]
          rfl
  | @task j t t' b hj hr =>
      have hacc : accepted (as ++ [.task j b]) = accepted as :=
        (accepted_concat ..).trans (List.append_nil _)
      have hlt : j < s.tasks.length := (List.getElem?_eq_some_iff.1 hj).1
      refine ⟨by rw [hacc, List.length_set]; exact hi.length, fun i hle => ?_, fun i x hx => ?_⟩
      · rw [List.length_set] at hle
        have hne : j ≠ i := by omega
        rw [own_concat, hi.unborn i hle, Act.what, if_neg hne]
        rfl
      · rw [hacc] at hx
        obtain ⟨v, hv, hrun⟩ := hi.runs i x hx
        rw [own_concat, Act.what]
        by_cases hij : j = i
        · subst hij
          obtain rfl := Option.some_inj.1 (hv.symm.trans hj)
          refine ⟨t', by rw [List.getElem?_set_self hlt], ?_⟩
          rw [if_pos rfl, Option.toList_some, exec_append, hrun, Option.bind_some]
          exact exec_cons_some hr []
        · refine ⟨v, by rw [List.getElem?_set_ne hij]; exact hv, ?_⟩
          rw [if_neg hij, Option.toList_none, List.append_nil]
          exact hrun

/-- The tasks stand next to the items that they have been spawned for, and to their numbers. -/
theorem Alone.forall₂ {as : List (Act α β ε)} {R : α × ℕ → τ → Prop} (hi : S.Alone as s)
    (h : ∀ i x t, (accepted as)[i]? = some x → exec S.run (S.spawn x) (own i as) = some t →
      R (x, i) t) : List.Forall₂ R (accepted as).zipIdx s.tasks := by
  refine List.forall₂_iff_get.2 ⟨List.length_zipIdx.trans hi.length.symm, fun i hx ht => ?_⟩
  rw [List.length_zipIdx] at hx
  have hitem : (accepted as)[i]? = some (accepted as)[i] := List.getElem?_eq_getElem hx
  obtain ⟨t, htask, hrun⟩ := hi.runs i _ hitem
  have heq : s.tasks.get ⟨i, ht⟩ = t :=
    Option.some_inj.1 ((List.getElem?_eq_getElem ht).symm.trans htask)
  rw [heq, List.get_eq_getElem, List.getElem_zipIdx, Nat.zero_add]
  exact h i _ t hitem hrun

/-- **Every task has gone through a run of its own.** -/
theorem alone_of_exec {as : List (Act α β ε)} (h : exec S.step Pool.init as = some s) :
    S.Alone as s :=
  exec_invariant (I := fun as s => S.Alone as s) alone_init (fun _ _ _ _ hi hs => hi.step hs) h

/-! ### The end of the loop -/

/-- Why the loop returns what. -/
inductive Over (as : List (Act α β ε)) : Except ε Unit → Prop
  | cancelled (ha : .cancelled ∈ as) : Over as (.ok ())
  | unready {e : ε} (ha : .ready (.error e) ∈ as) : Over as (.error e)
  | failed {e : ε} (ha : .accept (.error e) ∈ as) : Over as (.error e)

/-- A reason stays one. -/
theorem Over.later {as : List (Act α β ε)} {r : Except ε Unit} (h : Over as r) (a : Act α β ε) :
    Over (as ++ [a]) r := by
  have hmem {b : Act α β ε} (hb : b ∈ as) : b ∈ as ++ [a] := List.mem_append_left _ hb
  cases h with
  | cancelled ha => exact .cancelled (hmem ha)
  | unready ha => exact .unready (hmem ha)
  | failed ha => exact .failed (hmem ha)

/-- **A loop that has returned has done so for a reason.** -/
theorem over_of_exec {as : List (Act α β ε)} {r : Except ε Unit}
    (h : exec S.step Pool.init as = some s) (hr : s.stage = .over r) : Over as r := by
  refine exec_invariant (I := fun as s => ∀ r, s.stage = .over r → Over as r) ?_ ?_ h r hr
  · intro r hr
    cases hr
  intro as s a u hi hs r hr
  have hlast : a ∈ as ++ [a] := List.mem_append_right _ (List.mem_singleton_self _)
  cases step_stepped hs with
  | ready hp => cases hr
  | unready hp =>
      cases hr
      exact .unready hlast
  | cancelled hp =>
      cases hr
      exact .cancelled hlast
  | accepted hp => cases hp.symm.trans hr
  | failed hp =>
      cases hr
      exact .failed hlast
  | task hj ht => exact (hi r hr).later _

/-- **A loop that has returned accepts nothing**, while its tasks go on. -/
theorem over_stays {as : List (Act α β ε)} {r : Except ε Unit} (hr : s.stage = .over r)
    (h : exec S.step s as = some u) : u.stage = .over r ∧ accepted as = [] := by
  refine exec_invariant (I := fun as s => s.stage = .over r ∧ accepted as = []) ⟨hr, rfl⟩ ?_ h
  rintro as s a u ⟨hs, has⟩ hstep
  cases step_stepped hstep with
  | ready hp | unready hp | cancelled hp | accepted hp | failed hp => cases hp.symm.trans hs
  | task hj ht => exact ⟨hs, by rw [accepted_concat, has]; rfl⟩

end Server

end Detached
