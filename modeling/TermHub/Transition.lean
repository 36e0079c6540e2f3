/-
**Labelled transition functions and their runs.**

A system is given by a *transition function* `step : σ → α → Option σ`: in the state `s` the
action `a` is either not enabled (`none`) or leads to one state.  Nondeterminism lives in the
choice of the action, so a run is a list of actions and can be evaluated.

Main definitions:

* `Transition.exec` — the state after performing a list of actions in order;
* `Transition.Reach` — the states reached by steps that all satisfy a side condition `ok` on the
  state before the step and the action; `Transition.Reachable` is the unconditional case;
* `Transition.Halts` — no run goes on for ever;
* `Transition.Took` — the states reached with a number of steps of one kind;
* `Transition.Along` — a predicate holds of every state a run passes through;
* `Transition.Meets` — every step of a run satisfies a side condition;
* `Transition.traced` — the system together with a history of its actions;
* `Transition.observed` — the system together with what somebody writes down who sees its states.

Main results:

* `Transition.Reach.invariant` — **the invariant rule**: what holds initially and is preserved by
  the allowed steps holds of every state reached;
* `Transition.Reach.part` — a part of a system only reaches what it reaches on its own;
* `Transition.exec_invariant` — the invariant rule for what links a state to the actions before it;
* `Transition.not_halts` — where there is always a next step, a run goes on for ever;
* `Transition.Took.budget` — **the budget rule**: steps that use up a measure which the others leave
  as it is are few;
* `Transition.along_iff_meets` — **the exactness rule**: when, under an invariant, a step keeps the
  predicate exactly if it satisfies the side condition, a whole run keeps it exactly if all of its
  steps do;
* `Transition.meets_iff_meets` — two conditions that agree wherever the first one has been met so
  far are met by the same runs;
* `Transition.exec_traced` — the history of a run is the fold of its actions;
* `Transition.exec_observed`, `Transition.meets_observed` — who observes a system does not stand in
  its way, and sees the same steps;
* `Transition.along_observed_iff_meets` — the exactness rule for a system that is observed.
-/

import Mathlib.Data.List.Induction
import Mathlib.Logic.Relation

set_option relaxedAutoImplicit false
set_option autoImplicit false

namespace Transition

/-! ### Lists that grow -/

/-- What stands in a list that has grown by one element. -/
theorem getElem?_concat_eq_some {β : Type*} {l : List β} {b x : β} {n : ℕ} :
    (l ++ [b])[n]? = some x ↔ l[n]? = some x ∨ (n = l.length ∧ x = b) := by
  constructor
  · intro h
    rw [List.getElem?_append] at h
    split at h
    · exact .inl h
    · rename_i hge
      have hlt := (List.getElem?_eq_some_iff.1 h).1
      rw [List.length_singleton] at hlt
      exact .inr ⟨by omega, List.mem_singleton.1 (List.mem_of_getElem? h)⟩
  · rintro (h | ⟨rfl, rfl⟩)
    · rw [List.getElem?_append_left (List.getElem?_eq_some_iff.1 h).1, h]
    · exact List.getElem?_concat_length

variable {σ α : Type*} {step : σ → α → Option σ}

/-! ### Runs -/

/-- The state after performing the actions in order, if each of them is enabled. -/
def exec (step : σ → α → Option σ) : σ → List α → Option σ
  | s, [] => some s
  | s, a :: as => (step s a).bind fun t => exec step t as

@[simp] theorem exec_nil (s : σ) : exec step s [] = some s := rfl

theorem exec_cons (s : σ) (a : α) (as : List α) :
    exec step s (a :: as) = (step s a).bind fun t => exec step t as := rfl

theorem exec_cons_some {s t : σ} {a : α} (h : step s a = some t) (as : List α) :
    exec step s (a :: as) = exec step t as := by
  rw [exec_cons, h, Option.bind_some]

theorem exec_append (s : σ) (as bs : List α) :
    exec step s (as ++ bs) = (exec step s as).bind fun t => exec step t bs := by
  induction as generalizing s with
  | nil => rfl
  | cons a as ih =>
      rw [List.cons_append, exec_cons, exec_cons, Option.bind_assoc]
      exact congrArg _ (funext ih)

/-! ### States reached -/

/-- The states reached from `s₀` by steps each of which satisfies `ok` in the state before it. -/
inductive Reach (step : σ → α → Option σ) (ok : σ → α → Prop) (s₀ : σ) : σ → Prop
  | refl : Reach step ok s₀ s₀
  | tail {s t : σ} {a : α} : Reach step ok s₀ s → ok s a → step s a = some t →
      Reach step ok s₀ t

/-- The states reached from `s₀`, with no condition on the steps. -/
abbrev Reachable (step : σ → α → Option σ) (s₀ : σ) : σ → Prop :=
  Reach step (fun _ _ => True) s₀

theorem Reachable.next {s₀ s t : σ} {a : α} (h : Reachable step s₀ s) (hs : step s a = some t) :
    Reachable step s₀ t := Reach.tail h trivial hs

theorem Reach.mono {ok ok' : σ → α → Prop} (hok : ∀ s a, ok s a → ok' s a) {s₀ s : σ}
    (h : Reach step ok s₀ s) : Reach step ok' s₀ s := by
  induction h with
  | refl => exact Reach.refl
  | tail _ ha hs ih => exact ih.tail (hok _ _ ha) hs

theorem Reach.reachable {ok : σ → α → Prop} {s₀ s : σ} (h : Reach step ok s₀ s) :
    Reachable step s₀ s := h.mono fun _ _ _ => trivial

theorem Reach.trans {ok : σ → α → Prop} {s₀ s t : σ} (h : Reach step ok s₀ s)
    (h' : Reach step ok s t) : Reach step ok s₀ t := by
  induction h' with
  | refl => exact h
  | tail _ ha hs ih => exact ih.tail ha hs

/-- **The invariant rule.** -/
theorem Reach.invariant {ok : σ → α → Prop} {I : σ → Prop} {s₀ s : σ}
    (h : Reach step ok s₀ s) (h₀ : I s₀)
    (hstep : ∀ s a t, I s → ok s a → step s a = some t → I t) : I s := by
  induction h with
  | refl => exact h₀
  | tail _ ha hs ih => exact hstep _ _ _ ih ha hs

/-- The invariant rule on top of an invariant that every step preserves. -/
theorem Reach.invariant_under {ok : σ → α → Prop} {I P : σ → Prop} {s₀ s : σ}
    (h : Reach step ok s₀ s) (hI₀ : I s₀) (hI : ∀ s a t, I s → step s a = some t → I t)
    (hP₀ : P s₀) (hP : ∀ s a t, I s → P s → ok s a → step s a = some t → P t) : P s := by
  have key : I s ∧ P s := by
    refine h.invariant (I := fun s => I s ∧ P s) ⟨hI₀, hP₀⟩ ?_
    rintro s a t ⟨hi, hp⟩ ha hs
    exact ⟨hI s a t hi hs, hP s a t hi hp ha hs⟩
  exact key.2

/-- **A part of a system**: where every step of the whole is a step of the part or does not touch
it, the part only reaches what it reaches on its own. -/
theorem Reach.part {τ β : Type*} {part : τ → β → Option τ} {f : σ → τ} {ok : σ → α → Prop}
    {ok' : τ → β → Prop} {s₀ s : σ}
    (hpart : ∀ s a t, ok s a → step s a = some t →
      f t = f s ∨ ∃ b, ok' (f s) b ∧ part (f s) b = some (f t))
    (h : Reach step ok s₀ s) : Reach part ok' (f s₀) (f s) := by
  induction h with
  | refl => exact Reach.refl
  | tail _ ha hs ih =>
      rcases hpart _ _ _ ha hs with heq | ⟨b, hb, hstep⟩
      · rw [heq]
        exact ih
      · exact ih.tail hb hstep

/-- A run is a way to reach its end state. -/
theorem reachable_of_exec {s t : σ} {as : List α} (h : exec step s as = some t) :
    Reachable step s t := by
  induction as generalizing s with
  | nil =>
      rw [exec_nil, Option.some_inj] at h
      exact h ▸ Reach.refl
  | cons a as ih =>
      obtain ⟨u, hu, hut⟩ := Option.bind_eq_some_iff.1 h
      exact (Reachable.next Reach.refl hu).trans (ih hut)

/-- The invariant rule for what links a state to the actions that have led to it. -/
theorem exec_invariant {I : List α → σ → Prop} {s t : σ} {as : List α} (h₀ : I [] s)
    (hstep : ∀ as s a t, I as s → step s a = some t → I (as ++ [a]) t)
    (hr : exec step s as = some t) : I as t := by
  induction as using List.reverseRecOn generalizing t with
  | nil =>
      rw [exec_nil, Option.some_inj] at hr
      exact hr ▸ h₀
  | append_singleton as a ih =>
      rw [exec_append] at hr
      obtain ⟨u, hu, hut⟩ := Option.bind_eq_some_iff.1 hr
      obtain ⟨v, hv, hvt⟩ := Option.bind_eq_some_iff.1 hut
      rw [exec_nil, Option.some_inj] at hvt
      exact hvt ▸ hstep as u a v (ih hu) hv

/-! ### Runs that end -/

/-- Every run from `s` ends, whatever is chosen. -/
def Halts (step : σ → α → Option σ) (s : σ) : Prop := Acc (fun t u => ∃ a, step u a = some t) s

theorem halts_of_stuck {s : σ} (h : ∀ a, step s a = none) : Halts step s :=
  Acc.intro s fun t ht => by
    obtain ⟨a, ha⟩ := ht
    cases (h a).symm.trans ha

/-- Where there is always a next step, a run goes on for ever. -/
theorem not_halts {I : σ → Prop} (hI : ∀ s, I s → ∃ a t, step s a = some t ∧ I t) {s : σ}
    (hs : I s) : ¬ Halts step s := by
  intro h
  induction h with
  | intro u _ ih =>
      obtain ⟨a, t, ht, hit⟩ := hI u hs
      exact ih t ⟨a, ht⟩ hit

/-! ### Steps that use up a budget -/

/-- The states reached from `s₀` by a run in which `n` steps are of the kind `mine`. -/
inductive Took (step : σ → α → Option σ) (mine : σ → α → Prop) (s₀ : σ) : ℕ → σ → Prop
  | refl : Took step mine s₀ 0 s₀
  | own {n : ℕ} {s t : σ} {a : α} : Took step mine s₀ n s → mine s a → step s a = some t →
      Took step mine s₀ (n + 1) t
  | other {n : ℕ} {s t : σ} {a : α} : Took step mine s₀ n s → ¬ mine s a → step s a = some t →
      Took step mine s₀ n t

/-- Every run takes some number of them. -/
theorem exists_took (mine : σ → α → Prop) {s t : σ} {as : List α} (h : exec step s as = some t) :
    ∃ n, Took step mine s n t := by
  induction as using List.reverseRecOn generalizing t with
  | nil =>
      rw [exec_nil, Option.some_inj] at h
      exact ⟨0, h ▸ Took.refl⟩
  | append_singleton as a ih =>
      rw [exec_append] at h
      obtain ⟨u, hu, hut⟩ := Option.bind_eq_some_iff.1 h
      obtain ⟨v, hv, hvt⟩ := Option.bind_eq_some_iff.1 hut
      rw [exec_nil, Option.some_inj] at hvt
      obtain ⟨n, hn⟩ := ih hu
      subst hvt
      by_cases ha : mine u a
      · exact ⟨n + 1, hn.own ha hv⟩
      · exact ⟨n, hn.other ha hv⟩

/-- **The budget rule**: if every step of the kind uses up some of a measure, and no other step adds
to it, then there are no more of them than the measure allows, whatever happens in between. -/
theorem Took.budget {mine : σ → α → Prop} {I : σ → Prop} {left : σ → ℕ} {s₀ s : σ} {n : ℕ}
    (h : Took step mine s₀ n s) (h₀ : I s₀) (hI : ∀ s a t, I s → step s a = some t → I t)
    (hown : ∀ s a t, I s → mine s a → step s a = some t → left t < left s)
    (hother : ∀ s a t, I s → ¬ mine s a → step s a = some t → left t ≤ left s) :
    I s ∧ n + left s ≤ left s₀ := by
  induction h with
  | refl => exact ⟨h₀, by omega⟩
  | own _ ha hs ih =>
      have hlt := hown _ _ _ ih.1 ha hs
      exact ⟨hI _ _ _ ih.1 hs, by omega⟩
  | other _ ha hs ih =>
      have hle := hother _ _ _ ih.1 ha hs
      exact ⟨hI _ _ _ ih.1 hs, by omega⟩

/-! ### Predicates along a run -/

/-- `P` holds of every state the run passes through, both ends included. -/
def Along (step : σ → α → Option σ) (P : σ → Prop) : σ → List α → Prop
  | s, [] => P s
  | s, a :: as => P s ∧ ∀ t, step s a = some t → Along step P t as

/-- Every step of the run satisfies `ok` in the state before it. -/
def Meets (step : σ → α → Option σ) (ok : σ → α → Prop) : σ → List α → Prop
  | _, [] => True
  | s, a :: as => ok s a ∧ ∀ t, step s a = some t → Meets step ok t as

/-- The run is followed step by step. -/
instance Meets.decidable {ok : σ → α → Prop} [∀ s a, Decidable (ok s a)] :
    ∀ (s : σ) (as : List α), Decidable (Meets step ok s as)
  | _, [] => .isTrue trivial
  | s, a :: as =>
    match h : step s a with
    | none => decidable_of_iff (ok s a) (by simp [Meets, h])
    | some t =>
      have : Decidable (Meets step ok t as) := Meets.decidable t as
      decidable_of_iff (ok s a ∧ Meets step ok t as) (by simp [Meets, h])

/-- The end state of a run that meets a condition is reached under it. -/
theorem Meets.reach {ok : σ → α → Prop} {s t : σ} {as : List α} (h : Meets step ok s as)
    (hr : exec step s as = some t) : Reach step ok s t := by
  induction as generalizing s with
  | nil =>
      rw [exec_nil, Option.some_inj] at hr
      exact hr ▸ Reach.refl
  | cons a as ih =>
      obtain ⟨u, hu, hut⟩ := Option.bind_eq_some_iff.1 hr
      exact (Reach.refl.tail h.1 hu).trans (ih (h.2 u hu) hut)

/-- The condition at one step of a run. -/
theorem Meets.at {ok : σ → α → Prop} {s t : σ} {as bs : List α} {b : α}
    (h : Meets step ok s (as ++ b :: bs)) (hr : exec step s as = some t) : ok t b := by
  induction as generalizing s with
  | nil =>
      rw [exec_nil, Option.some_inj] at hr
      exact hr ▸ h.1
  | cons a as ih =>
      obtain ⟨u, hu, hut⟩ := Option.bind_eq_some_iff.1 hr
      exact ih (h.2 u hu) hut

/-- A condition on the actions alone is met if all of them satisfy it. -/
theorem meets_of_forall {P : α → Prop} {as : List α} (h : ∀ a ∈ as, P a) (s : σ) :
    Meets step (fun _ a => P a) s as := by
  induction as generalizing s with
  | nil => trivial
  | cons a as ih =>
      exact ⟨h a List.mem_cons_self, fun t _ => ih (fun b hb => h b (List.mem_cons_of_mem a hb)) t⟩

theorem Along.head {P : σ → Prop} {s : σ} {as : List α} (h : Along step P s as) : P s := by
  cases as with
  | nil => exact h
  | cons a as => exact h.1

theorem Along.last {P : σ → Prop} {s t : σ} {as : List α} (h : Along step P s as)
    (hr : exec step s as = some t) : P t := by
  induction as generalizing s with
  | nil =>
      rw [exec_nil, Option.some_inj] at hr
      exact hr ▸ h
  | cons a as ih =>
      obtain ⟨u, hu, hut⟩ := Option.bind_eq_some_iff.1 hr
      exact ih (h.2 u hu) hut

/-- **The exactness rule**: if under the invariant `I` a step from a state with `P` keeps `P`
exactly when it satisfies `ok`, then a run from a state with `P` keeps `P` exactly when all of
its steps satisfy `ok`. -/
theorem along_iff_meets {I P : σ → Prop} {ok : σ → α → Prop}
    (hI : ∀ s a t, I s → step s a = some t → I t)
    (hP : ∀ s a t, I s → P s → step s a = some t → (P t ↔ ok s a))
    {s t : σ} {as : List α} (hi : I s) (hp : P s) (hr : exec step s as = some t) :
    Along step P s as ↔ Meets step ok s as := by
  induction as generalizing s with
  | nil => exact ⟨fun _ => trivial, fun _ => hp⟩
  | cons a as ih =>
      obtain ⟨u, hu, hut⟩ := Option.bind_eq_some_iff.1 hr
      have hiu : I u := hI s a u hi hu
      have hpu : P u ↔ ok s a := hP s a u hi hp hu
      constructor
      · rintro ⟨_, h⟩
        have hu' : P u := (h u hu).head
        refine ⟨hpu.1 hu', fun v hv => ?_⟩
        obtain rfl : u = v := Option.some_inj.1 (hu.symm.trans hv)
        exact (ih hiu hu' hut).1 (h u hu)
      · rintro ⟨ha, h⟩
        refine ⟨hp, fun v hv => ?_⟩
        obtain rfl : u = v := Option.some_inj.1 (hu.symm.trans hv)
        exact (ih hiu (hpu.2 ha) hut).2 (h u hu)

/-- Two conditions on the steps are met by the same runs, if they agree in every state that steps
which satisfy the first one lead to. -/
theorem meets_iff_meets {I : σ → Prop} {ok ok' : σ → α → Prop}
    (hI : ∀ s a t, I s → ok s a → step s a = some t → I t)
    (hok : ∀ s a t, I s → step s a = some t → (ok s a ↔ ok' s a))
    {s t : σ} {as : List α} (hi : I s) (hr : exec step s as = some t) :
    Meets step ok s as ↔ Meets step ok' s as := by
  induction as generalizing s with
  | nil => exact Iff.rfl
  | cons a as ih =>
      obtain ⟨u, hu, hut⟩ := Option.bind_eq_some_iff.1 hr
      have ha : ok s a ↔ ok' s a := hok s a u hi hu
      constructor
      · rintro ⟨h, hs⟩
        refine ⟨ha.1 h, fun v hv => ?_⟩
        obtain rfl : u = v := Option.some_inj.1 (hu.symm.trans hv)
        exact (ih (hI s a u hi h hu) hut).1 (hs u hu)
      · rintro ⟨h, hs⟩
        refine ⟨ha.2 h, fun v hv => ?_⟩
        obtain rfl : u = v := Option.some_inj.1 (hu.symm.trans hv)
        exact (ih (hI s a u hi (ha.2 h) hu) hut).2 (hs u hu)

/-! ### Histories -/

section History

variable {γ : Type*} {note : γ → α → γ}

/-- The system with a history, in which every action is noted. -/
def traced (step : σ → α → Option σ) (note : γ → α → γ) (p : γ × σ) (a : α) : Option (γ × σ) :=
  (step p.2 a).map fun t => (note p.1 a, t)

theorem traced_eq_some {p q : γ × σ} {a : α} :
    traced step note p a = some q ↔ q.1 = note p.1 a ∧ step p.2 a = some q.2 := by
  unfold traced
  rw [Option.map_eq_some_iff]
  constructor
  · rintro ⟨t, ht, rfl⟩
    exact ⟨rfl, ht⟩
  · rintro ⟨hq, hs⟩
    exact ⟨q.2, hs, Prod.ext hq.symm rfl⟩

/-- The history does not stand in the way of the system, and it is the fold of the actions. -/
theorem exec_traced (c : γ) (s : σ) (as : List α) :
    exec (traced step note) (c, s) as =
      (exec step s as).map fun t => (as.foldl note c, t) := by
  induction as generalizing c s with
  | nil => rfl
  | cons a as ih =>
      rw [exec_cons, exec_cons]
      cases h : step s a with
      | none => simp [traced, h]
      | some t => simp [traced, h, ih]

end History

section Observer

variable {γ : Type*} {note : γ → σ → α → σ → γ}

/-- The system with an observer, who notes every action together with the states around it. -/
def observed (step : σ → α → Option σ) (note : γ → σ → α → σ → γ) (p : γ × σ) (a : α) :
    Option (γ × σ) := (step p.2 a).map fun t => (note p.1 p.2 a t, t)

theorem observed_eq_some {p q : γ × σ} {a : α} :
    observed step note p a = some q ↔ q.1 = note p.1 p.2 a q.2 ∧ step p.2 a = some q.2 := by
  unfold observed
  rw [Option.map_eq_some_iff]
  constructor
  · rintro ⟨t, ht, rfl⟩
    exact ⟨rfl, ht⟩
  · rintro ⟨hq, hs⟩
    exact ⟨q.2, hs, Prod.ext hq.symm rfl⟩

/-- Every run of the system is observed. -/
theorem exec_observed (c : γ) {s t : σ} {as : List α} (h : exec step s as = some t) :
    ∃ d, exec (observed step note) (c, s) as = some (d, t) := by
  induction as generalizing c s with
  | nil =>
      rw [exec_nil, Option.some_inj] at h
      exact ⟨c, by rw [h]; rfl⟩
  | cons a as ih =>
      obtain ⟨u, hu, hut⟩ := Option.bind_eq_some_iff.1 h
      obtain ⟨d, hd⟩ := ih (note c s a u) hut
      have hstep : observed step note (c, s) a = some (note c s a u, u) :=
        observed_eq_some.2 ⟨rfl, hu⟩
      exact ⟨d, by rw [exec_cons_some hstep, hd]⟩

/-- A condition on the steps of the system does not depend on the observer. -/
theorem meets_observed {ok : σ → α → Prop} (c : γ) (s : σ) (as : List α) :
    Meets (observed step note) (fun p a => ok p.2 a) (c, s) as ↔ Meets step ok s as := by
  induction as generalizing c s with
  | nil => exact Iff.rfl
  | cons a as ih =>
      refine and_congr_right fun _ => ⟨fun h t ht => ?_, fun h q hq => ?_⟩
      · exact (ih _ t).1 (h (note c s a t, t) (observed_eq_some.2 ⟨rfl, ht⟩))
      · obtain ⟨-, hs⟩ := observed_eq_some.1 hq
        exact (ih q.1 q.2).2 (h q.2 hs)

/-- The exactness rule for what links a state to what has been written down before it. -/
theorem along_observed_iff_meets {I P : γ → σ → Prop} {ok : γ → σ → α → Prop}
    (hI : ∀ c s a t, I c s → step s a = some t → I (note c s a t) t)
    (hP : ∀ c s a t, I c s → P c s → step s a = some t → (P (note c s a t) t ↔ ok c s a))
    {c : γ} {s t : σ} {as : List α} (hi : I c s) (hp : P c s) (hr : exec step s as = some t) :
    Along (observed step note) (fun p => P p.1 p.2) (c, s) as ↔
      Meets (observed step note) (fun p => ok p.1 p.2) (c, s) as := by
  obtain ⟨d, hd⟩ := exec_observed c hr
  refine along_iff_meets (I := fun p => I p.1 p.2) ?_ ?_ hi hp hd
  · intro p a q hi hs
    obtain ⟨hq, hs⟩ := observed_eq_some.1 hs
    rw [hq]
    exact hI _ _ _ _ hi hs
  · intro p a q hi hp hs
    obtain ⟨hq, hs⟩ := observed_eq_some.1 hs
    rw [hq]
    exact hP _ _ _ _ hi hp hs

end Observer

end Transition
