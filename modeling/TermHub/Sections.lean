/-
**Programs made of atomic sections.**

Asynchronous code that shares a state runs in *sections*: what it does between two suspension
points, or while it holds a lock, is one indivisible update of the shared state, and other code
may run in between.  `Sections.Prog σ α` is the type of such programs: a section waits until the
state is `ready`, updates it, and goes on with a program that may depend on what it saw.

One definition of an operation then has two readings.  Run on its own it is a partial function of
the state (`Prog.run`, undefined where a section would wait for ever); run next to another
operation it is one of the interleavings of `Sections.Par`, in which the environment may also
move between any two sections.

Main definitions:

* `Sections.Prog`, `Prog.bind`, `Prog.atomic`, `Prog.await` — programs and how they are built;
* `Prog.run` — a program run on its own;
* `Prog.first` — a program on a part of the state;
* `Sections.Par` — two programs run to their ends in some interleaving;
* `Prog.Ensures` — what a program brings about next to an environment;
* `Sections.Sim` — a simulation of programs over two state types, in which a section may be
  matched by a section or by nothing;
* `Prog.Updates`, `Prog.Stable`, `Sections.Independent` — the updates a program makes, and
  programs whose sections commute with each other;
* `Sections.look` — a section that only looks at the state;
* `modifyAt` — a change of one value of a keyed store.

Main results:

* `Sections.Par.sim` — **simulation of interleavings**: an interleaving of two programs is
  matched by an interleaving of the programs that simulate them;
* `Sections.Par.left_first` — **independent programs are serializable**: an interleaving ends
  where running the first program and then the second ends;
* `Sections.Par.look_right`, `Par.look_or_after` — where a read stands in an interleaving;
* `Sections.Par.last` — one of the last sections comes last.
-/

import Mathlib.Logic.Function.Basic
import Mathlib.Logic.Relation

set_option relaxedAutoImplicit false
set_option autoImplicit false

namespace Sections

universe u v

/-- A program over the shared state `σ` with results in `α`. -/
inductive Prog (σ : Type u) (α : Type v) : Type (max u v)
  | ret (a : α) : Prog σ α
  | sec (ready : σ → Bool) (upd : σ → σ) (next : σ → Prog σ α) : Prog σ α

namespace Prog

variable {σ : Type u} {α β : Type v}

/-- Run a program, then the program chosen by its result. -/
def bind : Prog σ α → (α → Prog σ β) → Prog σ β
  | ret a, f => f a
  | sec r u n, f => sec r u fun s => (n s).bind f

instance : Monad (Prog σ) where
  pure := ret
  bind := bind

/-- One section that is always ready: read the state, return a value and leave a new state. -/
def atomic (f : σ → α × σ) : Prog σ α :=
  sec (fun _ => true) (fun s => (f s).2) fun s => ret (f s).1

/-- One section that waits until the state is `ready`. -/
def await (ready : σ → Bool) (upd : σ → σ) : Prog σ PUnit :=
  sec ready upd fun _ => ret PUnit.unit

@[simp] theorem pure_eq (a : α) : (pure a : Prog σ α) = ret a := rfl

@[simp] theorem ret_bind (a : α) (f : α → Prog σ β) : ret a >>= f = f a := rfl

@[simp] theorem sec_bind (r : σ → Bool) (u : σ → σ) (n : σ → Prog σ α) (f : α → Prog σ β) :
    sec r u n >>= f = sec r u fun s => n s >>= f := rfl

theorem bind_assoc {γ : Type v} (p : Prog σ α) (f : α → Prog σ β) (g : β → Prog σ γ) :
    p >>= f >>= g = p >>= fun x => f x >>= g := by
  induction p with
  | ret a => rfl
  | sec r u n ih =>
      rw [sec_bind, sec_bind, sec_bind]
      exact congrArg _ (funext ih)

/-! ### Running a program on its own -/

/-- The result and the final state of a program run on its own, if it never waits for ever. -/
def run : Prog σ α → σ → Option (α × σ)
  | ret a, s => some (a, s)
  | sec r u n, s => if r s then (n s).run (u s) else none

@[simp] theorem run_ret (a : α) (s : σ) : (ret a : Prog σ α).run s = some (a, s) := rfl

theorem run_sec (r : σ → Bool) (u : σ → σ) (n : σ → Prog σ α) (s : σ) :
    (sec r u n).run s = if r s then (n s).run (u s) else none := rfl

@[simp] theorem run_atomic (f : σ → α × σ) (s : σ) : (atomic f).run s = some (f s) := rfl

@[simp] theorem run_bind (p : Prog σ α) (f : α → Prog σ β) (s : σ) :
    (p >>= f).run s = (p.run s).bind fun x => (f x.1).run x.2 := by
  induction p generalizing s with
  | ret a => rfl
  | sec r u n ih =>
      rw [sec_bind, run_sec, run_sec]
      cases r s with
      | true => exact ih s (u s)
      | false => rfl

/-! ### A program on a part of the state -/

/-- A program on the first part of the state, next to a second one. -/
def first {ρ : Type u} : Prog σ α → Prog (σ × ρ) α
  | ret a => ret a
  | sec r u n => sec (fun s => r s.1) (fun s => (u s.1, s.2)) fun s => (n s.1).first

/-! ### The updates a program makes -/

/-- Every update the program can make satisfies `P`. -/
def Updates (P : (σ → σ) → Prop) : Prog σ α → Prop
  | ret _ => True
  | sec _ u n => P u ∧ ∀ s, (n s).Updates P

theorem Updates.mono {P Q : (σ → σ) → Prop} (hPQ : ∀ u, P u → Q u) {p : Prog σ α}
    (h : p.Updates P) : p.Updates Q := by
  induction p with
  | ret a => trivial
  | sec r u n ih => exact ⟨hPQ u h.1, fun s => ih s (h.2 s)⟩

theorem Updates.bind {P : (σ → σ) → Prop} {p : Prog σ α} {f : α → Prog σ β}
    (hp : p.Updates P) (hf : ∀ a, (f a).Updates P) : (p >>= f).Updates P := by
  induction p with
  | ret a => exact hf a
  | sec r u n ih => exact ⟨hp.1, fun s => ih s (hp.2 s)⟩

/-- What every update of a program preserves, the program run on its own preserves. -/
theorem Updates.run_preserves {I : σ → Prop} {p : Prog σ α}
    (h : p.Updates fun u => ∀ s, I s → I (u s)) {s t : σ} {a : α}
    (hr : p.run s = some (a, t)) (hs : I s) : I t := by
  induction p generalizing s with
  | ret b =>
      obtain ⟨rfl, rfl⟩ : b = a ∧ s = t := by simpa using hr
      exact hs
  | sec r u n ih =>
      rw [run_sec] at hr
      split at hr
      · exact ih s (h.2 s) hr (h.1 s hs)
      · exact absurd hr (by simp)

/-- The program does the same before and after the update `g`, and its own updates commute
with `g`. -/
def Stable (g : σ → σ) : Prog σ α → Prop
  | ret _ => True
  | sec r u n => (∀ s, r (g s) = r s) ∧ (∀ s, u (g s) = g (u s)) ∧ (∀ s, n (g s) = n s) ∧
      ∀ s, (n s).Stable g

theorem Stable.run_comm {g : σ → σ} {p : Prog σ α} (h : p.Stable g) (s : σ) :
    p.run (g s) = (p.run s).map fun x => (x.1, g x.2) := by
  induction p generalizing s with
  | ret a => rfl
  | sec r u n ih =>
      obtain ⟨hr, hu, hn, hst⟩ := h
      rw [run_sec, run_sec, hr, hu, hn]
      cases r s with
      | true => exact ih s (hst s) (u s)
      | false => rfl

end Prog

open Prog

variable {σ τ : Type u} {α β γ δ : Type v}

/-! ### Interleavings -/

/-- `Par env p q s a b t`: the programs `p` and `q`, started together in the state `s`, have both
run to their ends in some interleaving, with results `a` and `b` and final state `t`; the
environment may make steps of `env` in between. -/
inductive Par (env : σ → σ → Prop) : Prog σ α → Prog σ β → σ → α → β → σ → Prop
  | done (a : α) (b : β) (s : σ) : Par env (ret a) (ret b) s a b s
  | left {r : σ → Bool} {u : σ → σ} {n : σ → Prog σ α} {q : Prog σ β} {s t : σ} {a : α} {b : β} :
      r s = true → Par env (n s) q (u s) a b t → Par env (sec r u n) q s a b t
  | right {p : Prog σ α} {r : σ → Bool} {u : σ → σ} {n : σ → Prog σ β} {s t : σ} {a : α} {b : β} :
      r s = true → Par env p (n s) (u s) a b t → Par env p (sec r u n) s a b t
  | env {p : Prog σ α} {q : Prog σ β} {s s' t : σ} {a : α} {b : β} :
      env s s' → Par env p q s' a b t → Par env p q s a b t

/-- The interleavings of `p` and `q` are those of `q` and `p`. -/
theorem Par.symm {env : σ → σ → Prop} {p : Prog σ α} {q : Prog σ β} {s t : σ} {a : α} {b : β}
    (h : Par env p q s a b t) : Par env q p s b a t := by
  induction h with
  | done a b s => exact Par.done b a s
  | left hr _ ih => exact Par.right hr ih
  | right hr _ ih => exact Par.left hr ih
  | env he _ ih => exact Par.env he ih

/-- No step of the environment. -/
def alone : σ → σ → Prop := fun _ _ => False

/-! ### A program next to an environment -/

/-- Whatever the environment does before each section of the program, its result and the state at
its end satisfy `Q`. -/
def Prog.Ensures (env : σ → σ → Prop) (Q : α → σ → Prop) : Prog σ α → σ → Prop
  | ret a, s => Q a s
  | sec r u n, s => ∀ t, Relation.ReflTransGen env s t → r t = true → (n t).Ensures env Q (u t)

namespace Prog

variable {env : σ → σ → Prop} {Q : α → σ → Prop}

theorem Ensures.of_forall {p : Prog σ α} (h : ∀ a s, Q a s) (s : σ) : p.Ensures env Q s := by
  induction p generalizing s with
  | ret a => exact h a s
  | sec r u n ih => exact fun t _ _ => ih t (u t)

theorem Ensures.mono {R : α → σ → Prop} (h : ∀ a s, Q a s → R a s) {p : Prog σ α} {s : σ}
    (hp : p.Ensures env Q s) : p.Ensures env R s := by
  induction p generalizing s with
  | ret a => exact h a s hp
  | sec r u n ih => exact fun t ht hr => ih t (hp t ht hr)

/-- The program does its next section. -/
theorem Ensures.next {r : σ → Bool} {u : σ → σ} {n : σ → Prog σ α} {s : σ}
    (h : (sec r u n).Ensures env Q s) (hr : r s = true) : (n s).Ensures env Q (u s) :=
  h s Relation.ReflTransGen.refl hr

/-- The environment moves first. -/
theorem Ensures.after_env {p : Prog σ α} {s t : σ} (h : p.Ensures env Q s)
    (hQ : ∀ a s t, env s t → Q a s → Q a t) (he : env s t) : p.Ensures env Q t := by
  cases p with
  | ret a => exact hQ a s t he h
  | sec r u n => exact fun v hv hr => h v (hv.head he) hr

/-- **The rule of composition.** -/
theorem Ensures.bind {R : β → σ → Prop} {p : Prog σ α} {f : α → Prog σ β} {s : σ}
    (h : p.Ensures env (fun a s => (f a).Ensures env R s) s) : (p >>= f).Ensures env R s := by
  induction p generalizing s with
  | ret a => exact h
  | sec r u n ih =>
      intro t ht hr
      exact ih t (h t ht hr)

/-- The first section is always ready. -/
theorem Ensures.atomic {R : β → σ → Prop} {f : σ → α × σ} {g : α → Prog σ β} {s : σ}
    (h : ∀ t, Relation.ReflTransGen env s t → (g (f t).1).Ensures env R (f t).2) :
    (atomic f >>= g).Ensures env R s := fun t ht _ => h t ht

/-- What the updates and the environment preserve holds at the end. -/
theorem Ensures.of_updates {I : σ → Prop} {p : Prog σ α}
    (hp : p.Updates fun u => ∀ s, I s → I (u s)) (he : ∀ s t, env s t → I s → I t) {s : σ}
    (hs : I s) : p.Ensures env (fun _ => I) s := by
  induction p generalizing s with
  | ret a => exact hs
  | sec r u n ih =>
      have hI : ∀ t, Relation.ReflTransGen env s t → I t := by
        intro t ht
        induction ht with
        | refl => exact hs
        | tail _ h ih => exact he _ _ h ih
      exact fun t ht _ => ih t (hp.2 t) (hp.1 t (hI t ht))

end Prog

/-! ### Serializability of independent programs -/

/-- Every section of either program commutes with every section of the other, and neither reads
what the other writes. -/
def Independent (p : Prog σ α) (q : Prog σ β) : Prop :=
  p.Updates (fun g => q.Stable g) ∧ q.Updates (fun g => p.Stable g)

theorem Independent.symm {p : Prog σ α} {q : Prog σ β} (h : Independent p q) :
    Independent q p := ⟨h.2, h.1⟩

/-- A program run on its own leaves the first section of a program that is stable under its
updates as ready as it was, and with the same continuation. -/
theorem head_of_updates {p : Prog σ α} {r : σ → Bool} {u : σ → σ} {n : σ → Prog σ β}
    (h : p.Updates fun g => (sec r u n).Stable g) {s t : σ} {a : α}
    (hr : p.run s = some (a, t)) : r t = r s ∧ n t = n s := by
  have key : p.Updates fun g => ∀ x, (r x = r s ∧ n x = n s) → (r (g x) = r s ∧ n (g x) = n s) := by
    refine h.mono fun g hg x hx => ?_
    exact ⟨(hg.1 x).trans hx.1, (hg.2.2.1 x).trans hx.2⟩
  exact key.run_preserves hr ⟨rfl, rfl⟩

/-- **Independent programs are serializable**: an interleaving with no step of the environment
ends as running the left program and then the right one does. -/
theorem Par.left_first {p : Prog σ α} {q : Prog σ β} {s t : σ} {a : α} {b : β}
    (h : Par alone p q s a b t) (hi : Independent p q) :
    ∃ m, p.run s = some (a, m) ∧ q.run m = some (b, t) := by
  induction h with
  | done a b s => exact ⟨s, rfl, rfl⟩
  | left hr _ ih =>
      obtain ⟨m, hm, hmt⟩ := ih ⟨hi.1.2 _, hi.2.mono fun g hg => hg.2.2.2 _⟩
      refine ⟨m, ?_, hmt⟩
      rw [run_sec, hr, if_pos rfl, hm]
  | @right p r u n s t a b hr _ ih =>
      obtain ⟨m, hm, hmt⟩ := ih ⟨hi.1.mono fun g hg => hg.2.2.2 _, hi.2.2 _⟩
      -- the section of `q` that came first is moved behind the whole run of `p`
      rw [hi.2.1.run_comm] at hm
      obtain ⟨⟨a', m'⟩, hm', hx⟩ := Option.map_eq_some_iff.1 hm
      obtain ⟨rfl, rfl⟩ : a' = a ∧ u m' = m := by simpa using hx
      obtain ⟨hrm, hnm⟩ := head_of_updates hi.1 hm'
      refine ⟨m', hm', ?_⟩
      rw [run_sec, hrm, hr, if_pos rfl, hnm, hmt]
  | env he _ _ => exact he.elim

/-! ### Reading, and ending last -/

/-- One section that only looks at the state. -/
def look {ρ : Type v} (f : σ → ρ) : Prog σ ρ := atomic fun s => (f s, s)

/-- One of the programs has ended: the other runs on its own. -/
theorem Par.of_ret_left {q : Prog σ β} {s t : σ} {a a' : α} {b : β}
    (h : Par alone (ret a) q s a' b t) : a = a' ∧ q.run s = some (b, t) := by
  -- the left program has no section, so every step is one of the right program
  generalize hp : (ret a : Prog σ α) = p at h
  induction h with
  | done a b s =>
      cases hp
      exact ⟨rfl, rfl⟩
  | left _ _ _ => cases hp
  | right hr _ ih =>
      obtain ⟨ha, hrun⟩ := ih hp
      exact ⟨ha, by rw [run_sec, hr, if_pos rfl, hrun]⟩
  | env he _ _ => exact he.elim

theorem Par.of_ret_right {p : Prog σ α} {s t : σ} {a : α} {b b' : β}
    (h : Par alone p (ret b) s a b' t) : b = b' ∧ p.run s = some (a, t) :=
  h.symm.of_ret_left

/-- Running a program next to one that has ended. -/
theorem Par.ret_left {env : σ → σ → Prop} (a : α) {q : Prog σ β} {s t : σ} {b : β}
    (h : q.run s = some (b, t)) : Par env (ret a) q s a b t := by
  induction q generalizing s with
  | ret b' =>
      obtain ⟨rfl, rfl⟩ : b' = b ∧ s = t := by simpa using h
      exact Par.done a b' s
  | sec r u n ih =>
      rw [run_sec] at h
      split at h
      · rename_i hr
        exact Par.right hr (ih s h)
      · cases h

/-- The right program runs first, then the left one. -/
theorem Par.right_then {env : σ → σ → Prop} {p : Prog σ α} {q : Prog σ β} {s m t : σ} {a : α}
    {b : β} (hq : q.run s = some (b, m)) (hp : p.run m = some (a, t)) : Par env p q s a b t := by
  induction q generalizing s with
  | ret b' =>
      obtain ⟨rfl, rfl⟩ : b' = b ∧ s = m := by simpa using hq
      exact (Par.ret_left b' hp).symm
  | sec r u n ih =>
      rw [run_sec] at hq
      split at hq
      · rename_i hr
        exact Par.right hr (ih s hq)
      · cases hq

/-- **A read can be moved to the start** when the other program does not change what it reads. -/
theorem Par.look_right {ρ : Type v} {f : σ → ρ} {c : ρ} {p : Prog σ α} {q : ρ → Prog σ β}
    {s t : σ} {a : α} {b : β}
    (h : Par alone p (look f >>= q) s a b t) (hp : p.Updates fun u => ∀ s, f s = c → f (u s) = c)
    (hs : f s = c) : Par alone p (q c) s a b t := by
  generalize hq : look f >>= q = q' at h
  induction h with
  | done a b s => cases hq
  | left hr _ ih => exact Par.left hr (ih (hp.2 _) (hp.1 _ hs) hq)
  | right hr h _ =>
      cases hq
      rw [← hs]
      exact h
  | env he _ _ => exact he.elim

/-- Of two programs that start with a read, one reads first. -/
theorem Par.first_look {ρ τ : Type v} {f : σ → ρ} {g : σ → τ} {p : ρ → Prog σ α}
    {q : τ → Prog σ β} {s t : σ} {a : α} {b : β}
    (h : Par alone (look f >>= p) (look g >>= q) s a b t) :
    Par alone (p (f s)) (look g >>= q) s a b t ∨ Par alone (look f >>= p) (q (g s)) s a b t := by
  generalize hp : look f >>= p = p' at h
  generalize hq : look g >>= q = q' at h
  cases h with
  | done a b s => cases hp
  | left _ h =>
      cases hp
      exact Or.inl (hq ▸ h)
  | right _ h =>
      cases hq
      exact Or.inr (hp ▸ h)
  | env he _ => exact he.elim

/-- A read either comes before the last section of the other program, or after the whole of it. -/
theorem Par.look_or_after {ρ : Type v} {f : σ → ρ} {c : ρ} {p : ρ → Prog σ α} {q : Prog σ γ}
    {F : γ → σ → β × σ} {s t : σ} {a : α} {b : β}
    (h : Par alone (look f >>= p) (q >>= fun y => atomic (F y)) s a b t)
    (hq : q.Updates fun u => ∀ s, f s = c → f (u s) = c) (hs : f s = c) :
    Par alone (p c) (q >>= fun y => atomic (F y)) s a b t ∨
      ∃ m, (q >>= fun y => atomic (F y)).run s = some (b, m) ∧
        (look f >>= p).run m = some (a, t) := by
  -- the induction is on the sections of `q` before its last one: the read comes before one of them,
  -- before the last one, or after it
  induction q generalizing s with
  | ret y =>
      rw [ret_bind] at h ⊢
      generalize hp : look f >>= p = p' at h
      generalize hq : (atomic (F y) : Prog σ β) = q' at h
      cases h with
      | done a b s => cases hp
      | left hr h =>
          cases hp
          exact Or.inl (hs ▸ hq ▸ h)
      | right hr h =>
          cases hq
          obtain ⟨rfl, hrun⟩ := h.of_ret_right
          exact Or.inr ⟨_, rfl, hp ▸ hrun⟩
      | env he _ => exact he.elim
  | sec r u n ih =>
      rw [sec_bind] at h ⊢
      generalize hp : look f >>= p = p' at h
      generalize hq' : (sec r u fun s => n s >>= fun y => atomic (F y)) = q' at h
      cases h with
      | done a b s => cases hp
      | left hr h =>
          cases hp
          exact Or.inl (hs ▸ hq' ▸ h)
      | right hr h =>
          cases hq'
          rw [← hp] at h
          obtain h' | ⟨m, hm, hmt⟩ := ih s h (hq.2 s) (hq.1 s hs)
          · exact Or.inl (Par.right hr h')
          · exact Or.inr ⟨m, by rw [run_sec, hr, if_pos rfl, hm], hp ▸ hmt⟩
      | env he _ => exact he.elim

/-- **One of the last sections comes last**: either that of the left program, after everything
else, or that of the right program. -/
theorem Par.last {p : Prog σ γ} {q : Prog σ δ} {F : γ → σ → α × σ} {G : δ → σ → β × σ} {s t : σ}
    {a : α} {b : β}
    (h : Par alone (p >>= fun x => atomic (F x)) (q >>= fun y => atomic (G y)) s a b t) :
    (∃ x m, Par alone p (q >>= fun y => atomic (G y)) s x b m ∧ F x m = (a, t)) ∨
      ∃ y m, Par alone (p >>= fun x => atomic (F x)) q s a y m ∧ G y m = (b, t) := by
  generalize hp : (p >>= fun x => atomic (F x)) = p' at h
  generalize hq : (q >>= fun y => atomic (G y)) = q' at h
  induction h generalizing p q with
  | done a b s => cases p <;> cases hp
  | @left r u n q' s t a b hr h ih =>
      cases p with
      | ret x =>
          -- the left program has ended; the right one ends last
          cases hp
          obtain ⟨rfl, hrun⟩ := h.of_ret_left
          rw [← hq, run_bind] at hrun
          obtain ⟨⟨y, m⟩, hy, hG⟩ := Option.bind_eq_some_iff.1 hrun
          exact Or.inr ⟨y, m, Par.left rfl (Par.ret_left _ hy), Option.some_inj.1 hG⟩
      | sec r' u' n' =>
          cases hp
          obtain ⟨x, m, hx, hF⟩ | ⟨y, m, hy, hG⟩ := ih rfl hq
          · exact Or.inl ⟨x, m, Par.left hr (hq ▸ hx), hF⟩
          · exact Or.inr ⟨y, m, Par.left hr hy, hG⟩
  | @right p' r u n s t a b hr h ih =>
      cases q with
      | ret y =>
          cases hq
          obtain ⟨rfl, hrun⟩ := h.of_ret_right
          rw [← hp, run_bind] at hrun
          obtain ⟨⟨x, m⟩, hx, hF⟩ := Option.bind_eq_some_iff.1 hrun
          exact Or.inl ⟨x, m, Par.right rfl (Par.ret_left _ hx).symm, Option.some_inj.1 hF⟩
      | sec r' u' n' =>
          cases hq
          obtain ⟨x, m, hx, hF⟩ | ⟨y, m, hy, hG⟩ := ih hp rfl
          · exact Or.inl ⟨x, m, Par.right hr hx, hF⟩
          · exact Or.inr ⟨y, m, Par.right hr (hp ▸ hy), hG⟩
  | env he _ _ => exact he.elim

/-! ### Simulation -/

/-- `Sim R Q p q`: the program `q` over the state type `τ` simulates `p` over `σ`.  States are
related by `R` and results by `Q`; a section of `p` is matched by one section of `q` or by
nothing. -/
inductive Sim (R : σ → τ → Prop) (Q : α → β → Prop) : Prog σ α → Prog τ β → Prop
  | ret {a : α} {b : β} : Q a b → Sim R Q (ret a) (ret b)
  | stutter {r : σ → Bool} {u : σ → σ} {n : σ → Prog σ α} {q : Prog τ β} :
      (∀ s o, R s o → R (u s) o) → (∀ s o, R s o → Sim R Q (n s) q) → Sim R Q (sec r u n) q
  | step {r : σ → Bool} {u : σ → σ} {n : σ → Prog σ α} {r' : τ → Bool} {u' : τ → τ}
      {n' : τ → Prog τ β} :
      (∀ s o, R s o → r s = true → r' o = true) → (∀ s o, R s o → R (u s) (u' o)) →
      (∀ s o, R s o → Sim R Q (n s) (n' o)) → Sim R Q (sec r u n) (sec r' u' n')

theorem Sim.bind {R : σ → τ → Prop} {Q : α → β → Prop} {Q' : γ → δ → Prop} {p : Prog σ α}
    {q : Prog τ β} {f : α → Prog σ γ} {g : β → Prog τ δ} (h : Sim R Q p q)
    (hf : ∀ a b, Q a b → Sim R Q' (f a) (g b)) : Sim R Q' (p >>= f) (q >>= g) := by
  induction h with
  | ret hab => exact hf _ _ hab
  | stutter hu _ ih => exact Sim.stutter hu ih
  | step hr hu _ ih => exact Sim.step hr hu ih

/-- A program that ends with the sections of `f`, which the simulating program does not see. -/
theorem Sim.bind_ret {R : σ → τ → Prop} {Q : α → β → Prop} {Q' : γ → β → Prop} {p : Prog σ α}
    {q : Prog τ β} {f : α → Prog σ γ} (h : Sim R Q p q)
    (hf : ∀ a b, Q a b → Sim R Q' (f a) (Prog.ret b)) : Sim R Q' (p >>= f) q := by
  induction h with
  | ret hab => exact hf _ _ hab
  | stutter hu _ ih => exact Sim.stutter hu ih
  | step hr hu _ ih => exact Sim.step hr hu ih

/-- The simulating program goes on to return something else. -/
theorem Sim.map_right {R : σ → τ → Prop} {Q : α → β → Prop} {Q' : α → γ → Prop} {p : Prog σ α}
    {q : Prog τ β} {c : β → γ} (h : Sim R Q p q) (hc : ∀ a b, Q a b → Q' a (c b)) :
    Sim R Q' p (q >>= fun b => Prog.ret (c b)) := by
  induction h with
  | ret hab => exact Sim.ret (hc _ _ hab)
  | stutter hu _ ih => exact Sim.stutter hu ih
  | step hr hu _ ih => exact Sim.step hr hu ih

/-- A program that starts with sections that the simulating program does not see. -/
theorem Sim.ret_bind {R : σ → τ → Prop} {Q : α → β → Prop} {Q' : γ → δ → Prop} {p : Prog σ α}
    {b : β} {f : α → Prog σ γ} {q : Prog τ δ} (h : Sim R Q p (Prog.ret b))
    (hf : ∀ a, Q a b → Sim R Q' (f a) q) : Sim R Q' (p >>= f) q := by
  generalize hq : (Prog.ret b : Prog τ β) = r at h
  induction h with
  | ret hab =>
      cases hq
      exact hf _ hab
  | stutter hu _ ih => exact Sim.stutter hu fun s o hR => ih s o hR hq
  | step _ _ _ _ => cases hq

/-- A first section that the simulating program does not see. -/
theorem Sim.atomic_skip {R : σ → τ → Prop} {Q : γ → β → Prop} {f : σ → α × σ}
    {k : α → Prog σ γ} {q : Prog τ β} (hf : ∀ s o, R s o → R (f s).2 o)
    (hk : ∀ s o, R s o → Sim R Q (k (f s).1) q) : Sim R Q (atomic f >>= k) q :=
  Sim.stutter hf hk

/-- A first section that the simulating program spends on a look. -/
theorem Sim.atomic_look {R : σ → τ → Prop} {Q : γ → β → Prop} {f : σ → α × σ}
    {k : α → Prog σ γ} {l : τ → δ} {g : δ → Prog τ β} (hf : ∀ s o, R s o → R (f s).2 o)
    (hk : ∀ s o, R s o → Sim R Q (k (f s).1) (g (l o))) :
    Sim R Q (atomic f >>= k) (look l >>= g) :=
  Sim.step (fun _ _ _ _ => rfl) hf hk

/-- A section that the simulating program does not see. -/
theorem Sim.atomic_stutter {R : σ → τ → Prop} {Q : α → β → Prop} {f : σ → α × σ} {b : β}
    (h : ∀ s o, R s o → R (f s).2 o ∧ Q (f s).1 b) : Sim R Q (atomic f) (Prog.ret b) :=
  Sim.stutter (fun s o hR => (h s o hR).1) fun s o hR => Sim.ret (h s o hR).2

/-- A wait that the simulating program does not see. -/
theorem Sim.await_stutter {R : σ → τ → Prop} {Q : PUnit → β → Prop} {r : σ → Bool} {u : σ → σ}
    {b : β} (h : ∀ s o, R s o → R (u s) o) (hb : Q PUnit.unit b) :
    Sim R Q (await r u) (Prog.ret b) :=
  Sim.stutter h fun _ _ _ => Sim.ret hb

/-- A section matched by a section. -/
theorem Sim.atomic_step {R : σ → τ → Prop} {Q : α → β → Prop} {f : σ → α × σ} {g : τ → β × τ}
    (h : ∀ s o, R s o → R (f s).2 (g o).2 ∧ Q (f s).1 (g o).1) : Sim R Q (atomic f) (atomic g) :=
  Sim.step (fun _ _ _ _ => rfl) (fun s o hR => (h s o hR).1) fun s o hR => Sim.ret (h s o hR).2

/-- A run of a program is matched by a run of the program that simulates it. -/
theorem Sim.run {R : σ → τ → Prop} {Q : α → β → Prop} {p : Prog σ α} {q : Prog τ β}
    (h : Sim R Q p q) {s t : σ} {a : α} {o : τ} (hR : R s o) (hr : p.run s = some (a, t)) :
    ∃ b o', q.run o = some (b, o') ∧ Q a b ∧ R t o' := by
  induction h generalizing s o with
  | @ret a' b hab =>
      obtain ⟨rfl, rfl⟩ : a' = a ∧ s = t := by simpa using hr
      exact ⟨b, o, rfl, hab, hR⟩
  | stutter hu _ ih =>
      rw [run_sec] at hr
      split at hr
      · exact ih s o hR (hu s o hR) hr
      · exact absurd hr (by simp)
  | step hready hu _ ih =>
      rw [run_sec] at hr
      split at hr
      · rename_i hrs
        obtain ⟨b, o', hb, hQ, hR'⟩ := ih s o hR (hu s o hR) hr
        refine ⟨b, o', ?_, hQ, hR'⟩
        rw [run_sec, hready s o hR hrs, if_pos rfl, hb]
      · exact absurd hr (by simp)

/-- **Simulation of interleavings**: if the steps of the environment preserve `R`, an
interleaving of two programs is matched by an interleaving, with no step of the environment, of
the programs that simulate them. -/
theorem Par.sim {env : σ → σ → Prop} {R : σ → τ → Prop} {Q : α → γ → Prop} {Q' : β → δ → Prop}
    {p : Prog σ α} {q : Prog σ β} {p' : Prog τ γ} {q' : Prog τ δ} {s t : σ} {a : α} {b : β}
    {o : τ} (h : Par env p q s a b t) (henv : ∀ s s' o, env s s' → R s o → R s' o)
    (hp : Sim R Q p p') (hq : Sim R Q' q q') (hR : R s o) :
    ∃ a' b' o', Par alone p' q' o a' b' o' ∧ Q a a' ∧ Q' b b' ∧ R t o' := by
  -- the simulating programs follow the side that moves, or stay where they are
  induction h generalizing p' q' o with
  | done a b s =>
      cases hp with
      | ret ha =>
          cases hq with
          | ret hb => exact ⟨_, _, o, Par.done _ _ o, ha, hb, hR⟩
  | left hr _ ih =>
      cases hp with
      | stutter hu hn => exact ih (hn _ _ hR) hq (hu _ _ hR)
      | step hready hu hn =>
          obtain ⟨a', b', o', hpar, ha, hb, ho⟩ := ih (hn _ _ hR) hq (hu _ _ hR)
          exact ⟨a', b', o', Par.left (hready _ _ hR hr) hpar, ha, hb, ho⟩
  | right hr _ ih =>
      cases hq with
      | stutter hu hn => exact ih hp (hn _ _ hR) (hu _ _ hR)
      | step hready hu hn =>
          obtain ⟨a', b', o', hpar, ha, hb, ho⟩ := ih hp (hn _ _ hR) (hu _ _ hR)
          exact ⟨a', b', o', Par.right (hready _ _ hR hr) hpar, ha, hb, ho⟩
  | env he _ ih => exact ih hp hq (henv _ _ _ he hR)

/-! ### Programs over a keyed store -/

section Keyed

variable {κ : Type u} [DecidableEq κ] {ν : Type u}

/-- Change the value stored under `k`. -/
def modifyAt (k : κ) (f : ν → ν) (o : κ → ν) : κ → ν := Function.update o k (f (o k))

@[simp] theorem modifyAt_self (k : κ) (f : ν → ν) (o : κ → ν) : modifyAt k f o k = f (o k) :=
  Function.update_self ..

theorem modifyAt_of_ne {k k' : κ} (h : k' ≠ k) (f : ν → ν) (o : κ → ν) :
    modifyAt k f o k' = o k' := Function.update_of_ne h ..

theorem modifyAt_comm {k k' : κ} (h : k ≠ k') (f g : ν → ν) (o : κ → ν) :
    modifyAt k f (modifyAt k' g o) = modifyAt k' g (modifyAt k f o) := by
  unfold modifyAt
  rw [Function.update_of_ne h, Function.update_of_ne h.symm, Function.update_comm h]

end Keyed

end Sections
