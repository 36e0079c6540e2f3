/-
**Transactions over a keyed store.**

A *transaction* reads the value under one key, decides from what it has read what it is going to
do, then makes some *soft* updates of the same value, one section each, and ends with at most one
write, possibly under another key.  Soft updates do not change what transactions read, and commute
with each other; writes do neither.

Two transactions that run at the same time need not be serializable: a write of the one may fall
between the soft updates of the other.  `Compatible` says when no interleaving can go wrong, in
terms of what the two would do in the state in which they start.

Main definitions:

* `Soft` — soft updates, with the two facts that make them soft;
* `Plan`, `Transaction`, `Transaction.prog` — transactions, and the program of one;
* `Serial`, `Serializable` — one after the other, and that every interleaving amounts to that;
* `Commute`, `Keeps`, `Covers`, `Compatible` — the conditions.

Main results:

* `serializable_of_commute` — **commuting effects**, of which at least one would be decided in the
  same way after the other;
* `serializable_of_covers` — **the last writer wins**, when each transaction overwrites its own
  soft updates wherever the other writes;
* `Compatible.serializable` — both together.
-/

import TermHub.Sections

set_option relaxedAutoImplicit false
set_option autoImplicit false

namespace Transactions

open Sections

variable {κ ν μ ρ : Type}

/-- Updates of a value that keep its norm and commute with each other. -/
structure Soft (norm : ν → μ) where
  updates : List (ν → ν)
  norm_eq : ∀ g ∈ updates, ∀ v, norm (g v) = norm v
  comm : ∀ g ∈ updates, ∀ g' ∈ updates, ∀ v, g (g' v) = g' (g v)

/-- What a transaction does once it has read: nothing, its soft updates, or its soft updates and
a write; and its result. -/
inductive Plan (κ ν ρ : Type)
  | exit (r : ρ)
  | keep (r : ρ)
  | write (k : κ) (v : ν) (r : ρ)

/-- A transaction: the key it reads, whether it makes soft updates there, and what it decides. -/
structure Transaction (κ ν μ ρ : Type) where
  src : κ
  softens : Bool
  plan : μ → Plan κ ν ρ

variable {norm : ν → μ} (S : Soft norm)

/-- The soft updates of a transaction. -/
def Transaction.soft (T : Transaction κ ν μ ρ) : List (ν → ν) :=
  if T.softens then S.updates else []

theorem Transaction.soft_mem {T : Transaction κ ν μ ρ} {g : ν → ν} (h : g ∈ T.soft S) :
    g ∈ S.updates := by
  unfold Transaction.soft at h
  split at h
  · exact h
  · cases h

/-- What a transaction decides in a state. -/
def Transaction.planAt (norm : ν → μ) (T : Transaction κ ν μ ρ) (o : κ → ν) : Plan κ ν ρ :=
  T.plan (norm (o T.src))

/-! ### Programs -/

section Programs

variable [DecidableEq κ]

/-- One section for each of the updates. -/
def softly (k : κ) : List (ν → ν) → Prog (κ → ν) Unit
  | [] => Prog.ret ()
  | g :: gs => (Prog.atomic fun o => ((), modifyAt k g o)) >>= fun _ => softly k gs

/-- The program of a plan. -/
def Plan.after (src : κ) (gs : List (ν → ν)) : Plan κ ν ρ → Prog (κ → ν) ρ
  | exit r => Prog.ret r
  | keep r => softly src gs >>= fun _ => Prog.ret r
  | write k v r => softly src gs >>= fun _ => Prog.atomic fun o => (r, modifyAt k (fun _ => v) o)

/-- The program of a transaction. -/
def Transaction.prog (T : Transaction κ ν μ ρ) : Prog (κ → ν) ρ :=
  look (T.planAt norm) >>= Plan.after T.src (T.soft S)

theorem Transaction.run_prog (T : Transaction κ ν μ ρ) (o : κ → ν) :
    (T.prog S).run o = ((T.planAt norm o).after T.src (T.soft S)).run o := by
  unfold Transaction.prog look
  rw [Prog.run_bind, Prog.run_atomic, Option.bind_some]

end Programs

/-! ### Straight programs -/

/-- The changes a plan makes: the key, and what is done to the value under it. -/
def Plan.Does (src : κ) (gs : List (ν → ν)) : Plan κ ν ρ → κ → (ν → ν) → Prop
  | exit _ => fun _ _ => False
  | keep _ => fun k g => k = src ∧ g ∈ gs
  | write f v _ => fun k g => (k = src ∧ g ∈ gs) ∨ (k = f ∧ g = fun _ => v)

/-- Each change of the one kind commutes with each of the other. -/
def Commute (D D' : κ → (ν → ν) → Prop) : Prop :=
  ∀ k g k' g', D k g → D' k' g' → k ≠ k' ∨ ∀ v, g (g' v) = g' (g v)

theorem Commute.symm {D D' : κ → (ν → ν) → Prop} (h : Commute D D') : Commute D' D := by
  intro k g k' g' hg hg'
  obtain hne | hc := h k' g' k g hg' hg
  · exact Or.inl fun e => hne e.symm
  · exact Or.inr fun v => (hc v).symm

section Straight

variable [DecidableEq κ]

/-- The program makes changes of the kind `D` only, whatever it sees. -/
def Straight (D : κ → (ν → ν) → Prop) : Prog (κ → ν) ρ → Prop
  | .ret _ => True
  | .sec r u n => (∀ o, r o = true) ∧ (∃ k g, D k g ∧ u = modifyAt k g) ∧ (∀ o o', n o = n o') ∧
      ∀ o, Straight D (n o)

theorem Straight.bind {τ : Type} {D : κ → (ν → ν) → Prop} {p : Prog (κ → ν) τ}
    {q : τ → Prog (κ → ν) ρ} (hp : Straight D p) (hq : ∀ x, Straight D (q x)) :
    Straight D (p >>= q) := by
  induction p with
  | ret x => exact hq x
  | sec r u n ih =>
      obtain ⟨hr, hu, hn, hs⟩ := hp
      refine ⟨hr, hu, fun o o' => ?_, fun o => ih o (hs o)⟩
      show n o >>= q = n o' >>= q
      rw [hn o o']

theorem Straight.mono {D D' : κ → (ν → ν) → Prop} (hD : ∀ k g, D k g → D' k g)
    {p : Prog (κ → ν) ρ} (hp : Straight D p) : Straight D' p := by
  induction p with
  | ret x => trivial
  | sec r u n ih =>
      obtain ⟨hr, ⟨k, g, hg, hu⟩, hn, hs⟩ := hp
      exact ⟨hr, ⟨k, g, hD k g hg, hu⟩, hn, fun o => ih o (hs o)⟩

theorem straight_softly (k : κ) (gs : List (ν → ν)) :
    Straight (fun k' g => k' = k ∧ g ∈ gs) (softly k gs) := by
  induction gs with
  | nil => trivial
  | cons g gs ih =>
      refine ⟨fun _ => rfl, ⟨k, g, ⟨rfl, List.mem_cons_self⟩, rfl⟩, fun _ _ => rfl, fun _ => ?_⟩
      exact ih.mono fun k' g' h => ⟨h.1, List.mem_cons_of_mem _ h.2⟩

theorem Plan.straight_after (π : Plan κ ν ρ) (src : κ) (gs : List (ν → ν)) :
    Straight (π.Does src gs) (π.after src gs) := by
  cases π with
  | exit r => trivial
  | keep r => exact (straight_softly src gs).bind fun _ => trivial
  | write f v r =>
      refine ((straight_softly src gs).mono fun k g h => Or.inl h).bind fun _ => ?_
      exact ⟨fun _ => rfl, ⟨f, _, Or.inr ⟨rfl, rfl⟩, rfl⟩, fun _ _ => rfl, fun _ => trivial⟩

theorem modifyAt_comm_of {k k' : κ} {g g' : ν → ν} (h : k ≠ k' ∨ ∀ v, g (g' v) = g' (g v))
    (o : κ → ν) : modifyAt k g (modifyAt k' g' o) = modifyAt k' g' (modifyAt k g o) := by
  by_cases hk : k = k'
  · subst hk
    have hc := h.resolve_left fun hne => hne rfl
    unfold modifyAt
    simp [hc]
  · exact modifyAt_comm hk g g' o

/-- Straight programs that commute are independent. -/
theorem independent_of_commute {τ : Type} {D D' : κ → (ν → ν) → Prop} {p : Prog (κ → ν) ρ}
    {q : Prog (κ → ν) τ} (hp : Straight D p) (hq : Straight D' q) (hc : Commute D D') :
    Independent p q := by
  -- a straight program decides nothing on the way, so it is stable under every change that commutes
  -- with its own
  have hstable : ∀ {σ : Type} {E : κ → (ν → ν) → Prop} {x : Prog (κ → ν) σ} {k : κ} {g : ν → ν},
      Straight E x → (∀ k' g', E k' g' → k ≠ k' ∨ ∀ v, g (g' v) = g' (g v)) →
      x.Stable (modifyAt k g) := by
    intro σ E x k g hx hE
    induction x with
    | ret a => trivial
    | sec r u n ih =>
        obtain ⟨hr, ⟨k', g', hg', rfl⟩, hn, hs⟩ := hx
        exact ⟨fun o => (hr _).trans (hr _).symm,
          fun o => (modifyAt_comm_of (hE k' g' hg') o).symm, fun o => hn _ _, fun o => ih o (hs o)⟩
  have hupd : ∀ {σ : Type} {E : κ → (ν → ν) → Prop} {x : Prog (κ → ν) σ}, Straight E x →
      x.Updates fun u => ∃ k g, E k g ∧ u = modifyAt k g := by
    intro σ E x hx
    induction x with
    | ret a => trivial
    | sec r u n ih => exact ⟨hx.2.1, fun o => ih o (hx.2.2.2 o)⟩
  constructor
  · refine (hupd hp).mono ?_
    rintro u ⟨k, g, hg, rfl⟩
    exact hstable hq fun k' g' hg' => hc k g k' g' hg hg'
  · refine (hupd hq).mono ?_
    rintro u ⟨k, g, hg, rfl⟩
    exact hstable hp fun k' g' hg' => hc.symm k g k' g' hg hg'

end Straight

/-! ### Serializability -/

section Serializability

/-- First `p`, then `q`. -/
def Serial (p q : Prog (κ → ν) ρ) (o : κ → ν) (a b : ρ) (t : κ → ν) : Prop :=
  ∃ m, p.run o = some (a, m) ∧ q.run m = some (b, t)

/-- Every interleaving of the two programs amounts to running them in one order or the other. -/
def Serializable (p q : Prog (κ → ν) ρ) (o : κ → ν) : Prop :=
  ∀ a b t, Par alone p q o a b t → Serial p q o a b t ∨ Serial q p o b a t

theorem Serializable.symm {p q : Prog (κ → ν) ρ} {o : κ → ν} (h : Serializable p q o) :
    Serializable q p o := fun a b t hp => (h b a t hp.symm).symm

/-- Changes of the kind `D` do not change the decision of `T` to do `π`. -/
def Keeps (norm : ν → μ) (T : Transaction κ ν μ ρ) (π : Plan κ ν ρ) (D : κ → (ν → ν) → Prop) :
    Prop := ∀ g, D T.src g → ∀ v, T.plan (norm v) = π → T.plan (norm (g v)) = π

/-- Soft updates change no decision. -/
theorem keeps_soft (T : Transaction κ ν μ ρ) (π : Plan κ ν ρ) {D : κ → (ν → ν) → Prop}
    (hD : ∀ k g, D k g → g ∈ S.updates) : Keeps norm T π D := by
  intro g hg v hv
  rw [S.norm_eq g (hD _ g hg)]
  exact hv

variable [DecidableEq κ]

theorem Straight.updates_keep {τ : Type} {T : Transaction κ ν μ ρ} {π : Plan κ ν ρ}
    {D : κ → (ν → ν) → Prop} {p : Prog (κ → ν) τ} (hp : Straight D p) (hk : Keeps norm T π D) :
    p.Updates fun u => ∀ o, T.planAt norm o = π → T.planAt norm (u o) = π := by
  induction p with
  | ret a => trivial
  | sec r u n ih =>
      obtain ⟨-, ⟨k, g, hg, rfl⟩, -, hs⟩ := hp
      refine ⟨fun o ho => ?_, fun o => ih o (hs o)⟩
      unfold Transaction.planAt at *
      by_cases hsrc : T.src = k
      · subst hsrc
        rw [modifyAt_self]
        exact hk g hg _ ho
      · rw [modifyAt_of_ne hsrc]
        exact ho

/-- **Running after the other program**: the decision is the same, so the plan is carried out. -/
theorem Transaction.run_after {τ : Type} {T : Transaction κ ν μ ρ} {D : κ → (ν → ν) → Prop}
    {p : Prog (κ → ν) τ} {o m t : κ → ν} {a : τ} {b : ρ} (hp : Straight D p)
    (hk : Keeps norm T (T.planAt norm o) D) (hr : p.run o = some (a, m))
    (hT : ((T.planAt norm o).after T.src (T.soft S)).run m = some (b, t)) :
    (T.prog S).run m = some (b, t) := by
  have hplan : T.planAt norm m = T.planAt norm o :=
    (hp.updates_keep hk).run_preserves (I := fun x => T.planAt norm x = T.planAt norm o) hr rfl
  rw [Transaction.run_prog, hplan]
  exact hT

variable {P Q : Transaction κ ν μ ρ} {o : κ → ν}

/-- When the changes of `P` do not change what `Q` decides, an interleaving is one of the two
plans, or `Q` comes first as a whole. -/
theorem resolve {a b : ρ} {t : κ → ν}
    (hQ : Keeps norm Q (Q.planAt norm o) ((P.planAt norm o).Does P.src (P.soft S)))
    (h : Par alone (P.prog S) (Q.prog S) o a b t) :
    Par alone ((P.planAt norm o).after P.src (P.soft S))
      ((Q.planAt norm o).after Q.src (Q.soft S)) o a b t ∨
    Serial (Q.prog S) (P.prog S) o b a t := by
  have hkeep : ∀ {D : κ → (ν → ν) → Prop}, (∀ k g, D k g → g ∈ S.updates) →
      Keeps norm P (P.planAt norm o) D := fun hD => keeps_soft S P _ hD
  have hsoft : ∀ k g, k = Q.src ∧ g ∈ Q.soft S → g ∈ S.updates := fun k g h =>
    Transaction.soft_mem S h.2
  -- one of the two looks first; when it is `Q`, its last write may come before the look of `P`
  obtain h | h := h.first_look
  · exact Or.inl (h.look_right ((Plan.straight_after _ _ _).updates_keep hQ) rfl)
  · cases hκ : Q.planAt norm o with
    | exit r =>
        rw [hκ] at h
        obtain ⟨rfl, hrun⟩ := h.of_ret_right
        exact Or.inr ⟨o, by rw [Transaction.run_prog, hκ]; rfl, hrun⟩
    | keep r =>
        rw [hκ] at h
        have hs := (Plan.keep r : Plan κ ν ρ).straight_after Q.src (Q.soft S)
        exact Or.inl (h.symm.look_right (hs.updates_keep (hkeep hsoft)) rfl).symm
    | write g w r =>
        rw [hκ] at h
        have hs := (straight_softly Q.src (Q.soft S)).updates_keep (hkeep hsoft)
        obtain h | ⟨m, hm, hmt⟩ := h.look_or_after hs rfl
        · exact Or.inl h
        · exact Or.inr ⟨m, by rw [Transaction.run_prog, hκ]; exact hm, hmt⟩

/-- **Commuting effects**: the interleavings are serializable if one of the transactions would
decide the same after the other. -/
theorem serializable_of_commute
    (hc : Commute ((P.planAt norm o).Does P.src (P.soft S))
      ((Q.planAt norm o).Does Q.src (Q.soft S)))
    (hQ : Keeps norm Q (Q.planAt norm o) ((P.planAt norm o).Does P.src (P.soft S))) :
    Serializable (P.prog S) (Q.prog S) o := by
  intro a b t h
  obtain h | h := resolve S hQ h
  · have hind := independent_of_commute ((P.planAt norm o).straight_after P.src (P.soft S))
      ((Q.planAt norm o).straight_after Q.src (Q.soft S)) hc
    obtain ⟨m, hm, hmt⟩ := h.left_first hind
    exact Or.inl ⟨m, by rw [Transaction.run_prog]; exact hm,
      Transaction.run_after S (Plan.straight_after _ _ _) hQ hm hmt⟩
  · exact Or.inr h

/-! ### The last writer wins -/

/-- Equal but for the value under `f`. -/
def AgreeOff (f : κ) (o o' : κ → ν) : Prop := ∀ k, k ≠ f → o k = o' k

theorem AgreeOff.modifyAt {f : κ} {o o' : κ → ν} (h : AgreeOff f o o') (k : κ) (g : ν → ν) :
    AgreeOff f (modifyAt k g o) (modifyAt k g o') := by
  intro k' hk'
  by_cases hkk : k' = k
  · subst hkk
    rw [modifyAt_self, modifyAt_self, h k' hk']
  · rw [modifyAt_of_ne hkk, modifyAt_of_ne hkk, h k' hk']

theorem AgreeOff.modifyAt_left {f : κ} {o o' : κ → ν} (h : AgreeOff f o o') (g : ν → ν) :
    AgreeOff f (Sections.modifyAt f g o) o' := fun k hk => by
  rw [modifyAt_of_ne hk, h k hk]

/-- A write makes the difference disappear. -/
theorem AgreeOff.write {f : κ} {o o' : κ → ν} (h : AgreeOff f o o') (v : ν) :
    Sections.modifyAt f (fun _ => v) o = Sections.modifyAt f (fun _ => v) o' := by
  funext k
  by_cases hk : k = f
  · subst hk
    rw [modifyAt_self, modifyAt_self]
  · rw [modifyAt_of_ne hk, modifyAt_of_ne hk, h k hk]

/-- A straight program does the same in states that agree off `f`. -/
theorem Straight.sim {τ : Type} {D : κ → (ν → ν) → Prop} {p : Prog (κ → ν) τ} (hp : Straight D p)
    (f : κ) : Sim (AgreeOff f) (fun a b => a = b) p p := by
  induction p with
  | ret a => exact Sim.ret rfl
  | sec r u n ih =>
      obtain ⟨hr, ⟨k, g, -, rfl⟩, hn, hs⟩ := hp
      refine Sim.step (fun _ _ _ _ => hr _) (fun _ _ h => h.modifyAt k g) fun o o' _ => ?_
      rw [hn o' o]
      exact ih o (hs o)

/-- Soft updates of the value under `f` are not seen by those who do not look there. -/
theorem softly_sim (f : κ) (gs : List (ν → ν)) :
    Sim (AgreeOff f) (fun _ _ => True) (softly f gs) (Prog.ret () : Prog (κ → ν) Unit) := by
  induction gs with
  | nil => exact Sim.ret trivial
  | cons g gs ih => exact Sim.stutter (fun _ _ h => h.modifyAt_left g) fun _ _ _ => ih

theorem run_softly (f : κ) (gs : List (ν → ν)) (o : κ → ν) :
    ∃ o', (softly f gs).run o = some ((), o') ∧ AgreeOff f o' o := by
  induction gs generalizing o with
  | nil => exact ⟨o, rfl, fun _ _ => rfl⟩
  | cons g gs ih =>
      obtain ⟨o', hr, ho⟩ := ih (modifyAt f g o)
      exact ⟨o', hr, fun k hk => (ho k hk).trans (modifyAt_of_ne hk g o)⟩

/-- Wherever the other plan writes, this one writes over its own soft updates. -/
def Plan.Covers (π : Plan κ ν ρ) (src : κ) (gs : List (ν → ν)) (κ' : Plan κ ν ρ) : Prop :=
  ∃ f v r g w r', π = write f v r ∧ κ' = write g w r' ∧ (g ≠ src ∨ f = src ∨ gs = [])

/-- When the write of the left plan comes last, the right plan might as well have come first. -/
theorem serial_of_last {src src' f g : κ} {v w : ν} {gs gs' : List (ν → ν)} {r r' b : ρ}
    {m : κ → ν} (hgs : ∀ h ∈ gs, h ∈ S.updates) (hgs' : ∀ h ∈ gs', h ∈ S.updates)
    (hcov : g ≠ src ∨ f = src ∨ gs = [])
    (h : Par alone (softly src gs) ((Plan.write g w r').after src' gs') o () b m) :
    Serial ((Plan.write g w r').after src' gs') ((Plan.write f v r).after src gs) o b r
      (modifyAt f (fun _ => v) m) := by
  have hq := (Plan.write g w r' : Plan κ ν ρ).straight_after src' gs'
  have hrun : ∀ {m' : κ → ν}, (softly src gs).run m' = some ((), m) →
      ((Plan.write f v r).after src gs).run m' = some (r, modifyAt f (fun _ => v) m) := by
    intro m' hm
    unfold Plan.after
    rw [Prog.run_bind, hm]
    rfl
  obtain hne | rfl | rfl := hcov
  · -- the soft updates commute with everything the other plan does
    have hc : Commute (fun k h => k = src ∧ h ∈ gs)
        ((Plan.write g w r' : Plan κ ν ρ).Does src' gs') := by
      rintro k e k' e' ⟨rfl, he⟩ (⟨rfl, he'⟩ | ⟨rfl, rfl⟩)
      · exact Or.inr (S.comm e (hgs e he) e' (hgs' e' he'))
      · exact Or.inl fun heq => hne heq.symm
    obtain ⟨m', hm', hm⟩ := h.symm.left_first
      (independent_of_commute (straight_softly src gs) hq hc).symm
    exact ⟨m', hm', hrun hm⟩
  · -- the soft updates are overwritten by the last write
    obtain ⟨a', b', m', hpar, -, rfl, hagree⟩ := h.sim (fun _ _ _ he _ => he.elim)
      (softly_sim f gs) (hq.sim f) (fun _ _ => rfl : AgreeOff f o o)
    obtain ⟨-, hm'⟩ := hpar.of_ret_left
    obtain ⟨m'', hm'', hagree'⟩ := run_softly f gs m'
    refine ⟨m', hm', ?_⟩
    have hw : modifyAt f (fun _ => v) m'' = modifyAt f (fun _ => v) m :=
      (hagree'.write v).trans (hagree.write v).symm
    unfold Plan.after
    rw [Prog.run_bind, hm'', ← hw]
    rfl
  · obtain ⟨-, hm'⟩ := h.of_ret_left
    exact ⟨m, hm', hrun rfl⟩

/-- **The last writer wins**: if both transactions end with a write, would decide the same after
the other, and cover each other's writes, their interleavings are serializable. -/
theorem serializable_of_covers
    (hP : Keeps norm P (P.planAt norm o) ((Q.planAt norm o).Does Q.src (Q.soft S)))
    (hQ : Keeps norm Q (Q.planAt norm o) ((P.planAt norm o).Does P.src (P.soft S)))
    (hPQ : (P.planAt norm o).Covers P.src (P.soft S) (Q.planAt norm o))
    (hQP : (Q.planAt norm o).Covers Q.src (Q.soft S) (P.planAt norm o)) :
    Serializable (P.prog S) (Q.prog S) o := by
  intro a b t h
  obtain h | h := resolve S hQ h
  · have hsP := (P.planAt norm o).straight_after P.src (P.soft S)
    have hsQ := (Q.planAt norm o).straight_after Q.src (Q.soft S)
    obtain ⟨f, v, r, g, w, r', hπ, hκ, hcov⟩ := hPQ
    obtain ⟨g', w', s', f', v', s, hκ', hπ', hcov'⟩ := hQP
    obtain ⟨rfl, rfl, rfl⟩ := Plan.write.inj (hπ.symm.trans hπ')
    obtain ⟨rfl, rfl, rfl⟩ := Plan.write.inj (hκ.symm.trans hκ')
    have hgs : ∀ h ∈ P.soft S, h ∈ S.updates := fun h hh => Transaction.soft_mem S hh
    have hgs' : ∀ h ∈ Q.soft S, h ∈ S.updates := fun h hh => Transaction.soft_mem S hh
    rw [hπ, hκ] at h
    -- whoever writes last comes last
    obtain ⟨x, m, hx, hF⟩ | ⟨y, m, hy, hG⟩ := Par.last h
    · obtain ⟨rfl, rfl⟩ := Prod.mk.inj hF
      obtain ⟨m', hm', hm⟩ := serial_of_last S (v := v) (r := r) hgs hgs' hcov hx
      rw [← hκ] at hm'
      rw [← hπ] at hm
      exact Or.inr ⟨m', by rw [Transaction.run_prog]; exact hm',
        Transaction.run_after S hsQ hP hm' hm⟩
    · obtain ⟨rfl, rfl⟩ := Prod.mk.inj hG
      obtain ⟨m', hm', hm⟩ := serial_of_last S (v := w) (r := r') hgs' hgs hcov' hy.symm
      rw [← hπ] at hm'
      rw [← hκ] at hm
      exact Or.inl ⟨m', by rw [Transaction.run_prog]; exact hm',
        Transaction.run_after S hsP hQ hm' hm⟩
  · exact Or.inr h

/-- No interleaving of the two transactions from the state `o` can go wrong: their effects commute
and one of them would decide the same after the other, or both end with a write, would decide the
same after the other, and cover each other's writes. -/
def Compatible (o : κ → ν) (P Q : Transaction κ ν μ ρ) : Prop :=
  let π := P.planAt norm o
  let κ' := Q.planAt norm o
  let D := π.Does P.src (P.soft S)
  let D' := κ'.Does Q.src (Q.soft S)
  (Commute D D' ∧ (Keeps norm Q κ' D ∨ Keeps norm P π D')) ∨
    (Keeps norm P π D' ∧ Keeps norm Q κ' D ∧ π.Covers P.src (P.soft S) κ' ∧
      κ'.Covers Q.src (Q.soft S) π)

/-- **Compatible transactions are serializable.** -/
theorem Compatible.serializable (h : Compatible S o P Q) :
    Serializable (P.prog S) (Q.prog S) o := by
  obtain ⟨hc, hQ | hP⟩ | ⟨hP, hQ, hPQ, hQP⟩ := h
  · exact serializable_of_commute S hc hQ
  · exact (serializable_of_commute S hc.symm hP).symm
  · exact serializable_of_covers S hP hQ hPQ hQP

end Serializability

end Transactions
