/-
**A watched value and its listener.**

A watch channel holds the value that has been sent last, and counts the values that have been sent.
A listener shows the value, then waits until the count is another one than it has seen, and shows
the value again, until all senders are gone.  Looking at the value does not mark it as seen, so a
value that comes while the listener is about to look is shown and then shown once more.

Main definitions:

* `Channel`, `Channel.Later` — a watched value, and what may become of it;
* `Listener`, `Listener.step` — the listener, and its steps;
* `Attentive` — which of the values have been shown.

Main results:

* `Attentive.step`, `Attentive.later` — **the listener shows the values in order, none of them more
  than twice**, whatever becomes of the channel meanwhile;
* `Attentive.catches_up` — **the listener gets to the last value** by a few steps of its own.
-/

import TermHub.Transition
import Mathlib.Data.List.Basic

set_option relaxedAutoImplicit false
set_option autoImplicit false

namespace Watch

open Transition

variable {σ : Type*}

/-! ### The channel -/

/-- A watched value: the first one, those that have been sent, and whether all senders are gone. -/
structure Channel (σ : Type*) where
  first : σ
  sent : List σ
  closed : Bool

namespace Channel

/-- How many values have been sent. -/
def version (c : Channel σ) : ℕ := c.sent.length

/-- The value. -/
def value (c : Channel σ) : σ := c.sent.getLastD c.first

/-- All values, in order. -/
def values (c : Channel σ) : List σ := c.first :: c.sent

/-- What may become of a channel. -/
structure Later (c d : Channel σ) : Prop where
  first : d.first = c.first
  sent : c.sent <+: d.sent
  closed : c.closed = true → d = c

theorem values_version (c : Channel σ) : c.values[c.version]? = some c.value := by
  obtain ⟨first, sent, closed⟩ := c
  cases sent using List.reverseRecOn with
  | nil => rfl
  | append_singleton l x => simp [values, version, value]

theorem Later.values {c d : Channel σ} (h : c.Later d) : c.values <+: d.values := by
  unfold Channel.values
  rw [h.first]
  exact List.cons_prefix_cons.2 ⟨rfl, h.sent⟩

theorem Later.version_le {c d : Channel σ} (h : c.Later d) : c.version ≤ d.version :=
  h.sent.length_le

/-- A value stays where it is. -/
theorem Later.getElem? {c d : Channel σ} (h : c.Later d) {i : ℕ} (hi : i ≤ c.version) :
    d.values[i]? = c.values[i]? := by
  obtain ⟨l, hl⟩ := h.values
  rw [← hl, List.getElem?_append_left]
  exact Nat.lt_succ_of_le hi

end Channel

/-! ### The listener -/

/-- What the listener is about to do. -/
inductive Phase
  | showing
  | waiting
  | ended
  deriving DecidableEq, Repr

/-- A listener: the count that it has seen, and what it has shown. -/
structure Listener (σ : Type*) where
  seen : ℕ
  phase : Phase
  shown : List σ

/-- A listener that has just been started. -/
def Listener.init : Listener σ := ⟨0, .showing, []⟩

/-- The steps of a listener: it shows the value, or sees that it has changed or that the senders are
gone. -/
inductive Act
  | emit | changed | closed
  deriving DecidableEq, Repr

/-- One step of a listener. -/
def Listener.step (c : Channel σ) (l : Listener σ) : Act → Option (Listener σ)
  | .emit =>
    if l.phase = .showing then some { l with phase := .waiting, shown := l.shown ++ [c.value] }
    else none
  | .changed =>
    if l.phase = .waiting ∧ l.seen ≠ c.version then
      some { l with phase := .showing, seen := c.version }
    else none
  | .closed =>
    if l.phase = .waiting ∧ l.seen = c.version ∧ c.closed = true then
      some { l with phase := .ended }
    else none

variable {c d : Channel σ} {l m : Listener σ} {ns : List ℕ} {a : Act}

/-! ### What is shown -/

/-- **What has been shown**: the values at these positions, which ascend, each twice at most.  The
value that has been seen may come once more if the listener is about to look; if it waits it has
looked since. -/
structure Attentive (c : Channel σ) (l : Listener σ) (ns : List ℕ) : Prop where
  shown : ns.map (c.values[·]?) = l.shown.map some
  ascend : ns.Pairwise (· ≤ ·)
  twice : ∀ n, ns.count n ≤ 2
  seen : l.seen ≤ c.version
  known : ∀ n ∈ ns, n ≤ c.version
  showing : l.phase = .showing → (∀ n ∈ ns, n ≤ l.seen) ∧ ns.count l.seen ≤ 1
  waiting : l.phase ≠ .showing → ∃ ms n, ns = ms ++ [n] ∧ l.seen ≤ n ∧
    (l.seen < n → ns.count n ≤ 1)
  ended : l.phase = .ended → c.closed = true ∧ l.seen = c.version

theorem attentive_init (c : Channel σ) : Attentive c Listener.init [] where
  shown := rfl
  ascend := .nil
  twice _ := Nat.zero_le _
  seen := Nat.zero_le _
  known _ h := nomatch h
  showing _ := ⟨nofun, Nat.zero_le _⟩
  waiting h := absurd rfl h
  ended h := nomatch h

/-- The channel moves on. -/
theorem Attentive.later (hi : Attentive c l ns) (h : c.Later d) : Attentive d l ns where
  shown := by
    rw [← hi.shown]
    exact List.map_congr_left fun n hn => h.getElem? (hi.known n hn)
  ascend := hi.ascend
  twice := hi.twice
  seen := Nat.le_trans hi.seen h.version_le
  known n hn := Nat.le_trans (hi.known n hn) h.version_le
  showing := hi.showing
  waiting := hi.waiting
  ended hp := by
    obtain ⟨hc, hs⟩ := hi.ended hp
    rw [h.closed hc]
    exact ⟨hc, hs⟩

/-- A listener that does not look has shown the value that it has seen, or a later one. -/
theorem Attentive.last (hi : Attentive c l ns) (hp : l.phase ≠ .showing) :
    ∃ ms n, ns = ms ++ [n] ∧ l.seen ≤ n ∧ n ≤ c.version ∧ ∀ m ∈ ns, m ≤ n := by
  obtain ⟨ms, n, rfl, hn, -⟩ := hi.waiting hp
  refine ⟨ms, n, rfl, hn, hi.known n (by simp), fun m hm => ?_⟩
  rcases List.mem_append.1 hm with hm | hm
  · exact (List.pairwise_append.1 hi.ascend).2.2 m hm n (by simp)
  · exact Nat.le_of_eq (List.mem_singleton.1 hm)

/-- A listener that has seen everything and waits has shown the value. -/
theorem Attentive.shows_value (hi : Attentive c l ns) (hp : l.phase ≠ .showing)
    (hs : l.seen = c.version) : l.shown.getLast? = some c.value := by
  obtain ⟨ms, n, rfl, hle, hge, -⟩ := hi.last hp
  obtain rfl : n = c.version := by omega
  have hshown := congrArg List.getLast? hi.shown
  rw [List.map_append, List.map_singleton, List.getLast?_concat, List.getLast?_map,
    c.values_version] at hshown
  cases hlast : l.shown.getLast? with
  | none =>
      rw [hlast] at hshown
      cases hshown
  | some v =>
      rw [hlast] at hshown
      exact congrArg some (Option.some_inj.1 (Option.some_inj.1 hshown)).symm

/-- **The listener shows the values in order, none of them more than twice.** -/
theorem Attentive.step (hi : Attentive c l ns) (h : l.step c a = some m) :
    ∃ ns', Attentive c m ns' := by
  cases a with
  | emit =>
      obtain ⟨hp, rfl⟩ := Option.ite_some_none_eq_some.1 h
      obtain ⟨hle, hone⟩ := hi.showing hp
      have hcount (n : ℕ) : (ns ++ [c.version]).count n =
          ns.count n + if c.version = n then 1 else 0 := by
        rw [List.count_append, List.count_singleton]
        simp
      -- a value that is later than the one that has been seen has not been shown
      have hnew : l.seen < c.version → ns.count c.version = 0 := fun hlt =>
        List.count_eq_zero.2 fun hmem => Nat.not_le.2 hlt (hle _ hmem)
      refine ⟨ns ++ [c.version], ?_⟩
      exact {
        shown := by simp [hi.shown, c.values_version]
        ascend := List.pairwise_append.2 ⟨hi.ascend, List.pairwise_singleton _ _,
          fun n hn m hm => by
            obtain rfl := List.mem_singleton.1 hm
            exact hi.known n hn⟩
        twice := fun n => by
          rw [hcount]
          split
          · rename_i heq
            rcases Nat.lt_or_eq_of_le hi.seen with hlt | heq'
            · rw [← heq, hnew hlt]
              omega
            · rw [← heq, ← heq']
              omega
          · exact hi.twice n
        seen := hi.seen
        known := fun n hn => by
          rcases List.mem_append.1 hn with hn | hn
          · exact hi.known n hn
          · exact Nat.le_of_eq (List.mem_singleton.1 hn)
        showing := nofun
        waiting := fun _ => ⟨ns, c.version, rfl, hi.seen, fun hlt => by
          have hlast := hcount c.version
          rw [hnew hlt, if_pos rfl] at hlast
          omega⟩
        ended := nofun }
  | changed =>
      obtain ⟨⟨hp, hne⟩, rfl⟩ := Option.ite_some_none_eq_some.1 h
      have hshow : l.phase ≠ .showing := by rw [hp]; nofun
      refine ⟨ns, { hi with
        seen := Nat.le_refl _
        showing := fun _ => ⟨hi.known, ?_⟩
        waiting := fun h => absurd rfl h
        ended := nofun }⟩
      obtain ⟨ms, n, rfl, hle, hone⟩ := hi.waiting hshow
      have hlast := hi.known n (by simp)
      have hseen := hi.seen
      rcases Nat.lt_or_eq_of_le hlast with hlt | rfl
      · have hzero : (ms ++ [n]).count c.version = 0 := by
          refine List.count_eq_zero.2 fun hmem => ?_
          obtain ⟨ms', n', heq, -, -, hall⟩ := hi.last hshow
          obtain ⟨rfl, hn⟩ := List.append_inj' heq rfl
          obtain rfl := List.singleton_inj.1 hn
          exact Nat.not_le.2 hlt (hall _ hmem)
        exact Nat.le_trans (Nat.le_of_eq hzero) (Nat.zero_le 1)
      · exact hone (Nat.lt_of_le_of_ne hseen hne)
  | closed =>
      obtain ⟨⟨hp, hs, hc⟩, rfl⟩ := Option.ite_some_none_eq_some.1 h
      exact ⟨ns, { hi with
        showing := nofun
        waiting := fun _ => hi.waiting (by rw [hp]; nofun)
        ended := fun _ => ⟨hc, hs⟩ }⟩

/-! ### The listener catches up -/

/-- A listener that waits and has seen everything ends if the senders are gone. -/
theorem ends_of_seen (hp : l.phase = .waiting) (hs : l.seen = c.version) :
    ∃ as m, exec (Listener.step c) l as = some m ∧ as.length ≤ 1 ∧ m.shown = l.shown ∧
      (c.closed = true → m.phase = .ended) := by
  cases hc : c.closed with
  | false => exact ⟨[], l, rfl, Nat.zero_le _, rfl, nofun⟩
  | true =>
      refine ⟨[.closed], { l with phase := .ended }, ?_, Nat.le_refl _, rfl, fun _ => rfl⟩
      exact exec_cons_some (if_pos ⟨hp, hs, hc⟩) []

/-- A listener that is about to look and has seen everything gets to the value. -/
theorem catches_up_of_seen (hp : l.phase = .showing) (hs : l.seen = c.version) :
    ∃ as m, exec (Listener.step c) l as = some m ∧ as.length ≤ 2 ∧
      m.shown.getLast? = some c.value ∧ (c.closed = true → m.phase = .ended) := by
  obtain ⟨as, m, hm, hlen, hshown, hend⟩ :=
    ends_of_seen (c := c) (l := { l with phase := .waiting, shown := l.shown ++ [c.value] }) rfl hs
  refine ⟨.emit :: as, m, ?_, Nat.succ_le_succ hlen, ?_, hend⟩
  · rw [exec_cons_some (if_pos hp)]
    exact hm
  · rw [hshown, List.getLast?_concat]

/-- **The listener gets to the value** by a few steps of its own, and ends if the senders are
gone. -/
theorem Attentive.catches_up (hi : Attentive c l ns) :
    ∃ as m, exec (Listener.step c) l as = some m ∧ as.length ≤ 4 ∧
      m.shown.getLast? = some c.value ∧ (c.closed = true → m.phase = .ended) := by
  -- a listener that waits and has not seen everything looks again
  have hwaits (l : Listener σ) (hp : l.phase = .waiting) (hne : l.seen ≠ c.version) :
      ∃ as m, exec (Listener.step c) l as = some m ∧ as.length ≤ 3 ∧
        m.shown.getLast? = some c.value ∧ (c.closed = true → m.phase = .ended) := by
    obtain ⟨as, m, hm, hlen, hdone⟩ :=
      catches_up_of_seen (c := c) (l := { l with phase := .showing, seen := c.version }) rfl rfl
    exact ⟨.changed :: as, m, (exec_cons_some (if_pos ⟨hp, hne⟩) as).trans hm,
      Nat.succ_le_succ hlen, hdone⟩
  cases hp : l.phase with
  | showing =>
      by_cases hs : l.seen = c.version
      · obtain ⟨as, m, hm, hlen, hdone⟩ := catches_up_of_seen hp hs
        exact ⟨as, m, hm, by omega, hdone⟩
      · obtain ⟨as, m, hm, hlen, hdone⟩ :=
          hwaits { l with phase := .waiting, shown := l.shown ++ [c.value] } rfl hs
        exact ⟨.emit :: as, m, (exec_cons_some (if_pos hp) as).trans hm, Nat.succ_le_succ hlen,
          hdone⟩
  | waiting =>
      by_cases hs : l.seen = c.version
      · obtain ⟨as, m, hm, hlen, hshown, hend⟩ := ends_of_seen hp hs
        refine ⟨as, m, hm, by omega, ?_, hend⟩
        rw [hshown]
        exact hi.shows_value (by rw [hp]; nofun) hs
      · obtain ⟨as, m, hm, hlen, hdone⟩ := hwaits l hp hs
        exact ⟨as, m, hm, by omega, hdone⟩
  | ended =>
      obtain ⟨-, hs⟩ := hi.ended hp
      exact ⟨[], l, rfl, Nat.zero_le _, hi.shows_value (by rw [hp]; nofun) hs, fun _ => hp⟩

end Watch
