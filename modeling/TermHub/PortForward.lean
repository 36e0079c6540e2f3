/-
**The status of the port forwards.**

`create_session` spawns the task of a port forward, which binds its address later, and enters the
session at once; `list_sessions` shows it as running as long as the entry holds the token.  What
becomes of the task is only logged.  A stop cancels the token before it takes it out of the entry,
and a restart does not wait for the old task, which keeps its address until it has seen that.

Calls are followed section by section, next to each other and to the forward tasks.

Main definitions:

* `ForwardStage` — how far a forward task is, as `run_tcp_forward` and `run_udp_forward` go;
* `ForwardSite`, `forwardStep` — the program with the calls that are under way and its forward
  tasks;
* `Truthful` — what is wanted of `list_sessions`;
* `Settled`, `Careful` — what is asked of a start and of a step.

Main results:

* `Call.shows` — a section of a call shows a port forward only when it puts an entry in the map;
* `truthful_step` — a step keeps the status truthful exactly if it is careful;
* `forwardStatus_iff` — **the status is truthful along a run exactly if the start is settled and
  every step of the run is careful**.
-/

import TermHub.AppSections
import TermHub.Entries
import TermHub.Ownership
import TermHub.Transition
import TermHub.Views

set_option relaxedAutoImplicit false
set_option autoImplicit false

namespace TermHub

open Sections Transition

/-! ### The entries that are shown -/

/-- The entries of the sessions. -/
def World.sessions (w : World) : List RunnerEntry := w.app.runners.entries.map Sigma.snd

/-- The port forwards that hold a token. -/
def World.shown (w : World) : List RunnerEntry :=
  w.sessions.filter fun r => r.config.upstream.isHttpProxy && r.proxyCancel.isSome

/-- The entry shows the forward that runs under the token of the other one. -/
def RunnerEntry.SameForward (r r' : RunnerEntry) : Prop :=
  r.config.upstream = r'.config.upstream ∧ r.proxyCancel = r'.proxyCancel

instance (r r' : RunnerEntry) : Decidable (r.SameForward r') :=
  inferInstanceAs (Decidable (_ ∧ _))

/-- The port forwards that `w'` shows and `w` does not. -/
def World.newlyShown (w w' : World) : List RunnerEntry :=
  w'.shown.filter fun r => ∀ r₀ ∈ w.shown, ¬ r₀.SameForward r

/-- The task runs the forward of the entry, under the token that the entry holds. -/
def RunnerEntry.Carries (r : RunnerEntry) (k : Task) : Prop :=
  r.proxyCancel = some k.cancel ∧
    match r.config.upstream with
    | .httpProxy listen target protocol => k.kind = .portForward listen target protocol
    | _ => False

instance (r : RunnerEntry) (k : Task) : Decidable (r.Carries k) := by
  unfold RunnerEntry.Carries
  cases r.config.upstream <;> infer_instance

/-! ### The forward tasks -/

/-- The task runs `run_tcp_forward` or `run_udp_forward`. -/
def TaskKind.isForward : TaskKind → Bool
  | .portForward _ _ _ => true
  | _ => false

/-- A forward task has been spawned, has bound its address and waits for connections or datagrams,
or has returned. -/
inductive ForwardStage
  | starting | listening | over
  deriving DecidableEq, Repr

/-- The program with the calls that are under way and the stages of its forward tasks. -/
structure ForwardSite where
  world : World
  calls : List (Prog World (Except AppError Unit))
  stage : TaskId → ForwardStage

/-- What can happen: a call begins, or does its next section; a forward task binds its address or
fails to, its `accept` or `recv_from` fails, or it sees that it has been cancelled; another task
ends. -/
inductive ForwardAct
  | call (c : Call) (io : CallIo)
  | next (n : ℕ)
  | bind (t : TaskId)
  | bindFails (t : TaskId)
  | fails (t : TaskId)
  | cancelled (t : TaskId)
  | taskEnds (t : TaskId)

namespace ForwardSite

/-- A forward task listens on the address, for TCP or for UDP. -/
def occupied (s : ForwardSite) (listen protocol : String) : Bool :=
  (List.range s.world.rt.tasks.length).any fun t =>
    s.stage t = .listening && (s.world.rt.tasks[t]?).any fun k =>
      match k.kind with
      | .portForward listen' _ protocol' =>
        listen' = listen && (protocol' == "udp") = (protocol == "udp")
      | _ => false

/-- The forward task returns, and its address is free again. -/
def endForward (s : ForwardSite) (t : TaskId) : ForwardSite :=
  { s with world := s.world.endTask t, stage := Function.update s.stage t .over }

end ForwardSite

/-- The step of an action. -/
def forwardStep (C : Codec) (s : ForwardSite) : ForwardAct → Option ForwardSite
  | .call c io => some { s with calls := s.calls ++ [c.prog C io] }
  | .next n =>
    match s.calls[n]? with
    | some (.sec ready upd next) =>
      if ready s.world then
        some { s with world := upd s.world, calls := s.calls.set n (next s.world) }
      else none
    | _ => none
  | .bind t =>
    match (s.world.rt.tasks[t]?).map Task.kind with
    | some (.portForward listen _ protocol) =>
      if s.stage t = .starting ∧ s.occupied listen protocol = false then
        some { s with stage := Function.update s.stage t .listening }
      else none
    | _ => none
  | .bindFails t =>
    match (s.world.rt.tasks[t]?).map Task.kind with
    | some (.portForward _ _ _) => if s.stage t = .starting then some (s.endForward t) else none
    | _ => none
  | .fails t => if s.stage t = .listening then some (s.endForward t) else none
  | .cancelled t =>
    match s.world.rt.tasks[t]? with
    | some k =>
      if s.stage t = .listening ∧ s.world.isCancelled k.cancel = true then
        some (s.endForward t)
      else none
    | none => none
  | .taskEnds t =>
    match (s.world.rt.tasks[t]?).map Task.kind with
    | some (.portForward _ _ _) => none
    | _ => some { s with world := s.world.endTask t }

/-! ### What is wanted -/

namespace ForwardSite

/-- The forward of the entry is running, and its listener is bound. -/
def Attends (s : ForwardSite) (r : RunnerEntry) : Prop :=
  ∃ t < s.world.rt.tasks.length, ∃ k ∈ s.world.rt.tasks[t]?, r.Carries k ∧ s.stage t = .listening

instance (s : ForwardSite) (r : RunnerEntry) : Decidable (s.Attends r) :=
  inferInstanceAs (Decidable (∃ t < _, ∃ k ∈ s.world.rt.tasks[t]?, _ ∧ _))

/-- **The status is truthful**: a port forward that `list_sessions` shows as running is attended. -/
def Truthful (s : ForwardSite) : Prop :=
  ∀ o : Shared, ∀ r ∈ s.world.sessions, r.config.upstream.isHttpProxy = true →
    (∃ up, (sessionView o r).status = .running up) → s.Attends r

/-- Only forward tasks have got beyond their start. -/
def Placed (s : ForwardSite) : Prop :=
  ∀ t, s.stage t ≠ .starting → ∃ k ∈ s.world.rt.tasks[t]?, k.kind.isForward = true

/-- Every forward task whose token an entry holds listens. -/
def Settled (s : ForwardSite) : Prop :=
  ∀ r ∈ s.world.sessions, ∀ t < s.world.rt.tasks.length, ∀ k ∈ s.world.rt.tasks[t]?,
    r.Carries k → s.stage t = .listening

/-- **A careful step**: the forward of an entry that a section of a call puts in the map listens
already, and a forward task does not end while an entry holds its token. -/
def Careful (s : ForwardSite) : ForwardAct → Prop
  | .next n =>
    match s.calls[n]? with
    | some (.sec _ upd _) => ∀ r ∈ s.world.newlyShown (upd s.world), s.Attends r
    | _ => True
  | .fails t | .cancelled t =>
    ∀ k ∈ s.world.rt.tasks[t]?, ∀ r ∈ s.world.sessions, ¬ r.Carries k
  | _ => True

instance (s : ForwardSite) : (a : ForwardAct) → Decidable (s.Careful a)
  | .next n =>
    match h : s.calls[n]? with
    | some (.sec _ upd _) =>
      decidable_of_iff (∀ r ∈ s.world.newlyShown (upd s.world), s.Attends r) (by simp [Careful, h])
    | some (.ret _) | none => .isTrue (by simp [Careful, h])
  | .fails t | .cancelled t =>
    inferInstanceAs (Decidable (∀ k ∈ s.world.rt.tasks[t]?, ∀ r ∈ s.world.sessions, ¬ r.Carries k))
  | .call _ _ | .bind _ | .bindFails _ | .taskEnds _ => .isTrue trivial

end ForwardSite

/-! ### What the sections keep -/

namespace World

variable {w w' w'' : World}

theorem mem_sessions {r : RunnerEntry} : r ∈ w.sessions ↔ ∃ key, w.lookup key = some r := by
  simp only [sessions, List.mem_map, lookup]
  constructor
  · rintro ⟨⟨key, r'⟩, hmem, rfl⟩
    exact ⟨key, AList.mem_lookup_iff.2 hmem⟩
  · rintro ⟨key, hr⟩
    exact ⟨⟨key, r⟩, AList.mem_lookup_iff.1 hr, rfl⟩

theorem mem_shown {r : RunnerEntry} : r ∈ w.shown ↔
    r ∈ w.sessions ∧ r.config.upstream.isHttpProxy = true ∧ r.proxyCancel.isSome = true := by
  simp [shown, List.mem_filter]

/-- What holds the token of a forward task is shown. -/
theorem carries_shown {r : RunnerEntry} {k : Task} (hc : r.Carries k) (hr : r ∈ w.sessions) :
    r ∈ w.shown := by
  refine mem_shown.2 ⟨hr, ?_, by rw [hc.1]; rfl⟩
  have hkind := hc.2
  split at hkind
  · rename_i hu
    rw [hu]
    rfl
  · exact hkind.elim

section Lookups

variable {key key' : String} {r r' : RunnerEntry}

theorem lookup_changed {f : RunnerEntry → RunnerEntry} (hr : w.lookup key = some r)
    (hr' : (w.insert key (f r)).lookup key' = some r') :
    w.lookup key' = some r' ∨ ∃ r, w.lookup key' = some r ∧ r' = f r := by
  by_cases hk : key' = key
  · rw [hk, lookup_insert, Option.some_inj] at hr'
    exact .inr ⟨r, hk ▸ hr, hr'.symm⟩
  · exact .inl (by rwa [lookup_insert_ne hk] at hr')

theorem lookup_takeHandles (hr' : (w.takeHandles key).2.lookup key' = some r') :
    w.lookup key' = some r' ∨ ∃ r, w.lookup key' = some r ∧ r' = r.taken := by
  unfold takeHandles at hr'
  split at hr'
  · rename_i r hr
    exact lookup_changed hr hr'
  · exact .inl hr'

theorem lookup_demote (hr' : (w.modifyEntry key RunnerEntry.demoted).lookup key' = some r') :
    w.lookup key' = some r' ∨ ∃ r, w.lookup key' = some r ∧ r' = r.demoted := by
  unfold modifyEntry at hr'
  split at hr'
  · rename_i r hr
    exact lookup_changed hr hr'
  · exact .inl hr'

theorem lookup_of_remove (hr' : (w.remove key).lookup key' = some r') :
    w.lookup key' = some r' := by
  by_cases hk : key' = key
  · rw [hk, lookup_remove] at hr'
    cases hr'
  · rwa [lookup_remove_ne hk] at hr'

end Lookups

/-- Each task listens to its own token, which has its number. -/
structure Numbered (w : World) : Prop where
  length : w.rt.tokens.length = w.rt.tasks.length
  cancel : ∀ (t : TaskId) (k : Task), w.rt.tasks[t]? = some k → k.cancel = t

theorem Numbered.eq_of_carries (hn : w.Numbered) {n t : TaskId} {r : RunnerEntry} {k k' : Task}
    (hk' : w.rt.tasks[n]? = some k') (hk : w.rt.tasks[t]? = some k) (hc' : r.Carries k')
    (hc : r.Carries k) : n = t := by
  have hsame : k'.cancel = k.cancel := Option.some_inj.1 (hc'.1.symm.trans hc.1)
  rwa [hn.cancel n k' hk', hn.cancel t k hk] at hsame

/-- A port forward has no manager. -/
def ForwardsAlone (w : World) : Prop :=
  ∀ r ∈ w.sessions, r.config.upstream.isHttpProxy = true → r.sessionMgr = none

/-- Tasks are added or end, and each has its own token. -/
structure Extends (w w' : World) : Prop where
  numbered : w.Numbered → w'.Numbered
  tasks : ∀ (t : TaskId) (k : Task), w.rt.tasks[t]? = some k →
    ∃ ended, w'.rt.tasks[t]? = some { k with ended }

namespace Extends

theorem of_rt (h : w'.rt = w.rt) : w.Extends w' where
  numbered hn := ⟨by rw [h, hn.length], fun t k hk => hn.cancel t k (h ▸ hk)⟩
  tasks t k hk := ⟨k.ended, by rw [h]; exact hk⟩

theorem trans (h : w.Extends w') (h' : w'.Extends w'') : w.Extends w'' where
  numbered hn := h'.numbered (h.numbered hn)
  tasks t k hk := by
    obtain ⟨_, hk'⟩ := h.tasks t k hk
    obtain ⟨ended, hk''⟩ := h'.tasks t _ hk'
    exact ⟨ended, hk''⟩

theorem newObject (w : World) : w.Extends w.newObject.2 where
  numbered hn := ⟨hn.length, hn.cancel⟩
  tasks _ k hk := ⟨k.ended, hk⟩

theorem spawn (w : World) (kind : TaskKind) : w.Extends (w.spawn kind).2.2 where
  numbered hn := by
    refine ⟨by simp [World.spawn, hn.length], fun t k hk => ?_⟩
    simp only [World.spawn] at hk
    rcases getElem?_concat_eq_some.1 hk with hk | ⟨rfl, rfl⟩
    · exact hn.cancel t k hk
    · exact hn.length
  tasks _ k hk := ⟨k.ended, tasks_spawn_of_some hk kind⟩

theorem endTask (w : World) (t : TaskId) : w.Extends (w.endTask t) where
  numbered hn := by
    refine ⟨by simpa [World.endTask] using hn.length, fun n k hk => ?_⟩
    simp only [World.endTask, List.getElem?_modify] at hk
    obtain ⟨k', hk', rfl⟩ := Option.map_eq_some_iff.1 hk
    have hc := hn.cancel n k' hk'
    split <;> exact hc
  tasks n k hk := by
    simp only [World.endTask, List.getElem?_modify, hk]
    by_cases hn : t = n
    · exact ⟨true, by simp [hn]⟩
    · exact ⟨k.ended, by simp [hn]⟩

theorem cancelAll (w : World) (cs : List Token) : w.Extends (w.cancelAll cs) where
  numbered hn := ⟨by simpa using hn.length, fun t k hk => hn.cancel t k (by simpa using hk)⟩
  tasks _ k hk := ⟨k.ended, by simpa using hk⟩

end Extends

/-- Entries that go, or that are as another one in what counts, leave the port forwards alone. -/
theorem ForwardsAlone.of_fewer (h : w.ForwardsAlone)
    (hent : ∀ r' ∈ w'.sessions, ∃ r ∈ w.sessions, r'.config.upstream = r.config.upstream ∧
      r'.sessionMgr = r.sessionMgr) : w'.ForwardsAlone := by
  intro r' hr' hp
  obtain ⟨r, hr, hup, hmgr⟩ := hent r' hr'
  rw [hmgr]
  exact h r hr (hup ▸ hp)

end World

/-- What every section keeps. -/
def KeepsForwards (u : World → World) : Prop :=
  ∀ w : World, w.Extends (u w) ∧ (w.ForwardsAlone → (u w).ForwardsAlone)

namespace KeepsForwards

/-- The entries stay. -/
theorem of_app {u : World → World} (h : ∀ w : World, w.Extends (u w))
    (happ : ∀ w, (u w).app = w.app) :
    KeepsForwards u := by
  refine fun w => ⟨h w, fun hw r hr => hw r ?_⟩
  rwa [World.sessions, happ] at hr

/-- Entries go, or one is changed. -/
theorem of_lookup {u : World → World} {f : RunnerEntry → RunnerEntry}
    (hrt : ∀ w, (u w).rt = w.rt)
    (hf : ∀ r, (f r).config.upstream = r.config.upstream ∧ (f r).sessionMgr = r.sessionMgr)
    (hent : ∀ (w : World) key r', (u w).lookup key = some r' → w.lookup key = some r' ∨
      ∃ r, w.lookup key = some r ∧ r' = f r) : KeepsForwards u := by
  refine fun w => ⟨.of_rt (hrt w), fun hw => hw.of_fewer fun r' hr' => ?_⟩
  obtain ⟨key', hr'⟩ := World.mem_sessions.1 hr'
  rcases hent w key' r' hr' with hr | ⟨r, hr, rfl⟩
  · exact ⟨r', World.mem_sessions.2 ⟨key', hr⟩, rfl, rfl⟩
  · exact ⟨r, World.mem_sessions.2 ⟨key', hr⟩, hf r⟩

theorem insert {w : World} (hw : w.ForwardsAlone) (key : String) {r : RunnerEntry}
    (hr : r.config.upstream.isHttpProxy = true → r.sessionMgr = none) :
    (w.insert key r).ForwardsAlone := by
  intro r' hr'
  obtain ⟨key', hr'⟩ := World.mem_sessions.1 hr'
  by_cases hk : key' = key
  · rw [hk, World.lookup_insert, Option.some_inj] at hr'
    exact hr' ▸ hr
  · rw [World.lookup_insert_ne hk] at hr'
    exact hw r' (World.mem_sessions.2 ⟨key', hr'⟩)

/-- **Every section keeps the tasks and the port forwards in order.** -/
theorem rules : StartupRules KeepsForwards where
  look := of_app (fun w => .of_rt rfl) fun w => rfl
  newSession sshUser password upstream cfg := by
    refine of_app (fun w => ?_) fun w => rfl
    have hobjects := ((World.Extends.newObject w).trans (.newObject _)).trans (.newObject _)
    exact hobjects.trans (.spawn _ _)
  acceptLoop listen mgr := of_app (fun w => .spawn w _) fun w => rfl
  portForward listen target protocol :=
    of_app (fun w => (World.Extends.spawn w _).trans (.newObject _)) fun w => rfl
  endTask t := of_app (fun w => .endTask w t) fun w => rfl
  cancelEntry key := by
    refine of_app (fun w => ?_) fun w => w.app_cancelEntry key
    unfold World.cancelEntry
    split
    · exact .cancelAll w _
    · exact .of_rt rfl
  takeHandles key := by
    refine of_lookup (f := RunnerEntry.taken) (fun w => ?_) (fun r => ⟨rfl, rfl⟩)
      fun _ _ _ => World.lookup_takeHandles
    unfold World.takeHandles
    split <;> rfl
  demote key := of_lookup (f := RunnerEntry.demoted) (fun w => w.rt_modifyEntry key _)
    (fun r => ⟨rfl, rfl⟩) fun _ _ _ => World.lookup_demote
  remove key := of_lookup (f := id) (fun w => rfl) (fun r => ⟨rfl, rfl⟩)
    fun _ _ _ hr' => .inl (World.lookup_of_remove hr')
  enter key _ hr _ := ⟨.of_rt rfl, fun hw => insert hw key hr⟩
  enterForward key _ _ _ _ _ w :=
    ⟨(World.Extends.spawn w _).trans (.of_rt rfl), fun hw => insert hw key fun _ => rfl⟩

theorem persist (C : Codec) (io : SaveIo) : KeepsForwards fun w => (w.persist C io).2 :=
  of_app (fun _ => .of_rt rfl) fun _ => rfl

end KeepsForwards

/-! ### What the sections show -/

/-- The section shows no port forward that was not shown before, unless it puts an entry in the
map. -/
def ShowsOnlyEntered (u : World → World) : Prop :=
  (∀ w : World, w.newlyShown (u w) = []) ∨ ∃ key r, u = fun w => w.insert key r

namespace ShowsOnlyEntered

theorem newlyShown_eq_nil {w w' : World} (h : ∀ r ∈ w'.shown, ∃ r₀ ∈ w.shown, r₀.SameForward r) :
    w.newlyShown w' = [] := by
  refine List.filter_eq_nil_iff.2 fun r hr hnew => ?_
  obtain ⟨r₀, hr₀, hsame⟩ := h r hr
  exact of_decide_eq_true hnew r₀ hr₀ hsame

theorem of_app {u : World → World} (h : ∀ w, (u w).app = w.app) : ShowsOnlyEntered u := by
  refine .inl fun w => newlyShown_eq_nil fun r hr => ⟨r, ?_, rfl, rfl⟩
  rwa [World.shown, World.sessions, h] at hr

theorem of_lookup {u : World → World} {f : RunnerEntry → RunnerEntry}
    (hf : ∀ r, (f r).proxyCancel.isSome = true → r.SameForward (f r))
    (hent : ∀ (w : World) key r', (u w).lookup key = some r' → w.lookup key = some r' ∨
      ∃ r, w.lookup key = some r ∧ r' = f r) : ShowsOnlyEntered u := by
  refine .inl fun w => newlyShown_eq_nil fun r' hr' => ?_
  obtain ⟨hmem, hp, hshow⟩ := World.mem_shown.1 hr'
  obtain ⟨key, hr'⟩ := World.mem_sessions.1 hmem
  rcases hent w key r' hr' with hr | ⟨r, hr, rfl⟩
  · exact ⟨r', World.mem_shown.2 ⟨World.mem_sessions.2 ⟨key, hr⟩, hp, hshow⟩, rfl, rfl⟩
  · have hsame := hf r hshow
    refine ⟨r, World.mem_shown.2 ⟨World.mem_sessions.2 ⟨key, hr⟩, ?_, ?_⟩, hsame⟩
    · rw [hsame.1]
      exact hp
    · rw [hsame.2]
      exact hshow

theorem rules : SectionRules ShowsOnlyEntered where
  look := of_app fun w => rfl
  newSession _ _ _ _ := of_app fun w => rfl
  acceptLoop _ _ := of_app fun w => rfl
  portForward _ _ _ := of_app fun w => rfl
  endTask _ := of_app fun w => rfl
  cancelEntry key := of_app fun w => w.app_cancelEntry key
  takeHandles _ := of_lookup (f := RunnerEntry.taken)
    (fun _ hr => absurd hr (by simp [RunnerEntry.taken])) fun _ _ _ => World.lookup_takeHandles
  demote _ := of_lookup (f := RunnerEntry.demoted) (fun _ _ => ⟨rfl, rfl⟩)
    fun _ _ _ => World.lookup_demote
  remove _ := of_lookup (f := id) (fun _ _ => ⟨rfl, rfl⟩)
    fun _ _ _ hr' => .inl (World.lookup_of_remove hr')
  enter key r _ := .inr ⟨key, r, rfl⟩

end ShowsOnlyEntered

/-- **A section of a call shows a port forward only when it puts an entry in the map.** -/
theorem Call.shows (C : Codec) (c : Call) (io : CallIo) :
    (c.prog C io).Updates ShowsOnlyEntered :=
  ShowsOnlyEntered.rules.call (fun _ => .of_app fun _ => rfl) c io

/-! ### The invariant of the runs -/

namespace ForwardSite

/-- What every run keeps. -/
structure Sited (s : ForwardSite) : Prop where
  numbered : s.world.Numbered
  alone : s.world.ForwardsAlone
  spawned : ∀ t, s.stage t = .listening → t < s.world.rt.tasks.length
  calls : ∀ p ∈ s.calls, p.Updates KeepsForwards

theorem attends_iff {s : ForwardSite} {r : RunnerEntry} : s.Attends r ↔
    ∃ t k, s.world.rt.tasks[t]? = some k ∧ r.Carries k ∧ s.stage t = .listening := by
  constructor
  · rintro ⟨t, -, k, hk, hc, hstage⟩
    exact ⟨t, k, hk, hc, hstage⟩
  · rintro ⟨t, k, hk, hc, hstage⟩
    exact ⟨t, (List.getElem?_eq_some_iff.1 hk).1, k, hk, hc, hstage⟩

/-- A port forward is shown as running as long as it holds a token. -/
theorem truthful_iff {s : ForwardSite} (h : s.world.ForwardsAlone) :
    s.Truthful ↔ ∀ r ∈ s.world.shown, s.Attends r := by
  have hstatus : ∀ (o : Shared), ∀ r ∈ s.world.sessions, r.config.upstream.isHttpProxy = true →
      ((∃ up, (sessionView o r).status = .running up) ↔ r.proxyCancel.isSome = true) := by
    intro o r hr hp
    have hmgr : r.mgrEntry = none := by
      rw [RunnerEntry.mgrEntry, h r hr hp]
      rfl
    simp only [sessionView, hmgr]
    cases r.proxyCancel <;> simp
  constructor
  · intro ht r hr
    obtain ⟨hmem, hp, hshow⟩ := World.mem_shown.1 hr
    have o : Shared := ⟨fun _ => .stopped, fun _ => []⟩
    exact ht o r hmem hp ((hstatus o r hmem hp).2 hshow)
  · intro ha o r hr hp hrun
    exact ha r (World.mem_shown.2 ⟨hr, hp, (hstatus o r hr hp).1 hrun⟩)

section Step

variable {C : Codec} {s u : ForwardSite}

/-- Sections of calls and the ends of other tasks leave the forwards as they are. -/
theorem attends_extends (hs : s.Sited) (hw : s.world.Extends u.world) (hstage : u.stage = s.stage)
    (r : RunnerEntry) : u.Attends r ↔ s.Attends r := by
  rw [attends_iff, attends_iff, hstage]
  constructor
  · rintro ⟨t, k, hk, hc, ht⟩
    obtain ⟨k', hk'⟩ : ∃ k', s.world.rt.tasks[t]? = some k' :=
      ⟨_, List.getElem?_eq_getElem (hs.spawned t ht)⟩
    obtain ⟨ended, hsame⟩ := hw.tasks t k' hk'
    obtain rfl := Option.some_inj.1 (hk.symm.trans hsame)
    exact ⟨t, k', hk', hc, ht⟩
  · rintro ⟨t, k, hk, hc, ht⟩
    obtain ⟨ended, hk'⟩ := hw.tasks t k hk
    exact ⟨t, _, hk', hc, ht⟩

/-- What a step can do, one constructor for each outcome of an action. -/
inductive Stepped (C : Codec) (s : ForwardSite) : ForwardAct → ForwardSite → Prop
  | call (c : Call) (io : CallIo) :
      Stepped C s (.call c io) { s with calls := s.calls ++ [c.prog C io] }
  | next {n : ℕ} {ready : World → Bool} {upd : World → World}
      {next : World → Prog World (Except AppError Unit)}
      (hn : s.calls[n]? = some (.sec ready upd next)) : Stepped C s (.next n)
      { s with world := upd s.world, calls := s.calls.set n (next s.world) }
  | bind {t : TaskId} {k : Task} (hk : s.world.rt.tasks[t]? = some k) :
      Stepped C s (.bind t) { s with stage := Function.update s.stage t .listening }
  | bindFails {t : TaskId} (ht : s.stage t = .starting) :
      Stepped C s (.bindFails t) (s.endForward t)
  | fails {t : TaskId} (ht : s.stage t = .listening) : Stepped C s (.fails t) (s.endForward t)
  | cancelled {t : TaskId} (ht : s.stage t = .listening) :
      Stepped C s (.cancelled t) (s.endForward t)
  | taskEnds (t : TaskId) : Stepped C s (.taskEnds t) { s with world := s.world.endTask t }

theorem step_stepped {a : ForwardAct} (h : forwardStep C s a = some u) : Stepped C s a u := by
  cases a with
  | call c io => exact Option.some_inj.1 h ▸ .call c io
  | next n =>
      simp only [forwardStep] at h
      split at h
      · rename_i ready upd next hn
        split at h
        · exact Option.some_inj.1 h ▸ .next hn
        · cases h
      · cases h
  | bind t =>
      simp only [forwardStep] at h
      split at h
      · rename_i listen target protocol hkind
        obtain ⟨k, hk, -⟩ := Option.map_eq_some_iff.1 hkind
        split at h
        · exact Option.some_inj.1 h ▸ .bind hk
        · cases h
      · cases h
  | bindFails t =>
      simp only [forwardStep] at h
      split at h
      · split at h
        · rename_i ht
          exact Option.some_inj.1 h ▸ .bindFails ht
        · cases h
      · cases h
  | fails t =>
      simp only [forwardStep] at h
      split at h
      · rename_i ht
        exact Option.some_inj.1 h ▸ .fails ht
      · cases h
  | cancelled t =>
      simp only [forwardStep] at h
      split at h
      · split at h
        · rename_i ht
          exact Option.some_inj.1 h ▸ .cancelled ht.1
        · cases h
      · cases h
  | taskEnds t =>
      simp only [forwardStep] at h
      split at h
      · cases h
      · exact Option.some_inj.1 h ▸ .taskEnds t

theorem Sited.endForward (hs : s.Sited) (t : TaskId) : (s.endForward t).Sited where
  numbered := (World.Extends.endTask s.world t).numbered hs.numbered
  alone := hs.alone
  spawned n hn := by
    by_cases hnt : n = t
    · subst hnt
      simp [ForwardSite.endForward] at hn
    · simp only [ForwardSite.endForward, Function.update_of_ne hnt] at hn
      simpa [ForwardSite.endForward, World.endTask] using hs.spawned n hn
  calls := hs.calls

theorem Sited.step {a : ForwardAct} (hs : s.Sited) (h : forwardStep C s a = some u) :
    u.Sited := by
  cases step_stepped h with
  | call c io =>
      refine ⟨hs.numbered, hs.alone, hs.spawned, fun p hp => ?_⟩
      rcases List.mem_append.1 hp with hp | hp
      · exact hs.calls p hp
      · rw [List.mem_singleton.1 hp]
        exact KeepsForwards.rules.call (KeepsForwards.persist C) c io
  | @next n ready upd next hn =>
      have hsec : Prog.Updates KeepsForwards (.sec ready upd next) :=
        hs.calls _ (List.mem_of_getElem? hn)
      obtain ⟨hext, halone⟩ := hsec.1 s.world
      refine ⟨hext.numbered hs.numbered, halone hs.alone, fun t ht => ?_, fun p hp => ?_⟩
      · obtain ⟨ended, hk⟩ := hext.tasks t _ (List.getElem?_eq_getElem (hs.spawned t ht))
        exact (List.getElem?_eq_some_iff.1 hk).1
      · rcases List.mem_or_eq_of_mem_set hp with hp | rfl
        · exact hs.calls p hp
        · exact hsec.2 s.world
  | @bind t k hk =>
      refine ⟨hs.numbered, hs.alone, fun n hn => ?_, hs.calls⟩
      by_cases hnt : n = t
      · exact hnt ▸ (List.getElem?_eq_some_iff.1 hk).1
      · exact hs.spawned n (by simpa [Function.update_of_ne hnt] using hn)
  | bindFails | fails | cancelled => exact hs.endForward _
  | taskEnds t =>
      refine ⟨(World.Extends.endTask s.world t).numbered hs.numbered, hs.alone, fun n hn => ?_,
        hs.calls⟩
      simpa [World.endTask] using hs.spawned n hn

/-- What counts of an entry are the upstream and the token. -/
theorem attends_of_same {r r' : RunnerEntry} (h : r.SameForward r') (ha : s.Attends r) :
    s.Attends r' := by
  obtain ⟨t, k, hk, hc, ht⟩ := attends_iff.1 ha
  refine attends_iff.2 ⟨t, k, hk, ?_, ht⟩
  rwa [RunnerEntry.Carries, ← h.1, ← h.2]

/-- The end of a forward task that attends nobody. -/
theorem attends_endForward {t : TaskId} {r : RunnerEntry}
    (hno : ∀ k, s.world.rt.tasks[t]? = some k → r.Carries k → s.stage t ≠ .listening)
    (ha : s.Attends r) : (s.endForward t).Attends r := by
  obtain ⟨n, k, hk, hc, hn⟩ := attends_iff.1 ha
  have hne : n ≠ t := by
    rintro rfl
    exact hno k hk hc hn
  obtain ⟨ended, hk'⟩ := (World.Extends.endTask s.world t).tasks n k hk
  exact attends_iff.2 ⟨n, _, hk', hc, (Function.update_of_ne hne ..).trans hn⟩

/-- A forward task that listens ends: the status stays truthful exactly if no entry holds its
token. -/
theorem truthful_endForward (hs : s.Sited) (hp : s.Truthful) {t : TaskId} :
    (s.endForward t).Truthful ↔
      ∀ k ∈ s.world.rt.tasks[t]?, ∀ r ∈ s.world.sessions, ¬ r.Carries k := by
  rw [truthful_iff hs.alone] at hp
  rw [truthful_iff (hs.endForward t).alone]
  constructor
  · intro h k hk r hr hc
    obtain ⟨n, k', hk', hc', hn⟩ := attends_iff.1 (h r (World.carries_shown hc hr))
    obtain ⟨ended, hk⟩ := (World.Extends.endTask s.world t).tasks t k hk
    have hsame := (hs.endForward t).numbered.eq_of_carries hk' hk hc' hc
    have hover : (s.endForward t).stage t = .over := Function.update_self ..
    rw [hsame, hover] at hn
    cases hn
  · intro h r hr
    refine attends_endForward (fun k hk hc => ?_) (hp r hr)
    exact absurd hc (h k hk r (World.mem_shown.1 hr).1)

/-- **A step keeps the status truthful exactly if it is careful.** -/
theorem truthful_step {a : ForwardAct} (hs : s.Sited) (hp : s.Truthful)
    (h : forwardStep C s a = some u) : u.Truthful ↔ s.Careful a := by
  have hu := hs.step h
  have hold := (truthful_iff hs.alone).1 hp
  cases step_stepped h with
  | call => exact iff_of_true (fun o r hr => hp o r hr) trivial
  | @next n ready upd next hn =>
      have hsec : Prog.Updates KeepsForwards (.sec ready upd next) :=
        hs.calls _ (List.mem_of_getElem? hn)
      have hatt := attends_extends (u := ⟨upd s.world, s.calls.set n (next s.world), s.stage⟩) hs
        (hsec.1 s.world).1 rfl
      rw [truthful_iff hu.alone]
      simp only [Careful, hn]
      constructor
      · intro hall r hr
        exact (hatt r).1 (hall r (List.mem_filter.1 hr).1)
      · intro hnew r hr
        rw [hatt r]
        by_cases hshow : ∃ r₀ ∈ s.world.shown, r₀.SameForward r
        · obtain ⟨r₀, hr₀, hsame⟩ := hshow
          exact attends_of_same hsame (hold r₀ hr₀)
        · refine hnew r (List.mem_filter.2 ⟨hr, decide_eq_true fun r₀ hr₀ hsame => ?_⟩)
          exact hshow ⟨r₀, hr₀, hsame⟩
  | @bind t k hk =>
      refine iff_of_true ((truthful_iff hu.alone).2 fun r hr => ?_) trivial
      obtain ⟨n, k, hk, hc, hn⟩ := attends_iff.1 (hold r hr)
      refine attends_iff.2 ⟨n, k, hk, hc, ?_⟩
      by_cases hnt : n = t
      · exact hnt ▸ Function.update_self ..
      · exact (Function.update_of_ne hnt ..).trans hn
  | bindFails ht =>
      refine iff_of_true ((truthful_iff hu.alone).2 fun r hr => ?_) trivial
      exact attends_endForward (fun _ _ _ => by simp [ht]) (hold r hr)
  | fails | cancelled => exact truthful_endForward hs hp
  | taskEnds t =>
      refine iff_of_true ((truthful_iff hu.alone).2 fun r hr => ?_) trivial
      have hatt := attends_extends (u := ⟨s.world.endTask t, s.calls, s.stage⟩) hs
        (.endTask s.world t) rfl
      exact (hatt r).2 (hold r hr)

end Step

/-! ### Whole runs -/

section Start

variable {C : Codec} {w : World} {stage : TaskId → ForwardStage}

/-- The state in which the program is ready. -/
def ready (w : World) (stage : TaskId → ForwardStage) : ForwardSite := ⟨w, [], stage⟩

/-- A start spawns the forwards of the stored sessions as the calls do. -/
theorem ready_sited (hb : Boots C w) (hstage : (ready w stage).Placed) :
    (ready w stage).Sited := by
  obtain ⟨fs, stored, fpr, sessions, dev, -, -, hrun⟩ := hb
  have hkept : w.Numbered ∧ w.ForwardsAlone := by
    have hu : (startup sessions).Updates fun u => ∀ w : World, w.Numbered ∧ w.ForwardsAlone →
        (u w).Numbered ∧ (u w).ForwardsAlone :=
      (KeepsForwards.rules.startup sessions).mono fun u hu w hw =>
        ⟨(hu w).1.numbered hw.1, (hu w).2 hw.2⟩
    refine hu.run_preserves hrun ⟨⟨rfl, fun t k hk => ?_⟩, fun r hr => ?_⟩
    · cases hk
    · cases hr
  refine ⟨hkept.1, hkept.2, fun t ht => ?_, fun p hp => by cases hp⟩
  obtain ⟨k, hk, -⟩ := hstage t (by rw [ht]; decide)
  exact (List.getElem?_eq_some_iff.1 hk).1

/-- When the program is ready, each entry that holds a token has spawned its forward. -/
theorem ready_truthful_iff (hb : Boots C w) (hs : (ready w stage).Sited) :
    (ready w stage).Truthful ↔ (ready w stage).Settled := by
  rw [truthful_iff hs.alone]
  constructor
  · intro h r hr t _ k hk hc
    obtain ⟨n, k', hk', hc', hn⟩ := attends_iff.1 (h r (World.carries_shown hc hr))
    exact hs.numbered.eq_of_carries hk' hk hc' hc ▸ hn
  · intro h r hr
    obtain ⟨hmem, hp, hshow⟩ := World.mem_shown.1 hr
    obtain ⟨key, hl⟩ := World.mem_sessions.1 hmem
    obtain hi | hf | hv := (ReachableWorld.boot hb).sound.formed key r hl
    · have htok := hi.tokens
      simp only [RunnerEntry.tokens, List.append_eq_nil_iff, Option.toList_eq_nil_iff] at htok
      exact absurd hshow (by simp [htok.1.2])
    · obtain ⟨listen, target, protocol, c, t, hu, -, ⟨k, hk, hkind, hc⟩, he⟩ := hf
      have hcarry : r.Carries k := by
        refine ⟨by rw [he, hc], ?_⟩
        rw [hu]
        exact hkind
      have hlt := (List.getElem?_eq_some_iff.1 hk).1
      exact attends_iff.2 ⟨t, k, hk, hcarry, h r hmem t hlt k hk hcarry⟩
    · obtain ⟨_, _, _, _, _, hno, -⟩ := hv
      exact absurd hp (by simp [hno])

/-- **The status of the port forwards is truthful along a run exactly if the start is settled and
every step of the run is careful**: in any order of calls, of their sections, and of the forward
tasks. -/
theorem forwardStatus_iff {as : List ForwardAct} {s : ForwardSite} (hb : Boots C w)
    (hstage : (ready w stage).Placed) (hr : exec (forwardStep C) (ready w stage) as = some s) :
    Along (forwardStep C) Truthful (ready w stage) as ↔
      (ready w stage).Settled ∧ Meets (forwardStep C) Careful (ready w stage) as := by
  have hs := ready_sited hb hstage
  have hrun : (ready w stage).Truthful → (Along (forwardStep C) Truthful (ready w stage) as ↔
      Meets (forwardStep C) Careful (ready w stage) as) := fun hp =>
    along_iff_meets (I := Sited) (fun _ _ _ hi => hi.step) (fun _ _ _ hi hp => truthful_step hi hp)
      hs hp hr
  rw [← ready_truthful_iff hb hs]
  constructor
  · intro h
    exact ⟨h.head, (hrun h.head).1 h⟩
  · rintro ⟨hp, h⟩
    exact (hrun hp).2 h

end Start

/-! ### Runs on their own -/

/-- A web server that others are to reach on port 8080. -/
def webForward : SessionConfig where
  name := "web"
  password := ""
  sshUser := ""
  listen := ""
  autoReconnect := false
  launchOnStartup := true
  ptyOverride := none
  upstream := .httpProxy "0.0.0.0:8080" "127.0.0.1:80" "tcp"

/-- The program without any stored session. -/
def blank : ForwardSite := ready World.empty fun _ => .starting

theorem blank_placed : blank.Placed := fun _ ht => absurd rfl ht

/-- The forward binds its address before the session is entered; at the restart the old task ends
once the entry has let go of its token, and the new one binds the address then. -/
theorem forwardStatus_restart : Along (forwardStep plainCodec) Truthful blank
    [.call (.create webForward) CallIo.none, .next 0, .bind 0, .next 0, .next 0,
      .call (.restart "web") CallIo.none, .next 1, .next 1, .next 1, .cancelled 0, .next 1, .next 1,
      .next 1, .bind 1, .next 1, .next 1] := by
  refine (forwardStatus_iff (World.empty_boots plainCodec) blank_placed rfl).2 ⟨?_, ?_⟩
  · intro r hr
    cases hr
  · decide +kernel

/-- **The address is taken by somebody else**: the session is entered all the same, and it is shown
as running. -/
theorem forwardStatus_unbound :
    ¬ ∀ (C : Codec) (w : World) (stage : TaskId → ForwardStage) (as : List ForwardAct)
      (s : ForwardSite), Boots C w → (ready w stage).Placed →
      exec (forwardStep C) (ready w stage) as = some s →
      Along (forwardStep C) Truthful (ready w stage) as := by
  intro h
  let as : List ForwardAct :=
    [.call (.create webForward) CallIo.none, .next 0, .bindFails 0, .next 0, .next 0]
  have hb := World.empty_boots plainCodec
  obtain ⟨s, hr⟩ : ∃ s, exec (forwardStep plainCodec) blank as = some s := ⟨_, rfl⟩
  have hs : s.Sited := (reachable_of_exec hr).invariant (ready_sited hb blank_placed)
    fun _ _ _ hi _ hstep => hi.step hstep
  have hall := (truthful_iff hs.alone).1 ((h _ _ _ as s hb blank_placed hr).last hr)
  have hno : ∀ s ∈ exec (forwardStep plainCodec) blank as, ¬ ∀ r ∈ s.world.shown, s.Attends r := by
    decide +kernel
  exact hno s hr hall

end ForwardSite

end TermHub
