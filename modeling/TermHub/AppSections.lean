/-
**Rules for the sections of the session operations.**

The operations and the start-up loop are made of few kinds of sections.  What holds of the update of
each kind holds of every update that a call can make, in whatever state its other sections have run.

Main definitions:

* `SectionRules`, `StartupRules` — a property of updates that the sections of each kind have.

Main results:

* `SectionRules.call` — **it holds of every section of a call**, if it holds of the saves;
* `StartupRules.startup` — it holds of every section of the start-up loop.
-/

import TermHub.AppLogicSpec

set_option relaxedAutoImplicit false
set_option autoImplicit false

namespace TermHub

open Sections

/-- **A property of the updates** of each kind of section: the operations look at the state, spawn
and end tasks, cancel tokens, take the handles and the flag out of an entry, and remove and enter
entries, where that of a port forward has no manager. -/
structure SectionRules (P : (World → World) → Prop) : Prop where
  look : P fun w => w
  newSession : ∀ sshUser password upstream cfg,
    P fun w => (w.newSession sshUser password upstream cfg).2.2
  acceptLoop : ∀ listen mgr, P fun w => (w.spawn (.acceptLoop listen mgr)).2.2
  portForward : ∀ listen target protocol,
    P fun w => (w.spawn (.portForward listen target protocol)).2.2.newObject.2
  endTask : ∀ t, P fun w => w.endTask t
  cancelEntry : ∀ key, P fun w => w.cancelEntry key
  takeHandles : ∀ key, P fun w => (w.takeHandles key).2
  demote : ∀ key, P fun w => w.modifyEntry key RunnerEntry.demoted
  remove : ∀ key, P fun w => w.remove key
  enter : ∀ key r, (r.config.upstream.isHttpProxy = true → r.sessionMgr = none) →
    P fun w => w.insert key r

/-- The start-up loop spawns and enters a port forward in one section. -/
structure StartupRules (P : (World → World) → Prop) : Prop extends SectionRules P where
  enterForward : ∀ key s listen target protocol, s.upstream = .httpProxy listen target protocol →
    P fun w => (w.spawn (.portForward listen target protocol)).2.2.insert key
      ⟨none, s, some (w.spawn (.portForward listen target protocol)).1, none, none, none⟩

namespace SectionRules

variable {P Q : (World → World) → Prop}

theorem mono (hPQ : ∀ u, P u → Q u) (h : SectionRules P) : SectionRules Q where
  look := hPQ _ h.look
  newSession sshUser password upstream cfg := hPQ _ (h.newSession sshUser password upstream cfg)
  acceptLoop listen mgr := hPQ _ (h.acceptLoop listen mgr)
  portForward listen target protocol := hPQ _ (h.portForward listen target protocol)
  endTask t := hPQ _ (h.endTask t)
  cancelEntry key := hPQ _ (h.cancelEntry key)
  takeHandles key := hPQ _ (h.takeHandles key)
  demote key := hPQ _ (h.demote key)
  remove key := hPQ _ (h.remove key)
  enter key r hr := hPQ _ (h.enter key r hr)

/-! ### The parts of the operations -/

section Parts

variable (h : SectionRules P)

include h

/-- The manager is new, so it depends on the user name alone whether it refuses the session. -/
theorem startSession (sshUser password : String) (upstream : UpstreamSpec) (cfg : RunnerConfig) :
    (startSession sshUser password upstream cfg).Updates P := by
  refine ⟨?_, fun _ => trivial⟩
  cases hn : normalizeName sshUser with
  | none =>
      refine (congrArg P (funext fun w => ?_)).mpr h.look
      simp only [register_newSession, hn]
  | some key =>
      refine (congrArg P (funext fun w => ?_)).mpr (h.newSession sshUser password upstream cfg)
      simp only [register_newSession, hn]

theorem sshdStart (bind : Except String Unit) (listen : String) (mgr : SessionMgr) :
    (sshdStart bind listen mgr).Updates P := by
  refine ⟨?_, fun _ => trivial⟩
  cases bind with
  | error e => exact h.look
  | ok u => exact h.acceptLoop listen mgr

theorem join (t : Option TaskId) : (join t).Updates P := by
  cases t with
  | none => trivial
  | some t => exact ⟨h.endTask t, fun _ => trivial⟩

end Parts

/-! ### The calls -/

section Calls

variable (h : SectionRules P) {C : Codec} (hsave : ∀ io, P fun w => (w.persist C io).2)

include h hsave

theorem stopSession (io : SaveIo) (name : String) : (stopSession C io name).Updates P := by
  refine .bind ⟨h.cancelEntry _, fun _ => trivial⟩ fun _ => ?_
  refine .bind ⟨h.takeHandles _, fun _ => trivial⟩ fun hs => ?_
  refine .bind (h.join hs.1) fun _ => .bind (h.join hs.2) fun _ => ?_
  refine .bind ⟨h.demote _, fun _ => trivial⟩ fun _ => ?_
  refine .bind ⟨hsave io, fun _ => trivial⟩ fun r => ?_
  cases r <;> trivial

theorem createSession (bind : Except String Unit) (io : SaveIo) (cfg : SessionConfig) :
    (createSession C bind io cfg).Updates P := by
  unfold TermHub.createSession
  cases hu : cfg.upstream with
  | httpProxy l t p =>
      simp only
      refine .bind ⟨h.portForward l t p, fun _ => trivial⟩ fun x => ?_
      refine .bind ⟨h.enter _ _ fun _ => rfl, fun _ => trivial⟩ fun _ => ?_
      refine .bind ⟨hsave io, fun _ => trivial⟩ fun r => ?_
      cases r <;> trivial
  | _ =>
      simp only
      refine .bind (h.startSession _ _ _ _) fun x => ?_
      cases x with
      | error e => trivial
      | ok x =>
          refine .bind (h.sshdStart _ _ _) fun y => ?_
          cases y with
          | error e => trivial
          | ok y =>
              refine .bind ⟨h.enter _ _ fun hp => ?_, fun _ => trivial⟩ fun _ => ?_
              · simp [UpstreamSpec.isHttpProxy] at hp
              · refine .bind ⟨hsave io, fun _ => trivial⟩ fun r => ?_
                cases r <;> trivial

/-- **Every section of a call**: each operation is made of the sections of a stop, of a
`create_session`, and of one look at the state. -/
theorem call (c : Call) (io : CallIo) : (c.prog C io).Updates P := by
  have look : ∀ {α : Type} (f : World → α), (Prog.atomic fun w : World => (f w, w)).Updates P :=
    fun f => ⟨h.look, fun _ => trivial⟩
  have discarded : ∀ {α : Type} {p : Prog World (Except AppError α)}, p.Updates P →
      (discard p).Updates P := by
    intro α p hp
    refine hp.bind fun r => ?_
    cases r <;> trivial
  have stopped := h.stopSession hsave io.stopSave
  have created := h.createSession hsave io.bind io.save
  cases c with
  | create cfg => exact discarded (created cfg)
  | stop name => exact h.stopSession hsave io.save name
  | delete name =>
      refine (stopped name).bind fun r => ?_
      cases r with
      | error e => trivial
      | ok u =>
          refine .bind ⟨h.remove _, fun _ => trivial⟩ fun _ => ?_
          refine .bind ⟨hsave io.save, fun _ => trivial⟩ fun r => ?_
          cases r <;> trivial
  | restart name =>
      refine discarded ((look _).bind fun cfg => ?_)
      cases cfg with
      | none => trivial
      | some cfg =>
          refine (stopped name).bind fun r => ?_
          cases r with
          | error e => trivial
          | ok u =>
              refine (created cfg).bind fun r => ?_
              cases r <;> trivial
  | update oldName cfg =>
      refine discarded ((look _).bind fun cfg' => (stopped oldName).bind fun r => ?_)
      cases r with
      | error e => trivial
      | ok u =>
          refine (created cfg').bind fun r => ?_
          cases r <;> trivial

end Calls

end SectionRules

/-! ### The start-up loop -/

namespace StartupRules

variable {P : (World → World) → Prop} (h : StartupRules P)

include h

theorem stored (bind : Except String Unit) (s : SessionConfig) :
    (startStored bind s).Updates P := by
  unfold startStored
  cases s.launchOnStartup with
  | false => exact .bind ⟨h.enter _ _ fun _ => rfl, fun _ => trivial⟩ fun _ => trivial
  | true =>
      simp only [Bool.not_true, Bool.false_eq_true, if_false]
      cases hu : s.upstream with
      | httpProxy l t p =>
          exact .bind ⟨h.enterForward _ s l t p hu, fun _ => trivial⟩ fun _ => trivial
      | _ =>
          simp only
          refine .bind (h.startSession _ _ _ _) fun x => ?_
          cases x with
          | error e => trivial
          | ok x =>
              refine .bind (h.sshdStart _ _ _) fun y => ?_
              cases y with
              | error e => trivial
              | ok y =>
                  refine .bind ⟨h.enter _ _ fun hp => ?_, fun _ => trivial⟩ fun _ => trivial
                  simp [hu, UpstreamSpec.isHttpProxy] at hp

/-- **Every section of the start-up loop.** -/
theorem startup (sessions : List (SessionConfig × Except String Unit)) :
    (startup sessions).Updates P := by
  induction sessions with
  | nil => trivial
  | cons x rest ih =>
      refine (h.stored x.2 x.1).bind fun r => ?_
      cases r with
      | error e => trivial
      | ok u => exact ih

end StartupRules

end TermHub
