/-
**The state of the application: session entries, tasks and tokens.**

`termhub-app/src/state.rs`, with the part of the runtime that the session operations see: which
tasks have been spawned, which cancellation tokens have been cancelled, and the configuration
directory.

A task carries the token it listens to.  Dropping a token or a join handle does not cancel
anything, so in the model both are plain names: forgetting a name changes no task.

Main definitions:

* `Task`, `Runtime` — spawned tasks and cancellation tokens;
* `RunnerEntry`, `AppState` — the entries of the session map, as in the source;
* `World` — the application state, the runtime and the configuration directory;
* `World.Live` — a task that has neither ended nor been cancelled;
* `RunnerEntry.tokens`, `RunnerEntry.handles` — the tokens and the handles an entry holds.
-/

import TermHub.OrderedMap
import TermHub.Session
import TermHub.SessionMgr

set_option relaxedAutoImplicit false
set_option autoImplicit false

namespace TermHub

/-- The name of a spawned task, as a `JoinHandle` gives it. -/
abbrev TaskId := ℕ

/-- What a background task runs. -/
inductive TaskKind
  /-- `run_loop` on a hub, with drivers made from the upstream. -/
  | runner (hub : HubHandle) (upstream : UpstreamSpec) (cfg : RunnerConfig)
  /-- The accept loop of `termhub_sshd::start`, whose connections ask the manager. -/
  | acceptLoop (listen : String) (mgr : SessionMgr)
  /-- `run_tcp_forward` or `run_udp_forward`. -/
  | portForward (listen target protocol : String)
  deriving DecidableEq

/-- A spawned task: what it runs, the token it listens to, and whether it has ended. -/
structure Task where
  kind : TaskKind
  cancel : Token
  ended : Bool
  deriving DecidableEq

/-- Tokens and tasks are numbered in the order in which they are made; `objects` counts the hubs,
status watches and client registries. -/
structure Runtime where
  tokens : List Bool
  tasks : List Task
  objects : ℕ
  deriving DecidableEq

/-! ### Entries -/

/-- `StartedSession`. -/
structure StartedSession where
  statusRx : StatusRx
  cancel : Token
  handle : TaskId
  deriving DecidableEq, Repr

/-- `RunnerEntry`. -/
structure RunnerEntry where
  started : Option StartedSession
  config : SessionConfig
  proxyCancel : Option Token
  sshdCancel : Option Token
  sshdHandle : Option TaskId
  sessionMgr : Option SessionMgr
  deriving DecidableEq

/-- The tokens an entry holds. -/
def RunnerEntry.tokens (r : RunnerEntry) : List Token :=
  (r.started.map StartedSession.cancel).toList ++ r.proxyCancel.toList ++ r.sshdCancel.toList

/-- The handles an entry holds. -/
def RunnerEntry.handles (r : RunnerEntry) : List TaskId :=
  (r.started.map StartedSession.handle).toList ++ r.sshdHandle.toList

/-- The entry of a session whose tasks have been taken out of it. -/
def RunnerEntry.taken (r : RunnerEntry) : RunnerEntry :=
  { r with started := none, proxyCancel := none, sshdCancel := none, sshdHandle := none }

/-- The entry with the flag that the user has stopped the session. -/
def RunnerEntry.demoted (r : RunnerEntry) : RunnerEntry :=
  { r with config := { r.config with launchOnStartup := false } }

@[simp] theorem RunnerEntry.tokens_taken (r : RunnerEntry) : r.taken.tokens = [] := rfl

@[simp] theorem RunnerEntry.tokens_demoted (r : RunnerEntry) : r.demoted.tokens = r.tokens := rfl

@[simp] theorem RunnerEntry.handles_taken (r : RunnerEntry) : r.taken.handles = [] := rfl

@[simp] theorem RunnerEntry.handles_demoted (r : RunnerEntry) :
    r.demoted.handles = r.handles := rfl

@[simp] theorem RunnerEntry.name_taken (r : RunnerEntry) :
    r.taken.config.name = r.config.name := rfl

@[simp] theorem RunnerEntry.name_demoted (r : RunnerEntry) :
    r.demoted.config.name = r.config.name := rfl

theorem RunnerEntry.mem_tokens {r : RunnerEntry} {c : Token} :
    c ∈ r.tokens ↔ (∃ s, r.started = some s ∧ s.cancel = c) ∨ r.proxyCancel = some c ∨
      r.sshdCancel = some c := by
  simp [RunnerEntry.tokens]

/-- `AppState`. -/
structure AppState where
  runners : AList (fun _ : String => RunnerEntry)
  hostKeyFpr : String
  maxClientsPerSession : ℕ
  apiListen : String

/-- The application state together with what its operations act on. -/
structure World where
  app : AppState
  rt : Runtime
  fs : Fs

namespace World

/-! ### The session map -/

/-- `runners.get(&key)`. -/
def lookup (w : World) (key : String) : Option RunnerEntry := w.app.runners.lookup key

/-- `runners.insert(key, entry)`, or an assignment through `get_mut`: an entry that is there keeps
its place in the order of iteration. -/
def insert (w : World) (key : String) (r : RunnerEntry) : World :=
  { w with app := { w.app with runners := OrderedMap.put w.app.runners key r } }

/-- `runners.remove(&key)`. -/
def remove (w : World) (key : String) : World :=
  { w with app := { w.app with runners := w.app.runners.erase key } }

/-- Change the entry under `key`, if there is one: a block on `runners.get_mut(&key)`. -/
def modifyEntry (w : World) (key : String) (f : RunnerEntry → RunnerEntry) : World :=
  match w.lookup key with
  | some r => w.insert key (f r)
  | none => w

@[simp] theorem lookup_insert (w : World) (key : String) (r : RunnerEntry) :
    (w.insert key r).lookup key = some r := OrderedMap.lookup_put r

theorem lookup_insert_ne {key key' : String} (h : key' ≠ key) (w : World) (r : RunnerEntry) :
    (w.insert key r).lookup key' = w.lookup key' := OrderedMap.lookup_put_ne h r

@[simp] theorem lookup_remove (w : World) (key : String) : (w.remove key).lookup key = none :=
  AList.lookup_erase _ _

theorem lookup_remove_ne {key key' : String} (h : key' ≠ key) (w : World) :
    (w.remove key).lookup key' = w.lookup key' := AList.lookup_erase_ne h

@[simp] theorem lookup_modifyEntry (w : World) (key : String) (f : RunnerEntry → RunnerEntry) :
    (w.modifyEntry key f).lookup key = (w.lookup key).map f := by
  unfold modifyEntry
  cases h : w.lookup key with
  | none => simp [h]
  | some r => simp

@[simp] theorem rt_insert (w : World) (key : String) (r : RunnerEntry) :
    (w.insert key r).rt = w.rt := rfl

@[simp] theorem rt_remove (w : World) (key : String) : (w.remove key).rt = w.rt := rfl

@[simp] theorem rt_modifyEntry (w : World) (key : String) (f : RunnerEntry → RunnerEntry) :
    (w.modifyEntry key f).rt = w.rt := by
  unfold modifyEntry
  cases w.lookup key <;> rfl

@[simp] theorem fs_insert (w : World) (key : String) (r : RunnerEntry) :
    (w.insert key r).fs = w.fs := rfl

/-! ### Tokens and tasks -/

/-- The token has been cancelled. -/
def isCancelled (w : World) (c : Token) : Bool := w.rt.tokens[c]?.getD false

/-- `CancellationToken::cancel`. -/
def cancel (w : World) (c : Token) : World :=
  { w with rt := { w.rt with tokens := w.rt.tokens.set c true } }

/-- Cancel each of the tokens. -/
def cancelAll (w : World) (cs : List Token) : World := cs.foldl cancel w

/-- A new token and a task that listens to it. -/
def spawn (w : World) (kind : TaskKind) : Token × TaskId × World :=
  (w.rt.tokens.length, w.rt.tasks.length,
    { w with rt := { w.rt with
        tokens := w.rt.tokens ++ [false]
        tasks := w.rt.tasks ++ [⟨kind, w.rt.tokens.length, false⟩] } })

/-- A new hub, status watch or client registry. -/
def newObject (w : World) : ℕ × World :=
  (w.rt.objects, { w with rt := { w.rt with objects := w.rt.objects + 1 } })

/-- The task ends. -/
def endTask (w : World) (t : TaskId) : World :=
  { w with rt := { w.rt with tasks := w.rt.tasks.modify t fun k => { k with ended := true } } }

/-- The task has ended. -/
def ended (w : World) (t : TaskId) : Bool := (w.rt.tasks[t]?).any Task.ended

/-- `JoinHandle::await` can return: the task has ended, or its token has been cancelled and it
ends now. -/
def joinable (w : World) (t : TaskId) : Bool :=
  match w.rt.tasks[t]? with
  | some k => k.ended || w.isCancelled k.cancel
  | none => false

/-- The task has been spawned, has not ended, and its token has not been cancelled. -/
def Live (w : World) (t : TaskId) : Prop :=
  ∃ k, w.rt.tasks[t]? = some k ∧ k.ended = false ∧ w.isCancelled k.cancel = false

@[simp] theorem lookup_cancel (w : World) (c : Token) (key : String) :
    (w.cancel c).lookup key = w.lookup key := rfl

@[simp] theorem app_cancelAll (w : World) (cs : List Token) : (w.cancelAll cs).app = w.app := by
  induction cs generalizing w with
  | nil => rfl
  | cons c cs ih => exact ih (w.cancel c)

@[simp] theorem fs_cancelAll (w : World) (cs : List Token) : (w.cancelAll cs).fs = w.fs := by
  induction cs generalizing w with
  | nil => rfl
  | cons c cs ih => exact ih (w.cancel c)

@[simp] theorem lookup_cancelAll (w : World) (cs : List Token) (key : String) :
    (w.cancelAll cs).lookup key = w.lookup key := by
  unfold lookup
  rw [app_cancelAll]

@[simp] theorem tasks_cancelAll (w : World) (cs : List Token) :
    (w.cancelAll cs).rt.tasks = w.rt.tasks := by
  induction cs generalizing w with
  | nil => rfl
  | cons c cs ih => exact ih (w.cancel c)

@[simp] theorem tokens_length_cancelAll (w : World) (cs : List Token) :
    (w.cancelAll cs).rt.tokens.length = w.rt.tokens.length := by
  induction cs generalizing w with
  | nil => rfl
  | cons c cs ih => exact (ih (w.cancel c)).trans (List.length_set ..)

theorem isCancelled_cancel (w : World) (c d : Token) :
    (w.cancel c).isCancelled d = true ↔ (c = d ∧ d < w.rt.tokens.length) ∨ w.isCancelled d := by
  unfold isCancelled cancel
  rw [List.getElem?_set]
  by_cases h : c = d
  · subst h
    by_cases hlt : c < w.rt.tokens.length <;> simp [hlt]
  · simp [h]

theorem isCancelled_cancelAll (w : World) (cs : List Token) (d : Token) :
    (w.cancelAll cs).isCancelled d = true ↔
      (d ∈ cs ∧ d < w.rt.tokens.length) ∨ w.isCancelled d := by
  induction cs generalizing w with
  | nil => simp [cancelAll]
  | cons c cs ih =>
      rw [cancelAll, List.foldl_cons, ← cancelAll, ih, isCancelled_cancel]
      simp only [cancel, List.length_set, List.mem_cons]
      constructor
      · rintro (⟨h, hlt⟩ | ⟨rfl, hlt⟩ | h)
        · exact Or.inl ⟨Or.inr h, hlt⟩
        · exact Or.inl ⟨Or.inl rfl, hlt⟩
        · exact Or.inr h
      · rintro (⟨rfl | h, hlt⟩ | h)
        · exact Or.inr (Or.inl ⟨rfl, hlt⟩)
        · exact Or.inl ⟨h, hlt⟩
        · exact Or.inr (Or.inr h)

end World

end TermHub
