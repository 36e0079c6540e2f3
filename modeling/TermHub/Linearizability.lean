/-
**Two session operations at the same time.**

The operations release the lock of the session map several times, so another operation can get in
between.  What matters is the *registry*: which sessions there are, with which configuration, and
whether their entries hold tasks.  Seen through the registry each operation is a transaction: it
looks at one entry, stops it in two sections (the handles first, the flag after the tasks have
ended), and then enters a session, removes one, or does neither.  Everything else an operation
does, the cancellations, the joins, the spawned tasks and the saves, does not show.

Main definitions:

* `World.registry` — what is observed;
* `Call.transaction` — the operations as transactions;
* `Linearizable` — an overlap of two calls amounts to running them one after the other;
* `Call.Compatible` — the pairs of calls that are safe in a state.

Main results:

* `Call.sim` — **the transaction of a call simulates its program**;
* `linearizable_of_compatible` — **compatible calls are linearizable**;
* `delete_restart_not_linearizable` — a session that has been deleted can come back.
-/

import TermHub.Transactions
import TermHub.Ownership

set_option relaxedAutoImplicit false
set_option autoImplicit false

namespace TermHub

open Sections Transactions

/-! ### The registry -/

/-- The entry holds the tasks of its session. -/
def RunnerEntry.holds (r : RunnerEntry) : Bool := r.started.isSome || r.proxyCancel.isSome

/-- What stands under a key: the configuration, and whether tasks are held. -/
abbrev Slot := Option (SessionConfig × Bool)

/-- The registry of a state. -/
def World.registry (w : World) (key : String) : Slot :=
  (w.lookup key).map fun r => (r.config, r.holds)

/-- The configuration as `create_session` enters it. -/
def SessionConfig.launched (cfg : SessionConfig) : SessionConfig :=
  { cfg with launchOnStartup := true }

/-- The configuration under a key, but for the flag that a stop changes. -/
def configOf : Slot → Option SessionConfig := Option.map fun p => p.1.launched

/-- The two sections of a stop that show in the registry. -/
def stopping : Soft configOf where
  updates := [Option.map fun p => (p.1, false),
    Option.map fun p => ({ p.1 with launchOnStartup := false }, p.2)]
  norm_eq := by
    intro g hg v
    rcases List.mem_pair.1 hg with rfl | rfl <;> cases v <;> rfl
  comm := by
    intro g hg g' hg' v
    rcases List.mem_pair.1 hg with rfl | rfl <;> rcases List.mem_pair.1 hg' with rfl | rfl <;>
      cases v <;> rfl

/-! ### The operations as transactions -/

/-- `start_session` takes the configuration: a port forward needs no user name. -/
def SessionConfig.admissible (cfg : SessionConfig) : Bool :=
  cfg.upstream.isHttpProxy || (normalizeName cfg.sshUser).isSome

/-- The plan to enter a session, or what is planned instead when it is refused. -/
def entering (cfg : SessionConfig)
    (refused : Except AppError Unit → Plan String Slot (Except AppError Unit)) :
    Plan String Slot (Except AppError Unit) :=
  if cfg.admissible then .write (toAsciiLowercase cfg.name) (some (cfg.launched, true)) (.ok ())
  else refused (.error (.internal "invalid session name"))

/-- The configuration of an update, with the password of the old entry if it has none itself. -/
def withPassword (cfg : SessionConfig) : Option SessionConfig → SessionConfig
  | some old => if cfg.password.isEmpty then { cfg with password := old.password } else cfg
  | none => cfg

/-- **The operations as transactions.** -/
def Call.transaction :
    Call → Transaction String Slot (Option SessionConfig) (Except AppError Unit)
  | create cfg => ⟨toAsciiLowercase cfg.name, false, fun _ => entering cfg .exit⟩
  | stop name => ⟨toAsciiLowercase name, true, fun _ => .keep (.ok ())⟩
  | delete name => ⟨toAsciiLowercase name, true,
      fun _ => .write (toAsciiLowercase name) none (.ok ())⟩
  | restart name => ⟨toAsciiLowercase name, true, fun
      | none => .exit (.error (.notFound "no such session"))
      | some cfg => entering cfg .keep⟩
  | update oldName cfg => ⟨toAsciiLowercase oldName, true,
      fun old => entering (withPassword cfg old) .keep⟩

/-- The pairs of calls that are safe in a state. -/
def Call.Compatible (w : World) (c c' : Call) : Prop :=
  Transactions.Compatible stopping w.registry c.transaction c'.transaction

/-! ### Simulation -/

/-- The registry of the state, and the settings that go into the saved document. -/
def Rel (srv : ServerConfig) (w : World) (o : String → Slot) : Prop :=
  w.registry = o ∧ w.config.server = srv

/-- Every save succeeds: whatever the sessions are, the document can be written down. -/
def Saves (C : Codec) (srv : ServerConfig) : Prop :=
  ∀ sessions, C.Writes ⟨srv, UiConfig.default, sessions⟩

section Simulation

variable {C : Codec} {srv : ServerConfig}

theorem Rel.of_app {w w' : World} {o : String → Slot} (h : Rel srv w o) (ha : w'.app = w.app) :
    Rel srv w' o := by
  obtain ⟨hr, hs⟩ := h
  refine ⟨?_, ?_⟩
  · rw [← hr]
    unfold World.registry World.lookup
    rw [ha]
  · rw [← hs]
    unfold World.config
    rw [ha]

theorem Rel.insert {w : World} {o : String → Slot} (h : Rel srv w o) (key : String)
    (r : RunnerEntry) :
    Rel srv (w.insert key r) (modifyAt key (fun _ => some (r.config, r.holds)) o) := by
  refine ⟨?_, h.2⟩
  rw [← h.1]
  funext key'
  by_cases hk : key' = key
  · subst hk
    rw [modifyAt_self]
    unfold World.registry
    rw [World.lookup_insert, Option.map_some]
  · rw [modifyAt_of_ne hk]
    unfold World.registry
    rw [World.lookup_insert_ne hk]

theorem Rel.remove {w : World} {o : String → Slot} (h : Rel srv w o) (key : String) :
    Rel srv (w.remove key) (modifyAt key (fun _ => none) o) := by
  refine ⟨?_, h.2⟩
  rw [← h.1]
  funext key'
  by_cases hk : key' = key
  · subst hk
    rw [modifyAt_self]
    unfold World.registry
    rw [World.lookup_remove, Option.map_none]
  · rw [modifyAt_of_ne hk]
    unfold World.registry
    rw [World.lookup_remove_ne hk]

/-- A block on the entry under `key` is a change of its slot. -/
theorem Rel.modifyEntry {w : World} {o : String → Slot} (h : Rel srv w o) (key : String)
    {f : RunnerEntry → RunnerEntry} {g : Slot → Slot} (hnone : g none = none)
    (hsome : ∀ r, g (some (r.config, r.holds)) = some ((f r).config, (f r).holds)) :
    Rel srv (w.modifyEntry key f) (modifyAt key g o) := by
  have hslot : o key = (w.lookup key).map fun r => (r.config, r.holds) := by
    rw [← h.1]
    rfl
  unfold World.modifyEntry modifyAt
  cases hl : w.lookup key with
  | none =>
      rw [hl, Option.map_none] at hslot
      rw [hslot, hnone, ← hslot, Function.update_eq_self]
      exact h
  | some r =>
      rw [hl, Option.map_some] at hslot
      rw [hslot, hsome]
      exact h.insert key (f r)

theorem persistNow_sim (hC : Saves C srv) :
    Sim (Rel srv) (fun r _ => r = .ok ()) (persistNow C SaveIo.none)
      (Prog.ret () : Prog (String → Slot) Unit) := by
  refine Sim.atomic_stutter fun w o h => ⟨h.of_app rfl, ?_⟩
  refine (save_ok_iff C SaveIo.none w.config w.fs).2 ⟨?_, rfl⟩
  have hcfg : w.config = ⟨srv, UiConfig.default, w.config.sessions⟩ := by
    rw [← h.2]
    rfl
  rw [hcfg]
  exact hC _

/-- The save at the end of an operation does not show. -/
theorem saved_sim {α β : Type} {Q : α → β → Prop} (hC : Saves C srv)
    {f : Except String Unit → Prog World α} {a : α} {b : β} (hf : f (.ok ()) = .ret a)
    (hab : Q a b) :
    Sim (Rel srv) Q (persistNow C SaveIo.none >>= f) (Prog.ret b : Prog (String → Slot) β) :=
  Sim.ret_bind (persistNow_sim hC) fun x hx => by
    rw [hx, hf]
    exact Sim.ret hab

theorem join_sim (h : Option TaskId) :
    Sim (Rel srv) (fun _ _ => True) (join h) (Prog.ret () : Prog (String → Slot) Unit) := by
  cases h with
  | none => exact Sim.ret trivial
  | some t => exact Sim.await_stutter (fun w o h => h.of_app rfl) trivial

variable (C srv) in
/-- `stop_session` after the tokens have been cancelled. -/
theorem stopSession_eq (name : String) :
    ∃ k, stopSession C SaveIo.none name = (Prog.atomic fun w =>
      (PUnit.unit, w.cancelEntry (toAsciiLowercase name))) >>= k ∧
      (Saves C srv → ∀ x, Sim (Rel srv) (fun r _ => r = .ok ()) (k x)
        (softly (toAsciiLowercase name) stopping.updates)) := by
  refine ⟨_, rfl, fun hC _ => ?_⟩
  refine Sim.bind (Q := fun _ _ => True) (Sim.atomic_step fun w o h => ⟨?_, trivial⟩)
    fun hs _ _ => ?_
  · have htaken : ((w.takeHandles (toAsciiLowercase name)).2) =
        w.modifyEntry (toAsciiLowercase name) RunnerEntry.taken := by
      unfold World.takeHandles World.modifyEntry
      cases w.lookup (toAsciiLowercase name) <;> rfl
    rw [htaken]
    exact h.modifyEntry _ rfl fun _ => rfl
  · refine Sim.ret_bind (join_sim hs.1) fun _ _ => Sim.ret_bind (join_sim hs.2) fun _ _ => ?_
    refine Sim.bind (Q := fun _ _ => True)
      (Sim.atomic_step fun w o h => ⟨h.modifyEntry _ rfl fun _ => rfl, trivial⟩) fun _ _ _ => ?_
    refine Sim.bind_ret (persistNow_sim hC) fun r _ hr => ?_
    rw [hr]
    exact Sim.ret rfl

/-- Entering a session, as it shows in the registry. -/
def enter (cfg : SessionConfig) : Prog (String → Slot) (Except AppError Unit) :=
  if cfg.admissible then
    Prog.atomic fun o => (.ok (),
      modifyAt (toAsciiLowercase cfg.name) (fun _ => some (cfg.launched, true)) o)
  else Prog.ret (.error (.internal "invalid session name"))

theorem after_entering_keep (cfg : SessionConfig) (src : String) (gs : List (Slot → Slot)) :
    (entering cfg .keep).after src gs = softly src gs >>= fun _ => enter cfg := by
  unfold entering enter
  cases cfg.admissible <;> rfl

theorem after_entering_exit (cfg : SessionConfig) (src : String) :
    (entering cfg .exit).after src [] = enter cfg := by
  unfold entering enter
  cases cfg.admissible <;> rfl

/-- The results agree, apart from the value that a success returns. -/
def SameOutcome {α : Type} (a : Except AppError α) (b : Except AppError Unit) : Prop :=
  a.map (fun _ => ()) = b

/-- The end of `create_session`: the entry is put in the map and the state is saved. -/
theorem insert_sim {α : Type} (hC : Saves C srv) {cfg : SessionConfig}
    (ha : cfg.admissible = true) (r : RunnerEntry) (hr : r.config = cfg.launched)
    (hh : r.holds = true) (a : α)
    {f : Except String Unit → Prog World (Except AppError α)} (hf : f (.ok ()) = .ret (.ok a)) :
    Sim (Rel srv) SameOutcome
      ((Prog.atomic fun w : World => (PUnit.unit, w.insert (toAsciiLowercase cfg.name) r)) >>=
        fun _ => persistNow C SaveIo.none >>= f) (enter cfg) := by
  unfold enter
  rw [if_pos ha, ← hr, ← hh]
  refine Sim.step (fun _ _ _ _ => rfl) (fun w o h => h.insert _ r) fun w o h => ?_
  exact saved_sim hC hf rfl

variable (C srv) in
/-- `create_session` after its first section. -/
theorem createSession_eq (cfg : SessionConfig) :
    ∃ (δ : Type) (f : World → δ × World) (k : δ → Prog World _),
      createSession C (.ok ()) SaveIo.none cfg = Prog.atomic f >>= k ∧
      (∀ w o, Rel srv w o → Rel srv (f w).2 o) ∧
      (Saves C srv → ∀ w, Sim (Rel srv) SameOutcome (k (f w).1)
        (enter cfg)) := by
  unfold createSession
  cases hu : cfg.upstream with
  | httpProxy l t p =>
      refine ⟨_, _, _, rfl, fun w o h => h.of_app rfl, fun hC w => ?_⟩
      have ha : cfg.admissible = true := by
        unfold SessionConfig.admissible
        rw [hu]
        rfl
      have hcfg : { cfg with launchOnStartup := true, upstream := .httpProxy l t p } =
          cfg.launched := by
        unfold SessionConfig.launched
        rw [← hu]
      exact insert_sim hC ha _ hcfg rfl _ rfl
  | _ =>
      refine ⟨_, _, _, rfl, fun w o h => ?_, fun hC w => ?_⟩
      · dsimp only
        split
        · exact h
        · exact h.of_app rfl
      · rw [← hu]
        simp only [register_newSession]
        cases hn : normalizeName cfg.sshUser with
        | none =>
            have ha : cfg.admissible = false := by
              unfold SessionConfig.admissible
              rw [hu, hn]
              rfl
            unfold enter
            rw [if_neg (by rw [ha]; exact Bool.false_ne_true)]
            exact Sim.ret rfl
        | some key =>
            have ha : cfg.admissible = true := by
              unfold SessionConfig.admissible
              rw [hn, Option.isSome_some, Bool.or_true]
            refine Sim.atomic_skip (fun w o h => h.of_app rfl) fun w o _ => ?_
            exact insert_sim hC ha _ rfl rfl _ rfl

theorem discard_sim {α : Type} {p : Prog World (Except AppError α)}
    {q : Prog (String → Slot) (Except AppError Unit)} (h : Sim (Rel srv) SameOutcome p q) :
    Sim (Rel srv) (fun a b => a = b) (discard p) q := by
  refine h.bind_ret fun a b hab => ?_
  cases a with
  | error e => exact Sim.ret hab
  | ok x => exact Sim.ret hab

theorem Rel.cancelEntry {w : World} {o : String → Slot} (h : Rel srv w o) (key : String) :
    Rel srv (w.cancelEntry key) o := h.of_app (w.app_cancelEntry key)

/-- The part that `restart_session` and `update_session` share. -/
theorem stopThenCreate_sim (hC : Saves C srv) (name : String) (cfg : SessionConfig)
    {f : Except AppError Unit → Prog World (Except AppError StatusRx)}
    (hf : ∃ g, f (.ok ()) = createSession C (.ok ()) SaveIo.none cfg >>= g ∧
      ∀ a, g a = .ret (a.map Prod.snd)) :
    Sim (Rel srv) SameOutcome (stopSession C SaveIo.none name >>= f)
      (softly (toAsciiLowercase name) stopping.updates >>= fun _ => enter cfg) := by
  obtain ⟨g, hf, hg⟩ := hf
  obtain ⟨k, hk, hstop⟩ := stopSession_eq C srv name
  obtain ⟨δ, f', k', hk', hf', hcreate⟩ := createSession_eq C srv cfg
  rw [hk, Prog.bind_assoc]
  refine Sim.atomic_skip (fun w o h => Rel.cancelEntry h _) fun w o _ => ?_
  refine Sim.bind (hstop hC PUnit.unit) fun r _ hr => ?_
  rw [hr, hf, hk', Prog.bind_assoc]
  refine Sim.atomic_skip hf' fun w' o' _ => (hcreate hC w').bind_ret fun a b hab => ?_
  rw [hg]
  refine Sim.ret ?_
  cases a <;> exact hab

/-- **The transaction of a call simulates its program.** -/
theorem Call.sim (hC : Saves C srv) (c : Call) :
    Sim (Rel srv) (fun a b => a = b) (c.prog C CallIo.none) (c.transaction.prog stopping) := by
  cases c with
  | create cfg =>
      obtain ⟨δ, f, k, hk, hf, hcreate⟩ := createSession_eq C srv cfg
      show Sim _ _ (discard (createSession C (.ok ()) SaveIo.none cfg)) _
      rw [hk, discard, Prog.bind_assoc]
      refine Sim.atomic_look hf fun w o _ => ?_
      have hend := discard_sim (hcreate hC w)
      rw [← after_entering_exit cfg (toAsciiLowercase cfg.name)] at hend
      exact hend
  | stop name =>
      obtain ⟨k, hk, hstop⟩ := stopSession_eq C srv name
      show Sim _ _ (stopSession C SaveIo.none name) _
      rw [hk]
      refine Sim.atomic_look (fun w o h => Rel.cancelEntry h _) fun w o _ => ?_
      exact (hstop hC PUnit.unit).map_right fun r _ hr => hr
  | delete name =>
      obtain ⟨k, hk, hstop⟩ := stopSession_eq C srv name
      show Sim _ _ (deleteSession C SaveIo.none SaveIo.none name) _
      rw [deleteSession, hk, Prog.bind_assoc]
      refine Sim.atomic_look (fun w o h => Rel.cancelEntry h _) fun w o _ => ?_
      refine Sim.bind (hstop hC PUnit.unit) fun r _ hr => ?_
      rw [hr]
      refine Sim.step (fun _ _ _ _ => rfl) (fun w' o' h => Rel.remove h _) fun w' o' _ => ?_
      exact saved_sim hC rfl rfl
  -- the configuration is read before the stop, from a state that shows the slot of the name
  | restart name =>
      show Sim _ _ (discard (restartSession C SaveIo.none (.ok ()) SaveIo.none name)) _
      rw [restartSession, discard, Prog.bind_assoc]
      refine Sim.atomic_look (fun w o h => h) fun w o h => ?_
      have hslot : configOf (o (toAsciiLowercase name)) =
          (w.lookup (toAsciiLowercase name)).map fun r => r.config.launched := by
        rw [← h.1]
        unfold World.registry configOf
        rw [Option.map_map]
        rfl
      unfold Transaction.planAt
      rw [show (Call.restart name).transaction.src = toAsciiLowercase name from rfl, hslot]
      cases w.lookup (toAsciiLowercase name) with
      | none => exact Sim.ret rfl
      | some r =>
          rw [show (Call.restart name).transaction.plan ((some r).map fun r => r.config.launched) =
            entering r.config .keep from rfl, after_entering_keep]
          exact discard_sim (stopThenCreate_sim hC name r.config
            ⟨_, rfl, fun a => by cases a <;> rfl⟩)
  | update oldName cfg =>
      show Sim _ _ (discard (updateSession C SaveIo.none (.ok ()) SaveIo.none oldName cfg)) _
      rw [updateSession, discard, Prog.bind_assoc]
      refine Sim.atomic_look (fun w o h => h) fun w o h => ?_
      have hcfg : (w.keepPassword oldName cfg) =
          withPassword cfg (configOf (o (toAsciiLowercase oldName))) := by
        rw [← h.1]
        unfold World.keepPassword World.registry
        cases w.lookup (toAsciiLowercase oldName) <;> rfl
      rw [show (Call.update oldName cfg).transaction.planAt configOf o =
        entering (withPassword cfg (configOf (o (toAsciiLowercase oldName)))) .keep from rfl,
        ← hcfg, after_entering_keep]
      exact discard_sim (stopThenCreate_sim hC oldName _ ⟨_, rfl, fun a => by cases a <;> rfl⟩)

end Simulation

/-! ### Linearizability -/

/-- While calls are running, tasks may end by themselves. -/
def TaskEnds (w w' : World) : Prop := ∃ t, w' = w.endTask t

/-- The call `c`, and after it the call `c'`, with their results and the registry in the end. -/
def OneByOne (C : Codec) (c c' : Call) (w : World) (a b : Except AppError Unit)
    (o : String → Slot) : Prop :=
  ∃ m t, (c.prog C CallIo.none).run w = some (a, m) ∧
    (c'.prog C CallIo.none).run m = some (b, t) ∧ t.registry = o

/-- Every overlap of the two calls amounts to running them one after the other. -/
def Linearizable (C : Codec) (c c' : Call) (w : World) : Prop :=
  ∀ a b t, Par TaskEnds (c.prog C CallIo.none) (c'.prog C CallIo.none) w a b t →
    OneByOne C c c' w a b t.registry ∨ OneByOne C c' c w b a t.registry

section Linearizable

variable {C : Codec}


/-- A serial run of the transactions is one of the calls. -/
theorem oneByOne_of_serial {srv : ServerConfig} (hC : Saves C srv) {w : World} (hw : w.Wf)
    {o t : String → Slot} (hR : Rel srv w o) {c c' : Call} {a b : Except AppError Unit}
    (h : Serial (c.transaction.prog stopping) (c'.transaction.prog stopping) o a b t) :
    OneByOne C c c' w a b t := by
  obtain ⟨m, hm, hmt⟩ := h
  -- the calls return, and what they return is what the transactions return
  obtain ⟨a₁, w₁, h₁⟩ := Call.returns (C := C) hw CallIo.none c
  obtain ⟨a', m', hm', rfl, hR₁⟩ := (c.sim hC).run hR h₁
  obtain ⟨rfl, rfl⟩ := Prod.mk.inj (Option.some_inj.1 (hm.symm.trans hm'))
  obtain ⟨b₁, w₂, h₂⟩ := Call.returns (C := C) (Call.wf C hw h₁) CallIo.none c'
  obtain ⟨b', t', ht', rfl, hR₂⟩ := (c'.sim hC).run hR₁ h₂
  obtain ⟨rfl, rfl⟩ := Prod.mk.inj (Option.some_inj.1 (hmt.symm.trans ht'))
  exact ⟨w₁, w₂, h₁, h₂, hR₂.1⟩

/-- **Compatible calls are linearizable.** -/
theorem linearizable_of_compatible {w : World} (hw : ReachableWorld C w)
    (hC : Saves C w.config.server) {c c' : Call} (hc : Call.Compatible w c c') :
    Linearizable C c c' w := by
  intro a b t h
  have hR : Rel w.config.server w w.registry := ⟨rfl, rfl⟩
  obtain ⟨a', b', o', hpar, rfl, rfl, hR'⟩ := h.sim
    (fun w w' o he h => by
      obtain ⟨t, rfl⟩ := he
      exact h.of_app rfl)
    (c.sim hC) (c'.sim hC) hR
  rw [hR'.1]
  obtain hs | hs := hc.serializable stopping _ _ _ hpar
  · exact Or.inl (oneByOne_of_serial hC (ReachableWorld.wf C hw) hR hs)
  · exact Or.inr (oneByOne_of_serial hC (ReachableWorld.wf C hw) hR hs)

end Linearizable

/-! ### Pairs of calls that are safe -/

/-- The keys of the sessions that a call names. -/
def Call.keys : Call → List String
  | create cfg => [toAsciiLowercase cfg.name]
  | stop name => [toAsciiLowercase name]
  | delete name => [toAsciiLowercase name]
  | restart name => [toAsciiLowercase name]
  | update oldName cfg => [toAsciiLowercase oldName, toAsciiLowercase cfg.name]

theorem Call.src_mem_keys (c : Call) : c.transaction.src ∈ c.keys := by
  cases c <;> exact List.mem_cons_self

@[simp] theorem name_withPassword (cfg : SessionConfig) (old : Option SessionConfig) :
    (withPassword cfg old).name = cfg.name := by
  unfold withPassword
  cases old with
  | none => rfl
  | some old => cases h : cfg.password.isEmpty <;> simp

/-- In a well-formed state a call changes nothing but the sessions that it names. -/
theorem Call.does_mem_keys {w : World} (hw : w.Wf) {c : Call} {k : String} {g : Slot → Slot}
    (h : (c.transaction.planAt configOf w.registry).Does c.transaction.src
      (c.transaction.soft stopping) k g) : k ∈ c.keys := by
  have hentering : ∀ {cfg : SessionConfig} {f : Except AppError Unit → Plan String Slot _}
      {gs : List (Slot → Slot)}, (f = .exit ∨ f = .keep) →
      (entering cfg f).Does c.transaction.src gs k g →
      k = c.transaction.src ∨ k = toAsciiLowercase cfg.name := by
    intro cfg f gs hf hd
    unfold entering at hd
    split at hd
    · obtain ⟨hk, -⟩ | ⟨hk, -⟩ := hd
      · exact Or.inl hk
      · exact Or.inr hk
    · rcases hf with rfl | rfl
      · exact hd.elim
      · exact Or.inl hd.1
  have hsrc : k = c.transaction.src → k ∈ c.keys := fun hk => hk ▸ c.src_mem_keys
  cases c with
  | create cfg =>
      obtain hk | hk := hentering (Or.inl rfl) h
      · exact hsrc hk
      · exact hk ▸ List.mem_cons_self
  | stop name => exact hsrc h.1
  | delete name =>
      obtain ⟨hk, -⟩ | ⟨hk, -⟩ := h
      · exact hsrc hk
      · exact hk ▸ List.mem_cons_self
  | restart name =>
      have hplan : (Call.restart name).transaction.planAt configOf w.registry =
          (Call.restart name).transaction.plan (configOf ((w.lookup (toAsciiLowercase name)).map
            fun r => (r.config, r.holds))) := rfl
      rw [hplan] at h
      cases hl : w.lookup (toAsciiLowercase name) with
      | none =>
          rw [hl] at h
          exact h.elim
      | some r =>
          rw [hl] at h
          obtain hk | hk := hentering (Or.inr rfl)
            (show (entering r.config .keep).Does _ _ _ _ from h)
          · exact hsrc hk
          · rw [hk, hw.keyed _ r hl]
            exact List.mem_cons_self
  | update oldName cfg =>
      obtain hk | hk := hentering (Or.inr rfl) h
      · exact hsrc hk
      · rw [hk, name_withPassword]
        exact List.mem_cons_of_mem _ List.mem_cons_self

/-- **Calls on different sessions are compatible.** -/
theorem Call.compatible_of_disjoint {w : World} (hw : w.Wf) {c c' : Call}
    (h : ∀ k ∈ c.keys, k ∉ c'.keys) : Call.Compatible w c c' := by
  refine Or.inl ⟨fun k g k' g' hg hg' => Or.inl ?_, Or.inl fun g hg => ?_⟩
  · rintro rfl
    exact h k (does_mem_keys hw hg) (does_mem_keys hw hg')
  · exact absurd c'.src_mem_keys (h _ (does_mem_keys hw hg))

/-- The call stops or deletes a session. -/
def Call.Ends (c : Call) : Prop := ∃ name, c = stop name ∨ c = delete name

/-- What a stop or a deletion does: soft updates, and removals. -/
theorem Call.Ends.does {c : Call} (hc : c.Ends) {o : String → Slot} {k : String} {g : Slot → Slot}
    (h : (c.transaction.planAt configOf o).Does c.transaction.src (c.transaction.soft stopping)
      k g) : g ∈ stopping.updates ∨ g = fun _ => none := by
  obtain ⟨name, rfl | rfl⟩ := hc
  · exact Or.inl h.2
  · exact h.imp And.right And.right

/-- Such a call decides without looking. -/
theorem Call.Ends.keeps {c : Call} (hc : c.Ends) {π : Plan String Slot (Except AppError Unit)}
    {D : String → (Slot → Slot) → Prop} : Keeps configOf c.transaction π D := by
  obtain ⟨name, rfl | rfl⟩ := hc <;> exact fun _ _ _ h => h

/-- **Stops and deletions are compatible**, of one session or of two. -/
theorem Call.compatible_ends {w : World} {c c' : Call} (hc : c.Ends) (hc' : c'.Ends) :
    Call.Compatible w c c' := by
  have hnone : ∀ g ∈ stopping.updates, g none = none := by
    intro g hg
    rcases List.mem_pair.1 hg with rfl | rfl <;> rfl
  refine Or.inl ⟨fun k g k' g' hg hg' => Or.inr fun v => ?_, Or.inl hc'.keeps⟩
  obtain hs | rfl := hc.does hg <;> obtain hs' | rfl := hc'.does hg'
  · exact stopping.comm g hs g' hs' v
  · exact hnone g hs
  · exact (hnone g' hs').symm
  · rfl

/-- **Creating and deleting are compatible**, of one session or of two. -/
theorem Call.compatible_create_delete {w : World} {cfg : SessionConfig} {name : String} :
    Call.Compatible w (.create cfg) (.delete name) := by
  have hkeep : ∀ {π D}, Keeps configOf (Call.create cfg).transaction π D := fun _ _ _ h => h
  have hkeep' : ∀ {π D}, Keeps configOf (Call.delete name).transaction π D := fun _ _ _ h => h
  cases ha : cfg.admissible with
  | true =>
      have hplan : (Call.create cfg).transaction.planAt configOf w.registry =
          .write (toAsciiLowercase cfg.name) (some (cfg.launched, true)) (.ok ()) := by
        show entering cfg .exit = _
        unfold entering
        rw [if_pos ha]
      refine Or.inr ⟨hkeep, hkeep', ?_, ?_⟩
      · exact ⟨_, _, _, _, _, _, hplan, rfl, Or.inr (Or.inl rfl)⟩
      · exact ⟨_, _, _, _, _, _, rfl, hplan, Or.inr (Or.inl rfl)⟩
  | false =>
      have hplan : (Call.create cfg).transaction.planAt configOf w.registry =
          .exit (.error (.internal "invalid session name")) := by
        show entering cfg .exit = _
        unfold entering
        rw [if_neg (by rw [ha]; exact Bool.false_ne_true)]
      refine Or.inl ⟨fun k g k' g' hg _ => ?_, Or.inl hkeep'⟩
      rw [hplan] at hg
      exact hg.elim

/-- Creating and deleting one session at the same time. -/
theorem linearizable_create_delete :
    Linearizable plainCodec (.create (loopbackSession "a" "0.0.0.0:2301")) (.delete "A")
      World.empty :=
  linearizable_of_compatible (ReachableWorld.boot (World.empty_boots plainCodec))
    (fun _ => plainCodec_writes _) Call.compatible_create_delete

/-- **A deleted session can come back**: `restart_session` has read the configuration, then
`delete_session` runs and succeeds, then `restart_session` enters the session again. -/
theorem delete_restart_not_linearizable :
    ¬ ∀ (C : Codec) (w : World) (c c' : Call), ReachableWorld C w → Saves C w.config.server →
      Linearizable C c c' w := by
  intro h
  obtain ⟨w, hw⟩ : ∃ w, ((Call.create (loopbackSession "a" "0.0.0.0:2301")).prog plainCodec
    CallIo.none).run World.empty = some (.ok (), w) := ⟨_, rfl⟩
  have hreach : ReachableWorld plainCodec w :=
    ReachableWorld.call _ _ (ReachableWorld.boot (World.empty_boots plainCodec)) hw
  -- the interleaving: one section of the restart, the whole deletion, the rest of the restart
  obtain ⟨t, hpar, ht⟩ : ∃ t, Par TaskEnds ((Call.restart "a").prog plainCodec CallIo.none)
      ((Call.delete "a").prog plainCodec CallIo.none) w (.ok ()) (.ok ()) t ∧
      (t.registry "a").isSome = true := by
    cases hw
    exact ⟨_, Par.left rfl (Par.right_then rfl rfl), rfl⟩
  obtain ⟨m, t', hm, ht', ho⟩ | ⟨m, t', hm, ht', ho⟩ := h plainCodec w _ _ hreach
    (fun _ => plainCodec_writes _) _ _ _ hpar
  · -- the restart first: the session is gone
    obtain ⟨fs, rfl⟩ := Call.run_ok plainCodec ht'
    rw [← ho] at ht
    have hnone : ((Call.delete "a").effect m).registry "a" = none := by
      show ((m.stopped "a").remove "a").registry "a" = none
      unfold World.registry
      rw [World.lookup_remove, Option.map_none]
    have hsame : (((Call.delete "a").effect m).withFs fs).registry "a" = none := hnone
    rw [hsame] at ht
    cases ht
  · -- the deletion first: the restart finds no session
    obtain ⟨fs, rfl⟩ := Call.run_ok plainCodec hm
    obtain ⟨x, hx⟩ := discard_ok ht'
    obtain ⟨-, hr, -⟩ | ⟨e, fs', hl, -⟩ := restartSession_run_some plainCodec hx
    · cases hr
    · have hl' : ((w.stopped "a").remove "a").lookup "a" = some e := hl
      rw [World.lookup_remove] at hl'
      cases hl'

end TermHub
