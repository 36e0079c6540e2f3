/-
**Every session has a door of its own.**

`create_session` and the start-up loop give each session a manager with one entry, and its accept
loop asks that manager.  So a connection is let in by the user name and the password of the one
session whose listener it has reached, and the hub it gets to hold is that session's, whatever the
other sessions are called and whatever their passwords are.

Main definitions:

* `World.DoorOf` — the manager that the connections of an accept loop ask;
* `Door.authResult` — what `auth_password` leaves in the handler of a connection;
* `World.RunsHub` — the runner of an entry works on a hub.

Main results:

* `normalizeName_eq_iff` — which user names are found under the key of another one;
* `SessionConfig.Registers.authenticate_iff` — the manager of a session lets in exactly its user;
* `session_isolation` — **sessions are isolated at the SSH door**, in every reachable state.
-/

import TermHub.Entries
import TermHub.SshDoor
import TermHub.Ownership

set_option relaxedAutoImplicit false
set_option autoImplicit false

namespace TermHub

/-! ### Names -/

@[simp] theorem toList_toAsciiLowercase (s : String) :
    (toAsciiLowercase s).toList = s.toList.map Char.toLower := String.toList_ofList

/-- A name is found under the key of an accepted one exactly if its characters are allowed and it
is the same name but for the case of the letters. -/
theorem normalizeName_eq_iff {name user : String} (h : (normalizeName name).isSome = true) :
    normalizeName user = some (toAsciiLowercase name) ↔
      user.toList.all isNameChar = true ∧ toAsciiLowercase user = toAsciiLowercase name := by
  have hne : name.toList.isEmpty = false := by
    unfold normalizeName at h
    split at h
    · cases h
    · exact Bool.eq_false_iff.2 ‹_›
  unfold normalizeName
  constructor
  · intro hu
    split at hu
    · cases hu
    · split at hu
      · cases hu
      · rename_i hall
        exact ⟨by simpa using hall, Option.some_inj.1 hu⟩
  · rintro ⟨hall, heq⟩
    -- the two names have the same length
    have hnonempty : user.toList.isEmpty = false := by
      have hlen := congrArg (fun s => s.toList.length) heq
      simp only [toList_toAsciiLowercase, List.length_map] at hlen
      rw [List.isEmpty_eq_false_iff, ← List.length_pos_iff] at hne ⊢
      rwa [hlen]
    simp [hnonempty, hall, heq]

/-- The manager of a session that has been registered alone finds nothing else. -/
theorem SessionMgr.get_single {key name : String} {e x : SessionEntry} :
    SessionMgr.get (AList.insert key e ∅) name = some x ↔
      normalizeName name = some key ∧ x = e := by
  unfold SessionMgr.get
  cases hn : normalizeName name with
  | none => simp
  | some k =>
      rw [Option.bind_some]
      by_cases hk : k = key
      · subst hk
        rw [AList.lookup_insert]
        simp [eq_comm]
      · rw [AList.lookup_insert_ne hk, AList.lookup_empty]
        simp [hk]

theorem SessionConfig.Registers.lookup {cfg : SessionConfig} {e : SessionEntry}
    {mgr : SessionMgr} (h : cfg.Registers e mgr) :
    mgr.lookup (toAsciiLowercase cfg.sshUser) = some e := by
  rw [h.mgr_eq]
  exact AList.lookup_insert _

/-- **The manager of a session lets in exactly its user.** -/
theorem SessionConfig.Registers.authenticate_iff {cfg : SessionConfig} {e x : SessionEntry}
    {mgr : SessionMgr} (h : cfg.Registers e mgr) (user password : String) :
    mgr.authenticate user password = some x ↔
      (user.toList.all isNameChar = true ∧
        toAsciiLowercase user = toAsciiLowercase cfg.sshUser ∧
        asBytes password = asBytes cfg.password) ∧ x = e := by
  rw [SessionMgr.authenticate_eq_some, h.mgr_eq, SessionMgr.get_single,
    normalizeName_eq_iff h.valid, ← h.password]
  constructor
  · rintro ⟨⟨⟨hall, hname⟩, rfl⟩, hpass⟩
    exact ⟨⟨hall, hname, hpass.symm⟩, rfl⟩
  · rintro ⟨⟨hall, hname, hpass⟩, rfl⟩
    exact ⟨⟨⟨hall, hname⟩, rfl⟩, hpass.symm⟩

/-! ### The door -/

namespace Sshd

variable {cap : ℕ} [NeZero cap]

/-- The session entry that a connection holds after it has been asked for a password. -/
def Door.authResult (d : Door cap) (i : ℕ) (user password : String) : Option SessionEntry :=
  (doorStep d (.auth i user password)).bind fun t =>
    (t.conns[i]?).bind fun c => c.handler.entry

/-- **A connection gets to hold what the manager of its door finds.** -/
theorem Door.authResult_eq {d : Door cap} {i : ℕ} {c : Conn} (hc : d.idleConn i = some c)
    (hnew : c.handler.entry = none) (user password : String) :
    d.authResult i user password = d.mgr.authenticate user password := by
  have hget := (idleConn_some hc).1
  unfold Door.authResult
  simp only [doorStep, hc, hnew, Option.isSome_none, Bool.false_eq_true, if_false]
  cases d.mgr.authenticate user password with
  | none => simp [hget, hnew]
  | some e =>
      simp only [Door.setConn, Option.bind_some]
      rw [List.getElem?_set_self (List.getElem?_eq_some_iff.1 hget).1]
      rfl

end Sshd

open Sshd

namespace World

/-- The connections of the accept loop `t` ask the manager `mgr`. -/
def DoorOf (w : World) (t : TaskId) (mgr : SessionMgr) : Prop :=
  ∃ listen c, w.Runs t (.acceptLoop listen mgr) c

/-- The runner of the entry works on the hub. -/
def RunsHub (w : World) (r : RunnerEntry) (hub : HubHandle) : Prop :=
  ∃ s upstream cfg c, r.started = some s ∧ w.Runs s.handle (.runner hub upstream cfg) c

theorem Runs.kind_eq {w : World} {t : TaskId} {kind kind' : TaskKind} {c c' : Token}
    (h : w.Runs t kind c) (h' : w.Runs t kind' c') : kind = kind' := by
  obtain ⟨k, hk, rfl, -⟩ := h
  obtain ⟨k', hk', rfl, -⟩ := h'
  rw [Option.some_inj.1 (hk.symm.trans hk')]

/-- An entry with a listener serves a session, and its listener asks its manager. -/
theorem Sound.serves {w : World} (h : w.Sound) {key : String} {r : RunnerEntry}
    (hr : w.lookup key = some r) {t : TaskId} (ht : r.sshdHandle = some t) {mgr : SessionMgr}
    (hdoor : w.DoorOf t mgr) :
    ∃ e, r.config.Registers e mgr ∧ w.RunsHub r e.hub ∧ w.HasHub key e.hub := by
  obtain h | ⟨l, a, p, c, n, -, -, -, heq⟩ | ⟨s, c, n, mgr', e, -, -, hreg, hrun, hacc, heq⟩ :=
    h.formed key r hr
  -- an idle entry holds no handle, and a port forward none of a listener
  · have hmem : t ∈ r.handles := by simp [RunnerEntry.handles, ht]
    rw [h.handles] at hmem
    cases hmem
  · rw [heq] at ht
    cases ht
  · rw [heq] at ht
    obtain rfl : n = t := Option.some_inj.1 ht
    obtain ⟨listen, c', hacc'⟩ := hdoor
    obtain ⟨-, rfl⟩ := TaskKind.acceptLoop.inj (hacc.kind_eq hacc')
    exact ⟨e, hreg, ⟨s, _, _, _, by rw [heq], hrun⟩, r, mgr', _, e, hr, by rw [heq],
      hreg.lookup, rfl⟩

/-- The hub that a runner works on is handed out by the manager of its entry. -/
theorem Sound.hasHub_of_runs {w : World} (h : w.Sound) {key : String} {r : RunnerEntry}
    (hr : w.lookup key = some r) {hub : HubHandle} (hrun : w.RunsHub r hub) :
    w.HasHub key hub := by
  obtain ⟨s, upstream, cfg, c, hs, hrun⟩ := hrun
  obtain h | ⟨l, a, p, c, n, -, -, -, heq⟩ | ⟨s', c, n, mgr, e, -, -, hreg, hrun', -, heq⟩ :=
    h.formed key r hr
  · have hmem : s.handle ∈ r.handles := by simp [RunnerEntry.handles, hs]
    rw [h.handles] at hmem
    cases hmem
  · rw [heq] at hs
    cases hs
  · rw [heq] at hs
    obtain rfl : s' = s := Option.some_inj.1 hs
    obtain ⟨rfl, -, -⟩ := TaskKind.runner.inj (hrun'.kind_eq hrun)
    exact ⟨r, mgr, _, e, hr, by rw [heq], hreg.lookup, rfl⟩

end World

/-! ### Isolation -/

/-- **Sessions are isolated at the SSH door.**  In every reachable state, for the entry under `key`
with the listener `t` and every connection `i` at its door that has not been let in: the connection
is let in exactly if the user name has only allowed characters and is the entry's but for the case
of its letters, and the password is the entry's byte for byte.  The hub it gets is the one that the
runner of the entry works on, and no other entry hands it out, or has a runner that works on it. -/
theorem session_isolation (C : Codec) {w : World} (hw : ReachableWorld C w) {key : String}
    {r : RunnerEntry} (hr : w.lookup key = some r) {t : TaskId} (ht : r.sshdHandle = some t)
    {cap : ℕ} [NeZero cap] {d : Door cap} (hd : w.DoorOf t d.mgr) {i : ℕ} {c : Conn}
    (hc : d.idleConn i = some c) (hnew : c.handler.entry = none) (user password : String) :
    ((d.authResult i user password).isSome = true ↔
      user.toList.all isNameChar = true ∧
        toAsciiLowercase user = toAsciiLowercase r.config.sshUser ∧
        asBytes password = asBytes r.config.password) ∧
    ∀ e, d.authResult i user password = some e → w.RunsHub r e.hub ∧
      ∀ key' r', key' ≠ key → w.lookup key' = some r' →
        ¬ w.HasHub key' e.hub ∧ ¬ w.RunsHub r' e.hub := by
  have hsound := hw.sound
  obtain ⟨x, hreg, hown, hhub⟩ := hsound.serves hr ht hd
  rw [Door.authResult_eq hc hnew]
  refine ⟨?_, ?_⟩
  · rw [Option.isSome_iff_exists]
    constructor
    · rintro ⟨e, he⟩
      exact ((hreg.authenticate_iff user password).1 he).1
    · intro hcred
      exact ⟨x, (hreg.authenticate_iff user password).2 ⟨hcred, rfl⟩⟩
  · intro e he
    obtain ⟨-, rfl⟩ := (hreg.authenticate_iff user password).1 he
    refine ⟨hown, fun key' r' hne hr' => ?_⟩
    -- a hub is handed out by one entry only
    have hother : ¬ w.HasHub key' e.hub := fun h => hne (hsound.hub_once key' key e.hub h hhub)
    exact ⟨hother, fun hruns => hother (hsound.hasHub_of_runs hr' hruns)⟩

/-- Two sessions with the same user name and password: a connection that has reached the listener
of the first one is let in as `ADMIN`, to the hub of that session. -/
theorem session_isolation_shared : ∃ (w : World) (r : RunnerEntry) (t : TaskId) (d : Door 4),
    w.lookup "a" = some r ∧ r.sshdHandle = some t ∧ (w.lookup "b").isSome = true ∧
    ((d.authResult 0 "ADMIN" "pass").isSome = true ↔
      "ADMIN".toList.all isNameChar = true ∧
        toAsciiLowercase "ADMIN" = toAsciiLowercase r.config.sshUser ∧
        asBytes "pass" = asBytes r.config.password) ∧
    ∀ e, d.authResult 0 "ADMIN" "pass" = some e → w.RunsHub r e.hub ∧
      ∀ key' r', key' ≠ "a" → w.lookup key' = some r' →
        ¬ w.HasHub key' e.hub ∧ ¬ w.RunsHub r' e.hub := by
  obtain ⟨w₁, h₁⟩ : ∃ w₁, ((Call.create (loopbackSession "a" "0.0.0.0:2301")).prog plainCodec
    CallIo.none).run World.empty = some (.ok (), w₁) := ⟨_, rfl⟩
  obtain ⟨w₂, h₂, r, hr, t, ht, ⟨mgr, hmgr⟩, hb⟩ : ∃ w₂ : World,
      ((Call.create (loopbackSession "b" "0.0.0.0:2302")).prog plainCodec CallIo.none).run w₁ =
        some (.ok (), w₂) ∧ ∃ r : RunnerEntry, w₂.lookup "a" = some r ∧ ∃ t, r.sshdHandle = some t ∧
          (∃ mgr, w₂.DoorOf t mgr) ∧ (w₂.lookup "b").isSome = true := by
    obtain rfl := (Prod.mk.inj (Option.some_inj.1 h₁)).2
    exact ⟨_, rfl, _, rfl, _, rfl, ⟨_, _, _, _, rfl, rfl, rfl⟩, rfl⟩
  have hw : ReachableWorld plainCodec w₂ :=
    .call _ _ (.call _ _ (.boot (World.empty_boots plainCodec)) h₁) h₂
  -- a connection that has just been accepted
  let c : Conn := ⟨ClientHandler.new "127.0.0.1:50000", none, true, []⟩
  let d : Door 4 := { Door.new 4 mgr 16 with conns := [c] }
  exact ⟨w₂, r, t, d, hr, ht, hb, session_isolation plainCodec hw hr ht (d := d) hmgr
    (i := 0) (c := c) rfl rfl "ADMIN" "pass"⟩

end TermHub
