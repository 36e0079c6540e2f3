/-
**The forwarding of a TCP connection.**

`proxy_tcp` of `termhub-drivers/src/http_proxy.rs`: two loops copy between the client and the
target, one for each direction, under a `select!`.  The loop that ends first ends the forwarding, so
what the other direction still has to relay is lost.

A run is any sequence of polls of the two loops, with any cutting of the streams into reads and
writes; a read of nothing is the end of a stream.

Main definitions:

* `ProxyTcp`, `proxyStep` — the forwarding of one connection;
* `ProxyTcp.Relayed` — each side has been written what the other one has sent;
* `EndsDrained` — the loop that ends leaves nothing to the other one.

Main results:

* `proxyTcp_relays_iff` — **a run that returns `Ok` has relayed everything exactly if** the loop
  that has ended leaves nothing to the other one;
* `proxyTcp_always_relays_iff` — every schedule relays everything only if there is nothing to relay;
* `half_close_truncates` — a client that closes its side after the request gets no response.
-/

import TermHub.CopyLoop
import TermHub.Transition
import Mathlib.Logic.Function.Basic

set_option relaxedAutoImplicit false
set_option autoImplicit false

namespace TermHub

open CopyLoop Transition

/-! ### The forwarding -/

/-- The two copy loops. -/
inductive Direction
  | clientToBackend | backendToClient
  deriving DecidableEq, Repr

/-- The other loop. -/
def Direction.other : Direction → Direction
  | clientToBackend => backendToClient
  | backendToClient => clientToBackend

/-- Where `proxy_tcp` is. -/
inductive ProxyPhase
  /-- It connects to the target. -/
  | connecting
  /-- It is in the `select!`. -/
  | relaying
  | returned (r : Except String Unit)
  deriving DecidableEq

/-- The forwarding of a connection, on which each loop has a stream to copy. -/
structure ProxyTcp (sent : Direction → List UInt8) where
  phase : ProxyPhase
  copy : ∀ d, Copy (sent d)

/-- What happens to the forwarding. -/
inductive ProxyEvent
  /-- The connection to the target has been set up, or this has failed. -/
  | setUp (r : Except String Unit)
  /-- A loop is polled. -/
  | poll (d : Direction) (p : Poll)
  deriving DecidableEq

variable {sent : Direction → List UInt8}

/-- Nothing has happened. -/
def ProxyTcp.start (sent : Direction → List UInt8) : ProxyTcp sent :=
  ⟨.connecting, fun d => .start (sent d)⟩

/-- The room in the buffer of a loop. -/
def bufLen : ℕ := 8192

/-- `proxy_tcp`: a loop that ends, well or with an error, ends the `select!`. -/
def proxyStep (s : ProxyTcp sent) (e : ProxyEvent) : Option (ProxyTcp sent) :=
  match s.phase, e with
  | .connecting, .setUp (.ok ()) => some { s with phase := .relaying }
  | .connecting, .setUp (.error e) => some { s with phase := .returned (.error e) }
  | .relaying, .poll d p =>
    ((s.copy d).poll bufLen p).map fun
      | .goesOn c => { s with copy := Function.update s.copy d c }
      | .ends r => { s with phase := .returned r }
  | _, _ => none

/-- Each side has been written exactly what the other one has sent. -/
def ProxyTcp.Relayed (s : ProxyTcp sent) : Prop := ∀ d, (s.copy d).written = sent d

/-- If `proxy_tcp` has returned `Ok`, it has relayed everything. -/
def ProxyTcp.RelayedIfOk (s : ProxyTcp sent) : Prop :=
  s.phase = .returned (.ok ()) → s.Relayed

/-- **A loop that comes to the end of its stream leaves nothing to the other one**: what the other
loop has to copy has been read and written before. -/
def EndsDrained (s : ProxyTcp sent) : ProxyEvent → Prop
  | .poll d (.read 0) => (s.copy d.other).Drained
  | _ => True

instance (s : ProxyTcp sent) (e : ProxyEvent) : Decidable (EndsDrained s e) :=
  match e with
  | .setUp _ => .isTrue trivial
  | .poll _ (.read (_ + 1)) => .isTrue trivial
  | .poll _ (.write _) => .isTrue trivial
  | .poll _ (.fail _) => .isTrue trivial
  | .poll d (.read 0) =>
    inferInstanceAs (Decidable ((s.copy d.other).buf = [] ∧ (s.copy d.other).unread = []))

/-! ### One step -/

theorem relayed_iff_of_written {s : ProxyTcp sent} {d : Direction}
    (h : (s.copy d).written = sent d) : s.Relayed ↔ (s.copy d.other).Drained := by
  rw [← Copy.written_eq_iff]
  constructor
  · exact fun hall => hall d.other
  · intro hother d'
    cases d <;> cases d' <;> assumption

/-- A poll of a loop. -/
theorem proxyStep_poll {s t : ProxyTcp sent} {d : Direction} {p : Poll}
    (h : proxyStep s (.poll d p) = some t) :
    s.phase = .relaying ∧ ∃ o, (s.copy d).poll bufLen p = some o ∧
      ((∃ c, o = .goesOn c ∧ t = { s with copy := Function.update s.copy d c }) ∨
        ∃ r, o = .ends r ∧ t = { s with phase := .returned r }) := by
  unfold proxyStep at h
  split at h
  · rename_i heq
    cases heq
  · rename_i heq
    cases heq
  · rename_i hphase heq
    cases heq
    obtain ⟨o, ho, rfl⟩ := Option.map_eq_some_iff.1 h
    refine ⟨hphase, o, ho, ?_⟩
    cases o with
    | goesOn c => exact .inl ⟨c, rfl, rfl⟩
    | ends r => exact .inr ⟨r, rfl, rfl⟩
  · cases h

/-- Setting up the connection ends the forwarding with an error, or starts the loops. -/
theorem proxyStep_setUp {s t : ProxyTcp sent} {r : Except String Unit}
    (h : proxyStep s (.setUp r) = some t) : t.phase ≠ .returned (.ok ()) := by
  unfold proxyStep at h
  split at h
  · obtain rfl := Option.some_inj.1 h
    nofun
  · obtain rfl := Option.some_inj.1 h
    nofun
  · rename_i heq
    cases heq
  · cases h

/-- Only a loop at the end of its stream has to meet the condition. -/
theorem endsDrained_of_poll {s : ProxyTcp sent} {d : Direction} {p : Poll} {o : Outcome (sent d)}
    (ho : (s.copy d).poll bufLen p = some o) (hok : o ≠ .ends (.ok ())) :
    EndsDrained s (.poll d p) := by
  cases p with
  | read n =>
      cases n with
      | zero => exact absurd (Copy.poll_read_zero ho).1 hok
      | succ n => trivial
  | write n => trivial
  | fail m => trivial

/-- **One step keeps the promise exactly if** a loop that ends leaves nothing to the other one. -/
theorem relayedIfOk_step {s t : ProxyTcp sent} {e : ProxyEvent} (h : proxyStep s e = some t) :
    t.RelayedIfOk ↔ EndsDrained s e := by
  -- while the forwarding goes on, or has failed, nothing is promised
  have hopen : t.phase ≠ .returned (.ok ()) → t.RelayedIfOk := fun hne hok => absurd hok hne
  cases e with
  | setUp r => exact iff_of_true (hopen (proxyStep_setUp h)) trivial
  | poll d p =>
      obtain ⟨hphase, o, ho, ⟨c, rfl, rfl⟩ | ⟨r, rfl, rfl⟩⟩ := proxyStep_poll h
      · refine iff_of_true (hopen fun hret => ?_) (endsDrained_of_poll ho nofun)
        cases hphase.symm.trans hret
      · cases r with
        | error m => exact iff_of_true (hopen nofun) (endsDrained_of_poll ho nofun)
        | ok u =>
            obtain ⟨rfl, hwritten⟩ := Copy.ends_ok ho
            unfold ProxyTcp.RelayedIfOk EndsDrained
            rw [forall_prop_of_true rfl]
            exact relayed_iff_of_written hwritten

/-! ### Runs -/

/-- **A run that returns `Ok` has relayed everything exactly if** the loop that has ended left
nothing to the other one. -/
theorem proxyTcp_relays_iff {es : List ProxyEvent} {s : ProxyTcp sent}
    (h : exec proxyStep (.start sent) es = some s) :
    Along proxyStep ProxyTcp.RelayedIfOk (.start sent) es ↔
      Meets proxyStep EndsDrained (.start sent) es :=
  along_iff_meets (I := fun _ => True) (fun _ _ _ _ _ => trivial)
    (fun _ _ _ _ _ hs => relayedIfOk_step hs) trivial nofun h

/-- The polls of a loop, while the other one waits. -/
theorem exec_polls {d : Direction} {ps : List Poll} {copy : ∀ d, Copy (sent d)}
    {c : Copy (sent d)} (h : (copy d).run bufLen ps = some c) :
    exec proxyStep ⟨.relaying, copy⟩ (ps.map (.poll d)) =
      some ⟨.relaying, Function.update copy d c⟩ := by
  induction ps generalizing copy with
  | nil =>
      obtain rfl := Option.some_inj.1 h
      rw [Function.update_eq_self]
      rfl
  | cons p ps ih =>
      rw [Copy.run] at h
      split at h
      · rename_i c₁ hpoll
        have hs : proxyStep ⟨.relaying, copy⟩ (.poll d p) =
            some ⟨.relaying, Function.update copy d c₁⟩ := by
          unfold proxyStep
          dsimp only
          rw [hpoll]
          rfl
        have hrest : exec proxyStep ⟨.relaying, Function.update copy d c₁⟩ (ps.map (.poll d)) =
            some ⟨.relaying, Function.update (Function.update copy d c₁) d c⟩ := by
          apply ih
          rw [Function.update_self]
          exact h
        rw [List.map_cons, exec_cons_some hs, hrest, Function.update_idem]
      · cases h

/-- **Every schedule relays everything only if there is nothing to relay**: a loop may run alone to
the end of its stream, and what the other one has to copy is lost. -/
theorem proxyTcp_always_relays_iff (sent : Direction → List UInt8) :
    (∀ es s, exec proxyStep (.start sent) es = some s → s.RelayedIfOk) ↔ ∀ d, sent d = [] := by
  constructor
  · intro h d
    have hcap : 0 < bufLen := by decide
    obtain ⟨ps, c, hr, hdrained⟩ := (Copy.start (sent d.other)).exists_drained hcap
    let s : ProxyTcp sent :=
      ⟨.relaying, Function.update (fun d => .start (sent d)) d.other c⟩
    have hs : exec proxyStep (.start sent) (.setUp (.ok ()) :: ps.map (.poll d.other)) = some s :=
      (exec_cons_some rfl _).trans (exec_polls hr)
    have hend : proxyStep s (.poll d.other (.read 0)) =
        some { s with phase := .returned (.ok ()) } := by
      have hpoll : c.poll bufLen (.read 0) = some (.ends (.ok ())) :=
        if_pos ⟨hdrained.1, Nat.zero_le _, Nat.zero_le _, fun _ => hdrained.2⟩
      unfold proxyStep
      dsimp only [s]
      rw [Function.update_self, hpoll]
      rfl
    have hrun : exec proxyStep (.start sent)
        ((.setUp (.ok ()) :: ps.map (.poll d.other)) ++ [.poll d.other (.read 0)]) =
        some { s with phase := .returned (.ok ()) } := by
      rw [exec_append, hs, Option.bind_some, exec_cons_some hend, exec_nil]
    have hrelayed := h _ _ hrun rfl d
    -- the loop for `d` has not been polled
    have hne : d ≠ d.other := by cases d <;> nofun
    dsimp only [s] at hrelayed
    rw [Function.update_of_ne hne] at hrelayed
    exact hrelayed.symm
  · intro h es s _ _ d
    have hnil := (s.copy d).parts.trans (h d)
    exact (List.append_eq_nil_iff.1 hnil).1.trans (h d).symm

/-! ### A request and its response -/

/-- The client sends two bytes, the target answers with three. -/
def request : Direction → List UInt8
  | .clientToBackend => [71, 10]
  | .backendToClient => [79, 75, 10]

/-- The client closes its side when it has received the response. -/
def closeAfterResponse : List ProxyEvent :=
  [.setUp (.ok ()), .poll .clientToBackend (.read 2), .poll .clientToBackend (.write 2),
    .poll .backendToClient (.read 1), .poll .backendToClient (.write 1),
    .poll .backendToClient (.read 2), .poll .backendToClient (.write 2),
    .poll .clientToBackend (.read 0)]

theorem proxyTcp_relays_request : ∃ s, exec proxyStep (.start request) closeAfterResponse = some s ∧
    s.phase = .returned (.ok ()) ∧ s.Relayed := by
  have hphase : (exec proxyStep (.start request) closeAfterResponse).map ProxyTcp.phase =
      some (.returned (.ok ())) := rfl
  obtain ⟨s, hs, hok⟩ := Option.map_eq_some_iff.1 hphase
  exact ⟨s, hs, hok, ((proxyTcp_relays_iff hs).2 (by decide)).last hs hok⟩

/-- **A client that closes its side after the request** gets no response. -/
theorem half_close_truncates :
    ¬ ∀ (sent : Direction → List UInt8) (es : List ProxyEvent) (s : ProxyTcp sent),
      exec proxyStep (.start sent) es = some s → s.phase = .returned (.ok ()) → s.Relayed := by
  intro h
  have hresponse := h request [.setUp (.ok ()), .poll .clientToBackend (.read 2),
    .poll .clientToBackend (.write 2), .poll .clientToBackend (.read 0)] _ rfl rfl .backendToClient
  cases hresponse

end TermHub
