/-
**The port forwards at work.**

`run_tcp_forward` and `run_udp_forward` of `termhub-drivers/src/http_proxy.rs`, with the tasks that
they spawn: `proxy_tcp` for every connection, and `proxy_udp` for every datagram.  Each datagram
gets a socket of its own, which is connected to the target, and waits for one response.

Main definitions:

* `tcpForward` — the forward of TCP connections;
* `Datagram`, `ProxyUdp`, `proxyUdpStep`, `udpForward` — the forward of datagrams;
* `Answered` — the target has answered a datagram.

Main results:

* `tcp_forward_isolated` — **every connection is forwarded as if it were alone**;
* `udp_forward_replies` — **the target gets every datagram once at most, and a peer gets the answers
  to its own datagrams and nothing else**.
-/

import TermHub.Detached
import TermHub.ProxyTcp

set_option relaxedAutoImplicit false
set_option autoImplicit false

namespace TermHub

open CopyLoop Detached Transition

/-! ### Connections -/

/-- What the two ends of a connection send. -/
abbrev Streams := Direction → List UInt8

/-- `run_tcp_forward`: every connection that is accepted is forwarded by a task. -/
def tcpForward : Server Streams ((sent : Streams) × ProxyTcp sent) ProxyEvent where
  spawn sent := ⟨sent, .start sent⟩
  run t e := (proxyStep t.2 e).map fun p => ⟨t.1, p⟩

/-- The task of a connection keeps to its streams. -/
theorem exec_tcpForward_run {sent : Streams} {p : ProxyTcp sent} {es : List ProxyEvent}
    {t : (sent : Streams) × ProxyTcp sent} (h : exec tcpForward.run ⟨sent, p⟩ es = some t) :
    ∃ q : ProxyTcp sent, t = ⟨sent, q⟩ ∧ exec proxyStep p es = some q := by
  induction es generalizing p with
  | nil => exact ⟨p, (Option.some_inj.1 h).symm, rfl⟩
  | cons e es ih =>
      obtain ⟨u, hu, hrest⟩ := Option.bind_eq_some_iff.1 h
      obtain ⟨q, hq, rfl⟩ := Option.map_eq_some_iff.1 hu
      obtain ⟨q', rfl, hq'⟩ := ih hrest
      exact ⟨q', rfl, (exec_cons_some hq es).trans hq'⟩

/-- **Every connection is forwarded as if it were alone**, in every run of a forward and whatever
becomes of the others: it goes through a run of `proxy_tcp` on its own events, and each end has been
written a beginning of what the other end of the same connection sends.  The forward returns for a
reason, and it accepts nothing after that; the connections go on. -/
theorem tcp_forward_isolated {as : List (Act Streams ProxyEvent String)}
    {s : Pool ((sent : Streams) × ProxyTcp sent) String}
    (h : exec tcpForward.step Pool.init as = some s) :
    s.tasks.length = (accepted as).length ∧
    (∀ i sent, (accepted as)[i]? = some sent → ∃ p : ProxyTcp sent,
      s.tasks[i]? = some ⟨sent, p⟩ ∧ exec proxyStep (.start sent) (own i as) = some p ∧
      ∀ d, (p.copy d).written <+: sent d) ∧
    ∀ r, s.stage = .over r → Server.Over as r ∧
      ∀ bs u, exec tcpForward.step s bs = some u → u.stage = .over r ∧ accepted bs = [] := by
  have halone := Server.alone_of_exec h
  refine ⟨halone.length, fun i sent hi => ?_, fun r hr => ⟨Server.over_of_exec h hr, fun bs u hu =>
    Server.over_stays hr hu⟩⟩
  obtain ⟨t, ht, hrun⟩ := halone.runs i sent hi
  obtain ⟨p, rfl, hp⟩ := exec_tcpForward_run hrun
  exact ⟨p, ht, hp, fun d => ⟨_, (p.copy d).parts⟩⟩

/-- Two connections; the forward is cancelled before the second one has been set up. -/
def twoConnections : List (Act Streams ProxyEvent String) :=
  [.ready (.ok ()), .accept (.ok request), .accept (.ok fun _ => [7]), .task 0 (.setUp (.ok ())),
    .cancelled, .task 1 (.setUp (.ok ())), .task 1 (.poll .clientToBackend (.read 1)),
    .task 0 (.poll .clientToBackend (.fail "reset")), .task 1 (.poll .clientToBackend (.write 1))]

theorem tcp_forward_isolated_two : ∃ s, exec tcpForward.step Pool.init twoConnections = some s ∧
    s.tasks.length = 2 ∧ ∃ p : ProxyTcp (fun _ => [7]), s.tasks[1]? = some ⟨fun _ => [7], p⟩ ∧
      ∀ d, (p.copy d).written <+: [7] := by
  have hrun : ∃ s, exec tcpForward.step Pool.init twoConnections = some s := ⟨_, rfl⟩
  obtain ⟨s, hs⟩ := hrun
  obtain ⟨hlength, hruns, -⟩ := tcp_forward_isolated hs
  obtain ⟨p, hp, -, hwritten⟩ := hruns 1 (fun _ => [7]) rfl
  exact ⟨s, hs, hlength, p, hp, hwritten⟩

/-! ### Datagrams -/

variable {Addr : Type}

/-- A datagram, with the address of its sender. -/
structure Datagram (Addr : Type) where
  peer : Addr
  data : List UInt8
  deriving DecidableEq, Repr

/-- Where `proxy_udp` is. -/
inductive UdpStage
  | binding
  | connecting
  | sending
  | waiting
  /-- It sends the response back. -/
  | replying (b : List UInt8)
  | returned (r : Except String Unit)

/-- The forwarding of a datagram, with what has been sent to the target and to the sender. -/
structure ProxyUdp (Addr : Type) where
  datagram : Datagram Addr
  stage : UdpStage
  forwarded : List (List UInt8)
  replies : List (List UInt8)

/-- What happens to the forwarding of a datagram. -/
inductive UdpEvent
  | bound (r : Except String Unit)
  | connected (r : Except String Unit)
  | sent (r : Except String Unit)
  | received (r : Except String (List UInt8))
  | timedOut
  | replied (r : Except String Unit)

/-- The room for a datagram. -/
def udpBufLen : ℕ := 65535

/-- `proxy_udp`. -/
def proxyUdpStep (t : ProxyUdp Addr) (e : UdpEvent) : Option (ProxyUdp Addr) :=
  match t.stage, e with
  | .binding, .bound (.ok ()) => some { t with stage := .connecting }
  | .binding, .bound (.error e) => some { t with stage := .returned (.error e) }
  | .connecting, .connected (.ok ()) => some { t with stage := .sending }
  | .connecting, .connected (.error e) => some { t with stage := .returned (.error e) }
  | .sending, .sent (.ok ()) =>
    some { t with stage := .waiting, forwarded := t.forwarded ++ [t.datagram.data] }
  | .sending, .sent (.error e) => some { t with stage := .returned (.error e) }
  | .waiting, .received (.ok b) =>
    if b.length ≤ udpBufLen then some { t with stage := .replying b } else none
  | .waiting, .received (.error e) => some { t with stage := .returned (.error e) }
  | .waiting, .timedOut => some { t with stage := .returned (.error "udp response timeout") }
  | .replying b, .replied (.ok ()) =>
    some { t with stage := .returned (.ok ()), replies := t.replies ++ [b] }
  | .replying _, .replied (.error e) => some { t with stage := .returned (.error e) }
  | _, _ => none

/-- `run_udp_forward`: every datagram is forwarded by a task. -/
def udpForward : Server (Datagram Addr) (ProxyUdp Addr) UdpEvent where
  spawn d := ⟨d, .binding, [], []⟩
  run := proxyUdpStep

/-- **What has become of a datagram**: it has been sent to the target once at most, and before that
nothing has come back; what is sent to its sender has been received from the target, once at most,
and then the task has returned. -/
inductive Exchange (d : Datagram Addr) (es : List UdpEvent) (t : ProxyUdp Addr) : Prop
  | unsent (hd : t.datagram = d) (hf : t.forwarded = []) (hr : t.replies = [])
      (hs : t.stage = .binding ∨ t.stage = .connecting ∨ t.stage = .sending ∨
        ∃ e, t.stage = .returned (.error e))
  | asked (hd : t.datagram = d) (hf : t.forwarded = [d.data]) (hr : t.replies = [])
      (hs : t.stage = .waiting ∨ (∃ b, t.stage = .replying b ∧ .received (.ok b) ∈ es) ∨
        ∃ e, t.stage = .returned (.error e))
  | answered {b : List UInt8} (hd : t.datagram = d) (hf : t.forwarded = [d.data])
      (hr : t.replies = [b]) (hb : .received (.ok b) ∈ es) (hs : t.stage = .returned (.ok ()))

/-- What a step does; it fails with an error wherever it is. -/
inductive UdpStepped (t : ProxyUdp Addr) : UdpEvent → ProxyUdp Addr → Prop
  | bound (hs : t.stage = .binding) :
      UdpStepped t (.bound (.ok ())) { t with stage := .connecting }
  | connected (hs : t.stage = .connecting) :
      UdpStepped t (.connected (.ok ())) { t with stage := .sending }
  | sent (hs : t.stage = .sending) : UdpStepped t (.sent (.ok ()))
      { t with stage := .waiting, forwarded := t.forwarded ++ [t.datagram.data] }
  | received {b : List UInt8} (hs : t.stage = .waiting) :
      UdpStepped t (.received (.ok b)) { t with stage := .replying b }
  | replied {b : List UInt8} (hs : t.stage = .replying b) : UdpStepped t (.replied (.ok ()))
      { t with stage := .returned (.ok ()), replies := t.replies ++ [b] }
  | failed {e : UdpEvent} {reason : String} (hs : ∀ r, t.stage ≠ .returned r) :
      UdpStepped t e { t with stage := .returned (.error reason) }

theorem proxyUdpStep_stepped {t u : ProxyUdp Addr} {e : UdpEvent}
    (h : proxyUdpStep t e = some u) : UdpStepped t e u := by
  unfold proxyUdpStep at h
  split at h
  case h_1 hs =>
      obtain rfl := Option.some_inj.1 h
      exact .bound hs
  case h_3 hs =>
      obtain rfl := Option.some_inj.1 h
      exact .connected hs
  case h_5 hs =>
      obtain rfl := Option.some_inj.1 h
      exact .sent hs
  case h_7 hs =>
      obtain ⟨-, rfl⟩ := Option.ite_some_none_eq_some.1 h
      exact .received hs
  case h_10 hs =>
      obtain rfl := Option.some_inj.1 h
      exact .replied hs
  case h_12 => cases h
  all_goals
    rename_i hs
    obtain rfl := Option.some_inj.1 h
    exact .failed fun r hr => nomatch hs.symm.trans hr

theorem Exchange.step {d : Datagram Addr} {es : List UdpEvent} {t u : ProxyUdp Addr} {e : UdpEvent}
    (hi : Exchange d es t) (h : proxyUdpStep t e = some u) : Exchange d (es ++ [e]) u := by
  have hlast : e ∈ es ++ [e] := List.mem_append_right _ (List.mem_singleton_self _)
  cases proxyUdpStep_stepped h with
  | bound hs =>
      cases hi with
      | unsent hd hf hr => exact .unsent hd hf hr (.inr (.inl rfl))
      | asked _ _ _ h => simp [hs] at h
      | answered _ _ _ _ h => cases hs.symm.trans h
  | connected hs =>
      cases hi with
      | unsent hd hf hr => exact .unsent hd hf hr (.inr (.inr (.inl rfl)))
      | asked _ _ _ h => simp [hs] at h
      | answered _ _ _ _ h => cases hs.symm.trans h
  | sent hs =>
      cases hi with
      | unsent hd hf hr => exact .asked hd (by simp [hf, hd]) hr (.inl rfl)
      | asked _ _ _ h => simp [hs] at h
      | answered _ _ _ _ h => cases hs.symm.trans h
  | received hs =>
      cases hi with
      | unsent _ _ _ h => simp [hs] at h
      | asked hd hf hr => exact .asked hd hf hr (.inr (.inl ⟨_, rfl, hlast⟩))
      | answered _ _ _ _ h => cases hs.symm.trans h
  | @replied b hs =>
      cases hi with
      | unsent _ _ _ h => simp [hs] at h
      | asked hd hf hr h =>
          rcases h with h | ⟨b', h, hb⟩ | ⟨_, h⟩
          · cases hs.symm.trans h
          · cases hs.symm.trans h
            exact .answered hd hf (by simp [hr]) (List.mem_append_left _ hb) rfl
          · cases hs.symm.trans h
      | answered _ _ _ _ h => cases hs.symm.trans h
  | failed hs =>
      cases hi with
      | unsent hd hf hr => exact .unsent hd hf hr (.inr (.inr (.inr ⟨_, rfl⟩)))
      | asked hd hf hr => exact .asked hd hf hr (.inr (.inr ⟨_, rfl⟩))
      | answered _ _ _ _ h => exact absurd h (hs _)

/-- **What has become of a datagram**, in every run of its task. -/
theorem Exchange.of_exec {d : Datagram Addr} {es : List UdpEvent} {t : ProxyUdp Addr}
    (h : exec proxyUdpStep (udpForward.spawn d) es = some t) : Exchange d es t :=
  exec_invariant (I := Exchange d) (.unsent rfl rfl rfl (.inl rfl))
    (fun _ _ _ _ hi hs => hi.step hs) h

/-- The target has answered the datagram number `i`: on the socket that has been opened for it this
has been received. -/
def Answered (as : List (Act (Datagram Addr) UdpEvent String)) (i : ℕ) (b : List UInt8) : Prop :=
  .task i (.received (.ok b)) ∈ as

/-- What has been sent to the target. -/
def toTarget (s : Pool (ProxyUdp Addr) String) : List (List UInt8) :=
  s.tasks.flatMap ProxyUdp.forwarded

/-- What has been sent to a peer. -/
def toPeer [DecidableEq Addr] (peer : Addr) (s : Pool (ProxyUdp Addr) String) :
    List (List UInt8) :=
  s.tasks.flatMap fun t => if t.datagram.peer = peer then t.replies else []

/-- **The target gets every datagram once at most and unchanged, and a peer gets the answers to its
own datagrams and nothing else**, in every run of a forward: what is sent to the target is a part of
what has been accepted, and each response to a peer belongs to another one of its datagrams, whose
own socket it has been received on; the datagrams are told apart by their numbers.  The forward
returns for a reason, and it accepts nothing after that. -/
theorem udp_forward_replies [DecidableEq Addr]
    {as : List (Act (Datagram Addr) UdpEvent String)} {s : Pool (ProxyUdp Addr) String}
    (h : exec udpForward.step Pool.init as = some s) :
    (toTarget s).Sublist ((accepted as).map Datagram.data) ∧
    (∀ peer, ∃ ds, ds.Sublist (accepted as).zipIdx ∧
      List.Forall₂ (fun x b => x.1.peer = peer ∧ Answered as x.2 b) ds (toPeer peer s)) ∧
    ∀ r, s.stage = .over r → Server.Over as r ∧
      ∀ bs u, exec udpForward.step s bs = some u → u.stage = .over r ∧ accepted bs = [] := by
  have halone := Server.alone_of_exec h
  have hall : List.Forall₂ (fun x t => Exchange x.1 (own x.2 as) t) (accepted as).zipIdx s.tasks :=
    halone.forall₂ fun i d t _ hrun => .of_exec hrun
  refine ⟨?_, fun peer => ?_, fun r hr => ⟨Server.over_of_exec h hr, fun bs u hu =>
    Server.over_stays hr hu⟩⟩
  · obtain ⟨ds, hds, hdata⟩ := exists_sublist_of_forall₂ (f := ProxyUdp.forwarded)
      (fun x t hx => by
        cases hx with
        | unsent _ hf => exact .inl hf
        | asked _ hf | answered _ hf => exact .inr ⟨x.1.data, hf, rfl⟩) hall
    have heq : (ds.map Prod.fst).map Datagram.data = toTarget s := by
      rw [← List.forall₂_eq_eq_eq, List.map_map, List.forall₂_map_left_iff]
      exact hdata
    have hfst : ((accepted as).zipIdx.map Prod.fst) = accepted as := List.zipIdx_map_fst ..
    rw [← heq]
    exact (hfst ▸ hds.map Prod.fst).map _
  · refine exists_sublist_of_forall₂ (fun x t hx => ?_) hall
    cases hx with
    | unsent hd _ hr | asked hd _ hr =>
        left
        rw [hr]
        exact ite_self _
    | @answered b hd _ hr hb =>
        by_cases hp : t.datagram.peer = peer
        · right
          exact ⟨b, by rw [if_pos hp, hr], hd ▸ hp, mem_own.1 hb⟩
        · exact .inl (if_neg hp)

/-- Two peers, of which the first one asks the same twice; its second question is answered first,
and the other peer gets no answer. -/
def twoPeers : List (Act (Datagram String) UdpEvent String) :=
  [.ready (.ok ()), .accept (.ok ⟨"10.0.0.1:5000", [1]⟩), .accept (.ok ⟨"10.0.0.2:5000", [2]⟩),
    .accept (.ok ⟨"10.0.0.1:5000", [1]⟩), .task 2 (.bound (.ok ())), .task 0 (.bound (.ok ())),
    .task 1 (.bound (.ok ())), .task 2 (.connected (.ok ())), .task 2 (.sent (.ok ())), .cancelled,
    .task 2 (.received (.ok [12])), .task 0 (.connected (.ok ())), .task 0 (.sent (.ok ())),
    .task 1 (.connected (.ok ())), .task 1 (.sent (.ok ())), .task 2 (.replied (.ok ())),
    .task 1 .timedOut, .task 0 (.received (.ok [10])), .task 0 (.replied (.ok ()))]

theorem udp_forward_replies_two : ∃ s, exec udpForward.step Pool.init twoPeers = some s ∧
    (toTarget s).Sublist [[1], [2], [1]] ∧ toPeer "10.0.0.2:5000" s = [] ∧
    ∃ ds, ds.Sublist (accepted twoPeers).zipIdx ∧ List.Forall₂ (fun x b =>
      x.1.peer = "10.0.0.1:5000" ∧ Answered twoPeers x.2 b) ds [[10], [12]] := by
  have hrun : ∃ s, exec udpForward.step Pool.init twoPeers = some s ∧
      toPeer "10.0.0.2:5000" s = [] ∧ toPeer "10.0.0.1:5000" s = [[10], [12]] :=
    ⟨_, rfl, by decide, by decide⟩
  obtain ⟨s, hs, hnone, hpeer⟩ := hrun
  obtain ⟨htarget, hpeers, -⟩ := udp_forward_replies hs
  exact ⟨s, hs, htarget, hnone, hpeer ▸ hpeers "10.0.0.1:5000"⟩

end TermHub
