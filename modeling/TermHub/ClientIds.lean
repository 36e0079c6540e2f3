/-
**The numbers of the clients.**

`termhub-core/src/clients.rs`.  A registry numbers the clients that are attached to a session.  The
number of a client is what an operator kicks, so a number that has been given must not be given
again, and a kick must cancel the token of the one client it names.

The record of a client is shared with its handler and its forward task.  What never changes in it
is kept in the map; its two byte counters and its token are objects of their own, which the record
names.

Main definitions: `Clients.ClientRecord`, `Clients.ClientRegistry`, `Clients.Call`, `Clients.run`,
`Clients.Attached`.

Main results:

* `Clients.ledger_run` — the invariant over the history: the counter is the number of records, the
  records are numbered in order, and the map holds those that have not been detached;
* `Clients.clientRegistry_safe` — **identities are handed out safely**, over all calls;
* `Clients.represents_run` — the registry of the door is this one.
-/

import TermHub.SshDoor

set_option relaxedAutoImplicit false
set_option autoImplicit false

namespace TermHub

namespace Clients

/-! ### The registry -/

/-- The name of a counter that is shared. -/
abbrev AtomicU64 := ℕ

/-- `ClientRecord`. -/
structure ClientRecord where
  id : UInt64
  remote : String
  connectedAt : ℕ
  bytesIn : AtomicU64
  bytesOut : AtomicU64
  kick : Token
  deriving DecidableEq, Repr

/-- `ClientRecordSnapshot`. -/
structure ClientRecordSnapshot where
  id : UInt64
  remote : String
  connectedAt : ℕ
  bytesIn : UInt64
  bytesOut : UInt64
  deriving DecidableEq, Repr

/-- `ClientRegistry`, with the counters that have been made so far, and the tokens: whether each of
them has been cancelled. -/
structure ClientRegistry where
  nextId : UInt64
  map : AList fun _ : UInt64 => ClientRecord
  counters : List UInt64
  cancelled : List Bool

namespace ClientRegistry

/-- `ClientRegistry::default`. -/
def new : ClientRegistry := ⟨0, ∅, [], []⟩

/-- The record that `attach` makes. -/
def newRecord (r : ClientRegistry) (remote : String) (now : ℕ) : ClientRecord where
  id := r.nextId + 1
  remote := remote
  connectedAt := now
  bytesIn := r.counters.length
  bytesOut := r.counters.length + 1
  kick := r.cancelled.length

/-- `ClientRegistry::attach`. -/
def attach (r : ClientRegistry) (remote : String) (now : ℕ) : ClientRecord × ClientRegistry :=
  (r.newRecord remote now,
    { nextId := r.nextId + 1
      map := r.map.insert (r.nextId + 1) (r.newRecord remote now)
      counters := r.counters ++ [0, 0]
      cancelled := r.cancelled ++ [false] })

/-- `ClientRegistry::detach`. -/
def detach (r : ClientRegistry) (id : UInt64) : ClientRegistry := { r with map := r.map.erase id }

/-- `ClientRegistry::kick`. -/
def kick (r : ClientRegistry) (id : UInt64) : Bool × ClientRegistry :=
  match r.map.lookup id with
  | some rec => (true, { r with cancelled := r.cancelled.set rec.kick true })
  | none => (false, r)

/-- `AtomicU64::load`. -/
def load (r : ClientRegistry) (counter : AtomicU64) : UInt64 := r.counters.getD counter 0

/-- `AtomicU64::fetch_add`, which wraps around. -/
def fetchAdd (r : ClientRegistry) (counter : AtomicU64) (n : UInt64) : ClientRegistry :=
  { r with counters := r.counters.modify counter (· + n) }

/-- What the list shows of a record. -/
def snapshot (r : ClientRegistry) (rec : ClientRecord) : ClientRecordSnapshot :=
  ⟨rec.id, rec.remote, rec.connectedAt, r.load rec.bytesIn, r.load rec.bytesOut⟩

/-- `ClientRegistry::list`. -/
def list (r : ClientRegistry) : List ClientRecordSnapshot :=
  r.map.entries.map fun e => r.snapshot e.2

/-- `CancellationToken::is_cancelled`. -/
def isCancelled (r : ClientRegistry) (token : Token) : Bool := r.cancelled.getD token false

end ClientRegistry

/-! ### Calls -/

/-- A call on a registry; whoever holds a record may also count bytes. -/
inductive Call
  | attach (remote : String) (now : ℕ)
  | detach (id : UInt64)
  | kick (id : UInt64)
  | list
  | fetchAdd (counter : AtomicU64) (n : UInt64)
  deriving DecidableEq, Repr

/-- The call attaches a client. -/
def Call.isAttach : Call → Bool
  | .attach .. => true
  | _ => false

/-- The registry after a call. -/
def ClientRegistry.call (r : ClientRegistry) : Call → ClientRegistry
  | .attach remote now => (r.attach remote now).2
  | .detach id => r.detach id
  | .kick id => (r.kick id).2
  | .list => r
  | .fetchAdd counter n => r.fetchAdd counter n

/-- The record that a call returns. -/
def ClientRegistry.returned (r : ClientRegistry) : Call → List ClientRecord
  | .attach remote now => [(r.attach remote now).1]
  | _ => []

theorem returned_eq_nil {r : ClientRegistry} {c : Call} (h : c.isAttach = false) :
    r.returned c = [] := by
  cases c with
  | attach remote now => cases h
  | _ => rfl

/-- A new registry after some calls, and the records that `attach` has returned, in order. -/
def run (cs : List Call) : ClientRegistry × List ClientRecord :=
  cs.foldl (fun p c => (p.1.call c, p.2 ++ p.1.returned c)) (ClientRegistry.new, [])

/-- The registry after some calls. -/
def after (cs : List Call) : ClientRegistry := (run cs).1

/-- The records that `attach` has returned. -/
def issued (cs : List Call) : List ClientRecord := (run cs).2

theorem after_snoc (cs : List Call) (c : Call) : after (cs ++ [c]) = (after cs).call c := by
  rw [after, run, List.foldl_concat]
  rfl

theorem issued_snoc (cs : List Call) (c : Call) :
    issued (cs ++ [c]) = issued cs ++ (after cs).returned c := by
  rw [issued, run, List.foldl_concat]
  rfl

/-- The record has been returned by a call of `attach`, and its number has not been detached
since. -/
def Attached (cs : List Call) (rec : ClientRecord) : Prop :=
  ∃ pre remote now post, cs = pre ++ .attach remote now :: post ∧
    ((after pre).attach remote now).1 = rec ∧ Call.detach rec.id ∉ post

theorem attached_snoc {cs : List Call} {c : Call} {rec : ClientRecord} :
    Attached (cs ++ [c]) rec ↔ rec ∈ (after cs).returned c ∨
      (Attached cs rec ∧ c ≠ .detach rec.id) := by
  constructor
  · rintro ⟨pre, remote, now, post, hcs, hrec, hpost⟩
    induction post using List.reverseRecOn with
    | nil =>
        obtain ⟨rfl, hc⟩ := List.append_inj' hcs rfl
        rw [List.cons.injEq] at hc
        exact Or.inl (hc.1 ▸ List.mem_singleton.2 hrec.symm)
    | append_singleton post d _ =>
        rw [← List.cons_append, ← List.append_assoc] at hcs
        obtain ⟨rfl, hc⟩ := List.append_inj' hcs rfl
        rw [List.cons.injEq] at hc
        refine Or.inr ⟨⟨pre, remote, now, post, rfl, hrec, ?_⟩, ?_⟩
        · exact fun h => hpost (List.mem_append_left _ h)
        · exact fun h => hpost (List.mem_append_right _ (List.mem_singleton.2 (h ▸ hc.1)))
  · rintro (h | ⟨⟨pre, remote, now, post, rfl, hrec, hpost⟩, hc⟩)
    · cases c with
      | attach remote now =>
          exact ⟨cs, remote, now, [], rfl, (List.mem_singleton.1 h).symm, List.not_mem_nil⟩
      | detach id => cases h
      | kick id => cases h
      | list => cases h
      | fetchAdd counter n => cases h
    · refine ⟨pre, remote, now, post ++ [c], by simp, hrec, fun h => ?_⟩
      rcases List.mem_append.1 h with h | h
      · exact hpost h
      · exact hc (List.mem_singleton.1 h).symm

/-! ### What links a registry to its history -/

/-- The registry `r` after calls that have returned the records `rs`, of which those with `held`
are still attached. -/
structure Ledger (r : ClientRegistry) (rs : List ClientRecord) (held : ClientRecord → Prop) :
    Prop where
  nextId : r.nextId.toNat = rs.length
  tokens : r.cancelled.length = rs.length
  ids : ∀ i rec, rs[i]? = some rec → rec.id.toNat = i + 1 ∧ rec.kick = i
  mem : ∀ rec, held rec → rec ∈ rs
  lookup : ∀ id rec, r.map.lookup id = some rec ↔ held rec ∧ rec.id = id

section Ledger

variable {r : ClientRegistry} {rs : List ClientRecord} {held : ClientRecord → Prop}

/-- The numbers of the records do not exceed the counter. -/
theorem Ledger.id_le (h : Ledger r rs held) {rec : ClientRecord} (hrec : rec ∈ rs) :
    rec.id.toNat ≤ rs.length := by
  obtain ⟨i, hi⟩ := List.mem_iff_getElem?.1 hrec
  have hlt := (List.getElem?_eq_some_iff.1 hi).1
  have hid := (h.ids i rec hi).1
  omega

/-- The numbers tell the records apart. -/
theorem Ledger.eq_of_id (h : Ledger r rs held) {rec rec' : ClientRecord} (hrec : rec ∈ rs)
    (hrec' : rec' ∈ rs) (hid : rec.id = rec'.id) : rec = rec' := by
  obtain ⟨i, hi⟩ := List.mem_iff_getElem?.1 hrec
  obtain ⟨j, hj⟩ := List.mem_iff_getElem?.1 hrec'
  have hi' := (h.ids i rec hi).1
  have hj' := (h.ids j rec' hj).1
  rw [hid] at hi'
  obtain rfl : i = j := by omega
  rw [hi, Option.some_inj] at hj
  exact hj

/-- So do their tokens. -/
theorem Ledger.eq_of_kick (h : Ledger r rs held) {rec rec' : ClientRecord} (hrec : rec ∈ rs)
    (hrec' : rec' ∈ rs) (hkick : rec.kick = rec'.kick) : rec = rec' := by
  obtain ⟨i, hi⟩ := List.mem_iff_getElem?.1 hrec
  obtain ⟨j, hj⟩ := List.mem_iff_getElem?.1 hrec'
  obtain rfl : i = j := by
    rw [← (h.ids i rec hi).2, ← (h.ids j rec' hj).2, hkick]
  rw [hi, Option.some_inj] at hj
  exact hj

/-- A record has the token of its number, which exists. -/
theorem Ledger.kick_lt (h : Ledger r rs held) {rec : ClientRecord} (hrec : rec ∈ rs) :
    rec.kick < r.cancelled.length := by
  obtain ⟨i, hi⟩ := List.mem_iff_getElem?.1 hrec
  rw [(h.ids i rec hi).2, h.tokens]
  exact (List.getElem?_eq_some_iff.1 hi).1

theorem Ledger.ids_nodup (h : Ledger r rs held) : (rs.map ClientRecord.id).Nodup := by
  rw [List.nodup_iff_injective_getElem]
  intro i j hij
  simp only [List.getElem_map] at hij
  have hi := (h.ids i.1 rs[i.1] (List.getElem?_eq_getElem _)).1
  have hj := (h.ids j.1 rs[j.1] (List.getElem?_eq_getElem _)).1
  rw [hij] at hi
  exact Fin.ext (by omega)

theorem ledger_new : Ledger ClientRegistry.new [] fun _ => False where
  nextId := rfl
  tokens := rfl
  ids i rec h := by cases h
  mem rec h := h.elim
  lookup id rec := by
    rw [ClientRegistry.new, AList.lookup_empty]
    simp

/-- The next number, while there is one. -/
theorem Ledger.toNat_succ (h : Ledger r rs held) (hb : rs.length + 1 < 2 ^ 64) :
    (r.nextId + 1).toNat = rs.length + 1 := by
  rw [UInt64.toNat_add, h.nextId]
  exact Nat.mod_eq_of_lt hb

theorem Ledger.attach (h : Ledger r rs held) (hb : rs.length + 1 < 2 ^ 64) (remote : String)
    (now : ℕ) : Ledger (r.attach remote now).2 (rs ++ [(r.attach remote now).1])
      fun rec => rec = (r.attach remote now).1 ∨ held rec where
  nextId := by
    rw [List.length_append]
    exact h.toNat_succ hb
  tokens := by
    change (r.cancelled ++ [false]).length = _
    rw [List.length_append, List.length_append, h.tokens]
    rfl
  ids i rec hi := by
    rcases Transition.getElem?_concat_eq_some.1 hi with hi | ⟨rfl, rfl⟩
    · exact h.ids i rec hi
    · exact ⟨h.toNat_succ hb, h.tokens⟩
  mem rec hrec := by
    rcases hrec with rfl | hrec
    · exact List.mem_append_right _ (List.mem_singleton.2 rfl)
    · exact List.mem_append_left _ (h.mem rec hrec)
  lookup id rec := by
    change (r.map.insert (r.nextId + 1) (r.newRecord remote now)).lookup id = some rec ↔ _
    by_cases hid : id = r.nextId + 1
    · subst hid
      rw [AList.lookup_insert, Option.some_inj]
      constructor
      · rintro rfl
        exact ⟨Or.inl rfl, rfl⟩
      · rintro ⟨rfl | hrec, hid⟩
        · rfl
        · -- the number would be one of those that have been given
          have hle := h.id_le (h.mem rec hrec)
          rw [hid, h.toNat_succ hb] at hle
          omega
    · rw [AList.lookup_insert_ne hid, h.lookup]
      constructor
      · rintro ⟨hrec, hi⟩
        exact ⟨Or.inr hrec, hi⟩
      · rintro ⟨rfl | hrec, hi⟩
        · exact absurd hi.symm hid
        · exact ⟨hrec, hi⟩

theorem Ledger.detach (h : Ledger r rs held) (id : UInt64) :
    Ledger (r.detach id) rs fun rec => held rec ∧ rec.id ≠ id where
  nextId := h.nextId
  tokens := h.tokens
  ids := h.ids
  mem rec hrec := h.mem rec hrec.1
  lookup id' rec := by
    change (r.map.erase id).lookup id' = some rec ↔ _
    by_cases hid : id' = id
    · subst hid
      rw [AList.lookup_erase]
      constructor
      · exact nofun
      · rintro ⟨⟨-, hne⟩, heq⟩
        exact absurd heq hne
    · rw [AList.lookup_erase_ne hid, h.lookup]
      constructor
      · rintro ⟨hrec, rfl⟩
        exact ⟨⟨hrec, hid⟩, rfl⟩
      · rintro ⟨⟨hrec, -⟩, heq⟩
        exact ⟨hrec, heq⟩

theorem Ledger.kick (h : Ledger r rs held) (id : UInt64) : Ledger (r.kick id).2 rs held := by
  unfold ClientRegistry.kick
  split
  · exact ⟨h.nextId, by rw [List.length_set, h.tokens], h.ids, h.mem, h.lookup⟩
  · exact h

theorem Ledger.congr (h : Ledger r rs held) {held' : ClientRecord → Prop}
    (hh : ∀ rec, held' rec ↔ held rec) : Ledger r rs held' := by
  obtain rfl : held' = held := funext fun rec => propext (hh rec)
  exact h

end Ledger

/-- How many of the calls attach a client. -/
abbrev attaches (cs : List Call) : ℕ := cs.countP Call.isAttach

theorem length_issued (cs : List Call) : (issued cs).length = attaches cs := by
  induction cs using List.reverseRecOn with
  | nil => rfl
  | append_singleton cs c ih =>
      rw [issued_snoc, List.length_append, ih, attaches, attaches, List.countP_append]
      cases c <;> rfl

theorem attaches_snoc (cs : List Call) (c : Call) :
    attaches (cs ++ [c]) = attaches cs + attaches [c] := List.countP_append

/-- **The ledger of a run**: while fewer than `2 ^ 64` clients have been attached, the counter is
the number of records, they are numbered in order, and the map holds the attached ones. -/
theorem ledger_run (cs : List Call) (h : attaches cs < 2 ^ 64) :
    Ledger (after cs) (issued cs) (Attached cs) := by
  induction cs using List.reverseRecOn with
  | nil =>
      refine ledger_new.congr fun rec => ⟨?_, False.elim⟩
      rintro ⟨pre, remote, now, post, hcs, -⟩
      simp at hcs
  | append_singleton cs c ih =>
      rw [attaches_snoc] at h
      have hl := ih (by omega)
      rw [after_snoc, issued_snoc]
      cases c with
      | attach remote now =>
          have hb : (issued cs).length + 1 < 2 ^ 64 := by
            rw [length_issued]
            exact h
          refine (hl.attach hb remote now).congr fun rec => ?_
          rw [attached_snoc]
          simp [ClientRegistry.returned]
      | detach id =>
          rw [returned_eq_nil rfl, List.append_nil]
          refine (hl.detach id).congr fun rec => ?_
          rw [attached_snoc]
          simp [ClientRegistry.returned, eq_comm]
      | kick id =>
          rw [returned_eq_nil rfl, List.append_nil]
          refine (hl.kick id).congr fun rec => ?_
          rw [attached_snoc]
          simp [ClientRegistry.returned]
      | list =>
          rw [returned_eq_nil rfl, List.append_nil]
          refine hl.congr fun rec => ?_
          rw [attached_snoc]
          simp [ClientRegistry.returned]
      | fetchAdd counter n =>
          rw [returned_eq_nil rfl, List.append_nil]
          have hadd : Ledger ((after cs).fetchAdd counter n) _ (Attached cs) :=
            ⟨hl.nextId, hl.tokens, hl.ids, hl.mem, hl.lookup⟩
          refine hadd.congr fun rec => ?_
          rw [attached_snoc]
          simp [ClientRegistry.returned]

/-! ### What the calls do -/

section Calls

variable {r : ClientRegistry} {rs : List ClientRecord} {held : ClientRecord → Prop}

/-- The list has one entry for each record that is held. -/
theorem Ledger.mem_list (h : Ledger r rs held) {s : ClientRecordSnapshot} :
    s ∈ r.list ↔ ∃ rec, held rec ∧ s = r.snapshot rec := by
  unfold ClientRegistry.list
  rw [List.mem_map]
  constructor
  · rintro ⟨⟨id, rec⟩, hmem, rfl⟩
    exact ⟨rec, ((h.lookup id rec).1 (AList.mem_lookup_iff.2 hmem)).1, rfl⟩
  · rintro ⟨rec, hrec, rfl⟩
    exact ⟨⟨rec.id, rec⟩, AList.mem_lookup_iff.1 ((h.lookup rec.id rec).2 ⟨hrec, rfl⟩), rfl⟩

/-- The list shows no number twice. -/
theorem Ledger.list_nodup (h : Ledger r rs held) :
    (r.list.map ClientRecordSnapshot.id).Nodup := by
  unfold ClientRegistry.list
  rw [List.map_map]
  refine List.Nodup.map_on ?_ r.map.nodupKeys.nodup
  rintro ⟨id, rec⟩ hmem ⟨id', rec'⟩ hmem' (hid : rec.id = rec'.id)
  obtain ⟨-, hr⟩ := (h.lookup id rec).1 (AList.mem_lookup_iff.2 hmem)
  obtain ⟨-, hr'⟩ := (h.lookup id' rec').1 (AList.mem_lookup_iff.2 hmem')
  obtain rfl : id = id' := by rw [← hr, ← hr', hid]
  exact List.NodupKeys.eq_of_fst_eq r.map.nodupKeys hmem hmem' rfl

theorem Ledger.lookup_eq_none (h : Ledger r rs held) {id : UInt64}
    (hid : ∀ rec, held rec → rec.id ≠ id) : r.map.lookup id = none := by
  rw [Option.eq_none_iff_forall_ne_some]
  intro rec hl
  obtain ⟨hrec, heq⟩ := (h.lookup id rec).1 hl
  exact hid rec hrec heq

theorem Ledger.detach_unknown (h : Ledger r rs held) {id : UInt64}
    (hid : ∀ rec, held rec → rec.id ≠ id) : r.detach id = r := by
  have hnone := AList.lookup_eq_none.1 (h.lookup_eq_none hid)
  have herase : r.map.erase id = r.map := AList.ext (List.kerase_of_notMem_keys hnone)
  rw [ClientRegistry.detach, herase]

theorem Ledger.kick_unknown (h : Ledger r rs held) {id : UInt64}
    (hid : ∀ rec, held rec → rec.id ≠ id) : r.kick id = (false, r) := by
  rw [ClientRegistry.kick, h.lookup_eq_none hid]

theorem Ledger.kick_fst (h : Ledger r rs held) (id : UInt64) :
    (r.kick id).1 = true ↔ ∃ rec, held rec ∧ rec.id = id := by
  unfold ClientRegistry.kick
  cases hl : r.map.lookup id with
  | none =>
      refine ⟨nofun, ?_⟩
      rintro ⟨rec, hrec⟩
      rw [(h.lookup id rec).2 hrec] at hl
      cases hl
  | some rec => exact ⟨fun _ => ⟨rec, (h.lookup id rec).1 hl⟩, fun _ => rfl⟩

/-- A kick cancels the token of the record it names, and no other. -/
theorem Ledger.isCancelled_kick (h : Ledger r rs held) (id : UInt64) (token : Token) :
    (r.kick id).2.isCancelled token = true ↔
      r.isCancelled token = true ∨ ∃ rec, held rec ∧ rec.id = id ∧ rec.kick = token := by
  unfold ClientRegistry.kick
  cases hl : r.map.lookup id with
  | none =>
      refine ⟨Or.inl, ?_⟩
      rintro (ht | ⟨rec, hrec, hid, -⟩)
      · exact ht
      · rw [(h.lookup id rec).2 ⟨hrec, hid⟩] at hl
        cases hl
  | some rec =>
      obtain ⟨hrec, hid⟩ := (h.lookup id rec).1 hl
      have hlt := h.kick_lt (h.mem rec hrec)
      unfold ClientRegistry.isCancelled
      dsimp only
      by_cases ht : token = rec.kick
      · subst ht
        have hset : (r.cancelled.set rec.kick true).getD rec.kick false = true := by
          simp [hlt]
        exact ⟨fun _ => Or.inr ⟨rec, hrec, hid, rfl⟩, fun _ => hset⟩
      · have hset : (r.cancelled.set rec.kick true).getD token false =
            r.cancelled.getD token false := by
          simp [List.getD_eq_getElem?_getD, List.getElem?_set_ne (Ne.symm ht)]
        rw [hset]
        refine ⟨Or.inl, ?_⟩
        rintro (hc | ⟨rec', hrec', hid', rfl⟩)
        · exact hc
        · obtain rfl := h.eq_of_id (h.mem rec' hrec') (h.mem rec hrec) (hid'.trans hid.symm)
          exact absurd rfl ht

end Calls

/-- **The registry hands out identities safely**: in every run with fewer than `2 ^ 64` calls of
`attach` the numbers given are distinct, and so are the tokens; the list shows the records attached
and not yet detached, each once; an unknown number changes nothing; and a kick answers whether its
record is attached, and cancels the token of that record only. -/
theorem clientRegistry_safe (cs : List Call) (h : attaches cs < 2 ^ 64) :
    ((issued cs).map ClientRecord.id).Nodup ∧
    (∀ rec ∈ issued cs, ∀ rec' ∈ issued cs, rec.kick = rec'.kick → rec = rec') ∧
    ((after cs).list.map ClientRecordSnapshot.id).Nodup ∧
    (∀ s, s ∈ (after cs).list ↔ ∃ rec, Attached cs rec ∧ s = (after cs).snapshot rec) ∧
    (∀ id, (∀ rec, Attached cs rec → rec.id ≠ id) →
      after (cs ++ [.detach id]) = after cs ∧ after (cs ++ [.kick id]) = after cs) ∧
    (∀ id, ((after cs).kick id).1 = true ↔ ∃ rec, Attached cs rec ∧ rec.id = id) ∧
    ∀ id token, (after (cs ++ [.kick id])).isCancelled token = true ↔
      (after cs).isCancelled token = true ∨
        ∃ rec, Attached cs rec ∧ rec.id = id ∧ rec.kick = token := by
  have hl := ledger_run cs h
  refine ⟨hl.ids_nodup, fun rec hrec rec' hrec' => hl.eq_of_kick hrec hrec', hl.list_nodup,
    fun s => hl.mem_list, fun id hid => ⟨?_, ?_⟩, hl.kick_fst, fun id token => ?_⟩
  · rw [after_snoc]
    exact hl.detach_unknown hid
  · rw [after_snoc, ClientRegistry.call, hl.kick_unknown hid]
  · rw [after_snoc]
    exact hl.isCancelled_kick id token

/-- Two clients, of whom the first leaves before a third one comes. -/
theorem clientRegistry_safe_three :
    (attaches [.attach "a" 0, .attach "b" 1, .detach 1, .attach "c" 2, .kick 2] < 2 ^ 64) ∧
    ((issued [.attach "a" 0, .attach "b" 1, .detach 1, .attach "c" 2, .kick 2]).map
      ClientRecord.id).Nodup :=
  ⟨by decide, (clientRegistry_safe
    [.attach "a" 0, .attach "b" 1, .detach 1, .attach "c" 2, .kick 2] (by decide)).1⟩

/-! ### The registry of the door -/

/-- The registry `d` of a door is what becomes of the registry `r`, whose records are `rs`, when
numbers are unbounded and a record carries the state of its token. -/
structure Represents (r : ClientRegistry) (rs : List ClientRecord) (d : Sshd.ClientRegistry) :
    Prop where
  nextId : d.nextId = r.nextId.toNat
  listed : ∀ id, id ∈ d.listed ↔ ∃ key, r.map.lookup key ≠ none ∧ key.toNat = id
  records : d.records.map (fun c => (c.id, c.remote, c.kicked)) =
    rs.map fun rec => (rec.id.toNat, rec.remote, r.isCancelled rec.kick)

/-- A call on the registry of a door. -/
def doorCall (d : Sshd.ClientRegistry) : Call → Sshd.ClientRegistry
  | .attach remote _ => (d.attach remote).2
  | .detach id => d.detach id.toNat
  | .kick id => (d.kick id.toNat).2
  | _ => d

section Represents

variable {r : ClientRegistry} {rs : List ClientRecord} {held : ClientRecord → Prop}
  {d : Sshd.ClientRegistry}

theorem Represents.attach (h : Represents r rs d) (hl : Ledger r rs held)
    (hb : rs.length + 1 < 2 ^ 64) (remote : String) (now : ℕ) :
    Represents (r.attach remote now).2 (rs ++ [(r.attach remote now).1]) (d.attach remote).2 where
  nextId := by
    change d.nextId + 1 = (r.nextId + 1).toNat
    rw [h.nextId, hl.toNat_succ hb, hl.nextId]
  listed id := by
    change id ∈ d.listed ++ [d.nextId + 1] ↔
      ∃ key, (r.map.insert (r.nextId + 1) _).lookup key ≠ none ∧ _
    have hnext : d.nextId + 1 = (r.nextId + 1).toNat := by
      rw [h.nextId, hl.toNat_succ hb, hl.nextId]
    rw [List.mem_append, h.listed, List.mem_singleton, hnext]
    constructor
    · rintro (⟨key, hkey, rfl⟩ | rfl)
      · refine ⟨key, ?_, rfl⟩
        by_cases hk : key = r.nextId + 1
        · subst hk
          simp
        · rwa [AList.lookup_insert_ne hk]
      · exact ⟨r.nextId + 1, by simp, rfl⟩
    · rintro ⟨key, hkey, rfl⟩
      by_cases hk : key = r.nextId + 1
      · exact Or.inr (congrArg _ hk)
      · rw [AList.lookup_insert_ne hk] at hkey
        exact Or.inl ⟨key, hkey, rfl⟩
  records := by
    change List.map _ (d.records ++ [_]) = List.map _ (rs ++ [r.newRecord remote now])
    rw [List.map_append, List.map_append, h.records]
    have hold : ∀ rec ∈ rs, (r.attach remote now).2.isCancelled rec.kick =
        r.isCancelled rec.kick := fun rec hrec => by
      have hlt := hl.kick_lt hrec
      simp [ClientRegistry.attach, ClientRegistry.isCancelled, List.getD_eq_getElem?_getD,
        List.getElem?_append_left hlt]
    have hnew : (r.attach remote now).2.isCancelled r.cancelled.length = false := by
      simp [ClientRegistry.attach, ClientRegistry.isCancelled]
    refine congrArg₂ _ (List.map_congr_left fun rec hrec => by rw [hold rec hrec]) ?_
    simp [ClientRegistry.newRecord, hnew, h.nextId, hl.toNat_succ hb, hl.nextId]

theorem Represents.detach (h : Represents r rs d) (id : UInt64) :
    Represents (r.detach id) rs (d.detach id.toNat) where
  nextId := h.nextId
  listed id' := by
    change id' ∈ d.listed.filter _ ↔ ∃ key, (r.map.erase id).lookup key ≠ none ∧ _
    rw [List.mem_filter, h.listed]
    constructor
    · rintro ⟨⟨key, hkey, rfl⟩, hne⟩
      have hk : key ≠ id := fun heq => by simp [heq] at hne
      exact ⟨key, by rwa [AList.lookup_erase_ne hk], rfl⟩
    · rintro ⟨key, hkey, rfl⟩
      have hk : key ≠ id := fun heq => hkey (heq ▸ AList.lookup_erase _ _)
      rw [AList.lookup_erase_ne hk] at hkey
      refine ⟨⟨key, hkey, rfl⟩, bne_iff_ne.2 fun heq => hk (UInt64.toNat_inj.1 heq)⟩
  records := h.records

theorem Represents.mem_listed (h : Represents r rs d) (id : UInt64) :
    id.toNat ∈ d.listed ↔ r.map.lookup id ≠ none := by
  rw [h.listed]
  constructor
  · rintro ⟨key, hkey, heq⟩
    exact UInt64.toNat_inj.1 heq ▸ hkey
  · exact fun hkey => ⟨id, hkey, rfl⟩

theorem Represents.kick_fst (h : Represents r rs d) (id : UInt64) :
    (d.kick id.toNat).1 = (r.kick id).1 := by
  unfold Sshd.ClientRegistry.kick ClientRegistry.kick
  cases hlook : r.map.lookup id with
  | none => rw [if_neg (mt (h.mem_listed id).1 (not_not.2 hlook))]
  | some rec => rw [if_pos ((h.mem_listed id).2 (by rw [hlook]; exact nofun))]

theorem Represents.kick (h : Represents r rs d) (hl : Ledger r rs held) (id : UInt64) :
    Represents (r.kick id).2 rs (d.kick id.toNat).2 := by
  cases hlook : r.map.lookup id with
  | none =>
      rw [ClientRegistry.kick, Sshd.ClientRegistry.kick, hlook,
        if_neg (mt (h.mem_listed id).1 (not_not.2 hlook))]
      exact h
  | some rec =>
      obtain ⟨hrec, hid⟩ := (hl.lookup id rec).1 hlook
      rw [Sshd.ClientRegistry.kick, if_pos ((h.mem_listed id).2 (by rw [hlook]; exact nofun))]
      have hkick : (r.kick id).2 = { r with cancelled := r.cancelled.set rec.kick true } := by
        rw [ClientRegistry.kick, hlook]
      refine ⟨?_, ?_, ?_⟩
      · rw [hkick]
        exact h.nextId
      · rw [hkick]
        exact h.listed
      · -- the records of one number are the one whose token has been cancelled
        have hmark : ∀ cs : List Sshd.ClientRecord,
            (cs.map fun c => if c.id = id.toNat then { c with kicked := true } else c).map
              (fun c => (c.id, c.remote, c.kicked)) =
            (cs.map fun c => (c.id, c.remote, c.kicked)).map
              fun p => if p.1 = id.toNat then (p.1, p.2.1, true) else p := by
          intro cs
          rw [List.map_map, List.map_map]
          refine List.map_congr_left fun c _ => ?_
          dsimp only [Function.comp_apply]
          split <;> rfl
        dsimp only
        rw [hmark, h.records, List.map_map]
        refine List.map_congr_left fun rec' hrec' => ?_
        dsimp only [Function.comp_apply]
        split <;> rename_i hn
        · obtain rfl := hl.eq_of_id hrec' (hl.mem rec hrec)
            (by rw [hid]; exact UInt64.toNat_inj.1 hn)
          have hset := (hl.isCancelled_kick id rec'.kick).2 (Or.inr ⟨rec', hrec, hid, rfl⟩)
          rw [hset]
        · have hsame : (r.kick id).2.isCancelled rec'.kick = r.isCancelled rec'.kick := by
            refine Bool.eq_iff_iff.2 ((hl.isCancelled_kick id rec'.kick).trans ⟨?_, Or.inl⟩)
            rintro (hc | ⟨rec'', hrec'', hid'', hk⟩)
            · exact hc
            · obtain rfl := hl.eq_of_kick (hl.mem rec'' hrec'') hrec' hk
              exact absurd (congrArg UInt64.toNat hid'') hn
          rw [hsame]

/-- **The registry of the door is this one**, over all calls while the numbers last. -/
theorem represents_run (cs : List Call) (h : attaches cs < 2 ^ 64) :
    Represents (after cs) (issued cs) (cs.foldl doorCall Sshd.ClientRegistry.new) := by
  induction cs using List.reverseRecOn with
  | nil =>
      refine ⟨rfl, fun id => ?_, rfl⟩
      rw [after, run, List.foldl_nil, ClientRegistry.new]
      simp [Sshd.ClientRegistry.new, AList.lookup_empty]
  | append_singleton cs c ih =>
      rw [attaches_snoc] at h
      have hb : attaches cs < 2 ^ 64 := by omega
      have hl := ledger_run cs hb
      rw [List.foldl_concat, after_snoc, issued_snoc]
      cases c with
      | attach remote now =>
          refine (ih hb).attach hl ?_ remote now
          rw [length_issued]
          exact h
      | detach id =>
          rw [returned_eq_nil rfl, List.append_nil]
          exact (ih hb).detach id
      | kick id =>
          rw [returned_eq_nil rfl, List.append_nil]
          exact (ih hb).kick hl id
      | list =>
          rw [returned_eq_nil rfl, List.append_nil]
          exact ih hb
      | fetchAdd counter n =>
          rw [returned_eq_nil rfl, List.append_nil]
          exact ⟨(ih hb).nextId, (ih hb).listed, (ih hb).records⟩

end Represents

end Clients

end TermHub
