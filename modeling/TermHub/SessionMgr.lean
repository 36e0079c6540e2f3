/-
**The session manager: user names, passwords and hubs.**

`termhub-core/src/session_mgr.rs`.  A manager maps lower-case user names to session entries; a
connection is let in when the manager finds an entry for its user name and the password is the
entry's.

Main definitions: `normalizeName`, `SessionEntry`, `SessionMgr`, `SessionMgr.register`,
`SessionMgr.unregister`, `SessionMgr.get`, `SessionMgr.list`, `constantTimeEq`,
`SessionMgr.authenticate`.

Main results:

* `constantTimeEq_iff` — the comparison decides equality of byte strings;
* `SessionMgr.register_new` — registering in an empty manager fails exactly on an invalid name.
-/

import Mathlib.Data.List.AList
import TermHub.Persist

set_option relaxedAutoImplicit false
set_option autoImplicit false

namespace TermHub

/-- The name of a cancellation token. -/
abbrev Token := ℕ

/-- The names of the objects that are shared by cloning a handle: a hub, a status watch, a client
registry. -/
abbrev HubHandle := ℕ
@[inherit_doc HubHandle] abbrev StatusRx := ℕ
@[inherit_doc HubHandle] abbrev ClientRegistryId := ℕ

/-! ### Names -/

/-- A character that may occur in a session name: `[a-zA-Z0-9._-]`. -/
def isNameChar (c : Char) : Bool := c.isAlphanum || c == '.' || c == '_' || c == '-'

/-- `normalize_name`: the map key of a name, if the name is not empty and has only allowed
characters. -/
def normalizeName (s : String) : Option String :=
  if s.toList.isEmpty then none
  else if !s.toList.all isNameChar then none
  else some (toAsciiLowercase s)

theorem normalizeName_eq_some {s k : String} (h : normalizeName s = some k) :
    k = toAsciiLowercase s := by
  unfold normalizeName at h
  split at h
  · cases h
  · split at h
    · cases h
    · exact (Option.some_inj.1 h).symm

/-! ### Entries and the manager -/

/-- What a connection that has been let in gets to hold. -/
structure SessionEntry where
  name : String
  password : String
  hub : HubHandle
  status : StatusRx
  cancel : Token
  clients : ClientRegistryId
  deriving DecidableEq, Repr

/-- The manager: session entries by normalized name. -/
abbrev SessionMgr := AList (fun _ : String => SessionEntry)

namespace SessionMgr

/-- `SessionMgr::new`. -/
def new : SessionMgr := ∅

/-- `SessionMgr::register`. -/
def register (mgr : SessionMgr) (e : SessionEntry) : Except String SessionMgr :=
  match normalizeName e.name with
  | none => .error "invalid session name"
  | some key =>
    if (mgr.lookup key).isSome then .error "session already exists"
    else .ok (mgr.insert key e)

/-- `SessionMgr::unregister`: the entry that has been removed, if there was one. -/
def unregister (mgr : SessionMgr) (name : String) : Option SessionEntry × SessionMgr :=
  match normalizeName name with
  | none => (none, mgr)
  | some key => (mgr.lookup key, mgr.erase key)

/-- `SessionMgr::list`. -/
def list (mgr : SessionMgr) : List SessionEntry := mgr.entries.map Sigma.snd

/-- `SessionMgr::get`. -/
def get (mgr : SessionMgr) (name : String) : Option SessionEntry :=
  (normalizeName name).bind fun key => mgr.lookup key

end SessionMgr

/-- `constant_time_eq`: the lengths are compared first, then all bytes are folded together. -/
def constantTimeEq (a b : List UInt8) : Bool :=
  if a.length ≠ b.length then false
  else (a.zip b).foldl (fun diff p => diff ||| (p.1 ^^^ p.2)) 0 == 0

/-- `SessionMgr::authenticate`. -/
def SessionMgr.authenticate (mgr : SessionMgr) (name password : String) : Option SessionEntry :=
  (mgr.get name).bind fun entry =>
    if constantTimeEq (asBytes entry.password) (asBytes password) then some entry else none

/-! ### The comparison -/

/-- The fold is zero exactly when it started at zero and no pair differs. -/
theorem foldl_diff_eq_zero (l : List (UInt8 × UInt8)) (d : UInt8) :
    l.foldl (fun diff p => diff ||| (p.1 ^^^ p.2)) d = 0 ↔ d = 0 ∧ ∀ p ∈ l, p.1 = p.2 := by
  induction l generalizing d with
  | nil => simp
  | cons p l ih =>
      rw [List.foldl_cons, ih, UInt8.or_eq_zero_iff, UInt8.xor_eq_zero_iff, List.forall_mem_cons,
        and_assoc]

theorem eq_of_zip_eq {l l' : List UInt8} (hlen : l.length = l'.length)
    (h : ∀ p ∈ l.zip l', p.1 = p.2) : l = l' := by
  induction l generalizing l' with
  | nil => exact (List.length_eq_zero_iff.1 hlen.symm).symm
  | cons x l ih =>
      cases l' with
      | nil => simp at hlen
      | cons y l' =>
          rw [List.zip_cons_cons, List.forall_mem_cons] at h
          obtain rfl : x = y := h.1
          rw [ih (by simpa using hlen) h.2]

/-- **The comparison decides equality of byte strings**, whatever their lengths. -/
theorem constantTimeEq_iff (a b : List UInt8) : constantTimeEq a b = true ↔ a = b := by
  unfold constantTimeEq
  constructor
  · intro h
    split at h
    · cases h
    · rename_i hlen
      rw [beq_iff_eq, foldl_diff_eq_zero] at h
      exact eq_of_zip_eq (not_not.1 hlen) h.2
  · rintro rfl
    rw [if_neg (by simp), beq_iff_eq, foldl_diff_eq_zero]
    refine ⟨rfl, fun p hp => ?_⟩
    obtain ⟨i, hi, rfl⟩ := List.getElem_of_mem hp
    simp

theorem SessionMgr.authenticate_eq_some {mgr : SessionMgr} {name password : String}
    {e : SessionEntry} : mgr.authenticate name password = some e ↔
      mgr.get name = some e ∧ asBytes e.password = asBytes password := by
  unfold SessionMgr.authenticate
  constructor
  · intro h
    obtain ⟨e', he', h⟩ := Option.bind_eq_some_iff.1 h
    split at h
    · rename_i heq
      obtain rfl : e' = e := Option.some_inj.1 h
      exact ⟨he', (constantTimeEq_iff _ _).1 heq⟩
    · cases h
  · rintro ⟨hget, heq⟩
    rw [hget, Option.bind_some, if_pos ((constantTimeEq_iff _ _).2 heq)]

/-! ### Registering in a fresh manager -/

/-- **In a fresh manager only the name can be refused.** -/
theorem SessionMgr.register_new (e : SessionEntry) :
    SessionMgr.new.register e = match normalizeName e.name with
      | none => .error "invalid session name"
      | some key => .ok (AList.insert key e ∅) := by
  unfold SessionMgr.register SessionMgr.new
  cases normalizeName e.name with
  | none => rfl
  | some key => simp [AList.lookup_empty]

/-- The session that has been registered in a fresh manager can be logged in to. -/
theorem SessionMgr.authenticate_new {e : SessionEntry} {mgr : SessionMgr}
    (h : SessionMgr.new.register e = .ok mgr) : mgr.authenticate e.name e.password = some e := by
  rw [register_new] at h
  rw [authenticate_eq_some]
  refine ⟨?_, rfl⟩
  cases hk : normalizeName e.name with
  | none => simp [hk] at h
  | some key =>
      rw [hk] at h
      cases h
      rw [SessionMgr.get, hk, Option.bind_some, AList.lookup_insert]

end TermHub
