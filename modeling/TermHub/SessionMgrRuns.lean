/-
**The session manager is a case-insensitive map.**

After any calls the manager holds, for each user name, the entry that has been registered last
under a name that differs from it in the case of ASCII letters only, unless such a name has been
unregistered since.  The keys of the manager are normal forms of the names, so it is an instance of
`ClassMap`.

Main definitions: `ValidName`, `userNames`, `MgrCall`, `SessionMgr.call`, `SessionMgr.after`,
`LastRegistered`.

Main results:

* `normalForm_normalizeName` — normalizing is injective on the classes of valid names;
* `SessionMgr.toMap_call` — **the manager simulates the abstract map**, call by call;
* `SessionMgr.keyed_after` — each entry stands under the key of its own name;
* `sessionMgr_refines` — **the manager refines a case-insensitive map**, over all calls.
-/

import TermHub.ClassMap
import TermHub.SessionMgr

set_option relaxedAutoImplicit false
set_option autoImplicit false

namespace TermHub

/-! ### User names -/

/-- `[a-zA-Z0-9._-]+`. -/
def ValidName (s : String) : Prop := s.toList ≠ [] ∧ ∀ c ∈ s.toList, isNameChar c = true

instance (s : String) : Decidable (ValidName s) :=
  haveI : Decidable (∀ c ∈ s.toList, isNameChar c = true) := List.decidableBAll _ _
  inferInstanceAs (Decidable (_ ∧ _))

theorem isNameChar_of_isAlpha {c : Char} (h : c.isAlpha = true) : isNameChar c = true := by
  simp [isNameChar, Char.isAlphanum, h]

/-- Making a letter small does not decide whether it may stand in a name. -/
theorem isNameChar_toLower (c : Char) : isNameChar c.toLower = isNameChar c := by
  unfold Char.toLower
  split
  · rename_i h
    have hupper : c.isUpper = true := decide_eq_true h
    have hlower : 'a'.val ≤ c.val + ('a'.val - 'A'.val) ∧
        c.val + ('a'.val - 'A'.val) ≤ 'z'.val := by
      simp only [ge_iff_le, UInt32.le_iff_toNat_le, UInt32.toNat_add] at h ⊢
      simp only [Char.reduceVal, UInt32.reduceToNat, UInt32.reduceSub] at h ⊢
      omega
    have hbig : c.isAlpha = true := Bool.or_eq_true_iff.2 (.inl hupper)
    rw [isNameChar_of_isAlpha hbig]
    refine isNameChar_of_isAlpha (Bool.or_eq_true_iff.2 (.inr ?_))
    exact Bool.and_eq_true_iff.2 ⟨decide_eq_true hlower.1, decide_eq_true hlower.2⟩
  · rfl

/-- Equal up to case are the names whose letters are, one by one. -/
theorem eqIgnoreAsciiCase_iff {s t : String} : eqIgnoreAsciiCase s t = true ↔
    s.toList.map Char.toLower = t.toList.map Char.toLower := by
  rw [eqIgnoreAsciiCase, beq_iff_eq, toAsciiLowercase, toAsciiLowercase, String.ofList_inj]

theorem validName_iff {s : String} : ValidName s ↔
    s.toList.map Char.toLower ≠ [] ∧
      ∀ c ∈ s.toList.map Char.toLower, isNameChar c = true := by
  simp [ValidName, isNameChar_toLower]

/-- User names up to the case of ASCII letters. -/
def userNames : ClassMap.Naming String where
  Same s t := eqIgnoreAsciiCase s t = true
  equivalence :=
    { refl := fun _ => eqIgnoreAsciiCase_iff.2 rfl
      symm := fun h => eqIgnoreAsciiCase_iff.2 (eqIgnoreAsciiCase_iff.1 h).symm
      trans := fun h h' => eqIgnoreAsciiCase_iff.2
        ((eqIgnoreAsciiCase_iff.1 h).trans (eqIgnoreAsciiCase_iff.1 h')) }
  Valid := ValidName
  valid_of_same h hs := by
    rw [eqIgnoreAsciiCase_iff] at h
    rw [validName_iff] at hs ⊢
    exact h ▸ hs

theorem normalizeName_of_valid {s : String} (h : ValidName s) :
    normalizeName s = some (toAsciiLowercase s) := by
  rw [normalizeName, if_neg (by simpa using h.1), if_neg (by simpa using h.2)]

theorem normalizeName_of_not_valid {s : String} (h : ¬ValidName s) : normalizeName s = none := by
  unfold normalizeName
  split
  · rfl
  · rename_i hne
    split
    · rfl
    · rename_i hall
      exact absurd ⟨by simpa using hne, by simpa using hall⟩ h

/-- **Normalizing is injective on the classes of valid names**, and refuses all other strings. -/
theorem normalForm_normalizeName : userNames.NormalForm normalizeName where
  isSome_iff s := by
    constructor
    · intro h
      by_contra hs
      rw [normalizeName_of_not_valid hs] at h
      cases h
    · intro h
      rw [normalizeName_of_valid h, Option.isSome_some]
  eq_iff {s t} hs := by
    constructor
    · intro h
      rw [normalizeName_of_valid hs] at h
      exact beq_iff_eq.2 (normalizeName_eq_some h.symm)
    · intro h
      rw [normalizeName_of_valid hs, normalizeName_of_valid (userNames.valid_of_same h hs),
        beq_iff_eq.1 h]

/-! ### Calls on a manager -/

/-- A call on a manager. -/
inductive MgrCall
  | register (e : SessionEntry)
  | unregister (name : String)
  | get (name : String)
  | authenticate (name password : String)
  | list
  deriving DecidableEq, Repr

/-- What a call returns. -/
inductive MgrReply
  | registered (r : Except String Unit)
  | entry (e : Option SessionEntry)
  | entries (es : List SessionEntry)

namespace SessionMgr

/-- A call is one critical section: it returns something and leaves a manager. -/
def call (mgr : SessionMgr) : MgrCall → MgrReply × SessionMgr
  | .register e => match mgr.register e with
    | .ok mgr' => (.registered (.ok ()), mgr')
    | .error msg => (.registered (.error msg), mgr)
  | .unregister name => (.entry (mgr.unregister name).1, (mgr.unregister name).2)
  | .get name => (.entry (mgr.get name), mgr)
  | .authenticate name password => (.entry (mgr.authenticate name password), mgr)
  | .list => (.entries mgr.list, mgr)

/-- A new manager after some calls. -/
def after (cs : List MgrCall) : SessionMgr := cs.foldl (fun mgr c => (mgr.call c).2) new

theorem after_snoc (cs : List MgrCall) (c : MgrCall) :
    after (cs ++ [c]) = ((after cs).call c).2 := List.foldl_concat ..

end SessionMgr

/-! ### The map that a manager stands for -/

/-- What a call asks of the abstract map. -/
def MgrCall.toCall : MgrCall → ClassMap.Call String SessionEntry
  | .register e => .enter e.name e
  | .unregister name => .leave name
  | _ => .read

@[simp] theorem MgrCall.toCall_eq_enter {c : MgrCall} {name : String} {e : SessionEntry} :
    c.toCall = .enter name e ↔ c = .register e ∧ e.name = name := by
  cases c with
  | register e' =>
      simp only [toCall, ClassMap.Call.enter.injEq, register.injEq]
      constructor
      · rintro ⟨hname, rfl⟩
        exact ⟨rfl, hname⟩
      · rintro ⟨rfl, hname⟩
        exact ⟨hname, rfl⟩
  | _ => simp [toCall]

@[simp] theorem MgrCall.toCall_eq_leave {c : MgrCall} {name : String} :
    c.toCall = .leave name ↔ c = .unregister name := by
  cases c <;> simp [toCall]

namespace SessionMgr

variable {mgr : SessionMgr} {e : SessionEntry} {name : String}

/-- The abstract map of a manager. -/
def toMap (mgr : SessionMgr) : ClassMap.Map userNames SessionEntry :=
  ClassMap.toMap normalForm_normalizeName mgr

theorem toMap_get : mgr.toMap.get name = mgr.get name := rfl

/-- Which registrations succeed, and what they leave. -/
theorem register_eq_ok {mgr' : SessionMgr} : mgr.register e = .ok mgr' ↔
    ValidName e.name ∧ mgr.get e.name = none ∧
      mgr' = mgr.insert (toAsciiLowercase e.name) e := by
  unfold register get
  by_cases hv : ValidName e.name
  · rw [normalizeName_of_valid hv, Option.bind_some]
    dsimp only
    cases hl : mgr.lookup (toAsciiLowercase e.name) with
    | none => simp [hv, eq_comm]
    | some e' => simp
  · rw [normalizeName_of_not_valid hv]
    simp [hv]

theorem register_error_iff : (∃ msg, mgr.register e = .error msg) ↔
    ¬ValidName e.name ∨ ∃ e', mgr.get e.name = some e' := by
  rw [← not_iff_not, not_or, not_not]
  have hget : (¬∃ e', mgr.get e.name = some e') ↔ mgr.get e.name = none := by
    rw [Option.eq_none_iff_forall_ne_some, not_exists]
  rw [hget]
  constructor
  · intro h
    cases hr : mgr.register e with
    | error msg => exact absurd ⟨msg, hr⟩ h
    | ok mgr' =>
        obtain ⟨hv, hfree, -⟩ := register_eq_ok.1 hr
        exact ⟨hv, hfree⟩
  · rintro ⟨hv, hfree⟩ ⟨msg, hr⟩
    rw [register_eq_ok.2 ⟨hv, hfree, rfl⟩] at hr
    cases hr

theorem call_register : (mgr.call (.register e)).2 =
    ClassMap.enter normalizeName mgr e.name e := by
  unfold call register ClassMap.enter
  dsimp only
  cases normalizeName e.name with
  | none => rfl
  | some key =>
      dsimp only
      cases (mgr.lookup key).isSome with
      | false => rfl
      | true => rfl

theorem unregister_snd : (mgr.unregister name).2 = ClassMap.leave normalizeName mgr name := by
  unfold unregister ClassMap.leave
  cases normalizeName name with
  | none => rfl
  | some key => rfl

/-- **The manager simulates the abstract map**, call by call. -/
theorem toMap_call (mgr : SessionMgr) (c : MgrCall) :
    (mgr.call c).2.toMap = mgr.toMap.call c.toCall := by
  cases c with
  | register e =>
      rw [call_register]
      exact ClassMap.toMap_enter _ mgr e.name e
  | unregister name =>
      change SessionMgr.toMap (mgr.unregister name).2 = _
      rw [unregister_snd]
      exact ClassMap.toMap_leave _ mgr name
  | get name => rfl
  | authenticate name password => rfl
  | list => rfl

/-- The manager after some calls stands for the map after what they ask of it. -/
theorem toMap_after (cs : List MgrCall) :
    (after cs).toMap = ClassMap.Map.run (cs.map MgrCall.toCall) := by
  induction cs using List.reverseRecOn with
  | nil => exact ClassMap.toMap_empty _
  | append_singleton cs c ih =>
      rw [after_snoc, toMap_call, ih, List.map_append, List.map_singleton, ClassMap.Map.run_snoc]

theorem run_get (cs : List MgrCall) (name : String) :
    (ClassMap.Map.run (N := userNames) (cs.map MgrCall.toCall)).get name =
      (after cs).get name := by
  rw [← toMap_after, toMap_get]

end SessionMgr

/-! ### The entry under a name -/

/-- The entry that a successful call of `register` has left last under a name that is equal to
`name` up to the case of ASCII letters: no such name has been unregistered since, and all later
registrations under such a name have failed. -/
def LastRegistered (cs : List MgrCall) (name : String) (e : SessionEntry) : Prop :=
  ∃ pre post, cs = pre ++ .register e :: post ∧
    (∃ mgr, (SessionMgr.after pre).register e = .ok mgr) ∧
    eqIgnoreAsciiCase e.name name = true ∧
    (∀ n, .unregister n ∈ post → eqIgnoreAsciiCase n name = false) ∧
    ∀ pre' e' post', post = pre' ++ .register e' :: post' →
      eqIgnoreAsciiCase e'.name name = true →
        ∃ msg, (SessionMgr.after (pre ++ .register e :: pre')).register e' = .error msg

theorem lastRegistered_iff {cs : List MgrCall} {name : String} {e : SessionEntry} :
    LastRegistered cs name e ↔
      ClassMap.Current userNames (cs.map MgrCall.toCall) name e := by
  constructor
  · rintro ⟨pre, post, rfl, ⟨mgr, hreg⟩, hsame, hleft, hlast⟩
    obtain ⟨hv, hfree, -⟩ := SessionMgr.register_eq_ok.1 hreg
    refine ⟨pre.map MgrCall.toCall, e.name, post.map MgrCall.toCall, by simp [MgrCall.toCall],
      hv, by rw [SessionMgr.run_get, hfree], hsame, ?_, ?_⟩
    · intro l hl hln
      obtain ⟨c, hc, hcl⟩ := List.mem_map.1 hl
      rw [MgrCall.toCall_eq_leave] at hcl
      exact Bool.false_ne_true ((hleft l (hcl ▸ hc)).symm.trans hln)
    · intro pre' a' e' post' hpost hsame' hnone
      obtain ⟨p, q, rfl, rfl, hq⟩ := List.map_eq_append_iff.1 hpost
      obtain ⟨c, r, rfl, hc, -⟩ := List.map_eq_cons_iff.1 hq
      obtain ⟨rfl, rfl⟩ := MgrCall.toCall_eq_enter.1 hc
      obtain ⟨msg, herr⟩ := hlast p e' r rfl hsame'
      have hrun : pre.map MgrCall.toCall ++ .enter e.name e :: p.map MgrCall.toCall =
          (pre ++ .register e :: p).map MgrCall.toCall := by simp [MgrCall.toCall]
      rw [hrun, SessionMgr.run_get] at hnone
      rcases SessionMgr.register_error_iff.1 ⟨msg, herr⟩ with hv' | ⟨e₀, he₀⟩
      · exact hv' (userNames.valid_of_same
          (userNames.equivalence.trans hsame (userNames.equivalence.symm hsame')) hv)
      · rw [hnone] at he₀
        cases he₀
  · rintro ⟨pre', a, post', hcs, hv, hfree, hsame, hleft, hlast⟩
    obtain ⟨pre, q, rfl, rfl, hq⟩ := List.map_eq_append_iff.1 hcs
    obtain ⟨c, post, rfl, hc, rfl⟩ := List.map_eq_cons_iff.1 hq
    obtain ⟨rfl, rfl⟩ := MgrCall.toCall_eq_enter.1 hc
    rw [SessionMgr.run_get] at hfree
    refine ⟨pre, post, rfl, ⟨_, SessionMgr.register_eq_ok.2 ⟨hv, hfree, rfl⟩⟩, hsame, ?_, ?_⟩
    · intro n hn
      refine Bool.eq_false_iff.2 (hleft n (List.mem_map.2 ⟨_, hn, rfl⟩))
    · rintro p e' r rfl hsame'
      have hne := hlast (p.map MgrCall.toCall) e'.name e' (r.map MgrCall.toCall)
        (by simp [MgrCall.toCall]) hsame'
      have hrun : pre.map MgrCall.toCall ++ .enter e.name e :: p.map MgrCall.toCall =
          (pre ++ .register e :: p).map MgrCall.toCall := by simp [MgrCall.toCall]
      rw [hrun, SessionMgr.run_get] at hne
      exact SessionMgr.register_error_iff.2 (Or.inr (Option.ne_none_iff_exists'.1 hne))

/-! ### The entries -/

namespace SessionMgr

/-- Each entry stands under the key of its own name. -/
def Keyed (mgr : SessionMgr) : Prop :=
  ∀ key e, mgr.lookup key = some e → normalizeName e.name = some key

theorem Keyed.insert {mgr : SessionMgr} (h : mgr.Keyed) {key : String} {e : SessionEntry}
    (hkey : normalizeName e.name = some key) : SessionMgr.Keyed (mgr.insert key e) := by
  intro key' e' hl
  by_cases hk : key' = key
  · subst hk
    rw [AList.lookup_insert, Option.some_inj] at hl
    exact hl ▸ hkey
  · rw [AList.lookup_insert_ne hk] at hl
    exact h key' e' hl

theorem Keyed.erase {mgr : SessionMgr} (h : mgr.Keyed) (key : String) :
    SessionMgr.Keyed (mgr.erase key) := by
  intro key' e' hl
  by_cases hk : key' = key
  · subst hk
    rw [AList.lookup_erase] at hl
    cases hl
  · rw [AList.lookup_erase_ne hk] at hl
    exact h key' e' hl

theorem Keyed.call {mgr : SessionMgr} (h : mgr.Keyed) (c : MgrCall) : (mgr.call c).2.Keyed := by
  cases c with
  | register e =>
      rw [call_register]
      unfold ClassMap.enter
      cases hk : normalizeName e.name with
      | none => exact h
      | some key =>
          dsimp only
          split
          · exact h
          · exact h.insert hk
  | unregister name =>
      change SessionMgr.Keyed (mgr.unregister name).2
      unfold unregister
      cases normalizeName name with
      | none => exact h
      | some key => exact h.erase key
  | get name => exact h
  | authenticate name password => exact h
  | list => exact h

/-- **Each entry stands under the key of its own name**, after any calls. -/
theorem keyed_after (cs : List MgrCall) : (after cs).Keyed := by
  induction cs using List.reverseRecOn with
  | nil => exact fun key e hl => by cases hl
  | append_singleton cs c ih =>
      rw [after_snoc]
      exact ih.call c

/-- The entries of a keyed manager are listed once each. -/
theorem Keyed.nodup_list {mgr : SessionMgr} (h : mgr.Keyed) : mgr.list.Nodup := by
  refine List.Nodup.map_on ?_ mgr.nodupKeys.nodup
  rintro ⟨key, e⟩ he ⟨key', e'⟩ he' (rfl : e = e')
  have hk := h key e (AList.mem_lookup_iff.2 he)
  have hk' := h key' e (AList.mem_lookup_iff.2 he')
  rw [hk, Option.some_inj] at hk'
  rw [hk']

theorem Keyed.mem_list {mgr : SessionMgr} (h : mgr.Keyed) {e : SessionEntry} :
    e ∈ mgr.list ↔ ∃ name, mgr.get name = some e := by
  constructor
  · intro he
    obtain ⟨⟨key, e'⟩, hmem, rfl⟩ := List.mem_map.1 he
    have hl : mgr.lookup key = some e' := AList.mem_lookup_iff.2 hmem
    exact ⟨e'.name, by rw [get, h key e' hl, Option.bind_some, hl]⟩
  · rintro ⟨name, hget⟩
    obtain ⟨key, -, hl⟩ := Option.bind_eq_some_iff.1 hget
    exact List.mem_map.2 ⟨⟨key, e⟩, AList.mem_lookup_iff.1 hl, rfl⟩

theorem get_unregister (mgr : SessionMgr) (name n : String) :
    (mgr.unregister name).2.get n =
      if eqIgnoreAsciiCase name n then none else mgr.get n := by
  have h := congrArg (fun m => m.get n)
    (ClassMap.toMap_leave normalForm_normalizeName mgr name)
  rw [← unregister_snd] at h
  change SessionMgr.get (mgr.unregister name).2 n = _ at h
  rw [h]
  unfold ClassMap.Map.leave
  dsimp only
  split <;> rename_i hs
  · exact (if_pos hs).symm
  · exact (if_neg hs).symm

theorem unregister_fst (mgr : SessionMgr) (name : String) :
    (mgr.unregister name).1 = mgr.get name := by
  unfold unregister get
  cases normalizeName name with
  | none => rfl
  | some key => rfl

end SessionMgr

/-- **The manager refines a case-insensitive map**: after any calls it holds the entries that have
been registered last and not unregistered since, each call returns what that map says, and only
successful registrations and removals change it. -/
theorem sessionMgr_refines (cs : List MgrCall) :
    (∀ name e, (SessionMgr.after cs).get name = some e ↔ LastRegistered cs name e) ∧
    (∀ name, ¬ValidName name → (SessionMgr.after cs).get name = none) ∧
    (∀ e, ((∃ msg, (SessionMgr.after cs).register e = .error msg) ↔
        ¬ValidName e.name ∨ ∃ e', (SessionMgr.after cs).get e.name = some e') ∧
      ∀ msg, (SessionMgr.after cs).register e = .error msg →
        SessionMgr.after (cs ++ [.register e]) = SessionMgr.after cs) ∧
    (∀ name, ((SessionMgr.after cs).unregister name).1 = (SessionMgr.after cs).get name ∧
      ∀ n, (SessionMgr.after (cs ++ [.unregister name])).get n =
        if eqIgnoreAsciiCase name n then none else (SessionMgr.after cs).get n) ∧
    (∀ name password e, (SessionMgr.after cs).authenticate name password = some e ↔
      (SessionMgr.after cs).get name = some e ∧ asBytes e.password = asBytes password) ∧
    (∀ a b, constantTimeEq a b = true ↔ a = b) ∧
    (SessionMgr.after cs).list.Nodup ∧
    ∀ e, e ∈ (SessionMgr.after cs).list ↔ ∃ name, (SessionMgr.after cs).get name = some e := by
  refine ⟨fun name e => ?_, fun name hv => ?_, fun e => ⟨SessionMgr.register_error_iff, ?_⟩,
    fun name => ⟨SessionMgr.unregister_fst _ name, fun n => ?_⟩,
    fun name password e => SessionMgr.authenticate_eq_some, constantTimeEq_iff,
    (SessionMgr.keyed_after cs).nodup_list, fun e => (SessionMgr.keyed_after cs).mem_list⟩
  · rw [lastRegistered_iff, ← ClassMap.Map.run_get_iff, SessionMgr.run_get]
  · exact (SessionMgr.after cs).toMap.get_of_not_valid hv
  · intro msg herr
    rw [SessionMgr.after_snoc, SessionMgr.call, herr]
  · rw [SessionMgr.after_snoc]
    exact SessionMgr.get_unregister _ name n

end TermHub
