/-
**Saves that run at the same time.**

`save` of `termhub-core/src/persist.rs` again, now one system call at a time: `fs::write` opens
`config.toml.tmp`, which truncates it, and writes the text in one or more pieces through a handle of
its own; then the file is renamed.  `persist_now` holds a read lock only, so any number of saves may
be under way, and all of them use the same name.

Main definitions:

* `Saver`, `Dir`, `saveStep` — the saves under way, the directory, and one system call;
* `Sound` — `config.toml` is complete, and no save fails without a fault;
* `Apart` — a save opens the temporary file only when no other save has it open;
* `Dir.Safe` — what every run of saves that stay apart keeps;
* `Dir.Doomed` — what every run without a fault keeps after two saves have met.

Main results:

* `alone_save` — a save on its own does what `save` does;
* `sound_of_apart`, `apart_of_sound` — saves are sound if, and once all of them have come to their
  ends only if, they stay apart;
* `concurrentSaves_sound` — **both, for the runs from any directory**.
-/

import Mathlib.Algebra.GroupWithZero.Nat
import TermHub.Persist
import TermHub.Transition

set_option relaxedAutoImplicit false
set_option autoImplicit false

namespace TermHub

namespace Saves

open Transition

/-! ### System calls -/

/-- `write` through a handle that stands at `off`; a gap is filled with zeros. -/
def writeAt (i off : ℕ) (d : Document) (fs : Fs) : Fs :=
  { fs with inodes := fs.inodes.modify i fun old =>
      old.take off ++ List.replicate (off - old.length) 0 ++ d ++ old.drop (off + d.length) }

/-- How far a save is: about to open the temporary file, with a handle on an inode through which a
part of the text has been written, or back. -/
inductive Phase
  | ready
  | writing (inode off : ℕ)
  | returned (r : Except String Unit)

/-- A save of a text; `faulted` tells that one of its own steps has met a fault. -/
structure Saver where
  text : Document
  phase : Phase
  faulted : Bool

/-- The configuration directory with the saves that have begun. -/
structure Dir where
  fs : Fs
  savers : List Saver

/-- What can happen. -/
inductive SaveAct
  | start (text : Document)
  | create (i : ℕ)
  /-- The next `n` bytes. -/
  | write (i n : ℕ)
  | rename (i : ℕ)
  /-- The operating system refuses a step. -/
  | fault (i : ℕ) (e : String)
  deriving DecidableEq, Repr

/-- The save `i` is as given. -/
def Dir.update (d : Dir) (i : ℕ) (s : Saver) (fs : Fs) : Dir := ⟨fs, d.savers.set i s⟩

/-- The step of an action. -/
def saveStep (d : Dir) : SaveAct → Option Dir
  | .start text => some { d with savers := d.savers ++ [⟨text, .ready, false⟩] }
  | .create i =>
    match d.savers[i]? with
    | some ⟨text, .ready, f⟩ =>
      some (d.update i ⟨text, .writing d.fs.createTmp.1 0, f⟩ d.fs.createTmp.2)
    | _ => none
  | .write i n =>
    match d.savers[i]? with
    | some ⟨text, .writing inode off, f⟩ =>
      if 0 < n ∧ off + n ≤ text.length then
        some (d.update i ⟨text, .writing inode (off + n), f⟩
          (writeAt inode off ((text.drop off).take n) d.fs))
      else none
    | _ => none
  | .rename i =>
    match d.savers[i]? with
    | some ⟨text, .writing _ off, f⟩ =>
      if off = text.length then
        some (d.update i ⟨text, .returned d.fs.renameTmp.1, f⟩ d.fs.renameTmp.2)
      else none
    | _ => none
  | .fault i e =>
    match d.savers[i]? with
    | some ⟨_, .returned _, _⟩ => none
    | some ⟨text, _, _⟩ => some (d.update i ⟨text, .returned (.error e), true⟩ d.fs)
    | none => none

/-- The save has the temporary file open, or has written it. -/
def Saver.isWriting (s : Saver) : Bool :=
  match s.phase with
  | .writing _ _ => true
  | _ => false

/-- The save has come to its end. -/
def Saver.isReturned (s : Saver) : Bool :=
  match s.phase with
  | .returned _ => true
  | _ => false

/-! ### What is wanted -/

/-- **The file is not corrupted**: `config.toml` is absent, as it was at the start, or the complete
text of one of the saves; and a save that has met no fault returns `Ok`. -/
structure Sound (fs₀ : Fs) (d : Dir) : Prop where
  intact : d.fs.readConfig = none ∨ d.fs.readConfig = fs₀.readConfig ∨
    ∃ s ∈ d.savers, d.fs.readConfig = some s.text
  no_failure : ∀ s ∈ d.savers, ∀ e, s.phase = .returned (.error e) → s.faulted = true

/-- A save opens the temporary file only when no other save has it open. -/
def Apart (d : Dir) : SaveAct → Prop
  | .create _ => ∀ s ∈ d.savers, s.isWriting = false
  | _ => True

instance (d : Dir) : (a : SaveAct) → Decidable (Apart d a)
  | .create _ => inferInstanceAs (Decidable (∀ s ∈ d.savers, s.isWriting = false))
  | .start _ | .write _ _ | .rename _ | .fault _ _ => .isTrue trivial

/-- The names of the directory refer to inodes there are, and to different ones. -/
structure FsOk (fs : Fs) : Prop where
  config : ∀ i, fs.configToml = some i → i < fs.inodes.length
  tmp : ∀ i, fs.configTomlTmp = some i → i < fs.inodes.length
  distinct : ∀ i, fs.configToml = some i → fs.configTomlTmp ≠ some i

/-- An empty directory. -/
theorem fsOk_empty : FsOk Fs.empty where
  config i hi := by cases hi
  tmp i hi := by cases hi
  distinct i hi := by cases hi

/-! ### The cases of a step -/

theorem saveStep_create {d t : Dir} {i : ℕ} (h : saveStep d (.create i) = some t) :
    ∃ text f, d.savers[i]? = some ⟨text, .ready, f⟩ ∧
      t = d.update i ⟨text, .writing d.fs.createTmp.1 0, f⟩ d.fs.createTmp.2 := by
  simp only [saveStep] at h
  split at h
  · rename_i text f hs
    exact ⟨text, f, hs, (Option.some_inj.1 h).symm⟩
  · cases h

theorem saveStep_write {d t : Dir} {i n : ℕ} (h : saveStep d (.write i n) = some t) :
    ∃ text inode off f, d.savers[i]? = some ⟨text, .writing inode off, f⟩ ∧
      off + n ≤ text.length ∧ t = d.update i ⟨text, .writing inode (off + n), f⟩
        (writeAt inode off ((text.drop off).take n) d.fs) := by
  simp only [saveStep] at h
  split at h
  · rename_i text inode off f hs
    split at h
    · rename_i hn
      exact ⟨text, inode, off, f, hs, hn.2, (Option.some_inj.1 h).symm⟩
    · cases h
  · cases h

theorem saveStep_rename {d t : Dir} {i : ℕ} (h : saveStep d (.rename i) = some t) :
    ∃ text inode f, d.savers[i]? = some ⟨text, .writing inode text.length, f⟩ ∧
      t = d.update i ⟨text, .returned d.fs.renameTmp.1, f⟩ d.fs.renameTmp.2 := by
  simp only [saveStep] at h
  split at h
  · rename_i text inode off f hs
    split at h
    · rename_i hoff
      subst hoff
      exact ⟨text, inode, f, hs, (Option.some_inj.1 h).symm⟩
    · cases h
  · cases h

theorem saveStep_fault {d t : Dir} {i : ℕ} {e : String} (h : saveStep d (.fault i e) = some t) :
    ∃ s, d.savers[i]? = some s ∧ s.isReturned = false ∧
      t = d.update i ⟨s.text, .returned (.error e), true⟩ d.fs := by
  simp only [saveStep] at h
  split at h
  · cases h
  · rename_i text p f hne hs
    refine ⟨_, hs, ?_, (Option.some_inj.1 h).symm⟩
    cases p with
    | returned r => exact (hne r rfl).elim
    | ready => rfl
    | writing inode off => rfl
  · cases h

/-! ### The directory -/

section Directory

variable {fs : Fs} {i off n : ℕ} {text : Document}

@[simp] theorem createTmp_tmp (fs : Fs) : fs.createTmp.2.configTomlTmp = some fs.createTmp.1 := by
  unfold Fs.createTmp
  split
  · assumption
  · rfl

@[simp] theorem createTmp_config (fs : Fs) : fs.createTmp.2.configToml = fs.configToml := by
  unfold Fs.createTmp
  split <;> rfl

/-- What has just been opened is empty. -/
theorem createTmp_content (h : FsOk fs) : fs.createTmp.2.inodes[fs.createTmp.1]? = some [] := by
  unfold Fs.createTmp
  split
  · rename_i j hj
    exact List.getElem?_set_self (h.tmp j hj)
  · exact List.getElem?_concat_length

theorem createTmp_length (fs : Fs) : fs.inodes.length ≤ fs.createTmp.2.inodes.length := by
  unfold Fs.createTmp
  split <;> simp

theorem FsOk.createTmp (h : FsOk fs) : FsOk fs.createTmp.2 where
  config j hj := by
    rw [createTmp_config] at hj
    exact Nat.lt_of_lt_of_le (h.config j hj) (createTmp_length fs)
  tmp j hj := by
    rw [createTmp_tmp, Option.some_inj] at hj
    have hc := createTmp_content h
    rw [hj] at hc
    exact (List.getElem?_eq_some_iff.1 hc).1
  distinct j hj := by
    rw [createTmp_config] at hj
    intro hd
    rw [createTmp_tmp, Option.some_inj] at hd
    unfold Fs.createTmp at hd
    split at hd
    · rename_i k hk
      exact h.distinct j hj (hd ▸ hk)
    · exact absurd (h.config j hj) (by omega)

/-- Opening the temporary file leaves `config.toml` alone. -/
theorem readConfig_createTmp (h : FsOk fs) : fs.createTmp.2.readConfig = fs.readConfig := by
  unfold Fs.readConfig
  rw [createTmp_config]
  cases hc : fs.configToml with
  | none => rfl
  | some j =>
      simp only [Option.bind_some]
      unfold Fs.createTmp
      split
      · rename_i k hk
        refine List.getElem?_set_ne ?_
        rintro rfl
        exact h.distinct k hc hk
      · exact List.getElem?_append_left (h.config j hc)

/-- The next piece, written at the end of what has been written. -/
theorem writeAt_eq (hi : fs.inodes[i]? = some (text.take off)) (hn : off + n ≤ text.length) :
    writeAt i off ((text.drop off).take n) fs =
      { fs with inodes := fs.inodes.set i (text.take (off + n)) } := by
  have hoff : (text.take off).length = off := by
    rw [List.length_take]
    omega
  have hrest (k : ℕ) : (text.take off).drop (off + k) = [] :=
    List.drop_eq_nil_of_le (by omega)
  unfold writeAt
  congr 1
  rw [List.modify_eq_set, hi]
  simp only [Option.getD_some, hoff, Nat.sub_self, List.replicate_zero,
    List.append_nil, List.take_take, Nat.min_self, List.take_add]
  rw [hrest, List.append_nil]

theorem FsOk.set (h : FsOk fs) (d : Document) : FsOk { fs with inodes := fs.inodes.set i d } where
  config j hj := by simpa using h.config j hj
  tmp j hj := by simpa using h.tmp j hj
  distinct := h.distinct

/-- Writing to the temporary file leaves `config.toml` alone. -/
theorem readConfig_set (h : FsOk fs) (hi : fs.configTomlTmp = some i) (d : Document) :
    ({ fs with inodes := fs.inodes.set i d } : Fs).readConfig = fs.readConfig := by
  unfold Fs.readConfig
  cases hc : fs.configToml with
  | none => rfl
  | some j =>
      refine List.getElem?_set_ne ?_
      rintro rfl
      exact h.distinct i hc hi

theorem renameTmp_some (hi : fs.configTomlTmp = some i) :
    fs.renameTmp = (.ok (), { fs with configToml := some i, configTomlTmp := none }) := by
  unfold Fs.renameTmp
  rw [hi]

end Directory

/-! ### A save on its own -/

/-- The pieces of a text, from `off` on. -/
theorem exec_writes {text : Document} {inode : ℕ} {f : Bool} (i : ℕ) (ns : List ℕ) :
    ∀ {d : Dir} {off : ℕ}, (∀ n ∈ ns, 0 < n) → off + ns.sum = text.length →
      d.savers[i]? = some ⟨text, .writing inode off, f⟩ →
      d.fs.inodes[inode]? = some (text.take off) →
      exec saveStep d (ns.map (.write i)) =
        some (d.update i ⟨text, .writing inode text.length, f⟩
          { d.fs with inodes := d.fs.inodes.set inode text }) := by
  induction ns with
  | nil =>
      intro d off _ hsum hi hc
      rw [List.sum_nil, Nat.add_zero] at hsum
      subst hsum
      -- everything has been written: neither the save nor the file changes
      obtain ⟨hi', hs⟩ := List.getElem?_eq_some_iff.1 hi
      obtain ⟨hc', ht⟩ := List.getElem?_eq_some_iff.1 hc
      rw [List.take_length] at ht
      have h₁ : d.savers.set i ⟨text, .writing inode text.length, f⟩ = d.savers := by
        rw [← hs, List.set_getElem_self]
      have h₂ : d.fs.inodes.set inode text = d.fs.inodes := by
        rw [← ht, List.set_getElem_self hc']
      rw [List.map_nil, exec_nil, Dir.update, h₁, h₂]
  | cons n ns ih =>
      intro d off hpos hsum hi hc
      rw [List.sum_cons] at hsum
      have hn : off + n ≤ text.length := by omega
      have hstep : saveStep d (.write i n) =
          some (d.update i ⟨text, .writing inode (off + n), f⟩
            { d.fs with inodes := d.fs.inodes.set inode (text.take (off + n)) }) := by
        simp only [saveStep, hi]
        rw [if_pos ⟨hpos n List.mem_cons_self, hn⟩, writeAt_eq hc hn]
      rw [List.map_cons, exec_cons_some hstep,
        ih (fun m hm => hpos m (List.mem_cons_of_mem n hm)) (by omega)
          (List.getElem?_set_self (List.getElem?_eq_some_iff.1 hi).1)
          (List.getElem?_set_self (List.getElem?_eq_some_iff.1 hc).1)]
      simp only [Dir.update, List.set_set]

/-- **A save on its own does what `save` does**, in however many pieces it writes the text. -/
theorem alone_save {C : Codec} {cfg : Config} {text : Document} {d : Dir} {ns : List ℕ}
    (hdoc : redactForSave C cfg >>= C.toStringPretty = .ok text) (hfs : FsOk d.fs)
    (hpos : ∀ n ∈ ns, 0 < n) (hsum : ns.sum = text.length) :
    exec saveStep d (.start text :: .create d.savers.length ::
        (ns.map (.write d.savers.length) ++ [.rename d.savers.length])) =
      some ⟨(save C .none cfg d.fs).2,
        d.savers ++ [⟨text, .returned (save C .none cfg d.fs).1, false⟩]⟩ := by
  have hc := createTmp_content hfs
  have hsave : save C .none cfg d.fs =
      (({ d.fs.createTmp.2 with inodes := d.fs.createTmp.2.inodes.set d.fs.createTmp.1 text } :
        Fs).renameTmp) := by
    unfold save SaveIo.none
    simp only [hdoc]
    congr 1
    unfold Fs.writeAll
    rw [List.modify_eq_set, hc]
    simp
  rw [exec_cons_some rfl, exec_cons_some (t := ⟨d.fs.createTmp.2,
      d.savers ++ [⟨text, .writing d.fs.createTmp.1 0, false⟩]⟩) (by simp [saveStep, Dir.update]),
    exec_append, exec_writes d.savers.length ns hpos (by simpa using hsum)
      List.getElem?_concat_length (by simpa using hc), Option.bind_some, hsave]
  simp [exec_cons, saveStep, Dir.update]

/-! ### Saves that stay apart -/

/-- What saves that stay apart keep: the one that has the temporary file open finds there what it
has written. -/
structure Dir.Safe (fs₀ : Fs) (d : Dir) : Prop where
  fsOk : FsOk d.fs
  alone : ∀ {i j : ℕ} {s s' : Saver}, d.savers[i]? = some s → d.savers[j]? = some s' →
    s.isWriting = true → s'.isWriting = true → i = j
  content : ∀ s ∈ d.savers, ∀ inode off, s.phase = .writing inode off →
    d.fs.configTomlTmp = some inode ∧ d.fs.inodes[inode]? = some (s.text.take off)
  sound : Sound fs₀ d

theorem isWriting_iff {s : Saver} :
    s.isWriting = true ↔ ∃ inode off, s.phase = .writing inode off := by
  unfold Saver.isWriting
  split
  · rename_i inode off h
    exact ⟨fun _ => ⟨inode, off, h⟩, fun _ => rfl⟩
  · rename_i h
    exact ⟨fun h' => absurd h' (by simp), fun ⟨inode, off, h'⟩ => absurd h' (h inode off)⟩

section Update

variable {d : Dir} {fs fs₀ : Fs} {i : ℕ} {s u : Saver}

theorem Dir.mem_update {x : Saver} (h : x ∈ (d.update i u fs).savers) : x ∈ d.savers ∨ x = u :=
  List.mem_or_eq_of_mem_set h

theorem Dir.update_self (hs : d.savers[i]? = some s) : (d.update i u fs).savers[i]? = some u :=
  List.getElem?_set_self (List.getElem?_eq_some_iff.1 hs).1

theorem Dir.update_ne {j : ℕ} (hj : i ≠ j) :
    (d.update i u fs).savers[j]? = d.savers[j]? := List.getElem?_set_ne hj

/-- The texts of the saves are kept. -/
theorem Dir.exists_update (P : Document → Prop) (hs : d.savers[i]? = some s)
    (hu : u.text = s.text) (h : ∃ x ∈ d.savers, P x.text) :
    ∃ x ∈ (d.update i u fs).savers, P x.text := by
  obtain ⟨x, hx, hp⟩ := h
  obtain ⟨j, hj⟩ := List.mem_iff_getElem?.1 hx
  by_cases hij : i = j
  · subst hij
    rw [hs, Option.some_inj] at hj
    exact ⟨u, List.mem_of_getElem? (Dir.update_self hs), by rwa [hu, hj]⟩
  · exact ⟨x, List.mem_of_getElem? ((Dir.update_ne hij).trans hj), hp⟩

/-- A step of the save `i` that leaves `config.toml` alone. -/
theorem Sound.update (h : Sound fs₀ d) (hs : d.savers[i]? = some s) (hu : u.text = s.text)
    (hfs : fs.readConfig = d.fs.readConfig)
    (hr : ∀ e, u.phase = .returned (.error e) → u.faulted = true) :
    Sound fs₀ (d.update i u fs) where
  intact := by
    -- the text in place is still that of one of the saves, whose texts are kept
    have hfs' : (d.update i u fs).fs.readConfig = d.fs.readConfig := hfs
    rw [hfs']
    exact h.intact.imp_right (.imp_right (Dir.exists_update (d.fs.readConfig = some ·) hs hu))
  no_failure x hx := by
    rcases Dir.mem_update hx with hx | rfl
    · exact h.no_failure x hx
    · exact hr

/-- A step by the one save that writes, or by a save when none does. -/
theorem Dir.Safe.update (hw : ∀ j x, d.savers[j]? = some x → x.isWriting = true → i = j)
    (hfs : FsOk fs) (hu : ∀ inode off, u.phase = .writing inode off →
      fs.configTomlTmp = some inode ∧ fs.inodes[inode]? = some (u.text.take off))
    (hsound : Sound fs₀ (d.update i u fs)) : (d.update i u fs).Safe fs₀ := by
  -- after the step the save `i` is still the only one that may be writing
  have only : ∀ {j : ℕ} {x : Saver}, (d.update i u fs).savers[j]? = some x →
      x.isWriting = true → i = j := by
    intro j x hj hx
    by_cases hij : i = j
    · exact hij
    · exact hw j x ((Dir.update_ne hij).symm.trans hj) hx
  refine ⟨hfs, fun hj hk hx hy => (only hj hx).symm.trans (only hk hy), ?_, hsound⟩
  intro x hx inode off hp
  obtain ⟨j, hj⟩ := List.mem_iff_getElem?.1 hx
  have hij := only hj (isWriting_iff.2 ⟨inode, off, hp⟩)
  subst hij
  obtain ⟨hlt, -⟩ := List.getElem?_eq_some_iff.1 hj
  have hself : (d.savers.set i u)[i]? = some u :=
    List.getElem?_set_self (by simpa [Dir.update] using hlt)
  obtain rfl : u = x := Option.some_inj.1 (hself.symm.trans hj)
  exact hu inode off hp

end Update

/-- The initial directory. -/
theorem safe_init {fs₀ : Fs} (h : FsOk fs₀) : Dir.Safe fs₀ ⟨fs₀, []⟩ where
  fsOk := h
  alone hi := absurd hi (by simp)
  content s hs := absurd hs (by simp)
  sound := ⟨.inr (.inl rfl), fun s hs => absurd hs (by simp)⟩

section Steps

variable {d t : Dir} {fs₀ : Fs} {i n : ℕ}

theorem Dir.Safe.start (h : d.Safe fs₀) (text : Document) :
    Dir.Safe fs₀ { d with savers := d.savers ++ [⟨text, .ready, false⟩] } where
  fsOk := h.fsOk
  alone {j k x y} hj hk hx hy := by
    have old : ∀ {j : ℕ} {x : Saver}, (d.savers ++ [⟨text, .ready, false⟩])[j]? = some x →
        x.isWriting = true → d.savers[j]? = some x := by
      intro j x hj hx
      rcases getElem?_concat_eq_some.1 hj with hj | ⟨-, rfl⟩
      · exact hj
      · cases hx
    exact h.alone (old hj hx) (old hk hy) hx hy
  content x hx inode off hp := by
    rcases List.mem_append.1 hx with hx | hx
    · exact h.content x hx inode off hp
    · rw [List.mem_singleton.1 hx] at hp
      cases hp
  sound :=
    { intact := h.sound.intact.imp_right (.imp_right fun ⟨x, hx, hp⟩ =>
        ⟨x, List.mem_append_left _ hx, hp⟩)
      no_failure := by
        intro x hx e hp
        rcases List.mem_append.1 hx with hx | hx
        · exact h.sound.no_failure x hx e hp
        · rw [List.mem_singleton.1 hx] at hp
          cases hp }

theorem Dir.Safe.create (h : d.Safe fs₀) (ha : Apart d (.create i))
    (hs : saveStep d (.create i) = some t) : t.Safe fs₀ := by
  obtain ⟨text, f, hi, rfl⟩ := saveStep_create hs
  refine Dir.Safe.update ?_ h.fsOk.createTmp ?_ (h.sound.update hi rfl
    (readConfig_createTmp h.fsOk) fun e he => absurd he (by simp))
  · intro j x hj hx
    exact absurd hx (by simp [ha x (List.mem_of_getElem? hj)])
  · intro inode off hp
    cases hp
    exact ⟨createTmp_tmp d.fs, createTmp_content h.fsOk⟩

theorem Dir.Safe.write (h : d.Safe fs₀) (hs : saveStep d (.write i n) = some t) :
    t.Safe fs₀ := by
  obtain ⟨text, inode, off, f, hi, hn, rfl⟩ := saveStep_write hs
  obtain ⟨htmp, hc⟩ := h.content _ (List.mem_of_getElem? hi) inode off rfl
  rw [writeAt_eq hc hn]
  refine Dir.Safe.update (fun j x hj hx => h.alone hi hj rfl hx) (h.fsOk.set _) ?_
    (h.sound.update hi rfl (readConfig_set h.fsOk htmp _) fun e he => absurd he (by simp))
  intro k m hp
  cases hp
  exact ⟨htmp, List.getElem?_set_self (List.getElem?_eq_some_iff.1 hc).1⟩

theorem FsOk.rename {fs : Fs} {j : ℕ} (h : FsOk fs) (hj : fs.configTomlTmp = some j) :
    FsOk { fs with configToml := some j, configTomlTmp := none } where
  config k hk := Option.some_inj.1 hk ▸ h.tmp j hj
  tmp k hk := absurd hk (by simp)
  distinct k _ := by simp

/-- The rename puts the complete text in place, and it succeeds. -/
theorem Dir.Safe.rename (h : d.Safe fs₀) (hs : saveStep d (.rename i) = some t) :
    t.Safe fs₀ := by
  obtain ⟨text, inode, f, hi, rfl⟩ := saveStep_rename hs
  obtain ⟨htmp, hc⟩ := h.content _ (List.mem_of_getElem? hi) inode _ rfl
  rw [List.take_length] at hc
  rw [renameTmp_some htmp]
  refine Dir.Safe.update (fun j x hj hx => h.alone hi hj rfl hx) (h.fsOk.rename htmp)
    (fun k m hp => absurd hp (by simp)) ⟨.inr (.inr ⟨_, List.mem_of_getElem?
      (Dir.update_self hi), hc⟩), ?_⟩
  intro x hx e he
  rcases Dir.mem_update hx with hx | rfl
  · exact h.sound.no_failure x hx e he
  · cases he

theorem Dir.Safe.fault (h : d.Safe fs₀) {e : String} (hs : saveStep d (.fault i e) = some t) :
    t.Safe fs₀ := by
  obtain ⟨s, hi, -, rfl⟩ := saveStep_fault hs
  have old : ∀ {j : ℕ} {x : Saver},
      (d.update i ⟨s.text, .returned (.error e), true⟩ d.fs).savers[j]? = some x →
      x.isWriting = true → d.savers[j]? = some x := by
    intro j x hj hx
    by_cases hij : i = j
    · subst hij
      rw [Dir.update_self hi, Option.some_inj] at hj
      exact absurd hx (by simp [← hj, Saver.isWriting])
    · exact (Dir.update_ne hij).symm.trans hj
  refine ⟨h.fsOk, fun hj hk hx hy => h.alone (old hj hx) (old hk hy) hx hy, ?_,
    h.sound.update hi rfl rfl fun _ _ => rfl⟩
  intro x hx inode off hp
  obtain ⟨j, hj⟩ := List.mem_iff_getElem?.1 hx
  exact h.content x (List.mem_of_getElem? (old hj (isWriting_iff.2 ⟨inode, off, hp⟩))) inode
    off hp

theorem Dir.Safe.step {a : SaveAct} (h : d.Safe fs₀) (ha : Apart d a)
    (hs : saveStep d a = some t) : t.Safe fs₀ := by
  cases a with
  | start text => exact Option.some_inj.1 hs ▸ h.start text
  | create i => exact h.create ha hs
  | write i n => exact h.write hs
  | rename i => exact h.rename hs
  | fault i e => exact h.fault hs

end Steps

/-- **Saves that stay apart are sound.** -/
theorem sound_of_apart {fs₀ : Fs} (as : List SaveAct) {d : Dir} (h : d.Safe fs₀)
    (ha : Meets saveStep Apart d as) : Along saveStep (Sound fs₀) d as := by
  induction as generalizing d with
  | nil => exact h.sound
  | cons a as ih => exact ⟨h.sound, fun t ht => ih (h.step ha.1 ht) (ha.2 t ht)⟩

/-! ### Saves that do not stay apart -/

/-- How many saves have the temporary file open. -/
def Dir.writers (d : Dir) : ℕ := d.savers.countP Saver.isWriting

/-- A save has failed and has met no fault. -/
def Dir.Failed (d : Dir) : Prop :=
  ∃ s ∈ d.savers, s.faulted = false ∧ ∃ e, s.phase = .returned (.error e)

/-- No save has met a fault. -/
def Dir.Clean (d : Dir) : Prop := ∀ s ∈ d.savers, s.faulted = false

/-- More saves have the temporary file open than there are temporary files, so one of them will not
find it when it comes to rename it; or that has happened. -/
def Dir.Doomed (d : Dir) : Prop := d.fs.configTomlTmp.isSome.toNat < d.writers ∨ d.Failed

section Doomed

variable {d t : Dir} {fs : Fs} {i n : ℕ} {s u : Saver}

theorem Dir.writers_update (hs : d.savers[i]? = some s) :
    (d.update i u fs).writers = d.writers - s.isWriting.toNat + u.isWriting.toNat := by
  obtain ⟨hi, rfl⟩ := List.getElem?_eq_some_iff.1 hs
  unfold Dir.writers Dir.update
  rw [List.countP_set hi]
  cases d.savers[i].isWriting <;> cases u.isWriting <;> rfl

theorem Dir.writers_pos (hs : d.savers[i]? = some s) (hw : s.isWriting = true) : 0 < d.writers :=
  List.countP_pos_iff.2 ⟨s, List.mem_of_getElem? hs, hw⟩

/-- A save that has failed takes no more steps. -/
theorem Dir.Failed.update (h : d.Failed) (hs : d.savers[i]? = some s)
    (hr : s.isReturned = false) : (d.update i u fs).Failed := by
  obtain ⟨x, hx, hf, e, he⟩ := h
  obtain ⟨j, hj⟩ := List.mem_iff_getElem?.1 hx
  have hij : i ≠ j := by
    rintro rfl
    rw [hs, Option.some_inj] at hj
    rw [hj, Saver.isReturned, he] at hr
    cases hr
  exact ⟨x, List.mem_of_getElem? ((Dir.update_ne hij).trans hj), hf, e, he⟩

theorem Dir.Clean.update (h : d.Clean) (hs : d.savers[i]? = some s) (hu : u.faulted = s.faulted) :
    (d.update i u fs).Clean := by
  intro x hx
  rcases Dir.mem_update hx with hx | rfl
  · exact h x hx
  · exact hu.trans (h s (List.mem_of_getElem? hs))

/-- Opening a file that another save has open. -/
theorem doomed_of_overlap (hs : saveStep d (.create i) = some t) (ha : ¬ Apart d (.create i)) :
    t.Doomed := by
  obtain ⟨text, f, hi, rfl⟩ := saveStep_create hs
  have hpos : 0 < d.writers := by
    refine Nat.pos_of_ne_zero fun h0 => ha fun x hx => ?_
    exact Bool.eq_false_iff.2 (List.countP_eq_zero.1 h0 x hx)
  refine .inl ?_
  rw [Dir.writers_update hi]
  simp only [Dir.update, createTmp_tmp, Option.isSome_some, Bool.toNat_true, Saver.isWriting,
    Bool.toNat_false]
  omega

/-- **The count.**  Opening makes one file at most and one more save that has it open; renaming
takes one file away and one save. -/
theorem Dir.Doomed.step {a : SaveAct} (h : d.Doomed) (hf : ∀ i e, a ≠ .fault i e)
    (hclean : d.Clean) (hs : saveStep d a = some t) : t.Doomed := by
  cases a with
  | start text =>
      cases hs
      refine h.imp (fun hw => ?_) fun ⟨x, hx, hp⟩ => ⟨x, List.mem_append_left _ hx, hp⟩
      simpa [Dir.writers, Saver.isWriting] using hw
  | create i =>
      obtain ⟨text, f, hi, rfl⟩ := saveStep_create hs
      refine h.imp (fun hw => ?_) fun hx => hx.update hi rfl
      rw [Dir.writers_update hi]
      simp only [Dir.update, createTmp_tmp, Option.isSome_some, Bool.toNat_true, Saver.isWriting,
        Bool.toNat_false]
      omega
  | write i n =>
      obtain ⟨text, inode, off, f, hi, -, rfl⟩ := saveStep_write hs
      refine h.imp (fun hw => ?_) fun hx => hx.update hi rfl
      have hpos := Dir.writers_pos hi rfl
      rw [Dir.writers_update hi]
      simp only [Dir.update, writeAt, Saver.isWriting, Bool.toNat_true]
      omega
  | rename i =>
      obtain ⟨text, inode, f, hi, rfl⟩ := saveStep_rename hs
      rcases h with hw | hx
      · have hpos := Dir.writers_pos hi rfl
        cases htmp : d.fs.configTomlTmp with
        | none =>
            -- another save has taken the file: the rename fails though no fault was raised
            have hren : d.fs.renameTmp.1 = .error "No such file or directory (os error 2)" := by
              unfold Fs.renameTmp
              rw [htmp]
            have hok : f = false := hclean _ (List.mem_of_getElem? hi)
            exact .inr ⟨_, List.mem_of_getElem? (Dir.update_self hi), hok, _,
              congrArg Phase.returned hren⟩
        | some k =>
            -- one file and one save less
            refine .inl ?_
            rw [renameTmp_some htmp, Dir.writers_update hi]
            rw [htmp] at hw
            simp only [Dir.update, Option.isSome_none, Option.isSome_some, Bool.toNat_true,
              Saver.isWriting, Bool.toNat_false] at hw ⊢
            omega
      · exact .inr (hx.update hi rfl)
  | fault i e => exact absurd rfl (hf i e)

/-- No save meets a fault when none is raised. -/
theorem Dir.Clean.step {a : SaveAct} (h : d.Clean) (hf : ∀ i e, a ≠ .fault i e)
    (hs : saveStep d a = some t) : t.Clean := by
  cases a with
  | start text =>
      cases hs
      intro x hx
      rcases List.mem_append.1 hx with hx | hx
      · exact h x hx
      · rw [List.mem_singleton.1 hx]
  | create i =>
      obtain ⟨text, f, hi, rfl⟩ := saveStep_create hs
      exact h.update hi rfl
  | write i n =>
      obtain ⟨text, inode, off, f, hi, -, rfl⟩ := saveStep_write hs
      exact h.update hi rfl
  | rename i =>
      obtain ⟨text, inode, f, hi, rfl⟩ := saveStep_rename hs
      exact h.update hi rfl
  | fault i e => exact absurd rfl (hf i e)

/-- When all saves have come to their ends, one of them has failed. -/
theorem Dir.Doomed.failed (h : d.Doomed) (hall : ∀ s ∈ d.savers, s.isReturned = true) :
    d.Failed := by
  refine h.resolve_left fun hw => ?_
  obtain ⟨x, hx, hw⟩ := List.countP_pos_iff.1 (Nat.zero_lt_of_lt hw)
  have hr := hall x hx
  unfold Saver.isReturned at hr
  unfold Saver.isWriting at hw
  split at hw
  · rename_i hp
    rw [hp] at hr
    cases hr
  · cases hw

end Doomed

/-- A run without a fault stays doomed. -/
theorem doomed_exec {as : List SaveAct} {d t : Dir} (h : d.Doomed)
    (hf : ∀ a ∈ as, ∀ i e, a ≠ .fault i e) (hclean : d.Clean)
    (hr : exec saveStep d as = some t) : t.Doomed := by
  induction as generalizing d with
  | nil => exact Option.some_inj.1 hr ▸ h
  | cons a as ih =>
      obtain ⟨u, hu, hut⟩ := Option.bind_eq_some_iff.1 hr
      have ha := hf a List.mem_cons_self
      exact ih (h.step ha hclean hu) (fun b hb => hf b (List.mem_cons_of_mem a hb))
        (hclean.step ha hu) hut

/-- **Saves that have all come to their ends without a fault and without a failure have stayed
apart.** -/
theorem apart_of_sound {fs₀ : Fs} {as : List SaveAct} {d t : Dir}
    (hf : ∀ a ∈ as, ∀ i e, a ≠ .fault i e) (hclean : d.Clean)
    (hr : exec saveStep d as = some t) (hall : ∀ s ∈ t.savers, s.isReturned = true)
    (ht : Sound fs₀ t) : Meets saveStep Apart d as := by
  induction as generalizing d with
  | nil => trivial
  | cons a as ih =>
      obtain ⟨u, hu, hut⟩ := Option.bind_eq_some_iff.1 hr
      have ha := hf a List.mem_cons_self
      have has : ∀ b ∈ as, ∀ i e, b ≠ .fault i e := fun b hb => hf b (List.mem_cons_of_mem a hb)
      have hu' := hclean.step ha hu
      refine ⟨?_, fun v hv => ?_⟩
      -- the first overlap dooms the rest of the run
      · refine Decidable.byContradiction fun hap => ?_
        have hdoom : u.Doomed := by
          cases a with
          | create i => exact doomed_of_overlap hu hap
          | start text => exact absurd trivial hap
          | write i n => exact absurd trivial hap
          | rename i => exact absurd trivial hap
          | fault i e => exact absurd trivial hap
        obtain ⟨x, hx, hxf, e, he⟩ := (doomed_exec hdoom has hu' hut).failed hall
        rw [ht.no_failure x hx e he] at hxf
        cases hxf
      · obtain rfl : u = v := Option.some_inj.1 (hu.symm.trans hv)
        exact ih has hu' hut

/-! ### The temporary file has one name -/

/-- **Saves are sound if they stay apart**: `config.toml` is never corrupted, and a save that meets
no fault succeeds.  Once every save has come to its end without a fault, they are sound only if they
have stayed apart. -/
theorem concurrentSaves_sound {fs₀ : Fs} (hfs : FsOk fs₀) {as : List SaveAct} {t : Dir}
    (hr : exec saveStep ⟨fs₀, []⟩ as = some t) :
    (Meets saveStep Apart ⟨fs₀, []⟩ as → Along saveStep (Sound fs₀) ⟨fs₀, []⟩ as) ∧
      ((∀ a ∈ as, ∀ i e, a ≠ .fault i e) → (∀ s ∈ t.savers, s.isReturned = true) →
        (Along saveStep (Sound fs₀) ⟨fs₀, []⟩ as ↔ Meets saveStep Apart ⟨fs₀, []⟩ as)) := by
  have suff := sound_of_apart as (safe_init hfs)
  refine ⟨suff, fun hf hall => ⟨fun h => ?_, suff⟩⟩
  exact apart_of_sound hf (fun _ hs => absurd hs (by simp)) hr hall (h.last hr)

/-- Two saves of texts of two bytes and of one byte. -/
def twoSaves : List SaveAct :=
  [.start [1, 2], .create 0, .write 0 1, .write 0 1, .rename 0,
    .start [3], .create 1, .write 1 1, .rename 1]

theorem concurrentSaves_sound_inTurn :
    Along saveStep (Sound .empty) ⟨.empty, []⟩ twoSaves := by
  obtain ⟨t, ht, -⟩ : ∃ t, exec saveStep ⟨.empty, []⟩ twoSaves = some t ∧
      t.fs.readConfig = some [3] := ⟨_, rfl, rfl⟩
  exact (concurrentSaves_sound ⟨by simp [Fs.empty], by simp [Fs.empty], by simp [Fs.empty]⟩ ht).1
    (by decide)

/-- The second save opens the temporary file while the first one is about to rename it: the file
that the rename puts in place is empty, and the second save fails. -/
theorem overlapping_saves : ∃ d t,
    exec saveStep ⟨.empty, []⟩ [.start [1, 2], .start [3], .create 0, .write 0 2, .create 1,
      .rename 0] = some d ∧ ¬ Sound .empty d ∧ d.fs.readConfig = some [] ∧
    exec saveStep d [.write 1 1, .rename 1] = some t ∧ ¬ Sound .empty t ∧
    ∃ s ∈ t.savers, s.faulted = false ∧
      s.phase = .returned (.error "No such file or directory (os error 2)") := by
  refine ⟨_, _, rfl, ?_, rfl, rfl, ?_, ⟨[3], _, false⟩, ?_, rfl, rfl⟩
  · intro h
    rcases h.intact with h | h | h
    · cases h
    · cases h
    · exact absurd h (by decide)
  · intro h
    exact absurd (h.no_failure ⟨[3], _, false⟩ (List.mem_cons_of_mem _ List.mem_cons_self) _ rfl)
      (by decide)
  · exact List.mem_cons_of_mem _ List.mem_cons_self

end Saves

end TermHub
