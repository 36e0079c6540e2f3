/-
**The configuration survives crashes.**

`save` of `termhub-core/src/persist.rs` writes the new document to `config.toml.tmp` and renames it
over `config.toml`.  The program may be killed between any two system calls of a save, and what the
save has left in the temporary file is still there when the program is started again; the next save
opens it, and truncates it.

Main definitions:

* `Disk`, `diskStep` — the directory over several lives of the program; `kept` is the configuration
  whose document has been put in place last;
* `OneByOne` — a save opens the temporary file only when no other save has it open.

Main results:

* `Keeps.of_reach` — what the directory keeps;
* `config_survives_crashes` — **the directory is a register**: at every moment, and so after every
  crash, `load_or_default` reads the configuration that has been put in place last.
-/

import TermHub.ConcurrentSaves
import TermHub.LoadSave

set_option relaxedAutoImplicit false
set_option autoImplicit false

namespace TermHub

namespace Saves

open Transition

/-! ### The directory over several lives -/

/-- The directory with the saves under way and the configurations that they write.  `kept` is not
part of the code: it is the value of the register that the directory stands for. -/
structure Disk where
  dir : Dir
  saving : List Config
  kept : Config

/-- A directory in which no save is under way. -/
def Disk.init (fs : Fs) (c : Config) : Disk := ⟨⟨fs, []⟩, [], c⟩

/-- What can happen. -/
inductive DiskAct
  | save (c : Config)
  /-- A system call of a save, or a fault. -/
  | call (a : SaveAct)
  /-- The program is killed and started again. -/
  | crash

/-- The step of an action. -/
def diskStep (C : Codec) (s : Disk) : DiskAct → Option Disk
  | .save c =>
    match C.document c with
    | .ok text => (saveStep s.dir (.start text)).map fun d => ⟨d, s.saving ++ [c], s.kept⟩
    -- the save returns before it touches the directory
    | .error _ => some s
  | .call (.start _) => none
  | .call (.rename i) =>
    (saveStep s.dir (.rename i)).map fun d => ⟨d, s.saving, (s.saving[i]?).getD s.kept⟩
  | .call a => (saveStep s.dir a).map fun d => { s with dir := d }
  | .crash => some (.init s.dir.fs s.kept)

/-- A save opens the temporary file only when no other save has it open. -/
def OneByOne (s : Disk) : DiskAct → Prop
  | .call a => Apart s.dir a
  | _ => True

instance (s : Disk) : (a : DiskAct) → Decidable (OneByOne s a)
  | .call a => inferInstanceAs (Decidable (Apart s.dir a))
  | .save _ | .crash => .isTrue trivial

/-! ### What the directory keeps -/

/-- **What the directory keeps**: every save under way writes the document of its configuration, and
the file in place is the one that has been kept. -/
structure Keeps (C : Codec) (s : Disk) : Prop where
  safe : ∃ fs₀, s.dir.Safe fs₀
  texts : s.saving.map C.document = s.dir.savers.map fun x => .ok x.text
  loads : loadOrDefault C s.dir.fs = .ok s.kept

theorem keeps_init {C : Codec} {fs : Fs} {c : Config} (hfs : FsOk fs)
    (h : loadOrDefault C fs = .ok c) : Keeps C (.init fs c) where
  safe := ⟨fs, safe_init hfs⟩
  texts := rfl
  loads := h

section Steps

variable {C : Codec} {s t : Disk} {i : ℕ} {d : Dir}

/-- The configuration of a save under way. -/
theorem Keeps.saving {x : Saver} (hi : Keeps C s) (hx : s.dir.savers[i]? = some x) :
    ∃ c, s.saving[i]? = some c ∧ C.document c = .ok x.text := by
  have h := congrArg (fun l => l[i]?) hi.texts
  simp only [List.getElem?_map, hx, Option.map_some, Option.map_eq_some_iff] at h
  obtain ⟨c, hc, hdoc⟩ := h
  exact ⟨c, hc, hdoc⟩

/-- The texts of the saves do not change on the way. -/
theorem map_text_update {x u : Saver} {w : Fs} (hx : d.savers[i]? = some x)
    (hu : u.text = x.text) :
    ((d.update i u w).savers.map fun x => (.ok x.text : Except String Document)) =
      d.savers.map fun x => .ok x.text := by
  obtain ⟨hlt, rfl⟩ := List.getElem?_eq_some_iff.1 hx
  rw [Dir.update, List.map_set, hu, ← List.getElem_map fun x : Saver =>
    (.ok x.text : Except String Document)]
  · exact List.set_getElem_self _
  · rwa [List.length_map]

/-- A step of a save that leaves `config.toml` alone. -/
theorem Keeps.update {x u : Saver} {fs : Fs} (hi : Keeps C s)
    (hsafe : ∃ fs₀, (s.dir.update i u fs).Safe fs₀) (hx : s.dir.savers[i]? = some x)
    (hu : u.text = x.text) (hfs : fs.readConfig = s.dir.fs.readConfig) :
    Keeps C { s with dir := s.dir.update i u fs } where
  safe := hsafe
  texts := hi.texts.trans (map_text_update hx hu).symm
  loads := (loadOrDefault_congr hfs).trans hi.loads

theorem Keeps.save (hi : Keeps C s) {c : Config} (h : diskStep C s (.save c) = some t) :
    Keeps C t := by
  simp only [diskStep] at h
  split at h
  · rename_i text hdoc
    obtain ⟨d, hd, rfl⟩ := Option.map_eq_some_iff.1 h
    obtain rfl := Option.some_inj.1 hd
    obtain ⟨fs₀, hsafe⟩ := hi.safe
    refine ⟨⟨fs₀, hsafe.start text⟩, ?_, hi.loads⟩
    rw [List.map_append, List.map_append, hi.texts, List.map_singleton, List.map_singleton, hdoc]
  · obtain rfl := Option.some_inj.1 h
    exact hi

/-- **The rename puts the configuration of the save in place.** -/
theorem Keeps.rename (hC : C.Inverts) (hi : Keeps C s) (h : saveStep s.dir (.rename i) = some d) :
    Keeps C ⟨d, s.saving, (s.saving[i]?).getD s.kept⟩ := by
  obtain ⟨fs₀, hsafe⟩ := hi.safe
  obtain ⟨text, inode, f, hx, rfl⟩ := saveStep_rename h
  obtain ⟨htmp, hcontent⟩ := hsafe.content _ (List.mem_of_getElem? hx) inode _ rfl
  rw [List.take_length] at hcontent
  obtain ⟨c, hc, hdoc⟩ := hi.saving hx
  have htexts := map_text_update (u := ⟨text, .returned s.dir.fs.renameTmp.1, f⟩)
    (w := s.dir.fs.renameTmp.2) hx rfl
  refine ⟨⟨fs₀, hsafe.rename h⟩, hi.texts.trans htexts.symm, ?_⟩
  rw [hc]
  refine loadOrDefault_document hC hdoc ?_
  rw [Dir.update, renameTmp_some htmp]
  exact hcontent

theorem Keeps.step (hC : C.Inverts) (hi : Keeps C s) {a : DiskAct} (ha : OneByOne s a)
    (h : diskStep C s a = some t) : Keeps C t := by
  obtain ⟨fs₀, hsafe⟩ := hi.safe
  cases a with
  | save c => exact hi.save h
  | crash =>
      obtain rfl := Option.some_inj.1 h
      exact keeps_init hsafe.fsOk hi.loads
  | call a =>
      cases a with
      | start text => cases h
      | rename i =>
          obtain ⟨d, hd, rfl⟩ := Option.map_eq_some_iff.1 h
          exact hi.rename hC hd
      | create i =>
          obtain ⟨d, hd, rfl⟩ := Option.map_eq_some_iff.1 h
          obtain ⟨text, f, hx, rfl⟩ := saveStep_create hd
          exact hi.update ⟨fs₀, hsafe.create ha hd⟩ hx rfl (readConfig_createTmp hsafe.fsOk)
      | write i n =>
          obtain ⟨d, hd, rfl⟩ := Option.map_eq_some_iff.1 h
          have hsafe' := hsafe.write hd
          obtain ⟨text, inode, off, f, hx, hn, rfl⟩ := saveStep_write hd
          obtain ⟨htmp, hcontent⟩ := hsafe.content _ (List.mem_of_getElem? hx) inode off rfl
          refine hi.update ⟨fs₀, hsafe'⟩ hx rfl ?_
          rw [writeAt_eq hcontent hn]
          exact readConfig_set hsafe.fsOk htmp _
      | fault i e =>
          obtain ⟨d, hd, rfl⟩ := Option.map_eq_some_iff.1 h
          have hsafe' := hsafe.fault hd
          obtain ⟨x, hx, -, rfl⟩ := saveStep_fault hd
          exact hi.update ⟨fs₀, hsafe'⟩ hx rfl rfl

theorem Keeps.of_reach (hC : C.Inverts) {fs : Fs} {c : Config} (hfs : FsOk fs)
    (h₀ : loadOrDefault C fs = .ok c) (h : Reach (diskStep C) OneByOne (.init fs c) s) :
    Keeps C s :=
  h.invariant (keeps_init hfs h₀) fun _ _ _ hi ha hs => hi.step hC ha hs

end Steps

/-! ### The directory is a register -/

/-- **The configuration survives crashes**: when saves do not overlap, `load_or_default` reads at
every moment the configuration that has been put in place last, or the one it has read at the start,
however often the program has been killed, between whichever system calls, and whatever faults the
saves have met. -/
theorem config_survives_crashes {C : Codec} (hC : C.Inverts) {fs : Fs} {c : Config} (hfs : FsOk fs)
    (h₀ : loadOrDefault C fs = .ok c) {s : Disk}
    (h : Reach (diskStep C) OneByOne (.init fs c) s) : loadOrDefault C s.dir.fs = .ok s.kept :=
  (Keeps.of_reach hC hfs h₀ h).loads

/-- The default configuration with room for four clients. -/
def fourClients : Config :=
  { defaultConfig with server := { defaultConfig.server with maxClientsPerSession := 4 } }

/-- A save in one piece, and a crash in the middle of the next one. -/
def crashInSecond (n : ℕ) : List DiskAct :=
  [.save fourClients, .call (.create 0), .call (.write 0 n), .call (.rename 0), .save fourClients,
    .call (.create 1), .crash]

theorem config_survives_crashes_second : ∃ (C : Codec) (n : ℕ) (s : Disk),
    exec (diskStep C) (.init .empty defaultConfig) (crashInSecond n) = some s ∧
      loadOrDefault C s.dir.fs = .ok fourClients := by
  have hC : (knownCodec [fourClients]).Inverts := by
    refine knownCodec_inverts fun c hc c' hc' _ => ?_
    rw [List.mem_singleton.1 hc, List.mem_singleton.1 hc']
  have hdoc : (knownCodec [fourClients]).document fourClients = .ok (asBytes fourClients.toToml) :=
    knownCodec_toStringPretty (List.mem_singleton_self fourClients)
  have hpos : 0 < (asBytes fourClients.toToml).length := by decide +kernel
  generalize asBytes fourClients.toToml = text at hdoc hpos
  have hrun : ∃ s, exec (diskStep (knownCodec [fourClients])) (.init .empty defaultConfig)
      (crashInSecond text.length) = some s ∧ s.kept = fourClients := by
    simp [crashInSecond, exec, diskStep, hdoc, saveStep, Dir.update, Disk.init, hpos]
  obtain ⟨s, hs, hkept⟩ := hrun
  have hmeets : Meets (diskStep (knownCodec [fourClients])) OneByOne (.init .empty defaultConfig)
      (crashInSecond text.length) := by
    simp [crashInSecond, Meets, diskStep, hdoc, saveStep, Dir.update, Disk.init, hpos, OneByOne,
      Apart, Saver.isWriting]
  refine ⟨_, _, s, hs, ?_⟩
  rw [config_survives_crashes hC fsOk_empty rfl (hmeets.reach hs), hkept]

end Saves

end TermHub
