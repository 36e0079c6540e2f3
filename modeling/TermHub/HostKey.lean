/-
**The identity of the host.**

`termhub-app/src/hostkey.rs`, with the beginning of `main`.  A start loads the configuration, takes
the two host keys from the files that the configuration names, and generates those that are missing.
A key file is never written again once it exists; but the operations of the program write a path of
their own into the configuration.

A history is a sequence of starts of the program on one computer.  Each start may fail at any system
call, or while it writes a key file; each run may end at any moment.

Main definitions:

* `join`, `withExtension` — the paths of the key files;
* `KeyCodec`, `KeyIo`, `loadOrCreateKey`, `loadOrCreate`, `fingerprint` — the key files;
* `Lives` — the histories, with the keys and the fingerprint that each life has shown;
* `Settled` — the files hold these keys.

Main results:

* `loadOrCreate_keeps` — **a key file is never written again**, whatever happens;
* `loadOrCreate_settled` — what is shown is what the files hold from then on;
* `identity_changes_once` — **the host changes its identity at most once**, and not at all if the
  configured path stands for the same files as the path that the program writes.
-/

import TermHub.Settings
import Mathlib.Data.List.DropRight

set_option relaxedAutoImplicit false
set_option autoImplicit false

namespace TermHub

namespace HostKey

open Sections
open Saves (FsOk)

/-! ### Paths -/

/-- `Path::join`, where the separator is `/`. -/
def join (dir path : String) : String :=
  if path.toList.head? = some '/' then path
  else if dir.toList.getLast?.all (· = '/') then dir ++ path
  else dir ++ "/" ++ path

/-- A path, read from its end, without what names no component. -/
def trimEnd : List Char → List Char
  | '/' :: l => trimEnd l
  | '.' :: '/' :: l => trimEnd ('/' :: l)
  | l => l

/-- `Path::file_name`: the last component of a path, if it is a file name, and what comes
before it. -/
def fileName (path : List Char) : Option (List Char × List Char) :=
  let path := (trimEnd path.reverse).reverse
  let name := path.rtakeWhile (· ≠ '/')
  if name = [] ∨ name = ['.'] ∨ name = ['.', '.'] then none
  else some (path.rdropWhile (· ≠ '/'), name)

/-- `Path::file_stem` of a file name: what stands before the last dot, unless it is the first
character. -/
def fileStem (name : List Char) : List Char :=
  match (name.rdropWhile (· ≠ '.')).dropLast with
  | [] => name
  | stem => stem

/-- `Path::extension` of a file name: what stands after that dot. -/
def extension (name : List Char) : List Char := (name.drop (fileStem name).length).tail

/-- `PathBuf::set_extension`; a path without a file name is left as it is. -/
def setExtension (path : List Char) (ext : String) : String :=
  match fileName path with
  | some (dir, name) => String.ofList (dir ++ fileStem name) ++ "." ++ ext
  | none => String.ofList path

/-- `Path::with_extension`: the old extension is cut off the end of the path before the new one
is set. -/
def withExtension (path ext : String) : String :=
  match fileName path.toList with
  | some (_, name) =>
    setExtension (path.toList.take (path.toList.length - (extension name).length)) ext
  | none => path

example : withExtension "dir/host_key" "rsa" = "dir/host_key.rsa" ∧
    withExtension "dir/host_key.pem/." "rsa" = "dir/host_key.rsa" ∧
    withExtension "dir/.own" "rsa" = "dir/.own.rsa" ∧
    withExtension (join "dir" "") "rsa" = "dir.rsa" ∧
    withExtension "dir/..a" "rsa" = "dir/.." := by
  decide

/-! ### The key files -/

/-- The contents of the files that keys can be in. -/
abbrev KeyFiles (F : Type) := F → Option Document

/-- The third-party functions on keys, what the fingerprint is made with, and the file that a path
leads to. -/
structure KeyCodec (K F : Type) where
  /-- `russh_keys::encode_pkcs8_pem` and `russh_keys::decode_secret_key`. -/
  encodePem : K → Except String Document
  decodePem : String → Except String K
  /-- `Sha256`, and `base64::engine::general_purpose::STANDARD_NO_PAD`. -/
  sha256 : Document → List UInt8
  base64NoPad : List UInt8 → String
  file : String → F

variable {K F : Type}

/-- A key is read back from what it is written as. -/
def KeyCodec.Inverts (C : KeyCodec K F) : Prop :=
  ∀ k d, C.encodePem k = .ok d → ∃ s, fromUtf8 d = .ok s ∧ C.decodePem s = .ok k

/-- What happens to one of the keys: the key that is generated, and the faults of the system calls;
a write that fails, or that the program does not survive, has written some bytes. -/
structure KeyIo (K : Type) where
  read : Option String
  generated : Option K
  createDirAll : Option String
  create : Option String
  write : Option (ℕ × String)

/-- `load_or_create`, for one key; `failed` is what is said when no key can be generated. -/
def loadOrCreateKey [DecidableEq F] (C : KeyCodec K F) (io : KeyIo K) (failed path : String)
    (files : KeyFiles F) : Except String K × KeyFiles F :=
  match files (C.file path) with
  | some pem =>
    match io.read with
    | some e => (.error e, files)
    | none => (fromUtf8 pem >>= C.decodePem, files)
  | none =>
    match io.generated with
    | none => (.error failed, files)
    | some kp =>
      match C.encodePem kp with
      | .error e => (.error e, files)
      | .ok buf =>
        match io.createDirAll with
        | some e => (.error e, files)
        | none =>
          match io.create with
          | some e => (.error e, files)
          | none =>
            match io.write with
            | some (n, e) => (.error e, Function.update files (C.file path) (some (buf.take n)))
            | none => (.ok kp, Function.update files (C.file path) (some buf))

/-- `load_or_create`: the Ed25519 key, and then the RSA key. -/
def loadOrCreate [DecidableEq F] (C : KeyCodec K F) (ed rsa : KeyIo K) (path : String)
    (files : KeyFiles F) : Except String (List K) × KeyFiles F :=
  match loadOrCreateKey C ed "gen ed25519 failed" (withExtension path "ed25519") files with
  | (.error e, files) => (.error e, files)
  | (.ok ed25519, files) =>
    match loadOrCreateKey C rsa "gen rsa failed" (withExtension path "rsa") files with
    | (.error e, files) => (.error e, files)
    | (.ok rsa, files) => (.ok [ed25519, rsa], files)

/-- `fingerprint`. -/
def fingerprint (C : KeyCodec K F) (kp : K) : Except String String := do
  return "SHA256:" ++ C.base64NoPad (C.sha256 (← C.encodePem kp))

/-- The file holds the key. -/
def Holds (C : KeyCodec K F) (files : KeyFiles F) (path : String) (k : K) : Prop :=
  ∃ pem, files (C.file path) = some pem ∧ (fromUtf8 pem >>= C.decodePem) = .ok k

theorem Holds.unique {C : KeyCodec K F} {files : KeyFiles F} {path : String} {k k' : K}
    (h : Holds C files path k) (h' : Holds C files path k') : k = k' := by
  obtain ⟨pem, hpem, hk⟩ := h
  obtain ⟨pem', hpem', hk'⟩ := h'
  rw [hpem] at hpem'
  obtain rfl := Option.some_inj.1 hpem'
  exact Except.ok.inj (hk.symm.trans hk')

/-- Every file that there is stays as it is. -/
def Keeps (files files' : KeyFiles F) : Prop :=
  ∀ file pem, files file = some pem → files' file = some pem

theorem Keeps.refl (files : KeyFiles F) : Keeps files files := fun _ _ h => h

theorem Keeps.trans {files files' files'' : KeyFiles F} (h : Keeps files files')
    (h' : Keeps files' files'') : Keeps files files'' := fun file pem hp =>
  h' file pem (h file pem hp)

theorem Keeps.update [DecidableEq F] {files : KeyFiles F} {file : F} (h : files file = none)
    (pem : Document) : Keeps files (Function.update files file (some pem)) := by
  intro file' pem' hp
  have hne : file' ≠ file := by
    rintro rfl
    rw [h] at hp
    cases hp
  rw [Function.update_of_ne hne]
  exact hp

theorem Holds.keeps {C : KeyCodec K F} {files files' : KeyFiles F} {path : String} {k : K}
    (h : Holds C files path k) (hk : Keeps files files') : Holds C files' path k := by
  obtain ⟨pem, hpem, hd⟩ := h
  exact ⟨pem, hk _ pem hpem, hd⟩

/-- What the handling of one key does to the files. -/
theorem loadOrCreateKey_keeps [DecidableEq F] (C : KeyCodec K F) (io : KeyIo K)
    (failed path : String) (files : KeyFiles F) :
    Keeps files (loadOrCreateKey C io failed path files).2 := by
  unfold loadOrCreateKey
  cases hf : files (C.file path) with
  | some pem =>
      cases io.read with
      | some e => exact .refl files
      | none => exact .refl files
  | none =>
      cases io.generated with
      | none => exact .refl files
      | some kp =>
          dsimp only
          cases C.encodePem kp with
          | error e => exact .refl files
          | ok buf =>
              cases io.createDirAll with
              | some e => exact .refl files
              | none =>
                  cases io.create with
                  | some e => exact .refl files
                  | none =>
                      cases io.write with
                      | some x => exact .update hf _
                      | none => exact .update hf _

/-- A key that is shown is the one that the file holds. -/
theorem loadOrCreateKey_holds [DecidableEq F] {C : KeyCodec K F} (hC : C.Inverts) {io : KeyIo K}
    {failed path : String} {files files' : KeyFiles F} {k : K}
    (h : loadOrCreateKey C io failed path files = (.ok k, files')) : Holds C files' path k := by
  unfold loadOrCreateKey at h
  cases hf : files (C.file path) with
  | some pem =>
      rw [hf] at h
      cases hr : io.read with
      | some e => rw [hr] at h; cases h
      | none =>
          rw [hr] at h
          obtain ⟨hk, rfl⟩ := Prod.mk.inj h
          exact ⟨pem, hf, hk⟩
  | none =>
      rw [hf] at h
      cases hg : io.generated with
      | none => rw [hg] at h; cases h
      | some kp =>
          rw [hg] at h
          dsimp only at h
          cases he : C.encodePem kp with
          | error e => rw [he] at h; cases h
          | ok buf =>
              rw [he] at h
              cases hd : io.createDirAll with
              | some e => rw [hd] at h; cases h
              | none =>
                  rw [hd] at h
                  cases hc : io.create with
                  | some e => rw [hc] at h; cases h
                  | none =>
                      rw [hc] at h
                      cases hw : io.write with
                      | some x => rw [hw] at h; cases h
                      | none =>
                          rw [hw] at h
                          obtain ⟨hk, rfl⟩ := Prod.mk.inj h
                          obtain rfl := Except.ok.inj hk
                          obtain ⟨s, hs, hdec⟩ := hC kp buf he
                          refine ⟨buf, Function.update_self .., ?_⟩
                          rw [hs]
                          exact hdec

/-- **A key file is never written again**, whatever happens. -/
theorem loadOrCreate_keeps [DecidableEq F] (C : KeyCodec K F) (ed rsa : KeyIo K) (path : String)
    (files : KeyFiles F) : Keeps files (loadOrCreate C ed rsa path files).2 := by
  have hed := loadOrCreateKey_keeps C ed "gen ed25519 failed" (withExtension path "ed25519") files
  unfold loadOrCreate
  generalize
    loadOrCreateKey C ed "gen ed25519 failed" (withExtension path "ed25519") files = r at hed
  obtain ⟨e | k, files'⟩ := r
  · exact hed
  · have hrsa := loadOrCreateKey_keeps C rsa "gen rsa failed" (withExtension path "rsa") files'
    dsimp only
    generalize loadOrCreateKey C rsa "gen rsa failed" (withExtension path "rsa") files' = r at hrsa
    obtain ⟨e | k', files''⟩ := r
    · exact hed.trans hrsa
    · exact hed.trans hrsa

/-- The two files hold these keys. -/
def Settled (C : KeyCodec K F) (files : KeyFiles F) (path : String) (keys : List K) : Prop :=
  ∃ k k', keys = [k, k'] ∧ Holds C files (withExtension path "ed25519") k ∧
    Holds C files (withExtension path "rsa") k'

theorem Settled.keeps {C : KeyCodec K F} {files files' : KeyFiles F} {path : String}
    {keys : List K} (h : Settled C files path keys) (hk : Keeps files files') :
    Settled C files' path keys := by
  obtain ⟨k, k', hkeys, hed, hrsa⟩ := h
  exact ⟨k, k', hkeys, hed.keeps hk, hrsa.keeps hk⟩

/-- **What is shown is what the files hold.** -/
theorem loadOrCreate_settled [DecidableEq F] {C : KeyCodec K F} (hC : C.Inverts)
    {ed rsa : KeyIo K} {path : String} {files files' : KeyFiles F} {keys : List K}
    (h : loadOrCreate C ed rsa path files = (.ok keys, files')) : Settled C files' path keys := by
  unfold loadOrCreate at h
  cases hed : loadOrCreateKey C ed "gen ed25519 failed" (withExtension path "ed25519") files with
  | mk r mid =>
      rw [hed] at h
      cases r with
      | error e => cases h
      | ok k =>
          dsimp only at h
          have hkeep := loadOrCreateKey_keeps C rsa "gen rsa failed" (withExtension path "rsa") mid
          cases hrsa : loadOrCreateKey C rsa "gen rsa failed" (withExtension path "rsa") mid with
          | mk r' last =>
              rw [hrsa] at h hkeep
              cases r' with
              | error e => cases h
              | ok k' =>
                  obtain ⟨hkeys, rfl⟩ := Prod.mk.inj h
                  exact ⟨k, k', (Except.ok.inj hkeys).symm,
                    (loadOrCreateKey_holds hC hed).keeps hkeep, loadOrCreateKey_holds hC hrsa⟩

/-! ### Lives -/

/-- The configuration directory and the key files. -/
structure Disk (F : Type) where
  fs : Fs
  files : KeyFiles F

/-- What a life shows to its clients and to its user. -/
structure Shown (K : Type) where
  keys : List K
  fpr : String

/-- The first key has the fingerprint. -/
def Shown.Fingerprinted (C : KeyCodec K F) (x : Shown K) : Prop :=
  ∃ k, x.keys.head? = some k ∧ fingerprint C k = .ok x.fpr

section Lives

variable [DecidableEq F] (C : Codec) (D : KeyCodec K F) (dir : String)

/-- A start with the configuration directory `dir` loads `stored`, and comes to show `x`. -/
def Opens (disk : Disk F) (stored : Config) (x : Shown K) (files : KeyFiles F) : Prop :=
  loadOrDefault C disk.fs = .ok stored ∧ (∃ ed rsa,
    loadOrCreate D ed rsa (join dir stored.server.hostKeyPath) disk.files = (.ok x.keys, files)) ∧
    x.Fingerprinted D

/-- **The histories** that begin with the disk `first`: the disk, and what has been shown.  A start
may fail before it shows anything; after that the program may end at once, or at any moment of its
run. -/
inductive Lives (first : Disk F) : Disk F → List (Shown K) → Prop
  | nil : Lives first first []
  | fails {disk : Disk F} {shown : List (Shown K)} {stored : Config} (ed rsa : KeyIo K) :
      Lives first disk shown → loadOrDefault C disk.fs = .ok stored →
      Lives first
        ⟨disk.fs, (loadOrCreate D ed rsa (join dir stored.server.hostKeyPath) disk.files).2⟩ shown
  | ends {disk : Disk F} {shown : List (Shown K)} {stored : Config} {x : Shown K}
      {files : KeyFiles F} : Lives first disk shown → Opens C D dir disk stored x files →
      Lives first ⟨disk.fs, files⟩ (shown ++ [x])
  | runs {disk : Disk F} {shown : List (Shown K)} {stored : Config} {x : Shown K}
      {files : KeyFiles F} {w₀ w : World} {p : Prog World (Except AppError Unit)} {written : Bool} :
      Lives first disk shown → Opens C D dir disk stored x files → BootsFrom C stored w₀ →
      w₀.fs = disk.fs → w₀.app.hostKeyFpr = x.fpr → Moment C w₀ p w written →
      Lives first ⟨w.fs, files⟩ (shown ++ [x])

end Lives

/-! ### The file at the end of a life -/

/-- At every moment the configuration has been written by the program, or is the one it
has found. -/
theorem Moment.file {C : Codec} {stored : Config} {w₀ : World} (hboot : w₀.HasSettings stored)
    (hfs : FsOk w₀.fs) {p : Prog World (Except AppError Unit)} {w : World} {written : Bool}
    (h : Moment C w₀ p w written) : w.Wrote C stored ∨ w.fs.readConfig = w₀.fs.readConfig := by
  have persist : ∀ {w : World} (io : SaveIo), w.HasSettings stored → FsOk w.fs →
      (w.Wrote C stored ∨ w.fs.readConfig = w₀.fs.readConfig) →
      (w.persist C io).2.Wrote C stored ∨
        (w.persist C io).2.fs.readConfig = w₀.fs.readConfig := by
    intro w io hs hok hw
    obtain ⟨-, -, hwrote | ⟨-, hsame⟩⟩ := hs.persist C hok io
    · exact .inl hwrote
    · obtain ⟨c, d, hd, hread, hc⟩ | hread := hw
      · exact .inl ⟨c, d, hd, hsame.trans hread, hc⟩
      · exact .inr (hsame.trans hread)
  induction h with
  | start => exact .inr rfl
  | call c io _ ih => exact ih
  | taskEnds t _ ih => exact ih
  | step hm _ ih =>
      have hkept := Moment.kept C hboot hfs hm
      obtain ⟨io, rfl⟩ | hu := hkept.updates.1
      · exact persist io hkept.settings hkept.fsOk ih
      · unfold World.Wrote
        rw [(hu _).1]
        exact ih
  | saved io hm _ _ ih =>
      have hkept := Moment.kept C hboot hfs hm
      exact persist io hkept.settings hkept.fsOk ih

/-! ### The identity -/

/-- The life has shown the keys in the files of the path. -/
def ShownAt (D : KeyCodec K F) (files : KeyFiles F) (path : String) (x : Shown K) : Prop :=
  Settled D files path x.keys ∧ x.Fingerprinted D

theorem ShownAt.keeps {D : KeyCodec K F} {files files' : KeyFiles F} {path : String} {x : Shown K}
    (h : ShownAt D files path x) (hk : Keeps files files') : ShownAt D files' path x :=
  ⟨h.1.keeps hk, h.2⟩

/-- Two paths that lead to the same files. -/
def SameFiles (D : KeyCodec K F) (path path' : String) : Prop :=
  D.file (withExtension path "ed25519") = D.file (withExtension path' "ed25519") ∧
    D.file (withExtension path "rsa") = D.file (withExtension path' "rsa")

/-- The files decide what is shown. -/
theorem ShownAt.unique {D : KeyCodec K F} {files : KeyFiles F} {path path' : String}
    {x y : Shown K} (hsame : SameFiles D path path') (hx : ShownAt D files path x)
    (hy : ShownAt D files path' y) : x = y := by
  obtain ⟨⟨k, k', hkeys, ⟨pem, hpem, hed⟩, ⟨pem', hpem', hrsa⟩⟩, l, hl, hfx⟩ := hx
  obtain ⟨⟨m, m', hkeysy, hedy, hrsay⟩, l', hl', hfy⟩ := hy
  obtain rfl := Holds.unique ⟨pem, hsame.1 ▸ hpem, hed⟩ hedy
  obtain rfl := Holds.unique ⟨pem', hsame.2 ▸ hpem', hrsa⟩ hrsay
  have hkeq : x.keys = y.keys := hkeys.trans hkeysy.symm
  rw [hkeq, hl'] at hl
  obtain rfl := Option.some_inj.1 hl
  have hfpr : x.fpr = y.fpr := Except.ok.inj (hfx.symm.trans hfy)
  cases x
  cases y
  obtain rfl := hkeq
  obtain rfl := hfpr
  rfl

/-- What is known of a history that began with the path `path₀`: what has been shown so far is that
of the first path, and then that of the path the program writes, which the next start will load. -/
structure Traced (C : Codec) (D : KeyCodec K F) (dir path₀ : String) (disk : Disk F)
    (old new : List (Shown K)) : Prop where
  fsOk : FsOk disk.fs
  old_at : ∀ x ∈ old, ShownAt D disk.files (join dir path₀) x
  new_at : ∀ x ∈ new, ShownAt D disk.files (join dir "host_key") x
  next : ∃ stored, loadOrDefault C disk.fs = .ok stored ∧
    (stored.server.hostKeyPath = "host_key" ∨ new = [] ∧ stored.server.hostKeyPath = path₀)

variable {C : Codec} {D : KeyCodec K F} {dir path₀ : String} {disk : Disk F}
  {old new : List (Shown K)}

/-- New key files do not change what has been shown. -/
theorem Traced.keeps (h : Traced C D dir path₀ disk old new) {files : KeyFiles F}
    (hk : Keeps disk.files files) : Traced C D dir path₀ ⟨disk.fs, files⟩ old new where
  fsOk := h.fsOk
  old_at x hx := (h.old_at x hx).keeps hk
  new_at x hx := (h.new_at x hx).keeps hk
  next := h.next

/-- A life shows what the files hold. -/
theorem Opens.shownAt [DecidableEq F] (hD : D.Inverts) {stored : Config} {x : Shown K}
    {files : KeyFiles F} (h : Opens C D dir disk stored x files) :
    Keeps disk.files files ∧ ShownAt D files (join dir stored.server.hostKeyPath) x := by
  obtain ⟨-, ⟨ed, rsa, hkeys⟩, hfpr⟩ := h
  have hkeep := loadOrCreate_keeps D ed rsa (join dir stored.server.hostKeyPath) disk.files
  rw [hkeys] at hkeep
  exact ⟨hkeep, loadOrCreate_settled hD hkeys, hfpr⟩

/-- **One life more**: what it shows goes to the old or to the new. -/
theorem Traced.opens [DecidableEq F] (hD : D.Inverts) (h : Traced C D dir path₀ disk old new)
    {stored : Config} {x : Shown K} {files : KeyFiles F} (hx : Opens C D dir disk stored x files) :
    ∃ old' new', old' ++ new' = old ++ new ++ [x] ∧
      Traced C D dir path₀ ⟨disk.fs, files⟩ old' new' := by
  obtain ⟨hkeep, hat⟩ := hx.shownAt hD
  have hk := h.keeps hkeep
  obtain ⟨stored', hload, hpath⟩ := h.next
  obtain rfl := Except.ok.inj (hload.symm.trans hx.1)
  obtain hpath | ⟨rfl, hpath⟩ := hpath
  · rw [hpath] at hat
    refine ⟨old, new ++ [x], (List.append_assoc ..).symm, ?_⟩
    refine ⟨hk.fsOk, hk.old_at, ?_, _, hload, .inl hpath⟩
    intro y hy
    rcases List.mem_append.1 hy with hy | hy
    · exact hk.new_at y hy
    · exact List.mem_singleton.1 hy ▸ hat
  · rw [hpath] at hat
    refine ⟨old ++ [x], [], by simp, ?_⟩
    refine ⟨hk.fsOk, ?_, nofun, _, hload, .inr ⟨rfl, hpath⟩⟩
    intro y hy
    rcases List.mem_append.1 hy with hy | hy
    · exact hk.old_at y hy
    · exact List.mem_singleton.1 hy ▸ hat

/-- **Every history is traced.** -/
theorem Lives.traced [DecidableEq F] (hC : C.Inverts) (hD : D.Inverts) {first : Disk F}
    (hfs : FsOk first.fs) {stored₀ : Config} (hload : loadOrDefault C first.fs = .ok stored₀)
    {shown : List (Shown K)} (h : Lives C D dir first disk shown) :
    ∃ old new, shown = old ++ new ∧ Traced C D dir stored₀.server.hostKeyPath disk old new := by
  induction h with
  | nil =>
      exact ⟨[], [], rfl, hfs, nofun, nofun, stored₀, hload, .inr ⟨rfl, rfl⟩⟩
  | fails ed rsa _ _ ih =>
      obtain ⟨old, new, hshown, ht⟩ := ih
      exact ⟨old, new, hshown, ht.keeps (loadOrCreate_keeps D ed rsa _ _)⟩
  | ends _ hx ih =>
      obtain ⟨old, new, rfl, ht⟩ := ih
      obtain ⟨old', new', hshown, ht'⟩ := ht.opens hD hx
      exact ⟨old', new', hshown.symm, ht'⟩
  | runs _ hx hboot hw₀ _ hm ih =>
      obtain ⟨old, new, rfl, ht⟩ := ih
      obtain ⟨old', new', hshown, ht'⟩ := ht.opens hD hx
      have hok : FsOk _ := hw₀ ▸ ht.fsOk
      have hkept := Moment.kept C (hboot.hasSettings C) hok hm
      refine ⟨old', new', hshown.symm, hkept.fsOk, ht'.old_at, ht'.new_at, ?_⟩
      obtain ⟨c, d, hd, hread, hc⟩ | hread := Moment.file (hboot.hasSettings C) hok hm
      · refine ⟨c, loadOrDefault_document hC hd hread, .inl ?_⟩
        rw [hc.1, writtenServer]
      · obtain ⟨stored, hstored, hpath⟩ := ht'.next
        rw [hw₀] at hread
        exact ⟨stored, (loadOrDefault_congr hread).trans hstored, hpath⟩

/-- **The host changes its identity at most once.**  In every history, with failures and crashes at
any point, the lives fall into two parts, and all lives of a part have shown the same keys and the
same fingerprint.  If the configured path leads to the files of the path that the program writes,
all lives have. -/
theorem identity_changes_once [DecidableEq F] (hC : C.Inverts) (hD : D.Inverts) {first : Disk F}
    (hfs : FsOk first.fs) {stored₀ : Config} (hload : loadOrDefault C first.fs = .ok stored₀)
    {shown : List (Shown K)} (h : Lives C D dir first disk shown) :
    (∃ old new, shown = old ++ new ∧ (∀ x ∈ old, ∀ y ∈ old, x = y) ∧
      ∀ x ∈ new, ∀ y ∈ new, x = y) ∧
    (SameFiles D (join dir stored₀.server.hostKeyPath) (join dir "host_key") →
      ∀ x ∈ shown, ∀ y ∈ shown, x = y) := by
  obtain ⟨old, new, rfl, ht⟩ := h.traced hC hD hfs hload
  have hold : ∀ x ∈ old, ∀ y ∈ old, x = y := fun x hx y hy =>
    (ht.old_at x hx).unique ⟨rfl, rfl⟩ (ht.old_at y hy)
  have hnew : ∀ x ∈ new, ∀ y ∈ new, x = y := fun x hx y hy =>
    (ht.new_at x hx).unique ⟨rfl, rfl⟩ (ht.new_at y hy)
  refine ⟨⟨old, new, rfl, hold, hnew⟩, fun hsame x hx y hy => ?_⟩
  have hacross : ∀ x ∈ old, ∀ y ∈ new, x = y := fun x hx y hy =>
    (ht.old_at x hx).unique hsame (ht.new_at y hy)
  rcases List.mem_append.1 hx with hx | hx <;> rcases List.mem_append.1 hy with hy | hy
  · exact hold x hx y hy
  · exact hacross x hx y hy
  · exact (hacross y hy x hx).symm
  · exact hnew x hx y hy

/-- Keys that are truth values, and files that are told by their paths. -/
def boolKeys : KeyCodec Bool String where
  encodePem k := .ok (asBytes (if k then "1" else "0"))
  decodePem s := if s = "1" then .ok true else if s = "0" then .ok false else .error "not a key"
  sha256 d := d
  base64NoPad b := toString b.length
  file path := path

theorem boolKeys_inverts : boolKeys.Inverts := by
  intro k d h
  obtain rfl := Except.ok.inj h
  refine ⟨_, fromUtf8_asBytes _, ?_⟩
  cases k <;> decide

/-- A start that offers these keys, and that no fault meets. -/
def offers (k : Bool) : KeyIo Bool := ⟨none, some k, none, none, none⟩

/-- The key files after the first start. -/
def firstKeys : KeyFiles String :=
  Function.update (Function.update (fun _ => none) "termhub/host_key.ed25519" (some (asBytes "1")))
    "termhub/host_key.rsa" (some (asBytes "0"))

theorem identity_changes_once_two : ∃ (disk : Disk String) (shown : List (Shown Bool)),
    Lives (knownCodec [defaultConfig]) boolKeys "termhub" ⟨Fs.empty, fun _ => none⟩ disk shown ∧
      shown.length = 2 ∧ ∀ x ∈ shown, ∀ y ∈ shown, x = y := by
  have hC : (knownCodec [defaultConfig]).Inverts := by
    refine knownCodec_inverts fun c hc c' hc' _ => ?_
    rw [List.mem_singleton.1 hc, List.mem_singleton.1 hc']
  have hed : withExtension (join "termhub" "host_key") "ed25519" = "termhub/host_key.ed25519" := by
    decide
  have hrsa : withExtension (join "termhub" "host_key") "rsa" = "termhub/host_key.rsa" := by
    decide
  -- the second start offers other keys than the first
  have hfirst : Opens (knownCodec [defaultConfig]) boolKeys "termhub" ⟨Fs.empty, fun _ => none⟩
      defaultConfig ⟨[true, false], "SHA256:1"⟩ firstKeys := by
    refine ⟨rfl, ⟨offers true, offers false, ?_⟩, true, rfl, rfl⟩
    rw [loadOrCreate, show defaultConfig.server.hostKeyPath = "host_key" from rfl, hed, hrsa]
    rfl
  have hsecond : Opens (knownCodec [defaultConfig]) boolKeys "termhub" ⟨Fs.empty, firstKeys⟩
      defaultConfig ⟨[true, false], "SHA256:1"⟩ firstKeys := by
    refine ⟨rfl, ⟨offers false, offers true, ?_⟩, true, rfl, rfl⟩
    rw [loadOrCreate, show defaultConfig.server.hostKeyPath = "host_key" from rfl, hed, hrsa]
    rfl
  have hlives := (Lives.nil.ends hfirst).ends hsecond
  have hload : loadOrDefault (knownCodec [defaultConfig]) Fs.empty = .ok defaultConfig := rfl
  have hsame : SameFiles boolKeys (join "termhub" defaultConfig.server.hostKeyPath)
      (join "termhub" "host_key") := ⟨rfl, rfl⟩
  exact ⟨_, _, hlives, rfl,
    (identity_changes_once hC boolKeys_inverts Saves.fsOk_empty hload hlives).2 hsame⟩

end HostKey

end TermHub
