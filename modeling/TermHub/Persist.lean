/-
**Writing and reading `config.toml`.**

`termhub-core/src/persist.rs` and `termhub-core/src/secrets.rs`.  Passwords are encrypted before
the document is built; the document is written to `config.toml.tmp`, which is then renamed over
`config.toml`.

The file system is modelled by inodes, because the temporary file has one fixed name: opening it
truncates the inode that is already there, and a rename moves the directory entry, not the
contents.  The serializer, base64 and the operating system's data protection are not part of the
repository and enter as the fields of `Codec`.

Main definitions: `Codec`, `Fs`, `SaveIo`, `encrypt`, `decrypt`, `redactForSave`,
`unredactAfterLoad`, `loadOrDefault` and `save`.

Main results:

* `save_ok_iff` — **a save succeeds exactly if the document can be written down and the system
  raises no fault**.
-/

import TermHub.Config

set_option relaxedAutoImplicit false
set_option autoImplicit false

namespace TermHub

/-- The bytes of a file. -/
abbrev Document := List UInt8

/-- The third-party functions the persistence layer calls. -/
structure Codec where
  /-- `cfg!(target_os = "windows")`. -/
  windows : Bool
  /-- `CryptProtectData` and `CryptUnprotectData`. -/
  protect : List UInt8 → Except String (List UInt8)
  unprotect : List UInt8 → Except String (List UInt8)
  /-- `base64::engine::general_purpose::STANDARD`. -/
  base64Encode : List UInt8 → String
  base64Decode : String → Except String (List UInt8)
  /-- `toml::to_string_pretty` and `toml::from_str`. -/
  toStringPretty : Config → Except String Document
  fromStr : Document → Except String Config

/-! ### Secrets -/

/-- The UTF-8 bytes of a string. -/
def asBytes (s : String) : List UInt8 := s.toUTF8.data.toList

/-- `String::from_utf8`. -/
def fromUtf8 (b : List UInt8) : Except String String :=
  match String.fromUTF8? ⟨b.toArray⟩ with
  | some s => .ok s
  | none => .error "invalid utf-8 sequence"

/-- `encrypt`: data protection and base64 on Windows, a marked base64 string elsewhere. -/
def encrypt (C : Codec) (plain : String) : Except String String :=
  if C.windows then (C.protect (asBytes plain)).map C.base64Encode
  else .ok ("plain:" ++ C.base64Encode (asBytes plain))

/-- `decrypt`. -/
def decrypt (C : Codec) (blob : String) : Except String String :=
  if C.windows then do
    let bytes ← C.base64Decode blob
    fromUtf8 (← C.unprotect bytes)
  else do
    let raw := ((blob.dropPrefix? "plain:").map fun s => s.toString).getD blob
    fromUtf8 (← C.base64Decode raw)

/-- Apply `f` to the passwords of a session, the one of an SSH upstream included. -/
def mapPasswords (f : String → Except String String) (s : SessionConfig) :
    Except String SessionConfig := do
  let password ← f s.password
  match s.upstream with
  | .ssh host port user upPassword =>
      return { s with password, upstream := .ssh host port user (← f upPassword) }
  | _ => return { s with password }

/-- `redact_for_save`. -/
def redactForSave (C : Codec) (cfg : Config) : Except String Config := do
  return { cfg with sessions := ← cfg.sessions.mapM (mapPasswords (encrypt C)) }

/-- `unredact_after_load`. -/
def unredactAfterLoad (C : Codec) (cfg : Config) : Except String Config := do
  return { cfg with sessions := ← cfg.sessions.mapM (mapPasswords (decrypt C)) }

/-! ### The configuration directory -/

/-- The configuration directory: the contents of the inodes, and the inodes that the two names
refer to. -/
structure Fs where
  inodes : List Document
  configToml : Option ℕ
  configTomlTmp : Option ℕ
  deriving DecidableEq, Repr

namespace Fs

/-- A directory with neither file. -/
def empty : Fs := ⟨[], none, none⟩

/-- The contents of `config.toml`. -/
def readConfig (fs : Fs) : Option Document := fs.configToml.bind fun i => fs.inodes[i]?

/-- `File::create` on `config.toml.tmp`: truncate the inode there is, or make one. -/
def createTmp (fs : Fs) : ℕ × Fs :=
  match fs.configTomlTmp with
  | some i => (i, { fs with inodes := fs.inodes.set i [] })
  | none => (fs.inodes.length,
      { fs with inodes := fs.inodes ++ [[]], configTomlTmp := some fs.inodes.length })

/-- `write_all` through a handle that stands at the start of the inode `i`. -/
def writeAll (i : ℕ) (d : Document) (fs : Fs) : Fs :=
  { fs with inodes := fs.inodes.modify i fun old => d ++ old.drop d.length }

/-- `rename` of `config.toml.tmp` to `config.toml`. -/
def renameTmp (fs : Fs) : Except String Unit × Fs :=
  match fs.configTomlTmp with
  | some i => (.ok (), { fs with configToml := some i, configTomlTmp := none })
  | none => (.error "No such file or directory (os error 2)", fs)

end Fs

/-- The faults that the operating system may raise in one `save`; a failed write has written some
bytes already. -/
structure SaveIo where
  createDirAll : Option String
  create : Option String
  write : Option (ℕ × String)
  rename : Option String
  deriving DecidableEq, Repr

/-- No fault. -/
def SaveIo.none : SaveIo := ⟨.none, .none, .none, .none⟩

/-- `save`. -/
def save (C : Codec) (io : SaveIo) (cfg : Config) (fs : Fs) : Except String Unit × Fs :=
  match io.createDirAll with
  | some e => (.error e, fs)
  | none =>
    match redactForSave C cfg >>= C.toStringPretty with
    | .error e => (.error e, fs)
    | .ok s =>
      match io.create with
      | some e => (.error e, fs)
      | none =>
        let (i, fs) := fs.createTmp
        match io.write with
        | some (n, e) => (.error e, fs.writeAll i (s.take n))
        | none =>
          let fs := fs.writeAll i s
          match io.rename with
          | some e => (.error e, fs)
          | none => fs.renameTmp

/-- The configuration used when there is no file. -/
def defaultConfig : Config where
  server := ⟨"0.0.0.0:2222", "host_key", 16, "127.0.0.1:2223"⟩
  ui := UiConfig.default
  sessions := []

/-- `load_or_default`. -/
def loadOrDefault (C : Codec) (fs : Fs) : Except String Config :=
  match fs.readConfig with
  | none => .ok defaultConfig
  | some d => do unredactAfterLoad C (← C.fromStr d)

/-! ### When a save succeeds -/

/-- The document can be written down. -/
def Codec.Writes (C : Codec) (cfg : Config) : Prop :=
  ∃ s, (redactForSave C cfg >>= C.toStringPretty) = .ok s

/-- The rename at the end of a save finds the file that the save has created. -/
theorem Fs.renameTmp_createTmp (fs : Fs) (d : Document) :
    ((fs.createTmp.2.writeAll fs.createTmp.1 d).renameTmp).1 = .ok () := by
  unfold Fs.createTmp Fs.writeAll Fs.renameTmp
  cases h : fs.configTomlTmp with
  | none => rfl
  | some i => simp only

/-- **A save succeeds exactly if the document can be written down and no fault is raised.** -/
theorem save_ok_iff (C : Codec) (io : SaveIo) (cfg : Config) (fs : Fs) :
    (save C io cfg fs).1 = .ok () ↔ C.Writes cfg ∧ io = SaveIo.none := by
  obtain ⟨dir, create, write, rename⟩ := io
  unfold save Codec.Writes SaveIo.none
  cases dir with
  | some e => simp
  | none =>
      cases hdoc : redactForSave C cfg >>= C.toStringPretty with
      | error e => simp
      | ok s =>
          cases create with
          | some e => simp
          | none =>
              cases write with
              | some x => simp
              | none =>
                  cases rename with
                  | some e => simp
                  | none => simp [Fs.renameTmp_createTmp]

end TermHub
