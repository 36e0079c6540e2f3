/-
**What a save has written, a load reads back.**

`save` and `load_or_default` of `termhub-core/src/persist.rs` as one round trip.  It rests on the
crates that are not part of the repository: each of them must invert its own output.

Main definitions:

* `Codec.Inverts` — toml, base64 and the data protection of Windows invert their own output;
* `EncryptedConfig` — the value that the document is made of;
* `knownCodec` — the codec of the systems other than Windows, on the documents of given
  configurations.

Main results:

* `decrypt_encrypt` — a secret that has been encrypted is decrypted again;
* `save_cases` — **a save has written the whole document, or it has left `config.toml` alone**;
* `loadOrDefault_document` — **a document is loaded as the configuration it was made of**;
* `save_load` — **a save that succeeds can be loaded, and one that fails has changed nothing**;
* `knownCodec_inverts` — the hypothesis can be met.
-/

import TermHub.ConcurrentSaves
import TermHub.PlainCodec

set_option relaxedAutoImplicit false
set_option autoImplicit false

namespace TermHub

open Saves (FsOk)

/-- The third-party functions invert their own output. -/
structure Codec.Inverts (C : Codec) : Prop where
  base64 : ∀ b, C.base64Decode (C.base64Encode b) = .ok b
  protect : ∀ b b', C.protect b = .ok b' → C.unprotect b' = .ok b
  toml : ∀ c d, C.toStringPretty c = .ok d → C.fromStr d = .ok c

/-! ### Computations that succeed -/

theorem bind_ok {ε α β : Type} {x : Except ε α} {f : α → Except ε β} {b : β}
    (h : x >>= f = .ok b) : ∃ a, x = .ok a ∧ f a = .ok b := by
  cases x with
  | error e => cases h
  | ok a => exact ⟨a, rfl, h⟩

theorem map_ok {ε α β : Type} {x : Except ε α} {f : α → β} {b : β} (h : x.map f = .ok b) :
    ∃ a, x = .ok a ∧ f a = b := by
  cases x with
  | error e => cases h
  | ok a => exact ⟨a, rfl, Except.ok.inj h⟩

/-! ### Secrets -/

theorem fromUtf8_asBytes (s : String) : fromUtf8 (asBytes s) = .ok s := by
  have h : (⟨(asBytes s).toArray⟩ : ByteArray) = s.toByteArray := by
    simp [asBytes, String.toUTF8]
  unfold fromUtf8 String.fromUTF8?
  rw [h, dif_pos s.isValidUTF8]
  rfl

/-- The mark in front of a string is found. -/
theorem dropPrefix?_append (p s : String) :
    ((p ++ s).dropPrefix? p).map (fun t => t.toString) = some s := by
  cases h : (p ++ s).dropPrefix? p with
  | none =>
      rw [String.dropPrefix?_eq_dropPrefix?_toSlice, String.Slice.dropPrefix?_eq_none_iff,
        String.startsWith_toSlice, String.startsWith_string_eq_false_iff] at h
      simp at h
  | some t =>
      have ht := String.eq_append_of_dropPrefix?_string_eq_some h
      rw [String.append_right_inj] at ht
      rw [Option.map_some, ht]
      rfl

/-- **A secret survives encryption**, on Windows and elsewhere. -/
theorem decrypt_encrypt {C : Codec} (hC : C.Inverts) {plain blob : String}
    (h : encrypt C plain = .ok blob) : decrypt C blob = .ok plain := by
  unfold encrypt at h
  unfold decrypt
  by_cases hw : C.windows = true
  · rw [if_pos hw] at h ⊢
    obtain ⟨b, hb, rfl⟩ := map_ok h
    simp only [hC.base64]
    change (C.unprotect b >>= fromUtf8) = _
    rw [hC.protect _ _ hb]
    exact fromUtf8_asBytes plain
  · rw [if_neg hw] at h ⊢
    obtain rfl := Except.ok.inj h
    simp only [dropPrefix?_append, Option.getD_some, hC.base64]
    exact fromUtf8_asBytes plain

/-- What inverts the change of a password inverts the change of a session. -/
theorem mapPasswords_inverse {f g : String → Except String String}
    (hfg : ∀ p q, f p = .ok q → g q = .ok p) {s s' : SessionConfig}
    (h : mapPasswords f s = .ok s') : mapPasswords g s' = .ok s := by
  obtain ⟨name, password, sshUser, listen, autoReconnect, launch, pty, upstream⟩ := s
  obtain ⟨q, hq, h⟩ := bind_ok h
  cases upstream with
  | ssh host port user up =>
      obtain ⟨q', hq', h⟩ := bind_ok h
      obtain rfl := Except.ok.inj h
      simp only [mapPasswords, hfg _ _ hq, hfg _ _ hq']
      rfl
  | _ =>
      obtain rfl := Except.ok.inj h
      simp only [mapPasswords, hfg _ _ hq]
      rfl

theorem mapM_inverse {α β ε : Type} {f : α → Except ε β} {g : β → Except ε α}
    (hfg : ∀ a b, f a = .ok b → g b = .ok a) {l : List α} {l' : List β}
    (h : l.mapM f = .ok l') : l'.mapM g = .ok l := by
  induction l generalizing l' with
  | nil =>
      obtain rfl := Except.ok.inj h
      rfl
  | cons a l ih =>
      rw [List.mapM_cons] at h
      obtain ⟨b, hb, h⟩ := bind_ok h
      obtain ⟨r, hr, h⟩ := bind_ok h
      obtain rfl := Except.ok.inj h
      rw [List.mapM_cons, hfg a b hb, ih hr]
      rfl

/-- What redacting keeps. -/
theorem redactForSave_ok {C : Codec} {c r : Config} (h : redactForSave C c = .ok r) :
    c.sessions.mapM (mapPasswords (encrypt C)) = .ok r.sessions ∧ r.server = c.server ∧
      r.ui = c.ui := by
  obtain ⟨l, hl, h⟩ := bind_ok h
  obtain rfl := Except.ok.inj h
  exact ⟨hl, rfl, rfl⟩

/-- **Redacting can be undone.** -/
theorem unredact_redact {C : Codec} (hC : C.Inverts) {c r : Config}
    (h : redactForSave C c = .ok r) : unredactAfterLoad C r = .ok c := by
  obtain ⟨hl, hserver, hui⟩ := redactForSave_ok h
  have hback := mapM_inverse (fun s s' => mapPasswords_inverse fun p q => decrypt_encrypt hC) hl
  unfold unredactAfterLoad
  rw [hback, hserver, hui]
  rfl

/-! ### The file -/

/-- The document of a configuration: what is written to `config.toml`. -/
def Codec.document (C : Codec) (c : Config) : Except String Document :=
  redactForSave C c >>= C.toStringPretty

/-- A text written to a file that has just been opened is all of its contents. -/
theorem writeAll_of_empty {fs : Fs} {i : ℕ} (h : fs.inodes[i]? = some []) (d : Document) :
    fs.writeAll i d = { fs with inodes := fs.inodes.set i d } := by
  unfold Fs.writeAll
  rw [List.modify_eq_set, h]
  simp

/-- **A save has written the whole document, or it has left `config.toml` alone.** -/
theorem save_cases (C : Codec) (io : SaveIo) (c : Config) {fs : Fs} (hfs : FsOk fs) :
    FsOk (save C io c fs).2 ∧
      ((∃ d, C.document c = .ok d ∧ (save C io c fs).1 = .ok () ∧
        (save C io c fs).2.readConfig = some d) ∨
        ∃ e, (save C io c fs).1 = .error e ∧ (save C io c fs).2.readConfig = fs.readConfig) := by
  have hcr := hfs.createTmp
  have hcontent := Saves.createTmp_content hfs
  have htmp := Saves.createTmp_tmp fs
  -- what has been written to the temporary file does not show in the other one
  have hset : ∀ d, ({ fs.createTmp.2 with
      inodes := fs.createTmp.2.inodes.set fs.createTmp.1 d } : Fs).readConfig = fs.readConfig :=
    fun d => (Saves.readConfig_set hcr htmp d).trans (Saves.readConfig_createTmp hfs)
  unfold save
  cases io.createDirAll with
  | some e => exact ⟨hfs, .inr ⟨e, rfl, rfl⟩⟩
  | none =>
      cases hd : redactForSave C c >>= C.toStringPretty with
      | error e => exact ⟨hfs, .inr ⟨e, rfl, rfl⟩⟩
      | ok d =>
          cases io.create with
          | some e => exact ⟨hfs, .inr ⟨e, rfl, rfl⟩⟩
          | none =>
              simp only [writeAll_of_empty hcontent]
              cases io.write with
              | some x => exact ⟨hcr.set _, .inr ⟨x.2, rfl, hset _⟩⟩
              | none =>
                  cases io.rename with
                  | some e => exact ⟨hcr.set _, .inr ⟨e, rfl, hset _⟩⟩
                  | none =>
                      have hren : ({ fs.createTmp.2 with
                          inodes := fs.createTmp.2.inodes.set fs.createTmp.1 d } : Fs).renameTmp =
                            (.ok (), _) := Saves.renameTmp_some htmp
                      rw [hren]
                      refine ⟨(hcr.set d).rename htmp, .inl ⟨d, hd, rfl, ?_⟩⟩
                      exact List.getElem?_set_self (List.getElem?_eq_some_iff.1 hcontent).1

/-- What is loaded depends on the file in place alone. -/
theorem loadOrDefault_congr {C : Codec} {fs fs' : Fs} (h : fs.readConfig = fs'.readConfig) :
    loadOrDefault C fs = loadOrDefault C fs' := by
  unfold loadOrDefault
  rw [h]

/-- **A document is loaded as the configuration it was made of.** -/
theorem loadOrDefault_document {C : Codec} (hC : C.Inverts) {c : Config} {fs : Fs} {d : Document}
    (h : C.document c = .ok d) (hfs : fs.readConfig = some d) : loadOrDefault C fs = .ok c := by
  obtain ⟨r, hr, hd⟩ := bind_ok h
  unfold loadOrDefault
  rw [hfs]
  simp only [hC.toml r d hd]
  exact unredact_redact hC hr

/-! ### The round trip -/

/-- An upstream whose password, if it has one, is replaced by its image under encryption. -/
inductive EncryptedUpstream (C : Codec) : UpstreamSpec → UpstreamSpec → Prop
  | ssh {host user password blob : String} {port : UInt16} :
      encrypt C password = .ok blob →
        EncryptedUpstream C (.ssh host port user password) (.ssh host port user blob)
  | other {u : UpstreamSpec} :
      (∀ host port user password, u ≠ .ssh host port user password) → EncryptedUpstream C u u

/-- The session `r` is `s` but for its passwords, which are images under encryption. -/
structure EncryptedSession (C : Codec) (s r : SessionConfig) : Prop where
  password : encrypt C s.password = .ok r.password
  upstream : EncryptedUpstream C s.upstream r.upstream
  rest : r = { s with password := r.password, upstream := r.upstream }

theorem mapPasswords_encrypted {C : Codec} {s r : SessionConfig}
    (h : mapPasswords (encrypt C) s = .ok r) : EncryptedSession C s r := by
  obtain ⟨name, password, sshUser, listen, autoReconnect, launch, pty, upstream⟩ := s
  obtain ⟨q, hq, h⟩ := bind_ok h
  cases upstream with
  | ssh host port user up =>
      obtain ⟨q', hq', h⟩ := bind_ok h
      obtain rfl := Except.ok.inj h
      exact ⟨hq, .ssh hq', rfl⟩
  | _ =>
      obtain rfl := Except.ok.inj h
      exact ⟨hq, .other nofun, rfl⟩

theorem mapM_forall₂ {α β ε : Type} {f : α → Except ε β} {R : α → β → Prop}
    (hR : ∀ a b, f a = .ok b → R a b) {l : List α} {l' : List β}
    (h : l.mapM f = .ok l') : List.Forall₂ R l l' := by
  induction l generalizing l' with
  | nil =>
      obtain rfl := Except.ok.inj h
      exact .nil
  | cons a l ih =>
      rw [List.mapM_cons] at h
      obtain ⟨b, hb, h⟩ := bind_ok h
      obtain ⟨r, hr, h⟩ := bind_ok h
      obtain rfl := Except.ok.inj h
      exact .cons (hR a b hb) (ih hr)

/-- The configuration `r` is `c` but for the passwords of its sessions and of their upstreams. -/
structure EncryptedConfig (C : Codec) (c r : Config) : Prop where
  server : r.server = c.server
  ui : r.ui = c.ui
  sessions : List.Forall₂ (EncryptedSession C) c.sessions r.sessions

theorem redactForSave_encrypted {C : Codec} {c r : Config} (h : redactForSave C c = .ok r) :
    EncryptedConfig C c r := by
  obtain ⟨hl, hserver, hui⟩ := redactForSave_ok h
  exact ⟨hserver, hui, mapM_forall₂ (fun _ _ => mapPasswords_encrypted) hl⟩

/-- **A save that succeeds can be loaded, and one that fails has changed nothing.**  The document
that has been written is that of a value in which every password is encrypted. -/
theorem save_load {C : Codec} (hC : C.Inverts) {fs : Fs} (hfs : FsOk fs) (io : SaveIo)
    (c : Config) :
    ((save C io c fs).1 = .ok () → loadOrDefault C (save C io c fs).2 = .ok c ∧
      ∃ r d, EncryptedConfig C c r ∧ C.toStringPretty r = .ok d ∧
        (save C io c fs).2.readConfig = some d) ∧
    ∀ e, (save C io c fs).1 = .error e → (save C io c fs).2.readConfig = fs.readConfig ∧
      loadOrDefault C (save C io c fs).2 = loadOrDefault C fs := by
  obtain ⟨-, ⟨d, hd, hok, hread⟩ | ⟨e, herr, hread⟩⟩ := save_cases C io c hfs
  · refine ⟨fun _ => ⟨loadOrDefault_document hC hd hread, ?_⟩, fun e herr => ?_⟩
    · obtain ⟨r, hr, htext⟩ := bind_ok hd
      exact ⟨r, d, redactForSave_encrypted hr, htext, hread⟩
    · rw [hok] at herr
      cases herr
  · refine ⟨fun hok => ?_, fun _ _ => ⟨hread, ?_⟩⟩
    · rw [herr] at hok
      cases hok
    · unfold loadOrDefault
      rw [hread]

/-! ### A codec that reads back what it has written -/

/-- The six-bit value of a character. -/
def base64Value (c : Char) : Option ℕ :=
  if 'A' ≤ c ∧ c ≤ 'Z' then some (c.toNat - 'A'.toNat)
  else if 'a' ≤ c ∧ c ≤ 'z' then some (c.toNat - 'a'.toNat + 26)
  else if '0' ≤ c ∧ c ≤ '9' then some (c.toNat - '0'.toNat + 52)
  else if c = '+' then some 62
  else if c = '/' then some 63
  else none

/-- The bytes of groups of four characters, the last of which may be padded. -/
def base64Bytes : List Char → Option (List UInt8)
  | [] => some []
  | c₁ :: c₂ :: c₃ :: c₄ :: rest => do
    let a ← base64Value c₁
    let b ← base64Value c₂
    if c₃ = '=' then
      if c₄ = '=' ∧ rest = [] then some [UInt8.ofNat (a * 4 + b / 16)] else none
    else
      let c ← base64Value c₃
      if c₄ = '=' then
        if rest = [] then some [UInt8.ofNat (a * 4 + b / 16), UInt8.ofNat (b % 16 * 16 + c / 4)]
        else none
      else
        let d ← base64Value c₄
        let more ← base64Bytes rest
        some (UInt8.ofNat (a * 4 + b / 16) :: UInt8.ofNat (b % 16 * 16 + c / 4) ::
          UInt8.ofNat (c % 4 * 64 + d) :: more)
  | _ => none

/-- `STANDARD.decode`. -/
def base64Decode (s : String) : Except String (List UInt8) :=
  match base64Bytes s.toList with
  | some b => .ok b
  | none => .error "Invalid byte"

theorem base64Value_base64Char {n : ℕ} (h : n < 64) : base64Value (base64Char n) = some n :=
  (by decide +kernel : ∀ i : Fin 64, base64Value (base64Char i) = some i.val) ⟨n, h⟩

/-- No value is written as the padding. -/
theorem base64Char_ne {n : ℕ} (h : n < 64) : base64Char n ≠ '=' := by
  intro he
  have hv := base64Value_base64Char h
  rw [he] at hv
  cases hv

theorem ofNat_eq {a : UInt8} {n : ℕ} (h : n = a.toNat) : UInt8.ofNat n = a := by
  rw [h, UInt8.ofNat_toNat]

section Groups

variable {w x y z : ℕ}

/-- A full group stands for three bytes. -/
theorem base64Bytes_full (hw : w < 64) (hx : x < 64) (hy : y < 64) (hz : z < 64)
    (rest : List Char) :
    base64Bytes (base64Char w :: base64Char x :: base64Char y :: base64Char z :: rest) =
      (base64Bytes rest).map fun more => UInt8.ofNat (w * 4 + x / 16) ::
        UInt8.ofNat (x % 16 * 16 + y / 4) :: UInt8.ofNat (y % 4 * 64 + z) :: more := by
  simp only [base64Bytes, base64Value_base64Char hw, base64Value_base64Char hx,
    base64Value_base64Char hy, base64Value_base64Char hz, if_neg (base64Char_ne hy),
    if_neg (base64Char_ne hz), Option.bind_eq_bind, Option.bind_some]
  cases base64Bytes rest with
  | none => rfl
  | some more => rfl

/-- A group with one padding stands for two bytes. -/
theorem base64Bytes_two (hw : w < 64) (hx : x < 64) (hy : y < 64) :
    base64Bytes [base64Char w, base64Char x, base64Char y, '='] =
      some [UInt8.ofNat (w * 4 + x / 16), UInt8.ofNat (x % 16 * 16 + y / 4)] := by
  simp only [base64Bytes, base64Value_base64Char hw, base64Value_base64Char hx,
    base64Value_base64Char hy, if_neg (base64Char_ne hy), Option.bind_eq_bind, Option.bind_some,
    if_true]

/-- A group with two paddings stands for one byte. -/
theorem base64Bytes_one (hw : w < 64) (hx : x < 64) :
    base64Bytes [base64Char w, base64Char x, '=', '='] =
      some [UInt8.ofNat (w * 4 + x / 16)] := by
  simp only [base64Bytes, base64Value_base64Char hw, base64Value_base64Char hx,
    Option.bind_eq_bind, Option.bind_some, and_self, if_true]

end Groups

/-- **Decoding inverts encoding**, group by group. -/
theorem base64Bytes_base64Chars (bytes : List UInt8) :
    base64Bytes (base64Chars bytes) = some bytes := by
  induction bytes using base64Chars.induct with
  | case1 a b c rest ih =>
      have ha := a.toNat_lt
      have hb := b.toNat_lt
      have hc := c.toNat_lt
      rw [base64Chars]
      rw [base64Bytes_full (by omega) (by omega) (by omega) (by omega), ih, Option.map_some,
        ofNat_eq (a := a) (by omega), ofNat_eq (a := b) (by omega), ofNat_eq (a := c) (by omega)]
  | case2 a b =>
      have ha := a.toNat_lt
      have hb := b.toNat_lt
      rw [base64Chars]
      rw [base64Bytes_two (by omega) (by omega) (by omega), ofNat_eq (a := a) (by omega),
        ofNat_eq (a := b) (by omega)]
  | case3 a =>
      have ha := a.toNat_lt
      rw [base64Chars]
      rw [base64Bytes_one (by omega) (by omega), ofNat_eq (a := a) (by omega)]
  | case4 => rfl

theorem base64Decode_base64Encode (b : List UInt8) : base64Decode (base64Encode b) = .ok b := by
  unfold base64Decode base64Encode
  rw [String.toList_ofList, base64Bytes_base64Chars]

/-- The codec of the systems other than Windows on the documents of the configurations `known`:
their texts are those of `plainCodec`, and a text is read by looking it up. -/
def knownCodec (known : List Config) : Codec :=
  { plainCodec with
    base64Decode := base64Decode
    toStringPretty := fun c => if c ∈ known then .ok (asBytes c.toToml) else .error "not known"
    fromStr := fun d =>
      match known.find? fun c => asBytes c.toToml = d with
      | some c => .ok c
      | none => .error "not known" }

/-- One session that logs in at another host. -/
def jumpSession (password upPassword : String) : SessionConfig where
  name := "jump"
  password := password
  sshUser := "jump"
  listen := "0.0.0.0:2302"
  autoReconnect := true
  launchOnStartup := true
  ptyOverride := some ⟨80, 24⟩
  upstream := .ssh "10.0.0.1" 22 "root" upPassword

theorem knownCodec_toStringPretty {known : List Config} {c : Config} (h : c ∈ known) :
    (knownCodec known).toStringPretty c = .ok (asBytes c.toToml) := if_pos h

/-- **Codecs that invert their output exist**: this one does when the texts are different. -/
theorem knownCodec_inverts {known : List Config} (h : ∀ c ∈ known, ∀ c' ∈ known,
    asBytes c'.toToml = asBytes c.toToml → c' = c) : (knownCodec known).Inverts where
  base64 := base64Decode_base64Encode
  protect b b' hb := by cases hb
  toml c d hd := by
    simp only [knownCodec] at hd ⊢
    split at hd
    · rename_i hc
      obtain rfl := Except.ok.inj hd
      cases hf : known.find? fun c' => decide (asBytes c'.toToml = asBytes c.toToml) with
      | none => simpa using List.find?_eq_none.1 hf c hc
      | some c' =>
          have htext := List.find?_some hf
          rw [h c hc c' (List.mem_of_find?_eq_some hf) (of_decide_eq_true htext)]
    · cases hd

/-- The first save of one session with two passwords. -/
theorem save_load_ssh : ∃ C : Codec, C.Inverts ∧
    loadOrDefault C (save C SaveIo.none { defaultConfig with
      sessions := [jumpSession "pass" "plain:root"] } Fs.empty).2 =
        .ok { defaultConfig with sessions := [jumpSession "pass" "plain:root"] } := by
  let saved : Config := { defaultConfig with sessions := [jumpSession
    ("plain:" ++ base64Encode (asBytes "pass")) ("plain:" ++ base64Encode (asBytes "plain:root"))] }
  have hC : (knownCodec [saved]).Inverts := by
    refine knownCodec_inverts fun c hc c' hc' _ => ?_
    rw [List.mem_singleton.1 hc, List.mem_singleton.1 hc']
  refine ⟨knownCodec [saved], hC, ((save_load hC Saves.fsOk_empty SaveIo.none _).1 ?_).1⟩
  refine (save_ok_iff _ _ _ _).2 ⟨⟨asBytes saved.toToml, ?_⟩, rfl⟩
  exact knownCodec_toStringPretty (List.mem_singleton_self saved)

end TermHub
