/-
**The codec of the systems other than Windows.**

There the passwords in `config.toml` are base64 strings behind a mark, and nothing else stands
between the configuration and the document.  This is the codec on which the concrete runs of the
development are carried out.

Main definitions:

* `base64Encode` — the standard alphabet, with padding;
* `Config.toToml` — the pretty-printed document, for strings that need no multi-line or literal
  form;
* `plainCodec`.

Main results:

* `plainCodec_writes` — with this codec every document can be written down.
-/

import TermHub.Persist

set_option relaxedAutoImplicit false
set_option autoImplicit false

namespace TermHub

/-! ### Base64 -/

/-- The character of a six-bit value. -/
def base64Char (n : ℕ) : Char :=
  if n < 26 then Char.ofNat ('A'.toNat + n)
  else if n < 52 then Char.ofNat ('a'.toNat + (n - 26))
  else if n < 62 then Char.ofNat ('0'.toNat + (n - 52))
  else if n = 62 then '+' else '/'

/-- Three bytes become four characters; the last group is padded. -/
def base64Chars : List UInt8 → List Char
  | a :: b :: c :: rest =>
    let n := a.toNat * 65536 + b.toNat * 256 + c.toNat
    base64Char (n / 262144) :: base64Char (n / 4096 % 64) :: base64Char (n / 64 % 64) ::
      base64Char (n % 64) :: base64Chars rest
  | [a, b] =>
    let n := a.toNat * 1024 + b.toNat * 4
    [base64Char (n / 4096), base64Char (n / 64 % 64), base64Char (n % 64), '=']
  | [a] =>
    let n := a.toNat * 16
    [base64Char (n / 64), base64Char (n % 64), '=', '=']
  | [] => []

/-- `STANDARD.encode`. -/
def base64Encode (bytes : List UInt8) : String := String.ofList (base64Chars bytes)

/-! ### The document -/

/-- A basic string of TOML. -/
def tomlString (s : String) : String :=
  "\"" ++ String.join (s.toList.map fun c =>
    if c = '\x22' then "\\\"" else if c = '\\' then "\\\\" else if c = '\n' then "\\n"
    else if c = '\r' then "\\r" else if c = '\t' then "\\t" else c.toString) ++ "\""

/-- A line `key = value`. -/
def tomlLine (key value : String) : String := key ++ " = " ++ value ++ "\n"

/-- The fields of an upstream, after its tag. -/
def UpstreamSpec.toToml : UpstreamSpec → String
  | .loopback => tomlLine "type" "\"loopback\""
  | .serial port baud dataBits parity stopBits flow inputEol outputEol =>
    tomlLine "type" "\"serial\"" ++ tomlLine "port" (tomlString port) ++
      tomlLine "baud" (toString baud) ++ tomlLine "data_bits" (toString dataBits) ++
      tomlLine "parity" (tomlString parity) ++ tomlLine "stop_bits" (toString stopBits) ++
      tomlLine "flow" (tomlString flow) ++ tomlLine "input_eol" (tomlString inputEol) ++
      tomlLine "output_eol" (tomlString outputEol)
  | .ssh host port user password =>
    tomlLine "type" "\"ssh\"" ++ tomlLine "host" (tomlString host) ++
      tomlLine "port" (toString port) ++ tomlLine "user" (tomlString user) ++
      tomlLine "password" (tomlString password)
  | .telnet host port =>
    tomlLine "type" "\"telnet\"" ++ tomlLine "host" (tomlString host) ++
      tomlLine "port" (toString port)
  | .rawTcp host port =>
    tomlLine "type" "\"raw_tcp\"" ++ tomlLine "host" (tomlString host) ++
      tomlLine "port" (toString port)
  | .localShell command args =>
    tomlLine "type" "\"local_shell\"" ++ tomlLine "command" (tomlString command) ++
      tomlLine "args" ("[" ++ String.join (args.map fun a => "\n    " ++ tomlString a ++ ",") ++
        (if args.isEmpty then "]" else "\n]"))
  | .httpProxy listen target protocol =>
    tomlLine "type" "\"http_proxy\"" ++ tomlLine "listen" (tomlString listen) ++
      tomlLine "target" (tomlString target) ++ tomlLine "protocol" (tomlString protocol)

/-- The tables of one session. -/
def SessionConfig.toToml (s : SessionConfig) : String :=
  "\n[[sessions]]\n" ++ tomlLine "name" (tomlString s.name) ++
    tomlLine "password" (tomlString s.password) ++ tomlLine "ssh_user" (tomlString s.sshUser) ++
    tomlLine "listen" (tomlString s.listen) ++
    tomlLine "auto_reconnect" (toString s.autoReconnect) ++
    tomlLine "launch_on_startup" (toString s.launchOnStartup) ++
    (match s.ptyOverride with
      | some p => "\n[sessions.pty_override]\n" ++ tomlLine "cols" (toString p.cols) ++
        tomlLine "rows" (toString p.rows)
      | none => "") ++
    "\n[sessions.upstream]\n" ++ s.upstream.toToml

/-- The document of a configuration. -/
def Config.toToml (c : Config) : String :=
  (if c.sessions.isEmpty then "sessions = []\n\n" else "") ++
    "[server]\n" ++ tomlLine "listen" (tomlString c.server.listen) ++
    tomlLine "host_key_path" (tomlString c.server.hostKeyPath) ++
    tomlLine "max_clients_per_session" (toString c.server.maxClientsPerSession) ++
    tomlLine "api_listen" (tomlString c.server.apiListen) ++
    "\n[ui]\n" ++ tomlLine "start_minimized" (toString c.ui.startMinimized) ++
    tomlLine "auto_start" (toString c.ui.autoStart) ++
    String.join (c.sessions.map SessionConfig.toToml)

/-- The codec.  Nothing is read back with it, so its two decoders refuse everything. -/
def plainCodec : Codec where
  windows := false
  protect := fun _ => .error "not available"
  unprotect := fun _ => .error "not available"
  base64Encode := base64Encode
  base64Decode := fun _ => .error "not available"
  toStringPretty := fun c => .ok (asBytes c.toToml)
  fromStr := fun _ => .error "not available"

/-! ### Saving -/

theorem mapM_mapPasswords_ok {f : String → Except String String} (hf : ∀ p, ∃ q, f p = .ok q)
    (l : List SessionConfig) : ∃ l', l.mapM (mapPasswords f) = .ok l' := by
  induction l with
  | nil => exact ⟨[], rfl⟩
  | cons s l ih =>
      obtain ⟨l', hl'⟩ := ih
      have hs : ∃ s', mapPasswords f s = .ok s' := by
        obtain ⟨q, hq⟩ := hf s.password
        unfold mapPasswords
        rw [hq]
        cases hu : s.upstream with
        | ssh host port user password =>
            obtain ⟨q', hq'⟩ := hf password
            exact ⟨_, by simp only [hq']; rfl⟩
        | _ => exact ⟨_, rfl⟩
      obtain ⟨s', hs'⟩ := hs
      exact ⟨s' :: l', by rw [List.mapM_cons, hs', hl']; rfl⟩

/-- Every document can be written down. -/
theorem plainCodec_writes (cfg : Config) : plainCodec.Writes cfg := by
  obtain ⟨l, hl⟩ := mapM_mapPasswords_ok (f := encrypt plainCodec) (fun p => ⟨_, rfl⟩)
    cfg.sessions
  refine ⟨asBytes { cfg with sessions := l }.toToml, ?_⟩
  unfold redactForSave
  rw [hl]
  rfl

end TermHub
