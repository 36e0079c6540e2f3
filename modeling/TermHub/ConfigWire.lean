/-
**The documents of the configuration.**

The `Serialize` and `Deserialize` of the records of `termhub-core/src/config.rs`, with their
attributes: the defaults of fields that a document leaves out, and the tag of an upstream.  The HTTP
API reads and writes a session as JSON; the whole configuration is the tree of `config.toml`, where
a terminal size that is not set is left out.

Main definitions:

* `PtySize`, `UpstreamSpec`, `SessionConfig`, `ServerConfig`, `UiConfig`, `Config`, each with its
  `fromValue`, and the first three with their `toValue`;
* `SessionConfig.document`, `Config.document` — the tree of `config.toml`;
* `UpstreamSpec.leaveOut`, `SessionConfig.leaveOut`, `ServerConfig.leaveOut`, `UiConfig.leaveOut`,
  `Config.leaveOut` — what is read when some of the optional fields are left out.

Main results:

* `session_config_reads` — **a session is read back from its fields alone**: in any order, next to
  unknown ones, and with the defaults for those that are left out;
* `config_reads` — the same for the whole configuration;
* `config_document` — **what is written to the configuration is read back**.
-/

import TermHub.Config
import TermHub.Serde
import TermHub.Views

set_option relaxedAutoImplicit false
set_option autoImplicit false

namespace TermHub

open Serde Members

/-! ### Upstreams -/

/-- The name of the variant, after `rename_all = "snake_case"`. -/
def UpstreamSpec.tag : UpstreamSpec → String
  | .loopback => "loopback"
  | .serial .. => "serial"
  | .ssh .. => "ssh"
  | .telnet .. => "telnet"
  | .rawTcp .. => "raw_tcp"
  | .localShell .. => "local_shell"
  | .httpProxy .. => "http_proxy"

/-- The fields of the variant. -/
def UpstreamSpec.fields : UpstreamSpec → List (String × Value)
  | .loopback => []
  | .serial port baud dataBits parity stopBits flow inputEol outputEol =>
    [("port", .str port), ("baud", .int baud.toNat), ("data_bits", .int dataBits.toNat),
      ("parity", .str parity), ("stop_bits", .int stopBits.toNat), ("flow", .str flow),
      ("input_eol", .str inputEol), ("output_eol", .str outputEol)]
  | .ssh host port user password =>
    [("host", .str host), ("port", .int port.toNat), ("user", .str user),
      ("password", .str password)]
  | .telnet host port => [("host", .str host), ("port", .int port.toNat)]
  | .rawTcp host port => [("host", .str host), ("port", .int port.toNat)]
  | .localShell command args =>
    [("command", .str command), ("args", .arr (args.map .str))]
  | .httpProxy listen target protocol =>
    [("listen", .str listen), ("target", .str target), ("protocol", .str protocol)]

/-- `Serialize` of `UpstreamSpec`. -/
def UpstreamSpec.toValue (u : UpstreamSpec) : Value := .obj (("type", .str u.tag) :: u.fields)

/-- The names of the fields of a variant, and how it is read from them. -/
def UpstreamSpec.variant : String → Option (List String × (Members → Option UpstreamSpec))
  | "loopback" => some ([], fun _ => some .loopback)
  | "serial" => some (["port", "baud", "data_bits", "parity", "stop_bits", "flow", "input_eol",
      "output_eol"], fun m => do
    return .serial (← m.required "port" Value.asStr) (← m.required "baud" Value.asU32)
      (← m.withDefault "data_bits" Value.asU8 8) (← m.withDefault "parity" Value.asStr "none")
      (← m.withDefault "stop_bits" Value.asU8 1) (← m.withDefault "flow" Value.asStr "none")
      (← m.withDefault "input_eol" Value.asStr "as_is")
      (← m.withDefault "output_eol" Value.asStr "as_is"))
  | "ssh" => some (["host", "port", "user", "password"], fun m => do
    return .ssh (← m.required "host" Value.asStr) (← m.required "port" Value.asU16)
      (← m.required "user" Value.asStr) (← m.required "password" Value.asStr))
  | "telnet" => some (["host", "port"], fun m => do
    return .telnet (← m.required "host" Value.asStr) (← m.required "port" Value.asU16))
  | "raw_tcp" => some (["host", "port"], fun m => do
    return .rawTcp (← m.required "host" Value.asStr) (← m.required "port" Value.asU16))
  | "local_shell" => some (["command", "args"], fun m => do
    return .localShell (← m.required "command" Value.asStr)
      (← m.withDefault "args" (Value.asList Value.asStr) []))
  | "http_proxy" => some (["listen", "target", "protocol"], fun m => do
    return .httpProxy (← m.required "listen" Value.asStr) (← m.required "target" Value.asStr)
      (← m.withDefault "protocol" Value.asStr "tcp"))
  | _ => none

/-- `Deserialize` of `UpstreamSpec`. -/
def UpstreamSpec.fromValue (v : Value) : Option UpstreamSpec := do
  let (tag, rest) ← v.tagged "type"
  let (names, read) ← variant tag
  read (← rest.members names)

/-- The fields that a document may leave out. -/
def UpstreamSpec.optional : UpstreamSpec → List String
  | .serial .. => ["data_bits", "parity", "stop_bits", "flow", "input_eol", "output_eol"]
  | .localShell .. => ["args"]
  | .httpProxy .. => ["protocol"]
  | _ => []

/-- The upstream with the defaults for the fields that are left out. -/
def UpstreamSpec.leaveOut (omitted : List String) : UpstreamSpec → UpstreamSpec
  | .serial port baud dataBits parity stopBits flow inputEol outputEol =>
    .serial port baud (if "data_bits" ∈ omitted then 8 else dataBits)
      (if "parity" ∈ omitted then "none" else parity)
      (if "stop_bits" ∈ omitted then 1 else stopBits)
      (if "flow" ∈ omitted then "none" else flow)
      (if "input_eol" ∈ omitted then "as_is" else inputEol)
      (if "output_eol" ∈ omitted then "as_is" else outputEol)
  | .localShell command args => .localShell command (if "args" ∈ omitted then [] else args)
  | .httpProxy listen target protocol =>
    .httpProxy listen target (if "protocol" ∈ omitted then "tcp" else protocol)
  | u => u

/-- The names of the fields. -/
def UpstreamSpec.names (u : UpstreamSpec) : List String := u.fields.map Prod.fst

theorem UpstreamSpec.names_nodup (u : UpstreamSpec) : u.names.Nodup := by
  cases u with
  | loopback => exact .nil
  | _ => simp [names, fields]

theorem UpstreamSpec.tag_notMem_names (u : UpstreamSpec) : "type" ∉ u.names := by
  cases u with
  | loopback => nofun
  | _ => simp [names, fields]

theorem UpstreamSpec.fromValue_eq {v rest : Value} {tag : String} {names : List String}
    {read : Members → Option UpstreamSpec} {m : Members}
    (htag : v.tagged "type" = some (tag, rest)) (hvar : variant tag = some (names, read))
    (hm : rest.members names = some m) : fromValue v = read m := by
  simp only [fromValue, htag, Option.bind_eq_bind, Option.bind_some, hvar, hm]

theorem asList_asStr (l : List String) :
    Value.asList Value.asStr (.arr (l.map .str)) = some l :=
  Value.mapM_map_some fun s _ => Value.asStr_str s

/-- **An upstream is read back from its fields alone.** -/
theorem UpstreamSpec.reads (u : UpstreamSpec) {omitted : List String} {fs : List (String × Value)}
    (homit : omitted ⊆ u.optional)
    (h : (known ("type" :: u.names) fs).Perm
      (("type", .str u.tag) :: u.fields.filter fun kv => decide (kv.1 ∉ omitted))) :
    UpstreamSpec.fromValue (.obj fs) = some (u.leaveOut omitted) := by
  obtain ⟨rest, htag, hm⟩ := tagged_perm h u.tag_notMem_names
    (fun kv hkv => List.mem_map_of_mem hkv) u.names_nodup
  have hreq {key : String} (hk : key ∉ u.optional) : key ∉ omitted := fun h => hk (homit h)
  cases u with
  | loopback => exact UpstreamSpec.fromValue_eq htag rfl hm
  | serial port baud dataBits parity stopBits flow inputEol outputEol =>
      rw [UpstreamSpec.fromValue_eq htag rfl hm]
      dsimp only [UpstreamSpec.fields]
      rw [required_leaving "port" Value.asStr (hreq (by simp [optional])) rfl (Value.asStr_str _),
        required_leaving "baud" Value.asU32 (hreq (by simp [optional])) rfl (Value.asU32_int _),
        withDefault_leaving "data_bits" Value.asU8 rfl (Value.asU8_int _),
        withDefault_leaving "parity" Value.asStr rfl (Value.asStr_str _),
        withDefault_leaving "stop_bits" Value.asU8 rfl (Value.asU8_int _),
        withDefault_leaving "flow" Value.asStr rfl (Value.asStr_str _),
        withDefault_leaving "input_eol" Value.asStr rfl (Value.asStr_str _),
        withDefault_leaving "output_eol" Value.asStr rfl (Value.asStr_str _)]
      rfl
  | ssh host port user password =>
      rw [UpstreamSpec.fromValue_eq htag rfl hm]
      dsimp only [UpstreamSpec.fields]
      rw [required_leaving "host" Value.asStr (hreq nofun) rfl (Value.asStr_str _),
        required_leaving "port" Value.asU16 (hreq nofun) rfl (Value.asU16_int _),
        required_leaving "user" Value.asStr (hreq nofun) rfl (Value.asStr_str _),
        required_leaving "password" Value.asStr (hreq nofun) rfl (Value.asStr_str _)]
      rfl
  | telnet host port | rawTcp host port =>
      rw [UpstreamSpec.fromValue_eq htag rfl hm]
      dsimp only [UpstreamSpec.fields]
      rw [required_leaving "host" Value.asStr (hreq nofun) rfl (Value.asStr_str _),
        required_leaving "port" Value.asU16 (hreq nofun) rfl (Value.asU16_int _)]
      rfl
  | localShell command args =>
      rw [UpstreamSpec.fromValue_eq htag rfl hm]
      dsimp only [UpstreamSpec.fields]
      rw [required_leaving "command" Value.asStr (hreq (by simp [optional])) rfl
          (Value.asStr_str _),
        withDefault_leaving "args" (Value.asList Value.asStr) rfl (asList_asStr _)]
      rfl
  | httpProxy listen target protocol =>
      rw [UpstreamSpec.fromValue_eq htag rfl hm]
      dsimp only [UpstreamSpec.fields]
      rw [required_leaving "listen" Value.asStr (hreq (by simp [optional])) rfl (Value.asStr_str _),
        required_leaving "target" Value.asStr (hreq (by simp [optional])) rfl (Value.asStr_str _),
        withDefault_leaving "protocol" Value.asStr rfl (Value.asStr_str _)]
      rfl

/-! ### Sessions -/

namespace PtySize

/-- The fields of a size. -/
def fields (p : PtySize) : List (String × Value) :=
  [("cols", .int p.cols.toNat), ("rows", .int p.rows.toNat)]

/-- `Serialize` of `PtySize`. -/
def toValue (p : PtySize) : Value := .obj p.fields

/-- `Deserialize` of `PtySize`. -/
def fromValue (v : Value) : Option PtySize := do
  let m ← v.members ["cols", "rows"]
  return ⟨← m.required "cols" Value.asU16, ← m.required "rows" Value.asU16⟩

theorem reads (p : PtySize) {fs : List (String × Value)}
    (h : (known ["cols", "rows"] fs).Perm p.fields) : fromValue (.obj fs) = some p := by
  have hm := members_omit [] p.fields (by simpa using h) (by simp [fields])
  rw [fromValue, hm, Option.bind_eq_bind, Option.bind_some]
  dsimp only [fields]
  rw [required_leaving "cols" Value.asU16 List.not_mem_nil rfl (Value.asU16_int _),
    required_leaving "rows" Value.asU16 List.not_mem_nil rfl (Value.asU16_int _)]
  rfl

end PtySize

namespace SessionConfig

/-- The names of the fields. -/
def names : List String :=
  ["name", "password", "ssh_user", "listen", "auto_reconnect", "launch_on_startup",
    "pty_override", "upstream"]

/-- The fields of a session, with documents of its size and of its upstream. -/
def fields (c : SessionConfig) (pty upstream : Value) : List (String × Value) :=
  [("name", .str c.name), ("password", .str c.password), ("ssh_user", .str c.sshUser),
    ("listen", .str c.listen), ("auto_reconnect", .bool c.autoReconnect),
    ("launch_on_startup", .bool c.launchOnStartup), ("pty_override", pty),
    ("upstream", upstream)]

/-- `null` or a size. -/
def ptyValue (c : SessionConfig) : Value :=
  match c.ptyOverride with
  | none => .null
  | some p => p.toValue

/-- `Serialize` of `SessionConfig`. -/
def toValue (c : SessionConfig) : Value := .obj (c.fields c.ptyValue c.upstream.toValue)

/-- `Deserialize` of `SessionConfig`. -/
def fromValue (v : Value) : Option SessionConfig := do
  let m ← v.members names
  return {
    name := ← m.required "name" Value.asStr
    password := ← m.required "password" Value.asStr
    sshUser := ← m.withDefault "ssh_user" Value.asStr "admin"
    listen := ← m.withDefault "listen" Value.asStr "0.0.0.0:2222"
    autoReconnect := ← m.withDefault "auto_reconnect" Value.asBool true
    launchOnStartup := ← m.withDefault "launch_on_startup" Value.asBool true
    ptyOverride := ← m.withDefault "pty_override" (Value.asOption PtySize.fromValue) none
    upstream := ← m.required "upstream" UpstreamSpec.fromValue }

/-- The fields that a document may leave out. -/
def optional : List String :=
  ["ssh_user", "listen", "auto_reconnect", "launch_on_startup", "pty_override"]

/-- The session with the defaults for the fields that are left out. -/
def leaveOut (omitted : List String) (c : SessionConfig) : SessionConfig :=
  { c with
    sshUser := if "ssh_user" ∈ omitted then "admin" else c.sshUser
    listen := if "listen" ∈ omitted then "0.0.0.0:2222" else c.listen
    autoReconnect := if "auto_reconnect" ∈ omitted then true else c.autoReconnect
    launchOnStartup := if "launch_on_startup" ∈ omitted then true else c.launchOnStartup
    ptyOverride := if "pty_override" ∈ omitted then none else c.ptyOverride }

theorem reads (c : SessionConfig) {omitted : List String} {fs : List (String × Value)}
    {pty upstream : Value} (homit : omitted ⊆ optional)
    (hpty : pty.asOption PtySize.fromValue = some c.ptyOverride)
    (hupstream : UpstreamSpec.fromValue upstream = some c.upstream)
    (h : (known names fs).Perm
      ((c.fields pty upstream).filter fun kv => decide (kv.1 ∉ omitted))) :
    fromValue (.obj fs) = some (c.leaveOut omitted) := by
  have hreq {key : String} (hk : key ∉ optional) : key ∉ omitted := fun h => hk (homit h)
  have hm := members_omit omitted (c.fields pty upstream) h (by simp [fields])
  rw [fromValue, hm, Option.bind_eq_bind, Option.bind_some]
  dsimp only [fields]
  rw [required_leaving "name" Value.asStr (hreq (by decide)) rfl (Value.asStr_str _),
    required_leaving "password" Value.asStr (hreq (by decide)) rfl (Value.asStr_str _),
    withDefault_leaving "ssh_user" Value.asStr rfl (Value.asStr_str _),
    withDefault_leaving "listen" Value.asStr rfl (Value.asStr_str _),
    withDefault_leaving "auto_reconnect" Value.asBool rfl (Value.asBool_bool _),
    withDefault_leaving "launch_on_startup" Value.asBool rfl (Value.asBool_bool _),
    withDefault_leaving "pty_override" (Value.asOption PtySize.fromValue) rfl hpty,
    required_leaving "upstream" UpstreamSpec.fromValue (hreq (by decide)) rfl hupstream]
  rfl

end SessionConfig

theorem known_eq_self {names : List String} {fs : List (String × Value)}
    (h : ∀ kv ∈ fs, kv.1 ∈ names) : known names fs = fs :=
  List.filter_eq_self.2 fun kv hkv => decide_eq_true (h kv hkv)

/-- An object that leaves nothing out. -/
theorem known_perm {names : List String} {fs : List (String × Value)}
    (h : ∀ kv ∈ fs, kv.1 ∈ names) :
    (known names fs).Perm (fs.filter fun kv => decide (kv.1 ∉ ([] : List String))) := by
  rw [known_eq_self h]
  simp

theorem UpstreamSpec.leaveOut_nil (u : UpstreamSpec) : u.leaveOut [] = u := by
  cases u with
  | serial | localShell | httpProxy => simp [leaveOut]
  | loopback | ssh | telnet | rawTcp => rfl

theorem UpstreamSpec.fromValue_toValue (u : UpstreamSpec) : fromValue u.toValue = some u := by
  have hnames : ∀ kv ∈ ("type", .str u.tag) :: u.fields, kv.1 ∈ "type" :: u.names := by
    intro kv hkv
    rcases List.mem_cons.1 hkv with rfl | hkv
    · exact List.mem_cons_self ..
    · exact List.mem_cons_of_mem _ (List.mem_map_of_mem hkv)
  have h : fromValue u.toValue = some (u.leaveOut []) :=
    u.reads (List.nil_subset _) (by simpa using known_perm hnames)
  rwa [u.leaveOut_nil] at h

theorem PtySize.fromValue_toValue (p : PtySize) : fromValue p.toValue = some p := by
  have hnames : ∀ kv ∈ p.fields, kv.1 ∈ ["cols", "rows"] := by simp [fields]
  exact p.reads (by simpa using known_perm hnames)

theorem SessionConfig.asOption_ptyValue (c : SessionConfig) :
    c.ptyValue.asOption PtySize.fromValue = some c.ptyOverride := by
  unfold ptyValue
  cases c.ptyOverride with
  | none => rfl
  | some p =>
      change (PtySize.fromValue p.toValue).map some = _
      rw [p.fromValue_toValue]
      rfl

/-- **A session is read back from its fields alone**, for every session and every document of it:
the fields of the session and those of its upstream may stand in any order and next to unknown ones,
and any of the optional ones may be left out, which then have their defaults. -/
theorem session_config_reads (c : SessionConfig) {omitted omitted' : List String}
    {fs us : List (String × Value)} (homit : omitted ⊆ SessionConfig.optional)
    (homit' : omitted' ⊆ c.upstream.optional)
    (hus : (known ("type" :: c.upstream.names) us).Perm (("type", .str c.upstream.tag) ::
      c.upstream.fields.filter fun kv => decide (kv.1 ∉ omitted')))
    (hfs : (known SessionConfig.names fs).Perm
      ((c.fields c.ptyValue (.obj us)).filter fun kv => decide (kv.1 ∉ omitted))) :
    SessionConfig.fromValue (.obj fs) =
      some { c.leaveOut omitted with upstream := c.upstream.leaveOut omitted' } :=
  SessionConfig.reads { c with upstream := c.upstream.leaveOut omitted' } homit
    c.asOption_ptyValue (c.upstream.reads homit' hus) hfs

/-- An upstream with its tag behind its fields. -/
def olderUpstream : List (String × Value) :=
  [("port", .int 23), ("host", .str "sw1.lan"), ("type", .str "telnet")]

/-- A session as an older version has written it, with a field that is not known. -/
def olderDocument : List (String × Value) :=
  [("upstream", .obj olderUpstream), ("colour", .str "green"), ("password", .str "secret"),
    ("name", .str "sw1")]

theorem session_config_reads_older : SessionConfig.fromValue (.obj olderDocument) =
    some ⟨"sw1", "secret", "admin", "0.0.0.0:2222", true, true, none, .telnet "sw1.lan" 23⟩ := by
  have hus : (known ["type", "host", "port"] olderUpstream).Perm
      [("type", .str "telnet"), ("host", .str "sw1.lan"), ("port", .int 23)] := by
    have hknown : known ["type", "host", "port"] olderUpstream = olderUpstream := rfl
    rw [hknown]
    exact (List.reverse_perm olderUpstream).symm
  have hfs : (known SessionConfig.names olderDocument).Perm
      [("name", .str "sw1"), ("password", .str "secret"), ("upstream", .obj olderUpstream)] := by
    have hknown : known SessionConfig.names olderDocument = [("upstream", .obj olderUpstream),
      ("password", .str "secret"), ("name", .str "sw1")] := rfl
    rw [hknown]
    exact (List.reverse_perm _).symm
  exact session_config_reads
    ⟨"sw1", "secret", "", "", false, false, none, .telnet "sw1.lan" 23⟩
    (List.Subset.refl SessionConfig.optional) (List.nil_subset _) hus hfs

/-- What `SessionConfig` is written as is read back. -/
theorem SessionConfig.fromValue_toValue (c : SessionConfig) : fromValue c.toValue = some c := by
  have hnames : ∀ kv ∈ c.fields c.ptyValue c.upstream.toValue, kv.1 ∈ names := by
    simp [fields, names]
  have h : fromValue c.toValue = some (c.leaveOut []) :=
    c.reads (List.nil_subset _) c.asOption_ptyValue c.upstream.fromValue_toValue
      (known_perm hnames)
  simpa [leaveOut] using h

/-! ### The configuration -/

namespace ServerConfig

/-- The names of the fields. -/
def names : List String := ["listen", "host_key_path", "max_clients_per_session", "api_listen"]

/-- The fields of the server. -/
def fields (c : ServerConfig) : List (String × Value) :=
  [("listen", .str c.listen), ("host_key_path", .str c.hostKeyPath),
    ("max_clients_per_session", .int c.maxClientsPerSession), ("api_listen", .str c.apiListen)]

/-- A `usize`. -/
def usizeBound : ℕ := 2 ^ 64

/-- `Deserialize` of `ServerConfig`. -/
def fromValue (v : Value) : Option ServerConfig := do
  let m ← v.members names
  return {
    listen := ← m.required "listen" Value.asStr
    hostKeyPath := ← m.withDefault "host_key_path" Value.asStr "host_key"
    maxClientsPerSession :=
      ← m.withDefault "max_clients_per_session" (Value.asNat usizeBound) 16
    apiListen := ← m.withDefault "api_listen" Value.asStr "127.0.0.1:2223" }

/-- The fields that a document may leave out. -/
def optional : List String := ["host_key_path", "max_clients_per_session", "api_listen"]

/-- The server with the defaults for the fields that are left out. -/
def leaveOut (omitted : List String) (c : ServerConfig) : ServerConfig where
  listen := c.listen
  hostKeyPath := if "host_key_path" ∈ omitted then "host_key" else c.hostKeyPath
  maxClientsPerSession :=
    if "max_clients_per_session" ∈ omitted then 16 else c.maxClientsPerSession
  apiListen := if "api_listen" ∈ omitted then "127.0.0.1:2223" else c.apiListen

theorem reads (c : ServerConfig) (hfit : c.maxClientsPerSession < usizeBound)
    {omitted : List String} {fs : List (String × Value)} (homit : omitted ⊆ optional)
    (h : (known names fs).Perm (c.fields.filter fun kv => decide (kv.1 ∉ omitted))) :
    fromValue (.obj fs) = some (c.leaveOut omitted) := by
  have hlisten : "listen" ∉ omitted := fun h => absurd (homit h) (by decide)
  have hm := members_omit omitted c.fields h (by simp [fields])
  rw [fromValue, hm, Option.bind_eq_bind, Option.bind_some]
  dsimp only [fields]
  rw [required_leaving "listen" Value.asStr hlisten rfl (Value.asStr_str _),
    withDefault_leaving "host_key_path" Value.asStr rfl (Value.asStr_str _),
    withDefault_leaving "max_clients_per_session" (Value.asNat usizeBound) rfl
      (Value.asNat_int hfit),
    withDefault_leaving "api_listen" Value.asStr rfl (Value.asStr_str _)]
  rfl

end ServerConfig

namespace UiConfig

/-- The names of the fields. -/
def names : List String := ["start_minimized", "auto_start"]

/-- The fields of the window. -/
def fields (c : UiConfig) : List (String × Value) :=
  [("start_minimized", .bool c.startMinimized), ("auto_start", .bool c.autoStart)]

/-- `Deserialize` of `UiConfig`. -/
def fromValue (v : Value) : Option UiConfig := do
  let m ← v.members names
  return ⟨← m.withDefault "start_minimized" Value.asBool false,
    ← m.withDefault "auto_start" Value.asBool false⟩

/-- The window with the defaults for the fields that are left out. -/
def leaveOut (omitted : List String) (c : UiConfig) : UiConfig where
  startMinimized := if "start_minimized" ∈ omitted then false else c.startMinimized
  autoStart := if "auto_start" ∈ omitted then false else c.autoStart

theorem reads (c : UiConfig) {omitted : List String} {fs : List (String × Value)}
    (h : (known names fs).Perm (c.fields.filter fun kv => decide (kv.1 ∉ omitted))) :
    fromValue (.obj fs) = some (c.leaveOut omitted) := by
  have hm := members_omit omitted c.fields h (by simp [fields])
  rw [fromValue, hm, Option.bind_eq_bind, Option.bind_some]
  dsimp only [fields]
  rw [withDefault_leaving "start_minimized" Value.asBool rfl (Value.asBool_bool _),
    withDefault_leaving "auto_start" Value.asBool rfl (Value.asBool_bool _)]
  rfl

end UiConfig

namespace Config

/-- The names of the fields. -/
def names : List String := ["server", "ui", "sessions"]

/-- The fields of a configuration, with documents of its sections. -/
def fields (server ui sessions : Value) : List (String × Value) :=
  [("server", server), ("ui", ui), ("sessions", sessions)]

/-- `Deserialize` of `Config`. -/
def fromValue (v : Value) : Option Config := do
  let m ← v.members names
  return {
    server := ← m.required "server" ServerConfig.fromValue
    ui := ← m.withDefault "ui" UiConfig.fromValue UiConfig.default
    sessions := ← m.withDefault "sessions" (Value.asList SessionConfig.fromValue) [] }

/-- The fields that a document may leave out. -/
def optional : List String := ["ui", "sessions"]

/-- The configuration with the defaults for the sections that are left out. -/
def leaveOut (omitted : List String) (c : Config) : Config where
  server := c.server
  ui := if "ui" ∈ omitted then UiConfig.default else c.ui
  sessions := if "sessions" ∈ omitted then [] else c.sessions

theorem reads (c : Config) {omitted : List String} {fs : List (String × Value)}
    {server ui sessions : Value} (homit : omitted ⊆ optional)
    (hserver : ServerConfig.fromValue server = some c.server)
    (hui : UiConfig.fromValue ui = some c.ui)
    (hsessions : sessions.asList SessionConfig.fromValue = some c.sessions)
    (h : (known names fs).Perm
      ((fields server ui sessions).filter fun kv => decide (kv.1 ∉ omitted))) :
    fromValue (.obj fs) = some (c.leaveOut omitted) := by
  have hreq : "server" ∉ omitted := fun h => absurd (homit h) (by decide)
  have hm := members_omit omitted (fields server ui sessions) h (by simp [fields])
  rw [fromValue, hm, Option.bind_eq_bind, Option.bind_some]
  dsimp only [fields]
  rw [required_leaving "server" ServerConfig.fromValue hreq rfl hserver,
    withDefault_leaving "ui" UiConfig.fromValue rfl hui,
    withDefault_leaving "sessions" (Value.asList SessionConfig.fromValue) rfl hsessions]
  rfl

end Config

/-- **The configuration is read back from its fields alone**: its sections, the fields of a section
and the unknown fields may stand in any order, any of the optional fields may be left out, and every
session may be written in any way in which it is read. -/
theorem config_reads (c : Config) (hfit : c.server.maxClientsPerSession < ServerConfig.usizeBound)
    {omitted ofServer ofUi : List String} {fs ss us : List (String × Value)} {vs : List Value}
    (homit : omitted ⊆ Config.optional) (homit' : ofServer ⊆ ServerConfig.optional)
    (hss : (known ServerConfig.names ss).Perm
      (c.server.fields.filter fun kv => decide (kv.1 ∉ ofServer)))
    (hus : (known UiConfig.names us).Perm (c.ui.fields.filter fun kv => decide (kv.1 ∉ ofUi)))
    (hvs : vs.mapM SessionConfig.fromValue = some c.sessions)
    (hfs : (known Config.names fs).Perm ((Config.fields (.obj ss) (.obj us) (.arr vs)).filter
      fun kv => decide (kv.1 ∉ omitted))) :
    Config.fromValue (.obj fs) = some (Config.leaveOut omitted
      ⟨c.server.leaveOut ofServer, c.ui.leaveOut ofUi, c.sessions⟩) := by
  have hsessions : (Value.arr vs).asList SessionConfig.fromValue = some c.sessions := hvs
  exact Config.reads ⟨c.server.leaveOut ofServer, c.ui.leaveOut ofUi, c.sessions⟩ homit
    (c.server.reads hfit homit' hss) (c.ui.reads hus) hsessions hfs

theorem config_reads_listen : Config.fromValue (.obj [("server", .obj [("listen", .str ":22")])]) =
    some ⟨⟨":22", "host_key", 16, "127.0.0.1:2223"⟩, ⟨false, false⟩, []⟩ := by
  let c : Config := ⟨⟨":22", "", 0, ""⟩, ⟨false, false⟩, []⟩
  have hui : (known UiConfig.names c.ui.fields).Perm
      (c.ui.fields.filter fun kv => decide (kv.1 ∉ ([] : List String))) := .refl _
  have hsessions : [].mapM SessionConfig.fromValue = some c.sessions := rfl
  exact config_reads c (by decide) (List.Subset.refl Config.optional)
    (List.Subset.refl ServerConfig.optional) (.refl _) hui hsessions (.refl _)

/-- A session in `config.toml`, which has no `null`: a size that is not set is left out. -/
def SessionConfig.document (c : SessionConfig) : Value :=
  .obj ((c.fields c.ptyValue c.upstream.toValue).filter fun kv =>
    decide (kv.1 ∉ if c.ptyOverride = none then ["pty_override"] else []))

/-- The tree of `config.toml`. -/
def Config.document (c : Config) : Value :=
  .obj (Config.fields (.obj c.server.fields) (.obj c.ui.fields)
    (.arr (c.sessions.map SessionConfig.document)))

theorem SessionConfig.fromValue_document (c : SessionConfig) : fromValue c.document = some c := by
  have hnames : ∀ kv ∈ c.fields c.ptyValue c.upstream.toValue, kv.1 ∈ names := by
    simp [fields, names]
  have homit : (if c.ptyOverride = none then ["pty_override"] else []) ⊆ optional := by
    split
    · decide
    · exact List.nil_subset _
  have h : fromValue c.document = some (c.leaveOut _) :=
    c.reads homit c.asOption_ptyValue c.upstream.fromValue_toValue (.of_eq (known_eq_self
      fun kv hkv => hnames kv (List.mem_of_mem_filter hkv)))
  rw [h]
  by_cases hp : c.ptyOverride = none
  · simp [leaveOut, ← hp]
  · simp [leaveOut, hp]

/-- **What is written to the configuration is read back.** -/
theorem config_document (c : Config)
    (hfit : c.server.maxClientsPerSession < ServerConfig.usizeBound) :
    Config.fromValue c.document = some c := by
  have hserver : ServerConfig.fromValue (.obj c.server.fields) = some (c.server.leaveOut []) :=
    c.server.reads hfit (List.nil_subset _) (known_perm (by simp [ServerConfig.fields,
      ServerConfig.names]))
  have hui : UiConfig.fromValue (.obj c.ui.fields) = some (c.ui.leaveOut []) :=
    c.ui.reads (known_perm (by simp [UiConfig.fields, UiConfig.names]))
  have hsessions : (Value.arr (c.sessions.map SessionConfig.document)).asList
      SessionConfig.fromValue = some c.sessions :=
    Value.mapM_map_some fun s _ => s.fromValue_document
  have h : Config.fromValue c.document = some (c.leaveOut []) := by
    refine c.reads (List.nil_subset _) ?_ ?_ hsessions (known_perm (by simp [Config.fields,
      Config.names]))
    · simpa [ServerConfig.leaveOut] using hserver
    · simpa [UiConfig.leaveOut] using hui
  simpa [Config.leaveOut] using h

theorem config_document_session :
    Config.fromValue (Config.document ⟨⟨":22", "host_key", 16, ":23"⟩, ⟨true, false⟩,
      [⟨"sw1", "secret", "admin", ":2222", true, true, none, .telnet "sw1.lan" 23⟩]⟩) =
    some ⟨⟨":22", "host_key", 16, ":23"⟩, ⟨true, false⟩,
      [⟨"sw1", "secret", "admin", ":2222", true, true, none, .telnet "sw1.lan" 23⟩]⟩ :=
  config_document _ (by decide)

end TermHub
