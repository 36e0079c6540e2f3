/-
**The configuration of the program.**

The records of `termhub-core/src/config.rs`: one `SessionConfig` per session with the description
of its upstream, and the document that is written to `config.toml`.  Session names are compared
after `toAsciiLowercase`.
-/

import Mathlib.Data.Nat.Notation

set_option relaxedAutoImplicit false
set_option autoImplicit false

namespace TermHub

/-- `str::to_ascii_lowercase`: the letters `A` to `Z` become small, all else is kept. -/
def toAsciiLowercase (s : String) : String := String.ofList (s.toList.map Char.toLower)

/-- `str::eq_ignore_ascii_case`: the strings are equal when their letters are made small. -/
def eqIgnoreAsciiCase (s t : String) : Bool := toAsciiLowercase s == toAsciiLowercase t

/-- A terminal size that overrides the one of the clients. -/
structure PtySize where
  cols : UInt16
  rows : UInt16
  deriving DecidableEq, Repr

/-- What a session is connected to. -/
inductive UpstreamSpec
  | loopback
  | serial (port : String) (baud : UInt32) (dataBits : UInt8) (parity : String)
      (stopBits : UInt8) (flow inputEol outputEol : String)
  | ssh (host : String) (port : UInt16) (user password : String)
  | telnet (host : String) (port : UInt16)
  | rawTcp (host : String) (port : UInt16)
  | localShell (command : String) (args : List String)
  | httpProxy (listen target protocol : String)
  deriving DecidableEq, Repr

/-- The upstream is a port forward, which runs without a hub. -/
def UpstreamSpec.isHttpProxy : UpstreamSpec → Bool
  | .httpProxy .. => true
  | _ => false

/-- One session. -/
structure SessionConfig where
  name : String
  password : String
  sshUser : String
  listen : String
  autoReconnect : Bool
  launchOnStartup : Bool
  ptyOverride : Option PtySize
  upstream : UpstreamSpec
  deriving DecidableEq, Repr

/-- The `[server]` section. -/
structure ServerConfig where
  listen : String
  hostKeyPath : String
  maxClientsPerSession : ℕ
  apiListen : String
  deriving DecidableEq, Repr

/-- The `[ui]` section. -/
structure UiConfig where
  startMinimized : Bool
  autoStart : Bool
  deriving DecidableEq, Repr

/-- `UiConfig::default()`. -/
def UiConfig.default : UiConfig := ⟨false, false⟩

/-- The whole document. -/
structure Config where
  server : ServerConfig
  ui : UiConfig
  sessions : List SessionConfig
  deriving DecidableEq, Repr

end TermHub
