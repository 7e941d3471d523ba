import WalletWatch.Config.SocketAddress
import WalletWatch.Failure
import WalletWatch.Role
import WalletWatch.Yaml.Reader

set_option autoImplicit false

/-!
# Settings

What a process is started with. A settings file is read strictly: a key that is not known, given
twice or of the wrong type refuses it, and so does a value outside its rules.
-/

namespace WalletWatch

open Yaml (Node)

structure ServerSettings where
  listen : String := "0.0.0.0:18881"
  hostnameSuffix : String := ""
  deriving DecidableEq

structure PeerSettings where
  accountServer : String := "http://localhost:18883"
  priceServer : String := "http://localhost:18882"
  dialTimeout : Nat := 5000
  deriving DecidableEq

structure Settings where
  version : Nat
  role : Role
  server : ServerSettings := {}
  peers : PeerSettings := {}
  premiumOnly : Bool := false
  v1Behavior : Bool := false
  deriving DecidableEq

namespace Settings

def text? : Node → Option String
  | .scalar _ _ s => some s
  | _ => none

/-- The text of a scalar that may stand for a value of a type other than text: a plain one, or a
literal block that is tagged with the type. -/
def bare? (type : String) : Node → Option String
  | .scalar _ .plain s => some s
  | .scalar (some tag) .literal s => if tag = type then some s else none
  | _ => none

def ownName? : Node → Option String
  | .scalar (some tag) _ _ =>
    match tag.toList with
    | '!' :: name => some (String.ofList name)
    | _ => none
  | _ => none

def isNull : Node → Bool
  | .scalar _ .plain s => ["", "null", "Null", "NULL", "~"].contains s
  | _ => false

/-- A role is the text of a scalar, or its tag if it has one of one's own: then nothing may stand
behind the tag. -/
def role? (n : Node) : Option Role :=
  match ownName? n with
  | some name => if isNull n then Role.ofName? name else none
  | none => (text? n).bind Role.ofName?

def truth? (n : Node) : Option Bool :=
  (bare? "tag:yaml.org,2002:bool" n).bind fun s =>
    if ["true", "True", "TRUE"].contains s then some true
    else if ["false", "False", "FALSE"].contains s then some false
    else none

def digits? (digit? : Char → Option Nat) (radix : Nat) (cs : List Char) : Option Nat :=
  match SocketAddress.takeDigits digit? radix 0 0 cs with
  | (v, n, []) => if n = 0 then none else some v
  | _ => none

def octalDigit? (c : Char) : Option Nat := (Json.digit? c).filter (· < 8)

def binaryDigit? (c : Char) : Option Nat := (Json.digit? c).filter (· < 2)

/-- The number a plain scalar spells: in decimal without zeros in front, or in radix 16, 8 or 2
behind its mark; with or without a plus sign. -/
def natural? (s : String) : Option Nat :=
  match if s.toList.head? = some '+' then s.toList.drop 1 else s.toList with
  | '0' :: 'x' :: cs => digits? Json.hexDigit? 16 cs
  | '0' :: 'o' :: cs => digits? octalDigit? 8 cs
  | '0' :: 'b' :: cs => digits? binaryDigit? 2 cs
  | ['0'] => some 0
  | '0' :: _ => none
  | cs => digits? Json.digit? 10 cs

def number? (bound : Nat) (n : Node) : Option Nat :=
  ((bare? "tag:yaml.org,2002:int" n).bind natural?).filter (· < bound)

/-- The entries of a section. A section with nothing behind its colon has none. -/
def entries? : Node → Option (List (Node × Node))
  | .map _ es => some es
  | .scalar _ .plain "" => some []
  | _ => none

/-- Read the entries of a section one by one. `put` gives the section with a key set, unless the
key is not known or the value has the wrong type; no key may come twice. -/
def fill {σ : Type} (put : σ → String → Node → Option σ) :
    σ → List String → List (Node × Node) → Option σ
  | s, _, [] => some s
  | s, seen, (k, v) :: rest => do
    let key ← text? k
    if seen.contains key then none
    else fill put (← put s key v) (key :: seen) rest

def section? {σ : Type} (put : σ → String → Node → Option σ) (start : σ) (n : Node) : Option σ :=
  (entries? n).bind (fill put start [])

def putServer (s : ServerSettings) (key : String) (v : Node) : Option ServerSettings :=
  match key with
  | "listen" => (text? v).map fun t => { s with listen := t }
  | "hostname_suffix" => (text? v).map fun t => { s with hostnameSuffix := t }
  | _ => none

def putPeers (s : PeerSettings) (key : String) (v : Node) : Option PeerSettings :=
  match key with
  | "account_server" => (text? v).map fun t => { s with accountServer := t }
  | "price_server" => (text? v).map fun t => { s with priceServer := t }
  | "dial_timeout_ms" => (number? 18446744073709551616 v).map fun t => { s with dialTimeout := t }
  | _ => none

def putFlag (name : String) (_ : Bool) (key : String) (v : Node) : Option Bool :=
  if key = name then truth? v else none

structure Draft where
  version? : Option Nat := none
  role? : Option Role := none
  server : ServerSettings := {}
  peers : PeerSettings := {}
  premiumOnly : Bool := false
  v1Behavior : Bool := false

def put (d : Draft) (key : String) (v : Node) : Option Draft :=
  match key with
  | "version" => (number? 4294967296 v).map fun n => { d with version? := some n }
  | "role" => (role? v).map fun r => { d with role? := some r }
  | "server" => (section? putServer {} v).map fun s => { d with server := s }
  | "upstream" => (section? putPeers {} v).map fun s => { d with peers := s }
  | "price" => (section? (putFlag "premium_only") false v).map fun b => { d with premiumOnly := b }
  | "wallet" => (section? (putFlag "v1_behavior") false v).map fun b => { d with v1Behavior := b }
  | _ => none

def ofNode? (n : Node) : Option Settings := do
  let d ← section? put {} n
  return { version := ← d.version?, role := ← d.role?, server := d.server, peers := d.peers
           premiumOnly := d.premiumOnly, v1Behavior := d.v1Behavior }

def listenAddress (s : Settings) : Item SocketAddress :=
  match SocketAddress.parse? s.server.listen with
  | some a => .ok a
  | none =>
    .error ⟨.invalidArgument,
      "server.listen must be a socket address: invalid socket address syntax"⟩

def behindScheme? (url : String) : Option (List Char) :=
  match url.toList with
  | 'h' :: 't' :: 't' :: 'p' :: ':' :: '/' :: '/' :: rest => some rest
  | 'h' :: 't' :: 't' :: 'p' :: 's' :: ':' :: '/' :: '/' :: rest => some rest
  | _ => none

def isWebAddress (url : String) : Bool := (behindScheme? url).any (!·.isEmpty)

def requireWebAddress (key url : String) : Item Unit :=
  if isWebAddress url then .ok ()
  else .error ⟨.invalidArgument, key ++ " must be an http:// or https:// url"⟩

/-- The rules that settings have to keep; the first that is broken counts. Addresses of services
that the role does not ask may be anything. -/
def check (s : Settings) : Item Unit := do
  if s.version ≠ 1 then
    throw ⟨.invalidArgument, "unsupported config version " ++ IpAddress.natText s.version⟩
  let _ ← s.listenAddress
  if s.peers.dialTimeout < 100 ∨ 60000 < s.peers.dialTimeout then
    throw ⟨.invalidArgument, "upstream.dial_timeout_ms must be between 100 and 60000"⟩
  if s.role.asksAccount then
    requireWebAddress "upstream.account_server" s.peers.accountServer
  if s.role.asksPrice then
    requireWebAddress "upstream.price_server" s.peers.priceServer

def ofNode (n : Node) : Item Settings :=
  match ofNode? n with
  | none => .error ⟨.invalidArgument, "invalid yaml: not the settings of a process"⟩
  | some s => s.check.map fun _ => s

def load (text : String) (parse : String → Except String Node := Yaml.read) : Item Settings :=
  match parse text with
  | .error reason => .error ⟨.invalidArgument, "invalid yaml: " ++ reason⟩
  | .ok n => ofNode n

def defaultPath : String := "coinwallet.yaml"

def loadFile (path : String) (contents : Except String String)
    (parse : String → Except String Node := Yaml.read) : Item Settings :=
  match contents with
  | .ok text => load text parse
  | .error reason =>
    .error ⟨.invalidArgument, "read config " ++ path ++ " failed: " ++ reason⟩

end Settings

end WalletWatch
