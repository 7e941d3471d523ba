import WalletWatch.Metadata
import WalletWatch.Text.Utf8

set_option autoImplicit false

/-!
# Headers

A header list holds names in lower case and values of any bytes. Metadata travels as headers: all of
it on the way out, as far as it can be written, and the four known keys on the way in.
-/

namespace WalletWatch.Http

def isTokenChar (c : Char) : Bool :=
  c.isAlphanum || "!#$%&'*+-.^_\x60|~".toList.contains c

structure Header where
  name : String
  value : Text
  deriving DecidableEq

abbrev Headers := List Header

def isName (s : String) : Bool := !s.isEmpty && s.toList.all isTokenChar

def isValueChar (c : Char) : Bool := c = '\t' || (0x20 ≤ c.toNat && c.toNat ≠ 0x7F)

def isValue (s : String) : Bool := s.toList.all isValueChar

/-- Whether a sign of a header value can be read as text: visible ASCII, blank or tab. -/
def isReadable : Sign → Bool
  | .char c => c = '\t' || (0x20 ≤ c.toNat && c.toNat < 0x7F)
  | .stray _ => false

namespace Headers

def ofList (l : List (String × Text)) : Headers := l.map fun (n, v) => ⟨n.map Char.toLower, v⟩

def get? (h : Headers) (name : String) : Option Text :=
  (h.find? (fun e => e.name = name)).map Header.value

def text? (h : Headers) (name : String) : Option String :=
  match h.get? name with
  | some t => if t.all isReadable then t.toString? else none
  | none => none

/-- Set a header; it replaces every header of its name. -/
def put (h : Headers) (name : String) (value : Text) : Headers :=
  h.filter (fun e => e.name ≠ name) ++ [⟨name, value⟩]

def add (h : Headers) (name : String) (value : Text) : Headers := h ++ [⟨name, value⟩]

def isBlank (s : Sign) : Bool := s = .char ' ' || s = .char '\t'

/-- Headers as they come out of a connection: blanks at the ends of a value are not part of it. -/
def delivered (h : Headers) : Headers :=
  h.map fun e =>
    { e with value := ((e.value.dropWhile isBlank).reverse.dropWhile isBlank).reverse }

end Headers

def knownKeys : List String :=
  [Metadata.authorizationKey, Metadata.membershipKey, Metadata.routeKey, Metadata.hostnameKey]

def metadataOf (h : Headers) : Metadata :=
  knownKeys.foldl (fun m k => match h.text? k with
    | some v => m.insert k v
    | none => m) ∅

def writable (e : String × String) : Bool := isName e.1 && isValue e.2

/-- Write metadata into headers, as far as it can be written. -/
def writeMetadata (h : Headers) (m : Metadata) : Headers :=
  (m.toList.filter writable).foldl (fun h e => h.put e.1 (Text.ofString e.2)) h

def unwritten (m : Metadata) : List String :=
  (m.toList.filter fun e => !writable e).map Prod.fst

end WalletWatch.Http
