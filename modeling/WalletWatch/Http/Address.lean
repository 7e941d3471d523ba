set_option autoImplicit false

/-!
# Addresses

A web address names a host behind a scheme, with a user before it or a port behind it where there
are such, and then what is asked for there: a path and a query. What follows a number sign is no
part of it.
-/

namespace WalletWatch.Http

structure Target where
  path : String
  query : String
  deriving DecidableEq

structure Address where
  scheme : String
  authority : String
  target : Target
  deriving DecidableEq

def isSchemeChar (c : Char) : Bool := c.isAlphanum || "+-.~".toList.contains c

def endsHost (c : Char) : Bool := c = '/' || c = '?' || c = '#'

def Target.split (cs : List Char) : Target :=
  let cs := cs.takeWhile (· ≠ '#')
  ⟨String.ofList (cs.takeWhile (· ≠ '?')), String.ofList ((cs.dropWhile (· ≠ '?')).drop 1)⟩

def Address.split? (cs : List Char) : Option Address :=
  match cs.dropWhile isSchemeChar with
  | ':' :: '/' :: '/' :: rest =>
    some ⟨String.ofList (cs.takeWhile isSchemeChar),
      String.ofList (rest.takeWhile (!endsHost ·)), Target.split (rest.dropWhile (!endsHost ·))⟩
  | _ => none

def Target.ofString (s : String) : Target :=
  match Address.split? s.toList with
  | some a => a.target
  | none => split s.toList

def portNumber (digits : List Char) : Nat :=
  digits.foldl (fun n d => n * 10 + (d.toNat - '0'.toNat)) 0

inductive AddressFault where
  | size
  | schemeSize
  | character
  /-- Colons, brackets, at signs or percent signs out of place. -/
  | authority
  | form
  | noHost
  deriving DecidableEq, Repr

def AddressFault.reason : AddressFault → String
  | size => "HTTP format error: uri too long"
  | schemeSize => "HTTP format error: scheme too long"
  | character => "HTTP format error: invalid uri character"
  | authority => "HTTP format error: invalid authority"
  | form => "HTTP format error: invalid format"
  | noHost => "URL error: No host name in the URL"

def isHostChar (c : Char) : Bool := c.isAlphanum || "!$&'()*+,-.:;=@[]_~%".toList.contains c

def isPathChar (c : Char) : Bool := 0x21 ≤ c.toNat && !"<>\x60\x7f".toList.contains c

def isQueryChar (c : Char) : Bool := 0x21 ≤ c.toNat && !"\"<>\x7f".toList.contains c

def Target.isEncoded (t : Target) : Bool :=
  t.path.toList.all isPathChar && t.query.toList.all isQueryChar

/-- What was seen of the part that names a host: colons and percent signs since the last at sign or
bracket, and brackets. -/
structure HostScan where
  colons : Nat := 0
  percent : Bool := false
  opened : Bool := false
  closed : Bool := false

namespace HostScan

def step (h : HostScan) (c : Char) : Except AddressFault HostScan :=
  if c = ':' then
    (if h.colons < 8 then .ok { h with colons := h.colons + 1 } else .error .authority)
  else if c = '%' then .ok { h with percent := true }
  else if c = '@' then .ok { h with colons := 0, percent := false }
  else if c = '[' then
    (if h.percent || h.opened then .error .authority else .ok { h with opened := true })
  else if c = ']' then
    (if !h.opened || h.closed then .error .authority
     else .ok { h with colons := 0, percent := false, closed := true })
  else if isHostChar c then .ok h
  else .error .character

/-- Brackets come in pairs, one colon at most stands before a port, and percent signs stand before
an at sign or between brackets only. -/
def isDone (h : HostScan) : Bool := h.opened == h.closed && h.colons ≤ 1 && !h.percent

end HostScan

/-- Check a part that should name a host, with a user before it or a port behind it where there are
such. -/
def checkAuthority (cs : List Char) : Except AddressFault Unit := do
  let h ← cs.foldlM HostScan.step {}
  if !h.isDone || cs.getLast? = some '@' then throw .authority

namespace Address

def maxSize : Nat := 65534

def maxScheme : Nat := 64

def check (a : Address) : Except AddressFault Unit := do
  if maxScheme < a.scheme.length then throw .schemeSize
  checkAuthority a.authority.toList
  if a.authority.isEmpty then throw .form
  if !a.target.isEncoded then throw .character

def faultOf (cs : List Char) : AddressFault :=
  if cs.head? = some '/' then
    if (Target.split cs).isEncoded then .noHost else .character
  else match checkAuthority (cs.takeWhile (!endsHost ·)) with
    | .error e => e
    | .ok () => if cs.any endsHost then .form else .noHost

def parse (s : String) : Except AddressFault Address := do
  if maxSize < s.utf8ByteSize then throw .size
  match split? s.toList with
  | none => throw (faultOf s.toList)
  | some a =>
    a.check
    return a

def port? (a : Address) : Option Nat :=
  let cs := a.authority.toList
  let digits := (cs.reverse.takeWhile Char.isDigit).reverse
  if digits.isEmpty || (cs.take (cs.length - digits.length)).getLast? ≠ some ':' ||
    65535 < portNumber digits
  then none
  else some (portNumber digits)

end Address

end WalletWatch.Http
