import WalletWatch.Json.Token
import WalletWatch.Json.Value

set_option autoImplicit false

/-!
# Socket addresses

An address to listen on: an IPv4 address or an IPv6 address in brackets, and a port. IPv6 addresses
are shown in the shortest recommended form.
-/

namespace WalletWatch

inductive IpAddress where
  | v4 (octets : List Nat)
  | v6 (groups : List Nat)
  deriving DecidableEq, Repr

structure SocketAddress where
  ip : IpAddress
  /-- The zone of an IPv6 address; zero for none. -/
  scope : Nat := 0
  port : Nat
  deriving DecidableEq, Repr

namespace SocketAddress

def takeDigits (digit? : Char → Option Nat) (radix : Nat) :
    Nat → Nat → List Char → Nat × Nat × List Char
  | value, count, [] => (value, count, [])
  | value, count, c :: rest =>
    match digit? c with
    | some d => takeDigits digit? radix (value * radix + d) (count + 1) rest
    | none => (value, count, c :: rest)

def takeNumber (greatest : Nat) (cs : List Char) : Option (Nat × List Char) :=
  match takeDigits Json.digit? 10 0 0 cs with
  | (_, 0, _) => none
  | (v, _, rest) => if v ≤ greatest then some (v, rest) else none

/-- An octet: at most three digits, and no zero in front of others. -/
def takeOctet (cs : List Char) : Option (Nat × List Char) :=
  match takeDigits Json.digit? 10 0 0 cs with
  | (_, 0, _) => none
  | (v, n, rest) =>
    if 3 < n ∨ 255 < v ∨ (1 < n ∧ cs.head? = some '0') then none else some (v, rest)

/-- A group of an IPv6 address: at most four hexadecimal digits. -/
def takeGroup (cs : List Char) : Option (Nat × List Char) :=
  match takeDigits Json.hexDigit? 16 0 0 cs with
  | (_, 0, _) => none
  | (v, n, rest) => if 4 < n then none else some (v, rest)

def takeChar (c : Char) : List Char → Option (List Char)
  | [] => none
  | d :: rest => if d = c then some rest else none

def takeV4 (cs : List Char) : Option (List Nat × List Char) := do
  let (a, r) ← takeOctet cs
  let (b, r) ← takeOctet (← takeChar '.' r)
  let (c, r) ← takeOctet (← takeChar '.' r)
  let (d, r) ← takeOctet (← takeChar '.' r)
  return ([a, b, c, d], r)

def groupsOfOctets : List Nat → List Nat
  | [a, b, c, d] => [a * 256 + b, c * 256 + d]
  | _ => []

/-- Groups between colons, at most so many; the last two may be written as an IPv4 address. Also
whether they are. -/
def takeGroups : Nat → Bool → List Char → List Nat × Bool × List Char
  | 0, _, cs => ([], false, cs)
  | limit + 1, first, cs =>
    match if first then some cs else takeChar ':' cs with
    | none => ([], false, cs)
    | some inner =>
      match if 0 < limit then takeV4 inner else none with
      | some (octets, rest) => (groupsOfOctets octets, true, rest)
      | none =>
        match takeGroup inner with
        | none => ([], false, cs)
        | some (g, rest) =>
          let (gs, v4, rest') := takeGroups limit false rest
          (g :: gs, v4, rest')

/-- An IPv6 address: eight groups, or fewer with two colons in place of one or more zeros. -/
def takeV6 (cs : List Char) : Option (List Nat × List Char) :=
  match takeGroups 8 true cs with
  | (head, v4, rest) =>
    if head.length = 8 then some (head, rest)
    else if v4 then none
    else match rest with
      | ':' :: ':' :: rest' =>
        let (tail, _, rest'') := takeGroups (7 - head.length) true rest'
        some (head ++ List.replicate (8 - head.length - tail.length) 0 ++ tail, rest'')
      | _ => none

def takeScope (cs : List Char) : Nat × List Char :=
  match cs with
  | '%' :: rest => (takeNumber 4294967295 rest).getD (0, cs)
  | _ => (0, cs)

def takePort (cs : List Char) : Option (Nat × List Char) := do
  takeNumber 65535 (← takeChar ':' cs)

def ofV4? (cs : List Char) : Option SocketAddress := do
  let (octets, r) ← takeV4 cs
  let (port, r) ← takePort r
  if r.isEmpty then return { ip := .v4 octets, port } else none

def ofV6? (cs : List Char) : Option SocketAddress := do
  let (groups, r) ← takeV6 (← takeChar '[' cs)
  let (scope, r) := takeScope r
  let (port, r) ← takePort (← takeChar ']' r)
  if r.isEmpty then return { ip := .v6 groups, scope, port } else none

def parse? (s : String) : Option SocketAddress := (ofV4? s.toList).or (ofV6? s.toList)

end SocketAddress

namespace IpAddress

def natText (n : Nat) : String := String.ofList (Json.natDigits n)

def hexText (n : Nat) : String :=
  let ds := [n / 4096, n / 256 % 16, n / 16 % 16, n % 16]
  String.ofList ((match ds.dropWhile (· = 0) with
    | [] => [0]
    | ds => ds).map Json.hexDigit)

def octetsText (os : List Nat) : String := ".".intercalate (os.map natText)

def groupsText (gs : List Nat) : String := ":".intercalate (gs.map hexText)

def longestZeros (gs : List Nat) : Nat × Nat :=
  ((List.range gs.length).map fun i => (i, ((gs.drop i).takeWhile (· = 0)).length)).foldl
    (fun best r => if best.2 < r.2 then r else best) (0, 0)

/-- An address as it is shown. Two zeros or more are left out where they are the longest run; an
address that stands for an IPv4 address shows it. -/
def render : IpAddress → String
  | v4 os => octetsText os
  | v6 [0, 0, 0, 0, 0, 0xFFFF, a, b] =>
    "::ffff:" ++ octetsText [a / 256, a % 256, b / 256, b % 256]
  | v6 gs =>
    match longestZeros gs with
    | (start, length) =>
      if 1 < length then groupsText (gs.take start) ++ "::" ++ groupsText (gs.drop (start + length))
      else groupsText gs

end IpAddress

def SocketAddress.render (a : SocketAddress) : String :=
  let port := ":" ++ IpAddress.natText a.port
  match a.ip with
  | .v4 _ => a.ip.render ++ port
  | .v6 _ =>
    let zone := if a.scope = 0 then "" else "%" ++ IpAddress.natText a.scope
    "[" ++ a.ip.render ++ zone ++ "]" ++ port

end WalletWatch
