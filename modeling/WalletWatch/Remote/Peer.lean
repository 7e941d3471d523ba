import WalletWatch.Context.Basic
import WalletWatch.Failure
import WalletWatch.Http.Address

set_option autoImplicit false

/-!
# Peers

Where a service elsewhere is found. Single calls go to its web address and streams to the same
address under the scheme of sockets.
-/

namespace WalletWatch

structure Peer where
  base : String
  dialTimeout : Millis
  deriving DecidableEq

namespace Peer

def withoutSlashes (s : String) : String :=
  String.ofList ((s.toList.reverse.dropWhile (· = '/')).reverse)

def ofAddress (address : String) (dialTimeout : Millis) : Peer :=
  ⟨withoutSlashes address, dialTimeout⟩

def socketBase (base : String) : String :=
  match base.toList with
  | 'h' :: 't' :: 't' :: 'p' :: 's' :: ':' :: '/' :: '/' :: rest => "wss://" ++ String.ofList rest
  | 'h' :: 't' :: 't' :: 'p' :: ':' :: '/' :: '/' :: rest => "ws://" ++ String.ofList rest
  | _ => base

def callUrl (p : Peer) (path : String) : String := p.base ++ path

def watchUrl (p : Peer) (path : String) : String := socketBase p.base ++ path

/-- Whether the port of a socket is known: from its address, or by its scheme. -/
def hasSocketPort (url : String) : Bool :=
  match Http.Address.parse url with
  | .ok a => a.port?.isSome || a.scheme = "ws" || a.scheme = "wss"
  | .error _ => false

def schemeOf? (url : String) : Option (String × List Char) :=
  let cs := url.toList
  match cs.dropWhile fun c => c.isAlphanum || "+-.".toList.contains c with
  | ':' :: rest =>
    if cs.head?.any Char.isAlpha then
      some (String.ofList ((cs.take (cs.length - (rest.length + 1))).map Char.toLower), rest)
    else none
  | _ => none

/-- Whether a host and a port stand behind the scheme of a web address. -/
def namesHost (cs : List Char) : Bool :=
  let authority := (cs.dropWhile fun c => c = '/' || c = '\\').takeWhile fun c =>
    !(Http.endsHost c || c = '\\')
  let host := (authority.reverse.takeWhile (· ≠ '@')).reverse
  let (name, port) :=
    if host.head? = some '[' then
      (host.takeWhile (· ≠ ']'), (host.dropWhile (· ≠ ']')).drop 1)
    else (host.takeWhile (· ≠ ':'), host.dropWhile (· ≠ ':'))
  let digits := port.drop 1
  !name.isEmpty && name.all (fun c => 0x21 ≤ c.toNat && !"<>^|\x7f".toList.contains c) &&
    (port.isEmpty || port.head? = some ':') && digits.all Char.isDigit &&
    Http.portNumber digits ≤ 65535

def unbuildable? (url : String) : Option String :=
  match schemeOf? url with
  | none => some "builder error"
  | some (scheme, rest) =>
    if scheme = "http" || scheme = "https" then
      if namesHost rest then none else some "builder error"
    else some ("builder error for url (" ++ scheme ++ ":" ++ String.ofList rest ++ ")")

end Peer

end WalletWatch
