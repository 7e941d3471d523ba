import WalletWatch.Http.Header

set_option autoImplicit false

/-!
# Handshakes

A request that wants its connection turned into a socket says so in its headers: in the connection
header, by the protocol it wants, by the version of that protocol and by a key.
-/

namespace WalletWatch.Http

/-- Whether a header is there and is a certain word, in any case of letters. -/
def spells (h : Headers) (name word : String) : Bool :=
  ((h.get? name).bind Text.toString?).any fun s => s.map Char.toLower = word

/-- Whether a header has a word somewhere in it, in any case of letters. -/
def mentions (h : Headers) (name word : String) : Bool :=
  ((h.get? name).bind Text.toString?).any fun s =>
    let cs := s.toList.map Char.toLower
    (List.range cs.length).any fun i => word.toList.isPrefixOf (cs.drop i)

def asksSocket (h : Headers) : Bool :=
  mentions h "connection" "upgrade" && spells h "upgrade" "websocket" &&
    spells h "sec-websocket-version" "13" && (h.get? "sec-websocket-key").isSome

end WalletWatch.Http
