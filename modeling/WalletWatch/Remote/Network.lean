import WalletWatch.Http.Answer
import WalletWatch.Remote.Peer
import WalletWatch.Service.World
import WalletWatch.Socket.Reader

set_option autoImplicit false

/-!
# The network

What becomes of a request that is sent to another process, and of a socket that is dialed there.
-/

namespace WalletWatch

inductive Dial where
  | refused (r : Http.Response)
  | unreachable (reason : String)
  | timedOut
  | connected (headers : Http.Headers) (events : List Socket.Event)

structure Network where
  /-- Send a request to an address; the peer answers, or there is a reason why it does not. -/
  exchange : String → Http.Request → StateM World (Except String Http.Response)
  dial : String → Http.Headers → StateM World Dial

/-- A network that reaches nobody. Addresses that nothing could be sent to are told apart. -/
def Network.unreachable : Network where
  exchange url _ := pure (.error
    ((Peer.unbuildable? url).getD ("error sending request for url (" ++ url ++ ")")))
  dial url _ := pure (.unreachable
    (if Peer.hasSocketPort url then "IO error: Network is unreachable (os error 101)"
     else "URL error: URL scheme not supported"))

end WalletWatch
