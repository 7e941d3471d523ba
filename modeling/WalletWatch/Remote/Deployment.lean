import WalletWatch.Chain.Wiring
import WalletWatch.Node.Router

set_option autoImplicit false

/-!
# Deployments

The three services in a process each, which talk to one another over a network that delivers what is
sent: the bytes of every body, however many, and the values of headers without the blanks at their
ends. Streams are looked at as a whole: a socket brings all messages of its stream that do not wait
for a feed.
-/

namespace WalletWatch

def behind? (front s : String) : Option String :=
  if front.toList.isPrefixOf s.toList then some (String.ofList (s.toList.drop front.toList.length))
  else none

def Network.ofNode (address : String) (n : Node) : Network where
  exchange url r :=
    if url = address ++ r.target then (fun a => .ok a.delivered) <$> n.handle r.delivered
    else Network.unreachable.exchange url r
  dial url headers :=
    match behind? (Peer.socketBase address) url with
    | none => Network.unreachable.dial url headers
    | some target => do
      match ← n.handshake target headers.delivered with
      | .error r => return .refused r.delivered
      | .ok o => return .connected o.headers.delivered (o.messages.map .message)

structure Deployment where
  wiring : Wiring
  address : Role → String
  dialTimeout : Millis := 5000

namespace Deployment

def client (d : Deployment) (role : Role) (n : Node) : Client where
  network := Network.ofNode (Peer.withoutSlashes (d.address role)) n
  peer := Peer.ofAddress (d.address role) d.dialTimeout

def accountNode (d : Deployment) : Node :=
  ⟨d.wiring.hostname .account, .account d.wiring.account, none⟩

def accountClient (d : Deployment) : Client := d.client .account d.accountNode

def validator (d : Deployment) (home : Role) : Validator := ⟨d.accountClient.accountApi, home⟩

def priceService (d : Deployment) : PriceService :=
  { d.wiring.priceService .price with validator := d.validator .price }

def priceNode (d : Deployment) : Node :=
  ⟨d.wiring.hostname .price, .price (match d.wiring.prices? with
    | some s => .scripted s
    | none => d.priceService.api), none⟩

def priceClient (d : Deployment) : Client := d.client .price d.priceNode

def walletService (d : Deployment) : WalletService :=
  { d.wiring.walletService .wallet with
    validator := d.validator .wallet
    prices := d.priceClient.priceApi }

def walletNode (d : Deployment) : Node :=
  ⟨d.wiring.hostname .wallet, .wallet d.walletService.api, none⟩

def walletClient (d : Deployment) : Client := d.client .wallet d.walletNode

end Deployment

end WalletWatch
