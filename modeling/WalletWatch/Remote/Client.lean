import WalletWatch.Remote.Network
import WalletWatch.Remote.Peer
import WalletWatch.Service.Wallet
import WalletWatch.Text.Duration

set_option autoImplicit false

/-!
# Clients

Calls to a service elsewhere. A failure that the peer answers with is passed on with its code; a
peer that cannot be reached makes a call unavailable.
-/

namespace WalletWatch

structure Client where
  network : Network
  peer : Peer
  cancelled : Bool := false

namespace Client

variable {α β : Type} [Wire α] [Wire β]

def request? (payload : α) (metadata : Metadata) (path : String) : Option Http.Request :=
  if metadata.toList.all Http.writable then
    some
      { method := "POST"
        target := path
        headers := metadata.toList.foldl (fun h e => h.add e.1 (Text.ofString e.2)) Http.jsonHeaders
        body := Text.ofString (Wire.encode payload) }
  else none

def call (c : Client) (path : String) (e : Envelope α) : Call (Envelope β) := do
  let url := c.peer.callUrl path
  if c.cancelled then throw ⟨.unavailable, url ++ ": call cancelled"⟩
  match request? e.payload e.metadata path with
  | none => throw ⟨.unavailable, url ++ ": builder error"⟩
  | some r =>
    match ← (c.network.exchange url r : StateM World _) with
    | .error reason => throw ⟨.unavailable, url ++ ": " ++ reason⟩
    | .ok response => Call.ofItem (Http.readResponse url response)

def watch (c : Client) (path : String) (metadata : Metadata) : Call (Envelope (List (Item α))) := do
  let url := c.peer.watchUrl path
  if let .error e := Http.Address.parse url then
    throw ⟨.invalidArgument, url ++ ": " ++ e.reason⟩
  for key in Http.unwritten metadata do
    Call.say ⟨.warn, "metadata not representable as header", [("key", key)]⟩
  if c.cancelled then throw ⟨.unavailable, url ++ ": call cancelled"⟩
  match ← (c.network.dial url (Http.writeMetadata [] metadata) : StateM World _) with
  | .timedOut =>
    throw ⟨.unavailable, url ++ ": dial timed out after " ++ showDuration c.peer.dialTimeout⟩
  | .refused r => throw (Http.failureOf r.status r.body)
  | .unreachable reason => throw ⟨.unavailable, url ++ ": " ++ reason⟩
  | .connected headers events =>
    Call.say ⟨.debug, "stream dialed", [("url", url)]⟩
    return ⟨Socket.read events, Http.metadataOf headers⟩

end Client

def resolvePath : String := "/v1/account/resolve"

def pricePath : String := "/v1/price/fetch"

def priceWatchPath : String := "/v1/price/watch"

def balancePath : String := "/v1/wallet/balance"

def balanceWatchPath : String := "/v1/wallet/watch"

def balanceWatchTarget (perAddress : Bool) : String :=
  balanceWatchPath ++ "?" ++ BalanceRequest.field ++ "=" ++ Validator.yesNo perAddress

namespace Client

def resolve (c : Client) (e : Envelope ResolveRequest) : Call (Envelope UserInfo) :=
  c.call resolvePath e

def fetchPrice (c : Client) (e : Envelope PriceRequest) : Call (Envelope PriceQuote) :=
  c.call pricePath e

def fetchBalance (c : Client) (e : Envelope BalanceRequest) : Call (Envelope Balance) :=
  c.call balancePath e

def watchPrice (c : Client) (metadata : Metadata) : Call (Envelope (List (Item PriceQuote))) :=
  c.watch priceWatchPath metadata

def watchBalance (c : Client) (e : Envelope BalanceRequest) :
    Call (Envelope (List (Item Balance))) :=
  c.watch (balanceWatchTarget e.payload.perAddress) e.metadata

def accountApi (c : Client) : AccountApi := ⟨c.resolve⟩

/-- The price service elsewhere. The items of its streams are played as they come. -/
def priceApi (c : Client) : PriceApi where
  fetch := c.fetchPrice
  watch e := do
    let opened ← c.watchPrice e.metadata
    return ⟨.script (Script.ofItems (opened.payload.map (·.map PriceQuote.price))),
      opened.metadata⟩

end Client

end WalletWatch
