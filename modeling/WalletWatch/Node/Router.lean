import WalletWatch.Http.Address
import WalletWatch.Http.ContentType
import WalletWatch.Http.Handshake
import WalletWatch.Http.Query
import WalletWatch.Node.Basic
import WalletWatch.Socket.Pump

set_option autoImplicit false

/-!
# What a node answers

A node has the routes of the service it answers for, and one for its metrics. A single call is a
request with a JSON body; a stream is asked for with a handshake, and is refused like a single call
as long as the socket is not open. Every failure is stamped with the name of the node.
-/

namespace WalletWatch

open Http (Request Response Headers)

inductive Route where
  | resolve
  | price
  | watchPrice
  | balance
  | watchBalance
  | metrics
  deriving DecidableEq, Repr

namespace Route

def ofRole : Role → List (String × Route)
  | .account => [(resolvePath, resolve)]
  | .price => [(pricePath, price), (priceWatchPath, watchPrice)]
  | .wallet => [(balancePath, balance), (balanceWatchPath, watchBalance)]

def metricsPath : String := "/metrics"

def find? (role : Role) (path : String) : Option Route :=
  ((ofRole role ++ [(metricsPath, metrics)]).find? (·.1 = path)).map Prod.snd

def methods : Route → List String
  | resolve | price | balance => ["POST"]
  | watchPrice | watchBalance | metrics => ["GET", "HEAD"]

end Route

namespace Node

variable {α β : Type}

def notFound : Response where status := 404

def methodNotAllowed (r : Route) : Response where
  status := 405
  headers := [⟨"allow", Text.ofString (",".intercalate r.methods)⟩]

def plain (status : Nat) (words : String) : Response where
  status := status
  headers := Http.plainHeaders
  body := Text.ofString words

def badQuery : Response := plain 400 "Failed to deserialize query string"

/-- The answer to a request for a stream over a connection that stays what it is. -/
def noHandshake (r : Request) : Response :=
  if r.method ≠ "GET" then plain 405 "Request method must be 'GET'"
  else if Http.asksSocket r.headers then plain 426 "The connection cannot be upgraded"
  else plain 400 "The headers do not ask for a socket"

def withoutBody (method : String) (r : Response) : Response :=
  if method = "HEAD" then { r with body := [] } else r

def takes (n : Node) (body : Text) : Bool := n.bodyLimit?.all (body.toBytes.length ≤ ·)

def payload [Wire α] (n : Node) (headers : Headers) (body : Text) : Item α :=
  if !Http.announcesJson headers then
    .error ⟨.invalidArgument,
      "invalid request body: Expected request with \x60Content-Type: application/json\x60"⟩
  else if !n.takes body then
    .error ⟨.invalidArgument,
      "invalid request body: Failed to buffer the request body: length limit exceeded"⟩
  else match Wire.decodeFirst body with
    | .ok a => .ok a
    | .error .malformed =>
      .error ⟨.invalidArgument,
        "invalid request body: Failed to parse the request body as JSON: " ++
          Json.Reject.malformed.reason⟩
    | .error .mismatched =>
      .error ⟨.invalidArgument,
        "invalid request body: Failed to deserialize the JSON body into the target type: " ++
          Json.Reject.mismatched.reason⟩

/-- Answer a single call: read the body, then let the service make the call. -/
def unary [Wire α] [Wire β] (n : Node) (service : Item (Envelope α → Call (Envelope β)))
    (r : Request) : StateM World Response := do
  let result ← (do
    let a ← Call.ofItem (n.payload r.headers r.body)
    let make ← Call.ofItem service
    make ⟨a, Http.metadataOf r.headers⟩ : Call (Envelope β)).run
  return Http.respond result n.hostname

def metricsResponse (n : Node) : StateM World Response := do
  return plain 200 (n.metrics (← get)).render

inductive Opening where
  | prices (e : Envelope PriceSource)
  | balances (e : Envelope BalanceSource)

def Opening.metadata : Opening → Metadata
  | prices e => e.metadata
  | balances e => e.metadata

def Opening.headers (o : Opening) : Headers := Http.writeMetadata [] o.metadata

/-- The messages of the stream that a handshake opens, as far as they are known beforehand. -/
def Opening.messages : Opening → List Socket.Message
  | prices e =>
    Socket.messages (e.payload.items.map (·.map PriceQuote.mk)) e.payload.ends
  | balances e => Socket.messages e.payload.items e.payload.prices.ends

def watch (n : Node) (headers : Headers) : Option Bool → Call Opening
  | none => do
    let p ← Call.ofItem n.price
    return .prices (← p.watch ⟨{}, Http.metadataOf headers⟩)
  | some perAddress => do
    let w ← Call.ofItem n.wallet
    return .balances (← w.watch ⟨⟨perAddress⟩, Http.metadataOf headers⟩)

/-- Answer a handshake for a stream of prices, or of balances where it says whether these come with
a row per address. -/
def upgrade (n : Node) (headers : Headers) (perAddress? : Option Bool) :
    StateM World (Except Response Opening) := do
  match ← (n.watch headers perAddress?).run with
  | .ok o => return .ok o
  | .error f => return .error (Http.failureResponse f n.hostname)

def handle (n : Node) (r : Request) : StateM World Response := do
  let target := Http.Target.ofString r.target
  match Route.find? n.role target.path with
  | none => return notFound
  | some route =>
    if !route.methods.contains r.method then return methodNotAllowed route
    else withoutBody r.method <$> match route with
      | .resolve => n.unary (n.account.map AccountApi.resolve) r
      | .price => n.unary (n.price.map PriceApi.fetch) r
      | .balance => n.unary (n.wallet.map WalletApi.fetch) r
      | .metrics => n.metricsResponse
      | .watchPrice => return noHandshake r
      | .watchBalance =>
        if (Http.flag? target.query BalanceRequest.field).isNone then return badQuery
        else return noHandshake r

def handshake (n : Node) (target : String) (headers : Headers) :
    StateM World (Except Response Opening) := do
  let asked := Http.Target.ofString target
  match Route.find? n.role asked.path with
  | some .watchPrice => n.upgrade headers none
  | some .watchBalance =>
    match Http.flag? asked.query BalanceRequest.field with
    | none => return .error badQuery
    | some perAddress => n.upgrade headers (some perAddress)
  | _ => .error <$> n.handle { method := "GET", target := target, headers := headers, body := [] }

def serve (n : Node) (requests : List Request) : StateM World (List Response) :=
  requests.mapM n.handle

end Node

end WalletWatch
