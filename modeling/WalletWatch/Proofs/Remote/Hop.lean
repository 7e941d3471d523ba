import WalletWatch.Proofs.Http.Delivery
import WalletWatch.Proofs.Service.Alike
import WalletWatch.Proofs.Socket.Protocol
import WalletWatch.Remote.Deployment

set_option autoImplicit false

/-!
# One hop

A client of a node gives what the service of the node gives. A single call goes out as a request and
comes back as an answer; a stream is asked for with a handshake, and comes as the messages of a
pump. What is lost on the way is the metadata of the answer, of which nobody makes anything.
-/

namespace WalletWatch

open Envelope (SamePayload)

variable {α β : Type}

theorem World.run_bind (m : StateM World α) (f : α → StateM World β) (w : World) :
    (m >>= f) w = f (m w).1 (m w).2 := rfl

theorem Call.perform_lift (m : StateM World α) (w : World) :
    (liftM m : Call α).perform w = (.ok (m w).1, (m w).2) := rfl

theorem Call.perform_then (c : Call α) (g : α → β) (w : World) :
    (c >>= fun a => pure (g a)).perform w = ((c.perform w).1.map g, (c.perform w).2) := by
  rw [perform_bind]
  obtain ⟨r, w'⟩ := c.perform w
  cases r <;> rfl

/-! ## Clients -/

namespace Client

variable {c : Client} {path : String} {w w' : World}

/-- The request that goes out for some payload. -/
def requestOf [Wire α] (e : Envelope α) (path : String) : Http.Request :=
  ⟨"POST", path, Http.addMetadata e.metadata, Text.ofString (Wire.encode e.payload)⟩

theorem request?_of_travels [Wire α] {e : Envelope α} (travels : e.metadata.Travels) :
    request? e.payload e.metadata path = some (requestOf e path) := by
  have written : e.metadata.toList.all Http.writable = true := by
    refine List.all_eq_true.mpr fun x hx => ?_
    exact Http.writable_of_travels travels ((e.metadata.valueOf_eq_some_iff x.1 x.2).mpr hx)
  rw [request?, if_pos written]
  rfl

theorem perform_answered [Wire α] [Wire β] (live : c.cancelled = false) {e : Envelope α}
    {r : Http.Request} (sent : request? e.payload e.metadata path = some r)
    {response : Http.Response}
    (answered : c.network.exchange (c.peer.callUrl path) r w = (.ok response, w')) :
    (c.call path e : Call (Envelope β)).perform w =
      (Http.readResponse (c.peer.callUrl path) response, w') := by
  have exchanged : (liftM (c.network.exchange (c.peer.callUrl path) r) : Call _).perform w =
      (.ok (.ok response), w') := by
    rw [Call.perform_lift, answered]
  unfold call
  simp only [live, sent]
  exact Call.perform_bind_ok _ exchanged

theorem perform_call [Wire α] [Wire β] (path : String) (live : c.cancelled = false) {e : Envelope α}
    (travels : e.metadata.Travels) {response : Http.Response}
    (answered : c.network.exchange (c.peer.callUrl path) (requestOf e path) w =
      (.ok response, w')) :
    (c.call path e : Call (Envelope β)).perform w =
      (Http.readResponse (c.peer.callUrl path) response, w') :=
  perform_answered live (request?_of_travels travels) answered

/-- What a client makes of a socket that it dialed. -/
def received [Wire α] (c : Client) (url : String) : Dial → Call (Envelope (List (Item α)))
  | .timedOut =>
    throw ⟨.unavailable, url ++ ": dial timed out after " ++ showDuration c.peer.dialTimeout⟩
  | .refused r => throw (Http.failureOf r.status r.body)
  | .unreachable reason => throw ⟨.unavailable, url ++ ": " ++ reason⟩
  | .connected headers events => do
    Call.say ⟨.debug, "stream dialed", [("url", url)]⟩
    return ⟨Socket.read events, Http.metadataOf headers⟩

theorem perform_watch [Wire α] (live : c.cancelled = false) {metadata : Metadata}
    (travels : metadata.Travels)
    (addressed : (Http.Address.parse (c.peer.watchUrl path)).isOk = true) {dialed : Dial}
    (answered : c.network.dial (c.peer.watchUrl path) (Http.writeMetadata [] metadata) w =
      (dialed, w')) :
    (c.watch path metadata : Call (Envelope (List (Item α)))).perform w =
      (c.received (c.peer.watchUrl path) dialed).perform w' := by
  have exchanged : (liftM (c.network.dial (c.peer.watchUrl path)
      (Http.writeMetadata [] metadata)) : Call _).perform w = (.ok dialed, w') := by
    rw [Call.perform_lift, answered]
  unfold watch
  cases parsed : Http.Address.parse (c.peer.watchUrl path) with
  | error fault =>
    rw [parsed] at addressed
    cases addressed
  | ok address =>
    simp only [live, parsed, Http.unwritten_of_travels travels, List.forIn_nil, pure_bind,
      Bool.false_eq_true, if_false]
    refine (Call.perform_bind_ok _ exchanged).trans ?_
    cases dialed <;> rfl

end Client

/-! ## Nodes -/

namespace Node

variable {n : Node} {w : World} {limit? : Option Nat}

theorem run_unary [Wire α] [Wire β] {service : Envelope α → Call (Envelope β)} {r : Http.Request}
    {a : α} (read : n.payload r.headers r.body = .ok a) :
    n.unary (.ok service) r w =
      (Http.respond ((service ⟨a, Http.metadataOf r.headers⟩).perform w).1 n.hostname,
        ((service ⟨a, Http.metadataOf r.headers⟩).perform w).2) := by
  unfold unary
  rw [read]
  rfl

theorem run_upgrade (headers : Http.Headers) (perAddress? : Option Bool) :
    n.upgrade headers perAddress? w = match (n.watch headers perAddress?).perform w with
      | (.ok o, w') => (.ok o, w')
      | (.error f, w') => (.error (Http.failureResponse f n.hostname), w') := by
  have opened : (n.watch headers perAddress?).run w = (n.watch headers perAddress?).perform w := rfl
  rw [upgrade, World.run_bind, opened]
  obtain ⟨r, w'⟩ := (n.watch headers perAddress?).perform w
  cases r <;> rfl

theorem perform_watch_prices (hostname : String) (p : PriceApi) (headers : Http.Headers)
    (w : World) : (watch ⟨hostname, .price p, limit?⟩ headers none).perform w =
      (((p.watch ⟨{}, Http.metadataOf headers⟩).perform w).1.map .prices,
        ((p.watch ⟨{}, Http.metadataOf headers⟩).perform w).2) :=
  Call.perform_then _ _ w

theorem perform_watch_balances (hostname : String) (api : WalletApi) (headers : Http.Headers)
    (perAddress : Bool) (w : World) :
    (watch ⟨hostname, .wallet api, limit?⟩ headers (some perAddress)).perform w =
      (((api.watch ⟨⟨perAddress⟩, Http.metadataOf headers⟩).perform w).1.map .balances,
        ((api.watch ⟨⟨perAddress⟩, Http.metadataOf headers⟩).perform w).2) :=
  Call.perform_then _ _ w

theorem payload_delivered [Wire α] [LawfulWire α] (unlimited : n.bodyLimit? = none) (a : α)
    (m : Metadata) :
    n.payload (Http.addMetadata m).delivered (Text.ofString (Wire.encode a)).delivered =
      .ok a := by
  simp only [payload, takes, unlimited, Http.announcesJson_addMetadata, Text.delivered_ofString,
    Wire.decodeFirst_encode]
  rfl

theorem withoutBody_post : withoutBody "POST" = id := by
  funext r
  have other : ¬ "POST" = "HEAD" := by decide
  exact if_neg other

variable {r : Http.Request}

/-- The answer of a node to a request that is posted to a route. -/
def posted (n : Node) (r : Http.Request) : Route → StateM World Http.Response
  | .resolve => n.unary (n.account.map AccountApi.resolve) r
  | .price => n.unary (n.price.map PriceApi.fetch) r
  | .balance => n.unary (n.wallet.map WalletApi.fetch) r
  | _ => n.metricsResponse

theorem handle_eq_posted (path : String) {route : Route} (method : r.method = "POST")
    (target : r.target = path)
    (found : Route.find? n.role (Http.Target.ofString path).path = some route)
    (allowed : route.methods.contains "POST" = true) : n.handle r = n.posted r route := by
  simp only [handle, target, found, method, allowed, withoutBody_post, id_map]
  cases route with
  | resolve | price | balance => rfl
  | watchPrice | watchBalance | metrics => exact absurd allowed (by decide)

/-! ### Routes of streams -/

theorem handshake_prices (hostname : String) (p : PriceApi) (headers : Http.Headers) :
    handshake ⟨hostname, .price p, limit?⟩ priceWatchPath headers =
      upgrade ⟨hostname, .price p, limit?⟩ headers none := by
  have found : Route.find? .price (Http.Target.ofString priceWatchPath).path =
      some .watchPrice := by
    decide +kernel
  simp only [handshake, role, Served.role, found]

theorem handshake_balances (hostname : String) (api : WalletApi) (perAddress : Bool)
    (headers : Http.Headers) :
    handshake ⟨hostname, .wallet api, limit?⟩ (balanceWatchTarget perAddress) headers =
      upgrade ⟨hostname, .wallet api, limit?⟩ headers (some perAddress) := by
  have found : ∀ b, Route.find? .wallet (Http.Target.ofString (balanceWatchTarget b)).path =
      some .watchBalance := by
    decide +kernel
  have flag : ∀ b, Http.flag? (Http.Target.ofString (balanceWatchTarget b)).query
      BalanceRequest.field = some b := by
    decide +kernel
  simp only [handshake, role, Served.role, found, flag]

end Node

theorem Http.alike_readResponse [Wire α] [LawfulWire α] (result : Item (Envelope α))
    (url hostname : String) :
    Item.Alike SamePayload result (readResponse url (respond result hostname).delivered) := by
  cases result with
  | ok e =>
    rw [delivered_respond_ok, readResponse_payload]
    exact .ok rfl
  | error f =>
    have refused : (respond (α := α) (.error f) hostname).delivered =
      (failureResponse f hostname).delivered := rfl
    rw [refused, delivered_failureResponse, readResponse_failure]
    exact .error f

theorem behind?_append (front s : String) : behind? front (front ++ s) = some s := by
  have isFront : front.toList.isPrefixOf (front ++ s).toList = true := by
    rw [String.toList_append, List.isPrefixOf_iff_prefix]
    exact List.prefix_append _ _
  rw [behind?, if_pos isFront, String.toList_append, List.drop_left, String.ofList_toList]

theorem Network.exchange_ofNode (address : String) (n : Node) (r : Http.Request) (w : World) :
    (Network.ofNode address n).exchange (address ++ r.target) r w =
      (.ok (n.handle r.delivered w).1.delivered, (n.handle r.delivered w).2) := by
  simp only [Network.ofNode, if_true]
  rfl

theorem Network.dial_ofNode (address path : String) (n : Node) (headers : Http.Headers)
    (w : World) :
    (Network.ofNode address n).dial (Peer.socketBase address ++ path) headers w =
      match n.handshake path headers.delivered w with
      | (.error r, w') => (.refused r.delivered, w')
      | (.ok o, w') => (.connected o.headers.delivered (o.messages.map .message), w') := by
  simp only [Network.ofNode, behind?_append]
  rw [World.run_bind]
  obtain ⟨r, w'⟩ := n.handshake path headers.delivered w
  cases r <;> rfl

/-! ## A client of a node -/

section Hop

variable (d : Deployment) (role : Role) {n : Node} {path : String}

theorem Deployment.dial_client (path : String) (headers : Http.Headers) (w : World) :
    (d.client role n).network.dial ((d.client role n).peer.watchUrl path) headers w =
      match n.handshake path headers.delivered w with
      | (.error r, w') => (.refused r.delivered, w')
      | (.ok o, w') => (.connected o.headers.delivered (o.messages.map .message), w') := by
  have url : (d.client role n).peer.watchUrl path =
    Peer.socketBase (Peer.withoutSlashes (d.address role)) ++ path := rfl
  have network : (d.client role n).network =
    Network.ofNode (Peer.withoutSlashes (d.address role)) n := rfl
  rw [url, network, Network.dial_ofNode]

theorem Deployment.echoes_call [Wire α] [LawfulWire α] [Wire β] [LawfulWire β]
    {route : Route} (found : Route.find? n.role (Http.Target.ofString path).path = some route)
    (allowed : route.methods.contains "POST" = true) {service : Envelope α → Call (Envelope β)}
    (served : ∀ r, n.posted r route = n.unary (.ok service) r) {e : Envelope α}
    (unlimited : n.bodyLimit? = none) (plain : e.metadata.Plain) :
    Call.Echoes SamePayload (service e) ((d.client role n).call path e) := by
  intro w
  have read := Node.payload_delivered unlimited e.payload e.metadata
  have metadata : Http.metadataOf (Client.requestOf e path).delivered.headers = e.metadata :=
    Http.metadataOf_addMetadata plain
  have answered := Network.exchange_ofNode (Peer.withoutSlashes (d.address role)) n
    (Client.requestOf e path) w
  have handled : n.handle (Client.requestOf e path).delivered =
      n.posted (Client.requestOf e path).delivered route :=
    Node.handle_eq_posted path rfl rfl found allowed
  rw [handled, served, Node.run_unary read, metadata] at answered
  have made := Client.perform_call (β := β) (c := d.client role n) path rfl plain.travels
    answered
  rw [made]
  exact ⟨Http.alike_readResponse _ _ _, rfl⟩

theorem Deployment.echoes_watch [Wire α] {perAddress? : Option Bool}
    (routed : ∀ headers, n.handshake path headers = n.upgrade headers perAddress?)
    (addressed : (Http.Address.parse ((d.client role n).peer.watchUrl path)).isOk = true)
    {m : Metadata} (plain : m.Plain) :
    Call.Echoes (fun (o : Node.Opening) (e : Envelope (List (Item α))) =>
        e.payload = Socket.read (o.messages.map .message))
      (n.watch (Http.writeMetadata [] m).delivered perAddress?)
      ((d.client role n).watch path m) := by
  intro w
  have answered := d.dial_client role (n := n) path (Http.writeMetadata [] m) w
  rw [routed, Node.run_upgrade] at answered
  generalize (n.watch (Http.writeMetadata [] m).delivered perAddress?).perform w = opened
    at answered
  obtain ⟨r, w'⟩ := opened
  cases r with
  | error f =>
    have made := Client.perform_watch (α := α) (c := d.client role n) rfl plain.travels addressed
      answered
    rw [made, Client.received, Http.failureOf_failureResponse]
    exact ⟨.error f, rfl⟩
  | ok o =>
    have made := Client.perform_watch (α := α) (c := d.client role n) rfl plain.travels addressed
      answered
    rw [made]
    exact ⟨.ok rfl, rfl⟩

end Hop

end WalletWatch
