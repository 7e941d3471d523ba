import WalletWatch.Proofs.Node.Single
import WalletWatch.Proofs.Service.Traces

set_option autoImplicit false

/-!
# Names of nodes

Every answer of a node names the node, and no other instance. A service stamps what it gives with
the name that it shares with its node, a failure is stamped by the node itself, and names that come
from callers or from other nodes stay out of both.
-/

namespace WalletWatch

open Http (Headers Request Response)

variable {α β : Type} {hostname : String}

theorem Item.of_map_eq_ok {i : Item α} {g : α → β} {b : β} (given : i.map g = .ok b) :
    ∃ a, i = .ok a ∧ g a = b := by
  cases i with
  | error f => cases given
  | ok a =>
    cases given
    exact ⟨a, rfl, rfl⟩

/-! ## Services -/

/-- Metadata of one caller, who may name any instance in it. -/
def Metadata.SameCaller (m m' : Metadata) : Prop :=
  ∀ key ∈ [authorizationKey, membershipKey, routeKey], m.get? key = m'.get? key

/-- All that a call may give is stamped with the name of an instance. -/
def Call.Stamped (hostname : String) (c : Call (Envelope α)) : Prop :=
  ∀ w e, (c.perform w).1 = .ok e → e.metadata = Metadata.ofHost hostname

/-- A service that answers under its own name, whatever names its callers give. -/
structure Signs (hostname : String) (service : Envelope α → Call (Envelope β)) : Prop where
  stamped : ∀ e, (service e).Stamped hostname
  heedless : ∀ (a : α) (m m' : Metadata), m.SameCaller m' → service ⟨a, m⟩ = service ⟨a, m'⟩

namespace Call

theorem stamped_fromHost (a : α) (hostname : String) :
    Stamped hostname (pure (Envelope.fromHost a hostname)) := by
  rintro w e given
  cases given
  rfl

theorem Stamped.bind (c : Call α) {k : α → Call (Envelope β)}
    (last : ∀ a, (k a).Stamped hostname) : (c >>= k).Stamped hostname := by
  intro w e given
  obtain ⟨a, w', -, given⟩ := perform_bind_eq_ok given
  exact last a w' e given

end Call

theorem Validator.validate_congr (v : Validator) {m m' : Metadata} (same : m.SameCaller m') :
    v.validate m = v.validate m' := by
  have token : m.get? Metadata.authorizationKey = m'.get? Metadata.authorizationKey :=
    same _ (by simp)
  have tier : m.get? Metadata.membershipKey = m'.get? Metadata.membershipKey := same _ (by simp)
  have route : m.get? Metadata.routeKey = m'.get? Metadata.routeKey := same _ (by simp)
  have checked : check v.resolver m = check v.resolver m' := by
    simp only [check, token?, requested?, outbound, token, tier, route]
  rw [validate, validate, checked]

theorem AccountService.signs_resolve (s : AccountService) : Signs s.hostname s.resolve where
  stamped request w e given := by
    obtain ⟨w', answered, -⟩ := s.answers request w
    change (s.resolve request).perform w = (s.answer request.payload.token, w') at answered
    rw [answered, answer] at given
    cases found : s.directory.lookup? request.payload.token with
    | none =>
      rw [found] at given
      cases given
    | some r =>
      rw [found] at given
      cases given
      rfl
  heedless a m m' same := by
    have route : m.get? Metadata.routeKey = m'.get? Metadata.routeKey := same _ (by simp)
    simp only [resolve, route]

section Price

variable (s : PriceService)

theorem PriceService.accept_congr {m m' : Metadata} (same : m.SameCaller m') (a : PriceRequest) :
    s.accept ⟨a, m⟩ = s.accept ⟨a, m'⟩ := by
  simp only [accept, s.validator.validate_congr same]

theorem PriceService.signs_fetch : Signs s.hostname s.fetch where
  stamped _ := .bind _ fun _ => .bind _ fun _ => Call.stamped_fromHost _ _
  heedless a m m' same := by
    simp only [fetch, s.accept_congr same]

theorem PriceService.signs_watch : Signs s.hostname s.watch where
  stamped _ := .bind _ fun _ => .bind _ fun _ => .bind _ fun _ => Call.stamped_fromHost _ _
  heedless a m m' same := by
    simp only [watch, s.accept_congr same]

end Price

section Wallet

variable (s : WalletService)

theorem WalletService.signs_fetch : Signs s.hostname s.fetch where
  stamped _ := .bind _ fun _ => .bind _ fun _ => .bind _ fun _ => .bind _ fun _ =>
    .bind _ fun _ => Call.stamped_fromHost _ _
  heedless a m m' same := by
    simp only [fetch, s.validator.validate_congr same]

theorem WalletService.signs_watch : Signs s.hostname s.watch where
  stamped _ := .bind _ fun _ => .bind _ fun _ => .bind _ fun _ => .bind _ fun _ =>
    .bind _ fun _ => Call.stamped_fromHost _ _
  heedless a m m' same := by
    simp only [watch, s.validator.validate_congr same]

end Wallet

/-! ## Headers -/

/-- Headers that name one instance and hold nothing else but the type of the body. -/
structure Http.Headers.Name (h : Headers) (hostname : String) : Prop where
  one : h.filter (fun e => e.name = Metadata.hostnameKey) =
    [⟨Metadata.hostnameKey, Text.ofString hostname⟩]
  rest : ∀ e ∈ h, e.name ≠ Metadata.hostnameKey → e ∈ Http.jsonHeaders

namespace Http

theorem writeMetadata_ofHost (valid : isValue hostname = true) (h : Headers) :
    writeMetadata h (Metadata.ofHost hostname) =
      h.put Metadata.hostnameKey (Text.ofString hostname) := by
  have fits : writable (Metadata.hostnameKey, hostname) = true := by
    have name : isName Metadata.hostnameKey = true := by decide +kernel
    rw [writable, name, valid]
    rfl
  rw [writeMetadata, Metadata.toList_ofHost]
  simp [fits]

theorem names_put {h : Headers} (front : ∀ e ∈ h, e ∈ jsonHeaders) (hostname : String) :
    (h.put Metadata.hostnameKey (Text.ofString hostname)).Name hostname where
  one := h.filter_put_self _ _
  rest e mem other := by
    rcases List.mem_append.mp mem with kept | new
    · exact front e (List.mem_of_mem_filter kept)
    · rw [List.mem_singleton.mp new] at other
      exact absurd rfl other

theorem names_failureResponse (valid : isValue hostname = true) (f : Failure) :
    (failureResponse f hostname).headers.Name hostname := by
  rw [failureResponse, writeMetadata_ofHost valid]
  exact names_put (fun _ mem => mem) hostname

theorem names_respond [Wire α] (valid : isValue hostname = true) {result : Item (Envelope α)}
    (stamped : ∀ e, result = .ok e → e.metadata = Metadata.ofHost hostname) :
    (respond result hostname).headers.Name hostname := by
  cases result with
  | error f => exact names_failureResponse valid f
  | ok e =>
    rw [respond, stamped e rfl, writeMetadata_ofHost valid]
    exact names_put (fun _ mem => mem) hostname

end Http

/-! ## Nodes -/

/-- A service of a node that signs with a name. -/
def Served.Signs (hostname : String) : Served → Prop
  | account a => WalletWatch.Signs hostname a.resolve
  | price p => WalletWatch.Signs hostname p.fetch ∧ WalletWatch.Signs hostname p.watch
  | wallet a => WalletWatch.Signs hostname a.fetch ∧ WalletWatch.Signs hostname a.watch

namespace Node

variable {n : Node} {r r' : Request}

theorem signs_servedOf (network : Network) (feed : Nat → Int64) (s : Settings)
    (hostname : String) : (servedOf network feed s hostname).Signs hostname := by
  unfold servedOf
  cases s.role with
  | account => exact AccountService.signs_resolve ⟨.seeded, hostname⟩
  | price =>
    let service : PriceService := ⟨validatorOf network s .price, feed, s.premiumOnly, hostname⟩
    exact ⟨service.signs_fetch, service.signs_watch⟩
  | wallet =>
    let service : WalletService := ⟨validatorOf network s .wallet,
      (clientOf network s s.peers.priceServer).priceApi, ⟨.seeded, s.v1Behavior⟩, hostname⟩
    exact ⟨service.signs_fetch, service.signs_watch⟩

/-! ### Single calls -/

/-- A request reaches the handler of a single call. -/
def ReachesCall (n : Node) (r : Request) : Prop :=
  r.method = "POST" ∧ ∃ route ∈ [Route.resolve, .price, .balance],
    Route.find? n.role (Http.Target.ofString r.target).path = some route

/-- Requests with the same body by the same caller, who may name any instance in the headers. -/
structure SameRequest (r r' : Request) : Prop where
  method : r.method = r'.method
  target : r.target = r'.target
  body : r.body = r'.body
  announces : Http.announcesJson r.headers = Http.announcesJson r'.headers
  caller : (Http.metadataOf r.headers).SameCaller (Http.metadataOf r'.headers)

theorem run_unary_error [Wire α] [Wire β] {service : Item (Envelope α → Call (Envelope β))}
    {f : Failure} (broken : (n.payload r.headers r.body : Item α) = .error f ∨
      ∃ a : α, n.payload r.headers r.body = .ok a ∧ service = .error f) (w : World) :
    n.unary service r w = (Http.failureResponse f n.hostname, w) := by
  unfold unary
  rcases broken with body | ⟨a, body, rfl⟩
  · rw [body]
    rfl
  · rw [body]
    rfl

/-- Requests are answered under one name, whatever names their callers give. -/
structure Signed (hostname : String) (answer : Request → StateM World Response) : Prop where
  names : ∀ r w, (answer r w).1.headers.Name hostname
  heedless : ∀ r r', SameRequest r r' → answer r = answer r'

theorem signed_unary [Wire α] [Wire β] {service : Item (Envelope α → Call (Envelope β))}
    (valid : Http.isValue n.hostname = true)
    (signs : ∀ make, service = .ok make → Signs n.hostname make) :
    Signed n.hostname (n.unary service) where
  names r w := by
    cases body : (n.payload r.headers r.body : Item α) with
    | error f =>
      rw [run_unary_error (.inl body)]
      exact Http.names_failureResponse valid f
    | ok a =>
      cases service with
      | error f =>
        rw [run_unary_error (.inr ⟨a, body, rfl⟩)]
        exact Http.names_failureResponse valid f
      | ok make =>
        rw [run_unary body]
        exact Http.names_respond valid fun e given => (signs make rfl).stamped _ w e given
  heedless r r' same := by
    have read : (n.payload r.headers r.body : Item α) = n.payload r'.headers r'.body := by
      simp only [payload, same.announces, same.body]
    funext w
    cases body : (n.payload r.headers r.body : Item α) with
    | error f =>
      rw [run_unary_error (.inl body), run_unary_error (.inl (read.symm.trans body))]
    | ok a =>
      have body' := read.symm.trans body
      cases service with
      | error f =>
        rw [run_unary_error (.inr ⟨a, body, rfl⟩), run_unary_error (.inr ⟨a, body', rfl⟩)]
      | ok make =>
        rw [run_unary body, run_unary body', (signs make rfl).heedless a _ _ same.caller]

theorem signed_posted (valid : Http.isValue n.hostname = true)
    (signs : n.served.Signs n.hostname) {route : Route}
    (single : route ∈ [Route.resolve, .price, .balance]) :
    Signed n.hostname (n.posted · route) := by
  obtain ⟨hostname, served, limit?⟩ := n
  simp only [List.mem_cons, List.not_mem_nil, or_false] at single
  rcases single with rfl | rfl | rfl
  · refine signed_unary valid fun make given => ?_
    cases served with
    | account a =>
      cases given
      exact signs
    | price p | wallet a => cases given
  · refine signed_unary valid fun make given => ?_
    cases served with
    | price p =>
      cases given
      exact signs.1
    | account a | wallet a => cases given
  · refine signed_unary valid fun make given => ?_
    cases served with
    | wallet a =>
      cases given
      exact signs.1
    | account a | price p => cases given

/-! ### Streams -/

/-- A handshake reaches the handler of a stream. -/
def ReachesStream (n : Node) (target : String) : Prop :=
  let asked := Http.Target.ofString target
  Route.find? n.role asked.path = some .watchPrice ∨
    Route.find? n.role asked.path = some .watchBalance ∧
      (Http.flag? asked.query BalanceRequest.field).isSome = true

/-- The headers of the answer to a handshake, beside those of the handshake itself. -/
def answerHeaders : Except Response Opening → Headers
  | .ok o => o.headers
  | .error r => r.headers

theorem handshake_of_reaches {target : String} (reaches : ReachesStream n target) :
    ∃ perAddress?, ∀ headers, n.handshake target headers = n.upgrade headers perAddress? := by
  rcases reaches with prices | ⟨balances, flag⟩
  · refine ⟨none, fun headers => ?_⟩
    simp only [handshake, prices]
  · obtain ⟨perAddress, flag⟩ := Option.isSome_iff_exists.mp flag
    refine ⟨some perAddress, fun headers => ?_⟩
    simp only [handshake, balances, flag]

theorem metadata_of_watch (signs : n.served.Signs n.hostname) {headers : Headers}
    {perAddress? : Option Bool} {w : World} {o : Opening}
    (opened : ((n.watch headers perAddress?).perform w).1 = .ok o) :
    o.metadata = Metadata.ofHost n.hostname := by
  obtain ⟨hostname, served, limit?⟩ := n
  cases perAddress? with
  | none =>
    cases served with
    | price p =>
      rw [perform_watch_prices] at opened
      obtain ⟨e, given, rfl⟩ := Item.of_map_eq_ok opened
      exact signs.2.stamped _ w e given
    | account a | wallet a => cases opened
  | some perAddress =>
    cases served with
    | wallet a =>
      rw [perform_watch_balances] at opened
      obtain ⟨e, given, rfl⟩ := Item.of_map_eq_ok opened
      exact signs.2.stamped _ w e given
    | account a | price p => cases opened

theorem names_upgrade (valid : Http.isValue n.hostname = true) (signs : n.served.Signs n.hostname)
    (headers : Headers) (perAddress? : Option Bool) (w : World) :
    (answerHeaders (n.upgrade headers perAddress? w).1).Name n.hostname := by
  have metadata : ∀ o, ((n.watch headers perAddress?).perform w).1 = .ok o →
      o.metadata = Metadata.ofHost n.hostname := fun o opened => metadata_of_watch signs opened
  rw [run_upgrade]
  generalize (n.watch headers perAddress?).perform w = opened at metadata ⊢
  obtain ⟨result, w'⟩ := opened
  cases result with
  | error f => exact Http.names_failureResponse valid f
  | ok o =>
    change (Http.writeMetadata [] o.metadata).Name n.hostname
    rw [metadata o rfl, Http.writeMetadata_ofHost valid]
    exact Http.names_put (fun _ mem => absurd mem List.not_mem_nil) n.hostname

theorem upgrade_congr (signs : n.served.Signs n.hostname) {headers headers' : Headers}
    (same : (Http.metadataOf headers).SameCaller (Http.metadataOf headers'))
    (perAddress? : Option Bool) :
    n.upgrade headers perAddress? = n.upgrade headers' perAddress? := by
  have watched : n.watch headers perAddress? = n.watch headers' perAddress? := by
    obtain ⟨hostname, served, limit?⟩ := n
    cases perAddress? with
    | none =>
      cases served with
      | price p =>
        change (p.watch ⟨{}, _⟩ >>= _) = (p.watch ⟨{}, _⟩ >>= _)
        rw [signs.2.heedless _ _ _ same]
      | account a | wallet a => rfl
    | some perAddress =>
      cases served with
      | wallet a =>
        change (a.watch ⟨_, _⟩ >>= _) = (a.watch ⟨_, _⟩ >>= _)
        rw [signs.2.heedless _ _ _ same]
      | account a | price p => rfl
  rw [upgrade, upgrade, watched]

/-! ### All answers -/

/-- A node names itself in every answer, and nobody else: no name that a caller gives matters. -/
structure NamesItself (n : Node) : Prop where
  calls : ∀ r w, ReachesCall n r → (n.handle r w).1.headers.Name n.hostname
  streams : ∀ target headers w, ReachesStream n target →
    (answerHeaders (n.handshake target headers w).1).Name n.hostname
  heedless_calls : ∀ r r', ReachesCall n r → SameRequest r r' → n.handle r = n.handle r'
  heedless_streams : ∀ target headers headers', ReachesStream n target →
    (Http.metadataOf headers).SameCaller (Http.metadataOf headers') →
    n.handshake target headers = n.handshake target headers'

theorem handle_of_reaches (reaches : ReachesCall n r) :
    ∃ route ∈ [Route.resolve, .price, .balance], ∀ r' : Request, r'.method = r.method →
      r'.target = r.target → n.handle r' = n.posted r' route := by
  obtain ⟨posted, route, single, found⟩ := reaches
  refine ⟨route, single, fun r' method target => ?_⟩
  refine handle_eq_posted r.target (method.trans posted) target found ?_
  simp only [List.mem_cons, List.not_mem_nil, or_false] at single
  rcases single with rfl | rfl | rfl <;> rfl

/-- Every answer of a node, to a call or a handshake and whatever comes of it, has the name of the
node in its headers, and no other name. -/
theorem nodes_name_themselves (network : Network) (feed : Nat → Int64) (s : Settings)
    (hostname : String) (valid : Http.isValue hostname = true) :
    NamesItself (ofSettings network feed s hostname) := by
  have signs := signs_servedOf network feed s hostname
  refine ⟨?_, ?_, ?_, ?_⟩
  · intro r w reaches
    obtain ⟨route, single, handled⟩ := handle_of_reaches reaches
    rw [handled r rfl rfl]
    exact (signed_posted valid signs single).names r w
  · intro target headers w reaches
    obtain ⟨perAddress?, shaken⟩ := handshake_of_reaches reaches
    rw [shaken headers]
    exact names_upgrade valid signs headers perAddress? w
  · intro r r' reaches same
    obtain ⟨route, single, handled⟩ := handle_of_reaches reaches
    rw [handled r rfl rfl, handled r' same.method.symm same.target.symm]
    exact (signed_posted valid signs single).heedless r r' same
  · intro target headers headers' reaches same
    obtain ⟨perAddress?, shaken⟩ := handshake_of_reaches reaches
    rw [shaken headers, shaken headers']
    exact upgrade_congr signs same perAddress?

/-- A network where every other node refuses under its own name. -/
def refusing : Network where
  exchange _ _ := pure (.ok (Http.failureResponse ⟨.notFound, "unknown here"⟩ "account-7"))
  dial _ _ := pure .timedOut

/-- The headers of a caller who names an instance. -/
def namingHeaders : Headers :=
  Http.jsonHeaders ++ .ofList [("authorization", .ofString "2bd806c9"),
    ("membership", .ofString "normal"), ("hostname", .ofString "elsewhere")]

theorem refused_price_names_the_price_node :
    let n := ofSettings refusing (fun _ => 1) { version := 1, role := .price } "price-0"
    let r : Request := ⟨"POST", pricePath, namingHeaders, .ofString "\x7b\x7d"⟩
    Http.isValue "price-0" = true ∧
    (Http.metadataOf namingHeaders).get? Metadata.hostnameKey = some "elsewhere" ∧
    (n.handle r {}).1.status = 404 ∧ (n.handle r {}).1.headers.Name "price-0" ∧
    (answerHeaders (n.handshake priceWatchPath namingHeaders {}).1).Name "price-0" := by
  intro n r
  have valid : Http.isValue "price-0" = true := by decide +kernel
  have named := nodes_name_themselves refusing (fun _ => 1) { version := 1, role := .price }
    "price-0" valid
  have price : Route.find? .price (Http.Target.ofString pricePath).path = some .price := by
    decide +kernel
  have stream : Route.find? .price (Http.Target.ofString priceWatchPath).path =
      some .watchPrice := by
    decide +kernel
  refine ⟨valid, by decide +kernel, by decide +kernel, ?_, ?_⟩
  · exact named.calls r {} ⟨rfl, .price, by simp, price⟩
  · exact named.streams priceWatchPath namingHeaders {} (.inl stream)

end Node

end WalletWatch
