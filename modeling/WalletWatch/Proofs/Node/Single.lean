import WalletWatch.Node.Wired
import WalletWatch.Proofs.Http.Written
import WalletWatch.Proofs.Remote.Hop

set_option autoImplicit false

/-!
# Single calls to a node

A node reads the body of a single call before anything else. If there is no payload in it, the call
is refused whatever else the request holds, and leaves nothing behind. Otherwise the answer is what
the service makes of the payload and of the metadata in the headers.
-/

namespace WalletWatch

open Http (Request Response)

/-- Nothing is counted, no sample is taken and no other service is asked. -/
structure World.Untouched (w w' : World) : Prop where
  metrics : w'.metrics = w.metrics
  samples : w'.samples = w.samples
  resolveCalls : w'.resolveCalls = w.resolveCalls
  priceCalls : w'.priceCalls = w.priceCalls

namespace Node

variable {α β : Type} [Wire α] [Wire β] {n : Node} {r : Request}

/-- A request is posted to a path, with any query behind it. -/
def PostedTo (path : String) (r : Request) : Prop :=
  r.method = "POST" ∧ (Http.Target.ofString r.target).path = path

/-- A node gets a payload from a request: the headers announce JSON, and the body is no longer than
the node takes and begins with the payload. -/
structure Gets (n : Node) (r : Request) (a : α) : Prop where
  announced : Http.announcesJson r.headers = true
  fits : ∀ limit, n.bodyLimit? = some limit → r.body.toBytes.length ≤ limit
  read : Wire.decodeFirst r.body = .ok a

/-! ## Payloads -/

theorem takes_iff {body : Text} :
    n.takes body = true ↔ ∀ limit, n.bodyLimit? = some limit → body.toBytes.length ≤ limit := by
  unfold takes
  cases n.bodyLimit? with
  | none => simp
  | some limit => simp

theorem payload_of_gets {a : α} (h : n.Gets r a) : n.payload r.headers r.body = .ok a := by
  simp only [payload, h.announced, takes_iff.mpr h.fits, h.read]
  rfl

theorem payload_of_not_gets (h : ∀ a : α, ¬ n.Gets r a) :
    ∃ reason, n.payload (α := α) r.headers r.body =
      .error ⟨.invalidArgument, "invalid request body: " ++ reason⟩ := by
  by_cases announced : Http.announcesJson r.headers = true
  · by_cases taken : n.takes r.body = true
    · cases read : Wire.decodeFirst (α := α) r.body with
      | ok a => exact absurd ⟨announced, takes_iff.mp taken, read⟩ (h a)
      | error reject =>
        cases reject with
        | malformed =>
          refine ⟨"Failed to parse the request body as JSON: " ++ Json.Reject.malformed.reason, ?_⟩
          simp only [payload, announced, taken, read]
          rfl
        | mismatched =>
          refine ⟨"Failed to deserialize the JSON body into the target type: " ++
            Json.Reject.mismatched.reason, ?_⟩
          simp only [payload, announced, taken, read]
          rfl
    · refine ⟨"Failed to buffer the request body: length limit exceeded", ?_⟩
      simp only [payload, announced, taken]
      rfl
  · refine ⟨"Expected request with \x60Content-Type: application/json\x60", ?_⟩
    simp only [payload, announced]
    rfl

/-! ## Calls -/

/-- Single calls that are posted to a path of a node are made to a service. -/
structure AnswersCalls (n : Node) (path : String) (service : Envelope α → Call (Envelope β)) :
    Prop where
  refused : ∀ r w, PostedTo path r → (∀ a : α, ¬ n.Gets r a) → ∃ reason,
    (n.handle r w).1.status = 400 ∧
    Wire.decode (n.handle r w).1.body =
      .ok (FailureBody.mk "INVALID_ARGUMENT" ("invalid request body: " ++ reason)) ∧
    w.Untouched (n.handle r w).2
  made : ∀ r w a, PostedTo path r → n.Gets r a →
    let result := (service ⟨a, Http.metadataOf r.headers⟩).perform w
    n.handle r w = (Http.respond result.1 n.hostname, result.2)
  /-- Of the headers of a request that is not refused, the four known ones count. -/
  alike : ∀ r r' w (a : α), PostedTo path r → PostedTo path r' → n.Gets r a → n.Gets r' a →
    (∀ key ∈ Http.knownKeys, r.headers.get? key = r'.headers.get? key) →
    n.handle r w = n.handle r' w

theorem run_unary_of_not_gets (n : Node) (service : Item (Envelope α → Call (Envelope β)))
    (w : World) (h : ∀ a : α, ¬ n.Gets r a) : ∃ reason, n.unary service r w =
      (Http.failureResponse ⟨.invalidArgument, "invalid request body: " ++ reason⟩ n.hostname,
        w) := by
  obtain ⟨reason, refused⟩ := payload_of_not_gets h
  refine ⟨reason, ?_⟩
  unfold unary
  rw [refused]
  rfl

theorem handle_of_postedTo {path : String} {route : Route} (posted : PostedTo path r)
    (found : Route.find? n.role path = some route)
    (allowed : route.methods.contains "POST" = true) : n.handle r = n.posted r route := by
  refine handle_eq_posted r.target posted.1 rfl ?_ allowed
  rw [posted.2]
  exact found

theorem answersCalls_of_route {path : String} {route : Route}
    {service : Envelope α → Call (Envelope β)} (found : Route.find? n.role path = some route)
    (allowed : route.methods.contains "POST" = true)
    (served : ∀ r, n.posted r route = n.unary (.ok service) r) : n.AnswersCalls path service := by
  have handled : ∀ {r}, PostedTo path r → n.handle r = n.unary (.ok service) r := by
    intro r posted
    rw [handle_of_postedTo posted found allowed, served]
  have made : ∀ r w a, PostedTo path r → n.Gets r a → n.handle r w =
      (Http.respond ((service ⟨a, Http.metadataOf r.headers⟩).perform w).1 n.hostname,
        ((service ⟨a, Http.metadataOf r.headers⟩).perform w).2) := by
    intro r w a posted gets
    rw [handled posted, run_unary (payload_of_gets gets)]
  refine ⟨?_, made, ?_⟩
  · intro r w posted h
    obtain ⟨reason, ran⟩ := run_unary_of_not_gets n (.ok service) w h
    rw [handled posted, ran]
    exact ⟨reason, rfl, Http.decode_failureResponse _ _, rfl, rfl, rfl, rfl⟩
  · intro r r' w a posted posted' gets gets' same
    have metadata : Http.metadataOf r.headers = Http.metadataOf r'.headers :=
      Http.metadataOf_congr fun key known => Http.Headers.text?_congr (same key known)
    rw [made r w a posted gets, made r' w a posted' gets', metadata]

/-- Every single call is refused for its body first, without a trace. Otherwise it is the call of
the service, and what it gives and leaves behind depends on the payload and the known headers
alone. -/
theorem bodies_are_read_first (hostname : String) (limit? : Option Nat) :
    (∀ api : AccountApi, AnswersCalls ⟨hostname, .account api, limit?⟩ resolvePath api.resolve) ∧
    (∀ api : PriceApi, AnswersCalls ⟨hostname, .price api, limit?⟩ pricePath api.fetch) ∧
    ∀ api : WalletApi, AnswersCalls ⟨hostname, .wallet api, limit?⟩ balancePath api.fetch := by
  have resolve : Route.find? .account resolvePath = some .resolve := by decide +kernel
  have price : Route.find? .price pricePath = some .price := by decide +kernel
  have balance : Route.find? .wallet balancePath = some .balance := by decide +kernel
  refine ⟨fun api => ?_, fun api => ?_, fun api => ?_⟩
  · exact answersCalls_of_route resolve rfl fun _ => rfl
  · exact answersCalls_of_route price rfl fun _ => rfl
  · exact answersCalls_of_route balance rfl fun _ => rfl

/-- The body of a call that names a token. -/
def tokenBody : String := "\x7b\"token\": \"t\"\x7d"

/-- A call to the account service with some body, by a caller who presents a token. -/
def presentedRequest (body : String) : Request where
  method := "POST"
  target := "/v1/account/resolve?x"
  headers := Http.jsonHeaders ++ .ofList [("authorization", .ofString "2bd806c9")]
  body := .ofString body

theorem body_counts_before_the_token :
    let alice : Envelope UserInfo := .fromHost ⟨"Alice", .premium⟩ "account-0"
    let n : Node := Wiring.node { account? := some (.ok alice) } .account "host-0"
    let narrow : Node := { n with bodyLimit? := some 13 }
    (n.handle (presentedRequest "\x7b") {}).1.status = 400 ∧
    World.Untouched {} (n.handle (presentedRequest "\x7b") {}).2 ∧
    n.handle (presentedRequest tokenBody) {} = (Http.respond (.ok alice) "host-0",
      { resolveCalls := [⟨"t", Metadata.ofList [("authorization", "2bd806c9")]⟩] }) ∧
    (narrow.handle (presentedRequest tokenBody) {}).1.status = 400 := by
  intro alice n narrow
  have answers (limit : Nat) := (bodies_are_read_first "host-0" (some limit)).1
    (Wiring.account { account? := some (.ok alice) })
  have path : (Http.Target.ofString "/v1/account/resolve?x").path = resolvePath := by
    decide +kernel
  have posted : ∀ body, PostedTo resolvePath (presentedRequest body) := fun _ => ⟨rfl, path⟩
  have broken : ∀ a : ResolveRequest, ¬ n.Gets (presentedRequest "\x7b") a := by
    rintro a ⟨-, -, read⟩
    have unread : (Wire.decodeFirst (α := ResolveRequest) (.ofString "\x7b")).isOk = false := by
      decide +kernel
    rw [presentedRequest] at read
    rw [read] at unread
    cases unread
  have tooLong : ∀ a : ResolveRequest, ¬ narrow.Gets (presentedRequest tokenBody) a := by
    rintro a ⟨-, fits, -⟩
    exact absurd (fits 13 rfl) (by decide +kernel)
  have whole : n.Gets (presentedRequest tokenBody) (ResolveRequest.mk "t") := by
    refine ⟨by decide +kernel, ?_, by decide +kernel⟩
    rintro _ ⟨⟩
    decide +kernel
  have metadata : Http.metadataOf (presentedRequest "").headers =
      Metadata.ofList [("authorization", "2bd806c9")] := by decide +kernel
  obtain ⟨-, status, -, untouched⟩ := (answers defaultBodyLimit).refused _ {} (posted "\x7b") broken
  obtain ⟨-, refused, -⟩ := (answers 13).refused _ {} (posted tokenBody) tooLong
  have made := (answers defaultBodyLimit).made _ {} _ (posted tokenBody) whole
  refine ⟨status, untouched, made.trans ?_, refused⟩
  rw [← metadata]
  rfl

end Node

end WalletWatch
