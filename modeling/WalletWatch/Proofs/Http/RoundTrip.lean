import WalletWatch.Http.Answer
import WalletWatch.Proofs.Http.Headers
import WalletWatch.Proofs.Message.RoundTrip
import WalletWatch.Proofs.Text.Utf8

set_option autoImplicit false

/-!
# Answers read back

What a service makes of a call is what a client reads in the answer: the payload with its metadata,
or the failure. The body may travel as bytes. Where a refusal has no body that tells, its status
still tells the code.
-/

namespace WalletWatch

namespace Http

theorem isSuccess_statusOf (c : Code) : isSuccess (statusOf c) = false := by
  cases c <;> rfl

theorem failureOf_failureBody (status : Nat) (f : Failure) :
    failureOf status (Text.ofString (Wire.encode (FailureBody.ofFailure f))) = f := by
  simp only [failureOf, Wire.decode_encode, FailureBody.toFailure_ofFailure]

theorem get?_jsonHeaders_of_knownKeys : ∀ key ∈ knownKeys, Headers.get? jsonHeaders key = none := by
  decide +kernel

theorem readResponse_payload {α : Type} [Wire α] [LawfulWire α] (url : String) (headers : Headers)
    (a : α) :
    readResponse url ⟨200, headers, Text.ofString (Wire.encode a)⟩ =
      .ok ⟨a, metadataOf headers⟩ := by
  have success : isSuccess 200 = true := rfl
  simp only [readResponse, success, if_true, Wire.decode_encode]

theorem readResponse_failure {α : Type} [Wire α] (url : String) (headers : Headers) (f : Failure) :
    readResponse (α := α) url
      ⟨statusOf f.code, headers, Text.ofString (Wire.encode (FailureBody.ofFailure f))⟩ =
        .error f := by
  simp only [readResponse, isSuccess_statusOf, failureOf_failureBody]
  rfl

theorem body_respond_ok {α : Type} [Wire α] (e : Envelope α) (hostname : String) :
    (respond (.ok e) hostname).body = Text.ofString (Wire.encode e.payload) := rfl

theorem body_respond_error {α : Type} [Wire α] (f : Failure) (hostname : String) :
    (respond (α := α) (.error f) hostname).body =
      Text.ofString (Wire.encode (FailureBody.ofFailure f)) := by
  rw [respond, failureResponse]

theorem decode_failureResponse (f : Failure) (hostname : String) :
    Wire.decode (failureResponse f hostname).body = .ok (FailureBody.ofFailure f) := by
  rw [failureResponse, Wire.decode_encode]

theorem code_failureOf {body : Text} (silent : (Wire.decode (α := FailureBody) body).isOk = false)
    (c : Code) : (failureOf (statusOf c) body).code = c := by
  cases decoded : Wire.decode (α := FailureBody) body with
  | ok b =>
    rw [decoded] at silent
    cases silent
  | error e =>
    simp only [failureOf, decoded]
    exact codeOf_statusOf c

end Http

/-- A client reads in the bytes of an answer what the service made of the call, and whether the
status reports success tells which of the two it is. A refusal with any other body still tells the
code of its failure. -/
theorem answers_read_back (t : WireType) (result : Item (Envelope t.Carrier))
    (url hostname : String) (travels : ∀ e, result = .ok e → e.metadata.Travels) :
    Http.isSuccess (Http.respond result hostname).status = result.isOk ∧
    Http.readResponse url
      { Http.respond result hostname with
        body := (Http.respond result hostname).body.delivered } = result ∧
    ∀ (f : Failure) (bytes : List UInt8),
      (Wire.decode (α := FailureBody) (Text.ofBytes bytes)).isOk = false →
      (Http.failureOf (Http.statusOf f.code) (Text.ofBytes bytes)).code = f.code := by
  refine ⟨?_, ?_, fun f bytes silent => Http.code_failureOf silent f.code⟩
  · cases result with
    | ok e => rfl
    | error f => exact Http.isSuccess_statusOf f.code
  · cases result with
    | ok e =>
      have read := Http.metadataOf_writeMetadata (travels e rfl) Http.get?_jsonHeaders_of_knownKeys
      have whole := Http.readResponse_payload url
        (Http.writeMetadata Http.jsonHeaders e.metadata) e.payload
      rw [read] at whole
      rw [Http.body_respond_ok, Text.delivered_ofString]
      exact whole
    | error f =>
      rw [Http.body_respond_error, Text.delivered_ofString]
      exact Http.readResponse_failure url _ f

/-- A row per address, from an instance that names itself and passes a hint on. -/
def routedBalance : Envelope Balance where
  payload := ⟨-7, [⟨"a\n\"b", 5⟩]⟩
  metadata := (Metadata.ofHost "wallet\t1").insert Metadata.routeKey " r "

theorem travels_routedBalance : routedBalance.metadata.Travels := by
  have all : routedBalance.metadata.entries.all (fun e => Http.knownKeys.contains e.1 &&
      e.2.toList.all fun c => Http.isReadable (.char c)) = true := by
    decide +kernel
  intro e he
  have both := List.all_eq_true.mp all e he
  rw [Bool.and_eq_true] at both
  exact ⟨List.contains_iff_mem.mp both.1, List.all_eq_true.mp both.2⟩

theorem routed_balance_reads_back :
    (∀ e, (.ok routedBalance : Item (Envelope Balance)) = .ok e → e.metadata.Travels) ∧
    Http.readResponse "u" { Http.respond (.ok routedBalance) "wallet-0" with
      body := (Http.respond (.ok routedBalance) "wallet-0").body.delivered } = .ok routedBalance ∧
    (Http.failureOf 403 (Text.ofBytes [60, 104, 255])).code = .permissionDenied := by
  have travels : ∀ e, (.ok routedBalance : Item (Envelope Balance)) = .ok e →
      e.metadata.Travels := by
    rintro e ⟨⟩
    exact travels_routedBalance
  obtain ⟨-, read, code⟩ := answers_read_back .balance (.ok routedBalance) "u" "wallet-0" travels
  exact ⟨travels, read, code ⟨.permissionDenied, "closed"⟩ [60, 104, 255] (by decide)⟩

end WalletWatch
