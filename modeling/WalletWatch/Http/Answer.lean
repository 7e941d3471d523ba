import WalletWatch.Http.Header
import WalletWatch.Http.Status
import WalletWatch.Message.Frame

set_option autoImplicit false

/-!
# Requests and answers

A result becomes an answer: a payload with its metadata as headers, or the body of a failure stamped
with the instance that answers. Reading an answer gives the result back.
-/

namespace WalletWatch.Http

structure Request where
  method : String
  target : String
  headers : Headers
  body : Text

structure Response where
  status : Nat
  headers : Headers := []
  body : Text := []
  deriving DecidableEq

def Request.delivered (r : Request) : Request :=
  { r with headers := r.headers.delivered, body := r.body.delivered }

def Response.delivered (r : Response) : Response :=
  { r with headers := r.headers.delivered, body := r.body.delivered }

def jsonHeaders : Headers := [⟨"content-type", Text.ofString "application/json"⟩]

def plainHeaders : Headers := [⟨"content-type", Text.ofString "text/plain; charset=utf-8"⟩]

def failureResponse (f : Failure) (hostname : String) : Response where
  status := statusOf f.code
  headers := writeMetadata jsonHeaders (Metadata.ofHost hostname)
  body := Text.ofString (Wire.encode (FailureBody.ofFailure f))

def respond {α : Type} [Wire α] (result : Item (Envelope α)) (hostname : String) : Response :=
  match result with
  | .ok e =>
    { status := 200
      headers := writeMetadata jsonHeaders e.metadata
      body := Text.ofString (Wire.encode e.payload) }
  | .error f => failureResponse f hostname

/-- The failure that a refusal tells of: the one in its body, or the one its status stands for. -/
def failureOf (status : Nat) (body : Text) : Failure :=
  match Wire.decode (α := FailureBody) body with
  | .ok b => b.toFailure
  | .error _ => ⟨codeOf status, "upstream returned " ++ statusLine status⟩

def readResponse {α : Type} [Wire α] (url : String) (r : Response) : Item (Envelope α) :=
  if isSuccess r.status then
    match Wire.decode r.body with
    | .ok a => .ok ⟨a, metadataOf r.headers⟩
    | .error e => .error ⟨.internal, url ++ ": malformed response: " ++ e.reason⟩
  else .error (failureOf r.status r.body)

end WalletWatch.Http
