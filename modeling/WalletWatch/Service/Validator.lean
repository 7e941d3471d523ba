import WalletWatch.Service.Access
import WalletWatch.Service.Account

set_option autoImplicit false

/-!
# Validation of callers

Every service validates its caller before it does anything else, and asks the account service anew
each time. A caller is let through if it has a token, asks for a known tier, and is entitled to that
tier. Each validation is counted once.
-/

namespace WalletWatch

structure Validator where
  resolver : AccountApi
  home : Role

namespace Validator

/-- The token a caller presents; an empty one counts as none. -/
def token? (inbound : Metadata) : Option String :=
  (inbound.get? Metadata.authorizationKey).filter (!·.isEmpty)

def requested? (inbound : Metadata) : Option Tier :=
  (inbound.get? Metadata.membershipKey).bind Tier.ofLiteral?

/-- What the account service is told: the routing hint and nothing else. -/
def outbound (inbound : Metadata) : Metadata :=
  match inbound.get? Metadata.routeKey with
  | some route => Metadata.empty.insert Metadata.routeKey route
  | none => ∅

/-- The line that an audit of validations looks for. -/
def audit (fields : List (String × String)) : LogEvent := ⟨.info, "validate membership", fields⟩

def yesNo (b : Bool) : String := if b then "true" else "false"

def judge (token : String) (requested : Tier) (user : UserInfo) : Call Access :=
  match user.membership.tier? with
  | none => do
    Call.say (audit [("token", token), ("name", user.name), ("requested", requested.literal),
      ("success", yesNo false)])
    throw ⟨.unauthenticated, "unrecognized user membership type"⟩
  | some actual => do
    Call.say (audit [("token", token), ("name", user.name), ("membership", actual.literal),
      ("requested", requested.literal), ("success", yesNo (requested ≤ actual))])
    if requested ≤ actual then return ⟨token, user.name, actual, requested, true⟩
    else throw ⟨.unauthenticated, "requested membership higher than actual membership"⟩

def ask (resolver : AccountApi) (token : String) (requested : Tier) (metadata : Metadata) :
    Call Access := do
  match ← (resolver.resolve ⟨⟨token⟩, metadata⟩).result with
  | .error f =>
    Call.say (audit [("token", token), ("requested", requested.literal),
      ("success", yesNo false), ("error", f.display)])
    throw (f.wrap "could not get user info")
  | .ok answer =>
    Call.say (.serverHost "account" answer.hostname?)
    judge token requested answer.payload

def check (resolver : AccountApi) (inbound : Metadata) : Call Access :=
  match token? inbound with
  | none => throw ⟨.unauthenticated, "missing user authentication"⟩
  | some token => match requested? inbound with
    | none => throw ⟨.unauthenticated, "unknown user membership"⟩
    | some requested => ask resolver token requested (outbound inbound)

def validate (v : Validator) (inbound : Metadata) : Call Access := do
  let result ← (check v.resolver inbound).result
  Call.count v.home (·.validated result.isOk)
  Call.ofItem result

end Validator

end WalletWatch
