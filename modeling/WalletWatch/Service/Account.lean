import WalletWatch.Message.Payload
import WalletWatch.Service.World
import WalletWatch.Store.Identity

set_option autoImplicit false

/-!
# The account service

Tells whom a token stands for. It takes no notice of who asks.
-/

namespace WalletWatch

structure AccountApi where
  resolve : Envelope ResolveRequest → Call (Envelope UserInfo)

structure AccountService where
  directory : Directory
  hostname : String

namespace AccountService

def resolve (s : AccountService) (request : Envelope ResolveRequest) :
    Call (Envelope UserInfo) := do
  if let some route := request.metadata.get? Metadata.routeKey then
    Call.say ⟨.debug, "resolve user", [("route", route)]⟩
  match s.directory.lookup? request.payload.token with
  | none => throw ⟨.notFound, "unrecognized user token"⟩
  | some r => return .fromHost ⟨r.name, r.tier.membership⟩ s.hostname

def api (s : AccountService) : AccountApi := ⟨s.resolve⟩

end AccountService

namespace AccountApi

def constant (answer : Item (Envelope UserInfo)) : AccountApi := ⟨fun _ => Call.ofItem answer⟩

/-- The same service, with a record of the requests that reach it. -/
def recorded (a : AccountApi) : AccountApi where
  resolve request := do
    modify fun w =>
      { w with resolveCalls := w.resolveCalls ++ [⟨request.payload.token, request.metadata⟩] }
    a.resolve request

end AccountApi

end WalletWatch
