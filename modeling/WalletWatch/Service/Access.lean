import WalletWatch.Failure
import WalletWatch.Metadata

set_option autoImplicit false

/-!
# Access

What a validated caller may do. A caller is served at the tier it asked for, which is never above
the tier it is entitled to.
-/

namespace WalletWatch

structure Access where
  token : String
  name : String
  actual : Tier
  requested : Tier
  authorized : Bool := true
  deriving DecidableEq

namespace Access

def serviceTier (a : Access) : Tier := a.requested

def isPremium (a : Access) : Bool := a.serviceTier = .premium

def forward (a : Access) : Metadata := Metadata.credentials a.token a.requested

/-- A service may be open to premium requests only. -/
def gate (premiumOnly : Bool) (a : Access) : Item Unit :=
  if premiumOnly && !a.isPremium then
    .error ⟨.permissionDenied, "non-premium request while premium-only"⟩
  else .ok ()

end Access

end WalletWatch
