import WalletWatch.Chain.Wiring
import WalletWatch.Node.Basic

set_option autoImplicit false

/-!
# Nodes of wired services

A node that answers for one of the services of one process, where all three share the metrics.
-/

namespace WalletWatch

def Wiring.node (w : Wiring) (role : Role) (hostname : String) : Node where
  hostname := hostname
  served := match role with
    | .account => .account w.account
    | .price => .price (w.price role)
    | .wallet => .wallet (w.wallet role)

end WalletWatch
