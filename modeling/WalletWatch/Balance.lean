import WalletWatch.Failure
import WalletWatch.Store.Ledger

set_option autoImplicit false

/-!
# Balances

The worth of a user's holdings at a price. Every product and every partial sum is held within the
range of a 64-bit integer: what would fall outside becomes the nearest end of the range.
-/

namespace WalletWatch

def clamp (z : Int) : Int64 :=
  if z < Int64.minValue.toInt then Int64.minValue
  else if Int64.maxValue.toInt < z then Int64.maxValue
  else Int64.ofInt z

structure AddressBalance where
  address : String
  balance : Int64
  deriving DecidableEq

structure Balance where
  total : Int64
  addresses : List AddressBalance := []
  deriving DecidableEq

namespace Holding

def worth (h : Holding) (price : Int64) : Int64 := clamp (h.units.toInt * price.toInt)

end Holding

namespace Balance

def addHolding (price : Int64) (breakdown : Bool) (b : Balance) (h : Holding) : Balance where
  total := clamp (b.total.toInt + (h.worth price).toInt)
  addresses := if breakdown then b.addresses ++ [⟨h.address, h.worth price⟩] else b.addresses

def ofHoldings (holdings : List Holding) (price : Int64) (breakdown : Bool) : Balance :=
  holdings.foldl (addHolding price breakdown) ⟨0, []⟩

end Balance

structure Aggregator where
  ledger : Ledger
  /-- Restricted mode: no rows per address, whatever the caller asks for. -/
  totalsOnly : Bool := false

/-- The balance of a user at a price. The only failure is a user without holdings. -/
def Aggregator.balance (a : Aggregator) (user : String) (price : Int64) (breakdown : Bool) :
    Item Balance :=
  match a.ledger.lookup? user with
  | none => .error ⟨.notFound, "could not identify user: " ++ user⟩
  | some holdings => .ok (Balance.ofHoldings holdings price (breakdown && !a.totalsOnly))

end WalletWatch
