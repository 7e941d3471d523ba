import WalletWatch.Context.Basic
import WalletWatch.Tier

set_option autoImplicit false

/-!
# The cadence of samples

Samples are taken at ticks, one period apart; the first tick is due one period after the start. A
tick that is taken late moves the ticks behind it, so that no burst makes up for lost time. A delay
of a few milliseconds does not count as late.
-/

namespace WalletWatch

def Tier.cadence : Tier → Millis
  | normal => 1000
  | premium => 100

structure Ticker where
  due : Millis
  period : Millis
  deriving DecidableEq, Repr

namespace Ticker

/-- How late a tick may be taken without a change to the ticks behind it. -/
def tolerance : Millis := 5

def start (now period : Millis) : Ticker := ⟨now + period, period⟩

def take? (t : Ticker) (now : Millis) : Option Ticker :=
  if now < t.due then none
  else if now ≤ t.due + tolerance then some { t with due := t.due + t.period }
  else some { t with due := now + t.period }

end Ticker

end WalletWatch
