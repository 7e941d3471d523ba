set_option autoImplicit false

/-!
# The price wave

The coin price of a moment is a sine wave over time, rounded to a whole number: it swings by a
thousand around ten thousand and takes a little over a second for a full turn.
-/

namespace WalletWatch.Wave

def least : Int64 := 9000

def greatest : Int64 := 11000

/-- The price at a moment, given in milliseconds since the start of 1970. Half a unit rounds away
from zero. -/
def priceAt (milliseconds : Int64) : Int64 :=
  (1000.0 * Float.sin (milliseconds.toFloat / 173.0) + 10000.0).round.toInt64

def inRange (price : Int64) : Bool := least ≤ price && price ≤ greatest

end WalletWatch.Wave
