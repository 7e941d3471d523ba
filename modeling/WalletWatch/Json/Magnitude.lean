import WalletWatch.Json.Token

set_option autoImplicit false

/-!
# The magnitude of a number

Whether a number literal is within the range of a double. A literal is worth a significand of at
most 64 bits times a power of ten. Both are rounded to 53 bits, and it is their product that has to
stay in range, so a literal close to the greatest double may be taken for one beyond it.
-/

namespace WalletWatch.Json

/-- A number rounded to the nearest one that 53 bits and a power of two can hold; of two equally
near ones the even one. -/
def nearest53 (n : Nat) : Nat :=
  let unit := Nat.pow 2 (n.log2 - 52)
  let rest := 2 * (n % unit)
  let up := unit < rest || (rest = unit && n / unit % 2 = 1)
  (n / unit + if up then 1 else 0) * unit

def tooLarge : Nat := Nat.pow 2 1024 - Nat.pow 2 970

/-- The leading digits of a number, as many as fit into 64 bits, and how many digits follow. -/
def leading (n : Nat) : Nat × Nat :=
  if n < 18446744073709551616 then (n, 0)
  else
    let (s, dropped) := leading (n / 10)
    (s, dropped + 1)
termination_by n
decreasing_by omega

namespace Number

/-- The significand of a literal and its power of ten. Of the whole part and of the digits behind
the point those count that fit; once one behind the point does not, none behind it does. -/
def significand (n : Number) : Nat × Int :=
  let (s, above) := leading n.whole
  let (s, below) := match n.fraction with
    | some (v, k) =>
      let (s, dropped) := leading (s * Nat.pow 10 k + v)
      (s, (dropped : Int) - k)
    | none => (s, 0)
  let exponent := match n.exponent with
    | some (true, e) => -(e : Int)
    | some (false, e) => (e : Int)
    | none => 0
  (s, above + below + exponent)

def overflows (n : Number) : Bool :=
  let (s, e) := n.significand
  s ≠ 0 && 0 ≤ e && (308 < e || tooLarge ≤ nearest53 s * nearest53 (Nat.pow 10 e.toNat))

end Number

end WalletWatch.Json
