import WalletWatch.Context.Basic

set_option autoImplicit false

/-!
# Lengths of time as text

A length of time is shown in milliseconds below one second, and else in seconds with as many digits
behind the point as it takes. No time at all is shown in the smallest unit.
-/

namespace WalletWatch

def threeDigits (n : Nat) : List Char := (toString (1000 + n % 1000)).toList.drop 1

def showDuration (t : Millis) : String :=
  if t = 0 then "0ns"
  else if t % 1000 = 0 then toString (t / 1000) ++ "s"
  else if t < 1000 then toString t ++ "ms"
  else
    toString (t / 1000) ++ "." ++
      String.ofList ((threeDigits t).reverse.dropWhile (· = '0')).reverse ++ "s"

end WalletWatch
