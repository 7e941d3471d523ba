import WalletWatch.Context.Basic

set_option autoImplicit false

/-!
# Virtual time

Time stands still while anything can run, and then moves to the next instant at which something can.
What runs is left open: a simulation says what its parts do at one instant and when they wake up.
-/

namespace WalletWatch

class Simulation (σ : Type) where
  now : σ → Millis
  setClock : Millis → σ → σ
  /-- Let one part that can run do so; none if all parts wait. -/
  turn : σ → Option σ
  /-- A bound on the turns that are possible before all parts wait. -/
  patience : σ → Nat
  alarms : σ → List Millis

namespace Simulation

variable {σ β : Type} [Simulation σ]

def settleWithin : Nat → σ → σ
  | 0, s => s
  | turns + 1, s =>
    match turn s with
    | some s' => settleWithin turns s'
    | none => s

def settle (s : σ) : σ := settleWithin (patience s) s

def nextAlarm? (s : σ) (limit : Millis) : Option Millis :=
  ((alarms s).filter fun a => now s < a && a ≤ limit).min?

def moveTo (instant : Millis) (s : σ) : σ := settle (setClock instant s)

/-- Look for something until it is there or the clock stands at `limit`. Each round moves the clock,
so that `limit - now` rounds are enough. -/
def awaitWithin (look : σ → Option (β × σ)) (limit : Millis) : Nat → σ → Option β × σ
  | 0, s => (none, s)
  | rounds + 1, s =>
    match look s with
    | some (b, s') => (some b, settle s')
    | none =>
      if limit ≤ now s then (none, s)
      else awaitWithin look limit rounds (moveTo ((nextAlarm? s limit).getD limit) s)

def await (look : σ → Option (β × σ)) (length : Millis) (s : σ) : Option β × σ :=
  awaitWithin look (now s + length) (length + 1) s

def sleep (length : Millis) (s : σ) : σ :=
  (await (fun _ => (none : Option (Unit × σ))) length s).2

end Simulation

end WalletWatch
