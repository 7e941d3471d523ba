import WalletWatch.Failure
import WalletWatch.Log
import WalletWatch.Metadata
import WalletWatch.Metrics
import WalletWatch.Role

set_option autoImplicit false

/-!
# What calls leave behind

A call gives a result or a failure, and either way leaves traces: counts in the metrics of the
process it ran in, log events, samples taken from the price feed, and requests to other services.
-/

namespace WalletWatch

structure ResolveCall where
  token : String
  metadata : Metadata
  deriving DecidableEq

structure PriceCall where
  streamed : Bool
  metadata : Metadata
  deriving DecidableEq

structure World where
  metrics : Role → Metrics := fun _ => {}
  log : List LogEvent := []
  samples : Nat := 0
  resolveCalls : List ResolveCall := []
  priceCalls : List PriceCall := []

namespace World

def count (w : World) (home : Role) (change : Metrics → Metrics) : World :=
  { w with metrics := fun r => if r = home then change (w.metrics r) else w.metrics r }

def say (w : World) (e : LogEvent) : World := { w with log := w.log ++ [e] }

end World

abbrev Call (α : Type) := ExceptT Failure (StateM World) α

namespace Call

variable {α : Type}

def count (home : Role) (change : Metrics → Metrics) : Call Unit :=
  modify fun w => w.count home change

def say (e : LogEvent) : Call Unit := modify fun w => w.say e

/-- Take a sample; the result is its number. -/
def sample : Call Nat := modifyGet fun w => (w.samples, { w with samples := w.samples + 1 })

def ofItem (i : Item α) : Call α := ExceptT.mk (pure i)

/-- Make a call and go on with whatever came of it. -/
def result (c : Call α) : Call (Item α) := ExceptT.mk (Except.ok <$> c.run)

def within (context : String) (c : Call α) : Call α := do
  match ← c.result with
  | .ok a => return a
  | .error f => throw (f.wrap context)

def perform (c : Call α) (w : World) : Item α × World := c.run.run w

end Call

end WalletWatch
