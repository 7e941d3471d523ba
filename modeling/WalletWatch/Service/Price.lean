import WalletWatch.Price.Script
import WalletWatch.Service.Validator
import WalletWatch.Stream.Ticker
import WalletWatch.Text.Duration

set_option autoImplicit false

/-!
# The price service

Gives a sample of the price, or a stream of samples at the cadence of the tier that the caller asked
for. It may be open to premium requests only.
-/

namespace WalletWatch

inductive PriceSource where
  /-- From the feed, one sample a period; the stream counts in the metrics of a process. -/
  | feed (home : Role) (period : Millis)
  | script (s : Script)
  deriving DecidableEq

namespace PriceSource

/-- The items that are known beforehand; samples of a feed are not. -/
def items : PriceSource → List (Item Int64)
  | feed .. => []
  | script s => s.items

def ends : PriceSource → Bool
  | feed .. => false
  | script s => s.ending ≠ .silence

end PriceSource

structure PriceApi where
  fetch : Envelope PriceRequest → Call (Envelope PriceQuote)
  watch : Envelope PriceRequest → Call (Envelope PriceSource)

structure PriceService where
  validator : Validator
  feed : Nat → Int64
  premiumOnly : Bool := false
  hostname : String

namespace PriceService

def home (s : PriceService) : Role := s.validator.home

def accept (s : PriceService) (request : Envelope PriceRequest) : Call Access := do
  let access ← s.validator.validate request.metadata
  Call.ofItem (access.gate s.premiumOnly)
  return access

def fetch (s : PriceService) (request : Envelope PriceRequest) : Call (Envelope PriceQuote) := do
  let _ ← s.accept request
  return .fromHost ⟨s.feed (← Call.sample)⟩ s.hostname

def watch (s : PriceService) (request : Envelope PriceRequest) : Call (Envelope PriceSource) := do
  let access ← s.accept request
  let period := access.serviceTier.cadence
  Call.count s.home (·.opened "price")
  Call.say ⟨.info, "price stream opened",
    [("user", access.name), ("tier", access.serviceTier.literal), ("period", showDuration period)]⟩
  return .fromHost (.feed s.home period) s.hostname

def api (s : PriceService) : PriceApi := ⟨s.fetch, s.watch⟩

end PriceService

/-- The answers of a price service that does not look at its feed. -/
structure ScriptedPrices where
  metadata : Metadata := ∅
  price : Item Int64
  stream : Item Script

namespace PriceApi

def scripted (s : ScriptedPrices) : PriceApi where
  fetch _ := Call.ofItem (s.price.map fun p => ⟨⟨p⟩, s.metadata⟩)
  watch _ := Call.ofItem (s.stream.map fun x => ⟨.script x, s.metadata⟩)

def recorded (a : PriceApi) : PriceApi where
  fetch request := do
    modify fun w => { w with priceCalls := w.priceCalls ++ [⟨false, request.metadata⟩] }
    a.fetch request
  watch request := do
    modify fun w => { w with priceCalls := w.priceCalls ++ [⟨true, request.metadata⟩] }
    a.watch request

end PriceApi

end WalletWatch
