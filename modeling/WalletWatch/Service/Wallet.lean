import WalletWatch.Service.Price

set_option autoImplicit false

/-!
# The wallet service

Gives the balance of a caller at the current price, or a balance for each price of a stream. Prices
are asked for in the name of the caller, at the tier it asked for.
-/

namespace WalletWatch

structure BalanceSource where
  user : String
  perAddress : Bool
  aggregator : Aggregator
  prices : PriceSource
  home : Role

namespace BalanceSource

def update (s : BalanceSource) (price : Int64) : Item Balance :=
  s.aggregator.balance s.user price s.perAddress

/-- What it makes of some prices: one item for each, up to the first failure of either kind. -/
def updates (s : BalanceSource) : List (Item Int64) → List (Item Balance)
  | [] => []
  | .error f :: _ => [.error f]
  | .ok p :: rest =>
    match s.update p with
    | .ok b => .ok b :: s.updates rest
    | .error f => [.error f]

def items (s : BalanceSource) : List (Item Balance) := s.updates s.prices.items

end BalanceSource

structure WalletApi where
  fetch : Envelope BalanceRequest → Call (Envelope Balance)
  watch : Envelope BalanceRequest → Call (Envelope BalanceSource)

structure WalletService where
  validator : Validator
  prices : PriceApi
  aggregator : Aggregator
  hostname : String

namespace WalletService

def home (s : WalletService) : Role := s.validator.home

def fetch (s : WalletService) (request : Envelope BalanceRequest) : Call (Envelope Balance) := do
  let access ← s.validator.validate request.metadata
  let quote ← (s.prices.fetch ⟨{}, access.forward⟩).within "could not fetch price"
  Call.say (.serverHost "price" quote.hostname?)
  Call.say ⟨.debug, "price", [("price", toString quote.payload.price)]⟩
  let balance ← Call.ofItem
    (s.aggregator.balance access.name quote.payload.price request.payload.perAddress)
  return .fromHost balance s.hostname

def watch (s : WalletService) (request : Envelope BalanceRequest) :
    Call (Envelope BalanceSource) := do
  let access ← s.validator.validate request.metadata
  let opened ← (s.prices.watch ⟨{}, access.forward⟩).within "could not open price stream"
  Call.say (.serverHost "price" opened.hostname?)
  Call.count s.home (·.opened "wallet")
  Call.say ⟨.info, "balance stream opened",
    [("user", access.name), ("include", Validator.yesNo request.payload.perAddress)]⟩
  return .fromHost ⟨access.name, request.payload.perAddress, s.aggregator, opened.payload, s.home⟩
    s.hostname

def api (s : WalletService) : WalletApi := ⟨s.fetch, s.watch⟩

end WalletService

end WalletWatch
