import WalletWatch.Service.Wallet

set_option autoImplicit false

/-!
# Wiring

The three services put together in one process: the wallet service asks the price service, and both
ask the account service. The account service and the price service can be replaced by ones that know
their answers.
-/

namespace WalletWatch

structure Wiring where
  directory : Directory := .seeded
  ledger : Ledger := .seeded
  /-- The samples of the price, which start over after the last. -/
  samples : List Int64 := [10000]
  premiumOnly : Bool := false
  totalsOnly : Bool := false
  hostname : Role → String := fun r => r.name ++ "-0"
  account? : Option (Item (Envelope UserInfo)) := none
  prices? : Option ScriptedPrices := none

namespace Wiring

def feed (w : Wiring) (n : Nat) : Int64 := w.samples.getD (n % w.samples.length) 0

def accountService (w : Wiring) : AccountService := ⟨w.directory, w.hostname .account⟩

def account (w : Wiring) : AccountApi :=
  .recorded <| match w.account? with
    | some answer => .constant answer
    | none => w.accountService.api

def validator (w : Wiring) (home : Role) : Validator := ⟨w.account, home⟩

def priceService (w : Wiring) (home : Role) : PriceService :=
  ⟨w.validator home, w.feed, w.premiumOnly, w.hostname .price⟩

def price (w : Wiring) (home : Role) : PriceApi :=
  .recorded <| match w.prices? with
    | some s => .scripted s
    | none => (w.priceService home).api

def aggregator (w : Wiring) : Aggregator := ⟨w.ledger, w.totalsOnly⟩

def walletService (w : Wiring) (home : Role) : WalletService :=
  ⟨w.validator home, w.price home, w.aggregator, w.hostname .wallet⟩

def wallet (w : Wiring) (home : Role) : WalletApi := (w.walletService home).api

end Wiring

end WalletWatch
