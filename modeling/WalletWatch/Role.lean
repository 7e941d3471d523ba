set_option autoImplicit false

/-!
# Roles

A process runs one of the three services. The price service asks the account service, and the wallet
service asks both of the others.
-/

namespace WalletWatch

inductive Role where
  | account
  | price
  | wallet
  deriving DecidableEq, Repr, Inhabited

namespace Role

def name : Role → String
  | account => "account"
  | price => "price"
  | wallet => "wallet"

def ofName? : String → Option Role
  | "account" => some account
  | "price" => some price
  | "wallet" => some wallet
  | _ => none

def asksAccount : Role → Bool
  | account => false
  | price | wallet => true

def asksPrice : Role → Bool
  | account | price => false
  | wallet => true

end Role

end WalletWatch
