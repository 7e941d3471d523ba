import WalletWatch.Balance
import WalletWatch.Message.Wire
import WalletWatch.Tier

set_option autoImplicit false

/-!
# Requests and responses

The payloads of the three services. Who asks travels in the metadata, so a price request is empty.
-/

namespace WalletWatch

open Json (Value Reader)

structure ResolveRequest where
  token : String
  deriving DecidableEq

structure UserInfo where
  name : String
  membership : Membership := .unknown
  deriving DecidableEq

structure PriceRequest where
  deriving DecidableEq

structure PriceQuote where
  price : Int64
  deriving DecidableEq

structure BalanceRequest where
  perAddress : Bool := false
  deriving DecidableEq

instance : Wire Membership where
  toValue m := .string m.name
  read := Json.readName fun s => some (Membership.ofName s)

instance : Wire Tier where
  toValue t := .string t.literal
  read := Json.readName Tier.ofLiteral?

instance : Wire ResolveRequest where
  toValue r := .object [("token", .string r.token)]
  read := (Json.record1 "token" Json.readString none true ResolveRequest.mk).read

instance : Wire UserInfo where
  toValue u := .object [("name", .string u.name), ("membership", Wire.toValue u.membership)]
  read := (Json.record2 "name" Json.readString none "membership" Wire.read (some .unknown)
    UserInfo.mk).read

instance : Wire PriceRequest where
  toValue _ := .object []
  read := ({ start := (), fields := [], done := fun _ => some {} } :
    Json.Record Unit PriceRequest).read

instance : Wire PriceQuote where
  toValue q := .object [("price", Wire.toValue q.price)]
  read := (Json.record1 "price" Json.readInt64 none false PriceQuote.mk).read

def BalanceRequest.field : String := "include_balance_per_address"

instance : Wire BalanceRequest where
  toValue r := .object [(BalanceRequest.field, .bool r.perAddress)]
  read := (Json.record1 BalanceRequest.field Json.readBool (some false) false
    BalanceRequest.mk).read

instance : Wire AddressBalance where
  toValue a := .object [("address", .string a.address), ("balance", Wire.toValue a.balance)]
  read := (Json.record2 "address" Json.readString none "balance" Json.readInt64 none
    AddressBalance.mk).read

/-- An empty list of rows is left out. -/
instance : Wire Balance where
  toValue b := .object (("balance", Wire.toValue b.total) ::
    if b.addresses.isEmpty then [] else [("addresses", .array (b.addresses.map Wire.toValue))])
  read := (Json.record2 "balance" Json.readInt64 none
    "addresses" (Json.readList Wire.read) (some []) Balance.mk).read

end WalletWatch
