import WalletWatch.Config.Settings
import WalletWatch.Host
import WalletWatch.Remote.Client

set_option autoImplicit false

/-!
# Nodes

A node is a process that answers for one of the three services under its host name. It is built from
settings, which say where the services are that it asks.
-/

namespace WalletWatch

inductive Served where
  | account (a : AccountApi)
  | price (p : PriceApi)
  | wallet (w : WalletApi)

def Served.role : Served → Role
  | account _ => .account
  | price _ => .price
  | wallet _ => .wallet

/-- How many bytes the body of a request may have, unless a node is built to take more. -/
def defaultBodyLimit : Nat := 2097152

structure Node where
  hostname : String
  served : Served
  bodyLimit? : Option Nat := some defaultBodyLimit

namespace Node

def role (n : Node) : Role := n.served.role

def notServed (wanted role : Role) : Failure :=
  ⟨.unavailable, wanted.name ++ " service is not served here (role " ++ role.name ++ ")"⟩

def account (n : Node) : Item AccountApi :=
  match n.served with
  | .account a => .ok a
  | s => .error (notServed .account s.role)

def price (n : Node) : Item PriceApi :=
  match n.served with
  | .price p => .ok p
  | s => .error (notServed .price s.role)

def wallet (n : Node) : Item WalletApi :=
  match n.served with
  | .wallet w => .ok w
  | s => .error (notServed .wallet s.role)

def metrics (n : Node) (w : World) : Metrics := w.metrics n.role

def clientOf (network : Network) (s : Settings) (address : String) : Client where
  network := network
  peer := Peer.ofAddress address s.peers.dialTimeout

def validatorOf (network : Network) (s : Settings) (home : Role) : Validator :=
  ⟨(clientOf network s s.peers.accountServer).accountApi, home⟩

def servedOf (network : Network) (feed : Nat → Int64) (s : Settings) (hostname : String) : Served :=
  match s.role with
  | .account => .account (AccountService.api ⟨.seeded, hostname⟩)
  | .price =>
    .price (PriceService.api ⟨validatorOf network s .price, feed, s.premiumOnly, hostname⟩)
  | .wallet =>
    .wallet (WalletService.api ⟨validatorOf network s .wallet,
      (clientOf network s s.peers.priceServer).priceApi, ⟨.seeded, s.v1Behavior⟩, hostname⟩)

def ofSettings (network : Network) (feed : Nat → Int64) (s : Settings) (hostname : String) :
    Node where
  hostname := hostname
  served := servedOf network feed s hostname

end Node

end WalletWatch
