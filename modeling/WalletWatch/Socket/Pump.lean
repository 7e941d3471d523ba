import WalletWatch.Socket.Message

set_option autoImplicit false

/-!
# Serving a stream over a socket

A pump takes what comes first, an item of its stream or a message of its peer. It ends behind the
first failure, behind the end of the stream, and when the peer closes the socket or is gone.
-/

namespace WalletWatch.Socket

inductive Intake (α : Type) where
  | item (i : Item α)
  | ended
  | message (m : Message)
  | lost

/-- What a pump sends for what it takes up, and whether it ends there. A ping is answered with its
pong below the pump. -/
def Intake.effect {α : Type} [Wire α] : Intake α → List Message × Bool
  | .item (.ok a) => ([frameOf (.ok a)], false)
  | .item (.error f) => ([frameOf (α := α) (.error f), normalClose], true)
  | .ended => ([normalClose], true)
  | .message (.close ..) => ([], true)
  | .message (.ping t) => ([.pong t], false)
  | .message _ => ([], false)
  | .lost => ([], true)

structure Pump where
  sent : List Message := []
  running : Bool := true

namespace Pump

variable {α : Type} [Wire α]

def take (p : Pump) (x : Intake α) : Pump :=
  if p.running then ⟨p.sent ++ x.effect.1, !x.effect.2⟩ else p

def run (p : Pump) (l : List (Intake α)) : Pump := l.foldl take p

end Pump

/-- What a pump sends for some items, and for the end behind them where there is one. -/
def messages {α : Type} [Wire α] (items : List (Item α)) (ends : Bool) : List Message :=
  (({} : Pump).run (items.map Intake.item ++ if ends then [.ended] else [])).sent

def pump {α : Type} [Wire α] (items : List (Item α)) : List Message := messages items true

end WalletWatch.Socket
