import WalletWatch.Chain.Session
import WalletWatch.Node.Router
import WalletWatch.Socket.Pump

set_option autoImplicit false

/-!
# Connections

A socket that a node opened for a stream, as its client sees it. The pump takes items as soon as
they are there, and what it sends waits for the client in order. When the pump ends, it lets go of
the stream and cancels the call.
-/

namespace WalletWatch

open Socket (Message Pump)

structure Connection where
  chain : Chain
  held : Held
  handle : Nat
  pump : Pump := {}
  taken : Nat := 0

namespace Connection

inductive Step where
  | receive (patience : Millis)
  | send (m : Message)
  | leave
  | sleep (length : Millis)
  | metrics

inductive Answer where
  | received (m : Option Message) (instant : Millis)
  | sent
  | left
  | slept (instant : Millis)
  | metrics (m : Metrics)

def takeArrival (p : Pump) : Arrival Update → Pump
  | .item (.ok (.quote q)) => p.take (.item (.ok q))
  | .item (.ok (.balance b)) => p.take (.item (.ok b))
  | .item (.error f) => p.take (.item (.error f : Item PriceQuote))
  | .closed => p.take (.ended : Socket.Intake PriceQuote)
  | .pending => p

/-- Let the pump take something up. If it ends, it lets go of all it uses. -/
def advance (c : Connection) (p : Pump) : Connection :=
  if p.running then { c with pump := p }
  else { c with
    pump := p
    chain := ((c.chain.drop c.held).cancel c.handle).release c.handle }

def turn (c : Connection) : Option Connection :=
  match if c.pump.running then c.chain.receive? c.held else none with
  | some (a, chain) => some ({ c with chain := chain }.advance (takeArrival c.pump a))
  | none => (Simulation.turn c.chain).map fun chain => { c with chain := chain }

/-- A pump takes at most one more turn per item. -/
instance : Simulation Connection where
  now c := c.chain.now
  setClock instant c := { c with chain := Simulation.setClock instant c.chain }
  turn := turn
  patience c := 2 * Simulation.patience c.chain
  alarms c := Simulation.alarms c.chain

def start (chain : Chain) (o : Node.Opening) : Connection :=
  let (ctx, handle, chain) := chain.newCaller none
  Simulation.settle <| match o with
    | .prices e =>
      { chain := chain.startPrices ctx e.payload, held := .price chain.prices.length
        handle := handle }
    | .balances e =>
      { chain := chain.startBalances ctx e.payload, held := .balance chain.balances.length
        handle := handle }

def receive? (c : Connection) : Option (Message × Connection) :=
  (c.pump.sent[c.taken]?).map fun m => (m, { c with taken := c.taken + 1 })

def act (c : Connection) : Step → Answer × Connection
  | .receive patience =>
    let (m, c') := Simulation.await receive? patience c
    (.received m c'.chain.now, c')
  | .send m =>
    (.sent,
      if c.pump.running then c.advance (c.pump.take (.message m : Socket.Intake PriceQuote)) else c)
  | .leave =>
    (.left,
      if c.pump.running then c.advance (c.pump.take (.lost : Socket.Intake PriceQuote)) else c)
  | .sleep length =>
    let c' := Simulation.sleep length c
    (.slept c'.chain.now, c')
  | .metrics => (.metrics (c.chain.world.metrics c.chain.home), c)

def step (c : Connection) (x : Step) : Answer × Connection :=
  let (a, c') := c.act x
  (a, Simulation.settle c')

def run : Connection → List Step → List Answer
  | _, [] => []
  | c, x :: rest => (c.step x).1 :: (c.step x).2.run rest

end Connection

end WalletWatch
