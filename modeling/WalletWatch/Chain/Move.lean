import WalletWatch.Chain.Basic

set_option autoImplicit false

/-!
# Runs of a chain

Any list of moves is a run: the parties take their steps in any order, and time passes in between.
What each move showed is kept beside it.
-/

namespace WalletWatch

namespace Chain

inductive Move where
  | pass (length : Millis)
  | turnPrice (place : Nat)
  | turnBalance (place : Nat)
  | receivePrice (place : Nat)
  | receiveBalance (place : Nat)
  | hangUpPrice (place : Nat)
  | hangUpBalance (place : Nat)
  | releasePrice (place : Nat)
  | releaseBalance (place : Nat)
  | cancel (signal : Nat)
  | release (signal : Nat)
  | fetchPrice (metadata : Metadata)
  | fetchBalance (metadata : Metadata) (perAddress : Bool)
  | watchPrice (metadata : Metadata) (timeout? : Option Millis)
  | watchBalance (metadata : Metadata) (perAddress : Bool) (timeout? : Option Millis)

inductive Sight where
  | nothing
  | turn (t : Turn)
  | price (a : Arrival PriceQuote)
  | balance (a : Arrival Balance)
  | quote (r : Item (Envelope PriceQuote))
  | worth (r : Item (Envelope Balance))
  | opened (r : Item Metadata)

/-- Whether a stream of prices belongs to a stream of balances, which reads it and drops it. -/
def isRead (c : Chain) (i : Nat) : Bool := c.balances.any (·.prices = i)

/-- Whether a signal is a stream's own. Its handle goes with the stream. -/
def isOwned (c : Chain) (s : Nat) : Bool :=
  c.prices.any (·.stream.context.handle? = some s) ||
    c.balances.any (·.stream.context.handle? = some s)

/-- Make a move. A stream is asked for under a new context of its own. Nobody can use what another
party holds: such a move does nothing. -/
def move (c : Chain) : Move → Sight × Chain
  | .pass length => (.nothing, { c with now := c.now + length })
  | .turnPrice i => let (t, c') := c.turnPrice i; (.turn t, c')
  | .turnBalance i => let (t, c') := c.turnBalance i; (.turn t, c')
  | .receivePrice i =>
    if c.isRead i then (.nothing, c) else let (a, c') := c.receivePrice i; (.price a, c')
  | .receiveBalance i => let (a, c') := c.receiveBalance i; (.balance a, c')
  | .hangUpPrice i => (.nothing, if c.isRead i then c else c.hangUpPrice i)
  | .hangUpBalance i => (.nothing, c.hangUpBalance i)
  | .releasePrice i => (.nothing, if c.isRead i then c else c.releasePrice i)
  | .releaseBalance i => (.nothing, c.releaseBalance i)
  | .cancel s => (.nothing, if c.isOwned s then c else c.cancel s)
  | .release s => (.nothing, if c.isOwned s then c else c.release s)
  | .fetchPrice m =>
    let (r, c') := c.call ((c.wiring.price c.home).fetch ⟨{}, m⟩)
    (.quote r, c')
  | .fetchBalance m perAddress =>
    let (r, c') := c.call ((c.wiring.wallet c.home).fetch ⟨⟨perAddress⟩, m⟩)
    (.worth r, c')
  | .watchPrice m timeout? =>
    let (ctx, _, c') := c.newCaller timeout?
    let (r, c'') := c'.watchPrice ctx m
    (.opened r, c'')
  | .watchBalance m perAddress timeout? =>
    let (ctx, _, c') := c.newCaller timeout?
    let (r, c'') := c'.watchBalance ctx m perAddress
    (.opened r, c'')

def run : Chain → List Move → List (Move × Sight) × Chain
  | c, [] => ([], c)
  | c, m :: rest =>
    let (s, c') := c.move m
    let (shown, last) := c'.run rest
    ((m, s) :: shown, last)

end Chain

end WalletWatch
