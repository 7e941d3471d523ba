import WalletWatch.Chain.Wiring
import WalletWatch.Schedule
import WalletWatch.Stream.Basic

set_option autoImplicit false

/-!
# The chain at work

The services of one process with all the streams they keep. A stream of balances reads a stream of
prices of its own; both run under the context of the caller. Each function here is one step of one
party, so that any order of steps is a run.
-/

namespace WalletWatch

/-- What the producer of a stream of prices keeps. -/
inductive Pace where
  | ticking (home : Role) (t : Ticker)
  | playing (p : Playback)
  deriving DecidableEq

namespace Pace

def start (now : Millis) : PriceSource → Pace
  | .feed home period => .ticking home (Ticker.start now period)
  | .script s => .playing { script := s }

/-- Get the next price ready. A sample counts as an update when it is taken. -/
def work (feed : Nat → Int64) (now : Millis) (cancelled : Bool) (p : Pace) (w : World) :
    Work Pace PriceQuote × World :=
  if cancelled then (.stop .cancelled, w)
  else match p with
    | ticking home t =>
      match t.take? now with
      | none => (.wait, w)
      | some t' =>
        (.send (.ok ⟨feed w.samples⟩) (.ticking home t'),
          { w.count home (·.updated "price") with samples := w.samples + 1 })
    | playing p =>
      match p.cue? now with
      | none => (.wait, w)
      | some (.pause p') => (.goOn (.playing p'), w)
      | some (.price x rest) => (.send (.ok ⟨x⟩) (.playing rest), w)
      | some (.over .normal) => (.stop .eof, w)
      | some (.over (.failure f)) => (.fail f, w)
      | some (.over .silence) => (.wait, w)

def alarm? : Pace → Option Millis
  | ticking _ t => some t.due
  | playing p => p.alarm?

def remaining : Pace → Nat
  | ticking .. => 0
  | playing p => p.script.prices.length

end Pace

structure PriceLine where
  stream : Stream Pace PriceQuote
  home? : Option Role

structure BalanceLine where
  stream : Stream Unit Balance
  source : BalanceSource
  prices : Nat

def BalanceLine.work (s : BalanceSource) (cancelled : Bool)
    (prices : Stream Pace PriceQuote) : Work Unit Balance × Stream Pace PriceQuote :=
  if cancelled then (.stop .cancelled, prices)
  else match prices.receive with
    | (.pending, _) => (.wait, prices)
    | (.closed, _) => (.stop .eof, prices)
    | (.item (.error f), prices') => (.fail f, prices')
    | (.item (.ok q), prices') =>
      match s.update q.price with
      | .ok b => (.send (.ok b) (), prices')
      | .error f => (.fail f, prices')

/-- The services of one process and their streams, each known by its place. -/
structure Chain where
  wiring : Wiring
  home : Role := .wallet
  now : Millis := 0
  signals : Signals := {}
  prices : List PriceLine := []
  balances : List BalanceLine := []
  world : World := {}

namespace Chain

variable {α : Type}

/-! ## Calls -/

def call (c : Chain) (x : Call α) : Item α × Chain :=
  let (r, w) := x.perform c.world
  (r, { c with world := w })

/-- Make a context for a caller, whose handle is the signal that is given back. -/
def newCaller (c : Chain) (timeout? : Option Millis) : Context × Nat × Chain :=
  let (ctx, signals) := Context.root c.signals
  let ctx := match timeout? with
    | some t => ctx.withTimeout c.now t
    | none => ctx
  (ctx, c.signals.all.length, { c with signals := signals })

def startPrices (c : Chain) (ctx : Context) (source : PriceSource) : Chain :=
  let (st, signals) := Stream.openUnder ctx c.signals (Pace.start c.now source)
  let home? := match source with
    | .feed home _ => some home
    | .script _ => none
  { c with signals := signals, prices := c.prices ++ [⟨st, home?⟩] }

def startBalances (c : Chain) (ctx : Context) (source : BalanceSource) : Chain :=
  let c' := c.startPrices ctx source.prices
  let (st, signals) := Stream.openUnder ctx c'.signals ()
  { c' with signals := signals, balances := c'.balances ++ [⟨st, source, c.prices.length⟩] }

def watchPrice (c : Chain) (ctx : Context) (metadata : Metadata) : Item Metadata × Chain :=
  match c.call ((c.wiring.price c.home).watch ⟨{}, metadata⟩) with
  | (.ok e, c') => (.ok e.metadata, c'.startPrices ctx e.payload)
  | (.error f, c') => (.error f, c')

def watchBalance (c : Chain) (ctx : Context) (metadata : Metadata) (perAddress : Bool) :
    Item Metadata × Chain :=
  match c.call ((c.wiring.wallet c.home).watch ⟨⟨perAddress⟩, metadata⟩) with
  | (.ok e, c') => (.ok e.metadata, c'.startBalances ctx e.payload)
  | (.error f, c') => (.error f, c')

/-! ## Producers -/

def setPrice (c : Chain) (i : Nat) (st : Stream Pace PriceQuote) : Chain :=
  { c with prices := c.prices.modify i fun l => { l with stream := st } }

def setBalance (c : Chain) (i : Nat) (st : Stream Unit Balance) : Chain :=
  { c with balances := c.balances.modify i fun l => { l with stream := st } }

def count (c : Chain) (home : Role) (change : Metrics → Metrics) : Chain :=
  { c with world := c.world.count home change }

def turnPrice (c : Chain) (i : Nat) : Turn × Chain :=
  match c.prices[i]? with
  | none => (.waited, c)
  | some l =>
    let cancelled := l.stream.isCancelled c.now c.signals
    let (t, st, w) := l.stream.turn (Pace.work c.wiring.feed c.now cancelled) cancelled c.world
    let c' := { c.setPrice i st with world := w }
    match t, l.home? with
    | .stopped _, some home => (t, c'.count home (·.closed "price"))
    | _, _ => (t, c')

/-- Let go of one thing that a stream of balances uses: first of the receiving end of its prices,
then of their signal. None if both are gone. -/
def letGo? (c : Chain) (i : Nat) : Option Chain :=
  match c.prices[i]? with
  | none => none
  | some p =>
    if p.stream.listening then some (c.setPrice i p.stream.hangUp)
    else match p.stream.context.handle? with
      | none => none
      | some s =>
        if (c.signals.all[s]?).any (!·.released) then
          some { c with signals := c.signals.release s }
        else none

/-- One turn of the producer of a stream of balances. It lets go of its prices before it stops. -/
def turnBalance (c : Chain) (i : Nat) : Turn × Chain :=
  match c.balances[i]? with
  | none => (.waited, c)
  | some l =>
    match l.stream.task with
    | .closing reason =>
      match c.letGo? l.prices with
      | some c' => (.worked, c')
      | none =>
        (.stopped reason,
          (c.setBalance i { l.stream with task := .stopped reason }).count l.source.home
            (·.closed "wallet"))
    | _ =>
      match c.prices[l.prices]? with
      | none => (.waited, c)
      | some p =>
        let cancelled := l.stream.isCancelled c.now c.signals
        let (t, st, prices) := l.stream.turn
          (fun _ => BalanceLine.work l.source cancelled) cancelled p.stream
        let c' := (c.setPrice l.prices prices).setBalance i st
        if t = .sent false then (t, c'.count l.source.home (·.updated "wallet")) else (t, c')

/-! ## Consumers -/

def receivePrice (c : Chain) (i : Nat) : Arrival PriceQuote × Chain :=
  match c.prices[i]? with
  | none => (.closed, c)
  | some l =>
    let (a, st) := l.stream.receive
    (a, c.setPrice i st)

def receiveBalance (c : Chain) (i : Nat) : Arrival Balance × Chain :=
  match c.balances[i]? with
  | none => (.closed, c)
  | some l =>
    let (a, st) := l.stream.receive
    (a, c.setBalance i st)

def hangUpPrice (c : Chain) (i : Nat) : Chain :=
  match c.prices[i]? with
  | none => c
  | some l => c.setPrice i l.stream.hangUp

def hangUpBalance (c : Chain) (i : Nat) : Chain :=
  match c.balances[i]? with
  | none => c
  | some l => c.setBalance i l.stream.hangUp

def releasePrice (c : Chain) (i : Nat) : Chain :=
  match c.prices[i]? with
  | none => c
  | some l => { c with signals := l.stream.release c.signals }

def releaseBalance (c : Chain) (i : Nat) : Chain :=
  match c.balances[i]? with
  | none => c
  | some l => { c with signals := l.stream.release c.signals }

def cancel (c : Chain) (signal : Nat) : Chain := { c with signals := c.signals.cancel signal }

def release (c : Chain) (signal : Nat) : Chain := { c with signals := c.signals.release signal }

/-! ## Time -/

def firstMove : List (Turn × Chain) → Option Chain
  | [] => none
  | (t, c) :: rest => if t.moved then some c else firstMove rest

def alarmsOf {σ : Type} (alarm? : σ → Option Millis) (st : Stream σ α) : List Millis :=
  match st.task with
  | .stopped _ => []
  | .working s => (alarm? s).toList ++ st.context.deadline?.toList
  | _ => st.context.deadline?.toList

def remaining (l : PriceLine) : Nat :=
  match l.stream.task with
  | .working p => p.remaining
  | .sending _ (some p) => p.remaining
  | _ => 0

/-- Each price of a script takes a bounded number of turns, and so does everything else that can
happen to a stream at one instant. -/
instance : Simulation Chain where
  now c := c.now
  setClock instant c := { c with now := instant }
  turn c := firstMove
    ((List.range c.prices.length).map c.turnPrice ++
      (List.range c.balances.length).map c.turnBalance)
  patience c :=
    16 * (c.prices.foldl (fun n l => n + remaining l) 1 + c.prices.length + c.balances.length)
  alarms c :=
    c.prices.flatMap (fun l => alarmsOf Pace.alarm? l.stream) ++
      c.balances.flatMap (fun l => alarmsOf (fun _ => none) l.stream)

end Chain

end WalletWatch
