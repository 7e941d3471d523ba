import WalletWatch.Chain.Basic

set_option autoImplicit false

/-!
# Sessions

A session is what a caller does with the services of one process: single calls, streams that it
opens under a name, and pauses. After each step everything runs until it waits.
-/

namespace WalletWatch

inductive Held where
  | price (place : Nat)
  | balance (place : Nat)
  deriving DecidableEq, Repr

inductive Update where
  | quote (q : PriceQuote)
  | balance (b : Balance)
  deriving DecidableEq

namespace Chain

def receive (c : Chain) : Held → Arrival Update × Chain
  | .price i => match c.receivePrice i with
    | (.item x, c') => (.item (x.map .quote), c')
    | (.closed, c') => (.closed, c')
    | (.pending, c') => (.pending, c')
  | .balance i => match c.receiveBalance i with
    | (.item x, c') => (.item (x.map .balance), c')
    | (.closed, c') => (.closed, c')
    | (.pending, c') => (.pending, c')

def drop (c : Chain) : Held → Chain
  | .price i => (c.hangUpPrice i).releasePrice i
  | .balance i => (c.hangUpBalance i).releaseBalance i

/-- Look for an item, without an answer while there is none. -/
def receive? (held : Held) (c : Chain) : Option (Arrival Update × Chain) :=
  match c.receive held with
  | (.pending, _) => none
  | found => some found

end Chain

structure Watching where
  name : String
  held? : Option Held
  handle : Nat

structure Session where
  chain : Chain
  watching : List Watching := []

namespace Session

inductive Step where
  | resolve (token : String) (metadata : Metadata)
  | fetchPrice (metadata : Metadata)
  | fetchBalance (metadata : Metadata) (perAddress : Bool)
  | watchPrice (name : String) (metadata : Metadata) (timeout? : Option Millis)
  | watchBalance (name : String) (metadata : Metadata) (perAddress : Bool)
      (timeout? : Option Millis)
  | receive (name : String) (patience : Millis)
  | sleep (length : Millis)
  | cancel (name : String)
  | dropHandle (name : String)
  | drop (name : String)
  | active
  | metrics

/-- What a caller sees of a step. A single call comes with the log events it left. -/
inductive Answer where
  | user (result : Item (Envelope UserInfo)) (log : List LogEvent)
  | quote (result : Item (Envelope PriceQuote)) (log : List LogEvent)
  | balance (result : Item (Envelope Balance)) (log : List LogEvent)
  | opened (result : Item Metadata)
  | received (arrival : Arrival Update) (instant : Millis)
  | noStream
  | slept (instant : Millis)
  | done
  | active (prices balances : Int64)
  | metrics (m : Metrics)

variable {α : Type}

def find? (s : Session) (name : String) : Option Watching := s.watching.find? (·.name = name)

def forget (s : Session) (name : String) : Session where
  chain := match s.find? name with
    | none => s.chain
    | some w => (match w.held? with
      | some held => s.chain.drop held
      | none => s.chain).release w.handle
  watching := s.watching.filter (·.name ≠ name)

def update (s : Session) (name : String) (change : Watching → Watching) : List Watching :=
  s.watching.map fun w => if w.name = name then change w else w

def call (s : Session) (x : Call α) : Item α × List LogEvent × Session :=
  let (r, c) := s.chain.call x
  (r, c.world.log.drop s.chain.world.log.length, { s with chain := c })

/-- Open a stream under a name. Once it is open it takes the place of what had the name; if it does
not open, the caller keeps what it had. -/
def watch (s : Session) (name : String) (timeout? : Option Millis)
    (ask : Context → Chain → Item Metadata × Chain) (held : Held) : Answer × Session :=
  let (ctx, handle, c) := s.chain.newCaller timeout?
  match ask ctx c with
  | (.ok m, c) =>
    let s' := forget { s with chain := c } name
    (.opened (.ok m), { s' with watching := ⟨name, some held, handle⟩ :: s'.watching })
  | (.error f, c) => (.opened (.error f), { s with chain := c.release handle })

def act (s : Session) : Step → Answer × Session
  | .resolve token metadata =>
    let (r, log, s') := s.call (s.chain.wiring.account.resolve ⟨⟨token⟩, metadata⟩)
    (.user r log, s')
  | .fetchPrice metadata =>
    let (r, log, s') := s.call ((s.chain.wiring.price s.chain.home).fetch ⟨{}, metadata⟩)
    (.quote r log, s')
  | .fetchBalance metadata perAddress =>
    let (r, log, s') :=
      s.call ((s.chain.wiring.wallet s.chain.home).fetch ⟨⟨perAddress⟩, metadata⟩)
    (.balance r log, s')
  | .watchPrice name metadata timeout? =>
    s.watch name timeout? (fun ctx c => c.watchPrice ctx metadata) (.price s.chain.prices.length)
  | .watchBalance name metadata perAddress timeout? =>
    s.watch name timeout? (fun ctx c => c.watchBalance ctx metadata perAddress)
      (.balance s.chain.balances.length)
  | .receive name patience =>
    match (s.find? name).bind Watching.held? with
    | none => (.noStream, s)
    | some held =>
      let (found, c) := Simulation.await (Chain.receive? held) patience s.chain
      (.received (found.getD .pending) c.now, { s with chain := c })
  | .sleep length =>
    let c := Simulation.sleep length s.chain
    (.slept c.now, { s with chain := c })
  | .cancel name =>
    (.done, { s with chain := match s.find? name with
      | some w => s.chain.cancel w.handle
      | none => s.chain })
  | .dropHandle name =>
    (.done, { s with chain := match s.find? name with
      | some w => s.chain.release w.handle
      | none => s.chain })
  | .drop name =>
    (.done, { s with
      chain := match (s.find? name).bind Watching.held? with
        | some held => s.chain.drop held
        | none => s.chain
      watching := s.update name fun w => { w with held? := none } })
  | .active =>
    let m := s.chain.world.metrics s.chain.home
    (.active (m.activeStreams "price") (m.activeStreams "wallet"), s)
  | .metrics => (.metrics (s.chain.world.metrics s.chain.home), s)

def step (s : Session) (x : Step) : Answer × Session :=
  let (a, s') := s.act x
  (a, { s' with chain := Simulation.settle s'.chain })

def run : Session → List Step → List Answer × Session
  | s, [] => ([], s)
  | s, x :: rest =>
    let (a, s') := s.step x
    let (answers, last) := s'.run rest
    (a :: answers, last)

end Session

end WalletWatch
