import WalletWatch.Context.Basic
import WalletWatch.Failure

set_option autoImplicit false

/-!
# Streams

A stream has a slot for one item. Its producer fills the slot and has to wait while it is full; its
consumer empties it. The producer stops as soon as the stream is cancelled, and an item it holds
then is lost; an item in the slot stays. The end of the stream shows once the producer has stopped
and the slot is empty.
-/

namespace WalletWatch

inductive StreamEnd where
  | eof
  | failed
  | cancelled
  | receiverGone
  deriving DecidableEq, Repr

def StreamEnd.name : StreamEnd → String
  | eof => "Eof"
  | failed => "Failed"
  | cancelled => "Cancelled"
  | receiverGone => "ReceiverGone"

inductive Task (σ α : Type) where
  | working (s : σ)
  /-- It waits for the slot with an item, and goes on with `next`, or stops where there is none. -/
  | sending (item : Item α) (next : Option σ)
  /-- It has nothing more to send and lets go of what it uses. -/
  | closing (reason : StreamEnd)
  | stopped (reason : StreamEnd)

structure Stream (σ α : Type) where
  /-- The context the producer runs under; its own signal is that of the stream. -/
  context : Context
  slot : Option (Item α) := none
  listening : Bool := true
  task : Task σ α

inductive Work (σ α : Type) where
  | wait
  | goOn (s : σ)
  | send (item : Item α) (next : σ)
  | fail (f : Failure)
  | stop (reason : StreamEnd)

inductive Turn where
  | waited
  | worked
  /-- An item went into the slot; after the last one the producer stops. -/
  | sent (last : Bool)
  /-- An item was lost, and the producer stops. -/
  | lost (reason : StreamEnd) (last : Bool)
  | stopped (reason : StreamEnd)
  deriving DecidableEq, Repr

namespace Turn

def moved : Turn → Bool
  | waited => false
  | _ => true

end Turn

inductive Arrival (α : Type) where
  | item (i : Item α)
  | closed
  | pending

namespace Stream

variable {σ α ε : Type}

def openUnder (parent : Context) (signals : Signals) (start : σ) : Stream σ α × Signals :=
  let (c, signals') := parent.child signals
  ({ context := c, task := .working start }, signals')

def isCancelled (st : Stream σ α) (now : Millis) (signals : Signals) : Bool :=
  st.context.isCancelled now signals

def hasStopped (st : Stream σ α) : Bool :=
  match st.task with
  | .stopped _ => true
  | _ => false

/-- Try to put an item into the slot. Cancellation is looked at first. -/
def trySend (st : Stream σ α) (cancelled : Bool) (item : Item α) (next : Option σ) :
    Turn × Stream σ α :=
  if cancelled then (.lost .cancelled next.isNone, { st with task := .closing .cancelled })
  else if !st.listening then
    (.lost .receiverGone next.isNone, { st with task := .closing .receiverGone })
  else if st.slot.isSome then (.waited, st)
  else
    (.sent next.isNone,
      { st with
        slot := some item
        task := match next with
          | some s => .working s
          | none => .closing .failed })

def follow (st : Stream σ α) : Work σ α → Turn × Stream σ α
  | .wait => (.waited, st)
  | .goOn s => (.worked, { st with task := .working s })
  | .send item next => (.worked, { st with task := .sending item (some next) })
  | .fail f => (.worked, { st with task := .sending (.error f) none })
  | .stop reason => (.worked, { st with task := .closing reason })

/-- One turn of the producer. What it does while it gets an item ready is `work`, which may look at
and change what lies outside the stream. -/
def turn (work : σ → ε → Work σ α × ε) (cancelled : Bool) (st : Stream σ α) (e : ε) :
    Turn × Stream σ α × ε :=
  match st.task with
  | .working s =>
    let (w, e') := work s e
    let (t, st') := st.follow w
    (t, st', e')
  | .sending item next =>
    let (t, st') := st.trySend cancelled item next
    (t, st', e)
  | .closing reason => (.stopped reason, { st with task := .stopped reason }, e)
  | .stopped _ => (.waited, st, e)

def receive (st : Stream σ α) : Arrival α × Stream σ α :=
  match st.slot with
  | some i => (.item i, { st with slot := none })
  | none => (if st.hasStopped then .closed else .pending, st)

def hangUp (st : Stream σ α) : Stream σ α := { st with slot := none, listening := false }

def release (st : Stream σ α) (signals : Signals) : Signals :=
  match st.context.handle? with
  | some id => signals.release id
  | none => signals

end Stream

end WalletWatch
