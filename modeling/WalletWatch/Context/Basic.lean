set_option autoImplicit false

/-!
# Call contexts

Every call runs under a context, which tells whether the call is still wanted. A context has a chain
of signals, those of its ancestors first and its own last, and maybe a deadline. It is cancelled
once one of its signals is raised or its deadline is reached. A signal is raised by its handle, or
by the loss of the handle; it is never lowered. Instants are in milliseconds.
-/

namespace WalletWatch

abbrev Millis := Nat

structure Signal where
  cancelled : Bool := false
  released : Bool := false
  deriving DecidableEq, Repr, Inhabited

/-- A handle that is gone cancels as well. -/
def Signal.raised (s : Signal) : Bool := s.cancelled || s.released

structure Signals where
  all : List Signal := []
  deriving DecidableEq

namespace Signals

def make (s : Signals) : Nat × Signals := (s.all.length, ⟨s.all ++ [⟨false, false⟩]⟩)

def raised (s : Signals) (id : Nat) : Bool := (s.all[id]?).any Signal.raised

def cancel (s : Signals) (id : Nat) : Signals :=
  ⟨s.all.modify id fun x => { x with cancelled := true }⟩

def release (s : Signals) (id : Nat) : Signals :=
  ⟨s.all.modify id fun x => { x with released := true }⟩

end Signals

structure Context where
  /-- The places of its signals, the ancestors' first and its own last. -/
  signals : List Nat
  deadline? : Option Millis := none
  deriving DecidableEq, Repr

namespace Context

def root (s : Signals) : Context × Signals := (⟨[s.make.1], none⟩, s.make.2)

def child (c : Context) (s : Signals) : Context × Signals :=
  ({ c with signals := c.signals ++ [s.make.1] }, s.make.2)

def handle? (c : Context) : Option Nat := c.signals.getLast?

def withDeadline (c : Context) (instant : Millis) : Context :=
  { c with deadline? := some (match c.deadline? with
      | some d => min d instant
      | none => instant) }

def withTimeout (c : Context) (now length : Millis) : Context := c.withDeadline (now + length)

def remaining? (c : Context) (now : Millis) : Option Millis := c.deadline?.map (· - now)

def isCancelled (c : Context) (now : Millis) (s : Signals) : Bool :=
  c.deadline?.any (· ≤ now) || c.signals.any s.raised

inductive Wake where
  | signal (id : Nat)
  | deadline
  deriving DecidableEq, Repr

/-- What a waiter sees when it looks: the first of the signals that is raised, or else the deadline
if that is reached. -/
def wake? (c : Context) (now : Millis) (s : Signals) : Option Wake :=
  match c.signals.find? s.raised with
  | some id => some (.signal id)
  | none => if c.deadline?.any (· ≤ now) then some .deadline else none

/-- The instant at which a context not yet cancelled will be, if nobody raises a signal. -/
def alarm? (c : Context) (now : Millis) : Option Millis := c.deadline?.filter (now < ·)

end Context

end WalletWatch
