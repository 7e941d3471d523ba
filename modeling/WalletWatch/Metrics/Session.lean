import WalletWatch.Metrics

set_option autoImplicit false

/-!
# Changes to metrics, step by step

Series are changed directly, or through guards: a guard counts a stream of its service as open as
long as it is kept.
-/

namespace WalletWatch

inductive Meter where
  | validations
  | active
  | updates
  deriving DecidableEq, Repr

structure MetricsSession where
  metrics : Metrics := {}
  guards : List (String × String) := []

namespace MetricsSession

inductive Step where
  | add (m : Meter) (labels : Labels) (delta : Int)
  | get (m : Meter) (labels : Labels)
  | active (service : String)
  | guard (name service : String)
  | update (name : String)
  | drop (name : String)
  | render

inductive Answer where
  | done
  | value (v : Int)
  | lines (m : Metrics)

def guard? (s : MetricsSession) (name : String) : Option String :=
  (s.guards.find? (·.1 = name)).map Prod.snd

/-- Add to a series; sums wrap around at 64 bits. -/
def add (m : Metrics) (labels : Labels) (delta : Int) : Meter → Metrics
  | .validations => { m with validations := m.validations.add labels (UInt64.ofInt delta) }
  | .active => { m with active := m.active.add labels (Int64.ofInt delta) }
  | .updates => { m with updates := m.updates.add labels (UInt64.ofInt delta) }

def get (m : Metrics) (labels : Labels) : Meter → Int
  | .validations => (m.validations.get labels).toNat
  | .active => (m.active.get labels).toInt
  | .updates => (m.updates.get labels).toNat

def drop (s : MetricsSession) (name : String) : MetricsSession :=
  match s.guard? name with
  | none => s
  | some service =>
    { metrics := s.metrics.closed service, guards := s.guards.filter (·.1 ≠ name) }

/-- Keep a new guard under a name; it takes the place of what had the name. -/
def keep (s : MetricsSession) (name service : String) : MetricsSession :=
  let s' := { s with metrics := s.metrics.opened service }.drop name
  { s' with guards := (name, service) :: s'.guards }

def step (s : MetricsSession) : Step → Answer × MetricsSession
  | .add m labels delta => (.done, { s with metrics := add s.metrics labels delta m })
  | .get m labels => (.value (get s.metrics labels m), s)
  | .active service => (.value (s.metrics.activeStreams service).toInt, s)
  | .guard name service => (.done, s.keep name service)
  | .update name =>
    (.done, match s.guard? name with
      | some service => { s with metrics := s.metrics.updated service }
      | none => s)
  | .drop name => (.done, s.drop name)
  | .render => (.lines s.metrics, s)

def run : MetricsSession → List Step → List Answer
  | _, [] => []
  | s, x :: rest => (s.step x).1 :: (s.step x).2.run rest

end MetricsSession

end WalletWatch
