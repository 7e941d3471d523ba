set_option autoImplicit false

/-!
# Metrics

Counters and gauges with labels. A series is found by its labels in any order, since labels are
sorted before they are used; a series exists from the first change on, even a change by zero. Values
are 64-bit words and wrap around.
-/

namespace WalletWatch

abbrev Labels := List (String × String)

namespace Labels

def le (a b : String × String) : Bool := a.1 < b.1 || (a.1 == b.1 && a.2 ≤ b.2)

def sorted (l : Labels) : Labels := l.mergeSort le

def escape (c : Char) : List Char :=
  if c = '\\' then ['\\', '\\']
  else if c = '"' then ['\\', '"']
  else if c = '\n' then ['\\', 'n']
  else [c]

def renderOne (l : String × String) : String :=
  l.1 ++ "=\"" ++ String.ofList (l.2.toList.flatMap escape) ++ "\""

def render (l : Labels) : String := ",".intercalate (l.map renderOne)

end Labels

/-- The series of one metric: sorted labels and a value each, in the order they came up. -/
structure Family (ν : Type) where
  series : List (Labels × ν) := []

namespace Family

variable {ν : Type}

def addTo [Add ν] (key : Labels) (delta : ν) : List (Labels × ν) → List (Labels × ν)
  | [] => [(key, delta)]
  | (k, v) :: rest => if k = key then (k, v + delta) :: rest else (k, v) :: addTo key delta rest

def add [Add ν] (f : Family ν) (labels : Labels) (delta : ν) : Family ν :=
  ⟨addTo labels.sorted delta f.series⟩

/-- The value of a series; zero for one that does not exist. -/
def get [OfNat ν 0] (f : Family ν) (labels : Labels) : ν :=
  ((f.series.find? (fun s => s.1 = labels.sorted)).map Prod.snd).getD 0

def lines [ToString ν] (f : Family ν) (name kind : String) : List String :=
  ("# TYPE " ++ name ++ " " ++ kind) ::
    f.series.map fun (l, v) => name ++ "\x7b" ++ Labels.render l ++ "\x7d " ++ toString v

end Family

structure Metrics where
  validations : Family UInt64 := {}
  active : Family Int64 := {}
  updates : Family UInt64 := {}

namespace Metrics

def outcome (authorized : Bool) : Labels :=
  [("outcome", if authorized then "authorized" else "rejected")]

def labelsOf (service : String) : Labels := [("svc", service)]

def validated (m : Metrics) (authorized : Bool) : Metrics :=
  { m with validations := m.validations.add (outcome authorized) 1 }

def opened (m : Metrics) (service : String) : Metrics :=
  { m with active := m.active.add (labelsOf service) 1 }

def closed (m : Metrics) (service : String) : Metrics :=
  { m with active := m.active.add (labelsOf service) (-1) }

def updated (m : Metrics) (service : String) : Metrics :=
  { m with updates := m.updates.add (labelsOf service) 1 }

def activeStreams (m : Metrics) (service : String) : Int64 := m.active.get (labelsOf service)

def lines (m : Metrics) : List String :=
  m.validations.lines "coinwallet_validations_total" "counter" ++
  m.active.lines "coinwallet_streams_active" "gauge" ++
  m.updates.lines "coinwallet_stream_updates_total" "counter"

def render (m : Metrics) : String := String.join (m.lines.map (· ++ "\n"))

end Metrics

end WalletWatch
