import WalletWatch.Schedule
import WalletWatch.Stream.Basic
import WalletWatch.Stream.Ticker

set_option autoImplicit false

/-!
# Rehearsals of a stream

A producer that goes through a list of actions, and a consumer that goes through a list of steps.
The producer writes down when its sends came to pass or failed, and how it stopped.
-/

namespace WalletWatch

namespace Rehearsal

inductive Action where
  | send (n : Int64)
  /-- Send a failure and go on. -/
  | error (f : Failure)
  /-- Send a failure and stop. -/
  | fail (f : Failure)
  /-- Sleep, whether the stream is cancelled or not. -/
  | sleep (length : Millis)
  /-- Send 1, 2, 3 and so on at ticks, until the stream ends. -/
  | ticks (period : Millis)
  | waitCancel
  deriving DecidableEq

inductive Stage where
  | acting (actions : List Action)
  | sleeping (wakeUp : Millis) (actions : List Action)
  | ticking (t : Ticker) (next : Int64)
  deriving DecidableEq

namespace Stage

def noted : Stage → Bool
  | ticking .. => false
  | _ => true

def work (now : Millis) (cancelled : Bool) : Stage → Work Stage Int64
  | acting [] => .stop .eof
  | acting (.send n :: rest) => .send (.ok n) (.acting rest)
  | acting (.error f :: rest) => .send (.error f) (.acting rest)
  | acting (.fail f :: _) => .fail f
  | acting (.sleep length :: rest) => .goOn (.sleeping (now + length) rest)
  | acting (.ticks period :: _) => .goOn (.ticking (Ticker.start now period) 1)
  | acting (.waitCancel :: _) => if cancelled then .stop .cancelled else .wait
  | sleeping wakeUp rest => if now < wakeUp then .wait else .goOn (.acting rest)
  | ticking t n =>
    if cancelled then .stop .cancelled
    else match t.take? now with
      | none => .wait
      | some t' => .send (.ok n) (.ticking t' (n + 1))

def alarm? : Stage → Option Millis
  | acting _ => none
  | sleeping wakeUp _ => some wakeUp
  | ticking t _ => some t.due

def remaining : Stage → Nat
  | acting rest => rest.length
  | sleeping _ rest => rest.length
  | ticking .. => 0

end Stage

inductive Note where
  | sent
  | lost (reason : StreamEnd)
  | stopped (reason : StreamEnd)
  deriving DecidableEq

def Note.text : Note → String
  | sent => "sent"
  | lost reason => reason.name
  | stopped reason => "end " ++ reason.name

end Rehearsal

open Rehearsal in
structure Rehearsal where
  now : Millis := 0
  signals : Signals
  stream : Stream Stage Int64
  handle : Nat
  held : Bool := true
  notes : List (Note × Millis) := []

namespace Rehearsal

inductive Step where
  | receive (patience : Millis)
  | sleep (length : Millis)
  | cancel
  | dropHandle
  | drop

inductive Answer where
  | received (arrival : Arrival Int64) (instant : Millis)
  | noStream
  | slept (instant : Millis)
  | done

def noteOf (before : Task Stage Int64) : Turn → List Note
  | .sent false => match before with
    | .sending _ (some c) => if c.noted then [.sent] else []
    | _ => []
  | .lost reason false => match before with
    | .sending _ (some c) => if c.noted then [.lost reason] else []
    | _ => []
  | .stopped reason => [.stopped reason]
  | _ => []

def turn (r : Rehearsal) : Turn × Rehearsal :=
  let cancelled := r.stream.isCancelled r.now r.signals
  let (t, st, _) := r.stream.turn (fun c (e : Unit) => (c.work r.now cancelled, e)) cancelled ()
  (t, { r with
    stream := st
    notes := r.notes ++ (noteOf r.stream.task t).map fun n => (n, r.now) })

def alarms (r : Rehearsal) : List Millis :=
  r.stream.context.deadline?.toList ++ match r.stream.task with
    | .working c => c.alarm?.toList
    | _ => []

def remaining (r : Rehearsal) : Nat :=
  match r.stream.task with
  | .working c => c.remaining
  | .sending _ (some c) => c.remaining
  | _ => 0

/-- At one instant each action takes a bounded number of turns, and so do the few ticks that can be
due together. -/
instance : Simulation Rehearsal where
  now r := r.now
  setClock instant r := { r with now := instant }
  turn r := if r.turn.1.moved then some r.turn.2 else none
  patience r := 4 * r.remaining + 32
  alarms r := r.alarms

def start (timeout? : Option Millis) (actions : List Action) : Rehearsal :=
  let (ctx, signals) := Context.root {}
  let ctx := match timeout? with
    | some t => ctx.withTimeout 0 t
    | none => ctx
  let (st, signals') := Stream.openUnder ctx signals (.acting actions)
  Simulation.settle { signals := signals', stream := st, handle := 0 }

def receive? (r : Rehearsal) : Option (Arrival Int64 × Rehearsal) :=
  match r.stream.receive with
  | (.pending, _) => none
  | (found, st) => some (found, { r with stream := st })

def act (r : Rehearsal) : Step → Answer × Rehearsal
  | .receive patience =>
    if r.held then
      let (found, r') := Simulation.await receive? patience r
      (.received (found.getD .pending) r'.now, r')
    else (.noStream, r)
  | .sleep length =>
    let r' := Simulation.sleep length r
    (.slept r'.now, r')
  | .cancel => (.done, { r with signals := r.signals.cancel r.handle })
  | .dropHandle => (.done, { r with signals := r.signals.release r.handle })
  | .drop =>
    if r.held then
      (.done, { r with
        held := false
        signals := r.stream.release r.signals
        stream := r.stream.hangUp })
    else (.done, r)

def step (r : Rehearsal) (x : Step) : (Answer × Nat) × Rehearsal :=
  let (a, r') := r.act x
  let settled := Simulation.settle r'
  ((a, settled.notes.length), settled)

def run : Rehearsal → List Step → List (Answer × Nat) × Rehearsal
  | r, [] => ([], r)
  | r, x :: rest =>
    let (a, r') := r.step x
    let (answers, last) := r'.run rest
    (a :: answers, last)

end Rehearsal

end WalletWatch
