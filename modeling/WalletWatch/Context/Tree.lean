import WalletWatch.Schedule

set_option autoImplicit false

/-!
# Trees of contexts

Contexts under names, made from nothing or from each other, with the handles that came with them. A
name can stand for another context than the one its handle was made with.
-/

namespace WalletWatch

structure ContextTree where
  now : Millis := 0
  signals : Signals := {}
  /-- Contexts by name; the first of a name counts. -/
  contexts : List (String × Context) := []
  handles : List (String × Nat) := []

namespace ContextTree

inductive Step where
  | new (name : String)
  | child (name parent : String)
  | clone (name other : String)
  | timeout (name : String) (length : Millis)
  | cancel (name : String)
  | drop (name : String)
  | isCancelled (name : String)
  | remaining (name : String)
  | deadline (name : String)
  | sleep (length : Millis)
  | wait (name : String) (length : Millis)

inductive Answer where
  | done
  | truth (b : Bool)
  | time (t : Option Millis)
  | woken (cancelled : Bool) (instant : Millis)
  deriving DecidableEq

def context? (t : ContextTree) (name : String) : Option Context :=
  (t.contexts.find? (·.1 = name)).map Prod.snd

def handle? (t : ContextTree) (name : String) : Option Nat :=
  (t.handles.find? (·.1 = name)).map Prod.snd

def dropHandle (t : ContextTree) (name : String) : ContextTree :=
  match t.handle? name with
  | none => t
  | some s => { t with signals := t.signals.release s, handles := t.handles.filter (·.1 ≠ name) }

def put (t : ContextTree) (name : String) (c : Context) : ContextTree :=
  { t with contexts := (name, c) :: t.contexts.filter (·.1 ≠ name) }

def putNew (t : ContextTree) (name : String) (made : Context × Signals) : ContextTree :=
  let place := t.signals.all.length
  let t := { t with signals := made.2 }.put name made.1
  let t := t.dropHandle name
  { t with handles := (name, place) :: t.handles }

def isCancelled (t : ContextTree) (c : Context) : Bool := c.isCancelled t.now t.signals

/-- Nothing runs by itself in a tree of contexts, and deadlines are its alarms. -/
instance : Simulation ContextTree where
  now t := t.now
  setClock instant t := { t with now := instant }
  turn _ := none
  patience _ := 0
  alarms t := t.contexts.flatMap fun e => e.2.deadline?.toList

def await (t : ContextTree) (c : Context) (length : Millis) : Bool × ContextTree :=
  let (found, t') :=
    Simulation.await (fun t => if (c.wake? t.now t.signals).isSome then some ((), t) else none)
      length t
  (found.isSome, t')

def step (t : ContextTree) : Step → Answer × ContextTree
  | .new name => (.done, t.putNew name (Context.root t.signals))
  | .child name parent =>
    match t.context? parent with
    | some c => (.done, t.putNew name (c.child t.signals))
    | none => (.done, t)
  | .clone name other =>
    match t.context? other with
    | some c => (.done, t.put name c)
    | none => (.done, t)
  | .timeout name length =>
    match t.context? name with
    | some c => (.done, t.put name (c.withTimeout t.now length))
    | none => (.done, t)
  | .cancel name =>
    match t.handle? name with
    | some s => (.done, { t with signals := t.signals.cancel s })
    | none => (.done, t)
  | .drop name => (.done, t.dropHandle name)
  | .isCancelled name => (.truth ((t.context? name).any t.isCancelled), t)
  | .remaining name => (.time ((t.context? name).bind fun c => c.remaining? t.now), t)
  | .deadline name => (.time ((t.context? name).bind Context.deadline?), t)
  | .sleep length => (.done, Simulation.sleep length t)
  | .wait name length =>
    match t.context? name with
    | none => (.done, t)
    | some c =>
      let (cancelled, t') := t.await c length
      (.woken cancelled t'.now, t')

def run : ContextTree → List Step → List Answer
  | _, [] => []
  | t, x :: rest => (t.step x).1 :: (t.step x).2.run rest

end ContextTree

end WalletWatch
