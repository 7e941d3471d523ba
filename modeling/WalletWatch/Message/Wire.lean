import WalletWatch.Json.Reader
import WalletWatch.Json.Value

set_option autoImplicit false

/-!
# Wire types

A wire type is written as one JSON value and read back from any spelling of it.
-/

namespace WalletWatch

open Json (Value Reader Reject Record Field Token)

class Wire (α : Type) where
  toValue : α → Value
  read : Reader α

namespace Wire

variable {α : Type} [Wire α]

def encode (a : α) : String := (toValue a).render

def decode (t : Text) : Except Reject α := Json.decode read t

/-- Read the first value of a text and ignore the rest. -/
def decodeFirst (t : Text) : Except Reject α := Json.decodeFirst read t

instance : Wire Int64 where
  toValue z := .int z.toInt
  read := Json.readInt64

instance : Wire String where
  toValue s := .string s
  read := Json.readString

end Wire

def Json.record1 {α β : Type} (name : String) (read : Reader β) (default? : Option β)
    (closed : Bool) (make : β → α) : Record (Option β) α where
  start := none
  fields := [⟨name, Option.isSome, fun _ ts => (read ts).map fun (b, rest) => (some b, rest)⟩]
  closed := closed
  done b := (b.or default?).map make

def Json.record2 {α β γ : Type} (name : String) (read : Reader β) (default? : Option β)
    (name' : String) (read' : Reader γ) (default?' : Option γ) (make : β → γ → α) :
    Record (Option β × Option γ) α where
  start := (none, none)
  fields :=
    [⟨name, fun s => s.1.isSome,
      fun s ts => (read ts).map fun (b, rest) => ((some b, s.2), rest)⟩,
     ⟨name', fun s => s.2.isSome,
      fun s ts => (read' ts).map fun (c, rest) => ((s.1, some c), rest)⟩]
  done s := (s.1.or default?).bind fun b => (s.2.or default?').map (make b)

end WalletWatch
