import WalletWatch.Failure
import WalletWatch.Message.Wire

set_option autoImplicit false

/-!
# Failures and stream items on the wire

A failure travels as its code name and message, in the body of a refused call or in the last frame
of a stream. A frame of a stream holds either an item or the failure that ends it.
-/

namespace WalletWatch

open Json (Value Reader)

structure FailureBody where
  code : String
  message : String
  deriving DecidableEq

namespace FailureBody

def ofFailure (f : Failure) : FailureBody := ⟨f.code.name, f.message⟩

/-- The failure a body tells of, with the code it was sent with. A code that is none of the six
names makes an internal failure that quotes it. -/
def toFailure (b : FailureBody) : Failure :=
  match Code.ofName? b.code with
  | some c => ⟨c, b.message⟩
  | none => ⟨.internal, "upstream sent unknown code " ++ b.code ++ ": " ++ b.message⟩

end FailureBody

instance : Wire FailureBody where
  toValue b := .object [("code", .string b.code), ("message", .string b.message)]
  read := (Json.record2 "code" Json.readString none "message" Json.readString none
    FailureBody.mk).read

inductive Frame (α : Type) where
  | item (a : α)
  | error (body : FailureBody)
  deriving DecidableEq

namespace Frame

variable {α : Type}

def ofItem : Item α → Frame α
  | .ok a => .item a
  | .error f => .error (FailureBody.ofFailure f)

def toItem : Frame α → Item α
  | .item a => .ok a
  | .error b => .error b.toFailure

def readMember [Wire α] (key : String) (ts : List Json.Token) :
    Except Json.Reject (Frame α × List Json.Token) :=
  if key = "item" then (Wire.read ts).map fun (a, rest) => (.item a, rest)
  else (Wire.read ts).map fun (b, rest) => (.error b, rest)

/-- Read a frame: an object whose only member is an item or an error. -/
def read [Wire α] : Reader (Frame α)
  | .openBrace :: .text ps :: rest =>
    match Json.string? ps with
    | none => .error .malformed
    | some key =>
      if key = "item" ∨ key = "error" then
        match rest with
        | .colon :: rest' => match readMember key rest' with
          | .error e => .error e
          | .ok (f, .closeBrace :: rest'') => .ok (f, rest'')
          | .ok _ => .error .malformed
        | _ => .error .malformed
      else .error .mismatched
  | .openBrace :: ts => .error (Json.unexpected ts)
  | .text ps :: _ => if (Json.string? ps).isSome then .error .mismatched else .error .malformed
  | _ => .error .malformed

end Frame

instance {α : Type} [Wire α] : Wire (Frame α) where
  toValue
    | .item a => .object [("item", Wire.toValue a)]
    | .error b => .object [("error", Wire.toValue b)]
  read := Frame.read

def Frame.encode {α : Type} [Wire α] (f : Frame α) : String := Wire.encode f

def Frame.decode {α : Type} [Wire α] (s : String) : Item (Frame α) :=
  match Wire.decode (Text.ofString s) with
  | .ok f => .ok f
  | .error e => .error ⟨.internal, "malformed stream frame: " ++ e.reason⟩

end WalletWatch
