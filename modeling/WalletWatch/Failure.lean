set_option autoImplicit false

/-!
# Failures

A failure is a status code and a message. The code decides how a caller reacts and travels unchanged
through every hop; the message only grows, by a context in front of it.
-/

namespace WalletWatch

inductive Code where
  | unauthenticated
  | permissionDenied
  | notFound
  | invalidArgument
  | unavailable
  | internal
  deriving DecidableEq, Repr, Inhabited

namespace Code

def name : Code → String
  | unauthenticated => "UNAUTHENTICATED"
  | permissionDenied => "PERMISSION_DENIED"
  | notFound => "NOT_FOUND"
  | invalidArgument => "INVALID_ARGUMENT"
  | unavailable => "UNAVAILABLE"
  | internal => "INTERNAL"

/-- How a code is spelt in front of a message meant for people. -/
def words : Code → String
  | unauthenticated => "unauthenticated"
  | permissionDenied => "permission denied"
  | notFound => "not found"
  | invalidArgument => "invalid argument"
  | unavailable => "unavailable"
  | internal => "internal"

def ofName? : String → Option Code
  | "UNAUTHENTICATED" => some unauthenticated
  | "PERMISSION_DENIED" => some permissionDenied
  | "NOT_FOUND" => some notFound
  | "INVALID_ARGUMENT" => some invalidArgument
  | "UNAVAILABLE" => some unavailable
  | "INTERNAL" => some internal
  | _ => none

theorem ofName?_name (c : Code) : ofName? c.name = some c := by
  cases c <;> rfl

end Code

structure Failure where
  code : Code
  message : String
  deriving DecidableEq, Repr, Inhabited

/-- What a stream delivers: a value, or the failure that ends it. -/
abbrev Item (α : Type) := Except Failure α

namespace Failure

def wrap (f : Failure) (context : String) : Failure :=
  { f with message := context ++ ": " ++ f.message }

def display (f : Failure) : String :=
  f.code.words ++ ": " ++ f.message

@[simp] theorem code_wrap (f : Failure) (context : String) : (f.wrap context).code = f.code := rfl

end Failure

/-- Read a code by its wire name; any other name is an internal failure that quotes it. -/
def Code.parse (name : String) : Item Code :=
  match Code.ofName? name with
  | some c => .ok c
  | none => .error ⟨.internal, "unknown status code: " ++ name⟩

end WalletWatch
