import WalletWatch.Socket.Message

set_option autoImplicit false

/-!
# Reading a stream from a socket

The items that a reader makes of what comes over a socket. Messages that are no text pass unnoticed.
-/

namespace WalletWatch.Socket

inductive Event where
  | message (m : Message)
  | broken (reason : String)
  deriving DecidableEq

def itemOf {α : Type} [Wire α] (s : String) : Item α :=
  match Frame.decode s with
  | .ok f => f.toItem
  | .error f => .error f

/-- The items of a connection, up to the first failure or the end. -/
def read {α : Type} [Wire α] : List Event → List (Item α)
  | [] => []
  | .broken reason :: _ => [.error ⟨.unavailable, "stream broken: " ++ reason⟩]
  | .message (.text s) :: rest =>
    match itemOf s with
    | .ok a => .ok a :: read rest
    | .error f => [.error f]
  | .message (.close ..) :: _ => []
  | .message _ :: rest => read rest

end WalletWatch.Socket
