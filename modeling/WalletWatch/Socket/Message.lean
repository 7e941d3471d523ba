import WalletWatch.Message.Frame

set_option autoImplicit false

/-!
# Sockets

A stream travels over a socket, one text message for each of its frames. The side that serves sends
a message per item up to the first failure, and then closes the socket. The side that reads goes by
the text messages alone and stops at the first thing that is not an item.
-/

namespace WalletWatch.Socket

inductive Message where
  | text (s : String)
  | binary (t : Text)
  | ping (t : Text)
  | pong (t : Text)
  | close (code : Nat) (reason : String)
  deriving DecidableEq

/-- The close message behind a stream that ended. -/
def normalClose : Message := .close 1000 ""

def frameOf {α : Type} [Wire α] (i : Item α) : Message := .text (Frame.ofItem i).encode

end WalletWatch.Socket
