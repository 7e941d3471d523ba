import Std.Data.HashMap

set_option autoImplicit false

/-!
# The ledger

How many units each address of a user holds. A ledger is built once from a list of entries and keeps
the entries of one user in the order they came.
-/

namespace WalletWatch

structure Holding where
  user : String
  address : String
  units : Int64
  deriving DecidableEq

/-- Holdings by user. A user is in the map exactly if it has a holding. -/
structure Ledger where
  byUser : Std.HashMap String (List Holding)

namespace Ledger

def add (byUser : Std.HashMap String (List Holding)) (h : Holding) :
    Std.HashMap String (List Holding) :=
  byUser.insert h.user (byUser.getD h.user [] ++ [h])

def ofHoldings (holdings : List Holding) : Ledger := ⟨holdings.foldl add ∅⟩

/-- The holdings of a user, in the order they were entered; none for a user without any. -/
def lookup? (l : Ledger) (user : String) : Option (List Holding) := l.byUser[user]?

def seed : List Holding :=
  [⟨"Alice", "cd0aa985", 314⟩, ⟨"Alice", "454349e4", 159⟩,
   ⟨"Bob", "148de9c5", 271⟩, ⟨"Bob", "2e7d2c03", 828⟩]

def seeded : Ledger := ofHoldings seed

end Ledger

end WalletWatch
