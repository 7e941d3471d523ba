import Std.Data.HashMap
import WalletWatch.Tier

set_option autoImplicit false

/-!
# Identities

Which user a token stands for. A directory is built once from a list of records; of several records
with one token the last counts.
-/

namespace WalletWatch

structure Identity where
  token : String
  name : String
  tier : Tier
  deriving DecidableEq, Repr

structure Directory where
  byToken : Std.HashMap String Identity

namespace Directory

def ofRecords (records : List Identity) : Directory :=
  ⟨records.foldl (fun m r => m.insert r.token r) ∅⟩

def lookup? (d : Directory) (token : String) : Option Identity := d.byToken[token]?

def seed : List Identity :=
  [⟨"2bd806c9", "Alice", .premium⟩, ⟨"81b637d8", "Bob", .normal⟩]

def seeded : Directory := ofRecords seed

end Directory

end WalletWatch
