set_option autoImplicit false

/-!
# Tiers and memberships

A tier is what a caller asks to be served at, `normal` below `premium`. A membership is what the
account service knows about a user, and may be unset or unrecognised.
-/

namespace WalletWatch

inductive Tier where
  | normal
  | premium
  deriving DecidableEq, Repr, Inhabited

inductive Membership where
  | normal
  | premium
  | unknown
  deriving DecidableEq, Repr, Inhabited

namespace Tier

def literal : Tier → String
  | normal => "normal"
  | premium => "premium"

/-- Literals are case sensitive and never trimmed. -/
def ofLiteral? : String → Option Tier
  | "normal" => some normal
  | "premium" => some premium
  | _ => none

theorem ofLiteral?_literal (t : Tier) : ofLiteral? t.literal = some t := by
  cases t <;> rfl

def rank : Tier → Nat
  | normal => 0
  | premium => 1

instance : LE Tier := ⟨fun a b => a.rank ≤ b.rank⟩

instance : LT Tier := ⟨fun a b => a.rank < b.rank⟩

instance (a b : Tier) : Decidable (a ≤ b) := inferInstanceAs (Decidable (a.rank ≤ b.rank))

instance (a b : Tier) : Decidable (a < b) := inferInstanceAs (Decidable (a.rank < b.rank))

instance : Ord Tier := ⟨fun a b => compare a.rank b.rank⟩

instance : Max Tier := maxOfLe

instance : Min Tier := minOfLe

def membership : Tier → Membership
  | normal => .normal
  | premium => .premium

end Tier

namespace Membership

def name : Membership → String
  | normal => "NORMAL"
  | premium => "PREMIUM"
  | unknown => "UNKNOWN"

/-- Every name but the two known ones reads as unknown. -/
def ofName : String → Membership
  | "NORMAL" => normal
  | "PREMIUM" => premium
  | _ => unknown

def tier? : Membership → Option Tier
  | normal => some .normal
  | premium => some .premium
  | unknown => none

theorem tier?_membership (t : Tier) : t.membership.tier? = some t := by
  cases t <;> rfl

theorem ofName_name (m : Membership) : ofName m.name = m := by
  cases m <;> rfl

end Membership

end WalletWatch
