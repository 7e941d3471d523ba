import WalletWatch.Tier

set_option autoImplicit false

/-!
# Call metadata

Metadata is a map from keys to texts that travels beside a payload. Keys ignore the case of ASCII
letters and are kept in lower case, in increasing order; the first value of a key is the one that
counts.
-/

namespace WalletWatch

structure Metadata where
  entries : List (String × String)
  ordered : entries.Pairwise (fun a b => a.1 < b.1)
  deriving DecidableEq

namespace Metadata

def authorizationKey : String := "authorization"

def membershipKey : String := "membership"

/-- The key of the routing hint, which the account service sees untouched. -/
def routeKey : String := "route"

def hostnameKey : String := "hostname"

/-- Lower the ASCII letters of a key; every other character stays. -/
def normalise (key : String) : String := key.map Char.toLower

def insertInto (key value : String) : List (String × String) → List (String × String)
  | [] => [(key, value)]
  | (k, v) :: rest =>
    if key < k then (key, value) :: (k, v) :: rest
    else if key = k then (k, v) :: rest
    else (k, v) :: insertInto key value rest

theorem mem_insertInto {key value : String} {e : String × String} {l : List (String × String)}
    (h : e ∈ insertInto key value l) : e = (key, value) ∨ e ∈ l := by
  induction l with
  | nil => simpa [insertInto] using h
  | cons a rest ih =>
    obtain ⟨k, v⟩ := a
    unfold insertInto at h
    split at h
    · simpa using h
    · split at h
      · exact .inr h
      · rcases List.mem_cons.1 h with rfl | h
        · exact .inr (List.mem_cons_self ..)
        · exact (ih h).imp_right (List.mem_cons_of_mem _)

theorem pairwise_insertInto {key value : String} {l : List (String × String)}
    (h : l.Pairwise (fun a b => a.1 < b.1)) :
    (insertInto key value l).Pairwise (fun a b => a.1 < b.1) := by
  induction l with
  | nil => simp [insertInto]
  | cons a rest ih =>
    obtain ⟨k, v⟩ := a
    have hk := (List.pairwise_cons.1 h).1
    unfold insertInto
    split
    · rename_i lt
      refine List.pairwise_cons.2 ⟨fun b hb => ?_, h⟩
      rcases List.mem_cons.1 hb with rfl | hb
      · exact lt
      · exact String.lt_trans lt (hk b hb)
    · rename_i nlt
      split
      · exact h
      · rename_i ne
        refine List.pairwise_cons.2 ⟨fun b hb => ?_, ih (List.pairwise_cons.1 h).2⟩
        rcases mem_insertInto hb with rfl | hb
        · exact String.not_le.1 fun le => ne (String.le_antisymm le (String.not_lt.1 nlt))
        · exact hk b hb

def empty : Metadata := ⟨[], .nil⟩

instance : EmptyCollection Metadata := ⟨empty⟩

instance : Inhabited Metadata := ⟨empty⟩

/-- Insert a value; the first value of a key wins. -/
def insert (m : Metadata) (key value : String) : Metadata :=
  ⟨insertInto (normalise key) value m.entries, pairwise_insertInto m.ordered⟩

def get? (m : Metadata) (key : String) : Option String :=
  (m.entries.find? (fun e => e.1 = normalise key)).map Prod.snd

def contains (m : Metadata) (key : String) : Bool := (m.get? key).isSome

def isEmpty (m : Metadata) : Bool := m.entries.isEmpty

def size (m : Metadata) : Nat := m.entries.length

def toList (m : Metadata) : List (String × String) := m.entries

def ofList (l : List (String × String)) : Metadata :=
  l.foldl (fun m e => m.insert e.1 e.2) empty

def credentials (token : String) (tier : Tier) : Metadata :=
  (empty.insert authorizationKey token).insert membershipKey tier.literal

def ofHost (hostname : String) : Metadata := empty.insert hostnameKey hostname

end Metadata

structure Envelope (α : Type) where
  payload : α
  metadata : Metadata := Metadata.empty
  deriving DecidableEq

namespace Envelope

variable {α β : Type}

def fromHost (payload : α) (hostname : String) : Envelope α :=
  ⟨payload, Metadata.ofHost hostname⟩

def hostname? (e : Envelope α) : Option String := e.metadata.get? Metadata.hostnameKey

def map (f : α → β) (e : Envelope α) : Envelope β := ⟨f e.payload, e.metadata⟩

end Envelope

end WalletWatch
