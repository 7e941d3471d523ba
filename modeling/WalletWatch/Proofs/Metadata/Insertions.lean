import Mathlib
import WalletWatch.Proofs.Metadata
import WalletWatch.Proofs.Text.Utf8

set_option autoImplicit false

/-!
# Metadata by what was inserted

However metadata is made, it comes from some insertions in turn, and these tell all about it: of the
insertions under a key, in whatever case its ASCII letters are spelt, the first one counts. So a
caller that forwards credentials cannot lose them to an entry that comes later.
-/

namespace WalletWatch.Metadata

/-- A way to make metadata. -/
inductive Making where
  | new
  | credentials (token : String) (tier : Tier)
  | collected (pairs : List (String × String))
  | inserted (first : Making) (key value : String)

namespace Making

def made : Making → Metadata
  | new => ∅
  | credentials token tier => Metadata.credentials token tier
  | collected pairs => ofList pairs
  | inserted first key value => first.made.insert key value

/-- All that is inserted, in turn. -/
def insertions : Making → List (String × String)
  | new => []
  | credentials token tier => [(authorizationKey, token), (membershipKey, tier.literal)]
  | collected pairs => pairs
  | inserted first key value => first.insertions ++ [(key, value)]

theorem made_eq (m : Making) : m.made = ofList m.insertions := by
  induction m with
  | new => rfl
  | credentials token tier => rfl
  | collected pairs => rfl
  | inserted first key value ih =>
    change first.made.insert key value = ofList (first.insertions ++ [(key, value)])
    rw [ih, ofList, ofList, List.foldl_append]
    rfl

end Making

/-! ## Keys as they are kept -/

theorem isUpper_of_mem_normalise {key : String} {c : Char} (mem : c ∈ (normalise key).toList) :
    c.isUpper = false := by
  rw [normalise, String.toList_map] at mem
  obtain ⟨d, -, rfl⟩ := List.mem_map.mp mem
  exact Char.isUpper_toLower_eq_false d

theorem normalise_normalise (key : String) : normalise (normalise key) = normalise key := by
  apply normalise_eq_self
  rw [List.all_eq_true]
  intro c mem
  rw [normalise, String.toList_map] at mem
  obtain ⟨d, -, rfl⟩ := List.mem_map.mp mem
  exact decide_eq_true (Char.toLower_toLower_eq_toLower d)

/-- The keys that something is inserted under, as they are kept and each once. -/
def keysOf (insertions : List (String × String)) : List String :=
  (insertions.map fun e => normalise e.1).dedup

theorem mem_keysOf_iff {insertions : List (String × String)} {key : String} :
    key ∈ keysOf insertions ↔ ∃ e ∈ insertions, normalise e.1 = key := by
  rw [keysOf, List.mem_dedup, List.mem_map]

/-! ## Insertions in turn -/

/-- The value of the first insertion under a key, given as it is kept. -/
def firstOf (insertions : List (String × String)) (kept : String) : Option String :=
  (insertions.find? fun e => normalise e.1 = kept).map Prod.snd

theorem isSome_firstOf (insertions : List (String × String)) (kept : String) :
    (firstOf insertions kept).isSome = true ↔ ∃ e ∈ insertions, normalise e.1 = kept := by
  simp [firstOf]

/-- What is there stays, and of what is inserted the first counts. -/
theorem valueOf_insertAll (l : List (String × String)) (m : Metadata) (kept : String) :
    (l.foldl (fun m e => m.insert e.1 e.2) m).valueOf kept =
      (m.valueOf kept).or (firstOf l kept) := by
  induction l generalizing m with
  | nil => exact Option.or_none.symm
  | cons e l ih =>
    rw [List.foldl_cons, ih, valueOf_insert]
    by_cases same : normalise e.1 = kept
    · cases m.valueOf kept <;> simp [firstOf, same]
    · simp [firstOf, same]

theorem valueOf_ofList (l : List (String × String)) (kept : String) :
    (ofList l).valueOf kept = firstOf l kept :=
  valueOf_insertAll l empty kept

theorem get?_ofList (l : List (String × String)) (key : String) :
    (ofList l).get? key = firstOf l (normalise key) :=
  valueOf_ofList l (normalise key)

/-! ## Entries -/

section Entries

variable {l : List (String × String)}

theorem mem_toList_ofList_iff {key value : String} :
    (key, value) ∈ (ofList l).toList ↔ firstOf l key = some value := by
  rw [← valueOf_ofList, valueOf_eq_some_iff]
  rfl

theorem normalise_of_mem {e : String × String} (mem : e ∈ (ofList l).toList) :
    normalise e.1 = e.1 := by
  have first : firstOf l e.1 = some e.2 := mem_toList_ofList_iff.mp mem
  obtain ⟨x, -, kept⟩ := (isSome_firstOf l e.1).mp (by rw [first]; rfl)
  rw [← kept, normalise_normalise]

theorem nodup_keys (m : Metadata) : (m.toList.map Prod.fst).Nodup := by
  refine List.pairwise_map.mpr (m.ordered.imp ?_)
  intro a b lt same
  exact String.lt_irrefl _ (same ▸ lt)

theorem keys_perm (l : List (String × String)) :
    ((ofList l).toList.map Prod.fst).Perm (keysOf l) := by
  refine (List.perm_ext_iff_of_nodup (nodup_keys _) (List.nodup_dedup _)).mpr fun key => ?_
  change _ ↔ key ∈ keysOf l
  rw [mem_keysOf_iff, ← isSome_firstOf, Option.isSome_iff_exists]
  constructor
  · intro mem
    obtain ⟨⟨key, value⟩, entry, rfl⟩ := List.mem_map.mp mem
    exact ⟨value, mem_toList_ofList_iff.mp entry⟩
  · rintro ⟨value, first⟩
    exact List.mem_map.mpr ⟨(key, value), mem_toList_ofList_iff.mpr first, rfl⟩

theorem get?_of_mem {e : String × String} (mem : e ∈ (ofList l).toList) :
    (ofList l).get? e.1 = some e.2 := by
  rw [get?_ofList, normalise_of_mem mem]
  exact mem_toList_ofList_iff.mp mem

theorem ofList_toList (l : List (String × String)) : ofList (ofList l).toList = ofList l := by
  refine ext_valueOf fun kept => ?_
  -- The keys are lowered already, so the lookup meets the same entry first.
  have alike : ∀ e ∈ (ofList l).toList, decide (normalise e.1 = kept) = decide (e.1 = kept) := by
    intro e mem
    rw [normalise_of_mem mem]
  rw [valueOf_ofList, firstOf, List.find?_congr alike]
  rfl

theorem isEmpty_ofList : (ofList l).isEmpty = true ↔ l = [] := by
  have keys := (keys_perm l).length_eq
  rw [List.length_map] at keys
  change (ofList l).toList.isEmpty = true ↔ l = []
  rw [List.isEmpty_iff_length_eq_zero, keys, List.length_eq_zero_iff, keysOf, List.dedup_eq_nil,
    List.map_eq_nil_iff]

theorem isEmpty_iff_get? : (ofList l).isEmpty = true ↔ ∀ key, (ofList l).get? key = none := by
  rw [isEmpty_ofList]
  constructor
  · rintro rfl key
    rfl
  · intro silent
    refine List.eq_nil_iff_forall_not_mem.mpr fun e mem => ?_
    have found := (isSome_firstOf l (normalise e.1)).mpr ⟨e, mem, rfl⟩
    rw [← get?_ofList, silent e.1] at found
    cases found

end Entries

/-- Metadata holds the first of the insertions under each key, and nothing else. -/
structure HoldsFirst (insertions : List (String × String)) (m : Metadata) : Prop where
  get : ∀ key, m.get? key = firstOf insertions (normalise key)
  contains : ∀ key, m.contains key = true ↔ ∃ e ∈ insertions, normalise e.1 = normalise key
  isEmpty : m.isEmpty = true ↔ insertions = []
  silent : m.isEmpty = true ↔ ∀ key, m.get? key = none
  size : m.size = (keysOf insertions).length
  /-- Each key is listed once. -/
  keys : (m.toList.map Prod.fst).Perm (keysOf insertions)
  values : ∀ e ∈ m.toList, m.get? e.1 = some e.2
  increasing : m.toList.Pairwise fun a b =>
    (Text.ofString a.1).toBytes < (Text.ofString b.1).toBytes
  lowered : ∀ e ∈ m.toList, ∀ c ∈ e.1.toList, c.isUpper = false
  collected : ofList m.toList = m

theorem holdsFirst_ofList (l : List (String × String)) : HoldsFirst l (ofList l) where
  get := get?_ofList l
  contains key := by
    rw [contains, get?_ofList, isSome_firstOf]
  isEmpty := isEmpty_ofList
  silent := isEmpty_iff_get?
  size := by
    have keys := (keys_perm l).length_eq
    rwa [List.length_map] at keys
  keys := keys_perm l
  values _ mem := get?_of_mem mem
  increasing := (ofList l).ordered.imp fun lt => Text.toBytes_ofString_lt lt
  lowered e mem c hc := by
    rw [← normalise_of_mem mem] at hc
    exact isUpper_of_mem_normalise hc
  collected := ofList_toList l

theorem get?_credentials (token : String) (tier : Tier) (key : String) :
    (credentials token tier).get? key =
      if normalise key = authorizationKey then some token
      else if normalise key = membershipKey then some tier.literal
      else none := by
  unfold credentials
  rw [get?_insert, get?_insert, get?_empty, normalise_authorizationKey, normalise_membershipKey]
  have apart : authorizationKey ≠ membershipKey := by decide
  by_cases authorization : normalise key = authorizationKey
  · simp [authorization, apart.symm]
  have one : authorizationKey ≠ normalise key := Ne.symm authorization
  by_cases membership : normalise key = membershipKey
  · simp [membership, apart, apart.symm]
  · have two : membershipKey ≠ normalise key := Ne.symm membership
    simp [authorization, membership, one, two]

/-- However metadata is made, the first insertion under each key counts, whatever the case of its
ASCII letters. So what is inserted behind credentials changes neither token nor tier. -/
theorem first_insertions_count :
    (∀ m : Making, HoldsFirst m.insertions m.made) ∧
    ∀ (token : String) (tier : Tier) (later : List (String × String)) (key : String),
      (later.foldl (fun m e => m.insert e.1 e.2) (credentials token tier)).get? key =
        if normalise key = authorizationKey then some token
        else if normalise key = membershipKey then some tier.literal
        else firstOf later (normalise key) := by
  constructor
  · intro m
    rw [m.made_eq]
    exact holdsFirst_ofList m.insertions
  · intro token tier later key
    have whole : _ = (Metadata.valueOf _ _).or _ :=
      valueOf_insertAll later (credentials token tier) (normalise key)
    change Metadata.get? _ _ = ((credentials token tier).get? key).or _ at whole
    rw [whole, get?_credentials]
    split
    · rfl
    split <;> rfl

end WalletWatch.Metadata
