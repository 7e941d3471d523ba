import WalletWatch.Metadata
import WalletWatch.Service.Access

set_option autoImplicit false

/-!
# Looking up metadata

An insertion answers for its key where no earlier one does, and changes nothing else. So what a
caller forwards reads back as the token and the tier it was made from. Metadata with the same values
is the same.
-/

namespace WalletWatch

namespace Metadata

/-- The first entry of a key in an ordered list, after an insertion. The order matters where the new
entry stands in front: behind it come greater keys only. -/
theorem find?_insertInto (key value sought : String) {l : List (String × String)}
    (ordered : l.Pairwise (fun a b => a.1 < b.1)) :
    (insertInto key value l).find? (fun e => e.1 = sought) =
      if key = sought then (l.find? (fun e => e.1 = sought)).or (some (key, value))
      else l.find? (fun e => e.1 = sought) := by
  induction l with
  | nil => by_cases h : key = sought <;> simp [insertInto, h]
  | cons a rest ih =>
    obtain ⟨k, v⟩ := a
    obtain ⟨below, ordered⟩ := List.pairwise_cons.1 ordered
    unfold insertInto
    split
    · rename_i lt
      by_cases h : key = sought
      · subst h
        have absent : ((k, v) :: rest).find? (fun e => e.1 = key) = none := by
          refine List.find?_eq_none.2 fun e he => ?_
          have gt : key < e.1 := by
            rcases List.mem_cons.1 he with rfl | he
            · exact lt
            · exact String.lt_trans lt (below e he)
          have ne : e.1 ≠ key := fun same => String.lt_irrefl key (same ▸ gt)
          simpa using ne
        rw [absent]
        simp
      · simp [h]
    · split
      · rename_i same
        subst same
        by_cases h : key = sought <;> simp [h]
      · rename_i differs
        by_cases hk : k = sought
        · have hne : key ≠ sought := fun e => differs (e.trans hk.symm)
          simp [hk, hne]
        · simpa [hk] using ih ordered

/-- The value of a key that is spelt as it is kept. -/
def valueOf (m : Metadata) (key : String) : Option String :=
  (m.entries.find? (fun e => e.1 = key)).map Prod.snd

theorem valueOf_insert (m : Metadata) (key value sought : String) :
    (m.insert key value).valueOf sought =
      if normalise key = sought then some ((m.valueOf sought).getD value)
      else m.valueOf sought := by
  unfold valueOf insert
  rw [find?_insertInto _ _ _ m.ordered]
  split
  · cases m.entries.find? (fun e => e.1 = sought) <;> simp
  · rfl

theorem get?_insert (m : Metadata) (key value sought : String) :
    (m.insert key value).get? sought =
      if normalise key = normalise sought then some ((m.get? sought).getD value)
      else m.get? sought :=
  valueOf_insert m key value (normalise sought)

@[simp] theorem get?_empty (sought : String) : empty.get? sought = none := rfl

/-! ## Keys that are spelt as they are kept -/

theorem normalise_eq_self {key : String}
    (lower : key.toList.all (fun c => c.toLower = c) = true) : normalise key = key := by
  have same : ∀ c ∈ key.toList, c.toLower = c := by simpa using lower
  rw [← String.toList_inj, normalise, String.toList_map, List.map_congr_left same, List.map_id']

theorem normalise_authorizationKey : normalise authorizationKey = authorizationKey :=
  normalise_eq_self (by decide)

theorem normalise_membershipKey : normalise membershipKey = membershipKey :=
  normalise_eq_self (by decide)

theorem normalise_routeKey : normalise routeKey = routeKey :=
  normalise_eq_self (by decide)

theorem normalise_hostnameKey : normalise hostnameKey = hostnameKey :=
  normalise_eq_self (by decide)

theorem normalise_membershipKey_ne : normalise membershipKey ≠ normalise authorizationKey := by
  rw [normalise_membershipKey, normalise_authorizationKey]
  decide

@[simp] theorem get?_credentials_authorization (token : String) (tier : Tier) :
    (credentials token tier).get? authorizationKey = some token := by
  simp [credentials, get?_insert, normalise_membershipKey_ne]

@[simp] theorem get?_credentials_membership (token : String) (tier : Tier) :
    (credentials token tier).get? membershipKey = some tier.literal := by
  simp [credentials, get?_insert, normalise_membershipKey_ne.symm]

/-! ## Entries of known keys -/

theorem toList_insert_empty (key value : String) :
    (empty.insert key value).toList = [(normalise key, value)] := rfl

theorem toList_credentials (token : String) (tier : Tier) : (credentials token tier).toList =
    [(authorizationKey, token), (membershipKey, tier.literal)] := by
  have later : ¬ membershipKey < authorizationKey := by decide
  have other : ¬ membershipKey = authorizationKey := by decide
  change insertInto (normalise membershipKey) tier.literal
    [(normalise authorizationKey, token)] = _
  rw [normalise_membershipKey, normalise_authorizationKey]
  simp only [insertInto, later, other, if_false]

theorem toList_ofHost (hostname : String) :
    (ofHost hostname).toList = [(hostnameKey, hostname)] := by
  rw [ofHost, toList_insert_empty, normalise_hostnameKey]

/-! ## Values by key -/

theorem valueOf_eq_some_iff (m : Metadata) (key value : String) :
    m.valueOf key = some value ↔ (key, value) ∈ m.entries := by
  unfold valueOf
  have ordered := m.ordered
  revert ordered
  induction m.entries with
  | nil => simp
  | cons e rest ih =>
    intro ordered
    obtain ⟨k, v⟩ := e
    obtain ⟨below, ordered⟩ := List.pairwise_cons.1 ordered
    by_cases h : k = key
    · subst h
      have later : (k, value) ∉ rest := fun mem => String.lt_irrefl k (below _ mem)
      simp [later, eq_comm]
    · have other : ¬ key = k := fun same => h same.symm
      simpa [h, other] using ih ordered

theorem ext_valueOf {m m' : Metadata} (h : ∀ key, m.valueOf key = m'.valueOf key) : m = m' := by
  have distinct : ∀ m : Metadata, m.entries.Nodup := by
    intro m
    refine m.ordered.imp ?_
    rintro a b lt rfl
    exact String.lt_irrefl _ lt
  have members : ∀ e : String × String, e ∈ m.entries ↔ e ∈ m'.entries := by
    rintro ⟨key, value⟩
    rw [← valueOf_eq_some_iff, ← valueOf_eq_some_iff, h key]
  have perm := (List.perm_ext_iff_of_nodup (distinct m) (distinct m')).mpr members
  have same : m.entries = m'.entries := by
    refine perm.eq_of_pairwise (fun a b _ _ lt gt => ?_) m.ordered m'.ordered
    exact absurd (String.lt_trans lt gt) (String.lt_irrefl _)
  obtain ⟨entries, ordered⟩ := m
  obtain ⟨entries', ordered'⟩ := m'
  cases same
  rfl

end Metadata

end WalletWatch
