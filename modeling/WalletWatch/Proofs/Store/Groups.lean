import Mathlib.Data.List.Dedup
import Mathlib.Data.List.Perm.Basic
import WalletWatch.Proofs.Store.Lookup

set_option autoImplicit false

/-!
# The stores lose and mix nothing

A ledger shows each holding that went into it under its own user and nowhere else, so its groups
together are the holdings again. A directory knows a token exactly if some record has it, and
answers with the last one.
-/

namespace WalletWatch

namespace Ledger

/-- The holdings shown under a user. -/
def rows (l : Ledger) (user : String) : List Holding := (l.lookup? user).getD []

/-- Users whose holdings went in, each once. -/
def usersOf (holdings : List Holding) : List String := (holdings.map Holding.user).dedup

section Groups

variable (holdings : List Holding)

theorem mem_usersOf {user : String} :
    user ∈ usersOf holdings ↔ holdings.filter (·.user = user) ≠ [] := by
  rw [usersOf, List.mem_dedup, List.mem_map]
  simp [List.filter_eq_nil_iff]

theorem rows_ofHoldings (user : String) :
    (ofHoldings holdings).rows user = holdings.filter (·.user = user) := by
  rw [rows, lookup?_ofHoldings]
  split
  · rename_i none
    exact none.symm
  · rfl

theorem lookup?_eq_some_iff {user : String} {found : List Holding} :
    (ofHoldings holdings).lookup? user = some found ↔
      found = holdings.filter (·.user = user) ∧ found ≠ [] := by
  rw [lookup?_ofHoldings]
  by_cases none : holdings.filter (·.user = user) = []
  · rw [if_pos none, none]
    simp
  · rw [if_neg none, Option.some_inj]
    constructor
    · rintro rfl
      exact ⟨rfl, none⟩
    · rintro ⟨rfl, -⟩
      rfl

theorem lookup?_eq_none_iff {user : String} :
    (ofHoldings holdings).lookup? user = none ↔ holdings.filter (·.user = user) = [] := by
  rw [lookup?_ofHoldings]
  simp

theorem keys_perm : (ofHoldings holdings).byUser.keys.Perm (usersOf holdings) := by
  refine (List.perm_ext_iff_of_nodup Std.HashMap.nodup_keys (List.nodup_dedup _)).mpr fun user => ?_
  change _ ↔ user ∈ usersOf holdings
  rw [mem_usersOf, Ne, ← lookup?_eq_none_iff, Std.HashMap.mem_keys, lookup?,
    Std.HashMap.mem_iff_isSome_getElem?, Option.isSome_iff_ne_none]

/-- Groups of different users are the holdings of all these users. -/
theorem flatMap_filter_perm {users : List String} (nodup : users.Nodup) :
    (users.flatMap fun user => holdings.filter (·.user = user)).Perm
      (holdings.filter (·.user ∈ users)) := by
  induction users with
  | nil => simp
  | cons user rest ih =>
    obtain ⟨fresh, nodup⟩ := List.nodup_cons.mp nodup
    have parts := List.filter_append_perm (fun h : Holding => decide (h.user = user))
      (holdings.filter (·.user ∈ user :: rest))
    rw [List.filter_filter, List.filter_filter] at parts
    have own : holdings.filter (fun h => decide (h.user = user) && decide (h.user ∈ user :: rest)) =
        holdings.filter (·.user = user) := by
      refine List.filter_congr fun h _ => ?_
      by_cases same : h.user = user <;> simp [same]
    have others :
        holdings.filter (fun h => !decide (h.user = user) && decide (h.user ∈ user :: rest)) =
          holdings.filter (·.user ∈ rest) := by
      refine List.filter_congr fun h _ => ?_
      by_cases same : h.user = user
      · simp [same, fresh]
      · simp [same]
    rw [own, others] at parts
    exact ((ih nodup).append_left _).trans parts

theorem groups_perm : ((ofHoldings holdings).byUser.keys.flatMap (ofHoldings holdings).rows).Perm
    holdings := by
  have groups := flatMap_filter_perm holdings (List.nodup_dedup (holdings.map Holding.user))
  have everyone : holdings.filter (·.user ∈ usersOf holdings) = holdings := by
    refine List.filter_eq_self.mpr fun h mem => decide_eq_true ?_
    rw [usersOf, List.mem_dedup]
    exact List.mem_map_of_mem mem
  change (List.flatMap _ (usersOf holdings)).Perm
    (holdings.filter (·.user ∈ usersOf holdings)) at groups
  rw [everyone] at groups
  refine List.Perm.trans ?_ groups
  exact (keys_perm holdings).flatMap fun user _ => .of_eq (rows_ofHoldings holdings user)

end Groups

/-- A ledger shows some holdings, all of them and each under its user. -/
structure Shows (l : Ledger) (holdings : List Holding) : Prop where
  found : ∀ user rows, l.lookup? user = some rows ↔
    rows = holdings.filter (·.user = user) ∧ rows ≠ []
  unknown : ∀ user, l.lookup? user = none ↔ holdings.filter (·.user = user) = []
  own : ∀ user, ∀ h ∈ l.rows user, h.user = user
  users : l.byUser.keys.Perm (usersOf holdings)
  /-- All groups together, with what is entered twice shown twice. -/
  groups : (l.byUser.keys.flatMap l.rows).Perm holdings

theorem shows_ofHoldings (holdings : List Holding) : (ofHoldings holdings).Shows holdings where
  found _ _ := lookup?_eq_some_iff holdings
  unknown _ := lookup?_eq_none_iff holdings
  own user h mem := by
    rw [rows_ofHoldings] at mem
    exact of_decide_eq_true (List.mem_filter.mp mem).2
  users := keys_perm holdings
  groups := groups_perm holdings

end Ledger

namespace Directory

/-- A directory answers with the last of the records that have a token. -/
structure KnowsLast (d : Directory) (records : List Identity) : Prop where
  last : ∀ token record, d.lookup? token = some record ↔
    ∃ front back, records = front ++ record :: back ∧ record.token = token ∧
      ∀ r ∈ back, r.token ≠ token
  unknown : ∀ token, d.lookup? token = none ↔ ∀ r ∈ records, r.token ≠ token

theorem lookup?_eq_some_iff (records : List Identity) {token : String} {record : Identity} :
    (ofRecords records).lookup? token = some record ↔
      ∃ front back, records = front ++ record :: back ∧ record.token = token ∧
        ∀ r ∈ back, r.token ≠ token := by
  -- The last match of a list is the first match of its reverse.
  rw [lookup?_ofRecords, List.getLast?_filter, List.find?_eq_some_iff_append]
  constructor
  · rintro ⟨same, back, front, reversed, none⟩
    refine ⟨front.reverse, back.reverse, ?_, of_decide_eq_true same, ?_⟩
    · have := congrArg List.reverse reversed
      simpa using this
    · intro r mem
      simpa using none r (List.mem_reverse.mp mem)
  · rintro ⟨front, back, rfl, same, none⟩
    refine ⟨decide_eq_true same, back.reverse, front.reverse, by simp, ?_⟩
    intro r mem
    simpa using none r (List.mem_reverse.mp mem)

theorem knowsLast_ofRecords (records : List Identity) :
    (ofRecords records).KnowsLast records where
  last _ _ := lookup?_eq_some_iff records
  unknown token := by
    rw [lookup?_ofRecords, List.getLast?_eq_none_iff, List.filter_eq_nil_iff]
    simp

end Directory

/-- What a store was built from can be read off it: a ledger shows all holdings, each under its user
and in the order they came; a directory answers for exactly the tokens that have a record, by the
last of them. -/
theorem stores_keep_their_lists :
    (∀ holdings, (Ledger.ofHoldings holdings).Shows holdings) ∧
    ∀ records, (Directory.ofRecords records).KnowsLast records :=
  ⟨Ledger.shows_ofHoldings, Directory.knowsLast_ofRecords⟩

end WalletWatch
