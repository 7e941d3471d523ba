import WalletWatch.Store.Identity
import WalletWatch.Store.Ledger

set_option autoImplicit false

/-!
# What the stores hold

A directory answers with the last record of a token. A ledger answers with the holdings of a user in
the order they came, and knows a user exactly if there are some.
-/

namespace WalletWatch

namespace Directory

theorem getElem?_foldl_insert (records : List Identity) (m : Std.HashMap String Identity)
    (token : String) :
    (records.foldl (fun m r => m.insert r.token r) m)[token]? =
      ((records.filter (·.token = token)).getLast?).or m[token]? := by
  induction records generalizing m with
  | nil => rfl
  | cons r rest ih =>
    rw [List.foldl_cons, ih, Std.HashMap.getElem?_insert]
    by_cases h : r.token = token
    · rw [List.filter_cons_of_pos (by simpa using h), List.getLast?_cons]
      cases (rest.filter (·.token = token)).getLast? <;> simp [h]
    · rw [List.filter_cons_of_neg (by simpa using h)]
      simp [h]

theorem lookup?_ofRecords (records : List Identity) (token : String) :
    (ofRecords records).lookup? token = (records.filter (·.token = token)).getLast? := by
  refine (getElem?_foldl_insert records ∅ token).trans ?_
  simp

end Directory

namespace Ledger

theorem getElem?_foldl_add (holdings : List Holding) (m : Std.HashMap String (List Holding))
    (user : String) :
    (holdings.foldl add m)[user]? =
      if holdings.filter (·.user = user) = [] then m[user]?
      else some (m.getD user [] ++ holdings.filter (·.user = user)) := by
  induction holdings generalizing m with
  | nil => rfl
  | cons h rest ih =>
    rw [List.foldl_cons, ih]
    by_cases same : h.user = user
    · subst same
      rw [List.filter_cons_of_pos (by simp), add, Std.HashMap.getElem?_insert_self,
        Std.HashMap.getD_insert_self]
      by_cases last : rest.filter (·.user = h.user) = []
      · simp [last]
      · simp [last]
    · rw [List.filter_cons_of_neg (by simpa using same), add]
      simp [Std.HashMap.getElem?_insert, Std.HashMap.getD_insert, same]

theorem lookup?_ofHoldings (holdings : List Holding) (user : String) :
    (ofHoldings holdings).lookup? user =
      if holdings.filter (·.user = user) = [] then none
      else some (holdings.filter (·.user = user)) := by
  refine (getElem?_foldl_add holdings ∅ user).trans ?_
  simp

end Ledger

end WalletWatch
