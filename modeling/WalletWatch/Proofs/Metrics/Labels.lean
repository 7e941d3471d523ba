import WalletWatch.Proofs.Metrics.Series

set_option autoImplicit false

/-!
# Labels as pairs without an order

Sorting forgets the order of labels and nothing else: labels name the same series exactly if they
are the same pairs, each as often.
-/

namespace WalletWatch.Labels

section Order

variable {a b c : String × String}

theorem le_iff : le a b = true ↔ a.1 < b.1 ∨ a.1 = b.1 ∧ a.2 ≤ b.2 := by
  simp [le]

theorem le_trans (ab : le a b = true) (bc : le b c = true) : le a c = true := by
  rw [le_iff] at ab bc ⊢
  rcases ab with ab | ⟨ab, ab'⟩
  · rcases bc with bc | ⟨bc, -⟩
    · exact .inl (String.lt_trans ab bc)
    · exact .inl (bc ▸ ab)
  · rcases bc with bc | ⟨bc, bc'⟩
    · exact .inl (ab ▸ bc)
    · exact .inr ⟨ab.trans bc, String.le_trans ab' bc'⟩

theorem le_total (a b : String × String) : (le a b || le b a) = true := by
  rw [Bool.or_eq_true, le_iff, le_iff]
  rcases Std.lt_trichotomy a.1 b.1 with lt | same | gt
  · exact .inl (.inl lt)
  · exact (String.le_total a.2 b.2).imp (fun le => .inr ⟨same, le⟩) fun le => .inr ⟨same.symm, le⟩
  · exact .inr (.inl gt)

theorem le_antisymm (ab : le a b = true) (ba : le b a = true) : a = b := by
  rw [le_iff] at ab ba
  rcases ab with lt | ⟨same, ab⟩
  · rcases ba with gt | ⟨same, -⟩
    · exact absurd gt (String.lt_asymm lt)
    · exact absurd (same ▸ lt) (String.lt_irrefl _)
  · rcases ba with gt | ⟨-, ba⟩
    · exact absurd (same ▸ gt) (String.lt_irrefl _)
    · exact Prod.ext same (String.le_antisymm ab ba)

end Order

theorem sorted_perm (labels : Labels) : labels.sorted.Perm labels :=
  List.mergeSort_perm labels le

theorem pairwise_sorted (labels : Labels) : labels.sorted.Pairwise (le · · = true) :=
  @List.pairwise_mergeSort _ le (fun _ _ _ => le_trans) le_total labels

theorem sorted_eq_sorted_iff {labels other : Labels} :
    labels.sorted = other.sorted ↔ labels.Perm other := by
  constructor
  · intro same
    have back := sorted_perm other
    rw [← same] at back
    exact (sorted_perm labels).symm.trans back
  · intro perm
    have alike : labels.sorted.Perm other.sorted :=
      ((sorted_perm labels).trans perm).trans (sorted_perm other).symm
    exact List.Perm.eq_of_pairwise (fun _ _ _ _ => le_antisymm) (pairwise_sorted labels)
      (pairwise_sorted other) alike

@[simp] theorem sorted_sorted (labels : Labels) : labels.sorted.sorted = labels.sorted :=
  sorted_eq_sorted_iff.mpr (sorted_perm labels)

end WalletWatch.Labels
