import Mathlib.Algebra.BigOperators.Group.List.Basic
import Mathlib.Algebra.BigOperators.Ring.List
import Mathlib.Algebra.Order.Ring.Int
import Mathlib.Tactic.SplitIfs
import WalletWatch.Balance

set_option autoImplicit false

/-!
# Balances near the limits

A balance is held within the range at every product and at every addition. Sums of one sign move in
one direction, so they reach a limit at most once and come to the exact sum held within the range
once, at the end. With mixed signs a limit may be left again; there the balance is exact as long as
nothing on the way falls outside.
-/

namespace WalletWatch

/-- Whether an integer is in the range of 64 bits. -/
def Fits (z : Int) : Prop := Int64.minValue.toInt ≤ z ∧ z ≤ Int64.maxValue.toInt

/-- The integer in the range that is nearest. -/
def nearest (z : Int) : Int := max Int64.minValue.toInt (min z Int64.maxValue.toInt)

/-- Integers none of which is on the other side of zero than another. -/
def OneSided (zs : List Int) : Prop := (∀ z ∈ zs, 0 ≤ z) ∨ ∀ z ∈ zs, z ≤ 0

section Range

theorem minValue_toInt : Int64.minValue.toInt = -9223372036854775808 := by decide

theorem maxValue_toInt : Int64.maxValue.toInt = 9223372036854775807 := by decide

theorem nearest_of_fits {z : Int} (h : Fits z) : nearest z = z := by
  unfold Fits at h
  unfold nearest
  omega

theorem fits_nearest (z : Int) : Fits (nearest z) := by
  have order : Int64.minValue.toInt ≤ Int64.maxValue.toInt := by decide
  unfold Fits nearest
  omega

theorem toInt_clamp (z : Int) : (clamp z).toInt = nearest z := by
  have order : Int64.minValue.toInt ≤ Int64.maxValue.toInt := by decide
  unfold clamp nearest
  split_ifs with low high
  · omega
  · omega
  · rw [Int64.toInt_ofInt_of_le]
    · omega
    · rw [minValue_toInt] at low
      omega
    · rw [maxValue_toInt] at high
      omega

/-- Two sums on one side of zero come to a limit together. -/
theorem nearest_add_nearest {a x s : Int} (ha : Fits a)
    (side : (0 ≤ a ∧ 0 ≤ x ∧ 0 ≤ s) ∨ (a ≤ 0 ∧ x ≤ 0 ∧ s ≤ 0)) :
    nearest (nearest (a + nearest x) + s) = nearest (a + (x + s)) := by
  unfold Fits at ha
  simp only [nearest, minValue_toInt, maxValue_toInt] at ha ⊢
  omega

end Range

section OneSided

theorem sum_nonneg_of_forall {zs : List Int} (h : ∀ z ∈ zs, 0 ≤ z) : 0 ≤ zs.sum := by
  induction zs with
  | nil => exact Int.le_refl 0
  | cons z rest ih =>
    have first := h z List.mem_cons_self
    have later := ih fun y hy => h y (List.mem_cons_of_mem z hy)
    rw [List.sum_cons]
    omega

theorem sum_nonpos_of_forall {zs : List Int} (h : ∀ z ∈ zs, z ≤ 0) : zs.sum ≤ 0 := by
  induction zs with
  | nil => exact Int.le_refl 0
  | cons z rest ih =>
    have first := h z List.mem_cons_self
    have later := ih fun y hy => h y (List.mem_cons_of_mem z hy)
    rw [List.sum_cons]
    omega

theorem OneSided.perm {zs zs' : List Int} (h : OneSided zs) (p : zs.Perm zs') : OneSided zs' := by
  rcases h with h | h
  · exact .inl fun z hz => h z (p.mem_iff.mpr hz)
  · exact .inr fun z hz => h z (p.mem_iff.mpr hz)

/-- A price of either sign keeps units of one sign on one side. -/
theorem OneSided.mul {zs : List Int} (h : OneSided zs) (x : Int) : OneSided (zs.map (· * x)) := by
  unfold OneSided
  simp only [List.forall_mem_map]
  rcases h with h | h <;> rcases Int.le_total 0 x with hx | hx
  · exact .inl fun z hz => Int.mul_nonneg (h z hz) hx
  · exact .inr fun z hz => Int.mul_nonpos_of_nonneg_of_nonpos (h z hz) hx
  · exact .inr fun z hz => Int.mul_nonpos_of_nonpos_of_nonneg (h z hz) hx
  · exact .inl fun z hz => Int.mul_nonneg_of_nonpos_of_nonpos (h z hz) hx

end OneSided

/-! ## Running sums -/

/-- Add to a running sum; the summand and the sum are held within the range. -/
def addWithin (sum z : Int) : Int := nearest (sum + nearest z)

theorem fits_addWithin (sum z : Int) : Fits (addWithin sum z) := fits_nearest _

theorem foldl_addWithin_of_oneSided {zs : List Int} {a : Int} (ha : Fits a)
    (side : (0 ≤ a ∧ ∀ z ∈ zs, 0 ≤ z) ∨ (a ≤ 0 ∧ ∀ z ∈ zs, z ≤ 0)) :
    zs.foldl addWithin a = nearest (a + zs.sum) := by
  induction zs generalizing a with
  | nil =>
    rw [List.sum_nil, Int.add_zero, nearest_of_fits ha]
    rfl
  | cons z rest ih =>
    have now : (0 ≤ a ∧ 0 ≤ z ∧ 0 ≤ rest.sum) ∨ (a ≤ 0 ∧ z ≤ 0 ∧ rest.sum ≤ 0) := by
      rcases side with ⟨h, hz⟩ | ⟨h, hz⟩
      · exact .inl ⟨h, hz z List.mem_cons_self,
          sum_nonneg_of_forall fun y hy => hz y (List.mem_cons_of_mem z hy)⟩
      · exact .inr ⟨h, hz z List.mem_cons_self,
          sum_nonpos_of_forall fun y hy => hz y (List.mem_cons_of_mem z hy)⟩
    have later : (0 ≤ addWithin a z ∧ ∀ y ∈ rest, 0 ≤ y) ∨
        (addWithin a z ≤ 0 ∧ ∀ y ∈ rest, y ≤ 0) := by
      unfold addWithin nearest
      rw [minValue_toInt, maxValue_toInt]
      rcases side with ⟨h, hz⟩ | ⟨h, hz⟩
      · have first := hz z List.mem_cons_self
        exact .inl ⟨by omega, fun y hy => hz y (List.mem_cons_of_mem z hy)⟩
      · have first := hz z List.mem_cons_self
        exact .inr ⟨by omega, fun y hy => hz y (List.mem_cons_of_mem z hy)⟩
    -- Once a limit is reached, what is left to add points beyond it and changes nothing.
    rw [List.foldl_cons, List.sum_cons, ih (fits_addWithin a z) later]
    exact nearest_add_nearest ha now

theorem foldl_addWithin_of_fits {zs : List Int} {a : Int} (each : ∀ z ∈ zs, Fits z)
    (sums : ∀ n, Fits (a + (zs.take n).sum)) : zs.foldl addWithin a = a + zs.sum := by
  induction zs generalizing a with
  | nil => exact (Int.add_zero a).symm
  | cons z rest ih =>
    have first : addWithin a z = a + z := by
      have sum := sums 1
      rw [List.take_succ_cons, List.take_zero, List.sum_singleton] at sum
      rw [addWithin, nearest_of_fits (each z List.mem_cons_self), nearest_of_fits sum]
    have later := ih (a := a + z) (fun y hy => each y (List.mem_cons_of_mem z hy)) ?_
    · rw [List.foldl_cons, List.sum_cons, first, later, Int.add_assoc]
    · intro n
      have sum := sums (n + 1)
      rwa [List.take_succ_cons, List.sum_cons, ← Int.add_assoc] at sum

namespace Holding

theorem toInt_worth (h : Holding) (price : Int64) :
    (h.worth price).toInt = nearest (h.units.toInt * price.toInt) := toInt_clamp _

end Holding

namespace Balance

/-- What holdings are worth at a price, one by one and without any limit. -/
def products (holdings : List Holding) (price : Int64) : List Int :=
  holdings.map fun h => h.units.toInt * price.toInt

section Totals

variable (holdings : List Holding) (price : Int64) (breakdown : Bool)

theorem total_foldl_addHolding (b : Balance) :
    (holdings.foldl (addHolding price breakdown) b).total.toInt =
      (products holdings price).foldl addWithin b.total.toInt := by
  induction holdings generalizing b with
  | nil => rfl
  | cons h rest ih =>
    have step : (addHolding price breakdown b h).total.toInt =
        addWithin b.total.toInt (h.units.toInt * price.toInt) := by
      unfold addHolding addWithin
      rw [toInt_clamp, Holding.toInt_worth]
    rw [List.foldl_cons, ih, step]
    rfl

theorem toInt_total : (ofHoldings holdings price breakdown).total.toInt =
    (products holdings price).foldl addWithin 0 :=
  total_foldl_addHolding holdings price breakdown ⟨0, []⟩

theorem total_ofHoldings (breakdown' : Bool) : (ofHoldings holdings price breakdown').total =
    (ofHoldings holdings price breakdown).total := by
  rw [← Int64.toInt_inj, toInt_total, toInt_total]

theorem addresses_foldl_addHolding (b : Balance) :
    (holdings.foldl (addHolding price breakdown) b).addresses = b.addresses ++
      if breakdown then holdings.map fun h => ⟨h.address, h.worth price⟩ else [] := by
  induction holdings generalizing b with
  | nil => cases breakdown <;> exact (List.append_nil _).symm
  | cons h rest ih =>
    rw [List.foldl_cons, ih]
    cases breakdown with
    | false => rfl
    | true => exact List.append_assoc _ _ _

theorem addresses_ofHoldings : (ofHoldings holdings price breakdown).addresses =
    if breakdown then holdings.map fun h => ⟨h.address, h.worth price⟩ else [] :=
  addresses_foldl_addHolding holdings price breakdown ⟨0, []⟩

variable {holdings}

theorem oneSided_products (units : OneSided (holdings.map fun h => h.units.toInt)) :
    OneSided (products holdings price) := by
  have sided := units.mul price.toInt
  rwa [List.map_map] at sided

theorem toInt_total_of_oneSided (units : OneSided (holdings.map fun h => h.units.toInt)) :
    (ofHoldings holdings price breakdown).total.toInt =
      nearest (products holdings price).sum := by
  have zero : Fits 0 := ⟨by decide, by decide⟩
  rw [toInt_total, foldl_addWithin_of_oneSided zero, Int.zero_add]
  exact (oneSided_products price units).imp (⟨Int.le_refl 0, ·⟩) (⟨Int.le_refl 0, ·⟩)

theorem sum_products_mul {price price' : Int64} {k : Int}
    (scaled : price'.toInt = k * price.toInt) :
    (products holdings price').sum = k * (products holdings price).sum := by
  unfold products
  rw [← List.sum_map_mul_left, scaled]
  congr 1
  refine List.map_congr_left fun h _ => ?_
  exact Int.mul_left_comm _ _ _

end Totals

/-- Holdings of one sign come to the exact sum held within the range, in whatever order they stand
and in proportion to the price; holdings of both signs come to it as long as no product and no sum
on the way falls outside. A row for each holding is held within the range by itself. -/
theorem totals_near_the_limits (holdings : List Holding) (price : Int64) :
    (OneSided (holdings.map fun h => h.units.toInt) → ∀ breakdown,
      (ofHoldings holdings price breakdown).total.toInt =
        nearest (products holdings price).sum ∧
      (∀ others, holdings.Perm others →
        (ofHoldings others price breakdown).total =
          (ofHoldings holdings price breakdown).total) ∧
      ∀ (k : Int) (price' : Int64), price'.toInt = k * price.toInt →
        Fits (products holdings price).sum → Fits (products holdings price').sum →
        (ofHoldings holdings price' breakdown).total.toInt =
          k * (ofHoldings holdings price breakdown).total.toInt) ∧
    ((∀ z ∈ products holdings price, Fits z) →
      (∀ n, Fits ((products holdings price).take n).sum) → ∀ breakdown,
      (ofHoldings holdings price breakdown).total.toInt = (products holdings price).sum) ∧
    (∀ breakdown,
      (ofHoldings holdings price breakdown).addresses.map
          (fun row => (row.address, row.balance.toInt)) =
        if breakdown then
          holdings.map fun h => (h.address, nearest (h.units.toInt * price.toInt))
        else []) ∧
    ∀ breakdown breakdown', (ofHoldings holdings price breakdown').total =
      (ofHoldings holdings price breakdown).total := by
  refine ⟨fun units breakdown => ⟨?_, ?_, ?_⟩, ?_, ?_, ?_⟩
  · exact toInt_total_of_oneSided price breakdown units
  · intro others reordered
    have units' := units.perm (reordered.map fun h => h.units.toInt)
    have sums := (reordered.map fun h => h.units.toInt * price.toInt).sum_eq
    rw [← Int64.toInt_inj, toInt_total_of_oneSided price breakdown units,
      toInt_total_of_oneSided price breakdown units']
    exact congrArg nearest sums.symm
  · intro k price' scaled fits fits'
    rw [toInt_total_of_oneSided price breakdown units,
      toInt_total_of_oneSided price' breakdown units, nearest_of_fits fits, nearest_of_fits fits']
    exact sum_products_mul scaled
  · intro each sums breakdown
    have exact_sum := foldl_addWithin_of_fits (a := 0) each (by simpa using sums)
    rw [toInt_total, exact_sum, Int.zero_add]
  · intro breakdown
    rw [addresses_ofHoldings]
    cases breakdown with
    | false => rfl
    | true => simp [Holding.toInt_worth]
  · exact fun breakdown breakdown' => total_ofHoldings holdings price breakdown breakdown'

/-- With both signs a limit that was reached may be left again, and the total is not exact. -/
example : (ofHoldings [⟨"u", "a", Int64.maxValue⟩, ⟨"u", "b", 1⟩, ⟨"u", "c", -1⟩] 1 false).total =
    Int64.maxValue - 1 := by
  decide

/-- Twice the greatest number of units, and one unit more. -/
def overfull : List Holding :=
  [⟨"u", "a", Int64.maxValue⟩, ⟨"u", "b", Int64.maxValue⟩, ⟨"u", "c", 1⟩]

def few : List Holding := [⟨"u", "a", 3⟩, ⟨"u", "b", 5⟩]

def bothSigns : List Holding := [⟨"u", "a", -3⟩, ⟨"u", "b", 5⟩]

theorem overfull_stops_at_the_limit :
    OneSided (overfull.map fun h => h.units.toInt) ∧
      (ofHoldings overfull 1 true).total.toInt = nearest 18446744073709551615 ∧
      (ofHoldings overfull.reverse 1 true).total = (ofHoldings overfull 1 true).total ∧
      (ofHoldings few (-20) true).total.toInt = -2 * (ofHoldings few 10 true).total.toInt ∧
      (ofHoldings bothSigns 10 false).total.toInt = 20 := by
  have units : OneSided (overfull.map fun h => h.units.toInt) := .inl (by decide)
  have units' : OneSided (few.map fun h => h.units.toInt) := .inl (by decide)
  have each : ∀ z ∈ products bothSigns 10, Fits z := by
    intro z hz
    have range : z = -30 ∨ z = 50 := by simpa [products, bothSigns] using hz
    rcases range with rfl | rfl <;> exact ⟨by decide, by decide⟩
  have sums : ∀ n, Fits ((products bothSigns 10).take n).sum
    | 0 | 1 => ⟨by decide, by decide⟩
    | n + 2 => by
      have whole : (products bothSigns 10).take (n + 2) = products bothSigns 10 :=
        List.take_of_length_le (Nat.le_add_left 2 n)
      rw [whole]
      exact ⟨by decide, by decide⟩
  obtain ⟨total, reordered, -⟩ := (totals_near_the_limits overfull 1).1 units true
  obtain ⟨-, -, scaled⟩ := (totals_near_the_limits few 10).1 units' true
  refine ⟨units, total, reordered _ (List.reverse_perm _).symm, ?_, ?_⟩
  · exact scaled (-2) (-20) rfl ⟨by decide, by decide⟩ ⟨by decide, by decide⟩
  · exact (totals_near_the_limits bothSigns 10).2.1 each sums false

end Balance

end WalletWatch
