import Mathlib.Data.List.Nodup
import WalletWatch.Metrics.Session
import WalletWatch.Proofs.Metrics.Labels

set_option autoImplicit false

/-!
# The series that there are

A family lists each series once, under sorted labels. Then the list and the values that are asked
for tell the same, and the order of the list does not matter.
-/

namespace WalletWatch

namespace Family

variable {ν : Type}

section Values

variable [OfNat ν 0] {series : List (Labels × ν)} {key : Labels}

theorem valueIn_of_mem (once : (series.map Prod.fst).Nodup) {v : ν} (mem : (key, v) ∈ series) :
    valueIn series key = v := by
  induction series with
  | nil => cases mem
  | cons s rest ih =>
    obtain ⟨fresh, once⟩ := List.nodup_cons.mp once
    rcases List.mem_cons.mp mem with rfl | mem
    · simp [valueIn]
    · have apart : s.1 ≠ key := fun same => fresh (same ▸ List.mem_map_of_mem mem)
      rw [← ih once mem]
      simp [valueIn, apart]

theorem valueIn_of_notMem (absent : key ∉ series.map Prod.fst) : valueIn series key = 0 := by
  have none : series.find? (fun s => s.1 = key) = none := by
    refine List.find?_eq_none.mpr fun s mem => ?_
    have other : s.1 ≠ key := fun same => absent (same ▸ List.mem_map_of_mem mem)
    simpa using other
  rw [valueIn, none]
  rfl

theorem mem_iff_valueIn (once : (series.map Prod.fst).Nodup) {v : ν} :
    (key, v) ∈ series ↔ key ∈ series.map Prod.fst ∧ valueIn series key = v := by
  constructor
  · intro mem
    exact ⟨List.mem_map_of_mem mem, valueIn_of_mem once mem⟩
  · rintro ⟨mem, rfl⟩
    obtain ⟨⟨key, v⟩, entry, rfl⟩ := List.mem_map.mp mem
    rwa [valueIn_of_mem once entry]

theorem valueIn_perm {other : List (Labels × ν)} (once : (series.map Prod.fst).Nodup)
    (perm : series.Perm other) : valueIn series key = valueIn other key := by
  have keys := perm.map Prod.fst
  by_cases mem : key ∈ series.map Prod.fst
  · obtain ⟨⟨key, v⟩, entry, rfl⟩ := List.mem_map.mp mem
    rw [valueIn_of_mem once entry,
      valueIn_of_mem (keys.nodup_iff.mp once) (perm.mem_iff.mp entry)]
  · rw [valueIn_of_notMem mem, valueIn_of_notMem (mem ∘ keys.mem_iff.mpr)]

end Values

section Adding

variable [Add ν] (key : Labels) (delta : ν) (series : List (Labels × ν))

/-- A series that is added to keeps its place; a new one comes last. -/
theorem map_fst_addTo : (addTo key delta series).map Prod.fst =
    if key ∈ series.map Prod.fst then series.map Prod.fst else series.map Prod.fst ++ [key] := by
  induction series with
  | nil => rfl
  | cons s rest ih =>
    obtain ⟨k, v⟩ := s
    by_cases same : k = key
    · simp [addTo, same]
    · have apart : key ≠ k := Ne.symm same
      rw [addTo, if_neg same, List.map_cons, ih]
      by_cases mem : key ∈ rest.map Prod.fst
      · simp [mem]
      · simp [mem, apart]

theorem mem_addTo_of_ne {entry : Labels × ν} (other : key ≠ entry.1) :
    entry ∈ addTo key delta series ↔ entry ∈ series := by
  induction series with
  | nil =>
    have apart : entry ≠ (key, delta) := fun same => other (congrArg Prod.fst same).symm
    simp [addTo, apart]
  | cons s rest ih =>
    obtain ⟨k, v⟩ := s
    by_cases same : k = key
    · subst same
      have old : entry ≠ (k, v) := fun same => other (congrArg Prod.fst same).symm
      have new : entry ≠ (k, v + delta) := fun same => other (congrArg Prod.fst same).symm
      simp [addTo, old, new]
    · rw [addTo, if_neg same, List.mem_cons, List.mem_cons, ih]

end Adding

/-- The series with their values read as integers. -/
def read (f : Family ν) (toInt : ν → Int) : List (Labels × Int) :=
  f.series.map fun s => (s.1, toInt s.2)

section Read

variable (f : Family ν) (toInt : ν → Int)

theorem map_fst_read : (f.read toInt).map Prod.fst = f.series.map Prod.fst := by
  rw [read, List.map_map]
  rfl

theorem valueIn_read [OfNat ν 0] (zero : toInt 0 = 0) (key : Labels) :
    valueIn (f.read toInt) key = toInt (valueIn f.series key) := by
  rw [valueIn, valueIn, read, List.find?_map]
  change ((f.series.find? fun s => s.1 = key).map _ |>.map _).getD 0 = _
  cases f.series.find? fun s => s.1 = key with
  | none => exact zero.symm
  | some s => rfl

variable [Add ν] (labels : Labels) (delta : ν)

theorem map_fst_read_add : ((f.add labels delta).read toInt).map Prod.fst =
    if labels.sorted ∈ (f.read toInt).map Prod.fst then (f.read toInt).map Prod.fst
    else (f.read toInt).map Prod.fst ++ [labels.sorted] := by
  rw [map_fst_read, map_fst_read]
  exact map_fst_addTo labels.sorted delta f.series

theorem mem_read_add_of_ne {entry : Labels × Int} (other : labels.sorted ≠ entry.1) :
    entry ∈ (f.add labels delta).read toInt ↔ entry ∈ f.read toInt := by
  rw [read, read, List.mem_map, List.mem_map]
  constructor
  · rintro ⟨s, mem, rfl⟩
    have other : labels.sorted ≠ s.1 := other
    exact ⟨s, (mem_addTo_of_ne _ _ _ other).mp mem, rfl⟩
  · rintro ⟨s, mem, rfl⟩
    have other : labels.sorted ≠ s.1 := other
    exact ⟨s, (mem_addTo_of_ne _ _ _ other).mpr mem, rfl⟩

end Read

end Family

namespace Metrics

/-- The series of a meter with their values. -/
def series (m : Metrics) : Meter → List (Labels × Int)
  | .validations => m.validations.read fun v => v.toNat
  | .active => m.active.read Int64.toInt
  | .updates => m.updates.read fun v => v.toNat

/-- The labels of the series of a meter. -/
def keys (m : Metrics) (meter : Meter) : List Labels := (m.series meter).map Prod.fst

/-- Metrics as they come up: each family lists each series once, under sorted labels. The order of
the series is left open. -/
structure Proper (m : Metrics) : Prop where
  sorted : ∀ meter, ∀ key ∈ m.keys meter, key.sorted = key
  once : ∀ meter, (m.keys meter).Nodup

theorem keys_empty (meter : Meter) : ({} : Metrics).keys meter = [] := by
  cases meter <;> rfl

theorem proper_empty : ({} : Metrics).Proper where
  sorted meter key mem := by
    rw [keys_empty] at mem
    cases mem
  once meter := by
    rw [keys_empty]
    exact List.nodup_nil

theorem get_eq_valueIn (m : Metrics) (labels : Labels) (meter : Meter) :
    MetricsSession.get m labels meter = Family.valueIn (m.series meter) labels.sorted := by
  cases meter
  · exact (m.validations.valueIn_read (fun v => v.toNat) rfl labels.sorted).symm
  · exact (m.active.valueIn_read Int64.toInt rfl labels.sorted).symm
  · exact (m.updates.valueIn_read (fun v => v.toNat) rfl labels.sorted).symm

section

variable {m m' : Metrics} {meter : Meter}

theorem Proper.mem_series_iff (h : m.Proper) {key : Labels} {n : Int} :
    (key, n) ∈ m.series meter ↔ key ∈ m.keys meter ∧ MetricsSession.get m key meter = n := by
  rw [Family.mem_iff_valueIn (h.once meter)]
  refine and_congr_right fun mem => ?_
  rw [get_eq_valueIn, h.sorted meter key mem]

theorem Proper.nodup_series (h : m.Proper) : (m.series meter).Nodup :=
  List.Nodup.of_map Prod.fst (h.once meter)

/-- Series listed in another order are as proper, and answer the same. -/
theorem Proper.of_perm (h : m.Proper) (same : ∀ meter, (m.series meter).Perm (m'.series meter)) :
    m'.Proper where
  sorted meter key mem := h.sorted meter key (((same meter).map Prod.fst).mem_iff.mpr mem)
  once meter := ((same meter).map Prod.fst).nodup_iff.mp (h.once meter)

theorem Proper.get_eq_of_perm (h : m.Proper) (same : (m.series meter).Perm (m'.series meter))
    (labels : Labels) : MetricsSession.get m labels meter = MetricsSession.get m' labels meter := by
  rw [get_eq_valueIn, get_eq_valueIn]
  exact Family.valueIn_perm (h.once meter) same

theorem Proper.pairwise_series (h : m.Proper) (meter : Meter) :
    (m.series meter).Pairwise fun s t => ¬ s.1.Perm t.1 := by
  have once : (m.series meter).Pairwise fun s t => s.1 ≠ t.1 := List.pairwise_map.mp (h.once meter)
  refine once.imp_of_mem fun left right apart perm => apart ?_
  rw [← h.sorted meter _ (List.mem_map_of_mem left), ← h.sorted meter _ (List.mem_map_of_mem right)]
  exact Labels.sorted_eq_sorted_iff.mpr perm

end

end Metrics

end WalletWatch
