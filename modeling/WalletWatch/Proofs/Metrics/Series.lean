import WalletWatch.Metrics

set_option autoImplicit false

/-!
# Series of a metric

A change to one series is the change of its value, and no other series sees it. Labels name the same
series if they are the same once they are sorted.
-/

namespace WalletWatch

namespace Family

variable {ν : Type} [Add ν] [OfNat ν 0]

/-- The value that a list of series has for sorted labels. -/
def valueIn (series : List (Labels × ν)) (key : Labels) : ν :=
  ((series.find? (fun s => s.1 = key)).map Prod.snd).getD 0

theorem valueIn_addTo (zero_add : ∀ v : ν, 0 + v = v) (key other : Labels) (delta : ν)
    (series : List (Labels × ν)) :
    valueIn (addTo key delta series) other =
      if key = other then valueIn series other + delta else valueIn series other := by
  induction series with
  | nil =>
    by_cases h : key = other
    · simp [addTo, valueIn, h, zero_add]
    · simp [addTo, valueIn, h]
  | cons s rest ih =>
    obtain ⟨k, v⟩ := s
    unfold addTo
    split
    · rename_i same
      subst same
      by_cases h : k = other
      · simp [valueIn, h]
      · simp [valueIn, h]
    · rename_i differs
      by_cases h : k = other
      · have hk : key ≠ other := fun e => differs (h.trans e.symm)
        simp [valueIn, h, hk]
      · have skip (l : List (Labels × ν)) : valueIn ((k, v) :: l) other = valueIn l other := by
          simp [valueIn, h]
        rw [skip, skip, ih]

/-- Adding to one series changes the values asked for by its labels, in any order, and no others. -/
theorem get_add (zero_add : ∀ v : ν, 0 + v = v) (f : Family ν) (labels other : Labels) (delta : ν) :
    (f.add labels delta).get other =
      if labels.sorted = other.sorted then f.get other + delta else f.get other :=
  valueIn_addTo zero_add labels.sorted other.sorted delta f.series

end Family

namespace Labels

@[simp] theorem sorted_singleton (l : String × String) : sorted [l] = [l] :=
  List.mergeSort_singleton l

end Labels

namespace Metrics

theorem get_validated (m : Metrics) (authorized asked : Bool) :
    (m.validated authorized).validations.get (outcome asked) =
      m.validations.get (outcome asked) + if authorized = asked then 1 else 0 := by
  have h := Family.get_add UInt64.zero_add m.validations (outcome authorized) (outcome asked) 1
  have same : (outcome authorized).sorted = (outcome asked).sorted ↔ authorized = asked := by
    cases authorized <;> cases asked <;> simp [outcome]
  change (m.validations.add (outcome authorized) 1).get (outcome asked) = _
  rw [h]
  by_cases e : authorized = asked
  · rw [if_pos (same.mpr e), if_pos e]
  · rw [if_neg (fun h => e (same.mp h)), if_neg e, UInt64.add_zero]

theorem activeStreams_opened (m : Metrics) (service asked : String) :
    (m.opened service).activeStreams asked =
      m.activeStreams asked + if service = asked then 1 else 0 := by
  refine (Family.get_add Int64.zero_add m.active (labelsOf service) (labelsOf asked) 1).trans ?_
  by_cases h : service = asked
  · simp [labelsOf, activeStreams, h]
  · simp [labelsOf, activeStreams, h]

theorem activeStreams_closed (m : Metrics) (service asked : String) :
    (m.closed service).activeStreams asked =
      m.activeStreams asked + if service = asked then -1 else 0 := by
  refine (Family.get_add Int64.zero_add m.active (labelsOf service) (labelsOf asked) (-1)).trans ?_
  by_cases h : service = asked
  · simp [labelsOf, activeStreams, h]
  · simp [labelsOf, activeStreams, h]

/-- The updates of a service that were counted. -/
def updatesOf (m : Metrics) (service : String) : UInt64 := m.updates.get (labelsOf service)

theorem updatesOf_updated (m : Metrics) (service asked : String) :
    (m.updated service).updatesOf asked = m.updatesOf asked + if service = asked then 1 else 0 := by
  refine (Family.get_add UInt64.zero_add m.updates (labelsOf service) (labelsOf asked) 1).trans ?_
  by_cases h : service = asked
  · simp [labelsOf, updatesOf, h]
  · simp [labelsOf, updatesOf, h]

end Metrics

end WalletWatch
