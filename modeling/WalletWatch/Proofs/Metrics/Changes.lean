import Mathlib
import WalletWatch.Proofs.Metrics.Families

set_option autoImplicit false

/-!
# Metrics by the changes made to them

A series has the sum of what was added to it under its labels, in whatever order these were given,
and nothing else: the order of the changes leaves no trace but the order of the series.
-/

namespace WalletWatch

namespace Meter

/-- A sum as a meter keeps it in 64 bits. Open streams can be negative, what is counted cannot. -/
def wrap : Meter → Int → Int
  | .active, n => n.bmod Int64.size
  | .validations, n | .updates, n => n % UInt64.size

theorem wrap_wrap_add (meter : Meter) (a b : Int) :
    meter.wrap (meter.wrap a + b) = meter.wrap (a + b) := by
  cases meter
  · exact Int.emod_add_emod ..
  · exact Int.bmod_add_bmod
  · exact Int.emod_add_emod ..

theorem wrap_zero (meter : Meter) : meter.wrap 0 = 0 := by
  cases meter <;> rfl

end Meter

namespace Metrics

/-- A change made to metrics: a series is added to, or a stream of a service opens, is pushed into
or closes. -/
inductive Change where
  | add (meter : Meter) (labels : Labels) (delta : Int)
  | opened (service : String)
  | updated (service : String)
  | closed (service : String)
  deriving DecidableEq

namespace Change

/-- The meter that a change is to. -/
def meter : Change → Meter
  | add meter _ _ => meter
  | opened _ | closed _ => .active
  | updated _ => .updates

/-- The labels that are given with a change. -/
def labels : Change → Labels
  | add _ labels _ => labels
  | opened service | updated service | closed service => labelsOf service

def delta : Change → Int
  | add _ _ delta => delta
  | opened _ | updated _ => 1
  | closed _ => -1

/-- A change is to the series of some labels, which may be given in another order. -/
def IsTo (c : Change) (meter : Meter) (labels : Labels) : Prop :=
  c.meter = meter ∧ c.labels.Perm labels

instance (c : Change) (meter : Meter) (labels : Labels) : Decidable (c.IsTo meter labels) :=
  inferInstanceAs (Decidable (_ ∧ _))

end Change

/-- Metrics after a change. -/
def change (m : Metrics) : Change → Metrics
  | .add meter labels delta => MetricsSession.add m labels delta meter
  | .opened service => m.opened service
  | .updated service => m.updated service
  | .closed service => m.closed service

/-- Metrics after some changes. -/
def changed (m : Metrics) (l : List Change) : Metrics := l.foldl change m

theorem change_eq (m : Metrics) (c : Change) :
    m.change c = MetricsSession.add m c.labels c.delta c.meter := by
  cases c <;> rfl

/-- All that some changes add to the series of some labels. -/
def total (l : List Change) (meter : Meter) (labels : Labels) : Int :=
  ((l.filter (·.IsTo meter labels)).map Change.delta).sum

/-! ## One change -/

theorem toNat_add_ofInt (v : UInt64) (n : Int) :
    ((v + UInt64.ofInt n).toNat : Int) = (v.toNat + n) % UInt64.size := by
  rw [UInt64.toNat_add, UInt64.ofInt, UInt64.toNat_ofNat']
  change _ = (v.toNat + n) % 18446744073709551616
  omega

theorem toInt_add_ofInt (v : Int64) (n : Int) :
    (v + Int64.ofInt n).toInt = (v.toInt + n).bmod Int64.size := by
  rw [Int64.toInt_add, Int64.toInt_ofInt]
  exact Int.add_bmod_bmod

theorem toNat_get_add (f : Family UInt64) (given labels : Labels) (n : Int) :
    (((f.add given (UInt64.ofInt n)).get labels).toNat : Int) =
      if given.Perm labels then ((f.get labels).toNat + n) % UInt64.size
      else (f.get labels).toNat := by
  rw [Family.get_add UInt64.zero_add, if_congr Labels.sorted_eq_sorted_iff rfl rfl]
  split
  · exact toNat_add_ofInt ..
  · rfl

theorem toInt_get_add (f : Family Int64) (given labels : Labels) (n : Int) :
    ((f.add given (Int64.ofInt n)).get labels).toInt =
      if given.Perm labels then ((f.get labels).toInt + n).bmod Int64.size
      else (f.get labels).toInt := by
  rw [Family.get_add Int64.zero_add, if_congr Labels.sorted_eq_sorted_iff rfl rfl]
  split
  · exact toInt_add_ofInt ..
  · rfl

theorem get_add_of_same (m : Metrics) (meter : Meter) (given labels : Labels) (n : Int) :
    MetricsSession.get (MetricsSession.add m given n meter) labels meter =
      if given.Perm labels then meter.wrap (MetricsSession.get m labels meter + n)
      else MetricsSession.get m labels meter := by
  cases meter
  · exact toNat_get_add ..
  · exact toInt_get_add ..
  · exact toNat_get_add ..

theorem add_of_ne (m : Metrics) {meter asked : Meter} (other : meter ≠ asked)
    (given labels : Labels) (n : Int) :
    (MetricsSession.add m given n meter).series asked = m.series asked ∧
    MetricsSession.get (MetricsSession.add m given n meter) labels asked =
      MetricsSession.get m labels asked := by
  cases asked with
  | validations =>
    cases meter with
    | validations => exact absurd rfl other
    | active | updates => exact ⟨rfl, rfl⟩
  | active =>
    cases meter with
    | active => exact absurd rfl other
    | validations | updates => exact ⟨rfl, rfl⟩
  | updates =>
    cases meter with
    | updates => exact absurd rfl other
    | validations | active => exact ⟨rfl, rfl⟩

theorem wrap_get (m : Metrics) (labels : Labels) (meter : Meter) :
    meter.wrap (MetricsSession.get m labels meter) = MetricsSession.get m labels meter := by
  have counted (v : UInt64) : (v.toNat : Int) % UInt64.size = v.toNat :=
    Int.emod_eq_of_lt (Int.natCast_nonneg _) (Int.ofNat_lt.mpr v.toNat_lt)
  cases meter
  · exact counted _
  · exact Int64.toInt_bmod_size _
  · exact counted _

theorem get_change (m : Metrics) (c : Change) (meter : Meter) (labels : Labels) :
    MetricsSession.get (m.change c) labels meter =
      meter.wrap
        (MetricsSession.get m labels meter + if c.IsTo meter labels then c.delta else 0) := by
  rw [change_eq]
  by_cases same : c.meter = meter
  · subst same
    rw [get_add_of_same]
    by_cases perm : c.labels.Perm labels
    · rw [if_pos perm, if_pos ⟨rfl, perm⟩]
    · rw [if_neg perm, if_neg fun hit => perm hit.2, Int.add_zero, wrap_get]
  · rw [(add_of_ne m same _ _ _).2, if_neg fun hit => same hit.1, Int.add_zero, wrap_get]

/-! ## Some changes -/

theorem total_cons (c : Change) (l : List Change) (meter : Meter) (labels : Labels) :
    total (c :: l) meter labels =
      (if c.IsTo meter labels then c.delta else 0) + total l meter labels := by
  unfold total
  by_cases hit : c.IsTo meter labels
  · rw [List.filter_cons_of_pos (by simpa using hit), if_pos hit]
    rfl
  · rw [List.filter_cons_of_neg (by simpa using hit), if_neg hit, Int.zero_add]

theorem total_perm {l l' : List Change} (perm : l.Perm l') (meter : Meter) (labels : Labels) :
    total l meter labels = total l' meter labels :=
  ((perm.filter _).map _).sum_eq

theorem total_of_untouched {l : List Change} {meter : Meter} {labels : Labels}
    (untouched : ∀ c ∈ l, ¬ c.IsTo meter labels) : total l meter labels = 0 := by
  have none : l.filter (·.IsTo meter labels) = [] :=
    List.filter_eq_nil_iff.mpr fun c mem => by simpa using untouched c mem
  rw [total, none]
  rfl

theorem get_changed (m : Metrics) (l : List Change) (meter : Meter) (labels : Labels) :
    MetricsSession.get (m.changed l) labels meter =
      meter.wrap (MetricsSession.get m labels meter + total l meter labels) := by
  induction l generalizing m with
  | nil =>
    change _ = meter.wrap (_ + 0)
    rw [Int.add_zero, wrap_get]
    rfl
  | cons c l ih =>
    change MetricsSession.get ((m.change c).changed l) labels meter = _
    rw [ih, get_change, Meter.wrap_wrap_add, total_cons, Int.add_assoc]

theorem get_empty (labels : Labels) (meter : Meter) :
    MetricsSession.get {} labels meter = 0 := by
  cases meter <;> rfl

/-! ## The list of series -/

/-- A series that is added to keeps its place; a new one comes last. -/
theorem keys_add (m : Metrics) (given : Labels) (n : Int) (meter : Meter) :
    (MetricsSession.add m given n meter).keys meter =
      if given.sorted ∈ m.keys meter then m.keys meter else m.keys meter ++ [given.sorted] := by
  cases meter
  · exact m.validations.map_fst_read_add (fun v => v.toNat) given _
  · exact m.active.map_fst_read_add Int64.toInt given _
  · exact m.updates.map_fst_read_add (fun v => v.toNat) given _

theorem mem_keys_add (m : Metrics) (given : Labels) (n : Int) (meter asked : Meter) (key : Labels) :
    key ∈ (MetricsSession.add m given n meter).keys asked ↔
      key ∈ m.keys asked ∨ meter = asked ∧ given.sorted = key := by
  by_cases same : meter = asked
  · subst same
    rw [and_iff_right rfl, keys_add]
    split
    · next mem =>
      refine ⟨.inl, ?_⟩
      rintro (mem | rfl)
      · exact mem
      · exact mem
    · rw [List.mem_append, List.mem_singleton, eq_comm]
  · rw [keys, (add_of_ne m same given key n).1, keys]
    simp [same]

theorem mem_series_add (m : Metrics) (given : Labels) (n : Int) (meter asked : Meter)
    {entry : Labels × Int} (untouched : ¬ (meter = asked ∧ given.Perm entry.1)) :
    entry ∈ (MetricsSession.add m given n meter).series asked ↔ entry ∈ m.series asked := by
  by_cases same : meter = asked
  · subst same
    have other : given.sorted ≠ entry.1 := fun kept =>
      untouched ⟨rfl, kept ▸ (Labels.sorted_perm given).symm⟩
    unfold series
    cases meter <;> exact Family.mem_read_add_of_ne _ _ _ _ other
  · rw [(add_of_ne m same given entry.1 n).1]

theorem mem_keys_changed (m : Metrics) (l : List Change) (meter : Meter) (key : Labels) :
    key ∈ (m.changed l).keys meter ↔
      key ∈ m.keys meter ∨ ∃ c ∈ l, c.meter = meter ∧ c.labels.sorted = key := by
  induction l generalizing m with
  | nil => simp [changed]
  | cons c l ih =>
    change key ∈ ((m.change c).changed l).keys meter ↔ _
    rw [ih, change_eq, mem_keys_add, or_assoc]
    simp only [List.exists_mem_cons_iff]

theorem Proper.add {m : Metrics} (h : m.Proper) (given : Labels) (n : Int) (meter : Meter) :
    (MetricsSession.add m given n meter).Proper where
  sorted asked key mem := by
    rcases (mem_keys_add m given n meter asked key).mp mem with old | ⟨-, rfl⟩
    · exact h.sorted asked key old
    · exact Labels.sorted_sorted given
  once asked := by
    by_cases same : meter = asked
    · subst same
      rw [keys_add]
      split
      · exact h.once meter
      · next fresh => exact List.concat_eq_append ▸ (h.once meter).concat fresh
    · rw [keys, (add_of_ne m same given given n).1]
      exact h.once asked

theorem Proper.changed {m : Metrics} (h : m.Proper) (l : List Change) : (m.changed l).Proper := by
  induction l generalizing m with
  | nil => exact h
  | cons c l ih =>
    refine ih ?_
    rw [change_eq]
    exact h.add ..

theorem mem_series_changed_of_untouched (m : Metrics) {l : List Change} {meter : Meter}
    {entry : Labels × Int} (untouched : ∀ c ∈ l, ¬ c.IsTo meter entry.1) :
    entry ∈ (m.changed l).series meter ↔ entry ∈ m.series meter := by
  induction l generalizing m with
  | nil => rfl
  | cons c l ih =>
    obtain ⟨first, rest⟩ := List.forall_mem_cons.mp untouched
    refine (ih (m.change c) rest).trans ?_
    rw [change_eq]
    exact mem_series_add m c.labels c.delta c.meter meter first

/-- Changes in another order make the same series, with the same values. -/
theorem series_changed_perm {m : Metrics} (h : m.Proper) {l l' : List Change} (perm : l.Perm l')
    (meter : Meter) : ((m.changed l).series meter).Perm ((m.changed l').series meter) := by
  refine (List.perm_ext_iff_of_nodup (h.changed l).nodup_series (h.changed l').nodup_series).mpr ?_
  rintro ⟨key, n⟩
  rw [(h.changed l).mem_series_iff, (h.changed l').mem_series_iff, mem_keys_changed,
    mem_keys_changed, get_changed, get_changed, total_perm perm]
  simp only [perm.mem_iff]

/-- Some changes add up, each to the series that its labels name in any order and to no other. -/
structure AddUp (l : List Change) : Prop where
  values : ∀ (m : Metrics) (meter : Meter) (labels : Labels),
    MetricsSession.get (m.changed l) labels meter =
      meter.wrap (MetricsSession.get m labels meter + total l meter labels)
  /-- A series that no change is to stays as it was, and none comes up. -/
  others : ∀ (m : Metrics) (meter : Meter) (entry : Labels × Int),
    (∀ c ∈ l, ¬ c.IsTo meter entry.1) →
      (entry ∈ (m.changed l).series meter ↔ entry ∈ m.series meter)
  fresh : ∀ (meter : Meter) (labels : Labels),
    MetricsSession.get (changed {} l) labels meter = meter.wrap (total l meter labels)
  silent : ∀ (meter : Meter) (labels : Labels), (∀ c ∈ l, ¬ c.IsTo meter labels) →
    MetricsSession.get (changed {} l) labels meter = 0
  reordered : ∀ l', l.Perm l' → ∀ (m : Metrics) (meter : Meter) (labels : Labels),
    MetricsSession.get (m.changed l') labels meter = MetricsSession.get (m.changed l) labels meter
  listed : ∀ l', l.Perm l' → ∀ (m : Metrics), m.Proper → ∀ meter,
    ((m.changed l').series meter).Perm ((m.changed l).series meter)

theorem addUp (l : List Change) : AddUp l where
  values m := get_changed m l
  others m _ _ untouched := mem_series_changed_of_untouched m untouched
  fresh meter labels := by
    rw [get_changed, get_empty, Int.zero_add]
  silent meter labels untouched := by
    rw [get_changed, get_empty, total_of_untouched untouched]
    exact meter.wrap_zero
  reordered l' perm m meter labels := by
    rw [get_changed, get_changed, total_perm perm]
  listed l' perm m proper meter := (series_changed_perm proper perm meter).symm

end Metrics

end WalletWatch
