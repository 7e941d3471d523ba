import Mathlib.Data.List.Chain
import WalletWatch.Stream.Ticker

set_option autoImplicit false

/-!
# Ticks

The ticks of one ticker, taken at any instants at which they are due. However late some of them are
taken, none of the later ones comes early and no two of them come together.
-/

namespace WalletWatch

namespace Ticker

variable {t u : Ticker} {instants : List Millis}

/-- What it means to take a tick: it is due, and the next one is due a period behind the instant at
which this one was due or, where it is late, was taken. -/
theorem take?_eq_some_iff {now : Millis} : t.take? now = some u ↔ t.due ≤ now ∧
    u.period = t.period ∧
    u.due = (if now ≤ t.due + tolerance then t.due else now) + t.period := by
  obtain ⟨due, period⟩ := u
  unfold take?
  by_cases early : now < t.due
  · simp [early]
  · have ready : t.due ≤ now := Nat.le_of_not_lt early
    by_cases late : now ≤ t.due + tolerance
    · simp [early, late, ready, eq_comm, and_comm]
    · simp [early, late, ready, eq_comm, and_comm]

theorem take?_eq_none_iff {now : Millis} : t.take? now = none ↔ now < t.due := by
  unfold take?
  split_ifs <;> simp [*]

theorem take?_due (t : Ticker) : t.take? t.due = some ⟨t.due + t.period, t.period⟩ :=
  take?_eq_some_iff.mpr ⟨Nat.le_refl _, rfl, by rw [if_pos (Nat.le_add_right _ _)]⟩

section Taken

variable {now : Millis} (h : t.take? now = some u)

include h

theorem due_le_of_take? : t.due ≤ now := (take?_eq_some_iff.mp h).1

theorem period_take? : u.period = t.period := (take?_eq_some_iff.mp h).2.1

theorem add_period_le_due : t.due + t.period ≤ u.due := by
  obtain ⟨ready, -, due⟩ := take?_eq_some_iff.mp h
  split_ifs at due <;> lia

/-- The next tick is due a period behind the instant at which one is taken, but for the delay that
does not count. -/
theorem instant_add_period_le_due : now + t.period ≤ u.due + tolerance := by
  obtain ⟨-, -, due⟩ := take?_eq_some_iff.mp h
  split_ifs at due <;> lia

end Taken

/-- The ticker after its ticks were taken at some instants, if each of them was due by then. -/
def takeAll? (t : Ticker) (instants : List Millis) : Option Ticker := instants.foldlM take? t

theorem takeAll?_cons_eq_some {x : Millis} :
    t.takeAll? (x :: instants) = some u ↔
      ∃ t', t.take? x = some t' ∧ t'.takeAll? instants = some u := by
  unfold takeAll?
  rw [List.foldlM_cons]
  exact Option.bind_eq_some_iff

theorem not_early (h : t.takeAll? instants = some u) {n : Nat} {x : Millis}
    (hx : instants[n]? = some x) : t.due + n * t.period ≤ x := by
  induction instants generalizing t n with
  | nil => cases hx
  | cons y rest ih =>
    obtain ⟨t', taken, after⟩ := takeAll?_cons_eq_some.mp h
    cases n with
    | zero =>
      cases hx
      simpa using due_le_of_take? taken
    | succ n =>
      have first := add_period_le_due taken
      have later := ih after (by simpa using hx)
      rw [period_take? taken] at later
      rw [Nat.succ_mul]
      lia

theorem apart (h : t.takeAll? instants = some u) :
    instants.IsChain fun x y => x + t.period ≤ y + tolerance := by
  induction instants generalizing t with
  | nil => exact .nil
  | cons x rest ih =>
    obtain ⟨t', taken, after⟩ := takeAll?_cons_eq_some.mp h
    have later := ih after
    rw [period_take? taken] at later
    refine List.isChain_cons.mpr ⟨fun y hy => ?_, later⟩
    -- The next tick is due about a period behind this one, and it is not taken early.
    have next : t'.due ≤ y := by
      have second := not_early after (List.head?_eq_getElem? ▸ hy)
      simpa using second
    have spaced := instant_add_period_le_due taken
    lia

/-- The number of ticks by some instant is that of the periods by then. -/
theorem length_le_of_takeAll? (h : t.takeAll? instants = some u) {now start : Millis}
    (due : t.due = start + t.period) (positive : 0 < t.period) (past : ∀ x ∈ instants, x ≤ now) :
    instants.length ≤ (now - start) / t.period := by
  cases hlast : instants.getLast? with
  | none => simp [List.getLast?_eq_none_iff.mp hlast]
  | some x =>
    have reached := past x (List.mem_of_getLast? hlast)
    rw [List.getLast?_eq_getElem?] at hlast
    have spaced := not_early h hlast
    have counted : instants.length = instants.length - 1 + 1 := by
      have bound := (List.getElem?_eq_some_iff.mp hlast).1
      lia
    refine (Nat.le_div_iff_mul_le positive).mpr ?_
    rw [counted, Nat.succ_mul]
    lia

end Ticker

end WalletWatch
