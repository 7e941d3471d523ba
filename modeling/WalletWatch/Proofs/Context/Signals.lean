import WalletWatch.Context.Basic

set_option autoImplicit false

/-!
# Signals are never lowered

Whatever is done with the handles, and however much time passes, a context that is cancelled stays
cancelled.
-/

namespace WalletWatch

namespace Signals

/-- Every signal that is raised is raised later on as well. -/
def Within (s s' : Signals) : Prop := ∀ id, s.raised id = true → s'.raised id = true

theorem Within.refl (s : Signals) : s.Within s := fun _ h => h

theorem raised_of_le (s : Signals) {id : Nat} (h : s.all.length ≤ id) : s.raised id = false := by
  simp [raised, List.getElem?_eq_none h]

theorem raised_make (s : Signals) (id : Nat) : s.make.2.raised id = s.raised id := by
  unfold raised make
  rcases Nat.lt_trichotomy id s.all.length with h | rfl | h
  · simp [List.getElem?_append_left h]
  · simp [Signal.raised]
  · rw [List.getElem?_eq_none (by simp; omega), List.getElem?_eq_none (Nat.le_of_lt h)]

theorem raised_modify (s : Signals) {change : Signal → Signal}
    (raises : ∀ x, (change x).raised = true) (id id' : Nat) :
    (Signals.mk (s.all.modify id change)).raised id' = true ↔
      s.raised id' = true ∨ (id = id' ∧ id < s.all.length) := by
  unfold raised
  rw [List.getElem?_modify]
  by_cases h : id = id'
  · subst h
    by_cases hlt : id < s.all.length
    · simp [raises, hlt]
    · simp [hlt]
  · simp [h]

theorem raised_cancel (s : Signals) (id id' : Nat) :
    (s.cancel id).raised id' = true ↔
      s.raised id' = true ∨ (id = id' ∧ id < s.all.length) :=
  raised_modify s (fun _ => rfl) id id'

theorem raised_release (s : Signals) (id id' : Nat) :
    (s.release id).raised id' = true ↔
      s.raised id' = true ∨ (id = id' ∧ id < s.all.length) :=
  raised_modify s (fun _ => by simp [Signal.raised]) id id'

theorem within_make (s : Signals) : s.Within s.make.2 :=
  fun id h => (raised_make s id).trans h

theorem within_cancel (s : Signals) (id : Nat) : s.Within (s.cancel id) :=
  fun id' h => (raised_cancel s id id').mpr (.inl h)

theorem within_release (s : Signals) (id : Nat) : s.Within (s.release id) :=
  fun id' h => (raised_release s id id').mpr (.inl h)

/-- Whether the handle of a signal is gone. -/
def wasReleased (s : Signals) (id : Nat) : Bool := (s.all[id]?).any Signal.released

theorem wasReleased_make {s : Signals} {id : Nat} (h : s.wasReleased id = true) :
    s.make.2.wasReleased id = true := by
  unfold wasReleased make at *
  obtain ⟨x, hx, hr⟩ := (Option.any_eq_true ..).mp h
  rw [List.getElem?_append_left (List.getElem?_eq_some_iff.mp hx).1]
  exact h

theorem wasReleased_cancel (s : Signals) (id id' : Nat) :
    (s.cancel id).wasReleased id' = s.wasReleased id' := by
  unfold wasReleased cancel
  rw [List.getElem?_modify]
  by_cases h : id = id'
  · simp only [h, if_true]
    cases s.all[id']? <;> rfl
  · simp [h]

theorem wasReleased_release (s : Signals) (id id' : Nat) :
    (s.release id).wasReleased id' = true ↔
      s.wasReleased id' = true ∨ (id = id' ∧ id < s.all.length) := by
  unfold wasReleased release
  rw [List.getElem?_modify]
  by_cases h : id = id'
  · subst h
    by_cases hlt : id < s.all.length
    · simp [hlt]
    · simp [hlt]
  · simp [h]

theorem raised_of_wasReleased {s : Signals} {id : Nat} (h : s.wasReleased id = true) :
    s.raised id = true := by
  unfold wasReleased at h
  unfold raised
  cases hx : s.all[id]? with
  | none => simp [hx] at h
  | some x =>
    have hr : x.released = true := by simpa [hx] using h
    simp [Signal.raised, hr]

@[simp] theorem length_make (s : Signals) : s.make.2.all.length = s.all.length + 1 := by
  simp [make]

@[simp] theorem length_cancel (s : Signals) (id : Nat) :
    (s.cancel id).all.length = s.all.length := by
  simp [cancel]

@[simp] theorem length_release (s : Signals) (id : Nat) :
    (s.release id).all.length = s.all.length := by
  simp [release]

end Signals

namespace Context

theorem isCancelled_iff (c : Context) (now : Millis) (s : Signals) :
    c.isCancelled now s = true ↔
      (∃ d, c.deadline? = some d ∧ d ≤ now) ∨ ∃ id ∈ c.signals, s.raised id = true := by
  simp [isCancelled, Option.any_eq_true]

theorem isCancelled_mono (c : Context) {now now' : Millis} {s s' : Signals} (hnow : now ≤ now')
    (hs : s.Within s') (h : c.isCancelled now s = true) : c.isCancelled now' s' = true := by
  rw [isCancelled_iff] at h ⊢
  rcases h with ⟨d, hd, hle⟩ | ⟨id, hmem, hraised⟩
  · exact .inl ⟨d, hd, Nat.le_trans hle hnow⟩
  · exact .inr ⟨id, hmem, hs id hraised⟩

theorem isCancelled_of_released {c : Context} {id : Nat} (hid : c.handle? = some id)
    (now : Millis) {s : Signals} (h : s.wasReleased id = true) : c.isCancelled now s = true :=
  (c.isCancelled_iff now s).mpr
    (.inr ⟨id, List.mem_of_getLast? hid, Signals.raised_of_wasReleased h⟩)

@[simp] theorem handle?_child (c : Context) (s : Signals) :
    (c.child s).1.handle? = some s.all.length := by
  simp [child, handle?, Signals.make]

end Context

end WalletWatch
