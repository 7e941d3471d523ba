import WalletWatch.Proofs.Stream.Acts

set_option autoImplicit false

/-!
# What is still to come

The items that a consumer can still receive of a stream: the one in its slot, the one its producer
holds, and those that the producer has yet to make. Looks take them one by one, and turns of the
producer lose none of them unless the stream is cancelled.
-/

namespace WalletWatch

variable {σ α : Type}

/-- The items that come of a task, where `future` tells those that are yet to be made. -/
def Task.ahead (future : σ → List (Item α)) : Task σ α → List (Item α)
  | .working s => future s
  | .sending i (some s) => i :: future s
  | .sending i none => [i]
  | .closing _ => []
  | .stopped _ => []

/-- The items that come of a producer that decided something. -/
def Work.ahead (future : σ → List (Item α)) (s : σ) : Work σ α → List (Item α)
  | .wait => future s
  | .goOn s' => future s'
  | .send i s' => i :: future s'
  | .fail f => [.error f]
  | .stop _ => []

/-- The items that come of a task after a turn in which it decides `w`. -/
def Task.aheadOfTurn (future : σ → List (Item α)) (cancelled : Bool) (w : Work σ α) :
    Task σ α → List (Item α)
  | .working s => w.ahead future s
  | .sending i next => if cancelled then [] else Task.ahead future (.sending i next)
  | _ => []

namespace Stream

/-- The items that a consumer can still receive. -/
def ahead (future : σ → List (Item α)) (st : Stream σ α) : List (Item α) :=
  st.slot.toList ++ if st.listening then st.task.ahead future else []

variable {st : Stream σ α} {future : σ → List (Item α)}

theorem ahead_receive (st : Stream σ α) (future : σ → List (Item α)) :
    st.slot.toList ++ st.receive.2.ahead future = st.ahead future := by
  unfold ahead
  rw [receive_slot, receive_listening, receive_task]
  rfl

theorem ahead_hangUp (st : Stream σ α) (future : σ → List (Item α)) :
    st.hangUp.ahead future = [] := rfl

theorem ahead_of_closed (h : st.receive.1 = .closed) (future : σ → List (Item α)) :
    st.ahead future = [] := by
  obtain ⟨hslot, reason, htask⟩ := (receive_eq_closed_iff st).mp h
  simp [ahead, hslot, htask, Task.ahead]

theorem ahead_follow {s : σ} (htask : st.task = .working s) (w : Work σ α) :
    (st.follow w).2.task.ahead future = w.ahead future s := by
  cases w <;> simp only [follow, Task.ahead, Work.ahead, htask]

theorem ahead_after_turn (st : Stream σ α) (future : σ → List (Item α)) (cancelled : Bool)
    (w : Work σ α) : (st.after cancelled (.turn w)).ahead future =
      st.slot.toList ++ if st.listening then st.task.aheadOfTurn future cancelled w else [] := by
  cases htask : st.task with
  | working s =>
    rw [after_working _ _ htask]
    unfold ahead
    rw [follow_slot, follow_listening, ahead_follow htask]
    rfl
  | sending i next =>
    rw [after_sending _ _ htask]
    unfold ahead trySend
    cases cancelled with
    | true => simp [Task.ahead, Task.aheadOfTurn]
    | false =>
      cases hl : st.listening with
      | false => simp
      | true =>
        cases hslot : st.slot with
        | some x => simp [hl, hslot, htask, Task.aheadOfTurn]
        | none => cases next <;> simp [Task.ahead, Task.aheadOfTurn]
  | closing reason =>
    rw [after_closing _ _ htask]
    rfl
  | stopped reason =>
    rw [after_stopped _ _ htask]
    simp [ahead, htask, Task.ahead, Task.aheadOfTurn]

theorem ahead_mono {future' : σ → List (Item α)} (h : ∀ s, future' s <+: future s)
    (st : Stream σ α) : st.ahead future' <+: st.ahead future := by
  unfold ahead
  rw [List.prefix_append_right_inj]
  cases st.listening with
  | false => exact List.nil_prefix
  | true =>
    cases st.task with
    | working s => exact h s
    | sending i next =>
      cases next with
      | none => exact List.prefix_rfl
      | some s => exact List.cons_prefix_cons.mpr ⟨rfl, h s⟩
    | closing reason => exact List.nil_prefix
    | stopped reason => exact List.nil_prefix

theorem ahead_after_turn_le {future' : σ → List (Item α)} (cancelled : Bool) {w : Work σ α}
    (hwork : ∀ s, st.task = .working s → w.ahead future' s <+: future s)
    (hkeep : ∀ i s, st.task = .sending i (some s) → future' s <+: future s) :
    (st.after cancelled (.turn w)).ahead future' <+: st.ahead future := by
  rw [ahead_after_turn]
  unfold ahead
  rw [List.prefix_append_right_inj]
  cases st.listening with
  | false => exact List.nil_prefix
  | true =>
    cases htask : st.task with
    | working s => exact hwork s htask
    | sending i next =>
      cases cancelled with
      | true => exact List.nil_prefix
      | false =>
        cases next with
        | none => exact List.prefix_rfl
        | some s => exact List.cons_prefix_cons.mpr ⟨rfl, hkeep i s htask⟩
    | closing reason => exact List.nil_prefix
    | stopped reason => exact List.nil_prefix

theorem ahead_after_turn_eq {future' : σ → List (Item α)} {w : Work σ α}
    (hwork : ∀ s, st.task = .working s → w.ahead future' s = future s)
    (hkeep : ∀ i s, st.task = .sending i (some s) → future' s = future s) :
    (st.after false (.turn w)).ahead future' = st.ahead future := by
  rw [ahead_after_turn]
  unfold ahead
  cases htask : st.task with
  | working s => simp only [Task.aheadOfTurn, Task.ahead, hwork s htask]
  | sending i next =>
    cases next with
    | none => rfl
    | some s =>
      simp only [Task.aheadOfTurn, Task.ahead, hkeep i s htask, Bool.false_eq_true, if_false]
  | closing reason => rfl
  | stopped reason => rfl

end Stream

end WalletWatch
