import Mathlib
import WalletWatch.Proofs.Stream.Backlog

set_option autoImplicit false

/-!
# Items that are given up

Each item that a producer came to hold was accepted, is still in its hand, or was given up. A
producer gives up one item at most: it ends with it, cancelled or left by its consumer.
-/

namespace WalletWatch

namespace Stream

variable {σ α ε : Type}

/-- The item that left the producer's hand without being accepted. -/
def discarded (st st' : Stream σ α) : Option (Item α) :=
  if st'.task.inHand?.isSome || (accepted st st').isSome then none else st.task.inHand?

/-- How many values an event brought about along the states of a stream. Failures do not count. -/
def values (event : Stream σ α → Stream σ α → Option (Item α)) (states : List (Stream σ α)) : Nat :=
  (history event states).countP Except.isOk

/-- A producer that was cancelled or that nobody listens to any more. -/
def GaveUp (st : Stream σ α) : Prop :=
  st.task.EndsBy .cancelled ∨ st.task.EndsBy .receiverGone

section Account

variable {may : Work σ α → Prop} {cancelled : Bool} {st st' : Stream σ α}

theorem Step.discarded_cases (h : Step may cancelled st st') :
    (discarded st st' = none ∧ (accepted st st').toList ++ st'.task.inHand?.toList =
        st.task.inHand?.toList ++ (produced st st').toList) ∨
      (discarded st st' = st.task.inHand? ∧ accepted st st' = none ∧ produced st st' = none ∧
        ∃ reason, st'.task.EndsBy reason) := by
  rcases h.hand_books with heq | ⟨haccepted, hproduced, reason, hend⟩
  · refine .inl ⟨?_, heq⟩
    unfold discarded
    split_ifs with left
    · rfl
    · -- Nothing came out of the hand and nothing is in it, so there was nothing.
      have empty : st.task.inHand?.toList ++ (produced st st').toList = [] := by
        rw [← heq]
        simpa [and_comm] using left
      simpa using (List.append_eq_nil_iff.mp empty).1
  · have empty : st'.task.inHand? = none := by rcases hend with hend | hend <;> rw [hend] <;> rfl
    exact .inr ⟨by simp [discarded, empty, haccepted], haccepted, hproduced, reason, hend⟩

theorem Step.endsBy_of_discarded (h : Step may cancelled st st') {item : Item α}
    (hd : discarded st st' = some item) : ∃ reason, st'.task.EndsBy reason := by
  rcases h.discarded_cases with ⟨hnone, -⟩ | ⟨-, -, -, hend⟩
  · cases hnone.symm.trans hd
  · exact hend

theorem Step.countP_hand (h : Step may cancelled st st') (p : Item α → Bool) :
    (st.task.inHand?.toList ++ (produced st st').toList).countP p =
      (accepted st st').toList.countP p + (discarded st st').toList.countP p +
        st'.task.inHand?.toList.countP p := by
  rcases h.discarded_cases with ⟨hnone, heq⟩ | ⟨hd, haccepted, hproduced, reason, hend⟩
  · rw [← heq, List.countP_append, hnone, Option.toList_none, List.countP_nil, Nat.add_zero]
  · have empty : st'.task.inHand? = none := by rcases hend with hend | hend <;> rw [hend] <;> rfl
    rw [hd, haccepted, hproduced, empty]
    simp

variable {l : List (Stream σ α)}

theorem history_discarded_of_endsBy (h : (st :: l).IsChain (Goes may)) {reason : StreamEnd}
    (he : st.task.EndsBy reason) : history discarded (st :: l) = [] := by
  refine history_eq_nil (List.IsChain.imp_of_mem_imp ?_ h)
  intro x y hx _ _
  have empty : x.task.inHand? = none := by
    rcases endsBy_of_isChain h he x hx with hx | hx <;> rw [hx] <;> rfl
  unfold discarded
  split_ifs
  · rfl
  · exact empty

theorem countP_produced (h : (st :: l).IsChain (Goes may)) {last : Stream σ α}
    (hlast : (st :: l).getLast? = some last) (p : Item α → Bool) :
    (st.task.inHand?.toList ++ history produced (st :: l)).countP p =
      (history accepted (st :: l)).countP p + (history discarded (st :: l)).countP p +
        last.task.inHand?.toList.countP p := by
  induction l generalizing st with
  | nil =>
    cases hlast
    simp [history]
  | cons st' rest ih =>
    obtain ⟨⟨c, hs⟩, hrest⟩ := List.isChain_cons_cons.mp h
    have now := hs.countP_hand p
    have later := ih hrest (by simpa using hlast)
    simp only [history, List.countP_append] at now later ⊢
    omega

theorem length_discarded_le (h : (st :: l).IsChain (Goes may)) :
    (history discarded (st :: l)).length ≤ 1 := by
  induction l generalizing st with
  | nil => exact Nat.zero_le 1
  | cons st' rest ih =>
    obtain ⟨⟨c, hs⟩, hrest⟩ := List.isChain_cons_cons.mp h
    rw [history, List.length_append]
    cases hd : discarded st st' with
    | none =>
      rw [Option.toList_none, List.length_nil, Nat.zero_add]
      exact ih hrest
    | some item =>
      -- A producer that gave its item up has stopped and holds nothing any more.
      obtain ⟨reason, hend⟩ := hs.endsBy_of_discarded hd
      rw [history_discarded_of_endsBy hrest hend]
      exact Nat.le_refl 1

end Account

/-! ## Values of several streams -/

section Values

variable {S M : Type} {step : S → M → S} {event : Stream σ α → Stream σ α → Option (Item α)}

/-- How many values an event brings about between two states. -/
def befalls (event : Stream σ α → Stream σ α → Option (Item α)) :
    Option (Stream σ α) → Option (Stream σ α) → Nat
  | some st, some st' => (event st st').toList.countP Except.isOk
  | _, _ => 0

theorem values_course_cons {read : S → Option (Stream σ α)} {s : S} {m : M}
    (stays : ∀ st, read s = some st → ∃ st', read (step s m) = some st') (rest : List M) :
    values event (course step read s (m :: rest)) =
      befalls event (read s) (read (step s m)) +
        values event (course step read (step s m) rest) := by
  unfold values
  cases hs : read s with
  | none => simp [course, hs, befalls]
  | some st =>
    obtain ⟨st', hs'⟩ := stays st hs
    rw [history_course_cons hs hs', List.countP_append, hs', befalls]

/-- A count that goes up by the values of each step has gone up by those of the whole run. Which
streams it counts is told by the end of the run, and so by each state before. -/
theorem counted_run (step : S → M → S) (read : Nat → S → Option (Stream σ α)) (count : S → UInt64)
    {n : Nat} {mine : Nat → Bool} {inv tied : S → Prop}
    (keeps : ∀ s m, inv s → inv (step s m)) (back : ∀ s m, tied (step s m) → tied s)
    (stays : ∀ i s m st, read i s = some st → ∃ st', read i (step s m) = some st')
    (one : ∀ s m, inv s → tied s → count (step s m) = count s + UInt64.ofNat
      (∑ i ∈ Finset.range n, if mine i then befalls event (read i s) (read i (step s m)) else 0))
    {s : S} (h : inv s) (moves : List M) (ends : tied (moves.foldl step s)) :
    count (moves.foldl step s) = count s + UInt64.ofNat
      (∑ i ∈ Finset.range n,
        if mine i then values event (course step (read i) s moves) else 0) := by
  have tied_of_ends : ∀ (moves : List M) (s : S), tied (moves.foldl step s) → tied s := by
    intro moves
    induction moves with
    | nil => exact fun _ h => h
    | cons m rest ih => exact fun s h => back s m (ih (step s m) h)
  induction moves generalizing s with
  | nil =>
    have none_yet : ∀ i, values event (course step (read i) s []) = 0 := by
      intro i
      cases hs : read i s <;> simp [values, course, hs, history]
    simp [none_yet]
  | cons m rest ih =>
    have now := one s m h (tied_of_ends (m :: rest) s ends)
    have later := ih (keeps s m h) ends
    have split : ∀ i, (if mine i then values event (course step (read i) s (m :: rest)) else 0) =
        (if mine i then befalls event (read i s) (read i (step s m)) else 0) +
          if mine i then values event (course step (read i) (step s m) rest) else 0 := by
      intro i
      cases mine i with
      | true => exact values_course_cons (stays i s m) rest
      | false => rfl
    rw [List.foldl_cons, later, now, Finset.sum_congr rfl fun i _ => split i,
      Finset.sum_add_distrib, UInt64.ofNat_add, UInt64.add_assoc]

theorem sum_befalls {mine : Nat → Bool} {n i : Nat} {f : Nat → Nat}
    (hi : i < n) (others : ∀ j, j ≠ i → f j = 0) :
    (∑ j ∈ Finset.range n, if mine j then f j else 0) = if mine i then f i else 0 := by
  refine Finset.sum_eq_single_of_mem i (Finset.mem_range.mpr hi) fun j _ hj => ?_
  rw [others j hj, ite_self]

end Values

/-! ## Why an item is given up -/

section GaveUp

variable {st st' : Stream σ α}

theorem discarded_of_task_eq (h : st'.task = st.task) : discarded st st' = none := by
  cases hhand : st.task.inHand? <;> simp [discarded, h, hhand]

theorem gaveUp_of_discarded {cancelled : Bool} {a : Act σ α} {item : Item α}
    (h : discarded st (st.after cancelled a) = some item) : (st.after cancelled a).GaveUp := by
  cases a with
  | turn w =>
    cases htask : st.task with
    | sending held next =>
      rw [after_sending _ _ htask] at h ⊢
      unfold trySend at h ⊢
      split_ifs at h ⊢ with hc hl hs
      · exact .inl (.inl rfl)
      · exact .inr (.inl rfl)
      · simp [discarded_of_task_eq] at h
      · simp [discarded, accepted, hs] at h
    | _ => simp [discarded, htask] at h
  | _ =>
    rw [discarded_of_task_eq (task_after cancelled (by simp))] at h
    cases h

theorem GaveUp.after (h : st.GaveUp) (cancelled : Bool) (a : Act σ α) :
    (st.after cancelled a).GaveUp :=
  h.imp (endsBy_after · cancelled a) (endsBy_after · cancelled a)

/-- Something befalls a stream, while its context is cancelled or not. -/
def Lives (st st' : Stream σ α) : Prop := ∃ cancelled a, st' = st.after cancelled a

theorem gaveUp_of_history {l : List (Stream σ α)} (h : (st :: l).IsChain Lives)
    (hd : history discarded (st :: l) ≠ []) {last : Stream σ α}
    (hlast : (st :: l).getLast? = some last) : last.GaveUp := by
  induction l generalizing st with
  | nil => exact absurd rfl hd
  | cons st' rest ih =>
    obtain ⟨⟨cancelled, a, rfl⟩, hrest⟩ := List.isChain_cons_cons.mp h
    have hlast' : ((st.after cancelled a) :: rest).getLast? = some last := by simpa using hlast
    cases hnow : discarded st (st.after cancelled a) with
    | none =>
      refine ih hrest ?_ hlast'
      simpa [history, hnow] using hd
    | some item =>
      have stays : ∀ x ∈ (st.after cancelled a) :: rest, x.GaveUp := by
        refine forall_of_isChain ?_ hrest (by simpa using gaveUp_of_discarded hnow)
        rintro x y ⟨cancelled', a', rfl⟩ hx
        exact hx.after cancelled' a'
      exact stays last (List.mem_of_getLast? hlast')

end GaveUp

/-! ## Only the last item is a failure -/

/-- A producer that goes on behind a value and stops behind a failure. -/
def Sound (st : Stream σ α) : Prop :=
  ∀ item next, st.task = .sending item next → item.isOk = next.isSome

section Sound

variable {cancelled : Bool} {st st' : Stream σ α}

theorem Step.sound (h : Step Work.Plain cancelled st st') (hs : st.Sound) : st'.Sound := by
  cases h with
  | decided s w htask hmay =>
    intro item next hsending
    cases w with
    | send i s' =>
      obtain ⟨a, rfl⟩ := hmay i s' rfl
      cases hsending
      rfl
    | fail f =>
      cases hsending
      rfl
    | wait => exact hs item next hsending
    | _ => cases hsending
  | lost item next reason => intro _ _ hsending; cases hsending
  | sent item next => intro _ _ hsending; cases next <;> cases hsending
  | ended reason => intro _ _ hsending; cases hsending
  | _ => exact hs

/-- A value was accepted exactly if the producer goes on from the turn in which it sent. -/
theorem countP_accepted_turn (hs : st.Sound) (work : σ → ε → Work σ α × ε) (cancelled : Bool)
    (e : ε) :
    (accepted st (st.turn work cancelled e).2.1).toList.countP Except.isOk =
      if (st.turn work cancelled e).1 = .sent false then 1 else 0 := by
  unfold turn
  cases htask : st.task with
  | working s =>
    have unsent : (st.follow (work s e).1).1 ≠ .sent false := by
      cases (work s e).1 <;> simp [follow]
    simp [accepted_of_slot_eq, unsent]
  | sending item next =>
    have value := hs item next htask
    simp only
    by_cases hc : cancelled = true
    · simp [trySend, hc, accepted_of_slot_eq]
    · by_cases hl : st.listening = true
      · cases hslot : st.slot with
        | some i => simp [trySend, hc, hl, hslot, accepted_of_slot_eq]
        | none => cases next <;> simp [trySend, hc, hl, hslot, accepted, value]
      · simp [trySend, hc, hl, accepted_of_slot_eq]
  | closing reason => simp [accepted_of_slot_eq]
  | stopped reason => simp [accepted_of_slot_eq]

theorem accepted_after_of_ne_turn (st : Stream σ α) (cancelled : Bool) {a : Act σ α}
    (h : ∀ w, a ≠ .turn w) : accepted st (st.after cancelled a) = none := by
  cases a with
  | turn w => exact absurd rfl (h w)
  | receive => simp [accepted, after]
  | hangUp => simp [accepted, after, hangUp]
  | elsewhere => exact accepted_of_slot_eq rfl

end Sound

end Stream

end WalletWatch
