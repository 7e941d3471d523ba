import WalletWatch.Proofs.Stream.History

set_option autoImplicit false

/-!
# What is under way in a stream

Between the producer and the consumer there is room for two items, one in the producer's hand and
one in the slot. So of what was produced all but the last item was accepted, unless it was lost, and
of what was accepted all but the last item was received.
-/

namespace WalletWatch

/-- The item that a producer has ready, if it has one. -/
def Work.item? {σ α : Type} : Work σ α → Option (Item α)
  | .send item _ => some item
  | .fail f => some (.error f)
  | _ => none

/-- A producer that goes on only behind a value. -/
def Work.Plain {σ α : Type} (w : Work σ α) : Prop := ∀ i s, w = .send i s → ∃ a, i = .ok a

namespace Stream

variable {σ α : Type}

/-- All that comes in goes out again, in that order and but for one item at most. -/
structure OneBehind (inward outward : List (Item α)) : Prop where
  order : outward <+: inward
  room : inward.length ≤ outward.length + 1

namespace OneBehind

theorem of_option (i : Option (Item α)) : OneBehind i.toList [] := by
  cases i with
  | none => exact ⟨List.prefix_rfl, Nat.zero_le _⟩
  | some x => exact ⟨List.nil_prefix, Nat.le_refl _⟩

theorem append_left {inward outward : List (Item α)} (h : OneBehind inward outward)
    (front : List (Item α)) : OneBehind (front ++ inward) (front ++ outward) := by
  refine ⟨(List.prefix_append_right_inj front).mpr h.order, ?_⟩
  have room := h.room
  simp only [List.length_append]
  omega

end OneBehind

/-- A beginning lacks some items. Where a failure comes last, if at all, it lacks no more of them if
only its values count. -/
theorem length_le_countP_isOk {whole front : List (Item α)} {n : Nat}
    (last : ∀ before after f, whole = before ++ .error f :: after → after = [])
    (order : front <+: whole) (room : whole.length ≤ front.length + n) (some_room : 0 < n) :
    whole.length ≤ front.countP Except.isOk + n := by
  obtain ⟨rest, rfl⟩ := order
  by_cases failed : ∃ f, Except.error f ∈ front
  · obtain ⟨f, hf⟩ := failed
    obtain ⟨before, after, rfl⟩ := List.append_of_mem hf
    -- The failure ends the beginning and with it the whole.
    obtain ⟨rfl, rfl⟩ : after = [] ∧ rest = [] := by
      simpa using last before (after ++ rest) f (by simp)
    have values : ∀ x ∈ before, x.isOk = true := by
      intro x hx
      cases x with
      | ok a => rfl
      | error g =>
        obtain ⟨earlier, later, rfl⟩ := List.append_of_mem hx
        have nothing := last earlier (later ++ [.error f]) g (by simp)
        simp at nothing
    simp only [List.append_nil, List.length_append, List.countP_append,
      List.countP_eq_length.mpr values, List.length_singleton]
    omega
  · have values : ∀ x ∈ front, x.isOk = true := by
      intro x hx
      cases x with
      | ok a => rfl
      | error g => exact absurd ⟨g, hx⟩ failed
    rwa [List.countP_eq_length.mpr values]

section Events

variable {st st' : Stream σ α}

theorem accepted_of_slot_eq (h : st'.slot = st.slot) : accepted st st' = none := by
  cases hslot : st.slot <;> simp [accepted, h, hslot]

theorem received_of_slot_eq (h : st'.slot = st.slot) : received st st' = none := by
  cases hslot : st.slot <;> simp [received, h, hslot]

theorem produced_of_task_eq (h : st'.task = st.task) : produced st st' = none := by
  cases hhand : st.task.inHand? <;> simp [produced, h, hhand]

theorem produced_after_of_ne_turn (st : Stream σ α) (cancelled : Bool) {a : Act σ α}
    (h : ∀ w, a ≠ .turn w) : produced st (st.after cancelled a) = none :=
  produced_of_task_eq (task_after cancelled h)

theorem produced_after_turn_of_working {s : σ} (h : st.task = .working s) (cancelled : Bool)
    (w : Work σ α) : produced st (st.after cancelled (.turn w)) = w.item? := by
  rw [after_working _ _ h]
  cases w <;> simp [produced, follow, Work.item?, h]

theorem produced_after_turn_of_ne_working (h : ∀ s, st.task ≠ .working s) (cancelled : Bool)
    (w : Work σ α) : produced st (st.after cancelled (.turn w)) = none := by
  cases htask : st.task with
  | working s => exact absurd htask (h s)
  | sending item next => simp [produced, htask]
  | closing reason => rw [after_closing _ _ htask]; simp [produced]
  | stopped reason => rw [after_stopped _ _ htask]; simp [produced, htask]

theorem received_after_turn (st : Stream σ α) (cancelled : Bool) (w : Work σ α) :
    received st (st.after cancelled (.turn w)) = none := by
  cases htask : st.task with
  | working s => rw [after_working _ _ htask, received_of_slot_eq (follow_slot st w)]
  | sending item next =>
    rw [after_sending _ _ htask]
    unfold trySend
    cases hslot : st.slot <;> split_ifs <;> simp [received, hslot]
  | closing reason =>
    rw [after_closing _ _ htask]
    exact received_of_slot_eq rfl
  | stopped reason =>
    rw [after_stopped _ _ htask]
    exact received_of_slot_eq rfl

theorem received_receive (st : Stream σ α) :
    received st st.receive.2 = if st.listening then st.slot else none := by
  cases hl : st.listening <;> simp [received, hl]

theorem received_hangUp (st : Stream σ α) : received st st.hangUp = none := by
  simp [received, hangUp]

end Events

namespace Step

variable {may : Work σ α → Prop} {cancelled : Bool} {st st' : Stream σ α}

/-- What is accepted comes from the producer's hand, unless the item in it is lost; then nothing is
produced any more. -/
theorem hand_books (h : Step may cancelled st st') :
    (accepted st st').toList ++ st'.task.inHand?.toList =
        st.task.inHand?.toList ++ (produced st st').toList ∨
      (accepted st st' = none ∧ produced st st' = none ∧ ∃ reason, st'.task.EndsBy reason) := by
  cases h with
  | idle =>
    refine .inl ?_
    rw [accepted_of_slot_eq rfl, produced_of_task_eq rfl, Option.toList_none, List.nil_append,
      List.append_nil]
  | decided s w htask =>
    refine .inl ?_
    have hhand : st.task.inHand? = none := by simp [htask]
    rw [accepted_of_slot_eq (follow_slot st w)]
    simp [produced, hhand]
  | lost item next reason htask =>
    refine .inr ⟨accepted_of_slot_eq rfl, ?_, reason, .inl rfl⟩
    simp [produced, htask]
  | sent item next htask hwanted hopen hslot =>
    refine .inl ?_
    have hhand : st.task.inHand? = some item := by simp [htask]
    have hempty : (Task.afterSend next : Task σ α).inHand? = none := by cases next <;> rfl
    simp [accepted, produced, hhand, hslot, hempty]
  | ended reason htask =>
    refine .inr ⟨accepted_of_slot_eq rfl, ?_, reason, .inr rfl⟩
    simp [produced, htask]
  | taken =>
    refine .inl ?_
    have idle : produced st { st with slot := none } = none := produced_of_task_eq rfl
    rw [idle]
    simp [accepted]
  | hungUp =>
    refine .inl ?_
    have idle : produced st { st with slot := none, listening := false } = none :=
      produced_of_task_eq rfl
    rw [idle]
    simp [accepted]

/-- What is received comes out of the slot, unless nobody listens; then nothing is accepted. -/
theorem slot_books (h : Step may cancelled st st') :
    (received st st').toList ++ st'.slot.toList = st.slot.toList ++ (accepted st st').toList ∨
      (received st st' = none ∧ accepted st st' = none ∧ st'.listening = false) := by
  have still : ∀ x : Stream σ α, x.slot = st.slot →
      (received st x).toList ++ x.slot.toList = st.slot.toList ++ (accepted st x).toList := by
    intro x hx
    cases hslot : st.slot <;> simp [received, accepted, hx, hslot]
  cases h with
  | idle => exact .inl (still st rfl)
  | decided s w => exact .inl (still _ (follow_slot st w))
  | lost item next reason => exact .inl (still _ rfl)
  | ended reason => exact .inl (still _ rfl)
  | sent item next htask hwanted hopen hslot => exact .inl (by simp [received, accepted, hslot])
  | taken =>
    cases hl : st.listening with
    | false => exact .inr ⟨by simp [received], by simp [accepted], rfl⟩
    | true => exact .inl (by simp [received, accepted])
  | hungUp => exact .inr ⟨by simp [received], by simp [accepted], rfl⟩

theorem empty_of_not_listening (h : Step may cancelled st st')
    (hs : st.listening = false → st.slot = none) (hl : st'.listening = false) :
    st'.slot = none := by
  cases h with
  | decided s w => simpa using hs (by simpa using hl)
  | sent item next htask hwanted hopen => cases hopen.symm.trans hl
  | taken => rfl
  | hungUp => rfl
  | _ => exact hs hl

theorem accepted_of_endsBy (h : Step may cancelled st st') {reason : StreamEnd}
    (he : st.task.EndsBy reason) : accepted st st' = none := by
  have same_or_none : st'.slot = st.slot ∨ st'.slot = none := by
    rcases h.slot_cases with hslot | hslot | ⟨-, item, next, htask⟩
    · exact .inl hslot
    · exact .inr hslot
    · rcases he with he | he <;> cases htask.symm.trans he
  rcases same_or_none with hslot | hslot
  · cases hs : st.slot <;> simp [accepted, hslot, hs]
  · simp [accepted, hslot]

theorem accepted_of_not_listening (h : Step may cancelled st st') (hl : st.listening = false) :
    accepted st st' = none := by
  cases h with
  | sent item next htask hwanted hopen => cases hl.symm.trans hopen
  | decided s w =>
    unfold accepted
    rw [follow_slot]
    cases st.slot <;> simp
  | _ => cases hs : st.slot <;> simp [accepted, hs]

end Step

section Runs

variable {may : Work σ α → Prop} {st : Stream σ α} {l : List (Stream σ α)}

theorem history_accepted_of_endsBy (h : (st :: l).IsChain (Goes may)) {reason : StreamEnd}
    (he : st.task.EndsBy reason) : history accepted (st :: l) = [] := by
  refine history_eq_nil (List.IsChain.imp_of_mem_imp ?_ h)
  rintro x y hx - ⟨c, hs⟩
  exact hs.accepted_of_endsBy (endsBy_of_isChain h he x hx)

theorem history_accepted_of_not_listening (h : (st :: l).IsChain (Goes may))
    (hl : st.listening = false) : history accepted (st :: l) = [] := by
  refine history_eq_nil (List.IsChain.imp_of_mem_imp ?_ h)
  rintro x y hx - ⟨c, hs⟩
  exact hs.accepted_of_not_listening (not_listening_of_isChain h hl x hx)

theorem produced_accepted (h : (st :: l).IsChain (Goes may)) :
    OneBehind (st.task.inHand?.toList ++ history produced (st :: l))
      (history accepted (st :: l)) := by
  induction l generalizing st with
  | nil =>
    change OneBehind (st.task.inHand?.toList ++ []) []
    rw [List.append_nil]
    exact .of_option _
  | cons st' rest ih =>
    obtain ⟨⟨c, hs⟩, hrest⟩ := List.isChain_cons_cons.mp h
    change OneBehind (st.task.inHand?.toList ++
        ((produced st st').toList ++ history produced (st' :: rest)))
      ((accepted st st').toList ++ history accepted (st' :: rest))
    rcases hs.hand_books with heq | ⟨haccepted, hproduced, reason, hend⟩
    · rw [← List.append_assoc, ← heq, List.append_assoc]
      exact (ih hrest).append_left _
    · rw [haccepted, hproduced, history_produced_of_endsBy hrest hend,
        history_accepted_of_endsBy hrest hend]
      simpa using OneBehind.of_option st.task.inHand?

theorem accepted_received (h : (st :: l).IsChain (Goes may)) :
    OneBehind (st.slot.toList ++ history accepted (st :: l)) (history received (st :: l)) := by
  induction l generalizing st with
  | nil =>
    change OneBehind (st.slot.toList ++ []) []
    rw [List.append_nil]
    exact .of_option _
  | cons st' rest ih =>
    obtain ⟨⟨c, hs⟩, hrest⟩ := List.isChain_cons_cons.mp h
    change OneBehind (st.slot.toList ++
        ((accepted st st').toList ++ history accepted (st' :: rest)))
      ((received st st').toList ++ history received (st' :: rest))
    rcases hs.slot_books with heq | ⟨hreceived, haccepted, hdeaf⟩
    · rw [← List.append_assoc, ← heq, List.append_assoc]
      exact (ih hrest).append_left _
    · rw [hreceived, haccepted, history_received_of_not_listening hrest hdeaf,
        history_accepted_of_not_listening hrest hdeaf]
      simpa using OneBehind.of_option st.slot

/-- As long as somebody listens, what was accepted and not received is in the slot. -/
theorem accepted_eq_received (h : (st :: l).IsChain (Goes may)) {last : Stream σ α}
    (hlast : (st :: l).getLast? = some last) (hl : last.listening = true) :
    st.slot.toList ++ history accepted (st :: l) =
      history received (st :: l) ++ last.slot.toList := by
  induction l generalizing st with
  | nil =>
    cases hlast
    exact List.append_nil _
  | cons st' rest ih =>
    obtain ⟨⟨c, hs⟩, hrest⟩ := List.isChain_cons_cons.mp h
    change st.slot.toList ++ ((accepted st st').toList ++ history accepted (st' :: rest)) =
      (received st st').toList ++ history received (st' :: rest) ++ last.slot.toList
    have later := ih hrest (by simpa using hlast)
    rcases hs.slot_books with heq | ⟨-, -, hdeaf⟩
    · rw [← List.append_assoc, ← heq, List.append_assoc, later, List.append_assoc]
    · have hmem := List.mem_of_getLast? (by simpa using hlast : (st' :: rest).getLast? = some last)
      have gone := not_listening_of_isChain hrest hdeaf last hmem
      cases gone.symm.trans hl

/-- The books of a stream along its states: what its producer made, what went into the slot, and
what came out of it. -/
structure Buffered (states : List (Stream σ α)) : Prop where
  hand : OneBehind (history produced states) (history accepted states)
  slot : OneBehind (history accepted states) (history received states)
  /-- As long as somebody listens, what was accepted and not received is in the slot. -/
  held : ∀ last, states.getLast? = some last → last.listening = true →
    history accepted states = history received states ++ last.slot.toList

theorem buffered_of_isChain {states : List (Stream σ α)} (h : states.IsChain (Goes may))
    (first : ∀ st ∈ states.head?, st.slot = none ∧ st.task.inHand? = none) : Buffered states := by
  cases states with
  | nil => exact ⟨.of_option none, .of_option none, by simp⟩
  | cons st l =>
    obtain ⟨hslot, hhand⟩ := first st rfl
    refine ⟨?_, ?_, ?_⟩
    · simpa [hhand] using produced_accepted h
    · simpa [hslot] using accepted_received h
    · intro last hlast hl
      simpa [hslot] using accepted_eq_received h hlast hl

end Runs

/-! ## A failure is the last item -/

section Failures

variable {cancelled : Bool} {st st' : Stream σ α}

/-- A producer that has nothing to make behind the item in its hand, if it has one. -/
def IsDone (st : Stream σ α) : Prop :=
  (∃ item, st.task = .sending item none) ∨ ∃ reason, st.task.EndsBy reason

theorem Step.isDone {may : Work σ α → Prop} (h : Step may cancelled st st') (hd : st.IsDone) :
    st'.IsDone := by
  rcases hd with ⟨item, htask⟩ | ⟨reason, he⟩
  · cases h with
    | decided s w hworking => cases hworking.symm.trans htask
    | lost item' next reason => exact .inr ⟨reason, .inl rfl⟩
    | sent item' next hsending =>
      cases hsending.symm.trans htask
      exact .inr ⟨.failed, .inl rfl⟩
    | ended reason hclosing => cases hclosing.symm.trans htask
    | _ => exact .inl ⟨item, htask⟩
  · exact .inr ⟨reason, h.endsBy he⟩

theorem Step.produced_of_isDone {may : Work σ α → Prop} (h : Step may cancelled st st')
    (hd : st.IsDone) : produced st st' = none := by
  rcases hd with ⟨item, htask⟩ | ⟨reason, he⟩
  · simp [produced, htask]
  · rcases h.endsBy he with he' | he' <;> simp [produced, he']

theorem Step.isDone_of_failure (h : Step Work.Plain cancelled st st') {f : Failure}
    (hf : produced st st' = some (.error f)) : st'.IsDone := by
  cases h with
  | decided s w htask hmay =>
    have hitem := (produced_after_turn_of_working htask cancelled w).symm
    rw [after_working _ _ htask] at hitem
    have hmade := hitem.trans hf
    cases w with
    | send i next =>
      obtain ⟨a, rfl⟩ := hmay i next rfl
      cases hmade
    | fail g => exact .inl ⟨.error g, rfl⟩
    | _ => cases hmade
  | lost item next reason => exact .inr ⟨reason, .inl rfl⟩
  | ended reason => exact .inr ⟨reason, .inr rfl⟩
  | sent item next htask => simp [produced, htask] at hf
  | idle => rw [produced_of_task_eq rfl] at hf; cases hf
  | taken => rw [produced_of_task_eq (by rfl)] at hf; cases hf
  | hungUp => rw [produced_of_task_eq (by rfl)] at hf; cases hf

theorem history_produced_of_isDone {may : Work σ α → Prop} {l : List (Stream σ α)}
    (h : (st :: l).IsChain (Goes may)) (hd : st.IsDone) : history produced (st :: l) = [] := by
  have done : ∀ x ∈ st :: l, x.IsDone := by
    refine forall_of_isChain ?_ h ?_
    · rintro x y ⟨c, hs⟩ hx
      exact hs.isDone hx
    · simpa using hd
  refine history_eq_nil (List.IsChain.imp_of_mem_imp ?_ h)
  rintro x y hx - ⟨c, hs⟩
  exact hs.produced_of_isDone (done x hx)

theorem history_produced_failure_last {l : List (Stream σ α)}
    (h : (st :: l).IsChain (Goes Work.Plain)) {front back : List (Item α)} {f : Failure}
    (heq : history produced (st :: l) = front ++ .error f :: back) : back = [] := by
  induction l generalizing st front with
  | nil => simp [history] at heq
  | cons st' rest ih =>
    obtain ⟨⟨c, hs⟩, hrest⟩ := List.isChain_cons_cons.mp h
    change (produced st st').toList ++ history produced (st' :: rest) = _ at heq
    cases hmade : produced st st' with
    | none =>
      rw [hmade] at heq
      exact ih hrest heq
    | some item =>
      rw [hmade] at heq
      cases item with
      | ok a =>
        cases front with
        | nil => cases heq
        | cons x xs => exact ih hrest (List.cons.inj heq).2
      | error g =>
        rw [history_produced_of_isDone hrest (hs.isDone_of_failure hmade)] at heq
        have hlen := congrArg List.length heq
        simp only [Option.toList_some, List.append_nil, List.length_append, List.length_cons,
          List.length_nil] at hlen
        exact List.eq_nil_of_length_eq_zero (by omega)

end Failures

/-! ## Histories told by moves -/

section Told

variable {S M τ β : Type} {step : S → M → S} {read : S → Option (Stream σ α)}
  {event : Stream σ α → Stream σ α → Option (Item α)}

theorem history_course_cons {s : S} {m : M} {st st' : Stream σ α} (h : read s = some st)
    (h' : read (step s m) = some st') (rest : List M) :
    history event (course step read s (m :: rest)) =
      (event st st').toList ++ history event (course step read (step s m) rest) := by
  obtain ⟨l, hl⟩ := course_eq_cons h' rest
  rw [course, h, Option.toList_some, List.singleton_append, hl, history]

theorem history_course (inv : S → Prop) {tell : S → M → Option (Item α)}
    (keeps : ∀ s m, inv s → inv (step s m))
    (tells : ∀ s m, inv s → ∃ st st', read s = some st ∧ read (step s m) = some st' ∧
      event st st' = tell s m)
    {s : S} (h : inv s) (moves : List M) :
    history event (course step read s moves) = along step tell s moves := by
  induction moves generalizing s with
  | nil => cases hs : read s <;> simp [course, hs, history, along]
  | cons m rest ih =>
    obtain ⟨st, st', hst, hst', heq⟩ := tells s m h
    rw [history_course_cons hst hst', ih (keeps s m h), heq, along]

/-- What befalls one stream whenever something befalls another. -/
theorem history_course_map (inv : S → Prop) {read' : S → Option (Stream τ β)}
    {event' : Stream τ β → Stream τ β → Option (Item β)} (f : Item α → Item β)
    (keeps : ∀ s m, inv s → inv (step s m))
    (tells : ∀ s m, inv s → ∃ st st' x x', read s = some st ∧ read (step s m) = some st' ∧
      read' s = some x ∧ read' (step s m) = some x' ∧ event' x x' = (event st st').map f)
    {s : S} (h : inv s) (moves : List M) :
    history event' (course step read' s moves) =
      (history event (course step read s moves)).map f := by
  induction moves generalizing s with
  | nil =>
    cases hs : read s <;> cases hs' : read' s <;> simp [course, hs, hs', history]
  | cons m rest ih =>
    obtain ⟨st, st', x, x', hst, hst', hx, hx', heq⟩ := tells s m h
    rw [history_course_cons hst hst', history_course_cons hx hx', ih (keeps s m h), heq]
    cases event st st' <;> simp

end Told

end Stream

end WalletWatch
