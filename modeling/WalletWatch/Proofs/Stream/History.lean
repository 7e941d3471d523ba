import WalletWatch.Proofs.Course
import WalletWatch.Proofs.Stream.Acts

set_option autoImplicit false

/-!
# What passes through a stream

From the states that a stream goes through one reads off what its producer produced, what its slot
accepted and what its consumer received. All three keep one order, and once its context is cancelled
a stream accepts nothing more.
-/

namespace WalletWatch

namespace Stream

variable {σ α : Type}

/-- The item that the producer came to hold between two states. -/
def produced (st st' : Stream σ α) : Option (Item α) :=
  if st.task.inHand?.isSome then none else st'.task.inHand?

def accepted (st st' : Stream σ α) : Option (Item α) :=
  if st.slot.isSome then none else st'.slot

/-- The item that the consumer took out. What is in the slot when it hangs up is lost. -/
def received (st st' : Stream σ α) : Option (Item α) :=
  if st'.slot.isSome || !st'.listening then none else st.slot

def history (event : Stream σ α → Stream σ α → Option (Item α)) :
    List (Stream σ α) → List (Item α)
  | st :: st' :: rest => (event st st').toList ++ history event (st' :: rest)
  | _ => []

theorem history_eq_nil {event : Stream σ α → Stream σ α → Option (Item α)}
    {l : List (Stream σ α)} (h : l.IsChain fun st st' => event st st' = none) :
    history event l = [] := by
  induction h with
  | nil => rfl
  | singleton => rfl
  | cons_cons hr _ ih => simp only [history, hr, ih, Option.toList_none, List.append_nil]

namespace Step

variable {may : Work σ α → Prop} {cancelled : Bool} {st st' : Stream σ α}

theorem mono {may' : Work σ α → Prop} (h : Step may cancelled st st')
    (himp : ∀ w, may w → may' w) : Step may' cancelled st st' := by
  cases h with
  | idle => exact .idle
  | decided s w htask hmay => exact .decided s w htask (himp w hmay)
  | lost item next reason htask hreason => exact .lost item next reason htask hreason
  | sent item next htask hwanted hopen hslot => exact .sent item next htask hwanted hopen hslot
  | ended reason htask => exact .ended reason htask
  | taken => exact .taken
  | hungUp => exact .hungUp

theorem listening (h : Step may cancelled st st') (hl : st'.listening = true) :
    st.listening = true := by
  cases h with
  | decided s w => simpa using hl
  | hungUp => cases hl
  | _ => exact hl

theorem slot_cases (h : Step may cancelled st st') :
    st'.slot = st.slot ∨ st'.slot = none ∨
      (cancelled = false ∧ ∃ item next, st.task = .sending item next) := by
  cases h with
  | decided s w => exact .inl (follow_slot st w)
  | sent item next htask hwanted => exact .inr (.inr ⟨hwanted, item, next, htask⟩)
  | taken => exact .inr (.inl rfl)
  | hungUp => exact .inr (.inl rfl)
  | _ => exact .inl rfl

theorem slot_of_cancelled (h : Step may true st st') : st'.slot = st.slot ∨ st'.slot = none := by
  rcases h.slot_cases with h | h | ⟨hc, _⟩
  · exact .inl h
  · exact .inr h
  · cases hc

theorem endsBy (h : Step may cancelled st st') {reason : StreamEnd}
    (he : st.task.EndsBy reason) : st'.task.EndsBy reason := by
  cases h with
  | decided s w htask => rcases he with he | he <;> cases htask.symm.trans he
  | lost item next r htask => rcases he with he | he <;> cases htask.symm.trans he
  | sent item next htask => rcases he with he | he <;> cases htask.symm.trans he
  | ended r htask =>
    rcases he with he | he
    · cases htask.symm.trans he
      exact .inr rfl
    · cases htask.symm.trans he
  | _ => exact he

theorem stopped (h : Step may cancelled st st') {reason : StreamEnd}
    (he : st.task = .stopped reason) : st'.task = .stopped reason := by
  cases h with
  | decided s w htask => cases htask.symm.trans he
  | lost item next r htask => cases htask.symm.trans he
  | sent item next htask => cases htask.symm.trans he
  | ended r htask => cases htask.symm.trans he
  | _ => exact he

/-- An item stays in its place in the order, unless it is lost; then nothing is received any more,
or nothing is produced any more. -/
theorem order (h : Step may cancelled st st') :
    (received st st').toList ++ (st'.slot.toList ++ st'.task.inHand?.toList) =
        st.slot.toList ++ (st.task.inHand?.toList ++ (produced st st').toList) ∨
      (received st st' = none ∧ st'.listening = false) ∨
      (received st st' = none ∧ st'.slot = st.slot ∧ ∃ reason, st'.task.EndsBy reason) := by
  have received_of_slot_eq : ∀ x : Stream σ α, x.slot = st.slot → received st x = none := by
    intro x hx
    cases hslot : st.slot <;> simp [received, hx, hslot]
  cases h with
  | idle =>
    refine .inl ?_
    rw [received_of_slot_eq st rfl]
    cases hhand : st.task.inHand? <;> simp [produced, hhand]
  | decided s w htask =>
    refine .inl ?_
    have hhand : st.task.inHand? = none := by simp [htask]
    rw [received_of_slot_eq _ (follow_slot st w), follow_slot]
    simp [produced, hhand]
  | lost item next reason htask =>
    exact .inr (.inr ⟨received_of_slot_eq _ rfl, rfl, reason, .inl rfl⟩)
  | sent item next htask hwanted hopen hslot =>
    refine .inl ?_
    have hhand : st.task.inHand? = some item := by simp [htask]
    have hempty : (Task.afterSend next : Task σ α).inHand? = none := by cases next <;> rfl
    simp [received, produced, hhand, hslot, hempty]
  | ended reason htask =>
    refine .inl ?_
    have hhand : st.task.inHand? = none := by simp [htask]
    rw [received_of_slot_eq { st with task := .stopped reason } rfl]
    simp [produced, hhand]
  | taken =>
    cases hl : st.listening with
    | false => exact .inr (.inl ⟨by simp [received], rfl⟩)
    | true =>
      refine .inl ?_
      cases hhand : st.task.inHand? <;> simp [received, produced, hhand]
  | hungUp => exact .inr (.inl ⟨by simp [received], rfl⟩)

end Step

theorem endsBy_after {st : Stream σ α} {reason : StreamEnd} (he : st.task.EndsBy reason)
    (cancelled : Bool) (a : Act σ α) : (st.after cancelled a).task.EndsBy reason := by
  have hs : Step (fun _ => True) cancelled st (st.after cancelled a) :=
    step_after cancelled fun _ _ _ _ => trivial
  exact hs.endsBy he

/-- Something becomes of a stream, while its context is cancelled or not. -/
def Goes (may : Work σ α → Prop) (st st' : Stream σ α) : Prop :=
  ∃ cancelled, Step may cancelled st st'

section Order

variable {may : Work σ α → Prop} {st : Stream σ α} {l : List (Stream σ α)}

theorem not_listening_of_isChain (h : (st :: l).IsChain (Goes may)) (hl : st.listening = false) :
    ∀ x ∈ st :: l, x.listening = false := by
  refine forall_of_isChain ?_ h ?_
  · rintro x y ⟨c, hs⟩ hx
    cases hy : y.listening with
    | false => rfl
    | true => exact absurd (hs.listening hy) (by simp [hx])
  · simpa using hl

theorem endsBy_of_isChain (h : (st :: l).IsChain (Goes may)) {reason : StreamEnd}
    (he : st.task.EndsBy reason) : ∀ x ∈ st :: l, x.task.EndsBy reason := by
  refine forall_of_isChain ?_ h ?_
  · rintro x y ⟨c, hs⟩ hx
    exact hs.endsBy hx
  · simpa using he

theorem history_received_of_not_listening (h : (st :: l).IsChain (Goes may))
    (hl : st.listening = false) : history received (st :: l) = [] := by
  refine history_eq_nil (List.IsChain.imp_of_mem_imp ?_ h)
  intro x y _ hy _
  simp [received, not_listening_of_isChain h hl y hy]

theorem history_produced_of_endsBy (h : (st :: l).IsChain (Goes may)) {reason : StreamEnd}
    (he : st.task.EndsBy reason) : history produced (st :: l) = [] := by
  refine history_eq_nil (List.IsChain.imp_of_mem_imp ?_ h)
  intro x y _ hy _
  rcases endsBy_of_isChain h he y hy with hy | hy <;> simp [produced, hy]

/-- Items are received in the order in which they are produced, and none is passed over: those in
the slot and in the producer's hand come first. -/
theorem history_received_le (h : (st :: l).IsChain (Goes may)) :
    history received (st :: l) <+:
      st.slot.toList ++ (st.task.inHand?.toList ++ history produced (st :: l)) := by
  induction l generalizing st with
  | nil => exact List.nil_prefix
  | cons st' rest ih =>
    obtain ⟨⟨c, hs⟩, hrest⟩ := List.isChain_cons_cons.mp h
    have later := ih hrest
    change (received st st').toList ++ history received (st' :: rest) <+:
      st.slot.toList ++ (st.task.inHand?.toList ++
        ((produced st st').toList ++ history produced (st' :: rest)))
    -- The step keeps the order, or nothing is received behind it, or nothing is produced behind it.
    rcases hs.order with heq | ⟨hnone, hdeaf⟩ | ⟨hnone, hslot, reason, hend⟩
    · have kept := (List.prefix_append_right_inj (received st st').toList).mpr later
      rw [← List.append_assoc st'.slot.toList, ← List.append_assoc _ (_ ++ _), heq] at kept
      simpa only [List.append_assoc] using kept
    · rw [hnone, history_received_of_not_listening hrest hdeaf]
      exact List.nil_prefix
    · have hempty : st'.task.inHand? = none := by rcases hend with hend | hend <;> rw [hend] <;> rfl
      rw [history_produced_of_endsBy hrest hend, hempty, hslot] at later
      rw [hnone]
      exact later.trans (by simp)

end Order

/-- What is left of a stream once its context is cancelled, along its states from `st` on. -/
structure Quiet (st : Stream σ α) (states : List (Stream σ α)) : Prop where
  /-- No item is accepted any more, neither a value nor a failure. -/
  accepts_nothing : history accepted states = []
  /-- At most the item that is in the slot already is received. -/
  receives_slot : history received states <+: st.slot.toList
  stays_empty : states.Pairwise fun x y => x.slot = none → y.slot = none
  stays_closed : states.Pairwise fun x y => x.receive.1 = .closed → y.receive.1 = .closed
  /-- An item that waits for the slot is lost, also if it is the failure that ends the stream. -/
  discards : st.task.Parked → ∀ x ∈ states, x.task = st.task ∨ x.task.EndsBy .cancelled

/-- The same of a stream whose producer heeds its context, which ends as cancelled and has stopped
once it had enough turns; from then on a look shows the item in the slot or the end. -/
structure Silent (st : Stream σ α) (states : List (Stream σ α)) (turns enough : Nat) : Prop extends
    Quiet st states where
  ends_cancelled : st.task.Active → ∀ x ∈ states, x.task = st.task ∨ x.task.EndsBy .cancelled
  stops : st.task.Active → enough ≤ turns → ∃ last, states.getLast? = some last ∧
    last.task = .stopped .cancelled ∧ (last.slot = none → last.receive.1 = .closed)

section Cancelled

variable {may : Work σ α → Prop} {st : Stream σ α} {l : List (Stream σ α)}

namespace Step

variable {st' : Stream σ α}

theorem slot_none (h : Step may true st st') (hs : st.slot = none) : st'.slot = none := by
  rcases h.slot_of_cancelled with heq | hnone
  · exact heq.trans hs
  · exact hnone

theorem accepted_none (h : Step may true st st') : accepted st st' = none := by
  cases hs : st.slot with
  | none => simp [accepted, hs, h.slot_none hs]
  | some i => simp [accepted, hs]

theorem parked_of_cancelled (h : Step may true st st') (hp : st.task.Parked) :
    st'.task = st.task ∨ st'.task = .closing .cancelled := by
  obtain ⟨item, next, htask⟩ := hp
  cases h with
  | decided s w hworking => cases hworking.symm.trans htask
  | lost item' next' reason htask' hreason => exact .inr (by rw [hreason rfl])
  | sent item' next' htask' hwanted => cases hwanted
  | ended reason hclosing => cases hclosing.symm.trans htask
  | _ => exact .inl rfl

theorem active_of_cancelled (h : Step may true st st')
    (heeds : ∀ w, may w → w = .stop .cancelled) (ha : st.task.Active) :
    st'.task = st.task ∨ st'.task = .closing .cancelled := by
  rcases (Task.active_iff st.task).mp ha with ⟨s, htask⟩ | hp
  · cases h with
    | decided s' w hworking hmay =>
      cases heeds w hmay
      exact .inr rfl
    | lost item next reason hsending => cases hsending.symm.trans htask
    | sent item next hsending => cases hsending.symm.trans htask
    | ended reason hclosing => cases hclosing.symm.trans htask
    | _ => exact .inl rfl
  · exact h.parked_of_cancelled hp

end Step

theorem history_received_of_cancelled (h : (st :: l).IsChain (Step may true)) :
    history received (st :: l) <+: st.slot.toList := by
  induction l generalizing st with
  | nil => exact List.nil_prefix
  | cons st' rest ih =>
    obtain ⟨hs, hrest⟩ := List.isChain_cons_cons.mp h
    have later := ih hrest
    change (received st st').toList ++ history received (st' :: rest) <+: st.slot.toList
    rcases hs.slot_of_cancelled with hslot | hslot
    · have hnone : received st st' = none := by
        cases hs : st.slot <;> simp [received, hslot, hs]
      rw [hnone, ← hslot]
      exact later
    · rw [hslot] at later
      rw [List.prefix_nil.mp later, List.append_nil]
      cases hl : st'.listening with
      | false => simp [received, hl]
      | true => simp [received, hslot, hl]

/-- A task that is left only for the end as cancelled has come to that end or is still there. -/
theorem task_of_cancelled (leaves : ∀ x y : Stream σ α, Step may true x y → x.task = st.task →
      y.task = st.task ∨ y.task = .closing .cancelled)
    (h : (st :: l).IsChain (Step may true)) :
    ∀ x ∈ st :: l, x.task = st.task ∨ x.task.EndsBy .cancelled := by
  refine forall_of_isChain ?_ h ?_
  · rintro x y hs (hx | hx)
    · rcases leaves x y hs hx with hy | hy
      · exact .inl hy
      · exact .inr (.inl hy)
    · exact .inr (hs.endsBy hx)
  · simp

theorem quiet_of_cancelled (h : (st :: l).IsChain (Step may true)) : Quiet st (st :: l) where
  accepts_nothing := history_eq_nil (h.imp fun _ _ hs => hs.accepted_none)
  receives_slot := history_received_of_cancelled h
  stays_empty := pairwise_of_isChain (fun _ _ hs => hs.slot_none) h
  stays_closed := by
    refine pairwise_of_isChain ?_ h
    intro x y hs hx
    obtain ⟨hslot, reason, htask⟩ := (receive_eq_closed_iff x).mp hx
    exact (receive_eq_closed_iff y).mpr ⟨hs.slot_none hslot, reason, hs.stopped htask⟩
  discards := by
    intro hp
    refine task_of_cancelled ?_ h
    intro x y hs hx
    rw [← hx]
    exact hs.parked_of_cancelled (hx ▸ hp)

theorem ends_of_cancelled (heeds : ∀ w, may w → w = .stop .cancelled)
    (h : (st :: l).IsChain (Step may true)) (ha : st.task.Active) :
    ∀ x ∈ st :: l, x.task = st.task ∨ x.task.EndsBy .cancelled := by
  refine task_of_cancelled ?_ h
  intro x y hs hx
  rw [← hx]
  exact hs.active_of_cancelled heeds (hx ▸ ha)

/-- A producer is at most `n` turns away from its end as cancelled, where `held` of them go by while
it lets go of what it uses. Until it ends it is somewhere in `left`. -/
def Nears (left : Task σ α → Prop) (held n : Nat) (st : Stream σ α) : Prop :=
  st.task = .stopped .cancelled ∨ (st.task = .closing .cancelled ∧ held + 1 ≤ n) ∨
    (left st.task ∧ held + 2 ≤ n)

namespace Nears

variable {left : Task σ α → Prop} {held held' n : Nat} {st' : Stream σ α}

theorem step (hn : Nears left held n st) (h : Step may true st st')
    (leaves : left st.task → st'.task = st.task ∨ st'.task = .closing .cancelled)
    (hle : held' ≤ held) : Nears left held' n st' := by
  rcases hn with hstop | ⟨hclosing, hlt⟩ | ⟨hleft, hlt⟩
  · exact .inl (h.stopped hstop)
  · rcases h.endsBy (.inl hclosing) with hclosing | hstop
    · exact .inr (.inl ⟨hclosing, by omega⟩)
    · exact .inl hstop
  · rcases leaves hleft with hsame | hclosing
    · exact .inr (.inr ⟨hsame ▸ hleft, by omega⟩)
    · exact .inr (.inl ⟨hclosing, by omega⟩)

theorem turn {w : Work σ α} (hn : Nears left held (n + 1) st)
    (leaves : left st.task → (st.after true (.turn w)).task = .closing .cancelled)
    (hle : held' ≤ held) : Nears left held' n (st.after true (.turn w)) := by
  rcases hn with hstop | ⟨hclosing, hlt⟩ | ⟨hleft, hlt⟩
  · exact .inl (by rw [after_stopped _ _ hstop, hstop])
  · exact .inl (by rw [after_closing _ _ hclosing])
  · exact .inr (.inl ⟨leaves hleft, by omega⟩)

theorem stopped (hn : Nears left held 0 st) : st.task = .stopped .cancelled := by
  rcases hn with hstop | ⟨_, hlt⟩ | ⟨_, hlt⟩
  · exact hstop
  · omega
  · omega

end Nears

theorem after_turn_of_parked (w : Work σ α) (hp : st.task.Parked) :
    (st.after true (.turn w)).task = .closing .cancelled := by
  obtain ⟨item, next, htask⟩ := hp
  rw [after_sending _ _ htask, trySend_cancelled]

theorem after_turn_of_active {w : Work σ α}
    (heeds : ∀ s, st.task = .working s → w = .stop .cancelled)
    (ha : st.task.Active) : (st.after true (.turn w)).task = .closing .cancelled := by
  rcases (Task.active_iff st.task).mp ha with ⟨s, htask⟩ | hp
  · rw [after_working _ _ htask, heeds s htask]
    rfl
  · exact after_turn_of_parked w hp

end Cancelled

end Stream

end WalletWatch
