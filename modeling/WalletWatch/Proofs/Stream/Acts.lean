import Mathlib.Tactic.SplitIfs
import WalletWatch.Stream.Basic

set_option autoImplicit false

/-!
# The life of one stream

A stream by itself: turns of a producer that may do anything, looks of a consumer, and the loss of
the receiving end, each with the word whether the context is cancelled by then. Items are produced,
accepted into the slot and received in one order; none is made up and none is passed over.
-/

namespace WalletWatch

/-- The item that a producer holds while it waits for the slot. -/
def Task.inHand? {σ α : Type} : Task σ α → Option (Item α)
  | .sending item _ => some item
  | _ => none

section InHand

variable {σ α : Type}

@[simp] theorem Task.inHand?_working (s : σ) : (Task.working s : Task σ α).inHand? = none := rfl

@[simp] theorem Task.inHand?_sending (item : Item α) (next : Option σ) :
    (Task.sending item next).inHand? = some item := rfl

@[simp] theorem Task.inHand?_closing (reason : StreamEnd) :
    (Task.closing reason : Task σ α).inHand? = none := rfl

@[simp] theorem Task.inHand?_stopped (reason : StreamEnd) :
    (Task.stopped reason : Task σ α).inHand? = none := rfl

end InHand

/-- Whether a producer has left its loop, for a reason. -/
def Task.EndsBy {σ α : Type} (t : Task σ α) (reason : StreamEnd) : Prop :=
  t = .closing reason ∨ t = .stopped reason

def Task.Active {σ α : Type} (t : Task σ α) : Prop := ∀ reason, ¬ t.EndsBy reason

/-- Whether a producer waits for the slot. -/
def Task.Parked {σ α : Type} (t : Task σ α) : Prop := ∃ item next, t = .sending item next

theorem Task.active_iff {σ α : Type} (t : Task σ α) :
    t.Active ↔ (∃ s, t = .working s) ∨ t.Parked := by
  cases t <;> simp [Active, EndsBy, Parked]

/-- What a producer is at when its item went into the slot. -/
def Task.afterSend {σ α : Type} : Option σ → Task σ α
  | some s => .working s
  | none => .closing .failed

def Arrival.item? {α : Type} : Arrival α → Option (Item α)
  | .item i => some i
  | _ => none

namespace Stream

/-- What can befall a stream. A producer that is getting an item ready does `w` in its turn. -/
inductive Act (σ α : Type) where
  | turn (w : Work σ α)
  | receive
  | hangUp
  | elsewhere

variable {σ α ε : Type}

/-- A stream after an act, which took place while the context was cancelled or not. -/
def after (st : Stream σ α) (cancelled : Bool) : Act σ α → Stream σ α
  | .turn w => (st.turn (fun _ (e : Unit) => (w, e)) cancelled ()).2.1
  | .receive => st.receive.2
  | .hangUp => st.hangUp
  | .elsewhere => st

/-- What a producer does in its turn, as far as it has to decide anything. -/
def intent (st : Stream σ α) (work : σ → ε → Work σ α × ε) (e : ε) : Work σ α :=
  match st.task with
  | .working s => (work s e).1
  | _ => .wait

theorem turn_eq_after (st : Stream σ α) (work : σ → ε → Work σ α × ε) (cancelled : Bool) (e : ε) :
    (st.turn work cancelled e).2.1 = st.after cancelled (.turn (st.intent work e)) := by
  cases h : st.task <;> simp only [after, turn, intent, h]

@[simp] theorem after_elsewhere (st : Stream σ α) (cancelled : Bool) :
    st.after cancelled .elsewhere = st := rfl

section Turns

variable {st : Stream σ α} (cancelled : Bool) (w : Work σ α)

theorem after_working {s : σ} (h : st.task = .working s) :
    st.after cancelled (.turn w) = (st.follow w).2 := by
  simp only [after, turn, h]

theorem after_sending {item : Item α} {next : Option σ} (h : st.task = .sending item next) :
    st.after cancelled (.turn w) = (st.trySend cancelled item next).2 := by
  simp only [after, turn, h]

theorem after_closing {reason : StreamEnd} (h : st.task = .closing reason) :
    st.after cancelled (.turn w) = { st with task := .stopped reason } := by
  simp only [after, turn, h]

theorem after_stopped {reason : StreamEnd} (h : st.task = .stopped reason) :
    st.after cancelled (.turn w) = st := by
  simp only [after, turn, h]

end Turns

@[simp] theorem follow_slot (st : Stream σ α) (w : Work σ α) : (st.follow w).2.slot = st.slot := by
  cases w <;> rfl

@[simp] theorem follow_listening (st : Stream σ α) (w : Work σ α) :
    (st.follow w).2.listening = st.listening := by
  cases w <;> rfl

@[simp] theorem follow_context (st : Stream σ α) (w : Work σ α) :
    (st.follow w).2.context = st.context := by
  cases w <;> rfl

@[simp] theorem trySend_listening (st : Stream σ α) (cancelled : Bool) (item : Item α)
    (next : Option σ) : (st.trySend cancelled item next).2.listening = st.listening := by
  unfold trySend
  split_ifs <;> rfl

@[simp] theorem trySend_context (st : Stream σ α) (cancelled : Bool) (item : Item α)
    (next : Option σ) : (st.trySend cancelled item next).2.context = st.context := by
  unfold trySend
  split_ifs <;> rfl

theorem trySend_cancelled (st : Stream σ α) (item : Item α) (next : Option σ) :
    (st.trySend true item next).2 = { st with task := .closing .cancelled } := rfl

@[simp] theorem receive_listening (st : Stream σ α) : st.receive.2.listening = st.listening := by
  unfold receive
  cases st.slot <;> rfl

@[simp] theorem receive_task (st : Stream σ α) : st.receive.2.task = st.task := by
  unfold receive
  cases st.slot <;> rfl

@[simp] theorem receive_context (st : Stream σ α) : st.receive.2.context = st.context := by
  unfold receive
  cases st.slot <;> rfl

@[simp] theorem receive_slot (st : Stream σ α) : st.receive.2.slot = none := by
  unfold receive
  cases h : st.slot with
  | none => exact h
  | some i => rfl

theorem receive_item? (st : Stream σ α) : st.receive.1.item? = st.slot := by
  unfold receive
  cases st.slot with
  | none => cases st.hasStopped <;> rfl
  | some i => rfl

theorem receive_eq_closed_iff (st : Stream σ α) :
    st.receive.1 = .closed ↔ st.slot = none ∧ ∃ reason, st.task = .stopped reason := by
  unfold receive hasStopped
  cases st.slot with
  | some i => simp
  | none => cases st.task <;> simp

theorem after_listening (st : Stream σ α) (cancelled : Bool) {a : Act σ α} (h : a ≠ .hangUp) :
    (st.after cancelled a).listening = st.listening := by
  cases a with
  | turn w =>
    cases htask : st.task with
    | working s => rw [after_working _ _ htask, follow_listening]
    | sending item next => rw [after_sending _ _ htask, trySend_listening]
    | closing reason => rw [after_closing _ _ htask]
    | stopped reason => rw [after_stopped _ _ htask]
  | receive => exact receive_listening st
  | hangUp => exact absurd rfl h
  | elsewhere => rfl

@[simp] theorem after_context (st : Stream σ α) (cancelled : Bool) (a : Act σ α) :
    (st.after cancelled a).context = st.context := by
  cases a with
  | turn w =>
    cases h : st.task with
    | working s => rw [after_working _ _ h, follow_context]
    | sending item next => rw [after_sending _ _ h, trySend_context]
    | closing reason => rw [after_closing _ _ h]
    | stopped reason => rw [after_stopped _ _ h]
  | receive => exact receive_context st
  | hangUp => rfl
  | elsewhere => rfl

/-- What can become of a stream in one step, where `may` says what its producer may decide. -/
inductive Step (may : Work σ α → Prop) (cancelled : Bool) (st : Stream σ α) : Stream σ α → Prop
  | idle : Step may cancelled st st
  | decided (s : σ) (w : Work σ α) (htask : st.task = .working s) (hmay : may w) :
    Step may cancelled st (st.follow w).2
  | lost (item : Item α) (next : Option σ) (reason : StreamEnd)
    (htask : st.task = .sending item next) (hreason : cancelled = true → reason = .cancelled) :
    Step may cancelled st { st with task := .closing reason }
  | sent (item : Item α) (next : Option σ) (htask : st.task = .sending item next)
    (hwanted : cancelled = false) (hopen : st.listening = true) (hslot : st.slot = none) :
    Step may cancelled st { st with
      slot := some item, task := .afterSend next }
  | ended (reason : StreamEnd) (htask : st.task = .closing reason) :
    Step may cancelled st { st with task := .stopped reason }
  | taken : Step may cancelled st { st with slot := none }
  | hungUp : Step may cancelled st { st with slot := none, listening := false }

theorem step_trySend (may : Work σ α → Prop) (cancelled : Bool) {st : Stream σ α} {item : Item α}
    {next : Option σ} (h : st.task = .sending item next) :
    Step may cancelled st (st.trySend cancelled item next).2 := by
  unfold trySend
  split_ifs with hc hl hs
  · exact .lost item next .cancelled h fun _ => rfl
  · exact .lost item next .receiverGone h fun hc' => absurd hc' hc
  · exact .idle
  · have hsent : Step may cancelled st { st with slot := some item, task := .afterSend next } :=
      .sent item next h (by simpa using hc) (by simpa using hl) (by simpa using hs)
    cases next <;> exact hsent

/-- An act is a step, as long as the producer decides what it may. -/
theorem step_after {may : Work σ α → Prop} (cancelled : Bool) {st : Stream σ α} {a : Act σ α}
    (h : ∀ s w, st.task = .working s → a = .turn w → may w) :
    Step may cancelled st (st.after cancelled a) := by
  cases a with
  | turn w =>
    cases htask : st.task with
    | working s =>
      rw [after_working _ _ htask]
      exact .decided s w htask (h s w htask rfl)
    | sending item next =>
      rw [after_sending _ _ htask]
      exact step_trySend may cancelled htask
    | closing reason =>
      rw [after_closing _ _ htask]
      exact .ended reason htask
    | stopped reason =>
      rw [after_stopped _ _ htask]
      exact .idle
  | receive =>
    change Step may cancelled st st.receive.2
    unfold receive
    cases st.slot with
    | none => exact .idle
    | some i => exact .taken
  | hangUp => exact .hungUp
  | elsewhere => exact .idle

theorem task_after {st : Stream σ α} (cancelled : Bool) {a : Act σ α} (h : ∀ w, a ≠ .turn w) :
    (st.after cancelled a).task = st.task := by
  cases a with
  | turn w => exact absurd rfl (h w)
  | receive => exact receive_task st
  | hangUp => rfl
  | elsewhere => rfl

/-! ## Producers that have stopped -/

theorem hasStopped_iff (st : Stream σ α) :
    st.hasStopped = true ↔ ∃ reason, st.task = .stopped reason := by
  unfold hasStopped
  cases st.task <;> simp

theorem hasStopped_of_task_eq {st st' : Stream σ α} (h : st'.task = st.task) :
    st'.hasStopped = st.hasStopped := by
  unfold hasStopped
  rw [h]

/-- A producer stops only when it has let go of everything. -/
theorem hasStopped_after {st : Stream σ α} (hopen : ∀ reason, st.task ≠ .closing reason)
    (cancelled : Bool) (a : Act σ α) : (st.after cancelled a).hasStopped = st.hasStopped := by
  cases a with
  | turn w =>
    cases htask : st.task with
    | working s =>
      rw [after_working _ _ htask]
      cases w <;> simp [follow, hasStopped, htask]
    | sending item next =>
      rw [after_sending _ _ htask]
      unfold trySend
      split_ifs
      · simp [hasStopped, htask]
      · simp [hasStopped, htask]
      · rfl
      · cases next <;> simp [hasStopped, htask]
    | closing reason => exact absurd htask (hopen reason)
    | stopped reason => rw [after_stopped _ _ htask]
  | receive => exact hasStopped_of_task_eq (receive_task st)
  | hangUp => rfl
  | elsewhere => rfl

theorem turn_ne_stopped {st : Stream σ α} (hopen : ∀ reason, st.task ≠ .closing reason)
    (work : σ → ε → Work σ α × ε) (cancelled : Bool) (e : ε) (reason : StreamEnd) :
    (st.turn work cancelled e).1 ≠ .stopped reason := by
  unfold turn
  cases htask : st.task with
  | working s => cases hw : (work s e).1 <;> simp [follow, hw]
  | sending item next =>
    simp only [trySend]
    split_ifs <;> simp
  | closing reason => exact absurd htask (hopen reason)
  | stopped reason => simp

/-- A producer that heeds its context and has nothing left to do has stopped. -/
theorem hasStopped_of_waited {st : Stream σ α} {work : σ → ε → Work σ α × ε}
    {e : ε} (heeds : ∀ s, (work s e).1 = .stop .cancelled)
    (h : (st.turn work true e).1.moved = false) : st.hasStopped = true := by
  unfold turn at h
  cases htask : st.task with
  | working s => simp [htask, heeds s, follow, Turn.moved] at h
  | sending item next => simp [htask, trySend, Turn.moved] at h
  | closing reason => simp [htask, Turn.moved] at h
  | stopped reason => simp [hasStopped, htask]

end Stream

/-! ## What a producer goes on from -/

/-- A producer that goes on from nothing but what is of a kind. -/
def Stream.Resumes {σ α : Type} (kind : σ → Prop) (st : Stream σ α) : Prop :=
  ∀ s, (st.task = .working s ∨ ∃ i, st.task = .sending i (some s)) → kind s

def Work.Resumes {σ α : Type} (kind : σ → Prop) (w : Work σ α) : Prop :=
  ∀ s, (w = .goOn s ∨ ∃ i, w = .send i s) → kind s

theorem Stream.Step.resumes {σ α : Type} {kind : σ → Prop} {cancelled : Bool} {st st' : Stream σ α}
    (h : Stream.Step (Work.Resumes kind) cancelled st st') (hs : st.Resumes kind) :
    st'.Resumes kind := by
  cases h with
  | decided s w htask hmay =>
    intro next hnext
    cases w with
    | wait => exact hs next hnext
    | goOn s' => exact hmay next (by simpa [Stream.follow] using hnext)
    | send i s' =>
      refine hmay next (.inr ⟨i, ?_⟩)
      simpa [Stream.follow] using hnext
    | fail f => simp [Stream.follow] at hnext
    | stop reason => simp [Stream.follow] at hnext
  | lost item next reason htask => intro s hnext; simp at hnext
  | sent item next htask =>
    intro s hnext
    cases next with
    | none => simp [Task.afterSend] at hnext
    | some s' =>
      refine hs s (.inr ⟨item, ?_⟩)
      rw [htask]
      simpa [Task.afterSend] using hnext
  | ended reason htask => intro s hnext; simp at hnext
  | _ => exact hs

end WalletWatch
