import Mathlib.Tactic.SplitIfs
import WalletWatch.Proofs.Stream.Backlog

set_option autoImplicit false

/-!
# Streams with other items

A stream does not look at its items. With other items in the same places its producer does the same
in each turn and its consumer sees an item, the end or nothing at the same looks; and what holds of
each item that is made holds of each item that is received.
-/

namespace WalletWatch

variable {σ α β ε : Type}

/-! ## Items changed one by one -/

def Task.mapItem (f : Item α → Item β) : Task σ α → Task σ β
  | .working s => .working s
  | .sending item next => .sending (f item) next
  | .closing reason => .closing reason
  | .stopped reason => .stopped reason

def Arrival.mapItem (f : Item α → Item β) : Arrival α → Arrival β
  | .item i => .item (f i)
  | .closed => .closed
  | .pending => .pending

/-- What a producer decides about other values; failures stay as they are. -/
def Work.mapValue (f : α → β) : Work σ α → Work σ β
  | .wait => .wait
  | .goOn s => .goOn s
  | .send item next => .send (item.map f) next
  | .fail failure => .fail failure
  | .stop reason => .stop reason

namespace Stream

/-- The same stream with another value in the place of each value. -/
def mapValue (f : α → β) (st : Stream σ α) : Stream σ β where
  context := st.context
  slot := st.slot.map (·.map f)
  listening := st.listening
  task := st.task.mapItem (·.map f)

variable (f : α → β) (st : Stream σ α)

@[simp] theorem mapValue_listening : (st.mapValue f).listening = st.listening := rfl

@[simp] theorem mapValue_slot : (st.mapValue f).slot = st.slot.map (·.map f) := rfl

@[simp] theorem mapValue_task : (st.mapValue f).task = st.task.mapItem (·.map f) := rfl

@[simp] theorem hasStopped_mapValue : (st.mapValue f).hasStopped = st.hasStopped := by
  unfold hasStopped
  rw [mapValue_task]
  cases st.task <;> rfl

theorem receive_mapValue : (st.mapValue f).receive =
    (st.receive.1.mapItem (·.map f), st.receive.2.mapValue f) := by
  unfold receive
  cases hslot : st.slot with
  | none =>
    simp only [mapValue_slot, hslot, Option.map_none, hasStopped_mapValue]
    cases st.hasStopped <;> rfl
  | some i =>
    simp only [mapValue_slot, hslot, Option.map_some]
    rfl

theorem follow_mapValue (w : Work σ α) : (st.mapValue f).follow (w.mapValue f) =
    ((st.follow w).1, (st.follow w).2.mapValue f) := by
  cases w <;> rfl

theorem trySend_mapValue (cancelled : Bool) (item : Item α) (next : Option σ) :
    (st.mapValue f).trySend cancelled (item.map f) next =
      ((st.trySend cancelled item next).1, (st.trySend cancelled item next).2.mapValue f) := by
  unfold trySend
  simp only [mapValue_listening, mapValue_slot, Option.isSome_map]
  split_ifs
  · rfl
  · rfl
  · rfl
  · cases next <;> rfl

theorem turn_mapValue {work : σ → ε → Work σ α × ε} {work' : σ → ε → Work σ β × ε}
    (same : ∀ s e, work' s e = ((work s e).1.mapValue f, (work s e).2)) (cancelled : Bool) (e : ε) :
    (st.mapValue f).turn work' cancelled e =
      ((st.turn work cancelled e).1, (st.turn work cancelled e).2.1.mapValue f,
        (st.turn work cancelled e).2.2) := by
  unfold turn
  rw [mapValue_task]
  cases htask : st.task with
  | working s =>
    simp only [Task.mapItem, same]
    rw [follow_mapValue]
  | sending item next =>
    simp only [Task.mapItem]
    rw [trySend_mapValue]
  | closing reason => rfl
  | stopped reason => simp only [Task.mapItem]

/-! ## What holds of each item -/

/-- Each item that has not been received yet is of a kind. -/
def Holds (kind : Item α → Prop) (st : Stream σ α) : Prop :=
  (∀ i ∈ st.slot, kind i) ∧ ∀ i ∈ st.task.inHand?, kind i

variable {st} {kind : Item α → Prop}

theorem Step.holds {cancelled : Bool} {st' : Stream σ α}
    (h : Step (fun w => ∀ i ∈ w.item?, kind i) cancelled st st') (hs : st.Holds kind) :
    st'.Holds kind := by
  obtain ⟨slot, hand⟩ := hs
  cases h with
  | idle => exact ⟨slot, hand⟩
  | decided s w htask hmay =>
    refine ⟨by rwa [follow_slot], ?_⟩
    cases w with
    | send item next => exact hmay
    | fail failure => exact hmay
    | wait => exact hand
    | goOn s' => simp [follow]
    | stop reason => simp [follow]
  | lost item next reason htask => exact ⟨slot, by simp⟩
  | sent item next htask =>
    rw [htask] at hand
    exact ⟨hand, by cases next <;> simp [Task.afterSend]⟩
  | ended reason htask => exact ⟨slot, by simp⟩
  | taken => exact ⟨by simp, hand⟩
  | hungUp => exact ⟨by simp, hand⟩

theorem Holds.of_receive (hs : st.Holds kind) {i : Item α} (h : st.receive.1 = .item i) :
    kind i := by
  refine hs.1 i ?_
  have taken := receive_item? st
  rw [h] at taken
  exact taken.symm

end Stream

end WalletWatch
