import WalletWatch.Proofs.Context.Signals
import WalletWatch.Proofs.Stream.History

set_option autoImplicit false

/-!
# A stream with any producer

One stream whose producer may do whatever it likes while it gets its next item ready: it sees the
clock, whether its context is cancelled, and anything else there is. The consumer, the holders of
handles and the clock move in between, in any order.
-/

namespace WalletWatch

/-- What a producer does while it gets its next item ready. -/
abbrev Producer (σ α ε : Type) := Millis → Bool → σ → ε → Work σ α × ε

/-- A producer that looks at its context before anything else. -/
def Producer.Heeds {σ α ε : Type} (p : Producer σ α ε) : Prop :=
  ∀ now s e, (p now true s e).1 = .stop .cancelled

/-- A stream, and what its producer sees. -/
structure Solo (σ α ε : Type) where
  stream : Stream σ α
  now : Millis
  signals : Signals
  rest : ε

namespace Solo

variable {σ α ε : Type}

/-- One step of one party. -/
inductive Move (ε : Type) where
  | turn
  | receive
  | hangUp
  | pass (length : Millis)
  | make
  | cancel (signal : Nat)
  | release (signal : Nat)
  | change (rest : ε)

def Move.isTurn : Move ε → Bool
  | turn => true
  | _ => false

/-- A stream that was just opened under a context. -/
def opened (parent : Context) (now : Millis) (signals : Signals) (start : σ) (rest : ε) :
    Solo σ α ε :=
  let (stream, signals') := Stream.openUnder parent signals start
  ⟨stream, now, signals', rest⟩

def isCancelled (s : Solo σ α ε) : Bool := s.stream.isCancelled s.now s.signals

def move (p : Producer σ α ε) (s : Solo σ α ε) : Move ε → Solo σ α ε
  | .turn =>
    let (_, st, rest) := s.stream.turn (p s.now s.isCancelled) s.isCancelled s.rest
    { s with stream := st, rest := rest }
  | .receive => { s with stream := s.stream.receive.2 }
  | .hangUp => { s with stream := s.stream.hangUp }
  | .pass length => { s with now := s.now + length }
  | .make => { s with signals := s.signals.make.2 }
  | .cancel signal => { s with signals := s.signals.cancel signal }
  | .release signal => { s with signals := s.signals.release signal }
  | .change rest => { s with rest := rest }

/-- The states of the stream while some moves are made. -/
def states (p : Producer σ α ε) (s : Solo σ α ε) (moves : List (Move ε)) : List (Stream σ α) :=
  course (move p) (fun s => some s.stream) s moves

/-- What a move does to the stream. -/
def act (p : Producer σ α ε) (s : Solo σ α ε) : Move ε → Stream.Act σ α
  | .turn => .turn (s.stream.intent (p s.now s.isCancelled) s.rest)
  | .receive => .receive
  | .hangUp => .hangUp
  | _ => .elsewhere

variable {p : Producer σ α ε} {s : Solo σ α ε}

theorem stream_move (m : Move ε) :
    (s.move p m).stream = s.stream.after s.isCancelled (s.act p m) := by
  cases m with
  | turn => exact Stream.turn_eq_after _ _ _ _
  | _ => rfl

theorem step_move {may : Work σ α → Prop} (h : ∀ x e, may (p s.now s.isCancelled x e).1)
    (m : Move ε) : Stream.Step may s.isCancelled s.stream (s.move p m).stream := by
  rw [stream_move]
  refine Stream.step_after _ ?_
  intro x w htask ha
  cases m with
  | turn =>
    simp only [act, Stream.intent, htask, Stream.Act.turn.injEq] at ha
    exact ha ▸ h x s.rest
  | _ => cases ha

theorem isCancelled_move (m : Move ε) (h : s.isCancelled = true) :
    (s.move p m).isCancelled = true := by
  have hctx : (s.move p m).stream.context = s.stream.context := by
    rw [stream_move, Stream.after_context]
  unfold isCancelled Stream.isCancelled at h ⊢
  rw [hctx]
  cases m with
  | pass length => exact s.stream.context.isCancelled_mono (Nat.le_add_right _ _) (.refl _) h
  | make => exact s.stream.context.isCancelled_mono (Nat.le_refl _) (Signals.within_make _) h
  | cancel i =>
    exact s.stream.context.isCancelled_mono (Nat.le_refl _) (Signals.within_cancel _ i) h
  | release i =>
    exact s.stream.context.isCancelled_mono (Nat.le_refl _) (Signals.within_release _ i) h
  | _ => exact h

theorem states_isChain (moves : List (Move ε)) :
    (s.states p moves).IsChain (Stream.Goes fun _ => True) := by
  refine course_isChain (fun _ => True) (fun _ _ h => h) ?_ trivial moves
  rintro s m x - hx
  cases hx
  exact ⟨_, rfl, s.isCancelled, step_move (fun _ _ => trivial) m⟩

theorem states_isChain_of_cancelled (may : Work σ α → Prop)
    (h : ∀ now x e, may (p now true x e).1) (hc : s.isCancelled = true) (moves : List (Move ε)) :
    (s.states p moves).IsChain (Stream.Step may true) := by
  refine course_isChain (fun s => s.isCancelled = true)
    (fun _ m hs => isCancelled_move m hs) ?_ hc moves
  intro s m x hs hx
  cases hx
  refine ⟨_, rfl, ?_⟩
  have hstep : Stream.Step may s.isCancelled s.stream (s.move p m).stream :=
    step_move (by rw [hs]; exact h s.now) m
  rwa [hs] at hstep

theorem states_eq_cons (moves : List (Move ε)) : ∃ l, s.states p moves = s.stream :: l := by
  cases moves <;> exact ⟨_, rfl⟩

/-- What the consumer of a stream receives is what its producer produced, in that order. -/
theorem received_prefix_produced (parent : Context) (now : Millis) (signals : Signals) (start : σ)
    (rest : ε) (moves : List (Move ε)) :
    Stream.history Stream.received ((opened parent now signals start rest).states p moves) <+:
      Stream.history Stream.produced ((opened parent now signals start rest).states p moves) := by
  have hchain : ((opened parent now signals start rest).states p moves).IsChain
      (Stream.Goes fun _ => True) := states_isChain moves
  obtain ⟨l, hl⟩ : ∃ l, (opened parent now signals start rest).states p moves =
      (opened parent now signals start rest).stream :: l := states_eq_cons moves
  rw [hl] at hchain ⊢
  simpa [opened, Stream.openUnder] using Stream.history_received_le hchain

theorem quiet_of_cancelled (hc : s.isCancelled = true) (moves : List (Move ε)) :
    Stream.Quiet s.stream (s.states p moves) := by
  have hchain : (s.states p moves).IsChain (Stream.Step (fun _ => True) true) :=
    states_isChain_of_cancelled _ (fun _ _ _ => trivial) hc moves
  obtain ⟨l, hl⟩ : ∃ l, s.states p moves = s.stream :: l := states_eq_cons moves
  rw [hl] at hchain ⊢
  exact Stream.quiet_of_cancelled hchain

theorem stops_of_cancelled (may : Work σ α → Prop) {left : Task σ α → Prop}
    (hmay : ∀ now x e, may (p now true x e).1)
    (leaves : ∀ st st' : Stream σ α, Stream.Step may true st st' → left st.task →
      st'.task = st.task ∨ st'.task = .closing .cancelled)
    (turns : ∀ (st : Stream σ α) w, (∀ x, st.task = .working x → may w) → left st.task →
      (st.after true (.turn w)).task = .closing .cancelled)
    (hc : s.isCancelled = true) (hl : left s.stream.task) {moves : List (Move ε)}
    (enough : 2 ≤ moves.countP Move.isTurn) :
    (moves.foldl (move p) s).stream.task = .stopped .cancelled := by
  have reached := foldl_reaches (move p)
    (fun n (s : Solo σ α ε) => s.isCancelled = true ∧ Stream.Nears left 0 n s.stream) ?_ ?_ moves
    ⟨hc, .inr (.inr ⟨hl, Nat.le_refl _⟩)⟩ enough
  · exact reached.2.stopped
  · rintro n s m ⟨hs, hn⟩
    have hstep : Stream.Step may s.isCancelled s.stream (s.move p m).stream :=
      step_move (by rw [hs]; exact hmay s.now) m
    rw [hs] at hstep
    exact ⟨isCancelled_move m hs, hn.step hstep (leaves _ _ hstep) (Nat.le_refl _)⟩
  · rintro n s m hm ⟨hs, hn⟩
    refine ⟨isCancelled_move m hs, ?_⟩
    cases m with
    | turn =>
      rw [stream_move, hs]
      refine hn.turn (fun hl => turns _ _ ?_ hl) (Nat.le_refl _)
      intro x htask
      simp only [Stream.intent, htask, hs]
      exact hmay s.now x s.rest
    | _ => cases hm

theorem parked_stops (hc : s.isCancelled = true) (hp : s.stream.task.Parked)
    {moves : List (Move ε)} (enough : 2 ≤ moves.countP Move.isTurn) :
    (moves.foldl (move p) s).stream.task = .stopped .cancelled := by
  refine stops_of_cancelled (fun _ => True) (fun _ _ _ => trivial) ?_ ?_ hc hp enough
  · exact fun st st' hs hp => hs.parked_of_cancelled hp
  · exact fun st w _ hp => Stream.after_turn_of_parked w hp

theorem silent_of_cancelled (hheeds : p.Heeds) (hc : s.isCancelled = true)
    (moves : List (Move ε)) :
    Stream.Silent s.stream (s.states p moves) (moves.countP Move.isTurn) 2 where
  toQuiet := quiet_of_cancelled hc moves
  ends_cancelled := by
    intro ha
    have hchain : (s.states p moves).IsChain (Stream.Step (· = .stop .cancelled) true) :=
      states_isChain_of_cancelled (· = .stop .cancelled) hheeds hc moves
    obtain ⟨l, hl⟩ : ∃ l, s.states p moves = s.stream :: l := states_eq_cons moves
    rw [hl] at hchain ⊢
    exact Stream.ends_of_cancelled (fun _ hw => hw) hchain ha
  stops := by
    intro ha enough
    have hstop : (moves.foldl (move p) s).stream.task = .stopped .cancelled := by
      refine stops_of_cancelled (· = .stop .cancelled) hheeds ?_ ?_ hc ha enough
      · exact fun st st' hs ha => hs.active_of_cancelled (fun _ hw => hw) ha
      · exact fun st w hw ha => Stream.after_turn_of_active hw ha
    exact ⟨_, getLast?_course rfl, hstop,
      fun hslot => (Stream.receive_eq_closed_iff _).mpr ⟨hslot, _, hstop⟩⟩

end Solo

end WalletWatch
