import Mathlib
import WalletWatch.Proofs.Chain.Layout
import WalletWatch.Proofs.Stream.Solo

set_option autoImplicit false

/-!
# Cancelled streams

Once the context of a stream is cancelled, nothing more goes into its slot: its producer loses the
item it holds and ends as cancelled, and all that its consumer may still see is the one item that is
in the slot. This holds of the streams of a chain and of a stream with any producer.
-/

namespace WalletWatch

/-- A producer that may do anything, but that stops once it sees that it is cancelled. -/
def Work.Heeding {σ α : Type} (cancelled : Bool) (w : Work σ α) : Prop :=
  cancelled = true → w = .stop .cancelled

namespace Chain

/-- The stream of prices at a place, if there is one yet. -/
def price? (c : Chain) (i : Nat) : Option (Stream Pace PriceQuote) :=
  (c.prices[i]?).map PriceLine.stream

def balance? (c : Chain) (k : Nat) : Option (Stream Unit Balance) :=
  (c.balances[k]?).map BalanceLine.stream

/-- The states of a stream of prices while some moves are made. -/
def priceStates (c : Chain) (i : Nat) (moves : List Move) : List (Stream Pace PriceQuote) :=
  course next (fun c => c.price? i) c moves

def balanceStates (c : Chain) (k : Nat) (moves : List Move) : List (Stream Unit Balance) :=
  course next (fun c => c.balance? k) c moves

def Move.turnsPrice (i : Nat) : Move → Bool
  | turnPrice j => j == i
  | _ => false

def Move.turnsBalance (k : Nat) : Move → Bool
  | turnBalance j => j == k
  | _ => false

theorem price?_eq_some {c : Chain} {i : Nat} {st : Stream Pace PriceQuote} :
    c.price? i = some st ↔ ∃ l, c.prices[i]? = some l ∧ l.stream = st := by
  simp [price?]

theorem balance?_eq_some {c : Chain} {k : Nat} {st : Stream Unit Balance} :
    c.balance? k = some st ↔ ∃ b, c.balances[k]? = some b ∧ b.stream = st := by
  simp [balance?]

/-! ## Each line heeds its context -/

section Heeding

variable {c : Chain}

theorem heeding_priceAct {i : Nat} {l : PriceLine} {m : Move} {s : Pace} {w : Work Pace PriceQuote}
    (htask : l.stream.task = .working s) (hact : c.priceAct i l m = .turn w) :
    w.Heeding (l.stream.isCancelled c.now c.signals) := by
  intro hc
  rw [eq_intent_of_priceAct hact, Stream.intent, htask, hc]
  rfl

theorem heeding_balanceAct {k : Nat} {b : BalanceLine} {m : Move} {s : Unit}
    {w : Work Unit Balance} (htask : b.stream.task = .working s)
    (hact : c.balanceAct k b m = .turn w) : w.Heeding (b.stream.isCancelled c.now c.signals) := by
  intro hc
  cases m with
  | turnBalance j =>
    simp only [balanceAct] at hact
    split_ifs at hact
    simp only [balanceTurn, htask] at hact
    split at hact
    · cases hact
    · simp only [Stream.intent, htask, hc, Stream.Act.turn.injEq] at hact
      exact hact.symm
  | receiveBalance j =>
    simp only [balanceAct] at hact
    split_ifs at hact
  | hangUpBalance j =>
    simp only [balanceAct] at hact
    split_ifs at hact
  | _ => cases hact

end Heeding

/-- A stream of a chain, found by `read`: it makes one step at a time and heeds its context, and it
begins with nothing in its slot. -/
structure Line {σ α : Type} (read : Chain → Option (Stream σ α)) : Prop where
  goes : ∀ c m st, read c = some st → ∃ st', read (c.next m) = some st' ∧
    st'.context = st.context ∧
    Stream.Step (Work.Heeding (st.isCancelled c.now c.signals))
      (st.isCancelled c.now c.signals) st st'
  begins : ∀ c m st, read c = none → read (c.next m) = some st →
    st.slot = none ∧ st.task.inHand? = none

theorem line_price (i : Nat) : Line (fun c => c.price? i) where
  goes := by
    intro c m st h
    obtain ⟨l, hl, rfl⟩ := price?_eq_some.mp h
    refine ⟨_, price?_eq_some.mpr ⟨_, getElem?_prices_next hl m, rfl⟩, ?_, ?_⟩
    · exact Stream.after_context _ _ _
    · exact Stream.step_after _ fun s w htask hact => heeding_priceAct htask hact
  begins := by
    intro c m st hnone h
    obtain ⟨l', hl', rfl⟩ := price?_eq_some.mp h
    have hmissing : ∀ l, c.prices[i]? ≠ some l := by
      intro l hl
      simp [price?, hl] at hnone
    rcases c.steady_or_opens m with hs | ⟨ctx, w, -, heq | ⟨source, heq⟩ | ⟨source, heq⟩⟩
    · obtain ⟨l, hl, -⟩ := hs.price_before hl'
      exact absurd hl (hmissing l)
    · rw [heq] at hl'
      exact absurd hl' (hmissing l')
    · rw [heq] at hl'
      rcases price_startPrices hl' with hl | ⟨-, hst⟩
      · exact absurd hl (hmissing l')
      · rw [hst]
        exact ⟨rfl, rfl⟩
    · rw [heq] at hl'
      rcases price_startBalances hl' with hl | ⟨-, hst⟩
      · exact absurd hl (hmissing l')
      · rw [hst]
        exact ⟨rfl, rfl⟩

theorem line_balance (k : Nat) : Line (fun c => c.balance? k) where
  goes := by
    intro c m st h
    obtain ⟨b, hb, rfl⟩ := balance?_eq_some.mp h
    refine ⟨_, balance?_eq_some.mpr ⟨_, getElem?_balances_next hb m, rfl⟩, ?_, ?_⟩
    · exact Stream.after_context _ _ _
    · exact Stream.step_after _ fun s w htask hact => heeding_balanceAct htask hact
  begins := by
    intro c m st hnone h
    obtain ⟨b', hb', rfl⟩ := balance?_eq_some.mp h
    have hmissing : ∀ b, c.balances[k]? ≠ some b := by
      intro b hb
      simp [balance?, hb] at hnone
    rcases c.steady_or_opens m with hs | ⟨ctx, w, -, heq | ⟨source, heq⟩ | ⟨source, heq⟩⟩
    · obtain ⟨b, hb, -⟩ := hs.balance_before hb'
      exact absurd hb (hmissing b)
    · rw [heq] at hb'
      exact absurd hb' (hmissing b')
    · rw [heq] at hb'
      exact absurd hb' (hmissing b')
    · rw [heq] at hb'
      rcases balance_startBalances hb' with hb | ⟨-, rfl⟩
      · exact absurd hb (hmissing b')
      · exact ⟨rfl, rfl⟩

namespace Line

variable {σ α : Type} {read : Chain → Option (Stream σ α)} {c : Chain} {st : Stream σ α}

theorem isChain (h : Line read) (c : Chain) (moves : List Move) :
    (course next read c moves).IsChain (Stream.Goes fun _ => True) := by
  refine course_isChain (fun _ => True) (fun _ _ h => h) ?_ trivial moves
  rintro c m st - hst
  obtain ⟨st', hst', -, hstep⟩ := h.goes c m st hst
  exact ⟨st', hst', _, hstep.mono fun _ _ => trivial⟩

/-- What is received of a stream is what was produced, in that order, from its beginning on. -/
theorem received_prefix_produced (h : Line read) (hnone : read c = none) (moves : List Move) :
    Stream.history Stream.received (course next read c moves) <+:
      Stream.history Stream.produced (course next read c moves) := by
  have hchain := h.isChain c moves
  have hfirst := head?_course_of_none h.begins hnone moves
  cases hl : course next read c moves with
  | nil => exact List.nil_prefix
  | cons x l =>
    rw [hl] at hchain hfirst
    obtain ⟨hslot, hhand⟩ := hfirst x rfl
    simpa [hslot, hhand] using Stream.history_received_le hchain

theorem isCancelled_next (h : Line read) (m : Move) (hst : read c = some st)
    (hc : st.isCancelled c.now c.signals = true) : ∃ st', read (c.next m) = some st' ∧
      Stream.Step (Work.Heeding true) true st st' ∧
      st'.isCancelled (c.next m).now (c.next m).signals = true := by
  obtain ⟨st', hst', hctx, hstep⟩ := h.goes c m st hst
  refine ⟨st', hst', hc ▸ hstep, ?_⟩
  unfold Stream.isCancelled at hc ⊢
  rw [hctx]
  exact Chain.isCancelled_next _ m hc

theorem isChain_of_cancelled (h : Line read) (hst : read c = some st)
    (hc : st.isCancelled c.now c.signals = true) (moves : List Move) :
    (course next read c moves).IsChain (Stream.Step (Work.Heeding true) true) := by
  refine course_isChain
    (fun c => ∃ st, read c = some st ∧ st.isCancelled c.now c.signals = true) ?_ ?_
    ⟨st, hst, hc⟩ moves
  · rintro c m ⟨st, hst, hc⟩
    obtain ⟨st', hst', -, hc'⟩ := h.isCancelled_next m hst hc
    exact ⟨st', hst', hc'⟩
  · rintro c m st ⟨x, hx, hc⟩ hst
    cases hx.symm.trans hst
    obtain ⟨st', hst', hstep, -⟩ := h.isCancelled_next m hst hc
    exact ⟨st', hst', hstep⟩

theorem quiet (h : Line read) (hst : read c = some st)
    (hc : st.isCancelled c.now c.signals = true) (moves : List Move) :
    Stream.Quiet st (course next read c moves) := by
  have hchain := h.isChain_of_cancelled hst hc moves
  obtain ⟨l, hl⟩ : ∃ l, course next read c moves = st :: l := course_eq_cons hst moves
  rw [hl] at hchain ⊢
  exact Stream.quiet_of_cancelled hchain

theorem ends (h : Line read) (hst : read c = some st)
    (hc : st.isCancelled c.now c.signals = true) (ha : st.task.Active) (moves : List Move) :
    ∀ x ∈ course next read c moves, x.task = st.task ∨ x.task.EndsBy .cancelled := by
  have hchain := h.isChain_of_cancelled hst hc moves
  obtain ⟨l, hl⟩ : ∃ l, course next read c moves = st :: l := course_eq_cons hst moves
  rw [hl] at hchain ⊢
  exact Stream.ends_of_cancelled (fun w hw => hw rfl) hchain ha

end Line

/-! ## How many turns the end takes -/

section Turns

variable {c : Chain}

theorem wasReleased_next {id : Nat} (h : c.signals.wasReleased id = true) (m : Move) :
    (c.next m).signals.wasReleased id = true := by
  rcases c.steady_or_opens m with hs | ⟨ctx, w, -, heq | ⟨source, heq⟩ | ⟨source, heq⟩⟩
  · rcases hs.signals with heq | ⟨s, -, heq | heq⟩ <;> rw [heq]
    · exact h
    · rw [Signals.wasReleased_cancel]
      exact h
    · exact (Signals.wasReleased_release _ _ _).mpr (.inl h)
  · rw [heq]
    exact Signals.wasReleased_make h
  · rw [heq]
    exact Signals.wasReleased_make (Signals.wasReleased_make h)
  · rw [heq]
    exact Signals.wasReleased_make (Signals.wasReleased_make (Signals.wasReleased_make h))

/-- How many things a reader has to let go of: the receiving end of its prices and their signal. -/
def held (c : Chain) (p : PriceLine) : Nat :=
  (if p.stream.listening then 1 else 0) +
    if (p.stream.context.handle?).any c.signals.wasReleased then 0 else 1

theorem held_le (c : Chain) (p : PriceLine) : c.held p ≤ 2 := by
  unfold held
  split_ifs <;> omega

theorem held_next_le {i : Nat} {p p' : PriceLine} {m : Move} (hp : c.prices[i]? = some p)
    (hp' : (c.next m).prices[i]? = some p') : (c.next m).held p' ≤ c.held p := by
  cases hp'.symm.trans (getElem?_prices_next hp m)
  have hstep : Stream.Step (fun _ => True) (p.stream.isCancelled c.now c.signals) p.stream
      (p.stream.after (p.stream.isCancelled c.now c.signals) (c.priceAct i p m)) :=
    Stream.step_after _ fun _ _ _ _ => trivial
  have hreleased : (p.stream.context.handle?).any c.signals.wasReleased = true →
      (p.stream.context.handle?).any (c.next m).signals.wasReleased = true := by
    cases p.stream.context.handle? with
    | none => exact fun h => h
    | some s => exact fun h => wasReleased_next h m
  unfold held
  simp only [Stream.after_context]
  refine Nat.add_le_add ?_ ?_
  · by_cases hl : (p.stream.after (p.stream.isCancelled c.now c.signals)
        (c.priceAct i p m)).listening = true
    · rw [if_pos hl, if_pos (hstep.listening hl)]
    · rw [if_neg hl]
      exact Nat.zero_le _
  · by_cases hr : (p.stream.context.handle?).any c.signals.wasReleased = true
    · rw [if_pos hr, if_pos (hreleased hr)]
    · rw [if_neg hr]
      split_ifs <;> omega

theorem held_letGo? {i : Nat} {p : PriceLine} {c' : Chain} (hp : c.prices[i]? = some p)
    (h : c.letGo? i = some c') :
    ∃ p', c'.prices[i]? = some p' ∧ c'.held p' + 1 ≤ c.held p := by
  obtain ⟨q, hq, ⟨hl, rfl⟩ | ⟨hl, s, hs, hkept, rfl⟩⟩ := letGo?_cases h
  · cases hq.symm.trans hp
    refine ⟨{ p with stream := p.stream.hangUp }, ?_, ?_⟩
    · rw [getElem?_setPrice, if_pos rfl, hp]
      rfl
    · have hless : (c.setPrice i p.stream.hangUp).held { p with stream := p.stream.hangUp } =
          0 + if (p.stream.context.handle?).any c.signals.wasReleased then 0 else 1 := rfl
      rw [hless]
      unfold held
      rw [if_pos hl]
      omega
  · cases hq.symm.trans hp
    refine ⟨p, hp, ?_⟩
    obtain ⟨x, hx, hreleased⟩ := (Option.any_eq_true ..).mp hkept
    have hbefore : c.signals.wasReleased s = false := by
      simpa [Signals.wasReleased, hx] using hreleased
    have hafter : (c.signals.release s).wasReleased s = true :=
      (Signals.wasReleased_release _ _ _).mpr
        (.inr ⟨rfl, (List.getElem?_eq_some_iff.mp hx).1⟩)
    simp [held, hl, hs, hbefore, hafter]

theorem price_stops {i : Nat} {st : Stream Pace PriceQuote} (h : c.price? i = some st)
    (hc : st.isCancelled c.now c.signals = true) (ha : st.task.Active) {moves : List Move}
    (enough : 2 ≤ moves.countP (Move.turnsPrice i)) :
    ∃ last, (moves.foldl next c).price? i = some last ∧ last.task = .stopped .cancelled := by
  have reached := foldl_reaches next (fun n (c : Chain) => ∃ st, c.price? i = some st ∧
    st.isCancelled c.now c.signals = true ∧ Stream.Nears Task.Active 0 n st) ?_ ?_ moves
    ⟨st, h, hc, .inr (.inr ⟨ha, Nat.le_refl _⟩)⟩ enough
  · obtain ⟨last, hlast, -, hn⟩ := reached
    exact ⟨last, hlast, hn.stopped⟩
  · rintro n c m ⟨st, hst, hc, hn⟩
    obtain ⟨st', hst', hstep, hc'⟩ := (line_price i).isCancelled_next m hst hc
    exact ⟨st', hst', hc',
      hn.step hstep (hstep.active_of_cancelled fun w hw => hw rfl) (Nat.le_refl _)⟩
  · rintro n c m hm ⟨st, hst, hc, hn⟩
    cases m with
    | turnPrice j =>
      obtain rfl : j = i := by simpa [Move.turnsPrice] using hm
      obtain ⟨l, hl, rfl⟩ := price?_eq_some.mp hst
      obtain ⟨w, hw⟩ : ∃ w, c.priceAct j l (.turnPrice j) = .turn w := ⟨_, if_pos rfl⟩
      obtain ⟨st', hst', -, hc'⟩ := (line_price j).isCancelled_next (.turnPrice j) hst hc
      have hturn : st' = l.stream.after true (.turn w) := by
        have hnext := price?_eq_some.mpr ⟨_, getElem?_prices_next hl (.turnPrice j), rfl⟩
        rw [hc, hw] at hnext
        exact Option.some.inj (hst'.symm.trans hnext)
      refine ⟨st', hst', hc', ?_⟩
      rw [hturn]
      refine hn.turn (fun ha => Stream.after_turn_of_active ?_ ha) (Nat.le_refl _)
      exact fun s hs => heeding_priceAct hs hw hc
    | _ => cases hm

theorem balanceTurn_eq_turn {b : BalanceLine} {p : PriceLine} (hp : c.prices[b.prices]? = some p)
    (hkeeps : ∀ reason, b.stream.task = .closing reason → c.letGo? b.prices = none) :
    ∃ w, c.balanceTurn b = .turn w := by
  unfold balanceTurn
  cases htask : b.stream.task with
  | closing reason =>
    simp only [hkeeps reason htask]
    exact ⟨_, rfl⟩
  | _ =>
    simp only [hp]
    exact ⟨_, rfl⟩

theorem nears_turnBalance {n k : Nat} {b : BalanceLine} {p : PriceLine}
    (hb : c.balances[k]? = some b) (hp : c.prices[b.prices]? = some p)
    (hc : b.stream.isCancelled c.now c.signals = true)
    (hn : Stream.Nears Task.Active (c.held p) (n + 1) b.stream) :
    ∃ b' p', (c.next (.turnBalance k)).balances[k]? = some b' ∧
      (c.next (.turnBalance k)).prices[b'.prices]? = some p' ∧
      b'.stream.isCancelled (c.next (.turnBalance k)).now (c.next (.turnBalance k)).signals = true ∧
      Stream.Nears Task.Active ((c.next (.turnBalance k)).held p') n b'.stream := by
  have hb' := getElem?_balances_next hb (.turnBalance k)
  have hp' := getElem?_prices_next hp (.turnBalance k)
  have hact : c.balanceAct k b (.turnBalance k) = c.balanceTurn b := if_pos rfl
  have hc' := isCancelled_next b.stream.context (.turnBalance k) hc
  refine ⟨_, _, hb', hp', ?_, ?_⟩
  · unfold Stream.isCancelled
    rw [Stream.after_context]
    exact hc'
  -- The turn lets go of one more thing, so that less is held, or is one of the stream itself.
  · by_cases hlets : ∃ reason c', b.stream.task = .closing reason ∧ c.letGo? b.prices = some c'
    · obtain ⟨reason, c', htask, hgo⟩ := hlets
      have hnext : c' = c.next (.turnBalance k) := by
        rcases turnBalance_closing hb htask with hgo' | ⟨hgo', -⟩
        · exact Option.some.inj (hgo.symm.trans hgo')
        · cases hgo.symm.trans hgo'
      obtain ⟨q, hq, hless⟩ := held_letGo? hp hgo
      rw [hnext] at hq hless
      cases hq.symm.trans hp'
      have hstill : c.balanceTurn b = .elsewhere := by simp [balanceTurn, htask, hgo]
      rw [hact, hstill, Stream.after_elsewhere]
      rcases hn with hstop | ⟨hclosing, hlt⟩ | ⟨hactive, -⟩
      · exact .inl hstop
      · exact .inr (.inl ⟨hclosing, by omega⟩)
      · exact absurd (.inl htask) (hactive reason)
    · obtain ⟨w, hw⟩ : ∃ w, c.balanceTurn b = .turn w := by
        refine balanceTurn_eq_turn hp fun reason htask => ?_
        cases hgo : c.letGo? b.prices with
        | none => rfl
        | some c' => exact absurd ⟨reason, c', htask, hgo⟩ hlets
      rw [hact, hw, hc]
      refine hn.turn (fun ha => Stream.after_turn_of_active ?_ ha) (held_next_le hp hp')
      exact fun s hs => heeding_balanceAct hs (hact.trans hw) hc

theorem balance_stops {k : Nat} {st : Stream Unit Balance} (hlay : c.Layout)
    (h : c.balance? k = some st) (hc : st.isCancelled c.now c.signals = true)
    (ha : st.task.Active) {moves : List Move} (enough : 4 ≤ moves.countP (Move.turnsBalance k)) :
    ∃ last, (moves.foldl next c).balance? k = some last ∧ last.task = .stopped .cancelled := by
  obtain ⟨b, hb, rfl⟩ := balance?_eq_some.mp h
  obtain ⟨p, hp, -⟩ := hlay.siblings k b hb
  have reached := foldl_reaches next (fun n (c : Chain) => ∃ b p, c.balances[k]? = some b ∧
    c.prices[b.prices]? = some p ∧ b.stream.isCancelled c.now c.signals = true ∧
    Stream.Nears Task.Active (c.held p) n b.stream) ?_ ?_ moves
    ⟨b, p, hb, hp, hc, .inr (.inr ⟨ha, Nat.add_le_add_right (c.held_le p) 2⟩)⟩ enough
  · obtain ⟨last, q, hlast, -, -, hn⟩ := reached
    refine ⟨last.stream, balance?_eq_some.mpr ⟨last, hlast, rfl⟩, ?_⟩
    rcases hn with hstop | ⟨-, hlt⟩ | ⟨-, hlt⟩
    · exact hstop
    · omega
    · omega
  · rintro n c m ⟨b, p, hb, hp, hc, hn⟩
    obtain ⟨st', hst', hstep, hc'⟩ :=
      (line_balance k).isCancelled_next m (balance?_eq_some.mpr ⟨b, hb, rfl⟩) hc
    have hb' := getElem?_balances_next hb m
    have hp' := getElem?_prices_next hp m
    cases hst'.symm.trans (balance?_eq_some.mpr ⟨_, hb', rfl⟩)
    exact ⟨_, _, hb', hp', hc', hn.step hstep (hstep.active_of_cancelled fun w hw => hw rfl)
      (held_next_le hp hp')⟩
  · rintro n c m hm ⟨b, p, hb, hp, hc, hn⟩
    cases m with
    | turnBalance j =>
      obtain rfl : j = k := by simpa [Move.turnsBalance] using hm
      exact nears_turnBalance hb hp hc hn
    | _ => cases hm

theorem silent_price {i : Nat} {st : Stream Pace PriceQuote} (h : c.price? i = some st)
    (hc : st.isCancelled c.now c.signals = true) (moves : List Move) :
    Stream.Silent st (c.priceStates i moves) (moves.countP (Move.turnsPrice i)) 2 where
  toQuiet := (line_price i).quiet h hc moves
  ends_cancelled := fun ha => (line_price i).ends h hc ha moves
  stops := by
    intro ha enough
    obtain ⟨last, hlast, hstop⟩ := price_stops h hc ha enough
    exact ⟨last, getLast?_course hlast, hstop,
      fun hslot => (Stream.receive_eq_closed_iff last).mpr ⟨hslot, _, hstop⟩⟩

theorem silent_balance {k : Nat} {st : Stream Unit Balance} (hlay : c.Layout)
    (h : c.balance? k = some st) (hc : st.isCancelled c.now c.signals = true)
    (moves : List Move) :
    Stream.Silent st (c.balanceStates k moves) (moves.countP (Move.turnsBalance k)) 4 where
  toQuiet := (line_balance k).quiet h hc moves
  ends_cancelled := fun ha => (line_balance k).ends h hc ha moves
  stops := by
    intro ha enough
    obtain ⟨last, hlast, hstop⟩ := balance_stops hlay h hc ha enough
    exact ⟨last, getLast?_course hlast, hstop,
      fun hslot => (Stream.receive_eq_closed_iff last).mpr ⟨hslot, _, hstop⟩⟩

end Turns

/-- Once its context is cancelled a stream accepts no item: of a stream of prices, of a stream of
balances, and of a stream with any producer, whoever moves in what order. What is received of it in
all is what was produced, in that order, up to some item. -/
theorem nothing_is_sent_once_cancelled :
    (∀ (wiring : Wiring) (home : Role) (i : Nat) (before after : List Move)
        (st : Stream Pace PriceQuote),
      ((start wiring home).run before).2.price? i = some st →
      Stream.history Stream.received ((start wiring home).priceStates i (before ++ after)) <+:
        Stream.history Stream.produced ((start wiring home).priceStates i (before ++ after)) ∧
      (st.isCancelled ((start wiring home).run before).2.now
          ((start wiring home).run before).2.signals = true →
        Stream.Silent st (((start wiring home).run before).2.priceStates i after)
          (after.countP (Move.turnsPrice i)) 2)) ∧
    (∀ (wiring : Wiring) (home : Role) (k : Nat) (before after : List Move)
        (st : Stream Unit Balance),
      ((start wiring home).run before).2.balance? k = some st →
      Stream.history Stream.received ((start wiring home).balanceStates k (before ++ after)) <+:
        Stream.history Stream.produced ((start wiring home).balanceStates k (before ++ after)) ∧
      (st.isCancelled ((start wiring home).run before).2.now
          ((start wiring home).run before).2.signals = true →
        Stream.Silent st (((start wiring home).run before).2.balanceStates k after)
          (after.countP (Move.turnsBalance k)) 4)) ∧
    (∀ (σ α ε : Type) (p : Producer σ α ε) (parent : Context) (now : Millis) (signals : Signals)
        (first : σ) (rest : ε) (before after : List (Solo.Move ε)) (s : Solo σ α ε),
      before.foldl (Solo.move p) (Solo.opened parent now signals first rest) = s →
      Stream.history Stream.received
          ((Solo.opened parent now signals first rest).states p (before ++ after)) <+:
        Stream.history Stream.produced
          ((Solo.opened parent now signals first rest).states p (before ++ after)) ∧
      (s.isCancelled = true → Stream.Quiet s.stream (s.states p after) ∧
        (s.stream.task.Parked → 2 ≤ after.countP Solo.Move.isTurn →
          (after.foldl (Solo.move p) s).stream.task = .stopped .cancelled) ∧
        (p.Heeds → Stream.Silent s.stream (s.states p after)
          (after.countP Solo.Move.isTurn) 2))) := by
  refine ⟨?_, ?_, ?_⟩
  · intro wiring home i before after st h
    refine ⟨(line_price i).received_prefix_produced rfl _, fun hc => ?_⟩
    exact silent_price h hc after
  · intro wiring home k before after st h
    refine ⟨(line_balance k).received_prefix_produced rfl _, fun hc => ?_⟩
    have hlay : ((start wiring home).run before).2.Layout := by
      rw [run_snd]
      exact (layout_and_attended wiring home before).1
    exact silent_balance hlay h hc after
  · intro σ α ε p parent now signals first rest before after s hs
    refine ⟨Solo.received_prefix_produced .., fun hc => ?_⟩
    exact ⟨Solo.quiet_of_cancelled hc after, fun hp => Solo.parked_stops hc hp,
      fun hheeds => Solo.silent_of_cancelled hheeds hc after⟩

/-- Two prices and their balances; the second balance waits for the slot when the caller cancels. -/
def twoPrices : Wiring where
  ledger := .ofHoldings [⟨"u", "a", 3⟩]
  account? := some (.ok ⟨⟨"u", .normal⟩, ∅⟩)
  prices? := some ⟨∅, .ok 1, .ok { prices := [1, 2] }⟩

def untilCancelled : List Move :=
  [.watchBalance (Metadata.credentials "t" .normal) true none, .turnPrice 0, .turnPrice 0,
    .turnBalance 0, .turnBalance 0, .turnPrice 0, .turnPrice 0, .turnBalance 0, .cancel 0]

def sinceCancelled : List Move :=
  [.turnBalance 0, .turnPrice 0, .receiveBalance 0, .turnBalance 0, .turnPrice 0, .turnBalance 0,
    .receiveBalance 0, .turnBalance 0]

def cancelledPrices : Stream Pace PriceQuote where
  context := ⟨[0, 1], none⟩
  task := .working (.playing { script := { prices := [] } })

def cancelledBalances : Stream Unit Balance where
  context := ⟨[0, 2], none⟩
  slot := some (.ok ⟨3, [⟨"a", 3⟩]⟩)
  task := .sending (.ok ⟨6, [⟨"a", 6⟩]⟩) (some ())

def counting : Producer Nat Nat Unit :=
  fun _ cancelled n _ => (if cancelled then .stop .cancelled else .send (.ok n) (n + 1), ())

theorem nothing_is_sent_once_the_caller_cancels :
    ((start twoPrices .wallet).run untilCancelled).2.price? 0 = some cancelledPrices ∧
      ((start twoPrices .wallet).run untilCancelled).2.balance? 0 = some cancelledBalances ∧
      Stream.Silent cancelledPrices (((start twoPrices .wallet).run untilCancelled).2.priceStates 0
        sinceCancelled) 2 2 ∧
      Stream.Silent cancelledBalances (((start twoPrices .wallet).run
        untilCancelled).2.balanceStates 0 sinceCancelled) 4 4 ∧
      Stream.Silent ⟨⟨[0], none⟩, some (.ok 0), true, .sending (.ok 1) (some 2)⟩
        (Solo.states counting ⟨⟨⟨[0], none⟩, some (.ok 0), true, .sending (.ok 1) (some 2)⟩, 0,
          ⟨[⟨true, false⟩]⟩, ()⟩ [.turn, .receive, .turn]) 2 2 := by
  obtain ⟨ofPrices, ofBalances, ofAny⟩ := nothing_is_sent_once_cancelled
  have hprices : ((start twoPrices .wallet).run untilCancelled).2.price? 0 =
      some cancelledPrices := by cbv
  have hbalances : ((start twoPrices .wallet).run untilCancelled).2.balance? 0 =
      some cancelledBalances := by cbv
  have hpc : cancelledPrices.isCancelled ((start twoPrices .wallet).run untilCancelled).2.now
      ((start twoPrices .wallet).run untilCancelled).2.signals = true := by cbv
  have hbc : cancelledBalances.isCancelled ((start twoPrices .wallet).run untilCancelled).2.now
      ((start twoPrices .wallet).run untilCancelled).2.signals = true := by cbv
  refine ⟨hprices, hbalances, (ofPrices _ _ _ _ sinceCancelled _ hprices).2 hpc,
    (ofBalances _ _ _ _ sinceCancelled _ hbalances).2 hbc, ?_⟩
  exact ((ofAny Nat Nat Unit counting ⟨[], none⟩ 0 {} 0 () [.turn, .turn, .turn, .cancel 0]
    [.turn, .receive, .turn] _ rfl).2 rfl).2.2 (fun _ _ _ => rfl)

end Chain

end WalletWatch
