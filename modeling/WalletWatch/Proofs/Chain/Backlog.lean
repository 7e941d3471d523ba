import Mathlib
import WalletWatch.Proofs.Chain.Cancellation
import WalletWatch.Proofs.Chain.Delivery
import WalletWatch.Proofs.Service.Agreement
import WalletWatch.Proofs.Stream.Backlog

set_option autoImplicit false

/-!
# How far samples run ahead of balances

A stream of balances over the feed has room for four items: one in the hand of each of the two
producers and one in each slot. A sample that was taken is in one of these places until its balance
is received or the stream is given up, and no sample is passed over.
-/

namespace WalletWatch

/-- A producer of prices that takes samples of the feed. -/
def Pace.IsTicking (p : Pace) : Prop := ∃ home t, p = .ticking home t

theorem Pace.work_resumes_ticking (feed : Nat → Int64) (now : Millis) (cancelled : Bool)
    (home : Role) (t : Ticker) (w : World) :
    (Pace.work feed now cancelled (.ticking home t) w).1.Resumes Pace.IsTicking := by
  intro pace hpace
  unfold work at hpace
  cases cancelled with
  | true => simp at hpace
  | false =>
    simp only [Bool.false_eq_true, if_false] at hpace
    cases htake : t.take? now with
    | none => simp [htake] at hpace
    | some t' =>
      simp only [htake] at hpace
      exact ⟨home, t', by simpa [eq_comm] using hpace⟩

theorem BalanceLine.work_plain (s : BalanceSource) (cancelled : Bool)
    (prices : Stream Pace PriceQuote) : (BalanceLine.work s cancelled prices).1.Plain := by
  intro i next hsend
  unfold work at hsend
  split at hsend
  · cases hsend
  · split at hsend
    · cases hsend
    · cases hsend
    · cases hsend
    · split at hsend
      · cases hsend
        exact ⟨_, rfl⟩
      · cases hsend

namespace BalanceSource

/-- What a stream of balances makes of a quote or of the failure of its prices. -/
def ofQuote (s : BalanceSource) (quote : Item PriceQuote) : Item Balance :=
  quote.bind fun q => s.update q.price

end BalanceSource

namespace Chain

/-- The sample that a move takes for a stream of prices. -/
def sampled? (c : Chain) (i : Nat) (m : Move) : Option Int64 :=
  if m.turnsPrice i ∧ c.world.samples < (c.next m).world.samples then
    some (c.wiring.feed c.world.samples)
  else none

/-- The samples that some moves take for a stream of prices, in their order. -/
def samplesTaken (c : Chain) (i : Nat) (moves : List Move) : List Int64 :=
  along next (fun c m => c.sampled? i m) c moves

/-! ## What one move does -/

section Moves

variable {c : Chain} {i k : Nat} {p : PriceLine} {b : BalanceLine}

theorem samples_turnPrice (h : c.prices[i]? = some p) :
    (c.turnPrice i).2.world.samples = match p.stream.task with
      | .working pace => (Pace.work c.wiring.feed c.now (p.stream.isCancelled c.now c.signals) pace
          c.world).2.samples
      | _ => c.world.samples := by
  have world : (c.turnPrice i).2.world.samples = (p.stream.turn (Pace.work c.wiring.feed c.now
      (p.stream.isCancelled c.now c.signals)) (p.stream.isCancelled c.now c.signals)
      c.world).2.2.samples := by
    unfold turnPrice
    simp only [h]
    split <;> rfl
  rw [world, Stream.turn_rest]
  cases p.stream.task <;> rfl

/-- A stream over the feed makes an item of each sample that is taken for it, and of nothing
else. -/
theorem produced_price (h : c.prices[i]? = some p) (hticking : p.stream.Resumes Pace.IsTicking)
    (m : Move) :
    p.stream.produced
        (p.stream.after (p.stream.isCancelled c.now c.signals) (c.priceAct i p m)) =
      (c.sampled? i m).map fun s => .ok ⟨s⟩ := by
  by_cases hm : m = .turnPrice i
  · subst hm
    have hact : c.priceAct i p (.turnPrice i) = c.priceTurn p := if_pos rfl
    have hsamples : (c.next (.turnPrice i)).world.samples = _ := samples_turnPrice h
    rw [hact, sampled?, hsamples, priceTurn]
    cases htask : p.stream.task with
    | working pace =>
      obtain ⟨home, t, rfl⟩ := hticking pace (.inl htask)
      rw [Stream.produced_after_turn_of_working htask, Stream.intent, htask]
      cases hc : p.stream.isCancelled c.now c.signals with
      | true => simp [Pace.work, Work.item?, Move.turnsPrice]
      | false =>
        cases htake : t.take? c.now with
        | none => simp [Pace.work, htake, Work.item?, Move.turnsPrice]
        | some t' => simp [Pace.work, htake, Work.item?, Move.turnsPrice]
    | _ =>
      rw [Stream.produced_after_turn_of_ne_working (by simp [htask])]
      simp
  · have hact : ∀ w, c.priceAct i p m ≠ .turn w := fun w hw => hm (eq_turnPrice_of_priceAct hw)
    rw [Stream.produced_after_of_ne_turn _ _ hact, sampled?, if_neg]
    · rfl
    · rintro ⟨hturns, -⟩
      cases m with
      | turnPrice j => exact hm (by simpa [Move.turnsPrice] using hturns)
      | _ => cases hturns

theorem work_item? (s : BalanceSource) (prices : Stream Pace PriceQuote) :
    (BalanceLine.work s false prices).1.item? = prices.slot.map s.ofQuote := by
  unfold BalanceLine.work Stream.receive
  cases hslot : prices.slot with
  | none => cases hstop : prices.hasStopped <;> rfl
  | some quote =>
    cases quote with
    | error f => rfl
    | ok q =>
      simp only [Bool.false_eq_true, if_false, Option.map_some, BalanceSource.ofQuote, Except.bind]
      cases s.update q.price <;> rfl

theorem eq_turnBalance_of_balanceAct {m : Move} {w : Work Unit Balance}
    (hact : c.balanceAct k b m = .turn w) : m = .turnBalance k := by
  cases m with
  | turnBalance j =>
    simp only [balanceAct] at hact
    split_ifs at hact with hj
    rw [hj]
  | receiveBalance j =>
    simp only [balanceAct] at hact
    split_ifs at hact
  | hangUpBalance j =>
    simp only [balanceAct] at hact
    split_ifs at hact
  | _ => cases hact

theorem eq_receiveBalance_of_balanceAct {m : Move} (hact : c.balanceAct k b m = .receive) :
    m = .receiveBalance k := by
  cases m with
  | turnBalance j =>
    simp only [balanceAct] at hact
    split_ifs at hact
    unfold balanceTurn at hact
    split at hact
    · split_ifs at hact
    · split at hact <;> cases hact
  | receiveBalance j =>
    simp only [balanceAct] at hact
    split_ifs at hact with hj
    rw [hj]
  | hangUpBalance j =>
    simp only [balanceAct] at hact
    split_ifs at hact
  | _ => cases hact

theorem produced_turnBalance (hatt : c.Attended) (hb : c.balances[k]? = some b)
    (hp : c.prices[b.prices]? = some p) :
    b.stream.produced (b.stream.after (b.stream.isCancelled c.now c.signals) (c.balanceTurn b)) =
      (p.stream.received
        (p.stream.after (p.stream.isCancelled c.now c.signals) (c.readingTurn b p))).map
          b.source.ofQuote := by
  by_cases hworking : ∃ s, b.stream.task = .working s
  · obtain ⟨s, htask⟩ := hworking
    have hopen : ∀ reason, b.stream.task ≠ .closing reason := by simp [htask]
    rw [balanceTurn_of_open hopen hp, Stream.produced_after_turn_of_working htask, Stream.intent,
      htask, readingTurn, htask]
    cases hc : b.stream.isCancelled c.now c.signals with
    | true =>
      rw [if_pos rfl, Stream.after_elsewhere, Stream.received_of_slot_eq rfl]
      rfl
    | false =>
      have hactive : b.stream.task.Active := (Task.active_iff _).mpr (.inl ⟨s, htask⟩)
      have hreceived := p.stream.received_receive
      rw [(hatt k b p hb hp hactive).1, if_pos rfl] at hreceived
      exact (work_item? b.source p.stream).trans (congrArg _ hreceived.symm)
  -- A producer that is not at work makes nothing, and it takes no quote either.
  · have hidle : ∀ s, b.stream.task ≠ .working s := fun s hs => hworking ⟨s, hs⟩
    have hmade : b.stream.produced (b.stream.after (b.stream.isCancelled c.now c.signals)
        (c.balanceTurn b)) = none := by
      cases c.balanceTurn b with
      | turn w => exact Stream.produced_after_turn_of_ne_working hidle _ w
      | _ => exact Stream.produced_after_of_ne_turn _ _ (by simp)
    have htook : p.stream.received (p.stream.after (p.stream.isCancelled c.now c.signals)
        (c.readingTurn b p)) = none := by
      rcases c.readingTurn_cases b p with ⟨-, hs⟩ | ⟨hturn, -⟩ | hturn
      · exact absurd hs hworking
      · rw [hturn]
        exact Stream.received_hangUp _
      · rw [hturn]
        exact Stream.received_of_slot_eq rfl
    rw [hmade, htook]
    rfl

/-- A stream of balances makes an item of each quote that it takes, and of nothing else. -/
theorem produced_balance (hlay : c.Layout) (hatt : c.Attended) (hb : c.balances[k]? = some b)
    (hp : c.prices[b.prices]? = some p) (m : Move) :
    b.stream.produced
        (b.stream.after (b.stream.isCancelled c.now c.signals) (c.balanceAct k b m)) =
      (p.stream.received
        (p.stream.after (p.stream.isCancelled c.now c.signals) (c.priceAct b.prices p m))).map
          b.source.ofQuote := by
  by_cases hm : m = .turnBalance k
  · subst hm
    have hact : c.balanceAct k b (.turnBalance k) = c.balanceTurn b := if_pos rfl
    have hread : c.priceAct b.prices p (.turnBalance k) = c.readingTurn b p := by
      simp only [priceAct, hb, if_true]
    rw [hact, hread]
    exact produced_turnBalance hatt hb hp
  · have hact : ∀ w, c.balanceAct k b m ≠ .turn w :=
      fun w hw => hm (eq_turnBalance_of_balanceAct hw)
    rw [Stream.produced_after_of_ne_turn _ _ hact]
    rcases priceAct_of_ne hlay hb p hm with hturn | hturn <;> rw [hturn]
    · rw [priceTurn, Stream.received_after_turn]
      rfl
    · rw [Stream.after_elsewhere, Stream.received_of_slot_eq rfl]
      rfl

theorem received_balance (hb : c.balances[k]? = some b)
    (hempty : b.stream.listening = false → b.stream.slot = none) (m : Move) :
    b.stream.received
        (b.stream.after (b.stream.isCancelled c.now c.signals) (c.balanceAct k b m)) =
      balanceSeen k (m, (c.move m).1) := by
  by_cases hm : m = .receiveBalance k
  · subst hm
    have hact : c.balanceAct k b (.receiveBalance k) = .receive := if_pos rfl
    rw [hact, balanceSeen_receiveBalance hb]
    refine b.stream.received_receive.trans ?_
    cases hl : b.stream.listening with
    | true => rfl
    | false => exact (hempty hl).symm
  · rw [balanceSeen_of_ne hm]
    cases hact : c.balanceAct k b m with
    | turn w => exact Stream.received_after_turn _ _ _
    | receive => exact absurd (eq_receiveBalance_of_balanceAct hact) hm
    | hangUp => exact Stream.received_hangUp _
    | elsewhere => exact Stream.received_of_slot_eq rfl

end Moves

/-! ## Runs -/

theorem along_balanceSeen (c : Chain) (k : Nat) (moves : List Move) :
    along next (fun c m => balanceSeen k (m, (c.move m).1)) c moves =
      balancesSeen k (c.run moves).1 := by
  induction moves generalizing c with
  | nil => rfl
  | cons m rest ih =>
    rw [along, ih]
    exact (balancesSeen_cons m (c.move m).1 ((c.next m).run rest).1).symm

/-- A stream of balances from some source, which reads a stream of prices over the feed. -/
structure Feeds (c : Chain) (k i : Nat) (source : BalanceSource) : Prop where
  layout : c.Layout
  attended : c.Attended
  balances : ∃ b, c.balances[k]? = some b ∧ b.source = source ∧ b.prices = i ∧
    (b.stream.listening = false → b.stream.slot = none)
  prices : ∃ p, c.prices[i]? = some p ∧ p.stream.Resumes Pace.IsTicking

namespace Feeds

variable {c : Chain} {k i : Nat} {source : BalanceSource}

theorem next (h : c.Feeds k i source) (m : Move) : (c.next m).Feeds k i source where
  layout := h.layout.next m
  attended := h.attended.next h.layout m
  balances := by
    obtain ⟨b, hb, hsource, hprices, hempty⟩ := h.balances
    refine ⟨_, getElem?_balances_next hb m, hsource, hprices, ?_⟩
    have hstep : Stream.Step (fun _ => True) (b.stream.isCancelled c.now c.signals) b.stream
        (b.stream.after (b.stream.isCancelled c.now c.signals) (c.balanceAct k b m)) :=
      Stream.step_after _ fun _ _ _ _ => trivial
    exact hstep.empty_of_not_listening hempty
  prices := by
    obtain ⟨p, hp, hticking⟩ := h.prices
    refine ⟨_, getElem?_prices_next hp m, ?_⟩
    refine Stream.Step.resumes (Stream.step_after _ ?_) hticking
    intro pace w htask hact
    obtain ⟨home, t, rfl⟩ := hticking pace (.inl htask)
    rw [eq_intent_of_priceAct hact, Stream.intent, htask]
    exact Pace.work_resumes_ticking _ _ _ home t _

theorem history_produced_prices (h : c.Feeds k i source) (moves : List Move) :
    Stream.history Stream.produced (c.priceStates i moves) =
      (c.samplesTaken i moves).map fun s => .ok ⟨s⟩ := by
  unfold samplesTaken
  rw [← along_map]
  refine Stream.history_course (fun c => c.Feeds k i source) (fun _ m h => h.next m) ?_ h moves
  intro c m h
  obtain ⟨p, hp, hticking⟩ := h.prices
  exact ⟨_, _, price?_eq_some.mpr ⟨p, hp, rfl⟩,
    price?_eq_some.mpr ⟨_, getElem?_prices_next hp m, rfl⟩, produced_price hp hticking m⟩

theorem history_produced_balances (h : c.Feeds k i source) (moves : List Move) :
    Stream.history Stream.produced (c.balanceStates k moves) =
      (Stream.history Stream.received (c.priceStates i moves)).map source.ofQuote := by
  refine Stream.history_course_map (fun c => c.Feeds k i source) source.ofQuote
    (fun _ m h => h.next m) ?_ h moves
  intro c m h
  obtain ⟨b, hb, rfl, rfl, -⟩ := h.balances
  obtain ⟨p, hp, -⟩ := h.prices
  exact ⟨_, _, _, _, price?_eq_some.mpr ⟨p, hp, rfl⟩,
    price?_eq_some.mpr ⟨_, getElem?_prices_next hp m, rfl⟩, balance?_eq_some.mpr ⟨b, hb, rfl⟩,
    balance?_eq_some.mpr ⟨_, getElem?_balances_next hb m, rfl⟩,
    produced_balance h.layout h.attended hb hp m⟩

theorem history_received_balances (h : c.Feeds k i source) (moves : List Move) :
    Stream.history Stream.received (c.balanceStates k moves) =
      balancesSeen k (c.run moves).1 := by
  rw [← along_balanceSeen]
  refine Stream.history_course (fun c => c.Feeds k i source) (fun _ m h => h.next m) ?_ h moves
  intro c m h
  obtain ⟨b, hb, -, -, hempty⟩ := h.balances
  exact ⟨_, _, balance?_eq_some.mpr ⟨b, hb, rfl⟩,
    balance?_eq_some.mpr ⟨_, getElem?_balances_next hb m, rfl⟩, received_balance hb hempty m⟩

end Feeds

/-! ## Streams from their beginning on -/

section Beginning

variable {c : Chain}

theorem Line.buffered {σ α : Type} {read : Chain → Option (Stream σ α)} (h : Line read)
    (first : ∀ st, read c = some st → st.slot = none ∧ st.task.inHand? = none)
    (moves : List Move) : Stream.Buffered (course next read c moves) := by
  refine Stream.buffered_of_isChain (h.isChain c moves) ?_
  cases hst : read c with
  | none => exact head?_course_of_none h.begins hst moves
  | some st =>
    intro x hx
    rw [head?_course hst] at hx
    cases hx
    exact first st hst

section Plain

variable {c : Chain} {k : Nat} {b : BalanceLine}

theorem plain_balanceAct {m : Move} {s : Unit} {w : Work Unit Balance}
    (htask : b.stream.task = .working s) (hact : c.balanceAct k b m = .turn w) : w.Plain := by
  obtain rfl := eq_turnBalance_of_balanceAct hact
  have hturn : c.balanceTurn b = .turn w := (if_pos rfl).symm.trans hact
  have hopen : ∀ reason, b.stream.task ≠ .closing reason := by simp [htask]
  cases hp : c.prices[b.prices]? with
  | none => simp [balanceTurn, htask, hp] at hturn
  | some p =>
    rw [balanceTurn_of_open hopen hp, Stream.intent, htask] at hturn
    rw [← Stream.Act.turn.inj hturn]
    exact BalanceLine.work_plain _ _ _

theorem balanceStates_isChain (c : Chain) (k : Nat) (moves : List Move) :
    (c.balanceStates k moves).IsChain (Stream.Goes Work.Plain) := by
  refine course_isChain (fun _ => True) (fun _ _ h => h) ?_ trivial moves
  rintro c m st - hst
  obtain ⟨b, hb, rfl⟩ := balance?_eq_some.mp hst
  exact ⟨_, balance?_eq_some.mpr ⟨_, getElem?_balances_next hb m, rfl⟩, _,
    Stream.step_after _ fun s w htask hact => plain_balanceAct htask hact⟩

theorem failure_last_of_made {moves : List Move} {front back : List (Item Balance)} {f : Failure}
    (h : Stream.history Stream.produced (c.balanceStates k moves) = front ++ .error f :: back) :
    back = [] := by
  have hchain := c.balanceStates_isChain k moves
  cases hl : c.balanceStates k moves with
  | nil => simp [hl, Stream.history] at h
  | cons st l =>
    rw [hl] at h hchain
    exact Stream.history_produced_failure_last hchain h

end Plain

/-- How far the samples that some moves take run ahead of the balances that are seen. -/
structure Backlog (c : Chain) (k i : Nat) (value : Int64 → Item Balance) (moves : List Move) :
    Prop where
  made_first : Stream.history Stream.produced (c.balanceStates k moves) <+:
    (c.samplesTaken i moves).map value
  /-- The balances that are seen are those of the first samples, one for each. -/
  seen_first : balancesSeen k (c.run moves).1 <+:
    Stream.history Stream.produced (c.balanceStates k moves)
  /-- The failure that may come last does not count as a balance. -/
  room : (c.samplesTaken i moves).length ≤
    (balancesSeen k (c.run moves).1).countP Except.isOk + 4

theorem Feeds.backlog {k i : Nat} {source : BalanceSource} {moves : List Move}
    (h : c.Feeds k i source) (hprices : Stream.Buffered (c.priceStates i moves))
    (hbalances : Stream.Buffered (c.balanceStates k moves)) :
    c.Backlog k i source.update moves := by
  have taken := h.history_produced_prices moves
  have made := h.history_produced_balances moves
  have seen := h.history_received_balances moves
  have worth : (c.samplesTaken i moves).map source.update =
      (Stream.history Stream.produced (c.priceStates i moves)).map source.ofQuote := by
    rw [taken, List.map_map]
    rfl
  have seen_first : balancesSeen k (c.run moves).1 <+:
      Stream.history Stream.produced (c.balanceStates k moves) := by
    rw [← seen]
    exact hbalances.slot.order.trans hbalances.hand.order
  refine ⟨?_, seen_first, ?_⟩
  · rw [worth, made]
    exact (hprices.slot.order.trans hprices.hand.order).map _
  -- One sample for each of the four places.
  · have inHand := hprices.hand.room
    have inSlot := hprices.slot.room
    have inHand' := hbalances.hand.room
    have inSlot' := hbalances.slot.room
    rw [taken, List.length_map] at inHand
    rw [seen] at inSlot'
    have values := Stream.length_le_countP_isOk (n := 2) (fun _ _ _ heq => failure_last_of_made heq)
      seen_first (by omega) (by omega)
    rw [made, List.length_map] at values
    omega

theorem opened_watchBalance {metadata answer : Metadata} {perAddress : Bool}
    {timeout? : Option Millis}
    (h : (c.move (.watchBalance metadata perAddress timeout?)).1 = .opened (.ok answer)) :
    ∃ e w, (((c.wiring.wallet c.home).watch ⟨⟨perAddress⟩, metadata⟩).perform c.world).1 = .ok e ∧
      c.next (.watchBalance metadata perAddress timeout?) =
        (c.asked w).startBalances (c.callerContext timeout?) e.payload := by
  obtain ⟨w, ⟨f, heq⟩ | ⟨e, made, heq⟩⟩ := c.move_watchBalance_cases metadata perAddress timeout?
  · cases h.symm.trans (congrArg Prod.fst heq)
  · exact ⟨e, w, made, congrArg Prod.snd heq⟩

theorem Layout.feeds_startBalances (hc : c.Layout) {w : World} {ctx : Context}
    {source : BalanceSource} {home : Role} {period : Millis} {opened : Chain}
    (hfeed : source.prices = .feed home period)
    (hopened : opened = (c.asked w).startBalances ctx source) (hatt : opened.Attended) :
    opened.Feeds c.balances.length c.prices.length source := by
  obtain ⟨p, hp, hst⟩ := (c.asked w).getElem?_prices_startBalances_new ctx source
  rw [← hopened] at hp
  refine ⟨hopened ▸ (hc.asked w).startBalances ctx source, hatt, ?_, p, hp, ?_⟩
  · rw [hopened]
    exact ⟨_, List.getElem?_concat_length .., rfl, rfl, fun _ => rfl⟩
  · rw [hst, hfeed]
    intro pace hpace
    rcases hpace with hpace | ⟨i, hpace⟩ <;> cases hpace
    exact ⟨_, _, rfl⟩

theorem backlog_of_opened (hlay : c.Layout) (hatt : c.Attended)
    (inProcess : c.wiring.prices? = none) {metadata answer : Metadata} {perAddress : Bool}
    {timeout? : Option Millis}
    (h : (c.move (.watchBalance metadata perAddress timeout?)).1 = .opened (.ok answer)) :
    ∃ access, (((c.wiring.validator c.home).validate metadata).perform c.world).1 = .ok access ∧
      ∀ after : List Move, (c.next (.watchBalance metadata perAddress timeout?)).Backlog
        c.balances.length c.prices.length
        (fun sample => c.wiring.aggregator.balance access.name sample perAddress) after := by
  obtain ⟨e, w, hwatch, hnext⟩ := opened_watchBalance h
  obtain ⟨access, granted, hd, -, rfl⟩ :=
    Wiring.source_of_watch inProcess c.home perAddress c.world hwatch
  refine ⟨access, (Wiring.validate_eq c.home metadata c.world).trans hd, fun after => ?_⟩
  have hfeeds := hlay.feeds_startBalances rfl hnext (hatt.next hlay _)
  have noPrices : c.price? c.prices.length = none := by simp [price?]
  have noBalances : c.balance? c.balances.length = none := by simp [balance?]
  exact hfeeds.backlog
    ((line_price _).buffered (fun st hst => (line_price _).begins c _ st noPrices hst) after)
    ((line_balance _).buffered (fun st hst => (line_balance _).begins c _ st noBalances hst) after)

end Beginning

/-- Of every stream the slot holds one item at most and its producer one more. So a stream of
balances over the feed is at most four samples behind, in any run, and the balances that are seen of
it are those of the samples that were taken for it, one after the other. -/
theorem backlog_is_bounded (wiring : Wiring) (home : Role) :
    (∀ moves i, Stream.Buffered ((start wiring home).priceStates i moves)) ∧
    (∀ moves k, Stream.Buffered ((start wiring home).balanceStates k moves)) ∧
    (wiring.prices? = none → ∀ (before : List Move) (metadata answer : Metadata)
        (perAddress : Bool) (timeout? : Option Millis) (c : Chain),
      ((start wiring home).run before).2 = c →
      (c.move (.watchBalance metadata perAddress timeout?)).1 = .opened (.ok answer) →
      ∃ access, (((wiring.validator home).validate metadata).perform c.world).1 = .ok access ∧
        ∀ after : List Move, (c.next (.watchBalance metadata perAddress timeout?)).Backlog
          c.balances.length c.prices.length
          (fun sample => wiring.aggregator.balance access.name sample perAddress) after) := by
  refine ⟨?_, ?_, ?_⟩
  · exact fun moves i => (line_price i).buffered (fun st h => by cases h) moves
  · exact fun moves k => (line_balance k).buffered (fun st h => by cases h) moves
  · intro inProcess before metadata answer perAddress timeout? c hc hopened
    obtain ⟨hwiring, hhome, hlay, hatt⟩ := reached hc
    subst hwiring hhome
    exact backlog_of_opened hlay hatt inProcess hopened

/-- A process over a feed of six prices. -/
def sixPrices : Wiring where
  ledger := .ofHoldings [⟨"u", "a", 3⟩]
  samples := [10, 20, 30, 40, 50, 60]
  account? := some (.ok ⟨⟨"u", .normal⟩, ∅⟩)

/-- Both producers keep going while nobody looks for a balance, until one look at the end. -/
def unread : List Move :=
  (List.replicate 5
    [.pass 1000, .turnPrice 0, .turnPrice 0, .turnBalance 0, .turnBalance 0]).flatten ++
      [.receiveBalance 0]

/-- The process with a stream of balances that was just opened. -/
def sixPricesOpened : Chain :=
  (start sixPrices .wallet).next (.watchBalance (Metadata.credentials "t" .normal) false none)

theorem three_samples_wait_behind_the_first :
    sixPricesOpened.Backlog 0 0 (fun sample => sixPrices.aggregator.balance "u" sample false)
        unread ∧
      sixPricesOpened.samplesTaken 0 unread = [10, 20, 30, 40] ∧
      balancesSeen 0 (sixPricesOpened.run unread).1 = [.ok ⟨30, []⟩] := by
  obtain ⟨-, -, behind⟩ := backlog_is_bounded sixPrices .wallet
  have hvalid : (((sixPrices.validator .wallet).validate (Metadata.credentials "t"
      .normal)).perform {}).1 = .ok ⟨"t", "u", .normal, .normal, true⟩ := by cbv
  obtain ⟨access, haccess, hbacklog⟩ := behind rfl [] (Metadata.credentials "t" .normal)
    (Metadata.ofHost "wallet-0") false none _ rfl (by cbv)
  cases haccess.symm.trans hvalid
  exact ⟨hbacklog unread, by cbv, by cbv⟩

end Chain

end WalletWatch
