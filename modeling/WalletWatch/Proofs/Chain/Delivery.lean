import Mathlib
import WalletWatch.Proofs.Chain.Undisturbed
import WalletWatch.Proofs.Service.Perform
import WalletWatch.Proofs.Stream.Ahead

set_option autoImplicit false

/-!
# Balances follow prices

What a consumer can still receive of a stream of balances is what the balances of the prices ahead
come to. Whoever moves, this only gets shorter, by the item that the consumer takes or by what a
cancellation cuts off. So a stream of balances over a script gives the balance of one price after
another, up to the first failure.
-/

namespace WalletWatch

/-- The quotes that are yet to come of a script; samples of a feed are not known beforehand. -/
def Pace.quotes : Pace → List (Item PriceQuote)
  | .ticking .. => []
  | .playing p => p.script.items.map (Except.map PriceQuote.mk)

/-- What a stream of balances makes of some quotes. -/
def BalanceSource.ofQuotes (s : BalanceSource) (quotes : List (Item PriceQuote)) :
    List (Item Balance) :=
  s.updates (quotes.map (Except.map PriceQuote.price))

/-- The balances that a consumer can still receive, where `prices` is what they are made of. -/
def BalanceLine.toCome (b : BalanceLine) (prices : Stream Pace PriceQuote) : List (Item Balance) :=
  b.stream.ahead fun _ => b.source.ofQuotes (prices.ahead Pace.quotes)

namespace BalanceSource

theorem updates_mono (s : BalanceSource) {xs ys : List (Item Int64)} (h : xs <+: ys) :
    s.updates xs <+: s.updates ys := by
  induction xs generalizing ys with
  | nil => exact List.nil_prefix
  | cons x xs ih =>
    obtain ⟨rest, rfl⟩ := h
    cases x with
    | error f => exact List.prefix_rfl
    | ok p =>
      simp only [List.cons_append, updates]
      cases s.update p with
      | error f => exact List.prefix_rfl
      | ok b => exact List.cons_prefix_cons.mpr ⟨rfl, ih (List.prefix_append xs rest)⟩

theorem ofQuotes_mono (s : BalanceSource) {xs ys : List (Item PriceQuote)} (h : xs <+: ys) :
    s.ofQuotes xs <+: s.ofQuotes ys :=
  s.updates_mono (h.map _)

theorem ofQuotes_quotes (s : BalanceSource) (p : Playback) :
    s.ofQuotes (Pace.quotes (.playing p)) = s.updates p.script.items := by
  have hid : (Except.map PriceQuote.price ∘ Except.map PriceQuote.mk : Item Int64 → Item Int64) =
      id := by
    funext i
    cases i <;> rfl
  simp only [ofQuotes, Pace.quotes, List.map_map, hid, List.map_id]

end BalanceSource

/-! ## The turns of the producers -/

section Turns

theorem Pace.work_ahead (feed : Nat → Int64) (now : Millis) (p : Playback) (w : World) :
    (Pace.work feed now false (.playing p) w).1.ahead Pace.quotes (.playing p) =
      Pace.quotes (.playing p) := by
  obtain ⟨⟨prices, gap, ending⟩, gapEnd?⟩ := p
  cases prices with
  | nil => cases ending <;> rfl
  | cons x rest =>
    cases gapEnd? with
    | some instant =>
      simp only [work, Playback.cue?, Bool.false_eq_true, if_false]
      split_ifs <;> rfl
    | none =>
      simp only [work, Playback.cue?, Bool.false_eq_true, if_false]
      split_ifs <;> rfl

theorem Pace.work_ahead_le (feed : Nat → Int64) (now : Millis) (cancelled : Bool)
    (p : Playback) (w : World) :
    (Pace.work feed now cancelled (.playing p) w).1.ahead Pace.quotes (.playing p) <+:
      Pace.quotes (.playing p) := by
  cases cancelled with
  | true => exact List.nil_prefix
  | false =>
    simp only [Pace.work_ahead, List.prefix_rfl]

theorem BalanceLine.work_ahead (s : BalanceSource) (prices : Stream Pace PriceQuote) :
    (BalanceLine.work s false prices).1.ahead
        (fun _ => s.ofQuotes (prices.receive.2.ahead Pace.quotes)) () =
      s.ofQuotes (prices.ahead Pace.quotes) := by
  rw [← Stream.ahead_receive prices]
  unfold BalanceLine.work
  cases hslot : prices.slot with
  | none =>
    have hlook : prices.receive = (if prices.hasStopped then .closed else .pending, prices) := by
      unfold Stream.receive
      rw [hslot]
    cases hstop : prices.hasStopped with
    | false =>
      simp only [hlook, hstop, Bool.false_eq_true, if_false]
      rfl
    | true =>
      have hend : prices.receive.2.ahead Pace.quotes = [] := by
        refine Stream.ahead_of_closed ?_ _
        simp [hlook, hstop]
      rw [hend]
      simp only [hlook, hstop, Bool.false_eq_true, if_false, if_true]
      rfl
  | some i =>
    have hlook : prices.receive = (.item i, { prices with slot := none }) := by
      unfold Stream.receive
      rw [hslot]
    cases i with
    | error f =>
      simp only [hlook, Bool.false_eq_true, if_false]
      rfl
    | ok q =>
      cases hupdate : s.update q.price with
      | error f =>
        simp only [hlook, hupdate, Bool.false_eq_true, if_false]
        simp [Work.ahead, BalanceSource.ofQuotes, BalanceSource.updates, Except.map, hupdate]
      | ok b =>
        simp only [hlook, hupdate, Bool.false_eq_true, if_false]
        simp [Work.ahead, BalanceSource.ofQuotes, BalanceSource.updates, Except.map, hupdate]

end Turns

/-! ## Scripts stay scripts -/

/-- A producer of prices that plays a script. -/
def Stream.Scripted (st : Stream Pace PriceQuote) : Prop :=
  ∀ pace, (st.task = .working pace ∨ ∃ i, st.task = .sending i (some pace)) →
    ∃ p, pace = .playing p

/-- What a producer decides that goes on with a script, if it goes on. -/
def Work.Plays (w : Work Pace PriceQuote) : Prop :=
  ∀ pace, (w = .goOn pace ∨ ∃ i, w = .send i pace) → ∃ p, pace = .playing p

section Scripted

theorem Pace.work_plays (feed : Nat → Int64) (now : Millis) (cancelled : Bool) (p : Playback)
    (w : World) : (Pace.work feed now cancelled (.playing p) w).1.Plays := by
  intro pace hpace
  unfold work at hpace
  cases cancelled with
  | true => simp at hpace
  | false =>
    simp only [Bool.false_eq_true, if_false] at hpace
    split at hpace
    · simp at hpace
    · rename_i rest hcue
      exact ⟨rest, by simpa [eq_comm] using hpace⟩
    · rename_i rest hcue
      exact ⟨rest, by simpa [eq_comm] using hpace⟩
    · simp at hpace
    · simp at hpace
    · simp at hpace

end Scripted

namespace Chain

variable {c : Chain}

theorem scripted_next {i : Nat} {p : PriceLine} (hs : p.stream.Scripted) (m : Move) :
    (p.stream.after (p.stream.isCancelled c.now c.signals) (c.priceAct i p m)).Scripted := by
  refine Stream.Step.resumes (Stream.step_after _ ?_) hs
  intro pace w htask hact
  obtain ⟨q, rfl⟩ := hs pace (.inl htask)
  rw [eq_intent_of_priceAct hact, Stream.intent, htask]
  exact Pace.work_plays _ _ _ q _

/-! ## Every move takes away or leaves -/

section Next

variable {k : Nat} {b : BalanceLine} {p : PriceLine}

theorem ahead_priceTurn_le (hs : p.stream.Scripted) :
    (p.stream.after (p.stream.isCancelled c.now c.signals) (c.priceTurn p)).ahead Pace.quotes <+:
      p.stream.ahead Pace.quotes := by
  refine Stream.ahead_after_turn_le _ ?_ fun _ _ _ => List.prefix_rfl
  intro pace htask
  obtain ⟨q, rfl⟩ := hs pace (.inl htask)
  rw [Stream.intent, htask]
  exact Pace.work_ahead_le _ _ _ q _

theorem ahead_priceTurn_eq (hs : p.stream.Scripted)
    (hc : p.stream.isCancelled c.now c.signals = false) :
    (p.stream.after (p.stream.isCancelled c.now c.signals) (c.priceTurn p)).ahead Pace.quotes =
      p.stream.ahead Pace.quotes := by
  rw [hc]
  refine Stream.ahead_after_turn_eq ?_ fun _ _ _ => rfl
  intro pace htask
  obtain ⟨q, rfl⟩ := hs pace (.inl htask)
  rw [Stream.intent, htask, hc]
  exact Pace.work_ahead _ _ q _

theorem toCome_mono (b : BalanceLine) {prices prices' : Stream Pace PriceQuote}
    (h : prices'.ahead Pace.quotes <+: prices.ahead Pace.quotes) :
    b.toCome prices' <+: b.toCome prices :=
  Stream.ahead_mono (fun _ => b.source.ofQuotes_mono h) b.stream

theorem toCome_of_endsBy {reason : StreamEnd} (he : b.stream.task.EndsBy reason)
    (prices : Stream Pace PriceQuote) : b.toCome prices = b.stream.slot.toList := by
  unfold BalanceLine.toCome Stream.ahead
  rcases he with he | he <;> simp [he, Task.ahead]

def afterTurn (c : Chain) (b : BalanceLine) : BalanceLine where
  stream := b.stream.after (b.stream.isCancelled c.now c.signals) (c.balanceTurn b)
  source := b.source
  prices := b.prices

def pricesAfterTurn (c : Chain) (b : BalanceLine) (p : PriceLine) : Stream Pace PriceQuote :=
  p.stream.after (p.stream.isCancelled c.now c.signals) (c.readingTurn b p)

theorem toCome_afterTurn_of_closing {reason : StreamEnd} (htask : b.stream.task = .closing reason)
    (prices prices' : Stream Pace PriceQuote) :
    (c.afterTurn b).toCome prices' = b.toCome prices := by
  have hend : (c.afterTurn b).stream.task.EndsBy reason :=
    Stream.endsBy_after (.inl htask) _ _
  rw [toCome_of_endsBy hend, toCome_of_endsBy (.inl htask)]
  have hslot : (c.afterTurn b).stream.slot = b.stream.slot := by
    change (b.stream.after _ (c.balanceTurn b)).slot = _
    unfold balanceTurn
    simp only [htask]
    split_ifs
    · rfl
    · rw [Stream.after_closing _ _ htask]
  rw [hslot]

/-- A turn of the producer of balances takes a quote for the balance that it gives. -/
theorem toCome_afterTurn_eq (hp : c.prices[b.prices]? = some p)
    (hc : b.stream.isCancelled c.now c.signals = false) :
    (c.afterTurn b).toCome (c.pricesAfterTurn b p) = b.toCome p.stream := by
  by_cases hclosing : ∃ reason, b.stream.task = .closing reason
  · obtain ⟨reason, htask⟩ := hclosing
    exact toCome_afterTurn_of_closing htask _ _
  · have hopen : ∀ reason, b.stream.task ≠ .closing reason := fun r hr => hclosing ⟨r, hr⟩
    unfold afterTurn BalanceLine.toCome
    rw [balanceTurn_of_open hopen hp, hc]
    refine Stream.ahead_after_turn_eq ?_ ?_
    · intro s htask
      rw [Stream.intent, htask]
      have hprices : c.pricesAfterTurn b p = p.stream.receive.2 := by
        simp [pricesAfterTurn, readingTurn, htask, hc, Stream.after]
      rw [hprices]
      exact BalanceLine.work_ahead b.source p.stream
    · intro i s htask
      have hprices : c.pricesAfterTurn b p = p.stream := by
        simp [pricesAfterTurn, readingTurn, htask]
      rw [hprices]

theorem toCome_afterTurn_le (hp : c.prices[b.prices]? = some p) :
    (c.afterTurn b).toCome (c.pricesAfterTurn b p) <+: b.toCome p.stream := by
  cases hc : b.stream.isCancelled c.now c.signals with
  | false =>
    simp only [toCome_afterTurn_eq hp hc, List.prefix_rfl]
  | true =>
    by_cases hclosing : ∃ reason, b.stream.task = .closing reason
    · obtain ⟨reason, htask⟩ := hclosing
      simp only [toCome_afterTurn_of_closing htask p.stream, List.prefix_rfl]
    · have hopen : ∀ reason, b.stream.task ≠ .closing reason := fun r hr => hclosing ⟨r, hr⟩
      unfold afterTurn BalanceLine.toCome
      rw [balanceTurn_of_open hopen hp, hc]
      refine Stream.ahead_after_turn_le _ ?_ ?_
      · intro s htask
        rw [Stream.intent, htask]
        exact List.nil_prefix
      · intro i s htask
        have hprices : c.pricesAfterTurn b p = p.stream := by
          simp [pricesAfterTurn, readingTurn, htask]
        simp only [hprices, List.prefix_rfl]

/-- The item that a look at a stream of balances showed. -/
def balanceSeen (k : Nat) : Move × Sight → Option (Item Balance)
  | (.receiveBalance j, .balance a) => if j = k then a.item? else none
  | _ => none

def balancesSeen (k : Nat) (shown : List (Move × Sight)) : List (Item Balance) :=
  shown.filterMap (balanceSeen k)

theorem move_receiveBalance (hb : c.balances[k]? = some b) :
    (c.move (.receiveBalance k)).1 = .balance b.stream.receive.1 := by
  simp only [move, receiveBalance, hb]

theorem balanceSeen_receiveBalance (hb : c.balances[k]? = some b) :
    balanceSeen k (.receiveBalance k, (c.move (.receiveBalance k)).1) = b.stream.slot := by
  rw [move_receiveBalance hb]
  simp only [balanceSeen, if_true]
  exact Stream.receive_item? b.stream

theorem balanceSeen_of_ne {m : Move} (hm : m ≠ .receiveBalance k) (s : Sight) :
    balanceSeen k (m, s) = none := by
  unfold balanceSeen
  split
  · rename_i j a heq
    cases heq
    have hne : j ≠ k := by rintro rfl; exact hm rfl
    exact if_neg hne
  · rfl

theorem balanceAct_of_ne {m : Move} (hturn : m ≠ .turnBalance k) (hlook : m ≠ .receiveBalance k)
    (hhang : m ≠ .hangUpBalance k) : c.balanceAct k b m = .elsewhere := by
  cases m with
  | turnBalance j => exact if_neg (by rintro rfl; exact hturn rfl)
  | receiveBalance j => exact if_neg (by rintro rfl; exact hlook rfl)
  | hangUpBalance j => exact if_neg (by rintro rfl; exact hhang rfl)
  | _ => rfl

theorem isCancelled_prices (hlay : c.Layout) (hatt : c.Attended) (hb : c.balances[k]? = some b)
    (hp : c.prices[b.prices]? = some p) (hactive : b.stream.task.Active)
    (hc : b.stream.isCancelled c.now c.signals = false) :
    p.stream.isCancelled c.now c.signals = false := by
  obtain ⟨q, hq, hdeadline, parents, s, s', hs, hs'⟩ := hlay.siblings k b hb
  cases hq.symm.trans hp
  have hown : c.signals.raised s = false := by
    refine (hatt k b p hb hp hactive).2 s ?_
    simp [Context.handle?, hs]
  unfold Stream.isCancelled Context.isCancelled at hc ⊢
  rw [hs', ← hdeadline] at hc
  rw [hs]
  simp only [List.any_append, List.any_cons, List.any_nil, Bool.or_false, Bool.or_eq_false_iff]
    at hc ⊢
  exact ⟨hc.1, hc.2.1, hown⟩

def balanceAfter (c : Chain) (k : Nat) (m : Move) (b : BalanceLine) : BalanceLine where
  stream := b.stream.after (b.stream.isCancelled c.now c.signals) (c.balanceAct k b m)
  source := b.source
  prices := b.prices

/-- The prices that a stream of balances reads, after a move. -/
def pricesAfter (c : Chain) (m : Move) (b : BalanceLine) (p : PriceLine) :
    Stream Pace PriceQuote :=
  p.stream.after (p.stream.isCancelled c.now c.signals) (c.priceAct b.prices p m)

/-- What a move does to what is to come of a stream of balances, next to what it shows of it. -/
structure Takes (c : Chain) (k : Nat) (m : Move) (b : BalanceLine) (p : PriceLine) : Prop where
  takes_first : (balanceSeen k (m, (c.move m).1)).toList ++
    (c.balanceAfter k m b).toCome (c.pricesAfter m b p) <+: b.toCome p.stream
  /-- Nothing is lost of a stream that is neither cancelled nor dropped. -/
  takes_all : b.stream.isCancelled c.now c.signals = false →
    (c.balanceAfter k m b).stream.listening = true →
    (balanceSeen k (m, (c.move m).1)).toList ++
      (c.balanceAfter k m b).toCome (c.pricesAfter m b p) = b.toCome p.stream

theorem Takes.of_eq {m : Move} (h : (balanceSeen k (m, (c.move m).1)).toList ++
    (c.balanceAfter k m b).toCome (c.pricesAfter m b p) = b.toCome p.stream) :
    c.Takes k m b p :=
  ⟨h ▸ List.prefix_rfl, fun _ _ => h⟩

theorem takes_turnBalance (hb : c.balances[k]? = some b) (hp : c.prices[b.prices]? = some p) :
    c.Takes k (.turnBalance k) b p := by
  have hbalance : c.balanceAfter k (.turnBalance k) b = c.afterTurn b := by
    simp [balanceAfter, afterTurn, balanceAct]
  have hprices : c.pricesAfter (.turnBalance k) b p = c.pricesAfterTurn b p := by
    simp [pricesAfter, pricesAfterTurn, priceAct, hb]
  have hseen : balanceSeen k (.turnBalance k, (c.move (.turnBalance k)).1) = none :=
    balanceSeen_of_ne (by simp) _
  refine ⟨?_, fun hc _ => ?_⟩
  · rw [hbalance, hprices, hseen]
    exact toCome_afterTurn_le hp
  · rw [hbalance, hprices, hseen]
    exact toCome_afterTurn_eq hp hc

theorem takes_receiveBalance (hb : c.balances[k]? = some b) (p : PriceLine) :
    c.Takes k (.receiveBalance k) b p := by
  refine .of_eq ?_
  have hbalance : (c.balanceAfter k (.receiveBalance k) b).stream = b.stream.receive.2 := by
    simp [balanceAfter, balanceAct, Stream.after]
  rw [balanceSeen_receiveBalance hb]
  unfold BalanceLine.toCome
  rw [hbalance]
  exact Stream.ahead_receive b.stream _

theorem takes_hangUpBalance (b : BalanceLine) (p : PriceLine) :
    c.Takes k (.hangUpBalance k) b p := by
  have hbalance : (c.balanceAfter k (.hangUpBalance k) b).stream = b.stream.hangUp := by
    simp [balanceAfter, balanceAct, Stream.after]
  have hseen : balanceSeen k (.hangUpBalance k, (c.move (.hangUpBalance k)).1) = none :=
    balanceSeen_of_ne (by simp) _
  refine ⟨?_, fun _ hl => ?_⟩
  · unfold BalanceLine.toCome
    rw [hseen, hbalance, Stream.ahead_hangUp]
    exact List.nil_prefix
  · rw [hbalance] at hl
    cases hl

/-- The moves that do nothing to a stream of balances can only end its prices, and that is no loss
as long as it is not cancelled itself. -/
theorem takes_of_ne (hlay : c.Layout) (hatt : c.Attended) (hb : c.balances[k]? = some b)
    (hp : c.prices[b.prices]? = some p) (hs : p.stream.Scripted) {m : Move}
    (hturn : m ≠ .turnBalance k) (hlook : m ≠ .receiveBalance k) (hhang : m ≠ .hangUpBalance k) :
    c.Takes k m b p := by
  have hbalance : c.balanceAfter k m b = b := by
    unfold balanceAfter
    rw [balanceAct_of_ne hturn hlook hhang, Stream.after_elsewhere]
  have hseen : balanceSeen k (m, (c.move m).1) = none := balanceSeen_of_ne hlook _
  have hprices : c.pricesAfter m b p = p.stream ∨ c.pricesAfter m b p =
      p.stream.after (p.stream.isCancelled c.now c.signals) (c.priceTurn p) := by
    unfold pricesAfter
    rcases priceAct_of_ne hlay hb p hturn with hact | hact <;> rw [hact]
    · exact .inr rfl
    · exact .inl rfl
  rcases hprices with hsame | hmade
  · refine .of_eq ?_
    rw [hbalance, hseen, hsame]
    rfl
  · refine ⟨?_, fun hc _ => ?_⟩
    · rw [hbalance, hseen, hmade]
      exact toCome_mono b (ahead_priceTurn_le hs)
    · rw [hbalance, hseen, hmade]
      -- Prices may be cancelled under a reader that has left its loop: it reads no more of them.
      by_cases hended : ∃ reason, b.stream.task.EndsBy reason
      · obtain ⟨reason, he⟩ := hended
        exact (toCome_of_endsBy he _).trans (toCome_of_endsBy he _).symm
      · have hactive : b.stream.task.Active := fun reason he => hended ⟨reason, he⟩
        have hahead := ahead_priceTurn_eq hs (isCancelled_prices hlay hatt hb hp hactive hc)
        unfold BalanceLine.toCome
        rw [hahead]
        rfl

theorem takes (hlay : c.Layout) (hatt : c.Attended) (hb : c.balances[k]? = some b)
    (hp : c.prices[b.prices]? = some p) (hs : p.stream.Scripted) (m : Move) :
    c.Takes k m b p := by
  by_cases hturn : m = .turnBalance k
  · exact hturn ▸ takes_turnBalance hb hp
  · by_cases hlook : m = .receiveBalance k
    · exact hlook ▸ takes_receiveBalance hb p
    · by_cases hhang : m = .hangUpBalance k
      · exact hhang ▸ takes_hangUpBalance b p
      · exact takes_of_ne hlay hatt hb hp hs hturn hlook hhang

/-! ## Runs -/

theorem balancesSeen_cons (m : Move) (s : Sight) (shown : List (Move × Sight)) :
    balancesSeen k ((m, s) :: shown) = (balanceSeen k (m, s)).toList ++ balancesSeen k shown := by
  unfold balancesSeen
  rw [List.filterMap_cons]
  cases balanceSeen k (m, s) <;> rfl

/-- What a run makes of a stream of balances, from the line `b` over the prices `p` to the line `b'`
over `p'`. -/
structure Delivers (c : Chain) (k : Nat) (moves : List Move) (b : BalanceLine) (p : PriceLine)
    (b' : BalanceLine) (p' : PriceLine) : Prop where
  line : (c.run moves).2.balances[k]? = some b'
  cancelled : b.stream.isCancelled c.now c.signals = true →
    b'.stream.isCancelled (c.run moves).2.now (c.run moves).2.signals = true
  listening : b'.stream.listening = true → b.stream.listening = true
  seen_first : balancesSeen k (c.run moves).1 ++ b'.toCome p'.stream <+: b.toCome p.stream
  seen_all : b'.stream.isCancelled (c.run moves).2.now (c.run moves).2.signals = false →
    b'.stream.listening = true →
    balancesSeen k (c.run moves).1 ++ b'.toCome p'.stream = b.toCome p.stream
  ended : (Move.receiveBalance k, Sight.balance .closed) ∈ (c.run moves).1 →
    b'.toCome p'.stream = []

theorem delivers (moves : List Move) (hlay : c.Layout) (hatt : c.Attended)
    (hb : c.balances[k]? = some b) (hp : c.prices[b.prices]? = some p)
    (hs : p.stream.Scripted) : ∃ b' p', c.Delivers k moves b p b' p' := by
  -- What was seen stands in front of what is to come; `takes` keeps the two together at each move.
  induction moves generalizing c b p with
  | nil => exact ⟨b, p, hb, id, id, List.prefix_rfl, fun _ _ => rfl, fun h => by cases h⟩
  | cons m rest ih =>
    have htakes := takes hlay hatt hb hp hs m
    have hb₁ : (c.next m).balances[k]? = some (c.balanceAfter k m b) := getElem?_balances_next hb m
    have hp₁ := getElem?_prices_next hp m
    obtain ⟨b', p', hrest⟩ := ih (hlay.next m) (hatt.next hlay m) hb₁ hp₁ (scripted_next hs m)
    have hshown : balancesSeen k (c.run (m :: rest)).1 =
        (balanceSeen k (m, (c.move m).1)).toList ++ balancesSeen k ((c.next m).run rest).1 :=
      balancesSeen_cons m _ _
    have hcancelled : b.stream.isCancelled c.now c.signals = true →
        b'.stream.isCancelled (c.run (m :: rest)).2.now (c.run (m :: rest)).2.signals = true := by
      intro hc
      refine hrest.cancelled ?_
      unfold Stream.isCancelled balanceAfter
      rw [Stream.after_context]
      exact isCancelled_next _ m hc
    have hprefix : balancesSeen k (c.run (m :: rest)).1 ++ b'.toCome p'.stream <+:
        b.toCome p.stream := by
      rw [hshown, List.append_assoc]
      have hmore := (List.prefix_append_right_inj
        (balanceSeen k (m, (c.move m).1)).toList).mpr hrest.seen_first
      exact hmore.trans htakes.takes_first
    refine ⟨b', p', hrest.line, hcancelled, ?_, hprefix, ?_, ?_⟩
    · intro hl
      have hstep : Stream.Step (fun _ => True) _ b.stream (c.balanceAfter k m b).stream :=
        Stream.step_after _ fun _ _ _ _ => trivial
      exact hstep.listening (hrest.listening hl)
    · intro hc hl
      rw [hshown, List.append_assoc, hrest.seen_all hc hl]
      refine htakes.takes_all ?_ (hrest.listening hl)
      cases hb : b.stream.isCancelled c.now c.signals with
      | false => rfl
      | true => exact absurd (hcancelled hb) (by simp [hc])
    · intro hend
      rcases List.mem_cons.mp hend with hhead | htail
      · obtain ⟨rfl, hlook⟩ := Prod.mk.inj hhead
        have hlook' := hlook.trans (move_receiveBalance hb)
        have hclosed : b.stream.receive.1 = .closed := (Sight.balance.inj hlook').symm
        have hnone : b.toCome p.stream = [] := Stream.ahead_of_closed hclosed _
        rw [hnone] at hprefix
        exact (List.append_eq_nil_iff.mp (List.prefix_nil.mp hprefix)).2
      · exact hrest.ended htail

end Next

/-! ## A stream over a script -/

/-- Items up to the first failure, which is the last. -/
def upToFailure {α : Type} : List (Item α) → List (Item α)
  | [] => []
  | .ok a :: rest => .ok a :: upToFailure rest
  | .error f :: _ => [.error f]

/-- The balances that a script comes to for a user: one for each price, and the failure of the
script behind them, but nothing behind a failure. -/
def scriptedBalances (a : Aggregator) (user : String) (perAddress : Bool) (script : Script) :
    List (Item Balance) :=
  upToFailure (script.prices.map (fun p => a.balance user p perAddress) ++
    match script.ending with
      | .failure f => [.error f]
      | _ => [])

theorem upToFailure_error_last {α : Type} (items : List (Item α)) {seen rest : List (Item α)}
    {f : Failure} (h : seen ++ .error f :: rest <+: upToFailure items) : rest = [] := by
  induction items generalizing seen with
  | nil => simp [upToFailure] at h
  | cons i items ih =>
    cases i with
    | error g =>
      have hlen := h.length_le
      simp only [upToFailure, List.length_append, List.length_cons, List.length_nil] at hlen
      exact List.eq_nil_of_length_eq_zero (by omega)
    | ok a =>
      cases seen with
      | nil =>
        obtain ⟨heq, -⟩ := List.cons_prefix_cons.mp h
        cases heq
      | cons x xs => exact ih (List.cons_prefix_cons.mp h).2

theorem updates_eq_upToFailure (s : BalanceSource) (items : List (Item Int64)) :
    s.updates items = upToFailure (items.map (·.bind s.update)) := by
  induction items with
  | nil => rfl
  | cons i rest ih =>
    cases i with
    | error f => rfl
    | ok p =>
      simp only [BalanceSource.updates, List.map_cons, Except.bind]
      cases s.update p with
      | error f => rfl
      | ok b => rw [ih]; rfl

theorem updates_items (s : BalanceSource) (script : Script) :
    s.updates script.items = scriptedBalances s.aggregator s.user s.perAddress script := by
  rw [updates_eq_upToFailure]
  unfold Script.items scriptedBalances
  rw [List.map_append, List.map_map]
  congr 2
  cases script.ending <;> rfl

theorem perform_wallet_watch (wiring : Wiring) (home : Role) {metadata mine : Metadata}
    {quote : Item Int64} {script : Script}
    (hprices : wiring.prices? = some ⟨mine, quote, .ok script⟩) (perAddress : Bool)
    {access : Access} {w w₁ : World}
    (hvalid : ((wiring.validator home).validate metadata).perform w = (.ok access, w₁)) :
    (((wiring.wallet home).watch ⟨⟨perAddress⟩, metadata⟩).perform w).1 =
      .ok (.fromHost ⟨access.name, perAddress, wiring.aggregator, .script script, home⟩
        (wiring.hostname .wallet)) := by
  obtain ⟨w₂, hopened⟩ : ∃ w₂, ((wiring.price home).watch ⟨{}, access.forward⟩).perform w₁ =
      (.ok ⟨.script script, mine⟩, w₂) := by
    simp only [Wiring.price, hprices]
    exact ⟨_, Call.perform_bind_ok _ (Call.perform_modify _ w₁)⟩
  have hwithin : (((wiring.price home).watch ⟨{}, access.forward⟩).within
      "could not open price stream").perform w₁ = (.ok ⟨.script script, mine⟩, w₂) := by
    rw [Call.perform_within, hopened]
    rfl
  refine (congrArg Prod.fst (Call.perform_bind_ok _ hvalid)).trans ?_
  refine (congrArg Prod.fst (Call.perform_bind_ok _ hwithin)).trans ?_
  rfl

theorem balance_of_missing {a : Aggregator} {user : String} (h : a.ledger.lookup? user = none)
    (price : Int64) (perAddress : Bool) : a.balance user price perAddress =
      .error ⟨.notFound, "could not identify user: " ++ user⟩ := by
  unfold Aggregator.balance
  rw [h]

theorem scriptedBalances_of_missing {a : Aggregator} {user : String} (perAddress : Bool)
    {script : Script} (hmissing : a.ledger.lookup? user = none) (hprices : script.prices ≠ []) :
    scriptedBalances a user perAddress script =
      [.error ⟨.notFound, "could not identify user: " ++ user⟩] := by
  cases hlist : script.prices with
  | nil => exact absurd hlist hprices
  | cons p rest =>
    unfold scriptedBalances
    rw [hlist, List.map_cons, balance_of_missing hmissing p]
    rfl

/-- What a consumer gets of a stream of balances of which `due` is due, in a run behind the move
that opened it. -/
structure Follows (c : Chain) (k : Nat) (due : List (Item Balance)) (deadline? : Option Millis)
    (moves : List Move) : Prop where
  seen_first : balancesSeen k (c.run moves).1 <+: due
  failure_last : ∀ (seen rest : List (Item Balance)) (f : Failure),
    balancesSeen k (c.run moves).1 = seen ++ .error f :: rest → rest = []
  /-- Who sees the end of a stream that it still holds, and that is not cancelled, has seen all. -/
  seen_all : ∀ b : BalanceLine, (c.run moves).2.balances[k]? = some b →
    b.stream.listening = true →
    b.stream.isCancelled (c.run moves).2.now (c.run moves).2.signals = false →
    (Move.receiveBalance k, Sight.balance .closed) ∈ (c.run moves).1 →
    balancesSeen k (c.run moves).1 = due
  /-- So has who sees the end where nobody cancelled or dropped anything and the deadline is not
  reached. -/
  undisturbed_all : (∀ m ∈ moves, m.disturbs = false) →
    (∀ d, deadline? = some d → (c.run moves).2.now < d) →
    (Move.receiveBalance k, Sight.balance .closed) ∈ (c.run moves).1 →
    balancesSeen k (c.run moves).1 = due

theorem Layout.follows (hc : c.Layout) {w : World} {ctx : Context} {source : BalanceSource}
    {script : Script} {opened : Chain} (hctx : ctx.signals = [c.signals.all.length])
    (hscript : source.prices = .script script)
    (hopened : (c.asked w).startBalances ctx source = opened) (hatt : opened.Attended)
    (moves : List Move) :
    opened.Follows c.balances.length
      (scriptedBalances source.aggregator source.user source.perAddress script) ctx.deadline?
      moves := by
  have hlay : opened.Layout := hopened ▸ (hc.asked w).startBalances ctx source
  have hcalm := hc.calm_startBalances w hctx source
  obtain ⟨p, hp, hst⟩ := (c.asked w).getElem?_prices_startBalances_new ctx source
  rw [hopened] at hcalm hp
  have hscripted : p.stream.Scripted := by
    rw [hst, hscript]
    intro pace hpace
    rcases hpace with hpace | ⟨i, hpace⟩ <;> cases hpace
    exact ⟨_, rfl⟩
  obtain ⟨b', p', hd⟩ := delivers moves hlay hatt hcalm.line hp hscripted
  have hdue : (⟨(Stream.openUnder ctx (c.asked w).signals.make.2 ()).1, source,
      c.prices.length⟩ : BalanceLine).toCome p.stream =
        scriptedBalances source.aggregator source.user source.perAddress script := by
    rw [← updates_items]
    refine Eq.trans ?_ (source.ofQuotes_quotes { script := script })
    rw [hst, hscript]
    rfl
  have hfirst := hd.seen_first
  have hall := hd.seen_all
  rw [hdue] at hfirst hall
  have hseen := (List.prefix_append _ _).trans hfirst
  have hcomplete : b'.stream.listening = true →
      b'.stream.isCancelled (opened.run moves).2.now (opened.run moves).2.signals = false →
      (Move.receiveBalance c.balances.length, Sight.balance .closed) ∈ (opened.run moves).1 →
      balancesSeen c.balances.length (opened.run moves).1 =
        scriptedBalances source.aggregator source.user source.perAddress script := by
    intro hl hn hend
    have hwhole := hall hn hl
    rw [hd.ended hend, List.append_nil] at hwhole
    exact hwhole
  refine ⟨hseen, ?_, ?_, ?_⟩
  · intro seen rest f heq
    rw [heq] at hseen
    exact upToFailure_error_last _ hseen
  · intro b hb hl hn hend
    cases hb.symm.trans hd.line
    exact hcomplete hl hn hend
  · intro hleft hnow hend
    obtain ⟨b, hb, hcontext⟩ := hcalm.run hlay hleft
    cases hb.line.symm.trans hd.line
    refine hcomplete hb.listening (hb.isCancelled_eq_false ?_) hend
    intro d hdeadline
    rw [hcontext] at hdeadline
    exact hnow d hdeadline

/-- A stream of balances over any script, in any run of the chain: its consumer receives the balance
of one price after another up to the first failure, and all of them if it sees the end and nobody
cancelled or dropped the stream. -/
theorem balances_follow_prices (wiring : Wiring) (home : Role) (before after : List Move)
    (metadata mine : Metadata) (quote : Item Int64) (script : Script) (perAddress : Bool)
    (timeout? : Option Millis) (access : Access) (c : Chain)
    (hprices : wiring.prices? = some ⟨mine, quote, .ok script⟩)
    (hc : ((start wiring home).run before).2 = c)
    (hvalid : (((wiring.validator home).validate metadata).perform c.world).1 = .ok access) :
    (∃ answer, (c.move (.watchBalance metadata perAddress timeout?)).1 = .opened (.ok answer)) ∧
      (c.next (.watchBalance metadata perAddress timeout?)).Follows c.balances.length
        (scriptedBalances wiring.aggregator access.name perAddress script)
        (timeout?.map (c.now + ·)) after ∧
      (wiring.ledger.lookup? access.name = none → script.prices ≠ [] →
        scriptedBalances wiring.aggregator access.name perAddress script =
          [.error ⟨.notFound, "could not identify user: " ++ access.name⟩]) := by
  have hwiring : c.wiring = wiring := hc ▸ wiring_run (start wiring home) before
  have hhome : c.home = home := hc ▸ home_run (start wiring home) before
  obtain ⟨hlay, hatt⟩ : c.Layout ∧ c.Attended := by
    rw [← hc, run_snd]
    exact layout_and_attended wiring home before
  obtain ⟨⟨r, w⟩, hmade⟩ : ∃ made,
      ((c.wiring.wallet c.home).watch ⟨⟨perAddress⟩, metadata⟩).perform c.world = made := ⟨_, rfl⟩
  have hopened : r = .ok (.fromHost ⟨access.name, perAddress, wiring.aggregator, .script script,
      home⟩ (wiring.hostname .wallet)) := by
    rw [hwiring, hhome] at hmade
    rw [← perform_wallet_watch wiring home hprices perAddress (Prod.ext hvalid rfl), hmade]
  subst hopened
  have hwatch := watchBalance_ok (c := (c.newCaller timeout?).2.2) (c.callerContext timeout?)
    metadata perAddress hmade
  have hnext : c.next (.watchBalance metadata perAddress timeout?) = (c.asked w).startBalances
      (c.callerContext timeout?)
      ⟨access.name, perAddress, wiring.aggregator, .script script, home⟩ :=
    congrArg Prod.snd hwatch
  have hdeadline : (c.callerContext timeout?).deadline? = timeout?.map (c.now + ·) := by
    cases timeout? <;> rfl
  refine ⟨⟨_, congrArg (Sight.opened ∘ Prod.fst) hwatch⟩, ?_, ?_⟩
  · rw [← hdeadline]
    have hscript : (⟨access.name, perAddress, wiring.aggregator, .script script, home⟩ :
        BalanceSource).prices = .script script := rfl
    exact hlay.follows (c.signals_callerContext timeout?) hscript hnext.symm (hatt.next hlay _)
      after
  · intro hmissing hsome
    exact scriptedBalances_of_missing perAddress hmissing hsome

/-- Two prices with a failure behind them. -/
def failingPrices : Wiring where
  ledger := .ofHoldings [⟨"u", "a", 3⟩]
  account? := some (.ok ⟨⟨"u", .normal⟩, ∅⟩)
  prices? := some ⟨∅, .ok 1, .ok { prices := [1, 2], ending := .failure ⟨.unavailable, "gone"⟩ }⟩

def untilClosed : List Move :=
  (List.replicate 12 [.turnPrice 0, .turnBalance 0, .receiveBalance 0]).flatten

theorem failure_follows_the_balances :
    balancesSeen 0 (((start failingPrices .wallet).next
        (.watchBalance (Metadata.credentials "t" .normal) true none)).run untilClosed).1 =
      [.ok ⟨3, [⟨"a", 3⟩]⟩, .ok ⟨6, [⟨"a", 6⟩]⟩, .error ⟨.unavailable, "gone"⟩] := by
  have hvalid : (((failingPrices.validator .wallet).validate (Metadata.credentials "t"
      .normal)).perform {}).1 = .ok ⟨"t", "u", .normal, .normal, true⟩ := by cbv
  obtain ⟨-, hfollows, -⟩ := balances_follow_prices failingPrices .wallet [] untilClosed _ _ _ _
    true none _ _ rfl rfl hvalid
  have hclosed : (Move.receiveBalance 0, Sight.balance .closed) ∈ (((start failingPrices
      .wallet).next (.watchBalance (Metadata.credentials "t" .normal) true none)).run
        untilClosed).1 :=
    List.mem_of_getElem? (i := 35) (by cbv)
  refine (hfollows.undisturbed_all (by decide) ?_ hclosed).trans (by cbv)
  intro d hd
  cases hd

end Chain

end WalletWatch
