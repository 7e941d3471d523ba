import Mathlib
import WalletWatch.Proofs.Chain.Cancellation
import WalletWatch.Proofs.Chain.Gauges

set_option autoImplicit false

/-!
# No stream is left behind

A stream of balances lets go of its prices before its producer stops, whatever ends it. So a chain
in which no producer can go on keeps no prices for a reader that is done, and it keeps nothing at
all once every caller has parted with its stream.
-/

namespace WalletWatch

namespace Chain

/-- A stream of prices that its reader has let go of: nobody has its receiving end or its signal any
more, and so it is cancelled. -/
structure LetGo (c : Chain) (p : PriceLine) : Prop where
  unheard : p.stream.listening = false
  released : ∃ s, p.stream.context.handle? = some s ∧ c.signals.wasReleased s = true
  cancelled : p.stream.isCancelled c.now c.signals = true

/-- No producer can take a step. -/
def AtRest (c : Chain) : Prop :=
  (∀ i, (c.turnPrice i).1.moved = false) ∧ ∀ k, (c.turnBalance k).1.moved = false

section Release

variable {c : Chain} {i k : Nat} {l p : PriceLine} {b : BalanceLine}

theorem firstMove_eq_none {turns : List (Turn × Chain)} :
    firstMove turns = none ↔ ∀ x ∈ turns, x.1.moved = false := by
  induction turns with
  | nil => simp [firstMove]
  | cons x rest ih =>
    obtain ⟨t, c⟩ := x
    rw [List.forall_mem_cons, ← ih, firstMove]
    cases t.moved <;> simp

/-- A chain is at rest if nothing can happen in it at its instant. -/
theorem atRest_iff : c.AtRest ↔ Simulation.turn c = none := by
  refine Iff.trans ?_ firstMove_eq_none.symm
  refine ⟨fun h x hx => ?_, fun h => ⟨fun i => ?_, fun k => ?_⟩⟩
  · rcases List.mem_append.mp hx with hx | hx
    · obtain ⟨i, -, rfl⟩ := List.mem_map.mp hx
      exact h.1 i
    · obtain ⟨k, -, rfl⟩ := List.mem_map.mp hx
      exact h.2 k
  · rcases Nat.lt_or_ge i c.prices.length with hlt | hge
    · exact h _ (List.mem_append_left _ (List.mem_map_of_mem (List.mem_range.mpr hlt)))
    · simp [turnPrice, List.getElem?_eq_none hge, Turn.moved]
  · rcases Nat.lt_or_ge k c.balances.length with hlt | hge
    · exact h _ (List.mem_append_right _ (List.mem_map_of_mem (List.mem_range.mpr hlt)))
    · simp [turnBalance, List.getElem?_eq_none hge, Turn.moved]

theorem letGo_of_held (h : c.held p = 0) : c.LetGo p := by
  unfold held at h
  obtain ⟨hl, hr⟩ := Nat.add_eq_zero_iff.mp h
  obtain ⟨s, hs, hreleased⟩ : ∃ s, p.stream.context.handle? = some s ∧
      c.signals.wasReleased s = true := by
    simpa [Option.any_eq_true] using hr
  exact ⟨by simpa using hl, ⟨s, hs, hreleased⟩, Context.isCancelled_of_released hs _ hreleased⟩

theorem held_of_letGo?_eq_none (hlay : c.Layout) (hp : c.prices[i]? = some p)
    (h : c.letGo? i = none) : c.held p = 0 := by
  obtain ⟨s, hs, hlt⟩ := hlay.price_made i p hp
  have hl := not_listening_of_letGo?_eq_none hp h
  have hreleased : c.signals.wasReleased s = true := by
    simpa [letGo?, hp, hl, hs, Signals.wasReleased, hlt] using h
  simp [held, hl, hs, hreleased]

/-- A producer of balances stops in one way: in a turn of its own, once it has left its loop and has
nothing left to let go of. -/
theorem letGo?_eq_none_of_stops {m : Move} (live : b.stream.hasStopped = false)
    (stop : (b.stream.after (b.stream.isCancelled c.now c.signals)
      (c.balanceAct k b m)).hasStopped = true) : c.letGo? b.prices = none := by
  by_cases hclosing : ∃ reason, b.stream.task = .closing reason
  · obtain ⟨reason, htask⟩ := hclosing
    cases hgo : c.letGo? b.prices with
    | none => rfl
    | some c' =>
      -- As long as something is held, no act that befalls the stream is a turn of its own.
      have idle : ∀ w, c.balanceAct k b m ≠ .turn w := by
        intro w hact
        cases m with
        | turnBalance j => simp [balanceAct, balanceTurn, htask, hgo] at hact
        | receiveBalance j => simp [balanceAct, ite_eq_iff] at hact
        | hangUpBalance j => simp [balanceAct, ite_eq_iff] at hact
        | _ => cases hact
      rw [Stream.hasStopped_of_task_eq (Stream.task_after _ idle), live] at stop
      cases stop
  · have hopen : ∀ reason, b.stream.task ≠ .closing reason := fun r hr => hclosing ⟨r, hr⟩
    rw [Stream.hasStopped_after hopen, live] at stop
    cases stop

/-- Streams of balances that have stopped hold nothing any more. -/
def Tidy (c : Chain) : Prop :=
  ∀ (k : Nat) (b : BalanceLine) (p : PriceLine), c.balances[k]? = some b →
    c.prices[b.prices]? = some p → b.stream.hasStopped = true → c.held p = 0

theorem held_of_stops (hlay : c.Layout) (htidy : c.Tidy) {m : Move} {b' : BalanceLine}
    (hb : c.balances[k]? = some b) (hp : c.prices[b.prices]? = some p)
    (hb' : (c.next m).balances[k]? = some b') (stop : b'.stream.hasStopped = true) :
    c.held p = 0 := by
  cases hb'.symm.trans (getElem?_balances_next hb m)
  cases live : b.stream.hasStopped with
  | true => exact htidy k b p hb hp live
  | false => exact held_of_letGo?_eq_none hlay hp (letGo?_eq_none_of_stops live stop)

theorem Tidy.next (htidy : c.Tidy) (hlay : c.Layout) (m : Move) : (c.next m).Tidy := by
  intro k b' p' hb' hp' stop
  cases hb : c.balances[k]? with
  | some b =>
    obtain ⟨p, hp, -⟩ := hlay.siblings k b hb
    have held := held_of_stops hlay htidy hb hp hb' stop
    cases hb'.symm.trans (getElem?_balances_next hb m)
    exact Nat.le_zero.mp (held ▸ held_next_le hp hp')
  -- A stream that has just been opened is in its loop.
  | none =>
    rcases c.steady_or_opens m with h | ⟨ctx, w, -, heq | ⟨source, heq⟩ | ⟨source, heq⟩⟩
    · obtain ⟨b, hb₀, -⟩ := h.balance_before hb'
      cases hb.symm.trans hb₀
    · rw [heq] at hb'
      cases hb.symm.trans hb'
    · rw [heq] at hb'
      cases hb.symm.trans hb'
    · rw [heq] at hb'
      rcases balance_startBalances hb' with hb₀ | ⟨-, rfl⟩
      · cases hb.symm.trans hb₀
      · cases stop

theorem tidy_run (wiring : Wiring) (home : Role) (moves : List Move) :
    ((start wiring home).run moves).2.Tidy := by
  have kept := run_keeps (fun c => c.Layout ∧ c.Tidy)
    (fun c m hc => ⟨hc.1.next m, hc.2.next hc.1 m⟩) (c := start wiring home)
    ⟨(layout_and_attended wiring home []).1, fun k b p hb => by cases hb⟩ moves
  exact kept.2

/-! ## Rest -/

theorem turnPrice_fst (h : c.prices[i]? = some l) :
    (c.turnPrice i).1 = (l.stream.turn (Pace.work c.wiring.feed c.now
      (l.stream.isCancelled c.now c.signals)) (l.stream.isCancelled c.now c.signals)
      c.world).1 := by
  unfold turnPrice
  simp only [h]
  split <;> rfl

theorem turnBalance_fst (h : c.balances[k]? = some b)
    (hopen : ∀ reason, b.stream.task ≠ .closing reason) (hp : c.prices[b.prices]? = some p) :
    (c.turnBalance k).1 = (b.stream.turn
      (fun _ => BalanceLine.work b.source (b.stream.isCancelled c.now c.signals))
      (b.stream.isCancelled c.now c.signals) p.stream).1 := by
  unfold turnBalance
  cases htask : b.stream.task with
  | closing reason => exact absurd htask (hopen reason)
  | _ =>
    simp only [h, htask, hp]
    split_ifs <;> rfl

theorem AtRest.price_stopped (hrest : c.AtRest) (hl : c.prices[i]? = some l)
    (hc : l.stream.isCancelled c.now c.signals = true) : l.stream.hasStopped = true := by
  have still := hrest.1 i
  rw [turnPrice_fst hl, hc] at still
  exact Stream.hasStopped_of_waited (fun _ => rfl) still

theorem AtRest.not_closing (hrest : c.AtRest) (hb : c.balances[k]? = some b) (reason : StreamEnd) :
    b.stream.task ≠ .closing reason := by
  intro htask
  have still := hrest.2 k
  rw [turnBalance_of_closing hb htask] at still
  cases hgo : c.letGo? b.prices <;> simp [hgo, Turn.moved] at still

theorem AtRest.balance_stopped (hrest : c.AtRest) (hb : c.balances[k]? = some b)
    (hp : c.prices[b.prices]? = some p) (hc : b.stream.isCancelled c.now c.signals = true) :
    b.stream.hasStopped = true := by
  have still := hrest.2 k
  rw [turnBalance_fst hb (hrest.not_closing hb) hp, hc] at still
  exact Stream.hasStopped_of_waited (fun _ => rfl) still

/-- A chain in which no producer can take a step keeps no prices for a reader that is done or that
is not wanted any more. -/
theorem AtRest.reader_of_live (hrest : c.AtRest) (htidy : c.Tidy) (hb : c.balances[k]? = some b)
    (hp : c.prices[b.prices]? = some p) (live : p.stream.hasStopped = false) :
    b.stream.task.Active ∧ b.stream.isCancelled c.now c.signals = false := by
  have reading : b.stream.hasStopped = false := by
    cases hstop : b.stream.hasStopped with
    | false => rfl
    | true =>
      have gone := letGo_of_held (htidy k b p hb hp hstop)
      cases live.symm.trans (hrest.price_stopped hp gone.cancelled)
  refine ⟨?_, ?_⟩
  · rintro reason (hclosing | hstopped)
    · exact hrest.not_closing hb reason hclosing
    · cases reading.symm.trans ((Stream.hasStopped_iff _).mpr ⟨reason, hstopped⟩)
  · cases hc : b.stream.isCancelled c.now c.signals with
    | false => rfl
    | true => cases reading.symm.trans (hrest.balance_stopped hb hp hc)

end Release

/-! ## Callers that are gone -/

/-- A look in the course of some moves showed the end of a stream that was there. -/
def EndSeen {σ α : Type} (read : Chain → Option (Stream σ α)) (look : Move) (closed : Sight)
    (c : Chain) (moves : List Move) : Prop :=
  ∃ before after st, moves = before ++ look :: after ∧ read (c.run before).2 = some st ∧
    ((c.run before).2.move look).1 = closed

def PriceEndSeen (c : Chain) (moves : List Move) (i : Nat) : Prop :=
  EndSeen (fun c => c.price? i) (.receivePrice i) (.price .closed) c moves

def BalanceEndSeen (c : Chain) (moves : List Move) (k : Nat) : Prop :=
  EndSeen (fun c => c.balance? k) (.receiveBalance k) (.balance .closed) c moves

/-- A caller has parted with its stream: it does not want it any more, it has dropped it, or it has
seen the end of it. -/
inductive Parted {σ α : Type} (c : Chain) (st : Stream σ α) (endSeen : Prop) : Prop
  | cancelled (h : st.isCancelled c.now c.signals = true)
  | dropped (s : Nat) (hs : st.context.handle? = some s) (h : c.signals.wasReleased s = true)
  | ended (h : endSeen)

theorem Parted.cancelled_or_ended {σ α : Type} {c : Chain} {st : Stream σ α} {endSeen : Prop}
    (h : Parted c st endSeen) : st.isCancelled c.now c.signals = true ∨ endSeen := by
  cases h with
  | cancelled h => exact .inl h
  | dropped s hs h => exact .inl (Context.isCancelled_of_released hs _ h)
  | ended h => exact .inr h

theorem Line.stopped_run {σ α : Type} {read : Chain → Option (Stream σ α)} (h : Line read)
    {reason : StreamEnd} (moves : List Move) {c : Chain} {st : Stream σ α} (hst : read c = some st)
    (hstop : st.task = .stopped reason) :
    ∃ last, read (c.run moves).2 = some last ∧ last.task = .stopped reason := by
  refine run_keeps (fun c => ∃ st, read c = some st ∧ st.task = .stopped reason) ?_
    ⟨st, hst, hstop⟩ moves
  rintro c m ⟨st, hst, hstop⟩
  obtain ⟨st', hst', -, hstep⟩ := h.goes c m st hst
  exact ⟨st', hst', hstep.stopped hstop⟩

theorem Line.hasStopped_of_endSeen {σ α : Type} {read : Chain → Option (Stream σ α)}
    (h : Line read) {look : Move} {closed : Sight} {c : Chain} {moves : List Move}
    (shows_end : ∀ c st, read c = some st → (c.move look).1 = closed →
      ∃ reason, st.task = .stopped reason)
    (seen : EndSeen read look closed c moves) {last : Stream σ α}
    (hlast : read (c.run moves).2 = some last) : last.hasStopped = true := by
  obtain ⟨before, after, st, rfl, hst, hclosed⟩ := seen
  obtain ⟨reason, hstop⟩ := shows_end _ st hst hclosed
  obtain ⟨last', hlast', hstop'⟩ := h.stopped_run (look :: after) hst hstop
  rw [run_snd, List.foldl_append, ← run_snd, ← run_snd] at hlast
  cases hlast.symm.trans hlast'
  exact (Stream.hasStopped_iff _).mpr ⟨reason, hstop'⟩

theorem hasStopped_of_priceEndSeen {c : Chain} {moves : List Move} {i : Nat} {l : PriceLine}
    (seen : c.PriceEndSeen moves i) (hl : (c.run moves).2.prices[i]? = some l) :
    l.stream.hasStopped = true := by
  refine (line_price i).hasStopped_of_endSeen ?_ seen (price?_eq_some.mpr ⟨l, hl, rfl⟩)
  intro c st hst hclosed
  obtain ⟨l, hl, rfl⟩ := price?_eq_some.mp hst
  have looked : l.stream.receive.1 = .closed := by
    cases hread : c.isRead i with
    | true => simp [move, hread] at hclosed
    | false => simpa [move, hread, receivePrice, hl] using hclosed
  exact ((Stream.receive_eq_closed_iff _).mp looked).2

theorem hasStopped_of_balanceEndSeen {c : Chain} {moves : List Move} {k : Nat} {b : BalanceLine}
    (seen : c.BalanceEndSeen moves k) (hb : (c.run moves).2.balances[k]? = some b) :
    b.stream.hasStopped = true := by
  refine (line_balance k).hasStopped_of_endSeen ?_ seen (balance?_eq_some.mpr ⟨b, hb, rfl⟩)
  intro c st hst hclosed
  obtain ⟨b, hb, rfl⟩ := balance?_eq_some.mp hst
  have looked : b.stream.receive.1 = .closed := by
    simpa [move, receiveBalance, hb] using hclosed
  exact ((Stream.receive_eq_closed_iff _).mp looked).2

theorem rejected_move {c : Chain} {m : Move} {f : Failure}
    (h : (c.move m).1 = .opened (.error f)) : ∃ w, c.next m = c.asked w := by
  cases m with
  | watchPrice metadata timeout? =>
    obtain ⟨w, ⟨g, heq⟩ | ⟨e, -, heq⟩⟩ := c.move_watchPrice_cases metadata timeout?
    · exact ⟨w, congrArg Prod.snd heq⟩
    · cases h.symm.trans (congrArg Prod.fst heq)
  | watchBalance metadata perAddress timeout? =>
    obtain ⟨w, ⟨g, heq⟩ | ⟨e, -, heq⟩⟩ := c.move_watchBalance_cases metadata perAddress timeout?
    · exact ⟨w, congrArg Prod.snd heq⟩
    · cases h.symm.trans (congrArg Prod.fst heq)
  | receivePrice i => cases hread : c.isRead i <;> simp [move, hread] at h
  | _ => cases h

/-- There are the same streams as before, and both gauges are as they were. -/
structure OpensNothing (c c' : Chain) : Prop where
  prices : c'.prices = c.prices
  balances : c'.balances = c.balances
  gauges : ∀ role, ∀ service ∈ ["price", "wallet"],
    (c'.world.metrics role).activeStreams service = (c.world.metrics role).activeStreams service

/-- How the streams of a chain are accounted for that has made some moves since its beginning. -/
structure Accounted (first : Chain) (moves : List Move) (c : Chain) : Prop where
  /-- The gauges show how many producers have not stopped. -/
  gauged : c.Gauged
  /-- So they are not negative. -/
  prices_shown : ∀ role, c.openPrices role < 2 ^ 63 →
    ((c.world.metrics role).activeStreams "price").toInt = c.openPrices role
  balances_shown : ∀ role, c.openBalances role < 2 ^ 63 →
    ((c.world.metrics role).activeStreams "wallet").toInt = c.openBalances role
  /-- No producer of the services of the process goes uncounted. -/
  homed : c.wiring.prices? = none → c.Homed
  /-- Whoever is denied a stream leaves none open. -/
  denied : ∀ m f, (c.move m).1 = .opened (.error f) → c.OpensNothing (c.next m)
  /-- Whatever ends a stream of balances, its prices are let go of before the move that stops its
  producer, which is the move that takes it off the gauge. -/
  let_go : ∀ (m : Move) (k : Nat) (b b' : BalanceLine) (p : PriceLine), c.balances[k]? = some b →
    c.prices[b.prices]? = some p → (c.next m).balances[k]? = some b' →
    b'.stream.hasStopped = true → c.LetGo p
  /-- Where no producer can take a step, prices that a stream of balances reads are live only for a
  reader that is in its loop and still wanted. -/
  wanted : c.AtRest → ∀ (k : Nat) (b : BalanceLine) (p : PriceLine), c.balances[k]? = some b →
    c.prices[b.prices]? = some p → p.stream.hasStopped = false → b.stream.task.Active ∧
      b.stream.isCancelled c.now c.signals = false ∧
      ∀ s, b.stream.context.handle? = some s → c.signals.wasReleased s = false
  /-- Where besides every caller has parted with its stream, nothing is open. -/
  empty : c.AtRest →
    (∀ (k : Nat) (b : BalanceLine), c.balances[k]? = some b →
      Parted c b.stream (first.BalanceEndSeen moves k)) →
    (∀ (i : Nat) (l : PriceLine), c.prices[i]? = some l → c.isRead i = false →
      Parted c l.stream (first.PriceEndSeen moves i)) →
    ∀ role, (c.world.metrics role).activeStreams "price" = 0 ∧
      (c.world.metrics role).activeStreams "wallet" = 0

theorem opensNothing_of_denied {c : Chain} (hc : c.Gauged) {m : Move} {f : Failure}
    (h : (c.move m).1 = .opened (.error f)) : c.OpensNothing (c.next m) := by
  have after := hc.next m
  obtain ⟨w, heq⟩ := rejected_move h
  rw [heq] at after ⊢
  refine ⟨rfl, rfl, fun role service hservice => ?_⟩
  have hcases : service = "price" ∨ service = "wallet" := by simpa using hservice
  rcases hcases with rfl | rfl
  · exact (after.prices role).trans (hc.prices role).symm
  · exact (after.balances role).trans (hc.balances role).symm

theorem AtRest.all_stopped {c : Chain} (hrest : c.AtRest) (hlay : c.Layout) (htidy : c.Tidy)
    {balanceEnd priceEnd : Nat → Prop}
    (hbalances : ∀ k b, c.balances[k]? = some b → Parted c b.stream (balanceEnd k))
    (hprices : ∀ i l, c.prices[i]? = some l → c.isRead i = false → Parted c l.stream (priceEnd i))
    (ofBalanceEnd : ∀ k b, c.balances[k]? = some b → balanceEnd k → b.stream.hasStopped = true)
    (ofPriceEnd : ∀ i l, c.prices[i]? = some l → priceEnd i → l.stream.hasStopped = true) :
    (∀ b ∈ c.balances, b.stream.hasStopped = true) ∧
      ∀ l ∈ c.prices, l.stream.hasStopped = true := by
  have balances : ∀ b ∈ c.balances, b.stream.hasStopped = true := by
    intro b hmem
    obtain ⟨k, hb⟩ := List.getElem?_of_mem hmem
    obtain ⟨p, hp, -⟩ := hlay.siblings k b hb
    rcases (hbalances k b hb).cancelled_or_ended with hc | hend
    · exact hrest.balance_stopped hb hp hc
    · exact ofBalanceEnd k b hb hend
  refine ⟨balances, fun l hmem => ?_⟩
  obtain ⟨i, hl⟩ := List.getElem?_of_mem hmem
  cases hread : c.isRead i with
  | true =>
    obtain ⟨b, hb, hi⟩ := List.any_eq_true.mp hread
    obtain ⟨k, hk⟩ := List.getElem?_of_mem hb
    obtain rfl : b.prices = i := by simpa using hi
    exact hrest.price_stopped hl (letGo_of_held (htidy k b l hk hl (balances b hb))).cancelled
  | false =>
    rcases (hprices i l hl hread).cancelled_or_ended with hc | hend
    · exact hrest.price_stopped hl hc
    · exact ofPriceEnd i l hl hend

/-- Whoever moves in what order, no stream is left behind. -/
theorem streams_are_accounted_for (wiring : Wiring) (home : Role) (moves : List Move) :
    Accounted (start wiring home) moves ((start wiring home).run moves).2 := by
  obtain ⟨hwiring, -, hlay, -⟩ := reached (rfl : ((start wiring home).run moves).2 = _)
  have hgauged := gauged_run wiring home moves
  have htidy := tidy_run wiring home moves
  refine ⟨hgauged, hgauged.toInt_prices, hgauged.toInt_balances, ?_, ?_, ?_, ?_, ?_⟩
  · intro inProcess
    rw [hwiring] at inProcess
    exact homed_run inProcess home moves
  · exact fun m f h => opensNothing_of_denied hgauged h
  · exact fun m k b b' p hb hp hb' stop =>
      letGo_of_held (held_of_stops hlay htidy hb hp hb' stop)
  · intro hrest k b p hb hp live
    obtain ⟨hactive, hwanted⟩ := hrest.reader_of_live htidy hb hp live
    refine ⟨hactive, hwanted, fun s hs => ?_⟩
    cases hr : ((start wiring home).run moves).2.signals.wasReleased s with
    | false => rfl
    | true => cases hwanted.symm.trans (Context.isCancelled_of_released hs _ hr)
  · intro hrest hbalances hprices role
    obtain ⟨balances, prices⟩ := hrest.all_stopped hlay htidy hbalances hprices
      (fun k b hb seen => hasStopped_of_balanceEndSeen seen hb)
      (fun i l hl seen => hasStopped_of_priceEndSeen seen hl)
    have noPrices : ((start wiring home).run moves).2.openPrices role = 0 :=
      List.countP_eq_zero.mpr fun l hl => by simp [prices l hl]
    have noBalances : ((start wiring home).run moves).2.openBalances role = 0 :=
      List.countP_eq_zero.mpr fun b hb => by simp [balances b hb]
    rw [hgauged.prices, hgauged.balances, noPrices, noBalances]
    exact ⟨rfl, rfl⟩

/-- A process whose account service knows a user that its ledger does not know. -/
def emptyLedger : Wiring where
  ledger := .ofHoldings []
  samples := [10]
  account? := some (.ok ⟨⟨"u", .normal⟩, ∅⟩)

/-- One caller asks for balances and looks until the end, which is a failure; another one asks for
prices and drops its stream. -/
def untilGone : List Move :=
  [.watchBalance (Metadata.credentials "t" .normal) true none,
    .watchPrice (Metadata.credentials "t" .normal) none,
    .pass 1000, .turnPrice 0, .turnPrice 0, .turnBalance 0, .turnBalance 0, .receiveBalance 0,
    .hangUpPrice 1, .releasePrice 1, .turnBalance 0, .turnBalance 0, .turnBalance 0,
    .turnPrice 0, .turnPrice 0, .turnPrice 1, .turnPrice 1, .receiveBalance 0]

def gone : Chain := ((start emptyLedger .wallet).run untilGone).2

theorem nothing_is_open_once_both_callers_are_gone :
    gone.AtRest ∧ gone.prices.length = 2 ∧ gone.balances.length = 1 ∧
      ∀ role, (gone.world.metrics role).activeStreams "price" = 0 ∧
        (gone.world.metrics role).activeStreams "wallet" = 0 := by
  have rest : gone.AtRest := atRest_iff.mpr (by cbv)
  have two : gone.prices.length = 2 := by cbv
  have one : gone.balances.length = 1 := by cbv
  have handle : (gone.price? 1).bind (·.context.handle?) = some 4 := by cbv
  obtain ⟨st, hst⟩ : ∃ st, ((start emptyLedger .wallet).run untilGone.dropLast).2.balance? 0 =
      some st := Option.isSome_iff_exists.mp (by cbv)
  refine ⟨rest, two, one, (streams_are_accounted_for emptyLedger .wallet untilGone).empty rest
    ?_ ?_⟩
  · intro k b hb
    have hk : k < 1 := one ▸ (List.getElem?_eq_some_iff.mp hb).1
    obtain rfl : k = 0 := by omega
    exact .ended ⟨untilGone.dropLast, [], st, rfl, hst, by cbv⟩
  · intro i l hl hfree
    have hi : i < 2 := two ▸ (List.getElem?_eq_some_iff.mp hl).1
    obtain rfl | rfl : i = 0 ∨ i = 1 := by omega
    · have read : gone.isRead 0 = true := by cbv
      cases hfree.symm.trans read
    · have there : gone.price? 1 = some l.stream := price?_eq_some.mpr ⟨l, hl, rfl⟩
      rw [there] at handle
      exact .dropped 4 handle (by cbv)

end Chain

end WalletWatch
