import WalletWatch.Chain.Move
import WalletWatch.Proofs.Context.Signals
import WalletWatch.Proofs.Stream.History

set_option autoImplicit false

/-!
# What each step of a chain does

One equation for each step of each party: which streams it changes, and by which act of theirs. What
a step does to counts, log and samples does not matter to any stream and is left open.
-/

namespace WalletWatch

namespace Stream

variable {σ α ε : Type}

theorem turn_rest (st : Stream σ α) (work : σ → ε → Work σ α × ε) (cancelled : Bool) (e : ε) :
    (st.turn work cancelled e).2.2 =
      match st.task with
      | .working s => (work s e).2
      | _ => e := by
  cases h : st.task <;> simp only [turn, h]

end Stream

theorem BalanceLine.work_prices (s : BalanceSource) (cancelled : Bool)
    (prices : Stream Pace PriceQuote) :
    (BalanceLine.work s cancelled prices).2 = if cancelled then prices else prices.receive.2 := by
  cases cancelled with
  | true => rfl
  | false =>
    unfold BalanceLine.work Stream.receive
    cases hslot : prices.slot with
    | none => cases hstop : prices.hasStopped <;> rfl
    | some i =>
      cases i with
      | error f => rfl
      | ok q =>
        simp only [Bool.false_eq_true, if_false]
        cases s.update q.price <;> rfl

namespace Chain

/-- The chain after a move. -/
def next (c : Chain) (m : Move) : Chain := (c.move m).2

theorem run_snd (c : Chain) (moves : List Move) : (c.run moves).2 = moves.foldl next c := by
  induction moves generalizing c with
  | nil => rfl
  | cons m rest ih => exact ih (c.move m).2

theorem run_keeps (inv : Chain → Prop) (keeps : ∀ c m, inv c → inv (c.next m)) {c : Chain}
    (h : inv c) (moves : List Move) : inv (c.run moves).2 := by
  induction moves generalizing c with
  | nil => exact h
  | cons m rest ih => exact ih (keeps c m h)

/-! ## What the producers do -/

/-- What the producer of a stream of prices does in its turn. -/
def priceTurn (c : Chain) (l : PriceLine) : Stream.Act Pace PriceQuote :=
  .turn (l.stream.intent
    (Pace.work c.wiring.feed c.now (l.stream.isCancelled c.now c.signals)) c.world)

/-- What a turn of the producer of a stream of balances does to that stream. -/
def balanceTurn (c : Chain) (b : BalanceLine) : Stream.Act Unit Balance :=
  match b.stream.task with
  | .closing _ => if (c.letGo? b.prices).isSome then .elsewhere else .turn .wait
  | _ =>
    match c.prices[b.prices]? with
    | none => .elsewhere
    | some p => .turn (b.stream.intent
        (fun _ => BalanceLine.work b.source (b.stream.isCancelled c.now c.signals)) p.stream)

/-- What a turn of the producer of a stream of balances does to the prices it reads. -/
def readingTurn (c : Chain) (b : BalanceLine) (l : PriceLine) : Stream.Act Pace PriceQuote :=
  match b.stream.task with
  | .working _ => if b.stream.isCancelled c.now c.signals then .elsewhere else .receive
  | .closing _ => if l.stream.listening then .hangUp else .elsewhere
  | _ => .elsewhere

section Steps

variable {c : Chain}

theorem readingTurn_cases (c : Chain) (b : BalanceLine) (l : PriceLine) :
    (c.readingTurn b l = .receive ∧ ∃ s, b.stream.task = .working s) ∨
      (c.readingTurn b l = .hangUp ∧ ∃ reason, b.stream.task = .closing reason) ∨
      c.readingTurn b l = .elsewhere := by
  unfold readingTurn
  cases htask : b.stream.task with
  | working s => cases hc : b.stream.isCancelled c.now c.signals <;> simp
  | closing reason => cases hl : l.stream.listening <;> simp
  | _ => simp

theorem turnPrice_snd {i : Nat} {l : PriceLine} (h : c.prices[i]? = some l) :
    ∃ w, (c.turnPrice i).2 = { c.setPrice i
      (l.stream.after (l.stream.isCancelled c.now c.signals) (c.priceTurn l)) with
        world := w } := by
  unfold turnPrice priceTurn
  simp only [h, ← Stream.turn_eq_after]
  split
  · exact ⟨_, rfl⟩
  · exact ⟨_, rfl⟩

theorem turnPrice_of_none {i : Nat} (h : c.prices[i]? = none) : (c.turnPrice i).2 = c := by
  simp only [turnPrice, h]

theorem letGo?_cases {j : Nat} {c' : Chain} (h : c.letGo? j = some c') :
    ∃ p, c.prices[j]? = some p ∧
      ((p.stream.listening = true ∧ c' = c.setPrice j p.stream.hangUp) ∨
        (p.stream.listening = false ∧ ∃ s, p.stream.context.handle? = some s ∧
          (c.signals.all[s]?).any (!·.released) = true ∧
          c' = { c with signals := c.signals.release s })) := by
  unfold letGo? at h
  cases hp : c.prices[j]? with
  | none => simp [hp] at h
  | some p =>
    refine ⟨p, rfl, ?_⟩
    simp only [hp] at h
    by_cases hl : p.stream.listening = true
    · rw [if_pos hl] at h
      exact .inl ⟨hl, (Option.some.inj h).symm⟩
    · rw [if_neg hl] at h
      cases hs : p.stream.context.handle? with
      | none => simp [hs] at h
      | some s =>
        simp only [hs] at h
        split_ifs at h with hr
        exact .inr ⟨by simpa using hl, s, rfl, hr, (Option.some.inj h).symm⟩

theorem not_listening_of_letGo?_eq_none {j : Nat} {p : PriceLine} (hp : c.prices[j]? = some p)
    (h : c.letGo? j = none) : p.stream.listening = false := by
  unfold letGo? at h
  simp only [hp] at h
  cases hl : p.stream.listening with
  | false => rfl
  | true => simp [hl] at h

theorem turnBalance_of_none {k : Nat} (h : c.balances[k]? = none) : (c.turnBalance k).2 = c := by
  simp only [turnBalance, h]

theorem balanceTurn_of_open {b : BalanceLine} {p : PriceLine}
    (hopen : ∀ reason, b.stream.task ≠ .closing reason) (hp : c.prices[b.prices]? = some p) :
    c.balanceTurn b = .turn (b.stream.intent
      (fun _ => BalanceLine.work b.source (b.stream.isCancelled c.now c.signals)) p.stream) := by
  unfold balanceTurn
  cases htask : b.stream.task with
  | closing reason => exact absurd htask (hopen reason)
  | _ => simp only [hp]

/-- The price stream and the balance stream after a turn, as the turn itself computes them. -/
theorem turn_balance_eq (b : BalanceLine) (p : PriceLine)
    (hopen : ∀ reason, b.stream.task ≠ .closing reason) (hp : c.prices[b.prices]? = some p) :
    let cancelled := b.stream.isCancelled c.now c.signals
    let made := b.stream.turn (fun _ => BalanceLine.work b.source cancelled) cancelled p.stream
    made.2.1 = b.stream.after cancelled (c.balanceTurn b) ∧
      made.2.2 = p.stream.after (p.stream.isCancelled c.now c.signals) (c.readingTurn b p) := by
  intro cancelled made
  refine ⟨?_, ?_⟩
  · rw [balanceTurn_of_open hopen hp]
    exact Stream.turn_eq_after _ _ _ _
  · refine (Stream.turn_rest _ _ _ _).trans ?_
    unfold readingTurn
    cases htask : b.stream.task with
    | working x =>
      simp only [BalanceLine.work_prices]
      cases hc : b.stream.isCancelled c.now c.signals <;> simp [cancelled, hc, Stream.after]
    | closing reason => exact absurd htask (hopen reason)
    | _ => rfl

theorem turnBalance_snd {k : Nat} {b : BalanceLine} {p : PriceLine} (h : c.balances[k]? = some b)
    (hopen : ∀ reason, b.stream.task ≠ .closing reason) (hp : c.prices[b.prices]? = some p) :
    ∃ w, (c.turnBalance k).2 = { (c.setPrice b.prices
        (p.stream.after (p.stream.isCancelled c.now c.signals) (c.readingTurn b p))).setBalance k
      (b.stream.after (b.stream.isCancelled c.now c.signals) (c.balanceTurn b)) with
        world := w } := by
  obtain ⟨hst, hprices⟩ := turn_balance_eq b p hopen hp
  rw [← hst, ← hprices]
  unfold turnBalance
  cases htask : b.stream.task with
  | closing reason => exact absurd htask (hopen reason)
  | _ =>
    simp only [h, htask, hp]
    split_ifs
    · exact ⟨_, rfl⟩
    · exact ⟨_, rfl⟩

/-- Letting go of the prices takes turns of its own; only then the producer stops. -/
theorem turnBalance_of_closing {k : Nat} {b : BalanceLine} {reason : StreamEnd}
    (h : c.balances[k]? = some b) (htask : b.stream.task = .closing reason) :
    c.turnBalance k = match c.letGo? b.prices with
      | some c' => (.worked, c')
      | none => (.stopped reason,
          (c.setBalance k { b.stream with task := .stopped reason }).count b.source.home
            (·.closed "wallet")) := by
  unfold turnBalance
  cases hgo : c.letGo? b.prices <;> simp only [h, htask, hgo]

theorem turnBalance_closing {k : Nat} {b : BalanceLine} {reason : StreamEnd}
    (h : c.balances[k]? = some b) (htask : b.stream.task = .closing reason) :
    c.letGo? b.prices = some (c.turnBalance k).2 ∨
      (c.letGo? b.prices = none ∧ ∃ w, (c.turnBalance k).2 =
        { c.setBalance k { b.stream with task := .stopped reason } with world := w }) := by
  rw [turnBalance_of_closing h htask]
  cases hgo : c.letGo? b.prices with
  | some c' => exact .inl rfl
  | none => exact .inr ⟨rfl, _, rfl⟩

theorem turnBalance_of_missing {k : Nat} {b : BalanceLine} (h : c.balances[k]? = some b)
    (hopen : ∀ reason, b.stream.task ≠ .closing reason) (hp : c.prices[b.prices]? = none) :
    (c.turnBalance k).2 = c := by
  unfold turnBalance
  cases htask : b.stream.task with
  | closing reason => exact absurd htask (hopen reason)
  | _ => simp only [h, htask, hp]

/-! ## What the consumers do -/

theorem receivePrice_snd {j : Nat} {l : PriceLine} (h : c.prices[j]? = some l) :
    (c.receivePrice j).2 = c.setPrice j l.stream.receive.2 := by
  simp only [receivePrice, h]

theorem receivePrice_of_none {j : Nat} (h : c.prices[j]? = none) : (c.receivePrice j).2 = c := by
  simp only [receivePrice, h]

theorem hangUpPrice_eq {j : Nat} {l : PriceLine} (h : c.prices[j]? = some l) :
    c.hangUpPrice j = c.setPrice j l.stream.hangUp := by
  simp only [hangUpPrice, h]

theorem hangUpPrice_of_none {j : Nat} (h : c.prices[j]? = none) : c.hangUpPrice j = c := by
  simp only [hangUpPrice, h]

theorem receiveBalance_snd {k : Nat} {b : BalanceLine} (h : c.balances[k]? = some b) :
    (c.receiveBalance k).2 = c.setBalance k b.stream.receive.2 := by
  simp only [receiveBalance, h]

theorem receiveBalance_of_none {k : Nat} (h : c.balances[k]? = none) :
    (c.receiveBalance k).2 = c := by
  simp only [receiveBalance, h]

theorem hangUpBalance_eq {k : Nat} {b : BalanceLine} (h : c.balances[k]? = some b) :
    c.hangUpBalance k = c.setBalance k b.stream.hangUp := by
  simp only [hangUpBalance, h]

theorem hangUpBalance_of_none {k : Nat} (h : c.balances[k]? = none) : c.hangUpBalance k = c := by
  simp only [hangUpBalance, h]

/-! ## What the moves of one side leave as it is -/

/-- The chain is the same but for the streams of prices, of which there are as many. -/
def OnlyPrices (c c' : Chain) : Prop :=
  ∃ lines w, lines.length = c.prices.length ∧ c' = { c with prices := lines, world := w }

def OnlyBalances (c c' : Chain) : Prop :=
  ∃ lines w, lines.length = c.balances.length ∧ c' = { c with balances := lines, world := w }

theorem onlyPrices_setPrice (c : Chain) (i : Nat) (st : Stream Pace PriceQuote) :
    c.OnlyPrices (c.setPrice i st) :=
  ⟨_, c.world, by simp, rfl⟩

theorem onlyBalances_setBalance (c : Chain) (k : Nat) (st : Stream Unit Balance) :
    c.OnlyBalances (c.setBalance k st) :=
  ⟨_, c.world, by simp, rfl⟩

theorem onlyPrices_turnPrice (c : Chain) (i : Nat) : c.OnlyPrices (c.turnPrice i).2 := by
  cases h : c.prices[i]? with
  | none => exact ⟨c.prices, c.world, rfl, turnPrice_of_none h⟩
  | some l =>
    obtain ⟨w, hw⟩ := turnPrice_snd h
    exact ⟨_, w, by simp [setPrice], hw⟩

theorem onlyPrices_receivePrice (c : Chain) (i : Nat) : c.OnlyPrices (c.receivePrice i).2 := by
  cases h : c.prices[i]? with
  | none => exact ⟨c.prices, c.world, rfl, receivePrice_of_none h⟩
  | some l =>
    rw [receivePrice_snd h]
    exact onlyPrices_setPrice c i _

theorem onlyPrices_hangUpPrice (c : Chain) (i : Nat) : c.OnlyPrices (c.hangUpPrice i) := by
  cases h : c.prices[i]? with
  | none => exact ⟨c.prices, c.world, rfl, hangUpPrice_of_none h⟩
  | some l =>
    rw [hangUpPrice_eq h]
    exact onlyPrices_setPrice c i _

theorem onlyBalances_receiveBalance (c : Chain) (k : Nat) :
    c.OnlyBalances (c.receiveBalance k).2 := by
  cases h : c.balances[k]? with
  | none => exact ⟨c.balances, c.world, rfl, receiveBalance_of_none h⟩
  | some b =>
    rw [receiveBalance_snd h]
    exact onlyBalances_setBalance c k _

theorem onlyBalances_hangUpBalance (c : Chain) (k : Nat) : c.OnlyBalances (c.hangUpBalance k) := by
  cases h : c.balances[k]? with
  | none => exact ⟨c.balances, c.world, rfl, hangUpBalance_of_none h⟩
  | some b =>
    rw [hangUpBalance_eq h]
    exact onlyBalances_setBalance c k _

/-- Nobody else reads the prices of a stream of balances. -/
theorem next_receivePrice (c : Chain) (j : Nat) :
    c.next (.receivePrice j) = if c.isRead j then c else (c.receivePrice j).2 := by
  unfold next move
  cases h : c.isRead j <;> simp [h]

theorem releasePrice_cases (c : Chain) (i : Nat) :
    c.releasePrice i = c ∨ ∃ l s, c.prices[i]? = some l ∧ l.stream.context.handle? = some s ∧
      c.releasePrice i = c.release s := by
  unfold releasePrice Stream.release
  cases hl : c.prices[i]? with
  | none => exact .inl rfl
  | some l =>
    cases hs : l.stream.context.handle? with
    | none => exact .inl (by simp only [hs])
    | some s => exact .inr ⟨l, s, rfl, hs, by simp only [hs]; rfl⟩

theorem releaseBalance_cases (c : Chain) (k : Nat) :
    c.releaseBalance k = c ∨ ∃ b s, c.balances[k]? = some b ∧
      b.stream.context.handle? = some s ∧ c.releaseBalance k = c.release s := by
  unfold releaseBalance Stream.release
  cases hb : c.balances[k]? with
  | none => exact .inl rfl
  | some b =>
    cases hs : b.stream.context.handle? with
    | none => exact .inl (by simp only [hs])
    | some s => exact .inr ⟨b, s, rfl, hs, by simp only [hs]; rfl⟩

/-! ## What asking for a stream does -/

/-- The chain after someone asked for a stream, before any was opened. -/
def asked (c : Chain) (w : World) : Chain := { c with signals := c.signals.make.2, world := w }

def callerContext (c : Chain) (timeout? : Option Millis) : Context := (c.newCaller timeout?).1

theorem watchPrice_ok (ctx : Context) (metadata : Metadata) {e : Envelope PriceSource} {w : World}
    (h : ((c.wiring.price c.home).watch ⟨{}, metadata⟩).perform c.world = (.ok e, w)) :
    c.watchPrice ctx metadata =
      (.ok e.metadata, { c with world := w }.startPrices ctx e.payload) := by
  unfold watchPrice call
  rw [h]

theorem watchPrice_error (ctx : Context) (metadata : Metadata) {f : Failure} {w : World}
    (h : ((c.wiring.price c.home).watch ⟨{}, metadata⟩).perform c.world = (.error f, w)) :
    c.watchPrice ctx metadata = (.error f, { c with world := w }) := by
  unfold watchPrice call
  rw [h]

theorem watchBalance_ok (ctx : Context) (metadata : Metadata) (perAddress : Bool)
    {e : Envelope BalanceSource} {w : World}
    (h : ((c.wiring.wallet c.home).watch ⟨⟨perAddress⟩, metadata⟩).perform c.world = (.ok e, w)) :
    c.watchBalance ctx metadata perAddress =
      (.ok e.metadata, { c with world := w }.startBalances ctx e.payload) := by
  unfold watchBalance call
  rw [h]

theorem watchBalance_error (ctx : Context) (metadata : Metadata) (perAddress : Bool)
    {f : Failure} {w : World}
    (h : ((c.wiring.wallet c.home).watch ⟨⟨perAddress⟩, metadata⟩).perform c.world =
      (.error f, w)) :
    c.watchBalance ctx metadata perAddress = (.error f, { c with world := w }) := by
  unfold watchBalance call
  rw [h]

theorem move_watchPrice_ok {metadata : Metadata} (timeout? : Option Millis)
    {e : Envelope PriceSource} {w : World}
    (h : ((c.wiring.price c.home).watch ⟨{}, metadata⟩).perform c.world = (.ok e, w)) :
    c.move (.watchPrice metadata timeout?) = (.opened (.ok e.metadata),
      (c.asked w).startPrices (c.callerContext timeout?) e.payload) := by
  have made := watchPrice_ok (c := (c.newCaller timeout?).2.2) (c.callerContext timeout?)
    metadata h
  exact congrArg (Prod.map Sight.opened id) made

theorem move_watchPrice_error {metadata : Metadata} (timeout? : Option Millis) {f : Failure}
    {w : World}
    (h : ((c.wiring.price c.home).watch ⟨{}, metadata⟩).perform c.world = (.error f, w)) :
    c.move (.watchPrice metadata timeout?) = (.opened (.error f), c.asked w) := by
  have made := watchPrice_error (c := (c.newCaller timeout?).2.2) (c.callerContext timeout?)
    metadata h
  exact congrArg (Prod.map Sight.opened id) made

theorem move_watchBalance_ok {metadata : Metadata} {perAddress : Bool} (timeout? : Option Millis)
    {e : Envelope BalanceSource} {w : World}
    (h : ((c.wiring.wallet c.home).watch ⟨⟨perAddress⟩, metadata⟩).perform c.world = (.ok e, w)) :
    c.move (.watchBalance metadata perAddress timeout?) = (.opened (.ok e.metadata),
      (c.asked w).startBalances (c.callerContext timeout?) e.payload) := by
  have made := watchBalance_ok (c := (c.newCaller timeout?).2.2) (c.callerContext timeout?)
    metadata perAddress h
  exact congrArg (Prod.map Sight.opened id) made

theorem move_watchBalance_error {metadata : Metadata} {perAddress : Bool}
    (timeout? : Option Millis) {f : Failure} {w : World}
    (h : ((c.wiring.wallet c.home).watch ⟨⟨perAddress⟩, metadata⟩).perform c.world =
      (.error f, w)) :
    c.move (.watchBalance metadata perAddress timeout?) = (.opened (.error f), c.asked w) := by
  have made := watchBalance_error (c := (c.newCaller timeout?).2.2) (c.callerContext timeout?)
    metadata perAddress h
  exact congrArg (Prod.map Sight.opened id) made

theorem move_watchPrice_cases (c : Chain) (metadata : Metadata) (timeout? : Option Millis) :
    ∃ w, (∃ f, c.move (.watchPrice metadata timeout?) = (.opened (.error f), c.asked w)) ∨
      ∃ e, (((c.wiring.price c.home).watch ⟨{}, metadata⟩).perform c.world).1 = .ok e ∧
        c.move (.watchPrice metadata timeout?) = (.opened (.ok e.metadata),
          (c.asked w).startPrices (c.callerContext timeout?) e.payload) := by
  obtain ⟨⟨r, w⟩, made⟩ : ∃ made,
      ((c.wiring.price c.home).watch ⟨{}, metadata⟩).perform c.world = made := ⟨_, rfl⟩
  cases r with
  | error f => exact ⟨w, .inl ⟨f, move_watchPrice_error timeout? made⟩⟩
  | ok e => exact ⟨w, .inr ⟨e, congrArg Prod.fst made, move_watchPrice_ok timeout? made⟩⟩

theorem move_watchBalance_cases (c : Chain) (metadata : Metadata) (perAddress : Bool)
    (timeout? : Option Millis) :
    ∃ w, (∃ f, c.move (.watchBalance metadata perAddress timeout?) =
        (.opened (.error f), c.asked w)) ∨
      ∃ e, (((c.wiring.wallet c.home).watch ⟨⟨perAddress⟩, metadata⟩).perform c.world).1 = .ok e ∧
        c.move (.watchBalance metadata perAddress timeout?) = (.opened (.ok e.metadata),
          (c.asked w).startBalances (c.callerContext timeout?) e.payload) := by
  obtain ⟨⟨r, w⟩, made⟩ : ∃ made,
      ((c.wiring.wallet c.home).watch ⟨⟨perAddress⟩, metadata⟩).perform c.world = made := ⟨_, rfl⟩
  cases r with
  | error f => exact ⟨w, .inl ⟨f, move_watchBalance_error timeout? made⟩⟩
  | ok e => exact ⟨w, .inr ⟨e, congrArg Prod.fst made, move_watchBalance_ok timeout? made⟩⟩

theorem next_watchPrice (c : Chain) (metadata : Metadata) (timeout? : Option Millis) :
    ∃ w, c.next (.watchPrice metadata timeout?) = c.asked w ∨
      ∃ source, c.next (.watchPrice metadata timeout?) =
        (c.asked w).startPrices (c.callerContext timeout?) source := by
  obtain ⟨w, ⟨f, heq⟩ | ⟨e, -, heq⟩⟩ := c.move_watchPrice_cases metadata timeout?
  · exact ⟨w, .inl (congrArg Prod.snd heq)⟩
  · exact ⟨w, .inr ⟨e.payload, congrArg Prod.snd heq⟩⟩

theorem next_watchBalance (c : Chain) (metadata : Metadata) (perAddress : Bool)
    (timeout? : Option Millis) :
    ∃ w, c.next (.watchBalance metadata perAddress timeout?) = c.asked w ∨
      ∃ source, c.next (.watchBalance metadata perAddress timeout?) =
        (c.asked w).startBalances (c.callerContext timeout?) source := by
  obtain ⟨w, ⟨f, heq⟩ | ⟨e, -, heq⟩⟩ := c.move_watchBalance_cases metadata perAddress timeout?
  · exact ⟨w, .inl (congrArg Prod.snd heq)⟩
  · exact ⟨w, .inr ⟨e.payload, congrArg Prod.snd heq⟩⟩

end Steps

end Chain

end WalletWatch
