import WalletWatch.Proofs.Chain.Turns

set_option autoImplicit false

/-!
# Lines of a chain

What one move of a run does to one stream of the chain, told as an act of that stream alone. Moves
of other parties leave it as it is, and so a run of the chain is a run of each of its streams.
-/

namespace WalletWatch

namespace Chain

/-- What a move does to a stream of prices. -/
def priceAct (c : Chain) (i : Nat) (l : PriceLine) : Move → Stream.Act Pace PriceQuote
  | .turnPrice j => if j = i then c.priceTurn l else .elsewhere
  | .turnBalance k =>
    match c.balances[k]? with
    | some b => if b.prices = i then c.readingTurn b l else .elsewhere
    | none => .elsewhere
  | .receivePrice j => if j = i ∧ c.isRead j = false then .receive else .elsewhere
  | .hangUpPrice j => if j = i ∧ c.isRead j = false then .hangUp else .elsewhere
  | _ => .elsewhere

def balanceAct (c : Chain) (k : Nat) (b : BalanceLine) : Move → Stream.Act Unit Balance
  | .turnBalance j => if j = k then c.balanceTurn b else .elsewhere
  | .receiveBalance j => if j = k then .receive else .elsewhere
  | .hangUpBalance j => if j = k then .hangUp else .elsewhere
  | _ => .elsewhere

section Lines

variable {c : Chain}

/-- Only a turn of its own producer makes anything of a stream of prices. -/
theorem eq_turnPrice_of_priceAct {i : Nat} {l : PriceLine} {m : Move} {w : Work Pace PriceQuote}
    (hact : c.priceAct i l m = .turn w) : m = .turnPrice i := by
  cases m with
  | turnPrice j =>
    simp only [priceAct] at hact
    split_ifs at hact with hj
    rw [hj]
  | turnBalance k =>
    simp only [priceAct] at hact
    cases hk : c.balances[k]? with
    | none => simp [hk] at hact
    | some b =>
      simp only [hk] at hact
      split_ifs at hact
      rcases c.readingTurn_cases b l with ⟨hturn, -⟩ | ⟨hturn, -⟩ | hturn <;>
        cases hact.symm.trans hturn
  | receivePrice j =>
    simp only [priceAct] at hact
    split_ifs at hact
  | hangUpPrice j =>
    simp only [priceAct] at hact
    split_ifs at hact
  | _ => cases hact

theorem eq_intent_of_priceAct {i : Nat} {l : PriceLine} {m : Move} {w : Work Pace PriceQuote}
    (hact : c.priceAct i l m = .turn w) : w = l.stream.intent
      (Pace.work c.wiring.feed c.now (l.stream.isCancelled c.now c.signals)) c.world := by
  obtain rfl := eq_turnPrice_of_priceAct hact
  have hturn : c.priceAct i l (.turnPrice i) = c.priceTurn l := if_pos rfl
  exact (Stream.Act.turn.inj (hturn.symm.trans hact)).symm

theorem getElem?_setPrice (c : Chain) (i j : Nat) (st : Stream Pace PriceQuote) :
    (c.setPrice j st).prices[i]? =
      if j = i then (c.prices[i]?).map fun l => { l with stream := st } else c.prices[i]? := by
  unfold setPrice
  rw [List.getElem?_modify]
  by_cases h : j = i
  · simp [h]
  · simp [h]

theorem getElem?_setBalance (c : Chain) (k j : Nat) (st : Stream Unit Balance) :
    (c.setBalance j st).balances[k]? =
      if j = k then (c.balances[k]?).map fun b => { b with stream := st } else c.balances[k]? := by
  unfold setBalance
  rw [List.getElem?_modify]
  by_cases h : j = k
  · simp [h]
  · simp [h]

theorem getElem?_setPrice_after {i j : Nat} {l lj : PriceLine} (h : c.prices[i]? = some l)
    (hj : c.prices[j]? = some lj) (cancelled : PriceLine → Bool)
    (act : PriceLine → Stream.Act Pace PriceQuote) :
    (c.setPrice j (lj.stream.after (cancelled lj) (act lj))).prices[i]? =
      some { l with
        stream := l.stream.after (cancelled l) (if j = i then act l else .elsewhere) } := by
  rw [getElem?_setPrice]
  by_cases hji : j = i
  · subst hji
    cases h.symm.trans hj
    simp [h]
  · simp only [if_neg hji, h]
    rfl

theorem getElem?_setBalance_after {k j : Nat} {b bj : BalanceLine} (h : c.balances[k]? = some b)
    (hj : c.balances[j]? = some bj) (cancelled : BalanceLine → Bool)
    (act : BalanceLine → Stream.Act Unit Balance) :
    (c.setBalance j (bj.stream.after (cancelled bj) (act bj))).balances[k]? =
      some { b with
        stream := b.stream.after (cancelled b) (if j = k then act b else .elsewhere) } := by
  rw [getElem?_setBalance]
  by_cases hjk : j = k
  · subst hjk
    cases h.symm.trans hj
    simp [h]
  · simp only [if_neg hjk, h]
    rfl

theorem getElem?_prices_startPrices (ctx : Context) (source : PriceSource) {i : Nat} {l : PriceLine}
    (h : c.prices[i]? = some l) : (c.startPrices ctx source).prices[i]? = some l := by
  change (c.prices ++ [_])[i]? = some l
  rw [List.getElem?_append_left (List.getElem?_eq_some_iff.mp h).1, h]

theorem getElem?_prices_startBalances (ctx : Context) (source : BalanceSource) {i : Nat}
    {l : PriceLine} (h : c.prices[i]? = some l) :
    (c.startBalances ctx source).prices[i]? = some l :=
  getElem?_prices_startPrices ctx source.prices h

theorem getElem?_balances_startBalances (ctx : Context) (source : BalanceSource) {k : Nat}
    {b : BalanceLine} (h : c.balances[k]? = some b) :
    (c.startBalances ctx source).balances[k]? = some b := by
  change (c.balances ++ [_])[k]? = some b
  rw [List.getElem?_append_left (List.getElem?_eq_some_iff.mp h).1, h]


theorem getElem?_prices_turnBalance {i k : Nat} {l : PriceLine} {b : BalanceLine}
    (h : c.prices[i]? = some l) (hk : c.balances[k]? = some b) :
    (c.turnBalance k).2.prices[i]? = some { l with
      stream := l.stream.after (l.stream.isCancelled c.now c.signals)
        (if b.prices = i then c.readingTurn b l else .elsewhere) } := by
  by_cases hclosing : ∃ reason, b.stream.task = .closing reason
  · obtain ⟨reason, htask⟩ := hclosing
    have hreading : ∀ p, c.readingTurn b p =
        if p.stream.listening then .hangUp else .elsewhere := by
      intro p
      simp only [readingTurn, htask]
    rcases turnBalance_closing hk htask with hgo | ⟨hgo, w, hw⟩
    · obtain ⟨p, hp, ⟨hl, heq⟩ | ⟨hl, s, -, -, heq⟩⟩ := letGo?_cases hgo
      · have hact : p.stream.hangUp = p.stream.after (p.stream.isCancelled c.now c.signals)
            (c.readingTurn b p) := by
          rw [hreading, if_pos hl]
          rfl
        rw [heq, hact]
        exact getElem?_setPrice_after h hp (fun l => l.stream.isCancelled c.now c.signals)
          (c.readingTurn b)
      · rw [heq]
        by_cases hi : b.prices = i
        · cases (hi ▸ hp).symm.trans h
          rw [if_pos hi, hreading, hl]
          exact h
        · rw [if_neg hi]
          exact h
    · rw [hw]
      by_cases hi : b.prices = i
      · rw [if_pos hi, hreading, not_listening_of_letGo?_eq_none (hi ▸ h) hgo]
        exact h
      · rw [if_neg hi]
        exact h
  · have hopen : ∀ reason, b.stream.task ≠ .closing reason := fun r hr => hclosing ⟨r, hr⟩
    cases hp : c.prices[b.prices]? with
    | none =>
      have hne : b.prices ≠ i := by rintro rfl; cases h.symm.trans hp
      rw [turnBalance_of_missing hk hopen hp, if_neg hne]
      exact h
    | some p =>
      obtain ⟨w, hw⟩ := turnBalance_snd hk hopen hp
      rw [hw]
      exact getElem?_setPrice_after h hp (fun l => l.stream.isCancelled c.now c.signals)
        (c.readingTurn b)

theorem getElem?_prices_next {i : Nat} {l : PriceLine} (h : c.prices[i]? = some l) (m : Move) :
    (c.next m).prices[i]? = some { l with
      stream := l.stream.after (l.stream.isCancelled c.now c.signals) (c.priceAct i l m) } := by
  cases m with
  | pass length => exact h
  | turnPrice j =>
    change (c.turnPrice j).2.prices[i]? = _
    cases hj : c.prices[j]? with
    | none =>
      have hne : j ≠ i := by rintro rfl; cases h.symm.trans hj
      rw [turnPrice_of_none hj]
      simp only [priceAct, if_neg hne]
      exact h
    | some lj =>
      obtain ⟨w, hw⟩ := turnPrice_snd hj
      rw [hw]
      exact getElem?_setPrice_after h hj (fun l => l.stream.isCancelled c.now c.signals) c.priceTurn
  | turnBalance k =>
    change (c.turnBalance k).2.prices[i]? = _
    cases hk : c.balances[k]? with
    | none =>
      rw [turnBalance_of_none hk]
      simp only [priceAct, hk]
      exact h
    | some b =>
      simp only [priceAct, hk]
      exact getElem?_prices_turnBalance h hk
  | receivePrice j =>
    rw [next_receivePrice]
    cases hread : c.isRead j with
    | true => simpa [priceAct, hread] using h
    | false =>
      simp only [priceAct, hread, Bool.false_eq_true, if_false, and_true]
      cases hj : c.prices[j]? with
      | none =>
        have hne : j ≠ i := by rintro rfl; cases h.symm.trans hj
        rw [receivePrice_of_none hj, if_neg hne]
        exact h
      | some lj =>
        rw [receivePrice_snd hj]
        exact getElem?_setPrice_after h hj (fun l => l.stream.isCancelled c.now c.signals)
          fun _ => .receive
  | receiveBalance k =>
    change (c.receiveBalance k).2.prices[i]? = some l
    obtain ⟨_, _, _, heq⟩ := c.onlyBalances_receiveBalance k
    rw [heq]
    exact h
  | hangUpPrice j =>
    change (if c.isRead j then c else c.hangUpPrice j).prices[i]? = _
    cases hread : c.isRead j with
    | true => simpa [priceAct, hread] using h
    | false =>
      simp only [priceAct, hread, Bool.false_eq_true, if_false, and_true]
      cases hj : c.prices[j]? with
      | none =>
        have hne : j ≠ i := by rintro rfl; cases h.symm.trans hj
        rw [hangUpPrice_of_none hj, if_neg hne]
        exact h
      | some lj =>
        rw [hangUpPrice_eq hj]
        exact getElem?_setPrice_after h hj (fun l => l.stream.isCancelled c.now c.signals)
          fun _ => .hangUp
  | hangUpBalance k =>
    change (c.hangUpBalance k).prices[i]? = some l
    obtain ⟨_, _, _, heq⟩ := c.onlyBalances_hangUpBalance k
    rw [heq]
    exact h
  | releasePrice j =>
    change (if c.isRead j then c else c.releasePrice j).prices[i]? = some l
    rcases c.releasePrice_cases j with heq | ⟨_, s, -, -, heq⟩ <;> rw [heq] <;> split_ifs <;>
      exact h
  | releaseBalance k =>
    change (c.releaseBalance k).prices[i]? = some l
    rcases c.releaseBalance_cases k with heq | ⟨_, s, -, -, heq⟩ <;> rw [heq] <;> exact h
  | cancel s =>
    change (if c.isOwned s then c else c.cancel s).prices[i]? = some l
    split_ifs <;> exact h
  | release s =>
    change (if c.isOwned s then c else c.release s).prices[i]? = some l
    split_ifs <;> exact h
  | fetchPrice metadata => exact h
  | fetchBalance metadata perAddress => exact h
  | watchPrice metadata timeout? =>
    change (c.next (.watchPrice metadata timeout?)).prices[i]? = some l
    obtain ⟨w, hw | ⟨source, hw⟩⟩ := c.next_watchPrice metadata timeout?
    · rw [hw]; exact h
    · rw [hw]; exact getElem?_prices_startPrices _ source h
  | watchBalance metadata perAddress timeout? =>
    change (c.next (.watchBalance metadata perAddress timeout?)).prices[i]? = some l
    obtain ⟨w, hw | ⟨source, hw⟩⟩ := c.next_watchBalance metadata perAddress timeout?
    · rw [hw]; exact h
    · rw [hw]; exact getElem?_prices_startBalances _ source h

theorem getElem?_balances_turnBalance {k j : Nat} {b bj : BalanceLine}
    (h : c.balances[k]? = some b) (hj : c.balances[j]? = some bj) :
    (c.turnBalance j).2.balances[k]? = some { b with
      stream := b.stream.after (b.stream.isCancelled c.now c.signals)
        (if j = k then c.balanceTurn b else .elsewhere) } := by
  by_cases hclosing : ∃ reason, bj.stream.task = .closing reason
  · obtain ⟨reason, htask⟩ := hclosing
    rcases turnBalance_closing hj htask with hgo | ⟨hgo, w, hw⟩
    · have hsame : (c.turnBalance j).2.balances[k]? = some b := by
        obtain ⟨p, hp, ⟨hl, heq⟩ | ⟨hl, s, -, -, heq⟩⟩ := letGo?_cases hgo <;> rw [heq] <;> exact h
      rw [hsame]
      by_cases hjk : j = k
      · subst hjk
        cases h.symm.trans hj
        simp [balanceTurn, htask, hgo]
      · simp [hjk]
    · have hstop : { bj.stream with task := .stopped reason } =
          bj.stream.after (bj.stream.isCancelled c.now c.signals) (c.balanceTurn bj) := by
        simp only [balanceTurn, htask, hgo, Option.isSome_none, Bool.false_eq_true, if_false]
        rw [Stream.after_closing _ _ htask]
      rw [hw, hstop]
      exact getElem?_setBalance_after h hj (fun b => b.stream.isCancelled c.now c.signals)
        c.balanceTurn
  · have hopen : ∀ reason, bj.stream.task ≠ .closing reason := fun r hr => hclosing ⟨r, hr⟩
    cases hp : c.prices[bj.prices]? with
    | none =>
      rw [turnBalance_of_missing hj hopen hp, h]
      by_cases hjk : j = k
      · subst hjk
        cases h.symm.trans hj
        have hact : c.balanceTurn b = .elsewhere := by
          unfold balanceTurn
          cases htask : b.stream.task with
          | closing reason => exact absurd htask (hopen reason)
          | _ => simp only [hp]
        rw [if_pos rfl, hact, Stream.after_elsewhere]
      · simp [hjk]
    | some p =>
      obtain ⟨w, hw⟩ := turnBalance_snd hj hopen hp
      rw [hw]
      exact getElem?_setBalance_after h hj (fun b => b.stream.isCancelled c.now c.signals)
        c.balanceTurn

theorem getElem?_balances_next {k : Nat} {b : BalanceLine} (h : c.balances[k]? = some b)
    (m : Move) : (c.next m).balances[k]? = some { b with
      stream := b.stream.after (b.stream.isCancelled c.now c.signals) (c.balanceAct k b m) } := by
  cases m with
  | turnPrice j =>
    change (c.turnPrice j).2.balances[k]? = some b
    obtain ⟨_, _, _, heq⟩ := c.onlyPrices_turnPrice j
    rw [heq]
    exact h
  | turnBalance j =>
    change (c.turnBalance j).2.balances[k]? = _
    cases hj : c.balances[j]? with
    | none =>
      have hne : j ≠ k := by rintro rfl; cases h.symm.trans hj
      rw [turnBalance_of_none hj]
      simpa [balanceAct, hne] using h
    | some bj => exact getElem?_balances_turnBalance h hj
  | receivePrice j =>
    change (c.next (.receivePrice j)).balances[k]? = some b
    rw [next_receivePrice]
    obtain ⟨_, _, _, heq⟩ := c.onlyPrices_receivePrice j
    rw [heq]
    split_ifs <;> exact h
  | receiveBalance j =>
    change (c.receiveBalance j).2.balances[k]? = _
    cases hj : c.balances[j]? with
    | none =>
      have hne : j ≠ k := by rintro rfl; cases h.symm.trans hj
      rw [receiveBalance_of_none hj]
      simpa [balanceAct, hne] using h
    | some bj =>
      rw [receiveBalance_snd hj]
      exact getElem?_setBalance_after h hj (fun b => b.stream.isCancelled c.now c.signals)
        fun _ => .receive
  | hangUpPrice j =>
    change (if c.isRead j then c else c.hangUpPrice j).balances[k]? = some b
    obtain ⟨_, _, _, heq⟩ := c.onlyPrices_hangUpPrice j
    rw [heq]
    split_ifs <;> exact h
  | hangUpBalance j =>
    change (c.hangUpBalance j).balances[k]? = _
    cases hj : c.balances[j]? with
    | none =>
      have hne : j ≠ k := by rintro rfl; cases h.symm.trans hj
      rw [hangUpBalance_of_none hj]
      simpa [balanceAct, hne] using h
    | some bj =>
      rw [hangUpBalance_eq hj]
      exact getElem?_setBalance_after h hj (fun b => b.stream.isCancelled c.now c.signals)
        fun _ => .hangUp
  | releasePrice j =>
    change (if c.isRead j then c else c.releasePrice j).balances[k]? = some b
    rcases c.releasePrice_cases j with heq | ⟨_, s, -, -, heq⟩ <;> rw [heq] <;> split_ifs <;>
      exact h
  | releaseBalance j =>
    change (c.releaseBalance j).balances[k]? = some b
    rcases c.releaseBalance_cases j with heq | ⟨_, s, -, -, heq⟩ <;> rw [heq] <;> exact h
  | cancel s =>
    change (if c.isOwned s then c else c.cancel s).balances[k]? = some b
    split_ifs <;> exact h
  | release s =>
    change (if c.isOwned s then c else c.release s).balances[k]? = some b
    split_ifs <;> exact h
  | watchPrice metadata timeout? =>
    change (c.next (.watchPrice metadata timeout?)).balances[k]? = some b
    obtain ⟨w, hw | ⟨source, hw⟩⟩ := c.next_watchPrice metadata timeout? <;> rw [hw] <;> exact h
  | watchBalance metadata perAddress timeout? =>
    change (c.next (.watchBalance metadata perAddress timeout?)).balances[k]? = some b
    obtain ⟨w, hw | ⟨source, hw⟩⟩ := c.next_watchBalance metadata perAddress timeout?
    · rw [hw]; exact h
    · rw [hw]; exact getElem?_balances_startBalances _ source h
  | pass length => exact h
  | fetchPrice metadata => exact h
  | fetchBalance metadata perAddress => exact h

end Lines

end Chain

end WalletWatch
