import WalletWatch.Proofs.Chain.Lines

set_option autoImplicit false

/-!
# How the streams of a chain hang together

A stream of balances and the stream of prices it reads run under two contexts that differ only in
their own signals. Each stream of prices has one reader at most, and as long as the reader is in its
loop nobody but the callers above can end the prices.
-/

namespace WalletWatch

namespace Chain

/-- A move raises a signal: one of a caller, or that of a stream somebody lets go of. -/
inductive Raises (c : Chain) : Move → Nat → Prop
  | cancel (s : Nat) (hfree : c.isOwned s = false) : Raises c (.cancel s) s
  | release (s : Nat) (hfree : c.isOwned s = false) : Raises c (.release s) s
  | releasePrice (i s : Nat) (l : PriceLine) (hl : c.prices[i]? = some l)
    (hfree : c.isRead i = false) (hs : l.stream.context.handle? = some s) :
    Raises c (.releasePrice i) s
  | releaseBalance (k s : Nat) (b : BalanceLine) (hb : c.balances[k]? = some b)
    (hs : b.stream.context.handle? = some s) : Raises c (.releaseBalance k) s
  | turnBalance (k s : Nat) (b : BalanceLine) (p : PriceLine) (reason : StreamEnd)
    (hb : c.balances[k]? = some b) (htask : b.stream.task = .closing reason)
    (hp : c.prices[b.prices]? = some p) (hs : p.stream.context.handle? = some s) :
    Raises c (.turnBalance k) s

/-- A move that opens nothing: there are as many streams and signals as before, and at most one
signal is raised. -/
structure Steady (c : Chain) (m : Move) : Prop where
  wiring_eq : (c.next m).wiring = c.wiring
  home_eq : (c.next m).home = c.home
  now_le : c.now ≤ (c.next m).now
  prices_length : (c.next m).prices.length = c.prices.length
  balances_length : (c.next m).balances.length = c.balances.length
  signals : (c.next m).signals = c.signals ∨
    ∃ s, c.Raises m s ∧
      ((c.next m).signals = c.signals.cancel s ∨ (c.next m).signals = c.signals.release s)

/-- A move that asks for a stream, which is opened or not. -/
def Opens (c : Chain) (m : Move) : Prop :=
  ∃ ctx w, ctx.signals = [c.signals.all.length] ∧
    (c.next m = c.asked w ∨
      (∃ source, c.next m = (c.asked w).startPrices ctx source) ∨
      ∃ source, c.next m = (c.asked w).startBalances ctx source)

theorem signals_callerContext (c : Chain) (timeout? : Option Millis) :
    (c.callerContext timeout?).signals = [c.signals.all.length] := by
  cases timeout? <;> rfl

section Cases

variable {c : Chain}

theorem steady_of_onlyPrices {m : Move} (h : c.OnlyPrices (c.next m)) : c.Steady m := by
  obtain ⟨lines, w, hlen, heq⟩ := h
  refine ⟨?_, ?_, ?_, ?_, ?_, .inl ?_⟩ <;> rw [heq]
  exact hlen

theorem steady_of_onlyBalances {m : Move} (h : c.OnlyBalances (c.next m)) : c.Steady m := by
  obtain ⟨lines, w, hlen, heq⟩ := h
  refine ⟨?_, ?_, ?_, ?_, ?_, .inl ?_⟩ <;> rw [heq]
  exact hlen

theorem steady_of_eq {m : Move} (h : c.next m = c) : c.Steady m :=
  steady_of_onlyPrices ⟨c.prices, c.world, rfl, h⟩

theorem steady_of_raises {m : Move} {s : Nat} (hr : c.Raises m s)
    (h : c.next m = c.cancel s ∨ c.next m = c.release s) : c.Steady m := by
  rcases h with h | h
  · refine ⟨?_, ?_, ?_, ?_, ?_, .inr ⟨s, hr, .inl ?_⟩⟩ <;> rw [h] <;> rfl
  · refine ⟨?_, ?_, ?_, ?_, ?_, .inr ⟨s, hr, .inr ?_⟩⟩ <;> rw [h] <;> rfl

theorem steady_turnBalance (c : Chain) (k : Nat) : c.Steady (.turnBalance k) := by
  have hnext : c.next (.turnBalance k) = (c.turnBalance k).2 := rfl
  cases hk : c.balances[k]? with
  | none => exact steady_of_eq (turnBalance_of_none hk)
  | some b =>
    by_cases hclosing : ∃ reason, b.stream.task = .closing reason
    · obtain ⟨reason, htask⟩ := hclosing
      rcases turnBalance_closing hk htask with hgo | ⟨-, w, hw⟩
      · obtain ⟨p, hp, ⟨-, heq⟩ | ⟨-, s, hs, -, heq⟩⟩ := letGo?_cases hgo
        · exact steady_of_onlyPrices (by rw [hnext, heq]; exact onlyPrices_setPrice _ _ _)
        · exact steady_of_raises (.turnBalance k s b p reason hk htask hp hs)
            (.inr (hnext.trans heq))
      · exact steady_of_onlyBalances ⟨_, w, by simp [setBalance], hnext.trans hw⟩
    · have hopen : ∀ reason, b.stream.task ≠ .closing reason := fun r hr => hclosing ⟨r, hr⟩
      cases hp : c.prices[b.prices]? with
      | none => exact steady_of_eq (turnBalance_of_missing hk hopen hp)
      | some p =>
        obtain ⟨w, hw⟩ := turnBalance_snd hk hopen hp
        refine ⟨?_, ?_, ?_, ?_, ?_, .inl ?_⟩ <;> rw [hnext, hw]
        · rfl
        · rfl
        · exact Nat.le_refl _
        · simp [setPrice, setBalance]
        · simp [setPrice, setBalance]
        · rfl

theorem steady_or_asks (c : Chain) (m : Move) : c.Steady m ∨
    (∃ metadata timeout?, m = .watchPrice metadata timeout?) ∨
      ∃ metadata perAddress timeout?, m = .watchBalance metadata perAddress timeout? := by
  cases m with
  | pass length => exact .inl ⟨rfl, rfl, Nat.le_add_right _ _, rfl, rfl, .inl rfl⟩
  | turnPrice i => exact .inl (steady_of_onlyPrices (c.onlyPrices_turnPrice i))
  | turnBalance k => exact .inl (c.steady_turnBalance k)
  | receivePrice i =>
    refine .inl ?_
    have hnext := c.next_receivePrice i
    split_ifs at hnext with hread
    · exact steady_of_eq hnext
    · exact steady_of_onlyPrices (hnext ▸ c.onlyPrices_receivePrice i)
  | receiveBalance k => exact .inl (steady_of_onlyBalances (c.onlyBalances_receiveBalance k))
  | hangUpPrice i =>
    refine .inl ?_
    have hnext : c.next (.hangUpPrice i) = if c.isRead i then c else c.hangUpPrice i := rfl
    split_ifs at hnext with hread
    · exact steady_of_eq hnext
    · exact steady_of_onlyPrices (hnext ▸ c.onlyPrices_hangUpPrice i)
  | hangUpBalance k => exact .inl (steady_of_onlyBalances (c.onlyBalances_hangUpBalance k))
  | releasePrice i =>
    refine .inl ?_
    have hnext : c.next (.releasePrice i) = if c.isRead i then c else c.releasePrice i := rfl
    split_ifs at hnext with hread
    · exact steady_of_eq hnext
    · rcases c.releasePrice_cases i with heq | ⟨l, s, hl, hs, heq⟩
      · exact steady_of_eq (hnext.trans heq)
      · exact steady_of_raises (.releasePrice i s l hl (by simpa using hread) hs)
          (.inr (hnext.trans heq))
  | releaseBalance k =>
    have hnext : c.next (.releaseBalance k) = c.releaseBalance k := rfl
    rcases c.releaseBalance_cases k with heq | ⟨b, s, hb, hs, heq⟩
    · exact .inl (steady_of_eq (hnext.trans heq))
    · exact .inl (steady_of_raises (.releaseBalance k s b hb hs) (.inr (hnext.trans heq)))
  | cancel s =>
    refine .inl ?_
    have hnext : c.next (.cancel s) = if c.isOwned s then c else c.cancel s := rfl
    split_ifs at hnext with howned
    · exact steady_of_eq hnext
    · exact steady_of_raises (.cancel s (by simpa using howned)) (.inl hnext)
  | release s =>
    refine .inl ?_
    have hnext : c.next (.release s) = if c.isOwned s then c else c.release s := rfl
    split_ifs at hnext with howned
    · exact steady_of_eq hnext
    · exact steady_of_raises (.release s (by simpa using howned)) (.inr hnext)
  | fetchPrice metadata => exact .inl (steady_of_onlyPrices ⟨_, _, rfl, rfl⟩)
  | fetchBalance metadata perAddress => exact .inl (steady_of_onlyPrices ⟨_, _, rfl, rfl⟩)
  | watchPrice metadata timeout? => exact .inr (.inl ⟨_, _, rfl⟩)
  | watchBalance metadata perAddress timeout? => exact .inr (.inr ⟨_, _, _, rfl⟩)

theorem steady_or_opens (c : Chain) (m : Move) : c.Steady m ∨ c.Opens m := by
  rcases c.steady_or_asks m with h | ⟨metadata, timeout?, rfl⟩ |
    ⟨metadata, perAddress, timeout?, rfl⟩
  · exact .inl h
  · obtain ⟨w, hw⟩ := c.next_watchPrice metadata timeout?
    exact .inr ⟨_, w, c.signals_callerContext timeout?, hw.imp_right .inl⟩
  · obtain ⟨w, hw⟩ := c.next_watchBalance metadata perAddress timeout?
    exact .inr ⟨_, w, c.signals_callerContext timeout?, hw.imp_right .inr⟩

end Cases

/-! ## Signals and time along a run -/

section Signals

variable {c : Chain} {m : Move}

theorem Steady.within (h : c.Steady m) : c.signals.Within (c.next m).signals := by
  rcases h.signals with heq | ⟨s, -, heq | heq⟩ <;> rw [heq]
  · exact .refl _
  · exact Signals.within_cancel _ s
  · exact Signals.within_release _ s

theorem Steady.signals_length (h : c.Steady m) :
    (c.next m).signals.all.length = c.signals.all.length := by
  rcases h.signals with heq | ⟨s, -, heq | heq⟩ <;> rw [heq]
  · exact Signals.length_cancel _ s
  · exact Signals.length_release _ s

theorem Steady.raised (h : c.Steady m) {id : Nat} (hr : (c.next m).signals.raised id = true) :
    c.signals.raised id = true ∨ c.Raises m id := by
  rcases h.signals with heq | ⟨s, hs, heq | heq⟩
  · exact .inl (heq ▸ hr)
  · rw [heq, Signals.raised_cancel] at hr
    rcases hr with hr | ⟨rfl, -⟩
    · exact .inl hr
    · exact .inr hs
  · rw [heq, Signals.raised_release] at hr
    rcases hr with hr | ⟨rfl, -⟩
    · exact .inl hr
    · exact .inr hs

@[simp] theorem signals_startPrices (c : Chain) (ctx : Context) (source : PriceSource) :
    (c.startPrices ctx source).signals = c.signals.make.2 := rfl

@[simp] theorem signals_startBalances (c : Chain) (ctx : Context) (source : BalanceSource) :
    (c.startBalances ctx source).signals = c.signals.make.2.make.2 := rfl

theorem Opens.raised_eq (h : c.Opens m) (id : Nat) :
    (c.next m).signals.raised id = c.signals.raised id := by
  obtain ⟨ctx, w, -, heq | ⟨source, heq⟩ | ⟨source, heq⟩⟩ := h <;> rw [heq] <;>
    simp only [signals_startPrices, signals_startBalances, asked, Signals.raised_make]

theorem Opens.now_eq (h : c.Opens m) : (c.next m).now = c.now := by
  obtain ⟨ctx, w, -, heq | ⟨source, heq⟩ | ⟨source, heq⟩⟩ := h <;> rw [heq] <;> rfl

theorem wiring_next (c : Chain) (m : Move) : (c.next m).wiring = c.wiring := by
  rcases c.steady_or_opens m with h | ⟨ctx, w, -, heq | ⟨source, heq⟩ | ⟨source, heq⟩⟩
  · exact h.wiring_eq
  · rw [heq]; rfl
  · rw [heq]; rfl
  · rw [heq]; rfl

theorem home_next (c : Chain) (m : Move) : (c.next m).home = c.home := by
  rcases c.steady_or_opens m with h | ⟨ctx, w, -, heq | ⟨source, heq⟩ | ⟨source, heq⟩⟩
  · exact h.home_eq
  · rw [heq]; rfl
  · rw [heq]; rfl
  · rw [heq]; rfl

theorem wiring_run (c : Chain) (moves : List Move) : (c.run moves).2.wiring = c.wiring :=
  run_keeps (fun c' => c'.wiring = c.wiring) (fun c' m h => (c'.wiring_next m).trans h) rfl moves

theorem home_run (c : Chain) (moves : List Move) : (c.run moves).2.home = c.home :=
  run_keeps (fun c' => c'.home = c.home) (fun c' m h => (c'.home_next m).trans h) rfl moves

theorem within_next (c : Chain) (m : Move) : c.signals.Within (c.next m).signals := by
  rcases c.steady_or_opens m with h | h
  · exact h.within
  · exact fun id hid => (h.raised_eq id).trans hid

theorem now_le_next (c : Chain) (m : Move) : c.now ≤ (c.next m).now := by
  rcases c.steady_or_opens m with h | h
  · exact h.now_le
  · exact Nat.le_of_eq h.now_eq.symm

theorem isCancelled_next (ctx : Context) (m : Move)
    (h : ctx.isCancelled c.now c.signals = true) :
    ctx.isCancelled (c.next m).now (c.next m).signals = true :=
  ctx.isCancelled_mono (c.now_le_next m) (c.within_next m) h

end Signals

/-! ## The layout -/

/-- Two contexts under one parent, each with a signal of its own. -/
def Siblings (x y : Context) : Prop :=
  x.deadline? = y.deadline? ∧
    ∃ parents s s', x.signals = parents ++ [s] ∧ y.signals = parents ++ [s']

/-- How the streams of a chain hang together, whatever has happened so far. -/
structure Layout (c : Chain) : Prop where
  price_made : ∀ (i : Nat) (l : PriceLine), c.prices[i]? = some l →
    ∃ s, l.stream.context.handle? = some s ∧ s < c.signals.all.length
  balance_made : ∀ (k : Nat) (b : BalanceLine), c.balances[k]? = some b →
    ∃ s, b.stream.context.handle? = some s ∧ s < c.signals.all.length
  /-- No two streams have the same signal for their own. -/
  price_owner : ∀ (i i' : Nat) (l l' : PriceLine), c.prices[i]? = some l →
    c.prices[i']? = some l' → l.stream.context.handle? = l'.stream.context.handle? → i = i'
  balance_owner : ∀ (i k : Nat) (l : PriceLine) (b : BalanceLine), c.prices[i]? = some l →
    c.balances[k]? = some b → l.stream.context.handle? ≠ b.stream.context.handle?
  /-- A stream of prices has one reader at most. -/
  reader : ∀ (k k' : Nat) (b b' : BalanceLine), c.balances[k]? = some b →
    c.balances[k']? = some b' → b.prices = b'.prices → k = k'
  siblings : ∀ (k : Nat) (b : BalanceLine), c.balances[k]? = some b →
    ∃ p, c.prices[b.prices]? = some p ∧ Siblings p.stream.context b.stream.context

section Layout

variable {c : Chain}

theorem Steady.price_before {m : Move} (h : c.Steady m) {i : Nat} {l' : PriceLine}
    (hl' : (c.next m).prices[i]? = some l') : ∃ l, c.prices[i]? = some l ∧
      l' = { l with stream :=
        l.stream.after (l.stream.isCancelled c.now c.signals) (c.priceAct i l m) } := by
  have hlt : i < c.prices.length := h.prices_length ▸ (List.getElem?_eq_some_iff.mp hl').1
  have hl : c.prices[i]? = some c.prices[i] := List.getElem?_eq_getElem hlt
  exact ⟨_, hl, Option.some.inj (hl'.symm.trans (getElem?_prices_next hl m))⟩

theorem Steady.balance_before {m : Move} (h : c.Steady m) {k : Nat} {b' : BalanceLine}
    (hb' : (c.next m).balances[k]? = some b') : ∃ b, c.balances[k]? = some b ∧
      b' = { b with stream :=
        b.stream.after (b.stream.isCancelled c.now c.signals) (c.balanceAct k b m) } := by
  have hlt : k < c.balances.length := h.balances_length ▸ (List.getElem?_eq_some_iff.mp hb').1
  have hb : c.balances[k]? = some c.balances[k] := List.getElem?_eq_getElem hlt
  exact ⟨_, hb, Option.some.inj (hb'.symm.trans (getElem?_balances_next hb m))⟩

theorem Layout.reads_before (hc : c.Layout) {k : Nat} {b : BalanceLine}
    (hb : c.balances[k]? = some b) : b.prices < c.prices.length := by
  obtain ⟨p, hp, -⟩ := hc.siblings k b hb
  exact (List.getElem?_eq_some_iff.mp hp).1

theorem Layout.of_steady (hc : c.Layout) {m : Move} (h : c.Steady m) : (c.next m).Layout where
  price_made := by
    intro i l' hl'
    obtain ⟨l, hl, rfl⟩ := h.price_before hl'
    rw [Stream.after_context, h.signals_length]
    exact hc.price_made i l hl
  balance_made := by
    intro k b' hb'
    obtain ⟨b, hb, rfl⟩ := h.balance_before hb'
    rw [Stream.after_context, h.signals_length]
    exact hc.balance_made k b hb
  price_owner := by
    intro i i' l l' hl hl' heq
    obtain ⟨x, hx, rfl⟩ := h.price_before hl
    obtain ⟨x', hx', rfl⟩ := h.price_before hl'
    simp only [Stream.after_context] at heq
    exact hc.price_owner i i' x x' hx hx' heq
  balance_owner := by
    intro i k l b hl hb
    obtain ⟨x, hx, rfl⟩ := h.price_before hl
    obtain ⟨y, hy, rfl⟩ := h.balance_before hb
    simp only [Stream.after_context]
    exact hc.balance_owner i k x y hx hy
  reader := by
    intro k k' b b' hb hb' heq
    obtain ⟨y, hy, rfl⟩ := h.balance_before hb
    obtain ⟨y', hy', rfl⟩ := h.balance_before hb'
    exact hc.reader k k' y y' hy hy' heq
  siblings := by
    intro k b' hb'
    obtain ⟨b, hb, rfl⟩ := h.balance_before hb'
    obtain ⟨p, hp, hsib⟩ := hc.siblings k b hb
    refine ⟨_, getElem?_prices_next hp m, ?_⟩
    simpa only [Stream.after_context] using hsib

theorem Layout.asked (hc : c.Layout) (w : World) : (c.asked w).Layout := by
  have hlen : (c.asked w).signals.all.length = c.signals.all.length + 1 := by simp [Chain.asked]
  refine ⟨?_, ?_, hc.price_owner, hc.balance_owner, hc.reader, hc.siblings⟩
  · intro i l hl
    obtain ⟨s, hs, hlt⟩ := hc.price_made i l hl
    exact ⟨s, hs, by omega⟩
  · intro k b hb
    obtain ⟨s, hs, hlt⟩ := hc.balance_made k b hb
    exact ⟨s, hs, by omega⟩

theorem price_startPrices {ctx : Context} {source : PriceSource} {i : Nat} {l : PriceLine}
    (h : (c.startPrices ctx source).prices[i]? = some l) : c.prices[i]? = some l ∨
      (i = c.prices.length ∧
        l.stream = (Stream.openUnder ctx c.signals (Pace.start c.now source)).1) := by
  rcases eq_of_getElem?_concat h with h | ⟨hi, hl⟩
  · exact .inl h
  · exact .inr ⟨hi, congrArg PriceLine.stream hl⟩

theorem price_startBalances {ctx : Context} {source : BalanceSource} {i : Nat} {l : PriceLine}
    (h : (c.startBalances ctx source).prices[i]? = some l) : c.prices[i]? = some l ∨
      (i = c.prices.length ∧
        l.stream = (Stream.openUnder ctx c.signals (Pace.start c.now source.prices)).1) :=
  price_startPrices h

theorem balance_startBalances {ctx : Context} {source : BalanceSource} {k : Nat} {b : BalanceLine}
    (h : (c.startBalances ctx source).balances[k]? = some b) : c.balances[k]? = some b ∨
      (k = c.balances.length ∧
        b = ⟨(Stream.openUnder ctx c.signals.make.2 ()).1, source, c.prices.length⟩) :=
  eq_of_getElem?_concat h

theorem getElem?_prices_startBalances_new (ctx : Context) (source : BalanceSource) :
    ∃ l, (c.startBalances ctx source).prices[c.prices.length]? = some l ∧
      l.stream = (Stream.openUnder ctx c.signals (Pace.start c.now source.prices)).1 := by
  change ∃ l, (c.prices ++ [_])[c.prices.length]? = some l ∧ _
  exact ⟨_, List.getElem?_concat_length .., rfl⟩

@[simp] theorem handle?_openUnder {σ α : Type} (ctx : Context) (signals : Signals) (start : σ) :
    (Stream.openUnder ctx signals start : Stream σ α × Signals).1.context.handle? =
      some signals.all.length :=
  Context.handle?_child ctx signals

theorem Layout.startPrices (hc : c.Layout) (ctx : Context) (source : PriceSource) :
    (c.startPrices ctx source).Layout := by
  have hnew : ∀ (i : Nat) (l : PriceLine), c.prices[i]? = some l →
      l.stream.context.handle? ≠ some c.signals.all.length := by
    intro i l hl heq
    obtain ⟨s, hs, hlt⟩ := hc.price_made i l hl
    rw [hs, Option.some.injEq] at heq
    omega
  refine ⟨?_, ?_, ?_, ?_, hc.reader, ?_⟩
  · intro i l h
    rw [signals_startPrices, Signals.length_make]
    rcases price_startPrices h with h | ⟨-, hl⟩
    · obtain ⟨s, hs, hlt⟩ := hc.price_made i l h
      exact ⟨s, hs, by omega⟩
    · exact ⟨_, by rw [hl, handle?_openUnder], by omega⟩
  · intro k b h
    rw [signals_startPrices, Signals.length_make]
    obtain ⟨s, hs, hlt⟩ := hc.balance_made k b h
    exact ⟨s, hs, by omega⟩
  · intro i i' l l' h h' heq
    rcases price_startPrices h with h | ⟨hi, hl⟩ <;>
      rcases price_startPrices h' with h' | ⟨hi', hl'⟩
    · exact hc.price_owner i i' l l' h h' heq
    · rw [hl', handle?_openUnder] at heq
      exact absurd heq (hnew i l h)
    · rw [hl, handle?_openUnder] at heq
      exact absurd heq.symm (hnew i' l' h')
    · exact hi.trans hi'.symm
  · intro i k l b h hb
    rcases price_startPrices h with h | ⟨-, hl⟩
    · exact hc.balance_owner i k l b h hb
    · obtain ⟨s, hs, hlt⟩ := hc.balance_made k b hb
      rw [hl, handle?_openUnder, hs]
      intro heq
      rw [Option.some.injEq] at heq
      omega
  · intro k b hb
    obtain ⟨p, hp, hsib⟩ := hc.siblings k b hb
    exact ⟨p, getElem?_prices_startPrices ctx source hp, hsib⟩

theorem Layout.startBalances (hc : c.Layout) (ctx : Context) (source : BalanceSource) :
    (c.startBalances ctx source).Layout := by
  have hp := hc.startPrices ctx source.prices
  have hlen : (c.startBalances ctx source).signals.all.length = c.signals.all.length + 2 := by simp
  have hlenp : (c.startPrices ctx source.prices).signals.all.length = c.signals.all.length + 1 := by
    simp
  refine ⟨?_, ?_, hp.price_owner, ?_, ?_, ?_⟩
  · intro i l h
    obtain ⟨s, hs, hlt⟩ := hp.price_made i l h
    exact ⟨s, hs, by omega⟩
  · intro k b h
    rcases balance_startBalances h with h | ⟨-, rfl⟩
    · obtain ⟨s, hs, hlt⟩ := hc.balance_made k b h
      exact ⟨s, hs, by omega⟩
    · refine ⟨_, handle?_openUnder _ _ _, ?_⟩
      rw [Signals.length_make]
      omega
  · intro i k l b h hb
    rcases balance_startBalances hb with hb | ⟨-, rfl⟩
    · exact hp.balance_owner i k l b h hb
    · obtain ⟨s, hs, hlt⟩ := hp.price_made i l h
      rw [handle?_openUnder, hs, Signals.length_make]
      intro heq
      rw [Option.some.injEq] at heq
      omega
  · intro k k' b b' hb hb' heq
    rcases balance_startBalances hb with hb | ⟨hk, rfl⟩ <;>
      rcases balance_startBalances hb' with hb' | ⟨hk', rfl⟩
    · exact hc.reader k k' b b' hb hb' heq
    · exact absurd heq (Nat.ne_of_lt (hc.reads_before hb))
    · exact absurd heq.symm (Nat.ne_of_lt (hc.reads_before hb'))
    · exact hk.trans hk'.symm
  · intro k b hb
    rcases balance_startBalances hb with hb | ⟨-, rfl⟩
    · exact hp.siblings k b hb
    · obtain ⟨l, hl, heq⟩ := c.getElem?_prices_startBalances_new ctx source
      refine ⟨l, hl, ?_⟩
      rw [heq]
      exact ⟨rfl, ctx.signals, _, _, rfl, rfl⟩

theorem Layout.next (hc : c.Layout) (m : Move) : (c.next m).Layout := by
  rcases c.steady_or_opens m with h | ⟨ctx, w, -, heq | ⟨source, heq⟩ | ⟨source, heq⟩⟩
  · exact hc.of_steady h
  · rw [heq]; exact hc.asked w
  · rw [heq]; exact (hc.asked w).startPrices ctx source
  · rw [heq]; exact (hc.asked w).startBalances ctx source

end Layout

/-! ## Prices with a reader -/

/-- While a stream of balances is in its loop its prices are listened to, and their own signal is
not raised. -/
def Attended (c : Chain) : Prop :=
  ∀ (k : Nat) (b : BalanceLine) (p : PriceLine), c.balances[k]? = some b →
    c.prices[b.prices]? = some p → b.stream.task.Active →
    p.stream.listening = true ∧
      ∀ s, p.stream.context.handle? = some s → c.signals.raised s = false

section Attended

variable {c : Chain}

theorem isRead_of_balance {k : Nat} {b : BalanceLine} (h : c.balances[k]? = some b) :
    c.isRead b.prices = true := by
  unfold isRead
  rw [List.any_eq_true]
  exact ⟨b, List.mem_of_getElem? h, by simp⟩

theorem isOwned_of_price {i s : Nat} {l : PriceLine} (h : c.prices[i]? = some l)
    (hs : l.stream.context.handle? = some s) : c.isOwned s = true := by
  unfold isOwned
  rw [Bool.or_eq_true, List.any_eq_true]
  exact .inl ⟨l, List.mem_of_getElem? h, by simp [hs]⟩

theorem priceAct_of_ne (hc : c.Layout) {k : Nat} {b : BalanceLine} (hb : c.balances[k]? = some b)
    (p : PriceLine) {m : Move} (hm : m ≠ .turnBalance k) :
    c.priceAct b.prices p m = c.priceTurn p ∨ c.priceAct b.prices p m = .elsewhere := by
  have hread := isRead_of_balance hb
  cases m with
  | turnPrice j =>
    simp only [priceAct]
    split_ifs
    · exact .inl rfl
    · exact .inr rfl
  | turnBalance k' =>
    refine .inr ?_
    simp only [priceAct]
    cases hk' : c.balances[k']? with
    | none => rfl
    | some b' =>
      have hne : b'.prices ≠ b.prices := by
        intro heq
        cases hc.reader k' k b' b hk' hb heq
        exact hm rfl
      exact if_neg hne
  | receivePrice j =>
    refine .inr (if_neg ?_)
    rintro ⟨rfl, hfree⟩
    cases hread.symm.trans hfree
  | hangUpPrice j =>
    refine .inr (if_neg ?_)
    rintro ⟨rfl, hfree⟩
    cases hread.symm.trans hfree
  | _ => exact .inr rfl

theorem priceAct_ne_hangUp (hc : c.Layout) {k : Nat} {b : BalanceLine} {p : PriceLine}
    (hb : c.balances[k]? = some b) (hactive : b.stream.task.Active) (m : Move) :
    c.priceAct b.prices p m ≠ .hangUp := by
  intro hact
  by_cases hm : m = .turnBalance k
  · subst hm
    simp only [priceAct, hb, if_true] at hact
    rcases c.readingTurn_cases b p with ⟨hturn, -⟩ | ⟨-, reason, htask⟩ | hturn
    · cases hact.symm.trans hturn
    · exact hactive reason (.inl htask)
    · cases hact.symm.trans hturn
  · rcases priceAct_of_ne hc hb p hm with hturn | hturn <;> cases hact.symm.trans hturn

/-- Nobody raises the signal of a stream of prices whose reader is in its loop. -/
theorem not_raises_of_active (hc : c.Layout) {k s : Nat} {b : BalanceLine} {p : PriceLine}
    (hb : c.balances[k]? = some b) (hp : c.prices[b.prices]? = some p)
    (hactive : b.stream.task.Active) (hs : p.stream.context.handle? = some s) (m : Move) :
    ¬ c.Raises m s := by
  intro hr
  cases hr with
  | cancel _ hfree => cases (isOwned_of_price hp hs).symm.trans hfree
  | release _ hfree => cases (isOwned_of_price hp hs).symm.trans hfree
  | releasePrice i _ l hl hfree hs' =>
    cases hc.price_owner _ _ _ _ hl hp (hs'.trans hs.symm)
    cases (isRead_of_balance hb).symm.trans hfree
  | releaseBalance k' _ b' hb' hs' =>
    exact hc.balance_owner _ _ _ _ hp hb' (hs.trans hs'.symm)
  | turnBalance k' _ b' p' reason hb' htask hp' hs' =>
    have hplace := hc.price_owner _ _ _ _ hp' hp (hs'.trans hs.symm)
    cases hc.reader k' k b' b hb' hb hplace
    cases hb'.symm.trans hb
    exact hactive reason (.inl htask)

theorem Attended.of_steady (ha : c.Attended) (hc : c.Layout) {m : Move} (h : c.Steady m) :
    (c.next m).Attended := by
  intro k b' p' hb' hp' hactive'
  obtain ⟨b, hb, rfl⟩ := h.balance_before hb'
  obtain ⟨p, hp, rfl⟩ := h.price_before hp'
  have hactive : b.stream.task.Active :=
    fun reason he => hactive' reason (Stream.endsBy_after he _ _)
  obtain ⟨hl, hraised⟩ := ha k b p hb hp hactive
  refine ⟨?_, ?_⟩
  · rw [Stream.after_listening _ _ (priceAct_ne_hangUp hc hb hactive m)]
    exact hl
  · intro s hs
    rw [Stream.after_context] at hs
    -- A signal that is raised only now was raised by this move, and nobody may do that.
    cases hr : (c.next m).signals.raised s with
    | false => rfl
    | true =>
      rcases h.raised hr with hold | hm
      · exact absurd hold (by simp [hraised s hs])
      · exact absurd hm (not_raises_of_active hc hb hp hactive hs m)

theorem Attended.of_opens (ha : c.Attended) (hc : c.Layout) {m : Move} (h : c.Opens m) :
    (c.next m).Attended := by
  have hold : ∀ (k : Nat) (b : BalanceLine) (p : PriceLine), c.balances[k]? = some b →
      c.prices[b.prices]? = some p → b.stream.task.Active → p.stream.listening = true ∧
        ∀ s, p.stream.context.handle? = some s → (c.next m).signals.raised s = false := by
    intro k b p hb hp hactive
    obtain ⟨hl, hraised⟩ := ha k b p hb hp hactive
    exact ⟨hl, fun s hs => (h.raised_eq s).trans (hraised s hs)⟩
  intro k b p hb hp hactive
  have hraised := h.raised_eq
  obtain ⟨ctx, w, -, heq | ⟨source, heq⟩ | ⟨source, heq⟩⟩ := h <;> rw [heq] at hb hp
  · exact hold k b p hb hp hactive
  · rcases price_startPrices hp with hp | ⟨hi, -⟩
    · exact hold k b p hb hp hactive
    · exact absurd hi (Nat.ne_of_lt (hc.reads_before hb))
  · rcases balance_startBalances hb with hb | ⟨-, rfl⟩
    · rcases price_startBalances hp with hp | ⟨hi, -⟩
      · exact hold k b p hb hp hactive
      · exact absurd hi (Nat.ne_of_lt (hc.reads_before hb))
    · obtain ⟨l, hl, hst⟩ := (c.asked w).getElem?_prices_startBalances_new ctx source
      cases hl.symm.trans hp
      rw [hst]
      refine ⟨rfl, ?_⟩
      intro s hs
      rw [handle?_openUnder, Option.some.injEq] at hs
      rw [hraised, ← hs]
      exact Signals.raised_of_le _ (by simp [asked])

theorem Attended.next (ha : c.Attended) (hc : c.Layout) (m : Move) : (c.next m).Attended := by
  rcases c.steady_or_opens m with h | h
  · exact ha.of_steady hc h
  · exact ha.of_opens hc h

/-- A chain that nobody has used yet. -/
def start (wiring : Wiring) (home : Role) : Chain := { wiring := wiring, home := home }

/-- Whatever has happened to a chain, its streams hang together. -/
theorem layout_and_attended (wiring : Wiring) (home : Role) (moves : List Move) :
    (moves.foldl next (start wiring home)).Layout ∧
      (moves.foldl next (start wiring home)).Attended := by
  rw [← run_snd]
  refine run_keeps (fun c => c.Layout ∧ c.Attended)
    (fun c m hc => ⟨hc.1.next m, hc.2.next hc.1 m⟩) ⟨⟨?_, ?_, ?_, ?_, ?_, ?_⟩, ?_⟩ moves <;>
    simp [start, Attended]

theorem reached {wiring : Wiring} {home : Role} {moves : List Move}
    (h : ((start wiring home).run moves).2 = c) :
    c.wiring = wiring ∧ c.home = home ∧ c.Layout ∧ c.Attended := by
  have hc := layout_and_attended wiring home moves
  rw [← run_snd, h] at hc
  exact ⟨h ▸ wiring_run _ moves, h ▸ home_run _ moves, hc⟩

end Attended

end Chain

end WalletWatch
