import WalletWatch.Proofs.Chain.Layout

set_option autoImplicit false

/-!
# Streams that are left alone

A stream of balances is not cancelled by anything but a move that cancels something or lets go of
something, and the deadline of its caller. What its own producer lets go of at the end is another
signal.
-/

namespace WalletWatch

namespace Chain

/-- Whether a move cancels something, or lets go of a handle or of a stream of balances. -/
def Move.disturbs : Move → Bool
  | .cancel _ | .release _ | .releaseBalance _ | .hangUpBalance _ => true
  | _ => false

/-- A signal that no stream has for its own. -/
structure Unowned (c : Chain) (s : Nat) : Prop where
  made : s < c.signals.all.length
  price : ∀ (i : Nat) (l : PriceLine), c.prices[i]? = some l →
    l.stream.context.handle? ≠ some s
  balance : ∀ (k : Nat) (b : BalanceLine), c.balances[k]? = some b →
    b.stream.context.handle? ≠ some s

/-- A stream of balances with its consumer, right under a caller whose handle nobody has used. -/
structure Calm (c : Chain) (k : Nat) (b : BalanceLine) : Prop where
  line : c.balances[k]? = some b
  listening : b.stream.listening = true
  signals : ∃ caller own, b.stream.context.signals = [caller, own] ∧ c.Unowned caller ∧
    c.signals.raised caller = false ∧ c.signals.raised own = false

section Unowned

variable {c : Chain} {s : Nat}

theorem Layout.unowned_asked (hc : c.Layout) (w : World) :
    (c.asked w).Unowned c.signals.all.length where
  made := by simp [Chain.asked]
  price := by
    intro i l hl heq
    obtain ⟨s, hs, hlt⟩ := hc.price_made i l hl
    rw [hs, Option.some.injEq] at heq
    omega
  balance := by
    intro k b hb heq
    obtain ⟨s, hs, hlt⟩ := hc.balance_made k b hb
    rw [hs, Option.some.injEq] at heq
    omega

theorem Unowned.asked (h : c.Unowned s) (w : World) : (c.asked w).Unowned s where
  made := by
    have hlt := h.made
    simp only [Chain.asked, Signals.length_make]
    omega
  price := h.price
  balance := h.balance

theorem Unowned.startPrices (h : c.Unowned s) (ctx : Context) (source : PriceSource) :
    (c.startPrices ctx source).Unowned s where
  made := by
    have hlt := h.made
    rw [signals_startPrices, Signals.length_make]
    omega
  price := by
    intro i l hl heq
    rcases price_startPrices hl with hl | ⟨-, hst⟩
    · exact h.price i l hl heq
    · rw [hst, handle?_openUnder, Option.some.injEq] at heq
      exact absurd heq.symm (Nat.ne_of_lt h.made)
  balance := h.balance

theorem Unowned.startBalances (h : c.Unowned s) (ctx : Context) (source : BalanceSource) :
    (c.startBalances ctx source).Unowned s where
  made := by
    have hlt := h.made
    simp only [signals_startBalances, Signals.length_make]
    omega
  price := (h.startPrices ctx source.prices).price
  balance := by
    intro k b hb heq
    rcases balance_startBalances hb with hb | ⟨-, rfl⟩
    · exact h.balance k b hb heq
    · rw [handle?_openUnder, Signals.length_make, Option.some.injEq] at heq
      have hlt := h.made
      omega

theorem Unowned.of_steady (h : c.Unowned s) {m : Move} (hm : c.Steady m) :
    (c.next m).Unowned s where
  made := by
    rw [hm.signals_length]
    exact h.made
  price := by
    intro i l' hl'
    obtain ⟨l, hl, rfl⟩ := hm.price_before hl'
    rw [Stream.after_context]
    exact h.price i l hl
  balance := by
    intro k b' hb'
    obtain ⟨b, hb, rfl⟩ := hm.balance_before hb'
    rw [Stream.after_context]
    exact h.balance k b hb

theorem Unowned.next (h : c.Unowned s) (m : Move) : (c.next m).Unowned s := by
  rcases c.steady_or_opens m with hm | ⟨ctx, w, -, heq | ⟨source, heq⟩ | ⟨source, heq⟩⟩
  · exact h.of_steady hm
  · rw [heq]; exact h.asked w
  · rw [heq]; exact (h.asked w).startPrices ctx source
  · rw [heq]; exact (h.asked w).startBalances ctx source

/-- A move that disturbs nothing raises only signals of streams of prices. -/
theorem Raises.of_price {m : Move} (h : c.Raises m s) (hm : m.disturbs = false) :
    ∃ (i : Nat) (l : PriceLine), c.prices[i]? = some l ∧ l.stream.context.handle? = some s := by
  cases h with
  | cancel _ _ => cases hm
  | release _ _ => cases hm
  | releasePrice i _ l hl _ hs => exact ⟨i, l, hl, hs⟩
  | releaseBalance _ _ _ _ _ => cases hm
  | turnBalance _ _ b p _ _ _ hp hs => exact ⟨b.prices, p, hp, hs⟩

theorem raised_next_eq_false {m : Move} (hm : m.disturbs = false)
    (hprice : ∀ (i : Nat) (l : PriceLine), c.prices[i]? = some l →
      l.stream.context.handle? ≠ some s)
    (h : c.signals.raised s = false) : (c.next m).signals.raised s = false := by
  rcases c.steady_or_opens m with hsteady | hopens
  · cases hr : (c.next m).signals.raised s with
    | false => rfl
    | true =>
      rcases hsteady.raised hr with hold | hraises
      · cases hold.symm.trans h
      · obtain ⟨i, l, hl, hs⟩ := hraises.of_price hm
        exact absurd hs (hprice i l hl)
  · rw [hopens.raised_eq]
    exact h

end Unowned

section Calm

variable {c : Chain} {k : Nat} {b : BalanceLine}

theorem balanceAct_ne_hangUp {m : Move} (hm : m.disturbs = false) :
    c.balanceAct k b m ≠ .hangUp := by
  intro hact
  cases m with
  | turnBalance j =>
    simp only [balanceAct] at hact
    split_ifs at hact
    unfold balanceTurn at hact
    split at hact
    · split_ifs at hact
    · split at hact <;> cases hact
  | receiveBalance j =>
    simp only [balanceAct] at hact
    split_ifs at hact
  | hangUpBalance j => cases hm
  | _ => cases hact

theorem Calm.next (h : c.Calm k b) (hc : c.Layout) {m : Move} (hm : m.disturbs = false) :
    ∃ b', (c.next m).Calm k b' ∧ b'.stream.context = b.stream.context := by
  obtain ⟨caller, own, hsignals, hcaller, hraised, hown⟩ := h.signals
  have hhandle : b.stream.context.handle? = some own := by
    unfold Context.handle?
    rw [hsignals]
    rfl
  refine ⟨_, ⟨getElem?_balances_next h.line m, ?_, caller, own, ?_, hcaller.next m, ?_, ?_⟩, ?_⟩
  · rw [Stream.after_listening _ _ (balanceAct_ne_hangUp hm)]
    exact h.listening
  · rw [Stream.after_context]
    exact hsignals
  · exact raised_next_eq_false hm hcaller.price hraised
  -- The producer may let go of its prices, whose signal is not that of the balances.
  · refine raised_next_eq_false hm ?_ hown
    intro i l hl heq
    exact hc.balance_owner i k l b hl h.line (heq.trans hhandle.symm)
  · exact Stream.after_context _ _ _

theorem Calm.run (h : c.Calm k b) (hc : c.Layout) {moves : List Move}
    (hmoves : ∀ m ∈ moves, m.disturbs = false) :
    ∃ b', (c.run moves).2.Calm k b' ∧ b'.stream.context = b.stream.context := by
  induction moves generalizing c b with
  | nil => exact ⟨b, h, rfl⟩
  | cons m rest ih =>
    obtain ⟨b₁, h₁, heq₁⟩ := h.next hc (hmoves m List.mem_cons_self)
    obtain ⟨b', h', heq'⟩ := ih h₁ (hc.next m) fun m' hm' => hmoves m' (List.mem_cons_of_mem m hm')
    exact ⟨b', h', heq'.trans heq₁⟩

theorem Calm.isCancelled_eq_false (h : c.Calm k b)
    (hnow : ∀ d, b.stream.context.deadline? = some d → c.now < d) :
    b.stream.isCancelled c.now c.signals = false := by
  obtain ⟨caller, own, hsignals, -, hraised, hown⟩ := h.signals
  cases hcancelled : b.stream.isCancelled c.now c.signals with
  | false => rfl
  | true =>
    rcases (Context.isCancelled_iff _ _ _).mp hcancelled with ⟨d, hd, hle⟩ | ⟨id, hmem, hid⟩
    · exact absurd hle (Nat.not_le_of_lt (hnow d hd))
    · rw [hsignals, List.mem_cons, List.mem_singleton] at hmem
      rcases hmem with rfl | rfl
      · cases hid.symm.trans hraised
      · cases hid.symm.trans hown

theorem Layout.calm_startBalances (hc : c.Layout) (w : World) {ctx : Context}
    (hctx : ctx.signals = [c.signals.all.length]) (source : BalanceSource) :
    ((c.asked w).startBalances ctx source).Calm c.balances.length
      ⟨(Stream.openUnder ctx (c.asked w).signals.make.2 ()).1, source, c.prices.length⟩ where
  line := List.getElem?_concat_length ..
  listening := rfl
  signals := by
    have hfresh : ∀ id, c.signals.all.length ≤ id →
        ((c.asked w).startBalances ctx source).signals.raised id = false := by
      intro id hle
      simp only [signals_startBalances, Chain.asked, Signals.raised_make]
      exact Signals.raised_of_le _ hle
    refine ⟨c.signals.all.length, c.signals.all.length + 2, ?_,
      (hc.unowned_asked w).startBalances ctx source, hfresh _ (Nat.le_refl _),
      hfresh _ (by omega)⟩
    change ctx.signals ++ [(c.asked w).signals.make.2.all.length] = _
    rw [hctx, Chain.asked, Signals.length_make, Signals.length_make]
    rfl

end Calm

end Chain

end WalletWatch
