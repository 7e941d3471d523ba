import Mathlib
import WalletWatch.Proofs.Chain.Backlog
import WalletWatch.Proofs.Service.Restricted
import WalletWatch.Proofs.Stream.Relabelled

set_option autoImplicit false

/-!
# Chains whose callers ask for rows or do not

Two runs of the same moves, in which different callers ask for rows, show the same but for the rows.
In the restricted mode they show the same. Everything a chain shows is looked at without rows here:
each step of each party does the same to a chain and to the chain without rows.
-/

namespace WalletWatch

/-! ## Without rows -/

namespace BalanceLine

/-- The same stream of balances without rows, and nobody asked for them. -/
def bare (b : BalanceLine) : BalanceLine :=
  ⟨b.stream.mapValue Balance.bare, b.source.bare, b.prices⟩

theorem bare_bare (b : BalanceLine) : b.bare.bare = b.bare := by
  have twice := Item.map_map_of_idempotent Balance.bare_bare
  obtain ⟨⟨context, slot, listening, task⟩, source, prices⟩ := b
  simp only [bare, Stream.mapValue, BalanceSource.bare, Option.map_map, Function.comp_def, twice]
  cases task <;> simp [Task.mapItem, twice]

theorem work_bare (s : BalanceSource) (cancelled : Bool) (prices : Stream Pace PriceQuote) :
    BalanceLine.work s.bare cancelled prices =
      ((BalanceLine.work s cancelled prices).1.mapValue Balance.bare,
        (BalanceLine.work s cancelled prices).2) := by
  unfold BalanceLine.work
  cases cancelled with
  | true => rfl
  | false =>
    generalize prices.receive = looked
    obtain ⟨arrival, rest⟩ := looked
    cases arrival with
    | pending => rfl
    | closed => rfl
    | item i => cases i with
      | error f => rfl
      | ok q =>
        simp only [Bool.false_eq_true, if_false, BalanceSource.update_bare]
        cases s.update q.price <;> rfl

end BalanceLine

/-- Taking a sample depends on the number of the sample and on nothing else in the world. -/
theorem Pace.work_bare (feed : Nat → Int64) (now : Millis) (cancelled : Bool) (p : Pace)
    (w : World) :
    (Pace.work feed now cancelled p w.bare).1 = (Pace.work feed now cancelled p w).1 ∧
      (Pace.work feed now cancelled p w.bare).2.bare =
        (Pace.work feed now cancelled p w).2.bare := by
  unfold work
  cases cancelled with
  | true => exact ⟨rfl, rfl⟩
  | false =>
    cases p with
    | ticking home t =>
      simp only [Bool.false_eq_true, if_false]
      cases t.take? now <;> exact ⟨rfl, rfl⟩
    | playing p =>
      simp only [Bool.false_eq_true, if_false]
      split <;> exact ⟨rfl, rfl⟩

theorem Pace.turn_bare (feed : Nat → Int64) (now : Millis) (cancelled : Bool)
    (st : Stream Pace PriceQuote) (w : World) :
    ∃ t st' w' w'', st.turn (Pace.work feed now cancelled) cancelled w = (t, st', w') ∧
      st.turn (Pace.work feed now cancelled) cancelled w.bare = (t, st', w'') ∧
      w''.bare = w'.bare := by
  unfold Stream.turn
  cases st.task with
  | working p =>
    have same := Pace.work_bare feed now cancelled p w
    simp only
    generalize Pace.work feed now cancelled p w = made at same ⊢
    generalize Pace.work feed now cancelled p w.bare = made' at same ⊢
    obtain ⟨decided, w'⟩ := made
    obtain ⟨decided', w''⟩ := made'
    obtain ⟨rfl, left⟩ := same
    exact ⟨_, _, w', w'', rfl, rfl, left⟩
  | sending item next => exact ⟨_, _, _, _, rfl, rfl, rfl⟩
  | closing reason => exact ⟨_, _, _, _, rfl, rfl, rfl⟩
  | stopped reason => exact ⟨_, _, _, _, rfl, rfl, rfl⟩

namespace Chain

/-- The same chain without rows, where nobody asked for them; of its world the number of samples is
left, which is all that later moves look at. -/
def bare (c : Chain) : Chain :=
  { c with balances := c.balances.map BalanceLine.bare, world := c.world.bare }

def Move.bare : Move → Move
  | .fetchBalance metadata _ => .fetchBalance metadata false
  | .watchBalance metadata _ timeout? => .watchBalance metadata false timeout?
  | m => m

def Sight.bare : Sight → Sight
  | .balance a => .balance (a.mapItem (·.map Balance.bare))
  | .worth r => .worth (r.map (·.map Balance.bare))
  | s => s

section Bare

variable (c : Chain)

@[simp] theorem wiring_bare : c.bare.wiring = c.wiring := rfl

@[simp] theorem home_bare : c.bare.home = c.home := rfl

@[simp] theorem prices_bare : c.bare.prices = c.prices := rfl

@[simp] theorem now_bare : c.bare.now = c.now := rfl

@[simp] theorem signals_bare : c.bare.signals = c.signals := rfl

@[simp] theorem world_bare : c.bare.world = c.world.bare := rfl

@[simp] theorem getElem?_balances_bare (k : Nat) :
    c.bare.balances[k]? = (c.balances[k]?).map BalanceLine.bare := List.getElem?_map ..

@[simp] theorem isRead_bare (i : Nat) : c.bare.isRead i = c.isRead i := List.any_map

@[simp] theorem isOwned_bare (s : Nat) : c.bare.isOwned s = c.isOwned s :=
  congrArg (c.prices.any (·.stream.context.handle? = some s) || ·) List.any_map

theorem map_bare_bare (lines : List BalanceLine) :
    (lines.map BalanceLine.bare).map BalanceLine.bare = lines.map BalanceLine.bare := by
  rw [List.map_map]
  exact List.map_congr_left fun b _ => b.bare_bare

theorem bare_bare : c.bare.bare = c.bare := by
  unfold bare
  rw [map_bare_bare]
  rfl

theorem bare_setBalance (k : Nat) (st : Stream Unit Balance) :
    (c.setBalance k st).bare = c.bare.setBalance k (st.mapValue Balance.bare) := by
  have lines : (c.balances.modify k fun l => { l with stream := st }).map BalanceLine.bare =
      (c.balances.map BalanceLine.bare).modify k fun l =>
        { l with stream := st.mapValue Balance.bare } := by
    apply List.ext_getElem?
    intro j
    simp only [List.getElem?_map, List.getElem?_modify]
    cases c.balances[j]? with
    | none => rfl
    | some l => by_cases hj : k = j <;> simp [hj, BalanceLine.bare]
  unfold bare setBalance
  rw [lines]

theorem bare_setPrice (i : Nat) (st : Stream Pace PriceQuote) :
    (c.setPrice i st).bare = c.bare.setPrice i st := rfl

theorem bare_replace (lines : List PriceLine) {w w' : World} (h : w'.bare = w.bare) :
    ({ c.bare with prices := lines, world := w' } : Chain).bare =
      ({ c with prices := lines, world := w } : Chain).bare := by
  simp only [bare, map_bare_bare, h]

/-! ## Each step does the same -/

theorem turnPrice_bare (i : Nat) :
    Prod.map id bare (c.bare.turnPrice i) = Prod.map id bare (c.turnPrice i) := by
  unfold turnPrice
  simp only [prices_bare, wiring_bare, now_bare, signals_bare, world_bare]
  cases c.prices[i]? with
  | none => exact congrArg (Prod.mk _) c.bare_bare
  | some l =>
    obtain ⟨t, st, w, w', made, made', left⟩ := Pace.turn_bare c.wiring.feed c.now
      (l.stream.isCancelled c.now c.signals) l.stream c.world
    simp only [made, made']
    have same := c.bare_replace (c.setPrice i st).prices left
    cases t <;> cases l.home? <;> exact congrArg (Prod.mk _) same

theorem letGo?_bare (j : Nat) : c.bare.letGo? j = (c.letGo? j).map bare := by
  unfold letGo?
  rw [prices_bare]
  cases c.prices[j]? with
  | none => rfl
  | some p =>
    cases hl : p.stream.listening with
    | true => simp only [hl, if_true]; rfl
    | false =>
      cases hs : p.stream.context.handle? with
      | none => simp only [hl, hs]; rfl
      | some s =>
        simp only [hl, hs, Bool.false_eq_true, if_false]
        by_cases hr : (c.signals.all[s]?).any (!·.released) = true
        · rw [if_pos hr]
          exact if_pos hr
        · rw [if_neg hr]
          exact if_neg hr

theorem turnBalance_bare (k : Nat) :
    Prod.map id bare (c.bare.turnBalance k) = Prod.map id bare (c.turnBalance k) := by
  unfold turnBalance
  rw [getElem?_balances_bare]
  cases c.balances[k]? with
  | none => exact congrArg (Prod.mk _) c.bare_bare
  | some b =>
    have task : b.bare.stream.task = b.stream.task.mapItem (·.map Balance.bare) := rfl
    simp only [Option.map_some, task]
    -- A stream that is about to close lets its prices go; in every other turn its producer works.
    cases htask : b.stream.task with
    | closing reason =>
      have reads : b.bare.prices = b.prices := rfl
      simp only [Task.mapItem, reads, letGo?_bare]
      cases c.letGo? b.prices with
      | some c' => exact congrArg (Prod.mk _) c'.bare_bare
      | none =>
        have stops := c.bare_setBalance k { b.stream with task := .stopped reason }
        have same := (c.setBalance k { b.stream with task := .stopped reason }).bare_bare
        rw [stops] at same
        exact congrArg (Prod.mk _) (same.trans stops.symm)
    | _ =>
      have reads : b.bare.prices = b.prices := rfl
      simp only [Task.mapItem, reads, prices_bare]
      cases c.prices[b.prices]? with
      | none => exact congrArg (Prod.mk _) c.bare_bare
      | some p =>
        have turned : b.bare.stream.turn (fun _ => BalanceLine.work b.bare.source
              (b.bare.stream.isCancelled c.bare.now c.bare.signals))
            (b.bare.stream.isCancelled c.bare.now c.bare.signals) p.stream = _ :=
          Stream.turn_mapValue Balance.bare b.stream
            (fun _ => BalanceLine.work_bare b.source (b.stream.isCancelled c.now c.signals))
            (b.stream.isCancelled c.now c.signals) p.stream
        simp only [turned]
        generalize b.stream.turn _ _ p.stream = made
        obtain ⟨t, st, prices⟩ := made
        have stands := (c.setPrice b.prices prices).bare_setBalance k st
        have same := ((c.setPrice b.prices prices).setBalance k st).bare_bare
        rw [stands, bare_setPrice] at same
        by_cases hsent : t = .sent false
        · simp only [if_pos hsent]
          exact congrArg (Prod.mk _) (same.trans stands.symm)
        · simp only [if_neg hsent]
          exact congrArg (Prod.mk _) (same.trans stands.symm)

theorem receivePrice_bare (i : Nat) : c.bare.receivePrice i =
    ((c.receivePrice i).1, (c.receivePrice i).2.bare) := by
  unfold receivePrice
  rw [prices_bare]
  cases c.prices[i]? <;> rfl

theorem receiveBalance_bare (k : Nat) : c.bare.receiveBalance k =
    ((c.receiveBalance k).1.mapItem (·.map Balance.bare), (c.receiveBalance k).2.bare) := by
  unfold receiveBalance
  rw [getElem?_balances_bare]
  cases c.balances[k]? with
  | none => rfl
  | some b =>
    have looked : b.bare.stream.receive = _ := Stream.receive_mapValue Balance.bare b.stream
    simp only [Option.map_some, looked]
    rw [bare_setBalance]

theorem hangUpPrice_bare (i : Nat) : c.bare.hangUpPrice i = (c.hangUpPrice i).bare := by
  unfold hangUpPrice
  rw [prices_bare]
  cases c.prices[i]? <;> rfl

theorem hangUpBalance_bare (k : Nat) : c.bare.hangUpBalance k = (c.hangUpBalance k).bare := by
  unfold hangUpBalance
  rw [getElem?_balances_bare]
  cases c.balances[k]? with
  | none => rfl
  | some b => exact (c.bare_setBalance k b.stream.hangUp).symm

theorem releasePrice_bare (i : Nat) : c.bare.releasePrice i = (c.releasePrice i).bare := by
  unfold releasePrice
  rw [prices_bare]
  cases c.prices[i]? <;> rfl

theorem releaseBalance_bare (k : Nat) : c.bare.releaseBalance k = (c.releaseBalance k).bare := by
  unfold releaseBalance
  rw [getElem?_balances_bare]
  cases c.balances[k]? <;> rfl

/-! ## Calls -/

theorem bare_startPrices (ctx : Context) (source : PriceSource) :
    (c.startPrices ctx source).bare = c.bare.startPrices ctx source := rfl

theorem bare_startBalances (ctx : Context) (source : BalanceSource) :
    (c.startBalances ctx source).bare = c.bare.startBalances ctx source.bare := by
  unfold bare startBalances
  simp only [List.map_append]
  rfl

theorem call_bare {α β : Type} {R : α → β → Prop} {x : Call α} {y : Call β}
    (alike : Call.Alike R x y) : Item.Alike R (c.call x).1 (c.bare.call y).1 ∧
      (c.bare.call y).2.bare = (c.call x).2.bare := by
  obtain ⟨results, samples⟩ := alike c.world c.world.bare rfl
  refine ⟨results, ?_⟩
  have left : (y.perform c.world.bare).2.bare = (x.perform c.world).2.bare := by
    unfold World.bare at samples ⊢
    rw [samples]
  exact c.bare_replace c.prices left

theorem watchPrice_bare (ctx : Context) (metadata : Metadata) :
    Prod.map id bare (c.bare.watchPrice ctx metadata) =
      Prod.map id bare (c.watchPrice ctx metadata) := by
  obtain ⟨results, left⟩ := c.call_bare (c.wiring.alike_price_watch c.home ⟨{}, metadata⟩)
  unfold watchPrice
  simp only [wiring_bare, home_bare]
  generalize c.call ((c.wiring.price c.home).watch ⟨{}, metadata⟩) = made at results left ⊢
  generalize c.bare.call ((c.wiring.price c.home).watch ⟨{}, metadata⟩) = made' at results left ⊢
  obtain ⟨r, c₁⟩ := made
  obtain ⟨r', c₂⟩ := made'
  cases results with
  | error f => exact congrArg (Prod.mk _) left
  | @ok e _ same =>
    subst same
    refine congrArg (Prod.mk _) ?_
    rw [bare_startPrices, bare_startPrices]
    exact congrArg (·.startPrices ctx e.payload) left

theorem watchBalance_bare (ctx : Context) (metadata : Metadata) (asked : Bool) :
    Prod.map id bare (c.bare.watchBalance ctx metadata false) =
      Prod.map id bare (c.watchBalance ctx metadata asked) := by
  obtain ⟨results, left⟩ := c.call_bare (c.wiring.alike_wallet_watch c.home metadata asked)
  unfold watchBalance
  simp only [wiring_bare, home_bare]
  generalize c.call ((c.wiring.wallet c.home).watch ⟨⟨asked⟩, metadata⟩) = made
    at results left ⊢
  generalize c.bare.call ((c.wiring.wallet c.home).watch ⟨⟨false⟩, metadata⟩) = made'
    at results left ⊢
  obtain ⟨r, c₁⟩ := made
  obtain ⟨r', c₂⟩ := made'
  cases results with
  | error f => exact congrArg (Prod.mk _) left
  | @ok e _ same =>
    subst same
    refine congrArg (Prod.mk _) ?_
    change (c₂.startBalances ctx e.payload.bare).bare = (c₁.startBalances ctx e.payload).bare
    rw [bare_startBalances, bare_startBalances]
    exact congrArg (·.startBalances ctx e.payload.bare) left

/-! ## Runs -/

/-- Whoever is asked for rows or not, a move shows and does the same but for the rows. -/
theorem move_bare (m : Move) : Prod.map Sight.bare bare (c.bare.move m.bare) =
    Prod.map Sight.bare bare (c.move m) := by
  cases m with
  | pass length => exact congrArg (Prod.mk _) ({ c with now := c.now + length } : Chain).bare_bare
  | turnPrice i => exact congrArg (Prod.map Sight.turn id) (c.turnPrice_bare i)
  | turnBalance k => exact congrArg (Prod.map Sight.turn id) (c.turnBalance_bare k)
  | receivePrice i =>
    simp only [move, Move.bare, isRead_bare, receivePrice_bare]
    cases c.isRead i with
    | true => exact congrArg (Prod.mk _) c.bare_bare
    | false => exact congrArg (Prod.mk _) (c.receivePrice i).2.bare_bare
  | receiveBalance k =>
    simp only [move, Move.bare, receiveBalance_bare]
    refine Prod.ext ?_ (c.receiveBalance k).2.bare_bare
    cases (c.receiveBalance k).1 with
    | item i => cases i <;> rfl
    | _ => rfl
  | hangUpPrice i =>
    simp only [move, Move.bare, isRead_bare, hangUpPrice_bare]
    cases c.isRead i with
    | true => exact congrArg (Prod.mk _) c.bare_bare
    | false => exact congrArg (Prod.mk _) (c.hangUpPrice i).bare_bare
  | hangUpBalance k =>
    simp only [move, Move.bare, hangUpBalance_bare]
    exact congrArg (Prod.mk _) (c.hangUpBalance k).bare_bare
  | releasePrice i =>
    simp only [move, Move.bare, isRead_bare, releasePrice_bare]
    cases c.isRead i with
    | true => exact congrArg (Prod.mk _) c.bare_bare
    | false => exact congrArg (Prod.mk _) (c.releasePrice i).bare_bare
  | releaseBalance k =>
    simp only [move, Move.bare, releaseBalance_bare]
    exact congrArg (Prod.mk _) (c.releaseBalance k).bare_bare
  | cancel s =>
    simp only [move, Move.bare, isOwned_bare]
    cases c.isOwned s with
    | true => exact congrArg (Prod.mk _) c.bare_bare
    | false => exact congrArg (Prod.mk _) (c.cancel s).bare_bare
  | release s =>
    simp only [move, Move.bare, isOwned_bare]
    cases c.isOwned s with
    | true => exact congrArg (Prod.mk _) c.bare_bare
    | false => exact congrArg (Prod.mk _) (c.release s).bare_bare
  | fetchPrice metadata =>
    obtain ⟨results, left⟩ := c.call_bare (c.wiring.alike_price_fetch c.home ⟨{}, metadata⟩)
    have same := Item.Alike.map_eq (f := id) results
    rw [Except.map_id] at same
    exact Prod.ext (congrArg Sight.quote same.symm) left
  | fetchBalance metadata asked =>
    obtain ⟨results, left⟩ := c.call_bare (c.wiring.alike_wallet_fetch c.home metadata asked)
    have once := results.map_eq
    have twice := Item.map_map_of_idempotent (f := Envelope.map Balance.bare) fun _ => rfl
    have same := congrArg (Except.map (Envelope.map Balance.bare)) once.symm
    rw [twice] at same
    exact Prod.ext (congrArg Sight.worth same) left
  | watchPrice metadata timeout? =>
    exact congrArg (Prod.map Sight.opened id)
      ((c.newCaller timeout?).2.2.watchPrice_bare (c.newCaller timeout?).1 metadata)
  | watchBalance metadata asked timeout? =>
    exact congrArg (Prod.map Sight.opened id)
      ((c.newCaller timeout?).2.2.watchBalance_bare (c.newCaller timeout?).1 metadata asked)

end Bare

/-- What a run shows, move by move. -/
def sights (c : Chain) (moves : List Move) : List Sight := (c.run moves).1.map Prod.snd

theorem sights_cons (c : Chain) (m : Move) (rest : List Move) :
    c.sights (m :: rest) = (c.move m).1 :: (c.next m).sights rest := rfl

/-- Two runs in which the same callers make the same moves, whether they ask for rows or not, show
the same but for the rows. -/
theorem sights_bare {c c' : Chain} (same : c.bare = c'.bare) {moves moves' : List Move}
    (alike : moves.map Move.bare = moves'.map Move.bare) :
    (c.sights moves).map Sight.bare = (c'.sights moves').map Sight.bare := by
  induction moves generalizing c c' moves' with
  | nil =>
    rw [List.map_eq_nil_iff.mp alike.symm]
    rfl
  | cons m rest ih =>
    obtain ⟨m', rest', rfl, hm, hrest⟩ := List.map_eq_cons_iff.mp alike.symm
    have step : Prod.map Sight.bare bare (c.move m) = Prod.map Sight.bare bare (c'.move m') := by
      rw [← c.move_bare m, ← c'.move_bare m', same, hm]
    have later := ih (congrArg Prod.snd step) hrest.symm
    exact congrArg₂ List.cons (congrArg Prod.fst step) later

/-! ## What the balances are made of -/

def Sight.balances : Sight → List Balance
  | .balance (.item (.ok b)) => [b]
  | .worth (.ok e) => [e.payload]
  | _ => []

theorem Sight.bare_eq_self {s : Sight} (h : ∀ b ∈ s.balances, b.addresses = []) : s.bare = s := by
  cases s with
  | balance a => cases a with
    | item i => cases i with
      | ok b =>
        have same := Balance.bare_eq_self (h b (List.mem_singleton_self b))
        exact congrArg (fun b => Sight.balance (.item (.ok b))) same
      | error f => rfl
    | closed => rfl
    | pending => rfl
  | worth r => cases r with
    | ok e =>
      have same := Balance.bare_eq_self (h e.payload (List.mem_singleton_self _))
      exact congrArg (fun b => Sight.worth (.ok ⟨b, e.metadata⟩)) same
    | error f => rfl
  | _ => rfl

end Chain

/-- A balance that a source makes of some price, or a failure. -/
def BalanceSource.Makes (s : BalanceSource) (i : Item Balance) : Prop :=
  ∀ b, i = .ok b → ∃ price, s.update price = .ok b

theorem BalanceLine.work_makes (s : BalanceSource) (cancelled : Bool)
    (prices : Stream Pace PriceQuote) :
    ∀ i ∈ (BalanceLine.work s cancelled prices).1.item?, s.Makes i := by
  unfold BalanceLine.work
  cases cancelled with
  | true => simp [Work.item?]
  | false =>
    generalize prices.receive = looked
    obtain ⟨arrival, rest⟩ := looked
    cases arrival with
    | pending => simp [Work.item?]
    | closed => simp [Work.item?]
    | item i => cases i with
      | error f => simp [Work.item?, BalanceSource.Makes]
      | ok q =>
        simp only [Bool.false_eq_true, if_false]
        cases made : s.update q.price with
        | error f => simp [Work.item?, BalanceSource.Makes]
        | ok b =>
          intro i hi b' hb'
          obtain rfl : Except.ok b = i := Option.some.inj hi
          exact ⟨q.price, made.trans hb'⟩

namespace Chain

section Faithful

variable {c : Chain} {k : Nat} {b : BalanceLine}

/-- The sources of a chain's balances are its own, and each balance that has not been received yet
is what its source makes of some price. -/
def Faithful (c : Chain) : Prop :=
  ∀ (k : Nat) (b : BalanceLine), c.balances[k]? = some b →
    b.source.aggregator = c.wiring.aggregator ∧ b.stream.Holds b.source.Makes

theorem makes_balanceAct {m : Move} {s : Unit} {w : Work Unit Balance}
    (htask : b.stream.task = .working s) (hact : c.balanceAct k b m = .turn w) :
    ∀ i ∈ w.item?, b.source.Makes i := by
  obtain rfl := eq_turnBalance_of_balanceAct hact
  have hturn : c.balanceTurn b = .turn w := (if_pos rfl).symm.trans hact
  have hopen : ∀ reason, b.stream.task ≠ .closing reason := by simp [htask]
  cases hp : c.prices[b.prices]? with
  | none => simp [balanceTurn, htask, hp] at hturn
  | some p =>
    rw [balanceTurn_of_open hopen hp, Stream.intent, htask] at hturn
    rw [← Stream.Act.turn.inj hturn]
    exact BalanceLine.work_makes _ _ _

theorem holds_next (m : Move) (h : b.stream.Holds b.source.Makes) :
    (b.stream.after (b.stream.isCancelled c.now c.signals) (c.balanceAct k b m)).Holds
      b.source.Makes :=
  Stream.Step.holds (Stream.step_after _ fun _ _ htask hact => makes_balanceAct htask hact) h

theorem Faithful.next (h : c.Faithful) (m : Move) : (c.next m).Faithful := by
  rcases c.steady_or_asks m with hs | ⟨metadata, timeout?, rfl⟩ |
    ⟨metadata, asked, timeout?, rfl⟩
  · intro k b' hb'
    obtain ⟨b, hb, rfl⟩ := hs.balance_before hb'
    rw [hs.wiring_eq]
    exact ⟨(h k b hb).1, holds_next m (h k b hb).2⟩
  · obtain ⟨w, heq | ⟨source, heq⟩⟩ := c.next_watchPrice metadata timeout?
    · rw [heq]; exact h
    · rw [heq]; exact h
  · obtain ⟨w, ⟨f, heq⟩ | ⟨e, given, heq⟩⟩ := c.move_watchBalance_cases metadata asked timeout?
    · rw [Chain.next, heq]; exact h
    · rw [Chain.next, heq]
      intro k b hb
      rcases balance_startBalances hb with hb | ⟨-, rfl⟩
      · exact h k b hb
      · obtain ⟨access, -, -, -, aggregator⟩ := WalletService.source_of_watch given
        exact ⟨aggregator, by simp [Stream.openUnder], by simp [Stream.openUnder]⟩

theorem faithful_run (wiring : Wiring) (home : Role) (moves : List Move) :
    ((start wiring home).run moves).2.Faithful :=
  run_keeps Faithful (fun _ m h => h.next m) (fun k b hb => by cases hb) moves

theorem Faithful.updates_seen (h : c.Faithful) (hb : c.balances[k]? = some b) (moves : List Move)
    {balance : Balance} (seen : .ok balance ∈ balancesSeen k (c.run moves).1) :
    ∃ price, b.source.update price = .ok balance := by
  induction moves generalizing c b with
  | nil => cases seen
  | cons m rest ih =>
    change .ok balance ∈ balancesSeen k ((m, (c.move m).1) :: ((c.next m).run rest).1) at seen
    rw [balancesSeen_cons, List.mem_append, Option.mem_toList] at seen
    rcases seen with now | later
    -- What is received now was in the slot; what is received later comes from the same line.
    · by_cases hm : m = .receiveBalance k
      · rw [hm, balanceSeen_receiveBalance hb] at now
        exact (h k b hb).2.1 _ now _ rfl
      · rw [balanceSeen_of_ne hm] at now
        cases now
    · have there := getElem?_balances_next hb m
      obtain ⟨price, made⟩ := ih (h.next m) there later
      exact ⟨price, made⟩

/-! ## The restricted mode -/

theorem Faithful.rowless (h : c.Faithful) (restricted : c.wiring.totalsOnly = true) (m : Move) :
    ∀ b ∈ (c.move m).1.balances, b.Rowless := by
  intro balance shown
  have restricted' : c.wiring.aggregator.totalsOnly = true := restricted
  cases m with
  | receiveBalance k =>
    cases hb : c.balances[k]? with
    | none => simp [move, receiveBalance, hb, Sight.balances] at shown
    | some b =>
      rw [move_receiveBalance hb] at shown
      cases looked : b.stream.receive.1 with
      | item i => cases i with
        | ok b' =>
          simp only [looked, Sight.balances, List.mem_singleton] at shown
          obtain ⟨aggregator, holds⟩ := h k b hb
          obtain ⟨price, made⟩ := holds.of_receive looked b' rfl
          rw [shown]
          refine Aggregator.rowless_of_totalsOnly ?_ made
          rw [aggregator]
          exact restricted'
        | error f => simp [looked, Sight.balances] at shown
      | closed => simp [looked, Sight.balances] at shown
      | pending => simp [looked, Sight.balances] at shown
  | fetchBalance metadata asked =>
    cases given : (((c.wiring.wallet c.home).fetch ⟨⟨asked⟩, metadata⟩).perform c.world).1 with
    | error f => simp [move, call, given, Sight.balances] at shown
    | ok e =>
      simp only [move, call, given, Sight.balances, List.mem_singleton] at shown
      obtain ⟨access, price, -, made⟩ := WalletService.balance_of_fetch given
      rw [shown]
      exact Aggregator.rowless_of_totalsOnly restricted' made
  | receivePrice i => cases hread : c.isRead i <;> simp [move, hread, Sight.balances] at shown
  | _ => simp [move, Sight.balances] at shown

theorem Faithful.rowless_sights (h : c.Faithful) (restricted : c.wiring.totalsOnly = true)
    (moves : List Move) : ∀ s ∈ c.sights moves, ∀ b ∈ s.balances, b.Rowless := by
  induction moves generalizing c with
  | nil => simp [sights, run]
  | cons m rest ih =>
    rw [sights_cons]
    have later := ih (h.next m) (by rw [c.wiring_next]; exact restricted)
    exact List.forall_mem_cons.mpr ⟨h.rowless restricted m, later⟩

/-- What is seen of a stream that was opened has a row for each entry of the caller, or no row. -/
theorem Faithful.rows_seen (h : c.Faithful) {entries : List Holding}
    (ledger : c.wiring.ledger = .ofHoldings entries) (free : c.wiring.totalsOnly = false)
    {metadata answer : Metadata} {asked : Bool} {timeout? : Option Millis}
    (opened : (c.move (.watchBalance metadata asked timeout?)).1 = .opened (.ok answer)) :
    ∃ access, Validator.decision c.wiring.knows metadata = .ok access ∧
      ∀ (after : List Move) (balance : Balance), .ok balance ∈
          balancesSeen c.balances.length
            ((c.next (.watchBalance metadata asked timeout?)).run after).1 →
        balance.Rows entries access.name asked := by
  have later := h.next (.watchBalance metadata asked timeout?)
  obtain ⟨e, w, given, heq⟩ := opened_watchBalance opened
  obtain ⟨access, validated, user, perAddress, aggregator⟩ := WalletService.source_of_watch given
  refine ⟨access, (Wiring.validate_eq c.home metadata c.world).symm.trans validated, ?_⟩
  intro after balance seen
  obtain ⟨b, there, source⟩ : ∃ b, (c.next (.watchBalance metadata asked timeout?)).balances[
      c.balances.length]? = some b ∧ b.source = e.payload := by
    rw [heq]
    exact ⟨_, List.getElem?_concat_length .., rfl⟩
  obtain ⟨price, made⟩ := later.updates_seen there after seen
  unfold BalanceSource.update at made
  rw [source, user, perAddress, aggregator] at made
  exact Aggregator.rows_of_balance ledger free made

end Faithful

/-- How asking for rows shows in what the callers of a process see, whatever moves they make. -/
structure RowsOnRequest (wiring : Wiring) (home : Role) : Prop where
  /-- It shows in the rows only: not in a total, a failure, an answer or a turn. -/
  rows_only : ∀ moves moves' : List Move, moves.map Move.bare = moves'.map Move.bare →
    ((start wiring home).sights moves).map Sight.bare =
      ((start wiring home).sights moves').map Sight.bare
  restricted : wiring.totalsOnly = true → ∀ moves moves' : List Move,
    moves.map Move.bare = moves'.map Move.bare →
      (start wiring home).sights moves = (start wiring home).sights moves'
  rowless : wiring.totalsOnly = true → ∀ (moves : List Move),
    ∀ s ∈ (start wiring home).sights moves, ∀ b ∈ s.balances, b.Rowless
  listed : wiring.totalsOnly = false → ∀ entries : List Holding,
    wiring.ledger = .ofHoldings entries → ∀ (before : List Move) (c : Chain),
    ((start wiring home).run before).2 = c →
    ∀ (metadata answer : Metadata) (asked : Bool) (timeout? : Option Millis),
    (c.move (.watchBalance metadata asked timeout?)).1 = .opened (.ok answer) →
    ∃ access, Validator.decision wiring.knows metadata = .ok access ∧
      ∀ (after : List Move) (b : Balance), .ok b ∈ balancesSeen c.balances.length
          ((c.next (.watchBalance metadata asked timeout?)).run after).1 →
        b.Rows entries access.name asked

theorem rowsOnRequest (wiring : Wiring) (home : Role) : RowsOnRequest wiring home where
  rows_only _ _ alike := sights_bare rfl alike
  restricted restricted moves moves' alike := by
    -- There is nothing to leave out, so what is the same without rows is the same.
    have plain : ∀ moves, ((start wiring home).sights moves).map Sight.bare =
        (start wiring home).sights moves := by
      intro moves
      have rowless := (faithful_run wiring home []).rowless_sights restricted moves
      refine (List.map_congr_left fun s hs => ?_).trans (List.map_id _)
      exact Sight.bare_eq_self fun b hb => (rowless s hs b hb).addresses
    rw [← plain moves, ← plain moves']
    exact sights_bare rfl alike
  rowless restricted moves := (faithful_run wiring home []).rowless_sights restricted moves
  listed free entries ledger before c hc metadata answer asked timeout? opened := by
    have faithful : c.Faithful := hc ▸ faithful_run wiring home before
    have hwiring : c.wiring = wiring := hc ▸ wiring_run (start wiring home) before
    subst hwiring
    exact faithful.rows_seen ledger free opened

/-- Asking for rows shows in the rows only, in an answer of the wallet service, in what a stream
makes of its prices and in any run of a process. In the restricted mode it does not show: there are
no rows, and no text has a place for them. Otherwise there is a row for each entry of the caller. -/
theorem rows_come_on_request :
    (∀ s : WalletService, s.SameTotals) ∧
      (∀ s : WalletService, s.aggregator.totalsOnly = true → s.Blind) ∧
      (∀ (s : WalletService) (entries : List Holding), s.aggregator.ledger = .ofHoldings entries →
        s.aggregator.totalsOnly = false → s.Listing entries) ∧
      ∀ (wiring : Wiring) (home : Role), RowsOnRequest wiring home :=
  ⟨WalletService.sameTotals, fun _ => WalletService.blind_of_totalsOnly,
    fun _ _ => WalletService.listing_of_ledger, rowsOnRequest⟩

/-- A process with one entry in its ledger. -/
def oneEntry (totalsOnly : Bool) : Wiring where
  ledger := .ofHoldings [⟨"u", "a", 3⟩]
  samples := [10]
  totalsOnly := totalsOnly
  account? := some (.ok ⟨⟨"u", .normal⟩, ∅⟩)

def askingOnce (asked : Bool) : Move :=
  .watchBalance (Metadata.credentials "t" .normal) asked none

def askingTwice (asked : Bool) : List Move :=
  [.fetchBalance (Metadata.credentials "t" .normal) asked, askingOnce asked, .pass 1000,
    .turnPrice 0, .turnPrice 0, .turnBalance 0, .turnBalance 0, .receiveBalance 0]

theorem one_row_unless_restricted :
    ((oneEntry true).walletService .wallet).Blind ∧
      ((oneEntry false).walletService .wallet).Listing [⟨"u", "a", 3⟩] ∧
      (start (oneEntry true) .wallet).sights (askingTwice true) =
        (start (oneEntry true) .wallet).sights (askingTwice false) ∧
      (Balance.mk 30 []).Rowless ∧ (Balance.mk 30 [⟨"a", 30⟩]).Rows [⟨"u", "a", 3⟩] "u" true := by
  obtain ⟨-, blind, listing, requests⟩ := rows_come_on_request
  have restricted := requests (oneEntry true) .wallet
  have free := requests (oneEntry false) .wallet
  have shown : ((start (oneEntry true) .wallet).sights (askingTwice true))[7]? =
      some (.balance (.item (.ok ⟨30, []⟩))) := by cbv
  obtain ⟨access, decided, rows⟩ := free.listed rfl [⟨"u", "a", 3⟩] rfl [] _ rfl
    (Metadata.credentials "t" .normal) (Metadata.ofHost "wallet-0") true none (by cbv)
  have known : Validator.decision (oneEntry false).knows (Metadata.credentials "t" .normal) =
      .ok ⟨"t", "u", .normal, .normal, true⟩ := by cbv
  cases decided.symm.trans known
  refine ⟨blind _ rfl, listing _ _ rfl rfl, restricted.restricted rfl _ _ rfl, ?_, ?_⟩
  · exact restricted.rowless rfl _ _ (List.mem_of_getElem? shown) _ (List.mem_singleton_self _)
  · have seen : balancesSeen 0 (((start (oneEntry false) .wallet).next (askingOnce true)).run
        ((askingTwice true).drop 2)).1 = [.ok ⟨30, [⟨"a", 30⟩]⟩] := by cbv
    exact rows ((askingTwice true).drop 2) _ (seen ▸ List.mem_singleton_self _)

end Chain

end WalletWatch
