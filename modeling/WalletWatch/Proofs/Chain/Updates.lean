import Mathlib
import WalletWatch.Proofs.Chain.Accounting
import WalletWatch.Proofs.Chain.Backlog
import WalletWatch.Proofs.Stream.Discards

set_option autoImplicit false

/-!
# Updates are counted

A stream of balances counts an update once its balance is accepted. A stream of prices counts it
with the sample, before it is sent, so that a price that is given up counts all the same.
-/

namespace WalletWatch

/-- No update is counted between two worlds. -/
def World.SameUpdates (w w' : World) : Prop :=
  ∀ home, (w'.metrics home).updates = (w.metrics home).updates

namespace World

variable {w w' w'' : World}

theorem SameUpdates.refl (w : World) : w.SameUpdates w := fun _ => rfl

theorem SameUpdates.trans (h : w.SameUpdates w') (h' : w'.SameUpdates w'') : w.SameUpdates w'' :=
  fun home => (h' home).trans (h home)

theorem sameUpdates_count (w : World) (home : Role) (change : Metrics → Metrics)
    (h : ∀ m, (change m).updates = m.updates) : w.SameUpdates (w.count home change) := by
  intro other
  rw [metrics_count]
  split_ifs
  · exact h _
  · rfl

/-- The updates of a service that a process counted. -/
def updatesOf (w : World) (home : Role) (service : String) : UInt64 :=
  (w.metrics home).updatesOf service

theorem SameUpdates.updatesOf_eq (h : w.SameUpdates w') (home : Role) (service : String) :
    w'.updatesOf home service = w.updatesOf home service :=
  congrArg (Family.get · (Metrics.labelsOf service)) (h home)

@[simp] theorem updatesOf_count_closed (w : World) (home role : Role) (service asked : String) :
    (w.count home (·.closed service)).updatesOf role asked = w.updatesOf role asked :=
  (w.sameUpdates_count home (·.closed service) fun _ => rfl).updatesOf_eq role asked

theorem updatesOf_count_updated (w : World) (home role : Role) (service asked : String) :
    (w.count home (·.updated service)).updatesOf role asked =
      w.updatesOf role asked + if asked = service ∧ home = role then 1 else 0 := by
  unfold updatesOf
  rw [metrics_count]
  by_cases h : role = home
  · rw [if_pos h, Metrics.updatesOf_updated]
    simp [h, eq_comm]
  · simp [h, Ne.symm h]

end World

/-! ## Calls count no updates -/

/-- A call that counts no update. -/
def Call.Uncounted {α : Type} (c : Call α) : Prop := c.Keeps World.SameUpdates

namespace Call

variable {α β : Type} {c : Call α} {k : α → Call β}

theorem uncounted_ofItem (i : Item α) : (ofItem i).Uncounted := .refl

theorem uncounted_pure (a : α) : (pure a : Call α).Uncounted := .refl

theorem uncounted_throw (f : Failure) : (throw f : Call α).Uncounted := .refl

theorem uncounted_say (e : LogEvent) : (say e).Uncounted := fun _ _ => rfl

theorem uncounted_sample : sample.Uncounted := fun _ _ => rfl

theorem uncounted_opened (home : Role) (service : String) :
    (count home (·.opened service)).Uncounted :=
  fun w => w.sameUpdates_count home (·.opened service) fun _ => rfl

theorem uncounted_note (call : PriceCall) :
    (modify fun w => { w with priceCalls := w.priceCalls ++ [call] } : Call Unit).Uncounted :=
  fun _ _ => rfl

theorem Uncounted.bind (hc : c.Uncounted) (hk : ∀ a, (k a).Uncounted) : (c >>= k).Uncounted :=
  Keeps.bind World.SameUpdates.trans hc hk

theorem Uncounted.within (hc : c.Uncounted) (context : String) :
    (c.within context).Uncounted := by
  intro w
  rw [perform_within]
  exact hc w

end Call

/-- An account service whose calls count no updates. -/
def AccountApi.Uncounted (a : AccountApi) : Prop := ∀ request, (a.resolve request).Uncounted

theorem AccountApi.Uncounted.recorded {a : AccountApi} (h : a.Uncounted) :
    a.recorded.Uncounted := by
  intro request w
  rw [perform_resolve_recorded]
  exact h request _

/-- A validation counts, but not as an update. -/
theorem Validator.uncounted_validate {v : Validator} (h : v.resolver.Uncounted)
    (inbound : Metadata) : (v.validate inbound).Uncounted := by
  have checked : (check v.resolver inbound).Uncounted := by
    unfold check
    split
    · exact Call.uncounted_throw _
    · split
      · exact Call.uncounted_throw _
      · intro w home
        rw [perform_ask, remarks_metrics]
        exact h _ w home
  intro w
  rw [perform_validate]
  refine (checked w).trans (World.sameUpdates_count _ v.home (·.validated _) ?_)
  exact fun _ => rfl

namespace Wiring

variable (wiring : Wiring) (home : Role)

theorem uncounted_validate (inbound : Metadata) :
    ((wiring.validator home).validate inbound).Uncounted := by
  refine Validator.uncounted_validate ?_ inbound
  change wiring.account.Uncounted
  unfold account
  cases wiring.account? with
  | some answer => exact AccountApi.Uncounted.recorded fun _ => Call.uncounted_ofItem answer
  | none =>
    exact AccountApi.Uncounted.recorded
      (wiring.accountService.keeps_resolve .refl fun w _ => fun _ => rfl)

theorem uncounted_accept (request : Envelope PriceRequest) :
    ((wiring.priceService home).accept request).Uncounted :=
  (wiring.uncounted_validate home _).bind fun _ => (Call.uncounted_ofItem _).bind fun _ =>
    Call.uncounted_pure _

theorem uncounted_price_fetch (request : Envelope PriceRequest) :
    ((wiring.price home).fetch request).Uncounted := by
  unfold price
  refine (Call.uncounted_note ⟨false, request.metadata⟩).bind fun _ => ?_
  cases wiring.prices? with
  | some s => exact Call.uncounted_ofItem _
  | none =>
    exact (wiring.uncounted_accept home request).bind fun _ => Call.uncounted_sample.bind fun _ =>
      Call.uncounted_pure _

theorem uncounted_price_watch (request : Envelope PriceRequest) :
    ((wiring.price home).watch request).Uncounted := by
  unfold price
  refine (Call.uncounted_note ⟨true, request.metadata⟩).bind fun _ => ?_
  cases wiring.prices? with
  | some s => exact Call.uncounted_ofItem _
  | none =>
    exact (wiring.uncounted_accept home request).bind fun _ =>
      (Call.uncounted_opened home "price").bind fun _ => (Call.uncounted_say _).bind fun _ =>
        Call.uncounted_pure _

theorem uncounted_wallet_fetch (request : Envelope BalanceRequest) :
    ((wiring.wallet home).fetch request).Uncounted :=
  (wiring.uncounted_validate home request.metadata).bind fun access =>
    ((wiring.uncounted_price_fetch home ⟨{}, access.forward⟩).within _).bind fun _ =>
      (Call.uncounted_say _).bind fun _ => (Call.uncounted_say _).bind fun _ =>
        (Call.uncounted_ofItem _).bind fun _ => Call.uncounted_pure _

theorem uncounted_wallet_watch (request : Envelope BalanceRequest) :
    ((wiring.wallet home).watch request).Uncounted :=
  (wiring.uncounted_validate home request.metadata).bind fun access =>
    ((wiring.uncounted_price_watch home ⟨{}, access.forward⟩).within _).bind fun _ =>
      (Call.uncounted_say _).bind fun _ => (Call.uncounted_opened home "wallet").bind fun _ =>
        (Call.uncounted_say _).bind fun _ => Call.uncounted_pure _

end Wiring

/-! ## Where streams count -/

/-- The process whose metrics count the samples of a producer of prices, if one does. -/
def Pace.home? : Pace → Option Role
  | .ticking home _ => some home
  | .playing _ => none

theorem Pace.work_resumes_home (feed : Nat → Int64) (now : Millis) (cancelled : Bool) (p : Pace)
    (w : World) : (Pace.work feed now cancelled p w).1.Resumes fun q => q.home? = p.home? := by
  intro next hnext
  unfold work at hnext
  cases cancelled with
  | true => simp at hnext
  | false =>
    cases p with
    | ticking home t =>
      cases htake : t.take? now with
      | none => simp [htake] at hnext
      | some t' =>
        obtain rfl : Pace.ticking home t' = next := by simpa [htake] using hnext
        rfl
    | playing p =>
      simp only [Bool.false_eq_true, if_false] at hnext
      split at hnext
      · simp at hnext
      · obtain rfl : Pace.playing _ = next := by simpa using hnext
        rfl
      · obtain rfl : Pace.playing _ = next := by simpa using hnext
        rfl
      · simp at hnext
      · simp at hnext
      · simp at hnext

/-- A sample counts when it is taken, whatever becomes of it. -/
theorem Pace.updatesOf_work (feed : Nat → Int64) (now : Millis) (cancelled : Bool) (p : Pace)
    (w : World) (role : Role) (service : String) :
    (Pace.work feed now cancelled p w).2.updatesOf role service = w.updatesOf role service +
      if service = "price" ∧ p.home? = some role then
        UInt64.ofNat ((Pace.work feed now cancelled p w).1.item?.toList.countP Except.isOk)
      else 0 := by
  unfold work
  cases cancelled with
  | true => simp [Work.item?]
  | false =>
    cases p with
    | ticking home t =>
      cases htake : t.take? now with
      | none => simp [htake, Work.item?]
      | some t' =>
        have counted := w.updatesOf_count_updated home role "price" service
        simp only [htake, Bool.false_eq_true, if_false, home?, Option.some.injEq]
        exact counted
    | playing p =>
      simp only [home?, Bool.false_eq_true, if_false]
      split <;> simp

namespace Chain

/-- The streams of a chain as far as it counts their updates: a producer of prices counts where its
line says, and one of balances stops behind a failure. -/
structure Bookkept (c : Chain) : Prop where
  prices : ∀ (i : Nat) (l : PriceLine), c.prices[i]? = some l →
    l.stream.Resumes fun pace => pace.home? = l.home?
  balances : ∀ (k : Nat) (b : BalanceLine), c.balances[k]? = some b → b.stream.Sound

section Moves

variable {c : Chain} {i k : Nat} {l p : PriceLine} {b : BalanceLine}

theorem Bookkept.startPrices (h : c.Bookkept) (ctx : Context) (source : PriceSource) :
    (c.startPrices ctx source).Bookkept := by
  refine ⟨fun i l hl => ?_, h.balances⟩
  rcases eq_of_getElem?_concat hl with hl | ⟨-, rfl⟩
  · exact h.prices i l hl
  · intro pace hpace
    obtain rfl : Pace.start c.now source = pace := by
      simpa [Stream.openUnder, Context.child] using hpace
    cases source <;> rfl

theorem Bookkept.startBalances (h : c.Bookkept) (ctx : Context) (source : BalanceSource) :
    (c.startBalances ctx source).Bookkept := by
  refine ⟨(h.startPrices ctx source.prices).prices, fun k b hb => ?_⟩
  rcases balance_startBalances hb with hb | ⟨-, rfl⟩
  · exact h.balances k b hb
  · intro item next hsending
    cases hsending

theorem Bookkept.of_steady (h : c.Bookkept) {m : Move} (hs : c.Steady m) :
    (c.next m).Bookkept := by
  refine ⟨fun i l' hl' => ?_, fun k b' hb' => ?_⟩
  · obtain ⟨l, hl, rfl⟩ := hs.price_before hl'
    have resumes := h.prices i l hl
    refine Stream.Step.resumes (Stream.step_after _ fun pace w htask hact => ?_) resumes
    rw [eq_intent_of_priceAct hact, Stream.intent, htask]
    have same := resumes pace (.inl htask)
    exact same ▸ Pace.work_resumes_home _ _ _ pace _
  · obtain ⟨b, hb, rfl⟩ := hs.balance_before hb'
    exact Stream.Step.sound (Stream.step_after _ fun s w htask hact => plain_balanceAct htask hact)
      (h.balances k b hb)

theorem Bookkept.next (h : c.Bookkept) (m : Move) : (c.next m).Bookkept := by
  rcases c.steady_or_opens m with hs | ⟨ctx, w, -, heq | ⟨source, heq⟩ | ⟨source, heq⟩⟩
  · exact h.of_steady hs
  · rw [heq]; exact ⟨h.prices, h.balances⟩
  · rw [heq]; exact Bookkept.startPrices (c := c.asked w) ⟨h.prices, h.balances⟩ ctx source
  · rw [heq]; exact Bookkept.startBalances (c := c.asked w) ⟨h.prices, h.balances⟩ ctx source

/-! ## What one move counts -/

theorem updatesOf_turnPrice (h : c.prices[i]? = some l)
    (resumes : l.stream.Resumes fun pace => pace.home? = l.home?) (role : Role)
    (service : String) : (c.turnPrice i).2.world.updatesOf role service =
      c.world.updatesOf role service +
        if service = "price" ∧ l.home? = some role then
          UInt64.ofNat ((l.stream.produced (l.stream.after
            (l.stream.isCancelled c.now c.signals) (c.priceTurn l))).toList.countP Except.isOk)
        else 0 := by
  -- Whether the producer stops shows in the gauge only.
  have world : (c.turnPrice i).2.world.updatesOf role service = (l.stream.turn (Pace.work
      c.wiring.feed c.now (l.stream.isCancelled c.now c.signals))
      (l.stream.isCancelled c.now c.signals) c.world).2.2.updatesOf role service := by
    unfold turnPrice
    simp only [h]
    split
    · exact World.updatesOf_count_closed _ _ role "price" service
    · rfl
  rw [world, Stream.turn_rest, priceTurn]
  cases htask : l.stream.task with
  | working pace =>
    rw [Stream.produced_after_turn_of_working htask, Stream.intent, htask,
      ← resumes pace (.inl htask)]
    exact Pace.updatesOf_work _ _ _ pace _ role service
  | _ =>
    rw [Stream.produced_after_turn_of_ne_working (by simp [htask])]
    simp

theorem updatesOf_turnBalance (h : c.balances[k]? = some b) (sound : b.stream.Sound) (role : Role)
    (service : String) : (c.turnBalance k).2.world.updatesOf role service =
      c.world.updatesOf role service +
        if service = "wallet" ∧ b.source.home = role then
          UInt64.ofNat ((b.stream.accepted (b.stream.after
            (b.stream.isCancelled c.now c.signals) (c.balanceTurn b))).toList.countP Except.isOk)
        else 0 := by
  have idle : b.stream.accepted (b.stream.after (b.stream.isCancelled c.now c.signals)
      (c.balanceTurn b)) = none →
      (if service = "wallet" ∧ b.source.home = role then
        UInt64.ofNat ((b.stream.accepted (b.stream.after
          (b.stream.isCancelled c.now c.signals) (c.balanceTurn b))).toList.countP Except.isOk)
      else 0) = 0 := fun hnone => by simp [hnone]
  by_cases hclosing : ∃ reason, b.stream.task = .closing reason
  · obtain ⟨reason, htask⟩ := hclosing
    have still : b.stream.accepted (b.stream.after (b.stream.isCancelled c.now c.signals)
        (c.balanceTurn b)) = none := by
      refine Stream.accepted_of_slot_eq ?_
      simp only [balanceTurn, htask]
      split_ifs
      · rfl
      · rw [Stream.after_closing _ _ htask]
    rw [idle still, UInt64.add_zero, turnBalance_of_closing h htask]
    cases hgo : c.letGo? b.prices with
    | some c' => exact congrArg (·.updatesOf role service) (world_letGo? hgo)
    | none => exact World.updatesOf_count_closed _ _ role "wallet" service
  · have hopen : ∀ reason, b.stream.task ≠ .closing reason := fun r hr => hclosing ⟨r, hr⟩
    cases hp : c.prices[b.prices]? with
    | none =>
      have still : c.balanceTurn b = .elsewhere := by
        unfold balanceTurn
        cases htask : b.stream.task with
        | closing reason => exact absurd htask (hopen reason)
        | _ => simp only [hp]
      rw [idle (by rw [still]; exact Stream.accepted_of_slot_eq rfl), UInt64.add_zero,
        turnBalance_of_missing h hopen hp]
    | some p =>
      have made := (turn_balance_eq b p hopen hp).1
      have value := Stream.countP_accepted_turn sound
        (fun _ => BalanceLine.work b.source (b.stream.isCancelled c.now c.signals))
        (b.stream.isCancelled c.now c.signals) p.stream
      have world : (c.turnBalance k).2.world = if (b.stream.turn
          (fun _ => BalanceLine.work b.source (b.stream.isCancelled c.now c.signals))
          (b.stream.isCancelled c.now c.signals) p.stream).1 = .sent false then
            c.world.count b.source.home (·.updated "wallet") else c.world := by
        unfold turnBalance
        cases htask : b.stream.task with
        | closing reason => exact absurd htask (hopen reason)
        | _ =>
          simp only [h, htask, hp]
          split_ifs <;> rfl
      rw [← made, value, world]
      split_ifs with hsent hrole hrole
      · rw [World.updatesOf_count_updated, if_pos hrole]
        rfl
      · rw [World.updatesOf_count_updated, if_neg hrole]
      · exact (UInt64.add_zero _).symm
      · exact (UInt64.add_zero _).symm

theorem sameUpdates_next (c : Chain) {m : Move} (hprice : ∀ i, m ≠ .turnPrice i)
    (hbalance : ∀ k, m ≠ .turnBalance k) : c.world.SameUpdates (c.next m).world := by
  have same {w : World} (heq : w = c.world) : c.world.SameUpdates w := heq ▸ .refl _
  have guarded {c' : Chain} (b : Bool) (heq : c'.world = c.world) :
      (if b then c else c').world = c.world := by
    cases b
    · exact heq
    · rfl
  cases m with
  | turnPrice i => exact absurd rfl (hprice i)
  | turnBalance k => exact absurd rfl (hbalance k)
  | pass length => exact .refl _
  | receivePrice i =>
    rw [next_receivePrice]
    exact same (guarded _ (c.world_receivePrice i))
  | receiveBalance k => exact same (c.world_receiveBalance k)
  | hangUpPrice i => exact same (guarded _ (c.world_hangUpPrice i))
  | hangUpBalance k => exact same (c.world_hangUpBalance k)
  | releasePrice i => exact same (guarded _ (c.world_releasePrice i))
  | releaseBalance k => exact same (c.world_releaseBalance k)
  | cancel s => exact same (guarded _ rfl)
  | release s => exact same (guarded _ rfl)
  | fetchPrice metadata => exact c.wiring.uncounted_price_fetch c.home _ c.world
  | fetchBalance metadata perAddress => exact c.wiring.uncounted_wallet_fetch c.home _ c.world
  | watchPrice metadata timeout? =>
    have kept := c.wiring.uncounted_price_watch c.home ⟨{}, metadata⟩ c.world
    obtain ⟨⟨r, w⟩, made⟩ : ∃ made,
      ((c.wiring.price c.home).watch ⟨{}, metadata⟩).perform c.world = made := ⟨_, rfl⟩
    rw [made] at kept
    cases r with
    | error f => rw [next, move_watchPrice_error timeout? made]; exact kept
    | ok e => rw [next, move_watchPrice_ok timeout? made]; exact kept
  | watchBalance metadata perAddress timeout? =>
    have kept := c.wiring.uncounted_wallet_watch c.home ⟨⟨perAddress⟩, metadata⟩ c.world
    obtain ⟨⟨r, w⟩, made⟩ : ∃ made, ((c.wiring.wallet c.home).watch
      ⟨⟨perAddress⟩, metadata⟩).perform c.world = made := ⟨_, rfl⟩
    rw [made] at kept
    cases r with
    | error f => rw [next, move_watchBalance_error timeout? made]; exact kept
    | ok e => rw [next, move_watchBalance_ok timeout? made]; exact kept

theorem price?_next {i : Nat} {st : Stream Pace PriceQuote} (h : c.price? i = some st) (m : Move) :
    ∃ st', (c.next m).price? i = some st' := by
  obtain ⟨l, hl, rfl⟩ := price?_eq_some.mp h
  exact ⟨_, price?_eq_some.mpr ⟨_, getElem?_prices_next hl m, rfl⟩⟩

theorem balance?_next {k : Nat} {st : Stream Unit Balance} (h : c.balance? k = some st) (m : Move) :
    ∃ st', (c.next m).balance? k = some st' := by
  obtain ⟨b, hb, rfl⟩ := balance?_eq_some.mp h
  exact ⟨_, balance?_eq_some.mpr ⟨_, getElem?_balances_next hb m, rfl⟩⟩

theorem befalls_price (event : Stream Pace PriceQuote → Stream Pace PriceQuote →
    Option (Item PriceQuote)) (c : Chain) (i : Nat) (m : Move)
    (h : ∀ l, c.prices[i]? = some l → event l.stream (l.stream.after
      (l.stream.isCancelled c.now c.signals) (c.priceAct i l m)) = none) :
    Stream.befalls event (c.price? i) ((c.next m).price? i) = 0 := by
  cases hl : c.prices[i]? with
  | none => simp [price?, hl, Stream.befalls]
  | some l =>
    have hl' := getElem?_prices_next hl m
    simp [price?, hl, hl', Stream.befalls, h l hl]

theorem befalls_balance (event : Stream Unit Balance → Stream Unit Balance →
    Option (Item Balance)) (c : Chain) (k : Nat) (m : Move)
    (h : ∀ b, c.balances[k]? = some b → event b.stream (b.stream.after
      (b.stream.isCancelled c.now c.signals) (c.balanceAct k b m)) = none) :
    Stream.befalls event (c.balance? k) ((c.next m).balance? k) = 0 := by
  cases hb : c.balances[k]? with
  | none => simp [balance?, hb, Stream.befalls]
  | some b =>
    have hb' := getElem?_balances_next hb m
    simp [balance?, hb, hb', Stream.befalls, h b hb]

/-- Without a turn of a stream that counts there, the updates of a service stay as they are. -/
theorem updatesOf_next_of_quiet (kept : c.Bookkept) (m : Move) (role : Role) (service : String)
    (hprice : service = "price" →
      ∀ (i : Nat) (l : PriceLine), c.prices[i]? = some l → m ≠ .turnPrice i)
    (hbalance : service = "wallet" →
      ∀ (k : Nat) (b : BalanceLine), c.balances[k]? = some b → m ≠ .turnBalance k) :
    (c.next m).world.updatesOf role service = c.world.updatesOf role service := by
  by_cases turnsPrice : ∃ i, m = .turnPrice i
  · obtain ⟨i, rfl⟩ := turnsPrice
    cases hl : c.prices[i]? with
    | none => exact congrArg (·.world.updatesOf role service) (turnPrice_of_none hl)
    | some l =>
      refine (updatesOf_turnPrice hl (kept.prices i l hl) role service).trans ?_
      rw [if_neg fun h => hprice h.1 i l hl rfl, UInt64.add_zero]
  · by_cases turnsBalance : ∃ k, m = .turnBalance k
    · obtain ⟨k, rfl⟩ := turnsBalance
      cases hb : c.balances[k]? with
      | none => exact congrArg (·.world.updatesOf role service) (turnBalance_of_none hb)
      | some b =>
        refine (updatesOf_turnBalance hb (kept.balances k b hb) role service).trans ?_
        rw [if_neg fun h => hbalance h.1 k b hb rfl, UInt64.add_zero]
    · have same := c.sameUpdates_next (fun i h => turnsPrice ⟨i, h⟩)
        fun k h => turnsBalance ⟨k, h⟩
      exact same.updatesOf_eq role service

/-- The samples of a move, each counted where its line says. -/
theorem updatesOf_price_next (kept : c.Bookkept) (m : Move) (role : Role) {n : Nat}
    {mine : Nat → Bool}
    (tied : ∀ (i : Nat) (l : PriceLine), c.prices[i]? = some l →
      i < n ∧ (mine i ↔ l.home? = some role)) :
    (c.next m).world.updatesOf role "price" = c.world.updatesOf role "price" + UInt64.ofNat
      (∑ i ∈ Finset.range n, if mine i then
        Stream.befalls Stream.produced (c.price? i) ((c.next m).price? i) else 0) := by
  have others : ∀ i, (∀ l, c.prices[i]? = some l → m ≠ .turnPrice i) →
      Stream.befalls Stream.produced (c.price? i) ((c.next m).price? i) = 0 := by
    intro i hm
    refine befalls_price _ c i m fun l hl => ?_
    exact Stream.produced_after_of_ne_turn _ _ fun w hact =>
      hm l hl (eq_turnPrice_of_priceAct hact)
  by_cases turns : ∃ i l, c.prices[i]? = some l ∧ m = .turnPrice i
  · obtain ⟨i, l, hl, rfl⟩ := turns
    obtain ⟨hi, hmine⟩ := tied i l hl
    have hact : c.priceAct i l (.turnPrice i) = c.priceTurn l := if_pos rfl
    have hl' := getElem?_prices_next hl (.turnPrice i)
    have alone : ∀ j, j ≠ i → Stream.befalls Stream.produced (c.price? j)
        ((c.next (.turnPrice i)).price? j) = 0 :=
      fun j hj => others j fun _ _ heq => hj (Move.turnPrice.inj heq).symm
    refine (updatesOf_turnPrice hl (kept.prices i l hl) role "price").trans ?_
    rw [Stream.sum_befalls hi alone, price?, price?, hl, hl', hact]
    by_cases hhome : l.home? = some role
    · rw [if_pos ⟨rfl, hhome⟩, if_pos (hmine.mpr hhome)]
      rfl
    · rw [if_neg fun h => hhome h.2, if_neg fun h => hhome (hmine.mp h)]
      rfl
  · have quiet : ∀ i l, c.prices[i]? = some l → m ≠ .turnPrice i :=
      fun i l hl heq => turns ⟨i, l, hl, heq⟩
    rw [Finset.sum_eq_zero fun i _ => by rw [others i (quiet i), ite_self]]
    refine (updatesOf_next_of_quiet kept m role "price" (fun _ => quiet) ?_).trans
      (UInt64.add_zero _).symm
    exact fun h => absurd h (by decide)

/-- The balances that are accepted in a move, each counted where its source says. -/
theorem updatesOf_balance_next (kept : c.Bookkept) (m : Move) (role : Role) {n : Nat}
    {mine : Nat → Bool}
    (tied : ∀ (k : Nat) (b : BalanceLine), c.balances[k]? = some b →
      k < n ∧ (mine k ↔ b.source.home = role)) :
    (c.next m).world.updatesOf role "wallet" = c.world.updatesOf role "wallet" + UInt64.ofNat
      (∑ k ∈ Finset.range n, if mine k then
        Stream.befalls Stream.accepted (c.balance? k) ((c.next m).balance? k) else 0) := by
  have others : ∀ k, (∀ b, c.balances[k]? = some b → m ≠ .turnBalance k) →
      Stream.befalls Stream.accepted (c.balance? k) ((c.next m).balance? k) = 0 := by
    intro k hm
    refine befalls_balance _ c k m fun b hb => ?_
    exact Stream.accepted_after_of_ne_turn _ _ fun w hact =>
      hm b hb (eq_turnBalance_of_balanceAct hact)
  by_cases turns : ∃ k b, c.balances[k]? = some b ∧ m = .turnBalance k
  · obtain ⟨k, b, hb, rfl⟩ := turns
    obtain ⟨hk, hmine⟩ := tied k b hb
    have hact : c.balanceAct k b (.turnBalance k) = c.balanceTurn b := if_pos rfl
    have hb' := getElem?_balances_next hb (.turnBalance k)
    have alone : ∀ j, j ≠ k → Stream.befalls Stream.accepted (c.balance? j)
        ((c.next (.turnBalance k)).balance? j) = 0 :=
      fun j hj => others j fun _ _ heq => hj (Move.turnBalance.inj heq).symm
    refine (updatesOf_turnBalance hb (kept.balances k b hb) role "wallet").trans ?_
    rw [Stream.sum_befalls hk alone, balance?, balance?, hb, hb', hact]
    by_cases hhome : b.source.home = role
    · rw [if_pos ⟨rfl, hhome⟩, if_pos (hmine.mpr hhome)]
      rfl
    · rw [if_neg fun h => hhome h.2, if_neg fun h => hhome (hmine.mp h)]
      rfl
  · have quiet : ∀ k b, c.balances[k]? = some b → m ≠ .turnBalance k :=
      fun k b hb heq => turns ⟨k, b, hb, heq⟩
    rw [Finset.sum_eq_zero fun k _ => by rw [others k (quiet k), ite_self]]
    refine (updatesOf_next_of_quiet kept m role "wallet" ?_ fun _ => quiet).trans
      (UInt64.add_zero _).symm
    exact fun h => absurd h (by decide)

end Moves

/-! ## What a run counts -/

/-- Whether the metrics of a process count the stream of prices at a place. -/
def countsPrice (c : Chain) (role : Role) (i : Nat) : Bool :=
  (c.prices[i]?).any (·.home? = some role)

theorem countsPrice_iff {c : Chain} {role : Role} {i : Nat} : c.countsPrice role i = true ↔
    ∃ l, c.prices[i]? = some l ∧ l.home? = some role := by
  cases hl : c.prices[i]? <;> simp [countsPrice, hl]

def countsBalance (c : Chain) (role : Role) (k : Nat) : Bool :=
  (c.balances[k]?).any (·.source.home = role)

/-- How many values some moves bring about, in all streams of prices that a process counts. -/
def priceValues (event : Stream Pace PriceQuote → Stream Pace PriceQuote →
    Option (Item PriceQuote)) (c : Chain) (role : Role) (moves : List Move) : Nat :=
  ∑ i ∈ Finset.range (c.run moves).2.prices.length,
    if (c.run moves).2.countsPrice role i then Stream.values event (c.priceStates i moves) else 0

def balanceValues (event : Stream Unit Balance → Stream Unit Balance → Option (Item Balance))
    (c : Chain) (role : Role) (moves : List Move) : Nat :=
  ∑ k ∈ Finset.range (c.run moves).2.balances.length,
    if (c.run moves).2.countsBalance role k then Stream.values event (c.balanceStates k moves)
    else 0

/-- How many producers of prices hold a sample that waits for the slot. -/
def heldPrices (c : Chain) (role : Role) : Nat :=
  ∑ i ∈ Finset.range c.prices.length, if c.countsPrice role i then
    ((c.price? i).bind (·.task.inHand?)).toList.countP Except.isOk else 0

section Runs

variable (wiring : Wiring) (home : Role) (moves : List Move) (role : Role)

theorem bookkept_start : (start wiring home).Bookkept :=
  ⟨fun i l hl => by simp [start] at hl, fun k b hb => by simp [start] at hb⟩

theorem updatesOf_start (service : String) :
    (start wiring home).world.updatesOf role service = 0 := rfl

theorem updatesOf_price_run :
    ((start wiring home).run moves).2.world.updatesOf role "price" =
      UInt64.ofNat ((start wiring home).priceValues Stream.produced role moves) := by
  unfold priceValues
  rw [run_snd]
  generalize hlast : moves.foldl next (start wiring home) = last
  -- Which streams count, and how many there are, is read off the end of the run.
  have tied : ∀ (i : Nat) (l : PriceLine), last.prices[i]? = some l →
      i < last.prices.length ∧ (last.countsPrice role i = true ↔ l.home? = some role) := by
    intro i l hl
    refine ⟨(List.getElem?_eq_some_iff.mp hl).1, ?_⟩
    simp [countsPrice_iff, hl]
  have counted := Stream.counted_run next (fun i (c : Chain) => c.price? i)
    (fun c => c.world.updatesOf role "price") (fun _ m kept => Bookkept.next kept m)
    (fun c m tied i l hl => tied i _ (getElem?_prices_next hl m)) ?_
    (fun _ m kept tied => updatesOf_price_next kept m role tied) (bookkept_start wiring home)
    moves (by rw [hlast]; exact tied)
  · rw [hlast, updatesOf_start, UInt64.zero_add] at counted
    exact counted
  · exact fun i c m st hst => price?_next hst m

theorem updatesOf_balance_run :
    ((start wiring home).run moves).2.world.updatesOf role "wallet" =
      UInt64.ofNat ((start wiring home).balanceValues Stream.accepted role moves) := by
  unfold balanceValues
  rw [run_snd]
  generalize hlast : moves.foldl next (start wiring home) = last
  have tied : ∀ (k : Nat) (b : BalanceLine), last.balances[k]? = some b →
      k < last.balances.length ∧ (last.countsBalance role k = true ↔ b.source.home = role) := by
    intro k b hb
    refine ⟨(List.getElem?_eq_some_iff.mp hb).1, ?_⟩
    simp [countsBalance, hb]
  have counted := Stream.counted_run next (fun k (c : Chain) => c.balance? k)
    (fun c => c.world.updatesOf role "wallet") (fun _ m kept => Bookkept.next kept m)
    (fun c m tied k b hb => tied k _ (getElem?_balances_next hb m)) ?_
    (fun _ m kept tied => updatesOf_balance_next kept m role tied) (bookkept_start wiring home)
    moves (by rw [hlast]; exact tied)
  · rw [hlast, updatesOf_start, UInt64.zero_add] at counted
    exact counted
  · exact fun k c m st hst => balance?_next hst m

variable {wiring home moves role}

/-- Where a stream of prices stands that some moves left, each value that its producer made was
accepted, was given up or is still held. -/
theorem values_produced {i : Nat} {last : Stream Pace PriceQuote}
    (hlast : ((start wiring home).run moves).2.price? i = some last) :
    Stream.values Stream.produced ((start wiring home).priceStates i moves) =
      Stream.values Stream.accepted ((start wiring home).priceStates i moves) +
        Stream.values Stream.discarded ((start wiring home).priceStates i moves) +
          last.task.inHand?.toList.countP Except.isOk := by
  have chain := (line_price i).isChain (start wiring home) moves
  have begins := head?_course_of_none (line_price i).begins
    (rfl : (start wiring home).price? i = none) moves
  have ends : ((start wiring home).priceStates i moves).getLast? = some last :=
    getLast?_course (by rwa [run_snd] at hlast)
  change ((start wiring home).priceStates i moves).IsChain _ at chain
  change ∀ x ∈ ((start wiring home).priceStates i moves).head?, _ at begins
  cases hstates : (start wiring home).priceStates i moves with
  | nil => rw [hstates] at ends; cases ends
  | cons st l =>
    rw [hstates] at chain begins ends
    have made := Stream.countP_produced chain ends Except.isOk
    rw [(begins st rfl).2] at made
    exact made

theorem priceValues_produced :
    (start wiring home).priceValues Stream.produced role moves =
      (start wiring home).priceValues Stream.accepted role moves +
        (start wiring home).priceValues Stream.discarded role moves +
          ((start wiring home).run moves).2.heldPrices role := by
  unfold priceValues heldPrices
  rw [← Finset.sum_add_distrib, ← Finset.sum_add_distrib]
  refine Finset.sum_congr rfl fun i _ => ?_
  cases hcounts : ((start wiring home).run moves).2.countsPrice role i with
  | false => rfl
  | true =>
    obtain ⟨l, hl, -⟩ := countsPrice_iff.mp hcounts
    have hst : ((start wiring home).run moves).2.price? i = some l.stream :=
      price?_eq_some.mpr ⟨l, hl, rfl⟩
    rw [hst]
    exact values_produced hst

theorem gaveUp_of_discards {i : Nat}
    (h : Stream.history Stream.discarded ((start wiring home).priceStates i moves) ≠ []) :
    ∃ st, ((start wiring home).run moves).2.price? i = some st ∧ st.GaveUp := by
  have lives : ((start wiring home).priceStates i moves).IsChain Stream.Lives := by
    refine course_isChain (fun _ => True) (fun _ _ h => h) ?_ trivial moves
    rintro c m st - hst
    obtain ⟨l, hl, rfl⟩ := price?_eq_some.mp hst
    exact ⟨_, price?_eq_some.mpr ⟨_, getElem?_prices_next hl m, rfl⟩, _, _, rfl⟩
  cases hlast : (moves.foldl next (start wiring home)).price? i with
  | none =>
    refine absurd ?_ h
    have nothing : (start wiring home).priceStates i moves = [] := by
      refine course_eq_nil ?_ hlast
      exact fun c m st hst => price?_next hst m
    rw [nothing]
    rfl
  | some st =>
    have ends : ((start wiring home).priceStates i moves).getLast? = some st :=
      getLast?_course hlast
    refine ⟨st, by rw [run_snd, hlast], ?_⟩
    cases hstates : (start wiring home).priceStates i moves with
    | nil => rw [hstates] at h; exact absurd rfl h
    | cons x l =>
      rw [hstates] at lives h ends
      exact Stream.gaveUp_of_history lives h ends

end Runs

/-- How the updates that a process counted over some moves go with what its streams pushed. -/
structure CountsUpdates (c : Chain) (moves : List Move) (role : Role) : Prop where
  /-- A balance counts exactly if it was accepted; the failure at the end does not. -/
  balances : (c.run moves).2.world.updatesOf role "wallet" =
    UInt64.ofNat (c.balanceValues Stream.accepted role moves)
  /-- A price counts from its sample on, also while it waits and if it is given up then. -/
  prices : (c.run moves).2.world.updatesOf role "price" =
    UInt64.ofNat (c.priceValues Stream.accepted role moves +
      c.priceValues Stream.discarded role moves + (c.run moves).2.heldPrices role)
  closed : (∀ (i : Nat) (l : PriceLine), (c.run moves).2.prices[i]? = some l →
      l.home? = some role → l.stream.hasStopped = true) →
    (c.run moves).2.world.updatesOf role "price" =
      UInt64.ofNat (c.priceValues Stream.accepted role moves +
        c.priceValues Stream.discarded role moves)
  /-- A stream gives up one price at most. -/
  gives_up_once : ∀ i, (Stream.history Stream.discarded (c.priceStates i moves)).length ≤ 1
  gave_up : ∀ i, Stream.history Stream.discarded (c.priceStates i moves) ≠ [] →
    ∃ st, (c.run moves).2.price? i = some st ∧ st.GaveUp

theorem updates_are_counted (wiring : Wiring) (home : Role) (moves : List Move) (role : Role) :
    (start wiring home).CountsUpdates moves role where
  balances := updatesOf_balance_run wiring home moves role
  prices := by rw [updatesOf_price_run, priceValues_produced]
  closed := by
    intro stopped
    have unheld : ((start wiring home).run moves).2.heldPrices role = 0 := by
      refine Finset.sum_eq_zero fun i _ => ?_
      split_ifs with hcounts
      · obtain ⟨l, hl, hhome⟩ := countsPrice_iff.mp hcounts
        obtain ⟨reason, htask⟩ := (Stream.hasStopped_iff _).mp (stopped i l hl hhome)
        simp [price?, hl, htask]
      · rfl
    rw [updatesOf_price_run, priceValues_produced, unheld, Nat.add_zero]
  gives_up_once := by
    intro i
    have chain := (line_price i).isChain (start wiring home) moves
    change ((start wiring home).priceStates i moves).IsChain _ at chain
    cases hstates : (start wiring home).priceStates i moves with
    | nil => exact Nat.zero_le 1
    | cons st l => exact Stream.length_discarded_le (hstates ▸ chain)
  gave_up i h := gaveUp_of_discards h

/-- A stream of prices whose producer holds its second sample when the caller cancels. -/
def cancelledInHand : List Move :=
  [.watchPrice (Metadata.credentials "t" .normal) none,
    .pass 1000, .turnPrice 0, .turnPrice 0, .pass 1000, .turnPrice 0,
    .cancel 0, .turnPrice 0, .turnPrice 0]

theorem second_sample_is_given_up :
    (start sixPrices .price).CountsUpdates cancelledInHand .price ∧
      ((start sixPrices .price).run cancelledInHand).2.world.updatesOf .price "price" = 2 ∧
      Stream.history Stream.accepted ((start sixPrices .price).priceStates 0 cancelledInHand) =
        [.ok ⟨10⟩] ∧
      Stream.history Stream.discarded ((start sixPrices .price).priceStates 0 cancelledInHand) =
        [.ok ⟨20⟩] := by
  refine ⟨updates_are_counted sixPrices .price cancelledInHand .price, ?_, ?_, ?_⟩
  · cbv
  · cbv
  · cbv

/-- Not all that counts was pushed: the price that is given up counts as well. -/
theorem updates_exceed_what_was_pushed :
    ¬ ∀ (wiring : Wiring) (home : Role) (moves : List Move) (role : Role),
      ((∀ (i : Nat) (l : PriceLine), ((start wiring home).run moves).2.prices[i]? = some l →
          l.home? = some role → l.stream.hasStopped = true) →
        ((start wiring home).run moves).2.world.updatesOf role "price" =
          UInt64.ofNat ((start wiring home).priceValues Stream.accepted role moves)) ∧
      ((∀ (k : Nat) (b : BalanceLine), ((start wiring home).run moves).2.balances[k]? = some b →
          b.source.home = role → b.stream.hasStopped = true) →
        ((start wiring home).run moves).2.world.updatesOf role "wallet" =
          UInt64.ofNat ((start wiring home).balanceValues Stream.accepted role moves)) := by
  intro counts
  have stopped : ((start sixPrices .price).run cancelledInHand).2.prices.all
      (·.stream.hasStopped) = true := by cbv
  have counted : ((start sixPrices .price).run cancelledInHand).2.world.updatesOf .price
      "price" = 2 := by cbv
  have pushed : (start sixPrices .price).priceValues Stream.accepted .price cancelledInHand =
      1 := by cbv
  have equal := (counts sixPrices .price cancelledInHand .price).1 fun i l hl _ =>
    List.all_eq_true.mp stopped l (List.mem_of_getElem? hl)
  rw [counted, pushed] at equal
  exact absurd equal (by decide)

end Chain

end WalletWatch
