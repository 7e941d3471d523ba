import Mathlib
import WalletWatch.Proofs.Chain.Backlog
import WalletWatch.Proofs.Chain.Release
import WalletWatch.Proofs.Stream.Ticker

set_option autoImplicit false

/-!
# The cadence of a stream of prices

A stream over the feed takes a sample at each tick of its ticker. Whenever its producer and its
consumer take their turns, no sample comes early and no burst makes up for lost time; where nobody
is late, each sample comes at the very instant at which it is due. The period is that of the tier
that was asked for.
-/

namespace WalletWatch

/-! ## One stream -/

/-- A producer of prices that takes a sample at each tick. Once it has left its loop, its context is
cancelled or its consumer is gone. -/
inductive Paced (home : Role) (t : Ticker) (cancelled : Bool) (st : Stream Pace PriceQuote) : Prop
  | waits (htask : st.task = .working (.ticking home t))
  | sends (item : Item PriceQuote) (htask : st.task = .sending item (some (.ticking home t)))
  | unwanted (hend : st.task.EndsBy .cancelled) (hc : cancelled = true)
  | unheard (hend : st.task.EndsBy .receiverGone) (hl : st.listening = false)

namespace Paced

variable {home : Role} {t : Ticker} {cancelled : Bool} {st : Stream Pace PriceQuote}

theorem mono (h : Paced home t cancelled st) {cancelled' : Bool}
    (stays : cancelled = true → cancelled' = true) : Paced home t cancelled' st := by
  cases h with
  | waits htask => exact .waits htask
  | sends item htask => exact .sends item htask
  | unwanted hend hc => exact .unwanted hend (stays hc)
  | unheard hend hl => exact .unheard hend hl

theorem resumes (h : Paced home t cancelled st) : st.Resumes Pace.IsTicking := by
  intro pace hpace
  cases h with
  | waits htask => exact ⟨home, t, by simpa [htask, eq_comm] using hpace⟩
  | sends item htask => exact ⟨home, t, by simpa [htask, eq_comm] using hpace⟩
  | unwanted hend hc => rcases hend with hend | hend <;> simp [hend] at hpace
  | unheard hend hl => rcases hend with hend | hend <;> simp [hend] at hpace

theorem waits_of_working (h : Paced home t cancelled st) {pace : Pace}
    (htask : st.task = .working pace) : st.task = .working (.ticking home t) := by
  cases h with
  | waits htask' => exact htask'
  | sends item htask' => cases htask.symm.trans htask'
  | unwanted hend hc => rcases hend with hend | hend <;> cases htask.symm.trans hend
  | unheard hend hl => rcases hend with hend | hend <;> cases htask.symm.trans hend

theorem endsBy_cases (h : Paced home t cancelled st) {reason : StreamEnd}
    (hend : st.task.EndsBy reason) : (reason = .cancelled ∧ cancelled = true) ∨
      (reason = .receiverGone ∧ st.listening = false) := by
  cases h with
  | waits htask => rcases hend with hend | hend <;> cases htask.symm.trans hend
  | sends item htask => rcases hend with hend | hend <;> cases htask.symm.trans hend
  | unwanted hend' hc =>
    refine .inl ⟨?_, hc⟩
    rcases hend with hend | hend <;> rcases hend' with hend' | hend' <;>
      cases hend.symm.trans hend' <;> rfl
  | unheard hend' hl =>
    refine .inr ⟨?_, hl⟩
    rcases hend with hend | hend <;> rcases hend' with hend' | hend' <;>
      cases hend.symm.trans hend' <;> rfl

theorem after_of_ne_turn (h : Paced home t cancelled st) {a : Stream.Act Pace PriceQuote}
    (ha : ∀ w, a ≠ .turn w) : Paced home t cancelled (st.after cancelled a) := by
  have same : (st.after cancelled a).task = st.task := Stream.task_after cancelled ha
  cases h with
  | waits htask => exact .waits (same.trans htask)
  | sends item htask => exact .sends item (same.trans htask)
  | unwanted hend hc => exact .unwanted (same ▸ hend) hc
  | unheard hend hl =>
    refine .unheard (same ▸ hend) ?_
    cases a with
    | hangUp => rfl
    | _ => exact (Stream.after_listening st cancelled (by simp)).trans hl

/-- In its own turn the producer takes a sample if a tick is due and it is not sending; otherwise it
waits for the same tick as before. -/
theorem after_turn (h : Paced home t cancelled st) (feed : Nat → Int64) (now : Millis) (w : World)
    {st' : Stream Pace PriceQuote}
    (acted : st' = st.after cancelled (.turn (st.intent (Pace.work feed now cancelled) w))) :
    (st.produced st' = none ∧ Paced home t cancelled st') ∨
      (st.produced st').isSome ∧ ∃ t', t.take? now = some t' ∧ Paced home t' cancelled st' := by
  cases h with
  | waits htask =>
    simp only [Stream.intent, htask, Stream.after_working cancelled _ htask, Pace.work] at acted
    cases hc : cancelled with
    | true =>
      rw [acted, hc]
      exact .inl ⟨by simp [Stream.produced, htask, Stream.follow], .unwanted (.inl rfl) rfl⟩
    | false =>
      rw [acted, hc]
      cases htake : t.take? now with
      | none => exact .inl ⟨by simp [Stream.produced, htask, Stream.follow], .waits htask⟩
      | some t' =>
        exact .inr ⟨by simp [Stream.produced, htask, Stream.follow], t', rfl, .sends _ rfl⟩
  | sends item htask =>
    -- As long as an item waits to be sent, no tick is taken, however many are due.
    rw [Stream.after_sending cancelled _ htask] at acted
    refine .inl ⟨by simp [Stream.produced, htask], ?_⟩
    rw [acted]
    unfold Stream.trySend
    split_ifs with hc hl hs
    · exact .unwanted (.inl rfl) hc
    · exact .unheard (.inl rfl) (by simpa using hl)
    · exact .sends item htask
    · exact .waits rfl
  | unwanted hend hc =>
    rw [acted]
    exact .inl ⟨Stream.produced_after_turn_of_ne_working
      (fun s hs => by rcases hend with hend | hend <;> cases hs.symm.trans hend) _ _,
      .unwanted (Stream.endsBy_after hend _ _) hc⟩
  | unheard hend hl =>
    rw [acted]
    exact .inl ⟨Stream.produced_after_turn_of_ne_working
      (fun s hs => by rcases hend with hend | hend <;> cases hs.symm.trans hend) _ _,
      .unheard (Stream.endsBy_after hend _ _)
        ((Stream.after_listening st cancelled (by simp)).trans hl)⟩

end Paced

theorem Stream.Step.slot_of_parked {σ α : Type} {may : Work σ α → Prop} {cancelled : Bool}
    {st st' : Stream σ α} (h : Stream.Step may cancelled st st')
    (empty : st.task.Parked → st.slot = none) (idle : st.produced st' = none)
    (parked : st'.task.Parked) : st'.slot = none := by
  obtain ⟨item, next, htask'⟩ := parked
  cases h with
  | idle => exact empty ⟨item, next, htask'⟩
  | decided s w htask => simp [Stream.produced, htask, htask'] at idle
  | lost held rest reason htask => cases htask'
  | sent held rest htask => cases rest <;> cases htask'
  | ended reason htask => cases htask'
  | taken => rfl
  | hungUp => rfl

/-- What a producer makes does not pass the slot in the same step. -/
theorem Stream.Step.slot_of_produced {σ α : Type} {may : Work σ α → Prop} {cancelled : Bool}
    {st st' : Stream σ α} (h : Stream.Step may cancelled st st')
    (made : (st.produced st').isSome = true) :
    (∃ s, st.task = .working s) ∧ st'.slot = st.slot := by
  cases h with
  | decided s w htask => exact ⟨⟨s, htask⟩, Stream.follow_slot st w⟩
  | lost item next reason htask => simp [Stream.produced, htask] at made
  | sent item next htask => simp [Stream.produced, htask] at made
  | ended reason htask => simp [Stream.produced] at made
  | _ => simp [Stream.produced_of_task_eq] at made

/-! ## The tier that was asked for -/

/-- Whatever the account service says, whoever is let through asked for the tier it is served at. -/
theorem Validator.requested_of_validate {v : Validator} {inbound : Metadata} {w : World}
    {access : Access} (h : ((v.validate inbound).perform w).1 = .ok access) :
    requested? inbound = some access.requested := by
  rw [perform_validate] at h
  by_cases presents : ∃ token requested, Presents inbound token requested
  · obtain ⟨token, requested, presents⟩ := presents
    rw [check_of_presents v.resolver presents, perform_ask] at h
    have asked := ((presents_iff inbound token requested).mp presents).2
    cases said : ((v.resolver.resolve ⟨⟨token⟩, outbound inbound⟩).perform w).1 with
    | error f =>
      rw [said] at h
      cases h
    | ok answer =>
      rw [said] at h
      obtain ⟨actual, -, -, rfl⟩ :=
        (ruling_eq_ok_iff token requested answer.payload access).mp h
      exact asked
  · obtain ⟨f, -, rejected⟩ := perform_check_of_absent v.resolver
      (fun token requested hp => presents ⟨token, requested, hp⟩) w
    rw [rejected] at h
    cases h

theorem Validator.requested_forward (access : Access) :
    requested? access.forward = some access.requested :=
  (requested?_eq_some_iff _ _).mpr (Metadata.get?_credentials_membership _ _)

/-- A stream of the price service has the cadence of the tier that was asked for, whatever the
caller is entitled to. -/
theorem PriceService.feed_of_watch {s : PriceService} {request : Envelope PriceRequest} {w : World}
    {e : Envelope PriceSource} (h : ((s.watch request).perform w).1 = .ok e) :
    ∃ tier, Validator.requested? request.metadata = some tier ∧
      e.payload = .feed s.home tier.cadence := by
  obtain ⟨access, w₁, accepted, h⟩ := Call.perform_bind_eq_ok h
  obtain ⟨-, w₂, -, h⟩ := Call.perform_bind_eq_ok h
  obtain ⟨-, w₃, -, h⟩ := Call.perform_bind_eq_ok h
  obtain ⟨access', w₄, validated, h'⟩ := Call.perform_bind_eq_ok (congrArg Prod.fst accepted)
  obtain ⟨-, w₅, -, h'⟩ := Call.perform_bind_eq_ok h'
  obtain rfl : access' = access := Except.ok.inj h'
  obtain rfl := Except.ok.inj h
  exact ⟨access'.requested, Validator.requested_of_validate (congrArg Prod.fst validated), rfl⟩

theorem PriceService.feed_of_recorded_watch {s : PriceService} {request : Envelope PriceRequest}
    {w : World} {e : Envelope PriceSource}
    (h : ((s.api.recorded.watch request).perform w).1 = .ok e) :
    ∃ tier, Validator.requested? request.metadata = some tier ∧
      e.payload = .feed s.home tier.cadence := by
  obtain ⟨-, w₁, -, h⟩ := Call.perform_bind_eq_ok h
  exact s.feed_of_watch h

/-- So has the stream that the wallet service asks for in the name of its caller. -/
theorem WalletService.feed_of_watch {s : WalletService} {p : PriceService}
    (wired : s.prices = p.api ∨ s.prices = p.api.recorded) {request : Envelope BalanceRequest}
    {w : World} {e : Envelope BalanceSource} (h : ((s.watch request).perform w).1 = .ok e) :
    ∃ tier, Validator.requested? request.metadata = some tier ∧
      e.payload.prices = .feed p.home tier.cadence := by
  obtain ⟨access, w₁, validated, h⟩ := Call.perform_bind_eq_ok h
  obtain ⟨opened, w₂, asked, h⟩ := Call.perform_bind_eq_ok h
  obtain ⟨-, w₃, -, h⟩ := Call.perform_bind_eq_ok h
  obtain ⟨-, w₄, -, h⟩ := Call.perform_bind_eq_ok h
  obtain ⟨-, w₅, -, h⟩ := Call.perform_bind_eq_ok h
  obtain rfl := Except.ok.inj h
  refine ⟨access.requested, Validator.requested_of_validate (congrArg Prod.fst validated), ?_⟩
  have given : ((s.prices.watch ⟨{}, access.forward⟩).perform w₁).1 = .ok opened := by
    have wrapped := congrArg Prod.fst asked
    rw [Call.perform_within] at wrapped
    cases hr : ((s.prices.watch ⟨{}, access.forward⟩).perform w₁).1 with
    | error f => simp [hr, Except.mapError] at wrapped
    | ok e => simpa [hr, Except.mapError] using wrapped
  have forwarded := Validator.requested_forward access
  rcases wired with wired | wired
  · rw [wired] at given
    obtain ⟨tier, again, feed⟩ := p.feed_of_watch given
    cases forwarded.symm.trans again
    exact feed
  · rw [wired] at given
    obtain ⟨tier, again, feed⟩ := p.feed_of_recorded_watch given
    cases forwarded.symm.trans again
    exact feed

namespace Chain

variable {c : Chain} {i : Nat} {home : Role} {t : Ticker}

/-! ## Ticks along a run -/

/-- The instants at which some moves take a sample for a stream of prices. -/
def sampleInstants (c : Chain) (i : Nat) (moves : List Move) : List Millis :=
  along next (fun c m => (c.sampled? i m).map fun _ => c.now) c moves

/-- A stream of prices whose next sample is due at the tick of a ticker. -/
def Ticks (c : Chain) (i : Nat) (home : Role) (t : Ticker) : Prop :=
  ∃ l, c.prices[i]? = some l ∧ Paced home t (l.stream.isCancelled c.now c.signals) l.stream

theorem sampleInstants_cons (m : Move) (rest : List Move) : c.sampleInstants i (m :: rest) =
    ((c.sampled? i m).map fun _ => c.now).toList ++ (c.next m).sampleInstants i rest := rfl

/-- What one move does to the ticks of a stream: it takes a sample at a tick that is due, or it
takes none and the next tick stays where it is. -/
theorem Ticks.next (h : c.Ticks i home t) (m : Move) :
    (c.sampled? i m = none ∧ (c.next m).Ticks i home t) ∨
      (c.sampled? i m).isSome ∧ ∃ t', t.take? c.now = some t' ∧ (c.next m).Ticks i home t' := by
  obtain ⟨l, hl, paced⟩ := h
  have there := getElem?_prices_next hl m
  have told := produced_price hl paced.resumes m
  -- What ended a producer goes on holding: nothing that is cancelled is ever not.
  have stays : l.stream.isCancelled c.now c.signals = true →
      (l.stream.after (l.stream.isCancelled c.now c.signals) (c.priceAct i l m)).isCancelled
        (c.next m).now (c.next m).signals = true := by
    intro hc
    have later := isCancelled_next l.stream.context m hc
    rwa [← Stream.after_context l.stream (l.stream.isCancelled c.now c.signals)
      (c.priceAct i l m)] at later
  by_cases hact : ∃ w, c.priceAct i l m = .turn w
  · obtain ⟨w, hact⟩ := hact
    have acted := congrArg (l.stream.after (l.stream.isCancelled c.now c.signals))
      (hact.trans (congrArg Stream.Act.turn (eq_intent_of_priceAct hact)))
    have become := paced.after_turn c.wiring.feed c.now c.world acted
    rw [told] at become
    rcases become with ⟨idle, after⟩ | ⟨took, t', taken, after⟩
    · exact .inl ⟨by simpa using idle, _, there, after.mono stays⟩
    · exact .inr ⟨by simpa using took, t', taken, _, there, after.mono stays⟩
  · have hact' : ∀ w, c.priceAct i l m ≠ .turn w := fun w hw => hact ⟨w, hw⟩
    rw [Stream.produced_after_of_ne_turn _ _ hact'] at told
    exact .inl ⟨by simpa using told.symm, _, there, (paced.after_of_ne_turn hact').mono stays⟩

theorem Ticks.run (h : c.Ticks i home t) (moves : List Move) :
    ∃ u, t.takeAll? (c.sampleInstants i moves) = some u ∧ (c.run moves).2.Ticks i home u := by
  induction moves generalizing c t with
  | nil => exact ⟨t, rfl, h⟩
  | cons m rest ih =>
    rw [sampleInstants_cons]
    rcases h.next m with ⟨idle, after⟩ | ⟨took, t', taken, after⟩
    · rw [idle]
      exact ih after
    · obtain ⟨s, hs⟩ := Option.isSome_iff_exists.mp took
      obtain ⟨u, later, last⟩ := ih after
      rw [hs]
      exact ⟨u, Ticker.takeAll?_cons_eq_some.mpr ⟨t', taken, later⟩, last⟩

theorem now_le_run (c : Chain) (moves : List Move) : c.now ≤ (c.run moves).2.now :=
  run_keeps (fun c' => c.now ≤ c'.now) (fun c' m h => Nat.le_trans h (c'.now_le_next m))
    (Nat.le_refl _) moves

theorem sampleInstants_le_now (c : Chain) (i : Nat) (moves : List Move) :
    ∀ x ∈ c.sampleInstants i moves, x ≤ (c.run moves).2.now := by
  induction moves generalizing c with
  | nil => simp [sampleInstants, along]
  | cons m rest ih =>
    intro x hx
    rw [sampleInstants_cons, List.mem_append] at hx
    rcases hx with hx | hx
    · have first : x = c.now := by
        cases hs : c.sampled? i m <;> simp [hs] at hx
        exact hx
      exact first ▸ c.now_le_run (m :: rest)
    · exact ih (c.next m) x hx

/-! ## Virtual time -/

/-- Whether each move of a run is as it should be, in the chain in which it is made. -/
def throughout (p : Chain → Move → Bool) : Chain → List Move → Bool
  | _, [] => true
  | c, m :: rest => p c m && throughout p (c.next m) rest

/-- Whether time passes only once no producer can take a step, and not beyond the next instant at
which one of them wakes up. -/
def inVirtualTime (c : Chain) : Move → Bool
  | .pass length => (Simulation.turn c).isNone &&
      (Simulation.alarms c).all fun a => a ≤ c.now || c.now + length ≤ a
  | _ => true

/-- Whether the item of a stream of prices is taken before the next tick is due. -/
def takenInTime (c : Chain) (i : Nat) : Bool :=
  (c.price? i).all fun st => match st.task with
    | .working (.ticking _ t) => c.now < t.due || st.slot.isNone
    | _ => true

theorem throughout_cons {p : Chain → Move → Bool} {m : Move} {rest : List Move}
    (h : c.throughout p (m :: rest) = true) : p c m = true ∧ (c.next m).throughout p rest = true :=
  Bool.and_eq_true_iff.mp h

theorem inVirtualTime_pass {length : Millis} (h : c.inVirtualTime (.pass length) = true) :
    c.AtRest ∧ ∀ a ∈ Simulation.alarms c, c.now < a → c.now + length ≤ a := by
  obtain ⟨rest, alarms⟩ := Bool.and_eq_true_iff.mp h
  refine ⟨atRest_iff.mpr (Option.isNone_iff_eq_none.mp rest), fun a ha ahead => ?_⟩
  have bound := List.all_eq_true.mp alarms a ha
  simp only [Bool.or_eq_true, decide_eq_true_eq] at bound
  exact bound.resolve_left (Nat.not_le_of_lt ahead)

theorem slot_of_takenInTime {l : PriceLine} (hl : c.prices[i]? = some l)
    (h : c.takenInTime i = true) (htask : l.stream.task = .working (.ticking home t))
    (ready : t.due ≤ c.now) : l.stream.slot = none := by
  have there : c.price? i = some l.stream := price?_eq_some.mpr ⟨l, hl, rfl⟩
  simp only [takenInTime, there, Option.all_some, htask, Bool.or_eq_true, decide_eq_true_eq] at h
  exact Option.isNone_iff_eq_none.mp (h.resolve_left (Nat.not_lt_of_le ready))

/-- A stream of prices that is not late for its next tick. -/
structure OnTime (c : Chain) (i : Nat) (home : Role) (t : Ticker) : Prop where
  ticks : c.Ticks i home t
  due : ∀ l, c.prices[i]? = some l → l.stream.task.Active → c.now ≤ t.due
  empty : ∀ l, c.prices[i]? = some l → l.stream.task.Parked → l.stream.slot = none

theorem now_turnBalance (c : Chain) (k : Nat) : (c.turnBalance k).2.now = c.now := by
  cases hb : c.balances[k]? with
  | none => rw [turnBalance_of_none hb]
  | some b =>
    by_cases hclosing : ∃ reason, b.stream.task = .closing reason
    · obtain ⟨reason, htask⟩ := hclosing
      rcases turnBalance_closing hb htask with hgo | ⟨-, w, hw⟩
      · obtain ⟨p, hp, ⟨-, heq⟩ | ⟨-, s, -, -, heq⟩⟩ := letGo?_cases hgo
        · rw [heq]
          rfl
        · rw [heq]
      · rw [hw]
        rfl
    · have hopen : ∀ reason, b.stream.task ≠ .closing reason := fun r hr => hclosing ⟨r, hr⟩
      cases hp : c.prices[b.prices]? with
      | none => rw [turnBalance_of_missing hb hopen hp]
      | some p =>
        obtain ⟨w, hw⟩ := turnBalance_snd hb hopen hp
        rw [hw]
        rfl

theorem now_next {m : Move} (hm : ∀ length, m ≠ .pass length) : (c.next m).now = c.now := by
  have prices : ∀ c', c.OnlyPrices c' → c'.now = c.now := by
    rintro c' ⟨lines, w, -, rfl⟩
    rfl
  have balances : ∀ c', c.OnlyBalances c' → c'.now = c.now := by
    rintro c' ⟨lines, w, -, rfl⟩
    rfl
  cases m with
  | pass length => exact absurd rfl (hm length)
  | turnPrice i => exact prices _ (c.onlyPrices_turnPrice i)
  | turnBalance k => exact c.now_turnBalance k
  | receivePrice i =>
    rw [next_receivePrice]
    split_ifs
    · rfl
    · exact prices _ (c.onlyPrices_receivePrice i)
  | receiveBalance k => exact balances _ (c.onlyBalances_receiveBalance k)
  | hangUpPrice i =>
    change (if c.isRead i then c else c.hangUpPrice i).now = c.now
    split_ifs
    · rfl
    · exact prices _ (c.onlyPrices_hangUpPrice i)
  | hangUpBalance k => exact balances _ (c.onlyBalances_hangUpBalance k)
  | releasePrice i =>
    change (if c.isRead i then c else c.releasePrice i).now = c.now
    rcases c.releasePrice_cases i with heq | ⟨_, s, -, -, heq⟩ <;> rw [heq] <;> split_ifs <;> rfl
  | releaseBalance k =>
    change (c.releaseBalance k).now = c.now
    rcases c.releaseBalance_cases k with heq | ⟨_, s, -, -, heq⟩
    · rw [heq]
    · rw [heq]
      rfl
  | cancel s =>
    change (if c.isOwned s then c else c.cancel s).now = c.now
    split_ifs <;> rfl
  | release s =>
    change (if c.isOwned s then c else c.release s).now = c.now
    split_ifs <;> rfl
  | fetchPrice metadata => rfl
  | fetchBalance metadata perAddress => rfl
  | watchPrice metadata timeout? =>
    obtain ⟨w, hw | ⟨source, hw⟩⟩ := c.next_watchPrice metadata timeout? <;> rw [hw] <;> rfl
  | watchBalance metadata perAddress timeout? =>
    obtain ⟨w, hw | ⟨source, hw⟩⟩ := c.next_watchBalance metadata perAddress timeout? <;>
      rw [hw] <;> rfl

namespace OnTime

/-- A stream that is still open in a chain at rest waits for a tick that is yet to come. -/
theorem waits_of_atRest (h : c.OnTime i home t) (rest : c.AtRest) {l : PriceLine}
    (hl : c.prices[i]? = some l) (active : l.stream.task.Active) :
    l.stream.task = .working (.ticking home t) ∧ c.now < t.due := by
  obtain ⟨l', hl', paced⟩ := h.ticks
  cases hl.symm.trans hl'
  have still := rest.1 i
  rw [turnPrice_fst hl] at still
  cases paced with
  | waits htask =>
    refine ⟨htask, ?_⟩
    cases hc : l.stream.isCancelled c.now c.signals with
    | true => simp [Stream.turn, htask, Pace.work, hc, Stream.follow, Turn.moved] at still
    | false =>
      cases htake : t.take? c.now with
      | none => exact Ticker.take?_eq_none_iff.mp htake
      | some t' =>
        simp [Stream.turn, htask, Pace.work, hc, htake, Stream.follow, Turn.moved] at still
  | sends item htask =>
    -- Nothing is in the way of the item, so the producer could go on.
    have room := h.empty l hl ⟨item, _, htask⟩
    simp only [Stream.turn, htask, Stream.trySend, room, Option.isSome_none, Bool.false_eq_true,
      if_false] at still
    split_ifs at still <;> simp [Turn.moved] at still
  | unwanted hend hc => exact absurd hend (active _)
  | unheard hend hl => exact absurd hend (active _)

theorem mem_alarms {l : PriceLine} (hl : c.prices[i]? = some l)
    (htask : l.stream.task = .working (.ticking home t)) : t.due ∈ Simulation.alarms c := by
  refine List.mem_append_left _ (List.mem_flatMap.mpr ⟨l, List.mem_of_getElem? hl, ?_⟩)
  simp [alarmsOf, htask, Pace.alarm?]

theorem pass (h : c.OnTime i home t) {length : Millis}
    (virtual : c.inVirtualTime (.pass length) = true) :
    (c.next (.pass length)).OnTime i home t where
  ticks := by
    rcases h.ticks.next (.pass length) with ⟨-, after⟩ | ⟨took, -⟩
    · exact after
    · simp [sampled?, Move.turnsPrice] at took
  due := by
    intro l hl active
    obtain ⟨rest, alarms⟩ := inVirtualTime_pass virtual
    obtain ⟨htask, ahead⟩ := h.waits_of_atRest rest hl active
    exact alarms _ (mem_alarms hl htask) ahead
  empty := h.empty

/-- In no time what is on time stays on time, and a sample is taken when it is due. -/
theorem next_of_ne_pass (h : c.OnTime i home t) (prompt : c.takenInTime i = true) {m : Move}
    (hm : ∀ length, m ≠ .pass length) :
    (c.sampled? i m = none ∧ (c.next m).OnTime i home t) ∨
      (c.sampled? i m).isSome ∧ c.now = t.due ∧
        (c.next m).OnTime i home ⟨t.due + t.period, t.period⟩ := by
  obtain ⟨l, hl, paced⟩ := h.ticks
  have there := getElem?_prices_next hl m
  have told := produced_price hl paced.resumes m
  have step : Stream.Step (fun _ => True) (l.stream.isCancelled c.now c.signals) l.stream
      (l.stream.after (l.stream.isCancelled c.now c.signals) (c.priceAct i l m)) :=
    Stream.step_after _ fun _ _ _ _ => trivial
  have same : (c.next m).now = c.now := now_next hm
  have active : ∀ l', (c.next m).prices[i]? = some l' → l'.stream.task.Active →
      l.stream.task.Active := by
    intro l' hl' active reason hend
    cases hl'.symm.trans there
    exact active reason (step.endsBy hend)
  rcases h.ticks.next m with ⟨idle, ticks⟩ | ⟨took, t', taken, ticks⟩
  · refine .inl ⟨idle, ticks, fun l' hl' hactive => ?_, fun l' hl' parked => ?_⟩
    · rw [same]
      exact h.due l hl (active l' hl' hactive)
    · cases hl'.symm.trans there
      rw [idle] at told
      exact step.slot_of_parked (h.empty l hl) told parked
  · have made := told.symm ▸ Option.isSome_map.trans took
    obtain ⟨⟨pace, htask⟩, kept⟩ := step.slot_of_produced made
    have waits := paced.waits_of_working htask
    have ready := Ticker.due_le_of_take? taken
    -- The tick is due, and time did not pass it while the producer was open.
    have now : c.now = t.due := by
      refine Nat.le_antisymm (h.due l hl ?_) ready
      exact (Task.active_iff _).mpr (.inl ⟨_, htask⟩)
    rw [now, Ticker.take?_due, Option.some.injEq] at taken
    subst taken
    refine .inr ⟨took, now, ticks, fun l' hl' hactive => ?_, fun l' hl' parked => ?_⟩
    · rw [same, now]
      exact Nat.le_add_right _ _
    · cases hl'.symm.trans there
      exact kept.trans (slot_of_takenInTime hl prompt waits ready)

theorem next (h : c.OnTime i home t) {m : Move} (virtual : c.inVirtualTime m = true)
    (prompt : c.takenInTime i = true) :
    (c.sampled? i m = none ∧ (c.next m).OnTime i home t) ∨
      (c.sampled? i m).isSome ∧ c.now = t.due ∧
        (c.next m).OnTime i home ⟨t.due + t.period, t.period⟩ := by
  by_cases hm : ∃ length, m = .pass length
  · obtain ⟨length, rfl⟩ := hm
    exact .inl ⟨by simp [sampled?, Move.turnsPrice], h.pass virtual⟩
  · exact h.next_of_ne_pass prompt fun length hlength => hm ⟨length, hlength⟩

/-- Where nobody is late, each sample is taken a period behind the one before it. -/
theorem run (h : c.OnTime i home t) {moves : List Move}
    (virtual : c.throughout inVirtualTime moves = true)
    (prompt : c.throughout (fun c _ => c.takenInTime i) moves = true) :
    ∃ k, c.sampleInstants i moves = (List.range k).map (fun n => t.due + n * t.period) ∧
      (c.run moves).2.OnTime i home ⟨t.due + k * t.period, t.period⟩ := by
  induction moves generalizing c t with
  | nil =>
    refine ⟨0, rfl, ?_⟩
    rw [Nat.zero_mul]
    exact h
  | cons m rest ih =>
    obtain ⟨virtual, virtual'⟩ := throughout_cons virtual
    obtain ⟨prompt, prompt'⟩ := throughout_cons prompt
    rw [sampleInstants_cons]
    rcases h.next virtual prompt with ⟨idle, after⟩ | ⟨took, now, after⟩
    · rw [idle]
      exact ih after virtual' prompt'
    · obtain ⟨s, hs⟩ := Option.isSome_iff_exists.mp took
      obtain ⟨k, later, last⟩ := ih after virtual' prompt'
      refine ⟨k + 1, ?_, ?_⟩
      · rw [hs, later, now, List.range_succ_eq_map, List.map_cons, List.map_map]
        simp [Function.comp_def, Nat.succ_mul, Nat.add_assoc, Nat.add_comm]
      · have counted : t.due + (k + 1) * t.period = t.due + t.period + k * t.period := by
          rw [Nat.succ_mul]
          lia
        rw [counted]
        exact last

end OnTime

/-! ## Streams from their opening on -/

/-- What becomes of the samples of a stream of prices that is opened at the instant of a chain,
whoever moves in what order after that. -/
structure Cadenced (c : Chain) (i : Nat) (period : Millis) (moves : List Move) : Prop where
  /-- No sample comes before as many periods have passed as there are samples with it. -/
  not_early : ∀ (n : Nat) (x : Millis), (c.sampleInstants i moves)[n]? = some x →
    c.now + (n + 1) * period ≤ x
  few : 0 < period →
    (c.sampleInstants i moves).length ≤ ((c.run moves).2.now - c.now) / period
  /-- Two samples in a row are a period apart but for a few milliseconds, also where the producer
  could not go on for long. -/
  apart : (c.sampleInstants i moves).IsChain fun x y => x + period ≤ y + Ticker.tolerance
  /-- Where nobody is late, each sample comes when it is due, -/
  punctual : c.throughout inVirtualTime moves = true →
    c.throughout (fun c _ => c.takenInTime i) moves = true →
      ∀ (n : Nat) (x : Millis), (c.sampleInstants i moves)[n]? = some x →
        x = c.now + (n + 1) * period
  /-- and none of those that are due is missing as long as the stream is open. -/
  complete : c.throughout inVirtualTime moves = true →
    c.throughout (fun c _ => c.takenInTime i) moves = true → 0 < period →
      (c.run moves).2.AtRest →
        (∀ l, (c.run moves).2.prices[i]? = some l → l.stream.task.Active) →
          (c.sampleInstants i moves).length = ((c.run moves).2.now - c.now) / period
  /-- The producer leaves its loop only if it is cancelled or its consumer is gone. -/
  ends : ∃ l, (c.run moves).2.prices[i]? = some l ∧ ∀ reason, l.stream.task.EndsBy reason →
    (reason = .cancelled ∧
      l.stream.isCancelled (c.run moves).2.now (c.run moves).2.signals = true) ∨
    (reason = .receiverGone ∧ l.stream.listening = false)

theorem cadenced_of_opened {l : PriceLine} (hl : c.prices[i]? = some l) {period : Millis}
    (htask : l.stream.task = .working (Pace.start c.now (.feed home period))) (moves : List Move) :
    c.Cadenced i period moves := by
  have ticks : c.Ticks i home (Ticker.start c.now period) := ⟨l, hl, .waits htask⟩
  have onTime : c.OnTime i home (Ticker.start c.now period) := by
    refine ⟨ticks, fun l' hl' _ => Nat.le_add_right _ _, fun l' hl' parked => ?_⟩
    obtain ⟨item, next, hsending⟩ := parked
    cases hl'.symm.trans hl
    cases htask.symm.trans hsending
  obtain ⟨u, taken, l', hl', paced⟩ := ticks.run moves
  have period_eq : (Ticker.start c.now period).period = period := rfl
  have first : (Ticker.start c.now period).due = c.now + period := rfl
  have few : 0 < period → (c.sampleInstants i moves).length ≤
      ((c.run moves).2.now - c.now) / period := fun positive =>
    Ticker.length_le_of_takeAll? taken first positive (c.sampleInstants_le_now i moves)
  refine ⟨fun n x hx => ?_, few, Ticker.apart taken, fun virtual prompt n x hx => ?_,
    fun virtual prompt positive rest active => ?_, l', hl', fun _ hend => paced.endsBy_cases hend⟩
  · have later := Ticker.not_early taken hx
    rw [first, period_eq] at later
    rw [Nat.succ_mul]
    lia
  · obtain ⟨k, instants, -⟩ := onTime.run virtual prompt
    rw [instants, List.getElem?_map] at hx
    obtain ⟨m, hm, rfl⟩ := Option.map_eq_some_iff.mp hx
    obtain ⟨-, rfl⟩ := List.getElem?_eq_some_iff.mp hm
    rw [first, period_eq, List.getElem_range, Nat.succ_mul]
    lia
  · obtain ⟨k, instants, last⟩ := onTime.run virtual prompt
    -- The tick behind the last sample is yet to come, so there is no room for one more period.
    obtain ⟨-, ahead⟩ := last.waits_of_atRest rest hl' (active l' hl')
    have counted : (c.sampleInstants i moves).length = k := by rw [instants]; simp
    refine Nat.le_antisymm (few positive) ?_
    rw [counted]
    refine Nat.le_of_lt_succ ((Nat.div_lt_iff_lt_mul positive).mpr ?_)
    change (c.run moves).2.now < c.now + period + k * period at ahead
    rw [Nat.succ_mul]
    lia

theorem cadenced_startPrices (c : Chain) (ctx : Context) (home : Role) (period : Millis)
    (moves : List Move) :
    (c.startPrices ctx (.feed home period)).Cadenced c.prices.length period moves := by
  obtain ⟨l, hl, htask⟩ : ∃ l,
      (c.startPrices ctx (.feed home period)).prices[c.prices.length]? = some l ∧
        l.stream.task = .working (Pace.start c.now (.feed home period)) :=
    ⟨_, List.getElem?_concat_length .., rfl⟩
  exact cadenced_of_opened hl htask moves

theorem cadenced_startBalances (c : Chain) (ctx : Context) {source : BalanceSource}
    {home : Role} {period : Millis} (feed : source.prices = .feed home period)
    (moves : List Move) : (c.startBalances ctx source).Cadenced c.prices.length period moves := by
  obtain ⟨l, hl, hst⟩ := c.getElem?_prices_startBalances_new ctx source
  have htask : l.stream.task = .working (Pace.start c.now (.feed home period)) := by
    rw [hst, feed]
    rfl
  exact cadenced_of_opened hl htask moves

/-- A stream of prices that was opened for someone in a process comes at the cadence of the tier
that was asked for, by itself or under a stream of balances. -/
theorem cadenced_of_watch (inProcess : c.wiring.prices? = none) {m : Move}
    {metadata answer : Metadata} (hm : (∃ timeout?, m = .watchPrice metadata timeout?) ∨
      ∃ perAddress timeout?, m = .watchBalance metadata perAddress timeout?)
    (h : (c.move m).1 = .opened (.ok answer)) :
    ∃ tier, Validator.requested? metadata = some tier ∧
      ∀ moves, (c.next m).Cadenced c.prices.length tier.cadence moves := by
  rcases hm with ⟨timeout?, rfl⟩ | ⟨perAddress, timeout?, rfl⟩
  · obtain ⟨w, ⟨f, heq⟩ | ⟨e, given, heq⟩⟩ := c.move_watchPrice_cases metadata timeout?
    · cases h.symm.trans (congrArg Prod.fst heq)
    · rw [Wiring.price_eq_recorded inProcess] at given
      obtain ⟨tier, asked, feed⟩ := PriceService.feed_of_recorded_watch given
      refine ⟨tier, asked, fun moves => ?_⟩
      change (c.move _).2.Cadenced _ _ _
      rw [heq, feed]
      exact (c.asked w).cadenced_startPrices _ _ _ moves
  · obtain ⟨w, ⟨f, heq⟩ | ⟨e, given, heq⟩⟩ := c.move_watchBalance_cases metadata perAddress timeout?
    · cases h.symm.trans (congrArg Prod.fst heq)
    · obtain ⟨tier, asked, feed⟩ := WalletService.feed_of_watch
        (.inr (Wiring.price_eq_recorded inProcess c.home)) given
      refine ⟨tier, asked, fun moves => ?_⟩
      change (c.move _).2.Cadenced _ _ _
      rw [heq]
      exact (c.asked w).cadenced_startBalances _ feed moves

/-- Samples come neither early nor in a burst, whenever the parties take their turns, and the period
is that of the tier that was asked for, whatever the caller is entitled to. -/
theorem samples_keep_their_cadence :
    (∀ (c : Chain) (ctx : Context) (home : Role) (period : Millis) (moves : List Move),
      (c.startPrices ctx (.feed home period)).Cadenced c.prices.length period moves) ∧
    (∀ (s : PriceService) (request : Envelope PriceRequest) (w : World) (e : Envelope PriceSource),
      ((s.watch request).perform w).1 = .ok e →
        ∃ tier, Validator.requested? request.metadata = some tier ∧
          e.payload = .feed s.home tier.cadence) ∧
    (∀ (s : WalletService) (p : PriceService), s.prices = p.api ∨ s.prices = p.api.recorded →
      ∀ (request : Envelope BalanceRequest) (w : World) (e : Envelope BalanceSource),
        ((s.watch request).perform w).1 = .ok e →
          ∃ tier, Validator.requested? request.metadata = some tier ∧
            e.payload.prices = .feed p.home tier.cadence) ∧
    ∀ (c : Chain), c.wiring.prices? = none → ∀ (m : Move) (metadata answer : Metadata),
      ((∃ timeout?, m = .watchPrice metadata timeout?) ∨
        ∃ perAddress timeout?, m = .watchBalance metadata perAddress timeout?) →
      (c.move m).1 = .opened (.ok answer) →
        ∃ tier, Validator.requested? metadata = some tier ∧
          ∀ moves, (c.next m).Cadenced c.prices.length tier.cadence moves :=
  ⟨cadenced_startPrices, fun s _ _ _ => s.feed_of_watch,
    fun s _ wired _ _ _ => s.feed_of_watch wired,
    fun _ inProcess _ _ _ => cadenced_of_watch inProcess⟩

/-- A process with one user, who is entitled to premium samples. -/
def oneUser : Wiring where
  ledger := .ofHoldings [⟨"u", "a", 2⟩]
  samples := [10]
  account? := some (.ok ⟨⟨"u", .premium⟩, ∅⟩)

/-- The balances of two periods, each of them taken before the next one. -/
def twoPeriods : List Move :=
  [.pass 1000, .turnPrice 0, .turnPrice 0, .turnBalance 0, .turnBalance 0, .receiveBalance 0,
    .pass 1000, .turnPrice 0, .turnPrice 0, .turnBalance 0, .turnBalance 0, .receiveBalance 0,
    .pass 500]

def asksForNormal : Move := .watchBalance (Metadata.credentials "t" .normal) false none

def opened : Chain := (start oneUser .wallet).next asksForNormal

theorem premium_user_gets_the_normal_cadence : opened.Cadenced 0 1000 twoPeriods ∧
    opened.throughout inVirtualTime twoPeriods = true ∧
    opened.throughout (fun c _ => c.takenInTime 0) twoPeriods = true ∧
    opened.sampleInstants 0 twoPeriods = [1000, 2000] := by
  have given : ((start oneUser .wallet).move asksForNormal).1 =
      .opened (.ok (Metadata.empty.insert Metadata.hostnameKey "wallet-0")) := by cbv
  obtain ⟨tier, asked, cadenced⟩ := samples_keep_their_cadence.2.2.2 (start oneUser .wallet) rfl
    asksForNormal _ _ (.inr ⟨false, none, rfl⟩) given
  obtain rfl : tier = .normal := by
    have told : Validator.requested? (Metadata.credentials "t" .normal) = some .normal := by cbv
    exact Option.some.inj (asked.symm.trans told)
  exact ⟨cadenced twoPeriods, by cbv, by cbv, by cbv⟩

end Chain

end WalletWatch
