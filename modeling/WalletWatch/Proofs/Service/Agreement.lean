import WalletWatch.Proofs.Service.Traces

set_option autoImplicit false

/-!
# Single calls and streams

A stream is opened by the same decisions as a single balance is given: whoever is turned away here
is turned away there. The one difference is a user without holdings, who gets a stream all the same
and the failure as its first update.
-/

namespace WalletWatch

/-- The failure of a single balance for a user that the ledger does not know. -/
def Failure.Unidentified (f : Failure) : Prop :=
  ∃ user, f = ⟨.notFound, "could not identify user: " ++ user⟩

theorem Item.map_eq_error_iff {α β : Type} {i : Item α} (g : α → β) {f : Failure} :
    i.map g = .error f ↔ i = .error f := by
  cases i with
  | error g => simp [Except.map]
  | ok a => simp [Except.map]

theorem Failure.not_unidentified {f : Failure}
    (h : f.code = .unauthenticated ∨ f.message.toList[10]? ≠ some 'i') : ¬ f.Unidentified := by
  rintro ⟨user, rfl⟩
  rcases h with h | h
  · cases h
  · exact h (by simp [String.toList_append])

namespace Validator

variable {answer : String → Metadata → Item (Envelope UserInfo)} {inbound : Metadata}

theorem not_unidentified_of_verdict {token : String} {requested : Tier}
    {said : Item (Envelope UserInfo)} {f : Failure}
    (h : verdict token requested said = .error f) : ¬ f.Unidentified := by
  cases said with
  | error g =>
    cases h
    exact Failure.not_unidentified (.inr (by simp [Failure.wrap, String.toList_append]))
  | ok user =>
    change ruling token requested user.payload = .error f at h
    unfold ruling at h
    split at h
    · cases h
      exact Failure.not_unidentified (.inl rfl)
    · split at h
      · cases h
      · cases h
        exact Failure.not_unidentified (.inl rfl)

theorem not_unidentified_of_decision {f : Failure} (h : decision answer inbound = .error f) :
    ¬ f.Unidentified := by
  unfold decision at h
  cases ht : token? inbound with
  | none =>
    simp only [ht] at h
    cases h
    exact Failure.not_unidentified (.inl rfl)
  | some token =>
    cases hr : requested? inbound with
    | none =>
      simp only [ht, hr] at h
      cases h
      exact Failure.not_unidentified (.inl rfl)
    | some requested =>
      simp only [ht, hr] at h
      exact not_unidentified_of_verdict h

end Validator

theorem Aggregator.unidentified_of_balance {a : Aggregator} {user : String} {price : Int64}
    {perAddress : Bool} {f : Failure} (h : a.balance user price perAddress = .error f) :
    f.Unidentified := by
  unfold balance at h
  split at h
  · cases h
    exact ⟨user, rfl⟩
  · cases h

namespace Wiring

/-- The same services over a feed that gives one price only. -/
def atPrice (wiring : Wiring) (price : Int64) : Wiring := { wiring with samples := [price] }

theorem feed_atPrice (wiring : Wiring) (price : Int64) (n : Nat) :
    (wiring.atPrice price).feed n = price := by
  simp [feed, atPrice, Nat.mod_one]

/-- What the price service of a process decides about a caller. -/
def admits (wiring : Wiring) (inbound : Metadata) : Item Access :=
  PriceService.admission wiring.knows wiring.premiumOnly inbound

section InProcess

variable {wiring : Wiring} (inProcess : wiring.prices? = none) (home : Role) (inbound : Metadata)
  (perAddress : Bool) (w : World)

theorem validate_eq : (((wiring.validator home).validate inbound).perform w).1 =
    Validator.decision wiring.knows inbound :=
  (Validator.leaves_validate (wiring.asks home) inbound w).fst_eq

include inProcess in
theorem price_eq_recorded : wiring.price home = (wiring.priceService home).api.recorded := by
  unfold price
  rw [inProcess]

include inProcess in
theorem price_fetch_eq : (((wiring.price home).fetch ⟨{}, inbound⟩).perform w).1 =
    (wiring.admits inbound).map fun _ =>
      .fromHost ⟨wiring.feed w.samples⟩ (wiring.hostname .price) := by
  rw [price_eq_recorded inProcess]
  exact ((wiring.priceService home).leaves_recorded_fetch (wiring.asks home) ⟨{}, inbound⟩
    (w := w) rfl).fst_eq

include inProcess in
theorem price_watch_eq : (((wiring.price home).watch ⟨{}, inbound⟩).perform w).1 =
    (wiring.admits inbound).map fun access =>
      .fromHost (.feed home access.serviceTier.cadence) (wiring.hostname .price) := by
  rw [price_eq_recorded inProcess]
  exact ((wiring.priceService home).leaves_recorded_watch (wiring.asks home) ⟨{}, inbound⟩
    w).fst_eq

include inProcess in
theorem feed_of_watch {e : Envelope PriceSource}
    (h : (((wiring.price home).watch ⟨{}, inbound⟩).perform w).1 = .ok e) :
    ∃ period, e.payload = .feed home period := by
  rw [price_watch_eq inProcess] at h
  cases ha : wiring.admits inbound with
  | error f => simp [ha, Except.map] at h
  | ok access =>
    rw [ha] at h
    cases h
    exact ⟨_, rfl⟩

include inProcess in
theorem wallet_fetch_eq : (((wiring.wallet home).fetch ⟨⟨perAddress⟩, inbound⟩).perform w).1 =
    (Validator.decision wiring.knows inbound).bind fun access =>
      (wiring.walletService home).worth access perAddress
        ((wiring.admits access.forward).map fun _ =>
          .fromHost ⟨wiring.feed w.samples⟩ (wiring.hostname .price)) := by
  obtain ⟨t, leaves, -⟩ := WalletService.leaves_fetch_over (s := wiring.walletService home)
    (p := wiring.priceService home) (wiring.asks home) (wiring.asks home)
    (price_eq_recorded inProcess home) ⟨⟨perAddress⟩, inbound⟩ w
  exact leaves.fst_eq

include inProcess in
theorem wallet_watch_eq : (((wiring.wallet home).watch ⟨⟨perAddress⟩, inbound⟩).perform w).1 =
    (Validator.decision wiring.knows inbound).bind fun access =>
      (wiring.walletService home).source access perAddress
        ((wiring.admits access.forward).map fun granted =>
          .fromHost (.feed home granted.serviceTier.cadence) (wiring.hostname .price)) := by
  obtain ⟨t, leaves, -⟩ := WalletService.leaves_watch_over (s := wiring.walletService home)
    (p := wiring.priceService home) (wiring.asks home) (wiring.asks home)
    (price_eq_recorded inProcess home) ⟨⟨perAddress⟩, inbound⟩ w
  exact leaves.fst_eq

section Decided

variable {inbound} {f : Failure} {access granted : Access}

include inProcess in
theorem fetch_of_rejected (hd : Validator.decision wiring.knows inbound = .error f) :
    (((wiring.wallet home).fetch ⟨⟨perAddress⟩, inbound⟩).perform w).1 = .error f := by
  rw [wallet_fetch_eq inProcess, hd]
  rfl

include inProcess in
theorem watch_of_rejected (hd : Validator.decision wiring.knows inbound = .error f) :
    (((wiring.wallet home).watch ⟨⟨perAddress⟩, inbound⟩).perform w).1 = .error f := by
  rw [wallet_watch_eq inProcess, hd]
  rfl

variable (hd : Validator.decision wiring.knows inbound = .ok access)

include inProcess hd in
theorem fetch_of_denied (ha : wiring.admits access.forward = .error f) :
    (((wiring.wallet home).fetch ⟨⟨perAddress⟩, inbound⟩).perform w).1 =
      .error (f.wrap "could not fetch price") := by
  rw [wallet_fetch_eq inProcess, hd]
  simp only [Except.bind]
  rw [ha]
  rfl

include inProcess hd in
theorem watch_of_denied (ha : wiring.admits access.forward = .error f) :
    (((wiring.wallet home).watch ⟨⟨perAddress⟩, inbound⟩).perform w).1 =
      .error (f.wrap "could not open price stream") := by
  rw [wallet_watch_eq inProcess, hd]
  simp only [Except.bind]
  rw [ha]
  rfl

include inProcess hd in
theorem fetch_of_admitted (ha : wiring.admits access.forward = .ok granted) :
    (((wiring.wallet home).fetch ⟨⟨perAddress⟩, inbound⟩).perform w).1 =
      (wiring.aggregator.balance access.name (wiring.feed w.samples) perAddress).map
        (.fromHost · (wiring.hostname .wallet)) := by
  rw [wallet_fetch_eq inProcess, hd]
  simp only [Except.bind]
  rw [ha]
  rfl

include inProcess hd in
theorem watch_of_admitted (ha : wiring.admits access.forward = .ok granted) :
    (((wiring.wallet home).watch ⟨⟨perAddress⟩, inbound⟩).perform w).1 =
      .ok (.fromHost ⟨access.name, perAddress, wiring.aggregator,
        .feed home granted.serviceTier.cadence, home⟩ (wiring.hostname .wallet)) := by
  rw [wallet_watch_eq inProcess, hd]
  simp only [Except.bind]
  rw [ha]
  rfl

include inProcess in
theorem source_of_watch {e : Envelope BalanceSource}
    (h : (((wiring.wallet home).watch ⟨⟨perAddress⟩, inbound⟩).perform w).1 = .ok e) :
    ∃ access granted, Validator.decision wiring.knows inbound = .ok access ∧
      wiring.admits access.forward = .ok granted ∧
      e = .fromHost ⟨access.name, perAddress, wiring.aggregator,
        .feed home granted.serviceTier.cadence, home⟩ (wiring.hostname .wallet) := by
  cases hd : Validator.decision wiring.knows inbound with
  | error f => cases h.symm.trans (watch_of_rejected inProcess home perAddress w hd)
  | ok access =>
    cases ha : wiring.admits access.forward with
    | error f => cases h.symm.trans (watch_of_denied inProcess home perAddress w hd ha)
    | ok granted =>
      have same := h.symm.trans (watch_of_admitted inProcess home perAddress w hd ha)
      exact ⟨access, granted, rfl, ha, Except.ok.inj same⟩

end Decided

end InProcess

/-- How a request for a stream and a request for a single value agree, in the same world. -/
structure Agrees (wiring : Wiring) (home : Role) (inbound : Metadata) (perAddress : Bool)
    (w : World) : Prop where
  prices : ∀ f, (((wiring.price home).watch ⟨{}, inbound⟩).perform w).1 = .error f ↔
    (((wiring.price home).fetch ⟨{}, inbound⟩).perform w).1 = .error f
  balances : (∃ f, (((wiring.wallet home).watch ⟨⟨perAddress⟩, inbound⟩).perform w).1 = .error f) ↔
    ∃ g, (((wiring.wallet home).fetch ⟨⟨perAddress⟩, inbound⟩).perform w).1 = .error g ∧
      ¬ g.Unidentified
  /-- Both fail alike, where the price service turns the caller down as well but for the context
  that its failure gets. -/
  failures : ∀ f, (((wiring.wallet home).watch ⟨⟨perAddress⟩, inbound⟩).perform w).1 = .error f →
    ((((wiring.validator home).validate inbound).perform w).1 = .error f ∧
        (((wiring.wallet home).fetch ⟨⟨perAddress⟩, inbound⟩).perform w).1 = .error f) ∨
      ∃ access g, (((wiring.validator home).validate inbound).perform w).1 = .ok access ∧
        (((wiring.price home).watch ⟨{}, access.forward⟩).perform w).1 = .error g ∧
        (((wiring.price home).fetch ⟨{}, access.forward⟩).perform w).1 = .error g ∧
        f = g.wrap "could not open price stream" ∧
        (((wiring.wallet home).fetch ⟨⟨perAddress⟩, inbound⟩).perform w).1 =
          .error (g.wrap "could not fetch price")
  /-- A stream makes of any price what a single balance comes to at that price. -/
  updates : ∀ e, (((wiring.wallet home).watch ⟨⟨perAddress⟩, inbound⟩).perform w).1 = .ok e →
    ∀ price w',
      ((((wiring.atPrice price).wallet home).fetch ⟨⟨perAddress⟩, inbound⟩).perform w').1 =
        (e.payload.update price).map (.fromHost · (wiring.hostname .wallet))

theorem agrees {wiring : Wiring} (inProcess : wiring.prices? = none) (home : Role)
    (inbound : Metadata) (perAddress : Bool) (w : World) :
    wiring.Agrees home inbound perAddress w := by
  have prices : ∀ inbound' f,
      (((wiring.price home).watch ⟨{}, inbound'⟩).perform w).1 = .error f ↔
        (((wiring.price home).fetch ⟨{}, inbound'⟩).perform w).1 = .error f := by
    intro inbound' f
    rw [price_watch_eq inProcess, price_fetch_eq inProcess]
    exact (Item.map_eq_error_iff _).trans (Item.map_eq_error_iff _).symm
  have validated := wiring.validate_eq home inbound w
  cases hd : Validator.decision wiring.knows inbound with
  | error f =>
    have watched := watch_of_rejected inProcess home perAddress w hd
    have fetched := fetch_of_rejected inProcess home perAddress w hd
    refine ⟨prices inbound, ⟨fun _ => ?_, fun _ => ⟨f, watched⟩⟩, ?_, ?_⟩
    · exact ⟨f, fetched, Validator.not_unidentified_of_decision hd⟩
    · intro f' hf'
      cases watched.symm.trans hf'
      exact .inl ⟨validated.trans hd, fetched⟩
    · intro e he
      cases watched.symm.trans he
  | ok access =>
    have asked := price_watch_eq inProcess home access.forward w
    cases ha : wiring.admits access.forward with
    | error g =>
      have watched := watch_of_denied inProcess home perAddress w hd ha
      have fetched := fetch_of_denied inProcess home perAddress w hd ha
      refine ⟨prices inbound, ⟨fun _ => ?_, fun _ => ⟨_, watched⟩⟩, ?_, ?_⟩
      · exact ⟨_, fetched, Failure.not_unidentified
          (.inr (by simp [Failure.wrap, String.toList_append]))⟩
      · intro f hf
        cases watched.symm.trans hf
        have turned := asked.trans (by rw [ha])
        exact .inr ⟨access, g, validated.trans hd, turned,
          (prices access.forward g).mp turned, rfl, fetched⟩
      · intro e he
        cases watched.symm.trans he
    | ok granted =>
      have watched := watch_of_admitted inProcess home perAddress w hd ha
      have fetched := fetch_of_admitted inProcess home perAddress w hd ha
      refine ⟨prices inbound, ⟨?_, ?_⟩, ?_, ?_⟩
      · rintro ⟨f, hf⟩
        cases watched.symm.trans hf
      · rintro ⟨g, hg, other⟩
        exact absurd (Aggregator.unidentified_of_balance
          ((Item.map_eq_error_iff _).mp (fetched.symm.trans hg))) other
      · intro f hf
        cases watched.symm.trans hf
      · intro e he price w'
        cases watched.symm.trans he
        have same : (wiring.atPrice price).prices? = none := inProcess
        refine (fetch_of_admitted same home perAddress w' hd ha).trans ?_
        rw [feed_atPrice]
        rfl

end Wiring

end WalletWatch
