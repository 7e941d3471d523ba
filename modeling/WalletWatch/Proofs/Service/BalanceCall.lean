import Mathlib
import WalletWatch.Proofs.Service.Traces
import WalletWatch.Proofs.Store.Lookup

set_option autoImplicit false

/-!
# A single balance through the whole chain

The wallet service asks the price service, both ask the account service, and the caller is validated
twice. What comes out is told here by the records, the entries, the price and the request alone: the
first of seven cases that applies.
-/

namespace WalletWatch

namespace AccountService

theorem perform_resolve (s : AccountService) (request : Envelope ResolveRequest) (w : World) :
    ∃ w', (s.resolve request).perform w = (s.answer request.payload.token, w') ∧
      w'.samples = w.samples := by
  obtain ⟨w', resolved, grown⟩ := s.answers request w
  exact ⟨w', resolved, grown.sampled⟩

end AccountService

namespace Identity

/-- What a validation makes of the record of a token. -/
def ruling (token : String) (requested : Tier) : Option Identity → Item Access
  | none => .error ⟨.notFound, "could not get user info: unrecognized user token"⟩
  | some r =>
    if requested ≤ r.tier then .ok ⟨token, r.name, r.tier, requested, true⟩
    else .error ⟨.unauthenticated, "requested membership higher than actual membership"⟩

theorem verdict_answer (s : AccountService) (token : String) (requested : Tier) :
    Validator.verdict token requested (s.answer token) =
      ruling token requested (s.directory.lookup? token) := by
  unfold AccountService.answer
  cases s.directory.lookup? token with
  | none => rfl
  | some r =>
    simp only [Validator.verdict, Validator.ruling, Envelope.fromHost, Membership.tier?_membership,
      ruling]

end Identity

/-- The gate looks at the tier that was asked for, whatever the caller is entitled to. -/
theorem Access.gate_eq (premiumOnly : Bool) (a : Access) :
    a.gate premiumOnly = if premiumOnly = true ∧ a.requested = .normal then
      .error ⟨.permissionDenied, "non-premium request while premium-only"⟩ else .ok () := by
  unfold gate isPremium serviceTier
  cases premiumOnly <;> cases a.requested <;> rfl

theorem PriceService.perform_accept (s : PriceService) (request : Envelope PriceRequest)
    {access : Access} {w w' : World}
    (validated : (s.validator.validate request.metadata).perform w = (.ok access, w')) :
    (s.accept request).perform w = ((access.gate s.premiumOnly).map fun _ => access, w') := by
  refine (Call.perform_bind_ok _ validated).trans ?_
  exact Call.perform_ofItem_map (access.gate s.premiumOnly) (fun _ => access) w'

namespace Wiring

/-- The services of one process over some records and entries, none of them replaced. -/
def ofStores (records : List Identity) (holdings : List Holding) (samples : List Int64)
    (premiumOnly totalsOnly : Bool) (hostname : Role → String) : Wiring :=
  { directory := .ofRecords records, ledger := .ofHoldings holdings, samples := samples,
    premiumOnly := premiumOnly, totalsOnly := totalsOnly, hostname := hostname }

/-- The answer to a caller with credentials. -/
def answerAt (records : List Identity) (holdings : List Holding) (price : Int64)
    (premiumOnly totalsOnly : Bool) (hostname : String) (token : String) (requested : Tier)
    (perAddress : Bool) : Item (Envelope Balance) :=
  match (records.filter (·.token = token)).getLast? with
  | none => .error ⟨.notFound, "could not get user info: unrecognized user token"⟩
  | some r =>
    if requested = .premium ∧ r.tier = .normal then
      .error ⟨.unauthenticated, "requested membership higher than actual membership"⟩
    else if premiumOnly = true ∧ requested = .normal then
      .error ⟨.permissionDenied, "could not fetch price: non-premium request while premium-only"⟩
    else if holdings.filter (·.user = r.name) = [] then
      .error ⟨.notFound, "could not identify user: " ++ r.name⟩
    else
      .ok ⟨Balance.ofHoldings (holdings.filter (·.user = r.name)) price (perAddress && !totalsOnly),
        Metadata.ofHost hostname⟩

/-- The answer to any caller: the first case that applies. -/
def answer (records : List Identity) (holdings : List Holding) (price : Int64)
    (premiumOnly totalsOnly : Bool) (hostname : String) (inbound : Metadata) (perAddress : Bool) :
    Item (Envelope Balance) :=
  match inbound.get? "authorization" with
  | none => .error ⟨.unauthenticated, "missing user authentication"⟩
  | some token =>
    if token = "" then .error ⟨.unauthenticated, "missing user authentication"⟩
    else if inbound.get? "membership" = some "normal" then
      answerAt records holdings price premiumOnly totalsOnly hostname token .normal perAddress
    else if inbound.get? "membership" = some "premium" then
      answerAt records holdings price premiumOnly totalsOnly hostname token .premium perAddress
    else .error ⟨.unauthenticated, "unknown user membership"⟩

variable (records : List Identity) (holdings : List Holding) (samples : List Int64)
  (premiumOnly totalsOnly : Bool) (hostname : Role → String) (home : Role) (inbound : Metadata)
  (w : World)

/-- Wherever it is made, a validation rules on the last record of the token. -/
theorem perform_validator_validate {token : String} {requested : Tier}
    (h : Validator.Presents inbound token requested) :
    ∃ w', (((ofStores records holdings samples premiumOnly totalsOnly hostname).validator
        home).validate inbound).perform w =
      (Identity.ruling token requested (records.filter (·.token = token)).getLast?, w') ∧
      w'.samples = w.samples := by
  let wiring := ofStores records holdings samples premiumOnly totalsOnly hostname
  obtain ⟨w', resolved, kept⟩ := wiring.accountService.perform_resolve
    ⟨⟨token⟩, Validator.outbound inbound⟩
    (AccountApi.noted w token (Validator.outbound inbound))
  have asked : ((wiring.validator home).resolver.resolve
      ⟨⟨token⟩, Validator.outbound inbound⟩).perform w =
        (wiring.accountService.answer token, w') :=
    (AccountApi.perform_resolve_recorded _ _ w).trans resolved
  have found : wiring.accountService.directory.lookup? token =
      (records.filter (·.token = token)).getLast? := Directory.lookup?_ofRecords records token
  rw [Validator.perform_validate, Validator.check_of_presents _ h, Validator.perform_ask, asked,
    Identity.verdict_answer, found]
  refine ⟨_, rfl, ?_⟩
  rw [World.count_samples, Validator.remarks_samples, kept]
  rfl

theorem perform_price_fetch {token : String} {requested : Tier} {r : Identity}
    (h : token ≠ "") (found : (records.filter (·.token = token)).getLast? = some r)
    (entitled : requested ≤ r.tier) :
    let wiring := ofStores records holdings samples premiumOnly totalsOnly hostname
    ∃ w', ((wiring.price home).fetch ⟨{}, Metadata.credentials token requested⟩).perform w =
      (if premiumOnly = true ∧ requested = .normal then
        .error ⟨.permissionDenied, "non-premium request while premium-only"⟩
      else .ok (.fromHost ⟨wiring.feed w.samples⟩ (hostname .price)), w') := by
  intro wiring
  let noted : World :=
    { w with priceCalls := w.priceCalls ++ [⟨false, Metadata.credentials token requested⟩] }
  obtain ⟨w₁, validated, kept⟩ := perform_validator_validate records holdings samples premiumOnly
    totalsOnly hostname home (Metadata.credentials token requested) noted
    (Validator.presents_credentials h requested)
  rw [found, Identity.ruling, if_pos entitled] at validated
  let access : Access := ⟨token, r.name, r.tier, requested, true⟩
  have accepted : ((wiring.priceService home).accept
      ⟨{}, Metadata.credentials token requested⟩).perform noted =
        ((access.gate premiumOnly).map fun _ => access, w₁) :=
    (wiring.priceService home).perform_accept _ validated
  have gated := access.gate_eq premiumOnly
  have forwarded : ((wiring.price home).fetch
      ⟨{}, Metadata.credentials token requested⟩).perform w =
        ((wiring.priceService home).fetch
          ⟨{}, Metadata.credentials token requested⟩).perform noted :=
    Call.perform_bind_ok _ (Call.perform_modify _ w)
  rw [forwarded]
  by_cases closed : premiumOnly = true ∧ requested = .normal
  · rw [gated.trans (if_pos closed)] at accepted
    rw [if_pos closed]
    exact ⟨w₁, Call.perform_bind_error _ accepted⟩
  · rw [gated.trans (if_neg closed)] at accepted
    rw [if_neg closed]
    refine ⟨{ w₁ with samples := w₁.samples + 1 }, ?_⟩
    refine (Call.perform_bind_ok _ accepted).trans ?_
    refine (Call.perform_bind_ok _ (Call.perform_sample w₁)).trans ?_
    rw [kept]
    rfl

theorem aggregator_balance (user : String) (price : Int64) (perAddress : Bool) :
    (ofStores records holdings samples premiumOnly totalsOnly hostname).aggregator.balance user
      price perAddress =
        if holdings.filter (·.user = user) = [] then
          .error ⟨.notFound, "could not identify user: " ++ user⟩
        else .ok (Balance.ofHoldings (holdings.filter (·.user = user)) price
          (perAddress && !totalsOnly)) := by
  have ledger : (ofStores records holdings samples premiumOnly totalsOnly
      hostname).aggregator.ledger = .ofHoldings holdings := rfl
  unfold Aggregator.balance
  rw [ledger, Ledger.lookup?_ofHoldings]
  by_cases h : holdings.filter (·.user = user) = []
  · rw [if_pos h, if_pos h]
  · rw [if_neg h, if_neg h]
    rfl

theorem perform_wallet_fetch_of_ok (perAddress : Bool) {token : String} {requested : Tier}
    {r : Identity} {w₁ : World} (h : token ≠ "")
    (found : (records.filter (·.token = token)).getLast? = some r) (entitled : requested ≤ r.tier)
    (validated : (((ofStores records holdings samples premiumOnly totalsOnly hostname).validator
      home).validate inbound).perform w =
        (.ok ⟨token, r.name, r.tier, requested, true⟩, w₁)) :
    let wiring := ofStores records holdings samples premiumOnly totalsOnly hostname
    (((wiring.wallet home).fetch ⟨⟨perAddress⟩, inbound⟩).perform w).1 =
      if premiumOnly = true ∧ requested = .normal then
        .error ⟨.permissionDenied, "could not fetch price: non-premium request while premium-only"⟩
      else (wiring.aggregator.balance r.name (wiring.feed w₁.samples) perAddress).map
        fun b => .fromHost b (hostname .wallet) := by
  intro wiring
  obtain ⟨w₂, priced⟩ := perform_price_fetch records holdings samples premiumOnly totalsOnly
    hostname home w₁ h found entitled
  have within := Call.perform_within "could not fetch price"
    ((wiring.price home).fetch ⟨{}, Metadata.credentials token requested⟩) w₁
  rw [priced] at within
  have opened : ((wiring.wallet home).fetch ⟨⟨perAddress⟩, inbound⟩).perform w = _ :=
    Call.perform_bind_ok _ validated
  rw [opened]
  by_cases closed : premiumOnly = true ∧ requested = .normal
  · rw [if_pos closed] at within ⊢
    exact congrArg Prod.fst (Call.perform_bind_error _ within)
  · rw [if_neg closed] at within ⊢
    refine (congrArg Prod.fst (Call.perform_bind_ok _ within)).trans ?_
    refine (congrArg Prod.fst (Call.perform_bind_ok _ (Call.perform_say _ w₂))).trans ?_
    refine (congrArg Prod.fst (Call.perform_bind_ok _ (Call.perform_say _ _))).trans ?_
    exact congrArg Prod.fst (Call.perform_ofItem_map
      (wiring.aggregator.balance r.name (wiring.feed w₁.samples) perAddress)
      (fun b => Envelope.fromHost b (hostname .wallet)) _)

theorem perform_wallet_fetch_of_presents (perAddress : Bool) {token : String} {requested : Tier}
    (presents : Validator.Presents inbound token requested) :
    let wiring := ofStores records holdings samples premiumOnly totalsOnly hostname
    (((wiring.wallet home).fetch ⟨⟨perAddress⟩, inbound⟩).perform w).1 =
      answerAt records holdings (wiring.feed w.samples) premiumOnly totalsOnly (hostname .wallet)
        token requested perAddress := by
  intro wiring
  obtain ⟨w₁, validated, kept⟩ := perform_validator_validate records holdings samples premiumOnly
    totalsOnly hostname home inbound w presents
  unfold answerAt
  cases found : (records.filter (·.token = token)).getLast? with
  | none =>
    rw [found] at validated
    exact congrArg Prod.fst (Call.perform_bind_error _ validated)
  | some r =>
    dsimp only
    rw [found, Identity.ruling] at validated
    by_cases entitled : requested ≤ r.tier
    · rw [if_pos entitled] at validated
      rw [if_neg fun above => Tier.not_le_iff.mpr above entitled]
      rw [perform_wallet_fetch_of_ok records holdings samples premiumOnly totalsOnly hostname
        home inbound w perAddress presents.token_ne found entitled validated, kept,
        aggregator_balance]
      by_cases closed : premiumOnly = true ∧ requested = .normal
      · rw [if_pos closed, if_pos closed]
      · rw [if_neg closed, if_neg closed]
        by_cases unknown : holdings.filter (·.user = r.name) = []
        · rw [if_pos unknown, if_pos unknown]
          rfl
        · rw [if_neg unknown, if_neg unknown]
          rfl
    · rw [if_neg entitled] at validated
      rw [if_pos (Tier.not_le_iff.mp entitled)]
      exact congrArg Prod.fst (Call.perform_bind_error _ validated)

theorem perform_wallet_fetch_of_rejected (perAddress : Bool) {f : Failure}
    (thrown : Validator.check ((ofStores records holdings samples premiumOnly totalsOnly
      hostname).validator home).resolver inbound = throw f) :
    ((((ofStores records holdings samples premiumOnly totalsOnly hostname).wallet home).fetch
      ⟨⟨perAddress⟩, inbound⟩).perform w).1 = .error f := by
  have validated := Validator.perform_validate ((ofStores records holdings samples premiumOnly
    totalsOnly hostname).validator home) inbound w
  rw [thrown, Call.perform_throw] at validated
  exact congrArg Prod.fst (Call.perform_bind_error _ validated)

/-- The answer to a single balance, whatever the stores hold, however the services are set up, and
whoever asks. -/
theorem wallet_fetch_eq_answer (perAddress : Bool) :
    ((((ofStores records holdings samples premiumOnly totalsOnly hostname).wallet home).fetch
      ⟨⟨perAddress⟩, inbound⟩).perform w).1 =
        answer records holdings (samples.getD (w.samples % samples.length) 0) premiumOnly totalsOnly
          (hostname .wallet) inbound perAddress := by
  have rejected {f : Failure} := @perform_wallet_fetch_of_rejected records holdings samples
    premiumOnly totalsOnly hostname home inbound w perAddress f
  have presented {token : String} {requested : Tier} :=
    @perform_wallet_fetch_of_presents records holdings samples premiumOnly totalsOnly hostname home
      inbound w perAddress token requested
  unfold answer
  cases got : inbound.get? "authorization" with
  | none =>
    have absent : Validator.token? inbound = none := by
      simp [Validator.token?, Metadata.authorizationKey, got]
    exact rejected (Validator.check_of_token?_eq_none _ absent)
  | some token =>
    dsimp only
    by_cases h : token = ""
    · have absent : Validator.token? inbound = none := by
        simp [Validator.token?, Metadata.authorizationKey, got, h]
      rw [if_pos h]
      exact rejected (Validator.check_of_token?_eq_none _ absent)
    rw [if_neg h]
    by_cases normal : inbound.get? "membership" = some "normal"
    · rw [if_pos normal]
      exact presented ⟨got, h, normal⟩
    rw [if_neg normal]
    by_cases premium : inbound.get? "membership" = some "premium"
    · rw [if_pos premium]
      exact presented ⟨got, h, premium⟩
    rw [if_neg premium]
    have unknown : Validator.requested? inbound = none := by
      refine Option.eq_none_iff_forall_ne_some.mpr fun requested asked => ?_
      have spelt := (Validator.requested?_eq_some_iff inbound requested).mp asked
      cases requested with
      | normal => exact normal spelt
      | premium => exact premium spelt
    have present := (Validator.token?_eq_some_iff inbound token).mpr ⟨got, h⟩
    exact rejected (Validator.check_of_requested?_eq_none _ present unknown)

/-- Two records of one token, of which the last one counts. -/
def twoRecords : List Identity :=
  [⟨"2bd806c9", "Alice", .premium⟩, ⟨"2bd806c9", "Bob", .normal⟩]

/-- Entries of two users. -/
def mixedHoldings : List Holding := [⟨"Bob", "a", 2⟩, ⟨"Alice", "b", 5⟩, ⟨"Bob", "c", -1⟩]

theorem last_record_of_a_token_decides :
    let wiring := ofStores twoRecords mixedHoldings [7, 11] false false
      fun role => role.name ++ "-0"
    let asked (tier : String) := (((wiring.wallet .wallet).fetch ⟨⟨true⟩, .ofList
      [("authorization", "2bd806c9"), ("membership", tier)]⟩).perform { samples := 3 }).1
    asked "premium" =
      .error ⟨.unauthenticated, "requested membership higher than actual membership"⟩ ∧
    asked "normal" = .ok ⟨⟨11, [⟨"a", 22⟩, ⟨"c", -11⟩]⟩, .ofList [("hostname", "wallet-0")]⟩ ∧
    asked "Normal" = .error ⟨.unauthenticated, "unknown user membership"⟩ := by
  intro wiring asked
  have answered (tier : String) := wallet_fetch_eq_answer twoRecords mixedHoldings [7, 11] false
    false (fun role => role.name ++ "-0") .wallet
    (.ofList [("authorization", "2bd806c9"), ("membership", tier)]) { samples := 3 } true
  refine ⟨(answered "premium").trans ?_, (answered "normal").trans ?_,
    (answered "Normal").trans ?_⟩
  · cbv
  · cbv
  · cbv

end Wiring

end WalletWatch
