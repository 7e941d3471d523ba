import WalletWatch.Proofs.Service.Traces

set_option autoImplicit false

/-!
# What travels along with a call

Of all that a caller puts into its metadata the account service sees the routing hint and the price
service the credentials, at the tier that was asked for; nothing else goes further. So callers who
present the same credentials are served alike, whatever else they send.
-/

namespace WalletWatch

namespace Metadata

theorem get?_credentials_route (token : String) (tier : Tier) :
    (credentials token tier).get? routeKey = none := by
  have authorization : ¬ authorizationKey = routeKey := by decide
  have membership : ¬ membershipKey = routeKey := by decide
  unfold get?
  change ((credentials token tier).toList.find? _).map _ = none
  rw [toList_credentials, normalise_routeKey]
  simp [authorization, membership]

/-- Whether two lots of metadata differ at most in the routing hint. -/
def AlikeButRoute (m m' : Metadata) : Prop :=
  ∀ key, normalise key ≠ routeKey → m.get? key = m'.get? key

end Metadata

namespace Validator

/-- The routing hint of a caller, as an entry. -/
def hint (inbound : Metadata) : List (String × String) :=
  ((inbound.get? Metadata.routeKey).map fun route => (Metadata.routeKey, route)).toList

theorem toList_outbound (inbound : Metadata) : (outbound inbound).toList = hint inbound := by
  unfold outbound hint
  cases inbound.get? Metadata.routeKey with
  | none => rfl
  | some route =>
    exact (Metadata.toList_insert_empty _ _).trans (by rw [Metadata.normalise_routeKey]; rfl)

theorem outbound_credentials (token : String) (tier : Tier) :
    outbound (Metadata.credentials token tier) = ∅ := by
  unfold outbound
  rw [Metadata.get?_credentials_route]

theorem get?_outbound {key : String} (h : Metadata.normalise key ≠ Metadata.routeKey)
    (inbound : Metadata) : (outbound inbound).get? key = none := by
  unfold outbound
  cases inbound.get? Metadata.routeKey with
  | none => rfl
  | some route =>
    change (Metadata.empty.insert Metadata.routeKey route).get? key = none
    rw [Metadata.get?_insert, Metadata.normalise_routeKey, if_neg h.symm, Metadata.get?_empty]

/-- Whatever an account service says, it does not hang on the routing hint. -/
def RouteBlind (answer : String → Metadata → Item (Envelope UserInfo)) : Prop :=
  ∀ token m m', Metadata.AlikeButRoute m m' → answer token m = answer token m'

variable {answer : String → Metadata → Item (Envelope UserInfo)}

theorem inquiry_of_presents {inbound : Metadata} {token : String} {requested : Tier}
    (h : Presents inbound token requested) : inquiry inbound = [⟨token, outbound inbound⟩] := by
  obtain ⟨ht, hr⟩ := (presents_iff inbound token requested).mp h
  simp only [inquiry, ht, hr]

theorem decision_of_presents {inbound : Metadata} {token : String} {requested : Tier}
    (h : Presents inbound token requested) :
    decision answer inbound = verdict token requested (answer token (outbound inbound)) := by
  obtain ⟨ht, hr⟩ := (presents_iff inbound token requested).mp h
  simp only [decision, ht, hr]

theorem inquiry_of_absent {inbound : Metadata}
    (h : ∀ token requested, ¬ Presents inbound token requested) :
    inquiry inbound = [] ∧ ∃ f, decision answer inbound = .error f := by
  unfold inquiry decision
  cases ht : token? inbound with
  | none => exact ⟨rfl, _, rfl⟩
  | some token =>
    cases hr : requested? inbound with
    | none => exact ⟨rfl, _, rfl⟩
    | some requested =>
      exact absurd ((presents_iff inbound token requested).mpr ⟨ht, hr⟩) (h token requested)

/-- Who is let through goes on with the token it presented and at the tier it asked for. -/
theorem forward_of_verdict {token : String} {requested : Tier} {said : Item (Envelope UserInfo)}
    {access : Access} (h : verdict token requested said = .ok access) :
    access.requested = requested ∧ access.forward = Metadata.credentials token requested := by
  cases said with
  | error f => cases h
  | ok user =>
    obtain ⟨actual, -, -, rfl⟩ := (ruling_eq_ok_iff token requested user.payload access).mp h
    exact ⟨rfl, rfl⟩

theorem decision_congr (blind : RouteBlind answer) {inbound inbound' : Metadata}
    (hauthorization :
      inbound.get? Metadata.authorizationKey = inbound'.get? Metadata.authorizationKey)
    (hmembership : inbound.get? Metadata.membershipKey = inbound'.get? Metadata.membershipKey) :
    decision answer inbound = decision answer inbound' := by
  have same : ∀ token, answer token (outbound inbound) = answer token (outbound inbound') := by
    intro token
    refine blind token _ _ fun key hkey => ?_
    rw [get?_outbound hkey, get?_outbound hkey]
  simp only [decision, token?, requested?, hauthorization, hmembership, same]

end Validator

/-- What travels along with a call of the wallet service, from the world `w` to the world `w'` and
with the result `r`. The first request to the account service is that of the wallet service, the
second that of the price service. -/
structure WalletService.Propagates {α : Type} (s : WalletService) (streamed : Bool)
    (inbound : Metadata) (w : World) (r : Item (Envelope α)) (w' : World) : Prop where
  /-- Nobody is asked in the name of a caller without credentials. -/
  absent : (∀ token requested, ¬ Validator.Presents inbound token requested) →
    w'.resolveCalls = w.resolveCalls ∧ w'.priceCalls = w.priceCalls
  rejected : ∀ token requested f, Validator.Presents inbound token requested →
    ((s.validator.validate inbound).perform w).1 = .error f →
    ∃ toAccount : Metadata, toAccount.toList = Validator.hint inbound ∧
      w'.resolveCalls = w.resolveCalls ++ [⟨token, toAccount⟩] ∧ w'.priceCalls = w.priceCalls
  validated : ∀ token requested access, Validator.Presents inbound token requested →
    ((s.validator.validate inbound).perform w).1 = .ok access →
    access.requested = requested ∧
    ∃ toAccount toPrice fromPrice : Metadata, toAccount.toList = Validator.hint inbound ∧
      toPrice.toList =
        [(Metadata.authorizationKey, token), (Metadata.membershipKey, requested.literal)] ∧
      fromPrice.toList = [] ∧
      w'.resolveCalls = w.resolveCalls ++ [⟨token, toAccount⟩, ⟨token, fromPrice⟩] ∧
      w'.priceCalls = w.priceCalls ++ [⟨streamed, toPrice⟩]
  /-- A response names the instance that made it and repeats nothing. -/
  stamped : ∀ e, r = .ok e → e.metadata.toList = [(Metadata.hostnameKey, s.hostname)]

namespace WalletService

variable {answer answer' : String → Metadata → Item (Envelope UserInfo)} {s : WalletService}
  {p : PriceService}

/-- The requests of a call that is rejected, and of one that is validated and asks the price
service, for single balances and for streams alike. -/
theorem propagates_of_hops {α : Type} {streamed : Bool} {inbound : Metadata} {w w' : World}
    {r : Item (Envelope α)} {t : Trace} (hs : s.validator.Asks answer) (grown : w.Grown w' t)
    (hops : Hops answer streamed inbound t)
    (stamped : ∀ e, r = .ok e → e.metadata = Metadata.ofHost s.hostname) :
    s.Propagates streamed inbound w r w' := by
  have validation := (Validator.leaves_validate hs inbound w).fst_eq
  refine ⟨?_, ?_, ?_, ?_⟩
  · intro absent
    obtain ⟨unasked, f, hf⟩ : Validator.inquiry inbound = [] ∧
        ∃ f, Validator.decision answer inbound = .error f := Validator.inquiry_of_absent absent
    rw [grown.resolved, grown.priced, hops.rejected f hf, unasked]
    exact ⟨List.append_nil _, List.append_nil _⟩
  · intro token requested f presents rejection
    rw [validation] at rejection
    refine ⟨Validator.outbound inbound, Validator.toList_outbound inbound, ?_⟩
    rw [grown.resolved, grown.priced, hops.rejected f rejection,
      Validator.inquiry_of_presents presents]
    exact ⟨rfl, List.append_nil _⟩
  · intro token requested access presents admitted
    rw [validation] at admitted
    obtain ⟨resolved, priced⟩ := hops.validated access admitted
    rw [Validator.decision_of_presents presents] at admitted
    obtain ⟨htier, hforward⟩ := Validator.forward_of_verdict admitted
    have again : Validator.inquiry access.forward = [⟨token, ∅⟩] := by
      rw [hforward, Validator.inquiry_of_presents
        (Validator.presents_credentials presents.token_ne requested),
        Validator.outbound_credentials]
    refine ⟨htier, Validator.outbound inbound, access.forward, ∅,
      Validator.toList_outbound inbound, ?_, rfl, ?_, ?_⟩
    · rw [hforward, Metadata.toList_credentials]
    · rw [grown.resolved, resolved, Validator.inquiry_of_presents presents, again]
      rfl
    · rw [grown.priced, priced]
  · intro e he
    rw [stamped e he, Metadata.toList_ofHost]

theorem stamped_worth {access : Access} {perAddress : Bool} {quote : Item (Envelope PriceQuote)}
    {e : Envelope Balance} (h : s.worth access perAddress quote = .ok e) :
    e.metadata = Metadata.ofHost s.hostname := by
  unfold worth at h
  cases quote with
  | error f => cases h
  | ok q =>
    change (s.aggregator.balance access.name q.payload.price perAddress).map _ = .ok e at h
    cases hb : s.aggregator.balance access.name q.payload.price perAddress with
    | error f => rw [hb] at h; cases h
    | ok b => rw [hb] at h; cases h; rfl

theorem stamped_source {access : Access} {perAddress : Bool} {opened : Item (Envelope PriceSource)}
    {e : Envelope BalanceSource} (h : s.source access perAddress opened = .ok e) :
    e.metadata = Metadata.ofHost s.hostname := by
  unfold source at h
  cases opened with
  | error f => cases h
  | ok o => cases h; rfl

section Over

variable (hs : s.validator.Asks answer) (hp : p.validator.Asks answer')
  (hprices : s.prices = p.api.recorded) (inbound : Metadata) (perAddress : Bool) (w : World)

include hs hp hprices in
theorem propagates_fetch : s.Propagates false inbound w
    ((s.fetch ⟨⟨perAddress⟩, inbound⟩).perform w).1
    ((s.fetch ⟨⟨perAddress⟩, inbound⟩).perform w).2 := by
  obtain ⟨t, leaves, hops⟩ := leaves_fetch_over hs hp hprices ⟨⟨perAddress⟩, inbound⟩ w
  refine propagates_of_hops hs leaves.grown hops fun e he => ?_
  rw [leaves.fst_eq] at he
  cases hd : Validator.decision answer inbound with
  | error f => rw [hd] at he; cases he
  | ok access => rw [hd] at he; exact stamped_worth he

include hs hp hprices in
theorem propagates_watch : s.Propagates true inbound w
    ((s.watch ⟨⟨perAddress⟩, inbound⟩).perform w).1
    ((s.watch ⟨⟨perAddress⟩, inbound⟩).perform w).2 := by
  obtain ⟨t, leaves, hops⟩ := leaves_watch_over hs hp hprices ⟨⟨perAddress⟩, inbound⟩ w
  refine propagates_of_hops hs leaves.grown hops fun e he => ?_
  rw [leaves.fst_eq] at he
  cases hd : Validator.decision answer inbound with
  | error f => rw [hd] at he; cases he
  | ok access => rw [hd] at he; exact stamped_source he

/-- Callers with the same credentials ask the price service for the same. -/
theorem Hops.priced_congr {streamed : Bool} {inbound inbound' : Metadata} {t t' : Trace}
    (h : Hops answer streamed inbound t) (h' : Hops answer streamed inbound' t')
    (same : Validator.decision answer inbound = Validator.decision answer inbound') :
    t.priced = t'.priced := by
  cases hd : Validator.decision answer inbound with
  | error f =>
    rw [h.rejected f hd, h'.rejected f (same ▸ hd)]
  | ok access =>
    rw [(h.validated access hd).2, (h'.validated access (same ▸ hd)).2]

end Over

/-- The calls of two callers come to the same and show the price service the same. -/
def Alike {α : Type} (first second : Item α × World) : Prop :=
  first.1 = second.1 ∧ first.2.priceCalls = second.2.priceCalls

/-- The account service sees the routing hint of a caller and the price service its credentials, at
the tier that was asked for and validated; what the price service asks on its own carries nothing,
and a response names the instance that made it. So the routing hint and all that a caller adds
change nothing that the wallet service says, as long as no answer hangs on the routing hint. -/
theorem credentials_travel_and_nothing_else
    {answer answer' : String → Metadata → Item (Envelope UserInfo)} {s : WalletService}
    {p : PriceService} (hs : s.validator.Asks answer) (hp : p.validator.Asks answer')
    (hprices : s.prices = p.api.recorded) :
    (∀ inbound perAddress w, s.Propagates false inbound w
      ((s.fetch ⟨⟨perAddress⟩, inbound⟩).perform w).1
      ((s.fetch ⟨⟨perAddress⟩, inbound⟩).perform w).2) ∧
    (∀ inbound perAddress w, s.Propagates true inbound w
      ((s.watch ⟨⟨perAddress⟩, inbound⟩).perform w).1
      ((s.watch ⟨⟨perAddress⟩, inbound⟩).perform w).2) ∧
    (Validator.RouteBlind answer → ∀ (inbound inbound' : Metadata) perAddress w,
      inbound.get? Metadata.authorizationKey = inbound'.get? Metadata.authorizationKey →
      inbound.get? Metadata.membershipKey = inbound'.get? Metadata.membershipKey →
      Alike ((s.fetch ⟨⟨perAddress⟩, inbound⟩).perform w)
          ((s.fetch ⟨⟨perAddress⟩, inbound'⟩).perform w) ∧
        Alike ((s.watch ⟨⟨perAddress⟩, inbound⟩).perform w)
          ((s.watch ⟨⟨perAddress⟩, inbound'⟩).perform w)) := by
  refine ⟨propagates_fetch hs hp hprices, propagates_watch hs hp hprices, ?_⟩
  intro blind inbound inbound' perAddress w hauthorization hmembership
  have same := Validator.decision_congr blind hauthorization hmembership
  constructor
  · obtain ⟨t, leaves, hops⟩ := leaves_fetch_over hs hp hprices ⟨⟨perAddress⟩, inbound⟩ w
    obtain ⟨t', leaves', hops'⟩ := leaves_fetch_over hs hp hprices ⟨⟨perAddress⟩, inbound'⟩ w
    refine ⟨?_, ?_⟩
    · rw [leaves.fst_eq, leaves'.fst_eq, same]
    · rw [leaves.grown.priced, leaves'.grown.priced, hops.priced_congr hops' same]
  · obtain ⟨t, leaves, hops⟩ := leaves_watch_over hs hp hprices ⟨⟨perAddress⟩, inbound⟩ w
    obtain ⟨t', leaves', hops'⟩ := leaves_watch_over hs hp hprices ⟨⟨perAddress⟩, inbound'⟩ w
    refine ⟨?_, ?_⟩
    · rw [leaves.fst_eq, leaves'.fst_eq, same]
    · rw [leaves.grown.priced, leaves'.grown.priced, hops.priced_congr hops' same]

/-- A process whose account service knows one user. -/
def oneCaller : Wiring where
  ledger := .ofHoldings [⟨"u", "a", 3⟩]
  account? := some (.ok ⟨⟨"u", .premium⟩, ∅⟩)

/-- Credentials in odd letters, a routing hint, and a host name that is not the caller's to give. -/
def talkative : Metadata :=
  (((Metadata.empty.insert "hostname" "spoofed").insert "ROUTE" "r").insert "Membership"
    "normal").insert "AUTHORIZATION" "t"

theorem presents_talkative : Validator.Presents talkative "t" .normal ∧
    talkative.get? Metadata.routeKey = some "r" := by
  have host : Metadata.normalise "hostname" = "hostname" := Metadata.normalise_hostnameKey
  have route : Metadata.normalise "ROUTE" = "route" := by decide +kernel
  have membership : Metadata.normalise "Membership" = "membership" := by decide +kernel
  have authorization : Metadata.normalise "AUTHORIZATION" = "authorization" := by decide +kernel
  refine ⟨⟨?_, by decide, ?_⟩, ?_⟩
  · simp only [talkative, Metadata.get?_insert, Metadata.normalise_authorizationKey, host, route,
      membership, authorization]
    simp [Metadata.authorizationKey]
  · simp only [talkative, Metadata.get?_insert, Metadata.normalise_membershipKey, host, route,
      membership, authorization]
    simp [Metadata.membershipKey, Tier.literal]
  · simp only [talkative, Metadata.get?_insert, Metadata.normalise_routeKey, host, route,
      membership, authorization]
    simp [Metadata.routeKey]

theorem only_credentials_of_a_talkative_caller_travel :
    (∃ toAccount toPrice fromPrice : Metadata, toAccount.toList = [("route", "r")] ∧
      toPrice.toList = [("authorization", "t"), ("membership", "normal")] ∧
      fromPrice.toList = [] ∧
      (((oneCaller.walletService .wallet).fetch ⟨⟨true⟩, talkative⟩).perform {}).2.resolveCalls =
        [⟨"t", toAccount⟩, ⟨"t", fromPrice⟩] ∧
      (((oneCaller.walletService .wallet).fetch ⟨⟨true⟩, talkative⟩).perform {}).2.priceCalls =
        [⟨false, toPrice⟩]) ∧
      Alike (((oneCaller.walletService .wallet).watch ⟨⟨true⟩, talkative⟩).perform {})
        (((oneCaller.walletService .wallet).watch
          ⟨⟨true⟩, Metadata.credentials "t" .normal⟩).perform {}) := by
  obtain ⟨travels, -, alike⟩ := credentials_travel_and_nothing_else
    (s := oneCaller.walletService .wallet) (oneCaller.asks .wallet)
    (p := oneCaller.priceService .wallet) (oneCaller.asks .wallet) rfl
  obtain ⟨presents, hinted⟩ := presents_talkative
  have same := Validator.presents_credentials presents.token_ne .normal
  have validated := (Validator.leaves_validate (oneCaller.asks .wallet) talkative {}).fst_eq
  rw [Validator.decision_of_presents presents] at validated
  obtain ⟨-, toAccount, toPrice, fromPrice, h₁, h₂, h₃, h₄, h₅⟩ :=
    (travels talkative true {}).validated _ _ _ presents validated
  rw [Validator.hint, hinted] at h₁
  have blind : Validator.RouteBlind oneCaller.knows := fun _ _ _ _ => rfl
  refine ⟨⟨toAccount, toPrice, fromPrice, h₁, h₂, h₃, h₄, h₅⟩, ?_⟩
  exact (alike blind talkative _ true {} (presents.token_eq.trans same.token_eq.symm)
    (presents.tier_eq.trans same.tier_eq.symm)).2

end WalletService

end WalletWatch
