import WalletWatch.Proofs.Service.Agreement
import WalletWatch.Proofs.Service.Propagation

set_option autoImplicit false

/-!
# How often callers are validated

A call of the price service validates its caller once. A call of the wallet service does so once if
it turns the caller down, and a second time at the price service if it does not. Each validation is
counted, and asks the account service if there are credentials to ask about.
-/

namespace WalletWatch

/-- A validation: the process that counts it, what the caller sent, and how it went. -/
structure Validation where
  home : Role
  inbound : Metadata
  authorized : Bool

namespace World

def tally (w : World) (home : Role) (authorized : Bool) : UInt64 :=
  (w.metrics home).validations.get (Metrics.outcome authorized)

/-- The second world is the first with some validations in it, and no others. -/
structure Accounts (w w' : World) (made : List Validation) : Prop where
  asked : w'.resolveCalls = w.resolveCalls ++ made.flatMap fun v => Validator.inquiry v.inbound
  counted : ∀ home authorized, w'.tally home authorized = w.tally home authorized +
    UInt64.ofNat (made.countP fun v => v.home = home ∧ v.authorized = authorized)

/-- Nobody is validated between two worlds. -/
structure Idle (w w' : World) : Prop where
  resolveCalls : w'.resolveCalls = w.resolveCalls
  validations : ∀ home, (w'.metrics home).validations = (w.metrics home).validations

theorem Idle.refl (w : World) : w.Idle w := ⟨rfl, fun _ => rfl⟩

theorem Idle.trans {w w' w'' : World} (h : w.Idle w') (h' : w'.Idle w'') : w.Idle w'' :=
  ⟨h'.resolveCalls.trans h.resolveCalls,
    fun home => (h'.validations home).trans (h.validations home)⟩

theorem idle_say (w : World) (e : LogEvent) : w.Idle (w.say e) := ⟨rfl, fun _ => rfl⟩

theorem idle_count (w : World) (home : Role) (change : Metrics → Metrics)
    (h : ∀ m, (change m).validations = m.validations) : w.Idle (w.count home change) := by
  refine ⟨rfl, fun other => ?_⟩
  rw [metrics_count]
  split
  · exact h _
  · rfl

theorem Idle.accounts {w w' : World} (h : w.Idle w') : w.Accounts w' [] := by
  refine ⟨h.resolveCalls.trans (List.append_nil _).symm, fun home authorized => ?_⟩
  unfold tally
  rw [h.validations home]
  exact (UInt64.add_zero _).symm

theorem Accounts.trans {w w' w'' : World} {made more : List Validation} (h : w.Accounts w' made)
    (h' : w'.Accounts w'' more) : w.Accounts w'' (made ++ more) where
  asked := by rw [h'.asked, h.asked, List.flatMap_append, List.append_assoc]
  counted := by
    intro home authorized
    rw [h'.counted, h.counted, List.countP_append, UInt64.ofNat_add, UInt64.add_assoc]

end World

/-- Some validations are made on the way of a call, whatever it gives. -/
def Call.Makes {α : Type} (c : Call α) (w : World) (made : List Validation) : Prop :=
  w.Accounts (c.perform w).2 made

/-- A call that validates nobody. -/
def Call.Idle {α : Type} (c : Call α) : Prop := c.Keeps World.Idle

namespace Call

variable {α β : Type} {c : Call α} {k : α → Call β} {w : World} {made more : List Validation}

theorem idle_ofItem (i : Item α) : (ofItem i).Idle := fun w => .refl w

theorem idle_pure (a : α) : (pure a : Call α).Idle := fun w => .refl w

theorem idle_say (e : LogEvent) : (say e).Idle := fun w => w.idle_say e

theorem idle_sample : sample.Idle := fun _ => ⟨rfl, fun _ => rfl⟩

theorem idle_opened (home : Role) (service : String) : (count home (·.opened service)).Idle :=
  fun w => w.idle_count home (·.opened service) fun _ => rfl

theorem idle_note (call : PriceCall) :
    (modify fun w => { w with priceCalls := w.priceCalls ++ [call] } : Call Unit).Idle :=
  fun _ => ⟨rfl, fun _ => rfl⟩

theorem Idle.makes (hc : c.Idle) (w : World) : c.Makes w [] := (hc w).accounts

theorem Idle.bind (hc : c.Idle) (hk : ∀ a, (k a).Idle) : (c >>= k).Idle :=
  Keeps.bind World.Idle.trans hc hk

theorem Makes.bind_idle (hc : c.Makes w made) (hk : ∀ a, (k a).Idle) : (c >>= k).Makes w made := by
  unfold Makes at hc ⊢
  rw [perform_bind]
  generalize c.perform w = called at hc ⊢
  obtain ⟨r, w'⟩ := called
  cases r with
  | error f => exact hc
  | ok a =>
    have whole := hc.trans (hk a w').accounts
    rwa [List.append_nil] at whole

theorem Makes.bind_ok {a : α} (hr : (c.perform w).1 = .ok a) (hc : c.Makes w made)
    (hk : ∀ w', (k a).Makes w' more) : (c >>= k).Makes w (made ++ more) := by
  unfold Makes at hc ⊢
  rw [perform_bind]
  generalize c.perform w = called at hr hc ⊢
  obtain ⟨r, w'⟩ := called
  subst hr
  exact hc.trans (hk w')

theorem Makes.bind_error {f : Failure} (hr : (c.perform w).1 = .error f) (hc : c.Makes w made)
    (k : α → Call β) : (c >>= k).Makes w made := by
  unfold Makes at hc ⊢
  rw [perform_bind]
  generalize c.perform w = called at hr hc ⊢
  obtain ⟨r, w'⟩ := called
  subst hr
  exact hc

theorem Makes.within (hc : c.Makes w made) (context : String) :
    (c.within context).Makes w made := by
  unfold Makes at hc ⊢
  rw [perform_within]
  exact hc

end Call

/-! ## The account service and validations -/

theorem AccountService.idle_api (s : AccountService) (request : Envelope ResolveRequest) :
    (s.api.resolve request).Idle :=
  s.keeps_resolve .refl (fun w _ => w.idle_say _) request

theorem Metrics.validations_count (w : World) (home other : Role) (authorized asked : Bool) :
    (w.count home (·.validated authorized)).tally other asked =
      w.tally other asked +
        UInt64.ofNat (if home = other ∧ authorized = asked then 1 else 0) := by
  unfold World.tally
  rw [World.metrics_count]
  by_cases h : other = home
  · subst h
    rw [if_pos rfl, Metrics.get_validated]
    by_cases same : authorized = asked
    · simp [same]
    · simp [same]
  · have h' : ¬ home = other := fun e => h e.symm
    simp [h, h']

namespace Validator

theorem idle_remarks (token : String) (requested : Tier) (w : World)
    (answer : Item (Envelope UserInfo)) : w.Idle (remarks token requested w answer) := by
  refine ⟨remarks_resolveCalls token requested w answer, fun home => ?_⟩
  rw [remarks_metrics]

/-- The account service is asked by the inquiry of the caller and not otherwise. -/
theorem resolveCalls_check {a : AccountApi} (ha : ∀ request, (a.resolve request).Idle)
    (inbound : Metadata) (w : World) :
    ((check a.recorded inbound).perform w).2.resolveCalls = w.resolveCalls ++ inquiry inbound ∧
      ∀ home, (((check a.recorded inbound).perform w).2.metrics home).validations =
        (w.metrics home).validations := by
  by_cases h : ∃ token requested, Presents inbound token requested
  · obtain ⟨token, requested, h⟩ := h
    have resolved := ha ⟨⟨token⟩, outbound inbound⟩ (AccountApi.noted w token (outbound inbound))
    rw [check_of_presents _ h, perform_ask, AccountApi.perform_resolve_recorded,
      inquiry_of_presents h]
    generalize (a.resolve ⟨⟨token⟩, outbound inbound⟩).perform
      (AccountApi.noted w token (outbound inbound)) = made at resolved ⊢
    have whole := resolved.trans (idle_remarks token requested made.2 made.1)
    exact ⟨whole.resolveCalls, whole.validations⟩
  · have absent : ∀ token requested, ¬ Presents inbound token requested :=
      fun token requested h' => h ⟨token, requested, h'⟩
    obtain ⟨unasked, -⟩ : inquiry inbound = [] ∧
        ∃ f, decision (fun _ _ => .error ⟨.internal, ""⟩) inbound = .error f :=
      inquiry_of_absent absent
    obtain ⟨f, -, rejected⟩ := perform_check_of_absent a.recorded absent w
    rw [rejected, unasked]
    exact ⟨(List.append_nil _).symm, fun _ => rfl⟩

/-- Each validation counts once, and asks once if there is something to ask about. -/
theorem makes_validate {v : Validator} {a : AccountApi} (hv : v.resolver = a.recorded)
    (ha : ∀ request, (a.resolve request).Idle) (inbound : Metadata) (w : World) :
    (v.validate inbound).Makes w
      [⟨v.home, inbound, ((v.validate inbound).perform w).1.isOk⟩] := by
  obtain ⟨asked, kept⟩ := resolveCalls_check ha inbound w
  unfold Call.Makes
  rw [perform_validate, hv]
  generalize (check a.recorded inbound).perform w = checked at asked kept ⊢
  refine ⟨?_, fun home authorized => ?_⟩
  · rw [World.count_resolveCalls, asked]
    simp
  · rw [Metrics.validations_count, List.countP_singleton]
    unfold World.tally
    rw [kept home]
    simp

end Validator

namespace Wiring

variable (wiring : Wiring) (home : Role) (inbound : Metadata) (w : World)

/-- A validation in the services of one process. -/
def judged : Validation := ⟨home, inbound, (Validator.decision wiring.knows inbound).isOk⟩

theorem makes_validate :
    ((wiring.validator home).validate inbound).Makes w [wiring.judged home inbound] := by
  have decided := wiring.validate_eq home inbound w
  have made : ∀ a : AccountApi, wiring.account = a.recorded →
      (∀ request, (a.resolve request).Idle) →
        ((wiring.validator home).validate inbound).Makes w [wiring.judged home inbound] := by
    intro a ha idle
    have whole := Validator.makes_validate (v := wiring.validator home) ha idle inbound w
    rw [decided] at whole
    exact whole
  unfold account at made
  cases h : wiring.account? with
  | some answer =>
    simp only [h] at made
    exact made _ rfl fun _ => Call.idle_ofItem answer
  | none =>
    simp only [h] at made
    exact made _ rfl wiring.accountService.idle_api

theorem tally_of_judged {w' : World} {examined : List Metadata}
    (h : w.Accounts w' (examined.map (wiring.judged home))) (authorized : Bool) :
    w'.tally home authorized = w.tally home authorized + UInt64.ofNat
      (examined.countP fun m => (Validator.decision wiring.knows m).isOk = authorized) := by
  rw [h.counted, List.countP_map]
  refine congrArg (w.tally home authorized + UInt64.ofNat ·) (List.countP_congr fun m _ => ?_)
  exact (decide_eq_true_iff.trans (and_iff_right rfl)).trans decide_eq_true_iff.symm

theorem asked_of_judged {w' : World} {examined : List Metadata}
    (h : w.Accounts w' (examined.map (wiring.judged home))) :
    w'.resolveCalls = w.resolveCalls ++ examined.flatMap Validator.inquiry := by
  rw [h.asked, List.flatMap_map]
  rfl

/-- Who is let through presented credentials, and is let through again with what it goes on with. -/
theorem decision_forward {wiring : Wiring} {inbound : Metadata} {access : Access}
    (h : Validator.decision wiring.knows inbound = .ok access) :
    Validator.Presents inbound access.token access.requested ∧
      Validator.Presents access.forward access.token access.requested ∧
      Validator.decision wiring.knows access.forward = .ok access := by
  by_cases presents : ∃ token requested, Validator.Presents inbound token requested
  · obtain ⟨token, requested, presents⟩ := presents
    have again := Validator.presents_credentials presents.token_ne requested
    rw [Validator.decision_of_presents presents] at h
    cases said : wiring.knows token (Validator.outbound inbound) with
    | error f =>
      rw [said] at h
      cases h
    | ok user =>
      rw [said] at h
      obtain ⟨actual, -, -, rfl⟩ :=
        (Validator.ruling_eq_ok_iff token requested user.payload access).mp h
      exact ⟨presents, again, (Validator.decision_of_presents again).trans (said ▸ h)⟩
  · obtain ⟨-, f, rejected⟩ : Validator.inquiry inbound = [] ∧
        ∃ f, Validator.decision wiring.knows inbound = .error f :=
      Validator.inquiry_of_absent fun token requested h' => presents ⟨token, requested, h'⟩
    cases rejected.symm.trans h

section InProcess

variable {wiring} (inProcess : wiring.prices? = none)

/-- A call of the price service begins with a validation, and validates nobody afterwards. -/
theorem makes_accept (request : Envelope PriceRequest) :
    ((wiring.priceService home).accept request).Makes w [wiring.judged home request.metadata] :=
  (wiring.makes_validate home request.metadata w).bind_idle fun access =>
    (Call.idle_ofItem (access.gate wiring.premiumOnly)).bind fun _ => Call.idle_pure access

include inProcess in
theorem makes_price_fetch :
    ((wiring.price home).fetch ⟨{}, inbound⟩).Makes w [wiring.judged home inbound] := by
  rw [price_eq_recorded inProcess]
  refine ((Call.idle_note ⟨false, inbound⟩).makes w).bind_ok rfl fun w' => ?_
  exact (makes_accept home w' ⟨{}, inbound⟩).bind_idle fun _ =>
    Call.idle_sample.bind fun _ => Call.idle_pure _

include inProcess in
theorem makes_price_watch :
    ((wiring.price home).watch ⟨{}, inbound⟩).Makes w [wiring.judged home inbound] := by
  rw [price_eq_recorded inProcess]
  refine ((Call.idle_note ⟨true, inbound⟩).makes w).bind_ok rfl fun w' => ?_
  exact (makes_accept home w' ⟨{}, inbound⟩).bind_idle fun _ =>
    (Call.idle_opened home "price").bind fun _ => (Call.idle_say _).bind fun _ => Call.idle_pure _

/-- What the wallet service sends on behind its own validation. -/
def sentOn (wiring : Wiring) (inbound : Metadata) : List Metadata :=
  match Validator.decision wiring.knows inbound with
  | .ok access => [access.forward]
  | .error _ => []

/-- The wallet service validates its caller and then asks the price service, which validates it
again; what comes behind validates nobody. -/
theorem makes_through_prices {α β : Type} {ask : Access → Call α} {context : String}
    {make : Access → α → Call β}
    (asks : ∀ access w, (ask access).Makes w [wiring.judged home access.forward])
    (idle : ∀ access a, (make access a).Idle) :
    (do
      let access ← (wiring.validator home).validate inbound
      let answer ← (ask access).within context
      make access answer : Call β).Makes w
        ((inbound :: wiring.sentOn inbound).map (wiring.judged home)) := by
  have validated := wiring.makes_validate home inbound w
  have decided := wiring.validate_eq home inbound w
  unfold sentOn
  cases hd : Validator.decision wiring.knows inbound with
  | error f => exact validated.bind_error (decided.trans hd) _
  | ok access =>
    refine validated.bind_ok (decided.trans hd) fun w' => ?_
    exact ((asks access w').within context).bind_idle (idle access)

include inProcess in
theorem makes_wallet_fetch (perAddress : Bool) :
    ((wiring.wallet home).fetch ⟨⟨perAddress⟩, inbound⟩).Makes w
      ((inbound :: wiring.sentOn inbound).map (wiring.judged home)) := by
  refine makes_through_prices home inbound w
    (fun access w' => makes_price_fetch home access.forward w' inProcess) fun access quote => ?_
  exact (Call.idle_say _).bind fun _ => (Call.idle_say _).bind fun _ =>
    (Call.idle_ofItem _).bind fun _ => Call.idle_pure _

include inProcess in
theorem makes_wallet_watch (perAddress : Bool) :
    ((wiring.wallet home).watch ⟨⟨perAddress⟩, inbound⟩).Makes w
      ((inbound :: wiring.sentOn inbound).map (wiring.judged home)) := by
  refine makes_through_prices home inbound w
    (fun access w' => makes_price_watch home access.forward w' inProcess) fun access opened => ?_
  exact (Call.idle_say _).bind fun _ => (Call.idle_opened home "wallet").bind fun _ =>
    (Call.idle_say _).bind fun _ => Call.idle_pure _

end InProcess

end Wiring

end WalletWatch
