import WalletWatch.Chain.Wiring
import WalletWatch.Proofs.Service.Validation

set_option autoImplicit false

/-!
# What calls leave behind

Next to its result a call leaves requests to other services, samples of the feed, and streams that
count as open. Both are told here by the request alone, one equation for each call of each service,
where the account service is any function of the request.
-/

namespace WalletWatch

/-- What a call leaves behind. Its log and the counts of validations and updates are left out. -/
structure Trace where
  resolved : List ResolveCall := []
  priced : List PriceCall := []
  sampled : Nat := 0
  /-- The streams that count as open from here on, each with the process that counts it. -/
  opened : List (Role × String) := []

namespace Trace

instance : Append Trace where
  append t t' := ⟨t.resolved ++ t'.resolved, t.priced ++ t'.priced, t.sampled + t'.sampled,
    t.opened ++ t'.opened⟩

@[simp] theorem resolved_append (t t' : Trace) : (t ++ t').resolved = t.resolved ++ t'.resolved :=
  rfl

@[simp] theorem priced_append (t t' : Trace) : (t ++ t').priced = t.priced ++ t'.priced := rfl

@[simp] theorem sampled_append (t t' : Trace) : (t ++ t').sampled = t.sampled + t'.sampled := rfl

@[simp] theorem opened_append (t t' : Trace) : (t ++ t').opened = t.opened ++ t'.opened := rfl

@[simp] theorem nil_append (t : Trace) : {} ++ t = t := by
  obtain ⟨resolved, priced, sampled, opened⟩ := t
  change Trace.mk _ _ (0 + sampled) _ = _
  rw [Nat.zero_add]
  rfl

@[simp] theorem append_nil (t : Trace) : t ++ {} = t := by
  obtain ⟨resolved, priced, sampled, opened⟩ := t
  change Trace.mk (resolved ++ []) (priced ++ []) sampled (opened ++ []) = _
  simp only [List.append_nil]

end Trace

/-- The second world is the first with a trace in it. -/
structure World.Grown (w w' : World) (t : Trace) : Prop where
  resolved : w'.resolveCalls = w.resolveCalls ++ t.resolved
  priced : w'.priceCalls = w.priceCalls ++ t.priced
  sampled : w'.samples = w.samples + t.sampled
  opened : ∀ home service, (w'.metrics home).activeStreams service =
    (w.metrics home).activeStreams service + Int64.ofNat (t.opened.count (home, service))

namespace World

theorem Grown.refl (w : World) : w.Grown w {} where
  resolved := (List.append_nil _).symm
  priced := (List.append_nil _).symm
  sampled := rfl
  opened := fun _ _ => (Int64.add_zero _).symm

theorem Grown.trans {w w' w'' : World} {t t' : Trace} (h : w.Grown w' t) (h' : w'.Grown w'' t') :
    w.Grown w'' (t ++ t') where
  resolved := by rw [h'.resolved, h.resolved, Trace.resolved_append, List.append_assoc]
  priced := by rw [h'.priced, h.priced, Trace.priced_append, List.append_assoc]
  sampled := by rw [h'.sampled, h.sampled, Trace.sampled_append, Nat.add_assoc]
  opened := by
    intro home service
    rw [h'.opened, h.opened, Trace.opened_append, List.count_append, Int64.ofNat_add,
      Int64.add_assoc]

theorem grown_say (w : World) (e : LogEvent) : w.Grown (w.say e) {} :=
  ⟨(List.append_nil _).symm, (List.append_nil _).symm, rfl, fun _ _ => (Int64.add_zero _).symm⟩

theorem metrics_count (w : World) (home other : Role) (change : Metrics → Metrics) :
    (w.count home change).metrics other =
      if other = home then change (w.metrics other) else w.metrics other := rfl

theorem grown_count {change : Metrics → Metrics} (h : ∀ m, (change m).active = m.active) (w : World)
    (home : Role) : w.Grown (w.count home change) {} where
  resolved := (List.append_nil _).symm
  priced := (List.append_nil _).symm
  sampled := rfl
  opened := by
    intro other service
    unfold Metrics.activeStreams
    rw [metrics_count]
    split
    · rw [h]
      exact (Int64.add_zero _).symm
    · exact (Int64.add_zero _).symm

theorem grown_opened (w : World) (home : Role) (service : String) :
    w.Grown (w.count home (·.opened service)) { opened := [(home, service)] } where
  resolved := (List.append_nil _).symm
  priced := (List.append_nil _).symm
  sampled := rfl
  opened := by
    intro other service'
    rw [metrics_count]
    by_cases hrole : other = home
    · subst hrole
      rw [if_pos rfl, Metrics.activeStreams_opened, List.count_singleton]
      by_cases hservice : service = service'
      · simp [hservice]
      · simp [hservice]
    · rw [if_neg hrole, List.count_singleton, if_neg (by simpa using fun h => absurd h.symm hrole)]
      exact (Int64.add_zero _).symm

end World

/-- A call gives a result and leaves a trace. -/
def Call.Leaves {α : Type} (c : Call α) (w : World) (r : Item α) (t : Trace) : Prop :=
  ∃ w', c.perform w = (r, w') ∧ w.Grown w' t

namespace Call

variable {α β : Type} {c : Call α} {w : World} {t t' : Trace}

theorem leaves_ofItem (i : Item α) (w : World) : (ofItem i).Leaves w i {} := ⟨w, rfl, .refl w⟩

theorem leaves_say (e : LogEvent) (w : World) : (say e).Leaves w (.ok ()) {} :=
  ⟨_, rfl, w.grown_say e⟩

theorem leaves_sample (w : World) : sample.Leaves w (.ok w.samples) { sampled := 1 } :=
  ⟨_, rfl, (List.append_nil _).symm, (List.append_nil _).symm, rfl,
    fun _ _ => (Int64.add_zero _).symm⟩

theorem leaves_opened (home : Role) (service : String) (w : World) :
    (count home (·.opened service)).Leaves w (.ok ()) { opened := [(home, service)] } :=
  ⟨_, rfl, w.grown_opened home service⟩

theorem Leaves.bind_ok {a : α} {k : α → Call β} {r : Item β} (hc : c.Leaves w (.ok a) t)
    (hk : ∀ w', w.Grown w' t → (k a).Leaves w' r t') : (c >>= k).Leaves w r (t ++ t') := by
  obtain ⟨w', made, grown⟩ := hc
  obtain ⟨w'', made', grown'⟩ := hk w' grown
  exact ⟨w'', (perform_bind_ok k made).trans made', grown.trans grown'⟩

theorem Leaves.silent_bind {a : α} {k : α → Call β} {r : Item β} (hc : c.Leaves w (.ok a) {})
    (hk : ∀ w', w.Grown w' {} → (k a).Leaves w' r t') : (c >>= k).Leaves w r t' := by
  have whole := hc.bind_ok hk
  rwa [Trace.nil_append] at whole

theorem Leaves.bind_silent {a : α} {k : α → Call β} {r : Item β} (hc : c.Leaves w (.ok a) t)
    (hk : ∀ w', w.Grown w' t → (k a).Leaves w' r {}) : (c >>= k).Leaves w r t := by
  have whole := hc.bind_ok hk
  rwa [Trace.append_nil] at whole

theorem Leaves.bind_error {f : Failure} (hc : c.Leaves w (.error f) t) (k : α → Call β) :
    (c >>= k).Leaves w (.error f) t := by
  obtain ⟨w', made, grown⟩ := hc
  exact ⟨w', perform_bind_error k made, grown⟩

theorem Leaves.within {r : Item α} (hc : c.Leaves w r t) (context : String) :
    (c.within context).Leaves w (r.mapError (·.wrap context)) t := by
  obtain ⟨w', made, grown⟩ := hc
  exact ⟨w', by rw [perform_within, made], grown⟩

theorem Leaves.fst_eq {r : Item α} (h : c.Leaves w r t) : (c.perform w).1 = r := by
  obtain ⟨w', made, -⟩ := h
  rw [made]

theorem Leaves.grown {r : Item α} (h : c.Leaves w r t) : w.Grown (c.perform w).2 t := by
  obtain ⟨w', made, grown⟩ := h
  rwa [made]

end Call

/-! ## The account service and validations -/

/-- An account service whose answer is a function of the request and that leaves log events only. -/
def AccountApi.Answers (a : AccountApi) (answer : String → Metadata → Item (Envelope UserInfo)) :
    Prop :=
  ∀ request w, (a.resolve request).Leaves w (answer request.payload.token request.metadata) {}

/-- What is known about a token. -/
def AccountService.answer (s : AccountService) (token : String) : Item (Envelope UserInfo) :=
  match s.directory.lookup? token with
  | none => .error ⟨.notFound, "unrecognized user token"⟩
  | some r => .ok (.fromHost ⟨r.name, r.tier.membership⟩ s.hostname)

theorem AccountService.answers (s : AccountService) :
    s.api.Answers fun token _ => s.answer token := by
  intro request w
  change (s.resolve request).Leaves w (s.answer request.payload.token) {}
  have looked : ∀ w : World, Call.Leaves
      (match s.directory.lookup? request.payload.token with
        | none => throw ⟨.notFound, "unrecognized user token"⟩
        | some r => pure (.fromHost ⟨r.name, r.tier.membership⟩ s.hostname)) w
      (s.answer request.payload.token) {} := by
    intro w
    unfold answer
    cases s.directory.lookup? request.payload.token with
    | none => exact ⟨w, rfl, .refl w⟩
    | some r => exact ⟨w, rfl, .refl w⟩
  unfold resolve
  cases request.metadata.get? Metadata.routeKey with
  | none => exact looked w
  | some route => exact (Call.leaves_say _ w).silent_bind fun w' _ => looked w'

theorem AccountApi.answers_constant (answer : Item (Envelope UserInfo)) :
    (AccountApi.constant answer).Answers fun _ _ => answer :=
  fun _ w => Call.leaves_ofItem answer w

namespace Validator

/-- What is decided about a caller, where `answer` is what the account service says. -/
def decision (answer : String → Metadata → Item (Envelope UserInfo)) (inbound : Metadata) :
    Item Access :=
  match token? inbound with
  | none => .error ⟨.unauthenticated, "missing user authentication"⟩
  | some token => match requested? inbound with
    | none => .error ⟨.unauthenticated, "unknown user membership"⟩
    | some requested => verdict token requested (answer token (outbound inbound))

/-- The request that a validation makes, if there are credentials. -/
def inquiry (inbound : Metadata) : List ResolveCall :=
  match token? inbound, requested? inbound with
  | some token, some _ => [⟨token, outbound inbound⟩]
  | _, _ => []

/-- A validator that asks an account service with these answers and keeps a record of it. -/
def Asks (v : Validator) (answer : String → Metadata → Item (Envelope UserInfo)) : Prop :=
  ∃ a : AccountApi, a.Answers answer ∧ v.resolver = a.recorded

variable {answer : String → Metadata → Item (Envelope UserInfo)}

theorem leaves_check {a : AccountApi} (ha : a.Answers answer) (inbound : Metadata) (w : World) :
    (check a.recorded inbound).Leaves w (decision answer inbound)
      { resolved := inquiry inbound } := by
  unfold check decision inquiry
  cases token? inbound with
  | none => exact ⟨w, rfl, .refl w⟩
  | some token =>
    cases requested? inbound with
    | none => exact ⟨w, rfl, .refl w⟩
    | some requested =>
      obtain ⟨w', resolved, grown⟩ := ha ⟨⟨token⟩, outbound inbound⟩
        (AccountApi.noted w token (outbound inbound))
      have noted : w.Grown (AccountApi.noted w token (outbound inbound))
          { resolved := [⟨token, outbound inbound⟩] } :=
        ⟨rfl, (List.append_nil _).symm, rfl, fun _ _ => (Int64.add_zero _).symm⟩
      have asked : (a.recorded.resolve ⟨⟨token⟩, outbound inbound⟩).perform w =
          (answer token (outbound inbound), w') :=
        (AccountApi.perform_resolve_recorded a _ w).trans resolved
      have remarked :
          w'.Grown (remarks token requested w' (answer token (outbound inbound))) {} := by
        cases answer token (outbound inbound) with
        | error f => exact w'.grown_say _
        | ok user => exact (w'.grown_say _).trans (World.grown_say _ _)
      refine ⟨remarks token requested w' (answer token (outbound inbound)), ?_, ?_⟩
      · exact (perform_ask _ _ _ _ _).trans (by rw [asked])
      · have whole := (noted.trans grown).trans remarked
        rwa [Trace.append_nil, Trace.append_nil] at whole

theorem leaves_validate {v : Validator} (hv : v.Asks answer) (inbound : Metadata) (w : World) :
    (v.validate inbound).Leaves w (decision answer inbound) { resolved := inquiry inbound } := by
  obtain ⟨a, ha, hresolver⟩ := hv
  obtain ⟨w', checked, grown⟩ := leaves_check ha inbound w
  refine ⟨w'.count v.home (·.validated (decision answer inbound).isOk), ?_, ?_⟩
  · rw [perform_validate, hresolver, checked]
  · have silent : ∀ m : Metrics, (m.validated (decision answer inbound).isOk).active = m.active :=
      fun _ => rfl
    have whole := grown.trans (World.grown_count silent w' v.home)
    rwa [Trace.append_nil] at whole

end Validator

/-! ## The price service -/

namespace PriceService

variable {answer : String → Metadata → Item (Envelope UserInfo)} {s : PriceService}

/-- What the price service decides about a caller. -/
def admission (answer : String → Metadata → Item (Envelope UserInfo)) (premiumOnly : Bool)
    (inbound : Metadata) : Item Access :=
  (Validator.decision answer inbound).bind fun access =>
    (access.gate premiumOnly).map fun _ => access

theorem leaves_accept (hs : s.validator.Asks answer) (request : Envelope PriceRequest) (w : World) :
    (s.accept request).Leaves w (admission answer s.premiumOnly request.metadata)
      { resolved := Validator.inquiry request.metadata } := by
  have validated := Validator.leaves_validate hs request.metadata w
  unfold accept admission
  cases hd : Validator.decision answer request.metadata with
  | error f =>
    rw [hd] at validated
    exact validated.bind_error _
  | ok access =>
    rw [hd] at validated
    refine validated.bind_silent fun w' _ => ?_
    exact ⟨w', Call.perform_ofItem_map (access.gate s.premiumOnly) (fun _ => access) w', .refl w'⟩

/-- The answer to a request for a single price: the sample of a number. -/
def quote (s : PriceService) (answer : String → Metadata → Item (Envelope UserInfo))
    (inbound : Metadata) (sample : Nat) : Item (Envelope PriceQuote) :=
  (admission answer s.premiumOnly inbound).map fun _ => .fromHost ⟨s.feed sample⟩ s.hostname

/-- The answer to a request for a stream: one sample a period, at the cadence of the tier that was
asked for. -/
def stream (s : PriceService) (answer : String → Metadata → Item (Envelope UserInfo))
    (inbound : Metadata) : Item (Envelope PriceSource) :=
  (admission answer s.premiumOnly inbound).map fun access =>
    .fromHost (.feed s.home access.serviceTier.cadence) s.hostname

/-- What a request leaves behind that is accepted or not, and `more` where it is accepted. -/
def traced (s : PriceService) (answer : String → Metadata → Item (Envelope UserInfo))
    (inbound : Metadata) (more : Trace) : Trace :=
  { resolved := Validator.inquiry inbound } ++
    if (admission answer s.premiumOnly inbound).isOk then more else {}

theorem resolved_traced {more : Trace} (h : more.resolved = []) (inbound : Metadata) :
    (s.traced answer inbound more).resolved = Validator.inquiry inbound := by
  unfold traced
  split <;> simp [h]

theorem priced_traced {more : Trace} (h : more.priced = []) (inbound : Metadata) :
    (s.traced answer inbound more).priced = [] := by
  unfold traced
  split <;> simp [h]

theorem leaves_fetch (hs : s.validator.Asks answer) (request : Envelope PriceRequest) (w : World) :
    (s.fetch request).Leaves w (s.quote answer request.metadata w.samples)
      (s.traced answer request.metadata { sampled := 1 }) := by
  have accepted := leaves_accept hs request w
  unfold fetch quote traced
  cases hd : admission answer s.premiumOnly request.metadata with
  | error f =>
    rw [hd] at accepted
    change Call.Leaves _ w _ ({ resolved := Validator.inquiry request.metadata } ++ {})
    rw [Trace.append_nil]
    exact accepted.bind_error _
  | ok access =>
    rw [hd] at accepted
    refine accepted.bind_ok fun w' grown => ?_
    refine (Call.leaves_sample w').bind_silent fun w'' _ => ?_
    have same : w'.samples = w.samples := grown.sampled
    rw [same]
    exact ⟨w'', rfl, .refl w''⟩

theorem leaves_watch (hs : s.validator.Asks answer) (request : Envelope PriceRequest) (w : World) :
    (s.watch request).Leaves w (s.stream answer request.metadata)
      (s.traced answer request.metadata { opened := [(s.home, "price")] }) := by
  have accepted := leaves_accept hs request w
  unfold watch stream traced
  cases hd : admission answer s.premiumOnly request.metadata with
  | error f =>
    rw [hd] at accepted
    change Call.Leaves _ w _ ({ resolved := Validator.inquiry request.metadata } ++ {})
    rw [Trace.append_nil]
    exact accepted.bind_error _
  | ok access =>
    rw [hd] at accepted
    refine accepted.bind_ok fun w' _ => ?_
    refine (Call.leaves_opened s.home "price" w').bind_silent fun w'' _ => ?_
    refine (Call.leaves_say _ w'').silent_bind fun w₃ _ => ?_
    exact ⟨w₃, rfl, .refl w₃⟩

end PriceService

namespace PriceApi

variable {a : PriceApi} {request : Envelope PriceRequest} {w : World} {t : Trace}

theorem leaves_recorded_fetch {r : Item (Envelope PriceQuote)}
    (h : ∀ w', w'.samples = w.samples → (a.fetch request).Leaves w' r t) :
    (a.recorded.fetch request).Leaves w r ({ priced := [⟨false, request.metadata⟩] } ++ t) := by
  refine Call.Leaves.bind_ok ⟨_, rfl, ?_⟩ fun w' grown => h w' grown.sampled
  exact ⟨(List.append_nil _).symm, rfl, rfl, fun _ _ => (Int64.add_zero _).symm⟩

theorem leaves_recorded_watch {r : Item (Envelope PriceSource)}
    (h : ∀ w', w'.samples = w.samples → (a.watch request).Leaves w' r t) :
    (a.recorded.watch request).Leaves w r ({ priced := [⟨true, request.metadata⟩] } ++ t) := by
  refine Call.Leaves.bind_ok ⟨_, rfl, ?_⟩ fun w' grown => h w' grown.sampled
  exact ⟨(List.append_nil _).symm, rfl, rfl, fun _ _ => (Int64.add_zero _).symm⟩

end PriceApi

namespace PriceService

variable {answer : String → Metadata → Item (Envelope UserInfo)} {s : PriceService}

theorem leaves_recorded_fetch (hs : s.validator.Asks answer) (request : Envelope PriceRequest)
    {w w' : World} (h : w'.samples = w.samples) :
    (s.api.recorded.fetch request).Leaves w' (s.quote answer request.metadata w.samples)
      ({ priced := [⟨false, request.metadata⟩] } ++
        s.traced answer request.metadata { sampled := 1 }) := by
  refine PriceApi.leaves_recorded_fetch fun w'' h' => ?_
  rw [← h, ← h']
  exact leaves_fetch hs request w''

theorem leaves_recorded_watch (hs : s.validator.Asks answer) (request : Envelope PriceRequest)
    (w : World) : (s.api.recorded.watch request).Leaves w (s.stream answer request.metadata)
      ({ priced := [⟨true, request.metadata⟩] } ++
        s.traced answer request.metadata { opened := [(s.home, "price")] }) :=
  PriceApi.leaves_recorded_watch fun w' _ => leaves_watch hs request w'

end PriceService

/-! ## The wallet service -/

namespace WalletService

variable {answer : String → Metadata → Item (Envelope UserInfo)} {s : WalletService}
  {request : Envelope BalanceRequest} {w : World} {t : Trace}

/-- What a single balance comes to for a caller once the price service has answered. -/
def worth (s : WalletService) (access : Access) (perAddress : Bool)
    (quote : Item (Envelope PriceQuote)) : Item (Envelope Balance) :=
  (quote.mapError (·.wrap "could not fetch price")).bind fun q =>
    (s.aggregator.balance access.name q.payload.price perAddress).map (.fromHost · s.hostname)

/-- What a stream of balances comes to. -/
def source (s : WalletService) (access : Access) (perAddress : Bool)
    (opened : Item (Envelope PriceSource)) : Item (Envelope BalanceSource) :=
  (opened.mapError (·.wrap "could not open price stream")).map fun o =>
    .fromHost ⟨access.name, perAddress, s.aggregator, o.payload, s.home⟩ s.hostname

theorem leaves_fetch_of_rejected (hs : s.validator.Asks answer) {f : Failure}
    (h : Validator.decision answer request.metadata = .error f) :
    (s.fetch request).Leaves w (.error f) { resolved := Validator.inquiry request.metadata } := by
  have validated := Validator.leaves_validate hs request.metadata w
  rw [h] at validated
  exact validated.bind_error _

theorem leaves_watch_of_rejected (hs : s.validator.Asks answer) {f : Failure}
    (h : Validator.decision answer request.metadata = .error f) :
    (s.watch request).Leaves w (.error f) { resolved := Validator.inquiry request.metadata } := by
  have validated := Validator.leaves_validate hs request.metadata w
  rw [h] at validated
  exact validated.bind_error _

theorem leaves_fetch_of_validated (hs : s.validator.Asks answer) {access : Access}
    (h : Validator.decision answer request.metadata = .ok access)
    {quote : Item (Envelope PriceQuote)}
    (hprice : ∀ w', w'.samples = w.samples →
      (s.prices.fetch ⟨{}, access.forward⟩).Leaves w' quote t) :
    (s.fetch request).Leaves w (s.worth access request.payload.perAddress quote)
      ({ resolved := Validator.inquiry request.metadata } ++ t) := by
  have validated := Validator.leaves_validate hs request.metadata w
  rw [h] at validated
  refine validated.bind_ok fun w' grown => ?_
  have priced := (hprice w' grown.sampled).within "could not fetch price"
  cases quote with
  | error f => exact priced.bind_error _
  | ok q =>
    refine priced.bind_silent fun w'' _ => ?_
    refine (Call.leaves_say _ w'').silent_bind fun w₃ _ => ?_
    refine (Call.leaves_say _ w₃).silent_bind fun w₄ _ => ?_
    exact ⟨w₄, Call.perform_ofItem_map _ (Envelope.fromHost · s.hostname) w₄, .refl w₄⟩

theorem leaves_watch_of_validated (hs : s.validator.Asks answer) {access : Access}
    (h : Validator.decision answer request.metadata = .ok access)
    {opened : Item (Envelope PriceSource)}
    (hprice : ∀ w', w'.samples = w.samples →
      (s.prices.watch ⟨{}, access.forward⟩).Leaves w' opened t) :
    (s.watch request).Leaves w (s.source access request.payload.perAddress opened)
      ({ resolved := Validator.inquiry request.metadata } ++
        (t ++ if opened.isOk then { opened := [(s.home, "wallet")] } else {})) := by
  have validated := Validator.leaves_validate hs request.metadata w
  rw [h] at validated
  refine validated.bind_ok fun w' grown => ?_
  have asked := (hprice w' grown.sampled).within "could not open price stream"
  cases opened with
  | error f =>
    change Call.Leaves _ w' _ (t ++ {})
    rw [Trace.append_nil]
    exact asked.bind_error _
  | ok o =>
    refine asked.bind_ok fun w'' _ => ?_
    refine (Call.leaves_say _ w'').silent_bind fun w₃ _ => ?_
    refine (Call.leaves_opened s.home "wallet" w₃).bind_silent fun w₄ _ => ?_
    refine (Call.leaves_say _ w₄).silent_bind fun w₅ _ => ?_
    exact ⟨w₅, rfl, .refl w₅⟩

/-- The trace of a call of the wallet service: where the caller is validated, the price service is
asked with the credentials and validates them again. -/
structure Hops (answer : String → Metadata → Item (Envelope UserInfo)) (streamed : Bool)
    (inbound : Metadata) (t : Trace) : Prop where
  rejected : ∀ f, Validator.decision answer inbound = .error f →
    t = { resolved := Validator.inquiry inbound }
  validated : ∀ access, Validator.decision answer inbound = .ok access →
    t.resolved = Validator.inquiry inbound ++ Validator.inquiry access.forward ∧
      t.priced = [⟨streamed, access.forward⟩]

variable {answer' : String → Metadata → Item (Envelope UserInfo)} {p : PriceService}

theorem leaves_fetch_over (hs : s.validator.Asks answer) (hp : p.validator.Asks answer')
    (hprices : s.prices = p.api.recorded) (request : Envelope BalanceRequest) (w : World) :
    ∃ t, (s.fetch request).Leaves w
      ((Validator.decision answer request.metadata).bind fun access =>
        s.worth access request.payload.perAddress (p.quote answer' access.forward w.samples)) t ∧
      Hops answer false request.metadata t := by
  cases hd : Validator.decision answer request.metadata with
  | error f =>
    refine ⟨_, leaves_fetch_of_rejected hs hd, fun _ _ => rfl, fun access h => ?_⟩
    cases hd.symm.trans h
  | ok access =>
    have priced := fun (w' : World) (h : w'.samples = w.samples) =>
      p.leaves_recorded_fetch hp ⟨{}, access.forward⟩ h
    rw [← hprices] at priced
    refine ⟨_, leaves_fetch_of_validated hs hd priced, fun f h => ?_, fun access' h => ?_⟩
    · cases hd.symm.trans h
    · cases hd.symm.trans h
      exact ⟨by simp [PriceService.resolved_traced], by simp [PriceService.priced_traced]⟩

theorem leaves_watch_over (hs : s.validator.Asks answer) (hp : p.validator.Asks answer')
    (hprices : s.prices = p.api.recorded) (request : Envelope BalanceRequest) (w : World) :
    ∃ t, (s.watch request).Leaves w
      ((Validator.decision answer request.metadata).bind fun access =>
        s.source access request.payload.perAddress (p.stream answer' access.forward)) t ∧
      Hops answer true request.metadata t := by
  cases hd : Validator.decision answer request.metadata with
  | error f =>
    refine ⟨_, leaves_watch_of_rejected hs hd, fun _ _ => rfl, fun access h => ?_⟩
    cases hd.symm.trans h
  | ok access =>
    have opened := p.leaves_recorded_watch hp ⟨{}, access.forward⟩
    rw [← hprices] at opened
    refine ⟨_, leaves_watch_of_validated hs hd fun w' _ => opened w', fun f h => ?_,
      fun access' h => ?_⟩
    · cases hd.symm.trans h
    · cases hd.symm.trans h
      exact ⟨by simp [PriceService.resolved_traced, apply_ite Trace.resolved],
        by simp [PriceService.priced_traced, apply_ite Trace.priced]⟩

end WalletService

/-! ## Services of one process -/

namespace Wiring

/-- What the account service of a process says about a token. -/
def knows (wiring : Wiring) (token : String) (_ : Metadata) : Item (Envelope UserInfo) :=
  match wiring.account? with
  | some answer => answer
  | none => wiring.accountService.answer token

theorem asks (wiring : Wiring) (home : Role) : (wiring.validator home).Asks wiring.knows := by
  unfold Validator.Asks validator account knows
  cases wiring.account? with
  | some answer => exact ⟨_, AccountApi.answers_constant answer, rfl⟩
  | none => exact ⟨_, wiring.accountService.answers, rfl⟩

/-- What opens with a stream of prices, where a stream of the price service was given. -/
def pricesOpened : Item PriceSource → List (Role × String)
  | .ok (.feed home _) => [(home, "price")]
  | _ => []

/-- What opens with a stream of balances, where one was given. -/
def balancesOpened : Item BalanceSource → List (Role × String)
  | .ok s => pricesOpened (.ok s.prices) ++ [(s.home, "wallet")]
  | .error _ => []

theorem leaves_price_fetch (wiring : Wiring) (home : Role) (request : Envelope PriceRequest)
    (w : World) : ∃ r t, t.opened = [] ∧ ∀ w', w'.samples = w.samples →
      ((wiring.price home).fetch request).Leaves w' r t := by
  unfold price
  cases wiring.prices? with
  | some s =>
    exact ⟨_, _, rfl, fun w' _ => PriceApi.leaves_recorded_fetch fun w'' _ =>
      Call.leaves_ofItem (s.price.map fun p => (⟨⟨p⟩, s.metadata⟩ : Envelope PriceQuote)) w''⟩
  | none =>
    exact ⟨_, _, by simp [PriceService.traced, apply_ite Trace.opened],
      fun w' => (wiring.priceService home).leaves_recorded_fetch (wiring.asks home) request⟩

theorem leaves_price_watch (wiring : Wiring) (home : Role) (request : Envelope PriceRequest) :
    ∃ r t, t.opened = pricesOpened (r.map Envelope.payload) ∧ ∀ w,
      ((wiring.price home).watch request).Leaves w r t := by
  unfold price
  cases wiring.prices? with
  | some s =>
    refine ⟨_, _, ?_, fun w => PriceApi.leaves_recorded_watch fun w' _ => Call.leaves_ofItem
      (s.stream.map fun x => (⟨.script x, s.metadata⟩ : Envelope PriceSource)) w'⟩
    cases s.stream <;> rfl
  | none =>
    refine ⟨_, _, ?_, (wiring.priceService home).leaves_recorded_watch (wiring.asks home) request⟩
    unfold PriceService.traced PriceService.stream
    cases PriceService.admission wiring.knows (wiring.priceService home).premiumOnly
      request.metadata <;> rfl

theorem leaves_wallet_fetch (wiring : Wiring) (home : Role) (request : Envelope BalanceRequest)
    (w : World) : ∃ r t, t.opened = [] ∧ ((wiring.wallet home).fetch request).Leaves w r t := by
  cases hd : Validator.decision wiring.knows request.metadata with
  | error f =>
    exact ⟨_, _, rfl, WalletService.leaves_fetch_of_rejected (s := wiring.walletService home)
      (wiring.asks home) hd⟩
  | ok access =>
    obtain ⟨r, t, ht, leaves⟩ := wiring.leaves_price_fetch home ⟨{}, access.forward⟩ w
    exact ⟨_, _, by simpa using ht, WalletService.leaves_fetch_of_validated
      (s := wiring.walletService home) (wiring.asks home) hd leaves⟩

theorem leaves_wallet_watch (wiring : Wiring) (home : Role) (request : Envelope BalanceRequest)
    (w : World) : ∃ r t, t.opened = balancesOpened (r.map Envelope.payload) ∧
      ((wiring.wallet home).watch request).Leaves w r t := by
  cases hd : Validator.decision wiring.knows request.metadata with
  | error f =>
    exact ⟨_, _, rfl, WalletService.leaves_watch_of_rejected (s := wiring.walletService home)
      (wiring.asks home) hd⟩
  | ok access =>
    obtain ⟨r, t, ht, leaves⟩ := wiring.leaves_price_watch home ⟨{}, access.forward⟩
    refine ⟨_, _, ?_, WalletService.leaves_watch_of_validated (s := wiring.walletService home)
      (wiring.asks home) hd fun w' _ => leaves w'⟩
    cases r with
    | error f =>
      change [] ++ (t.opened ++ []) = []
      rw [ht]
      rfl
    | ok o =>
      change [] ++ (t.opened ++ [(home, "wallet")]) = pricesOpened (.ok o.payload) ++ _
      rw [ht]
      rfl

end Wiring

end WalletWatch
