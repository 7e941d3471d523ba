import WalletWatch.Proofs.Metadata
import WalletWatch.Proofs.Metrics.Series
import WalletWatch.Proofs.Service.Perform
import WalletWatch.Service.Validator

set_option autoImplicit false

/-!
# What a validation says and does

A validation is a ruling on what the account service answered. Its result, the requests it makes and
the counts it leaves are told here for an account service that is any function of the request.
-/

namespace WalletWatch

namespace Tier

theorem ofLiteral?_eq_some_iff (s : String) (t : Tier) : ofLiteral? s = some t ↔ s = t.literal := by
  constructor
  · intro h
    unfold ofLiteral? at h
    split at h
    · cases h; rfl
    · cases h; rfl
    · cases h
  · rintro rfl
    exact ofLiteral?_literal t

theorem not_le_iff {requested actual : Tier} :
    ¬ requested ≤ actual ↔ requested = premium ∧ actual = normal := by
  cases requested <;> cases actual <;> decide

end Tier

/-- A user with a membership is of a tier, and may ask for that tier or for one below it. -/
inductive Membership.Entitles : Membership → Tier → Tier → Prop where
  | normal : Entitles .normal .normal .normal
  | premium (requested : Tier) : Entitles .premium .premium requested

theorem Membership.Entitles.premium_of_premium {m : Membership} {actual : Tier}
    (h : m.Entitles actual .premium) : m = .premium ∧ actual = .premium := by
  cases h
  exact ⟨rfl, rfl⟩

theorem Membership.entitles_iff {m : Membership} {actual requested : Tier} :
    m.Entitles actual requested ↔ m.tier? = some actual ∧ requested ≤ actual := by
  constructor
  · rintro (_ | requested)
    · exact ⟨rfl, by decide⟩
    · exact ⟨rfl, by cases requested <;> decide⟩
  · rintro ⟨entitled, le⟩
    cases m with
    | normal =>
      cases entitled
      cases requested with
      | normal => exact .normal
      | premium => exact absurd le (by decide)
    | premium =>
      cases entitled
      exact .premium requested
    | unknown => cases entitled

namespace AccountApi

/-- An account service that is a function of the request and leaves no traces. -/
def answering (answer : String → Metadata → Item (Envelope UserInfo)) : AccountApi :=
  ⟨fun request => Call.ofItem (answer request.payload.token request.metadata)⟩

@[simp] theorem perform_resolve_answering (answer : String → Metadata → Item (Envelope UserInfo))
    (request : Envelope ResolveRequest) (w : World) :
    ((answering answer).resolve request).perform w =
      (answer request.payload.token request.metadata, w) := rfl

def noted (w : World) (token : String) (metadata : Metadata) : World :=
  { w with resolveCalls := w.resolveCalls ++ [⟨token, metadata⟩] }

theorem perform_resolve_recorded (a : AccountApi) (request : Envelope ResolveRequest) (w : World) :
    (a.recorded.resolve request).perform w =
      (a.resolve request).perform (noted w request.payload.token request.metadata) := by
  rw [recorded, Call.perform_bind_ok _ (Call.perform_modify _ w)]
  rfl

end AccountApi

/-- An account service leaves nothing behind but its remark on the route. -/
theorem AccountService.keeps_resolve {rel : World → World → Prop} (s : AccountService)
    (refl : ∀ w, rel w w)
    (said : ∀ w route, rel w (w.say ⟨.debug, "resolve user", [("route", route)]⟩))
    (request : Envelope ResolveRequest) : (s.resolve request).Keeps rel := by
  intro w
  unfold resolve
  cases request.metadata.get? Metadata.routeKey with
  | none =>
    cases s.directory.lookup? request.payload.token with
    | none => exact refl w
    | some r => exact refl w
  | some route =>
    rw [Call.perform_bind_ok _ (Call.perform_say _ w)]
    cases s.directory.lookup? request.payload.token with
    | none => exact said w route
    | some r => exact said w route

namespace Validator

/-- The inbound metadata has a token and the literal of a tier. -/
structure Presents (inbound : Metadata) (token : String) (requested : Tier) : Prop where
  token_eq : inbound.get? Metadata.authorizationKey = some token
  token_ne : token ≠ ""
  tier_eq : inbound.get? Metadata.membershipKey = some requested.literal

theorem token?_eq_some_iff (inbound : Metadata) (token : String) :
    token? inbound = some token ↔
      inbound.get? Metadata.authorizationKey = some token ∧ token ≠ "" := by
  simp [token?, Option.filter_eq_some_iff]

theorem requested?_eq_some_iff (inbound : Metadata) (requested : Tier) :
    requested? inbound = some requested ↔
      inbound.get? Metadata.membershipKey = some requested.literal := by
  simp [requested?, Option.bind_eq_some_iff, Tier.ofLiteral?_eq_some_iff]

theorem presents_iff (inbound : Metadata) (token : String) (requested : Tier) :
    Presents inbound token requested ↔
      token? inbound = some token ∧ requested? inbound = some requested := by
  rw [token?_eq_some_iff, requested?_eq_some_iff]
  exact ⟨fun h => ⟨⟨h.token_eq, h.token_ne⟩, h.tier_eq⟩, fun h => ⟨h.1.1, h.1.2, h.2⟩⟩

theorem Presents.unique {inbound : Metadata} {token token' : String} {requested requested' : Tier}
    (h : Presents inbound token requested) (h' : Presents inbound token' requested') :
    token = token' ∧ requested = requested' := by
  obtain ⟨ht, hr⟩ := (presents_iff _ _ _).mp h
  obtain ⟨ht', hr'⟩ := (presents_iff _ _ _).mp h'
  exact ⟨Option.some.inj (ht.symm.trans ht'), Option.some.inj (hr.symm.trans hr')⟩

theorem presents_credentials {token : String} (h : token ≠ "") (requested : Tier) :
    Presents (Metadata.credentials token requested) token requested :=
  ⟨Metadata.get?_credentials_authorization token requested, h,
    Metadata.get?_credentials_membership token requested⟩

/-- What is made of a user whom the account service knows. -/
def ruling (token : String) (requested : Tier) (user : UserInfo) : Item Access :=
  match user.membership.tier? with
  | none => .error ⟨.unauthenticated, "unrecognized user membership type"⟩
  | some actual =>
    if requested ≤ actual then .ok ⟨token, user.name, actual, requested, true⟩
    else .error ⟨.unauthenticated, "requested membership higher than actual membership"⟩

def auditLine (token : String) (requested : Tier) (user : UserInfo) : LogEvent :=
  match user.membership.tier? with
  | none => audit [("token", token), ("name", user.name), ("requested", requested.literal),
      ("success", yesNo false)]
  | some actual => audit [("token", token), ("name", user.name), ("membership", actual.literal),
      ("requested", requested.literal), ("success", yesNo (requested ≤ actual))]

/-- What is made of any answer of the account service. -/
def verdict (token : String) (requested : Tier) : Item (Envelope UserInfo) → Item Access
  | .error f => .error (f.wrap "could not get user info")
  | .ok answer => ruling token requested answer.payload

def remarks (token : String) (requested : Tier) (w : World) : Item (Envelope UserInfo) → World
  | .error f => w.say (audit [("token", token), ("requested", requested.literal),
      ("success", yesNo false), ("error", f.display)])
  | .ok answer =>
    (w.say (.serverHost "account" answer.hostname?)).say (auditLine token requested answer.payload)

theorem perform_judge (token : String) (requested : Tier) (user : UserInfo) (w : World) :
    (judge token requested user).perform w =
      (ruling token requested user, w.say (auditLine token requested user)) := by
  unfold judge ruling auditLine
  cases user.membership.tier? with
  | none => exact Call.perform_bind_ok _ (Call.perform_say _ w)
  | some actual =>
    rw [Call.perform_bind_ok _ (Call.perform_say _ w)]
    by_cases h : requested ≤ actual
    · simp only [h, if_true, Call.perform_pure]
    · simp only [h, if_false, Call.perform_throw]

theorem perform_ask (resolver : AccountApi) (token : String) (requested : Tier)
    (metadata : Metadata) (w : World) :
    (ask resolver token requested metadata).perform w =
      (verdict token requested ((resolver.resolve ⟨⟨token⟩, metadata⟩).perform w).1,
        remarks token requested ((resolver.resolve ⟨⟨token⟩, metadata⟩).perform w).2
          ((resolver.resolve ⟨⟨token⟩, metadata⟩).perform w).1) := by
  unfold ask
  rw [Call.perform_bind_ok _ (Call.perform_result _ w)]
  cases ((resolver.resolve ⟨⟨token⟩, metadata⟩).perform w).1 with
  | error f => exact Call.perform_bind_ok _ (Call.perform_say _ _)
  | ok answer =>
    refine (Call.perform_bind_ok _ (Call.perform_say _ _)).trans ?_
    exact perform_judge token requested answer.payload _

@[simp] theorem remarks_metrics (token : String) (requested : Tier) (w : World)
    (answer : Item (Envelope UserInfo)) :
    (remarks token requested w answer).metrics = w.metrics := by
  cases answer <;> rfl

@[simp] theorem remarks_samples (token : String) (requested : Tier) (w : World)
    (answer : Item (Envelope UserInfo)) :
    (remarks token requested w answer).samples = w.samples := by
  cases answer <;> rfl

@[simp] theorem remarks_resolveCalls (token : String) (requested : Tier) (w : World)
    (answer : Item (Envelope UserInfo)) :
    (remarks token requested w answer).resolveCalls = w.resolveCalls := by
  cases answer <;> rfl

theorem check_of_token?_eq_none (resolver : AccountApi) {inbound : Metadata}
    (h : token? inbound = none) :
    check resolver inbound = throw ⟨.unauthenticated, "missing user authentication"⟩ := by
  simp only [check, h]

theorem check_of_requested?_eq_none (resolver : AccountApi) {inbound : Metadata} {token : String}
    (ht : token? inbound = some token) (hr : requested? inbound = none) :
    check resolver inbound = throw ⟨.unauthenticated, "unknown user membership"⟩ := by
  simp only [check, ht, hr]

theorem check_of_presents (resolver : AccountApi) {inbound : Metadata} {token : String}
    {requested : Tier} (h : Presents inbound token requested) :
    check resolver inbound = ask resolver token requested (outbound inbound) := by
  obtain ⟨ht, hr⟩ := (presents_iff inbound token requested).mp h
  simp only [check, ht, hr]

theorem perform_check_of_absent (resolver : AccountApi) {inbound : Metadata}
    (h : ∀ token requested, ¬ Presents inbound token requested) (w : World) :
    ∃ f : Failure, f.code = .unauthenticated ∧
      (check resolver inbound).perform w = (.error f, w) := by
  cases ht : token? inbound with
  | none =>
    rw [check_of_token?_eq_none resolver ht]
    exact ⟨_, rfl, rfl⟩
  | some token =>
    cases hr : requested? inbound with
    | none =>
      rw [check_of_requested?_eq_none resolver ht hr]
      exact ⟨_, rfl, rfl⟩
    | some requested =>
      exact absurd ((presents_iff inbound token requested).mpr ⟨ht, hr⟩) (h token requested)

/-- Each validation is a check that is counted by how it went. -/
theorem perform_validate (v : Validator) (inbound : Metadata) (w : World) :
    (v.validate inbound).perform w =
      (((check v.resolver inbound).perform w).1,
        ((check v.resolver inbound).perform w).2.count v.home
          (·.validated ((check v.resolver inbound).perform w).1.isOk)) := by
  unfold validate
  rw [Call.perform_bind_ok _ (Call.perform_result _ w)]
  exact Call.perform_bind_ok _ (Call.perform_count _ _ _)

theorem ruling_eq_ok_iff (token : String) (requested : Tier) (user : UserInfo) (access : Access) :
    ruling token requested user = .ok access ↔
      ∃ actual, user.membership.tier? = some actual ∧ requested ≤ actual ∧
        access = ⟨token, user.name, actual, requested, true⟩ := by
  unfold ruling
  cases user.membership.tier? with
  | none => simp
  | some actual =>
    by_cases h : requested ≤ actual
    · simp [h, eq_comm]
    · simp [h]

theorem ruling_code {token : String} {requested : Tier} {user : UserInfo} {f : Failure}
    (h : ruling token requested user = .error f) : f.code = .unauthenticated := by
  unfold ruling at h
  split at h
  · cases h; rfl
  · split at h
    · cases h
    · cases h; rfl

section Answering

variable (answer : String → Metadata → Item (Envelope UserInfo)) (home : Role)
  (inbound : Metadata) (w : World)

/-- The validator of an account service that is a function and keeps a record of its requests. -/
def asking (answer : String → Metadata → Item (Envelope UserInfo)) (home : Role) : Validator :=
  ⟨.recorded (.answering answer), home⟩

theorem perform_validate_asking_of_presents {token : String} {requested : Tier}
    (h : Presents inbound token requested) :
    ((asking answer home).validate inbound).perform w =
      (verdict token requested (answer token (outbound inbound)),
        (remarks token requested (AccountApi.noted w token (outbound inbound))
          (answer token (outbound inbound))).count home
            (·.validated (verdict token requested (answer token (outbound inbound))).isOk)) := by
  rw [perform_validate, asking, check_of_presents _ h, perform_ask,
    AccountApi.perform_resolve_recorded, AccountApi.perform_resolve_answering]

theorem perform_validate_asking_of_absent
    (h : ∀ token requested, ¬ Presents inbound token requested) :
    ∃ f : Failure, f.code = .unauthenticated ∧
      ((asking answer home).validate inbound).perform w =
        (.error f, w.count home (·.validated false)) := by
  obtain ⟨f, code, check⟩ := perform_check_of_absent (asking answer home).resolver h w
  refine ⟨f, code, ?_⟩
  rw [perform_validate, check]
  rfl

theorem validate_asking_eq_ok_iff (access : Access) :
    (((asking answer home).validate inbound).perform w).1 = .ok access ↔
      ∃ token requested user actual, Presents inbound token requested ∧
        answer token (outbound inbound) = .ok user ∧
        user.payload.membership.Entitles actual requested ∧
        access = ⟨token, user.payload.name, actual, requested, true⟩ := by
  by_cases h : ∃ token requested, Presents inbound token requested
  · obtain ⟨token, requested, h⟩ := h
    rw [perform_validate_asking_of_presents answer home inbound w h]
    constructor
    · intro ok
      cases answered : answer token (outbound inbound) with
      | error f => simp [answered, verdict] at ok
      | ok user =>
        have ruled : ruling token requested user.payload = .ok access := by
          simpa [answered, verdict] using ok
        obtain ⟨actual, known, le, made⟩ := (ruling_eq_ok_iff _ _ _ _).mp ruled
        exact ⟨token, requested, user, actual, h, answered, Membership.entitles_iff.mpr ⟨known, le⟩,
          made⟩
    · rintro ⟨token', requested', user, actual, h', answered, entitled, made⟩
      obtain ⟨rfl, rfl⟩ := h.unique h'
      obtain ⟨known, le⟩ := Membership.entitles_iff.mp entitled
      simp only [answered, verdict]
      exact (ruling_eq_ok_iff _ _ _ _).mpr ⟨actual, known, le, made⟩
  · have absent : ∀ token requested, ¬ Presents inbound token requested :=
      fun token requested h' => h ⟨token, requested, h'⟩
    obtain ⟨f, -, rejected⟩ := perform_validate_asking_of_absent answer home inbound w absent
    rw [rejected]
    constructor
    · intro ok
      cases ok
    · rintro ⟨token, requested, -, -, h', -⟩
      exact absurd h' (absent token requested)

theorem resolveCalls_validate_asking :
    (∀ token requested, Presents inbound token requested →
      (((asking answer home).validate inbound).perform w).2.resolveCalls =
        w.resolveCalls ++ [⟨token, outbound inbound⟩]) ∧
    ((∀ token requested, ¬ Presents inbound token requested) →
      (((asking answer home).validate inbound).perform w).2.resolveCalls = w.resolveCalls) := by
  constructor
  · intro token requested h
    rw [perform_validate_asking_of_presents answer home inbound w h, World.count_resolveCalls,
      remarks_resolveCalls]
    rfl
  · intro absent
    obtain ⟨f, -, rejected⟩ := perform_validate_asking_of_absent answer home inbound w absent
    rw [rejected, World.count_resolveCalls]

theorem validate_asking_of_error {token : String} {requested : Tier} {f : Failure}
    (h : Presents inbound token requested) (failed : answer token (outbound inbound) = .error f) :
    (((asking answer home).validate inbound).perform w).1 =
      .error ⟨f.code, "could not get user info: " ++ f.message⟩ := by
  rw [perform_validate_asking_of_presents answer home inbound w h, failed]
  rfl

theorem code_of_validate_asking {f : Failure}
    (rejected : (((asking answer home).validate inbound).perform w).1 = .error f)
    (answered : ∀ token requested g, Presents inbound token requested →
      answer token (outbound inbound) ≠ .error g) : f.code = .unauthenticated := by
  by_cases h : ∃ token requested, Presents inbound token requested
  · obtain ⟨token, requested, h⟩ := h
    rw [perform_validate_asking_of_presents answer home inbound w h] at rejected
    cases said : answer token (outbound inbound) with
    | error g => exact absurd said (answered token requested g h)
    | ok user =>
      simp only [said, verdict] at rejected
      exact ruling_code rejected
  · have absent : ∀ token requested, ¬ Presents inbound token requested :=
      fun token requested h' => h ⟨token, requested, h'⟩
    obtain ⟨g, code, rejected'⟩ := perform_validate_asking_of_absent answer home inbound w absent
    rw [rejected'] at rejected
    cases rejected
    exact code

theorem metrics_validate_asking :
    (((asking answer home).validate inbound).perform w).2.metrics home =
      (w.metrics home).validated (((asking answer home).validate inbound).perform w).1.isOk := by
  by_cases h : ∃ token requested, Presents inbound token requested
  · obtain ⟨token, requested, h⟩ := h
    rw [perform_validate_asking_of_presents answer home inbound w h, World.count_metrics_self,
      remarks_metrics]
    rfl
  · have absent : ∀ token requested, ¬ Presents inbound token requested :=
      fun token requested h' => h ⟨token, requested, h'⟩
    obtain ⟨f, -, rejected⟩ := perform_validate_asking_of_absent answer home inbound w absent
    rw [rejected, World.count_metrics_self]
    rfl

/-- What the outcome of a validation has to be, where `answer` is what the account service says. -/
structure Judges (answer : String → Metadata → Item (Envelope UserInfo)) (home : Role)
    (inbound : Metadata) (w : World) (outcome : Item Access × World) : Prop where
  authorized_iff : ∀ access, outcome.1 = .ok access ↔
    ∃ token requested user actual, Presents inbound token requested ∧
      answer token (outbound inbound) = .ok user ∧
      user.payload.membership.Entitles actual requested ∧
      access = ⟨token, user.payload.name, actual, requested, true⟩
  served_as_requested : ∀ access, outcome.1 = .ok access →
    access.authorized = true ∧ access.serviceTier = access.requested
  asked_once : ∀ token requested, Presents inbound token requested →
    outcome.2.resolveCalls = w.resolveCalls ++ [⟨token, outbound inbound⟩]
  never_asked : (∀ token requested, ¬ Presents inbound token requested) →
    outcome.2.resolveCalls = w.resolveCalls
  failure_passed_on : ∀ token requested f, Presents inbound token requested →
    answer token (outbound inbound) = .error f →
    outcome.1 = .error ⟨f.code, "could not get user info: " ++ f.message⟩
  unauthenticated : ∀ f, outcome.1 = .error f →
    (∀ token requested g, Presents inbound token requested →
      answer token (outbound inbound) ≠ .error g) → f.code = .unauthenticated
  counted : ∀ authorized, (outcome.2.metrics home).validations.get (Metrics.outcome authorized) =
    (w.metrics home).validations.get (Metrics.outcome authorized) +
      if outcome.1.isOk = authorized then 1 else 0
  /-- Nobody is served as premium who is not. -/
  premium_only : ∀ access, outcome.1 = .ok access → access.requested = .premium →
    access.actual = .premium ∧ ∃ user, answer access.token (outbound inbound) = .ok user ∧
      user.payload.membership = .premium

end Answering

/-- A caller with a token, who asks for some tier. -/
def asksFor (tier : String) : Metadata :=
  .ofList [("authorization", "2bd806c9"), ("membership", tier)]

/-- The validation of a caller who is known under a membership. -/
def validationOf (m : Membership) (tier : String) : Item Access × World :=
  ((asking (fun _ _ => .ok ⟨⟨"Alice", m⟩, ∅⟩) .price).validate (asksFor tier)).perform {}

end Validator

end WalletWatch
