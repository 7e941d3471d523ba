import WalletWatch.Proofs.Json.Pairs
import WalletWatch.Proofs.Remote.Hop
import WalletWatch.Proofs.Service.Propagation

set_option autoImplicit false

/-!
# Replies of an account service elsewhere

A validation over a client trusts nothing but what the reply spells out. A caller is let through if
the body holds a document that tells of a user with the name of a tier, and the tier is enough.
-/

namespace WalletWatch

open Json (Document Fills Holds IsString Names Accepts)

/-- A document that tells of a user: the name, and the name of a membership if one is given. -/
def UserInfo.Told (d : Document) (name : String) (membership? : Option String) : Prop :=
  ∃ docs docs', Holds "name" "membership" d docs docs' ∧ Fills IsString none docs (some name) ∧
    Fills Names none docs' membership?

/-- The user whom a name and the name of a membership make. -/
def UserInfo.named (name : String) (membership? : Option String) : UserInfo :=
  ⟨name, (membership?.map Membership.ofName).getD .unknown⟩

theorem UserInfo.fills_membership_iff {docs : List Document} {m? : Option Membership} :
    Fills (fun d m => ∃ s, Names d s ∧ some (Membership.ofName s) = some m) none docs m? ↔
      ∃ s?, Fills Names none docs s? ∧ m? = s?.map Membership.ofName := by
  constructor
  · intro h
    cases h with
    | absent => exact ⟨none, .absent _, rfl⟩
    | given h =>
      obtain ⟨s, named, same⟩ := h
      exact ⟨some s, .given named, same.symm⟩
  · rintro ⟨s?, h, rfl⟩
    cases h with
    | absent => exact .absent _
    | given named => exact .given ⟨_, named, rfl⟩

theorem UserInfo.decode_eq_ok_iff (t : Text) (u : UserInfo) :
    Wire.decode t = .ok u ↔ ∃ d name membership?, Document.HeldBy d t ∧
      Told d name membership? ∧ u = named name membership? := by
  have read : Accepts (Wire.read (α := UserInfo)) _ :=
    Json.accepts_record2 (by decide) Json.accepts_string
      (Json.accepts_name fun s => some (Membership.ofName s))
  refine (read.decode_eq_ok_iff t u).trans ?_
  constructor
  · rintro ⟨d, held, told⟩
    cases told with
    | @mk _ _ name? m? name m fields first second known known' =>
      rw [Option.or_none] at known
      subst known
      obtain ⟨membership?, named, rfl⟩ := fills_membership_iff.mp second
      refine ⟨d, name, membership?, held, ⟨_, _, fields, first, named⟩, ?_⟩
      cases membership? <;> cases known' <;> rfl
  · rintro ⟨d, name, membership?, held, ⟨docs, docs', fields, first, second⟩, rfl⟩
    refine ⟨d, held, .mk fields first (fills_membership_iff.mpr ⟨membership?, second, rfl⟩)
      rfl ?_⟩
    cases membership? <;> rfl

theorem Membership.tier?_ofName (s : String) (t : Tier) :
    (ofName s).tier? = some t ↔ s = t.membership.name := by
  constructor
  · intro h
    unfold ofName at h
    split at h
    · cases h; rfl
    · cases h; rfl
    · cases h
  · rintro rfl
    rw [ofName_name, tier?_membership]

/-- A text without stray bytes that holds a document. -/
def Text.IsJson (t : Text) : Prop := t.chars?.isSome = true ∧ ∃ d, Document.HeldBy d t

namespace Validator

theorem ruling_named_eq_ok_iff (token : String) (requested : Tier) (name : String)
    (membership? : Option String) (access : Access) :
    ruling token requested (.named name membership?) = .ok access ↔
      ∃ tier, membership? = some (Tier.membership tier).name ∧ requested ≤ tier ∧
        access = ⟨token, name, tier, requested, true⟩ := by
  rw [ruling_eq_ok_iff]
  refine exists_congr fun tier => and_congr_left fun _ => ?_
  cases membership? with
  | none => simp [UserInfo.named, Membership.tier?]
  | some s =>
    rw [Option.some.injEq]
    exact Membership.tier?_ofName s tier

/-- What a validation makes of a reply with some bytes as its body. -/
structure FailsClosed (body : List UInt8) (token : String) (requested : Tier)
    (outcome : Item Access) : Prop where
  granted : ∀ access, outcome = .ok access ↔ ∃ d name tier,
    Document.HeldBy d (Text.ofBytes body) ∧
      UserInfo.Told d name (some (Tier.membership tier).name) ∧ requested ≤ tier ∧
        access = ⟨token, name, tier, requested, true⟩
  refused : ∀ d name membership?, Document.HeldBy d (Text.ofBytes body) →
    UserInfo.Told d name membership? →
      (∀ tier, requested ≤ tier → membership? ≠ some (Tier.membership tier).name) →
        ∃ f, outcome = .error f ∧ f.code = .unauthenticated
  malformed : (∀ d name membership?, Document.HeldBy d (Text.ofBytes body) →
    ¬ UserInfo.Told d name membership?) → ∃ f, outcome = .error f ∧ f.code = .internal

section Reply

variable {v : Validator} {c : Client} {inbound : Metadata} {token : String} {requested : Tier}
  {request : Http.Request} {response : Http.Response} {w w' : World}

theorem validate_replied (remote : v.resolver = c.accountApi) (live : c.cancelled = false)
    (presents : Presents inbound token requested)
    (sent : Client.request? (ResolveRequest.mk token) (outbound inbound) resolvePath = some request)
    (answered : c.network.exchange (c.peer.callUrl resolvePath) request w = (.ok response, w')) :
    ((v.validate inbound).perform w).1 =
      verdict token requested (Http.readResponse (c.peer.callUrl resolvePath) response) := by
  have resolved : (v.resolver.resolve ⟨⟨token⟩, outbound inbound⟩).perform w =
      (Http.readResponse (c.peer.callUrl resolvePath) response, w') := by
    rw [remote]
    exact Client.perform_answered live sent answered
  rw [perform_validate, check_of_presents _ presents, perform_ask, resolved]

section Verdict

variable {body : List UInt8} (success : Http.isSuccess response.status = true)
  (bytes : response.body = Text.ofBytes body) (url : String)

include success bytes

/-- All documents that the body holds tell of the same user, the one it decodes to. -/
theorem verdict_of_told {d : Document} {name : String} {membership? : Option String}
    (held : Document.HeldBy d (Text.ofBytes body)) (told : UserInfo.Told d name membership?) :
    verdict token requested (Http.readResponse url response) =
      ruling token requested (.named name membership?) := by
  have decoded := (UserInfo.decode_eq_ok_iff _ _).mpr ⟨d, name, membership?, held, told, rfl⟩
  rw [Http.readResponse, if_pos success, bytes, decoded]
  rfl

theorem verdict_of_untold (untold : ∀ d name membership?,
    Document.HeldBy d (Text.ofBytes body) → ¬ UserInfo.Told d name membership?) :
    ∃ f, verdict token requested (Http.readResponse url response) = .error f ∧
      f.code = .internal := by
  cases decoded : Wire.decode (α := UserInfo) (Text.ofBytes body) with
  | ok u =>
    obtain ⟨d, name, membership?, held, told, -⟩ := (UserInfo.decode_eq_ok_iff _ _).mp decoded
    exact absurd told (untold d name membership? held)
  | error e =>
    rw [Http.readResponse, if_pos success, bytes, decoded]
    exact ⟨_, rfl, rfl⟩

end Verdict

/-- Of every reply that tells of success, whatever its bytes are. -/
theorem replies_fail_closed {body : List UInt8} (remote : v.resolver = c.accountApi)
    (live : c.cancelled = false) (presents : Presents inbound token requested)
    (sent : Client.request? (ResolveRequest.mk token) (outbound inbound) resolvePath = some request)
    (answered : c.network.exchange (c.peer.callUrl resolvePath) request w = (.ok response, w'))
    (success : Http.isSuccess response.status = true) (bytes : response.body = Text.ofBytes body) :
    FailsClosed body token requested ((v.validate inbound).perform w).1 := by
  rw [validate_replied remote live presents sent answered]
  refine ⟨fun access => ⟨fun granted => ?_, ?_⟩, ?_, verdict_of_untold success bytes _⟩
  · by_cases held : ∃ d name membership?,
        Document.HeldBy d (Text.ofBytes body) ∧ UserInfo.Told d name membership?
    · obtain ⟨d, name, membership?, held, told⟩ := held
      rw [verdict_of_told success bytes _ held told] at granted
      obtain ⟨tier, rfl, enough, made⟩ := (ruling_named_eq_ok_iff _ _ _ _ _).mp granted
      exact ⟨d, name, tier, held, told, enough, made⟩
    · have untold : ∀ d name membership?, Document.HeldBy d (Text.ofBytes body) →
          ¬ UserInfo.Told d name membership? :=
        fun d name membership? h told => held ⟨d, name, membership?, h, told⟩
      obtain ⟨f, refused, -⟩ := verdict_of_untold success bytes _ untold
      cases granted.symm.trans refused
  · rintro ⟨d, name, tier, held, told, enough, made⟩
    rw [verdict_of_told success bytes _ held told]
    exact (ruling_named_eq_ok_iff _ _ _ _ _).mpr ⟨tier, rfl, enough, made⟩
  · intro d name membership? held told short
    rw [verdict_of_told success bytes _ held told]
    cases ruling : ruling token requested (.named name membership?) with
    | error f => exact ⟨f, rfl, ruling_code ruling⟩
    | ok access =>
      obtain ⟨tier, named, enough, -⟩ := (ruling_named_eq_ok_iff _ _ _ _ _).mp ruling
      exact absurd named (short tier enough)

end Reply

theorem request?_credentials (token : String) (tier : Tier) :
    Client.request? (ResolveRequest.mk token) (outbound (Metadata.credentials token tier))
      resolvePath = some (Client.requestOf ⟨ResolveRequest.mk token, ∅⟩ resolvePath) := by
  rw [outbound_credentials]
  exact Client.request?_of_travels (e := ⟨ResolveRequest.mk token, ∅⟩) Metadata.plain_empty.travels

/-- A client who gets the same reply to every call. -/
def replied (body : List UInt8) : Client where
  network := { Network.unreachable with
    exchange := fun _ _ => pure (.ok { status := 200, body := Text.ofBytes body }) }
  peer := ⟨"http://account", 5000⟩

/-- Alice is a premium user, with her membership as an object and ahead of her name. -/
def reordered : List UInt8 := (Text.ofString
  "\x7b\"membership\": \x7b\"PREMIUM\": null\x7d, \"name\": \"Alice\"\x7d").toBytes

theorem reordered_reply_is_granted :
    ((Validator.validate ⟨(replied reordered).accountApi, .wallet⟩
      (Metadata.credentials "81b637d8" .premium)).perform {}).1 =
        .ok ⟨"81b637d8", "Alice", .premium, .premium, true⟩ := by
  have presents : Presents (Metadata.credentials "81b637d8" .premium) "81b637d8" .premium :=
    presents_credentials (by decide) .premium
  have sent := request?_credentials "81b637d8" .premium
  have closed : FailsClosed reordered "81b637d8" .premium _ :=
    replies_fail_closed (v := ⟨(replied reordered).accountApi, .wallet⟩) (c := replied reordered)
      (w := {}) rfl rfl presents sent rfl rfl rfl
  let alice : Document := .object
    [(Json.spelling "membership", .object [(Json.spelling "PREMIUM", .null)]),
      (Json.spelling "name", .text (Json.spelling "Alice"))]
  have held : alice.HeldBy (Text.ofBytes reordered) :=
    (Json.heldBy_iff _ _).mpr (by decide +kernel)
  have told : UserInfo.Told alice "Alice" (some "PREMIUM") :=
    ⟨_, _, .object (by decide +kernel), .given ⟨_, rfl, by decide +kernel⟩,
      .given (.member (by decide +kernel))⟩
  exact (closed.granted _).mpr ⟨alice, "Alice", .premium, held, told, by decide, rfl⟩

/-- Alice is a premium user, with a note that is no text. -/
def strayNote : List UInt8 :=
  (Text.ofString "\x7b\"name\": \"Alice\", \"membership\": \"PREMIUM\", \"note\": \"" ++
    .stray 0xff :: Text.ofString "\"\x7d").toBytes

/-- Nobody looks into a literal that is passed over, so not all that is granted is JSON. -/
theorem stray_byte_is_granted : ¬ Text.IsJson (Text.ofBytes strayNote) ∧
    ((Validator.validate ⟨(replied strayNote).accountApi, .wallet⟩
      (Metadata.credentials "81b637d8" .premium)).perform {}).1 =
        .ok ⟨"81b637d8", "Alice", .premium, .premium, true⟩ := by
  constructor
  · rintro ⟨text, -⟩
    have stray : (Text.ofBytes strayNote).chars?.isSome = false := by decide +kernel
    rw [stray] at text
    cases text
  · have presents : Presents (Metadata.credentials "81b637d8" .premium) "81b637d8" .premium :=
      presents_credentials (by decide) .premium
    have sent := request?_credentials "81b637d8" .premium
    rw [validate_replied (c := replied strayNote) (w := {}) rfl rfl presents sent rfl]
    rfl

end Validator

end WalletWatch
