import Mathlib
import WalletWatch.Chain.Wiring
import WalletWatch.Proofs.Service.Validation

set_option autoImplicit false

/-!
# The audit of validations

A validation that asks the account service leaves one line in the audit, which says how it went. One
that is turned down for its credentials alone leaves none: the audit knows of no attempt without a
token, or for a tier that does not exist.
-/

namespace WalletWatch

namespace LogEvent

/-- Whether an event is a line that an audit of validations looks for. -/
def isAudit (e : LogEvent) : Bool := e.message = "validate membership"

def valuesOf (e : LogEvent) (field : String) : List String :=
  (e.fields.filter (·.1 = field)).map Prod.snd

@[simp] theorem isAudit_audit (fields : List (String × String)) :
    (Validator.audit fields).isAudit = true := rfl

@[simp] theorem isAudit_serverHost (service : String) (host? : Option String) :
    (serverHost service host?).isAudit = false := by
  cases host? <;> rfl

end LogEvent

namespace World

/-- The lines of the audit so far. -/
def audits (w : World) : List LogEvent := w.log.filter LogEvent.isAudit

theorem audits_say (w : World) (e : LogEvent) :
    (w.say e).audits = w.audits ++ if e.isAudit then [e] else [] := by
  unfold audits say
  rw [List.filter_append]
  cases h : e.isAudit <;> simp [h]

@[simp] theorem audits_count (w : World) (home : Role) (change : Metrics → Metrics) :
    (w.count home change).audits = w.audits := rfl

end World

/-- A call that writes nothing into the audit. It may do anything else. -/
def Call.Discreet {α : Type} (c : Call α) : Prop := c.Keeps fun w w' => w'.audits = w.audits

theorem Call.discreet_ofItem {α : Type} (i : Item α) : (ofItem i).Discreet := fun _ => rfl

/-- An account service that writes nothing into the audit of its callers, however it answers. -/
def AccountApi.Discreet (a : AccountApi) : Prop := ∀ request, (a.resolve request).Discreet

theorem AccountApi.Discreet.recorded {a : AccountApi} (h : a.Discreet) : a.recorded.Discreet := by
  intro request w
  rw [perform_resolve_recorded]
  exact h request _

theorem AccountService.discreet_api (s : AccountService) : s.api.Discreet := by
  refine s.keeps_resolve (fun _ => rfl) fun w route => ?_
  exact (World.audits_say w _).trans (List.append_nil _)

theorem Wiring.discreet_account (wiring : Wiring) : wiring.account.Discreet := by
  unfold account
  cases wiring.account? with
  | some answer => exact AccountApi.Discreet.recorded fun _ => Call.discreet_ofItem answer
  | none => exact wiring.accountService.discreet_api.recorded

namespace Validator

theorem valuesOf_auditLine (token : String) (requested : Tier) (user : UserInfo) :
    (auditLine token requested user).valuesOf "success" =
      [yesNo (ruling token requested user).isOk] := by
  unfold auditLine ruling
  cases user.membership.tier? with
  | none => rfl
  | some actual =>
    dsimp only
    by_cases h : requested ≤ actual
    · rw [if_pos h, decide_eq_true h]
      rfl
    · rw [if_neg h, decide_eq_false h]
      rfl

/-- Whatever the account service answers, one line is left about it. -/
theorem audits_remarks (token : String) (requested : Tier) (w : World)
    (answer : Item (Envelope UserInfo)) :
    ∃ line : LogEvent, (remarks token requested w answer).audits = w.audits ++ [line] ∧
      line.valuesOf "success" = [yesNo (verdict token requested answer).isOk] := by
  cases answer with
  | error f => exact ⟨_, w.audits_say _, rfl⟩
  | ok user =>
    have isLine : (auditLine token requested user.payload).isAudit = true := by
      unfold auditLine
      split <;> rfl
    refine ⟨auditLine token requested user.payload, ?_, valuesOf_auditLine _ _ _⟩
    change ((w.say _).say (auditLine token requested user.payload)).audits = _
    rw [World.audits_say, World.audits_say, LogEvent.isAudit_serverHost, isLine]
    simp

/-- What the outcome of a validation leaves in the audit. -/
structure Audited (inbound : Metadata) (w : World) (outcome : Item Access × World) : Prop where
  asked : ∀ token requested, Presents inbound token requested →
    ∃ line : LogEvent, outcome.2.audits = w.audits ++ [line] ∧
      line.valuesOf "success" = [yesNo outcome.1.isOk]
  unasked : (∀ token requested, ¬ Presents inbound token requested) →
    outcome.2.audits = w.audits ∧ ∃ f, outcome.1 = .error f

/-- A caller with credentials leaves one line in the audit, whatever becomes of it, and the line
says whether it was let through. A caller without credentials is turned down and leaves no line. -/
theorem audited_once_asked {v : Validator} (discreet : v.resolver.Discreet) (inbound : Metadata)
    (w : World) : Audited inbound w ((v.validate inbound).perform w) := by
  rw [perform_validate]
  refine ⟨fun token requested presents => ?_, fun absent => ?_⟩
  · rw [check_of_presents _ presents, perform_ask]
    have kept := discreet ⟨⟨token⟩, outbound inbound⟩ w
    generalize (v.resolver.resolve ⟨⟨token⟩, outbound inbound⟩).perform w = resolved at kept ⊢
    obtain ⟨line, audits, tells⟩ := audits_remarks token requested resolved.2 resolved.1
    refine ⟨line, ?_, tells⟩
    rw [World.audits_count, audits, kept]
  · obtain ⟨f, -, rejected⟩ := perform_check_of_absent v.resolver absent w
    rw [rejected]
    exact ⟨World.audits_count _ _ _, f, rfl⟩

/-- Bob asks for more than he is entitled to, and is in the audit as turned down. -/
theorem escalation_is_audited : ∃ line : LogEvent,
    (((({} : Wiring).validator .price).validate
      (Metadata.credentials "81b637d8" .premium)).perform {}).2.audits = [line] ∧
    line.valuesOf "success" = ["false"] := by
  have presents : Presents (Metadata.credentials "81b637d8" .premium) "81b637d8" .premium :=
    presents_credentials (by decide) .premium
  obtain ⟨line, audits, tells⟩ := (audited_once_asked ({} : Wiring).discreet_account
    (Metadata.credentials "81b637d8" .premium) {} (v := ({} : Wiring).validator .price)).asked _ _
      presents
  exact ⟨line, audits, tells.trans (by cbv)⟩

/-- Not every attempt is in the audit: one without a token leaves no line. -/
theorem attempt_without_token_is_not_audited :
    ¬ ∀ (wiring : Wiring) (home : Role) (inbound : Metadata) (w : World), ∃ line : LogEvent,
      (((wiring.validator home).validate inbound).perform w).2.audits = w.audits ++ [line] ∧
        line.valuesOf "success" =
          [yesNo (((wiring.validator home).validate inbound).perform w).1.isOk] := by
  intro audited
  have absent : token? ∅ = none := rfl
  obtain ⟨line, audits, -⟩ := audited {} .price ∅ {}
  rw [perform_validate, check_of_token?_eq_none _ absent] at audits
  cases audits

end Validator

end WalletWatch
