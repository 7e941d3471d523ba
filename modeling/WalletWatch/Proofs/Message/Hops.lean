import WalletWatch.Proofs.Http.Delivery
import WalletWatch.Proofs.Socket.Protocol

set_option autoImplicit false

/-!
# Failures on their way

A failure passes services that put a context in front of it, and wires between processes. Whatever
way it takes, it arrives with the code it was sent with and with all the contexts in front of its
message, as if it had passed no wire. A code that no process knows becomes an internal failure at
the first wire, and stays one.
-/

namespace WalletWatch

/-- One hop of a failure on its way to a caller. -/
inductive Hop where
  | wrap (context : String)
  /-- An instance refuses a call with it, and the caller reads the answer. -/
  | answer (hostname : String)
  /-- It ends a stream of some items, and the last frame of the stream is read. -/
  | frame (items : WireType)

namespace Hop

/-- The failure behind a hop. -/
def pass (f : Failure) : Hop → Option Failure
  | wrap context => some (f.wrap context)
  | answer hostname =>
    let r := (Http.failureResponse f hostname).delivered
    some (Http.failureOf r.status r.body)
  | frame items =>
    let last : Frame items.Carrier := .ofItem (.error f)
    match (Socket.itemOf last.encode : Item items.Carrier) with
    | .ok _ => none
    | .error g => some g

/-- The failure behind some hops, one after the other. -/
def passAll (hops : List Hop) (f : Failure) : Option Failure := hops.foldlM pass f

def context? : Hop → Option String
  | wrap context => some context
  | answer _ | frame _ => none

/-- The contexts of some hops, the last one in front. -/
def contexts (hops : List Hop) : List String := (hops.filterMap context?).reverse

theorem pass_of_crossing {hop : Hop} (crossing : hop.context? = none) (f : Failure) :
    pass f hop = some f := by
  cases hop with
  | wrap context => cases crossing
  | answer hostname => exact congrArg some (Http.failureOf_failureResponse f hostname)
  | frame items =>
    have read : (Socket.itemOf (Frame.ofItem (.error f) : Frame items.Carrier).encode :
        Item items.Carrier) = .error f := by
      unfold Socket.itemOf Frame.decode Frame.encode
      rw [Wire.decode_encode]
      exact congrArg Except.error (FailureBody.toFailure_ofFailure f)
    simp only [pass, read]

theorem passAll_cons (hop : Hop) (hops : List Hop) (f : Failure) :
    passAll (hop :: hops) f = (pass f hop).bind (passAll hops) :=
  List.foldlM_cons

/-- Behind all hops a failure is as if there had been none but those that put a context in front. -/
theorem passAll_eq_foldl (hops : List Hop) (f : Failure) :
    passAll hops f = some ((hops.filterMap context?).foldl Failure.wrap f) := by
  induction hops generalizing f with
  | nil => rfl
  | cons hop hops ih =>
    rw [passAll_cons]
    cases hop with
    | wrap context => exact ih (f.wrap context)
    | answer _ | frame _ =>
      rw [pass_of_crossing rfl]
      exact ih f

theorem intercalate_concat_append (l : List String) (separator front back : String) :
    separator.intercalate (l ++ [front ++ separator ++ back]) =
      separator.intercalate (l ++ [front, back]) := by
  cases l with
  | nil => simp
  | cons a l =>
    rw [String.intercalate_append_of_ne_nil (by simp) (by simp),
      String.intercalate_append_of_ne_nil (by simp) (by simp)]
    simp

theorem foldl_wrap (contexts : List String) (f : Failure) :
    contexts.foldl Failure.wrap f =
      ⟨f.code, ": ".intercalate (contexts.reverse ++ [f.message])⟩ := by
  induction contexts generalizing f with
  | nil => simp
  | cons context contexts ih =>
    rw [List.foldl_cons, ih, List.reverse_cons, List.append_assoc, List.singleton_append]
    change Failure.mk f.code (": ".intercalate (contexts.reverse ++
      [context ++ ": " ++ f.message])) = _
    rw [intercalate_concat_append]

end Hop

/-! ## Codes that nobody knows -/

theorem Code.ofName?_eq_some {s : String} {c : Code} (known : ofName? s = some c) :
    s = c.name := by
  unfold ofName? at known
  split at known <;> cases known <;> rfl

namespace FailureBody

/-- The code is the name of no cause. -/
def Foreign (b : FailureBody) : Prop := ∀ c : Code, b.code ≠ c.name

theorem toFailure_of_foreign {b : FailureBody} (foreign : b.Foreign) : b.toFailure =
    ⟨.internal, "upstream sent unknown code " ++ b.code ++ ": " ++ b.message⟩ := by
  cases known : Code.ofName? b.code with
  | some c => exact absurd (Code.ofName?_eq_some known) (foreign c)
  | none => simp only [toFailure, known]

/-- A body arrives as a failure, in whichever way it is received. -/
structure ArrivesAs (b : FailureBody) (f : Failure) : Prop where
  refusal : ∀ (status : Nat) (body : Text), Wire.decode body = .ok b →
    Http.failureOf status body = f
  frame : ∀ (items : WireType) (s : String),
    Frame.decode s = .ok (.error b : Frame items.Carrier) →
      (Socket.itemOf s : Item items.Carrier) = .error f

theorem arrivesAs_toFailure (b : FailureBody) : b.ArrivesAs b.toFailure where
  refusal status body read := by
    simp only [Http.failureOf, read]
  frame items s read := by
    simp only [Socket.itemOf, read, Frame.toItem]

end FailureBody

/-- A failure arrives with its code, and with the contexts of all hops in front of its message, as
if it had passed no wire. With a code that is the name of no cause it arrives as an internal failure
that quotes all it was sent with, and passes any further wire as that. -/
theorem failures_survive_hops :
    (∀ (hops : List Hop) (f : Failure),
      Hop.passAll hops f = some ⟨f.code, ": ".intercalate (Hop.contexts hops ++ [f.message])⟩ ∧
      Hop.passAll hops f = some ((hops.filterMap Hop.context?).foldl Failure.wrap f)) ∧
    ∀ b : FailureBody, b.Foreign → b.ArrivesAs b.toFailure ∧ b.toFailure.code = .internal ∧
      b.code.toList <:+: b.toFailure.message.toList ∧
      b.message.toList <:+: b.toFailure.message.toList ∧
      ∀ hops : List Hop, (∀ hop ∈ hops, hop.context? = none) →
        Hop.passAll hops b.toFailure = some b.toFailure := by
  constructor
  · intro hops f
    have passed := Hop.passAll_eq_foldl hops f
    refine ⟨?_, passed⟩
    rw [passed, Hop.foldl_wrap, Hop.contexts]
  · intro b foreign
    have told := FailureBody.toFailure_of_foreign foreign
    refine ⟨b.arrivesAs_toFailure, ?_, ?_, ?_, ?_⟩
    · rw [told]
    · rw [told]
      simp only [String.toList_append, List.append_assoc]
      exact ⟨_, _, List.append_assoc ..⟩
    · rw [told]
      simp only [String.toList_append]
      exact ⟨_, [], List.append_nil _⟩
    · intro hops crossings
      have none : hops.filterMap Hop.context? = [] := List.filterMap_eq_nil_iff.mpr crossings
      rw [Hop.passAll_eq_foldl, none, List.foldl_nil]

/-- A refusal by one service on the way through two others, and a code in the wrong case. -/
theorem names_in_the_wrong_case_are_unknown :
    Hop.passAll [.answer "account-0", .wrap "could not get user info", .answer "price-0",
        .wrap "could not fetch price", .frame .balance] ⟨.notFound, "NOT_FOUND: \"x\""⟩ =
      some ⟨.notFound, "could not fetch price: could not get user info: NOT_FOUND: \"x\""⟩ ∧
    FailureBody.Foreign ⟨"not_found", "gone"⟩ ∧
    Http.failureOf 404 (.ofString "\x7b\"code\":\"not_found\",\"message\":\"gone\"\x7d") =
      ⟨.internal, "upstream sent unknown code not_found: gone"⟩ := by
  obtain ⟨survive, settle⟩ := failures_survive_hops
  have foreign : FailureBody.Foreign ⟨"not_found", "gone"⟩ := by
    intro c
    cases c <;> decide
  refine ⟨?_, foreign, ?_⟩
  · rw [(survive _ _).1]
    decide +kernel
  · rw [(settle _ foreign).1.refusal 404 _ (by decide +kernel)]
    decide +kernel

end WalletWatch
