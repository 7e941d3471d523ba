import WalletWatch.Http.ContentType
import WalletWatch.Proofs.Http.RoundTrip

set_option autoImplicit false

/-!
# Metadata across a connection

A connection takes blanks off the ends of header values. Metadata of a caller that has no blanks
there is read behind the connection as it was written in front of it.
-/

namespace WalletWatch

namespace Http

/-- Printable ASCII without a blank at either end. -/
structure Printable (s : String) : Prop where
  ascii : ∀ c ∈ s.toList, 0x20 ≤ c.toNat ∧ c.toNat ≤ 0x7E
  front : s.toList.head? ≠ some ' '
  back : s.toList.getLast? ≠ some ' '

theorem Printable.readable {s : String} (h : Printable s) : Readable s := by
  intro c hc
  obtain ⟨low, high⟩ := h.ascii c hc
  simp only [isReadable, Bool.or_eq_true, Bool.and_eq_true, decide_eq_true_eq]
  exact .inr ⟨low, by omega⟩

theorem Printable.unpadded {s : String} (h : Printable s) : Headers.Unpadded s := by
  have solid : ∀ c ∈ s.toList, c ≠ ' ' → Headers.isBlank (.char c) = false := by
    intro c hc other
    have low := (h.ascii c hc).1
    have tab : c ≠ '\t' := by
      rintro rfl
      exact absurd low (by decide)
    simp [Headers.isBlank, other, tab]
  refine ⟨fun c hc => ?_, fun c hc => ?_⟩
  · exact solid c (List.mem_of_head? hc) fun same => h.front (same ▸ hc)
  · exact solid c (List.mem_of_getLast? hc) fun same => h.back (same ▸ hc)

end Http

namespace Metadata

/-- The keys that callers use. -/
def callerKeys : List String := [authorizationKey, membershipKey, routeKey]

/-- Metadata of a caller: printable values of the keys that callers use. -/
def Plain (m : Metadata) : Prop := ∀ e ∈ m.entries, e.1 ∈ callerKeys ∧ Http.Printable e.2

theorem Plain.printable {m : Metadata} (h : m.Plain) {key value : String}
    (found : m.valueOf key = some value) : Http.Printable value :=
  (h _ ((m.valueOf_eq_some_iff key value).mp found)).2

theorem Plain.travels {m : Metadata} (h : m.Plain) : m.Travels := by
  intro e he
  obtain ⟨key, value⟩ := h e he
  exact ⟨List.mem_append_left [hostnameKey] key, value.readable⟩

theorem plain_empty : Plain ∅ := fun _ he => absurd he List.not_mem_nil

theorem plain_route {route : String} (h : Http.Printable route) :
    (empty.insert routeKey route).Plain := by
  intro e he
  change e ∈ (empty.insert routeKey route).toList at he
  rw [toList_insert_empty, normalise_routeKey, List.mem_singleton] at he
  subst he
  exact ⟨by simp [callerKeys], h⟩

theorem printable_literal (t : Tier) : Http.Printable t.literal := by
  have ascii : t.literal.toList.all (fun c => 0x20 ≤ c.toNat && c.toNat ≤ 0x7E) = true := by
    cases t <;> decide
  refine ⟨fun c hc => ?_, ?_, ?_⟩
  · simpa using List.all_eq_true.mp ascii c hc
  · cases t <;> decide
  · cases t <;> decide

theorem plain_credentials {token : String} (h : Http.Printable token) (tier : Tier) :
    (credentials token tier).Plain := by
  intro e he
  change e ∈ (credentials token tier).toList at he
  rw [toList_credentials] at he
  rcases List.mem_cons.mp he with rfl | he
  · exact ⟨by simp [callerKeys], h⟩
  · rw [List.mem_singleton] at he
    subst he
    exact ⟨by simp [callerKeys], printable_literal tier⟩

end Metadata

namespace Http

open Metadata (Plain)

theorem metadataOf_delivered {h : Headers} {m : Metadata} (plain : m.Plain)
    (held : ∀ key ∈ knownKeys, h.get? key = (m.valueOf key).map Text.ofString) :
    metadataOf h.delivered = m := by
  refine metadataOf_eq plain.travels fun key known => ?_
  rw [Headers.get?_delivered, held key known]
  cases found : m.valueOf key with
  | none => rfl
  | some value => exact congrArg some (plain.printable found).unpadded.trimmed

theorem metadataOf_handshake {m : Metadata} (plain : m.Plain) :
    metadataOf (writeMetadata [] m).delivered = m := by
  refine metadataOf_delivered plain fun key known => ?_
  rw [get?_writeMetadata]
  cases found : m.valueOf key with
  | none => rfl
  | some value => simp [Option.filter, writable_of_travels plain.travels found]

theorem unwritten_of_travels {m : Metadata} (travels : m.Travels) : unwritten m = [] := by
  have none_left : m.toList.filter (fun e => !writable e) = [] := by
    refine List.filter_eq_nil_iff.mpr fun e he => ?_
    have written := writable_of_travels travels ((m.valueOf_eq_some_iff e.1 e.2).mpr he)
    simp [written]
  rw [unwritten, none_left]
  rfl

/-- Metadata behind the headers of a JSON body. -/
def addMetadata (m : Metadata) : Headers :=
  m.toList.foldl (fun h e => h.add e.1 (Text.ofString e.2)) jsonHeaders

theorem get?_addMetadata (m : Metadata) (name : String) : (addMetadata m).get? name =
    (Headers.get? jsonHeaders name).or ((m.valueOf name).map Text.ofString) := by
  rw [addMetadata, Headers.get?_foldl_add, Metadata.valueOf, Option.map_map]
  rfl

theorem metadataOf_addMetadata {m : Metadata} (plain : m.Plain) :
    metadataOf (addMetadata m).delivered = m := by
  refine metadataOf_delivered plain fun key known => ?_
  rw [get?_addMetadata, get?_jsonHeaders_of_knownKeys key known]
  rfl

theorem announcesJson_addMetadata (m : Metadata) :
    announcesJson (addMetadata m).delivered = true := by
  have type : (addMetadata m).delivered.get? "content-type" =
      some (Headers.trimmed (Text.ofString "application/json")) := by
    rw [Headers.get?_delivered, get?_addMetadata]
    rfl
  have all : "application/json".toList.all (fun c => isReadable (.char c)) = true := by decide
  have readable : Readable "application/json" := List.all_eq_true.mp all
  have unpadded : Headers.Unpadded "application/json" := by
    refine ⟨fun c hc => ?_, fun c hc => ?_⟩
    · cases hc
      decide
    · cases hc
      decide
  rw [unpadded.trimmed] at type
  rw [announcesJson, Headers.text?_of_get? type readable]
  decide +kernel

/-! ### Answers -/

theorem delivered_failureResponse (f : Failure) (hostname : String) :
    (failureResponse f hostname).delivered =
      ⟨statusOf f.code, (writeMetadata jsonHeaders (Metadata.ofHost hostname)).delivered,
        Text.ofString (Wire.encode (FailureBody.ofFailure f))⟩ := by
  rw [failureResponse, Response.delivered, Text.delivered_ofString]

theorem failureOf_failureResponse (f : Failure) (hostname : String) :
    failureOf (failureResponse f hostname).delivered.status
      (failureResponse f hostname).delivered.body = f := by
  simp only [delivered_failureResponse, failureOf_failureBody]

theorem delivered_respond_ok {α : Type} [Wire α] (e : Envelope α) (hostname : String) :
    (respond (.ok e) hostname).delivered = ⟨200, (writeMetadata jsonHeaders e.metadata).delivered,
      Text.ofString (Wire.encode e.payload)⟩ := by
  rw [respond, Response.delivered, Text.delivered_ofString]

end Http

end WalletWatch
