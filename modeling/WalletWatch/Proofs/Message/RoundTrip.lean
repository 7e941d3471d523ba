import WalletWatch.Message.Frame
import WalletWatch.Message.Payload
import WalletWatch.Proofs.Json.Reading

set_option autoImplicit false

/-!
# Messages read back

Every payload, every failure and every frame over these is read back from its own text. The law is
stated once for the reader of a type, where more tokens may follow, and once for whole texts.
-/

namespace WalletWatch

open Json (Reads)

/-- A type whose reader takes back what is written. -/
class LawfulWire (α : Type) [Wire α] : Prop where
  reads : ∀ a : α, Reads Wire.read (Wire.toValue a) a

namespace Wire

variable {α : Type} [Wire α] [LawfulWire α]

@[simp] theorem decode_encode (a : α) : Wire.decode (Text.ofString (Wire.encode a)) = .ok a :=
  (LawfulWire.reads a).decode

@[simp] theorem decodeFirst_encode (a : α) :
    Wire.decodeFirst (Text.ofString (Wire.encode a)) = .ok a :=
  (LawfulWire.reads a).decodeFirst

end Wire

instance : LawfulWire Membership where
  reads m := Json.reads_name (congrArg some (Membership.ofName_name m))

instance : LawfulWire ResolveRequest where
  reads r := Json.reads_record1 true ResolveRequest.mk (Json.reads_string r.token)

instance : LawfulWire UserInfo where
  reads u := Json.reads_record2 UserInfo.mk (by decide) (Json.reads_string u.name)
    (LawfulWire.reads u.membership)

instance : LawfulWire PriceRequest where
  reads _ := fun _ => rfl

instance : LawfulWire PriceQuote where
  reads q := Json.reads_record1 false PriceQuote.mk (Json.reads_int64 q.price)

instance : LawfulWire BalanceRequest where
  reads r := Json.reads_record1 false BalanceRequest.mk (Json.reads_bool r.perAddress)

instance : LawfulWire AddressBalance where
  reads a := Json.reads_record2 AddressBalance.mk (by decide) (Json.reads_string a.address)
    (Json.reads_int64 a.balance)

/-- Without rows the field is left out, and its default stands in. -/
instance : LawfulWire Balance where
  reads b := by
    obtain ⟨total, addresses⟩ := b
    cases addresses with
    | nil => exact Json.reads_record2_first Balance.mk (Json.reads_int64 total) rfl
    | cons a rest =>
      have rows := Json.reads_list (l := a :: rest) fun x _ => LawfulWire.reads x
      exact Json.reads_record2 Balance.mk (by decide) (Json.reads_int64 total) rows

instance : LawfulWire FailureBody where
  reads b := Json.reads_record2 FailureBody.mk (by decide) (Json.reads_string b.code)
    (Json.reads_string b.message)

/-! ## Frames -/

@[simp] theorem FailureBody.toFailure_ofFailure (f : Failure) : (ofFailure f).toFailure = f := by
  simp only [toFailure, ofFailure, Code.ofName?_name]

section Frames

variable {α : Type} [Wire α]

theorem reads_frame {key : String} {v : Json.Value} {f : Frame α}
    (name : key = "item" ∨ key = "error")
    (h : ∀ rest, Frame.readMember key (v.tokens ++ rest) = .ok (f, rest)) :
    Reads Frame.read (.object [(key, v)]) f := by
  intro rest
  have member := h (.closeBrace :: rest)
  simp only [Json.Value.tokens, Json.Value.moreMembers, List.cons_append, List.append_assoc,
    List.nil_append, Frame.read, Json.string?_spelling, if_pos name, member]

instance [LawfulWire α] : LawfulWire (Frame α) where
  reads f := by
    cases f with
    | item a =>
      refine reads_frame (.inl rfl) fun rest => ?_
      simp only [Frame.readMember, if_true, LawfulWire.reads a rest]
      rfl
    | error b =>
      have other : ¬ "error" = "item" := by decide
      refine reads_frame (.inr rfl) fun rest => ?_
      simp only [Frame.readMember, if_neg other, LawfulWire.reads b rest]
      rfl

end Frames

/-! ## All types that travel -/

/-- The types that travel: payloads, failures, and frames of a stream over these. -/
inductive WireType where
  | resolveRequest
  | membership
  | userInfo
  | priceRequest
  | priceQuote
  | balanceRequest
  | addressBalance
  | balance
  | failureBody
  | frame (item : WireType)

namespace WireType

/-- The values of a type that travels. -/
def Carrier : WireType → Type
  | resolveRequest => ResolveRequest
  | membership => Membership
  | userInfo => UserInfo
  | priceRequest => PriceRequest
  | priceQuote => PriceQuote
  | balanceRequest => BalanceRequest
  | addressBalance => AddressBalance
  | balance => Balance
  | failureBody => FailureBody
  | frame item => Frame item.Carrier

/-- The form that the values of a type have on the wire. -/
instance wire : (t : WireType) → Wire t.Carrier
  | resolveRequest => inferInstanceAs (Wire ResolveRequest)
  | membership => inferInstanceAs (Wire Membership)
  | userInfo => inferInstanceAs (Wire UserInfo)
  | priceRequest => inferInstanceAs (Wire PriceRequest)
  | priceQuote => inferInstanceAs (Wire PriceQuote)
  | balanceRequest => inferInstanceAs (Wire BalanceRequest)
  | addressBalance => inferInstanceAs (Wire AddressBalance)
  | balance => inferInstanceAs (Wire Balance)
  | failureBody => inferInstanceAs (Wire FailureBody)
  | frame item => @instWireFrame item.Carrier (wire item)

instance lawful : (t : WireType) → LawfulWire t.Carrier
  | resolveRequest => inferInstanceAs (LawfulWire ResolveRequest)
  | membership => inferInstanceAs (LawfulWire Membership)
  | userInfo => inferInstanceAs (LawfulWire UserInfo)
  | priceRequest => inferInstanceAs (LawfulWire PriceRequest)
  | priceQuote => inferInstanceAs (LawfulWire PriceQuote)
  | balanceRequest => inferInstanceAs (LawfulWire BalanceRequest)
  | addressBalance => inferInstanceAs (LawfulWire AddressBalance)
  | balance => inferInstanceAs (LawfulWire Balance)
  | failureBody => inferInstanceAs (LawfulWire FailureBody)
  | frame item =>
    have := lawful item
    inferInstanceAs (LawfulWire (Frame item.Carrier))

end WireType

/-- Whatever travels is read back from its own text. So a text that can be read says the same as the
text that is written for what it says, however it is spelt. -/
theorem messages_read_back (t : WireType) :
    (∀ v : t.Carrier, Wire.decode (Text.ofString (Wire.encode v)) = .ok v) ∧
    (∀ s : Text, ((Wire.decode s).bind fun v : t.Carrier =>
      Wire.decode (Text.ofString (Wire.encode v))) = Wire.decode (α := t.Carrier) s) ∧
    ∀ f : Frame t.Carrier, Frame.decode f.encode = .ok f := by
  refine ⟨fun v => Wire.decode_encode v, fun s => ?_, fun f => ?_⟩
  · cases Wire.decode (α := t.Carrier) s with
    | error e => rfl
    | ok v => exact Wire.decode_encode v
  · have whole := Wire.decode_encode f
    unfold Frame.decode Frame.encode
    rw [whole]

end WalletWatch
