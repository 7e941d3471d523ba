import Mathlib
import WalletWatch.Message.Payload
import WalletWatch.Proofs.Balance
import WalletWatch.Proofs.Service.Alike
import WalletWatch.Proofs.Service.Traces
import WalletWatch.Proofs.Store.Lookup

set_option autoImplicit false

/-!
# Rows on request

Whether a caller asks for rows per address shows in the rows and in nothing else. In the restricted
mode there are no rows, and so nobody can tell whether they were asked for.
-/

namespace WalletWatch

theorem Item.map_map_of_idempotent {α : Type} {f : α → α} (h : ∀ a, f (f a) = f a) (i : Item α) :
    (i.map f).map f = i.map f := by
  cases i with
  | error failure => rfl
  | ok a => exact congrArg Except.ok (h a)

/-! ## Balances without their rows -/

namespace Balance

def bare (b : Balance) : Balance := { b with addresses := [] }

@[simp] theorem addresses_bare (b : Balance) : b.bare.addresses = [] := rfl

theorem bare_eq_self {b : Balance} (h : b.addresses = []) : b.bare = b := by
  obtain ⟨total, addresses⟩ := b
  cases h
  rfl

theorem bare_bare (b : Balance) : b.bare.bare = b.bare := rfl

theorem bare_ofHoldings (holdings : List Holding) (price : Int64) (breakdown : Bool) :
    (ofHoldings holdings price breakdown).bare = ofHoldings holdings price false := by
  have total := total_ofHoldings holdings price false breakdown
  have none : (ofHoldings holdings price false).addresses = [] :=
    addresses_ofHoldings holdings price false
  rw [← bare_eq_self none]
  exact congrArg (fun total => Balance.mk total []) total

/-- A balance without rows; its text has the total for its only member. -/
structure Rowless (b : Balance) : Prop where
  addresses : b.addresses = []
  members : ∃ members, Wire.toValue b = .object members ∧ "addresses" ∉ members.map Prod.fst
  text : Wire.encode b =
    String.ofList ("\x7b\"balance\":".toList ++ Json.intDigits b.total.toInt ++ ['}'])

theorem rowless {b : Balance} (h : b.addresses = []) : b.Rowless := by
  have value : Wire.toValue b = .object [("balance", .int b.total.toInt)] := by
    change Json.Value.object (_ :: if b.addresses.isEmpty then [] else _) = _
    rw [h]
    rfl
  refine ⟨h, ⟨_, value, by simp⟩, ?_⟩
  unfold Wire.encode
  rw [value]
  rfl

/-- The rows of a balance: one for each entry of a user, if they were asked for. -/
structure Rows (entries : List Holding) (user : String) (asked : Bool) (b : Balance) : Prop where
  listed : b.addresses ≠ [] ↔ asked = true
  each : asked = true → ∃ price, b.addresses =
    (entries.filter (·.user = user)).map fun h => ⟨h.address, h.worth price⟩

end Balance

namespace Aggregator

variable {a : Aggregator} {user : String} {price : Int64}

theorem bare_balance (a : Aggregator) (user : String) (price : Int64) (breakdown : Bool) :
    (a.balance user price breakdown).map Balance.bare = a.balance user price false := by
  unfold balance
  cases a.ledger.lookup? user with
  | none => rfl
  | some holdings => exact congrArg Except.ok (Balance.bare_ofHoldings holdings price _)

theorem balance_of_totalsOnly (restricted : a.totalsOnly = true) (user : String) (price : Int64)
    (breakdown : Bool) : a.balance user price breakdown = a.balance user price false := by
  unfold balance
  rw [restricted, Bool.not_true, Bool.and_false, Bool.and_false]

theorem rowless_of_totalsOnly (restricted : a.totalsOnly = true) {breakdown : Bool} {b : Balance}
    (h : a.balance user price breakdown = .ok b) : b.Rowless := by
  have same := a.bare_balance user price breakdown
  rw [← balance_of_totalsOnly restricted user price breakdown, h] at same
  refine Balance.rowless ?_
  rw [← Except.ok.inj same, Balance.addresses_bare]

theorem rows_of_balance {entries : List Holding} (ledger : a.ledger = .ofHoldings entries)
    (free : a.totalsOnly = false) {breakdown : Bool} {b : Balance}
    (h : a.balance user price breakdown = .ok b) : b.Rows entries user breakdown := by
  unfold balance at h
  rw [ledger, Ledger.lookup?_ofHoldings, free, Bool.not_false, Bool.and_true] at h
  by_cases none : entries.filter (·.user = user) = []
  · simp [none] at h
  · simp only [none, if_false] at h
    obtain rfl := Except.ok.inj h
    refine ⟨?_, fun asked => ⟨price, ?_⟩⟩
    · rw [Balance.addresses_ofHoldings]
      cases breakdown <;> simp [none]
    · rw [Balance.addresses_ofHoldings, if_pos asked]

end Aggregator

namespace BalanceSource

/-- The same stream of balances, where no rows were asked for. -/
def bare (s : BalanceSource) : BalanceSource := { s with perAddress := false }

theorem update_bare (s : BalanceSource) (price : Int64) :
    s.bare.update price = (s.update price).map Balance.bare :=
  (s.aggregator.bare_balance s.user price s.perAddress).symm

/-- What a stream makes of any prices comes to the same totals and the same failure. -/
theorem updates_bare (s : BalanceSource) (prices : List (Item Int64)) :
    s.bare.updates prices = (s.updates prices).map (·.map Balance.bare) := by
  induction prices with
  | nil => rfl
  | cons i rest ih =>
    cases i with
    | error f => rfl
    | ok p =>
      rw [updates, updates, update_bare]
      cases s.update p with
      | error f => rfl
      | ok b => exact congrArg (Except.ok b.bare :: ·) ih

theorem update_of_totalsOnly {s : BalanceSource} (restricted : s.aggregator.totalsOnly = true) :
    s.update = s.bare.update :=
  funext fun price =>
    Aggregator.balance_of_totalsOnly restricted s.user price s.perAddress

theorem exists_of_mem_updates {s : BalanceSource} {prices : List (Item Int64)} {b : Balance}
    (h : .ok b ∈ s.updates prices) : ∃ price, s.update price = .ok b := by
  induction prices with
  | nil => cases h
  | cons i rest ih =>
    cases i with
    | error f => simp [updates] at h
    | ok p =>
      rw [updates] at h
      cases made : s.update p with
      | error f => simp [made] at h
      | ok b' =>
        simp only [made, List.mem_cons] at h
        rcases h with now | later
        · exact ⟨p, made.trans now.symm⟩
        · exact ih later

/-- Streams of balances with the same prices under them, which make of any prices what is seen as
the same. -/
def SameThrough (see : Balance → Balance) (e e' : Envelope BalanceSource) : Prop :=
  e.metadata = e'.metadata ∧ e.payload.prices = e'.payload.prices ∧
    ∀ prices, (e.payload.updates prices).map (·.map see) =
      (e'.payload.updates prices).map (·.map see)

end BalanceSource

/-! ## Two requests that differ in what they ask for -/

/-- The world but for what was logged. -/
def World.silent (w : World) : World := { w with log := [] }

/-- The world as far as later calls look at it. -/
def World.bare (w : World) : World := { samples := w.samples }

namespace WalletService

variable {s : WalletService} {metadata : Metadata} {w : World} {asked asked' : Bool}

theorem fetch_of_totalsOnly (restricted : s.aggregator.totalsOnly = true) (metadata : Metadata)
    (asked : Bool) : s.fetch ⟨⟨asked⟩, metadata⟩ = s.fetch ⟨⟨false⟩, metadata⟩ := by
  unfold fetch
  simp only [Aggregator.balance_of_totalsOnly restricted _ _ asked]

/-- Either way a single balance leaves the same world behind, and is the same but for its rows. -/
theorem fetch_bare (s : WalletService) (metadata : Metadata) (asked : Bool) (w : World) :
    (s.fetch ⟨⟨false⟩, metadata⟩).perform w =
      (((s.fetch ⟨⟨asked⟩, metadata⟩).perform w).1.map (·.map Balance.bare),
        ((s.fetch ⟨⟨asked⟩, metadata⟩).perform w).2) := by
  unfold fetch
  simp only [Call.perform_bind]
  cases (s.validator.validate metadata).perform w with
  | mk validated w₁ => cases validated with
    | error f => rfl
    | ok access =>
      simp only [Call.perform_within]
      cases (s.prices.fetch ⟨{}, access.forward⟩).perform w₁ with
      | mk quoted w₂ => cases quoted with
        | error f => rfl
        | ok quote =>
          have same := s.aggregator.bare_balance access.name quote.payload.price asked
          simp only [Except.mapError, Call.perform_say, Call.perform_ofItem, ← same]
          cases s.aggregator.balance access.name quote.payload.price asked <;> rfl

/-- Either way a stream is opened or it is not, and it has the same source but for the rows; what
was asked for shows in the log only. -/
theorem watch_bare (s : WalletService) (metadata : Metadata) (asked : Bool) (w : World) :
    ((s.watch ⟨⟨false⟩, metadata⟩).perform w).1 =
        ((s.watch ⟨⟨asked⟩, metadata⟩).perform w).1.map (·.map BalanceSource.bare) ∧
      ((s.watch ⟨⟨false⟩, metadata⟩).perform w).2.silent =
        ((s.watch ⟨⟨asked⟩, metadata⟩).perform w).2.silent := by
  unfold watch
  simp only [Call.perform_bind]
  cases (s.validator.validate metadata).perform w with
  | mk validated w₁ => cases validated with
    | error f => exact ⟨rfl, rfl⟩
    | ok access =>
      simp only [Call.perform_within]
      cases (s.prices.watch ⟨{}, access.forward⟩).perform w₁ with
      | mk opened w₂ => cases opened with
        | error f => exact ⟨rfl, rfl⟩
        | ok o => exact ⟨rfl, rfl⟩

theorem balance_of_fetch {e : Envelope Balance}
    (h : ((s.fetch ⟨⟨asked⟩, metadata⟩).perform w).1 = .ok e) :
    ∃ access price, ((s.validator.validate metadata).perform w).1 = .ok access ∧
      s.aggregator.balance access.name price asked = .ok e.payload := by
  obtain ⟨access, w₁, validated, h⟩ := Call.perform_bind_eq_ok h
  obtain ⟨quote, w₂, -, h⟩ := Call.perform_bind_eq_ok h
  obtain ⟨-, w₃, -, h⟩ := Call.perform_bind_eq_ok h
  obtain ⟨-, w₄, -, h⟩ := Call.perform_bind_eq_ok h
  obtain ⟨balance, w₅, made, h⟩ := Call.perform_bind_eq_ok h
  obtain rfl := Except.ok.inj h
  exact ⟨access, quote.payload.price, congrArg Prod.fst validated, congrArg Prod.fst made⟩

theorem source_of_watch {e : Envelope BalanceSource}
    (h : ((s.watch ⟨⟨asked⟩, metadata⟩).perform w).1 = .ok e) :
    ∃ access, ((s.validator.validate metadata).perform w).1 = .ok access ∧
      e.payload.user = access.name ∧ e.payload.perAddress = asked ∧
      e.payload.aggregator = s.aggregator := by
  obtain ⟨access, w₁, validated, h⟩ := Call.perform_bind_eq_ok h
  obtain ⟨opened, w₂, -, h⟩ := Call.perform_bind_eq_ok h
  obtain ⟨-, w₃, -, h⟩ := Call.perform_bind_eq_ok h
  obtain ⟨-, w₄, -, h⟩ := Call.perform_bind_eq_ok h
  obtain ⟨-, w₅, -, h⟩ := Call.perform_bind_eq_ok h
  obtain rfl := Except.ok.inj h
  exact ⟨access, congrArg Prod.fst validated, rfl, rfl, rfl⟩

/-- A wallet service that answers the same whether rows are asked for or not, and gives none. -/
structure Blind (s : WalletService) : Prop where
  fetch : ∀ metadata, s.fetch ⟨⟨true⟩, metadata⟩ = s.fetch ⟨⟨false⟩, metadata⟩
  watch : ∀ metadata w, Item.Alike (BalanceSource.SameThrough id)
    ((s.watch ⟨⟨true⟩, metadata⟩).perform w).1 ((s.watch ⟨⟨false⟩, metadata⟩).perform w).1
  fetched : ∀ metadata asked w e, ((s.fetch ⟨⟨asked⟩, metadata⟩).perform w).1 = .ok e →
    e.payload.Rowless
  updated : ∀ metadata asked w e, ((s.watch ⟨⟨asked⟩, metadata⟩).perform w).1 = .ok e →
    ∀ prices b, .ok b ∈ e.payload.updates prices → b.Rowless

/-- A wallet service that answers the same but for the rows. -/
structure SameTotals (s : WalletService) : Prop where
  fetch : ∀ metadata w, ((s.fetch ⟨⟨true⟩, metadata⟩).perform w).1.map (·.map Balance.bare) =
    ((s.fetch ⟨⟨false⟩, metadata⟩).perform w).1.map (·.map Balance.bare)
  watch : ∀ metadata w, Item.Alike (BalanceSource.SameThrough Balance.bare)
    ((s.watch ⟨⟨true⟩, metadata⟩).perform w).1 ((s.watch ⟨⟨false⟩, metadata⟩).perform w).1

/-- A wallet service over some entries that gives a row for each entry of the caller if rows are
asked for, and no row otherwise. -/
structure Listing (s : WalletService) (entries : List Holding) : Prop where
  fetched : ∀ metadata asked w e, ((s.fetch ⟨⟨asked⟩, metadata⟩).perform w).1 = .ok e →
    ∃ access, ((s.validator.validate metadata).perform w).1 = .ok access ∧
      e.payload.Rows entries access.name asked
  updated : ∀ metadata asked w e, ((s.watch ⟨⟨asked⟩, metadata⟩).perform w).1 = .ok e →
    ∃ access, ((s.validator.validate metadata).perform w).1 = .ok access ∧
      ∀ prices b, .ok b ∈ e.payload.updates prices → b.Rows entries access.name asked

theorem alike_watch_of {see : Balance → Balance} {s : WalletService}
    (same : ∀ e : Envelope BalanceSource, e.payload.aggregator = s.aggregator →
      BalanceSource.SameThrough see e (e.map BalanceSource.bare))
    (metadata : Metadata) (w : World) :
    Item.Alike (BalanceSource.SameThrough see) ((s.watch ⟨⟨true⟩, metadata⟩).perform w).1
      ((s.watch ⟨⟨false⟩, metadata⟩).perform w).1 := by
  rw [(s.watch_bare metadata true w).1]
  cases given : ((s.watch ⟨⟨true⟩, metadata⟩).perform w).1 with
  | error f => exact .error f
  | ok e =>
    obtain ⟨access, -, -, -, aggregator⟩ := source_of_watch given
    exact .ok (same e aggregator)

theorem blind_of_totalsOnly (restricted : s.aggregator.totalsOnly = true) : s.Blind where
  fetch metadata := fetch_of_totalsOnly restricted metadata true
  watch metadata w := by
    refine alike_watch_of (fun e aggregator => ⟨rfl, rfl, fun prices => ?_⟩) metadata w
    have update : e.payload.update = e.payload.bare.update :=
      BalanceSource.update_of_totalsOnly (aggregator ▸ restricted)
    exact congrArg _ (BalanceSource.updates_congr update prices)
  fetched metadata asked w e given := by
    obtain ⟨access, price, -, made⟩ := balance_of_fetch given
    exact Aggregator.rowless_of_totalsOnly restricted made
  updated metadata asked w e given prices b hb := by
    obtain ⟨access, -, -, -, aggregator⟩ := source_of_watch given
    obtain ⟨price, made⟩ := BalanceSource.exists_of_mem_updates hb
    exact Aggregator.rowless_of_totalsOnly (aggregator ▸ restricted) made

theorem sameTotals (s : WalletService) : s.SameTotals where
  fetch metadata w := by
    rw [s.fetch_bare metadata true w]
    cases ((s.fetch ⟨⟨true⟩, metadata⟩).perform w).1 <;> rfl
  watch metadata w := by
    refine alike_watch_of (fun e _ => ⟨rfl, rfl, fun prices => ?_⟩) metadata w
    have once := e.payload.updates_bare prices
    change _ = (e.payload.bare.updates prices).map _
    rw [once, List.map_map]
    exact List.map_congr_left fun i _ => (Item.map_map_of_idempotent Balance.bare_bare i).symm

theorem listing_of_ledger {entries : List Holding}
    (ledger : s.aggregator.ledger = .ofHoldings entries)
    (free : s.aggregator.totalsOnly = false) : s.Listing entries where
  fetched metadata asked w e given := by
    obtain ⟨access, price, validated, made⟩ := balance_of_fetch given
    exact ⟨access, validated, Aggregator.rows_of_balance ledger free made⟩
  updated metadata asked w e given := by
    obtain ⟨access, validated, user, perAddress, aggregator⟩ := source_of_watch given
    refine ⟨access, validated, fun prices b hb => ?_⟩
    obtain ⟨price, made⟩ := BalanceSource.exists_of_mem_updates hb
    unfold BalanceSource.update at made
    rw [user, perAddress, aggregator] at made
    exact Aggregator.rows_of_balance ledger free made

end WalletService

/-! ## Services of one process -/

theorem Item.Alike.map_eq {α β : Type} {f : α → β} {i : Item α} {j : Item β}
    (h : Item.Alike (fun a b => f a = b) i j) : i.map f = j := by
  cases h with
  | ok h => exact congrArg Except.ok h
  | error f => rfl

/-- A call that gives one result for each sample of the feed, and takes as many samples every
time. -/
theorem Call.alike_of_leaves {α : Type} {c : Call α}
    (h : ∀ w : World, ∃ r t, ∀ w' : World, w'.samples = w.samples → c.Leaves w' r t) :
    Call.Alike Eq c c := by
  intro w w' same
  obtain ⟨r, t, leaves⟩ := h w
  have here := leaves w rfl
  have there := leaves w' same.symm
  rw [here.fst_eq, there.fst_eq, here.grown.sampled, there.grown.sampled, same]
  exact ⟨Item.Alike.refl (fun _ => rfl) r, rfl⟩

namespace Wiring

variable (wiring : Wiring) (home : Role)

theorem alike_validate (inbound : Metadata) :
    Call.Alike Eq ((wiring.validator home).validate inbound)
      ((wiring.validator home).validate inbound) :=
  Call.alike_of_leaves fun _ => ⟨_, _, fun w' _ =>
    Validator.leaves_validate (wiring.asks home) inbound w'⟩

theorem alike_price_fetch (request : Envelope PriceRequest) :
    Call.Alike Eq ((wiring.price home).fetch request) ((wiring.price home).fetch request) := by
  refine Call.alike_of_leaves fun w => ?_
  obtain ⟨r, t, -, leaves⟩ := wiring.leaves_price_fetch home request w
  exact ⟨r, t, leaves⟩

theorem alike_price_watch (request : Envelope PriceRequest) :
    Call.Alike Eq ((wiring.price home).watch request) ((wiring.price home).watch request) := by
  refine Call.alike_of_leaves fun _ => ?_
  obtain ⟨r, t, -, leaves⟩ := wiring.leaves_price_watch home request
  exact ⟨r, t, fun w' _ => leaves w'⟩

/-- Callers who stand at the same sample are given the same balance but for the rows. -/
theorem alike_wallet_fetch (metadata : Metadata) (asked : Bool) :
    Call.Alike (fun e e' => e.map Balance.bare = e')
      ((wiring.wallet home).fetch ⟨⟨asked⟩, metadata⟩)
      ((wiring.wallet home).fetch ⟨⟨false⟩, metadata⟩) := by
  refine (wiring.alike_validate home metadata).bind ?_
  rintro access _ rfl
  refine ((wiring.alike_price_fetch home ⟨{}, access.forward⟩).within _).bind ?_
  rintro quote _ rfl
  refine (Call.alike_say _ _).bind fun _ _ _ => (Call.alike_say _ _).bind fun _ _ _ => ?_
  -- Only here it matters what was asked for.
  refine (Call.alike_ofItem (R := fun b b' => b.bare = b') ?_).bind ?_
  · change Item.Alike _ (wiring.aggregator.balance access.name quote.payload.price asked)
      (wiring.aggregator.balance access.name quote.payload.price false)
    rw [← wiring.aggregator.bare_balance access.name quote.payload.price asked]
    cases wiring.aggregator.balance access.name quote.payload.price asked with
    | error f => exact .error f
    | ok b => exact .ok rfl
  · rintro b _ rfl
    exact Call.alike_pure rfl

/-- They are given streams of the same balances but for the rows. -/
theorem alike_wallet_watch (metadata : Metadata) (asked : Bool) :
    Call.Alike (fun e e' => e.map BalanceSource.bare = e')
      ((wiring.wallet home).watch ⟨⟨asked⟩, metadata⟩)
      ((wiring.wallet home).watch ⟨⟨false⟩, metadata⟩) := by
  refine (wiring.alike_validate home metadata).bind ?_
  rintro access _ rfl
  refine ((wiring.alike_price_watch home ⟨{}, access.forward⟩).within _).bind ?_
  rintro opened _ rfl
  refine (Call.alike_say _ _).bind fun _ _ _ => (Call.alike_count _ _ _ _).bind fun _ _ _ => ?_
  exact (Call.alike_say _ _).bind fun _ _ _ => Call.alike_pure rfl

end Wiring

end WalletWatch
