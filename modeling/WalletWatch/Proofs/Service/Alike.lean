import WalletWatch.Chain.Wiring
import WalletWatch.Proofs.Http.Delivery
import WalletWatch.Proofs.Service.Perform

set_option autoImplicit false

/-!
# Services that callers cannot tell apart

Two calls are alike if they give the same failure or related values wherever the price feed stands
at the same sample, and leave it at the same sample. What they log, count and record may differ. One
lemma for each way a call is put together carries this from the services that a service asks to the
service itself.
-/

namespace WalletWatch

variable {α β γ δ : Type}

/-! ## Results -/

/-- Related values, or one and the same failure. -/
inductive Item.Alike (R : α → β → Prop) : Item α → Item β → Prop where
  | ok {a : α} {b : β} (h : R a b) : Item.Alike R (.ok a) (.ok b)
  | error (f : Failure) : Item.Alike R (.error f) (.error f)

namespace Item.Alike

variable {R : α → β → Prop} {i : Item α} {j : Item β}

theorem mono {R' : α → β → Prop} (h : Item.Alike R i j) (imp : ∀ a b, R a b → R' a b) :
    Item.Alike R' i j := by
  cases h with
  | ok h => exact .ok (imp _ _ h)
  | error f => exact .error f

theorem mapError (h : Item.Alike R i j) (change : Failure → Failure) :
    Item.Alike R (i.mapError change) (j.mapError change) := by
  cases h with
  | ok h => exact .ok h
  | error f => exact .error (change f)

theorem comp {T : β → γ → Prop} {U : α → γ → Prop} {k : Item γ} (h : Item.Alike R i j)
    (h' : Item.Alike T j k) (both : ∀ a b c, R a b → T b c → U a c) : Item.Alike U i k := by
  cases h with
  | ok h => cases h' with
    | ok h' => exact .ok (both _ _ _ h h')
  | error f => cases h' with
    | error => exact .error f

theorem refl {R : α → α → Prop} (same : ∀ a, R a a) (i : Item α) : Item.Alike R i i := by
  cases i with
  | ok a => exact .ok (same a)
  | error f => exact .error f

end Item.Alike

/-! ## Calls -/

namespace Call

/-- The results are alike wherever the feed stands at the same sample, and it is left so. -/
def Alike (R : α → β → Prop) (c : Call α) (c' : Call β) : Prop :=
  ∀ w w' : World, w.samples = w'.samples →
    Item.Alike R (c.perform w).1 (c'.perform w').1 ∧
      (c.perform w).2.samples = (c'.perform w').2.samples

/-- The second call gives what the first gives, in the same world. -/
def Echoes (R : α → β → Prop) (c : Call α) (c' : Call β) : Prop :=
  ∀ w : World, Item.Alike R (c.perform w).1 (c'.perform w).1 ∧
    (c.perform w).2.samples = (c'.perform w).2.samples

section

variable {R : α → β → Prop} {S : γ → δ → Prop} {c : Call α} {c' : Call β}

theorem Alike.mono {R' : α → β → Prop} (h : Alike R c c') (imp : ∀ a b, R a b → R' a b) :
    Alike R' c c' := by
  intro w w' same
  obtain ⟨results, samples⟩ := h w w' same
  exact ⟨results.mono imp, samples⟩

theorem Alike.echo {T : β → γ → Prop} {U : α → γ → Prop} {c'' : Call γ} (h : Alike R c c')
    (echoes : Echoes T c' c'') (both : ∀ a b d, R a b → T b d → U a d) : Alike U c c'' := by
  intro w w' same
  obtain ⟨results, samples⟩ := h w w' same
  obtain ⟨results', samples'⟩ := echoes w'
  exact ⟨results.comp results' both, samples.trans samples'⟩

theorem alike_ofItem {i : Item α} {j : Item β} (h : Item.Alike R i j) :
    Alike R (ofItem i) (ofItem j) := fun _ _ same => ⟨h, same⟩

theorem alike_pure {a : α} {b : β} (h : R a b) : Alike R (pure a) (pure b) :=
  alike_ofItem (.ok h)

theorem alike_throw (f : Failure) : Alike R (throw f) (throw f) := alike_ofItem (.error f)

theorem alike_say (e e' : LogEvent) : Alike (fun _ _ => True) (say e) (say e') :=
  fun _ _ same => ⟨.ok trivial, same⟩

theorem alike_count (home home' : Role) (change change' : Metrics → Metrics) :
    Alike (fun _ _ => True) (count home change) (count home' change') :=
  fun _ _ same => ⟨.ok trivial, same⟩

theorem alike_sample : Alike (fun n n' => n = n') sample sample :=
  fun _ _ same => ⟨.ok same, congrArg (· + 1) same⟩

theorem Alike.bind {k : α → Call γ} {k' : β → Call δ} (h : Alike R c c')
    (next : ∀ a b, R a b → Alike S (k a) (k' b)) : Alike S (c >>= k) (c' >>= k') := by
  intro w w' same
  obtain ⟨results, samples⟩ := h w w' same
  rw [perform_bind, perform_bind]
  generalize c.perform w = x at results samples
  generalize c'.perform w' = x' at results samples
  obtain ⟨r, u⟩ := x
  obtain ⟨r', u'⟩ := x'
  cases results with
  | ok related => exact next _ _ related u u' samples
  | error f => exact ⟨.error f, samples⟩

theorem Alike.result (h : Alike R c c') : Alike (Item.Alike R) c.result c'.result := by
  intro w w' same
  obtain ⟨results, samples⟩ := h w w' same
  exact ⟨.ok results, samples⟩

theorem Alike.within (h : Alike R c c') (context : String) :
    Alike R (within context c) (within context c') := by
  intro w w' same
  obtain ⟨results, samples⟩ := h w w' same
  rw [perform_within, perform_within]
  exact ⟨results.mapError _, samples⟩

end

/-- A note that is taken first changes nothing that the caller sees. -/
theorem Alike.noted {R : α → β → Prop} {c : Call α} {c' : Call β} (h : Alike R c c')
    {note : World → World} (kept : ∀ w, (note w).samples = w.samples) :
    Alike R (modify note >>= fun _ => c) c' := by
  intro w w' same
  rw [perform_bind_ok _ (perform_modify note w)]
  exact h _ _ ((kept w).trans same)

theorem Alike.noted_right {R : α → β → Prop} {c : Call α} {c' : Call β} (h : Alike R c c')
    {note : World → World} (kept : ∀ w, (note w).samples = w.samples) :
    Alike R c (modify note >>= fun _ => c') := by
  intro w w' same
  rw [perform_bind_ok _ (perform_modify note w')]
  exact h _ _ (same.trans (kept w').symm)

end Call

/-! ## Services -/

/-- Answers with the same payload. -/
def Envelope.SamePayload (e e' : Envelope α) : Prop := e.payload = e'.payload

/-- Sources of prices with the same items. -/
def PriceSource.SameItems (e e' : Envelope PriceSource) : Prop := e.payload.items = e'.payload.items

/-- Sources of balances with the same items. -/
def BalanceSource.SameItems (e e' : Envelope BalanceSource) : Prop :=
  e.payload.items = e'.payload.items

open Envelope (SamePayload)

/-- Account services that no caller with plain metadata can tell apart. -/
def AccountApi.Alike (a a' : AccountApi) : Prop :=
  ∀ e : Envelope ResolveRequest, e.metadata.Plain →
    Call.Alike SamePayload (a.resolve e) (a'.resolve e)

/-- Price services whose single calls no caller with plain metadata can tell apart. -/
def PriceApi.QuotesAlike (p p' : PriceApi) : Prop :=
  ∀ e : Envelope PriceRequest, e.metadata.Plain → Call.Alike SamePayload (p.fetch e) (p'.fetch e)

/-- Price services whose streams no caller with plain metadata can tell apart. -/
def PriceApi.StreamsAlike (p p' : PriceApi) : Prop :=
  ∀ e : Envelope PriceRequest, e.metadata.Plain →
    Call.Alike PriceSource.SameItems (p.watch e) (p'.watch e)

section Same

variable {a a' : AccountApi} {p p' : PriceApi}

/-! ### Validation -/

theorem Metadata.plain_outbound {inbound : Metadata} (plain : inbound.Plain) :
    (Validator.outbound inbound).Plain := by
  unfold Validator.outbound
  cases found : inbound.get? routeKey with
  | none => exact plain_empty
  | some route => exact plain_route (plain.printable found)

theorem Validator.printable_token {inbound : Metadata} (plain : inbound.Plain) {token : String}
    (h : token? inbound = some token) : Http.Printable token :=
  plain.printable (Option.filter_eq_some_iff.mp h).1

theorem Validator.alike_judge (token : String) (requested : Tier) (user : UserInfo) :
    Call.Alike (fun x x' => x = x' ∧ x.token = token) (judge token requested user)
      (judge token requested user) := by
  unfold judge
  cases user.membership.tier? with
  | none => exact (Call.alike_say _ _).bind fun _ _ _ => Call.alike_throw _
  | some actual =>
    refine (Call.alike_say _ _).bind fun _ _ _ => ?_
    split
    · exact Call.alike_pure ⟨rfl, rfl⟩
    · exact Call.alike_throw _

theorem Validator.alike_ask (alike : a.Alike a') (token : String) (requested : Tier)
    {metadata : Metadata} (plain : metadata.Plain) :
    Call.Alike (fun x x' => x = x' ∧ x.token = token) (ask a token requested metadata)
      (ask a' token requested metadata) := by
  unfold ask
  refine (alike ⟨⟨token⟩, metadata⟩ plain).result.bind fun answer answer' same => ?_
  cases same with
  | error f => exact (Call.alike_say _ _).bind fun _ _ _ => Call.alike_throw _
  | @ok e e' same =>
    refine (Call.alike_say _ _).bind fun _ _ _ => ?_
    have user : e.payload = e'.payload := same
    rw [user]
    exact alike_judge token requested e'.payload

/-- Callers are let through alike, and what they present elsewhere is plain again. -/
theorem Validator.alike_validate (alike : a.Alike a') (home home' : Role) {inbound : Metadata}
    (plain : inbound.Plain) :
    Call.Alike (fun x x' => x = x' ∧ x.forward.Plain) (validate ⟨a, home⟩ inbound)
      (validate ⟨a', home'⟩ inbound) := by
  have checked : Call.Alike (fun x x' => x = x' ∧ x.forward.Plain) (check a inbound)
      (check a' inbound) := by
    unfold check
    cases presented : token? inbound with
    | none => exact Call.alike_throw _
    | some token =>
      cases requested? inbound with
      | none => exact Call.alike_throw _
      | some requested =>
        -- Who is let through keeps the token that was presented, which is a plain value already.
        refine (alike_ask alike token requested (Metadata.plain_outbound plain)).mono ?_
        rintro x x' ⟨same, rfl⟩
        exact ⟨same, Metadata.plain_credentials (printable_token plain presented) x.requested⟩
  unfold validate
  refine checked.result.bind fun r r' same => ?_
  exact (Call.alike_count _ _ _ _).bind fun _ _ _ => Call.alike_ofItem same

/-! ### Accounts -/

theorem AccountService.alike_api (s : AccountService) : s.api.Alike s.api := by
  intro e _
  change Call.Alike SamePayload (s.resolve e) (s.resolve e)
  unfold resolve
  cases e.metadata.get? Metadata.routeKey with
  | none =>
    cases s.directory.lookup? e.payload.token with
    | none => exact Call.alike_throw _
    | some r => exact Call.alike_pure rfl
  | some route =>
    refine (Call.alike_say _ _).bind fun _ _ _ => ?_
    cases s.directory.lookup? e.payload.token with
    | none => exact Call.alike_throw _
    | some r => exact Call.alike_pure rfl

theorem AccountApi.alike_constant (answer : Item (Envelope UserInfo)) :
    (constant answer).Alike (constant answer) := by
  intro _ _
  exact Call.alike_ofItem (Item.Alike.refl (R := SamePayload) (fun _ => rfl) answer)

theorem AccountApi.Alike.recorded (h : a.Alike a') : a.recorded.Alike a'.recorded := by
  intro e plain
  refine Call.Alike.noted (Call.Alike.noted_right (h e plain) ?_) ?_
  · exact fun _ => rfl
  · exact fun _ => rfl

theorem Wiring.alike_account (w : Wiring) : w.account.Alike w.account := by
  unfold account
  cases w.account? with
  | some answer => exact (AccountApi.alike_constant answer).recorded
  | none => exact (AccountService.alike_api _).recorded

/-! ### Prices -/

section Feed

variable {s s' : PriceService} (accounts : s.validator.resolver.Alike s'.validator.resolver)
  (gate : s.premiumOnly = s'.premiumOnly)

include accounts gate

theorem PriceService.alike_accept {e : Envelope PriceRequest} (plain : e.metadata.Plain) :
    Call.Alike (fun _ _ => True) (s.accept e) (s'.accept e) := by
  unfold accept
  refine (Validator.alike_validate accounts s.validator.home s'.validator.home plain).bind ?_
  rintro x _ ⟨rfl, -⟩
  rw [gate]
  refine (Call.alike_ofItem (Item.Alike.refl (R := fun _ _ => True) (fun _ => trivial) _)).bind ?_
  exact fun _ _ _ => Call.alike_pure trivial

theorem PriceService.quotesAlike (feed : s.feed = s'.feed) : s.api.QuotesAlike s'.api := by
  intro e plain
  refine (alike_accept accounts gate plain).bind fun _ _ _ => Call.alike_sample.bind ?_
  rintro n _ rfl
  have quote : PriceQuote.mk (s.feed n) = PriceQuote.mk (s'.feed n) := by rw [feed]
  exact Call.alike_pure quote

theorem PriceService.streamsAlike : s.api.StreamsAlike s'.api := by
  intro e plain
  refine (alike_accept accounts gate plain).bind fun _ _ _ => ?_
  refine (Call.alike_count _ _ _ _).bind fun _ _ _ => (Call.alike_say _ _).bind fun _ _ _ => ?_
  exact Call.alike_pure rfl

end Feed

theorem PriceApi.quotesAlike_scripted (s : ScriptedPrices) :
    (scripted s).QuotesAlike (scripted s) := by
  intro _ _
  exact Call.alike_ofItem (Item.Alike.refl (R := SamePayload) (fun _ => rfl) _)

theorem PriceApi.streamsAlike_scripted (s : ScriptedPrices) :
    (scripted s).StreamsAlike (scripted s) := by
  intro _ _
  exact Call.alike_ofItem (Item.Alike.refl (R := PriceSource.SameItems) (fun _ => rfl) _)

theorem PriceApi.QuotesAlike.recorded (h : p.QuotesAlike p') : p.recorded.QuotesAlike p' :=
  fun e plain => (h e plain).noted fun _ => rfl

theorem PriceApi.StreamsAlike.recorded (h : p.StreamsAlike p') : p.recorded.StreamsAlike p' :=
  fun e plain => (h e plain).noted fun _ => rfl

/-! ### Balances -/

variable {s s' : WalletService}

theorem WalletService.alike_fetch (accounts : s.validator.resolver.Alike s'.validator.resolver)
    (quotes : s.prices.QuotesAlike s'.prices) (aggregator : s.aggregator = s'.aggregator)
    {e : Envelope BalanceRequest} (plain : e.metadata.Plain) :
    Call.Alike SamePayload (s.fetch e) (s'.fetch e) := by
  unfold fetch
  refine (Validator.alike_validate accounts s.validator.home s'.validator.home plain).bind ?_
  rintro x _ ⟨rfl, forwarded⟩
  refine ((quotes ⟨{}, x.forward⟩ forwarded).within _).bind fun quote quote' same => ?_
  have price : quote.payload = quote'.payload := same
  refine (Call.alike_say _ _).bind fun _ _ _ => (Call.alike_say _ _).bind fun _ _ _ => ?_
  rw [price, aggregator]
  refine (Call.alike_ofItem (Item.Alike.refl (R := Eq) (fun _ => rfl) _)).bind ?_
  rintro b _ rfl
  exact Call.alike_pure rfl

theorem BalanceSource.updates_congr {b b' : BalanceSource} (update : b.update = b'.update)
    (prices : List (Item Int64)) : b.updates prices = b'.updates prices := by
  induction prices with
  | nil => rfl
  | cons i prices ih =>
    cases i with
    | error f => rfl
    | ok p => rw [updates, updates, update, ih]

theorem BalanceSource.items_congr (user : String) (perAddress : Bool) (aggregator : Aggregator)
    {q q' : PriceSource} (prices : q.items = q'.items) (home home' : Role) :
    items ⟨user, perAddress, aggregator, q, home⟩ =
      items ⟨user, perAddress, aggregator, q', home'⟩ := by
  change updates _ q.items = updates _ q'.items
  rw [prices]
  refine updates_congr ?_ _
  rfl

theorem WalletService.alike_watch (accounts : s.validator.resolver.Alike s'.validator.resolver)
    (streams : s.prices.StreamsAlike s'.prices) (aggregator : s.aggregator = s'.aggregator)
    {e : Envelope BalanceRequest} (plain : e.metadata.Plain) :
    Call.Alike BalanceSource.SameItems (s.watch e) (s'.watch e) := by
  unfold watch
  refine (Validator.alike_validate accounts s.validator.home s'.validator.home plain).bind ?_
  rintro x _ ⟨rfl, forwarded⟩
  refine ((streams ⟨{}, x.forward⟩ forwarded).within _).bind fun opened opened' same => ?_
  refine (Call.alike_say _ _).bind fun _ _ _ => (Call.alike_count _ _ _ _).bind fun _ _ _ => ?_
  refine (Call.alike_say _ _).bind fun _ _ _ => Call.alike_pure ?_
  rw [aggregator]
  exact BalanceSource.items_congr x.name e.payload.perAddress s'.aggregator same s.home s'.home

end Same

end WalletWatch
