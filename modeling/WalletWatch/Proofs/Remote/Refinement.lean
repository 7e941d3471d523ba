import WalletWatch.Proofs.Chain.Delivery
import WalletWatch.Proofs.Http.Address
import WalletWatch.Proofs.Remote.Hop

set_option autoImplicit false

/-!
# Three processes as one

The services of a deployment ask one another across hops. No caller with plain metadata can tell
them from the services of one process.
-/

namespace WalletWatch

open Chain (upToFailure)
open Envelope (SamePayload)

variable {α β : Type}

/-! ## Items -/

namespace Chain

theorem upToFailure_map (g : α → β) (items : List (Item α)) :
    upToFailure (items.map (Except.map g)) = (upToFailure items).map (Except.map g) := by
  induction items with
  | nil => rfl
  | cons i items ih =>
    cases i with
    | error f => rfl
    | ok a =>
      change .ok (g a) :: upToFailure (items.map (Except.map g)) = _
      rw [ih]
      rfl

theorem upToFailure_upToFailure (items : List (Item α)) :
    upToFailure (upToFailure items) = upToFailure items := by
  induction items with
  | nil => rfl
  | cons i items ih =>
    cases i with
    | error f => rfl
    | ok a => exact congrArg (Except.ok a :: ·) ih

theorem upToFailure_ok_append (l : List α) (items : List (Item α)) :
    upToFailure (l.map .ok ++ items) = l.map .ok ++ upToFailure items := by
  induction l with
  | nil => rfl
  | cons a l ih => exact congrArg (Except.ok a :: ·) ih

end Chain

theorem Script.items_ofItems (items : List (Item Int64)) :
    (Script.ofItems items).items = upToFailure items := by
  induction items with
  | nil => rfl
  | cons i items ih =>
    cases i with
    | error f => rfl
    | ok p => exact congrArg (Except.ok p :: ·) ih

theorem PriceSource.upToFailure_items (p : PriceSource) : upToFailure p.items = p.items := by
  cases p with
  | feed home period => rfl
  | script s =>
    change upToFailure (s.prices.map .ok ++ _) = s.prices.map .ok ++ _
    rw [Chain.upToFailure_ok_append]
    cases s.ending <;> rfl

theorem BalanceSource.upToFailure_items (b : BalanceSource) : upToFailure b.items = b.items := by
  rw [BalanceSource.items, Chain.updates_eq_upToFailure, Chain.upToFailure_upToFailure]

theorem PriceQuote.map_price_mk (items : List (Item Int64)) :
    (items.map (Except.map PriceQuote.mk)).map (Except.map PriceQuote.price) = items := by
  induction items with
  | nil => rfl
  | cons i items ih => cases i <;> exact congrArg _ ih

/-! ## The services across a hop -/

section Services

variable (d : Deployment) (role : Role) (hostname : String)

theorem Deployment.alike_accountApi {a a' : AccountApi} (alike : a.Alike a') :
    a.Alike (d.client role ⟨hostname, .account a', none⟩).accountApi := by
  intro e plain
  have found : Route.find? .account (Http.Target.ofString resolvePath).path = some .resolve := by
    decide +kernel
  have hop := d.echoes_call role (n := ⟨hostname, .account a', none⟩) found (by decide)
    (fun _ => rfl) rfl plain
  exact (alike e plain).echo hop fun _ _ _ => Eq.trans

theorem Deployment.quotesAlike_priceApi {p p' : PriceApi} (alike : p.QuotesAlike p') :
    p.QuotesAlike (d.client role ⟨hostname, .price p', none⟩).priceApi := by
  intro e plain
  have found : Route.find? .price (Http.Target.ofString pricePath).path = some .price := by
    decide +kernel
  have hop := d.echoes_call role (n := ⟨hostname, .price p', none⟩) found (by decide)
    (fun _ => rfl) rfl plain
  exact (alike e plain).echo hop fun _ _ _ => Eq.trans

theorem Deployment.alike_fetchBalance {c : Call (Envelope Balance)} {api : WalletApi}
    {e : Envelope BalanceRequest} (plain : e.metadata.Plain)
    (alike : Call.Alike SamePayload c (api.fetch e)) :
    Call.Alike SamePayload c ((d.client role ⟨hostname, .wallet api, none⟩).fetchBalance e) := by
  have found : Route.find? .wallet (Http.Target.ofString balancePath).path = some .balance := by
    decide +kernel
  have hop := d.echoes_call role (n := ⟨hostname, .wallet api, none⟩) found (by decide)
    (fun _ => rfl) rfl plain
  exact alike.echo hop fun _ _ _ => Eq.trans

theorem Item.Alike.map_right (g : α → β) (i : Item α) :
    Item.Alike (fun a b => b = g a) i (i.map g) := by
  cases i with
  | ok a => exact .ok rfl
  | error f => exact .error f

theorem Call.echoes_then (c : Call α) (g : α → β) :
    Call.Echoes (fun a b => b = g a) c (c >>= fun a => pure (g a)) := by
  intro w
  rw [Call.perform_then]
  exact ⟨Item.Alike.map_right g _, rfl⟩

/-- What comes of a stream across a hop is what was put into its pump, up to the first failure. -/
theorem Deployment.alike_watch [Wire α] [LawfulWire α] {c : Call β} {due : β → List (Item α)}
    {n : Node} {path : String} {perAddress? : Option Bool} {m : Metadata} (plain : m.Plain)
    (opened : Call.Alike (fun a (o : Node.Opening) => ∃ items ends,
        o.messages = Socket.messages items ends ∧ upToFailure items = due a)
      c (n.watch (Http.writeMetadata [] m).delivered perAddress?))
    (routed : ∀ headers, n.handshake path headers = n.upgrade headers perAddress?)
    (addressed : (Http.Address.parse ((d.client role n).peer.watchUrl path)).isOk = true) :
    Call.Alike (fun a (e : Envelope (List (Item α))) => e.payload = due a) c
      ((d.client role n).watch path m) := by
  refine opened.echo (d.echoes_watch role routed addressed plain) ?_
  rintro a o e ⟨items, ends, sent, cut⟩ read
  rw [read, sent, Socket.read_messages, cut]

theorem Deployment.streamsAlike_priceApi {p p' : PriceApi} (alike : p.StreamsAlike p')
    (addressed : (Http.Address.parse
      ((d.client role ⟨hostname, .price p', none⟩).peer.watchUrl priceWatchPath)).isOk = true) :
    p.StreamsAlike (d.client role ⟨hostname, .price p', none⟩).priceApi := by
  intro e plain
  have opened : Call.Echoes (fun a o => o = .prices a) (p'.watch e)
      (Node.watch ⟨hostname, .price p', none⟩ (Http.writeMetadata [] e.metadata).delivered
        none) := by
    intro w
    rw [Node.perform_watch_prices, Http.metadataOf_handshake plain]
    exact ⟨Item.Alike.map_right Node.Opening.prices _, rfl⟩
  have received : Call.Alike (fun a (r : Envelope (List (Item PriceQuote))) =>
      r.payload = a.payload.items.map (Except.map PriceQuote.mk)) (p.watch e)
      ((d.client role ⟨hostname, .price p', none⟩).watchPrice e.metadata) := by
    refine d.alike_watch role plain ((alike e plain).echo opened ?_)
      (Node.handshake_prices hostname p') addressed
    rintro a b _ same rfl
    have items : a.payload.items = b.payload.items := same
    refine ⟨_, _, rfl, ?_⟩
    rw [Chain.upToFailure_map, PriceSource.upToFailure_items, items]
  refine received.echo (Call.echoes_then _ _) ?_
  rintro a r _ eq rfl
  change a.payload.items = (Script.ofItems (r.payload.map (Except.map PriceQuote.price))).items
  rw [eq, PriceQuote.map_price_mk, Script.items_ofItems, PriceSource.upToFailure_items]

theorem Deployment.alike_watchBalance {c : Call (Envelope BalanceSource)} {api : WalletApi}
    {e : Envelope BalanceRequest} (plain : e.metadata.Plain)
    (alike : Call.Alike BalanceSource.SameItems c (api.watch e))
    (addressed : (Http.Address.parse ((d.client role ⟨hostname, .wallet api, none⟩).peer.watchUrl
      (balanceWatchTarget e.payload.perAddress))).isOk = true) :
    Call.Alike (fun a r => r.payload = a.payload.items) c
      ((d.client role ⟨hostname, .wallet api, none⟩).watchBalance e) := by
  have opened : Call.Echoes (fun a o => o = .balances a) (api.watch e)
      (Node.watch ⟨hostname, .wallet api, none⟩ (Http.writeMetadata [] e.metadata).delivered
        (some e.payload.perAddress)) := by
    intro w
    rw [Node.perform_watch_balances, Http.metadataOf_handshake plain]
    exact ⟨Item.Alike.map_right Node.Opening.balances _, rfl⟩
  refine d.alike_watch role plain (alike.echo opened ?_)
    (Node.handshake_balances hostname api e.payload.perAddress) addressed
  rintro a b _ same rfl
  have items : a.payload.items = b.payload.items := same
  refine ⟨_, _, rfl, ?_⟩
  rw [BalanceSource.upToFailure_items, items]

end Services

/-! ## Deployments -/

namespace Deployment

variable (d : Deployment)

/-- What the price service is behind its node. -/
def priceApi : PriceApi :=
  match d.wiring.prices? with
  | some s => .scripted s
  | none => d.priceService.api

theorem priceClient_eq :
    d.priceClient = d.client .price ⟨d.wiring.hostname .price, .price d.priceApi, none⟩ := rfl

theorem walletClient_eq : d.walletClient =
    d.client .wallet ⟨d.wiring.hostname .wallet, .wallet d.walletService.api, none⟩ := rfl

/-- The addresses that streams are asked for at are well formed. -/
structure Dialable : Prop where
  prices : (Http.Address.parse (d.priceClient.peer.watchUrl priceWatchPath)).isOk = true
  balances : ∀ perAddress,
    (Http.Address.parse (d.walletClient.peer.watchUrl (balanceWatchTarget perAddress))).isOk = true

theorem dialable_of_hosts {host : Role → String} (named : ∀ role, Http.NamesHost (host role))
    (web : ∀ role, d.address role = "http://" ++ host role) : d.Dialable := by
  have url : ∀ (role : Role) (n : Node) (path : String), (d.client role n).peer.watchUrl path =
      "ws://" ++ host role ++ path := by
    intro role n path
    change (Peer.ofAddress (d.address role) d.dialTimeout).watchUrl path = _
    rw [web, Peer.watchUrl_web (named role)]
  have prices : Http.NamesPath priceWatchPath := ⟨by decide +kernel, by decide +kernel, by decide⟩
  have balances : ∀ perAddress, Http.NamesPath (balanceWatchTarget perAddress) := by
    intro perAddress
    cases perAddress <;> exact ⟨by decide +kernel, by decide +kernel, by decide⟩
  refine ⟨?_, fun perAddress => ?_⟩
  · rw [priceClient_eq, url]
    exact Http.isOk_parse (named .price) prices
  · rw [walletClient_eq, url]
    exact Http.isOk_parse (named .wallet) (balances perAddress)

theorem alike_account : d.wiring.account.Alike d.accountClient.accountApi :=
  d.alike_accountApi .account (d.wiring.hostname .account) d.wiring.alike_account

theorem alike_accounts (home : Role) : (d.wiring.priceService home).validator.resolver.Alike
    d.priceService.validator.resolver := d.alike_account

theorem quotesAlike_price (home : Role) : (d.wiring.price home).QuotesAlike d.priceApi := by
  have gate : (d.wiring.priceService home).premiumOnly = d.priceService.premiumOnly := rfl
  have feed : (d.wiring.priceService home).feed = d.priceService.feed := rfl
  unfold Wiring.price priceApi
  cases d.wiring.prices? with
  | some s => exact (PriceApi.quotesAlike_scripted s).recorded
  | none => exact (PriceService.quotesAlike (d.alike_accounts home) gate feed).recorded

theorem streamsAlike_price (home : Role) : (d.wiring.price home).StreamsAlike d.priceApi := by
  have gate : (d.wiring.priceService home).premiumOnly = d.priceService.premiumOnly := rfl
  unfold Wiring.price priceApi
  cases d.wiring.prices? with
  | some s => exact (PriceApi.streamsAlike_scripted s).recorded
  | none => exact (PriceService.streamsAlike (d.alike_accounts home) gate).recorded

variable {e : Envelope BalanceRequest} (plain : e.metadata.Plain) (home : Role)

include plain

theorem alike_fetch : Call.Alike SamePayload ((d.wiring.wallet home).fetch e)
    (d.walletClient.fetchBalance e) := by
  have accounts : (d.wiring.walletService home).validator.resolver.Alike
    d.walletService.validator.resolver := d.alike_account
  have quotes : (d.wiring.walletService home).prices.QuotesAlike d.walletService.prices :=
    d.quotesAlike_priceApi .price (d.wiring.hostname .price) (d.quotesAlike_price home)
  have aggregator : (d.wiring.walletService home).aggregator = d.walletService.aggregator := rfl
  have services := WalletService.alike_fetch accounts quotes aggregator plain
  exact d.alike_fetchBalance .wallet (d.wiring.hostname .wallet) plain services

theorem alike_watch_balances (dialable : d.Dialable) :
    Call.Alike (fun opened received => received.payload = opened.payload.items)
      ((d.wiring.wallet home).watch e) (d.walletClient.watchBalance e) := by
  have prices := dialable.prices
  have balances := dialable.balances e.payload.perAddress
  rw [priceClient_eq] at prices
  rw [walletClient_eq] at balances
  have accounts : (d.wiring.walletService home).validator.resolver.Alike
    d.walletService.validator.resolver := d.alike_account
  have streams : (d.wiring.walletService home).prices.StreamsAlike d.walletService.prices :=
    d.streamsAlike_priceApi .price (d.wiring.hostname .price) (d.streamsAlike_price home) prices
  have aggregator : (d.wiring.walletService home).aggregator = d.walletService.aggregator := rfl
  have services := WalletService.alike_watch accounts streams aggregator plain
  exact d.alike_watchBalance .wallet (d.wiring.hostname .wallet) plain services balances

end Deployment

/-! ## Runs of the services of one process -/

namespace Chain

variable {wiring : Wiring} {home : Role} {metadata : Metadata} {perAddress : Bool} {w w' : World}
  {e : Envelope BalanceSource}

theorem opened_over_script {mine : Metadata} {quote : Item Int64} {script : Script}
    (hprices : wiring.prices? = some ⟨mine, quote, .ok script⟩)
    (made : ((wiring.wallet home).watch ⟨⟨perAddress⟩, metadata⟩).perform w = (.ok e, w')) :
    e.payload.prices = .script script := by
  cases validated : ((wiring.validator home).validate metadata).perform w with
  | mk r w₁ =>
    cases r with
    | error f =>
      have refused : ((wiring.wallet home).watch ⟨⟨perAddress⟩, metadata⟩).perform w =
        (.error f, w₁) := Call.perform_bind_error _ validated
      rw [refused] at made
      cases made
    | ok access =>
      have opened := perform_wallet_watch wiring home hprices perAddress validated
      rw [made] at opened
      cases opened
      rfl

/-- Whatever was done before and is done behind it, the consumer of a stream over a script follows
the items of what was opened. -/
theorem follows_items {mine : Metadata} {quote : Item Int64} {script : Script}
    (hprices : wiring.prices? = some ⟨mine, quote, .ok script⟩) {before : List Move} {c : Chain}
    (hc : ((start wiring home).run before).2 = c) (timeout? : Option Millis)
    (made : ((wiring.wallet home).watch ⟨⟨perAddress⟩, metadata⟩).perform c.world = (.ok e, w))
    (after : List Move) :
    (c.next (.watchBalance metadata perAddress timeout?)).Follows c.balances.length
      e.payload.items (timeout?.map (c.now + ·)) after := by
  obtain ⟨hwiring, hhome, hlay, hatt⟩ := reached hc
  have hscript := opened_over_script hprices made
  have hmade : ((c.wiring.wallet c.home).watch ⟨⟨perAddress⟩, metadata⟩).perform c.world =
      (.ok e, w) := by
    rw [hwiring, hhome, made]
  have hnext : c.next (.watchBalance metadata perAddress timeout?) = (c.asked w).startBalances
      (c.callerContext timeout?) e.payload :=
    congrArg Prod.snd (watchBalance_ok (c := (c.newCaller timeout?).2.2)
      (c.callerContext timeout?) metadata perAddress hmade)
  have hdeadline : (c.callerContext timeout?).deadline? = timeout?.map (c.now + ·) := by
    cases timeout? <;> rfl
  -- The items of the source are those that the chain is known to deliver of its script.
  have hitems : e.payload.items = scriptedBalances e.payload.aggregator e.payload.user
      e.payload.perAddress script := by
    rw [BalanceSource.items, hscript]
    exact updates_items e.payload script
  rw [← hdeadline, hitems]
  exact hlay.follows (c.signals_callerContext timeout?) hscript hnext.symm (hatt.next hlay _) after

end Chain

/-! ## Nobody can tell -/

/-- For any services and any caller with plain metadata, three processes that ask one another give
what the services of one process give. A single balance is the same, or refused with the same
failure. A stream is refused with the same failure, or has the same items; and where it is made of a
script, these are the items that a consumer gets of the stream in the one process, whatever else is
done there: it sees nothing else, and all of them once it sees the end undisturbed. -/
theorem deployment_refines_wiring (d : Deployment) (home : Role) (metadata : Metadata)
    (perAddress : Bool) (plain : metadata.Plain) :
    Call.Alike SamePayload ((d.wiring.wallet home).fetch ⟨⟨perAddress⟩, metadata⟩)
      (d.walletClient.fetchBalance ⟨⟨perAddress⟩, metadata⟩) ∧
    (d.Dialable →
      Call.Alike (fun opened received => received.payload = opened.payload.items)
        ((d.wiring.wallet home).watch ⟨⟨perAddress⟩, metadata⟩)
        (d.walletClient.watchBalance ⟨⟨perAddress⟩, metadata⟩) ∧
      ∀ (mine : Metadata) (quote : Item Int64) (script : Script) (before after : List Chain.Move)
        (timeout? : Option Millis) (c : Chain) (w : World)
        (received : Envelope (List (Item Balance))),
        d.wiring.prices? = some ⟨mine, quote, .ok script⟩ →
        ((Chain.start d.wiring home).run before).2 = c →
        c.world.samples = w.samples →
        ((d.walletClient.watchBalance ⟨⟨perAddress⟩, metadata⟩).perform w).1 = .ok received →
        (c.next (.watchBalance metadata perAddress timeout?)).Follows c.balances.length
          received.payload (timeout?.map (c.now + ·)) after) := by
  refine ⟨d.alike_fetch plain home, fun dialable => ?_⟩
  have streams := d.alike_watch_balances (e := ⟨⟨perAddress⟩, metadata⟩) plain home dialable
  refine ⟨streams, ?_⟩
  intro mine quote script before after timeout? c w received hprices hc samples gave
  -- The chain is in a world of its own, but both worlds have the same prices ahead.
  have agree := (streams c.world w samples).1
  rw [gave] at agree
  obtain ⟨⟨r, w'⟩, made⟩ : ∃ made, ((d.wiring.wallet home).watch
    ⟨⟨perAddress⟩, metadata⟩).perform c.world = made := ⟨_, rfl⟩
  rw [made] at agree
  cases agree with
  | ok items =>
    rw [items]
    exact Chain.follows_items hprices hc timeout? made after

/-- A deployment over two prices with a failure behind them. -/
def threeHosts : Deployment where
  wiring := Chain.failingPrices
  address r := "http://" ++ (r.name ++ ".local:8080")

theorem dialable_threeHosts : threeHosts.Dialable := by
  have hosts : ∀ role : Role, Http.NamesHost (role.name ++ ".local:8080") := by
    intro role
    have short : (role.name ++ ".local:8080").utf8ByteSize ≤ 64 := by
      cases role <;> decide
    refine ⟨?_, ?_, ?_, short.trans (by decide)⟩
    · cases role <;> rfl
    · cases role <;> decide +kernel
    · cases role <;> decide +kernel
  exact threeHosts.dialable_of_hosts hosts fun _ => rfl

/-- What a consumer in one process sees of the stream. -/
def seenInProcess : List (Item Balance) :=
  Chain.balancesSeen 0 (((Chain.start threeHosts.wiring .wallet).next
    (.watchBalance (Metadata.credentials "t" .normal) true none)).run Chain.untilClosed).1

theorem failing_prices_across_three_processes : ∃ balance stream,
    ((threeHosts.walletClient.fetchBalance ⟨⟨true⟩, Metadata.credentials "t" .normal⟩).perform
      {}).1 = .ok balance ∧ balance.payload = ⟨3, [⟨"a", 3⟩]⟩ ∧
    ((threeHosts.walletClient.watchBalance ⟨⟨true⟩, Metadata.credentials "t" .normal⟩).perform
      {}).1 = .ok stream ∧
    stream.payload = [.ok ⟨3, [⟨"a", 3⟩]⟩, .ok ⟨6, [⟨"a", 6⟩]⟩, .error ⟨.unavailable, "gone"⟩] ∧
    seenInProcess = stream.payload := by
  have token : Http.Printable "t" := ⟨by simp, by decide, by decide⟩
  obtain ⟨single, streamed⟩ := deployment_refines_wiring threeHosts .wallet _ true
    (Metadata.plain_credentials token .normal)
  obtain ⟨streams, follows⟩ := streamed dialable_threeHosts
  have balance := (single {} {} rfl).1
  have stream := (streams {} {} rfl).1
  have here : (((threeHosts.wiring.wallet .wallet).fetch ⟨⟨true⟩, Metadata.credentials "t"
      .normal⟩).perform {}).1 = .ok (.fromHost ⟨3, [⟨"a", 3⟩]⟩ "wallet-0") := by cbv
  have opened : (((threeHosts.wiring.wallet .wallet).watch ⟨⟨true⟩, Metadata.credentials "t"
      .normal⟩).perform {}).1 = .ok (.fromHost ⟨"u", true, threeHosts.wiring.aggregator,
        .script ⟨[1, 2], 0, .failure ⟨.unavailable, "gone"⟩⟩, .wallet⟩ "wallet-0") := by cbv
  have closed : (Chain.Move.receiveBalance 0, Chain.Sight.balance .closed) ∈ (((Chain.start
      threeHosts.wiring .wallet).next (.watchBalance (Metadata.credentials "t" .normal) true
        none)).run Chain.untilClosed).1 :=
    List.mem_of_getElem? (i := 35) (by cbv)
  have followed := fun received => follows _ _ _ [] Chain.untilClosed none _ {} received rfl rfl rfl
  rw [here] at balance
  rw [opened] at stream
  generalize ((threeHosts.walletClient.fetchBalance _).perform {}).1 = b at balance ⊢
  generalize ((threeHosts.walletClient.watchBalance _).perform {}).1 = s at stream followed ⊢
  cases balance with
  | @ok _ b samePayload =>
    cases stream with
    | @ok _ s items =>
      have seen := (followed s rfl).undisturbed_all (by decide) (by rintro _ ⟨⟩) closed
      exact ⟨b, s, rfl, samePayload.symm, rfl, items.trans (by cbv), seen⟩

end WalletWatch
