import WalletWatch.Proofs.Chain.Backlog

set_option autoImplicit false

/-!
# Streams of balances and single balances

Each balance that a stream makes of a sample is what a single balance would come to at that price,
whoever asks. For a user without holdings this is the failure of a single balance, and there is
nothing else in the stream.
-/

namespace WalletWatch

namespace Chain

/-- The balances that a stream makes of samples, next to single balances at the same prices. -/
structure Mirrors (c : Chain) (k i : Nat) (wiring : Wiring) (home : Role) (metadata : Metadata)
    (perAddress : Bool) (user : String) (moves : List Move) : Prop where
  /-- The balance at each place is what a single balance comes to at the sample of that place. -/
  made : ∀ (j : Nat) (item : Item Balance),
    (Stream.history Stream.produced (c.balanceStates k moves))[j]? = some item →
    ∃ price, (c.samplesTaken i moves)[j]? = some price ∧ ∀ w,
      ((((wiring.atPrice price).wallet home).fetch ⟨⟨perAddress⟩, metadata⟩).perform w).1 =
        item.map (.fromHost · (wiring.hostname .wallet))
  seen_first : balancesSeen k (c.run moves).1 <+:
    Stream.history Stream.produced (c.balanceStates k moves)
  /-- A failure is the first item and the last. -/
  unknown_user : wiring.ledger.lookup? user = none →
    Stream.history Stream.produced (c.balanceStates k moves) <+:
      [.error ⟨.notFound, "could not identify user: " ++ user⟩]
  known_user : wiring.ledger.lookup? user ≠ none →
    ∀ f, Except.error f ∉ Stream.history Stream.produced (c.balanceStates k moves)

theorem Backlog.made_getElem? {c : Chain} {k i : Nat} {value : Int64 → Item Balance}
    {moves : List Move} (h : c.Backlog k i value moves) {j : Nat} {item : Item Balance}
    (hj : (Stream.history Stream.produced (c.balanceStates k moves))[j]? = some item) :
    ∃ price, (c.samplesTaken i moves)[j]? = some price ∧ value price = item := by
  obtain ⟨rest, heq⟩ := h.made_first
  have hlt := (List.getElem?_eq_some_iff.mp hj).1
  have hvalue : ((c.samplesTaken i moves).map value)[j]? = some item := by
    rw [← heq, List.getElem?_append_left hlt, hj]
  rw [List.getElem?_map, Option.map_eq_some_iff] at hvalue
  exact hvalue

theorem mirrors_of_opened {c : Chain} (hlay : c.Layout) (hatt : c.Attended)
    (inProcess : c.wiring.prices? = none) {metadata answer : Metadata} {perAddress : Bool}
    {timeout? : Option Millis}
    (h : (c.move (.watchBalance metadata perAddress timeout?)).1 = .opened (.ok answer)) :
    ∃ access, (((c.wiring.validator c.home).validate metadata).perform c.world).1 = .ok access ∧
      ∀ after : List Move, (c.next (.watchBalance metadata perAddress timeout?)).Mirrors
        c.balances.length c.prices.length c.wiring c.home metadata perAddress access.name
        after := by
  obtain ⟨access, hvalid, hbacklog⟩ := backlog_of_opened hlay hatt inProcess h
  obtain ⟨e, w, hwatch, -⟩ := opened_watchBalance h
  have updates := (Wiring.agrees inProcess c.home metadata perAddress c.world).updates e hwatch
  obtain ⟨access', granted, hd, -, rfl⟩ :=
    Wiring.source_of_watch inProcess c.home perAddress c.world hwatch
  cases hvalid.symm.trans ((Wiring.validate_eq c.home metadata c.world).trans hd)
  refine ⟨access, hvalid, fun after => ⟨?_, (hbacklog after).seen_first, ?_, ?_⟩⟩
  · intro j item hj
    obtain ⟨price, htaken, hvalue⟩ := (hbacklog after).made_getElem? hj
    refine ⟨price, htaken, fun w => ?_⟩
    rw [updates price w, ← hvalue]
    rfl
  · intro missing
    cases hmade : Stream.history Stream.produced (Chain.balanceStates _ _ after) with
    | nil => exact List.nil_prefix
    | cons first rest =>
      obtain ⟨price, -, hvalue⟩ := (hbacklog after).made_getElem? (j := 0) (by rw [hmade]; rfl)
      have hfirst := hvalue.symm.trans (balance_of_missing missing price perAddress)
      rw [hfirst] at hmade
      rw [failure_last_of_made (hmade.trans (List.nil_append _).symm), hfirst]
  · intro known f hf
    obtain ⟨j, hj⟩ := List.mem_iff_getElem?.mp hf
    obtain ⟨price, -, hvalue⟩ := (hbacklog after).made_getElem? hj
    cases hlookup : c.wiring.ledger.lookup? access.name with
    | none => exact known hlookup
    | some holdings =>
      have found : c.wiring.aggregator.ledger.lookup? access.name = some holdings := hlookup
      simp [Aggregator.balance, found] at hvalue

/-- A stream and a single call come to the same. Whether a stream is opened is decided as a single
call is, with the same failure but for the context that a failure of the price service gets; a user
without holdings is told so only by the stream itself. Each balance of a stream is the single
balance at its price. -/
theorem streams_agree_with_single_calls {wiring : Wiring} (inProcess : wiring.prices? = none)
    (home : Role) :
    (∀ (inbound : Metadata) (perAddress : Bool) (w : World),
      wiring.Agrees home inbound perAddress w) ∧
    ∀ (before : List Move) (metadata answer : Metadata) (perAddress : Bool)
      (timeout? : Option Millis) (c : Chain), ((start wiring home).run before).2 = c →
      (c.move (.watchBalance metadata perAddress timeout?)).1 = .opened (.ok answer) →
      ∃ access, (((wiring.validator home).validate metadata).perform c.world).1 = .ok access ∧
        ∀ after : List Move, (c.next (.watchBalance metadata perAddress timeout?)).Mirrors
          c.balances.length c.prices.length wiring home metadata perAddress access.name after := by
  refine ⟨fun inbound perAddress w => wiring.agrees inProcess home inbound perAddress w, ?_⟩
  intro before metadata answer perAddress timeout? c hc hopened
  obtain ⟨hwiring, hhome, hlay, hatt⟩ := reached hc
  subst hwiring hhome
  exact mirrors_of_opened hlay hatt inProcess hopened

/-- A process whose account service knows a user that its ledger does not know. -/
def noHoldings : Wiring where
  ledger := .ofHoldings []
  samples := [10]
  account? := some (.ok ⟨⟨"u", .normal⟩, ∅⟩)

def noHoldingsOpened : Chain :=
  (start noHoldings .wallet).next (.watchBalance (Metadata.credentials "t" .normal) true none)

def untilTold : List Move :=
  [.pass 1000, .turnPrice 0, .turnPrice 0, .turnBalance 0, .turnBalance 0, .receiveBalance 0]

theorem users_without_holdings_are_told_by_the_stream :
    noHoldings.Agrees .wallet (Metadata.credentials "t" .normal) true {} ∧
      noHoldingsOpened.Mirrors 0 0 noHoldings .wallet (Metadata.credentials "t" .normal) true "u"
        untilTold ∧
      balancesSeen 0 (noHoldingsOpened.run untilTold).1 =
        [.error ⟨.notFound, "could not identify user: u"⟩] := by
  have inProcess : noHoldings.prices? = none := rfl
  obtain ⟨agrees, mirrors⟩ := streams_agree_with_single_calls inProcess .wallet
  have hvalid : (((noHoldings.validator .wallet).validate (Metadata.credentials "t"
      .normal)).perform {}).1 = .ok ⟨"t", "u", .normal, .normal, true⟩ := by cbv
  obtain ⟨access, haccess, hmirrors⟩ := mirrors [] (Metadata.credentials "t" .normal)
    (Metadata.ofHost "wallet-0") true none _ rfl (by cbv)
  cases haccess.symm.trans hvalid
  exact ⟨agrees _ _ _, hmirrors untilTold, by cbv⟩

end Chain

end WalletWatch
