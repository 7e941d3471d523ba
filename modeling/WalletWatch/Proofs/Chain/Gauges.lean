import Mathlib
import WalletWatch.Proofs.Chain.Layout
import WalletWatch.Proofs.Service.Agreement

set_option autoImplicit false

/-!
# Open streams are counted

A stream counts as open from the call that opens it until its producer has stopped. So whoever moves
in what order, the gauge of a service is the number of its producers that have not stopped.
-/

namespace WalletWatch

theorem Pace.work_active (feed : Nat → Int64) (now : Millis) (cancelled : Bool) (p : Pace)
    (w : World) (role : Role) :
    ((Pace.work feed now cancelled p w).2.metrics role).active = (w.metrics role).active := by
  unfold work
  cases cancelled with
  | true => rfl
  | false =>
    cases p with
    | ticking home t =>
      simp only [Bool.false_eq_true, if_false]
      cases t.take? now with
      | none => rfl
      | some t' =>
        change (if role = home then (w.metrics role).updated "price" else w.metrics role).active = _
        split_ifs <;> rfl
    | playing p =>
      simp only [Bool.false_eq_true, if_false]
      split <;> rfl

theorem countP_modify {α : Type} (p : α → Bool) (f : α → α) {l : List α} {i : Nat} {a : α}
    (h : l[i]? = some a) : (l.modify i f).countP p + (if p a then 1 else 0) =
      l.countP p + if p (f a) then 1 else 0 := by
  induction l generalizing i with
  | nil => simp at h
  | cons x rest ih =>
    cases i with
    | zero =>
      cases h
      simp only [List.modify_zero_cons, List.countP_cons]
      omega
    | succ i =>
      have later := ih (i := i) (by simpa using h)
      simp only [List.modify_succ_cons, List.countP_cons]
      omega

section Live

variable {α : Type} (mine stopped : α → Bool) {f : α → α} {l : List α} {i : Nat} {a : α}

theorem countP_live_same (h : l[i]? = some a) (hmine : mine (f a) = mine a)
    (same : stopped (f a) = stopped a) :
    (l.modify i f).countP (fun x => mine x && !stopped x) =
      l.countP fun x => mine x && !stopped x := by
  have counted := countP_modify (fun x => mine x && !stopped x) f h
  rw [hmine, same] at counted
  exact Nat.add_right_cancel counted

theorem countP_live_stop (h : l[i]? = some a) (hmine : mine (f a) = mine a)
    (live : stopped a = false) (stop : stopped (f a) = true) :
    l.countP (fun x => mine x && !stopped x) =
      (l.modify i f).countP (fun x => mine x && !stopped x) + if mine a then 1 else 0 := by
  have counted := countP_modify (fun x => mine x && !stopped x) f h
  simpa [hmine, live, stop] using counted.symm

end Live

namespace Chain

/-- How many producers of prices have not stopped that a process counts. -/
def openPrices (c : Chain) (role : Role) : Nat :=
  c.prices.countP fun l => l.home? = some role && !l.stream.hasStopped

def openBalances (c : Chain) (role : Role) : Nat :=
  c.balances.countP fun b => b.source.home = role && !b.stream.hasStopped

/-- The gauges of every process show how many producers have not stopped. -/
structure Gauged (c : Chain) : Prop where
  prices : ∀ role, (c.world.metrics role).activeStreams "price" = Int64.ofNat (c.openPrices role)
  balances : ∀ role,
    (c.world.metrics role).activeStreams "wallet" = Int64.ofNat (c.openBalances role)

/-- As many producers are at work as before, and the gauges show the same. -/
structure SameCounts (c c' : Chain) : Prop where
  active : ∀ role service, (c'.world.metrics role).activeStreams service =
    (c.world.metrics role).activeStreams service
  prices : ∀ role, c'.openPrices role = c.openPrices role
  balances : ∀ role, c'.openBalances role = c.openBalances role

section Counts

variable {c c' : Chain} {i k : Nat} {l : PriceLine} {b : BalanceLine}

theorem Gauged.of_sameCounts (h : c.Gauged) (same : c.SameCounts c') : c'.Gauged where
  prices role := by
    rw [same.active, same.prices]
    exact h.prices role
  balances role := by
    rw [same.active, same.balances]
    exact h.balances role

theorem Gauged.of_opened (h : c.Gauged) {t : Trace} (grown : c.world.Grown c'.world t)
    (hprices : ∀ role, c'.openPrices role = c.openPrices role + t.opened.count (role, "price"))
    (hbalances : ∀ role,
      c'.openBalances role = c.openBalances role + t.opened.count (role, "wallet")) :
    c'.Gauged where
  prices role := by rw [grown.opened, h.prices, hprices, Int64.ofNat_add]
  balances role := by rw [grown.opened, h.balances, hbalances, Int64.ofNat_add]

theorem SameCounts.of_eq (hworld : c'.world = c.world) (hprices : c'.prices = c.prices)
    (hbalances : c'.balances = c.balances) : c.SameCounts c' := by
  refine ⟨fun _ _ => by rw [hworld], fun _ => ?_, fun _ => ?_⟩
  · rw [openPrices, hprices, openPrices]
  · rw [openBalances, hbalances, openBalances]

theorem SameCounts.refl (c : Chain) : c.SameCounts c := .of_eq rfl rfl rfl

theorem openPrices_setPrice (h : c.prices[i]? = some l) {st : Stream Pace PriceQuote}
    (same : st.hasStopped = l.stream.hasStopped) (role : Role) :
    (c.setPrice i st).openPrices role = c.openPrices role :=
  countP_live_same (fun l : PriceLine => l.home? = some role) (·.stream.hasStopped) h rfl same

theorem openPrices_stop (h : c.prices[i]? = some l) {reason : StreamEnd}
    (htask : l.stream.task = .closing reason) (role : Role) : c.openPrices role =
      (c.setPrice i { l.stream with task := .stopped reason }).openPrices role +
        if l.home? = some role then 1 else 0 := by
  have live : l.stream.hasStopped = false := by simp [Stream.hasStopped, htask]
  have counted := countP_live_stop (fun l : PriceLine => l.home? = some role)
    (·.stream.hasStopped)
    (f := fun l' => { l' with stream := { l.stream with task := .stopped reason } }) h rfl live rfl
  simp only [decide_eq_true_eq] at counted
  exact counted

theorem openBalances_setBalance (h : c.balances[k]? = some b) {st : Stream Unit Balance}
    (same : st.hasStopped = b.stream.hasStopped) (role : Role) :
    (c.setBalance k st).openBalances role = c.openBalances role :=
  countP_live_same (fun b : BalanceLine => b.source.home = role) (·.stream.hasStopped) h rfl same

theorem openBalances_stop (h : c.balances[k]? = some b) {reason : StreamEnd}
    (htask : b.stream.task = .closing reason) (role : Role) : c.openBalances role =
      (c.setBalance k { b.stream with task := .stopped reason }).openBalances role +
        if b.source.home = role then 1 else 0 := by
  have live : b.stream.hasStopped = false := by simp [Stream.hasStopped, htask]
  have counted := countP_live_stop (fun b : BalanceLine => b.source.home = role)
    (·.stream.hasStopped)
    (f := fun b' => { b' with stream := { b.stream with task := .stopped reason } }) h rfl live rfl
  simp only [decide_eq_true_eq] at counted
  exact counted

theorem sameCounts_setPrice (h : c.prices[i]? = some l) {st : Stream Pace PriceQuote}
    (same : st.hasStopped = l.stream.hasStopped) : c.SameCounts (c.setPrice i st) :=
  ⟨fun _ _ => rfl, openPrices_setPrice h same, fun _ => rfl⟩

theorem sameCounts_setBalance (h : c.balances[k]? = some b) {st : Stream Unit Balance}
    (same : st.hasStopped = b.stream.hasStopped) : c.SameCounts (c.setBalance k st) :=
  ⟨fun _ _ => rfl, fun _ => rfl, openBalances_setBalance h same⟩

/-- A gauge is a 64-bit word, so a number that fits is shown as it is, never as a negative one. -/
theorem Gauged.toInt_prices (h : c.Gauged) (role : Role) (fits : c.openPrices role < 2 ^ 63) :
    ((c.world.metrics role).activeStreams "price").toInt = c.openPrices role := by
  rw [h.prices, Int64.toInt_ofNat_of_lt fits]

theorem Gauged.toInt_balances (h : c.Gauged) (role : Role) (fits : c.openBalances role < 2 ^ 63) :
    ((c.world.metrics role).activeStreams "wallet").toInt = c.openBalances role := by
  rw [h.balances, Int64.toInt_ofNat_of_lt fits]

end Counts

/-! ## Turns -/

section Turns

variable {c : Chain} {i k : Nat} {l p : PriceLine} {b : BalanceLine}

theorem activeStreams_closed_of_count {w : World} {home role : Role} {service : String} {n : Nat}
    (h : (w.metrics role).activeStreams service =
      Int64.ofNat (n + if home = role then 1 else 0)) :
    ((w.count home (·.closed service)).metrics role).activeStreams service = Int64.ofNat n := by
  rw [World.metrics_count]
  by_cases hrole : role = home
  · have one : Int64.ofNat 1 + -1 = 0 := rfl
    rw [if_pos hrole, Metrics.activeStreams_closed, if_pos rfl, h, if_pos hrole.symm,
      Int64.ofNat_add, Int64.add_assoc, one, Int64.add_zero]
  · rw [if_neg hrole, h, if_neg (Ne.symm hrole), Nat.add_zero]

theorem activeStreams_closed_of_ne (w : World) (home role : Role) {service other : String}
    (h : service ≠ other) :
    ((w.count home (·.closed service)).metrics role).activeStreams other =
      (w.metrics role).activeStreams other := by
  rw [World.metrics_count]
  split_ifs
  · rw [Metrics.activeStreams_closed, if_neg h, Int64.add_zero]
  · rfl

theorem turnPrice_of_closing {reason : StreamEnd} (h : c.prices[i]? = some l)
    (htask : l.stream.task = .closing reason) : (c.turnPrice i).2 =
      match l.home? with
      | some home => (c.setPrice i { l.stream with task := .stopped reason }).count home
          (·.closed "price")
      | none => c.setPrice i { l.stream with task := .stopped reason } := by
  simp only [turnPrice, h, Stream.turn, htask]
  cases l.home? <;> rfl

theorem activeStreams_turnPrice (h : c.prices[i]? = some l)
    (hopen : ∀ reason, l.stream.task ≠ .closing reason) (role : Role) (service : String) :
    ((c.turnPrice i).2.world.metrics role).activeStreams service =
      (c.world.metrics role).activeStreams service := by
  have world : (c.turnPrice i).2.world = (l.stream.turn (Pace.work c.wiring.feed c.now
      (l.stream.isCancelled c.now c.signals)) (l.stream.isCancelled c.now c.signals)
      c.world).2.2 := by
    unfold turnPrice
    simp only [h]
    split
    · rename_i reason home ht hhome
      exact absurd ht (Stream.turn_ne_stopped hopen _ _ _ reason)
    · rfl
  refine congrArg (Family.get · (Metrics.labelsOf service)) ?_
  rw [world, Stream.turn_rest]
  cases l.stream.task with
  | working pace => exact Pace.work_active _ _ _ pace _ role
  | _ => rfl

theorem Gauged.turnPrice (hc : c.Gauged) (i : Nat) : (c.turnPrice i).2.Gauged := by
  cases h : c.prices[i]? with
  | none => rwa [turnPrice_of_none h]
  | some l =>
    by_cases hclosing : ∃ reason, l.stream.task = .closing reason
    · obtain ⟨reason, htask⟩ := hclosing
      have hcount := openPrices_stop h htask
      rw [turnPrice_of_closing h htask]
      cases hhome : l.home? with
      | none =>
        refine hc.of_sameCounts ⟨fun _ _ => rfl, fun role => ?_, fun _ => rfl⟩
        simpa [hhome] using (hcount role).symm
      | some home =>
        refine ⟨fun role => ?_, fun role => ?_⟩
        · have hgauge := hc.prices role
          rw [hcount role, hhome] at hgauge
          simp only [Option.some.injEq] at hgauge
          exact activeStreams_closed_of_count hgauge
        · exact (activeStreams_closed_of_ne _ home role (by decide)).trans (hc.balances role)
    · have hopen : ∀ reason, l.stream.task ≠ .closing reason := fun r hr => hclosing ⟨r, hr⟩
      obtain ⟨w, hw⟩ := turnPrice_snd h
      have hactive := activeStreams_turnPrice h hopen
      rw [hw] at hactive ⊢
      exact hc.of_sameCounts
        ⟨hactive, openPrices_setPrice h (Stream.hasStopped_after hopen _ _), fun _ => rfl⟩

theorem activeStreams_turnBalance (h : c.balances[k]? = some b)
    (hopen : ∀ reason, b.stream.task ≠ .closing reason) (hp : c.prices[b.prices]? = some p)
    (role : Role) (service : String) :
    ((c.turnBalance k).2.world.metrics role).activeStreams service =
      (c.world.metrics role).activeStreams service := by
  refine congrArg (Family.get · (Metrics.labelsOf service)) ?_
  unfold turnBalance
  cases htask : b.stream.task with
  | closing reason => exact absurd htask (hopen reason)
  | _ =>
    simp only [h, htask, hp]
    split_ifs
    · change (if role = b.source.home then (c.world.metrics role).updated "wallet"
        else c.world.metrics role).active = _
      split_ifs <;> rfl
    · rfl

theorem sameCounts_letGo? {i : Nat} {c' : Chain} (h : c.letGo? i = some c') : c.SameCounts c' := by
  obtain ⟨p, hp, ⟨-, rfl⟩ | ⟨-, s, -, -, rfl⟩⟩ := letGo?_cases h
  · exact sameCounts_setPrice hp rfl
  · exact .of_eq rfl rfl rfl

theorem readingTurn_ne_turn (b : BalanceLine) (l : PriceLine) (w : Work Pace PriceQuote) :
    c.readingTurn b l ≠ .turn w := by
  intro hact
  rcases c.readingTurn_cases b l with ⟨hturn, -⟩ | ⟨hturn, -⟩ | hturn <;>
    cases hact.symm.trans hturn

theorem Gauged.turnBalance (hc : c.Gauged) (k : Nat) : (c.turnBalance k).2.Gauged := by
  cases h : c.balances[k]? with
  | none => rwa [turnBalance_of_none h]
  | some b =>
    by_cases hclosing : ∃ reason, b.stream.task = .closing reason
    · obtain ⟨reason, htask⟩ := hclosing
      rw [turnBalance_of_closing h htask]
      cases hgo : c.letGo? b.prices with
      | some c' => exact hc.of_sameCounts (sameCounts_letGo? hgo)
      | none =>
        have hcount := openBalances_stop h htask
        refine ⟨fun role => ?_, fun role => ?_⟩
        · exact (activeStreams_closed_of_ne _ b.source.home role (by decide)).trans (hc.prices role)
        · have hgauge := hc.balances role
          rw [hcount role] at hgauge
          exact activeStreams_closed_of_count hgauge
    · have hopen : ∀ reason, b.stream.task ≠ .closing reason := fun r hr => hclosing ⟨r, hr⟩
      cases hp : c.prices[b.prices]? with
      | none => rwa [turnBalance_of_missing h hopen hp]
      | some p =>
        obtain ⟨w, hw⟩ := turnBalance_snd h hopen hp
        have hactive := activeStreams_turnBalance h hopen hp
        have read : (p.stream.after (p.stream.isCancelled c.now c.signals)
            (c.readingTurn b p)).hasStopped = p.stream.hasStopped :=
          Stream.hasStopped_of_task_eq (Stream.task_after _ (readingTurn_ne_turn b p))
        rw [hw] at hactive ⊢
        exact hc.of_sameCounts ⟨hactive, openPrices_setPrice hp read,
          openBalances_setBalance h (Stream.hasStopped_after hopen _ _)⟩

end Turns

/-! ## Calls -/

section Calls

variable {c : Chain}

theorem openPrices_startPrices (c : Chain) (ctx : Context) (source : PriceSource) (role : Role) :
    (c.startPrices ctx source).openPrices role =
      c.openPrices role + (Wiring.pricesOpened (.ok source)).count (role, "price") := by
  refine List.countP_append.trans (congrArg (c.openPrices role + ·) ?_)
  cases source with
  | script s => simp [Wiring.pricesOpened]
  | feed home period =>
    by_cases h : home = role <;>
      simp [Wiring.pricesOpened, Stream.hasStopped, h]

theorem count_wallet_pricesOpened (r : Item PriceSource) (role : Role) :
    (Wiring.pricesOpened r).count (role, "wallet") = 0 := by
  unfold Wiring.pricesOpened
  split <;> simp

theorem openBalances_startBalances (c : Chain) (ctx : Context) (source : BalanceSource)
    (role : Role) : (c.startBalances ctx source).openBalances role =
      c.openBalances role + (Wiring.balancesOpened (.ok source)).count (role, "wallet") := by
  refine List.countP_append.trans (congrArg (c.openBalances role + ·) ?_)
  rw [Wiring.balancesOpened, List.count_append, count_wallet_pricesOpened, Nat.zero_add]
  by_cases h : source.home = role <;> simp [Stream.hasStopped, h]

theorem openPrices_startBalances (c : Chain) (ctx : Context) (source : BalanceSource)
    (role : Role) : (c.startBalances ctx source).openPrices role =
      c.openPrices role + (Wiring.balancesOpened (.ok source)).count (role, "price") := by
  refine (c.openPrices_startPrices ctx source.prices role).trans ?_
  simp [Wiring.balancesOpened]

theorem Gauged.watchPrice (hc : c.Gauged) (metadata : Metadata) (timeout? : Option Millis) :
    (c.next (.watchPrice metadata timeout?)).Gauged := by
  obtain ⟨r, t, ht, leaves⟩ := c.wiring.leaves_price_watch c.home ⟨{}, metadata⟩
  obtain ⟨w, made, grown⟩ := leaves c.world
  cases r with
  | error f =>
    rw [next, move_watchPrice_error timeout? made]
    refine hc.of_opened grown (fun role => ?_) fun role => ?_ <;> rw [ht] <;> rfl
  | ok e =>
    rw [next, move_watchPrice_ok timeout? made]
    refine hc.of_opened grown (fun role => ?_) fun role => ?_ <;> rw [ht]
    · exact openPrices_startPrices (c.asked w) _ e.payload role
    · rw [count_wallet_pricesOpened]
      rfl

theorem Gauged.watchBalance (hc : c.Gauged) (metadata : Metadata) (perAddress : Bool)
    (timeout? : Option Millis) : (c.next (.watchBalance metadata perAddress timeout?)).Gauged := by
  obtain ⟨r, t, ht, w, made, grown⟩ :=
    c.wiring.leaves_wallet_watch c.home ⟨⟨perAddress⟩, metadata⟩ c.world
  cases r with
  | error f =>
    rw [next, move_watchBalance_error timeout? made]
    refine hc.of_opened grown (fun role => ?_) fun role => ?_ <;> rw [ht] <;> rfl
  | ok e =>
    rw [next, move_watchBalance_ok timeout? made]
    refine hc.of_opened grown (fun role => ?_) fun role => ?_ <;> rw [ht]
    · exact openPrices_startBalances (c.asked w) _ e.payload role
    · exact openBalances_startBalances (c.asked w) _ e.payload role

theorem Gauged.fetchPrice (hc : c.Gauged) (metadata : Metadata) :
    (c.next (.fetchPrice metadata)).Gauged := by
  obtain ⟨r, t, ht, leaves⟩ := c.wiring.leaves_price_fetch c.home ⟨{}, metadata⟩ c.world
  obtain ⟨w, made, grown⟩ := leaves c.world rfl
  have world : (c.next (.fetchPrice metadata)).world = w := congrArg Prod.snd made
  refine hc.of_opened (world ▸ grown) (fun role => ?_) fun role => ?_ <;> rw [ht] <;> rfl

theorem Gauged.fetchBalance (hc : c.Gauged) (metadata : Metadata) (perAddress : Bool) :
    (c.next (.fetchBalance metadata perAddress)).Gauged := by
  obtain ⟨r, t, ht, w, made, grown⟩ :=
    c.wiring.leaves_wallet_fetch c.home ⟨⟨perAddress⟩, metadata⟩ c.world
  have world : (c.next (.fetchBalance metadata perAddress)).world = w := congrArg Prod.snd made
  refine hc.of_opened (world ▸ grown) (fun role => ?_) fun role => ?_ <;> rw [ht] <;> rfl

end Calls

/-! ## Runs -/

section Runs

variable {c : Chain}

theorem sameCounts_receivePrice (c : Chain) (i : Nat) : c.SameCounts (c.receivePrice i).2 := by
  cases h : c.prices[i]? with
  | none => rw [receivePrice_of_none h]; exact .refl c
  | some l =>
    rw [receivePrice_snd h]
    exact sameCounts_setPrice h (Stream.hasStopped_of_task_eq (Stream.receive_task _))

theorem sameCounts_receiveBalance (c : Chain) (k : Nat) :
    c.SameCounts (c.receiveBalance k).2 := by
  cases h : c.balances[k]? with
  | none => rw [receiveBalance_of_none h]; exact .refl c
  | some b =>
    rw [receiveBalance_snd h]
    exact sameCounts_setBalance h (Stream.hasStopped_of_task_eq (Stream.receive_task _))

theorem sameCounts_hangUpPrice (c : Chain) (i : Nat) : c.SameCounts (c.hangUpPrice i) := by
  cases h : c.prices[i]? with
  | none => rw [hangUpPrice_of_none h]; exact .refl c
  | some l => rw [hangUpPrice_eq h]; exact sameCounts_setPrice h rfl

theorem sameCounts_hangUpBalance (c : Chain) (k : Nat) : c.SameCounts (c.hangUpBalance k) := by
  cases h : c.balances[k]? with
  | none => rw [hangUpBalance_of_none h]; exact .refl c
  | some b => rw [hangUpBalance_eq h]; exact sameCounts_setBalance h rfl

theorem sameCounts_release (c : Chain) (s : Nat) : c.SameCounts (c.release s) := .of_eq rfl rfl rfl

/-- Whatever move is made, the gauges go on showing what is open. -/
theorem Gauged.next (hc : c.Gauged) (m : Move) : (c.next m).Gauged := by
  cases m with
  | pass length => exact hc.of_sameCounts (.of_eq rfl rfl rfl)
  | turnPrice i => exact hc.turnPrice i
  | turnBalance k => exact hc.turnBalance k
  | receivePrice i =>
    rw [next_receivePrice]
    split_ifs
    · exact hc
    · exact hc.of_sameCounts (c.sameCounts_receivePrice i)
  | receiveBalance k => exact hc.of_sameCounts (c.sameCounts_receiveBalance k)
  | hangUpPrice i =>
    change (if c.isRead i then c else c.hangUpPrice i).Gauged
    split_ifs
    · exact hc
    · exact hc.of_sameCounts (c.sameCounts_hangUpPrice i)
  | hangUpBalance k => exact hc.of_sameCounts (c.sameCounts_hangUpBalance k)
  | releasePrice i =>
    change (if c.isRead i then c else c.releasePrice i).Gauged
    split_ifs
    · exact hc
    · rcases c.releasePrice_cases i with heq | ⟨_, s, -, -, heq⟩ <;> rw [heq]
      · exact hc
      · exact hc.of_sameCounts (c.sameCounts_release s)
  | releaseBalance k =>
    change (c.releaseBalance k).Gauged
    rcases c.releaseBalance_cases k with heq | ⟨_, s, -, -, heq⟩ <;> rw [heq]
    · exact hc
    · exact hc.of_sameCounts (c.sameCounts_release s)
  | cancel s =>
    change (if c.isOwned s then c else c.cancel s).Gauged
    split_ifs
    · exact hc
    · exact hc.of_sameCounts (.of_eq rfl rfl rfl)
  | release s =>
    change (if c.isOwned s then c else c.release s).Gauged
    split_ifs
    · exact hc
    · exact hc.of_sameCounts (c.sameCounts_release s)
  | fetchPrice metadata => exact hc.fetchPrice metadata
  | fetchBalance metadata perAddress => exact hc.fetchBalance metadata perAddress
  | watchPrice metadata timeout? => exact hc.watchPrice metadata timeout?
  | watchBalance metadata perAddress timeout? => exact hc.watchBalance metadata perAddress timeout?

theorem gauged_run (wiring : Wiring) (home : Role) (moves : List Move) :
    ((start wiring home).run moves).2.Gauged :=
  run_keeps Gauged (fun _ m hc => hc.next m) ⟨fun _ => rfl, fun _ => rfl⟩ moves

/-- Every stream counts in the process of the chain. -/
structure Homed (c : Chain) : Prop where
  prices : ∀ l ∈ c.prices, l.home? = some c.home
  balances : ∀ b ∈ c.balances, b.source.home = c.home

theorem Homed.of_steady (hc : c.Homed) {m : Move} (h : c.Steady m) : (c.next m).Homed := by
  refine ⟨fun l' hl' => ?_, fun b' hb' => ?_⟩ <;> rw [h.home_eq]
  · obtain ⟨i, hi⟩ := List.getElem?_of_mem hl'
    obtain ⟨l, hl, rfl⟩ := h.price_before hi
    exact hc.prices l (List.mem_of_getElem? hl)
  · obtain ⟨k, hk⟩ := List.getElem?_of_mem hb'
    obtain ⟨b, hb, rfl⟩ := h.balance_before hk
    exact hc.balances b (List.mem_of_getElem? hb)

theorem Homed.startPrices (hc : c.Homed) (ctx : Context) (period : Millis) :
    (c.startPrices ctx (.feed c.home period)).Homed := by
  refine ⟨fun l hl => ?_, hc.balances⟩
  rcases List.mem_append.mp hl with hl | hl
  · exact hc.prices l hl
  · rw [List.mem_singleton.mp hl]
    rfl

theorem Homed.startBalances (hc : c.Homed) (ctx : Context) {source : BalanceSource}
    {period : Millis} (hfeed : source.prices = .feed c.home period) (hhome : source.home = c.home) :
    (c.startBalances ctx source).Homed := by
  refine ⟨?_, fun b hb => ?_⟩
  · have started := (hc.startPrices ctx period).prices
    rw [← hfeed] at started
    exact started
  · rcases List.mem_append.mp hb with hb | hb
    · exact hc.balances b hb
    · rw [List.mem_singleton.mp hb]
      exact hhome

theorem Homed.next (hc : c.Homed) (inProcess : c.wiring.prices? = none) (m : Move) :
    (c.next m).Homed := by
  have asked : ∀ w, (c.asked w).Homed := fun _ => ⟨hc.prices, hc.balances⟩
  rcases c.steady_or_asks m with h | ⟨metadata, timeout?, rfl⟩ |
    ⟨metadata, perAddress, timeout?, rfl⟩
  · exact hc.of_steady h
  · obtain ⟨w, ⟨f, heq⟩ | ⟨e, made, heq⟩⟩ := c.move_watchPrice_cases metadata timeout?
    · rw [Chain.next, heq]
      exact asked w
    · obtain ⟨period, hfeed⟩ := Wiring.feed_of_watch inProcess _ _ _ made
      rw [Chain.next, heq, hfeed]
      exact (asked w).startPrices _ period
  · obtain ⟨w, ⟨f, heq⟩ | ⟨e, made, heq⟩⟩ :=
      c.move_watchBalance_cases metadata perAddress timeout?
    · rw [Chain.next, heq]
      exact asked w
    · obtain ⟨access, granted, -, -, rfl⟩ := Wiring.source_of_watch inProcess _ _ _ made
      rw [Chain.next, heq]
      exact (asked w).startBalances _ rfl rfl

theorem homed_run {wiring : Wiring} (inProcess : wiring.prices? = none) (home : Role)
    (moves : List Move) : ((start wiring home).run moves).2.Homed := by
  have kept := run_keeps (fun c => c.wiring.prices? = none ∧ c.Homed)
    (fun c m hc => ⟨(c.wiring_next m).symm ▸ hc.1, hc.2.next hc.1 m⟩)
    (c := start wiring home) ⟨inProcess, ⟨by simp [start], by simp [start]⟩⟩ moves
  exact kept.2

end Runs

end Chain

end WalletWatch
