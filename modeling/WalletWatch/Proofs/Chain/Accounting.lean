import WalletWatch.Proofs.Chain.Layout
import WalletWatch.Proofs.Service.Accounting

set_option autoImplicit false

/-!
# Accounting for validations

Over a run of a chain only calls validate anybody, and each accounts for its validations: one for a
call of the price service, one or two for a call of the wallet service. An open stream lives on what
was known when it was opened, so identity data that change later do not reach it.
-/

namespace WalletWatch

theorem Pace.idle_work (feed : Nat → Int64) (now : Millis) (cancelled : Bool) (p : Pace)
    (w : World) : w.Idle (Pace.work feed now cancelled p w).2 := by
  unfold work
  cases cancelled with
  | true => exact .refl w
  | false =>
    cases p with
    | ticking home t =>
      simp only [Bool.false_eq_true, if_false]
      cases t.take? now with
      | none => exact .refl w
      | some t' =>
        have counted := w.idle_count home (·.updated "price") fun _ => rfl
        exact ⟨counted.resolveCalls, counted.validations⟩
    | playing p =>
      simp only [Bool.false_eq_true, if_false]
      split <;> exact .refl w

/-- What the account service knows about users. -/
structure Knowledge where
  directory : Directory
  account? : Option (Item (Envelope UserInfo))

namespace Chain

namespace Move

def asksPrice? : Move → Option Metadata
  | .fetchPrice inbound | .watchPrice inbound _ => some inbound
  | _ => none

def asksBalance? : Move → Option Metadata
  | .fetchBalance inbound _ | .watchBalance inbound _ _ => some inbound
  | _ => none

/-- A move that is no call: a step of a stream, of somebody who holds one, or of the clock. -/
def isStep (m : Move) : Bool := m.asksPrice?.isNone && m.asksBalance?.isNone

/-- What the validators get to see in a move: a caller that the wallet service lets through comes
back with the credentials it sends on. -/
def examined (wiring : Wiring) : Move → List Metadata
  | .fetchPrice inbound | .watchPrice inbound _ => [inbound]
  | .fetchBalance inbound _ | .watchBalance inbound _ _ => inbound :: wiring.sentOn inbound
  | _ => []

theorem examined_of_isStep {m : Move} (h : m.isStep = true) (wiring : Wiring) :
    m.examined wiring = [] := by
  cases m <;> first | rfl | cases h

theorem examined_of_asksPrice? {m : Move} {inbound : Metadata} (h : m.asksPrice? = some inbound)
    (wiring : Wiring) : m.examined wiring = [inbound] := by
  cases m <;> cases h <;> rfl

theorem examined_of_asksBalance? {m : Move} {inbound : Metadata}
    (h : m.asksBalance? = some inbound) (wiring : Wiring) :
    m.examined wiring = inbound :: wiring.sentOn inbound := by
  cases m <;> cases h <;> rfl

theorem examined_of_passed {wiring : Wiring} {m : Move} {inbound : Metadata} {access : Access}
    (h : m.asksBalance? = some inbound)
    (hd : Validator.decision wiring.knows inbound = .ok access) :
    m.examined wiring = [inbound, access.forward] := by
  rw [examined_of_asksBalance? h, Wiring.sentOn, hd]

end Move

/-- The failure that a call came to. -/
def Sight.failure? : Sight → Option Failure
  | .quote (.error f) | .worth (.error f) | .opened (.error f) => some f
  | _ => none

/-! ## Steps of streams -/

section Steps

variable (c : Chain)

theorem idle_turnPrice (i : Nat) : c.world.Idle (c.turnPrice i).2.world := by
  cases h : c.prices[i]? with
  | none =>
    rw [turnPrice_of_none h]
    exact .refl _
  | some l =>
    have worked : c.world.Idle (l.stream.turn (Pace.work c.wiring.feed c.now
        (l.stream.isCancelled c.now c.signals)) (l.stream.isCancelled c.now c.signals)
        c.world).2.2 := by
      rw [Stream.turn_rest]
      cases l.stream.task with
      | working pace => exact Pace.idle_work _ _ _ pace _
      | _ => exact .refl _
    unfold turnPrice
    simp only [h]
    split
    · exact worked.trans (World.idle_count _ _ (·.closed "price") fun _ => rfl)
    · exact worked

theorem world_letGo? {c c' : Chain} {j : Nat} (h : c.letGo? j = some c') : c'.world = c.world := by
  obtain ⟨p, -, ⟨-, rfl⟩ | ⟨-, s, -, -, rfl⟩⟩ := letGo?_cases h <;> rfl

theorem idle_turnBalance (k : Nat) : c.world.Idle (c.turnBalance k).2.world := by
  have closed (home : Role) : c.world.Idle (c.world.count home (·.closed "wallet")) :=
    c.world.idle_count home (·.closed "wallet") fun _ => rfl
  have updated (home : Role) : c.world.Idle (c.world.count home (·.updated "wallet")) :=
    c.world.idle_count home (·.updated "wallet") fun _ => rfl
  cases h : c.balances[k]? with
  | none =>
    rw [turnBalance_of_none h]
    exact .refl _
  | some b =>
    by_cases hclosing : ∃ reason, b.stream.task = .closing reason
    · obtain ⟨reason, htask⟩ := hclosing
      rw [turnBalance_of_closing h htask]
      cases hgo : c.letGo? b.prices with
      | some c' =>
        change c.world.Idle c'.world
        rw [world_letGo? hgo]
        exact .refl _
      | none => exact closed b.source.home
    · have hopen : ∀ reason, b.stream.task ≠ .closing reason := fun r hr => hclosing ⟨r, hr⟩
      cases hp : c.prices[b.prices]? with
      | none =>
        rw [turnBalance_of_missing h hopen hp]
        exact .refl _
      | some p =>
        unfold turnBalance
        cases htask : b.stream.task with
        | closing reason => exact absurd htask (hopen reason)
        | _ =>
          simp only [h, htask, hp]
          split_ifs
          · exact updated b.source.home
          · exact .refl _

theorem world_receivePrice (i : Nat) : (c.receivePrice i).2.world = c.world := by
  cases h : c.prices[i]? with
  | none => rw [receivePrice_of_none h]
  | some l => rw [receivePrice_snd h]; rfl

theorem world_receiveBalance (k : Nat) : (c.receiveBalance k).2.world = c.world := by
  cases h : c.balances[k]? with
  | none => rw [receiveBalance_of_none h]
  | some b => rw [receiveBalance_snd h]; rfl

theorem world_hangUpPrice (i : Nat) : (c.hangUpPrice i).world = c.world := by
  cases h : c.prices[i]? with
  | none => rw [hangUpPrice_of_none h]
  | some l => rw [hangUpPrice_eq h]; rfl

theorem world_hangUpBalance (k : Nat) : (c.hangUpBalance k).world = c.world := by
  cases h : c.balances[k]? with
  | none => rw [hangUpBalance_of_none h]
  | some b => rw [hangUpBalance_eq h]; rfl

theorem world_releasePrice (i : Nat) : (c.releasePrice i).world = c.world := by
  rcases c.releasePrice_cases i with heq | ⟨_, s, -, -, heq⟩ <;> rw [heq]
  rfl

theorem world_releaseBalance (k : Nat) : (c.releaseBalance k).world = c.world := by
  rcases c.releaseBalance_cases k with heq | ⟨_, s, -, -, heq⟩ <;> rw [heq]
  rfl

theorem idle_step {m : Move} (h : m.isStep = true) : c.world.Idle (c.next m).world := by
  have same {w : World} (heq : w = c.world) : c.world.Idle w := heq ▸ .refl _
  have guarded {c' : Chain} (b : Bool) (heq : c'.world = c.world) :
      (if b then c else c').world = c.world := by
    cases b
    · exact heq
    · rfl
  cases m with
  | pass length => exact .refl _
  | turnPrice i => exact c.idle_turnPrice i
  | turnBalance k => exact c.idle_turnBalance k
  | receivePrice i =>
    rw [next_receivePrice]
    exact same (guarded _ (c.world_receivePrice i))
  | receiveBalance k => exact same (c.world_receiveBalance k)
  | hangUpPrice i => exact same (guarded _ (c.world_hangUpPrice i))
  | hangUpBalance k => exact same (c.world_hangUpBalance k)
  | releasePrice i => exact same (guarded _ (c.world_releasePrice i))
  | releaseBalance k => exact same (c.world_releaseBalance k)
  | cancel s => exact same (guarded _ rfl)
  | release s => exact same (guarded _ rfl)
  | fetchPrice => cases h
  | fetchBalance => cases h
  | watchPrice => cases h
  | watchBalance => cases h

end Steps

/-! ## Other identity data -/

/-- The same chain over other identity data. -/
def knowing (c : Chain) (known : Knowledge) : Chain :=
  { c with wiring := { c.wiring with directory := known.directory, account? := known.account? } }

/-- A run in which the identity data change before each move. -/
def runKnowing : Chain → List (Knowledge × Move) → List (Move × Sight) × Chain
  | c, [] => ([], c)
  | c, (known, m) :: rest =>
    let (s, c') := (c.knowing known).move m
    let (shown, last) := c'.runKnowing rest
    ((m, s) :: shown, last)

section Knowing

variable (c : Chain) (known : Knowledge)

@[simp] theorem knowing_knowing (known' : Knowledge) :
    (c.knowing known).knowing known' = c.knowing known' := rfl

@[simp] theorem prices_knowing : (c.knowing known).prices = c.prices := rfl

@[simp] theorem balances_knowing : (c.knowing known).balances = c.balances := rfl

@[simp] theorem now_knowing : (c.knowing known).now = c.now := rfl

@[simp] theorem signals_knowing : (c.knowing known).signals = c.signals := rfl

@[simp] theorem world_knowing : (c.knowing known).world = c.world := rfl

@[simp] theorem feed_knowing : (c.knowing known).wiring.feed = c.wiring.feed := rfl

@[simp] theorem isRead_knowing (i : Nat) : (c.knowing known).isRead i = c.isRead i := rfl

@[simp] theorem isOwned_knowing (s : Nat) : (c.knowing known).isOwned s = c.isOwned s := rfl

theorem turnPrice_knowing (i : Nat) : (c.knowing known).turnPrice i =
    ((c.turnPrice i).1, (c.turnPrice i).2.knowing known) := by
  unfold turnPrice
  simp only [prices_knowing, feed_knowing, now_knowing, signals_knowing, world_knowing]
  cases c.prices[i]? with
  | none => rfl
  | some l =>
    simp only
    generalize l.stream.turn _ _ c.world = made
    obtain ⟨t, st, w⟩ := made
    cases t <;> cases l.home? <;> rfl

theorem letGo?_knowing (j : Nat) : (c.knowing known).letGo? j =
    (c.letGo? j).map fun c' => c'.knowing known := by
  unfold letGo?
  rw [prices_knowing]
  cases c.prices[j]? with
  | none => rfl
  | some p =>
    cases hl : p.stream.listening with
    | true => simp only [hl, if_true]; rfl
    | false =>
      cases hs : p.stream.context.handle? with
      | none => simp only [hl, hs]; rfl
      | some s =>
        simp only [hl, hs, Bool.false_eq_true, if_false]
        by_cases hr : (c.signals.all[s]?).any (!·.released) = true
        · rw [if_pos hr]
          exact if_pos hr
        · rw [if_neg hr]
          exact if_neg hr

theorem turnBalance_knowing (k : Nat) : (c.knowing known).turnBalance k =
    ((c.turnBalance k).1, (c.turnBalance k).2.knowing known) := by
  unfold turnBalance
  rw [balances_knowing]
  cases c.balances[k]? with
  | none => rfl
  | some b =>
    cases htask : b.stream.task with
    | closing reason =>
      simp only [htask, letGo?_knowing]
      cases c.letGo? b.prices <;> rfl
    | _ =>
      simp only [htask, prices_knowing]
      cases c.prices[b.prices]? with
      | none => rfl
      | some p =>
        simp only
        by_cases hsent : (b.stream.turn
            (fun _ => BalanceLine.work b.source (b.stream.isCancelled c.now c.signals))
            (b.stream.isCancelled c.now c.signals) p.stream).1 = .sent false
        · rw [if_pos hsent]
          exact if_pos hsent
        · rw [if_neg hsent]
          exact if_neg hsent

theorem receivePrice_knowing (i : Nat) : (c.knowing known).receivePrice i =
    ((c.receivePrice i).1, (c.receivePrice i).2.knowing known) := by
  unfold receivePrice
  rw [prices_knowing]
  cases c.prices[i]? <;> rfl

theorem receiveBalance_knowing (k : Nat) : (c.knowing known).receiveBalance k =
    ((c.receiveBalance k).1, (c.receiveBalance k).2.knowing known) := by
  unfold receiveBalance
  rw [balances_knowing]
  cases c.balances[k]? <;> rfl

theorem hangUpPrice_knowing (i : Nat) :
    (c.knowing known).hangUpPrice i = (c.hangUpPrice i).knowing known := by
  unfold hangUpPrice
  rw [prices_knowing]
  cases c.prices[i]? <;> rfl

theorem hangUpBalance_knowing (k : Nat) :
    (c.knowing known).hangUpBalance k = (c.hangUpBalance k).knowing known := by
  unfold hangUpBalance
  rw [balances_knowing]
  cases c.balances[k]? <;> rfl

theorem releasePrice_knowing (i : Nat) :
    (c.knowing known).releasePrice i = (c.releasePrice i).knowing known := by
  unfold releasePrice
  rw [prices_knowing]
  cases c.prices[i]? <;> rfl

theorem releaseBalance_knowing (k : Nat) :
    (c.knowing known).releaseBalance k = (c.releaseBalance k).knowing known := by
  unfold releaseBalance
  rw [balances_knowing]
  cases c.balances[k]? <;> rfl

/-- A step of a stream shows and does the same over any identity data. -/
theorem move_knowing {m : Move} (h : m.isStep = true) :
    (c.knowing known).move m = ((c.move m).1, (c.move m).2.knowing known) := by
  cases m with
  | pass length => rfl
  | turnPrice i => simp only [move, turnPrice_knowing]
  | turnBalance k => simp only [move, turnBalance_knowing]
  | receivePrice i =>
    simp only [move, isRead_knowing, receivePrice_knowing]
    cases c.isRead i <;> rfl
  | receiveBalance k => simp only [move, receiveBalance_knowing]
  | hangUpPrice i =>
    simp only [move, isRead_knowing, hangUpPrice_knowing]
    cases c.isRead i <;> rfl
  | hangUpBalance k => simp only [move, hangUpBalance_knowing]
  | releasePrice i =>
    simp only [move, isRead_knowing, releasePrice_knowing]
    cases c.isRead i <;> rfl
  | releaseBalance k => simp only [move, releaseBalance_knowing]
  | cancel s =>
    cases hs : c.isOwned s <;> simp only [move, isOwned_knowing, hs] <;> rfl
  | release s =>
    cases hs : c.isOwned s <;> simp only [move, isOwned_knowing, hs] <;> rfl
  | fetchPrice => cases h
  | fetchBalance => cases h
  | watchPrice => cases h
  | watchBalance => cases h

theorem wiring_knowing_next (known' : Knowledge) (m : Move) :
    (((c.knowing known').next m).knowing known).wiring = (c.knowing known).wiring := by
  have kept := (c.knowing known').wiring_next m
  unfold knowing at kept ⊢
  rw [kept]

theorem home_runKnowing (steps : List (Knowledge × Move)) :
    (c.runKnowing steps).2.home = c.home := by
  induction steps generalizing c with
  | nil => rfl
  | cons s rest ih => exact (ih _).trans ((c.knowing s.1).home_next s.2)

end Knowing

/-! ## Calls -/

section Calls

variable {c : Chain}

/-- Each call validates whom the validators get to see, and no other move does. -/
theorem accounts_next (inProcess : c.wiring.prices? = none) (m : Move) :
    c.world.Accounts (c.next m).world ((m.examined c.wiring).map (c.wiring.judged c.home)) := by
  by_cases h : m.isStep = true
  · rw [Move.examined_of_isStep h]
    exact (c.idle_step h).accounts
  · cases m with
    | fetchPrice inbound => exact Wiring.makes_price_fetch c.home inbound c.world inProcess
    | fetchBalance inbound perAddress =>
      exact Wiring.makes_wallet_fetch c.home inbound c.world inProcess perAddress
    | watchPrice inbound timeout? =>
      have makes := Wiring.makes_price_watch c.home inbound c.world inProcess
      unfold Call.Makes at makes
      obtain ⟨⟨r, w⟩, made⟩ : ∃ made,
        ((c.wiring.price c.home).watch ⟨{}, inbound⟩).perform c.world = made := ⟨_, rfl⟩
      rw [made] at makes
      cases r with
      | error f => rw [next, move_watchPrice_error timeout? made]; exact makes
      | ok e => rw [next, move_watchPrice_ok timeout? made]; exact makes
    | watchBalance inbound perAddress timeout? =>
      have makes := Wiring.makes_wallet_watch c.home inbound c.world inProcess perAddress
      unfold Call.Makes at makes
      obtain ⟨⟨r, w⟩, made⟩ : ∃ made, ((c.wiring.wallet c.home).watch
        ⟨⟨perAddress⟩, inbound⟩).perform c.world = made := ⟨_, rfl⟩
      rw [made] at makes
      cases r with
      | error f => rw [next, move_watchBalance_error timeout? made]; exact makes
      | ok e => rw [next, move_watchBalance_ok timeout? made]; exact makes
    | _ => exact absurd rfl h

/-- The validations of a move over some identity data. -/
def judges (c : Chain) (s : Knowledge × Move) : List Validation :=
  (s.2.examined (c.knowing s.1).wiring).map ((c.knowing s.1).wiring.judged c.home)

theorem accounts_runKnowing (inProcess : c.wiring.prices? = none)
    (steps : List (Knowledge × Move)) :
    c.world.Accounts (c.runKnowing steps).2.world (steps.flatMap c.judges) := by
  induction steps generalizing c with
  | nil => exact (World.Idle.refl _).accounts
  | cons s rest ih =>
    obtain ⟨known, m⟩ := s
    have first := accounts_next (c := c.knowing known) inProcess m
    have wiring := (c.knowing known).wiring_next m
    have home : ((c.knowing known).next m).home = c.home := (c.knowing known).home_next m
    have later := ih (c := (c.knowing known).next m) (wiring ▸ inProcess)
    have same : ((c.knowing known).next m).judges = c.judges := by
      funext s
      unfold judges
      rw [wiring_knowing_next, home]
    rw [same] at later
    exact first.trans later

/-- What a process counted, authorized and rejected together. -/
def validations (c : Chain) : UInt64 := c.world.tally c.home true + c.world.tally c.home false

theorem validations_of_accounts {c' : Chain} {made : List Validation}
    (h : c.world.Accounts c'.world made) (hhome : c'.home = c.home)
    (all : ∀ v ∈ made, v.home = c.home) :
    c'.validations = c.validations + UInt64.ofNat made.length := by
  have split : made.length = made.countP (fun v => v.home = c.home ∧ v.authorized = true) +
      made.countP fun v => v.home = c.home ∧ v.authorized = false := by
    rw [List.length_eq_countP_add_countP (·.authorized)]
    congr 1
    · exact List.countP_congr fun v hv => by simp [all v hv]
    · exact List.countP_congr fun v hv => by simp [all v hv]
  unfold validations
  rw [hhome, h.counted, h.counted, split, UInt64.ofNat_add]
  ac_rfl

/-- What the validator says about a caller. -/
def validated (c : Chain) (inbound : Metadata) : Item Access :=
  (((c.wiring.validator c.home).validate inbound).perform c.world).1

/-- Each move of a chain, as it stands, accounts for the validations it causes. -/
structure CountsValidations (c : Chain) : Prop where
  price : ∀ m inbound, m.asksPrice? = some inbound →
    (c.next m).validations = c.validations + 1 ∧
      (c.next m).world.resolveCalls = c.world.resolveCalls ++ Validator.inquiry inbound
  rejected : ∀ m inbound f, m.asksBalance? = some inbound → c.validated inbound = .error f →
    (c.next m).validations = c.validations + 1 ∧
      (c.next m).world.resolveCalls = c.world.resolveCalls ++ Validator.inquiry inbound
  passed : ∀ m inbound access, m.asksBalance? = some inbound → c.validated inbound = .ok access →
    (c.next m).validations = c.validations + 2 ∧
      Validator.Presents inbound access.token access.requested ∧
      Validator.Presents access.forward access.token access.requested ∧
      (c.next m).world.resolveCalls = c.world.resolveCalls ++
        (Validator.inquiry inbound ++ Validator.inquiry access.forward)
  /-- A caller who is turned down at the gate was authorized. -/
  deniedPrice : ∀ m inbound access f, m.asksPrice? = some inbound →
    c.validated inbound = .ok access → access.gate c.wiring.premiumOnly = .error f →
      (c.move m).1.failure? = some f ∧ f.code = .permissionDenied ∧
        (c.next m).world.tally c.home true = c.world.tally c.home true + 1 ∧
        (c.next m).world.tally c.home false = c.world.tally c.home false
  deniedBalance : ∀ m inbound access f, m.asksBalance? = some inbound →
    c.validated inbound = .ok access → access.gate c.wiring.premiumOnly = .error f →
      (∃ g, (c.move m).1.failure? = some g ∧ g.code = .permissionDenied) ∧
        (c.next m).world.tally c.home true = c.world.tally c.home true + 2 ∧
        (c.next m).world.tally c.home false = c.world.tally c.home false
  /-- A call adds streams behind those that are open and leaves these as they are. -/
  opened : ∀ m, m.isStep = false →
    c.prices <+: (c.next m).prices ∧ c.balances <+: (c.next m).balances ∧
      (c.next m).now = c.now ∧ ∀ id, (c.next m).signals.raised id = c.signals.raised id
  /-- However long streams live between calls, nobody is validated, and what they show and do is
  the same whatever becomes of the identity data. -/
  lived : ∀ steps : List (Knowledge × Move), (∀ s ∈ steps, s.2.isStep = true) →
    c.world.Idle (c.runKnowing steps).2.world ∧
      (c.runKnowing steps).1 = (c.run (steps.map Prod.snd)).1 ∧
      ∃ known, (c.runKnowing steps).2 = (c.run (steps.map Prod.snd)).2.knowing known

theorem validations_next (inProcess : c.wiring.prices? = none) {m : Move}
    {examined : List Metadata} (h : m.examined c.wiring = examined) :
    (c.next m).validations = c.validations + UInt64.ofNat examined.length := by
  subst h
  have accounts := accounts_next inProcess m
  refine (validations_of_accounts accounts (c.home_next m) fun v hv => ?_).trans ?_
  · obtain ⟨inbound, -, rfl⟩ := List.mem_map.mp hv
    rfl
  · rw [List.length_map]

theorem resolveCalls_next (inProcess : c.wiring.prices? = none) {m : Move}
    {examined : List Metadata} (h : m.examined c.wiring = examined) :
    (c.next m).world.resolveCalls =
      c.world.resolveCalls ++ examined.flatMap Validator.inquiry := by
  subst h
  exact Wiring.asked_of_judged _ _ _ (accounts_next inProcess m)

/-- The validations of a move that come out as asked, where all it causes come out alike. -/
theorem tally_next (inProcess : c.wiring.prices? = none) {m : Move} {examined : List Metadata}
    (h : m.examined c.wiring = examined)
    (pass : ∀ inbound ∈ examined, (Validator.decision c.wiring.knows inbound).isOk = true) :
    (c.next m).world.tally c.home true =
        c.world.tally c.home true + UInt64.ofNat examined.length ∧
      (c.next m).world.tally c.home false = c.world.tally c.home false := by
  subst h
  have counted := Wiring.tally_of_judged _ _ _ (accounts_next inProcess m)
  constructor
  · rw [counted true, List.countP_eq_length.mpr fun inbound hm => by simp [pass inbound hm]]
  · rw [counted false, List.countP_eq_zero.mpr fun inbound hm => by simp [pass inbound hm]]
    exact UInt64.add_zero _

theorem validated_eq (c : Chain) (inbound : Metadata) :
    c.validated inbound = Validator.decision c.wiring.knows inbound :=
  c.wiring.validate_eq c.home inbound c.world

/-! ### What a caller is shown who is turned down -/

theorem failure?_watchPrice {inbound : Metadata} (timeout? : Option Millis) {f : Failure}
    (h : (((c.wiring.price c.home).watch ⟨{}, inbound⟩).perform c.world).1 = .error f) :
    (c.move (.watchPrice inbound timeout?)).1.failure? = some f := by
  rw [move_watchPrice_error timeout? (Prod.ext h rfl)]
  rfl

theorem failure?_watchBalance {inbound : Metadata} {perAddress : Bool} (timeout? : Option Millis)
    {f : Failure} (h : (((c.wiring.wallet c.home).watch ⟨⟨perAddress⟩, inbound⟩).perform
      c.world).1 = .error f) :
    (c.move (.watchBalance inbound perAddress timeout?)).1.failure? = some f := by
  rw [move_watchBalance_error timeout? (Prod.ext h rfl)]
  rfl

theorem failure?_fetchPrice {inbound : Metadata} {f : Failure}
    (h : (((c.wiring.price c.home).fetch ⟨{}, inbound⟩).perform c.world).1 = .error f) :
    (c.move (.fetchPrice inbound)).1.failure? = some f := by
  change (Sight.quote
    (((c.wiring.price c.home).fetch ⟨{}, inbound⟩).perform c.world).1).failure? = _
  rw [h]
  rfl

theorem failure?_fetchBalance {inbound : Metadata} {perAddress : Bool} {f : Failure}
    (h : (((c.wiring.wallet c.home).fetch ⟨⟨perAddress⟩, inbound⟩).perform c.world).1 = .error f) :
    (c.move (.fetchBalance inbound perAddress)).1.failure? = some f := by
  change (Sight.worth
    (((c.wiring.wallet c.home).fetch ⟨⟨perAddress⟩, inbound⟩).perform c.world).1).failure? = _
  rw [h]
  rfl

theorem admits_of_denied {wiring : Wiring} {inbound : Metadata} {access : Access} {f : Failure}
    (hd : Validator.decision wiring.knows inbound = .ok access)
    (hg : access.gate wiring.premiumOnly = .error f) : wiring.admits inbound = .error f := by
  unfold Wiring.admits PriceService.admission
  rw [hd]
  simp only [Except.bind, hg]
  rfl

theorem failure?_of_deniedPrice (inProcess : c.wiring.prices? = none) {m : Move}
    {inbound : Metadata} {f : Failure} (hm : m.asksPrice? = some inbound)
    (denied : c.wiring.admits inbound = .error f) : (c.move m).1.failure? = some f := by
  cases m with
  | fetchPrice =>
    cases hm
    exact failure?_fetchPrice (by rw [Wiring.price_fetch_eq inProcess, denied]; rfl)
  | watchPrice _ timeout? =>
    cases hm
    exact failure?_watchPrice timeout? (by rw [Wiring.price_watch_eq inProcess, denied]; rfl)
  | _ => cases hm

theorem failure?_of_deniedBalance (inProcess : c.wiring.prices? = none) {m : Move}
    {inbound : Metadata} {access : Access} {f : Failure} (hm : m.asksBalance? = some inbound)
    (hd : Validator.decision c.wiring.knows inbound = .ok access)
    (denied : c.wiring.admits access.forward = .error f) :
    ∃ g, (c.move m).1.failure? = some g ∧ g.code = f.code := by
  cases m with
  | fetchBalance _ perAddress =>
    cases hm
    exact ⟨_, failure?_fetchBalance (Wiring.fetch_of_denied inProcess _ _ _ hd denied), rfl⟩
  | watchBalance _ perAddress timeout? =>
    cases hm
    have opened := Wiring.watch_of_denied inProcess c.home perAddress c.world hd denied
    exact ⟨_, failure?_watchBalance timeout? opened, rfl⟩
  | _ => cases hm

theorem code_of_gate {access : Access} {premiumOnly : Bool} {f : Failure}
    (h : access.gate premiumOnly = .error f) : f.code = .permissionDenied := by
  unfold Access.gate at h
  split_ifs at h
  cases h
  rfl

theorem opened_next (m : Move) (h : m.isStep = false) :
    c.prices <+: (c.next m).prices ∧ c.balances <+: (c.next m).balances ∧
      (c.next m).now = c.now ∧ ∀ id, (c.next m).signals.raised id = c.signals.raised id := by
  have keep : ∀ id, c.signals.make.2.raised id = c.signals.raised id := Signals.raised_make _
  cases m with
  | fetchPrice => exact ⟨List.prefix_rfl, List.prefix_rfl, rfl, fun _ => rfl⟩
  | fetchBalance => exact ⟨List.prefix_rfl, List.prefix_rfl, rfl, fun _ => rfl⟩
  | watchPrice inbound timeout? =>
    obtain ⟨w, heq | ⟨source, heq⟩⟩ := c.next_watchPrice inbound timeout?
    · rw [heq]
      exact ⟨List.prefix_rfl, List.prefix_rfl, rfl, keep⟩
    · rw [heq]
      refine ⟨List.prefix_append _ _, List.prefix_rfl, rfl, fun id => ?_⟩
      simp only [signals_startPrices, asked, Signals.raised_make]
  | watchBalance inbound perAddress timeout? =>
    obtain ⟨w, heq | ⟨source, heq⟩⟩ := c.next_watchBalance inbound perAddress timeout?
    · rw [heq]
      exact ⟨List.prefix_rfl, List.prefix_rfl, rfl, keep⟩
    · rw [heq]
      refine ⟨List.prefix_append _ _, List.prefix_append _ _, rfl, fun id => ?_⟩
      simp only [signals_startBalances, asked, Signals.raised_make]
  | _ => cases h

/-! ## Runs -/

/-- As long as nobody calls, it shows nowhere that the identity data change. -/
theorem runKnowing_steps {steps : List (Knowledge × Move)} (known : Knowledge)
    (h : ∀ s ∈ steps, s.2.isStep = true) :
    ((c.knowing known).runKnowing steps).1 = (c.run (steps.map Prod.snd)).1 ∧
      ∃ last, ((c.knowing known).runKnowing steps).2 =
        (c.run (steps.map Prod.snd)).2.knowing last := by
  induction steps generalizing c known with
  | nil => exact ⟨rfl, known, rfl⟩
  | cons s rest ih =>
    obtain ⟨known', m⟩ := s
    have moved := c.move_knowing known' (h _ List.mem_cons_self)
    obtain ⟨shown, last, ends⟩ := ih (c := (c.move m).2) known' fun s hs =>
      h s (List.mem_cons_of_mem _ hs)
    simp only [runKnowing, knowing_knowing, moved, List.map_cons, run, shown, ends]
    exact ⟨trivial, last, rfl⟩

theorem idle_runKnowing {steps : List (Knowledge × Move)} (h : ∀ s ∈ steps, s.2.isStep = true) :
    c.world.Idle (c.runKnowing steps).2.world := by
  induction steps generalizing c with
  | nil => exact .refl _
  | cons s rest ih =>
    have first := (c.knowing s.1).idle_step (h s List.mem_cons_self)
    exact first.trans (ih fun s hs => h s (List.mem_cons_of_mem _ hs))

theorem accounted (inProcess : c.wiring.prices? = none) : c.CountsValidations where
  price m inbound hm := by
    have seen := Move.examined_of_asksPrice? hm c.wiring
    have asked := resolveCalls_next inProcess seen
    rw [List.flatMap_singleton] at asked
    exact ⟨validations_next inProcess seen, asked⟩
  rejected m inbound f hm hv := by
    rw [validated_eq] at hv
    have seen : m.examined c.wiring = [inbound] := by
      rw [Move.examined_of_asksBalance? hm, Wiring.sentOn, hv]
    have asked := resolveCalls_next inProcess seen
    rw [List.flatMap_singleton] at asked
    exact ⟨validations_next inProcess seen, asked⟩
  passed m inbound access hm hv := by
    rw [validated_eq] at hv
    obtain ⟨presents, again, -⟩ := Wiring.decision_forward hv
    have seen := Move.examined_of_passed hm hv
    have asked := resolveCalls_next inProcess seen
    rw [List.flatMap_cons, List.flatMap_singleton] at asked
    exact ⟨validations_next inProcess seen, presents, again, asked⟩
  deniedPrice m inbound access f hm hv hg := by
    rw [validated_eq] at hv
    have pass : (Validator.decision c.wiring.knows inbound).isOk = true := by rw [hv]; rfl
    refine ⟨failure?_of_deniedPrice inProcess hm (admits_of_denied hv hg), code_of_gate hg, ?_⟩
    exact tally_next inProcess (Move.examined_of_asksPrice? hm c.wiring) (by simpa using pass)
  deniedBalance m inbound access f hm hv hg := by
    rw [validated_eq] at hv
    obtain ⟨-, -, again⟩ := Wiring.decision_forward hv
    have pass : (Validator.decision c.wiring.knows inbound).isOk = true := by rw [hv]; rfl
    have pass' : (Validator.decision c.wiring.knows access.forward).isOk = true := by
      rw [again]; rfl
    obtain ⟨g, shown, code⟩ :=
      failure?_of_deniedBalance inProcess hm hv (admits_of_denied again hg)
    refine ⟨⟨g, shown, code.trans (code_of_gate hg)⟩, ?_⟩
    exact tally_next inProcess (Move.examined_of_passed hm hv) (by simpa using ⟨pass, pass'⟩)
  opened := opened_next
  lived steps h := ⟨idle_runKnowing h, runKnowing_steps ⟨c.wiring.directory, c.wiring.account?⟩ h⟩

theorem prices?_runKnowing (c : Chain) (steps : List (Knowledge × Move)) :
    (c.runKnowing steps).2.wiring.prices? = c.wiring.prices? := by
  induction steps generalizing c with
  | nil => rfl
  | cons s rest ih =>
    refine (ih _).trans ?_
    change ((c.knowing s.1).next s.2).wiring.prices? = _
    rw [wiring_next]
    rfl

end Calls

end Chain

end WalletWatch
