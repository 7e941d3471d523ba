import WalletWatch.Context.Tree
import WalletWatch.Proofs.Context.Signals

set_option autoImplicit false

/-!
# Waiting for the end of a context

Somebody who waits for the end of a context is woken at the first instant at which it is cancelled,
as long as the alarms of the clock have its deadline.
-/

namespace WalletWatch

namespace Context

/-- The two ways to ask whether a call is still wanted agree. -/
theorem isSome_wake? (c : Context) (now : Millis) (s : Signals) :
    (c.wake? now s).isSome = c.isCancelled now s := by
  unfold wake? isCancelled
  cases hfound : c.signals.find? s.raised with
  | some id =>
    have raised : c.signals.any s.raised = true :=
      List.any_eq_true.mpr ⟨id, List.mem_of_find?_eq_some hfound, List.find?_some hfound⟩
    rw [raised, Bool.or_true]
    rfl
  | none =>
    have none : c.signals.any s.raised = false := by
      simpa using List.find?_eq_none.mp hfound
    rw [none, Bool.or_false]
    cases c.deadline?.any (· ≤ now) <;> rfl

end Context

namespace ContextTree

/-- How a wait goes in which nobody touches a handle. -/
structure Waited (t : ContextTree) (c : Context) (limit : Millis) (woken : Bool)
    (t' : ContextTree) : Prop where
  clock : t' = { t with now := t'.now }
  since : t.now ≤ t'.now
  inTime : t'.now ≤ limit
  /-- Nobody is woken before it must be. -/
  asleep : ∀ instant, t.now ≤ instant → instant < t'.now → c.isCancelled instant t.signals = false
  cancelled : c.isCancelled t'.now t.signals = woken
  patient : woken = false → t'.now = limit

section Alarms

variable {t : ContextTree} {limit next : Millis}

theorem nextAlarm?_eq_some (h : Simulation.nextAlarm? t limit = some next) :
    t.now < next ∧ next ≤ limit := by
  have found := (List.mem_filter.mp (List.min?_mem h)).2
  rw [Bool.and_eq_true, decide_eq_true_iff, decide_eq_true_iff] at found
  exact found

theorem getD_nextAlarm?_le {d : Millis} (hd : d ∈ Simulation.alarms t) (since : t.now < d)
    (inTime : d ≤ limit) : (Simulation.nextAlarm? t limit).getD limit ≤ d := by
  have mem : d ∈ (Simulation.alarms t).filter fun a => t.now < a && a ≤ limit :=
    List.mem_filter.mpr ⟨hd, by simp [since, inTime]⟩
  cases h : Simulation.nextAlarm? t limit with
  | none =>
    rw [Simulation.nextAlarm?, List.min?_eq_none_iff] at h
    exact absurd (h ▸ mem) List.not_mem_nil
  | some next => exact (List.min?_eq_some_iff.mp h).2 d mem

theorem getD_nextAlarm?_bounds (since : t.now < limit) :
    t.now < (Simulation.nextAlarm? t limit).getD limit ∧
      (Simulation.nextAlarm? t limit).getD limit ≤ limit := by
  cases h : Simulation.nextAlarm? t limit with
  | none => exact ⟨since, Nat.le_refl _⟩
  | some next => exact nextAlarm?_eq_some h

end Alarms

/-- What somebody looks for who waits for the end of a context. -/
def ended? (c : Context) (t : ContextTree) : Option (Unit × ContextTree) :=
  if (c.wake? t.now t.signals).isSome then some ((), t) else none

section Rounds

variable {c : Context} {limit : Millis} {t : ContextTree}

theorem awaitWithin_of_cancelled (h : c.isCancelled t.now t.signals = true) (rounds : Nat) :
    Simulation.awaitWithin (ended? c) limit (rounds + 1) t = (some (), t) := by
  have found : ended? c t = some ((), t) := by rw [ended?, Context.isSome_wake?, h]; rfl
  simp only [Simulation.awaitWithin, found]
  rfl

theorem awaitWithin_of_over (h : c.isCancelled t.now t.signals = false) (past : limit ≤ t.now)
    (rounds : Nat) : Simulation.awaitWithin (ended? c) limit (rounds + 1) t = (none, t) := by
  have missing : ended? c t = none := by rw [ended?, Context.isSome_wake?, h]; rfl
  simp only [Simulation.awaitWithin, missing]
  exact if_pos past

theorem awaitWithin_of_waiting (h : c.isCancelled t.now t.signals = false) (since : t.now < limit)
    (rounds : Nat) : Simulation.awaitWithin (ended? c) limit (rounds + 1) t =
      Simulation.awaitWithin (ended? c) limit rounds
        { t with now := (Simulation.nextAlarm? t limit).getD limit } := by
  have missing : ended? c t = none := by rw [ended?, Context.isSome_wake?, h]; rfl
  rw [Simulation.awaitWithin, missing]
  exact if_neg (Nat.not_le_of_lt since)

end Rounds

/-- Only a deadline cancels a context while nobody touches a handle. -/
theorem deadline_of_isCancelled {c : Context} {s : Signals} {now now' : Millis}
    (h : c.isCancelled now s = false) (h' : c.isCancelled now' s = true) :
    ∃ d, c.deadline? = some d ∧ now < d ∧ d ≤ now' := by
  have kept : ¬ c.isCancelled now s = true := by rw [h]; exact Bool.false_ne_true
  rw [Context.isCancelled_iff] at kept
  rcases (c.isCancelled_iff now' s).mp h' with ⟨d, hd, reached⟩ | raised
  · exact ⟨d, hd, Nat.lt_of_not_le fun early => kept (.inl ⟨d, hd, early⟩), reached⟩
  · exact absurd (.inr raised) kept

/-- Every round of a wait moves the clock, and never past the instant of the deadline. -/
theorem waited_awaitWithin {c : Context} {limit : Millis} (rounds : Nat) (t : ContextTree)
    (alarmed : ∀ d, c.deadline? = some d → d ∈ Simulation.alarms t) (since : t.now ≤ limit)
    (enough : limit - t.now < rounds) :
    t.Waited c limit (Simulation.awaitWithin (ended? c) limit rounds t).1.isSome
      (Simulation.awaitWithin (ended? c) limit rounds t).2 := by
  induction rounds generalizing t with
  | zero => exact absurd enough (Nat.not_lt_zero _)
  | succ rounds ih =>
    have stay (instant : Millis) (h : t.now ≤ instant) (h' : instant < t.now) :
        c.isCancelled instant t.signals = false :=
      absurd (Nat.lt_of_le_of_lt h h') (Nat.lt_irrefl _)
    cases hc : c.isCancelled t.now t.signals with
    | true =>
      rw [awaitWithin_of_cancelled hc]
      exact ⟨rfl, Nat.le_refl _, since, stay, hc, nofun⟩
    | false =>
      rcases Nat.lt_or_ge t.now limit with waiting | past
      · obtain ⟨later, inTime⟩ := getD_nextAlarm?_bounds waiting
        have early : ∀ d ∈ Simulation.alarms t, t.now < d → d ≤ limit →
            (Simulation.nextAlarm? t limit).getD limit ≤ d := fun d => getD_nextAlarm?_le
        rw [awaitWithin_of_waiting hc waiting]
        generalize (Simulation.nextAlarm? t limit).getD limit = next at later inTime early ⊢
        have fewer : limit - next < rounds := by
          have shorter : limit - next < limit - t.now := Nat.sub_lt_sub_left waiting later
          exact Nat.lt_of_lt_of_le shorter (Nat.le_of_lt_succ enough)
        have waited := ih { t with now := next } alarmed inTime fewer
        refine ⟨waited.clock, Nat.le_trans (Nat.le_of_lt later) waited.since, waited.inTime, ?_,
          waited.cancelled, waited.patient⟩
        intro instant hfrom huntil
        rcases Nat.lt_or_ge instant next with before | after
        · refine Bool.eq_false_iff.mpr fun cancelled => ?_
          obtain ⟨d, hd, since, reached⟩ := deadline_of_isCancelled hc cancelled
          have woken := early d (alarmed d hd) since
            (Nat.le_trans reached (Nat.le_of_lt (Nat.lt_of_lt_of_le before inTime)))
          exact absurd (Nat.le_trans woken reached) (Nat.not_le_of_lt before)
        · exact waited.asleep instant after huntil
      · rw [awaitWithin_of_over hc past]
        exact ⟨rfl, Nat.le_refl _, since, stay, hc, fun _ => Nat.le_antisymm since past⟩

theorem deadline_mem_alarms {t : ContextTree} {name : String} {c : Context} {d : Millis}
    (hc : t.context? name = some c) (hd : c.deadline? = some d) : d ∈ Simulation.alarms t := by
  obtain ⟨e, he, rfl⟩ := Option.map_eq_some_iff.mp hc
  exact List.mem_flatMap.mpr ⟨e, List.mem_of_find?_eq_some he, by simp [hd]⟩

/-- Somebody who waits for a context that is kept under a name is woken at the first instant at
which it is cancelled, and gives up if that does not come. -/
theorem waited_await {t : ContextTree} {name : String} {c : Context}
    (hc : t.context? name = some c) (length : Millis) :
    t.Waited c (t.now + length) (t.await c length).1 (t.await c length).2 :=
  waited_awaitWithin (length + 1) t (fun _ hd => deadline_mem_alarms hc hd)
    (Nat.le_add_right _ _) (by rw [Nat.add_sub_cancel_left]; exact Nat.lt_succ_self _)

theorem awaitWithin_nothing {limit : Millis} (rounds : Nat) (t : ContextTree)
    (since : t.now ≤ limit) (enough : limit - t.now < rounds) :
    Simulation.awaitWithin (fun _ => (none : Option (Unit × ContextTree))) limit rounds t =
      (none, { t with now := limit }) := by
  induction rounds generalizing t with
  | zero => exact absurd enough (Nat.not_lt_zero _)
  | succ rounds ih =>
    rw [Simulation.awaitWithin]
    rcases Nat.lt_or_ge t.now limit with waiting | past
    · obtain ⟨later, inTime⟩ := getD_nextAlarm?_bounds waiting
      refine (if_neg (Nat.not_le_of_lt waiting)).trans (ih _ inTime ?_)
      have shorter := Nat.sub_lt_sub_left waiting later
      exact Nat.lt_of_lt_of_le shorter (Nat.le_of_lt_succ enough)
    · cases Nat.le_antisymm since past
      exact if_pos (Nat.le_refl _)

theorem sleep_eq (t : ContextTree) (length : Millis) :
    Simulation.sleep length t = { t with now := t.now + length } :=
  congrArg Prod.snd (awaitWithin_nothing (length + 1) t (Nat.le_add_right _ _)
    (by rw [Nat.add_sub_cancel_left]; exact Nat.lt_succ_self _))

end ContextTree

end WalletWatch
