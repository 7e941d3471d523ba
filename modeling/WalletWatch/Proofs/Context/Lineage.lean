import WalletWatch.Proofs.Context.Waiting
import WalletWatch.Proofs.Course

set_option autoImplicit false

/-!
# Contexts and their descendants

A context keeps no link to the one it was made from: it has a copy of that one's signals and of its
deadline. Beside the contexts that somebody made, each known by its place, a lineage remembers how
they were made. A context is cancelled by its deadline, by its own handle and by those of the
contexts it descends from, and by nothing else.
-/

namespace WalletWatch

/-- A context that somebody made, with what is remembered of how. -/
structure Member where
  context : Context
  /-- The place of the context it was made from. -/
  parent? : Option Nat := none
  /-- The signal whose handle came with it. -/
  handle? : Option Nat := none
  /-- The deadline it was made with. -/
  limit? : Option Millis := none

structure Lineage where
  now : Millis := 0
  signals : Signals := {}
  members : List Member := []
  /-- The places of the members whose handles were cancelled or dropped. -/
  gone : List Nat := []

namespace Context

/-- The deadline of a context is at or before an instant. -/
def Due (c : Context) (instant : Millis) : Prop := ∃ d, c.deadline? = some d ∧ d ≤ instant

theorem due_withDeadline (c : Context) (limit instant : Millis) :
    (c.withDeadline limit).Due instant ↔ limit ≤ instant ∨ c.Due instant := by
  unfold Due withDeadline
  cases c.deadline? with
  | none => simp
  | some d =>
    have least (a b c : Nat) : min a b ≤ c ↔ b ≤ c ∨ a ≤ c := by omega
    simpa using least d limit instant

theorem isCancelled_congr (c : Context) (now : Millis) {s s' : Signals}
    (h : ∀ id ∈ c.signals, s'.raised id = s.raised id) :
    c.isCancelled now s' = c.isCancelled now s := by
  have same : c.signals.any s'.raised = c.signals.any s.raised :=
    Bool.eq_iff_iff.mpr (by
      rw [List.any_eq_true, List.any_eq_true]
      exact exists_congr fun id => and_congr_right fun hid => by rw [h id hid])
  rw [isCancelled, isCancelled, same]

end Context

namespace Lineage

/-- What can be done with contexts and handles. A context is changed by making another of it. -/
inductive Deed where
  | new
  | child (place : Nat)
  | clone (place : Nat)
  | withDeadline (place : Nat) (instant : Millis)
  | cancel (place : Nat)
  | drop (place : Nat)
  | pass (length : Millis)

def join (l : Lineage) (m : Member) : Lineage := { l with members := l.members ++ [m] }

/-- A context comes with the handle of its own signal. -/
def joinNew (l : Lineage) (made : Context × Signals) (parent? : Option Nat) : Lineage :=
  { l with signals := made.2 }.join ⟨made.1, parent?, made.1.handle?, none⟩

def act (l : Lineage) : Deed → Lineage
  | .new => l.joinNew (Context.root l.signals) none
  | .child i =>
    match l.members[i]? with
    | some m => l.joinNew (m.context.child l.signals) (some i)
    | none => l
  | .clone i =>
    match l.members[i]? with
    | some m => l.join ⟨m.context, some i, none, none⟩
    | none => l
  | .withDeadline i instant =>
    match l.members[i]? with
    | some m => l.join ⟨m.context.withDeadline instant, some i, none, some instant⟩
    | none => l
  | .cancel i =>
    match (l.members[i]?).bind Member.handle? with
    | some s => { l with signals := l.signals.cancel s, gone := i :: l.gone }
    | none => l
  | .drop i =>
    match (l.members[i]?).bind Member.handle? with
    | some s => { l with signals := l.signals.release s, gone := i :: l.gone }
    | none => l
  | .pass length => { l with now := l.now + length }

def run (l : Lineage) (deeds : List Deed) : Lineage := deeds.foldl act l

/-- The member at the first place is that at the second or was made from it, in any number of
steps. -/
inductive Descends (l : Lineage) : Nat → Nat → Prop
  | self (i : Nat) : Descends l i i
  | step {i p j : Nat} {m : Member} (hm : l.members[i]? = some m) (hp : m.parent? = some p)
    (h : Descends l p j) : Descends l i j

/-- How a member came of those before it. -/
inductive Descent (earlier : List Member) : Member → Prop
  | root (s : Nat) : Descent earlier ⟨⟨[s], none⟩, none, some s, none⟩
  | child (p s : Nat) (parent : Member) (h : earlier[p]? = some parent) :
    Descent earlier ⟨{ parent.context with signals := parent.context.signals ++ [s] },
      some p, some s, none⟩
  | clone (p : Nat) (parent : Member) (h : earlier[p]? = some parent) :
    Descent earlier ⟨parent.context, some p, none, none⟩
  | withDeadline (p : Nat) (instant : Millis) (parent : Member) (h : earlier[p]? = some parent) :
    Descent earlier ⟨parent.context.withDeadline instant, some p, none, some instant⟩

/-- The records of a lineage are true. -/
structure Sound (l : Lineage) : Prop where
  descent : ∀ (i : Nat) (m : Member), l.members[i]? = some m → Descent (l.members.take i) m
  made : ∀ (i : Nat) (m : Member) (s : Nat), l.members[i]? = some m → m.handle? = some s →
    s < l.signals.all.length
  own : ∀ (i j : Nat) (m m' : Member) (s : Nat), l.members[i]? = some m → m.handle? = some s →
    l.members[j]? = some m' → m'.handle? = some s → i = j
  raised : ∀ (i : Nat) (m : Member) (s : Nat), l.members[i]? = some m → m.handle? = some s →
    (l.signals.raised s = true ↔ i ∈ l.gone)
  gone : ∀ i ∈ l.gone, ∃ m s, l.members[i]? = some m ∧ m.handle? = some s

section Sound

variable {l : Lineage}

theorem Descent.parent {earlier : List Member} {m : Member} {p : Nat} (h : Descent earlier m)
    (hp : m.parent? = some p) : ∃ parent, earlier[p]? = some parent := by
  cases h with
  | root s => cases hp
  | child _ s parent h => cases hp; exact ⟨parent, h⟩
  | clone _ parent h => cases hp; exact ⟨parent, h⟩
  | withDeadline _ instant parent h => cases hp; exact ⟨parent, h⟩

/-- The signals of a member are its own and those of the member it was made from. -/
theorem Descent.mem_signals {earlier : List Member} {m : Member} (h : Descent earlier m) (s : Nat) :
    s ∈ m.context.signals ↔ m.handle? = some s ∨
      ∃ p parent, m.parent? = some p ∧ earlier[p]? = some parent ∧ s ∈ parent.context.signals := by
  cases h with
  | root s => simp [eq_comm]
  | child p s' parent h => simp [h, eq_comm, or_comm]
  | clone p parent h => simp [h]
  | withDeadline p instant parent h => simp [h, Context.withDeadline]

/-- The deadline of a member is the earlier of its own and that of the member it was made from. -/
theorem Descent.due_iff {earlier : List Member} {m : Member} (h : Descent earlier m)
    (t : Millis) : m.context.Due t ↔ (∃ d, m.limit? = some d ∧ d ≤ t) ∨
      ∃ p parent, m.parent? = some p ∧ earlier[p]? = some parent ∧ parent.context.Due t := by
  cases h with
  | root s => simp [Context.Due]
  | child p s' parent h => simp [h, Context.Due]
  | clone p parent h => simp [h]
  | withDeadline p instant parent h =>
    rw [Context.due_withDeadline]
    simp [h]

/-- What a member has from itself and from the member it was made from, it has from its ancestry. -/
theorem Sound.inherited (h : l.Sound) (held own : Member → Prop)
    (has : ∀ earlier m, Descent earlier m → (held m ↔ own m ∨
      ∃ p parent, m.parent? = some p ∧ earlier[p]? = some parent ∧ held parent))
    {i : Nat} {m : Member} (hm : l.members[i]? = some m) :
    held m ↔ ∃ j m', l.Descends i j ∧ l.members[j]? = some m' ∧ own m' := by
  induction i using Nat.strong_induction_on generalizing m with
  | _ i ih =>
    have descent := h.descent i m hm
    have before {p : Nat} {parent : Member} (found : (l.members.take i)[p]? = some parent) :
        p < i ∧ l.members[p]? = some parent := by
      rw [List.getElem?_take] at found
      split_ifs at found with hlt
      exact ⟨hlt, found⟩
    rw [has _ m descent]
    constructor
    · rintro (mine | ⟨p, parent, hp, found, held⟩)
      · exact ⟨i, m, .self i, hm, mine⟩
      · obtain ⟨hlt, hparent⟩ := before found
        obtain ⟨j, m', descends, hj, theirs⟩ := (ih p hlt hparent).mp held
        exact ⟨j, m', .step hm hp descends, hj, theirs⟩
    · rintro ⟨j, m', descends, hj, theirs⟩
      cases descends with
      | self => exact .inl (Option.some.inj (hm.symm.trans hj) ▸ theirs)
      | step hm' hp descends =>
        cases hm.symm.trans hm'
        obtain ⟨parent, found⟩ := descent.parent hp
        obtain ⟨hlt, hparent⟩ := before found
        exact .inr ⟨_, parent, hp, found, (ih _ hlt hparent).mpr ⟨j, m', descends, hj, theirs⟩⟩

/-! ### Deeds -/

/-- The place whose handle a deed cancels or drops. -/
def Deed.cuts? : Deed → Option Nat
  | .cancel i | .drop i => some i
  | _ => none

/-- What a deed can do to a lineage. -/
inductive Changes (l : Lineage) (d : Deed) : Lineage → Prop
  | nothing : Changes l d l
  | joins (m : Member) (signals : Signals) (descent : Descent l.members m)
    (keeps : ∀ id, signals.raised id = l.signals.raised id)
    (grows : l.signals.all.length ≤ signals.all.length)
    (fresh : ∀ s, m.handle? = some s → l.signals.all.length ≤ s ∧ s < signals.all.length) :
    Changes l d ({ l with signals := signals }.join m)
  | cuts (j s : Nat) (m : Member) (signals : Signals) (hd : d.cuts? = some j)
    (hm : l.members[j]? = some m) (hs : m.handle? = some s)
    (raises : ∀ id, signals.raised id = true ↔
      l.signals.raised id = true ∨ (s = id ∧ s < l.signals.all.length))
    (same : signals.all.length = l.signals.all.length) :
    Changes l d { l with signals := signals, gone := j :: l.gone }
  | passes (length : Millis) (hd : d = .pass length) :
    Changes l d { l with now := l.now + length }

theorem changes_join {d : Deed} {m : Member} (descent : Descent l.members m)
    (quiet : m.handle? = none) : l.Changes d (l.join m) :=
  .joins m l.signals descent (fun _ => rfl) (Nat.le_refl _) fun s hs => by
    cases quiet.symm.trans hs

theorem changes_joinNew {d : Deed} {c : Context} {parent? : Option Nat}
    (own : c.handle? = some l.signals.all.length)
    (descent : Descent l.members ⟨c, parent?, some l.signals.all.length, none⟩) :
    l.Changes d (l.joinNew (c, l.signals.make.2) parent?) := by
  unfold joinNew
  rw [own]
  refine .joins _ _ descent l.signals.raised_make ?_ fun s hs => ?_
  · rw [Signals.length_make]
    exact Nat.le_succ _
  · cases hs
    rw [Signals.length_make]
    exact ⟨Nat.le_refl _, Nat.lt_succ_self _⟩

theorem changes_act (l : Lineage) (d : Deed) : l.Changes d (l.act d) := by
  cases d with
  | new => exact changes_joinNew rfl (.root _)
  | child i =>
    cases hm : l.members[i]? with
    | none => simpa only [act, hm] using .nothing
    | some m =>
      simp only [act, hm]
      exact changes_joinNew (m.context.handle?_child l.signals) (.child i _ m hm)
  | clone i =>
    cases hm : l.members[i]? with
    | none => simpa only [act, hm] using .nothing
    | some m =>
      simp only [act, hm]
      exact changes_join (.clone i m hm) rfl
  | withDeadline i instant =>
    cases hm : l.members[i]? with
    | none => simpa only [act, hm] using .nothing
    | some m =>
      simp only [act, hm]
      exact changes_join (.withDeadline i instant m hm) rfl
  | cancel i =>
    cases hs : (l.members[i]?).bind Member.handle? with
    | none => simpa only [act, hs] using .nothing
    | some s =>
      obtain ⟨m, hm, hs'⟩ := Option.bind_eq_some_iff.mp hs
      simp only [act, hs]
      exact .cuts i s m _ rfl hm hs' (l.signals.raised_cancel s) (l.signals.length_cancel s)
  | drop i =>
    cases hs : (l.members[i]?).bind Member.handle? with
    | none => simpa only [act, hs] using .nothing
    | some s =>
      obtain ⟨m, hm, hs'⟩ := Option.bind_eq_some_iff.mp hs
      simp only [act, hs]
      exact .cuts i s m _ rfl hm hs' (l.signals.raised_release s) (l.signals.length_release s)
  | pass length => exact .passes length rfl

/-- A member is made behind the others, with a signal of its own or none. -/
theorem Sound.joined (h : l.Sound) {signals : Signals} {m : Member} (descent : Descent l.members m)
    (keeps : ∀ id, signals.raised id = l.signals.raised id)
    (grows : l.signals.all.length ≤ signals.all.length)
    (fresh : ∀ s, m.handle? = some s → l.signals.all.length ≤ s ∧ s < signals.all.length) :
    ({ l with signals := signals }.join m).Sound where
  descent i m' hm' := by
    rcases eq_of_getElem?_concat hm' with old | ⟨rfl, rfl⟩
    · have hlt := (List.getElem?_eq_some_iff.mp old).1
      change Descent ((l.members ++ [m]).take i) m'
      rw [List.take_append_of_le_length (Nat.le_of_lt hlt)]
      exact h.descent i m' old
    · change Descent ((l.members ++ [m']).take l.members.length) m'
      rw [List.take_left]
      exact descent
  made i m' s hm' hs := by
    rcases eq_of_getElem?_concat hm' with old | ⟨rfl, rfl⟩
    · exact Nat.lt_of_lt_of_le (h.made i m' s old hs) grows
    · exact (fresh s hs).2
  own i j m₁ m₂ s h₁ hs₁ h₂ hs₂ := by
    have apart {k : Nat} {m' : Member} (old : l.members[k]? = some m')
        (hs : m'.handle? = some s) (hs' : m.handle? = some s) : False :=
      absurd (h.made k m' s old hs) (Nat.not_lt_of_le (fresh s hs').1)
    rcases eq_of_getElem?_concat h₁ with old₁ | ⟨rfl, rfl⟩ <;>
      rcases eq_of_getElem?_concat h₂ with old₂ | ⟨rfl, rfl⟩
    · exact h.own i j m₁ m₂ s old₁ hs₁ old₂ hs₂
    · exact (apart old₁ hs₁ hs₂).elim
    · exact (apart old₂ hs₂ hs₁).elim
    · rfl
  raised i m' s hm' hs := by
    change signals.raised s = true ↔ i ∈ l.gone
    rw [keeps]
    rcases eq_of_getElem?_concat hm' with old | ⟨rfl, rfl⟩
    · exact h.raised i m' s old hs
    · rw [Signals.raised_of_le _ (fresh s hs).1]
      refine ⟨nofun, fun gone => ?_⟩
      obtain ⟨m'', -, old, -⟩ := h.gone _ gone
      exact absurd (List.getElem?_eq_some_iff.mp old).1 (Nat.lt_irrefl _)
  gone i hi := by
    obtain ⟨m', s, old, hs⟩ := h.gone i hi
    refine ⟨m', s, ?_, hs⟩
    change (l.members ++ [m])[i]? = some m'
    rw [List.getElem?_append_left (List.getElem?_eq_some_iff.mp old).1]
    exact old

theorem Sound.cut (h : l.Sound) {i s : Nat} {m : Member} (hm : l.members[i]? = some m)
    (hs : m.handle? = some s) {signals : Signals}
    (raises : ∀ id, signals.raised id = true ↔
      l.signals.raised id = true ∨ (s = id ∧ s < l.signals.all.length))
    (same : signals.all.length = l.signals.all.length) :
    { l with signals := signals, gone := i :: l.gone }.Sound where
  descent := h.descent
  made j m' s' hm' hs' := same ▸ h.made j m' s' hm' hs'
  own := h.own
  raised j m' s' hm' hs' := by
    rw [raises, h.raised j m' s' hm' hs', List.mem_cons, or_comm]
    refine or_congr ⟨fun ⟨eq, _⟩ => ?_, fun eq => ?_⟩ Iff.rfl
    · exact h.own j i m' m s' hm' hs' hm (eq ▸ hs)
    · subst eq
      cases hm.symm.trans hm'
      exact ⟨Option.some.inj (hs.symm.trans hs'), h.made j m s hm hs⟩
  gone j hj := by
    rcases List.mem_cons.mp hj with rfl | hj
    · exact ⟨m, s, hm, hs⟩
    · exact h.gone j hj

theorem Sound.act (h : l.Sound) (d : Deed) : (l.act d).Sound := by
  have h' := l.changes_act d
  generalize l.act d = l' at h'
  cases h' with
  | nothing => exact h
  | joins m signals descent keeps grows fresh => exact h.joined descent keeps grows fresh
  | cuts j s m signals hd hm hs raises same => exact h.cut hm hs raises same
  | passes length => exact ⟨h.descent, h.made, h.own, h.raised, h.gone⟩

theorem sound_run (deeds : List Deed) : (({} : Lineage).run deeds).Sound := by
  have kept (l : Lineage) (h : l.Sound) : (l.run deeds).Sound := by
    induction deeds generalizing l with
    | nil => exact h
    | cons d rest ih => exact ih (l.act d) (h.act d)
  exact kept {} ⟨nofun, nofun, nofun, nofun, nofun⟩

/-! ### What follows for each member -/

/-- What holds of the member at a place. -/
structure Lawful (l : Lineage) (i : Nat) (m : Member) : Prop where
  /-- Its deadline cancels it, and so does each handle of its ancestry; nothing else does. -/
  cancelled : m.context.isCancelled l.now l.signals = true ↔
    m.context.Due l.now ∨ ∃ j ∈ l.gone, l.Descends i j
  awake : (m.context.wake? l.now l.signals).isSome = m.context.isCancelled l.now l.signals
  signals_ne : m.context.signals ≠ []
  /-- Its deadline is the earliest of its ancestry. -/
  due : ∀ instant, m.context.Due instant ↔
    ∃ j m' d, l.Descends i j ∧ l.members[j]? = some m' ∧ m'.limit? = some d ∧ d ≤ instant
  stays : ∀ deeds, (l.run deeds).members[i]? = some m ∧
    (m.context.isCancelled l.now l.signals = true →
      m.context.isCancelled (l.run deeds).now (l.run deeds).signals = true)
  inherits : ∀ j m', l.Descends i j → l.members[j]? = some m' →
    (∀ d', m'.context.deadline? = some d' → ∃ d, m.context.deadline? = some d ∧ d ≤ d') ∧
      (m'.context.isCancelled l.now l.signals = true →
        m.context.isCancelled l.now l.signals = true)
  /-- Without time, only the handles of its ancestry can do anything to it. -/
  untouched : ∀ d : Deed, (∀ length, d ≠ .pass length) →
    (∀ j, d.cuts? = some j → ¬ l.Descends i j) →
    m.context.isCancelled (l.act d).now (l.act d).signals = m.context.isCancelled l.now l.signals

theorem Descends.trans {i j k : Nat} (h : l.Descends i j) (h' : l.Descends j k) :
    l.Descends i k := by
  induction h with
  | self i => exact h'
  | step hm hp _ ih => exact .step hm hp (ih h')

section Members

variable {i : Nat} {m : Member}

theorem Sound.mem_signals_iff (h : l.Sound) (hm : l.members[i]? = some m) (s : Nat) :
    s ∈ m.context.signals ↔
      ∃ j m', l.Descends i j ∧ l.members[j]? = some m' ∧ m'.handle? = some s :=
  h.inherited (s ∈ ·.context.signals) (·.handle? = some s) (fun _ _ d => d.mem_signals s) hm

theorem Sound.due_iff (h : l.Sound) (hm : l.members[i]? = some m) (instant : Millis) :
    m.context.Due instant ↔ ∃ j m' d, l.Descends i j ∧ l.members[j]? = some m' ∧
      m'.limit? = some d ∧ d ≤ instant := by
  refine (h.inherited (·.context.Due instant) (fun m => ∃ d, m.limit? = some d ∧ d ≤ instant)
    (fun _ _ d => d.due_iff instant) hm).trans ?_
  exact exists_congr fun j => exists_congr fun m' =>
    ⟨fun ⟨hd, hj, d, hlimit⟩ => ⟨d, hd, hj, hlimit⟩, fun ⟨d, hd, hj, hlimit⟩ => ⟨hd, hj, d, hlimit⟩⟩

theorem Sound.isCancelled_iff (h : l.Sound) (hm : l.members[i]? = some m) :
    m.context.isCancelled l.now l.signals = true ↔
      m.context.Due l.now ∨ ∃ j ∈ l.gone, l.Descends i j := by
  rw [Context.isCancelled_iff]
  refine or_congr Iff.rfl ⟨?_, ?_⟩
  · rintro ⟨s, hs, raised⟩
    obtain ⟨j, m', descends, hj, own⟩ := (h.mem_signals_iff hm s).mp hs
    exact ⟨j, (h.raised j m' s hj own).mp raised, descends⟩
  · rintro ⟨j, gone, descends⟩
    obtain ⟨m', s, hj, own⟩ := h.gone j gone
    exact ⟨s, (h.mem_signals_iff hm s).mpr ⟨j, m', descends, hj, own⟩,
      (h.raised j m' s hj own).mpr gone⟩

theorem Sound.signals_ne (h : l.Sound) (hm : l.members[i]? = some m) :
    m.context.signals ≠ [] := by
  induction i using Nat.strong_induction_on generalizing m with
  | _ i ih =>
    have before {p : Nat} {parent : Member} (found : (l.members.take i)[p]? = some parent) :
        parent.context.signals ≠ [] := by
      rw [List.getElem?_take] at found
      split_ifs at found with hlt
      exact ih p hlt found
    cases h.descent i m hm with
    | root s => exact List.cons_ne_nil s []
    | child p s parent hp => exact List.append_ne_nil_of_right_ne_nil _ (List.cons_ne_nil s [])
    | clone p parent hp => exact (before hp : parent.context.signals ≠ [])
    | withDeadline p instant parent hp => exact (before hp : parent.context.signals ≠ [])

end Members

/-- Members stay where they are, the clock does not go back and no signal is lowered. -/
structure Grown (l l' : Lineage) : Prop where
  members : l.members <+: l'.members
  now : l.now ≤ l'.now
  signals : l.signals.Within l'.signals

theorem grown_act (l : Lineage) (d : Deed) : l.Grown (l.act d) := by
  have h := l.changes_act d
  generalize l.act d = l' at h
  cases h with
  | nothing => exact ⟨List.prefix_rfl, Nat.le_refl _, .refl _⟩
  | joins m signals descent keeps =>
    exact ⟨List.prefix_append _ _, Nat.le_refl _, fun id hid => (keeps id).trans hid⟩
  | cuts j s m signals hd hm hs raises =>
    exact ⟨List.prefix_rfl, Nat.le_refl _, fun id hid => (raises id).mpr (.inl hid)⟩
  | passes length => exact ⟨List.prefix_rfl, Nat.le_add_right _ _, .refl _⟩

theorem grown_run (l : Lineage) (deeds : List Deed) : l.Grown (l.run deeds) := by
  induction deeds generalizing l with
  | nil => exact ⟨List.prefix_rfl, Nat.le_refl _, .refl _⟩
  | cons d rest ih =>
    have first := l.grown_act d
    have later := ih (l.act d)
    exact ⟨first.members.trans later.members, Nat.le_trans first.now later.now,
      fun id hid => later.signals id (first.signals id hid)⟩

section Members

variable {i : Nat} {m : Member}

theorem Sound.untouched (h : l.Sound) (hm : l.members[i]? = some m) {d : Deed}
    (timeless : ∀ length, d ≠ .pass length)
    (apart : ∀ j, d.cuts? = some j → ¬ l.Descends i j) :
    m.context.isCancelled (l.act d).now (l.act d).signals =
      m.context.isCancelled l.now l.signals := by
  have h' := l.changes_act d
  generalize l.act d = l' at h'
  cases h' with
  | nothing => rfl
  | joins m' signals descent keeps => exact m.context.isCancelled_congr l.now fun id _ => keeps id
  | cuts j s m' signals hd hj hs raises =>
    refine m.context.isCancelled_congr l.now fun id hid => Bool.eq_iff_iff.mpr ?_
    rw [raises]
    refine or_iff_left fun ⟨eq, _⟩ => apart j hd ?_
    obtain ⟨k, m'', descends, hk, own⟩ := (h.mem_signals_iff hm id).mp hid
    exact h.own k j m'' m' s hk (eq ▸ own) hj hs ▸ descends
  | passes length hd => exact absurd hd (timeless length)

theorem Sound.lawful (h : l.Sound) (hm : l.members[i]? = some m) : l.Lawful i m where
  cancelled := h.isCancelled_iff hm
  awake := m.context.isSome_wake? l.now l.signals
  signals_ne := h.signals_ne hm
  due := h.due_iff hm
  stays deeds := by
    have grown := l.grown_run deeds
    obtain ⟨more, hmore⟩ := grown.members
    refine ⟨?_, m.context.isCancelled_mono grown.now grown.signals⟩
    rw [← hmore, List.getElem?_append_left (List.getElem?_eq_some_iff.mp hm).1]
    exact hm
  inherits j m' descends hj := by
    have due (instant : Millis) (hdue : m'.context.Due instant) : m.context.Due instant := by
      obtain ⟨k, m'', d, descends', hk, limit⟩ := (h.due_iff hj instant).mp hdue
      exact (h.due_iff hm instant).mpr ⟨k, m'', d, descends.trans descends', hk, limit⟩
    refine ⟨fun d' hd' => due d' ⟨d', hd', Nat.le_refl _⟩, fun cancelled => ?_⟩
    rw [h.isCancelled_iff hm]
    rcases (h.isCancelled_iff hj).mp cancelled with hdue | ⟨k, gone, descends'⟩
    · exact .inl (due _ hdue)
    · exact .inr ⟨k, gone, descends.trans descends'⟩
  untouched d timeless apart := h.untouched hm timeless apart

end Members

end Sound

end Lineage

end WalletWatch
