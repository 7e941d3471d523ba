import WalletWatch.Proofs.Context.Lineage

set_option autoImplicit false

/-!
# Named contexts and their lineage

Whatever is done with contexts under names, each of them has a place in a lineage. So it is
cancelled by its deadline and by the handles of its ancestry, and somebody who waits for its end is
woken then.
-/

namespace WalletWatch

namespace Lineage

theorem run_append (l : Lineage) (deeds more : List Deed) :
    l.run (deeds ++ more) = (l.run deeds).run more := List.foldl_append

theorem mem_join (l : Lineage) (m : Member) : m ∈ (l.join m).members :=
  List.mem_append_right _ (List.mem_singleton_self m)

end Lineage

namespace ContextTree

/-- The tree after some steps. -/
def after (t : ContextTree) (steps : List Step) : ContextTree :=
  steps.foldl (fun t x => (t.step x).2) t

/-- A lineage has everything that a tree keeps under a name. -/
structure Mirrors (t : ContextTree) (l : Lineage) : Prop where
  now : l.now = t.now
  signals : l.signals = t.signals
  contexts : ∀ e ∈ t.contexts, ∃ m ∈ l.members, m.context = e.2
  handles : ∀ e ∈ t.handles, ∃ m ∈ l.members, m.handle? = some e.2

section Mirrors

variable {t : ContextTree} {l : Lineage} {c : Context}

theorem Mirrors.context? (h : t.Mirrors l) {name : String} (hc : t.context? name = some c) :
    ∃ (i : Nat) (m : Member), l.members[i]? = some m ∧ m.context = c := by
  obtain ⟨e, he, rfl⟩ := Option.map_eq_some_iff.mp hc
  obtain ⟨m, hm, same⟩ := h.contexts e (List.mem_of_find?_eq_some he)
  obtain ⟨i, hi⟩ := List.getElem?_of_mem hm
  exact ⟨i, m, hi, same⟩

theorem Mirrors.handle? (h : t.Mirrors l) {name : String} {s : Nat}
    (hs : t.handle? name = some s) : ∃ i : Nat, (l.members[i]?).bind Member.handle? = some s := by
  obtain ⟨e, he, rfl⟩ := Option.map_eq_some_iff.mp hs
  obtain ⟨m, hm, own⟩ := h.handles e (List.mem_of_find?_eq_some he)
  obtain ⟨i, hi⟩ := List.getElem?_of_mem hm
  exact ⟨i, Option.bind_eq_some_iff.mpr ⟨m, hi, own⟩⟩

theorem Mirrors.put (h : t.Mirrors l) (name : String) (hc : ∃ m ∈ l.members, m.context = c) :
    (t.put name c).Mirrors l where
  now := h.now
  signals := h.signals
  contexts e he := by
    rcases List.mem_cons.mp he with rfl | he
    · exact hc
    · exact h.contexts e (List.mem_filter.mp he).1
  handles := h.handles

theorem Mirrors.join (h : t.Mirrors l) (m : Member) : t.Mirrors (l.join m) where
  now := h.now
  signals := h.signals
  contexts e he := by
    obtain ⟨m', hm', hc⟩ := h.contexts e he
    exact ⟨m', List.mem_append_left _ hm', hc⟩
  handles e he := by
    obtain ⟨m', hm', hs⟩ := h.handles e he
    exact ⟨m', List.mem_append_left _ hm', hs⟩

theorem Mirrors.dropHandle (h : t.Mirrors l) (name : String) :
    ∃ deeds, (t.dropHandle name).Mirrors (l.run deeds) ∧ (l.run deeds).members = l.members := by
  unfold ContextTree.dropHandle
  cases hs : t.handle? name with
  | none => exact ⟨[], h, rfl⟩
  | some s =>
    obtain ⟨i, own⟩ := h.handle? hs
    have dropped : l.run [.drop i] =
        { l with signals := l.signals.release s, gone := i :: l.gone } := by
      simp only [Lineage.run, List.foldl, Lineage.act, own]
    refine ⟨[.drop i], ?_, by rw [dropped]⟩
    rw [dropped]
    exact ⟨h.now, congrArg (·.release s) h.signals, h.contexts,
      fun e he => h.handles e (List.mem_filter.mp he).1⟩

theorem Mirrors.putNew (h : t.Mirrors l) (name : String) (parent? : Option Nat)
    (own : c.handle? = some t.signals.all.length) :
    ∃ deeds, (t.putNew name (c, t.signals.make.2)).Mirrors
      ((l.joinNew (c, t.signals.make.2) parent?).run deeds) := by
  let made : Lineage := { l with signals := t.signals.make.2 }
  have grown : { t with signals := t.signals.make.2 }.Mirrors made :=
    ⟨h.now, rfl, h.contexts, h.handles⟩
  have joined := (grown.join ⟨c, parent?, c.handle?, none⟩).put name ⟨_, made.mem_join _, rfl⟩
  obtain ⟨deeds, dropped, members⟩ := joined.dropHandle name
  refine ⟨deeds, dropped.now, dropped.signals, dropped.contexts, fun e he => ?_⟩
  rcases List.mem_cons.mp he with rfl | he
  · exact ⟨_, members ▸ made.mem_join _, own⟩
  · exact dropped.handles e he

theorem Mirrors.pass (h : t.Mirrors l) {instant : Millis} (since : t.now ≤ instant) :
    { t with now := instant }.Mirrors (l.run [.pass (instant - t.now)]) := by
  refine ⟨?_, h.signals, h.contexts, h.handles⟩
  change l.now + (instant - t.now) = instant
  rw [h.now]
  exact Nat.add_sub_cancel' since

/-! A step on a name that is not there does nothing, and no deed stands for it. -/

theorem Mirrors.new (h : t.Mirrors l) (name : String) :
    ∃ deeds, (t.step (.new name)).2.Mirrors (l.run deeds) := by
  have own : (Context.root t.signals).1.handle? = some t.signals.all.length := rfl
  obtain ⟨deeds, mirrors⟩ := h.putNew name none own
  refine ⟨.new :: deeds, ?_⟩
  change Mirrors _ ((l.joinNew (Context.root l.signals) none).run deeds)
  rw [h.signals]
  exact mirrors

theorem Mirrors.child (h : t.Mirrors l) (name parent : String) :
    ∃ deeds, (t.step (.child name parent)).2.Mirrors (l.run deeds) := by
  cases hc : t.context? parent with
  | none =>
    simp only [ContextTree.step, hc]
    exact ⟨[], h⟩
  | some c =>
    obtain ⟨i, m, hm, rfl⟩ := h.context? hc
    obtain ⟨deeds, mirrors⟩ := h.putNew name (some i) (m.context.handle?_child t.signals)
    have made : l.act (.child i) = l.joinNew (m.context.child l.signals) (some i) := by
      simp only [Lineage.act, hm]
    refine ⟨.child i :: deeds, ?_⟩
    change Mirrors _ ((l.act (.child i)).run deeds)
    rw [made, h.signals]
    simp only [ContextTree.step, hc]
    exact mirrors

theorem Mirrors.clone (h : t.Mirrors l) (name other : String) :
    (t.step (.clone name other)).2.Mirrors l := by
  cases hc : t.context? other with
  | none =>
    simp only [ContextTree.step, hc]
    exact h
  | some c =>
    simp only [ContextTree.step, hc]
    obtain ⟨i, m, hm, rfl⟩ := h.context? hc
    exact h.put name ⟨m, List.mem_of_getElem? hm, rfl⟩

theorem Mirrors.timeout (h : t.Mirrors l) (name : String) (length : Millis) :
    ∃ deeds, (t.step (.timeout name length)).2.Mirrors (l.run deeds) := by
  cases hc : t.context? name with
  | none =>
    simp only [ContextTree.step, hc]
    exact ⟨[], h⟩
  | some c =>
    obtain ⟨i, m, hm, rfl⟩ := h.context? hc
    have made : l.run [.withDeadline i (t.now + length)] =
        l.join ⟨m.context.withTimeout t.now length, some i, none, some (t.now + length)⟩ := by
      simp only [Lineage.run, List.foldl, Lineage.act, hm, Context.withTimeout]
    refine ⟨[.withDeadline i (t.now + length)], ?_⟩
    rw [made]
    simp only [ContextTree.step, hc]
    exact (h.join _).put name ⟨_, l.mem_join _, rfl⟩

theorem Mirrors.cancel (h : t.Mirrors l) (name : String) :
    ∃ deeds, (t.step (.cancel name)).2.Mirrors (l.run deeds) := by
  cases hs : t.handle? name with
  | none =>
    simp only [ContextTree.step, hs]
    exact ⟨[], h⟩
  | some s =>
    obtain ⟨i, own⟩ := h.handle? hs
    have cut : l.run [.cancel i] =
        { l with signals := l.signals.cancel s, gone := i :: l.gone } := by
      simp only [Lineage.run, List.foldl, Lineage.act, own]
    refine ⟨[.cancel i], ?_⟩
    rw [cut]
    simp only [ContextTree.step, hs]
    exact ⟨h.now, congrArg (·.cancel s) h.signals, h.contexts, h.handles⟩

theorem Mirrors.sleep (h : t.Mirrors l) (length : Millis) :
    ∃ deeds, (t.step (.sleep length)).2.Mirrors (l.run deeds) := by
  refine ⟨[.pass (t.now + length - t.now)], ?_⟩
  simp only [ContextTree.step, sleep_eq]
  exact h.pass (Nat.le_add_right _ _)

theorem Mirrors.wait (h : t.Mirrors l) (name : String) (length : Millis) :
    ∃ deeds, (t.step (.wait name length)).2.Mirrors (l.run deeds) := by
  cases hc : t.context? name with
  | none =>
    simp only [ContextTree.step, hc]
    exact ⟨[], h⟩
  | some c =>
    have waited := waited_await hc length
    refine ⟨[.pass ((t.await c length).2.now - t.now)], ?_⟩
    simp only [ContextTree.step, hc]
    rw [waited.clock]
    exact h.pass waited.since

theorem Mirrors.step (h : t.Mirrors l) (x : Step) :
    ∃ deeds, (t.step x).2.Mirrors (l.run deeds) := by
  cases x with
  | new name => exact h.new name
  | child name parent => exact h.child name parent
  | clone name other => exact ⟨[], h.clone name other⟩
  | timeout name length => exact h.timeout name length
  | cancel name => exact h.cancel name
  | drop name =>
    obtain ⟨deeds, dropped, -⟩ := h.dropHandle name
    exact ⟨deeds, dropped⟩
  | isCancelled name => exact ⟨[], h⟩
  | remaining name => exact ⟨[], h⟩
  | deadline name => exact ⟨[], h⟩
  | sleep length => exact h.sleep length
  | wait name length => exact h.wait name length

theorem Mirrors.after (h : t.Mirrors l) (steps : List Step) :
    ∃ deeds, (t.after steps).Mirrors (l.run deeds) := by
  induction steps generalizing t l with
  | nil => exact ⟨[], h⟩
  | cons x rest ih =>
    obtain ⟨deeds, first⟩ := h.step x
    obtain ⟨more, later⟩ := ih first
    exact ⟨deeds ++ more, Lineage.run_append l deeds more ▸ later⟩

/-- Contexts are cancelled along their lineage and by their deadlines, whatever is done with them
and their handles; what is kept under names is part of a lineage, and who waits there for the end of
a context is woken as soon as it is cancelled. -/
theorem cancellation_follows_lineage :
    (∀ deeds i m, (({} : Lineage).run deeds).members[i]? = some m →
      (({} : Lineage).run deeds).Lawful i m) ∧
    ∀ steps,
      (∃ deeds, (({} : ContextTree).after steps).Mirrors (({} : Lineage).run deeds)) ∧
      ∀ name c length, (({} : ContextTree).after steps).context? name = some c →
        (({} : ContextTree).after steps).Waited c
          ((({} : ContextTree).after steps).now + length)
          ((({} : ContextTree).after steps).await c length).1
          ((({} : ContextTree).after steps).await c length).2 := by
  refine ⟨fun deeds i m hm => (Lineage.sound_run deeds).lawful hm, fun steps => ⟨?_, ?_⟩⟩
  · have empty : ({} : ContextTree).Mirrors {} := ⟨rfl, rfl, nofun, nofun⟩
    exact empty.after steps
  · exact fun name c length hc => waited_await hc length

/-- Made from a child with a deadline, a context follows that child and not the other way round. -/
theorem grandchild_follows_child :
    let l := ({} : Lineage).run [.new, .child 0, .withDeadline 1 5]
    let cut := l.act (.cancel 1)
    ∃ root grandchild : Member, cut.members[0]? = some root ∧ cut.members[2]? = some grandchild ∧
      grandchild.context.isCancelled cut.now cut.signals = true ∧
      root.context.isCancelled cut.now cut.signals = false := by
  intro l cut
  obtain ⟨lawful, -⟩ := cancellation_follows_lineage
  have descends : cut.Descends 2 1 := .step rfl rfl (.self 1)
  have root := lawful [.new, .child 0, .withDeadline 1 5] 0 _ rfl
  have grandchild := lawful [.new, .child 0, .withDeadline 1 5, .cancel 1] 2 _ rfl
  have apart : ∀ j, (Lineage.Deed.cancel 1).cuts? = some j → ¬ l.Descends 0 j := by
    rintro j hj descends
    cases hj
    cases descends with
    | step hm hp =>
      cases hm
      cases hp
  refine ⟨_, _, rfl, rfl, grandchild.cancelled.mpr (.inr ⟨1, List.mem_cons_self, descends⟩), ?_⟩
  exact (root.untouched (.cancel 1) (fun _ => nofun) apart).trans rfl

end Mirrors

end ContextTree

end WalletWatch
