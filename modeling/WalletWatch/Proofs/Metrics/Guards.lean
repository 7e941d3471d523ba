import WalletWatch.Proofs.Metrics.Changes

set_option autoImplicit false

/-!
# Steps, changes and guards

What steps do to metrics is a list of changes, so the values that steps ask for are sums. A guard
makes one change when it is taken and takes it back when it is let go of: the open streams of a
service are the guards that are kept for it, as long as nothing else touches their series.
-/

namespace WalletWatch.MetricsSession

open Metrics (Change total labelsOf)

/-- The session behind some steps. -/
def after (s : MetricsSession) (steps : List Step) : MetricsSession :=
  steps.foldl (fun s x => (s.step x).2) s

/-- The changes that a step makes. Which service a guard belongs to was said when it was taken. -/
def changesOf (s : MetricsSession) : Step → List Change
  | .add m labels delta => [.add m labels delta]
  | .guard name service => .opened service :: ((s.guard? name).map Change.closed).toList
  | .update name => ((s.guard? name).map Change.updated).toList
  | .drop name => ((s.guard? name).map Change.closed).toList
  | .get .. | .active .. | .render => []

/-- The changes that some steps make. -/
def history : MetricsSession → List Step → List Change
  | _, [] => []
  | s, x :: rest => s.changesOf x ++ (s.step x).2.history rest

theorem run_append (s : MetricsSession) (steps more : List Step) :
    s.run (steps ++ more) = s.run steps ++ (s.after steps).run more := by
  induction steps generalizing s with
  | nil => rfl
  | cons x rest ih => exact congrArg _ (ih (s.step x).2)

theorem drop_of_none {s : MetricsSession} {name : String} (none : s.guard? name = none) :
    s.drop name = s := by
  simp [drop, none]

theorem drop_of_some {s : MetricsSession} {name service : String}
    (found : s.guard? name = some service) :
    s.drop name =
      { metrics := s.metrics.closed service, guards := s.guards.filter (·.1 ≠ name) } := by
  simp [drop, found]

theorem metrics_drop (s : MetricsSession) (name : String) :
    (s.drop name).metrics =
      s.metrics.changed ((s.guard? name).map Change.closed).toList := by
  cases found : s.guard? name with
  | none => rw [drop_of_none found]; rfl
  | some service => rw [drop_of_some found]; rfl

theorem metrics_update (s : MetricsSession) (name : String) :
    (s.step (.update name)).2.metrics =
      s.metrics.changed ((s.guard? name).map Change.updated).toList := by
  cases found : s.guard? name with
  | none => simp [step, found, Metrics.changed]
  | some service => simp [step, found, Metrics.changed, Metrics.change]

theorem guards_update (s : MetricsSession) (name : String) :
    (s.step (.update name)).2.guards = s.guards := by
  cases found : s.guard? name with
  | none => simp [step, found]
  | some service => simp [step, found]

theorem metrics_step (s : MetricsSession) (x : Step) :
    (s.step x).2.metrics = s.metrics.changed (s.changesOf x) := by
  cases x with
  | add m labels delta => rfl
  | get m labels => rfl
  | active service => rfl
  | render => rfl
  | guard name service =>
    exact metrics_drop { s with metrics := s.metrics.opened service } name
  | update name => exact metrics_update s name
  | drop name => exact metrics_drop s name

theorem metrics_after (s : MetricsSession) (steps : List Step) :
    (s.after steps).metrics = s.metrics.changed (s.history steps) := by
  induction steps generalizing s with
  | nil => rfl
  | cons x rest ih =>
    change ((s.step x).2.after rest).metrics = _
    rw [ih, metrics_step, history, Metrics.changed, Metrics.changed, Metrics.changed,
      List.foldl_append]

/-! ## Guards that are kept -/

/-- How many guards are kept for a service. -/
def kept (s : MetricsSession) (service : String) : Nat := s.guards.countP (·.2 = service)

/-- No two guards have one name. -/
def NamesApart (s : MetricsSession) : Prop := (s.guards.map Prod.fst).Nodup

theorem countP_of_found {l : List (String × String)} {name own : String}
    (apart : (l.map Prod.fst).Nodup) (found : (l.find? (·.1 = name)).map Prod.snd = some own)
    (service : String) :
    l.countP (·.2 = service) =
      (l.filter (·.1 ≠ name)).countP (·.2 = service) + if own = service then 1 else 0 := by
  induction l with
  | nil => cases found
  | cons g rest ih =>
    obtain ⟨fresh, apart⟩ := List.nodup_cons.mp apart
    by_cases same : g.1 = name
    · -- The first guard is the one that was found, and the others have other names.
      have rest_kept : rest.filter (·.1 ≠ name) = rest := by
        refine List.filter_eq_self.mpr fun other mem => ?_
        have : other.1 ≠ name := fun eq => fresh (same ▸ eq ▸ List.mem_map_of_mem mem)
        simpa using this
      rw [List.find?_cons_of_pos (by simpa using same)] at found
      obtain rfl : g.2 = own := Option.some_inj.mp found
      rw [List.filter_cons_of_neg (by simpa using same), rest_kept, List.countP_cons]
      simp
    · rw [List.find?_cons_of_neg (by simpa using same)] at found
      rw [List.filter_cons_of_pos (by simpa using same), List.countP_cons, List.countP_cons,
        ih apart found]
      omega

theorem NamesApart.drop {s : MetricsSession} (apart : s.NamesApart) (name : String) :
    (s.drop name).NamesApart ∧ name ∉ (s.drop name).guards.map Prod.fst := by
  cases found : s.guard? name with
  | none =>
    rw [drop_of_none found]
    refine ⟨apart, fun mem => ?_⟩
    obtain ⟨g, held, rfl⟩ := List.mem_map.mp mem
    have absent := List.find?_eq_none.mp (Option.map_eq_none_iff.mp found) g held
    simp at absent
  | some service =>
    rw [drop_of_some found]
    refine ⟨apart.sublist (List.filter_sublist.map _), fun mem => ?_⟩
    obtain ⟨g, held, rfl⟩ := List.mem_map.mp mem
    simpa using (List.mem_filter.mp held).2

theorem NamesApart.step {s : MetricsSession} (apart : s.NamesApart) (x : Step) :
    (s.step x).2.NamesApart := by
  cases x with
  | add | get | active | render => exact apart
  | guard name service =>
    obtain ⟨apart, fresh⟩ :=
      NamesApart.drop (s := { s with metrics := s.metrics.opened service }) apart name
    exact List.nodup_cons.mpr ⟨fresh, apart⟩
  | update name =>
    rw [NamesApart, guards_update]
    exact apart
  | drop name => exact (apart.drop name).1

theorem kept_drop {s : MetricsSession} (apart : s.NamesApart) (name service : String) :
    s.kept service = (s.drop name).kept service +
      ((s.guard? name).map Change.closed).toList.count (.closed service) := by
  cases found : s.guard? name with
  | none => rw [drop_of_none found]; rfl
  | some own =>
    rw [drop_of_some found]
    refine (countP_of_found apart found service).trans ?_
    simp [kept, List.count_singleton]

theorem kept_keep {s : MetricsSession} (apart : s.NamesApart) (name own service : String) :
    (s.keep name own).kept service +
        ((s.guard? name).map Change.closed).toList.count (.closed service) =
      s.kept service + if own = service then 1 else 0 := by
  have dropped := kept_drop (s := { s with metrics := s.metrics.opened own }) apart name service
  change s.kept service = _ + List.count _ ((s.guard? name).map Change.closed).toList at dropped
  rw [dropped]
  change List.countP _ ((name, own) :: _) + _ = List.countP _ _ + _ + _
  rw [List.countP_cons]
  simp only [decide_eq_true_eq]
  omega

theorem count_opened_closed (found : Option String) (service : String) :
    (found.map Change.closed).toList.count (.opened service) = 0 := by
  cases found <;> simp

theorem kept_step {s : MetricsSession} (apart : s.NamesApart) (x : Step) (service : String) :
    (s.step x).2.kept service + (s.changesOf x).count (.closed service) =
      s.kept service + (s.changesOf x).count (.opened service) := by
  cases x with
  | add m labels delta => simp [changesOf, step, kept]
  | get | active | render => rfl
  | guard name own =>
    have keeping := kept_keep apart name own service
    change (s.keep name own).kept service + _ = _
    rw [changesOf, List.count_cons, List.count_cons, count_opened_closed]
    simpa using keeping
  | update name =>
    rw [kept, guards_update, changesOf]
    cases s.guard? name <;> simp [kept]
  | drop name =>
    change (s.drop name).kept service + _ = _
    rw [changesOf, count_opened_closed, kept_drop apart name service]
    rfl

theorem kept_after {s : MetricsSession} (apart : s.NamesApart) (steps : List Step)
    (service : String) :
    (s.after steps).kept service + (s.history steps).count (.closed service) =
      s.kept service + (s.history steps).count (.opened service) := by
  induction steps generalizing s with
  | nil => rfl
  | cons x rest ih =>
    have first := kept_step apart x service
    have others := ih (apart.step x)
    rw [history, List.count_append, List.count_append]
    change ((s.step x).2.after rest).kept service + _ = _
    omega

/-! ## Series that only guards touch -/

/-- None of some steps adds to the open streams of a service by hand. -/
def OnlyGuards (steps : List Step) (service : String) : Prop :=
  ∀ labels delta, Step.add .active labels delta ∈ steps → ¬ labels.Perm (labelsOf service)

theorem mem_of_mem_changesOf {s : MetricsSession} {x : Step} {m : Meter} {labels : Labels}
    {delta : Int} (mem : Change.add m labels delta ∈ s.changesOf x) : x = .add m labels delta := by
  cases x with
  | add m labels delta => simpa [changesOf, eq_comm] using mem
  | get | active | render => cases mem
  | guard name service => cases found : s.guard? name <;> simp [changesOf, found] at mem
  | update name => cases found : s.guard? name <;> simp [changesOf, found] at mem
  | drop name => cases found : s.guard? name <;> simp [changesOf, found] at mem

theorem mem_of_mem_history {s : MetricsSession} {steps : List Step} {m : Meter} {labels : Labels}
    {delta : Int} (mem : Change.add m labels delta ∈ s.history steps) :
    Step.add m labels delta ∈ steps := by
  induction steps generalizing s with
  | nil => cases mem
  | cons x rest ih =>
    rcases List.mem_append.mp mem with first | later
    · exact mem_of_mem_changesOf first ▸ List.mem_cons_self
    · exact List.mem_cons_of_mem x (ih later)

theorem total_of_onlyGuards {l : List Change} {service : String}
    (only : ∀ labels delta,
      Change.add .active labels delta ∈ l → ¬ labels.Perm (labelsOf service)) :
    total l .active (labelsOf service) =
      (l.count (.opened service) : Int) - l.count (.closed service) := by
  induction l with
  | nil => rfl
  | cons c l ih =>
    have rest := ih fun labels delta mem => only labels delta (List.mem_cons_of_mem c mem)
    rw [Metrics.total_cons, rest, List.count_cons, List.count_cons]
    have alike (own : String) : (labelsOf own).Perm (labelsOf service) ↔ own = service := by
      simp [labelsOf]
    cases c with
    | add m labels delta =>
      have other : ¬ (Change.add m labels delta).IsTo .active (labelsOf service) := by
        rintro ⟨rfl, perm⟩
        exact only labels delta List.mem_cons_self perm
      rw [if_neg other]
      simp
    | opened own =>
      have hit : (Change.opened own).IsTo .active (labelsOf service) ↔ own = service :=
        (and_iff_right rfl).trans (alike own)
      by_cases same : own = service
      · rw [if_pos (hit.mpr same), same]
        simp [Change.delta]
        omega
      · rw [if_neg (same ∘ hit.mp)]
        simp [same]
    | updated own =>
      have other : ¬ (Change.updated own).IsTo .active (labelsOf service) := by
        rintro ⟨counted, -⟩
        cases counted
      rw [if_neg other]
      simp
    | closed own =>
      have hit : (Change.closed own).IsTo .active (labelsOf service) ↔ own = service :=
        (and_iff_right rfl).trans (alike own)
      by_cases same : own = service
      · rw [if_pos (hit.mpr same), same]
        simp [Change.delta]
        omega
      · rw [if_neg (same ∘ hit.mp)]
        simp [same]

theorem active_after {steps : List Step} {service : String} (only : OnlyGuards steps service) :
    (((after {} steps).metrics.activeStreams service).toInt) =
      Meter.wrap .active ((after {} steps).kept service) := by
  have balance : _ + _ = 0 + _ := kept_after (s := {}) List.nodup_nil steps service
  have sum : total (history {} steps) .active (labelsOf service) = _ :=
    total_of_onlyGuards fun labels delta mem => only labels delta (mem_of_mem_history mem)
  change get (after {} steps).metrics (labelsOf service) .active = _
  rw [metrics_after, Metrics.get_changed, Metrics.get_empty, sum]
  congr 1
  omega

/-- A step takes a guard for a service. -/
def takes (service : String) : Step → Bool
  | .guard _ own => own = service
  | _ => false

theorem count_opened_history (s : MetricsSession) (steps : List Step) (service : String) :
    (s.history steps).count (.opened service) = steps.countP (takes service) := by
  induction steps generalizing s with
  | nil => rfl
  | cons x rest ih =>
    rw [history, List.count_append, ih, List.countP_cons]
    have first : (s.changesOf x).count (.opened service) = if takes service x then 1 else 0 := by
      cases x with
      | add m labels delta => simp [changesOf, takes]
      | get | active | render => rfl
      | guard name own =>
        rw [changesOf, List.count_cons, count_opened_closed]
        simp [takes]
      | update name => cases found : s.guard? name <;> simp [changesOf, found, takes]
      | drop name =>
        rw [changesOf, count_opened_closed]
        rfl
    omega

/-- What is asked for behind some steps are sums of their changes. Of a service that has only
guards, the open streams are the guards that were taken and are still kept. -/
structure Accounts (steps : List Step) : Prop where
  asked : ∀ (m : Meter) (labels : Labels),
    run {} (steps ++ [.get m labels]) =
      run {} steps ++ [.value (m.wrap (total (history {} steps) m labels))]
  streams : ∀ service, OnlyGuards steps service →
    run {} (steps ++ [.active service]) =
      run {} steps ++ [.value (Meter.wrap .active ((after {} steps).kept service))]
  taken : ∀ service, (after {} steps).kept service + (history {} steps).count (.closed service) =
    steps.countP (takes service)

theorem accounts (steps : List Step) : Accounts steps where
  asked m labels := by
    rw [run_append]
    change _ ++ [Answer.value (get (after {} steps).metrics labels m)] = _
    rw [metrics_after, (Metrics.addUp _).fresh]
  streams service only := by
    rw [run_append]
    change _ ++ [Answer.value ((after {} steps).metrics.activeStreams service).toInt] = _
    rw [active_after only]
  taken service := by
    have balance : _ = 0 + _ := kept_after (s := {}) List.nodup_nil steps service
    rw [balance, count_opened_history, Nat.zero_add]

/-- Counters and gauges are sums, within 64 bits, of what was added under their labels: whatever the
order of the labels, and whatever the order of the changes, so also however those of several callers
are interleaved. The open streams of a service that only guards touch are the guards still kept. -/
theorem series_are_sums :
    (∀ l : List Change, Metrics.AddUp l) ∧ ∀ steps : List Step, Accounts steps :=
  ⟨Metrics.addUp, accounts⟩

/-- Two guards for prices, one of them let go of, and a counter that is carried over its end. -/
def twoGuards : List Step :=
  [.guard "a" "price", .add .validations [("x", "1"), ("y", "2")] 18446744073709551615,
    .guard "b" "price", .add .validations [("y", "2"), ("x", "1")] 3, .drop "a"]

theorem one_guard_is_left :
    OnlyGuards twoGuards "price" ∧
    run {} (twoGuards ++ [.active "price"]) = run {} twoGuards ++ [.value 1] ∧
    run {} (twoGuards ++ [.get .validations [("y", "2"), ("x", "1")]]) =
      run {} twoGuards ++ [.value 2] := by
  have only : OnlyGuards twoGuards "price" := by
    intro labels delta mem
    simp [twoGuards] at mem
  have left : (after {} twoGuards).kept "price" = 1 := by decide
  have carried : Meter.wrap .validations
      (total (history {} twoGuards) .validations [("y", "2"), ("x", "1")]) = 2 := by decide
  refine ⟨only, ?_, ?_⟩
  · rw [(series_are_sums.2 twoGuards).streams "price" only, left]
    rfl
  · rw [(series_are_sums.2 twoGuards).asked .validations [("y", "2"), ("x", "1")], carried]

end WalletWatch.MetricsSession
