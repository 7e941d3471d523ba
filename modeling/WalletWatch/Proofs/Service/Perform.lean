import WalletWatch.Service.World

set_option autoImplicit false

/-!
# Performing calls

What a call gives and what it leaves behind, one equation for each way a call is put together.
Proofs about services go through these equations and never through the monad.
-/

namespace WalletWatch

namespace World

@[simp] theorem count_samples (w : World) (home : Role) (change : Metrics → Metrics) :
    (w.count home change).samples = w.samples := rfl

@[simp] theorem count_resolveCalls (w : World) (home : Role) (change : Metrics → Metrics) :
    (w.count home change).resolveCalls = w.resolveCalls := rfl

@[simp] theorem count_metrics_self (w : World) (home : Role) (change : Metrics → Metrics) :
    (w.count home change).metrics home = change (w.metrics home) := by
  simp only [count, if_true]

end World

namespace Call

variable {α β : Type}

@[simp] theorem perform_pure (a : α) (w : World) :
    (pure a : Call α).perform w = (.ok a, w) := rfl

@[simp] theorem perform_throw (f : Failure) (w : World) :
    (throw f : Call α).perform w = (.error f, w) := rfl

@[simp] theorem perform_ofItem (i : Item α) (w : World) : (ofItem i).perform w = (i, w) := rfl

@[simp] theorem perform_count (home : Role) (change : Metrics → Metrics) (w : World) :
    (count home change).perform w = (.ok (), w.count home change) := rfl

@[simp] theorem perform_say (e : LogEvent) (w : World) :
    (say e).perform w = (.ok (), w.say e) := rfl

@[simp] theorem perform_sample (w : World) :
    sample.perform w = (.ok w.samples, { w with samples := w.samples + 1 }) := rfl

@[simp] theorem perform_modify (f : World → World) (w : World) :
    (modify f : Call PUnit).perform w = (.ok ⟨⟩, f w) := rfl

@[simp] theorem perform_result (c : Call α) (w : World) :
    c.result.perform w = (.ok (c.perform w).1, (c.perform w).2) := rfl

theorem perform_bind (c : Call α) (k : α → Call β) (w : World) :
    (c >>= k).perform w = match c.perform w with
      | (.ok a, w') => (k a).perform w'
      | (.error f, w') => (.error f, w') := by
  change ExceptT.bindCont k (c.perform w).1 (c.perform w).2 = _
  obtain ⟨r, w'⟩ := c.perform w
  cases r <;> rfl

theorem perform_bind_ok {c : Call α} {w w' : World} {a : α} (k : α → Call β)
    (h : c.perform w = (.ok a, w')) : (c >>= k).perform w = (k a).perform w' := by
  rw [perform_bind, h]

theorem perform_bind_error {c : Call α} {w w' : World} {f : Failure} (k : α → Call β)
    (h : c.perform w = (.error f, w')) : (c >>= k).perform w = (.error f, w') := by
  rw [perform_bind, h]

theorem perform_bind_eq_ok {c : Call α} {k : α → Call β} {w : World} {b : β}
    (h : ((c >>= k).perform w).1 = .ok b) :
    ∃ a w', c.perform w = (.ok a, w') ∧ ((k a).perform w').1 = .ok b := by
  rw [perform_bind] at h
  generalize c.perform w = made at h ⊢
  obtain ⟨r, w'⟩ := made
  cases r with
  | error f => cases h
  | ok a => exact ⟨a, w', rfl, h⟩

theorem perform_ofItem_map (i : Item α) (g : α → β) (w : World) :
    (do return g (← ofItem i) : Call β).perform w = (i.map g, w) := by
  rw [perform_bind, perform_ofItem]
  cases i <;> rfl

@[simp] theorem perform_within (context : String) (c : Call α) (w : World) :
    (within context c).perform w =
      ((c.perform w).1.mapError (·.wrap context), (c.perform w).2) := by
  unfold within
  rw [perform_bind_ok _ (perform_result c w)]
  cases (c.perform w).1 <;> rfl

/-! ## What a call keeps -/

/-- Whatever a call gives, the worlds before and behind it are related. -/
def Keeps (rel : World → World → Prop) (c : Call α) : Prop := ∀ w, rel w (c.perform w).2

theorem Keeps.bind {rel : World → World → Prop} {c : Call α} {k : α → Call β}
    (trans : ∀ {w w' w''}, rel w w' → rel w' w'' → rel w w'') (hc : c.Keeps rel)
    (hk : ∀ a, (k a).Keeps rel) : (c >>= k).Keeps rel := by
  intro w
  have first := hc w
  rw [perform_bind]
  generalize c.perform w = made at first ⊢
  obtain ⟨r, w'⟩ := made
  cases r with
  | error f => exact first
  | ok a => exact trans first (hk a w')

end Call

end WalletWatch
