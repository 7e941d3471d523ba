import Mathlib.Data.List.Chain

set_option autoImplicit false

/-!
# Parts of a system along a run

A run of a system is a fold over its moves. One part of the system, which may come into being on the
way, goes through states of its own; what each move does to them holds along the whole run.
-/

namespace WalletWatch

/-- The states of one part of a system that makes some moves, from the state in which the part is
there. -/
def course {S M σ : Type} (step : S → M → S) (read : S → Option σ) : S → List M → List σ
  | s, [] => (read s).toList
  | s, m :: rest => (read s).toList ++ course step read (step s m) rest

/-- What is told of some moves, one after the other. -/
def along {S M β : Type} (step : S → M → S) (tell : S → M → Option β) : S → List M → List β
  | _, [] => []
  | s, m :: rest => (tell s m).toList ++ along step tell (step s m) rest

theorem eq_of_getElem?_concat {α : Type} {xs : List α} {a x : α} {i : Nat}
    (h : (xs ++ [a])[i]? = some x) : xs[i]? = some x ∨ (i = xs.length ∧ x = a) := by
  rcases Nat.lt_or_ge i xs.length with hlt | hge
  · rw [List.getElem?_append_left hlt] at h
    exact .inl h
  · rw [List.getElem?_append_right hge] at h
    obtain ⟨hlt, hx⟩ := List.getElem?_eq_some_iff.mp h
    simp only [List.length_singleton] at hlt
    refine .inr ⟨by omega, ?_⟩
    simpa using hx.symm

section Course

variable {S M σ : Type} {step : S → M → S} {read : S → Option σ}

theorem along_map {β γ : Type} (f : β → γ) (tell : S → M → Option β) (s : S) (moves : List M) :
    along step (fun s m => (tell s m).map f) s moves = (along step tell s moves).map f := by
  induction moves generalizing s with
  | nil => rfl
  | cons m rest ih =>
    rw [along, along, ih, List.map_append]
    cases tell s m <;> rfl

theorem head?_course {s : S} {x : σ} (h : read s = some x) (moves : List M) :
    (course step read s moves).head? = some x := by
  cases moves <;> simp [course, h]

theorem getLast?_course {s : S} {x : σ} {moves : List M} (h : read (moves.foldl step s) = some x) :
    (course step read s moves).getLast? = some x := by
  induction moves generalizing s with
  | nil =>
    change read s = some x at h
    simp [course, h]
  | cons m rest ih =>
    have hlast := ih h
    simp [course, List.getLast?_append, hlast]

/-- A part that is not there in the end has never been there, if no move takes it away. -/
theorem course_eq_nil (stays : ∀ s m x, read s = some x → ∃ y, read (step s m) = some y) {s : S}
    {moves : List M} (h : read (moves.foldl step s) = none) : course step read s moves = [] := by
  induction moves generalizing s with
  | nil =>
    change read s = none at h
    rw [course, h]
    rfl
  | cons m rest ih =>
    rw [course, ih h, List.append_nil]
    cases hx : read s with
    | none => rfl
    | some x =>
      obtain ⟨y, hy⟩ := stays s m x hx
      have later : (course step read (step s m) rest).head? = some y := head?_course hy rest
      rw [ih h] at later
      cases later

theorem course_eq_cons {s : S} {x : σ} (h : read s = some x) (moves : List M) :
    ∃ l, course step read s moves = x :: l :=
  List.head?_eq_some_iff.mp (head?_course h moves)

theorem course_isChain (inv : S → Prop) {r : σ → σ → Prop}
    (keeps : ∀ s m, inv s → inv (step s m))
    (goes : ∀ s m x, inv s → read s = some x → ∃ y, read (step s m) = some y ∧ r x y)
    {s : S} (h : inv s) (moves : List M) : (course step read s moves).IsChain r := by
  induction moves generalizing s with
  | nil => cases hx : read s <;> simp [course, hx]
  | cons m rest ih =>
    have later := ih (keeps s m h)
    cases hx : read s with
    | none => simpa [course, hx] using later
    | some x =>
      obtain ⟨y, hy, hr⟩ := goes s m x h hx
      simp only [course, hx, Option.toList_some, List.singleton_append]
      refine List.isChain_cons.mpr ⟨?_, later⟩
      intro z hz
      rw [head?_course hy] at hz
      cases hz
      exact hr

theorem head?_course_of_none {p : σ → Prop}
    (opens : ∀ s m x, read s = none → read (step s m) = some x → p x)
    {s : S} (h : read s = none) (moves : List M) :
    ∀ x ∈ (course step read s moves).head?, p x := by
  induction moves generalizing s with
  | nil => simp [course, h]
  | cons m rest ih =>
    simp only [course, h, Option.toList_none, List.nil_append]
    cases hx : read (step s m) with
    | none => exact ih hx
    | some y =>
      intro x hmem
      rw [head?_course hx] at hmem
      cases hmem
      exact opens s m y h hx

variable (step) in
/-- What is `n` own moves away is reached by `n` of them, whatever else happens in between. -/
theorem foldl_reaches (p : Nat → S → Prop) {own : M → Bool}
    (keeps : ∀ n s m, p n s → p n (step s m))
    (nears : ∀ n s m, own m = true → p (n + 1) s → p n (step s m))
    (moves : List M) {n : Nat} {s : S} (h : p n s) (enough : n ≤ moves.countP own) :
    p 0 (moves.foldl step s) := by
  induction moves generalizing n s with
  | nil =>
    have : n = 0 := Nat.le_zero.mp enough
    exact this ▸ h
  | cons m rest ih =>
    rw [List.countP_cons] at enough
    by_cases hm : own m = true
    · cases n with
      | zero => exact ih (keeps 0 s m h) (Nat.zero_le _)
      | succ n =>
        rw [if_pos hm] at enough
        exact ih (nears n s m hm h) (Nat.le_of_succ_le_succ enough)
    · rw [if_neg hm] at enough
      exact ih (keeps n s m h) enough

theorem pairwise_of_isChain {r : σ → σ → Prop} {p : σ → Prop} (keeps : ∀ x y, r x y → p x → p y)
    {l : List σ} (h : l.IsChain r) : l.Pairwise fun x y => p x → p y := by
  have trans : IsTrans σ fun x y => p x → p y := ⟨fun _ _ _ f g hx => g (f hx)⟩
  exact List.isChain_iff_pairwise.mp (h.imp keeps)

theorem forall_of_isChain {r : σ → σ → Prop} {p : σ → Prop} (keeps : ∀ x y, r x y → p x → p y)
    {l : List σ} (h : l.IsChain r) (first : ∀ x ∈ l.head?, p x) : ∀ x ∈ l, p x := by
  cases l with
  | nil => simp
  | cons a rest =>
    have ha := first a rfl
    intro x hx
    rcases List.mem_cons.mp hx with rfl | hx
    · exact ha
    · exact List.rel_of_pairwise_cons (pairwise_of_isChain keeps h) hx ha

end Course

end WalletWatch
