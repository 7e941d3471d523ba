import WalletWatch.Proofs.Json.Lexing

set_option autoImplicit false

/-!
# Number literals

The grammar of number literals: a sign, a whole part that has no needless zero in front, and
possibly a fraction and an exponent. The phases of a literal follow it.
-/

namespace WalletWatch.Json

/-- Decimal digits, and the number to which they continue another one. -/
inductive Digits : Nat → List Char → Nat → Prop where
  | nil (v : Nat) : Digits v [] v
  | cons {v d w : Nat} {c : Char} {cs : List Char} (digit : digit? c = some d)
      (more : Digits (v * 10 + d) cs w) : Digits v (c :: cs) w

/-- A zero, or digits that do not begin with one. -/
inductive Whole : List Char → Nat → Prop where
  | zero {c : Char} (digit : digit? c = some 0) : Whole [c] 0
  | digits {c : Char} {d v : Nat} {cs : List Char} (digit : digit? c = some d) (nonzero : d ≠ 0)
      (more : Digits d cs v) : Whole (c :: cs) v

theorem Whole.first {cs : List Char} {w : Nat} (h : Whole cs w) :
    ∃ c ds d, cs = c :: ds ∧ digit? c = some d := by
  cases h with
  | zero digit => exact ⟨_, _, _, rfl, digit⟩
  | digits digit _ _ => exact ⟨_, _, _, rfl, digit⟩

inductive Fraction : List Char → Option (Nat × Nat) → Prop where
  | absent : Fraction [] none
  | digits {c : Char} {d v : Nat} {cs : List Char} (digit : digit? c = some d)
      (more : Digits d cs v) : Fraction ('.' :: c :: cs) (some (v, cs.length + 1))

inductive Exponent : List Char → Option (Bool × Nat) → Prop where
  | absent : Exponent [] none
  | unsigned {e c : Char} {d v : Nat} {cs : List Char} (mark : e = 'e' ∨ e = 'E')
      (digit : digit? c = some d) (more : Digits d cs v) :
      Exponent (e :: c :: cs) (some (false, v))
  | signed {e s c : Char} {negative : Bool} {d v : Nat} {cs : List Char}
      (mark : e = 'e' ∨ e = 'E') (sign : s = if negative then '-' else '+')
      (digit : digit? c = some d) (more : Digits d cs v) :
      Exponent (e :: s :: c :: cs) (some (negative, v))

/-- What may follow the whole part of a literal, and the number that makes. -/
inductive Decimals (negative : Bool) (whole : Nat) : List Char → Number → Prop where
  | mk {fs es : List Char} {f : Option (Nat × Nat)} {e : Option (Bool × Nat)}
      (fraction : Fraction fs f) (exponent : Exponent es e) :
      Decimals negative whole (fs ++ es) ⟨negative, whole, f, e⟩

/-- The literals of a number. -/
inductive Numeral : Number → List Char → Prop where
  | positive {ws cs : List Char} {w : Nat} {n : Number} (whole : Whole ws w)
      (more : Decimals false w cs n) : Numeral n (ws ++ cs)
  | negative {ws cs : List Char} {w : Nat} {n : Number} (whole : Whole ws w)
      (more : Decimals true w cs n) : Numeral n ('-' :: (ws ++ cs))

/-- From one phase on, some characters complete a literal. -/
inductive Ends : Number → Phase → List Char → Number → Prop where
  | done {n : Number} {p : Phase} (final : p.final = true) : Ends n p [] n
  | next {n n' n'' : Number} {p p' : Phase} {c : Char} {cs : List Char}
      (step : n.next c p = some (p', n')) (more : Ends n' p' cs n'') : Ends n p (c :: cs) n''

theorem ends_nil_iff {n n' : Number} {p : Phase} : Ends n p [] n' ↔ p.final = true ∧ n' = n := by
  constructor
  · intro h
    cases h with
    | done final => exact ⟨final, rfl⟩
  · rintro ⟨final, rfl⟩
    exact .done final

theorem ends_cons_iff {n n' : Number} {p : Phase} {c : Char} {cs : List Char} :
    Ends n p (c :: cs) n' ↔ ∃ r, n.next c p = some r ∧ Ends r.2 r.1 cs n' := by
  constructor
  · intro h
    cases h with
    | next step more => exact ⟨_, step, more⟩
  · rintro ⟨r, step, more⟩
    exact .next step more

theorem not_exponent_of_digit {c : Char} {d : Nat} {cs : List Char} {x : Option (Bool × Nat)}
    (digit : digit? c = some d) : ¬ Exponent (c :: cs) x := by
  intro exponent
  cases exponent with
  | unsigned mark _ _ =>
    rcases mark with rfl | rfl <;> cases digit
  | signed mark _ _ _ =>
    rcases mark with rfl | rfl <;> cases digit

theorem not_decimals_of_digit {c : Char} {d : Nat} {cs : List Char} {g : Bool} {w : Nat}
    {n : Number} (digit : digit? c = some d) : ¬ Decimals g w (c :: cs) n := by
  intro h
  generalize whole : c :: cs = l at h
  cases h with
  | mk fraction exponent =>
    cases fraction with
    | absent =>
      subst whole
      exact not_exponent_of_digit digit exponent
    | digits _ _ =>
      cases whole
      cases digit

/-- A phase that takes digits until something else leads out of it. `made` is the number by the
value and the count of the digits so far. -/
theorem ends_digits {p : Phase} (made : Nat → Nat → Number)
    (leaves : Nat → Nat → List Char → Number → Prop) (final : p.final = true)
    (stays : ∀ {v k c d}, digit? c = some d →
      (made v k).next c p = some (p, made (v * 10 + d) (k + 1)))
    (out : ∀ {v k c cs n}, digit? c = none →
      ((∃ r, (made v k).next c p = some r ∧ Ends r.2 r.1 cs n) ↔ leaves v k (c :: cs) n))
    (last : ∀ {v k n}, leaves v k [] n ↔ n = made v k)
    (apart : ∀ {v k c d cs n}, digit? c = some d → ¬ leaves v k (c :: cs) n)
    {v k : Nat} {cs : List Char} {n : Number} : Ends (made v k) p cs n ↔
      ∃ ds ts v', cs = ds ++ ts ∧ Digits v ds v' ∧ leaves v' (k + ds.length) ts n := by
  induction cs generalizing v k with
  | nil =>
    rw [ends_nil_iff]
    constructor
    · rintro ⟨-, rfl⟩
      exact ⟨[], [], v, rfl, .nil v, last.mpr rfl⟩
    · rintro ⟨ds, ts, v', none, digits, left⟩
      obtain ⟨rfl, rfl⟩ := List.append_eq_nil_iff.mp none.symm
      cases digits
      exact ⟨final, last.mp left⟩
  | cons c cs ih =>
    rw [ends_cons_iff]
    cases digit : digit? c with
    | some d =>
      rw [stays digit]
      simp only [Option.some.injEq, exists_eq_left', ih]
      constructor
      · rintro ⟨ds, ts, v', rfl, digits, left⟩
        refine ⟨c :: ds, ts, v', rfl, .cons digit digits, ?_⟩
        rwa [List.length_cons, ← Nat.add_assoc, Nat.add_right_comm]
      · rintro ⟨ds, ts, v', whole, digits, left⟩
        cases digits with
        | nil =>
          subst whole
          exact absurd left (apart digit)
        | cons digit' digits =>
          cases whole
          cases digit.symm.trans digit'
          refine ⟨_, ts, v', rfl, digits, ?_⟩
          rwa [List.length_cons, ← Nat.add_assoc, Nat.add_right_comm] at left
    | none =>
      rw [out digit]
      constructor
      · exact fun left => ⟨[], c :: cs, v, rfl, .nil v, left⟩
      · rintro ⟨ds, ts, v', whole, digits, left⟩
        cases digits with
        | nil =>
          subst whole
          exact left
        | cons digit' digits =>
          cases whole
          cases digit.symm.trans digit'

section Phases

variable {g : Bool} {w v k : Nat} {f : Option (Nat × Nat)} {cs : List Char} {n : Number}

theorem ends_exponent {s : Bool} : Ends ⟨g, w, f, some (s, v)⟩ .exponent cs n ↔
    ∃ v', Digits v cs v' ∧ n = ⟨g, w, f, some (s, v')⟩ := by
  refine (ends_digits (k := 0) (fun v _ => ⟨g, w, f, some (s, v)⟩)
    (fun v _ ts n => ts = [] ∧ n = ⟨g, w, f, some (s, v)⟩) rfl ?_ ?_ ?_ ?_).trans ?_
  · intro v k c d digit
    simp only [Number.next, digit]
    rfl
  · intro v k c cs n digit
    simp [Number.next, digit]
  · intro v k n
    simp
  · intro v k c d cs n digit left
    cases left.1
  · constructor
    · rintro ⟨ds, _, v', rfl, digits, rfl, rfl⟩
      rw [List.append_nil]
      exact ⟨v', digits, rfl⟩
    · rintro ⟨v', digits, rfl⟩
      exact ⟨cs, [], v', (List.append_nil _).symm, digits, rfl, rfl⟩

theorem ends_sign {s : Bool} : Ends ⟨g, w, f, some (s, 0)⟩ .sign cs n ↔
    ∃ c d cs' v, cs = c :: cs' ∧ digit? c = some d ∧ Digits d cs' v ∧
      n = ⟨g, w, f, some (s, v)⟩ := by
  cases cs with
  | nil => simp [ends_nil_iff, Phase.final]
  | cons c cs =>
    simp only [ends_cons_iff, Number.next, Option.map_eq_some_iff, Number.push, Option.map_some,
      Nat.zero_mul, Nat.zero_add]
    constructor
    · rintro ⟨_, ⟨d, digit, rfl⟩, more⟩
      obtain ⟨v, digits, rfl⟩ := ends_exponent.mp more
      exact ⟨c, d, cs, v, rfl, digit, digits, rfl⟩
    · rintro ⟨_, d, _, v, same, digit, digits, rfl⟩
      cases same
      exact ⟨_, ⟨d, digit, rfl⟩, ends_exponent.mpr ⟨v, digits, rfl⟩⟩

theorem ends_mark {e : Char} (mark : e = 'e' ∨ e = 'E') : Ends ⟨g, w, f, none⟩ .mark cs n ↔
    ∃ x, Exponent (e :: cs) x ∧ n = ⟨g, w, f, x⟩ := by
  cases cs with
  | nil =>
    rw [ends_nil_iff]
    constructor
    · rintro ⟨final, -⟩
      cases final
    · rintro ⟨x, exponent, -⟩
      cases exponent
  | cons c cs =>
    rw [ends_cons_iff]
    constructor
    · rintro ⟨r, step, more⟩
      simp only [Number.next] at step
      split at step
      · rename_i d digit
        cases step
        obtain ⟨v, digits, rfl⟩ := ends_exponent.mp more
        exact ⟨_, .unsigned mark digit digits, rfl⟩
      · split at step
        · rename_i plus
          cases step
          obtain ⟨c', d, cs, v, rfl, digit, digits, rfl⟩ := ends_sign.mp more
          exact ⟨some (false, v), .signed mark plus digit digits, rfl⟩
        · split at step
          · rename_i minus
            cases step
            obtain ⟨c', d, cs, v, rfl, digit, digits, rfl⟩ := ends_sign.mp more
            exact ⟨some (true, v), .signed mark minus digit digits, rfl⟩
          · cases step
    · rintro ⟨x, exponent, rfl⟩
      cases exponent with
      | @unsigned _ _ d _ _ _ digit digits =>
        refine ⟨(.exponent, ⟨g, w, f, some (false, d)⟩), ?_, ends_exponent.mpr ⟨_, digits, rfl⟩⟩
        simp only [Number.next, digit, Number.push]
      | @signed _ _ _ negative _ _ _ _ sign digit digits =>
        refine ⟨(.sign, ⟨g, w, f, some (negative, 0)⟩), ?_,
          ends_sign.mpr ⟨_, _, _, _, rfl, digit, digits, rfl⟩⟩
        subst sign
        cases negative <;> rfl

theorem ends_toMark {c : Char} :
    (∃ r, Number.next.toMark ⟨g, w, f, none⟩ c = some r ∧ Ends r.2 r.1 cs n) ↔
      ∃ x, Exponent (c :: cs) x ∧ n = ⟨g, w, f, x⟩ := by
  unfold Number.next.toMark
  constructor
  · rintro ⟨r, step, more⟩
    split at step
    · rename_i mark
      cases step
      exact (ends_mark mark).mp more
    · cases step
  · rintro ⟨x, exponent, rfl⟩
    have mark : c = 'e' ∨ c = 'E' := by
      cases exponent with
      | unsigned mark _ _ => exact mark
      | signed mark _ _ _ => exact mark
    rw [if_pos mark]
    exact ⟨_, rfl, (ends_mark mark).mpr ⟨x, exponent, rfl⟩⟩

theorem ends_fraction : Ends ⟨g, w, some (v, k), none⟩ .fraction cs n ↔
    ∃ ds es v', cs = ds ++ es ∧ Digits v ds v' ∧
      ∃ x, Exponent es x ∧ n = ⟨g, w, some (v', k + ds.length), x⟩ := by
  refine ends_digits (fun v k => ⟨g, w, some (v, k), none⟩)
    (fun v k es n => ∃ x, Exponent es x ∧ n = ⟨g, w, some (v, k), x⟩) rfl ?_ ?_ ?_ ?_
  · intro v k c d digit
    simp only [Number.next, digit]
    rfl
  · intro v k c cs n digit
    simp only [Number.next, digit]
    exact ends_toMark
  · intro v k n
    constructor
    · rintro ⟨x, exponent, rfl⟩
      cases exponent
      rfl
    · rintro rfl
      exact ⟨none, .absent, rfl⟩
  · rintro v k c d cs n digit ⟨x, exponent, -⟩
    exact not_exponent_of_digit digit exponent

theorem decimals_nil_iff : Decimals g w [] n ↔ n = ⟨g, w, none, none⟩ := by
  constructor
  · intro h
    generalize none : [] = cs at h
    cases h with
    | mk fraction exponent =>
      obtain ⟨rfl, rfl⟩ := List.append_eq_nil_iff.mp none.symm
      cases fraction
      cases exponent
      rfl
  · rintro rfl
    exact .mk .absent .absent

theorem ends_afterWhole {c : Char} :
    (∃ r, Number.next.afterWhole ⟨g, w, none, none⟩ c = some r ∧ Ends r.2 r.1 cs n) ↔
      Decimals g w (c :: cs) n := by
  unfold Number.next.afterWhole
  constructor
  · rintro ⟨r, step, more⟩
    split at step
    · rename_i point
      cases step
      cases cs with
      | nil => exact nomatch (ends_nil_iff.mp more).1
      | cons c' cs =>
        simp only [ends_cons_iff, Number.next, Option.map_eq_some_iff] at more
        obtain ⟨_, ⟨d, digit, rfl⟩, more⟩ := more
        obtain ⟨ds, es, v, rfl, digits, x, exponent, rfl⟩ := ends_fraction.mp more
        subst point
        rw [Nat.add_comm]
        exact .mk (.digits digit digits) exponent
    · obtain ⟨x, exponent, rfl⟩ := ends_toMark.mp ⟨r, step, more⟩
      exact .mk .absent exponent
  · intro h
    generalize whole : c :: cs = l at h
    cases h with
    | mk fraction exponent =>
      cases fraction with
      | absent =>
        subst whole
        have other : c ≠ '.' := by
          rintro rfl
          cases exponent with
          | unsigned mark _ _ => exact absurd mark (by decide)
          | signed mark _ _ _ => exact absurd mark (by decide)
        rw [if_neg other]
        exact ends_toMark.mpr ⟨_, exponent, rfl⟩
      | digits digit digits =>
        cases whole
        refine ⟨_, rfl, .next (by simp only [Number.next, digit]; rfl) ?_⟩
        refine ends_fraction.mpr ⟨_, _, _, rfl, digits, _, exponent, ?_⟩
        rw [Nat.add_comm]

theorem ends_zero : Ends ⟨g, w, none, none⟩ .zero cs n ↔ Decimals g w cs n := by
  cases cs with
  | nil => simp [ends_nil_iff, decimals_nil_iff, Phase.final]
  | cons c cs => rw [ends_cons_iff, ← ends_afterWhole]; rfl

theorem ends_whole : Ends ⟨g, w, none, none⟩ .whole cs n ↔
    ∃ ds ts w', cs = ds ++ ts ∧ Digits w ds w' ∧ Decimals g w' ts n := by
  refine ends_digits (k := 0) (fun w _ => ⟨g, w, none, none⟩)
    (fun w _ ts n => Decimals g w ts n) rfl ?_ ?_ decimals_nil_iff not_decimals_of_digit
  · intro w k c d digit
    simp only [Number.next, digit]
    rfl
  · intro w k c cs n digit
    simp only [Number.next, digit]
    exact ends_afterWhole

theorem ends_behind {c : Char} {d : Nat} (digit : digit? c = some d) :
    Ends ⟨g, d, none, none⟩ (.behind d) cs n ↔
      ∃ ds ts w', cs = ds ++ ts ∧ Whole (c :: ds) w' ∧ Decimals g w' ts n := by
  by_cases zero : d = 0
  · subst zero
    have phase : Phase.behind 0 = .zero := rfl
    rw [phase, ends_zero]
    constructor
    · intro decimals
      exact ⟨[], cs, 0, rfl, .zero digit, decimals⟩
    · rintro ⟨ds, ts, w', rfl, whole, decimals⟩
      cases whole with
      | zero _ => exact decimals
      | digits digit' nonzero _ =>
        cases digit.symm.trans digit'
        exact absurd rfl nonzero
  · have phase : Phase.behind d = .whole := if_neg zero
    rw [phase, ends_whole]
    refine exists_congr fun ds => exists_congr fun ts => exists_congr fun w' => ?_
    refine and_congr_right fun _ => and_congr_left fun _ => ?_
    constructor
    · exact .digits digit zero
    · intro whole
      cases whole with
      | zero digit' =>
        cases digit.symm.trans digit'
        exact absurd rfl zero
      | digits digit' _ digits =>
        cases digit.symm.trans digit'
        exact digits

theorem ends_minus : Ends ⟨g, 0, none, none⟩ .minus cs n ↔
    ∃ ws ts w', cs = ws ++ ts ∧ Whole ws w' ∧ Decimals g w' ts n := by
  cases cs with
  | nil =>
    rw [ends_nil_iff]
    constructor
    · rintro ⟨final, -⟩
      cases final
    · rintro ⟨ws, ts, w', none, whole, -⟩
      obtain ⟨rfl, rfl⟩ := List.append_eq_nil_iff.mp none.symm
      cases whole
  | cons c cs =>
    simp only [ends_cons_iff, Number.next, Option.map_eq_some_iff, Number.push, Nat.zero_mul,
      Nat.zero_add]
    constructor
    · rintro ⟨_, ⟨d, digit, rfl⟩, more⟩
      obtain ⟨ds, ts, w', rfl, whole, decimals⟩ := (ends_behind digit).mp more
      exact ⟨c :: ds, ts, w', rfl, whole, decimals⟩
    · rintro ⟨ws, ts, w', same, whole, decimals⟩
      obtain ⟨c', ds, d, rfl, digit⟩ := whole.first
      cases same
      exact ⟨_, ⟨d, digit, rfl⟩, (ends_behind digit).mpr ⟨ds, ts, w', rfl, whole, decimals⟩⟩

end Phases

/-- A literal is read phase by phase, from its sign or its first digit on. -/
theorem numeral_iff {n : Number} {cs : List Char} :
    Numeral n cs ↔ (∃ cs', cs = '-' :: cs' ∧ Ends { negative := true } .minus cs' n) ∨
      ∃ c d cs', cs = c :: cs' ∧ digit? c = some d ∧ Ends { whole := d } (.behind d) cs' n := by
  constructor
  · intro h
    cases h with
    | negative whole more => exact .inl ⟨_, rfl, ends_minus.mpr ⟨_, _, _, rfl, whole, more⟩⟩
    | positive whole more =>
      obtain ⟨c, ds, d, rfl, digit⟩ := whole.first
      exact .inr ⟨c, d, _, rfl, digit, (ends_behind digit).mpr ⟨ds, _, _, rfl, whole, more⟩⟩
  · rintro (⟨cs', rfl, ends⟩ | ⟨c, d, cs', rfl, digit, ends⟩)
    · obtain ⟨ws, ts, w, rfl, whole, more⟩ := ends_minus.mp ends
      exact .negative whole more
    · obtain ⟨ds, ts, w, rfl, whole, more⟩ := (ends_behind digit).mp ends
      exact .positive whole more

end WalletWatch.Json
