import WalletWatch.Proofs.Json.Document
import WalletWatch.Proofs.Json.Numeral

set_option autoImplicit false

/-!
# The texts of documents

The grammar of JSON: tokens as they are spelled, with blanks between them, and the texts that spell
the tokens of a document. The lexer reads a text as the tokens of a document if and only if it
spells them.

Bytes that are not UTF-8 may stand in a literal and nowhere else.
-/

namespace WalletWatch.Json

/-- What may stand between the quotes of a literal, and what the literal is made of. -/
inductive Quoted : Text → List Piece → Prop where
  | nil : Quoted [] []
  | char {c : Char} {t : Text} {ps : List Piece} (plain : c ≠ '"' ∧ c ≠ '\\')
      (printable : 0x20 ≤ c.toNat) (more : Quoted t ps) : Quoted (.char c :: t) (.char c :: ps)
  | stray {b : UInt8} {t : Text} {ps : List Piece} (more : Quoted t ps) :
      Quoted (.stray b :: t) (.stray :: ps)
  | escape {x c : Char} {t : Text} {ps : List Piece} (letter : escaped? x = some c)
      (more : Quoted t ps) : Quoted (.char '\\' :: .char x :: t) (.char c :: ps)
  | unit {a b c d : Char} {i j k l : Nat} {t : Text} {ps : List Piece}
      (first : hexDigit? a = some i) (second : hexDigit? b = some j) (third : hexDigit? c = some k)
      (fourth : hexDigit? d = some l) (more : Quoted t ps) :
      Quoted (.char '\\' :: .char 'u' :: .char a :: .char b :: .char c :: .char d :: t)
        (.unit (((i * 16 + j) * 16 + k) * 16 + l) :: ps)

/-- The spelling of a token that has only one. -/
def Token.fixed? : Token → Option (List Char)
  | .openBrace => some ['{']
  | .closeBrace => some ['}']
  | .openBracket => some ['[']
  | .closeBracket => some [']']
  | .colon => some [':']
  | .comma => some [',']
  | .null => some ['n', 'u', 'l', 'l']
  | .true => some ['t', 'r', 'u', 'e']
  | .false => some ['f', 'a', 'l', 's', 'e']
  | .text _ | .number _ | .bad => none

inductive Literal : Token → Text → Prop where
  | fixed {t : Token} {cs : List Char} (h : t.fixed? = some cs) : Literal t (cs.map Sign.char)
  | text {t : Text} {ps : List Piece} (h : Quoted t ps) :
      Literal (.text ps) (.char '"' :: (t ++ [.char '"']))
  | number {n : Number} {cs : List Char} (h : Numeral n cs) :
      Literal (.number n) (cs.map Sign.char)

/-- A text spells some tokens, with blanks around them. -/
inductive Spells : List Token → Text → Prop where
  | nil : Spells [] []
  | blank {c : Char} {ts : List Token} {t : Text} (h : isBlank c = true) (more : Spells ts t) :
      Spells ts (.char c :: t)
  | token {tok : Token} {ts : List Token} {l t : Text} (first : Literal tok l)
      (more : Spells ts t) : Spells (tok :: ts) (l ++ t)

/-- A text holds a document and nothing else. -/
def Document.HeldBy (d : Document) (t : Text) : Prop := Spells d.tokens t

theorem digit?_eq_some {c : Char} {d : Nat} (digit : digit? c = some d) :
    d < 10 ∧ c = Char.ofNat ('0'.toNat + d) := by
  unfold digit? at digit
  split at digit
  · rename_i range
    cases digit
    have low : '0'.toNat ≤ c.toNat := range.1
    have high : c.toNat ≤ '9'.toNat := range.2
    have limit : '9'.toNat = '0'.toNat + 9 := rfl
    refine ⟨by omega, ?_⟩
    rw [Nat.add_sub_cancel' low, Char.ofNat_toNat]
  · cases digit

theorem begin_of_digit {c : Char} {d : Nat} (digit : digit? c = some d) :
    begin (.char c) = ([], some (.number (.behind d) { whole := d })) := by
  obtain ⟨small, rfl⟩ := digit?_eq_some digit
  exact begin_digit d small

/-! ## From the text to the tokens -/

theorem tokensFrom_step (m : Mode) (s : Sign) (t : Text) :
    tokensFrom m (s :: t) = match step m s with
      | (ts, some m') => ts ++ tokensFrom m' t
      | (ts, none) => ts := rfl

theorem tokensFrom_unit {a b c d : Char} {i j k l : Nat} (first : hexDigit? a = some i)
    (second : hexDigit? b = some j) (third : hexDigit? c = some k) (fourth : hexDigit? d = some l)
    (ps : List Piece) (t : Text) :
    tokensFrom (.escape ps) (.char 'u' :: .char a :: .char b :: .char c :: .char d :: t) =
      tokensFrom (.text (.unit (((i * 16 + j) * 16 + k) * 16 + l) :: ps)) t := by
  have u : step (.escape ps) (.char 'u') = ([], some (.hex 4 0 ps)) := rfl
  have read : ∀ {x : Char} {e m v : Nat}, hexDigit? x = some e →
      step (.hex (m + 2) v ps) (.char x) = ([], some (.hex (m + 1) (v * 16 + e) ps)) := by
    intro x e m v hx
    simp [step, hx]
  have last : ∀ v, step (.hex 1 v ps) (.char d) =
      ([], some (.text (.unit (v * 16 + l) :: ps))) := by
    intro v
    simp [step, fourth]
  rw [tokensFrom_cons u, tokensFrom_cons (read first), tokensFrom_cons (read second),
    tokensFrom_cons (read third), tokensFrom_cons (last _)]
  simp

theorem tokensFrom_text {t : Text} {pcs : List Piece} (h : Quoted t pcs) (ps : List Piece)
    (rest : Text) : tokensFrom (.text ps) (t ++ .char '"' :: rest) =
      .text (ps.reverse ++ pcs) :: tokensFrom .between rest := by
  induction h generalizing ps with
  | nil => rw [List.append_nil]; rfl
  | @char c t pcs plain printable more ih =>
    have read : step (.text ps) (.char c) = ([], some (.text (.char c :: ps))) := by
      simp [step, plain, Nat.not_lt.mpr printable]
    rw [List.cons_append, tokensFrom_cons read, ih]
    simp
  | @stray b t pcs more ih =>
    have read : step (.text ps) (.stray b) = ([], some (.text (.stray :: ps))) := rfl
    rw [List.cons_append, tokensFrom_cons read, ih]
    simp
  | @escape x c t pcs letter more ih =>
    have read : step (.escape ps) (.char x) = ([], some (.text (.char c :: ps))) := by
      have other : x ≠ 'u' := by
        rintro rfl
        cases letter
      simp [step, other, letter]
    have backslash : step (.text ps) (.char '\\') = ([], some (.escape ps)) := rfl
    rw [List.cons_append, tokensFrom_cons backslash, List.cons_append, tokensFrom_cons read, ih]
    simp
  | @unit a b c d i j k l t pcs first second third fourth more ih =>
    have backslash : step (.text ps) (.char '\\') = ([], some (.escape ps)) := rfl
    simp only [List.cons_append]
    rw [tokensFrom_cons backslash, List.nil_append, tokensFrom_unit first second third fourth, ih]
    simp

/-- A text in front of which a number ends. -/
def Stops : Text → Prop
  | [] => True
  | s :: _ => ∃ c, s = .char c ∧ (isBlank c = true ∨ c = ',' ∨ c = ']' ∨ c = '}')

theorem tokensFrom_stops {n : Number} {p : Phase} {t : Text} (final : p.final = true)
    (h : Stops t) : tokensFrom (.number p n) t = .number n :: tokensFrom .between t := by
  cases t with
  | nil =>
    change (if p.final then [Token.number n] else [.bad]) = [.number n]
    rw [if_pos final]
  | cons s t =>
    obtain ⟨c, rfl, stop⟩ := h
    simp only [isBlank, Bool.or_eq_true, decide_eq_true_eq] at stop
    -- None of these signs continues a literal, and each is read for itself behind it.
    rcases stop with (((rfl | rfl) | rfl) | rfl) | rfl | rfl | rfl <;> cases p <;>
      first | rfl | cases final

theorem tokensFrom_ends {n n' : Number} {p : Phase} {cs : List Char} {t : Text}
    (h : Ends n p cs n') (stops : Stops t) :
    tokensFrom (.number p n) (cs.map Sign.char ++ t) = .number n' :: tokensFrom .between t := by
  induction h with
  | done final => exact tokensFrom_stops final stops
  | @next n n' n'' p p' c cs step more ih =>
    have read : Json.step (.number p n) (.char c) = ([], some (.number p' n')) := by
      simp [Json.step, step]
    rw [List.map_cons, List.cons_append, tokensFrom_cons read, ih]
    rfl

theorem tokensFrom_numeral {n : Number} {cs : List Char} {t : Text} (h : Numeral n cs)
    (stops : Stops t) :
    tokensFrom .between (cs.map Sign.char ++ t) = .number n :: tokensFrom .between t := by
  rcases numeral_iff.mp h with ⟨cs', rfl, ends⟩ | ⟨c, d, cs', rfl, digit, ends⟩
  · exact tokensFrom_ends ends stops
  · have read : step .between (.char c) = ([], some (.number (.behind d) { whole := d })) :=
      begin_of_digit digit
    rw [List.map_cons, List.cons_append, tokensFrom_cons read, tokensFrom_ends ends stops]
    rfl

theorem tokensFrom_fixed {tok : Token} {cs : List Char} (h : tok.fixed? = some cs) (t : Text) :
    tokensFrom .between (cs.map Sign.char ++ t) = tok :: tokensFrom .between t := by
  cases tok <;> cases h <;> rfl

/-- Nothing, or tokens behind which no value begins. -/
def Ending (ts : List Token) : Prop :=
  ∀ t, ts.head? = some t → t = .comma ∨ t = .closeBracket ∨ t = .closeBrace

/-- No token is bad, and none that could go on with a number stands behind one. -/
def WellSet : List Token → Prop
  | [] => True
  | .bad :: _ => False
  | .number _ :: rest => Ending rest ∧ WellSet rest
  | _ :: rest => WellSet rest

theorem WellSet.tail {tok : Token} {ts : List Token} (h : WellSet (tok :: ts)) : WellSet ts := by
  cases tok with
  | bad => exact h.elim
  | number n => exact h.2
  | _ => exact h

theorem ending_moreItems (items : List Document) (rest : List Token) :
    Ending (Document.moreItems items ++ rest) := by
  intro t h
  cases items <;> cases h
  · exact .inr (.inl rfl)
  · exact .inl rfl

theorem ending_moreMembers (members : List (List Piece × Document)) (rest : List Token) :
    Ending (Document.moreMembers members ++ rest) := by
  intro t h
  cases members <;> cases h
  · exact .inr (.inr rfl)
  · exact .inl rfl

mutual

theorem wellSet_tokens (d : Document) {rest : List Token} (ending : Ending rest)
    (h : WellSet rest) : WellSet (d.tokens ++ rest) :=
  match d with
  | .null => h
  | .bool true => h
  | .bool false => h
  | .number _ => ⟨ending, h⟩
  | .text _ => h
  | .array [] => h
  | .array (d :: items) => by
    have whole := wellSet_tokens d (ending_moreItems items rest) (wellSet_moreItems items h)
    rw [← List.append_assoc] at whole
    exact whole
  | .object [] => h
  | .object ((_, d) :: members) => by
    have whole := wellSet_tokens d (ending_moreMembers members rest) (wellSet_moreMembers members h)
    rw [← List.append_assoc] at whole
    exact whole

theorem wellSet_moreItems (items : List Document) {rest : List Token} (h : WellSet rest) :
    WellSet (Document.moreItems items ++ rest) :=
  match items with
  | [] => h
  | d :: items => by
    have whole := wellSet_tokens d (ending_moreItems items rest) (wellSet_moreItems items h)
    rw [← List.append_assoc] at whole
    exact whole

theorem wellSet_moreMembers (members : List (List Piece × Document)) {rest : List Token}
    (h : WellSet rest) : WellSet (Document.moreMembers members ++ rest) :=
  match members with
  | [] => h
  | (_, d) :: members => by
    have whole := wellSet_tokens d (ending_moreMembers members rest) (wellSet_moreMembers members h)
    rw [← List.append_assoc] at whole
    exact whole

end

theorem stops_of_spells {ts : List Token} {t : Text} (h : Spells ts t) (ending : Ending ts) :
    Stops t := by
  cases h with
  | nil => trivial
  | blank blank _ => exact ⟨_, rfl, .inl blank⟩
  | @token tok ts l t first _ =>
    rcases ending tok rfl with rfl | rfl | rfl
    · cases first with
      | fixed h => cases h; exact ⟨_, rfl, .inr (.inl rfl)⟩
    · cases first with
      | fixed h => cases h; exact ⟨_, rfl, .inr (.inr (.inl rfl))⟩
    · cases first with
      | fixed h => cases h; exact ⟨_, rfl, .inr (.inr (.inr rfl))⟩

theorem tokens_of_spells {ts : List Token} {t : Text} (h : Spells ts t) (well : WellSet ts) :
    tokens t = ts := by
  induction h with
  | nil => rfl
  | @blank c ts t blank more ih =>
    have read : step .between (.char c) = ([], some .between) := if_pos blank
    rw [tokens, tokensFrom_cons read]
    exact ih well
  | @token tok ts l t first more ih =>
    have behind : tokensFrom .between t = ts := ih well.tail
    cases first with
    | fixed h => exact (tokensFrom_fixed h t).trans (by rw [behind])
    | @text l ps h =>
      have quote : step .between (.char '"') = ([], some (.text [])) := rfl
      rw [tokens, List.cons_append, tokensFrom_cons quote, List.append_assoc]
      exact (tokensFrom_text h [] t).trans (by rw [behind]; rfl)
    | number h =>
      exact (tokensFrom_numeral h (stops_of_spells more well.1)).trans (by rw [behind])

/-! ## From the tokens to the text -/

theorem bad_of_step {m : Mode} {s : Sign} (h : step m s = ([.bad], none)) (t : Text) :
    Token.bad ∈ tokensFrom m (s :: t) := by
  rw [tokensFrom_step, h]
  exact List.mem_singleton.mpr rfl

theorem word_of_tokens {c : Char} {rest : List Char} {tok : Token} {t : Text}
    (good : .bad ∉ tokensFrom (.word (c :: rest) tok) t) :
    ∃ t', t = (c :: rest).map Sign.char ++ t' ∧
      tokensFrom (.word (c :: rest) tok) t = tok :: tokensFrom .between t' := by
  induction rest generalizing c t with
  | nil =>
    cases t with
    | nil => exact absurd (List.mem_singleton.mpr rfl) good
    | cons s t =>
      cases s with
      | stray b => exact absurd (bad_of_step rfl t) good
      | char x =>
        by_cases same : x = c
        · have read : step (.word [c] tok) (.char x) = ([tok], some .between) := if_pos same
          subst same
          exact ⟨t, rfl, tokensFrom_cons read t⟩
        · have wrong : step (.word [c] tok) (.char x) = ([.bad], none) := if_neg same
          exact absurd (bad_of_step wrong t) good
  | cons d rest ih =>
    cases t with
    | nil => exact absurd (List.mem_singleton.mpr rfl) good
    | cons s t =>
      cases s with
      | stray b => exact absurd (bad_of_step rfl t) good
      | char x =>
        by_cases same : x = c
        · have read : step (.word (c :: d :: rest) tok) (.char x) =
              ([], some (.word (d :: rest) tok)) := if_pos same
          rw [tokensFrom_cons read] at good ⊢
          obtain ⟨t', rfl, tokens⟩ := ih good
          subst same
          exact ⟨t', rfl, tokens⟩
        · have wrong : step (.word (c :: d :: rest) tok) (.char x) = ([.bad], none) := if_neg same
          exact absurd (bad_of_step wrong t) good

/-- Behind a number the next token begins as it does between tokens. -/
theorem tokensFrom_ended {n : Number} {p : Phase} {c : Char} (next : n.next c p = none)
    (ended : Number.ends p c = true) (t : Text) : tokensFrom (.number p n) (.char c :: t) =
      .number n :: tokensFrom .between (.char c :: t) := by
  have read : step (.number p n) (.char c) =
      (.number n :: (begin (.char c)).1, (begin (.char c)).2) := by
    simp [step, next, ended]
  rw [tokensFrom_step, read, tokensFrom_step]
  change _ = .number n :: match begin (.char c) with
    | (ts, some m') => ts ++ tokensFrom m' t
    | (ts, none) => ts
  obtain ⟨ts, m'⟩ := begin (.char c)
  cases m' <;> rfl

theorem ends_of_tokens {n : Number} {p : Phase} {t : Text}
    (good : .bad ∉ tokensFrom (.number p n) t) :
    ∃ cs t' n', t = cs.map Sign.char ++ t' ∧ Ends n p cs n' ∧
      tokensFrom (.number p n) t = .number n' :: tokensFrom .between t' := by
  induction t generalizing n p with
  | nil =>
    cases final : p.final with
    | true => exact ⟨[], [], n, rfl, .done final, if_pos final⟩
    | false =>
      have bad : tokensFrom (.number p n) [] = [.bad] := if_neg (by rw [final]; decide)
      exact absurd (bad ▸ List.mem_singleton.mpr rfl) good
  | cons s t ih =>
    cases s with
    | stray b =>
      cases final : p.final with
      | true =>
        have read : step (.number p n) (.stray b) = ([.number n, .bad], none) := if_pos final
        rw [tokensFrom_step, read] at good
        exact absurd (List.mem_cons_of_mem _ (List.mem_singleton.mpr rfl)) good
      | false =>
        have wrong : step (.number p n) (.stray b) = ([.bad], none) :=
          if_neg (by rw [final]; decide)
        exact absurd (bad_of_step wrong t) good
    | char c =>
      cases next : n.next c p with
      | some r =>
        obtain ⟨p', n'⟩ := r
        have read : step (.number p n) (.char c) = ([], some (.number p' n')) := by
          simp [step, next]
        rw [tokensFrom_cons read] at good ⊢
        obtain ⟨cs, t', n'', rfl, ends, tokens⟩ := ih good
        exact ⟨c :: cs, t', n'', rfl, .next next ends, tokens⟩
      | none =>
        cases ended : Number.ends p c with
        | true =>
          have final : p.final = true := (Bool.and_eq_true_iff.mp ended).1
          exact ⟨[], .char c :: t, n, rfl, .done final, tokensFrom_ended next ended t⟩
        | false =>
          have read : step (.number p n) (.char c) = ([.bad], none) := by
            simp [step, next, ended]
          exact absurd (bad_of_step read t) good

/-- One of the four digits behind `\u`, of which at least one is missing. -/
theorem hex_of_tokens {m v : Nat} {ps : List Piece} {t : Text}
    (good : .bad ∉ tokensFrom (.hex m v ps) t) :
    ∃ c d t', t = .char c :: t' ∧ hexDigit? c = some d ∧ tokensFrom (.hex m v ps) t =
      tokensFrom (if m ≤ 1 then .text (.unit (v * 16 + d) :: ps)
        else .hex (m - 1) (v * 16 + d) ps) t' := by
  cases t with
  | nil => exact absurd (List.mem_singleton.mpr rfl) good
  | cons s t =>
    cases s with
    | stray b => exact absurd (bad_of_step rfl t) good
    | char c =>
      cases digit : hexDigit? c with
      | none =>
        have wrong : step (.hex m v ps) (.char c) = ([.bad], none) := by
          simp [step, digit]
        exact absurd (bad_of_step wrong t) good
      | some d =>
        have read : step (.hex m v ps) (.char c) =
            ([], some (if m ≤ 1 then .text (.unit (v * 16 + d) :: ps)
              else .hex (m - 1) (v * 16 + d) ps)) := by
          by_cases last : m ≤ 1 <;> simp [step, digit, last]
        exact ⟨c, d, t, rfl, digit, tokensFrom_cons read t⟩

theorem escape_of_tokens {ps : List Piece} {t : Text}
    (good : .bad ∉ tokensFrom (.escape ps) t) :
    ∃ esc piece t', t = esc ++ t' ∧
      (∀ {l : Text} {pcs : List Piece}, Quoted l pcs →
        Quoted (.char '\\' :: (esc ++ l)) (piece :: pcs)) ∧
      tokensFrom (.escape ps) t = tokensFrom (.text (piece :: ps)) t' := by
  cases t with
  | nil => exact absurd (List.mem_singleton.mpr rfl) good
  | cons s t =>
    cases s with
    | stray b => exact absurd (bad_of_step rfl t) good
    | char x =>
      by_cases u : x = 'u'
      · have read : step (.escape ps) (.char x) = ([], some (.hex 4 0 ps)) := if_pos u
        subst u
        rw [tokensFrom_cons read, List.nil_append] at good ⊢
        obtain ⟨a, i, t, rfl, first, tokens⟩ := hex_of_tokens good
        change _ = tokensFrom (.hex 3 (0 * 16 + i) ps) t at tokens
        rw [tokens, Nat.zero_mul, Nat.zero_add] at good ⊢
        obtain ⟨b, j, t, rfl, second, tokens⟩ := hex_of_tokens good
        change _ = tokensFrom (.hex 2 (i * 16 + j) ps) t at tokens
        rw [tokens] at good ⊢
        obtain ⟨c, k, t, rfl, third, tokens⟩ := hex_of_tokens good
        change _ = tokensFrom (.hex 1 ((i * 16 + j) * 16 + k) ps) t at tokens
        rw [tokens] at good ⊢
        obtain ⟨d, l, t, rfl, fourth, tokens⟩ := hex_of_tokens good
        exact ⟨[.char 'u', .char a, .char b, .char c, .char d], _, t, rfl,
          .unit first second third fourth, tokens⟩
      · cases letter : escaped? x with
        | some c =>
          have read : step (.escape ps) (.char x) = ([], some (.text (.char c :: ps))) := by
            simp [step, u, letter]
          exact ⟨[.char x], .char c, t, rfl, .escape letter, tokensFrom_cons read t⟩
        | none =>
          have wrong : step (.escape ps) (.char x) = ([.bad], none) := by
            simp [step, u, letter]
          exact absurd (bad_of_step wrong t) good

theorem quoted_of_tokens {ps : List Piece} {t : Text}
    (good : .bad ∉ tokensFrom (.text ps) t) :
    ∃ l pcs t', t = l ++ .char '"' :: t' ∧ Quoted l pcs ∧
      tokensFrom (.text ps) t = .text (ps.reverse ++ pcs) :: tokensFrom .between t' := by
  induction hn : t.length using Nat.strongRecOn generalizing ps t with
  | ind n ih =>
    subst hn
    cases t with
    | nil => exact absurd (List.mem_singleton.mpr rfl) good
    | cons s t =>
      cases s with
      | stray b =>
        have read : step (.text ps) (.stray b) = ([], some (.text (.stray :: ps))) := rfl
        rw [tokensFrom_cons read] at good ⊢
        obtain ⟨l, pcs, t', rfl, quoted, tokens⟩ := ih _ (by grind) good rfl
        exact ⟨.stray b :: l, .stray :: pcs, t', rfl, .stray quoted, by simp [tokens]⟩
      | char c =>
        by_cases quote : c = '"'
        · have read : step (.text ps) (.char c) = ([.text ps.reverse], some .between) :=
            if_pos quote
          subst quote
          refine ⟨[], [], t, rfl, .nil, ?_⟩
          rw [tokensFrom_cons read, List.append_nil]
          rfl
        by_cases backslash : c = '\\'
        · have read : step (.text ps) (.char c) = ([], some (.escape ps)) := by
            simp [step, backslash]
          subst backslash
          rw [tokensFrom_cons read, List.nil_append] at good ⊢
          obtain ⟨esc, piece, t, rfl, escaped, tokens⟩ := escape_of_tokens good
          rw [tokens] at good ⊢
          obtain ⟨l, pcs, t', rfl, quoted, tokens⟩ := ih _ (by grind) good rfl
          refine ⟨.char '\\' :: (esc ++ l), piece :: pcs, t', ?_, escaped quoted, ?_⟩
          · rw [List.cons_append, List.append_assoc]
          · rw [tokens, List.reverse_cons, List.append_assoc]
            rfl
        by_cases control : c.toNat < 0x20
        · have wrong : step (.text ps) (.char c) = ([.bad], none) := by
            simp [step, quote, backslash, control]
          exact absurd (bad_of_step wrong t) good
        · have read : step (.text ps) (.char c) = ([], some (.text (.char c :: ps))) := by
            simp [step, quote, backslash, control]
          rw [tokensFrom_cons read] at good ⊢
          obtain ⟨l, pcs, t', rfl, quoted, tokens⟩ := ih _ (by grind) good rfl
          refine ⟨.char c :: l, .char c :: pcs, t', rfl, ?_, by simp [tokens]⟩
          exact .char ⟨quote, backslash⟩ (Nat.le_of_not_lt control) quoted

/-- What a character between tokens begins, if it is no blank. -/
inductive Begins (c : Char) : List Token × Option Mode → Prop where
  | mark {tok : Token} (fixed : tok.fixed? = some [c]) : Begins c ([tok], some .between)
  | word {d : Char} {rest : List Char} {tok : Token} (fixed : tok.fixed? = some (c :: d :: rest)) :
      Begins c ([], some (.word (d :: rest) tok))
  | quote (h : c = '"') : Begins c ([], some (.text []))
  | number {p : Phase} {n : Number}
      (numeral : ∀ {cs : List Char} {n' : Number}, Ends n p cs n' → Numeral n' (c :: cs)) :
      Begins c ([], some (.number p n))
  | bad : Begins c ([.bad], none)

theorem begins_begin {c : Char} (filled : ¬ isBlank c = true) : Begins c (begin (.char c)) := by
  unfold begin
  dsimp only
  rw [if_neg filled]
  split
  · exact .mark rfl
  · exact .mark rfl
  · exact .mark rfl
  · exact .mark rfl
  · exact .mark rfl
  · exact .mark rfl
  · exact .quote rfl
  · exact .word rfl
  · exact .word rfl
  · exact .word rfl
  · exact .number fun ends => numeral_iff.mpr (.inl ⟨_, rfl, ends⟩)
  · split
    · rename_i d digit
      exact .number fun ends => numeral_iff.mpr (.inr ⟨_, d, _, rfl, digit, ends⟩)
    · exact .bad

theorem spells_tokens {t : Text} (good : .bad ∉ tokens t) : Spells (tokens t) t := by
  unfold tokens at good ⊢
  induction hn : t.length using Nat.strongRecOn generalizing t with
  | ind n ih =>
    subst hn
    cases t with
    | nil => exact .nil
    | cons s t =>
      cases s with
      | stray b => exact absurd (bad_of_step rfl t) good
      | char c =>
        by_cases blank : isBlank c = true
        · have read : step .between (.char c) = ([], some .between) := if_pos blank
          rw [tokensFrom_cons read, List.nil_append] at good ⊢
          exact .blank blank (ih _ (by grind) good rfl)
        have behind : ∀ {tok : Token} {t' : Text}, t'.length ≤ t.length →
            .bad ∉ tok :: tokensFrom .between t' → Spells (tokensFrom .between t') t' :=
          fun le good =>
            ih _ (Nat.lt_succ_of_le le) (fun bad => good (List.mem_cons_of_mem _ bad)) rfl
        have begun := begins_begin blank
        generalize read : begin (.char c) = r at begun
        change step .between (.char c) = r at read
        cases begun with
        | @mark tok fixed =>
          rw [tokensFrom_cons read] at good ⊢
          exact .token (.fixed fixed) (behind (Nat.le_refl _) good)
        | @word d rest tok fixed =>
          rw [tokensFrom_cons read, List.nil_append] at good ⊢
          obtain ⟨t', rfl, tokens⟩ := word_of_tokens good
          rw [tokens] at good ⊢
          exact .token (.fixed fixed) (behind (by grind) good)
        | quote h =>
          subst h
          rw [tokensFrom_cons read, List.nil_append] at good ⊢
          obtain ⟨l, pcs, t', rfl, quoted, tokens⟩ := quoted_of_tokens good
          rw [tokens] at good ⊢
          have whole := Spells.token (.text quoted) (behind (by grind) good)
          rw [List.cons_append, List.append_assoc] at whole
          exact whole
        | number numeral =>
          rw [tokensFrom_cons read, List.nil_append] at good ⊢
          obtain ⟨cs, t', n', rfl, ends, tokens⟩ := ends_of_tokens good
          rw [tokens] at good ⊢
          exact .token (.number (numeral ends)) (behind (by grind) good)
        | bad => exact absurd (bad_of_step read t) good

theorem WellSet.not_bad {ts : List Token} (h : WellSet ts) : .bad ∉ ts := by
  induction ts with
  | nil => exact List.not_mem_nil
  | cons tok ts ih =>
    intro bad
    rcases List.mem_cons.mp bad with rfl | bad
    · exact h
    · exact ih h.tail bad

/-- The tokens of a text are those of a document exactly if it holds the document. -/
theorem heldBy_iff (d : Document) (t : Text) : d.HeldBy t ↔ tokens t = d.tokens := by
  have well : WellSet d.tokens := by
    have whole : WellSet (d.tokens ++ []) := wellSet_tokens d (fun _ h => nomatch h) trivial
    rwa [List.append_nil] at whole
  constructor
  · exact fun h => tokens_of_spells h well
  · intro same
    have spelled := spells_tokens (t := t) (by rw [same]; exact well.not_bad)
    rwa [same] at spelled

theorem Document.HeldBy.unique {d d' : Document} {t : Text} (held : d.HeldBy t)
    (held' : d'.HeldBy t) : d = d' := by
  rw [heldBy_iff] at held held'
  have same : d.tokens ++ [] = d'.tokens ++ [] := by
    rw [List.append_nil, List.append_nil, ← held, held']
  exact Document.eq_of_tokens d d' same

end WalletWatch.Json
