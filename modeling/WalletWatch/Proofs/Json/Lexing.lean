import WalletWatch.Json.Token
import WalletWatch.Json.Value

set_option autoImplicit false

/-!
# The tokens of a printed value

What the lexer makes of the text of a value, whatever text follows that cannot continue a number.
The tokens of a value are defined by recursion over the value, beside its text.
-/

namespace WalletWatch.Json

/-! ## Runs of the lexer -/

/-- From one mode, some characters complete some tokens and lead to another mode. -/
def Lexes (m : Mode) (cs : List Char) (ts : List Token) (m' : Mode) : Prop :=
  ∀ rest : Text, tokensFrom m (cs.map Sign.char ++ rest) = ts ++ tokensFrom m' rest

theorem Lexes.nil (m : Mode) : Lexes m [] [] m := fun _ => rfl

theorem tokensFrom_cons {m m' : Mode} {s : Sign} {ts : List Token} (h : step m s = (ts, some m'))
    (rest : Text) : tokensFrom m (s :: rest) = ts ++ tokensFrom m' rest := by
  simp only [tokensFrom, h]

theorem Lexes.cons {m m' m'' : Mode} {c : Char} {cs : List Char} {ts ts' : List Token}
    (h : step m (.char c) = (ts, some m')) (h' : Lexes m' cs ts' m'') :
    Lexes m (c :: cs) (ts ++ ts') m'' := by
  intro rest
  rw [List.map_cons, List.cons_append, tokensFrom_cons h, h' rest, List.append_assoc]

theorem Lexes.append {m m' m'' : Mode} {cs cs' : List Char} {ts ts' : List Token}
    (h : Lexes m cs ts m') (h' : Lexes m' cs' ts' m'') :
    Lexes m (cs ++ cs') (ts ++ ts') m'' := by
  intro rest
  have first := h (cs'.map Sign.char ++ rest)
  rw [h' rest] at first
  rw [List.map_append, List.append_assoc, first, List.append_assoc]

theorem Lexes.silent {m m' m'' : Mode} {c : Char} {cs : List Char} {ts : List Token}
    (h : step m (.char c) = ([], some m')) (h' : Lexes m' cs ts m'') : Lexes m (c :: cs) ts m'' :=
  .cons h h'

theorem Lexes.one {m m' : Mode} {c : Char} {ts : List Token}
    (h : step m (.char c) = (ts, some m')) : Lexes m [c] ts m' := by
  have whole := Lexes.cons h (Lexes.nil m')
  rwa [List.append_nil] at whole

/-! ## Strings -/

/-- The controls that have an escape of their own. -/
def shortControls : List Char := ['\x08', '\x0c', '\n', '\r', '\t']

/-- What a character becomes in a printed literal: a code unit, if it is a control without an escape
of its own. -/
def pieceOf (c : Char) : Piece :=
  if c.toNat < 0x20 ∧ c ∉ shortControls then .unit c.toNat else .char c

/-- The pieces of the literal of a string. -/
def spelling (s : String) : List Piece := s.toList.map pieceOf

theorem hexDigit?_hexDigit : ∀ n < 16, hexDigit? (hexDigit n) = some n := by decide

theorem lexes_hex (n : Nat) (h : n < 0x20) (ps : List Piece) :
    Lexes (.escape ps) ['u', '0', '0', hexDigit (n / 16), hexDigit (n % 16)] []
      (.text (.unit n :: ps)) := by
  have high : hexDigit? (hexDigit (n / 16)) = some (n / 16) := hexDigit?_hexDigit _ (by omega)
  have low : hexDigit? (hexDigit (n % 16)) = some (n % 16) := hexDigit?_hexDigit _ (by omega)
  have third : step (.hex 2 0 ps) (.char (hexDigit (n / 16))) =
      ([], some (.hex 1 (n / 16) ps)) := by
    simp [step, high]
  have fourth : step (.hex 1 (n / 16) ps) (.char (hexDigit (n % 16))) =
      ([], some (.text (.unit n :: ps))) := by
    have value : n / 16 * 16 + n % 16 = n := by omega
    simp [step, low, value]
  exact .silent rfl (.silent rfl (.silent rfl (.silent third (.one fourth))))

theorem lexes_escape (c : Char) (ps : List Piece) :
    Lexes (.text ps) (escape c) [] (.text (pieceOf c :: ps)) := by
  have short : ∀ x d : Char, escaped? x = some d → x ≠ 'u' → pieceOf d = .char d →
      Lexes (.text ps) ['\\', x] [] (.text (pieceOf d :: ps)) := by
    intro x d hx hu hd
    have second : step (.escape ps) (.char x) = ([], some (.text (pieceOf d :: ps))) := by
      simp [step, hu, hx, hd]
    exact .silent rfl (.one second)
  unfold escape
  split
  · subst c
    exact short '"' '"' rfl (by decide) rfl
  split
  · subst c
    exact short '\\' '\\' rfl (by decide) rfl
  split
  · subst c
    exact short 'b' '\x08' rfl (by decide) rfl
  split
  · subst c
    exact short 'f' '\x0c' rfl (by decide) rfl
  split
  · subst c
    exact short 'n' '\n' rfl (by decide) rfl
  split
  · subst c
    exact short 'r' '\r' rfl (by decide) rfl
  split
  · subst c
    exact short 't' '\t' rfl (by decide) rfl
  rename_i quote backslash backspace feed newline carriage tab
  have long : c ∉ shortControls := by
    simp only [shortControls, List.mem_cons, List.not_mem_nil, or_false, not_or]
    exact ⟨backspace, feed, newline, carriage, tab⟩
  split
  · rename_i control
    have unit : pieceOf c = .unit c.toNat := if_pos ⟨control, long⟩
    rw [unit]
    exact .silent rfl (lexes_hex c.toNat control ps)
  · rename_i plain
    have self : pieceOf c = .char c := if_neg fun h => plain h.1
    rw [self]
    exact .one (by simp [step, quote, backslash, plain])

theorem lexes_escapes (cs : List Char) (ps : List Piece) :
    Lexes (.text ps) (cs.flatMap escape) [] (.text ((cs.map pieceOf).reverse ++ ps)) := by
  induction cs generalizing ps with
  | nil => exact .nil _
  | cons c cs ih =>
    have whole := (lexes_escape c ps).append (ih (pieceOf c :: ps))
    simpa using whole

theorem lexes_quote (s : String) : Lexes .between (quote s) [.text (spelling s)] .between := by
  have inside := lexes_escapes s.toList []
  have closing : step (.text ((s.toList.map pieceOf).reverse ++ [])) (.char '"') =
      ([.text (spelling s)], some .between) := by
    simp [step, spelling]
  exact .silent rfl (inside.append (.one closing))

theorem chars?_unit {n : Nat} (h : n < 0x20) (ps : List Piece) :
    chars? (.unit n :: ps) = (chars? ps).map (Char.ofNat n :: ·) := by
  have high : isHigh n = false := by simp [isHigh]; omega
  have low : isLow n = false := by simp [isLow]; omega
  cases ps with
  | nil => simp [chars?, high, low]
  | cons p ps => cases p <;> simp [chars?, high, low]

theorem chars?_spelling (cs : List Char) : chars? (cs.map pieceOf) = some cs := by
  induction cs with
  | nil => rfl
  | cons c cs ih =>
    by_cases h : c.toNat < 0x20 ∧ c ∉ shortControls
    · have unit : pieceOf c = .unit c.toNat := if_pos h
      rw [List.map_cons, unit, chars?_unit h.1, ih, Option.map_some, Char.ofNat_toNat]
    · have self : pieceOf c = .char c := if_neg h
      rw [List.map_cons, self]
      simp [chars?, ih]

@[simp] theorem string?_spelling (s : String) : string? (spelling s) = some s := by
  simp [string?, spelling, chars?_spelling]

/-! ## Numbers -/

/-- A whole number as it is read. -/
def Number.ofInt (z : Int) : Number := { negative := z < 0, whole := z.natAbs }

@[simp] theorem Number.int?_ofInt (z : Int) : (ofInt z).int? = some z := by
  by_cases neg : z < 0
  · have magnitude : z.natAbs ≠ 0 := by omega
    have value : -(z.natAbs : Int) = z := by omega
    have read : (ofInt z).int? = some (-(z.natAbs : Int)) := by
      simp [ofInt, int?, neg, magnitude]
    rw [read, value]
  · have value : (z.natAbs : Int) = z := by omega
    have read : (ofInt z).int? = some (z.natAbs : Int) := by
      simp [ofInt, int?, neg]
    rw [read, value]

/-- The phase of a literal behind its first digit. -/
def Phase.behind (d : Nat) : Phase := if d = 0 then .zero else .whole

theorem digit?_digit : ∀ d < 10, digit? (Char.ofNat ('0'.toNat + d)) = some d := by decide

theorem begin_digit : ∀ d < 10, begin (.char (Char.ofNat ('0'.toNat + d))) =
    ([], some (.number (.behind d) { whole := d })) := by decide

theorem next_minus_digit : ∀ d < 10, step (.number .minus { negative := true })
    (.char (Char.ofNat ('0'.toNat + d))) =
      ([], some (.number (.behind d) { negative := true, whole := d })) := by decide

/-- The digits of a positive number, from a mode in which a first digit starts a literal. -/
theorem lexes_digits {m : Mode} {sign : Bool}
    (first : ∀ d < 10, step m (.char (Char.ofNat ('0'.toNat + d))) =
      ([], some (.number (.behind d) { negative := sign, whole := d })))
    (n : Nat) :
    Lexes m (natDigits n) [] (.number (.behind n) { negative := sign, whole := n }) := by
  induction n using Nat.strongRecOn with
  | ind n ih =>
    unfold natDigits
    split
    · rename_i small
      exact .one (first n small)
    · rename_i large
      -- What stands in front of the last digit is no zero, so the literal may go on behind it.
      have front := ih (n / 10) (by omega)
      have phase : Phase.behind (n / 10) = .whole := if_neg (by omega)
      have phase' : Phase.behind n = .whole := if_neg (by omega)
      have value : n / 10 * 10 + n % 10 = n := by omega
      rw [phase] at front
      rw [phase']
      have digit := digit?_digit (n % 10) (by omega)
      have last : step (.number .whole { negative := sign, whole := n / 10 })
          (.char (Char.ofNat ('0'.toNat + n % 10))) =
            ([], some (.number .whole { negative := sign, whole := n })) := by
        simp only [step, Number.next, digit, Number.push, value]
      exact front.append (.one last)

theorem lexes_intDigits (z : Int) :
    Lexes .between (intDigits z) [] (.number (.behind z.natAbs) (.ofInt z)) := by
  unfold intDigits
  split
  · rename_i neg
    have digits := lexes_digits next_minus_digit z.natAbs
    have same : Number.ofInt z = { negative := true, whole := z.natAbs } := by
      simp [Number.ofInt, neg]
    rw [same]
    exact .silent rfl digits
  · rename_i nonneg
    have digits := lexes_digits (m := .between) begin_digit z.natAbs
    have same : Number.ofInt z = { whole := z.natAbs } := by
      simp [Number.ofInt, nonneg]
    rw [same]
    exact digits

/-- A text that does not continue a value in front of it. -/
def Delimited : Text → Prop
  | [] => True
  | s :: _ => s = .char ',' ∨ s = .char ']' ∨ s = .char '}'

theorem tokensFrom_number (d : Nat) (n : Number) {rest : Text} (h : Delimited rest) :
    tokensFrom (.number (.behind d) n) rest = .number n :: tokensFrom .between rest := by
  have final : (Phase.behind d).final = true := by
    unfold Phase.behind
    split <;> rfl
  cases rest with
  | nil =>
    change (if (Phase.behind d).final then [Token.number n] else [.bad]) = [.number n]
    rw [if_pos final]
  | cons s rest =>
    by_cases hd : d = 0
    · have phase : Phase.behind d = .zero := if_pos hd
      rw [phase]
      rcases h with rfl | rfl | rfl <;> rfl
    · have phase : Phase.behind d = .whole := if_neg hd
      rw [phase]
      rcases h with rfl | rfl | rfl <;> rfl

/-! ## Values -/

namespace Value

mutual

/-- The tokens of a value. -/
def tokens : Value → List Token
  | null => [.null]
  | bool true => [.true]
  | bool false => [.false]
  | int z => [.number (.ofInt z)]
  | string s => [.text (spelling s)]
  | array [] => [.openBracket, .closeBracket]
  | array (v :: items) => .openBracket :: (v.tokens ++ moreItems items)
  | object [] => [.openBrace, .closeBrace]
  | object ((k, v) :: members) =>
    .openBrace :: .text (spelling k) :: .colon :: (v.tokens ++ moreMembers members)

/-- The tokens of the items of a list behind an item before them. -/
def moreItems : List Value → List Token
  | [] => [.closeBracket]
  | v :: items => .comma :: (v.tokens ++ moreItems items)

/-- The tokens of the members of an object behind a member before them. -/
def moreMembers : List (String × Value) → List Token
  | [] => [.closeBrace]
  | (k, v) :: members =>
    .comma :: .text (spelling k) :: .colon :: (v.tokens ++ moreMembers members)

end

/-- The text of a value is read as its tokens. What follows must not continue it, as only the next
sign ends a number. -/
def Legible (v : Value) : Prop :=
  ∀ rest, Delimited rest →
    tokensFrom .between (v.print.map Sign.char ++ rest) = v.tokens ++ tokensFrom .between rest

theorem legible_int (z : Int) : (int z).Legible := by
  intro rest h
  have digits := lexes_intDigits z rest
  rw [tokensFrom_number _ _ h] at digits
  exact digits

theorem Legible.followed {v : Value} (h : v.Legible) (cs : List Char) {c : Char} {t : Token}
    (delimits : c = ',' ∨ c = ']' ∨ c = '}') (one : begin (.char c) = ([t], some .between))
    {ts : List Token} {rest : Text}
    (behind : tokensFrom .between (cs.map Sign.char ++ rest) = ts) :
    tokensFrom .between ((v.print ++ c :: cs).map Sign.char ++ rest) = v.tokens ++ t :: ts := by
  have delimited : Delimited (.char c :: (cs.map Sign.char ++ rest)) := by
    rcases delimits with rfl | rfl | rfl
    · exact .inl rfl
    · exact .inr (.inl rfl)
    · exact .inr (.inr rfl)
  -- The mark ends a number, should the value be one, and is then read as a token of its own.
  have mark : tokensFrom .between (.char c :: (cs.map Sign.char ++ rest)) = t :: ts := by
    have first : step .between (.char c) = ([t], some .between) := one
    rw [tokensFrom_cons first, behind]
    rfl
  have whole := h _ delimited
  rw [mark] at whole
  rw [List.map_append, List.append_assoc]
  exact whole

theorem tokensFrom_printItems {v : Value} {items : List Value} (hv : v.Legible)
    (hitems : ∀ w ∈ items, w.Legible) (rest : Text) :
    tokensFrom .between ((printItems (v :: items)).map Sign.char ++ rest) =
      v.tokens ++ (moreItems items ++ tokensFrom .between rest) := by
  induction items generalizing v with
  | nil => exact hv.followed [] (.inr (.inl rfl)) rfl rfl
  | cons w items ih =>
    have behind := ih (hitems w List.mem_cons_self) fun x hx => hitems x (List.mem_cons_of_mem w hx)
    have whole := hv.followed _ (.inl rfl) rfl behind
    rw [← List.append_assoc w.tokens] at whole
    exact whole

theorem tokensFrom_member (k : String) (v : Value) (cs : List Char) {ts : List Token} {rest : Text}
    (h : tokensFrom .between ((v.print ++ cs).map Sign.char ++ rest) = ts) :
    tokensFrom .between ((quote k ++ ':' :: v.print ++ cs).map Sign.char ++ rest) =
      .text (spelling k) :: .colon :: ts := by
  have key := lexes_quote k (.char ':' :: ((v.print ++ cs).map Sign.char ++ rest))
  have colon : tokensFrom .between (.char ':' :: ((v.print ++ cs).map Sign.char ++ rest)) =
      .colon :: tokensFrom .between ((v.print ++ cs).map Sign.char ++ rest) := rfl
  rw [colon, h] at key
  rw [List.append_assoc, List.map_append, List.append_assoc]
  exact key

theorem tokensFrom_printMembers {k : String} {v : Value} {members : List (String × Value)}
    (hv : v.Legible) (hmembers : ∀ m ∈ members, m.2.Legible) (rest : Text) :
    tokensFrom .between ((printMembers ((k, v) :: members)).map Sign.char ++ rest) =
      .text (spelling k) :: .colon :: (v.tokens ++
        (moreMembers members ++ tokensFrom .between rest)) := by
  induction members generalizing k v with
  | nil =>
    apply tokensFrom_member
    exact hv.followed [] (.inr (.inr rfl)) rfl rfl
  | cons m members ih =>
    obtain ⟨l, w⟩ := m
    have behind := ih (k := l) (hmembers (l, w) List.mem_cons_self)
      fun x hx => hmembers x (List.mem_cons_of_mem _ hx)
    have value := hv.followed _ (.inl rfl) rfl behind
    have whole := tokensFrom_member k v _ value
    rw [← List.append_assoc w.tokens] at whole
    exact whole

theorem legible : ∀ v : Value, v.Legible
  | null => fun _ _ => rfl
  | bool true => fun _ _ => rfl
  | bool false => fun _ _ => rfl
  | int z => legible_int z
  | string s => fun rest _ => lexes_quote s rest
  | array [] => fun _ _ => rfl
  | array (v :: items) => by
    intro rest _
    -- The items are values inside a list of them, which is why the recursion is on the size.
    have behind : ∀ w ∈ items, w.Legible := fun w _ => legible w
    have inside := tokensFrom_printItems (legible v) behind rest
    change Token.openBracket ::
      tokensFrom .between ((printItems (v :: items)).map .char ++ rest) = _
    rw [inside, ← List.append_assoc]
    rfl
  | object [] => fun _ _ => rfl
  | object ((k, v) :: members) => by
    intro rest _
    have behind : ∀ m ∈ members, m.2.Legible := fun m _ => legible m.2
    have inside := tokensFrom_printMembers (k := k) (legible v) behind rest
    change Token.openBrace ::
      tokensFrom .between ((printMembers ((k, v) :: members)).map .char ++ rest) = _
    rw [inside, ← List.append_assoc]
    rfl
termination_by v => sizeOf v
decreasing_by
  · rename_i mem
    have smaller := List.sizeOf_lt_of_mem mem
    simp only [array.sizeOf_spec, List.cons.sizeOf_spec]
    omega
  · simp only [array.sizeOf_spec, List.cons.sizeOf_spec]
    omega
  · rename_i mem
    have smaller := List.sizeOf_lt_of_mem mem
    obtain ⟨l, w⟩ := m
    simp only [Prod.mk.sizeOf_spec] at smaller
    simp only [object.sizeOf_spec, List.cons.sizeOf_spec]
    omega
  · simp only [object.sizeOf_spec, List.cons.sizeOf_spec, Prod.mk.sizeOf_spec]
    omega

theorem tokens_render (v : Value) : Json.tokens (Text.ofString v.render) = v.tokens := by
  have whole := v.legible [] trivial
  have ends : tokensFrom .between [] = [] := rfl
  rw [ends, List.append_nil, List.append_nil] at whole
  rw [Json.tokens, Text.ofString, render, String.toList_ofList]
  exact whole

end Value

end WalletWatch.Json
