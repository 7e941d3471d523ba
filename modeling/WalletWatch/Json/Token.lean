import WalletWatch.Text.Utf8

set_option autoImplicit false

/-!
# JSON tokens

The lexical level of JSON: a text is cut into tokens, with nothing left over but blanks. The first
sign that can begin or continue no token becomes the token `bad`, and nothing behind it is read, so
a reader of tokens meets an error of form only where the text has one.
-/

namespace WalletWatch.Json

/-- What a string literal is made of. An escaped code unit stands apart from characters, since two
of them may make one character and some make none. -/
inductive Piece where
  | char (c : Char)
  | unit (n : Nat)
  | stray
  deriving DecidableEq, Repr

structure Number where
  negative : Bool := false
  whole : Nat := 0
  fraction : Option (Nat × Nat) := none
  exponent : Option (Bool × Nat) := none
  deriving DecidableEq, Repr

inductive Token where
  | openBrace
  | closeBrace
  | openBracket
  | closeBracket
  | colon
  | comma
  | null
  | true
  | false
  | text (pieces : List Piece)
  | number (n : Number)
  | bad
  deriving DecidableEq, Repr

inductive Phase where
  | minus
  | zero
  | whole
  | point
  | fraction
  | mark
  | sign
  | exponent
  deriving DecidableEq, Repr

namespace Phase

def final : Phase → Bool
  | zero | whole | fraction | exponent => Bool.true
  | _ => Bool.false

end Phase

def digit? (c : Char) : Option Nat :=
  if '0' ≤ c ∧ c ≤ '9' then some (c.toNat - '0'.toNat) else none

def hexDigit? (c : Char) : Option Nat :=
  if '0' ≤ c ∧ c ≤ '9' then some (c.toNat - '0'.toNat)
  else if 'a' ≤ c ∧ c ≤ 'f' then some (c.toNat - 'a'.toNat + 10)
  else if 'A' ≤ c ∧ c ≤ 'F' then some (c.toNat - 'A'.toNat + 10)
  else none

namespace Number

def push (n : Number) (d : Nat) : Phase → Number
  | .minus | .zero | .whole => { n with whole := n.whole * 10 + d }
  | .point => { n with fraction := some (d, 1) }
  | .fraction => { n with fraction := n.fraction.map fun (v, k) => (v * 10 + d, k + 1) }
  | .mark => { n with exponent := some (Bool.false, d) }
  | .sign | .exponent => { n with exponent := n.exponent.map fun (s, v) => (s, v * 10 + d) }

def next (n : Number) (c : Char) : Phase → Option (Phase × Number)
  | .minus => (digit? c).map fun d => (if d = 0 then .zero else .whole, n.push d .minus)
  | .zero => afterWhole
  | .whole => match digit? c with
    | some d => some (.whole, n.push d .whole)
    | none => afterWhole
  | .point => (digit? c).map fun d => (.fraction, n.push d .point)
  | .fraction => match digit? c with
    | some d => some (.fraction, n.push d .fraction)
    | none => toMark
  | .mark => match digit? c with
    | some d => some (.exponent, n.push d .mark)
    | none =>
      if c = '+' then some (.sign, { n with exponent := some (Bool.false, 0) })
      else if c = '-' then some (.sign, { n with exponent := some (Bool.true, 0) })
      else none
  | .sign => (digit? c).map fun d => (.exponent, n.push d .sign)
  | .exponent => (digit? c).map fun d => (.exponent, n.push d .exponent)
where
  toMark := if c = 'e' ∨ c = 'E' then some (.mark, n) else none
  afterWhole := if c = '.' then some (.point, n) else toMark

/-- A literal that has ended at a character which does not continue it. A second digit after a
leading zero is no number. -/
def ends (phase : Phase) (c : Char) : Bool :=
  phase.final && !(phase == .zero && (digit? c).isSome)

def int? (n : Number) : Option Int :=
  if n.fraction.isSome || n.exponent.isSome then none
  else if n.negative then (if n.whole = 0 then none else some (-(n.whole : Int)))
  else some n.whole

end Number

/-- What the lexer is in the middle of. Collected pieces stand in reverse. -/
inductive Mode where
  | between
  | word (rest : List Char) (token : Token)
  | text (pieces : List Piece)
  | escape (pieces : List Piece)
  | hex (missing : Nat) (value : Nat) (pieces : List Piece)
  | number (phase : Phase) (n : Number)
  deriving DecidableEq, Repr

def isBlank (c : Char) : Bool := c = ' ' || c = '\n' || c = '\t' || c = '\r'

/-- What a sign between tokens begins: the tokens it completes, and the mode behind it unless it
begins nothing. -/
def begin : Sign → List Token × Option Mode
  | .stray _ => ([.bad], none)
  | .char c =>
    if isBlank c then ([], some .between)
    else match c with
      | '{' => ([.openBrace], some .between)
      | '}' => ([.closeBrace], some .between)
      | '[' => ([.openBracket], some .between)
      | ']' => ([.closeBracket], some .between)
      | ':' => ([.colon], some .between)
      | ',' => ([.comma], some .between)
      | '"' => ([], some (.text []))
      | 'n' => ([], some (.word ['u', 'l', 'l'] .null))
      | 't' => ([], some (.word ['r', 'u', 'e'] .true))
      | 'f' => ([], some (.word ['a', 'l', 's', 'e'] .false))
      | '-' => ([], some (.number .minus { negative := Bool.true }))
      | c => match digit? c with
        | some d => ([], some (.number (if d = 0 then .zero else .whole) { whole := d }))
        | none => ([.bad], none)

def escaped? : Char → Option Char
  | '"' => some '"'
  | '\\' => some '\\'
  | '/' => some '/'
  | 'b' => some '\x08'
  | 'f' => some '\x0c'
  | 'n' => some '\n'
  | 'r' => some '\r'
  | 't' => some '\t'
  | _ => none

def step : Mode → Sign → List Token × Option Mode
  | .between, s => begin s
  | .word (c :: d :: rest) t, .char x =>
    if x = c then ([], some (.word (d :: rest) t)) else ([.bad], none)
  | .word [c] t, .char x => if x = c then ([t], some .between) else ([.bad], none)
  | .word _ _, _ => ([.bad], none)
  | .text ps, .char c =>
    if c = '"' then ([.text ps.reverse], some .between)
    else if c = '\\' then ([], some (.escape ps))
    else if c.toNat < 0x20 then ([.bad], none)
    else ([], some (.text (.char c :: ps)))
  | .text ps, .stray _ => ([], some (.text (.stray :: ps)))
  | .escape ps, .char c =>
    if c = 'u' then ([], some (.hex 4 0 ps))
    else match escaped? c with
      | some d => ([], some (.text (.char d :: ps)))
      | none => ([.bad], none)
  | .hex missing v ps, .char c =>
    match hexDigit? c with
    | some d =>
      if missing ≤ 1 then ([], some (.text (.unit (v * 16 + d) :: ps)))
      else ([], some (.hex (missing - 1) (v * 16 + d) ps))
    | none => ([.bad], none)
  | .number phase n, .char c =>
    match n.next c phase with
    | some (phase', n') => ([], some (.number phase' n'))
    | none =>
      if Number.ends phase c then
        let (ts, m) := begin (.char c)
        (.number n :: ts, m)
      else ([.bad], none)
  | .number phase n, .stray b =>
    if phase.final then
      let (ts, m) := begin (.stray b)
      (.number n :: ts, m)
    else ([.bad], none)
  | _, .stray _ => ([.bad], none)

def finish : Mode → List Token
  | .between => []
  | .number phase n => if phase.final then [.number n] else [.bad]
  | _ => [.bad]

def tokensFrom : Mode → Text → List Token
  | m, [] => finish m
  | m, s :: rest =>
    match step m s with
    | (ts, some m') => ts ++ tokensFrom m' rest
    | (ts, none) => ts

def tokens (t : Text) : List Token := tokensFrom .between t

def isHigh (n : Nat) : Bool := 0xD800 ≤ n && n < 0xDC00

def isLow (n : Nat) : Bool := 0xDC00 ≤ n && n < 0xE000

/-- The characters of a string literal. There are none if a byte belongs to no character or a half
of a pair stands alone. -/
def chars? : List Piece → Option (List Char)
  | [] => some []
  | .char c :: rest => (chars? rest).map (c :: ·)
  | .stray :: _ => none
  | .unit n :: .unit m :: rest =>
    if isHigh n then
      if isLow m then
        (chars? rest).map (Char.ofNat (0x10000 + (n - 0xD800) * 0x400 + (m - 0xDC00)) :: ·)
      else none
    else if isLow n then none
    else (chars? (.unit m :: rest)).map (Char.ofNat n :: ·)
  | .unit n :: rest =>
    if isHigh n || isLow n then none else (chars? rest).map (Char.ofNat n :: ·)

def string? (pieces : List Piece) : Option String := (chars? pieces).map String.ofList

end WalletWatch.Json
