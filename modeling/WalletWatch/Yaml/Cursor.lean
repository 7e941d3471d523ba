set_option autoImplicit false

/-!
# Places in a YAML text

A cursor is a place in a text: how many characters are behind it, the line and column it stands at,
and what is left. Here are the steps between tokens: over blanks, comments and line ends.
-/

namespace WalletWatch.Yaml

structure Cursor where
  index : Nat := 0
  line : Nat := 0
  column : Nat := 0
  rest : List Char

/-- The usual line ends become newlines; the separators of lines and paragraphs stay. -/
def unifyLineEnds : List Char → List Char
  | [] => []
  | '\r' :: '\n' :: rest => '\n' :: unifyLineEnds rest
  | c :: rest => (if c = '\r' ∨ c = '\u0085' then '\n' else c) :: unifyLineEnds rest

def isBreak (c : Char) : Bool := c = '\n' || c = '\u2028' || c = '\u2029'

def isSpace (c : Char) : Bool := c = ' ' || c = '\t'

def isAllowed (c : Char) : Bool :=
  let n := c.toNat
  c = '\t' || c = '\n' || (0x20 ≤ n && n ≤ 0x7E) || (0xA0 ≤ n && n ≤ 0xFFFD) || 0x10000 ≤ n

def endsWord : List Char → Bool
  | [] => true
  | c :: _ => isSpace c || isBreak c

namespace Cursor

def next (c : Cursor) : Cursor :=
  match c.rest with
  | [] => c
  | d :: rest =>
    if isBreak d then ⟨c.index + 1, c.line + 1, 0, rest⟩
    else ⟨c.index + 1, c.line, c.column + 1, rest⟩

def skip (c : Cursor) : Nat → Cursor
  | 0 => c
  | n + 1 => c.next.skip n

def skipWhile (p : Char → Bool) (c : Cursor) : Cursor := c.skip (c.rest.takeWhile p).length

def atMarker (c : Cursor) : Bool :=
  c.column = 0 && match c.rest with
    | '-' :: '-' :: '-' :: rest => endsWord rest
    | '.' :: '.' :: '.' :: rest => endsWord rest
    | _ => false

def atEnd (c : Cursor) : Bool := c.rest.isEmpty || c.atMarker

def atBreak (c : Cursor) : Bool := c.rest.head?.any isBreak

/-- A byte order mark in front of a line takes up a column, so that what follows is indented. -/
def byteOrderMark (c : Cursor) : Cursor :=
  if c.column = 0 && c.rest.head? = some '\ufeff' then c.next else c

def restOfLine (c : Cursor) : List Char := c.rest.takeWhile (!isBreak ·)

def comment (c : Cursor) : Cursor :=
  if c.rest.head? = some '#' then c.skip c.restOfLine.length else c

def lineEnd? (c : Cursor) : Option Cursor :=
  let stop := (c.skipWhile isSpace).comment
  if stop.rest.isEmpty then some stop else if stop.atBreak then some stop.next else none

/-- Step to the next token. Where a key may begin tabs are no blanks, except in brackets. Outside of
these a key may begin in every new line. The bound is on the lines. -/
def gap (brackets : Bool) : Nat → Bool → Cursor → Bool × Cursor
  | 0, key, c => (key, c)
  | bound + 1, key, c =>
    let blank (d : Char) : Bool := d = ' ' || (d = '\t' && (brackets || !key))
    let stop := (c.byteOrderMark.skipWhile blank).comment
    if stop.atBreak then gap brackets bound (key || !brackets) stop.next else (key, stop)

end Cursor

end WalletWatch.Yaml
