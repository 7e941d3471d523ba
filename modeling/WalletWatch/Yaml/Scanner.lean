import WalletWatch.Text.Utf8
import WalletWatch.Yaml.Node
import WalletWatch.Yaml.Scalar

set_option autoImplicit false

/-!
# Tokens of YAML

A text is cut into tokens from front to back. Whether a token begins a key is known only when the
colon behind it is found; then the mark of the key is put in front of it after the fact. Blocks are
told by indentation, and begin and end with tokens of their own.
-/

namespace WalletWatch.Yaml

inductive Token where
  | version (major minor : Nat)
  | handle (name full : String)
  | documentStart
  | documentEnd
  | blockListStart
  | blockMapStart
  | blockEnd
  | listStart
  | listEnd
  | mapStart
  | mapEnd
  | blockEntry
  | entry
  | key
  | value
  | alias (name : String)
  | anchor (name : String)
  | tag (handle suffix : String)
  | scalar (style : Style) (text : String)
  deriving DecidableEq

structure PossibleKey where
  place : Nat
  start : Cursor
  required : Bool

structure Scanner where
  cursor : Cursor
  tokens : Array Token := #[]
  blocks : List Nat := []
  /-- For each bracket that is open and for the text around them, the innermost first. -/
  keys : List (Option PossibleKey) := [none]
  mayBegin : Bool := true

namespace Scanner

def inBrackets (s : Scanner) : Bool := 1 < s.keys.length

def least (s : Scanner) : Nat :=
  match s.blocks with
  | [] => 0
  | column :: _ => column + 1

def emit (s : Scanner) (t : Token) : Scanner := { s with tokens := s.tokens.push t }

def step (s : Scanner) (n : Nat) : Scanner := { s with cursor := s.cursor.skip n }

/-! ## Keys -/

def dropKey? (s : Scanner) : Option Scanner :=
  match s.keys with
  | some k :: outer => if k.required then none else some { s with keys := none :: outer }
  | _ => some s

def saveKey? (s : Scanner) : Option Scanner :=
  if s.mayBegin then do
    let required := !s.inBrackets && s.blocks.head? = some s.cursor.column
    let s ← s.dropKey?
    return { s with keys := some ⟨s.tokens.size, s.cursor, required⟩ :: s.keys.drop 1 }
  else some s

/-- A key stands in one line and takes up at most 1024 characters. -/
def expireKeys? (s : Scanner) : Option Scanner := do
  let keys ← s.keys.mapM fun
    | some k =>
      if k.start.line < s.cursor.line || k.start.index + 1024 < s.cursor.index then
        (if k.required then none else some none)
      else some (some k)
    | none => some none
  return { s with keys := keys }

/-! ## Blocks -/

def unroll (column? : Option Nat) (s : Scanner) : Scanner :=
  if s.inBrackets then s
  else
    let (closed, kept) := s.blocks.span fun n => column?.all (· < n)
    { s with blocks := kept, tokens := s.tokens ++ closed.map fun _ => Token.blockEnd }

/-- Begin a block in a column, unless the innermost one is there. Its token is put in front of those
behind a place. -/
def roll (column place : Nat) (t : Token) (s : Scanner) : Scanner :=
  if s.inBrackets || s.blocks.head?.any (column ≤ ·) then s
  else { s with blocks := column :: s.blocks, tokens := s.tokens.insertIdxIfInBounds place t }

/-! ## Directives and tags -/

def isWordChar (c : Char) : Bool := c.isAlphanum || c = '_' || c = '-'

def number? (c : Cursor) : Option (Nat × Cursor) :=
  let digits := c.rest.takeWhile Char.isDigit
  if digits.isEmpty || 9 < digits.length then none
  else some (digits.foldl (fun n d => n * 10 + (d.toNat - '0'.toNat)) 0, c.skip digits.length)

def handle? (c : Cursor) : Option (List Char × Cursor) :=
  if c.rest.head? ≠ some '!' then none
  else
    let name := c.next.rest.takeWhile isWordChar
    let stop := c.next.skip name.length
    if stop.rest.head? = some '!' then some ('!' :: name ++ ['!'], stop.next)
    else some ('!' :: name, stop)

def octets : Nat → List Char → List UInt8
  | n + 1, '%' :: a :: b :: rest =>
    match Json.hexDigit? a, Json.hexDigit? b with
    | some high, some low => UInt8.ofNat (16 * high + low) :: octets n rest
    | _, _ => []
  | _, _ => []

def percent? (c : Cursor) : Option (Char × Cursor) := do
  let (d, width) ← Text.firstChar? (octets 4 c.rest)
  return (d, c.skip (3 * width))

/-- The characters of a tag, in reverse. Some of them only stand in a tag as a whole. -/
def uri (whole : Bool) : Nat → List Char → Cursor → Option (List Char × Cursor)
  | 0, acc, c => some (acc, c)
  | bound + 1, acc, c =>
    match c.rest with
    | [] => some (acc, c)
    | d :: _ =>
      if d = '%' then do
        let (e, c) ← percent? c
        uri whole bound (e :: acc) c
      else if isWordChar d || ";/?:@&=+$.!~*'()".toList.contains d ||
          (whole && [',', '[', ']'].contains d) then
        uri whole bound (d :: acc) c.next
      else some (acc, c)

def suffix? (whole : Bool) (c : Cursor) : Option (String × Cursor) := do
  let (acc, stop) ← uri whole (c.rest.length + 1) [] c
  return (String.ofList acc.reverse, stop)

def tag? (c : Cursor) : Option (Token × Cursor) := do
  if c.rest.take 2 = ['!', '<'] then
    let (suffix, stop) ← suffix? true (c.skip 2)
    if suffix.isEmpty || stop.rest.head? ≠ some '>' then none
    else return (.tag "" suffix, stop.next)
  else
    let (handle, stop) ← handle? c
    if 1 < handle.length && handle.getLast? = some '!' then
      let (suffix, stop) ← suffix? false stop
      if suffix.isEmpty then none else return (.tag (String.ofList handle) suffix, stop)
    else
      -- It was no handle, but the beginning of what follows a bare mark.
      let (more, stop) ← suffix? false stop
      let suffix := String.ofList (handle.drop 1) ++ more
      return (if suffix.isEmpty then .tag "" "!" else .tag "!" suffix, stop)

def versionDirective? (c : Cursor) : Option (Token × Cursor) := do
  let (major, c) ← number? (c.skipWhile isSpace)
  if c.rest.head? ≠ some '.' then none
  else
    let (minor, c) ← number? c.next
    return (.version major minor, c)

def handleDirective? (c : Cursor) : Option (Token × Cursor) := do
  let (name, c) ← handle? (c.skipWhile isSpace)
  if name.getLast? ≠ some '!' then none
  else if !c.rest.head?.any isSpace then none
  else
    let (full, c) ← suffix? true (c.skipWhile isSpace)
    if full.isEmpty || !endsWord c.rest then none
    else return (.handle (String.ofList name) full, c)

/-! ## One token -/

def directive? (s : Scanner) : Option Scanner := do
  let s ← (s.unroll none).dropKey?
  let name := s.cursor.next.rest.takeWhile isWordChar
  let c := s.cursor.next.skip name.length
  if !endsWord c.rest then none
  else
    let (t, c) ← if name = "YAML".toList then versionDirective? c
      else if name = "TAG".toList then handleDirective? c
      else none
    return { s.emit t with cursor := ← c.lineEnd?, mayBegin := false }

def marker? (t : Token) (s : Scanner) : Option Scanner := do
  let s ← (s.unroll none).dropKey?
  return { (s.emit t).step 3 with mayBegin := false }

def openBracket? (t : Token) (s : Scanner) : Option Scanner := do
  let s ← s.saveKey?
  return { (s.emit t).step 1 with keys := none :: s.keys, mayBegin := true }

def closeBracket? (t : Token) (s : Scanner) : Option Scanner := do
  let s ← s.dropKey?
  let keys := if s.inBrackets then s.keys.drop 1 else s.keys
  return { (s.emit t).step 1 with keys := keys, mayBegin := false }

def entry? (s : Scanner) : Option Scanner := do
  let s ← s.dropKey?
  return { (s.emit .entry).step 1 with mayBegin := true }

def blockEntry? (s : Scanner) : Option Scanner := do
  if !s.inBrackets && !s.mayBegin then none
  else
    let s ← (s.roll s.cursor.column s.tokens.size .blockListStart).dropKey?
    return { (s.emit .blockEntry).step 1 with mayBegin := true }

/-- The mark in front of a key that is not to be found by its colon. -/
def key? (s : Scanner) : Option Scanner := do
  if !s.inBrackets && !s.mayBegin then none
  else
    let s ← (s.roll s.cursor.column s.tokens.size .blockMapStart).dropKey?
    return { (s.emit .key).step 1 with mayBegin := !s.inBrackets }

def value? (s : Scanner) : Option Scanner :=
  match s.keys with
  | some k :: outer =>
    let s := { s with tokens := s.tokens.insertIdxIfInBounds k.place .key, keys := none :: outer }
    let s := s.roll k.start.column k.place .blockMapStart
    some { (s.emit .value).step 1 with mayBegin := false }
  | _ =>
    if !s.inBrackets && !s.mayBegin then none
    else
      let s := s.roll s.cursor.column s.tokens.size .blockMapStart
      some { (s.emit .value).step 1 with mayBegin := !s.inBrackets }

def name? (t : String → Token) (s : Scanner) : Option Scanner := do
  let s ← s.saveKey?
  let name := s.cursor.next.rest.takeWhile isWordChar
  let stop := s.cursor.next.skip name.length
  if name.isEmpty then none
  else if endsWord stop.rest || stop.rest.head?.any "?:,]\x7d%@\x60".toList.contains then
    some { s.emit (t (String.ofList name)) with cursor := stop, mayBegin := false }
  else none

def tagged? (s : Scanner) : Option Scanner := do
  let s ← s.saveKey?
  let (t, stop) ← tag? s.cursor
  if endsWord stop.rest || (s.inBrackets && stop.rest.head? = some ',') then
    some { s.emit t with cursor := stop, mayBegin := false }
  else none

def block? (style : Style) (s : Scanner) : Option Scanner := do
  let s ← s.dropKey?
  let (text, stop) ← blockScalar (style = .literal) s.least s.cursor.next
  return { s.emit (.scalar style text) with cursor := stop, mayBegin := true }

def quoted? (scan : Nat → List Char → Cursor → Option (String × Cursor)) (s : Scanner) :
    Option Scanner := do
  let s ← s.saveKey?
  let (text, stop) ← scan (s.cursor.rest.length + 1) [] s.cursor.next
  return { s.emit (.scalar .quoted text) with cursor := stop, mayBegin := false }

def plain? (s : Scanner) : Option Scanner := do
  let s ← s.saveKey?
  let (text, ended, stop) ← plain s.inBrackets s.least (s.cursor.rest.length + 1) [] s.cursor
  return { s.emit (.scalar .plain text) with cursor := stop, mayBegin := ended }

def next? (s : Scanner) : Option Scanner :=
  let endsMark := s.inBrackets || endsWord (s.cursor.rest.drop 1)
  match s.cursor.rest with
  | [] => some s
  | d :: rest =>
    if d = '%' && s.cursor.column = 0 then s.directive?
    else if s.cursor.atMarker then s.marker? (if d = '-' then .documentStart else .documentEnd)
    else if d = '[' then s.openBracket? .listStart
    else if d = '{' then s.openBracket? .mapStart
    else if d = ']' then s.closeBracket? .listEnd
    else if d = '}' then s.closeBracket? .mapEnd
    else if d = ',' then s.entry?
    else if d = '-' && endsWord rest then s.blockEntry?
    else if d = '?' && endsMark then s.key?
    else if d = ':' && endsMark then s.value?
    else if d = '*' then s.name? .alias
    else if d = '&' then s.name? .anchor
    else if d = '!' then s.tagged?
    else if d = '|' && !s.inBrackets then s.block? .literal
    else if d = '>' && !s.inBrackets then s.block? .folded
    else if d = '\'' then s.quoted? singleQuoted
    else if d = '"' then s.quoted? doubleQuoted
    else if beginsPlain s.inBrackets s.cursor.rest then s.plain?
    else none

def run : Nat → Scanner → Option (List Token)
  | 0, _ => none
  | bound + 1, s => do
    let (mayBegin, cursor) :=
      s.cursor.gap s.inBrackets (s.cursor.rest.length + 1) s.mayBegin
    let s ← { s with cursor := cursor, mayBegin := mayBegin }.expireKeys?
    let s := s.unroll (some cursor.column)
    if cursor.rest.isEmpty then
      let s ← (s.unroll none).dropKey?
      return s.tokens.toList
    else run bound (← s.next?)

end Scanner

def tokens? (text : String) : Option (List Token) :=
  let cs := unifyLineEnds text.toList
  if cs.all isAllowed then ({ cursor := { rest := cs } } : Scanner).run (cs.length + 1) else none

end WalletWatch.Yaml
