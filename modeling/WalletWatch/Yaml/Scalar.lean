import WalletWatch.Json.Token
import WalletWatch.Yaml.Cursor

set_option autoImplicit false

/-!
# YAML scalars

Scalars without marks, in quotes, and in blocks of lines. A line end inside one is a blank, and
empty lines inside one are line ends, unless a block is literal. Collected characters stand in
reverse.
-/

namespace WalletWatch.Yaml

def isWhite (c : Char) : Bool := isSpace c || isBreak c

def whiteSpace (c : Cursor) : List Char × Cursor :=
  let white := c.rest.takeWhile isWhite
  (white, c.skip white.length)

/-- The characters that white space inside a scalar stands for: blanks within a line stay. Of line
ends a first newline is folded, into a blank if it is alone, and the others stay. -/
def folded (white : List Char) : List Char :=
  match white.filter isBreak with
  | [] => white
  | ['\n'] => [' ']
  | '\n' :: rest => rest
  | breaks => breaks

def escaped? : Char → Option Char
  | '0' => some '\x00'
  | 'a' => some '\x07'
  | 'b' => some '\x08'
  | 't' => some '\t'
  | '\t' => some '\t'
  | 'n' => some '\n'
  | 'v' => some '\x0b'
  | 'f' => some '\x0c'
  | 'r' => some '\r'
  | 'e' => some '\x1b'
  | ' ' => some ' '
  | '"' => some '"'
  | '/' => some '/'
  | '\\' => some '\\'
  | 'N' => some '\u0085'
  | '_' => some '\u00a0'
  | 'L' => some '\u2028'
  | 'P' => some '\u2029'
  | _ => none

def hexValue? (cs : List Char) : Option Nat :=
  cs.foldl (fun acc c => do return (← acc) * 16 + (← Json.hexDigit? c)) (some 0)

def hexLength? : Char → Option Nat
  | 'x' => some 2
  | 'u' => some 4
  | 'U' => some 8
  | _ => none

def singleQuoted : Nat → List Char → Cursor → Option (String × Cursor)
  | 0, _, _ => none
  | bound + 1, acc, c =>
    if c.atMarker then none
    else match c.rest with
      | [] => none
      | '\'' :: '\'' :: _ => singleQuoted bound ('\'' :: acc) (c.skip 2)
      | '\'' :: _ => some (String.ofList acc.reverse, c.next)
      | d :: _ =>
        if isWhite d then
          let (white, c') := whiteSpace c
          singleQuoted bound ((folded white).reverse ++ acc) c'
        else singleQuoted bound (d :: acc) c.next

def doubleQuoted : Nat → List Char → Cursor → Option (String × Cursor)
  | 0, _, _ => none
  | bound + 1, acc, c =>
    if c.atMarker then none
    else match c.rest with
      | [] => none
      | '"' :: _ => some (String.ofList acc.reverse, c.next)
      | '\\' :: e :: rest =>
        if isBreak e then
          let (white, c') := whiteSpace (c.skip 2)
          doubleQuoted bound ((white.filter isBreak).reverse ++ acc) c'
        else match escaped? e with
        | some d => doubleQuoted bound (d :: acc) (c.skip 2)
        | none =>
          match hexLength? e with
          | none => none
          | some n =>
            if (rest.take n).length < n then none
            else match hexValue? (rest.take n) with
              | none => none
              | some v =>
                if h : v.isValidChar then
                  doubleQuoted bound (Char.ofNatAux v h :: acc) (c.skip (2 + n))
                else none
      | d :: _ =>
        if isWhite d then
          let (white, c') := whiteSpace c
          doubleQuoted bound ((folded white).reverse ++ acc) c'
        else doubleQuoted bound (d :: acc) c.next

def isFlowMark (c : Char) : Bool := [',', '[', ']', '{', '}'].contains c

def beginsPlain (brackets : Bool) : List Char → Bool
  | [] => false
  | c :: rest =>
    if c = '-' then !endsWord rest
    else if c = '?' || c = ':' then !brackets && !endsWord rest
    else !(isWhite c || isFlowMark c || "#&*!|>'\"%@\x60".toList.contains c)

/-- Whether a plain scalar goes on with these characters. It ends in front of a colon that ends a
word, and in brackets of their marks. -/
def goesOn (brackets : Bool) : List Char → Bool
  | [] => false
  | ':' :: rest => !endsWord rest
  | c :: _ => !(brackets && isFlowMark c)

/-- Whether a line that begins in some white space is indented by a tab in front of a column. The
place in the line is known from the first line end on. -/
def hasEarlyTab (column : Nat) : Option Nat → List Char → Bool
  | _, [] => false
  | place?, d :: rest =>
    if isBreak d then hasEarlyTab column (some 0) rest
    else match place? with
      | none => hasEarlyTab column none rest
      | some place =>
        (d = '\t' && place < column) || hasEarlyTab column (some (place + 1)) rest

/-- A plain scalar from its first character on, whether its last line ends, and the place behind it
and the white space that follows. The lines behind the first have to be indented by `least`, and
none by tabs. A comment ends it as well. -/
def plain (brackets : Bool) (least : Nat) :
    Nat → List Char → Cursor → Option (String × Bool × Cursor)
  | 0, _, _ => none
  | bound + 1, acc, c =>
    let text := String.ofList acc.reverse
    match c.rest with
    | [] => some (text, false, c)
    | d :: rest =>
      if isWhite d then
        let (white, stop) := whiteSpace c
        if hasEarlyTab least none white then none
        else if stop.atEnd || stop.rest.head? = some '#' || !goesOn brackets stop.rest ||
            (c.line < stop.line && !brackets && stop.column < least) then
          some (text, c.line < stop.line, stop)
        else plain brackets least bound ((folded white).reverse ++ acc) stop
      else if d = ':' && brackets && (rest.head?.any fun e => isFlowMark e || e = '?') then none
      else if goesOn brackets c.rest then plain brackets least bound (d :: acc) c.next
      else some (text, false, c)

inductive Chomping where
  | strip
  | clip
  | keep
  deriving DecidableEq

def chomping? : List Char → Option Chomping
  | '-' :: _ => some .strip
  | '+' :: _ => some .keep
  | _ => none

def increment? : List Char → Option Nat
  | d :: _ => (Json.digit? d).filter (0 < ·)
  | [] => none

def blockHeader? (c : Cursor) : Option (Chomping × Option Nat × Cursor) := do
  let (chomping, increment?, stop) := match chomping? c.rest, increment? c.rest with
    | some chomping, _ =>
      let next := c.next
      match increment? next.rest with
      | some n => (chomping, some n, next.next)
      | none => (chomping, none, next)
    | none, some n =>
      let next := c.next
      match chomping? next.rest with
      | some chomping => (chomping, some n, next.next)
      | none => (.clip, some n, next)
    | none, none => (.clip, none, c)
  return (chomping, increment?, ← stop.lineEnd?)

/-- Step over the indentation of a line of a block, and over the empty lines in front of it, whose
ends are collected. Where the indentation is not known yet, the deepest one is found. The bound is
on the lines. -/
def blockGap (indent? : Option Nat) :
    Nat → Nat → List Char → Cursor → Option (Nat × List Char × Cursor)
  | 0, deepest, ends, c => some (deepest, ends.reverse, c)
  | bound + 1, deepest, ends, c =>
    let blanks := (c.rest.takeWhile (· = ' ')).length
    let stop := c.skip (match indent? with
      | some n => min blanks (n - c.column)
      | none => blanks)
    let deepest := max deepest stop.column
    match stop.rest with
    | [] => some (deepest, ends.reverse, stop)
    | d :: _ =>
      if d = '\t' && indent?.all (stop.column < ·) then none
      else if isBreak d then blockGap indent? bound deepest (d :: ends) stop.next
      else some (deepest, ends.reverse, stop)

/-- The lines of a block from the beginning of one on. The end of the line in front and the ends of
empty lines are kept until it is known how they count; `deeper` says whether that line was indented
further. What is left of these comes behind the text. The bound is on the lines. -/
def blockLines (literal : Bool) (indent : Nat) : Nat → List Char → List Char → List Char → Bool →
    Cursor → Option (List Char × List Char × List Char × Cursor)
  | 0, _, _, _, _, _ => none
  | bound + 1, acc, last, empty, deeper, c =>
    if c.column = indent && !c.rest.isEmpty then do
      let deeper' := c.rest.head?.any isSpace
      let between :=
        if !literal && last = ['\n'] && !deeper && !deeper' then
          (if empty.isEmpty then [' '] else empty)
        else last ++ empty
      let line := c.restOfLine
      let stop := c.skip line.length
      let last' := (stop.rest.take 1).filter isBreak
      let (_, empty', d) ←
        blockGap (some indent) (stop.rest.length + 1) 0 [] (stop.skip last'.length)
      let acc := line.reverse ++ between.reverse ++ acc
      blockLines literal indent bound acc last' empty' deeper' d
    else some (acc, last, empty, c)

def blockScalar (literal : Bool) (least : Nat) (c : Cursor) : Option (String × Cursor) := do
  let (chomping, increment?, c) ← blockHeader? c
  let known? := increment?.map (least - 1 + ·)
  let bound := c.rest.length + 1
  let (deepest, ends, c) ← blockGap known? bound 0 [] c
  let indent := known?.getD (max (max deepest least) 1)
  let (acc, last, empty, c) ← blockLines literal indent bound [] [] ends false c
  let tail := match chomping with
    | .strip => []
    | .clip => last
    | .keep => last ++ empty
  return (String.ofList (acc.reverse ++ tail), c)

end WalletWatch.Yaml
