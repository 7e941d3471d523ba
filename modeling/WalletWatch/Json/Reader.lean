import WalletWatch.Json.Magnitude

set_option autoImplicit false

/-!
# Reading typed values from JSON

A reader takes the tokens of one value from the front of a list. It refuses in one of two ways: the
text is not JSON where the reader stands (`malformed`), or it is and holds something else than what
is wanted (`mismatched`). The first of several faults counts.

Records are read as objects, with members in any order, or as lists of their fields in declared
order. A value nobody asks for is passed over: only its form is checked.
-/

namespace WalletWatch.Json

inductive Reject where
  | malformed
  | mismatched
  deriving DecidableEq, Repr

def Reject.reason : Reject → String
  | malformed => "not well-formed JSON"
  | mismatched => "not a value of the expected form"

abbrev Reader (α : Type) := List Token → Except Reject (α × List Token)

/-- Why no wanted value begins here. A number beyond all doubles and a string that spells nothing
are no JSON to a reader that has to look at them. -/
def unexpected : List Token → Reject
  | .number n :: _ => if n.overflows then .malformed else .mismatched
  | .text ps :: _ => if (string? ps).isSome then .mismatched else .malformed
  | .null :: _ | .true :: _ | .false :: _ | .openBrace :: _ | .openBracket :: _ => .mismatched
  | _ => .malformed

def readString : Reader String
  | .text ps :: rest => match string? ps with
    | some s => .ok (s, rest)
    | none => .error .malformed
  | ts => .error (unexpected ts)

def readBool : Reader Bool
  | .true :: rest => .ok (Bool.true, rest)
  | .false :: rest => .ok (Bool.false, rest)
  | ts => .error (unexpected ts)

def readNull : Reader Unit
  | .null :: rest => .ok ((), rest)
  | ts => .error (unexpected ts)

def Number.int64? (n : Number) : Option Int64 :=
  match n.int? with
  | some z =>
    if Int64.minValue.toInt ≤ z ∧ z ≤ Int64.maxValue.toInt then some (Int64.ofInt z) else none
  | none => none

def readInt64 : Reader Int64
  | .number n :: rest => match n.int64? with
    | some z => .ok (z, rest)
    | none => .error (unexpected (.number n :: rest))
  | ts => .error (unexpected ts)

/-! ## Passing over a value -/

inductive Opened where
  | list
  | record
  deriving DecidableEq, Repr

inductive Awaited where
  | value
  | valueOrEnd
  | key
  | keyOrEnd
  | colon
  | separator
  deriving DecidableEq, Repr

/-- What a token at the place of a value opens, `some none` for a value of one token. -/
def Token.asValue? : Token → Option (Option Opened)
  | .openBracket => some (some .list)
  | .openBrace => some (some .record)
  | .null | .true | .false | .number _ | .text _ => some none
  | _ => none

def Opened.first : Opened → Awaited
  | .list => .valueOrEnd
  | .record => .keyOrEnd

def pass (pending : List Opened) (awaited : Awaited) (t : Token) : Option (List Opened × Awaited) :=
  match awaited, pending, t with
  | .value, _, t => (t.asValue?).map (enter pending)
  | .valueOrEnd, .list :: outer, .closeBracket => some (outer, .separator)
  | .valueOrEnd, _, t => (t.asValue?).map (enter pending)
  | .key, _, .text _ => some (pending, .colon)
  | .keyOrEnd, _, .text _ => some (pending, .colon)
  | .keyOrEnd, .record :: outer, .closeBrace => some (outer, .separator)
  | .colon, _, .colon => some (pending, .value)
  | .separator, .list :: _, .comma => some (pending, .value)
  | .separator, .list :: outer, .closeBracket => some (outer, .separator)
  | .separator, .record :: _, .comma => some (pending, .key)
  | .separator, .record :: outer, .closeBrace => some (outer, .separator)
  | _, _, _ => none
where
  enter (pending : List Opened) : Option Opened → List Opened × Awaited
    | none => (pending, .separator)
    | some o => (o :: pending, o.first)

def skipFrom (pending : List Opened) (awaited : Awaited) : List Token → Option (List Token)
  | [] => none
  | t :: rest => match pass pending awaited t with
    | none => none
    | some ([], .separator) => some rest
    | some (pending', awaited') => skipFrom pending' awaited' rest

def skip (ts : List Token) : Option (List Token) := skipFrom [] .value ts

/-! ## Records -/

structure Field (σ : Type) where
  name : String
  given : σ → Bool
  read : σ → Reader σ

/-- How a record is read: from nothing, field by field, into `σ`, and then into the record unless a
field without a default is missing. -/
structure Record (σ α : Type) where
  start : σ
  fields : List (Field σ)
  closed : Bool := Bool.false
  done : σ → Option α

namespace Record

variable {σ α : Type}

def field? (r : Record σ α) (name : String) : Option (Field σ) :=
  r.fields.find? (fun f => f.name = name)

def readMember (r : Record σ α) (key : String) (s : σ) (ts : List Token) :
    Except Reject (σ × List Token) :=
  match r.field? key with
  | some f =>
    if f.given s then .error .mismatched
    else match ts with
      | .colon :: rest => f.read s rest
      | _ => .error .malformed
  | none =>
    if r.closed then .error .mismatched
    else match ts with
      | .colon :: rest => match skip rest with
        | some rest' => .ok (s, rest')
        | none => .error .malformed
      | _ => .error .malformed

def readMembers (r : Record σ α) : Nat → σ → List Token → Except Reject (σ × List Token)
  | 0, _, _ => .error .malformed
  | bound + 1, s, .text ps :: rest =>
    match string? ps with
    | none => .error .malformed
    | some key =>
      match r.readMember key s rest with
      | .error e => .error e
      | .ok (s', .comma :: rest') => r.readMembers bound s' rest'
      | .ok (s', .closeBrace :: rest') => .ok (s', rest')
      | .ok _ => .error .malformed
  | _, _, _ => .error .malformed

def readItems (first : Bool) (s : σ) :
    List (Field σ) → List Token → Except Reject (σ × List Token)
  | [], .closeBracket :: rest => .ok (s, rest)
  | [], _ => .error .malformed
  | _ :: _, .closeBracket :: rest => .ok (s, rest)
  | f :: fs, ts =>
    match if first then some ts else separated ts with
    | none => .error .malformed
    | some ts' => match f.read s ts' with
      | .error e => .error e
      | .ok (s', rest) => readItems Bool.false s' fs rest
where
  separated : List Token → Option (List Token)
    | .comma :: rest => some rest
    | _ => none

def complete (r : Record σ α) : Except Reject (σ × List Token) → Except Reject (α × List Token)
  | .error e => .error e
  | .ok (s, rest) => match r.done s with
    | some a => .ok (a, rest)
    | none => .error .mismatched

def read (r : Record σ α) : Reader α
  | .openBrace :: .closeBrace :: rest => r.complete (.ok (r.start, rest))
  | .openBrace :: rest => r.complete (r.readMembers rest.length r.start rest)
  | .openBracket :: rest => r.complete (readItems Bool.true r.start r.fields rest)
  | ts => .error (unexpected ts)

end Record

/-! ## Lists and names -/

def readMore {α : Type} (item : Reader α) (acc : List α) :
    Nat → List Token → Except Reject (List α × List Token)
  | 0, _ => .error .malformed
  | _ + 1, .closeBracket :: rest => .ok (acc.reverse, rest)
  | bound + 1, .comma :: rest => match item rest with
    | .error e => .error e
    | .ok (a, rest') => readMore item (a :: acc) bound rest'
  | _, _ => .error .malformed

def readList {α : Type} (item : Reader α) : Reader (List α)
  | .openBracket :: .closeBracket :: rest => .ok ([], rest)
  | .openBracket :: rest => match item rest with
    | .error e => .error e
    | .ok (a, rest') => readMore item [a] (rest'.length + 1) rest'
  | ts => .error (unexpected ts)

/-- A value that is one of several names: the name as a string, or an object whose only member has
the name as its key and null as its value. -/
def readName {α : Type} (ofName : String → Option α) : Reader α
  | .text ps :: rest => named ps rest
  | .openBrace :: .text ps :: rest =>
    match named ps rest with
    | .error e => .error e
    | .ok (a, .colon :: rest') => match readNull rest' with
      | .error e => .error e
      | .ok ((), .closeBrace :: rest'') => .ok (a, rest'')
      | .ok _ => .error .malformed
    | .ok _ => .error .malformed
  | .openBrace :: ts => .error (unexpected ts)
  | _ => .error .malformed
where
  named (ps : List Piece) (rest : List Token) : Except Reject (α × List Token) :=
    match string? ps with
    | none => .error .malformed
    | some s => match ofName s with
      | some a => .ok (a, rest)
      | none => .error .mismatched

/-! ## Whole texts -/

def decode {α : Type} (read : Reader α) (t : Text) : Except Reject α :=
  match read (tokens t) with
  | .error e => .error e
  | .ok (a, []) => .ok a
  | .ok _ => .error .malformed

def decodeFirst {α : Type} (read : Reader α) (t : Text) : Except Reject α :=
  (read (tokens t)).map Prod.fst

end WalletWatch.Json
