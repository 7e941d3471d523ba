set_option autoImplicit false

/-!
# Text from bytes

A body or a header value is a sequence of bytes that need not be UTF-8. It is read as a sequence of
signs: characters, and single bytes that belong to no character.
-/

namespace WalletWatch

/-- A character, or a byte that is part of none. -/
inductive Sign where
  | char (c : Char)
  | stray (b : UInt8)
  deriving DecidableEq, Repr

abbrev Text := List Sign

namespace Text

def ofString (s : String) : Text := s.toList.map Sign.char

def chars? : Text → Option (List Char)
  | [] => some []
  | .char c :: rest => (chars? rest).map (c :: ·)
  | .stray _ :: _ => none

def toString? (t : Text) : Option String := (chars? t).map String.ofList

def continuation (b : UInt8) : Bool := 0x80 ≤ b && b < 0xC0

def payload (b : UInt8) : Nat := b.toNat % 64

/-- The first character of some bytes and how many bytes spell it: no longer spelling than needed,
no surrogate, nothing above the last code point. -/
def firstChar? : List UInt8 → Option (Char × Nat)
  | [] => none
  | a :: rest =>
    if a < 0x80 then some (Char.ofNat a.toNat, 1)
    else if 0xC2 ≤ a && a < 0xE0 then
      match rest with
      | b :: _ =>
        if continuation b then some (Char.ofNat ((a.toNat % 32) * 64 + payload b), 2) else none
      | _ => none
    else if 0xE0 ≤ a && a < 0xF0 then
      match rest with
      | b :: c :: _ =>
        let n := ((a.toNat % 16) * 64 + payload b) * 64 + payload c
        if continuation b && continuation c && 0x800 ≤ n && !(0xD800 ≤ n && n < 0xE000) then
          some (Char.ofNat n, 3)
        else none
      | _ => none
    else if 0xF0 ≤ a && a < 0xF5 then
      match rest with
      | b :: c :: d :: _ =>
        let n := (((a.toNat % 8) * 64 + payload b) * 64 + payload c) * 64 + payload d
        if continuation b && continuation c && continuation d && 0x10000 ≤ n && n < 0x110000 then
          some (Char.ofNat n, 4)
        else none
      | _ => none
    else none

def readBytes : Nat → List UInt8 → Text
  | 0, _ => []
  | _, [] => []
  | limit + 1, a :: rest =>
    match firstChar? (a :: rest) with
    | some (c, n) => .char c :: readBytes limit ((a :: rest).drop n)
    | none => .stray a :: readBytes limit rest

def ofBytes (bytes : List UInt8) : Text := readBytes bytes.length bytes

def toBytes (t : Text) : List UInt8 :=
  t.flatMap fun
    | .char c => String.utf8EncodeChar c
    | .stray b => [b]

/-- A text as it is read where its bytes arrive. -/
def delivered (t : Text) : Text := ofBytes t.toBytes

end Text

end WalletWatch
