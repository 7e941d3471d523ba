import WalletWatch.Json.Token

set_option autoImplicit false

/-!
# Queries

The part of a target behind its question mark: fields and values in the form encoding, where a plus
sign is a blank and a percent sign with two hexadecimal digits is a byte.
-/

namespace WalletWatch.Http

def formBytes : List Char → List UInt8
  | [] => []
  | '+' :: rest => 0x20 :: formBytes rest
  | '%' :: a :: b :: rest =>
    match Json.hexDigit? a, Json.hexDigit? b with
    | some x, some y => UInt8.ofNat (x * 16 + y) :: formBytes rest
    | _, _ => 0x25 :: formBytes (a :: b :: rest)
  | c :: rest => String.utf8EncodeChar c ++ formBytes rest

def formText (cs : List Char) : Text := Text.ofBytes (formBytes cs)

def fields (query : String) : List (Text × Text) :=
  ((query.toList.splitOn '&').filter (!·.isEmpty)).map fun part =>
    (formText (part.takeWhile (· ≠ '=')), formText ((part.dropWhile (· ≠ '=')).drop 1))

def truth? (t : Text) : Option Bool :=
  if t = Text.ofString "true" then some true
  else if t = Text.ofString "false" then some false
  else none

/-- The truth value of a field that may be missing, but neither repeated nor anything else. -/
def flag? (query : String) (name : String) : Option Bool :=
  match (fields query).filter (fun f => f.1 = Text.ofString name) with
  | [] => some false
  | [f] => truth? f.2
  | _ => none

end WalletWatch.Http
