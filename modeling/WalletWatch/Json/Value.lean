set_option autoImplicit false

/-!
# Writing JSON

Values are written without blanks, members in the order given. In strings, the quote, the backslash
and the controls are escaped, with the short escapes where JSON has them; every other character
stands for itself.
-/

namespace WalletWatch.Json

inductive Value where
  | null
  | bool (b : Bool)
  | int (z : Int)
  | string (s : String)
  | array (items : List Value)
  | object (members : List (String × Value))

def hexDigit (n : Nat) : Char :=
  if n < 10 then Char.ofNat ('0'.toNat + n) else Char.ofNat ('a'.toNat + (n - 10))

def escape (c : Char) : List Char :=
  if c = '"' then ['\\', '"']
  else if c = '\\' then ['\\', '\\']
  else if c = '\x08' then ['\\', 'b']
  else if c = '\x0c' then ['\\', 'f']
  else if c = '\n' then ['\\', 'n']
  else if c = '\r' then ['\\', 'r']
  else if c = '\t' then ['\\', 't']
  else if c.toNat < 0x20 then
    ['\\', 'u', '0', '0', hexDigit (c.toNat / 16), hexDigit (c.toNat % 16)]
  else [c]

def quote (s : String) : List Char := '"' :: s.toList.flatMap escape ++ ['"']

def natDigits (n : Nat) : List Char :=
  if n < 10 then [Char.ofNat ('0'.toNat + n)]
  else natDigits (n / 10) ++ [Char.ofNat ('0'.toNat + n % 10)]

def intDigits (z : Int) : List Char :=
  if z < 0 then '-' :: natDigits z.natAbs else natDigits z.natAbs

namespace Value

mutual

def print : Value → List Char
  | null => ['n', 'u', 'l', 'l']
  | bool true => ['t', 'r', 'u', 'e']
  | bool false => ['f', 'a', 'l', 's', 'e']
  | int z => intDigits z
  | string s => quote s
  | array items => '[' :: printItems items
  | object members => '{' :: printMembers members

/-- The items of a list with the bracket that closes it. -/
def printItems : List Value → List Char
  | [] => [']']
  | [v] => v.print ++ [']']
  | v :: w :: rest => v.print ++ ',' :: printItems (w :: rest)

def printMembers : List (String × Value) → List Char
  | [] => ['}']
  | [(k, v)] => quote k ++ ':' :: v.print ++ ['}']
  | (k, v) :: m :: rest => quote k ++ ':' :: v.print ++ ',' :: printMembers (m :: rest)

end

def render (v : Value) : String := String.ofList v.print

end Value

end WalletWatch.Json
