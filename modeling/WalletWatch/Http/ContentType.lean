import WalletWatch.Http.Header

set_option autoImplicit false

/-!
# Media types

A request body is read as JSON only if its media type says so: `application/json` with any suffix,
or any `application` type with the suffix `json`, in any case of letters, with or without
parameters.
-/

namespace WalletWatch.Http

def isQuotable (c : Char) : Bool := isValueChar c && c ≠ '\t'

def afterQuoted : List Char → Option (List Char)
  | '"' :: rest => match rest.dropWhile (· = ' ') with
    | [] => some []
    | ';' :: more => some more
    | _ => none
  | c :: rest => if isQuotable c then afterQuoted rest else none
  | [] => none

/-- Whether a text is a list of parameters, each a name, an equals sign and a token or a quoted
value. A quoted value has a first character, which may be a quote itself. The bound is on their
number. -/
def areParameters : Nat → List Char → Bool
  | 0, _ => false
  | bound + 1, cs =>
    let cs := cs.dropWhile (· = ' ')
    if cs.isEmpty then true
    else
      let name := cs.takeWhile isTokenChar
      match cs.dropWhile isTokenChar with
      | '=' :: value =>
        if name.isEmpty then false
        else match value with
          | '"' :: c :: rest =>
            match if isQuotable c then afterQuoted rest else none with
            | some more => areParameters bound more
            | none => false
          | value =>
            match value.dropWhile isTokenChar with
            | [] => true
            | ';' :: more => if (value.takeWhile isTokenChar).isEmpty then false
              else areParameters bound more
            | _ => false
      | _ => false

/-- A subtype and its suffix: what stands in front of and behind its last plus sign, if it has one
behind its first character. -/
def splitSubtype (subtype : List Char) : List Char × Option (List Char) :=
  let suffix := (subtype.reverse.takeWhile (· ≠ '+')).reverse
  if suffix.length + 1 < subtype.length then
    (subtype.take (subtype.length - (suffix.length + 1)), some suffix)
  else (subtype, none)

def isJsonType (s : String) : Bool :=
  let cs := s.toList.map Char.toLower
  match cs.dropWhile isTokenChar with
  | '/' :: rest =>
    let subtype := rest.takeWhile isTokenChar
    let parameters := match rest.dropWhile isTokenChar with
      | [] => true
      | ';' :: more => !subtype.isEmpty && areParameters (more.length + 1) more
      | _ => false
    let (name, suffix?) := splitSubtype subtype
    cs.takeWhile isTokenChar = "application".toList && parameters &&
      (name = "json".toList || suffix? = some "json".toList)
  | _ => false

def announcesJson (h : Headers) : Bool :=
  match Headers.text? h "content-type" with
  | some s => isJsonType s
  | none => false

end WalletWatch.Http
