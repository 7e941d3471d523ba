import WalletWatch.Metadata

set_option autoImplicit false

/-!
# The arguments of the command line

One of two commands, with options behind it. An option with a value takes it from the same argument,
behind an equals sign, or from the next argument if that does not look like an option. No option can
be given twice. Arguments are read in order, so that the first fault or call for help counts.
-/

namespace WalletWatch.Command

inductive User where
  | alice
  | bob
  deriving DecidableEq, Repr

namespace User

def ofName? : String → Option User
  | "alice" => some alice
  | "Alice" => some alice
  | "bob" => some bob
  | "Bob" => some bob
  | _ => none

def name : User → String
  | alice => "Alice"
  | bob => "Bob"

def token : User → String
  | alice => "2bd806c9"
  | bob => "81b637d8"

def tier : User → Tier
  | alice => .premium
  | bob => .normal

end User

structure Query where
  user : User := .alice
  watch : Bool := false
  repeated : Bool := false
  route? : Option String := none
  walletServer : String := "http://localhost:18881"
  priceServer : String := "http://localhost:18882"
  deriving DecidableEq

inductive Verb where
  | balance
  | price
  deriving DecidableEq, Repr

namespace Verb

def ofName? : String → Option Verb
  | "balance" => some balance
  | "price" => some price
  | _ => none

def name : Verb → String
  | balance => "balance"
  | price => "price"

def about : Verb → String
  | balance => "Print the wallet balance"
  | price => "Print the coin price"

end Verb

inductive Topic where
  | all
  | verb (v : Verb)
  | help
  deriving DecidableEq, Repr

inductive Request where
  | run (verb : Verb) (q : Query)
  | help (topic : Topic)
  | version
  deriving DecidableEq

inductive Key where
  | user
  | watch
  | repeated
  | route
  | walletServer
  | priceServer
  deriving DecidableEq, Repr

namespace Key

def ofName? : String → Option Key
  | "user" => some user
  | "watch" => some watch
  | "unary-watch" => some repeated
  | "route" => some route
  | "wallet-server" => some walletServer
  | "price-server" => some priceServer
  | _ => none

def name : Key → String
  | user => "user"
  | watch => "watch"
  | repeated => "unary-watch"
  | route => "route"
  | walletServer => "wallet-server"
  | priceServer => "price-server"

def takesValue : Key → Bool
  | watch | repeated => false
  | _ => true

/-- Set an option; the value of one without value does not matter. -/
def set (q : Query) (value : String) : Key → Except String Query
  | user => match User.ofName? value with
    | some u => .ok { q with user := u }
    | none => .error ("invalid value '" ++ value ++ "' for '--user <USER>'")
  | watch => .ok { q with watch := true }
  | repeated => .ok { q with repeated := true }
  | route => .ok { q with route? := some value }
  | walletServer => .ok { q with walletServer := value }
  | priceServer => .ok { q with priceServer := value }

end Key

def isOption (s : String) : Bool := s.startsWith "-" && s ≠ "-"

def unexpected (s : String) : String := "unexpected argument '" ++ s ++ "' found"

def splitLong (s : String) : String × Option String :=
  let cs := s.toList.drop 2
  (String.ofList (cs.takeWhile (· ≠ '=')),
    if cs.contains '=' then some (String.ofList ((cs.dropWhile (· ≠ '=')).drop 1)) else none)

inductive Options where
  | query (q : Query)
  | help

def noValue (key : Key) : String :=
  "a value is required for '--" ++ key.name ++ "' but none was supplied"

/-- Judge an argument that stands where an option may begin. The result is the option, and its value
where there is one already. -/
def readKey (seen : List Key) (s : String) : Except String (Key × Option String) :=
  if !s.startsWith "--" then .error (unexpected s)
  else match Key.ofName? (splitLong s).1, (splitLong s).2 with
    | none, _ => .error (unexpected s)
    | some key, value? =>
      if seen.contains key then
        .error ("the argument '--" ++ key.name ++ "' cannot be used multiple times")
      else if key.takesValue then .ok (key, value?)
      else match value? with
        | some v => .error ("unexpected value '" ++ v ++ "' for '--" ++ key.name ++ "' found")
        | none => .ok (key, some "")

/-- Read the options of a command, of which some were given already, and one may wait for its
value. -/
def readOptions : Query → List Key → Option Key → List String → Except String Options
  | q, _, none, [] => .ok (.query q)
  | _, _, some key, [] => .error (noValue key)
  | q, seen, some key, s :: rest =>
    if isOption s then .error (noValue key)
    else match key.set q s with
      | .ok q' => readOptions q' seen none rest
      | .error e => .error e
  | q, seen, none, s :: rest =>
    if s = "--help" ∨ s.startsWith "-h" then .ok .help
    else if s = "--" then
      match rest with
      | [] => .ok (.query q)
      | s' :: _ => .error (unexpected s')
    else match readKey seen s with
      | .error e => .error e
      | .ok (key, none) => readOptions q (key :: seen) (some key) rest
      | .ok (key, some v) => match key.set q v with
        | .ok q' => readOptions q' (key :: seen) none rest
        | .error e => .error e

def checkOptions (q : Query) : Except String Query :=
  if q.watch && q.repeated then
    .error "the argument '--watch' cannot be used with '--unary-watch'"
  else .ok q

def readHelp : List String → Except String Request
  | [] => .ok (.help .all)
  | ["help"] => .ok (.help .help)
  | [s] => match Verb.ofName? s with
    | some v => .ok (.help (.verb v))
    | none => .error ("unrecognized subcommand '" ++ s ++ "'")
  | s :: _ => .error ("unrecognized subcommand '" ++ s ++ "'")

def read : List String → Except String Request
  | [] => .error "a command is required"
  | s :: rest =>
    if s = "--help" ∨ s.startsWith "-h" then .ok (.help .all)
    else if s = "--version" ∨ s.startsWith "-V" then .ok .version
    else if s = "help" then readHelp rest
    else match Verb.ofName? s with
      | none =>
        .error (if isOption s then unexpected s else "unrecognized subcommand '" ++ s ++ "'")
      | some verb =>
        match readOptions {} [] none rest with
        | .error e => .error e
        | .ok .help => .ok (.help (.verb verb))
        | .ok (.query q) => (checkOptions q).map (.run verb)

end WalletWatch.Command
