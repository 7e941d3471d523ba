import WalletWatch.Command.Arguments
import WalletWatch.Remote.Client

set_option autoImplicit false

/-!
# Running a command

A command asks a service elsewhere, and tells what it gets line by line. A single balance that
cannot be had is a warning; every other failure ends the command.
-/

namespace WalletWatch.Command

structure Report where
  exit : Nat := 0
  output : List String := []
  errors : List String := []
  deriving DecidableEq

def quoted (s : String) : String :=
  "\"" ++ String.ofList (s.toList.flatMap fun c =>
    if c = '"' then ['\\', '"'] else if c = '\\' then ['\\', '\\']
    else if c = '\n' then ['\\', 'n'] else if c = '\r' then ['\\', 'r']
    else if c = '\t' then ['\\', 't'] else [c]) ++ "\""

def line (level : Level) (target message : String) : String :=
  level.name ++ " " ++ target ++ ": " ++ message

/-- A character of a message as it is shown: control characters that a terminal obeys are spelled
out. -/
def spelled (c : Char) : List Char :=
  if "\x1b\x07\x08\x0c\x7f".toList.contains c || (0x80 ≤ c.toNat && c.toNat ≤ 0x9F) then
    if c.toNat < 0x80 then
      ['\\', 'x', Json.hexDigit (c.toNat / 16), Json.hexDigit (c.toNat % 16)]
    else
      "\\u\x7b".toList ++ [Json.hexDigit (c.toNat / 16), Json.hexDigit (c.toNat % 16), '}']
  else [c]

def tellLine (level : Level) (message : String) : String :=
  line level "coinwallet" (String.ofList (message.toList.flatMap spelled))

def say (message : String) : String := tellLine .info message

def hostLine (service : String) : Option String → String
  | some host => line .info "coinwallet_server::obs"
      ("server host upstream=" ++ quoted service ++ " server_host=" ++ host)
  | none => line .warn "coinwallet_server::obs"
      ("server host: no hostname upstream=" ++ quoted service)

def balanceLines (u : User) (b : Balance) : List String :=
  say ("user: " ++ u.name ++ ", total coin balance: " ++ toString b.total ++ ".") ::
    b.addresses.map fun a =>
      say (" - address: " ++ a.address ++ ", balance: " ++ toString a.balance ++ ".")

def priceLines (q : PriceQuote) : List String := [say ("coin price: " ++ toString q.price ++ ".")]

def metadata (q : Query) : Metadata :=
  let m := Metadata.credentials q.user.token q.user.tier
  match q.route? with
  | some r => if r.isEmpty then m else m.insert Metadata.routeKey r
  | none => m

def failed (output : List String) (f : Failure) : Report :=
  { exit := 1, output := output, errors := ["Error: " ++ f.display] }

def tell {α : Type} (lines : α → List String) : List String → List (Item α) → Report
  | output, [] => { output := output }
  | output, .ok a :: rest => tell lines (output ++ lines a) rest
  | output, .error f :: _ => failed output f

def dialTimeout : Millis := 10000

def clientOf (network : Network) (address : String) : Client where
  network := network
  peer := Peer.ofAddress address dialTimeout

def follow {α : Type} (service : String) (lines : α → List String)
    (ask : Call (Envelope (List (Item α)))) : StateM World Report := do
  match ← ask.run with
  | .error f => return failed [] f
  | .ok e => return tell lines [hostLine service e.hostname?] e.payload

def balanceOnce (network : Network) (q : Query) : StateM World Report := do
  match ← ((clientOf network q.walletServer).fetchBalance ⟨⟨true⟩, metadata q⟩).run with
  | .ok e =>
    return { output := hostLine "wallet" e.hostname? :: balanceLines q.user e.payload }
  | .error f =>
    return { output := [tellLine .warn ("failed to fetch balance: " ++ f.display)] }

def priceOnce (network : Network) (q : Query) : StateM World Report := do
  match ← ((clientOf network q.priceServer).fetchPrice ⟨{}, metadata q⟩).run with
  | .ok e => return { output := hostLine "price" e.hostname? :: priceLines e.payload }
  | .error f => return failed [] f

/-- Run a command. A balance that is asked for again and again is asked for once here. -/
def perform (network : Network) (q : Query) : Verb → StateM World Report
  | .balance =>
    if q.watch then
      follow "wallet" (balanceLines q.user)
        ((clientOf network q.walletServer).watchBalance ⟨⟨true⟩, metadata q⟩)
    else balanceOnce network q
  | .price =>
    if q.repeated then
      return { exit := 1
               errors := ["Error: --unary-watch is incompatible with the price subcommand"] }
    else if q.watch then
      follow "price" priceLines ((clientOf network q.priceServer).watchPrice (metadata q))
    else priceOnce network q

def version : String := "coinwallet 0.1.0"

def generalHelp : List String :=
  ["Query balances and prices from a coinwallet deployment", "",
    "Usage: coinwallet <COMMAND>", "",
    "Commands:",
    "  balance  Print the wallet balance",
    "  price    Print the coin price",
    "  help     Print this message or the help of the given subcommand(s)", "",
    "Options:",
    "  -h, --help     Print help",
    "  -V, --version  Print version"]

def verbHelp (v : Verb) : List String :=
  [v.about, "", "Usage: coinwallet " ++ v.name ++ " [OPTIONS]", "", "Options:",
    "      --user <USER>                    " ++
      "Account to act as [default: alice] [possible values: alice, bob]",
    "      --watch                          Stream updates instead of querying once",
    "      --unary-watch                    " ++
      "Repeat the one-shot query every second (balance only)",
    "      --route <ROUTE>                  Value for the \x60route\x60 header",
    "      --wallet-server <WALLET_SERVER>  " ++
      "Wallet service base URL [default: http://localhost:18881]",
    "      --price-server <PRICE_SERVER>    " ++
      "Price service base URL [default: http://localhost:18882]",
    "  -h, --help                           Print help"]

def helpHelp : List String :=
  ["Print this message or the help of the given subcommand(s)", "",
    "Usage: coinwallet help [COMMAND]...", "",
    "Arguments:",
    "  [COMMAND]...  Print help for the subcommand(s)"]

def helpOn : Topic → List String
  | .all => generalHelp
  | .verb v => verbHelp v
  | .help => helpHelp

def run (network : Network) (args : List String) : StateM World Report :=
  match read args with
  | .error e => return { exit := 2, errors := ["error: " ++ e] }
  | .ok .version => return { output := [version] }
  | .ok (.help topic) => return { output := helpOn topic }
  | .ok (.run verb q) => perform network q verb

end WalletWatch.Command
