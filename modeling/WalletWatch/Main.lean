import WalletWatch.Command.Run

set_option autoImplicit false

/-!
# The command line

Prints the report of a run and exits with its status. It has no network of its own, so that no
service elsewhere can be reached.
-/

open WalletWatch

def main (args : List String) : IO UInt32 := do
  let (report, _) := (Command.run .unreachable args).run {}
  for l in report.output do
    IO.println l
  for l in report.errors do
    IO.eprintln l
  return UInt32.ofNat report.exit
