import WalletWatch.Text.Blank

set_option autoImplicit false

/-!
# Instance names

Every response names the instance that made it: the name the machine goes by, and a suffix where the
configuration gives one.
-/

namespace WalletWatch.Host

/-- The name of the machine without blanks around it, or `generated` where it has none. -/
def base (machine? : Option String) (generated : String) : String :=
  match machine? with
  | some m => if (trimBlanks m).isEmpty then generated else trimBlanks m
  | none => generated

def name (machine? : Option String) (generated suffix : String) : String :=
  if suffix.isEmpty then base machine? generated
  else base machine? generated ++ "_" ++ suffix

end WalletWatch.Host
