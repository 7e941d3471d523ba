set_option autoImplicit false

/-!
# Log events

What the services tell their operators: a level, a fixed message, and named fields as text.
-/

namespace WalletWatch

inductive Level where
  | debug
  | info
  | warn
  | error
  deriving DecidableEq, Repr

def Level.name : Level → String
  | debug => "DEBUG"
  | info => "INFO"
  | warn => "WARN"
  | error => "ERROR"

structure LogEvent where
  level : Level
  message : String
  fields : List (String × String) := []
  deriving DecidableEq, Repr

def LogEvent.serverHost (service : String) : Option String → LogEvent
  | some host => ⟨.info, "server host", [("upstream", service), ("server_host", host)]⟩
  | none => ⟨.warn, "server host: no hostname", [("upstream", service)]⟩

end WalletWatch
