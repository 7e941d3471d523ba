import WalletWatch.Command.Run
import WalletWatch.Node.Basic

set_option autoImplicit false

/-!
# Starting a node

A node starts from its settings file, tells that it runs, and stops when a signal asks it to. It
does not start with settings that are refused.
-/

namespace WalletWatch.Command

def nodeLine (level : Level) (message : String) : String := line level "coinwallet_server" message

def notStarted (f : Failure) : Report where
  exit := 1
  output := [nodeLine .error ("coinwallet-server failed error=" ++ f.display)]

def served (path hostname : String) (s : Settings) (address : SocketAddress) : Report where
  output :=
    [line .info "coinwallet_server::app_state"
        ("service built role=" ++ quoted s.role.name ++ " hostname=" ++ hostname),
      nodeLine .info ("coinwallet-server starting listen=" ++ address.render ++ " role=" ++
        quoted s.role.name ++ " config=" ++ path),
      nodeLine .info "signal received, starting graceful shutdown",
      nodeLine .info "coinwallet-server stopped"]

/-- Start a node from a settings file, given what reading the file made and what the machine is
called. -/
def startNode (path : String) (contents : Except String String) (machine? : Option String)
    (generated : String) : Report :=
  match Settings.loadFile path contents with
  | .error f => notStarted f
  | .ok s => match s.listenAddress with
    | .error f => notStarted f
    | .ok a => served path (Host.name machine? generated s.server.hostnameSuffix) s a

end WalletWatch.Command
