set_option autoImplicit false

/-!
# YAML documents

A document is a tree of scalars, lists and maps, where an alias stands for what it names. A scalar
keeps its text and how it was written; what the text means is up to whoever asks for a value.
-/

namespace WalletWatch.Yaml

inductive Style where
  | plain
  | quoted
  | literal
  | folded
  deriving DecidableEq

/-- The tag of a node is the whole one, whatever handle it was written with. -/
inductive Node where
  | scalar (tag? : Option String) (style : Style) (text : String)
  | list (tag? : Option String) (items : List Node)
  | map (tag? : Option String) (entries : List (Node × Node))

def Node.empty : Node := .scalar none .plain ""

instance : Inhabited Node := ⟨.empty⟩

end WalletWatch.Yaml
