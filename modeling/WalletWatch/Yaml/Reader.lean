import WalletWatch.Yaml.Scanner

set_option autoImplicit false

/-!
# Reading YAML

The tokens of a text make up one document. An alias stands for the last node of its name that began
in front of it, and cannot stand inside of that node.
-/

namespace WalletWatch.Yaml

structure Reader where
  tokens : List Token
  /-- The nodes with a name, as far as they are read, in the order in which they begin. -/
  named : Array (String × Option Node) := #[]

namespace Reader

def at? (kinds : List Token) (r : Reader) : Bool := r.tokens.head?.any kinds.contains

def skip (r : Reader) : Reader := { r with tokens := r.tokens.drop 1 }

def lookup? (name : String) (r : Reader) : Option Node :=
  (r.named.toList.reverse.find? (·.1 = name)).bind Prod.snd

def begin (name? : Option String) (r : Reader) : Reader :=
  { r with named := r.named ++ name?.toArray.map (·, none) }

/-- A node with a name is read that was the one behind some others. -/
def finish (name? : Option String) (place : Nat) (n : Node) (r : Reader) : Reader :=
  { r with named := name?.elim r.named fun name => r.named.setIfInBounds place (name, some n) }

end Reader

def defaultHandles : List (String × String) := [("!", "!"), ("!!", "tag:yaml.org,2002:")]

def fullTag? (handles : List (String × String)) (handle suffix : String) : Option String :=
  if handle.isEmpty then some suffix
  else (handles.find? (·.1 = handle)).map fun h => h.2 ++ suffix

def properties? (handles : List (String × String)) (r : Reader) :
    Option (Option String × Option String × Reader) :=
  match r.tokens with
  | .anchor name :: .tag handle suffix :: rest | .tag handle suffix :: .anchor name :: rest => do
    return (some name, some (← fullTag? handles handle suffix), { r with tokens := rest })
  | .anchor name :: rest => some (some name, none, { r with tokens := rest })
  | .tag handle suffix :: rest => do
    return (none, some (← fullTag? handles handle suffix), { r with tokens := rest })
  | _ => some (none, none, r)

section

variable (handles : List (String × String))

mutual

/-- A node. Blocks can only stand outside of brackets, and a list without indentation only in a map
in block form. -/
def node (block dashes : Bool) : Nat → Reader → Option (Node × Reader)
  | 0, _ => none
  | bound + 1, r =>
    match r.tokens with
    | .alias name :: _ => do return (← r.lookup? name, r.skip)
    | _ => do
      let (name?, tag?, r) ← properties? handles r
      let place := r.named.size
      let (n, r) ← content block dashes bound name?.isSome tag? (r.begin name?)
      return (n, r.finish name? place n)

/-- What stands behind the name and the tag of a node. Behind one of these it may be left out. -/
def content (block dashes : Bool) :
    Nat → Bool → Option String → Reader → Option (Node × Reader)
  | 0, _, _, _ => none
  | bound + 1, named, tag?, r =>
    match r.tokens with
    | .scalar style text :: _ => some (.scalar (tag?.filter (· ≠ "!")) style text, r.skip)
    | .listStart :: _ => do
      let (items, r) ← listItems bound true [] r.skip
      return (.list tag? items, r)
    | .mapStart :: _ => do
      let (entries, r) ← mapEntries bound true [] r.skip
      return (.map tag? entries, r)
    | _ =>
      if dashes && r.at? [.blockEntry] then do
        let (items, r) ← dashedItems bound [] r
        return (.list tag? items, r)
      else if block && r.at? [.blockListStart] then do
        let (items, r) ← blockItems bound [] r.skip
        return (.list tag? items, r)
      else if block && r.at? [.blockMapStart] then do
        let (entries, r) ← blockEntries bound [] r.skip
        return (.map tag? entries, r)
      else if named || tag?.isSome then some (.scalar tag? .plain "", r)
      else none

def optional (stops : List Token) (block dashes : Bool) : Nat → Reader → Option (Node × Reader)
  | 0, _ => none
  | bound + 1, r => if r.at? stops then some (.empty, r) else node block dashes bound r

def valueBefore (stops : List Token) (block : Bool) : Nat → Reader → Option (Node × Reader)
  | 0, _ => none
  | bound + 1, r =>
    if r.at? [.value] then optional stops block block bound r.skip else some (.empty, r)

def blockItems : Nat → List Node → Reader → Option (List Node × Reader)
  | 0, _, _ => none
  | bound + 1, acc, r => do
    if r.at? [.blockEnd] then return (acc.reverse, r.skip)
    else if r.at? [.blockEntry] then
      let (n, r) ← optional [.blockEntry, .blockEnd] true false bound r.skip
      blockItems bound (n :: acc) r
    else none

/-- The items of a list that is indented no further than the map that it is in. -/
def dashedItems : Nat → List Node → Reader → Option (List Node × Reader)
  | 0, _, _ => none
  | bound + 1, acc, r => do
    if r.at? [.blockEntry] then
      let (n, r) ← optional [.blockEntry, .key, .value, .blockEnd] true false bound r.skip
      dashedItems bound (n :: acc) r
    else return (acc.reverse, r)

def blockEntries : Nat → List (Node × Node) → Reader → Option (List (Node × Node) × Reader)
  | 0, _, _ => none
  | bound + 1, acc, r => do
    if r.at? [.blockEnd] then return (acc.reverse, r.skip)
    else if r.at? [.key] then
      let stops : List Token := [.key, .value, .blockEnd]
      let (k, r) ← optional stops true true bound r.skip
      let (v, r) ← valueBefore stops true bound r
      blockEntries bound ((k, v) :: acc) r
    else none

/-- The items of a list in brackets, from behind the opening one. An item may be a single entry of a
map. -/
def listItems : Nat → Bool → List Node → Reader → Option (List Node × Reader)
  | 0, _, _, _ => none
  | bound + 1, first, acc, r => do
    if r.at? [.listEnd] then return (acc.reverse, r.skip)
    else if !first && !r.at? [.entry] then none
    else
      let r := if first then r else r.skip
      if r.at? [.listEnd] then return (acc.reverse, r.skip)
      else if r.at? [.key] then
        let (k, r) ← optional [.value, .entry, .listEnd] false false bound r.skip
        let (v, r) ← valueBefore [.entry, .listEnd] false bound r
        listItems bound false (.map none [(k, v)] :: acc) r
      else
        let (n, r) ← node false false bound r
        listItems bound false (n :: acc) r

def mapEntries : Nat → Bool → List (Node × Node) → Reader → Option (List (Node × Node) × Reader)
  | 0, _, _, _ => none
  | bound + 1, first, acc, r => do
    if r.at? [.mapEnd] then return (acc.reverse, r.skip)
    else if !first && !r.at? [.entry] then none
    else
      let r := if first then r else r.skip
      if r.at? [.mapEnd] then return (acc.reverse, r.skip)
      else if r.at? [.key] then
        let (k, r) ← optional [.value, .entry, .mapEnd] false false bound r.skip
        let (v, r) ← valueBefore [.entry, .mapEnd] false bound r
        mapEntries bound false ((k, v) :: acc) r
      else
        let (k, r) ← node false false bound r
        mapEntries bound false ((k, .empty) :: acc) r

end

end

def directives? : List Token → Bool → List (String × String) →
    Option (List (String × String) × List Token)
  | .version major minor :: rest, versioned, handles =>
    if versioned || major ≠ 1 || (minor ≠ 1 && minor ≠ 2) then none
    else directives? rest true handles
  | .handle name full :: rest, versioned, handles =>
    if handles.any (·.1 = name) then none
    else directives? rest versioned ((name, full) :: handles)
  | rest, _, handles => some (handles ++ defaultHandles, rest)

def document? (tokens : List Token) : Option Node := do
  let bound := 4 * tokens.length + 4
  let (handles, rest) ← directives? tokens false []
  let (n, r) ← match rest with
    | [] => none
    | .documentStart :: rest =>
      if rest.isEmpty || ({ tokens := rest } : Reader).at? [.documentStart, .documentEnd] then
        some (.empty, { tokens := rest })
      else node handles true false bound { tokens := rest }
    | _ =>
      -- Behind directives a document has to be begun by its mark.
      if rest.length < tokens.length then none
      else node handles true false bound { tokens := rest }
  if r.tokens.all (· = .documentEnd) then return n else none

def read (text : String) : Except String Node :=
  match (tokens? text).bind document? with
  | some n => .ok n
  | none => .error "not a document"

end WalletWatch.Yaml
