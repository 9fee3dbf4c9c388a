import ChipForge.Assembly.Ports

/-! Which variable each VARIABLE node of a graph stands for: by the name it carries, by a text constant fed into its value,
or by another VARIABLE node fed into it. -/
namespace ChipForge.Assembly

def isOfType (node : Json) (word : String) : Except Failure Bool := do
  let type ← node.fieldOr "type" (.str "")
  pure (Text.lower type.plain == word)

def nodeId (node : Json) : Except Failure String := do (← node.item "id").toFieldName

def nodeAttrs (node : Json) : Except Failure Json := do pure ((← node.field "attrs").orElse (.obj []))

def definitionsByKey : Table Json→List Json→Except Failure (Table Json)
  | table, [] => .ok table
  | table, d::rest => do
    match ← d.field "Key" with
    | .str key => definitionsByKey (table.put key d) rest
    | _ => definitionsByKey table rest

def keysByName : Table String→List Json→Except Failure (Table String)
  | table, [] => .ok table
  | table, d::rest => do
    match ← d.field "Key", ← d.field "dsl_name" with
    | .str key, .str name => keysByName (table.put name key) rest
    | _, _ => keysByName table rest

def nodesById : Table Json→List Json→Except Failure (Table Json)
  | table, [] => .ok table
  | table, n::rest => do
    let id ← nodeId n
    nodesById (table.put id n) rest

def variableNodes : List Json→Except Failure (List (String×Json))
  | [] => .ok []
  | n::rest => do
    if ← isOfType n "variable" then
      let id ← nodeId n
      let others ← variableNodes rest
      pure ((id,n)::others)
    else variableNodes rest

/-- The key of the variable whose name a node carries. -/
def ownKey? (names : Table String) (node : Json) : Except Failure (Option String) := do
  let attrs ← nodeAttrs node
  let name := (← attrs.field "dsl_name").orElse (← attrs.field "var_key")
  pure (name.asStr?.bind names.find)

def entersValue (wire : Json) (id : String) : Bool :=
  match wire.get? "to_node", wire.get? "to_port" with
  | some (.str node), some (.str port) => node == id && port == "Value"
  | _, _ => false

def sourceOf (wire : Json) : Json := (wire.get? "from_node").getD .null

/-- What feeds the value of a node, in the order of the wires. -/
def valueSources (wires : List Json) (id : String) : List Json := (wires.filter (entersValue · id)).map sourceOf

def heldText? (node : Json) : Except Failure (Option String) := do
  if ← isOfType node "constant" then pure (← (← nodeAttrs node).field "value").asStr? else pure none

def sourceText? (nodes : Table Json) (source : Json) : Except Failure (Option String) := do
  match nodes.find (← source.toFieldName) with
  | some up => heldText? up
  | none => pure none

/-- The first text constant among sources that is the key of a variable. -/
def constantKey? (definitions nodes : Table Json) : List Json→Except Failure (Option String)
  | [] => .ok none
  | source::rest => do
    match ← sourceText? nodes source with
    | some s => if definitions.has s then pure (some s) else constantKey? definitions nodes rest
    | none => constantKey? definitions nodes rest

def giveKeys (find? : String→Json→Except Failure (Option String)) :
    Table String→List (String×Json)→Except Failure (Table String)
  | keys, [] => .ok keys
  | keys, (id,n)::rest => do
    match ← find? id n with
    | some key => giveKeys find? (keys.put id key) rest
    | none => giveKeys find? keys rest

def variableFeeders (nodes : Table Json) : List Json→Except Failure (List String)
  | [] => .ok []
  | source::rest => do
    let id ← source.toFieldName
    let others ← variableFeeders nodes rest
    match nodes.find id with
    | some up => pure (if ← isOfType up "variable" then id::others else others)
    | none => pure others

/-- A VARIABLE node and those that feed its value. -/
structure Link where
  id : String
  feeders : List String

/-- A node without key takes the key of its first feeder that has one. -/
def inheritKey (keys : Table String) (link : Link) : Table String :=
  if keys.has link.id then keys
  else
    match link.feeders.findSome? keys.find with
    | some key => keys.put link.id key
    | none => keys

def inheritOnce (links : List Link) (keys : Table String) : Table String := links.foldl inheritKey keys

/-- Passes until nothing changes. Every pass but the last gives a key to another node, so their number bounds them. -/
def inherit : Nat→List Link→Table String→Table String
  | 0, _, keys => keys
  | fuel+1, links, keys =>
    let next := inheritOnce links keys
    if next.toList.length == keys.toList.length then keys else inherit fuel links next

def linkOf (nodes : Table Json) (wires : List Json) (id : String) : Except Failure Link := do
  pure ⟨id,← variableFeeders nodes (valueSources wires id)⟩

/-- The keys that nodes have of themselves, and the nodes that may inherit one. -/
structure KeySearch where
  keys : Table String
  links : List Link

def withoutKey (keys : Table String) (owners : List (String×Json)) : List (String×Json) :=
  owners.filter fun owner => !keys.has owner.1

def keySearch (definitions : Table Json) (names : Table String) (nodes wires : List Json) :
    Except Failure KeySearch := do
  let byId ← nodesById Table.empty nodes
  discard (wires.mapM fun w => w.field "to_node")
  let owners ← variableNodes nodes
  let named ← giveKeys (fun _ n => ownKey? names n) Table.empty owners
  let keys ← giveKeys (fun id _ => constantKey? definitions byId (valueSources wires id)) named (withoutKey named owners)
  let links ← (withoutKey keys owners).mapM fun owner => linkOf byId wires owner.1
  pure ⟨keys,links⟩

def variableKeys (definitions : Table Json) (names : Table String) (nodes wires : List Json) :
    Except Failure (Table String) := do
  let search ← keySearch definitions names nodes wires
  pure (inherit (search.links.length+1) search.links search.keys)

end ChipForge.Assembly
