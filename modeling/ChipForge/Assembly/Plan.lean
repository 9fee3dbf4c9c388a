import ChipForge.Assembly.Request

/-! The plan of a chip: a request for every node of a graph, and where each node stands among them. -/
namespace ChipForge.Assembly

/-- The variable a node stands for. -/
structure VariableRole where
  key : Json
  gateType : Option Json

/-- What becomes of a node. -/
structure Placement where
  friendlyName : String
  gameName : Json
  order : Nat
  newId : Json
  opType : Option String
  modifiable : Bool
  role : Option VariableRole

def Placement.toJson (p : Placement) : Json :=
  .obj ([("friendly_name",.str p.friendlyName),("game_name",p.gameName),("order_index",.int p.order),
    ("new_full_id",p.newId),("op_type",optionJson p.opType),("can_modify_data_type",.bool p.modifiable)] ++
    match p.role with
    | some r =>
      [("var_key",r.key)]++(match r.gateType with
        | some t => [("var_gate_type",t)]
        | none => [])
    | none => [])

structure Plan where
  requests : List Request
  placements : Table Placement

/-- Code of a type by its name in a declaration of a variable, zero if it names none. -/
def storageCode (name : String) : Int :=
  match GateType.ofWord? GateType.storageWords (Text.lower (Text.trim name)) with
  | some t => t.code
  | none => 0

def roleType (gateType : Json) : Option Json :=
  if !gateType.truthy then none
  else match gateType with
    | .str s => some (.int (storageCode s))
    | other => some other

def roleOf : Request→Option VariableRole
  | .variable key gateType _ => some ⟨key,roleType gateType⟩
  | _ => none

def kindOf (index : Index) (node : Json) : Except Failure ChipKind := do
  let type ← node.item "type"
  let key := Text.nameKey (← type.text "lower")
  match (← Text.Similarity.closestName chipThreshold key index.keys).bind index.find with
  | some kind => pure kind
  | none =>
    let id ← node.item "id"
    throw (.reportOf .pipeline ("无法识别模块类型 \"" ++ type.plain ++ "\"")
      [("node_id",id),("node_type",type),("stage",.str "graph解析")])

def isSpecial (word : String) : Bool := ["input","output","constant","variable"].contains word

def requestOf (kind : ChipKind) (node : Json) (c : VariableContext) :
    Except Failure (Request×VariableContext) := do
  let word := Text.lower kind.friendlyName
  if isSpecial word then
    let (request,c') ← requestSpecial word node (some (.str kind.friendlyName)) (some c)
    pure (request,c'.getD c)
  else pure (.module kind.friendlyName,c)

def planNodes (index : Index) : Plan→VariableContext→List Json→Except Failure (Plan×VariableContext)
  | plan, c, [] => .ok (plan,c)
  | plan, c, node::rest => do
    let kind ← kindOf index node
    let (request,c) ← requestOf kind node c
    let id ← nodeId node
    let placement : Placement :=
      ⟨kind.friendlyName,kind.gameName,plan.requests.length,.null,kind.opType,kind.modifiable,roleOf request⟩
    planNodes index ⟨plan.requests++[request],plan.placements.put id placement⟩ c rest

def planOf (graph : Json) (index : Index) : Except Failure Plan := do
  let given ← ((← graph.field "variables").orElse (.arr [])).each
  let definitions ← definitionsByKey Table.empty given
  let names ← keysByName Table.empty given
  let nodes ← (← graph.fieldOr "nodes" (.arr [])).each
  let wires ← ((← graph.field "edges").orElse (.arr [])).each
  let keys ← variableKeys definitions names nodes wires
  let listed ← (← graph.item "nodes").each
  let (plan,c) ← planNodes index ⟨[],Table.empty⟩ ⟨definitions,keys,Table.empty,[]⟩ listed
  let unused ← requestUnused c
  pure { plan with requests := plan.requests++unused }

end ChipForge.Assembly
