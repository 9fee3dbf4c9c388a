import ChipForge.Json.Writer
import ChipForge.Save.Entry
import ChipForge.Table

/-! Connecting ports. Each connection is noted at both of its ends; one that cannot be made is reported and passed over. -/
namespace ChipForge.Save

def squeezedId (id : Json) : Except Failure String :=
  match id with
  | .str s => .ok (Text.squeeze s)
  | other => .error (.fault .wrongKind ("expected string or bytes-like object, got '" ++ other.kindName ++ "'"))

def enterPorts : Table Json→List Json→Except Failure (Table Json)
  | table, [] => .ok table
  | table, port::rest => do
    let id ← (← port.item "Id").toFieldName
    enterPorts (table.put id port) rest

/-- Numbers of nodes by their ids without blanks, and ports by their ids. -/
def indexNodes : Nat→Table Nat→Table Json→List Json→Except Failure (Table Nat×Table Json)
  | _, nodes, ports, [] => .ok (nodes,ports)
  | i, nodes, ports, node::rest => do
    let id ← squeezedId (← node.item "Id")
    let ports ← enterPorts ports (← (← node.fieldOr "Inputs" (.arr [])).each)
    let ports ← enterPorts ports (← (← node.fieldOr "Outputs" (.arr [])).each)
    indexNodes (i+1) (nodes.put id i) ports rest

/-- Steps of a connection; what was done before a failure stays done. -/
abbrev Wire := ExceptT Failure (StateM (List Json))

def nodeAt (i : Nat) : Wire Json := do pure ((← get)[i]?.getD .null)

def changePort (i : Nat) (side : String) (port : Nat) (f : Json→Json) : Wire Unit :=
  modify fun nodes => nodes.modify i fun node => node.update side fun ports => ports.updateAt port f

def noteSource (node port : Nat) (old source : Json) : Wire Unit := do
  let changed ← old.assign "connectedOutputIdModel" source
  changePort node "Inputs" port fun _ => changed

def noteTarget (node port : Nat) (old : Json) (target : Except Failure Json) : Wire Unit := do
  let list := (old.get? "ConnectedInputsIds").getD (.arr [])
  changePort node "Outputs" port fun p => if (p.get? "ConnectedInputsIds").isSome then p else p.set "ConnectedInputsIds" (.arr [])
  match list with
  | .arr _ =>
    let more ← list.append (← target)
    changePort node "Outputs" port fun p => p.set "ConnectedInputsIds" more
  | other => (Json.noMember other "append" : Except Failure Unit)

def reference (port node : Json) : Except Failure Json := do
  let id ← port.item "Id"
  pure (.obj [("Id",id),("NodeId",← node.item "Id")])

def connect (index : Table Nat) (connection sourceId targetId : Json) : Wire Unit := do
  let sourceKey ← squeezedId sourceId
  let targetKey ← squeezedId targetId
  let sourceIndex ← connection.item "from_port_index"
  let targetIndex ← connection.item "to_port_index"
  match index.find sourceKey, index.find targetKey with
  | some s, some t =>
    let source ← nodeAt s
    let target ← nodeAt t
    let (i,output) ← (← source.item "Outputs").pick sourceIndex
    let (j,input) ← (← target.item "Inputs").pick targetIndex
    let origin ← reference output source
    noteSource t j input origin
    noteTarget s i output (reference input target)
  | _, _ =>
    throw (.refusal .missingKey ("节点ID不存在: from='" ++ sourceId.plain ++ "' or to='" ++ targetId.plain ++ "'"))

def idHead (id : Json) : String := Text.trim (Text.firstPart id.plain ":")

def madeText (number : Nat) (connection sourceId targetId : Json) : String :=
  let port (key : String) : String := ((connection.get? key).getD .null).plain
  "  第 " ++ toString number ++ " 条连接成功: " ++ idHead sourceId ++ "[" ++ port "from_port_index" ++ "] → " ++
    idHead targetId ++ "[" ++ port "to_port_index" ++ "]"

def failedText (number : Nat) (connection : Json) (f : Failure) : String :=
  "  第 " ++ toString number ++ " 条连接失败: 指令 " ++ connection.plain ++ " -> 错误: " ++ f.text

def isPassable : Failure→Bool
  | .fault .missingKey _ => true
  | .fault .outOfRange _ => true
  | .refusal .missingKey _ => true
  | _ => false

/-- Makes connections in turn. Gives the nodes and how many were made. -/
def connectEach (index : Table Nat) : Nat→Nat→List Json→List Json→Edit (List Json×Nat)
  | _, count, nodes, [] => pure (nodes,count)
  | number, count, nodes, connection::rest => do
    let sourceId ← connection.item "from_node_id"
    let targetId ← connection.item "to_node_id"
    match (connect index connection sourceId targetId).run nodes with
    | (.ok _,nodes) =>
      say (madeText number connection sourceId targetId)
      connectEach index (number+1) (count+1) nodes rest
    | (.error f,nodes) =>
      if isPassable f then
        say (failedText number connection f)
        connectEach index (number+1) count nodes rest
      else throw f

def readableGraph (save : Json) : Except Failure (Option (Slot×Json)) := do
  match ← findEntry "chip_graph" save with
  | none => pure none
  | some (slot,entry) =>
    match (← entry.fieldOr "stringValue" (.str "")).parseText with
    | .ok graph => pure (some (slot,graph))
    | .error (.fault .malformedJson _) => pure none
    | .error f => throw f

/-- Makes connections in the save; gives how many were made, or none if there is no graph. The name is that of the file the
save was read from. -/
def connectAll (connections : Json) (source : String) : Edit (Option Nat) := do
  let save ← getSave
  match ← readableGraph save with
  | some (slot,graph) =>
    if graph.isNull then lacking
    else
      let listed ← graph.fieldOr "Nodes" (.arr [])
      let (index,_) ← indexNodes 0 Table.empty Table.empty (← listed.each)
      let (nodes,count) ← connectEach index 1 0 (← listed.each) (← connections.each)
      let graph := graph.update "Nodes" fun v => v.withItems nodes
      setSave (setText slot (Json.write Json.Style.spaced.unicode graph) save)
      pure (some count)
  | none => lacking
where
  lacking : Edit (Option Nat) := do
    say ("错误：未在 '" ++ source ++ "' 中找到 chip_graph 字段")
    pure none

def connectedText (connections : Json) (count : Nat) (target : String) : Except Failure String := do
  pure ("\n批量连接完成, " ++ toString count ++ "/" ++ toString (← connections.size) ++ " 条成功。结果已写入 “" ++ target ++ "”")

end ChipForge.Save
