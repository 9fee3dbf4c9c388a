import ChipForge.Json.Writer
import ChipForge.Number
import ChipForge.Save.Edit
import ChipForge.Save.Schema

/-! New nodes of a graph: the ends of a chip, constants and modules of the catalogue. -/
namespace ChipForge.Save
open Text

/-- A port that takes a value. -/
structure InPort where
  id : String
  type : Json

def InPort.toJson (p : InPort) : Json :=
  .obj [("Id",.str p.id),("DataType",p.type),("connectedOutputIdModel",.null)]

/-- A port that gives a value. -/
structure OutPort where
  id : String
  type : Json

def OutPort.toJson (p : OutPort) : Json :=
  .obj [("Id",.str p.id),("DataType",p.type),("ConnectedInputsIds",.arr [])]

/-- A node that has just been made. -/
structure Node where
  id : String
  operation : Json
  inputs : List InPort
  outputs : List OutPort
  /-- Key of the entry the node belongs to. -/
  connection : Json
  type : Json
  data : Json

namespace Node

def inputsJson (n : Node) : Json := .arr (n.inputs.map InPort.toJson)

def outputsJson (n : Node) : Json := .arr (n.outputs.map OutPort.toJson)

def toJson (n : Node) : Json :=
  .obj [("Id",.str n.id),("OperationType",n.operation),("Inputs",n.inputsJson),("Outputs",n.outputsJson),
    ("MechanicConnectionId",n.connection),("GateDataType",n.type),("SaveData",n.data)]

def toJsonAt (n : Node) (version : Int) (x y : Json) : Json :=
  .obj [("Id",.str n.id),("ModelVersion",.int version),("Version",.str "0.1"),("OperationType",n.operation),
    ("Inputs",n.inputsJson),("Outputs",n.outputsJson),("VisualPosition",.obj [("x",x),("y",y)]),
    ("VisualCollapsed",.bool false),("MechanicConnectionId",n.connection),("GateDataType",n.type),
    ("SaveData",n.data)]

end Node

/-- An entry for an end of a chip. -/
structure EndEntry where
  key : String
  name : Json
  type : Json

def plainSetting : String :=
  "\x7b\"Value\":0.0,\"Default\":0.0,\"Min\":-3.40282347E+38,\"Max\":3.40282347E+38,\"IsCheckbox\":false\x7d"

def EndEntry.toJson (e : EndEntry) : Json :=
  .obj [("Key",.str e.key),("DataName",.str ("#" ++ e.name.plain)),("SerializedValue",.str plainSetting),
    ("GateDataType",e.type)]

/-- Runs of blanks become one underline each. -/
def joinBlanks : Bool→List Char→List Char
  | _, [] => []
  | inside, c::rest =>
    if isBlank c then if inside then joinBlanks true rest else '_' :: joinBlanks true rest
    else c::joinBlanks false rest

/-- Plain letters, digits and underlines of a name in small letters. -/
def keyOfName (name : String) : String :=
  String.ofList ((joinBlanks false (lower name).toList).filter fun c =>
    ('a' ≤ c && c ≤ 'z') || ('0' ≤ c && c ≤ '9') || c == '_')

/-- A key for an end: its name, told apart from others by the start of a fresh id. -/
def freshKey (name : Json) : Edit String := do
  let word ← name.text "lower"
  pure (keyOfName word ++ "_" ++ take (← freshId) 4)

def makeInput (name type : Json) (schema : Schema) : Edit (EndEntry×Node) := do
  let key ← freshKey name
  let id := "RootNodeViewModel : " ++ (← freshId)
  let pin ← freshId
  let t := endType schema type
  let port : OutPort := ⟨id ++ "\nOutput : " ++ endTypeWord schema type ++ " " ++ pin,t⟩
  let operation := if schema == .names then Json.str "Root" else .int 256
  pure (⟨key,name,t⟩,⟨id,operation,[],[port],.str key,t,.null⟩)

def makeOutput (name type : Json) (schema : Schema) : Edit (EndEntry×Node) := do
  let key ← freshKey name
  let id := "ExitNodeViewModel : " ++ (← freshId)
  let pin ← freshId
  let t := endType schema type
  let port : InPort := ⟨id ++ "\nInput : " ++ endTypeWord schema type ++ " " ++ pin,t⟩
  let operation := if schema == .names then Json.str "Exit" else .int 512
  pure (⟨key,name,t⟩,⟨id,operation,[port],[],.str key,t,.null⟩)

def makeConstant (value type : Json) (schema : Schema) : Edit Node := do
  let id := "ConstantNodeViewModel : " ++ (← freshId)
  let pin ← freshId
  let t := endType schema type
  let port : OutPort := ⟨id ++ "\nOutput : " ++ endTypeWord schema type ++ " " ++ pin,t⟩
  let operation := if schema == .names then Json.str "Constant" else .int 257
  let data := Json.write .compact (.obj [("DataValue",.str value.plain)])
  pure ⟨id,operation,[],[port],.null,t,.str data⟩

def settle (node y : Json) : Except Failure Json := do
  let node ← node.assign "VisualPosition" (.obj [("x",.float 1000.0),("y",y)])
  let node := node.set "VisualCollapsed" (.bool false)
  let node := if (node.get? "ModelVersion").isSome then node else node.set "ModelVersion" (.int 1)
  pure (if (node.get? "Version").isSome then node else node.set "Version" (.str "0.1"))

def spacing : Number := .int 200

def below (y : Json) : Except Failure Number :=
  match Number.ofJson? y with
  | some n => .ok (n.add spacing)
  | none => .error (.fault .wrongKind ("unsupported operand type(s) for +: '" ++ y.kindName ++ "' and 'int'"))

def notOrdered (sign : String) (a b : Json) : Except Failure Bool :=
  .error (.fault .wrongKind
    ("'" ++ sign ++ "' not supported between instances of '" ++ a.kindName ++ "' and '" ++ b.kindName ++ "'"))

def less? (a b : Json) : Option Bool :=
  match Number.ofJson? a, Number.ofJson? b, a, b with
  | some x, some y, _, _ => some (x.lt y)
  | _, _, .str s, .str t => some (decide (s < t))
  | _, _, _, _ => none

def isLess (a b : Json) : Except Failure Bool := (less? a b).elim (notOrdered "<" a b) .ok

def isGreater (a b : Json) : Except Failure Bool := (less? b a).elim (notOrdered ">" a b) .ok

def heightOf (node : Json) : Except Failure Json := do
  (← node.fieldOr "VisualPosition" (.obj [])).fieldOr "y" (.int 0)

/-- The first of the greatest heights of nodes, from a given one on. -/
def highest : Json→List Json→Except Failure Json
  | top, [] => .ok top
  | top, node::rest => do
    let y ← heightOf node
    highest (if ← isGreater y top then y else top) rest

def operationWords : List (String×String) := [("remainder","Mod"),("modulo","Mod")]

def usualOperation (op : Json) : Json :=
  match op with
  | .str text =>
    let s := trim text
    if s.isEmpty then op else .str ((operationWords.lookup (lower s)).getD s)
  | _ => op

def operationName (module id : Json) : Except Failure Json := do
  let source ← module.fieldOr "source_info" (.obj [])
  let name := (← source.field "datatype_map_nodename").orElse (← source.field "chip_names_friendly_name")
  pure (name.orElse (.str id.plain))

def operationOf (schema : Schema) (module id : Json) : Except Failure Json := do
  let word := match id with
    | .str s => if allDigits (trim s) then none else some (trim s)
    | _ => none
  let op ← match schema, word with
    | .names, some s => pure (.str s)
    | .names, none => operationName module id
    | .numbers, some _ => operationName module id
    | .numbers, none =>
      match readInt? (trim id.plain) with
      | some n => pure (.int n)
      | none => operationName module id
  pure (usualOperation op)

def makePorts {α : Type} (make : String→Json→α) (nodeId side word : String) (schema : Schema) :
    List Json→Edit (List α)
  | [] => pure []
  | port::rest => do
    let type ← port.fieldOr "type" (.str "DECIMAL")
    let name ← port.fieldOr "name" (.str word)
    let id := nodeId ++ "\\n" ++ side ++ " : " ++ name.plain ++ " " ++ (← freshId)
    let made := make id (← catalogueType schema type)
    pure (made::(← makePorts make nodeId side word schema rest))

def moduleHeight (nodes : Json) : Except Failure Number := do
  if nodes.truthy then below (← highest (.float (-1.0 / 0.0)) (← nodes.each)) else pure (.float 180.0)

/-- Makes a module of the catalogue beside the nodes there are. A module without id cannot be made. -/
def makeModule (name module nodes : Json) : Edit (Option (Node×Number)) := do
  let schema ← schemaOf nodes
  let moduleId ← module.field "id"
  if moduleId.isNull then
    say ("错误: 模块 '" ++ name.plain ++ "' 的 'id' 缺失。")
    pure none
  else
    let operation ← operationOf schema module moduleId
    let id := name.plain ++ " : " ++ (← freshId)
    say ("为新节点生成ID: " ++ id)
    let inputs ← makePorts InPort.mk id "Input" "Input" schema (← (← module.fieldOr "inputs" (.arr [])).each)
    let outputs ← makePorts OutPort.mk id "Output" "Output" schema (← (← module.fieldOr "outputs" (.arr [])).each)
    let y ← moduleHeight nodes
    let type ← catalogueType schema (← module.fieldOr "gate_data_type" (.int 2))
    pure (some (⟨id,operation,inputs,outputs,.null,type,.null⟩,y))

def moduleJson (n : Node) (y : Number) : Json := n.toJsonAt 1 (.float (-120.0)) y.toJson

end ChipForge.Save
