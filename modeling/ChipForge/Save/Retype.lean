import ChipForge.Save.Constants
import ChipForge.Save.Revise

/-! Changing the types of modules. A node takes a new type and passes it on to its ports by rule; the entries of the ends of
the chip follow. -/
namespace ChipForge.Save
open Revise Text

def typeWord (t : Json) : Except Failure String := do
  match ← typeOfCode? t with
  | some .entity => pure "entity"
  | some .number => pure "Decimal"
  | some g => pure g.name
  | none => pure ("Unknown(" ++ t.plain ++ ")")

def spacedText (v : Json) : Json := .str (Json.write .spaced v)

/-- Data of a node of a type that nobody has set. Only numbers, texts and vectors have any. -/
def emptyData (t : Json) : Except Failure Json := do
  let data (v : Json) : Json := .str (Json.write .compact (.obj [("DataValue",v)]))
  match ← typeOfCode? t with
  | some .number => pure (data (.str "0.0"))
  | some .string => pure (data (.str ""))
  | some .vector => pure (data (.str (Json.write .compact zeroVector)))
  | _ => pure .null

def numberSetting : Json :=
  .obj [("Value",.float 0.0),("Default",.float 0.0),("Min",negativeBound),("Max",bound),
    ("IsCheckbox",.bool false)]

def stringSetting : Json := .obj [("Value",.str ""),("Default",.null),("MaxLength",.int 2147483647)]

def listSetting : Json := .obj [("Value",.arr []),("Default",.arr [])]

def endSetting (t : Json) : Except Failure Json := do
  match ← typeOfCode? t with
  | some .number => pure (spacedText numberSetting)
  | some .string => pure (spacedText stringSetting)
  | some .vector => pure (spacedText (.obj [("Value",zeroVector),("Default",zeroVector)]))
  | some .arrayNumber => pure (spacedText listSetting)
  | some .arrayString => pure (spacedText listSetting)
  | some .arrayVector => pure (spacedText listSetting)
  | _ => pure .null

/-- A vector at a bound; its length is beyond all numbers. -/
def farVector (b : Json) : Json :=
  .obj [("x",b),("y",b),("z",b),("w",b),("normalized",zeroVector),("magnitude",.str "Infinity"),
    ("sqrMagnitude",.str "Infinity")]

def runningSetting (t : Json) : Except Failure Json := do
  match ← typeOfCode? t with
  | some .vector =>
    pure (spacedText (.obj [("Value",zeroVector),("Default",zeroVector),("MinVector",farVector negativeBound),
      ("MaxVector",farVector bound)]))
  | _ => endSetting t

def goesBy (word : String) (module : Json) : Bool :=
  match module with
  | .obj fields =>
    match ((Json.lookup "source_info" fields).getD .null).orElse (.obj []) with
    | .obj source =>
      ["datatype_map_nodename","chip_names_friendly_name"].any fun key =>
        match Json.lookup key source with
        | some (.str s) => lower (trim s) == word
        | _ => false
    | _ => false
  | _ => false

def hasName (record : Json) (name : String) : Except Failure Bool :=
  isPartOf (.str name) record

/-- Key of the module of an operation: the operation itself, or the first module of that name. -/
def moduleKey? (op modules : Json) : Except Failure (Option String) := do
  if op.isNull then pure none
  else
    let raw := op.plain
    if ← hasName modules raw then pure (some raw)
    else
      match op with
      | .str s =>
        let word := lower (trim s)
        if word.isEmpty then pure (some raw)
        else
          match (← modules.entries).find? fun (_,m) => goesBy word m with
          | some (key,_) => pure (some key)
          | none => pure (some raw)
      | _ => pure (some raw)

def moduleName (key modules : Json) : Except Failure Json := do
  let module ← modules.fieldOr key.plain (.obj [])
  let source ← module.fieldOr "source_info" (.obj [])
  source.fieldOr "datatype_map_nodename" (.str ("OpType(" ++ key.plain ++ ")"))

def catalogueWord? (port : Json) : Option GateType :=
  match port.get? "type" with
  | some (.str s) =>
    let word := lower (trim s)
    if word == "integer" || word == "integernumber" then none else GateType.ofWord? GateType.looseWords word
  | _ => none

def ruledType? (rule type : Json) : Option Json :=
  match rule with
  | .null => none
  | .str "any" => none
  | .str "same" => if type.isNull then none else some type
  | .str s => (GateType.ofName? s).map fun g => .int g.code
  | .int n => some (.int n)
  | .bool b => some (.bool b)
  | _ => none

def isEndOperation (op : Json) : Except Failure Bool := do
  discard op.toFieldName
  match wholeNumber? op, op with
  | some n, _ => pure (n == 256 || n == 255 || n == 512)
  | none, .str s => pure (s == "Root" || s == "Exit")
  | none, _ => pure false

/-- Roles of the ports of modules on lists: the list itself, one of its items, or a number. -/
inductive ListRole
  | list | item | count
  deriving DecidableEq, Repr

structure ListPorts where
  inputs : List ListRole
  outputs : List ListRole

def listModules : List (String×ListPorts) :=
  [("ArraysGet",⟨[.list,.count],[.item,.count]⟩),
    ("ArraysLength",⟨[.list],[.count]⟩),
    ("ArraysAdd",⟨[.list,.item,.count,.count],[.list,.count]⟩),
    ("ArraysSet",⟨[.list,.count,.item,.count],[.list]⟩),
    ("ArraysRemoveAllByValue",⟨[.list,.item,.count],[.list]⟩),
    ("ArraysRemoveByIndex",⟨[.list,.count,.count],[.list]⟩),
    ("ArraysFind",⟨[.list,.item,.count,.count],[.count]⟩),
    ("ArraysClear",⟨[.list,.count],[.list]⟩)]

/-- Type of a port by its role; a list that is none has no items. -/
def roleType? (schema : Schema) (type : Json) : ListRole→Except Failure (Option Json)
  | .list => do if type.isNull then pure none else pure (some (← newType schema type))
  | .item => do
    match (← typeOfCode? type).bind GateType.element? with
    | some g => pure (some (typeIn schema g))
    | none => pure none
  | .count => pure (some (if schema == .names then .str "IntegerNumber" else .int 2))

/-- A new type of a port and the line that tells of it. -/
structure PortChange where
  type : Json
  line : Option String

def roleChange (schema : Schema) (type : Json) (roles : List ListRole) (i : Nat) : Except Failure (Option PortChange) :=
  match roles[i]? with
  | some role => do pure ((← roleType? schema type role).map (⟨·,none⟩))
  | none => .ok none

def ruledChange (schema : Schema) (type rules : Json) (label : String) (i : Nat) : Except Failure (Option PortChange) := do
  if i < (← rules.size) then
    let rule ← rules.itemAt i
    match ruledType? rule type with
    | none => pure none
    | some t =>
      let line := "       - " ++ label ++ " " ++ toString i ++ ": 规则='" ++ rule.plain ++ "', 更新为 -> " ++ (← typeWord t)
      pure (some ⟨← newType schema t,some line⟩)
  else pure none

/-- The type by the catalogue; where it leaves the type open, the new type. -/
def declaredChange (schema : Schema) (type declared : Json) (i : Nat) : Except Failure (Option PortChange) := do
  let own ← if i < (← declared.size) then do pure (catalogueWord? (← declared.itemAt i)) else pure none
  pure (some ⟨← newType schema ((own.map fun g => .int g.code).getD type),none⟩)

def retypePort : Option PortChange→Revise Unit
  | none => pure ()
  | some c => do
    assign "DataType" c.type
    c.line.forM tell

def retypePorts (change : Nat→Except Failure (Option PortChange)) : Revise Unit :=
  inItems (fun i _ => do retypePort (← change i)) ()

def retypeSide (side : String) (change : Nat→Except Failure (Option PortChange)) : Revise Unit :=
  inField side (.arr []) (retypePorts change)

def retypeListSide (side : String) (change : Nat→Except Failure (Option PortChange)) : Revise Unit :=
  inField side (.arr []) do
    let ports ← here
    if ports.truthy then
      let _ ← ports.size
      let _ ← ports.itemAt 0
      retypePorts change

def declaredBy (module : Json) (key : String) : Json :=
  match module with
  | .obj fields => (Json.lookup key fields).getD (.arr [])
  | _ => .arr []

/-- Types that ends of the chip are to follow, the latest first, and whether anything was changed. -/
structure Changes where
  ends : List (Json×Json)
  any : Bool

/-- What is known of a node that is to be retyped. -/
structure Target where
  op : Json
  schema : Schema
  written : Json
  key : Option String
  name : Json
  module : Json

/-- The module of an operation, with its key. -/
def definitionOf (op modules : Json) : Except Failure (Option String×Json) := do
  match ← moduleKey? op modules with
  | some key => do pure (some key,← modules.fieldOr key (.obj []))
  | none => pure (none,.obj [])

def targetOf (node type modules : Json) : Except Failure Target := do
  let op ← node.field "OperationType"
  let schema := Schema.ofNames (← nodeNamed node)
  let written ← newType schema type
  let (key,module) ← definitionOf op modules
  let name ← moduleName ((key.map Json.str).getD op) modules
  pure ⟨op,schema,written,key,name,module⟩

def modifiable (module : Json) : Bool :=
  match module with
  | .obj fields => ((Json.lookup "can_modify_data_type" fields).getD (.bool true)).switch true
  | _ => true

def ruleOf (rules : Json) : Option String→Except Failure Json
  | some key => rules.field key
  | none => .ok .null

/-- Retypes the ports of a module by its rule, or by the catalogue if it has none. -/
def retypeByRule (t : Target) (type rules : Json) : Revise Unit := do
  tell ("     模块类型: '" ++ t.name.plain ++ "' (OpType: " ++ t.op.plain ++ "), 准备更新主类型为 " ++ (← typeWord type))
  let rule ← ruleOf rules t.key
  if rule.truthy then
    tell ("     应用 '" ++ (← rule.fieldOr "module_name" (.str "未知")).plain ++ "' 规则:")
    ruled rule "Inputs" "inputs" "输入端口"
    ruled rule "Outputs" "outputs" "输出端口"
  else
    tell ("     警告: 未找到 OpType " ++ t.op.plain ++
      " 的特定规则。将优先使用 moduledef 端口定义，Dynamic/未知端口才回退到 " ++ (← typeWord type) ++ "。")
    retypeSide "Inputs" (declaredChange t.schema type (declaredBy t.module "inputs"))
    retypeSide "Outputs" (declaredChange t.schema type (declaredBy t.module "outputs"))
where
  ruled (rule : Json) (side key label : String) : Revise Unit :=
    match rule.get? key with
    | some rules => retypeSide side (ruledChange t.schema type rules label)
    | none => pure ()

def retypeModule (t : Target) (type rules : Json) : Revise Unit :=
  match listModules.lookup t.op.plain with
  | some ports => do
    retypeListSide "Inputs" (roleChange t.schema type ports.inputs)
    retypeListSide "Outputs" (roleChange t.schema type ports.outputs)
  | none => retypeByRule t type rules

def noteEnd (changes : Changes) (node type : Json) : Revise Changes := do
  let connection ← node.field "MechanicConnectionId"
  if connection.truthy then
    tell ("     发现外部连接 '" ++ connection.plain ++ "'。将加入同步列表。")
    let _ ← connection.toFieldName
    pure ⟨(connection,type)::changes.ends,true⟩
  else pure changes

def retype (rules modules type nodeId : Json) (changes : Changes) : Revise Changes := do
  tell ("  -> 找到节点: " ++ nodeId.plain)
  let node ← here
  let t ← targetOf node type modules
  if !modifiable t.module then
    tell ("     skip: module '" ++ t.name.plain ++ "' (OpType: " ++ t.op.plain ++ ") is marked as non-modifiable")
    pure changes
  else
    let changes ← noteEnd changes node type
    if ← isEndOperation t.op then
      tell ("     跳过对特殊模块 '" ++ t.name.plain ++ "' (ID: " ++ nodeId.plain ++ ") 的内部修改。外部连接已记录。")
      assign "GateDataType" t.written
      retypeSide "Outputs" fun _ => .ok (some ⟨t.written,none⟩)
      retypeSide "Inputs" fun _ => .ok (some ⟨t.written,none⟩)
      pure changes
    else
      assign "GateDataType" t.written
      assign "SaveData" (← emptyData type)
      retypeModule t type rules
      pure { changes with any := true }

/-- Place of the first node with an id, unless that node is empty. -/
def findById (nodeId : Json) : Nat→List Json→Except Failure (Option Nat)
  | _, [] => .ok none
  | i, node::rest => do
    if (← node.field "Id").same nodeId then pure (if node.truthy then some i else none) else findById nodeId (i+1) rest

def retypeNodes (rules modules : Json) : Changes→List Json→Revise Changes
  | changes, [] => pure changes
  | changes, instruction::rest => do
    let nodeId ← instruction.item "node_id"
    let type ← instruction.item "new_data_type"
    match ← findById nodeId 0 (← (← here).each) with
    | some i => do retypeNodes rules modules (← inItem i (retype rules modules type nodeId changes)) rest
    | none => retypeNodes rules modules changes rest

/-- Carries out instructions on the first entry with a graph. -/
def retypeGraph (instructions rules modules : Json) (found : Bool) (changes : Changes) : Revise (Bool×Changes) := do
  if found then pure (found,changes)
  else if ← isNamed "chip_graph" (← here) then
    let retyped ← inText "stringValue" .compact (fun _ => true)
      (inField "Nodes" (.arr []) do retypeNodes rules modules changes (← instructions.each))
    pure (retyped.isSome,retyped.getD changes)
  else pure (found,changes)

def followed? (changes : Changes) (key : Json) : Except Failure (Option Json) := do
  discard key.toFieldName
  pure ((changes.ends.find? fun e => e.1.same key).map (·.2))

def typeLike (old type : Json) : Except Failure Json :=
  newType (.ofNames old.isStr) type

/-- How an entry of an end writes its type, and what goes with it. -/
structure EndForm where
  typeField : String
  settingField : String
  setting : Json→Except Failure Json

def editorForm : EndForm := ⟨"GateDataType","SerializedValue",endSetting⟩

def runningForm : EndForm := ⟨"DataType","GateData",runningSetting⟩

/-- Lets the entry of an end follow. -/
def followEnd (changes : Changes) (list : String) (form : EndForm) (changed : Bool) : Revise Bool := do
  let item ← here
  let key ← item.field "Key"
  match ← followed? changes key with
  | none => pure changed
  | some type =>
    tell ("  -> 在 " ++ list ++ " 中更新 '" ++ key.plain ++ "' 的类型为 " ++ (← typeWord type))
    assign form.typeField (← typeLike (← item.field form.typeField) type)
    assign form.settingField (← form.setting type)
    pure true

def followList (changes : Changes) : Revise Unit := do
  let key ← (← here).field "key"
  if key.same (.str "chip_inputs") || key.same (.str "chip_outputs") then
    let _ ← inText "stringValue" (.indented 2) id
      (inItems (fun _ => followEnd changes key.plain editorForm) false)

def followMechanic (changes : Changes) : Revise Unit := do
  let _ ← inText "mechanicSerializedInputs" .spaced id
    (inItems (fun _ => followEnd changes "mechanicSerializedInputs" runningForm) false)

def tellUnfollowed (changes : Changes) : Revise Unit :=
  if changes.ends.isEmpty && changes.any then
    tell "\n警告: 进行了内部修改，但未找到需要同步的外部连接。可能修改的是非IO节点。"
  else pure ()

/-- Carries out instructions on a container. One without entries is passed over. -/
def retypeContainer (instructions rules modules : Json) (changes : Changes) : Revise Changes :=
  inField "saveObjects" (.obj []) do
    if (← (← here).fieldOr "saveMetaDatas" (.arr [])).truthy then
      tell "\n--- 阶段 1: 分析并修改 chip_graph ---"
      let (_,changes) ← inField "saveMetaDatas" (.arr [])
        (inItems (fun _ r => retypeGraph instructions rules modules r.1 r.2) (false,changes))
      tellUnfollowed changes
      tell "\n--- 阶段 2: 同步 chip_inputs / chip_outputs (编辑器UI) ---"
      inField "saveMetaDatas" (.arr []) (inItems (fun _ _ => followList changes) ())
      tell "\n--- 阶段 3: 同步 mechanicSerializedInputs (游戏运行时) ---"
      inField "mechanicData" (.arr []) (inItems (fun _ _ => followMechanic changes) ())
      pure changes
    else pure changes

def retypeContainers (instructions rules modules : Json) : Revise Changes :=
  inField "saveObjectContainers" (.arr []) (inItems (fun _ => retypeContainer instructions rules modules) ⟨[],false⟩)

def retypeAll (instructions rules modules : Json) : Edit Unit := do
  let changes ← (retypeContainers instructions rules modules).perform
  if !changes.any then say "警告: 根据指令，没有执行任何修改。请检查节点ID是否正确。"

end ChipForge.Save
