import ChipForge.Save.Entry
import ChipForge.Save.Variable
import ChipForge.Table
import ChipForge.Text.Similarity

/-! Adding modules to the graph of a save. Requests are read, matched with the catalogue and carried out in order; the save
changes only once all of them are done. -/
namespace ChipForge.Save
open Text.Similarity Text

/-- What can be asked for. -/
inductive Wish
  | named (name : String)
  | input (name type : Json)
  | output (name type : Json)
  | constant (type : Json)
  | variable (key gateType value : Json)
  /-- A special word in letters that are none of the plain ones; nothing is made for it. -/
  | odd

/-- Letters that count as a given small letter when case is ignored. -/
def isLetter (small c : Char) : Bool :=
  c == small || c == small.toUpper || (small == 'i' && (c.toNat == 0x130 || c.toNat == 0x131)) ||
    (small == 's' && c.toNat == 0x17f)

/-- Takes a word off the start of a text, case ignored. -/
def takeWord? : List Char→List Char→Option (List Char×List Char)
  | [], cs => some ([],cs)
  | _ :: _, [] => none
  | w::ws, c::cs =>
    if isLetter w c then (takeWord? ws cs).map fun (word,rest) => (c::word,rest) else none

def lineRest? (cs : List Char) : Option (List Char) :=
  let line := cs.takeWhile (· != '\n')
  if cs.drop line.length == [] || cs.drop line.length == ['\n'] then some line else none

/-- A short request for an end or a constant: a word, and a name after a colon. -/
structure ShortForm where
  word : String
  name : String

def ShortForm.ofWord? (cs word : List Char) : Option ShortForm := do
  let (found,rest) ← takeWord? word cs
  let kind := lower (String.ofList found)
  match rest with
  | ':' :: after =>
    let name ← lineRest? after
    pure ⟨kind,trim (if name.isEmpty then capitalize kind else String.ofList name)⟩
  | _ =>
    if rest == [] || rest == ['\n'] then pure ⟨kind,trim (capitalize kind)⟩ else none

def ShortForm.read? (text : String) : Option ShortForm :=
  ["input","output","constant"].findSome? fun w => ShortForm.ofWord? text.toList w.toList

def specialWish (word : String) (name type : Json) : Wish :=
  if word == "input" then .input name type
  else if word == "output" then .output name type
  else if word == "constant" then .constant type
  else .odd

def isSpecialWord (word : String) : Bool := word == "input" || word == "output" || word == "constant"

/-- The wish of a request, nothing if it cannot be understood. -/
def readWish? (request : Json) : Except Failure (Option Wish) := do
  match request with
  | .str text =>
    match ShortForm.read? text with
    | some f => pure (some (specialWish f.word (.str f.name) (.int 2)))
    | none => pure (some (.named text))
  | .obj _ =>
    let type ← request.field "type"
    discard type.toFieldName
    match type with
    | .str word =>
      if isSpecialWord word then
        let name ← request.fieldOr "name" (.str (capitalize word))
        pure (some (specialWish word name (← request.fieldOr "dataType" (.int 2))))
      else if word == "variable" then
        let gateType ← request.fieldOr "gateDataType" (.str "Number")
        pure (some (.variable (← request.field "key") gateType (← request.field "value")))
      else pure none
    | _ => pure none
  | _ => pure none

def unknownRequest (request : Json) : String :=
  (if request.isObj then " 警告: 跳过无法识别的 dict 指令: " else " 警告: 跳过无法识别的指令: ")++request.plain

def readWishes : List Json→Edit (List Wish)
  | [] => pure []
  | request::rest => do
    match ← readWish? request with
    | some wish => pure (wish::(← readWishes rest))
    | none =>
      say (unknownRequest request)
      readWishes rest

/-- Enters a name of a module in small letters, unless it is taken. -/
def enterName (names : Table String) (name : Json) (id : String) : Table String :=
  let word := trim name.plain
  if !name.truthy || word.isEmpty then names else names.putNew (lower word) id

def moduleNames : Table String→List (String×Json)→Except Failure (Table String)
  | names, [] => .ok names
  | names, (id,module)::rest => do
    let source ← module.fieldOr "source_info" (.obj [])
    let names := enterName names (← source.field "allmod_viewmodel") id
    moduleNames (enterName names (← source.field "chip_names_friendly_name") id) rest

/-- Something to make. -/
inductive Task
  | module (id : String) (info : Json)
  | input (name type : Json)
  | output (name type : Json)
  | constant (type : Json)
  | variable (key gateType value : Json)

/-- The word closest to a text, whose case and outer blanks do not count. -/
def closestWord (threshold : Option Threshold) (text : String) (words : List String) : Except Failure (Option String) :=
  closestName threshold (trim (lower text)) words

def closestModule (threshold : Option Threshold) (names : Table String) (text : String) : Except Failure (Option String) := do
  pure ((← closestWord threshold text (names.toList.map (·.1))).bind names.find)

/-- Tasks for wishes in turn; a module that has no close name is left out. -/
def planTasks (threshold : Option Threshold) (catalogue : Json) (names : Table String) : List Wish→Edit (List Task)
  | [] => pure []
  | wish::rest => do
    match wish with
    | .named text =>
      match ← closestModule threshold names text with
      | some id =>
        let info ← catalogue.item id
        pure (.module id info::(← planTasks threshold catalogue names rest))
      | none =>
        say ("️ 未找到与 '" ++ text ++ "' 相近的模块，跳过。")
        planTasks threshold catalogue names rest
    | .input name type => pure (.input name type::(← planTasks threshold catalogue names rest))
    | .output name type => pure (.output name type::(← planTasks threshold catalogue names rest))
    | .constant type => pure (.constant type::(← planTasks threshold catalogue names rest))
    | .variable key gateType value => pure (.variable key gateType value::(← planTasks threshold catalogue names rest))
    | .odd => planTasks threshold catalogue names rest

structure Created where
  className : Json
  id : String

def Created.toJson (c : Created) : Json := .obj [("class_name",c.className),("full_id",.str c.id)]

/-- The parts of a save that are worked on, with where they stand. -/
structure Draft where
  nodes : Json
  inputs : Json
  outputs : Json
  definitions : Json
  nextY : Number
  created : List Created

namespace Draft

def place (d : Draft) (node : Json) : Except Failure Draft := do
  let nodes ← d.nodes.append (← settle node d.nextY.toJson)
  pure { d with nodes := nodes, nextY := d.nextY.add spacing }

def note (d : Draft) (className : Json) (id : String) : Draft :=
  { d with created := d.created++[⟨className,id⟩] }

end Draft

def idTail (id : String) : String := lastPart id " : "

def sayNew (id : String) : Edit Unit := say ("为新节点生成ID: " ++ id)

def sayAdded (what : String) : Edit Unit := say (" 已添加: " ++ what)

def definitionIndex? (key : String) : Nat→List Json→Except Failure (Option Nat)
  | _, [] => .ok none
  | i, d::rest => do
    if (← d.field "Key").same (.str key) then pure (some i) else definitionIndex? key (i+1) rest

/-- Enters the definition of a variable. One that exists only takes over a value that is given. -/
def enterDefinition (definitions : Json) (key : String) (gateType value : Json) : Except Failure Json := do
  let found ← definitionIndex? key 0 (← definitions.each)
  let d ← define (.str key) gateType value .null .names
  match found with
  | none => definitions.append d.toJson
  | some i =>
    pure (if value.isNull then definitions
      else definitions.updateAt i fun old => (old.set "SerializedValue" d.setting).set "GateDataType" d.type)

def addModule (d : Draft) (id : String) (info : Json) : Edit Draft := do
  let source ← info.fieldOr "source_info" (.obj [])
  let name ← source.fieldOr "allmod_viewmodel" (.str ("Module_" ++ id))
  match ← makeModule name info d.nodes with
  | none => pure d
  | some (node,y) =>
    let nodes ← d.nodes.append (moduleJson node y)
    sayAdded name.plain
    pure ({ d with nodes := nodes }.note name node.id)

def addInput (d : Draft) (name type : Json) (schema : Schema) : Edit Draft := do
  let (entry,node) ← makeInput name type schema
  let d := { d with inputs := ← d.inputs.append entry.toJson }
  sayNew ("RootNodeViewModel : " ++ idTail node.id)
  let d ← d.place node.toJson
  sayAdded "RootNodeViewModel"
  pure (d.note (.str "RootNodeViewModel") node.id)

def addOutput (d : Draft) (name type : Json) (schema : Schema) : Edit Draft := do
  let (entry,node) ← makeOutput name type schema
  let d := { d with outputs := ← d.outputs.append entry.toJson }
  sayNew ("ExitNodeViewModel : " ++ idTail node.id)
  let d ← d.place node.toJson
  sayAdded "ExitNodeViewModel"
  pure (d.note (.str "ExitNodeViewModel") node.id)

def addConstant (d : Draft) (type : Json) (schema : Schema) : Edit Draft := do
  let node ← makeConstant (.int 0) type schema
  let name := firstPart node.id " : "
  sayNew node.id
  let d ← d.place node.toJson
  sayAdded name
  pure (d.note (.str name) node.id)

/-- Adds a variable. Variables are written by name in every save. -/
def addVariable (d : Draft) (key : String) (gateType value : Json) : Edit Draft := do
  let d := { d with definitions := ← enterDefinition d.definitions key gateType value }
  let node ← makeVariable (.str key) gateType .names
  sayNew node.id
  let d ← d.place (variableJson node (.float 0.0) (.float 0.0))
  sayAdded "VariableNodeViewModel (via Manager)"
  pure (d.note (.str "VariableNodeViewModel") node.id)

def carryOut (schema : Schema) (d : Draft) : Task→Edit Draft
  | .module id info => addModule d id info
  | .input name type => addInput d name type schema
  | .output name type => addOutput d name type schema
  | .constant type => addConstant d type schema
  | .variable key gateType value =>
    match key with
    | .str s =>
      if s.isEmpty then do
        say " 警告: 跳过一个变量节点，因为缺少合法的 key。"
        pure d
      else addVariable d s gateType value
    | _ => do
      say " 警告: 跳过一个变量节点，因为缺少合法的 key。"
      pure d

def carryOutAll (schema : Schema) : Draft→List Task→Edit Draft
  | d, [] => pure d
  | d, task::rest => do carryOutAll schema (← carryOut schema d task) rest

def isInput : Task→Bool
  | .input _ _ => true
  | _ => false

def isOutput : Task→Bool
  | .output _ _ => true
  | _ => false

def isVariable : Task→Bool
  | .variable _ _ _ => true
  | _ => false

/-- Reads the list that an entry holds; an entry without text holds none. -/
def listOfEntry (entry : Json) : Except Failure Json := do
  let text ← entry.field "stringValue"
  if text.truthy then text.parseText else pure (.arr [])

def openList (needed : Bool) (key : String) : Edit (Option Slot×Json) := do
  if needed then
    let (slot,entry) ← ensureFirst key
    pure (some slot,← listOfEntry entry)
  else pure (none,.arr [])

def entryOfFirst? (key : String) (save : Json) : Option (Slot×Json) :=
  let found := do
    let containers ← save.fieldOr "saveObjectContainers" (.arr [])
    if containers.truthy then
      let objects ← (← containers.itemAt 0).fieldOr "saveObjects" (.obj [])
      findInList key 0 (← (← objects.fieldOr "saveMetaDatas" (.arr [])).each)
    else pure none
  match found with
  | .ok (some (i,entry)) => some (⟨0,i⟩,entry)
  | _ => none

def openVariables (needed : Bool) : Edit (Option Slot×Json) := do
  if needed then
    match entryOfFirst? "chip_variables" (← getSave) with
    | some (slot,entry) => pure (some slot,← listOfEntry entry)
    | none => throw (.refusal .badValue "在 data.json 中找不到 'chip_variables'，请确认存档文件正确。")
  else pure (none,.arr [])

/-- The first container must have a list of entries when ends or variables are to be made. -/
def checkEntries (needed : Bool) : Edit Unit := do
  if needed then
    match firstEntries (← getSave) with
    | .ok _ => pure ()
    | .error (.fault .missingKey _) => misshapen
    | .error (.fault .outOfRange _) => misshapen
    | .error f => throw f
where
  misshapen : Edit Unit := throw (.refusal .badValue "存档文件结构异常，无法定位 meta 数据区。")

def firstHeight (nodes : List Json) : Except Failure Number :=
  match nodes with
  | [] => below (.float 180.0)
  | node::rest => do below (← highest (← heightOf node) rest)

def closeList (slot : Option Slot) (list : Json) : Edit Unit := do
  match slot with
  | some slot => setSave (setText slot (Json.write .compact list) (← getSave))
  | none => pure ()

def openGraph : Edit (Slot×Json) := do
  match ← findEntry "chip_graph" (← getSave) with
  | some (slot,entry) => pure (slot,← (← entry.item "stringValue").parseText)
  | none => throw (.refusal .badValue "在 data.json 中找不到 'chip_graph'，请确认存档文件正确。")

def addedStyle : Json.Style := (Json.Style.indented 2).unicode

def addModules (requests catalogue : Json) (threshold : Option Threshold) : Edit (List Created) := do
  let wishes ← readWishes (← requests.each)
  let (graphSlot,graph) ← openGraph
  let nodes ← graph.item "Nodes"
  let schema ← schemaOf nodes
  let names ← moduleNames Table.empty (← catalogue.entries)
  let tasks ← planTasks threshold catalogue names wishes
  checkEntries (tasks.any fun t => isInput t || isOutput t || isVariable t)
  let (inputSlot,inputs) ← openList (tasks.any isInput) "chip_inputs"
  let (outputSlot,outputs) ← openList (tasks.any isOutput) "chip_outputs"
  let (variableSlot,definitions) ← openVariables (tasks.any isVariable)
  let y ← firstHeight (← nodes.each)
  let draft ← carryOutAll schema ⟨nodes,inputs,outputs,definitions,y,[]⟩ tasks
  closeList inputSlot draft.inputs
  closeList outputSlot draft.outputs
  closeList variableSlot draft.definitions
  let text := Json.write addedStyle (graph.set "Nodes" draft.nodes)
  setSave (setText graphSlot text (← getSave))
  pure draft.created

end ChipForge.Save
