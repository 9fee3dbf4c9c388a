import ChipForge.Save.Entry
import ChipForge.Save.Variable

/-! Setting the values of constants. An instruction that cannot be carried out leaves the save as it is. -/
namespace ChipForge.Save

def tight (v : Json) : String := Json.write Json.Style.compact.unicode v

def vectorText (x y z : Number) : String :=
  let square := ((x.mul x).add (y.mul y)).add (z.mul z)
  let length := Float.sqrt square.toFloat
  let long := length > 1e-9
  let unit (c : Number) : Json := .float (if long then c.toFloat / length else 0.0)
  let one : Json := .float (if long then 1.0 else 0.0)
  let direction := [("x",unit x),("y",unit y),("z",unit z),("w",Json.float 0.0)]
  let lengths := [("magnitude",one),("sqrMagnitude",one)]
  Json.write .compact (.obj
    [("x",x.toJson),("y",y.toJson),("z",z.toJson),("w",.float 0.0),
      ("normalized",.obj (direction++[("normalized",.obj (direction++lengths))]++lengths)),
      ("magnitude",.float length),("sqrMagnitude",square.toJson)])

/-- Is a value part of another: a text of a text, an item of a list, a name of a record? -/
def isPartOf (part whole : Json) : Except Failure Bool :=
  match whole with
  | .str s =>
    match part with
    | .str p => .ok (Text.contains s p)
    | other =>
      .error (.fault .wrongKind ("'in <string>' requires string as left operand, not " ++ other.kindName))
  | .arr items => .ok (items.any fun v => v.same part)
  | .obj fields => do
    discard part.toFieldName
    match part with
    | .str p => pure (Json.lookup p fields).isSome
    | _ => pure false
  | other => .error (.fault .wrongKind ("argument of type '" ++ other.kindName ++ "' is not iterable"))

def findByPart (nodeId : Json) : Nat→List Json→Except Failure (Option (Nat×Json))
  | _, [] => .ok none
  | i, node::rest => do
    if ← isPartOf nodeId (← node.fieldOr "Id" (.str "")) then pure (some (i,node))
    else findByPart nodeId (i+1) rest

def formTypes : List (String×GateType) :=
  [("string",.string),("decimal",.number),("vector",.vector),("array_string",.arrayString),
    ("array_number",.arrayNumber),("array_vector",.arrayVector)]

def formType (form : Json) : Except Failure GateType := do
  discard form.toFieldName
  match form.asStr?.bind fun s => formTypes.lookup s with
  | some g => pure g
  | none => Json.missingKey form.shown

def vectorJson (x y z w : Json) : Json :=
  .obj [("x",x),("y",y),("z",z),("w",w),("magnitude",.float 0.0),("sqrMagnitude",.float 0.0)]

/-- A vector of a list of vectors: a record of coordinates, or three or four items. -/
def vectorOfItem (v : Json) : Except Failure Json := do
  match v with
  | .obj _ => pure (vectorJson (← v.item "x") (← v.item "y") (← v.item "z") (← v.fieldOr "w" (.float 0.0)))
  | _ =>
    let n ← v.size
    let x ← v.itemAt 0
    let y ← v.itemAt 1
    let z ← v.itemAt 2
    pure (vectorJson x y z (← if n == 4 then v.itemAt 3 else pure (.float 0.0)))

def constantText (g : GateType) (value : Json) : Except Failure String := do
  match g with
  | .number => pure (Decimal.text (← value.toFloat))
  | .vector => pure (tight (vectorJson (← value.itemAt 0) (← value.itemAt 1) (← value.itemAt 2) (.float 0.0)))
  | .arrayString => pure (tight value)
  | .arrayNumber => pure (tight (.arr ((← (← value.each).mapM Json.toFloat).map .float)))
  | .arrayVector => pure (tight (.arr (← (← value.each).mapM vectorOfItem)))
  | _ => pure value.plain

def constantData (g : GateType) (old value : Json) : Except Failure Json := do
  let data ← old.assign "DataValue" (.str (← constantText g value))
  if g.isArray then data.assign "IsMultiline" .null else pure data

def constantNode (node value form : Json) : Except Failure Json := do
  let g ← formType form
  let t := typeIn (.ofNames (← typesNamed node)) g
  let node := node.set "GateDataType" t
  let node ← match node.get? "Outputs" with
    | some outputs => do pure (node.set "Outputs" (← outputs.assignEach "DataType" t))
    | none => pure node
  let old ← match node.get? "SaveData" with
    | some data => if data.truthy then data.parseText else pure (.obj [])
    | none => pure (.obj [])
  pure (node.set "SaveData" (.str (tight (← constantData g old value))))

/-- What became of an instruction. -/
inductive ConstantResult
  | done (save : Json)
  | noGraph
  | noNode

def setConstant (save nodeId value form : Json) : Except Failure ConstantResult := do
  match ← findInList "chip_graph" 0 (← (← firstEntries save).each) with
  | none => pure .noGraph
  | some (i,entry) =>
    let graph ← (← entry.item "stringValue").parseText
    let nodes ← graph.fieldOr "Nodes" (.arr [])
    match ← findByPart nodeId 0 (← nodes.each) with
    | none => pure .noNode
    | some (j,node) =>
      if !node.truthy then pure .noNode
      else
        let changed ← constantNode node value form
        let graph := graph.set "Nodes" (nodes.updateAt j fun _ => changed)
        pure (.done (setText ⟨0,i⟩ (tight graph) save))

def applyConstant (nodeId value form : Json) : Edit Bool := do
  match setConstant (← getSave) nodeId value form with
  | .ok (.done save) =>
    setSave save
    pure true
  | .ok .noGraph =>
    say "未找到 chip_graph"
    pure false
  | .ok .noNode =>
    say ("找不到节点 " ++ nodeId.plain)
    pure false
  | .error f =>
    say ("修改常量错误: " ++ f.text)
    pure false

def idStart (nodeId : Json) : Except Failure Json :=
  match nodeId with
  | .str s => .ok (.str (Text.take s 8))
  | .arr items => .ok (.arr (items.take 8))
  | .obj _ => .error (.fault .wrongKind "unhashable type: 'slice'")
  | other => Json.notSubscriptable other

def applyConstantsFrom (count : Nat) : List Json→Edit Nat
  | [] => pure count
  | instruction::rest => do
    let nodeId ← instruction.item "node_id"
    let start ← idStart nodeId
    let form ← instruction.item "value_type"
    let value ← instruction.item "new_value"
    say ("  > 正在修改常量节点 " ++ start.plain ++ "... 类型: " ++ form.plain ++ ", 值: " ++ value.plain)
    let worked ← applyConstant nodeId value form
    applyConstantsFrom (if worked then count+1 else count) rest

def applyConstants (instructions : Json) : Edit Unit := do
  let count ← applyConstantsFrom 0 (← instructions.each)
  say ("常量修改完成: " ++ toString count ++ "/" ++ toString (← instructions.size) ++ " 个成功。")

end ChipForge.Save
