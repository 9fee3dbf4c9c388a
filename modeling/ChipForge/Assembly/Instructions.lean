import ChipForge.Assembly.Connections
import ChipForge.Inference.Types

/-! Instructions for a finished chip: which types its modules get and which values its constants hold. A node gives an
instruction, gives none, or gives a warning. -/
namespace ChipForge.Assembly
open Inference Text

/-- What a node gives. -/
inductive Advice (α : Type)
  | none
  | instruct (instruction : α)
  | warn (text : String)

def advised {α : Type} (advise : Json→Except Failure (Advice α)) : List Json→Except Failure (List α)
  | [] => .ok []
  | node::rest => do
    match ← advise node with
    | .instruct i => pure (i::(← advised advise rest))
    | _ => advised advise rest

def warnings {α : Type} (advise : Json→Except Failure (Advice α)) : List Json→List String
  | [] => []
  | node::rest =>
    match advise node with
    | .ok (.warn text) => text::warnings advise rest
    | .ok _ => warnings advise rest
    | .error _ => []

structure TypeInstruction where
  nodeId : Json
  type : Json

def TypeInstruction.toJson (i : TypeInstruction) : Json := .obj [("node_id",i.nodeId),("new_data_type",i.type)]

def requestedType? (attrs : Json) : Except Failure (Option Json) := do
  let other ← attrs.field "datatype"
  match ← attrs.fieldOr "data_type" other with
  | .str s => if allDigits s then (Json.readDigits s).map fun n => some (.int n) else pure none
  | .int n => pure (some (.int n))
  | .bool b => pure (some (.bool b))
  | _ => pure none

def inferredType? (types : Table GateType) (node : Json) : Except Failure (Option Json) := do
  match ← node.field "id" with
  | .str id => pure ((types.find id).map fun t => .int t.code)
  | other => do
    discard other.toFieldName
    pure none

def mayModify (modules : Json) (p : Placement) : Except Failure Bool :=
  match p.opType with
  | none => .ok p.modifiable
  | some key => do
    match ← modules.field key with
    | .obj fields => pure (p.modifiable && ((Json.lookup "can_modify_data_type" fields).getD (.bool true)).switch true)
    | _ => pure p.modifiable

def adviseType (placements : Table Placement) (modules : Json) (types : Table GateType) (node : Json) :
    Except Failure (Advice TypeInstruction) := do
  let attrs := (← node.fieldOr "attrs" (.obj [])).orElse (.obj [])
  let requested ← requestedType? attrs
  let type ← match requested with
    | some t => pure (some t)
    | none => inferredType? types node
  match type with
  | none => pure .none
  | some type =>
    let word := lower (trim (← node.fieldOr "type" (.str "")).plain)
    if word == "constant" || word == "variable" then pure .none
    else
      let id ← node.item "id"
      let placed := placements.find (← id.toFieldName)
      let possible ← match placed with
        | some p => do pure (p.newId.truthy && (← mayModify modules p))
        | none => pure false
      match placed, possible with
      | some p, true => pure (.instruct ⟨p.newId,type⟩)
      | _, _ =>
        if requested.isSome then
          pure (.warn ("⚠️ 警告：节点 '" ++ id.plain ++ "' 定义了 data_type/datatype 但未找到其生成的 ID，将跳过"))
        else pure .none

inductive ConstantForm
  | decimal | string | vector | arrayNumber | arrayString | arrayVector
  deriving DecidableEq, Repr

def ConstantForm.name : ConstantForm→String
  | decimal => "decimal"
  | string => "string"
  | vector => "vector"
  | arrayNumber => "array_number"
  | arrayString => "array_string"
  | arrayVector => "array_vector"

structure ConstantInstruction where
  nodeId : Json
  value : Json
  form : ConstantForm

def ConstantInstruction.toJson (i : ConstantInstruction) : Json :=
  .obj [("node_id",i.nodeId),("new_value",i.value),("value_type",.str i.form.name)]

def isVectorItem : Json→Bool
  | .arr items => items.length == 3 || items.length == 4
  | v => v.isVector

/-- Numbers of an item of a list of vectors. A record has a fourth one if it says so. -/
def vectorItem (v : Json) : Except Failure Json := do
  match v with
  | .arr items => pure (.arr ((← items.mapM Json.toFloat).map .float))
  | _ =>
    let keys := if (v.get? "w").isSome then ["x","y","z","w"] else ["x","y","z"]
    let numbers ← keys.mapM fun k => ((v.get? k).getD (.float 0.0)).toFloat
    pure (.arr (numbers.map .float))

/-- Form and content of a list, if its items are of one kind. -/
def listContent? (items : List Json) : Except Failure (Option (ConstantForm×Json)) := do
  if items.all Json.isNumber then pure (some (.arrayNumber,.arr ((← items.mapM Json.toFloat).map .float)))
  else if items.all Json.isStr then pure (some (.arrayString,.arr items))
  else if items.all isVectorItem then pure (some (.arrayVector,.arr (← items.mapM vectorItem)))
  else pure none

def adviseValue (id newId value : Json) : Except Failure (Advice ConstantInstruction) := do
  if value.isNumber then pure (.instruct ⟨newId,value,.decimal⟩)
  else if value.isStr then pure (.instruct ⟨newId,value,.string⟩)
  else if value.isVector then
    pure (.instruct ⟨newId,.arr (["x","y","z"].map fun k => (value.get? k).getD (.float 0.0)),.vector⟩)
  else match value with
    | .arr items =>
      match ← listContent? items with
      | some (form,content) => pure (.instruct ⟨newId,content,form⟩)
      | none =>
        pure (.warn ("⚠️ 警告：跳过常量 '" ++ id.plain ++ "'，因为其列表元素类型混合或不支持: " ++ value.plain))
    | _ => pure (.warn ("⚠️ 警告：跳过常量 '" ++ id.plain ++ "'，因为其 value 格式无法识别: " ++ value.plain))

def mentionsValue (attrs : Json) : Except Failure Bool :=
  match attrs with
  | .obj fields => .ok (Json.lookup "value" fields).isSome
  | .arr items => .ok (items.any fun v => v.same (.str "value"))
  | .str s => .ok (contains s "value")
  | other => .error (.fault .wrongKind ("argument of type '" ++ other.kindName ++ "' is not iterable"))

def adviseConstant (placements : Table Placement) (node : Json) : Except Failure (Advice ConstantInstruction) := do
  let type ← (← node.fieldOr "type" (.str "")).text "strip"
  if lower (trim type) != "constant" then pure .none
  else if !(← mentionsValue (← node.fieldOr "attrs" (.obj []))) then pure .none
  else
    let id ← node.item "id"
    let attrs ← node.item "attrs"
    match (placements.find (← id.toFieldName)).map (·.newId) with
    | some newId =>
      if newId.truthy then adviseValue id newId (← attrs.item "value")
      else pure (.warn (missing id))
    | none => pure (.warn (missing id))
where
  missing (id : Json) : String := "⚠️ 警告：常量节点 '" ++ id.plain ++ "' 定义了 value 但未找到其生成的 ID，将跳过"

def typesOf (graph : Json) (placements : Table Placement) (index : Index) (rules modules : Json) :
    Except Failure (Table GateType) :=
  infer graph (.obj (placements.toList.map fun (id,p) => (id,p.toJson))) index.toJson rules modules

def listedNodes (graph : Json) : Except Failure (List Json) := do (← graph.item "nodes").each

def typeInstructions (graph : Json) (placements : Table Placement) (index : Index) (rules modules : Json) :
    Except Failure (List TypeInstruction)×List String :=
  let prepared := do pure (← typesOf graph placements index rules modules,← listedNodes graph)
  match prepared with
  | .error f => (.error f,[])
  | .ok (types,nodes) =>
    let advise := adviseType placements modules types
    (advised advise nodes,warnings advise nodes)

def constantInstructions (graph : Json) (placements : Table Placement) :
    Except Failure (List ConstantInstruction)×List String :=
  match listedNodes graph with
  | .error f => (.error f,[])
  | .ok nodes =>
    let advise := adviseConstant placements
    (advised advise nodes,warnings advise nodes)

end ChipForge.Assembly
