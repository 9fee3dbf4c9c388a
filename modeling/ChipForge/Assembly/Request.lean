import ChipForge.Assembly.Variables
import ChipForge.GateType

/-! Requests for modules: what is to be added to a chip for the nodes of a graph. -/
namespace ChipForge.Assembly

/-- A module to add. -/
inductive Request
  | input (name : Json)
  | output (name : Json)
  | constant (name : Json)
  | variable (key gateType value : Json)
  | module (name : String)

def Request.toJson : Request→Json
  | .input name => .obj [("type",.str "input"),("name",name)]
  | .output name => .obj [("type",.str "output"),("name",name)]
  | .constant name => .obj [("type",.str "constant"),("name",name)]
  | .variable key gateType value =>
    .obj [("type",.str "variable"),("key",key),("gateDataType",gateType),("value",value)]
  | .module name => .str name

structure VariableContext where
  definitions : Table Json
  keys : Table String
  counts : Table Nat
  used : List String

namespace VariableContext

def count (c : VariableContext) (key : String) : Nat := (c.counts.find key).getD 0

def use (c : VariableContext) (key : String) : VariableContext :=
  { c with
    counts := c.counts.put key (c.count key+1)
    used := if c.used.contains key then c.used else c.used++[key] }

end VariableContext

def requestName (node : Json) (friendly : Option Json) (default : String) : Except Failure Json := do
  let attrs := (← node.fieldOr "attrs" (.obj [])).orElse (.obj [])
  attrs.fieldOr "name" (friendly.getD (.str default))

/-- The definition of a VARIABLE node: the one of its key, or the first that has no node yet. -/
def definitionOf (c : VariableContext) (id : String) : Except Failure (String×Json) :=
  match (c.keys.find id).bind fun key => (c.definitions.find key).map fun d => (key,d) with
  | some found => .ok found
  | none =>
    match c.definitions.toList.find? fun (key,_) => !c.used.contains key with
    | some free => .ok free
    | none =>
      .error (.exit (.str ("错误：DSL 中存在 VARIABLE 节点，但未找到足够、且可匹配的变量定义 " ++
        "(形如 \x7b\"Key\": \"...\", \"GateDataType\": \"...\", \"Value\": ...\x7d)")))

/-- The request for a VARIABLE node. The first node of a variable sets its value. -/
def requestVariable (c : VariableContext) (node : Json) : Except Failure (Request×VariableContext) := do
  let id ← nodeId node
  let (key,definition) ← definitionOf c id
  let value ← if c.count key == 0 then definition.field "Value" else pure .null
  let gateType ← definition.field "GateDataType"
  pure (.variable (.str key) gateType value,c.use key)

def requestSpecial (kind : String) (node : Json) (friendly : Option Json) (c : Option VariableContext) :
    Except Failure (Request×Option VariableContext) := do
  if kind == "input" then pure (.input (← requestName node friendly "Input"),c)
  else if kind == "output" then pure (.output (← requestName node friendly "Output"),c)
  else if kind == "constant" then pure (.constant (← requestName node friendly "Constant"),c)
  else if kind == "variable" then
    match c with
    | some c =>
      let (request,c) ← requestVariable c node
      pure (request,some c)
    | none => throw (.refusal .badValue "variable 模块构建需要提供变量相关上下文参数")
  else throw (.refusal .missingKey ("未注册的特殊模块类型: " ++ kind))

def requestUnused (c : VariableContext) : Except Failure (List Request) :=
  (c.definitions.toList.filter fun (key,_) => !c.used.contains key).mapM fun (_,d) => do
    pure (.variable (← d.field "Key") (← d.field "GateDataType") (← d.field "Value"))

end ChipForge.Assembly
