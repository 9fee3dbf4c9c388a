import ChipForge.Assembly.Plan
import ChipForge.Save.Adder
import ChipForge.Save.Connect
import ChipForge.Save.Positions

/-! Stages of production: what is planned is added to a save, connected and laid out. -/
namespace ChipForge.Workshop
open Assembly Save

def isBadValue : Failure→Bool
  | .fault .badValue _ => true
  | .fault .malformedJson _ => true
  | .fault .undecodable _ => true
  | .refusal .badValue _ => true
  | _ => false

def addFailure (count : Nat) (f : Failure) : Failure :=
  match f with
  | .exit status => .exit status
  | f =>
    let lead := if isBadValue f then "模块添加失败: " else "模块添加过程中发生未知错误: "
    .report .moduleAdd .moduleAdder (lead++f.text) [("module_count",.int count)] (some f) true

def fillId (order : Nat) (id : Json) : List (String×Placement)→List (String×Placement)
  | [] => []
  | (name,p)::rest =>
    if p.order == order then (name,{ p with newId := id })::rest else (name,p)::fillId order id rest

/-- Gives the ids of new nodes to placements by number. -/
def fillIds : List Nat→List Created→Table Placement→Edit (Table Placement)
  | _, [], placements => pure placements
  | [], node::rest, placements => do
    Save.say ("⚠️ 警告: 创建了一个多余的节点 " ++ node.id ++ "，无法在 node_map 中找到对应项")
    fillIds [] rest placements
  | order::orders, node::rest, placements => fillIds orders rest (fillId order (.str node.id) placements.toList)

def unmatched (placements : Table Placement) : List String :=
  placements.toList.filterMap fun (_,p) => if p.newId.isNull then some p.friendlyName else none

def sortedOrders (placements : Table Placement) : List Nat :=
  (placements.toList.map fun (_,p) => p.order).mergeSort fun a b => decide (a ≤ b)

/-- Gives the placements the ids of new nodes. Each of them must get one. -/
def giveIds (created : List Created) (placements : Table Placement) : Edit (Table Placement) := do
  let filled ← fillIds (sortedOrders placements) created placements
  let missing := unmatched filled
  if missing.isEmpty then pure filled
  else
    throw (.reportOf .moduleAdd ("以下节点未匹配到新 ID：" ++ String.intercalate ", " missing)
      [("unmatched_nodes",.arr (missing.map .str))])

def addStage (requests : List Json) (placements : Table Placement) (modules : Json) : Edit (Table Placement) := do
  let created ← tryCatch (addModules (.arr requests) modules chipThreshold) fun f =>
    throw (addFailure requests.length f)
  Save.say ("✔ 模块添加逻辑执行完毕，获得 " ++ toString created.length ++ " 个新节点信息")
  if created.length != requests.length then
    Save.say ("⚠️ 警告：请求添加 " ++ toString requests.length ++ " 个模块，实际成功创建 " ++ toString created.length ++ " 个")
  giveIds created placements

def connectFailure (f : Failure) : Failure :=
  match f with
  | .exit status => .exit status
  | f => .report .connection .connector ("批量连线过程中发生错误: " ++ f.text) [] (some f) true

def missingSave (file : String) : Failure :=
  .reportOf .file "在执行连线前，未找到输入存档文件" [("file",.str file)]

def graphless : Failure := .reportOf .connection "批量连线过程中发生错误，流程终止" []

def connectStage (connections : Json) (source target : String) : Edit Unit := do
  let made ← tryCatch (connectAll connections source) fun f => throw (connectFailure f)
  match made with
  | some count => Save.say (← connectedText connections count target)
  | none => throw graphless

end ChipForge.Workshop
