import ChipForge.Assembly.Instructions
import ChipForge.Save.Retype
import ChipForge.Wiring.Build
import ChipForge.Workshop.Archive
import ChipForge.Workshop.Stages

/-! The whole way from a script to a packed save. -/
namespace ChipForge.Workshop
open Assembly

def scriptPath : String := "input.py"
def graphPath : String := "output/graph.json"
def modulesPath : String := "moduledef.json"
def dataPath : String := "data.json"
def rulesPath : String := "data_type_rules.json"
def connectionsPath : String := "output/output.json"
def modifiedPath : String := "output/data_after_modify.json"

def convertFile (outputs : Wiring.OutputTypes) (source target : String) : Work Unit := do
  let bytes ← tryCatch (readBytes source) fun f =>
    throw (.causedBy .file "读取 DSL 文件失败" [("file",.str source)] f)
  let text ← Wiring.buildGraph outputs source target bytes
  tryCatch (writeText target text) fun f =>
    throw (.causedBy .file "写入 graph JSON 失败" [("file",.str target)] f)

def loadJson (path title : String) : Work Json := do
  if ← exists? path then
    tryCatch (readJson path) fun f =>
      match f with
      | .fault .malformedJson what =>
        stop (.str ("错误：" ++ title ++ " 文件 \"" ++ path ++ "\" 解析失败：" ++ what))
      | other => throw other
  else stop (.str ("错误：未找到 " ++ title ++ " 文件 \"" ++ path ++ "\""))

def loadForAdding : Work (Json×Json) :=
  tryCatch (do
    let save ← loadJson dataPath "原始游戏存档"
    pure (save,← loadJson modulesPath "模块定义")) fun f =>
    match f with
    | .exit status => stop status
    | other => throw (.causedBy .file "加载游戏存档或模块定义失败" [("file",.str dataPath)] other)

def advised {α : Type} (r : Except Failure α×List String) : Work α := do
  sayAll r.2
  r.1

def typesStage (save graph : Json) (placements : Table Placement) (index : Index) (rules modules : Json) : Work Json := do
  let instructions ← advised (typeInstructions graph placements index rules modules)
  if instructions.isEmpty then
    say "ℹ️ 无需修改数据类型，跳过此步骤"
    pure save
  else
    say ("ℹ️  需要进行 " ++ toString instructions.length ++ " 项数据类型修改")
    let (_,save) ← edit save (Save.retypeAll (.arr (instructions.map TypeInstruction.toJson)) rules modules)
    say "✔ 数据类型修改完成"
    pure save

def constantsStage (save graph : Json) (placements : Table Placement) : Work Json := do
  let instructions ← advised (constantInstructions graph placements)
  if instructions.isEmpty then
    say "ℹ️ 无需修改常量值，跳过此步骤"
    pure save
  else
    say ("ℹ️  需要进行 " ++ toString instructions.length ++ " 项常量值修改")
    let (_,save) ← edit save (Save.applyConstants (.arr (instructions.map ConstantInstruction.toJson)))
    say "✔ 常量值修改完成"
    pure save

def readOrStop (path title : String) : Work Json := do
  if ← exists? path then
    tryCatch (readJson path) fun f =>
      match f with
      | .fault .malformedJson what => do
        say ("错误：" ++ title ++ " 文件 “" ++ path ++ "” 解析失败：" ++ what)
        stop (.int 1)
      | other => throw other
  else
    say ("错误：未找到 " ++ title ++ " 文件 “" ++ path ++ "”")
    stop (.int 1)

/-- Connects the save of a file and writes it to another; tells whether there was a graph. -/
def connectFiles (source list target : String) : Work Bool := do
  let save ← readOrStop source "图数据"
  let connections ← readOrStop list "连接指令"
  let (made,save) ← edit save (Save.connectAll connections source)
  match made with
  | none => pure false
  | some count =>
    writeJson target Json.Style.compact.unicode save
    say (← Save.connectedText connections count target)
    pure true

def connectFileStage (source : String) : Work Unit := do
  say "🔗 正在执行批量连线 ..."
  if ← exists? source then
    let made ← tryCatch (connectFiles source connectionsPath finalPath) fun f => throw (connectFailure f)
    if made then pure () else throw graphless
  else throw (missingSave source)

def layoutStage : Work Unit := do
  say "🎨 正在对最终存档文件进行自动布局..."
  if ← exists? finalPath then
    let save ← loadJson finalPath "最终游戏存档"
    let (moved,save) ← edit save (Save.layOut finalPath)
    if moved then writeJson finalPath Json.Style.compact save
  else say ("⚠️ 警告：找不到最终存档文件 '" ++ finalPath ++ "'，跳过自动布局步骤")

def produce (outputs : Wiring.OutputTypes) : Work Unit := do
  ensureOutput
  say "--- 阶段 0: 将 input.py 转换为 graph.json ---"
  convertFile outputs scriptPath graphPath
  say ("✔ 已从 '" ++ scriptPath ++ "' 生成 '" ++ graphPath ++ "'")
  say "\n--- 步骤 1: 解析输入文件 ---"
  let graph ← loadJson graphPath "graph.json"
  let modules ← loadJson modulesPath "模块定义文件"
  let rules ← loadJson rulesPath "数据类型规则文件"
  let index ← Index.ofCatalogue modules
  let plan ← planOf graph index
  say "✔ graph.json 解析完成"
  say "\n--- 步骤 2: 批量添加模块 ---"
  say "📦 正在执行模块添加..."
  let (save,catalogue) ← loadForAdding
  let (placements,save) ← edit save (addStage (plan.requests.map Request.toJson) plan.placements catalogue)
  say "✔ 模块添加完成，并已获取新节点 ID"
  say "\n--- 步骤 3: 节点修改阶段 ---"
  say "\n--- 步骤 3.1: 修改节点数据类型 ---"
  let save ← typesStage save graph placements index rules modules
  say "\n--- 步骤 3.2: 修改常量节点 ---"
  let save ← constantsStage save graph placements
  say "\n--- 步骤 4: 生成连线指令 ---"
  let wires ← connections (Fittings.ofPlan placements index) graph
  writeJson connectionsPath (Json.Style.indented 2).unicode (.arr (wires.map Connection.toJson))
  say ("✔ 已生成连线指令到 " ++ connectionsPath)
  say "\n--- 步骤 5: 执行批量连线 ---"
  say ("ℹ️ 将当前存档状态写入到 '" ++ modifiedPath ++ "' 以进行连线")
  writeJson modifiedPath wideStyle.unicode save
  connectFileStage modifiedPath
  say "\n--- 步骤 6: 执行自动布局 ---"
  layoutStage
  modify fun b => { b with folder := b.folder.remove modifiedPath }
  say "\n--- 阶段 7: 创建 .melsave 归档文件 ---"
  archiveStage
  say "\n🎉 全部流程完成！"

def isStageReport : Failure→Bool
  | .report kind _ _ _ _ _ => [.pipeline,.moduleAdd,.connection,.file,.typeInference].contains kind
  | _ => false

def finalReport (f : Failure) : Failure :=
  match f with
  | .exit status => .exit status
  | f =>
    if isStageReport f then f
    else
      .report .pipeline .pipeline ("流水线执行过程中发生未预期的错误: " ++ f.text) [("stage",.str "未知阶段")] (some f) true

/-- From a script to a packed save; every failure is a report. -/
def produceReported (outputs : Wiring.OutputTypes) : Work Unit :=
  tryCatch (produce outputs) fun f => throw (finalReport f)

end ChipForge.Workshop
