import ChipForge.Workshop.Bench

/-! The last stage: a save is packed with its description and its picture. -/
namespace ChipForge.Workshop

def outputFolder : String := "output"

def finalPath : String := "output/ungraph.json"

def packed : List (String×String) := [(finalPath,"Data"),("MetaData","MetaData"),("Icon","Icon")]

def required : List (String×String) := [(finalPath,"ungraph.json"),("MetaData","MetaData"),("Icon","Icon")]

def ensureOutput : Work Unit := do
  let folder ← (← get).folder.makeFolder outputFolder
  modify fun b => { b with folder := folder }

def entryFor (name : String) : Item→String×ByteArray
  | .file bytes => (name,bytes)
  | .folder => (name ++ "/",ByteArray.empty)
  | .archive _ => (name,ByteArray.empty)

/-- Adds files to an archive in turn. One that is too old ends the packing; what was added stays. -/
def pack (target : String) : List (String×ByteArray)→List (String×String)→Work Unit
  | _, [] => pure ()
  | entries, (path,name)::rest => do
    say ("📦 添加 '" ++ path ++ "' 为 '" ++ name ++ "'")
    let b ← get
    if b.stale.contains path then throw (.fault .badValue "ZIP does not support timestamps before 1980")
    else
      match b.folder.find path with
      | some item =>
        let entries := entries++[entryFor name item]
        writeItem target (.archive entries)
        pack target entries rest
      | none => throw (.path .missing path)

def missingFile? (folder : Folder) : Option (String×String) := required.find? fun (path,_) => !folder.has path

def makeArchive (target : String) : Work Bool := do
  match missingFile? (← get).folder with
  | some (path,name) =>
    say ("❌ 错误：未找到必需文件 '" ++ name ++ "' 在路径 '" ++ path ++ "'")
    pure false
  | none =>
    let made ← attempt (do
      writeItem target (.archive [])
      pack target [] packed)
    match made with
    | .ok _ =>
      say ("✅ 成功创建压缩文件: '" ++ target ++ "'")
      pure true
    | .error f =>
      say ("❌ 创建压缩文件时发生错误: " ++ f.text)
      pure false

def archiveStage : Work Unit := do
  say "\n--- 阶段 7: 创建 .melsave 归档文件 ---"
  ensureOutput
  let name := (← get).archiveName ++ ".melsave"
  say ("📁 生成随机文件名: " ++ name)
  if ← makeArchive (outputFolder ++ "/" ++ name) then say "✅ 归档创建阶段完成！" else say "❌ 归档创建阶段失败！"

end ChipForge.Workshop
