import ChipForge.Catalogue.Modules
import ChipForge.Tools.Toolset
import ChipForge.Workshop.Zip

/-! The command line. The first word names a tool; without words the script of the folder is made into a packed save. -/
namespace ChipForge
open Workshop Tools Text

def toolWords : List (String×Tool) :=
  [("produce",.produce),("convert",.convert),("add-module",.addModule),("add-batch",.addBatch),
    ("connect",.connectBatch),("add-variable",.addVariable),("add-ends",.addEnds),("retype",.retype),
    ("lay-out",.layOut),("archive",.archive)]

/-- The id of a number in a run. Different numbers below 2^62 give different ids. -/
def idFrom (seed i : Nat) : String :=
  let n := seed+i
  hex 8 (seed >>> 62) ++ "-" ++ hex 4 (seed >>> 94) ++ "-4" ++ hex 3 (seed >>> 110) ++ "-" ++
    hex 4 (0x8000+(n >>> 48) % 0x4000) ++ "-" ++ hex 12 (n % (1 <<< 48))

def nameFrom (seed : Nat) : String :=
  let letters := "abcdefghijklmnopqrstuvwxyzABCDEFGHIJKLMNOPQRSTUVWXYZ0123456789".toList
  String.ofList ((List.range 8).map fun i => letters.getD (seed / Nat.pow 62 i % 62) 'a')

def pathsIn (word : String) : List String :=
  let value := match cut word "=" with
    | (_,some v) => [v]
    | _ => []
  word::String.ofList (word.toList.drop 2)::value

def ownPaths : List String :=
  [scriptPath,modulesPath,dataPath,rulesPath,"Data.json","MetaData","Icon","demo_v2.py","graph.json",
    "modules.json","new_nodes.json","instructions.json","output.json","ungraph.json","Data_modified.json",
    "data_modified.json","data_modified_batch.json",laidOutPath,outputFolder,graphPath,connectionsPath,
    modifiedPath,finalPath]

def readItem (path : String) : IO (Option Item) := do
  try
    pure (some (.file (← IO.FS.readBinFile path)))
  catch e =>
    match e with
    | .inappropriateType _ _ _ => pure (some .folder)
    | _ => pure none

def readFolder (words : List String) : IO Folder := do
  let named := (words.flatMap pathsIn).filter fun path => !path.isEmpty
  let mut items : List (String×Item) := []
  for path in ownPaths++named.flatMap fun path => Folder.above path++[path] do
    match ← readItem path with
    | some item => items := items++[(path,item)]
    | none => pure ()
  pure (Folder.ofItems items)

def writeFolder (before after : Folder) : IO Unit := do
  for (path,item) in after.toList do
    match item with
    | .folder => if !before.has path then IO.FS.createDirAll path
    | .archive entries =>
      let members := entries.map fun (name,bytes) => (⟨name.toUTF8.data.toList,bytes.data.toList⟩ : Member)
      IO.FS.writeBinFile path ⟨(archiveBytes members).toArray⟩
    | .file _ => pure ()
  for (path,bytes) in (before.changedSince after).toList do
    IO.FS.writeBinFile path bytes
  for (path,_) in before.toList do
    if !after.has path then
      try
        IO.FS.removeFile path
      catch _ => pure ()

def readLines (stdin : IO.FS.Stream) : Nat → IO (List String)
  | 0 => pure []
  | n+1 => do
    let line ← stdin.getLine
    if line.isEmpty then pure [] else pure (typedLines line++(← readLines stdin n))

def statusOf (result : Except Failure Unit) : UInt32×String :=
  match result with
  | .ok _ => (0,"")
  | .error (.exit .null) => (0,"")
  | .error (.exit (.int n)) => (UInt32.ofNat n.toNat,"")
  | .error (.exit other) => (1,other.plain ++ "\n")
  | .error f => (1,f.label ++ ": " ++ f.text ++ "\n")

def runTool (tool : Tool) (words : List String) : IO UInt32 := do
  let random ← IO.getRandomBytes 16
  let seed := random.data.toList.foldl (fun n b => 256 * n+b.toNat) 0
  let folder ← readFolder words
  let typed ← if tool == .addModule then readLines (← IO.getStdin) 1 else pure []
  let bench := { Bench.fresh folder (idFrom seed) (nameFrom seed) with typed := typed }
  let outputs := Wiring.OutputTypes.ofCatalogue (Catalogue.modulesJson Catalogue.modules)
  let (result,bench) := (tool.run outputs words).run bench
  writeFolder folder bench.folder
  let (status,text) := statusOf result
  (← IO.getStdout).putStr (String.join bench.said)
  (← IO.getStderr).putStr (String.join bench.complained++text)
  pure status

end ChipForge

def main (words : List String) : IO UInt32 := do
  match words with
  | [] => ChipForge.runTool .produce []
  | word::rest =>
    match ChipForge.toolWords.lookup word with
    | some tool => ChipForge.runTool tool rest
    | none =>
      (← IO.getStderr).putStr ("tools: " ++ String.intercalate " " (ChipForge.toolWords.map (·.1)) ++ "\n")
      pure 2
