import ChipForge.Json.Writer
import ChipForge.Save.Edit
import ChipForge.Workshop.Folder

/-! Work on files. An action reads and writes files, speaks to the user and may fail. -/
namespace ChipForge.Workshop

/-- Parts of the toolset that a tool may lack. -/
inductive Part
  | moduleAdder | endAdder | variableTool | variableStore | compiler | settings | other
  deriving DecidableEq, Repr

/-- What work is done on. -/
structure Bench where
  folder : Folder
  supply : Nat→String
  drawn : Nat
  said : List String
  complained : List String
  typed : List String
  archiveName : String
  /-- Files too old for an archive. -/
  stale : List String
  /-- Parts that are not there. -/
  lacking : List Part

def Bench.fresh (folder : Folder) (supply : Nat→String) (archiveName : String) : Bench :=
  ⟨folder,supply,0,[],[],[],archiveName,[],[]⟩

def typedLines (text : String) : List String :=
  let pieces := text.splitOn "\n"
  if pieces.getLast? == some "" then pieces.dropLast else pieces

abbrev Work := ExceptT Failure (StateM Bench)

def sayText (text : String) : Work Unit := modify fun b => { b with said := b.said++[text] }

def say (line : String) : Work Unit := sayText (line ++ "\n")

def sayAll (lines : List String) : Work Unit := modify fun b => { b with said := b.said++lines.map (· ++ "\n") }

def complain (text : String) : Work Unit := modify fun b => { b with complained := b.complained++[text] }

def exists? (path : String) : Work Bool := do pure ((← get).folder.has path)

def readBytes (path : String) : Work ByteArray := do (← get).folder.read path

def writeItem (path : String) (item : Item) : Work Unit := do
  let folder ← (← get).folder.write path item
  modify fun b => { b with folder := folder }

def writeText (path text : String) : Work Unit := writeItem path (.file text.toUTF8)

def writeJson (path : String) (style : Json.Style) (v : Json) : Work Unit := writeText path (Json.write style v)

def readText (path : String) : Work String := do
  match String.fromUTF8? (← readBytes path) with
  | some text => pure (String.ofList (Text.unifyLines text.toList))
  | none => throw (.fault .undecodable "'utf-8' codec can't decode byte")

def readJson (path : String) : Work Json := do (Json.str (← readText path)).parseText

def ask (prompt : String) : Work String := do
  sayText prompt
  match (← get).typed with
  | [] => throw (.fault (.named "EOFError") "EOF when reading a line")
  | line::rest =>
    modify fun b => { b with typed := rest }
    pure line

def stop {α : Type} (status : Json) : Work α := throw (.exit status)

def edit {α : Type} (save : Json) (action : Save.Edit α) : Work (α×Json) := do
  let b ← get
  let (result,desk) := action.run ⟨save,b.supply,b.drawn,[]⟩
  set { b with drawn := desk.drawn, said := b.said++desk.said }
  match result with
  | .ok v => pure (v,desk.save)
  | .error f => throw f

def attempt {α : Type} (action : Work α) : Work (Except Failure α) :=
  tryCatch (do pure (.ok (← action))) fun f => pure (.error f)

def wideStyle : Json.Style := Json.Style.indented 4

end ChipForge.Workshop
