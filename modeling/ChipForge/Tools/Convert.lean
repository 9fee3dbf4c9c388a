import ChipForge.Workshop.Pipeline

/-! The tool that turns a script into a graph. -/
namespace ChipForge.Tools
open Workshop

def sampleScript : String :=
  "# demo_v2.py — AST converter DSL sample\n" ++
  "t = TIME()\n" ++
  "greet = Constant(attrs=\x7b\"value\": \"hello\"\x7d)\n" ++
  "player_pos = Constant(attrs=\x7b\"value\": \x7b\"x\": 1, \"y\": 2, \"z\": 3\x7d\x7d)\n" ++
  "xyz = Split(Vector=player_pos[\"OUT\"])\n" ++
  "out_dt = OUTPUT(INPUT=t[\"DELTA TIME\"], attrs=\x7b\"name\": \"#deltaTime\", \"data_type\": 2\x7d)\n" ++
  "out_g  = OUTPUT(INPUT=greet[\"OUT\"],    attrs=\x7b\"name\": \"#greeting\",  \"data_type\": 4\x7d)\n" ++
  "out_x  = OUTPUT(INPUT=xyz[\"X\"],        attrs=\x7b\"name\": \"#playerX\",   \"data_type\": 2\x7d)\n"

/-- Turns the named script into the named graph; without names a sample is made. -/
def convert (outputs : Wiring.OutputTypes) (args : List String) : Work Unit := do
  let (source,target) ← match args with
    | source::target::_ => do
      let source := Folder.tidy source
      if ← exists? source then pure (source,Folder.tidy target) else stop (.str ("输入文件 '" ++ source ++ "' 不存在"))
    | _ => do
      if ← exists? "demo_v2.py" then pure ("demo_v2.py","graph.json")
      else
        writeText "demo_v2.py" sampleScript
        pure ("demo_v2.py","graph.json")
  convertFile outputs source target
  say ("Graph saved -> " ++ target)

end ChipForge.Tools
