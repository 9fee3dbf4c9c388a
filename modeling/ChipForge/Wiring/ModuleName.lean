import ChipForge.Script.Printer
import ChipForge.Wiring.Graph

/-! Names of modules: the name a call is written with, the module it means, and the label its node gets. -/
namespace ChipForge.Wiring
open Script Text

def dotted? : Expr→Option String
  | .name id => some id
  | .attribute value attr => (dotted? value).map (· ++ "." ++ attr)
  | _ => none

def calledName (fn : Expr) : String :=
  match dotted? fn with
  | some name => name
  | none => fn.print?.getD "<unknown>"

def moduleWords : List (String×String) :=
  [("abs","Positive"),("positive","Positive"),("sqrt","Sqrt"),("ceil","Ceiling"),("ceiling","Ceiling"),
    ("pow","Power"),("power","Power"),("exp","Exponent"),("exponent","Exponent"),("log","Logarithm"),
    ("logarithm","Logarithm"),("random","Random"),("remainder","Mod"),("modulo","Mod"),("mod","Mod"),
    ("round","Round"),("floor","Floor"),("clamp","Clamp"),("clamp01","Clamp01"),("inverse","Inverse"),
    ("sign","Sign"),("add","Add"),("subtract","Subtract"),("multiply","Multiply"),("divide","Divide"),
    ("negate","Negate"),("average","Average"),("max","Max"),("min","Min"),("square","Square")]

def canonicalModule (name : String) : String :=
  let raw := trim name
  if raw.isEmpty then name
  else
    let base := trim (lastPart raw ".")
    (moduleWords.lookup (lower base)).getD base

def attr? (attrs : List (Literal×Literal)) (key : String) : Option Literal := (Literal.dict attrs).get? key

def setAttr (attrs : List (Literal×Literal)) (key : String) (value : Literal) : List (Literal×Literal) :=
  Literal.insertEntry (.str key) value attrs

def labelWidth : Nat := 18

/-- Text of a constant in a label: text as it is, other values in the save format where they have one. -/
def constantText (v : Literal) : String :=
  match v with
  | .str s => s
  | _ =>
    match v.toJson? with
    | some j => Json.write Json.Style.spaced.unicode j
    | none => v.plain

def constantLabel (v : Literal) : String :=
  let s := trim ((constantText v).replace "\n" " ")
  "Const " ++ take s labelWidth++(if s.length > labelWidth then "…" else "")

def autoLabel (type : String) (attrs : List (Literal×Literal)) : String :=
  let capitals := latinUpper type
  if startsWith capitals "CONSTANT" then constantLabel ((attr? attrs "value").getD (.str ""))
  else if capitals == "INPUT" || capitals == "OUTPUT" then
    match attr? attrs "name" with
    | some (.str n) => if n.isEmpty then type else n
    | _ => type
  else if type.isEmpty then "node" else type

end ChipForge.Wiring
