import ChipForge.Json.Basic

/-! A graph with constants of all shapes and a chain of sums, and the nodes of a chip whose wires reach back. -/
namespace ChipForge.Sample

def node (id type : String) (attrs : List (String×Json)) : Json :=
  .obj [("attrs",.obj attrs),("id",.str id),("type",.str type)]

def wire (source target port : String) : Json :=
  .obj [("from_node",.str source),("from_port",.str "0"),("to_node",.str target),("to_port",.str port)]

def sources : List Json :=
  [node "c0" "Constant" [("value",.obj [("x",.int 1),("y",.int 2),("z",.int 3)])],
    node "c1" "Constant" [("value",.arr [.float 1.0,.float 2.0])],
    node "c2" "Constant" [("value",.arr [.str "a",.str "b"])],
    node "in0" "Input" [("data_type",.str "Number")],
    node "var0" "Variable" [("dsl_name",.str "s")],
    node "ag0" "ArraysGet" []]

def sourceWires : List Json := [wire "c1" "ag0" "0",wire "var0" "ag0" "1"]

def pair (i : Nat) : List Json := [node ("add" ++ toString i) "Add" [],node ("out" ++ toString i) "Output" []]

def firstTerm : Nat→String
  | 0 => "in0"
  | i+1 => "add" ++ toString i

def secondTerm (i : Nat) : String := if i % 3 == 0 then "c0" else "in0"

def pairWires (i : Nat) : List Json :=
  let sum := "add" ++ toString i
  let out := "out" ++ toString i
  [wire (firstTerm i) sum "0",wire (secondTerm i) sum "1",wire sum out "0",wire "ag0" out "0"]

def definition : Json :=
  .obj [("GateDataType",.str "String"),("Key",.str "s"),("Value",.str "q"),("dsl_name",.str "s")]

def graph (size : Nat) : Json :=
  .obj [("nodes",.arr (sources++(List.range size).flatMap pair)),
    ("edges",.arr (sourceWires++(List.range size).flatMap pairWires)),("variables",.arr [definition])]

def chipName (i : Nat) : String := "Node" ++ toString i

def fedFrom (i : Nat) : Json :=
  .obj [("connectedOutputIdModel",.obj [("Id",.str (chipName i ++ "/o")),("NodeId",.str (chipName i))])]

/-- A node fed from the two before it and from the one half way; the first has no wires. -/
def chipNode (i : Nat) : Json :=
  let ports := if i == 0 then [] else [fedFrom (i - 1),fedFrom (i - 2),fedFrom (i / 2)]
  .obj [("Id",.str (chipName i)),("Inputs",.arr ports)]

def chipNodes (size : Nat) : List Json := (List.range size).map chipNode

def entry (key text : String) : Json := .obj [("key",.str key),("stringValue",.str text)]

def emptySave : Json :=
  .obj [("saveObjectContainers",.arr [.obj [("saveObjects",.obj [
    ("mechanicData",.arr [.obj [("mechanicSerializedInputs",
      .str "[\x7b\"Key\": \"activation\", \"DataType\": 2, \"GateData\": null\x7d]")]]),
    ("saveMetaDatas",.arr [entry "chip_graph" "\x7b\"ValidationState\": 1, \"Nodes\": []\x7d",entry "chip_inputs" "[]",
      entry "chip_outputs" "[]",entry "chip_variables" "[]"])])]])]

end ChipForge.Sample
