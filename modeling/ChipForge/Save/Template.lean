import ChipForge.Json.Writer

/-! The save that a new chip is put into. -/
namespace ChipForge.Save

def zeros (names : List String) : Json := .obj (names.map fun name => (name,.float 0.0))

/-- A setting of a chip; one of its values counts, by the name of the setting. -/
def chipSetting (key : String) (text : Json) (number : Int) (plane space : Json) : Json :=
  .obj [("key",.str key),("boolValue",.bool false),("stringValue",text),("intValue",.int number),
    ("floatValue",.float 0.0),("vector2Value",plane),("vector3Value",space),
    ("vector4Value",zeros ["x","y","z","w","magnitude","sqrMagnitude"])]

def portId (node side id : String) : Json := .str (node ++ "\n" ++ side ++ " : Number " ++ id)

def portEnd (node side id : String) : Json := .obj [("Id",portId node side id),("NodeId",.str node)]

def inputPort (node id : String) (source : Json) : Json :=
  .obj [("Id",portId node "Input" id),("DataType",.int 2),("connectedOutputIdModel",source)]

def outputPort (node id : String) (targets : List Json) : Json :=
  .obj [("Id",portId node "Output" id),("DataType",.int 2),("ConnectedInputsIds",.arr targets)]

def templatePlace (x y unitX unitY length square : Float) : Json :=
  .obj [("x",.float x),("y",.float y),
    ("normalized",.obj [("x",.float unitX),("y",.float unitY),("magnitude",.float 1.0),("sqrMagnitude",.float 1.0)]),
    ("magnitude",.float length),("sqrMagnitude",.float square)]

def templateNode (id : String) (operation : Int) (inputs outputs : List Json) (place data : Json) : Json :=
  .obj [("Id",.str id),("ModelVersion",.int 1),("Version",.str "0.1"),("OperationType",.int operation),
    ("Inputs",.arr inputs),("Outputs",.arr outputs),("VisualPosition",place),("VisualCollapsed",.bool false),
    ("MechanicConnectionId",.null),("GateDataType",.int 2),("SaveData",data)]

/-- A constant is added to an open number, and the sum passed on; another sum stands apart. -/
def templateGraph : Json :=
  let sum := "AddNumbersNodeViewModel : 538519d9-4437-4b43-b130-9495d0a12acc"
  let constant := "ConstantNodeViewModel : 62b4a7e4-7ed7-4882-9b30-a612cc39bba0"
  let identity := "IdentityNodeViewModel : bdda07dc-0a55-4139-a59f-88545c55b44a"
  let apart := "AddNumbersNodeViewModel : d9c8b7a6-f5e4-4d3c-b2a1-09876543210f"
  let first := "962dc162-85c8-4f64-a8fe-421a0b584cb9"
  let result := "9bb7dac7-1e5f-4163-9c02-5bb0a9585e9f"
  let value := "cd872a86-5d43-43f5-8454-c052b928d885"
  let passed := "6dead178-e9f7-40a1-b262-2c0bd982535a"
  .obj [("ValidationState",.int 1),("Nodes",.arr [
    templateNode sum 2304 [inputPort sum first (portEnd constant "Output" value),
        inputPort sum "c5fcc0fd-efe3-4752-9fa4-c3fdf0b944bc" .null]
      [outputPort sum result [portEnd identity "Input" passed]]
      (templatePlace (-120.0) 180.0 (-0.5547002) 0.832050264 216.333084 46800.0) .null,
    templateNode constant 257 [] [outputPort constant value [portEnd sum "Input" first]]
      (templatePlace (-1160.0) 180.0 (-0.9881739) 0.15333733 1173.88245 1378000.0)
      (.str (Json.write (Json.Style.indented 2) (.obj [("DataValue",.str "0")]))),
    templateNode identity 1 [inputPort identity passed (portEnd sum "Output" result)]
      [outputPort identity "fd32b0c7-c9db-4136-88fc-2a3894a3fc57" []]
      (templatePlace 820.0 180.0 0.976744354 0.2144073 839.5237 704800.0) .null,
    templateNode apart 2304 [inputPort apart "c8b7a6f5-e4d3-4c2b-b1a0-fedcba987654" .null,
        inputPort apart "b7a6f5e4-d3c2-4b1a-a09f-edcba9876543" .null]
      [outputPort apart "a6f5e4d3-c2b1-4a09-9f8e-dcba98765432" []]
      (templatePlace (-120.0) 380.0 (-0.3011391) 0.9535372 398.497162 158800.0) .null])]

def template : Json :=
  .obj [
    ("autoLightData",.obj [
      ("isAutoLightEnabled",.bool false),
      ("timeProgress",.float 0.5),
      ("minutesInDay",.int 10)]),
    ("saveObjectContainers",.arr [
      .obj [
        ("saveObjects",.obj [
          ("objectId",.int 248),
          ("instanceId",.int (-55784)),
          ("modedObjectId",.str ""),
          ("localId",.int 0),
          ("parentId",.int (-1)),
          ("position",zeros ["x","y","z"]),
          ("rotation",.obj [("x",.float 0.0),("y",.float 0.0),("z",.float 0.0289526787)]),
          ("scale",.obj [("x",.float 1.0),("y",.float 1.0),("z",.float 1.0)]),
          ("color",zeros ["r","g","b","a"]),
          ("intensity",.float 0.0),
          ("layer",.int 0),
          ("sortingLayer",.str "Default"),
          ("orderLayer",.int 0),
          ("gravity",.bool true),
          ("freezed",.bool false),
          ("rotationFrozen",.bool false),
          ("notBreakable",.bool false),
          ("isMeltable",.bool false),
          ("isHuman",.bool false),
          ("isActivationForced",.bool false),
          ("TreeBranch",.null),
          ("LightSaveData",.obj [
            ("IsActive",.bool false),
            ("ColorIsChanged",.bool true),
            ("Color",zeros ["r","g","b","a"]),
            ("IsBrokenByWater",.bool false),
            ("ChildrenSaveData",.null),
            ("<IsActive>k__BackingField",.bool false),
            ("<ColorIsChanged>k__BackingField",.bool true),
            ("<Color>k__BackingField",zeros ["r","g","b","a"]),
            ("<IsBrokenByWater>k__BackingField",.bool false),
            ("<ChildrenSaveData>k__BackingField",.null)]),
          ("BreakableSaveData",.null),
          ("humanData",.arr []),
          ("mechanicData",.arr [
            .obj [
              ("activationInput",.float 0.0),
              ("floatParameters",.arr [.float 0.0]),
              ("mechanicSerializedInputs",.str "[\x7b\"Key\":\"activation\",\"DataType\":2,\"DataName\":\"activation\",\"CanBeEdit\":false,\"GateData\":\"\x7b\\\"Value\\\":0.0,\\\"Default\\\":0.0,\\\"Min\\\":-3.40282347E+38,\\\"Max\\\":3.40282347E+38,\\\"IsCheckbox\\\":false\x7d\"\x7d]")]]),
          ("brokenJoints",.arr []),
          ("hingeJoints",.arr []),
          ("distJoints",.arr []),
          ("constraints",.arr []),
          ("collisionIgnores",.arr []),
          ("addData",.arr []),
          ("saveMetaDatas",.arr [
            chipSetting "chip_tps" .null 240 (zeros ["x","y"]) (zeros ["x","y","z"]),
            chipSetting "chip_period_name_index" .null 2 (zeros ["x","y"]) (zeros ["x","y","z"]),
            chipSetting "chip_inputs" (.str "[\n  \x7b\n    \"Key\": \"activation\",\n    \"DataName\": \"activation\",\n    \"SerializedValue\": \"\x7b\\\"Value\\\":0.0,\\\"Default\\\":0.0,\\\"Min\\\":-3.40282347E+38,\\\"Max\\\":3.40282347E+38,\\\"IsCheckbox\\\":false\x7d\",\n    \"GateDataType\": 2\n  \x7d\n]") 0 (zeros ["x","y"]) (zeros ["x","y","z"]),
            chipSetting "chip_outputs" (.str "[\n  \x7b\n    \"Key\": \"entity\",\n    \"DataName\": \"entity\",\n    \"SerializedValue\": null,\n    \"GateDataType\": 1\n  \x7d,\n  \x7b\n    \"Key\": \"activation\",\n    \"DataName\": \"activation\",\n    \"SerializedValue\": \"\x7b\\\"Value\\\":0.0,\\\"Default\\\":0.0,\\\"Min\\\":-3.40282347E+38,\\\"Max\\\":3.40282347E+38,\\\"IsCheckbox\\\":false\x7d\",\n    \"GateDataType\": 2\n  \x7d\n]") 0 (zeros ["x","y"]) (zeros ["x","y","z"]),
            chipSetting "chip_variables" (.str "[]") 0 (zeros ["x","y"]) (zeros ["x","y","z"]),
            chipSetting "chip_graph" (.str (Json.write (Json.Style.indented 2) templateGraph)) 0 (zeros ["x","y"]) (zeros ["x","y","z"]),
            chipSetting "chip_editor_position" .null 0 (.obj [("x",.float (-138.912781)),("y",.float (-276.419647))]) (zeros ["x","y","z"]),
            chipSetting "chip_editor_zoom" .null 0 (zeros ["x","y"]) (.obj [("x",.float 0.496272445),("y",.float 0.496272445),("z",.float 0.0)])])]),
        ("saveObjectChildren",.arr [])]]),
    ("averagePosition",.obj [("x",.float 3.43957),("y",.float 0.127520934),("z",.float (-0.0190000013))])]

end ChipForge.Save
