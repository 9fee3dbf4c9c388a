import ChipForge.Save.Node

/-! Variables of a chip: a definition holds the value, and nodes read and set it. -/
namespace ChipForge.Save
open Text

def bound : Json := .float 3.40282347e38

def negativeBound : Json := .float (-3.40282347e38)

def zeroVector : Json :=
  .obj (["x","y","z","w","magnitude","sqrMagnitude"].map fun k => (k,Json.float 0.0))

def boundVector (b : Json) : Json := .obj (["x","y","z","w"].map fun k => (k,b))

def emptySetting? : GateType→Option Json
  | .number =>
    some (.obj [("Value",.float 0.0),("Default",.float 0.0),("Min",negativeBound),("Max",bound),
      ("IsCheckbox",.bool false)])
  | .string =>
    some (.obj [("IsMultiline",.bool false),("Value",.str ""),("Default",.null),("MaxLength",.int 2147483647)])
  | .vector =>
    some (.obj [("Value",zeroVector),("Default",zeroVector),("MinVector",boundVector negativeBound),
      ("MaxVector",boundVector bound)])
  | .entity => none
  | _ => some (.obj [("Value",.arr []),("Default",.arr [])])

def setBoth (setting value : Json) : Json := (setting.set "Value" value).set "Default" value

/-- Sets the coordinates a record gives, up to the first that is no number. -/
def setCoordinates (setting value : Json) : List String→Json
  | [] => setting
  | k::rest =>
    match value.get? k with
    | none => setCoordinates setting value rest
    | some c =>
      match c.toFloat with
      | .ok x =>
        let put (v : Json) : Json := v.set k (.float x)
        setCoordinates ((setting.update "Value" put).update "Default" put) value rest
      | .error _ => setting

/-- Fills a setting with a value of its type; a value that does not fit leaves it as it is. -/
def fill (t : GateType) (setting value : Json) : Json :=
  match t with
  | .number =>
    match value.toFloat with
    | .ok x => setBoth setting (.float x)
    | .error _ => setting
  | .string => setBoth setting (.str value.plain)
  | .vector => if value.isObj then setCoordinates setting value ["x","y","z","w"] else setting
  | .entity => setting
  | _ =>
    match value with
    | .arr _ => setBoth setting value
    | _ => setting

/-- Text of the setting of a variable with a value; without one it is spaced out. -/
def settingText (t : GateType) (value : Json) : Json :=
  match emptySetting? t with
  | none => .null
  | some setting =>
    if value.isNull then .str (Json.write .spaced setting)
    else .str (Json.write .compact (fill t setting value))

/-- The type a variable is declared with: a code must be known, any other word means a number. -/
def variableType (t : Json) : Except Failure GateType :=
  match t.asInt? with
  | some n =>
    if n == 0 then .ok .number
    else
      match GateType.ofCode? n with
      | some g => .ok g
      | none => .error (.fault .badValue (toString n ++ " is not a valid GateDataType"))
  | none => .ok ((GateType.ofWord? GateType.storageWords (lower (trim t.plain))).getD .number)

def typeIn (schema : Schema) (g : GateType) : Json :=
  match schema with
  | .names => .str g.name
  | .numbers => .int g.code

/-- Name shown for a variable: the given one, or its key with a capital. -/
def displayName (key dataName : Json) : Except Failure String := do
  let given ← if dataName.truthy then dataName.text "strip" else (key.text "capitalize").map capitalize
  let shown := trim given
  if shown.isEmpty then pure ("#" ++ capitalize (← key.text "capitalize"))
  else pure (if startsWith shown "#" then shown else "#" ++ shown)

structure Definition where
  key : Json
  name : String
  setting : Json
  type : Json

def Definition.toJson (d : Definition) : Json :=
  .obj [("Key",d.key),("DataName",.str d.name),("SerializedValue",d.setting),
    ("IsSaveBetweenSession",.bool false),("GateDataType",d.type)]

def define (key type value dataName : Json) (schema : Schema) : Except Failure Definition := do
  let g ← variableType type
  pure ⟨key,← displayName key dataName,settingText g value,typeIn schema g⟩

def makeVariable (key type : Json) (schema : Schema) : Edit Node := do
  let g ← variableType type
  let id := "VariableNodeViewModel : " ++ (← freshId)
  let valuePin ← freshId
  let setPin ← freshId
  let outPin ← freshId
  let t := typeIn schema g
  pure
    { id := id
      operation := .str "Variable"
      inputs := [⟨id ++ "\nInput : " ++ g.name ++ " " ++ valuePin,t⟩,
        ⟨id ++ "\nInput : Number " ++ setPin,typeIn schema .number⟩]
      outputs := [⟨id ++ "\nOutput : " ++ g.name ++ " " ++ outPin,t⟩]
      connection := key
      type := t
      data := .null }

def variableJson (n : Node) (x y : Json) : Json := n.toJsonAt 2 x y

end ChipForge.Save
