import ChipForge.Json.Basic

/-! The eight types of values on a wire, with their codes and names in a save. -/
namespace ChipForge

inductive GateType
  | entity | number | string | vector | arrayNumber | arrayString | arrayVector | arrayEntity
  deriving DecidableEq, Repr

namespace GateType

def all : List GateType := [entity,number,string,vector,arrayNumber,arrayString,arrayVector,arrayEntity]

def code : GateType → Int
  | entity => 1
  | number => 2
  | string => 4
  | vector => 8
  | arrayNumber => 128
  | arrayString => 256
  | arrayVector => 512
  | arrayEntity => 1024

def name : GateType→String
  | entity => "Entity"
  | number => "Number"
  | string => "String"
  | vector => "Vector"
  | arrayNumber => "ArrayNumber"
  | arrayString => "ArrayString"
  | arrayVector => "ArrayVector"
  | arrayEntity => "ArrayEntity"

def ofCode? (n : Int) : Option GateType := all.find? (fun t => t.code == n)

def ofName? (s : String) : Option GateType := all.find? (fun t => t.name == s)

def ofWord? (words : List (String×GateType)) (word : String) : Option GateType :=
  (words.find? fun (w,_) => w == word).map (·.2)

def words : List (String×GateType) := all.map fun t => (Text.lower t.name,t)

def looseWords : List (String×GateType) :=
  words++[("signal",entity),("decimal",number),("integer",number),("integernumber",number)]

/-- Names by which a declaration of a stored variable may call a type. -/
def storageWords : List (String×GateType) :=
  words++[("decimal",number),("float",number),("int",number),("integer",number),("str",string),
    ("text",string),("vec3",vector),("vector3",vector),("object",entity),("gameobject",entity),
    ("signal",entity),("list[number]",arrayNumber),("number[]",arrayNumber),("list[string]",arrayString),
    ("string[]",arrayString),("list[vector]",arrayVector),("vector[]",arrayVector),("list[entity]",arrayEntity),
    ("entity[]",arrayEntity)]

def named? (s : String) : Option GateType := ofWord? looseWords (Text.lower (Text.trim s))

def isArray : GateType→Bool
  | arrayNumber => true
  | arrayString => true
  | arrayVector => true
  | arrayEntity => true
  | _ => false

def arrayOf? : GateType→Option GateType
  | number => some arrayNumber
  | string => some arrayString
  | vector => some arrayVector
  | entity => some arrayEntity
  | _ => none

def element? : GateType→Option GateType
  | arrayNumber => some number
  | arrayString => some string
  | arrayVector => some vector
  | arrayEntity => some entity
  | _ => none

end GateType

end ChipForge
