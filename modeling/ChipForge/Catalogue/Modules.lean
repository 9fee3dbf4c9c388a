import ChipForge.Catalogue.Basic

/-! The modules of the game, in the order of the catalogue. -/
namespace ChipForge.Catalogue

def decimals (names : List String) : List Port := names.map fun name => ⟨"DECIMAL",name⟩

def numbers (names : List String) : List Port := names.map fun name => ⟨"Number",name⟩

def arithmetic : List Module := [
  ⟨"257",2,"Constant","ConstantNode","Constant",[],decimals ["Output"],true⟩,
  ⟨"260",0,"Time","TimeNode","Time",[],decimals ["Time","Delta time","Sin Time","Cos Time"],false⟩,
  ⟨"1",2,"Identity","IdentityNode","Identity",decimals ["A"],decimals ["A"],true⟩,
  ⟨"2324",2,"Abs","AbsNode","Positive",decimals ["Input"],decimals ["Result"],true⟩,
  ⟨"2304",2,"Add","AddNumbersNode","Add",decimals ["A","B"],decimals ["A + B"],true⟩,
  ⟨"2309",0,"Average","AverageNumberNode","Average",numbers ["A","B"],numbers ["Result"],true⟩,
  ⟨"2310",2,"Ceil","CeilNode","Ceiling",numbers ["Input"],numbers ["Result"],true⟩,
  ⟨"2311",2,"Clamp","ClampValueNode","Clamp",numbers ["Input","Min","Max"],numbers ["Result"],true⟩,
  ⟨"2312",2,"Clamp01","Clamp01Node","Clamp01",numbers ["Input"],numbers ["Result"],true⟩,
  ⟨"2307",2,"Divide","DivideNode","Divide",numbers ["A","B"],numbers ["A / B"],true⟩,
  ⟨"2308",0,"Exp","ExpNode","Exponent",decimals ["Input"],decimals ["Result"],false⟩,
  ⟨"259",0,"E","ENode","E Constant",[],decimals ["Output"],false⟩,
  ⟨"2314",0,"ExpPow","ExpPowNumberNode","Exponent Power",decimals ["Value","Exponent Argument"],decimals ["Result"],
    false⟩,
  ⟨"2315",2,"Negate","NegateNode","Negate",decimals ["Input"],decimals ["Result"],true⟩,
  ⟨"2316",2,"Percent","PercentNumberNode","Percent",decimals ["Value","Total"],decimals ["Result"],true⟩,
  ⟨"258",0,"Pi","PiNode","Pi",[],decimals ["Output"],false⟩,
  ⟨"261",2,"Random","RandomNode","Random",decimals ["Min","Max"],decimals ["Result"],true⟩,
  ⟨"2326",2,"Round","RoundNode","Round",decimals ["Input"],decimals ["Result"],true⟩,
  ⟨"2318",2,"Sign","SignNode","Sign",decimals ["Input"],decimals ["Result"],true⟩,
  ⟨"2321",2,"Sqr","SqrNode","Sqr",decimals ["Input"],decimals ["Result"],true⟩,
  ⟨"2322",2,"Sqrt","SqrtNode","Sqrt",decimals ["Input"],decimals ["Result"],true⟩,
  ⟨"2305",2,"Subtract","SubtractNumbersNode","Subtract",decimals ["A","B"],decimals ["A - B"],true⟩,
  ⟨"2319",2,"Floor","FloorNode","Floor",decimals ["Input"],decimals ["Result"],true⟩,
  ⟨"2320",2,"Inverse","InverseNode","Inverse",decimals ["A"],decimals ["1 / A"],true⟩,
  ⟨"2328",2,"Interpolate","LerpNode","Interpolate",decimals ["A","B","T"],decimals ["Result"],true⟩,
  ⟨"2323",0,"Log","LogNumberNode","Logarithm",decimals ["Value","Base"],decimals ["Result"],false⟩,
  ⟨"2327",2,"Remainder","RemainderNumberNode","Remainder",decimals ["Dividend","Divider"],decimals ["Remainder"],true⟩,
  ⟨"2306",2,"Multiply","MultiplyNumbersNode","Multiply",decimals ["A","B"],decimals ["A × B"],true⟩,
  ⟨"2325",2,"Pow","PowNumberNode","Power",decimals ["Value","Power"],decimals ["Result"],true⟩]

def angles : List Module := [
  ⟨"2059",0,"DeltaAngle","DeltaAngleNode","Delta Angle",decimals ["Angle (Deg) 1","Angle (Deg) 2"],decimals ["Deg"],
    false⟩,
  ⟨"2052",2,"Acos","AcosNode","Arccosinus",numbers ["Cos"],numbers ["Angle (Rad)"],false⟩,
  ⟨"2051",2,"Asin","AsinNode","Arcsinus",numbers ["Sin"],numbers ["Angle (Rad)"],false⟩,
  ⟨"2054",2,"Atan","AtanNode","Arctangent",numbers ["Tan"],numbers ["Angle (Rad)"],false⟩,
  ⟨"2056",2,"Actan","ArcCTanNode","Arccatangent",numbers ["Ctan"],numbers ["Angle (Rad)"],false⟩,
  ⟨"2050",2,"Cos","CosNode","Cos",numbers ["Angle (Rad)"],numbers ["Cos"],false⟩,
  ⟨"2049",0,"Sin","SinNode","Sin",decimals ["Angle (Rad)"],decimals ["Sin"],false⟩,
  ⟨"2053",0,"Tan","TanNode","Tangent",decimals ["Angle (Rad)"],decimals ["Tan"],false⟩,
  ⟨"2055",0,"Ctan","CTanNode","Cotangent",decimals ["Angle (Rad)"],decimals ["Ctan"],false⟩,
  ⟨"2057",0,"DegToRad","DegToRadSameNode","Deg to Rad",decimals ["Deg"],decimals ["Rad"],false⟩,
  ⟨"2058",0,"RadToDeg","RadToDegSameNode","Rad to Deg",decimals ["Rad"],decimals ["Deg"],false⟩,
  ⟨"2060",2,"CosineFormulaSide","CosineFormulaSideNode","Cosine Formula (Side)",decimals ["B","C","Cos"],
    decimals ["A"],false⟩,
  ⟨"2061",2,"CosineFormulaAngle","CosineFormulaAngleNode","Cosine Formula (Angle)",decimals ["A","B","C"],
    decimals ["Cos"],false⟩,
  ⟨"2062",2,"PythagoreanCathetus","PythagoreanCathetusNode","Pythagorean Theorem (Catheus)",decimals ["Catheus A",
    "Hypotenuse"],decimals ["Catheus B"],false⟩,
  ⟨"2063",2,"PythagoreanSide","PythagoreanSideNode","Pythagorean Theorem (Hypotenuse)",decimals ["Catheus A",
    "Catheus B"],decimals ["Hypotenuse"],false⟩]

def logic : List Module := [
  ⟨"2560",2,"And","AndNode","AND",decimals ["A","B"],decimals ["Result"],false⟩,
  ⟨"2567",2,"Branch","BranchNode","Branch",numbers ["If","A","B"],numbers ["Result"],true⟩,
  ⟨"2561",0,"Or","OrNode","OR",numbers ["A","B"],numbers ["Result"],false⟩,
  ⟨"2562",0,"Nand","NotAndNode","NOT AND",numbers ["A","B"],numbers ["Result"],false⟩,
  ⟨"2563",0,"Nor","NotOrNode","NOT OR",numbers ["A","B"],numbers ["Result"],false⟩,
  ⟨"2564",0,"Not","NotSameNode","NOT",numbers ["A"],numbers ["Result"],false⟩,
  ⟨"2565",0,"Xor","XorNode","XOR",numbers ["A","B"],numbers ["Result"],false⟩,
  ⟨"2566",0,"Nxor","NotXorNode","NXOR",numbers ["A","B"],numbers ["Result"],false⟩]

def comparisons : List Module := [
  ⟨"2816",2,"Equal","EqualNode","Equal",numbers ["A","B"],numbers ["Result"],true⟩,
  ⟨"2817",2,"NotEqual","NotEqualNode","Not Equal",numbers ["A","B"],numbers ["Result"],true⟩,
  ⟨"2818",0,"GreaterOrEqual","GreaterOrEqualNode","Greater or Equal",numbers ["A","B"],numbers ["Result"],false⟩,
  ⟨"2820",2,"Greater","GreaterNode","Greater",decimals ["A","B"],decimals ["Result"],false⟩,
  ⟨"2819",2,"LessOrEqual","LessOrEqualNode","Less or Equal",decimals ["A","B"],decimals ["Result"],false⟩,
  ⟨"2821",2,"Less","LessNode","Less",decimals ["A","B"],decimals ["Result"],false⟩,
  ⟨"2823",2,"InRangeExclusive","InRangeExclusiveNode","Is in range exclusive",decimals ["Value","Min","Max"],
    decimals ["Result"],false⟩,
  ⟨"2822",2,"InRangeInclusive","InRangeInclusiveNode","Is in range inclusive",decimals ["Value","Min","Max"],
    decimals ["Result"],false⟩]

def bits : List Module := [
  ⟨"3073",2,"BitAnd","BitAndNode","AND (Bit. Op.)",decimals ["A","B"],decimals ["Result"],false⟩,
  ⟨"3074",2,"BitNot","BitNotNode","NOT (Bit. Op.)",decimals ["A"],decimals ["Result"],false⟩,
  ⟨"3075",2,"BitOr","BitOrNode","OR (Bit. Op.)",decimals ["A","B"],decimals ["Result"],false⟩,
  ⟨"3076",2,"BitXor","BitXorNode","XOR (Bit. Op.)",decimals ["A","B"],decimals ["Result"],false⟩,
  ⟨"3077",2,"BitShiftLeft","BitShiftLeftNode","Shift Left (Bit. Op.)",decimals ["A","B"],decimals ["Result"],false⟩,
  ⟨"3078",2,"BitShiftRight","BitShiftRightNode","Shift Right (Bit. Op.)",numbers ["A","B"],numbers ["Result"],false⟩]

def vectors : List Module := [
  ⟨"1281",8,"Combine","CombineVectorNode","Combine",numbers ["X","Y","Z","W"],[⟨"Vector","Result"⟩],false⟩,
  ⟨"1286",8,"VectorCross","VectorCrossProductNode","Cross Product",[⟨"Vector","A"⟩,⟨"Vector","B"⟩],[⟨"Vector",
    "Result"⟩],false⟩,
  ⟨"1280",2,"Split","SplitVectorNode","Split",[⟨"Vector","Input"⟩],numbers ["X","Y","Z","W"],false⟩,
  ⟨"1288",2,"VectorDot","VectorDotProductNode","Dot Product",[⟨"Vector","A"⟩,⟨"Vector","B"⟩],numbers ["Result"],false⟩,
  ⟨"1282",8,"Normalize","NormalizeVectorNode","Normalize",[⟨"Vector","Input"⟩],[⟨"Vector","Result"⟩],false⟩,
  ⟨"1290",0,"VectorPositive","VectorPositiveNode","Positive (Vectors)",[⟨"Vector","Input"⟩],[⟨"Vector","Result"⟩],
    false⟩,
  ⟨"1292",0,"VectorRotate","VectorRotateNode","Rotate",[⟨"Vector","Value"⟩,⟨"Number","Angle"⟩],[⟨"Vector","Result"⟩],
    false⟩,
  ⟨"1294",0,"VectorShiftLeft","VectorShiftLeftNode","Shift Left (Vectors)",[⟨"Vector","Input"⟩],[⟨"Vector","Result"⟩],
    false⟩,
  ⟨"1295",0,"VectorShiftRight","VectorShiftRightNode","Shift Right (Vectors)",[⟨"Vector","Input"⟩],[⟨"Vector",
    "Result"⟩],false⟩,
  ⟨"1296",0,"VectorAngleBetween","VectorAngleBetweenNode","Angle Between",[⟨"Vector","A"⟩,⟨"Vector","B"⟩],
    numbers ["Angle"],false⟩,
  ⟨"1283",0,"Magnitude","MagnitudeVectorNode","Magnitude",[⟨"Vector","Input"⟩],numbers ["Result"],false⟩,
  ⟨"1284",0,"SqrMagnitude","SqrMagnitudeVectorNode","Sqr Magnitude",[⟨"Vector","Input"⟩],numbers ["Result"],false⟩,
  ⟨"1297",0,"RgbToHsv","VectorRgbToHsvNode","RGB to HSV",[⟨"Vector","RGB"⟩],[⟨"Vector","HSV"⟩],false⟩,
  ⟨"1298",0,"HsvToRgb","VectorHsvToRgbNode","HSV to RGB",[⟨"Vector","HSV"⟩],[⟨"Vector","RGB"⟩],false⟩]

def entities : List Module := [
  ⟨"1537",0,"EntityNormal","NormalEntityNode","EntityNormal",[⟨"ENTITY","object"⟩],[⟨"VECTOR","normal"⟩],false⟩,
  ⟨"1540",0,"AngleEntity","AngleEntityNode","Angle",[⟨"ENTITY","object"⟩,⟨"DECIMAL","ANGLE (DEG)"⟩],
    decimals ["ANGLE (DEG)"],false⟩,
  ⟨"1539",0,"AngularVelocity","AngularVelocityEntityNode","AngularVelocity",[⟨"ENTITY","object"⟩,⟨"DECIMAL",
    "AngularVelocity"⟩],decimals ["AngularVelocity"],false⟩,
  ⟨"1538",0,"Velocity","VelocityEntityNode","Velocity",[⟨"ENTITY","object"⟩,⟨"VECTOR","Velocity"⟩],[⟨"VECTOR",
    "Velocity"⟩],false⟩,
  ⟨"1542",0,"AddForce","AddForceEntityNode","Add Force",[⟨"ENTITY","object"⟩,⟨"VECTOR","FORCE"⟩],[],false⟩,
  ⟨"1545",0,"AddAngularForceEntity","AddAngularForceEntityNode","Add Angular Force",[⟨"ENTITY","object"⟩,⟨"DECIMAL",
    "angular force"⟩],[],false⟩,
  ⟨"1546",0,"AddForceAtPosition","AddOffsetForceEntityNode","Add Force At Position",[⟨"ENTITY","OBJECT"⟩,⟨"VECTOR",
    "FORCE"⟩,⟨"VECTOR","OFFSET"⟩],[],false⟩,
  ⟨"1578",0,"Elevation","ElevationEntityNode","Elevation",[⟨"ENTITY","OBJECT"⟩,⟨"VECTOR","POSITION"⟩],
    decimals ["ANGLE (DEG)"],false⟩,
  ⟨"1549",0,"EntityID","EntityIDNode","Entity ID",[⟨"ENTITY","OBJECT"⟩],decimals ["ID"],false⟩,
  ⟨"1550",0,"IDToEntity","IDToEntityNode","ID to Entity",decimals ["ID"],[⟨"ENTITY","OBJECT"⟩],false⟩,
  ⟨"1552",0,"IDIsValid","IDIsValidNode","IDIsValid",numbers ["Entity ID"],numbers ["Is Valid"],false⟩,
  ⟨"1553",0,"WorldPositionToLocal","WorldPositionToLocalEntityNode","World Position to Local",[⟨"Entity","object"⟩,
    ⟨"Vector","World Position"⟩],[⟨"Vector","Local Position"⟩],false⟩,
  ⟨"1554",0,"WorldAngleToLocal","WorldAngleToLocalEntityNode","World Angle to Local",[⟨"Entity","object"⟩,⟨"Number",
    "World Angle (Deg)"⟩],numbers ["Local Angle (Deg)"],false⟩,
  ⟨"1555",0,"LocalPositionToWorld","LocalPositionToWorldEntityNode","Local Position to World",[⟨"Entity","object"⟩,
    ⟨"Vector","Local Position"⟩],[⟨"Vector","Local Position"⟩],false⟩,
  ⟨"1556",0,"LocalAngleToWorld","LocalAngleToWorldEntityNode","Local Angle to World",[⟨"Entity","object"⟩,⟨"Number",
    "Local Angle (Deg)"⟩],numbers ["World Angle (Deg)"],false⟩,
  ⟨"1544",0,"LookAtEntity","LookAtEntityNode","LookAtEntity",[⟨"ENTITY","object"⟩,⟨"ENTITY","target"⟩,⟨"DECIMAL",
    "velocity"⟩],[],false⟩,
  ⟨"1557",0,"Mass","MassEntityNode","Mass",[⟨"ENTITY","object"⟩],decimals ["Mass"],false⟩,
  ⟨"1558",0,"MassCenter","MassCenterEntityNode","Mass Center",[⟨"ENTITY","object"⟩],[⟨"VECTOR","Mass Center"⟩],false⟩,
  ⟨"1559",0,"Position","PositionEntityNode","position",[⟨"ENTITY","object"⟩,⟨"VECTOR","position"⟩],[⟨"VECTOR",
    "position"⟩],false⟩,
  ⟨"1560",0,"VelocityAtPosition","VelocityAtPositionEntityNode","VelocityAtPosition",[⟨"ENTITY","object"⟩,⟨"VECTOR",
    "World Position"⟩],[⟨"VECTOR","Velocity Vector"⟩],false⟩,
  ⟨"1541",0,"Temperature","TemperatureEntityNode","Temperature",[⟨"ENTITY","object"⟩,⟨"DECIMAL","Temperature"⟩],
    decimals ["Temperature"],false⟩,
  ⟨"1543",0,"Color","ColorEntityNode","Color",[⟨"ENTITY","object"⟩,⟨"VECTOR","Color"⟩],[⟨"VECTOR","Color"⟩],false⟩,
  ⟨"1561",0,"CanBeActivated","CanBeActivatedEntityNode","CanBeActivated",[⟨"ENTITY","object"⟩],decimals ["Result"],
    false⟩,
  ⟨"1562",0,"Activate","ActivateEntityNode","Activate",[⟨"ENTITY","object"⟩,⟨"DECIMAL","Trigger"⟩],[],false⟩,
  ⟨"1563",0,"Gravity","GravityEntityNode","Gravity",[⟨"ENTITY","object"⟩,⟨"DECIMAL","Gravity Scale"⟩],
    decimals ["Gravity Scale"],false⟩,
  ⟨"1566",0,"Freeze","FreezeEntityNode","Freeze",[⟨"ENTITY","object"⟩,⟨"DECIMAL","freeze"⟩],decimals ["is frozen"],
    false⟩,
  ⟨"1567",0,"Size","SizeEntityNode","Size",[⟨"ENTITY","object"⟩,⟨"VECTOR","size"⟩],[⟨"VECTOR","size"⟩],false⟩,
  ⟨"1569",0,"Ignite","IgniteEntityNode","Ignite",[⟨"ENTITY","object"⟩,⟨"DECIMAL","ignite"⟩],decimals ["is on fire"],
    false⟩,
  ⟨"1570",0,"Extinguish","ExtinguishEntityNode","Extinguish",[⟨"ENTITY","object"⟩,⟨"DECIMAL","Extinguish"⟩],[],false⟩,
  ⟨"1571",1,"Follow","FollowEntityNode","Follow",[⟨"ENTITY","object"⟩,⟨"DECIMAL","follow"⟩,⟨"DECIMAL","unfollow"⟩],
    decimals ["is following"],false⟩,
  ⟨"1574",0,"Collision","CollisionEntityNode","Collision",[⟨"ENTITY","OBJECT"⟩,⟨"DECIMAL","ENABLE COLLISION"⟩,
    ⟨"DECIMAL","DISABLE COLLISION"⟩],decimals ["COLLISION ENABLED"],false⟩,
  ⟨"1577",0,"Delete","DeleteEntityNode","Delete",[⟨"ENTITY","OBJECT"⟩,⟨"DECIMAL","INPUT"⟩],[],false⟩]

def texts : List Module := [
  ⟨"3586",0,"StringFind","FindStringNode","StringFind",[⟨"STRING","VALUE"⟩,⟨"STRING","TEXT TO FIND"⟩],
    decimals ["INDEX"],false⟩,
  ⟨"3587",0,"StringLength","LengthStringNode","StringLength",[⟨"STRING","String"⟩],decimals ["Length"],false⟩,
  ⟨"3588",0,"StringLowercase","LowercaseStringNode","StringLowercase",[⟨"STRING","INPUT"⟩],[⟨"STRING",
    "Lowercase String"⟩],false⟩,
  ⟨"3589",4,"StringUppercase","UppercaseStringNode","Uppercase",[⟨"STRING","Input"⟩],[⟨"STRING","Result"⟩],false⟩,
  ⟨"3590",4,"StringReverse","ReverseStringNode","Reverse",[⟨"STRING","String"⟩],[⟨"STRING","Reversed String"⟩],false⟩,
  ⟨"3592",4,"StringReplace","ReplaceStringNode","Replace",[⟨"STRING","Value"⟩,⟨"STRING","Old Value"⟩,⟨"STRING",
    "New Value"⟩],[⟨"STRING","Replaced String"⟩],false⟩,
  ⟨"3591",4,"StringRepeat","RepeatStringNode","Repeat",[⟨"STRING","Value"⟩,⟨"DECIMAL","Count"⟩],[⟨"STRING",
    "Repeated String"⟩],false⟩,
  ⟨"3593",4,"Substring","SubstringNode","Substring",[⟨"STRING","Value"⟩,⟨"DECIMAL","Start"⟩,⟨"DECIMAL","Length"⟩],
    [⟨"STRING","Substring"⟩],false⟩,
  ⟨"3594",0,"StringTrim","TrimStringNode","Trim String",[⟨"STRING","INPUT"⟩],[⟨"STRING","Trimmed String"⟩],false⟩,
  ⟨"3595",2,"ToString","ToStringNode","To String",decimals ["Input"],[⟨"STRING","String"⟩],true⟩,
  ⟨"3596",2,"ToAscii","SymbolToAsciiNumberNode","To Ascii",[⟨"STRING","VALUE"⟩,⟨"DECIMAL","INDEX"⟩],
    decimals ["ASCII"],false⟩,
  ⟨"5",0,"Sticker","StickerNode","Sticker",[],[],false⟩]

def memory : List Module := [
  ⟨"4097",2,"DeltaPreviousCurrent","DeltaPreviousCurrentNode","Delta Previous",decimals ["Value"],decimals ["Delta"],
    false⟩,
  ⟨"4098",2,"Counter","CounterNode","Counter",decimals ["Increment","Decrement","Reset","Set"],decimals ["Count"],
    false⟩,
  ⟨"4099",2,"Delay","DelayNode","Delay",decimals ["Value","Delay (s)","Reset","Enable","Initial Value"],
    decimals ["Delayed Value"],false⟩,
  ⟨"4100",2,"Accumulate","AccumulateNode","Accumulator",decimals ["Number","Reset"],decimals ["Total"],false⟩,
  ⟨"4101",2,"PreviousFrameState","PreviousFrameState","Prev Frame",decimals ["Value"],decimals ["Previous Value"],
    true⟩,
  ⟨"256",2,"Input","RootNode","Input",[],decimals ["Input"],true⟩,
  ⟨"255",2,"Output","ExitNode","Output",decimals ["output"],[],true⟩,
  ⟨"2330",2,"Max","MaxValueNode","Max",numbers ["A","B"],numbers ["Result"],true⟩,
  ⟨"3598",4,"ToNumber","StringToNumberNode","ToNumber",[⟨"String","Input"⟩],numbers ["Result"],false⟩,
  ⟨"Variable",0,"Variable","VariableNode","Variable",[⟨"Any","Value"⟩,⟨"Any","Set"⟩],[⟨"Any","Value"⟩],true⟩]

def arrays : List Module := [
  ⟨"ArraysGet",128,"ArraysGet","ArraysGetNode","ArraysGet",[⟨"ArrayNumber","Array"⟩,⟨"IntegerNumber","Index"⟩],
    [⟨"Number","Value"⟩,⟨"IntegerNumber","Activation"⟩],true⟩,
  ⟨"ArraysAdd",128,"ArraysAdd","ArraysAddNode","ArraysAdd",[⟨"ArrayNumber","Array"⟩,⟨"Number","Value"⟩,
    ⟨"IntegerNumber","Index"⟩,⟨"IntegerNumber","Activation"⟩],[⟨"ArrayNumber","Array"⟩,⟨"IntegerNumber",
    "Activation"⟩],true⟩,
  ⟨"ArraysSet",128,"ArraysSet","ArraysSetNode","Set",[⟨"ArrayNumber","Array"⟩,⟨"IntegerNumber","Index"⟩,⟨"Number",
    "Value"⟩,⟨"IntegerNumber","Activation"⟩],[⟨"ArrayNumber","Array"⟩],true⟩,
  ⟨"ArraysLength",128,"ArraysLength","ArraysLengthNode","ArraysLength",[⟨"ArrayNumber","Array"⟩],[⟨"IntegerNumber",
    "Length"⟩],true⟩,
  ⟨"ArraysRemoveAllByValue",128,"ArraysRemoveAllByValue","ArraysRemoveAllByValueNode","RemoveAllByValue",
    [⟨"ArrayNumber","Array"⟩,⟨"Number","Value"⟩,⟨"IntegerNumber","Activation"⟩],[⟨"ArrayNumber","Array"⟩],true⟩,
  ⟨"ArraysRemoveByIndex",128,"ArraysRemoveByIndex","ArraysRemoveByIndexNode","ArraysRemoveByIndex",[⟨"ArrayNumber",
    "Array"⟩,⟨"IntegerNumber","Index"⟩,⟨"IntegerNumber","Activation"⟩],[⟨"ArrayNumber","Array"⟩],true⟩,
  ⟨"ArraysFind",128,"ArraysFind","ArraysFindNode","ArraysFind",[⟨"ArrayNumber","Array"⟩,⟨"Number","Value"⟩,
    ⟨"IntegerNumber","StartIndex"⟩,⟨"IntegerNumber","Activation"⟩],[⟨"IntegerNumber","Index"⟩],true⟩,
  ⟨"ArraysClear",128,"ArraysClear","ArraysClearNode","ArraysClear",[⟨"ArrayNumber","Array"⟩,⟨"IntegerNumber",
    "Activation"⟩],[⟨"ArrayNumber","Array"⟩],true⟩,
  ⟨"Select",512,"Select","SelectNode","Select",[⟨"DECIMAL","Index"⟩,⟨"ARRAY","Array 1"⟩,⟨"ARRAY","Array 2"⟩,⟨"ARRAY",
    "Array 3"⟩,⟨"ARRAY","Array 4"⟩,⟨"ARRAY","Array 5"⟩,⟨"ARRAY","Array 6"⟩,⟨"ARRAY","Array 7"⟩,⟨"ARRAY","Array 8"⟩,
    ⟨"ARRAY","Array 9"⟩,⟨"ARRAY","Array 10"⟩,⟨"ARRAY","Array 11"⟩],[⟨"ARRAY","Result"⟩],false⟩]

def modules : List Module :=
  arithmetic++angles++logic++comparisons++bits++vectors++entities++texts++memory++arrays

end ChipForge.Catalogue
