import ChipForge.Wiring.Compiler.Call

/-! Arithmetic: operators and functions that stand for modules, the arguments they take and the values they refuse. -/
namespace ChipForge.Wiring
open Script

structure Slot where
  port : String
  /-- Keywords that give the argument, strongest first; an argument without keyword counts as the first. -/
  keys : List String
  refuses : List LiteralKind
  refusal : String

/-- How a refusal of a function counts. -/
inductive Tone
  | strict (module : String)
  | mild
  deriving DecidableEq, Repr

/-- What becomes of the arguments of a function. -/
inductive Shape
  | node
  /-- The negated greatest of the negated arguments. -/
  | negatedMax
  | twice
  deriving DecidableEq, Repr

structure Form where
  module : String
  shape : Shape
  slots : List Slot
  missing : String
  tone : Tone

def Tone.issue (tone : Tone) (text : String) : Issue :=
  match tone with
  | .strict module => .badArgument module text
  | .mild => .misuse text

def Operand.kind? (o : Operand) : Option LiteralKind := o.expr.bind literalKind?

def Slot.pick? (slot : Slot) (table : Table Operand) : Option Operand := slot.keys.findSome? table.find

def Slot.check (slot : Slot) (tone : Tone) (o : Operand) : Except Issue Unit :=
  if o.kind?.any slot.refuses.contains then .error (tone.issue slot.refusal) else .ok ()

namespace Form

def notNumeric : List LiteralKind := [.vector,.string]

def single (module missing refusal : String) : Form :=
  ⟨module,.node,[⟨"Input",["input","a"],notNumeric,refusal⟩],missing,.mild⟩

def rounding (module word : String) : Form :=
  ⟨module,.node,[⟨"Input",["input","a"],[.string],word ++ " 不支持 STRING 输入"⟩],word ++ " 缺少参数",.mild⟩

def double (module : String) (shape : Shape) (first second : String×List String) (missing refusal : String) : Form :=
  ⟨module,shape,[⟨first.1,first.2,notNumeric,refusal⟩,⟨second.1,second.2,notNumeric,refusal⟩],missing,.mild⟩

def find? (module : String) : Option Form :=
  let word := Text.lower module
  if ["magnitude","to_string","tostring"].contains word then
    some ⟨module,.node,[⟨"Input",["input","a","value"],[],""⟩],module ++ " is missing argument",.strict module⟩
  else if word == "positive" then
    some ⟨"Positive",.node,[⟨"Input",["input","a"],notNumeric,"ABS/Positive 只支持 DECIMAL 输入"⟩],
      "abs/Positive 缺少参数",.strict "Positive"⟩
  else if word == "sqrt" then some (single "Sqrt" "sqrt 缺少参数" "SQRT 只支持 DECIMAL 输入")
  else if word == "round" then some (rounding "Round" word)
  else if word == "floor" then some (rounding "Floor" word)
  else if word == "ceiling" then some (rounding "Ceiling" word)
  else if word == "clamp01" then some (single "Clamp01" "clamp01 缺少参数" "Clamp01 只支持 DECIMAL 输入")
  else if word == "clamp" then
    some ⟨"Clamp",.node,
      [⟨"Input",["input","a"],notNumeric,"Clamp 只支持 DECIMAL Input"⟩,
        ⟨"Min",["min"],notNumeric,"Clamp 的 Min/Max 只支持 DECIMAL"⟩,
        ⟨"Max",["max"],notNumeric,"Clamp 的 Min/Max 只支持 DECIMAL"⟩],
      "clamp 需要 3 个参数：input/min/max",.mild⟩
  else if word == "average" then
    some (double "Average" .node ("A",["a","input"]) ("B",["b"]) "average 需要 2 个参数" "AVERAGE 只支持 DECIMAL 输入")
  else if word == "max" then
    some (double "Max" .node ("A",["a","input"]) ("B",["b"]) "max 需要 2 个参数" "MAX 只支持 DECIMAL 输入")
  else if word == "min" then
    some (double "Max" .negatedMax ("A",["a","input"]) ("B",["b"]) "min 需要 2 个参数" "MIN 只支持 DECIMAL 输入")
  else if word == "square" then some ⟨"Multiply",.twice,[⟨"A",["a","input"],[],""⟩],"",.mild⟩
  else if word == "inverse" then
    some ⟨"Inverse",.node,[⟨"A",["a","input"],notNumeric,"Inverse 只支持 DECIMAL 输入"⟩],"inverse 缺少参数",.mild⟩
  else if word == "sign" then some (single "Sign" "sign 缺少参数" "SIGN 只支持 DECIMAL 输入")
  else if word == "logarithm" then
    some (double "Logarithm" .node ("Value",["value","a","input"]) ("Base",["base","b"])
      "log 需要 2 个参数：value/base" "LOGARITHM 只支持 DECIMAL 输入")
  else if word == "random" then
    some (double "Random" .node ("Min",["min","a"]) ("Max",["max","b"]) "random 需要 2 个参数：min/max"
      "Random 只支持 DECIMAL Min/Max")
  else if word == "power" then
    some (double "Power" .node ("Value",["value","a"]) ("Power",["power","b"]) "pow/power 需要 2 个参数"
      "POWER 只支持 DECIMAL 输入")
  else if word == "mod" then
    some (double "Mod" .node ("Dividend",["dividend","a"]) ("Divider",["divider","b"]) "mod 需要 2 个参数"
      "Mod 只支持 DECIMAL 输入")
  else none

/-- Arguments by keyword in small letters, the last one of a keyword counting. -/
def keywordTable (keywords : List NamedOperand) : Table Operand :=
  keywords.foldl (fun table k =>
    match k.name with
    | some name => table.put (Text.lower name) k.operand
    | none => table) Table.empty

def argumentTable (form : Form) (args : List Operand) (keywords : List NamedOperand) : Table Operand :=
  let keys := form.slots.map fun slot => slot.keys.headD ""
  (keys.zip args).foldl (fun table (key,o) => table.putNew key o) (keywordTable keywords)

def checkAll (tone : Tone) : List (Slot×Operand)→Except Issue Unit
  | [] => .ok ()
  | (slot,o)::rest => do
    slot.check tone o
    checkAll tone rest

def arguments (form : Form) (args : List Operand) (keywords : List NamedOperand) :
    Except Issue (List (String×Operand)) :=
  let table := form.argumentTable args keywords
  if form.shape == .twice then
    let o := (form.slots.findSome? (·.pick? table)).getD Operand.missing
    .ok [("A",o),("B",o)]
  else
    match form.slots.mapM fun slot => (slot.pick? table).map fun o => (slot,o) with
    | none => .error (form.tone.issue form.missing)
    | some pairs => do
      checkAll form.tone pairs
      pure (pairs.map fun (slot,o) => (slot.port,o))

def nested (d : Dialect) (module : String) (ports : List (String×Operand)) : Operand :=
  ⟨none,do
    let id ← emitModule d module ports
    pure (.node id autoPort)⟩

def emit (d : Dialect) (form : Form) (args : List Operand) (keywords : List NamedOperand) : Compile String := do
  let ports ← form.arguments args keywords
  match form.shape with
  | .negatedMax =>
    let negated := ports.map fun (port,o) => (port,nested d "Negate" [("Input",o)])
    emitModule d "Negate" [("Input",nested d form.module negated)]
  | _ => emitModule d form.module ports

end Form

/-- Module and ports of an operator, unless it refuses literals of these kinds. -/
def operatorForm (op : BinaryOp) (left right : Option LiteralKind) : Except Issue (String×String×String) :=
  let has (k : LiteralKind) := left == some k || right == some k
  let differ := left.isSome && right.isSome && left != right
  match op with
  | .add =>
    if differ && has .vector then .error (.mixedOperands "向量加法只支持 vector + vector")
    else if differ && has .string then .error (.mixedOperands "字符串相加只支持 string + string")
    else .ok ("Add","A","B")
  | .sub =>
    if differ && has .vector then .error (.mixedOperands "向量减法只支持 vector - vector")
    else if has .string then .error (.mixedOperands "Subtract 不支持字符串类型")
    else .ok ("Subtract","A","B")
  | .mul =>
    if differ && has .vector then .error (.misuse "向量乘法只支持 vector * vector（不允许 vector * number）")
    else if has .string then .error (.misuse "Multiply 不支持字符串类型")
    else .ok ("Multiply","A","B")
  | .div =>
    if differ && has .vector then .error (.misuse "向量除法只支持 vector / vector（不允许 vector / number）")
    else if has .string then .error (.misuse "Divide 不支持字符串类型")
    else .ok ("Divide","A","B")
  | .mod =>
    if has .vector || has .string then .error (.misuse "Mod 只支持 DECIMAL % DECIMAL")
    else .ok ("Mod","Dividend","Divider")
  | .pow =>
    if has .vector || has .string then .error (.misuse "Power 只支持 DECIMAL ** DECIMAL")
    else .ok ("Power","Value","Power")
  | _ => .error (.misuse "unsupported binary operator")

def comparisonModule (op : CompareOp) : Except Issue String :=
  match op with
  | .gt => .ok "GREATER THAN"
  | .lt => .ok "LESS THAN"
  | .gtE => .ok "GREATER OR EQUAL"
  | .ltE => .ok "LESS OR EQUAL"
  | .eq => .ok "EQUAL"
  | .notEq => .ok "NOT EQUAL"
  | .is => .error (.unknownComparison "Is")
  | .isNot => .error (.unknownComparison "IsNot")
  | .isIn => .error (.unknownComparison "In")
  | .notIn => .error (.unknownComparison "NotIn")

end ChipForge.Wiring
