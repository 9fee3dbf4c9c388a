import ChipForge.Failure
import ChipForge.Wiring.ValueType

/-! What the compiler of scripts refuses, and in which words. -/
namespace ChipForge.Wiring
open Script

/-- Reasons for which the compiler refuses a script. -/
inductive Issue
  | secondGuard (line : Nat)
  | strayStatement (line : Nat)
  | guardElse (line : Nat)
  | guardFlow (line : Nat)
  | declaredTarget (line : Nat)
  | declaredType (name : String) (line : Nat)
  | declaredValue (name : String) (line : Nat) (why : Literal.Fault)
  | finalWithoutValue (name : String) (line : Nat)
  | declaredTwice (name : String) (line : Nat)
  | setTooShort
  | setTooLong
  | setKeyword (keyword : String)
  | setTarget
  | setAlias (name : String)
  | setUndeclared (name : String) (line : Option Nat)
  | setTwice (name : String) (line : Option Nat)
  | portOfName (name : String) (port : String)
  | portOfNode (id : String)
  | badLiteral (why : Literal.Fault)
  | mixedOperands (text : String)
  | misuse (text : String)
  | badArgument (module : String) (text : String)
  | unsupported (text : String)
  | unknownComparison (name : String)
  | inputTaken (name : String) (line : Nat)
  | typeClash (clash : TypeClash)
  | untypedChoice (line : Nat)
  | untypedMerge (name : String) (line : Nat)
  | branchStatement (line : Nat)
  | branchTwice (name : String) (line : Nat)
  | nestedBranch (line : Nat)
  | undefinedName (name : String) (node : String) (port : String) (line : Option Nat)

namespace Issue

def lineJson : Option Nat→Json
  | some n => .int n
  | none => .null

def typeJson : Option GateType→Json
  | some t => .str t.name
  | none => .null

def typeWord : Option GateType→String
  | some t => t.name
  | none => "unknown"

def message : Issue→String
  | secondGuard _ => "Only one main block is allowed: if __name__ == \"__main__\":"
  | strayStatement _ =>
    "When a main block exists, only declarations and INPUT(...) are allowed at module scope."
  | guardElse _ => "main block does not support else:"
  | guardFlow _ => "Control flow is not supported inside main block; express logic via nodes/connections."
  | declaredTarget _ => "Typed declarations must target a simple name, e.g. hp: Number = 100"
  | declaredType name _ => "Cannot parse type annotation for '" ++ name ++ "'"
  | declaredValue name _ _ =>
    "Initial value for '" ++ name ++ "' must be a literal (number/string/vector-dict/array/None)."
  | finalWithoutValue name _ => "Final constant '" ++ name ++ "' must have an initial value."
  | declaredTwice name _ => "Duplicate variable declaration: " ++ name
  | setTooShort => "SET(...) requires at least 2 positional args: SET(var, value, [trigger])"
  | setTooLong => "SET(...) supports at most 3 positional args: SET(var, value, [trigger])"
  | setKeyword keyword => "SET(...) does not support keyword argument '" ++ keyword ++ "'"
  | setTarget => "SET(...) target must be a variable name, e.g. SET(hp, new_hp)"
  | setAlias name => "SET target '" ++ name ++ "' is an alias and cannot be written"
  | setUndeclared name _ =>
    "SET target '" ++ name ++ "' is not declared; define it in static scope, e.g. " ++ name ++ ": Number = 0"
  | setTwice name _ => "Multiple SET(...) calls for the same variable are not supported: " ++ name
  | portOfName _ _ => "端口下标必须是字符串或整数字面量"
  | portOfNode _ => "端口下标必须是字符串或整数字面量"
  | badLiteral .malformed => "malformed node or string"
  | badLiteral .unhashable => "unhashable type"
  | mixedOperands text => text
  | misuse text => text
  | badArgument _ text => text
  | unsupported text => "不支持的表达式: " ++ text
  | unknownComparison name => "不支持的比较运算符: " ++ name
  | inputTaken name _ => "'" ++ name ++ "' is already defined; cannot assign INPUT(...) to it"
  | typeClash c =>
    "if/else branches have incompatible types: " ++ typeWord c.left ++ " vs " ++ typeWord c.right
  | untypedChoice _ => "Cannot infer result type for conditional expression"
  | untypedMerge name _ => "Cannot infer if/else merge type for '" ++ name ++ "'"
  | branchStatement _ => "if/else currently supports only simple assignments in branches"
  | branchTwice name _ => "Duplicate assignment to '" ++ name ++ "' in the same if/else branch"
  | nestedBranch _ => "Nested if/else is not supported yet"
  | undefinedName name _ _ _ => "引用了未定义变量 '" ++ name ++ "'（前向引用失败）"

def context : Issue→List (String×Json)
  | secondGuard line => [("line",.int line)]
  | strayStatement line => [("line",.int line)]
  | guardElse line => [("line",.int line)]
  | guardFlow line => [("line",.int line)]
  | declaredTarget line => [("line",.int line)]
  | declaredType name line => [("variable",.str name),("line",.int line)]
  | declaredValue name line _ => [("variable",.str name),("line",.int line)]
  | finalWithoutValue name line => [("variable",.str name),("line",.int line)]
  | declaredTwice name line => [("variable",.str name),("line",.int line)]
  | setUndeclared name none => [("variable",.str name)]
  | setUndeclared name (some line) => [("variable",.str name),("line",.int line)]
  | setTwice name none => [("variable",.str name)]
  | setTwice name (some line) => [("variable",.str name),("line",.int line)]
  | portOfName name port => [("variable",.str name),("port",.str port)]
  | portOfNode id => [("node_id",.str id)]
  | badArgument module _ => [("node_type",.str module)]
  | inputTaken name line => [("variable",.str name),("line",.int line)]
  | typeClash c =>
    [("line",lineJson c.line),("left_type",typeJson c.left),("right_type",typeJson c.right),
      ("target_type",typeJson c.target)]
  | untypedChoice line => [("line",.int line)]
  | untypedMerge name line => [("variable",.str name),("line",.int line)]
  | branchStatement line => [("line",.int line)]
  | branchTwice name line => [("variable",.str name),("line",.int line)]
  | nestedBranch line => [("line",.int line)]
  | undefinedName name node port line =>
    [("node_id",.str node),("port",.str port),("variable",.str name),("line",lineJson line)]
  | _ => []

def literalFault : Literal.Fault→Failure
  | .malformed => .fault .badValue "malformed node or string"
  | .unhashable => .fault .wrongKind "unhashable type"

/-- Is it an operation on values it is not made for? -/
def isMisuse : Issue→Bool
  | misuse _ => true
  | badLiteral .unhashable => true
  | _ => false

def toFailure : Issue→Failure
  | misuse text => .refusal .wrongKind text
  | badLiteral why => literalFault why
  | declaredValue name line why =>
    .causedBy .compile (declaredValue name line why).message (declaredValue name line why).context (literalFault why)
  | issue => .reportOf .compile issue.message issue.context

end Issue

end ChipForge.Wiring
