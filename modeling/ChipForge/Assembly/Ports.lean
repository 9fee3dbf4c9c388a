import ChipForge.Assembly.Index

/-! Which port of a chip a name means: a number, the closest name, or the only port there is. -/
namespace ChipForge.Assembly
open Text.Similarity

/-- How close the name of a chip must be, by the least number that a share must round to. -/
def chipThreshold : Option Threshold := Threshold.ofFloat? 0.10

def portThreshold : Option Threshold := Threshold.ofFloat? 0.40

def portKeys (ports : List Json) : Except Failure (List String) :=
  ports.mapM fun p => (p.text "lower").map Text.nameKey

def portNumber? (port : Json) : Except Failure (Option Int) :=
  match port with
  | .str s => if Text.allDigits s then (Json.readDigits s).map some else .ok none
  | _ => .ok none

def closestPort? (port : Json) (ports : List Json) : Except Failure (Option Nat) := do
  let keys ← portKeys ports
  match ← closestName portThreshold (Text.nameKey port.plain) keys with
  | some best => pure (some (keys.idxOf best))
  | none => pure none

def inRange (n : Int) (ports : List Json) : Bool := 0 ≤ n && n < ports.length

def findPort? (port : Json) (ports : List Json) : Except Failure (Option Nat) := do
  match ports with
  | [] => pure none
  | [_] => pure (some 0)
  | _ =>
    match ← portNumber? port with
    | some n => pure (if inRange n ports then some n.toNat else none)
    | none => closestPort? port ports

def connectionReport {α : Type} (message : String) (context : List (String×Json)) : Except Failure α :=
  .error (.reportOf .connection message context)

/-- The port a name means, a report if it means none. An output left to be found must be the only one. -/
def resolvePort (port : Json) (ports : List Json) : Except Failure Nat := do
  if port.same (.str "__auto__") then
    match ports with
    | [] => connectionReport "尝试从没有输出端口的节点上获取自动端口" []
    | [_] => pure 0
    | _ =>
      connectionReport
        ("节点有多个输出端口 " ++ (Json.arr ports).shown ++ "，无法推断唯一输出，请在 DSL 中显式写端口名或数字序号")
        [("port_list",.arr ports)]
  else if ports.length == 1 then pure 0
  else
    match ← portNumber? port with
    | some n =>
      if inRange n ports then pure n.toNat
      else
        connectionReport
          ("端口序号 " ++ toString n ++ " 超出范围，可用序号为 0.." ++ toString ((ports.length : Int) - 1))
          [("port_index",.int n),("port_list",.arr ports)]
    | none =>
      match ← closestPort? port ports with
      | some i => pure i
      | none =>
        connectionReport ("无法匹配端口 \"" ++ port.plain ++ "\"") [("port_name",port),("candidates",.arr ports)]

end ChipForge.Assembly
