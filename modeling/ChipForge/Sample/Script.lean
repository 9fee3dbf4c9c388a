/-! A script that uses every kind of statement, and grows with a size. -/
namespace ChipForge.Sample

/-- Inputs, variables of all kinds, arithmetic, comparisons, a choice and outputs. -/
def everyKind : List String := [
  "\"\"\"demo\"\"\"",
  "import math",
  "a = INPUT(\"A\", \"Number\")",
  "b = INPUT(\"B\", Number)",
  "s: String = INPUT(\"S\", data_type=\"String\")",
  "v: Vector = \x7b\"x\": 1.0, \"y\": 2.0, \"z\": 3.0\x7d",
  "hp: Number = 100",
  "names: ArrayString",
  "nums: List[Number] = [1.0, 2.0, 3.0]",
  "PI: Final[Number] = 3.14159",
  "\x7b\"Key\": \"extvar\", \"GateDataType\": \"Vector\", \"Value\": \x7b\"x\":0,\"y\":0,\"z\":0\x7d\x7d",
  "if __name__ == \"__main__\":",
  "    t0 = a + b",
  "    t1 = a - b",
  "    t2 = a * b",
  "    t3 = a / b",
  "    t4 = a % b",
  "    t5 = a ** 2",
  "    neg = -a",
  "    pos = +a",
  "    ab = abs(a)",
  "    sq = sqrt(a)",
  "    rd = round(a)",
  "    fl = floor(a)",
  "    ce = ceil(a)",
  "    c01 = clamp01(a)",
  "    cl = clamp(a, 0, 10)",
  "    av = average(a, b)",
  "    mx = max(a, b)",
  "    mn = min(a, b)",
  "    sqn = square(a)",
  "    iv = inverse(a)",
  "    sg = sign(a)",
  "    ex = exp(a)",
  "    lg = log(a, 2)",
  "    rn = random(0, 1)",
  "    pw = pow(a, b)",
  "    md = mod(a, b)",
  "    ts = ToString(a)",
  "    mg = magnitude(v)",
  "    bo = (a > b) and (a < 10) or not (a == b)",
  "    ch = 0 < a < b <= 10",
  "    ne = a != b",
  "    ge = a >= b",
  "    ie = 1 if a > 0 else 0",
  "    arr = ArraysGet(nums, 0)",
  "    xyz = Split(Vector=v)",
  "    xx = xyz[\"X\"]",
  "    aliasc = Split(Vector=v)[\"Y\"]",
  "    SET(hp, t0, trigger=1.0)",
  "    nums = [4.0, 5.0]",
  "    if a > b:",
  "        res = t0 + 1",
  "        msg = ToString(t0)",
  "    else:",
  "        res = t1 + 2",
  "        msg = ToString(t1)",
  "    OUTPUT(res, \"Result\", Number)",
  "    OUTPUT(INPUT=msg, name=\"Msg\", datatype=\"String\")",
  "    OUTPUT(ts, \"TS\")",
  "    lc = TIME(id=\"time_0\", label=\"clock\")",
  "    al = lc"]

def sumBefore : Nat→String
  | 0 => "t0"
  | i+1 => "p" ++ toString i

def sumLines (i : Nat) : List String :=
  let number := toString i
  ["    p" ++ number ++ " = Add(A=" ++ sumBefore i ++ ", B=Multiply(A=a, B=Subtract(A=b, B=a)))",
    "    OUTPUT(p" ++ number ++ ", \"P" ++ number ++ "\", Number)"]

def script (size : Nat) : String :=
  String.join ((everyKind++(List.range size).flatMap sumLines).map (· ++ "\n"))

end ChipForge.Sample
