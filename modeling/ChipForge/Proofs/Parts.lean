import ChipForge.Script.Syntax

/-! The expressions that stand directly inside another one and may be compiled with it, induction over them, and the
calls that an expression or a statement holds at any depth. -/
namespace ChipForge.Script
open List

/-- Expressions directly inside another that are compiled with it. -/
def Expr.parts : Expr→List Expr
  | .boolOp _ _ values => values
  | .compare _ left rest => left::rest.map Comparison.right
  | .cond _ test body orelse => [test,body,orelse]
  | .unary _ _ operand => [operand]
  | .binary left _ right => [left,right]
  | .call _ _ args keywords => args++keywords.map Keyword.value
  | .subscript value _ => [value]
  | _ => []

theorem Comparison.sizeOf_right_lt (c : Comparison) : sizeOf c.right < sizeOf c := by
  cases c with
  | mk op right => simp only [Comparison.right,Comparison.mk.sizeOf_spec]; omega

theorem Keyword.sizeOf_value_lt (k : Keyword) : sizeOf k.value < sizeOf k := by
  cases k with
  | mk name value => simp only [Keyword.value,Keyword.mk.sizeOf_spec]; omega

theorem Expr.sizeOf_lt_of_mem_parts {x e : Expr} (h : x∈e.parts) : sizeOf x < sizeOf e := by
  cases e with
  | boolOp line op values =>
    have := sizeOf_lt_of_mem (show x∈values from h)
    simp only [Expr.boolOp.sizeOf_spec]
    omega
  | compare line left rest =>
    simp only [Expr.compare.sizeOf_spec]
    rcases mem_cons.1 h with rfl | h
    · omega
    · obtain ⟨c,hc,rfl⟩ := mem_map.1 h
      have := sizeOf_lt_of_mem hc
      have := c.sizeOf_right_lt
      omega
  | call line fn args keywords =>
    simp only [Expr.call.sizeOf_spec]
    rcases mem_append.1 h with h | h
    · have := sizeOf_lt_of_mem h
      omega
    · obtain ⟨k,hk,rfl⟩ := mem_map.1 h
      have := sizeOf_lt_of_mem hk
      have := k.sizeOf_value_lt
      omega
  | cond line test body orelse =>
    simp only [Expr.parts,mem_cons,not_mem_nil,or_false] at h
    simp only [Expr.cond.sizeOf_spec]
    rcases h with rfl | rfl | rfl <;> omega
  | unary line op operand =>
    simp only [Expr.parts,mem_singleton] at h
    simp only [h,Expr.unary.sizeOf_spec]
    omega
  | binary left op right =>
    simp only [Expr.parts,mem_cons,not_mem_nil,or_false] at h
    simp only [Expr.binary.sizeOf_spec]
    rcases h with rfl | rfl <;> omega
  | subscript value slice =>
    simp only [Expr.parts,mem_singleton] at h
    simp only [h,Expr.subscript.sizeOf_spec]
    omega
  | _ => simp [Expr.parts] at h

/-- What holds of an expression whenever it holds of its parts holds of every expression. -/
theorem Expr.induction_parts {motive : Expr→Prop} (step : ∀ e, (∀ x∈e.parts, motive x) → motive e) (e : Expr) :
    motive e :=
  step e fun x h =>
    have : sizeOf x < sizeOf e := Expr.sizeOf_lt_of_mem_parts h
    Expr.induction_parts step x
termination_by sizeOf e

mutual

/-- All calls that are compiled with an expression. -/
def Expr.calls : Expr→List Expr
  | .boolOp _ _ values => callsIn values
  | .compare _ left rest => left.calls++callsInComparisons rest
  | .cond _ test body orelse => test.calls++(body.calls++orelse.calls)
  | .unary _ _ operand => operand.calls
  | .binary left _ right => left.calls++right.calls
  | .call line fn args keywords => .call line fn args keywords::(callsIn args++callsInKeywords keywords)
  | .subscript value _ => value.calls
  | _ => []

def callsIn : List Expr→List Expr
  | [] => []
  | e::rest => e.calls++callsIn rest

def callsInComparisons : List Comparison→List Expr
  | [] => []
  | .mk _ right::rest => right.calls++callsInComparisons rest

def callsInKeywords : List Keyword→List Expr
  | [] => []
  | .mk _ value::rest => value.calls++callsInKeywords rest

end

theorem callsIn_eq (es : List Expr) : callsIn es=es.flatMap Expr.calls := by
  induction es with
  | nil => simp [callsIn]
  | cons e rest ih => simp [callsIn,ih]

theorem callsInComparisons_eq (cs : List Comparison) :
    callsInComparisons cs=(cs.map Comparison.right).flatMap Expr.calls := by
  induction cs with
  | nil => simp [callsInComparisons]
  | cons c rest ih => cases c with | mk op right => simp [callsInComparisons,ih,Comparison.right]

theorem callsInKeywords_eq (ks : List Keyword) : callsInKeywords ks=(ks.map Keyword.value).flatMap Expr.calls := by
  induction ks with
  | nil => simp [callsInKeywords]
  | cons k rest ih => cases k with | mk name value => simp [callsInKeywords,ih,Keyword.value]

/-- The calls of an expression are itself, if it is one, and those of its parts. -/
theorem Expr.calls_eq (e : Expr) :
    e.calls=(match e with | .call _ _ _ _ => [e] | _ => [])++e.parts.flatMap Expr.calls := by
  cases e <;>
    simp [Expr.calls,Expr.parts,callsIn_eq,callsInComparisons_eq,callsInKeywords_eq]

theorem Expr.mem_calls_of_part {c x e : Expr} (hx : x∈e.parts) (hc : c∈x.calls) : c∈e.calls := by
  rw [e.calls_eq]
  exact mem_append_right _ (mem_flatMap.2 ⟨x,hx,hc⟩)

theorem Expr.self_mem_calls (line : Nat) (fn : Expr) (args : List Expr) (keywords : List Keyword) :
    Expr.call line fn args keywords∈(Expr.call line fn args keywords).calls := by
  rw [Expr.calls_eq]
  exact mem_append_left _ (mem_singleton.2 rfl)

mutual

def Expr.within : Expr→List Expr
  | .boolOp line op values => .boolOp line op values::withinEach values
  | .compare line left rest => .compare line left rest::(left.within++withinComparisons rest)
  | .cond line test body orelse => .cond line test body orelse::(test.within++(body.within++orelse.within))
  | .unary line op operand => .unary line op operand::operand.within
  | .binary left op right => .binary left op right::(left.within++right.within)
  | .call line fn args keywords => .call line fn args keywords::(withinEach args++withinKeywords keywords)
  | .subscript value slice => .subscript value slice::value.within
  | e => [e]

def withinEach : List Expr→List Expr
  | [] => []
  | e::rest => e.within++withinEach rest

def withinComparisons : List Comparison→List Expr
  | [] => []
  | .mk _ right::rest => right.within++withinComparisons rest

def withinKeywords : List Keyword→List Expr
  | [] => []
  | .mk _ value::rest => value.within++withinKeywords rest

end

theorem withinEach_eq (es : List Expr) : withinEach es=es.flatMap Expr.within := by
  induction es with
  | nil => simp [withinEach]
  | cons e rest ih => simp [withinEach,ih]

theorem withinComparisons_eq (cs : List Comparison) :
    withinComparisons cs=(cs.map Comparison.right).flatMap Expr.within := by
  induction cs with
  | nil => simp [withinComparisons]
  | cons c rest ih => cases c with | mk op right => simp [withinComparisons,ih,Comparison.right]

theorem withinKeywords_eq (ks : List Keyword) : withinKeywords ks=(ks.map Keyword.value).flatMap Expr.within := by
  induction ks with
  | nil => simp [withinKeywords]
  | cons k rest ih => cases k with | mk name value => simp [withinKeywords,ih,Keyword.value]

theorem Expr.within_eq (e : Expr) : e.within=e::e.parts.flatMap Expr.within := by
  cases e <;>
    simp [Expr.within,Expr.parts,withinEach_eq,withinComparisons_eq,withinKeywords_eq]

mutual

/-- All calls that are compiled with a statement. -/
def Stmt.calls : Stmt→List Expr
  | .assign _ _ value => value.calls
  | .declare _ _ _ (some value) => value.calls
  | .expr _ value => value.calls
  | .ifElse _ test body orelse => test.calls++(callsOfStmts body++callsOfStmts orelse)
  | .block _ _ body => callsOfStmts body
  | _ => []

def callsOfStmts : List Stmt→List Expr
  | [] => []
  | stmt::rest => stmt.calls++callsOfStmts rest

end

def Keyword.idText? (k : Keyword) : Option String :=
  if k.name=some "id" then
    match k.value with
    | .const (.str s _) => some s
    | _ => none
  else none

def Expr.ownIds : Expr→List String
  | .call _ _ _ keywords => keywords.filterMap Keyword.idText?
  | _ => []

/-- Texts that are given as ids anywhere in an expression. -/
def Expr.askedIds (e : Expr) : List String := e.calls.flatMap Expr.ownIds

/-- Texts that are given as ids anywhere in a script. -/
def askedIds (stmts : List Stmt) : List String := (callsOfStmts stmts).flatMap Expr.ownIds

end ChipForge.Script
