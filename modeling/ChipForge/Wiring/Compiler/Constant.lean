import ChipForge.Wiring.Compiler.State

/-! Nodes that hold a constant. In a dialect with sharing, equal constants of one type are one node; constants are equal
when they read the same in the save format with sorted fields. -/
namespace ChipForge.Wiring
open Script

def keyLess? (a b : Literal) : Option Bool :=
  match a, b with
  | .str s, .str t => some (s < t)
  | _, _ =>
    match Literal.numeric? a, Literal.numeric? b with
    | some (.int m), some (.int n) => some (m < n)
    | some (.int m), some (.float y) => some (Decimal.ofInt m < y)
    | some (.float x), some (.int n) => some (x < Decimal.ofInt n)
    | some (.float x), some (.float y) => some (x < y)
    | _, _ => none

def comparable : List (Literal×Json)→Bool
  | [] => true
  | (k,_)::rest => rest.all (fun (k',_) => (keyLess? k k').isSome) && comparable rest

def namedFields : List (Literal×Json)→Option (List (String×Json))
  | [] => some []
  | (k,v)::rest => do
    let name ← k.fieldName?
    let fields ← namedFields rest
    pure ((name,v)::fields)

def sortFields (entries : List (Literal×Json)) : Option (List (String×Json)) :=
  if comparable entries then
    namedFields (entries.mergeSort fun a b => !((keyLess? b.1 a.1).getD false))
  else none

mutual

/-- The value in the save format with the fields of tables in order, unless it has no such form. -/
def sortedJson? : Literal→Option Json
  | .none => some .null
  | .bool b => some (.bool b)
  | .int n => some (.int n)
  | .float x => some (.float x)
  | .str s => some (.str s)
  | .tuple items => (sortedItems? items).map .arr
  | .list items => (sortedItems? items).map .arr
  | .dict entries => ((sortedEntries? entries).bind sortFields).map .obj
  | _ => Option.none

def sortedItems? : List Literal→Option (List Json)
  | [] => some []
  | v::rest => do
    let j ← sortedJson? v
    let js ← sortedItems? rest
    pure (j::js)

def sortedEntries? : List (Literal×Literal)→Option (List (Literal×Json))
  | [] => some []
  | (k,v)::rest => do
    let j ← sortedJson? v
    let js ← sortedEntries? rest
    pure ((k,j)::js)

end

def constantKey (v : Literal) (t : Option GateType) : String :=
  match sortedJson? v with
  | some j =>
    Json.write Json.Style.spaced.unicode (.obj [("data_type",Issue.typeJson t),("value",j)])
  | none =>
    (match t with
      | some t => t.name
      | none => "None") ++ ":" ++ v.plain

def addConstant (v : Literal) (t : Option GateType) : Compile String := do
  let s ← get
  let (id,graph) := s.graph.nextId "Constant"
  let attrs := (.str "value",v)::(match t with
    | some t => [(.str "data_type",.str t.name)]
    | none => [])
  let node : Node := ⟨id,"Constant",autoLabel "Constant" attrs,attrs,[],[]⟩
  let s := { s with graph := graph.addNode node }.seeNode id
  set (match t with
    | some t => s.setNodeType id t
    | none => s)
  pure id

def emitConstant (d : Dialect) (v : Literal) (t : Option GateType) : Compile String := do
  if !d.sharing then addConstant v t
  else
    let key := constantKey v t
    let s ← get
    match (s.shared.find key).filter s.graph.hasNode with
    | some id => pure id
    | none =>
      let id ← addConstant v t
      modify fun s => { s with shared := s.shared.put key id }
      pure id

end ChipForge.Wiring
