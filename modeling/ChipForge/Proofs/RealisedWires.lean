import ChipForge.Proofs.Drivers
import ChipForge.Proofs.Links

/-! Every wire of a graph becomes a connection between two nodes of the save. It is realised there exactly if these nodes
have ports under the numbers that its names of ports stand for. -/
namespace ChipForge.Save
open Json Assembly
open List hiding lookup insert

variable {graph : List Labels} {c : Connection}

/-- The nodes that a connection names are there and have its ports. -/
def Fits (graph : List Labels) (c : Connection) : Prop :=
  ∃ source target, nodeFor graph c.fromNode=some source ∧ nodeFor graph c.toNode=some target ∧
    c.fromPort < source.outputs.length ∧ c.toPort < target.inputs.length

theorem portFor_isSome_iff {ids : List (Option Json)} (h : none∉ids) (n : Nat) :
    (portFor ids (.int n)).isSome ↔ n < ids.length := by
  have hindex : indexIn? n ids.length=if n < ids.length then some n else none := by
    rw [indexIn?,if_neg (Int.not_lt.2 (Int.natCast_nonneg n))]
    simp
  rw [portFor,asInt?,Option.bind_some,hindex]
  split_ifs with hn
  · rw [Option.bind_some,getElem?_eq_getElem hn]
    cases hid : ids[n] with
    | none => exact absurd (hid ▸ getElem_mem hn) h
    | some id => simp [hn]
  · simp [hn]

theorem nodeFor_mem {id : Json} {l : Labels} (h : nodeFor graph id=some l) : l∈graph := by
  obtain ⟨text,-,h⟩ := Option.bind_eq_some_iff.1 h
  exact mem_of_find?_eq_some h

theorem tie?_isSome_iff (hcomplete : ∀ l∈graph, l.Complete) : (tie? graph c.toJson).isSome ↔ Fits graph c := by
  have htie : tie? graph c.toJson=(do
      let source ← nodeFor graph c.fromNode
      let target ← nodeFor graph c.toNode
      let fromPort ← portFor source.outputs (.int c.fromPort)
      let toPort ← portFor target.inputs (.int c.toPort)
      pure ⟨← source.id,fromPort,← target.id,toPort⟩) := rfl
  rw [htie,Fits]
  cases hsource : nodeFor graph c.fromNode with
  | none => simp
  | some source =>
    cases htarget : nodeFor graph c.toNode with
    | none => simp
    | some target =>
      have hs := hcomplete _ (nodeFor_mem hsource)
      have ht := hcomplete _ (nodeFor_mem htarget)
      obtain ⟨_,hsourceId⟩ := hs.id
      obtain ⟨_,htargetId⟩ := ht.id
      have hfrom := portFor_isSome_iff hs.outputs c.fromPort
      have hto := portFor_isSome_iff ht.inputs c.toPort
      cases hp : portFor source.outputs (.int c.fromPort) <;> cases hq : portFor target.inputs (.int c.toPort) <;>
        simp_all

/-- The input of a connection notes its output, and the output lists the input. -/
def Realised (nodes : List Json) (c : Tie) : Prop :=
  sourceOf nodes c.toNode c.toPort=some c.source ∧ c.target∈listOf nodes c.fromNode c.fromPort

theorem TiedAll.realised {nodes nodes' : List Json} {made : List Tie} (h : TiedAll nodes made nodes')
    (hapart : (made.map fun c => (c.toNode,c.toPort)).Nodup) {c : Tie} (hc : c∈made) : Realised nodes' c := by
  constructor
  · have hinto : c∈into made c.toNode c.toPort := mem_filter.2 ⟨hc,by simp⟩
    rw [h.sources]
    cases hlast : (into made c.toNode c.toPort).getLast? with
    | none => rw [getLast?_eq_none_iff.1 hlast] at hinto; cases hinto
    | some c' =>
      obtain ⟨hc',hnode,hport⟩ := mem_of_getLast?_into hlast
      rw [inj_on_of_nodup_map hapart hc' hc (Prod.ext hnode hport)]
      rfl
  · rw [h.lists]
    exact mem_append_right _ (mem_map_of_mem (mem_filter.2 ⟨hc,by simp⟩))

/-- The wires of a graph become connections one by one, between the nodes made for their ends. All of them are made exactly
if each fits the nodes that the save has. Where those that fit lead to different inputs, each of them is realised. -/
theorem connectAll_realises {fittings : Fittings} {drawing graph : Json} {wires : List Connection} {name : String}
    {desk desk' : Desk} {slot : Slot} {count : Nat} (hwires : connections fittings drawing = .ok wires)
    (hgraph : readableGraph desk.save = .ok (some (slot, graph)))
    (hids : DistinctIds ((itemsOf "Nodes" graph).map Labels.of))
    (hrun : result (connectAll (.arr (wires.map Connection.toJson)) name) desk = (.ok (some count), desk')) :
    ∃ edges graph', (drawing.item "edges" >>= each) = .ok edges ∧
      Forall₂ (fun e c => connectionOf fittings e = .ok c) edges wires ∧
      desk'.save = setText slot (Json.write Json.Style.spaced.unicode graph') desk.save ∧
      (count = wires.length ↔ ∀ c ∈ wires, Fits ((itemsOf "Nodes" graph).map Labels.of) c) ∧
      (((tiesOf ((itemsOf "Nodes" graph).map Labels.of) (wires.map Connection.toJson)).map
          fun t => (t.toNode, t.toPort)).Nodup →
        ∀ c ∈ wires, Fits ((itemsOf "Nodes" graph).map Labels.of) c →
          ∃ t, tie? ((itemsOf "Nodes" graph).map Labels.of) c.toJson = some t ∧ Realised (itemsOf "Nodes" graph') t) := by
  obtain ⟨list,edges,hlist,hedges,hmapped⟩ := Wiring.bind_bind_eq_ok.1 hwires
  obtain ⟨graph',hcomplete,hsave,hcount,hall⟩ := connectAll_tiedAll hgraph hids hrun
  refine ⟨edges,graph',by rw [hlist]; exact hedges,Wiring.forall₂_of_mapM hmapped,hsave,?_,fun hapart c hc hfits => ?_⟩
  · simp only [← tie?_isSome_iff hcomplete]
    rw [hcount,tiesOf,← length_map (f := Connection.toJson),length_filterMap_eq_countP,countP_eq_length]
    simp
  · obtain ⟨t,ht⟩ := Option.isSome_iff_exists.1 ((tie?_isSome_iff hcomplete).2 hfits)
    exact ⟨t,ht,hall.realised hapart (mem_filterMap.2 ⟨_,mem_map_of_mem hc,ht⟩)⟩

def fooModules (friendly : String) : Json :=
  .obj [("Foo",.obj [("inputs",.arr [.obj [("name",.str "Set")]]),("source_info",.obj [("chip_names_friendly_name",.str friendly),
    ("allmod_viewmodel",.str "FooNode")])])]

/-- An input that feeds a module. -/
def fooDrawing : Json :=
  .obj [("nodes",.arr [.obj [("id",.str "a"),("type",.str "Input")],.obj [("id",.str "b"),("type",.str "Foo")]]),
    ("edges",.arr [.obj [("from_node",.str "a"),("from_port",.str "Number"),("to_node",.str "b"),("to_port",.str "Set")]])]

def fooFittings? (friendly : String) : Option Fittings := do
  let index ← (Index.ofCatalogue (fooModules friendly)).toOption
  let plan ← (planOf fooDrawing index).toOption
  pure (.ofPlan (withIds plan.placements fun id => .str (if id == "a" then "A : 1" else "B : 2")) index)

set_option maxRecDepth 4000 in
theorem connectAll_realises_foo : ∃ fittings wires desk' graph', fooFittings? "Foo" = some fittings ∧
    connections fittings fooDrawing = .ok wires ∧
    result (connectAll (.arr (wires.map Connection.toJson)) "save") pairDesk = (.ok (some 1), desk') ∧
    desk'.save = setText ⟨0, 0⟩ (Json.write Json.Style.spaced.unicode graph') pairDesk.save ∧
    Realised (itemsOf "Nodes" graph') pairTie := by
  have hwires : ∃ fittings, fooFittings? "Foo" = some fittings ∧
      connections fittings fooDrawing = .ok [⟨.str "A : 1",0,.str "B : 2",0⟩] := ⟨_,rfl,rfl⟩
  obtain ⟨fittings,hfittings,hwires⟩ := hwires
  have hrun := result_eq_ok (m := connectAll (.arr ([⟨.str "A : 1",0,.str "B : 2",0⟩].map Connection.toJson)) "save")
    (a := some 1) (s := pairDesk) (by decide +kernel)
  obtain ⟨edges,graph',-,-,hsave,-,hall⟩ := connectAll_realises hwires readableGraph_pair distinctIds_pair hrun
  obtain ⟨t,ht,hrealised⟩ := hall (nodup_singleton _) _ (mem_singleton.2 rfl)
    ⟨_,_,rfl,rfl,Nat.one_pos,Nat.one_pos⟩
  cases ht
  exact ⟨fittings,_,_,graph',hfittings,hwires,hrun,hsave,hrealised⟩

set_option maxRecDepth 4000 in
/-- A module with a name like that of variables is taken for one: its input is looked for in the place where a variable has
the input of that name, and the wire is lost. -/
theorem connectAll_misses_variable : ∃ fittings wires desk', fooFittings? "Variable!" = some fittings ∧
    connections fittings fooDrawing = .ok wires ∧ wires.length = 1 ∧
    result (connectAll (.arr (wires.map Connection.toJson)) "save") pairDesk = (.ok (some 0), desk') :=
  ⟨_,[⟨.str "A : 1",0,.str "B : 2",1⟩],_,rfl,rfl,rfl,result_eq_ok (by decide +kernel)⟩

end ChipForge.Save
