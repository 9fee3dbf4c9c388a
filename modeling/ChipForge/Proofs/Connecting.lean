import ChipForge.Proofs.EditRuns
import ChipForge.Proofs.PortRecords
import ChipForge.Proofs.Ports
import ChipForge.Save.Connect

/-! An instruction makes a connection exactly where its nodes and ports exist. After a run an input notes the connection
made last into it, and an output lists all that were made out of it. -/
namespace ChipForge.Save
open Json Wiring Text Table Option
open List hiding lookup insert modify

variable {index : Table Nat} {nodes nodes' : List Json} {ports : Table Json} {desk desk' : Desk}
  {record graph node list : Json} {s i count : Nat} {instructions : List Json} {t j : Nat} {id : Json} {f : Failure}
  {c : Tie} {table table' : Table Json} {name : String} {slot : Slot}

/-- A connection by the ids of its ends. -/
structure Tie where
  fromNode : Json
  fromPort : Json
  toNode : Json
  toPort : Json

def Tie.source (c : Tie) : Json := .obj [("Id",c.fromPort),("NodeId",c.fromNode)]

def Tie.target (c : Tie) : Json := .obj [("Id",c.toPort),("NodeId",c.toNode)]

noncomputable def sourceOf (nodes : List Json) (node port : Json) : Option Json :=
  (portOf nodes "Inputs" node port).bind (·.get? "connectedOutputIdModel")

noncomputable def listOf (nodes : List Json) (node port : Json) : List Json :=
  ((portOf nodes "Outputs" node port).map (itemsOf "ConnectedInputsIds")).getD []

/-- A connection made in a graph: its input notes it, its output lists it last, and all else is as before. -/
structure Tied (nodes : List Json) (c : Tie) (nodes' : List Json) : Prop where
  labels : nodes'.map Labels.of=nodes.map Labels.of
  source : sourceOf nodes' c.toNode c.toPort=some c.source
  sources : ∀ {node port}, ¬(node=c.toNode ∧ port=c.toPort) → sourceOf nodes' node port=sourceOf nodes node port
  list : listOf nodes' c.fromNode c.fromPort=listOf nodes c.fromNode c.fromPort++[c.target]
  lists : ∀ {node port}, ¬(node=c.fromNode ∧ port=c.fromPort) → listOf nodes' node port=listOf nodes node port

theorem changePort_eq (i : Nat) (side : String) (j : Nat) (f : Json→Json) :
    changePort i side j f=modify fun nodes => withPort nodes i side j f := rfl

theorem result_noteSource {source : Json} (hid : record.get? "Id" = some id) :
    result (noteSource t j record source) nodes =
      (.ok (),withPort nodes t "Inputs" j fun _ => record.set "connectedOutputIdModel" source) := by
  cases record with
  | obj fields => rfl
  | _ => cases hid

def listOpened (port : Json) : Json :=
  if (port.get? "ConnectedInputsIds").isSome then port else port.set "ConnectedInputsIds" (.arr [])

def listGrown (output target port : Json) : Json :=
  port.set "ConnectedInputsIds" (.arr (itemsOf "ConnectedInputsIds" output++[target]))

/-- A target is put last in the list of its output, unless the run ends. -/
theorem result_noteTarget (s i : Nat) (output target : Json) (nodes : List Json) :
    result (noteTarget s i output (.ok target)) nodes =
        (.ok (),withPort (withPort nodes s "Outputs" i listOpened) s "Outputs" i (listGrown output target)) ∨
      ∃ f nodes', result (noteTarget s i output (.ok target)) nodes=(.error f,nodes') ∧ isPassable f=false := by
  unfold noteTarget listGrown itemsOf
  rw [changePort_eq,result_bind_ok (result_modify _ nodes)]
  cases output.get? "ConnectedInputsIds" with
  | none => exact .inl rfl
  | some list =>
    cases list with
    | arr items => exact .inl rfl
    | _ => exact .inr ⟨_,_,rfl,rfl⟩

theorem tied_withPorts (hids : DistinctIds (nodes.map Labels.of)) {output input : Json}
    (hinput : Placed nodes t "Inputs" j c.toNode c.toPort input)
    (houtput : Placed nodes s "Outputs" i c.fromNode c.fromPort output) :
    Tied nodes c (withPort (withPort (withPort nodes t "Inputs" j fun _ => input.set "connectedOutputIdModel" c.source)
      s "Outputs" i listOpened) s "Outputs" i (listGrown output c.target)) := by
  let noted : Json→Json := fun _ => input.set "connectedOutputIdModel" c.source
  have hnoted : (noted input).get? "Id" = some c.toPort := (get?_set_ne _ _ (by decide)).trans hinput.named
  have hopened : (listOpened output).get? "Id" = some c.fromPort := by
    unfold listOpened
    split_ifs
    · exact houtput.named
    · exact (get?_set_ne _ _ (by decide)).trans houtput.named
  have hgrown : (listGrown output c.target (listOpened output)).get? "Id" = some c.fromPort :=
    (get?_set_ne _ _ (by decide)).trans hopened
  have houtput₁ : Placed (withPort nodes t "Inputs" j noted) s "Outputs" i c.fromNode c.fromPort output :=
    houtput.across (.inl rfl) (by decide)
  have houtput₂ := houtput₁.changed hopened
  have hlabels₁ := labels_withPort hinput hnoted
  have hlabels₂ := (labels_withPort houtput₁ hopened).trans hlabels₁
  have hids₁ := hlabels₁.symm ▸ hids
  have hids₂ := hlabels₂.symm ▸ hids
  have hinputs : ∀ node port, portOf (withPort (withPort (withPort nodes t "Inputs" j noted) s "Outputs" i listOpened) s
      "Outputs" i (listGrown output c.target)) "Inputs" node port=portOf (withPort nodes t "Inputs" j noted) "Inputs" node port := by
    intro node port
    rw [portOf_withPort_ne houtput₂ hids₂ hgrown (by simp),portOf_withPort_ne houtput₁ hids₁ hopened (by simp)]
  refine ⟨(labels_withPort houtput₂ hgrown).trans hlabels₂,?_,?_,?_,?_⟩
  · rw [sourceOf,hinputs,portOf_withPort_self hinput hids hnoted,bind_some]
    exact get?_set_self _ hinput.named
  · intro node port hne
    rw [sourceOf,hinputs,portOf_withPort_ne hinput hids hnoted (fun h => hne h.2),sourceOf]
  · rw [listOf,portOf_withPort_self houtput₂ hids₂ hgrown,listOf,houtput.found hids]
    simp only [map_some,getD_some]
    rw [listGrown,itemsOf,get?_set_self _ hopened]
  · intro node port hne
    rw [listOf,portOf_withPort_ne houtput₂ hids₂ hgrown (fun h => hne h.2),
      portOf_withPort_ne houtput₁ hids₁ hopened (fun h => hne h.2),portOf_withPort_ne hinput hids hnoted (by simp),listOf]

def nodeFor (graph : List Labels) (id : Json) : Option Labels :=
  id.asStr?.bind fun text => graph.find? fun l => l.key == some (squeeze text)

def portFor (ids : List (Option Json)) (index : Json) : Option Json :=
  index.asInt?.bind fun n => (indexIn? n ids.length).bind fun i => ids[i]?.join

/-- The connection that an instruction asks for, if the nodes and the ports it names are there. -/
def tie? (graph : List Labels) (instruction : Json) : Option Tie := do
  let source ← nodeFor graph (← instruction.get? "from_node_id")
  let target ← nodeFor graph (← instruction.get? "to_node_id")
  let fromPort ← portFor source.outputs (← instruction.get? "from_port_index")
  let toPort ← portFor target.inputs (← instruction.get? "to_port_index")
  pure ⟨← source.id,fromPort,← target.id,toPort⟩

/-- An index of nodes by their ids without blanks. -/
structure Indexed (index : Table Nat) (graph : List Labels) : Prop where
  found : ∀ {key i}, index.find key=some i→∃ l, graph[i]?=some l ∧ l.key=some key
  missing : ∀ {key}, index.find key=none→∀ l∈graph, l.key≠some key

theorem Indexed.nodeFor_eq {graph : List Labels} (hindex : Indexed index graph) (hids : DistinctIds graph) (text : String) :
    nodeFor graph (.str text)=(index.find (squeeze text)).bind fun i => graph[i]? := by
  rw [nodeFor,asStr?,bind_some]
  cases hfind : index.find (squeeze text) with
  | none =>
    rw [bind_none,find?_eq_none]
    intro l hl
    simpa using hindex.missing hfind l hl
  | some i =>
    obtain ⟨l,hl,hkey⟩ := hindex.found hfind
    rw [bind_some,hl]
    exact find?_of_nodup (fun l => by simp) hids.nodes hl hkey

theorem portFor_eq (node index : Json) (side : String) : portFor ((itemsOf side node).map (·.get? "Id")) index =
    ((node.item side).toOption.bind fun list => (list.pick index).toOption).bind (·.2.get? "Id") := by
  have hempty : portFor [] index=none := by
    rw [portFor]
    cases index.asInt? with
    | none => rfl
    | some n => cases indexIn? n 0 <;> simp
  unfold itemsOf
  cases hget : node.get? side with
  | none =>
    obtain ⟨f,hitem⟩ := item_of_get?_none hget
    rw [hitem]
    exact hempty
  | some list =>
    rw [item_of_get? hget]
    cases list with
    | arr items =>
      cases hn : index.asInt? with
      | none => simp [portFor,pick,hn,Except.toOption]
      | some n =>
        cases hi : indexIn? n items.length with
        | none => simp [portFor,pick,hn,hi,Except.toOption]
        | some i => cases hitem : items[i]? <;> simp [portFor,pick,hn,hi,hitem,Except.toOption]
    | _ => exact hempty

/-- How a connection may end: it is made, or nothing has changed, or the failure ends the run. -/
def Ends (nodes : List Json) (tie : Option Tie) : Except Failure Unit×List Json→Prop
  | (.ok _,nodes') => ∃ c, tie=some c ∧ Tied nodes c nodes'
  | (.error f,nodes') => isPassable f=true → tie=none ∧ nodes'=nodes

theorem result_nodeAt (h : nodes[i]?=some node) : result (nodeAt i) nodes=(.ok node,nodes) := by
  show (Except.ok (nodes[i]?.getD .null),nodes)=_
  rw [h]
  rfl

theorem reference_eq_ok {port nodeId : Json} (hport : port.get? "Id" = some id) (hnode : node.get? "Id" = some nodeId) :
    reference port node=.ok (.obj [("Id",id),("NodeId",nodeId)]) := by
  rw [reference,item_of_get? hport,item_of_get? hnode]
  rfl

/-- What is looked up in vain leaves everything as it was. -/
theorem Ends.lift {α : Type} {tie : Option Tie} {x : Except Failure α} {k : α→Wire Unit}
    (hok : ∀ a, x=.ok a→Ends nodes tie (result (k a) nodes)) (herror : ∀ f, x=.error f → tie=none) :
    Ends nodes tie (result (liftM x >>= k) nodes) := by
  cases x with
  | ok a => exact hok a rfl
  | error f => exact fun _ => ⟨herror f rfl,rfl⟩

theorem getElem?_of_pick {side : String} {index : Json} (hlist : node.item side=.ok list)
    (hpick : list.pick index=.ok (i,record)) : (itemsOf side node)[i]?=some record := by
  obtain ⟨items,n,rfl,-,-,hrecord⟩ := pick_eq_ok hpick
  simp [itemsOf,item_eq_ok hlist,hrecord]

theorem exists_id_of_notMem {ports : List Json} (h : none∉ports.map (·.get? "Id")) (hrecord : ports[i]?=some record) :
    ∃ id, record.get? "Id" = some id := by
  refine ne_none_iff_exists'.1 fun hnone => h (mem_map.2 ⟨record,mem_of_getElem? hrecord,hnone⟩)

theorem connect_ends_of_nodes (hids : DistinctIds (nodes.map Labels.of))
    (hcomplete : ∀ l∈nodes.map Labels.of, l.Complete) {source target sourceIndex targetIndex : Json}
    (hs : nodes[s]?=some source) (ht : nodes[t]?=some target) :
    Ends nodes (do
        let fromPort ← portFor (Labels.of source).outputs sourceIndex
        let toPort ← portFor (Labels.of target).inputs targetIndex
        pure ⟨← (Labels.of source).id,fromPort,← (Labels.of target).id,toPort⟩)
      (result (do
        let source ← nodeAt s
        let target ← nodeAt t
        let (i,output) ← (← source.item "Outputs").pick sourceIndex
        let (j,input) ← (← target.item "Inputs").pick targetIndex
        let origin ← reference output source
        noteSource t j input origin
        noteTarget s i output (reference input target)) nodes) := by
  rw [result_bind_ok (result_nodeAt hs),result_bind_ok (result_nodeAt ht)]
  have hfrom := portFor_eq source sourceIndex "Outputs"
  have hto := portFor_eq target targetIndex "Inputs"
  refine .lift (fun outputs houtputs => .lift ?_ fun f hf => ?_) fun f hf => ?_
  · rintro ⟨i,output⟩ hpick
    refine .lift (fun inputs hinputs => .lift ?_ fun f hf => ?_) fun f hf => ?_
    · rintro ⟨j,input⟩ hpick'
      have houtput := getElem?_of_pick houtputs hpick
      have hinput := getElem?_of_pick hinputs hpick'
      have hsourceComplete := hcomplete _ (mem_map_of_mem (mem_of_getElem? hs))
      have htargetComplete := hcomplete _ (mem_map_of_mem (mem_of_getElem? ht))
      obtain ⟨sourceText,hsource⟩ := hsourceComplete.id
      obtain ⟨targetText,htarget⟩ := htargetComplete.id
      obtain ⟨fromPort,hfromPort⟩ := exists_id_of_notMem hsourceComplete.outputs houtput
      obtain ⟨toPort,htoPort⟩ := exists_id_of_notMem htargetComplete.inputs hinput
      let c : Tie := ⟨.str sourceText,fromPort,.str targetText,toPort⟩
      have hinputAt : Placed nodes t "Inputs" j c.toNode c.toPort input :=
        ⟨.inl rfl,⟨target,ht,htarget,hinput⟩,htoPort⟩
      have houtputAt : Placed nodes s "Outputs" i c.fromNode c.fromPort output :=
        ⟨.inr rfl,⟨source,hs,hsource,houtput⟩,hfromPort⟩
      have hfrom' : portFor (Labels.of source).outputs sourceIndex=some fromPort := by
        simp [Labels.of,hfrom,houtputs,hpick,hfromPort,Except.toOption]
      have hto' : portFor (Labels.of target).inputs targetIndex=some toPort := by
        simp [Labels.of,hto,hinputs,hpick',htoPort,Except.toOption]
      have horigin : reference output source=.ok c.source := reference_eq_ok hfromPort hsource
      have hend : reference input target=.ok c.target := reference_eq_ok htoPort htarget
      dsimp only
      rw [hsource,htarget,hfrom',hto',horigin,hend,result_ok_bind,result_bind_ok (result_noteSource htoPort)]
      rcases result_noteTarget s i output c.target _ with hrun | ⟨f,nodes',hrun,hstops⟩ <;> rw [hrun]
      · exact ⟨c,rfl,tied_withPorts hids hinputAt houtputAt⟩
      · exact fun hpass => absurd hpass (by rw [hstops]; decide)
    · simp [Labels.of,hto,hinputs,hf,Except.toOption]
    · simp [Labels.of,hto,hf,Except.toOption]
  · simp [Labels.of,hfrom,houtputs,hf,Except.toOption]
  · simp [Labels.of,hfrom,hf,Except.toOption]

theorem squeezedId_eq_ok {key : String} (h : squeezedId id=.ok key) : ∃ text, id=.str text ∧ key=squeeze text := by
  cases id with
  | str text =>
    cases h
    exact ⟨text,rfl,rfl⟩
  | _ => cases h

theorem squeezedId_eq_error (h : squeezedId id=.error f) : id.asStr?=none := by
  cases id with
  | str text => cases h
  | _ => rfl

/-- A connection is made exactly if the nodes and the ports of its instruction are there, unless the run ends. -/
theorem connect_ends (hids : DistinctIds (nodes.map Labels.of)) (hcomplete : ∀ l∈nodes.map Labels.of, l.Complete)
    (hindex : Indexed index (nodes.map Labels.of)) {instruction sourceId targetId : Json}
    (hsource : instruction.get? "from_node_id" = some sourceId) (htarget : instruction.get? "to_node_id" = some targetId) :
    Ends nodes (tie? (nodes.map Labels.of) instruction) (result (connect index instruction sourceId targetId) nodes) := by
  have hnone : ∀ {key : String} {f}, instruction.item key=.error f → instruction.get? key=none := by
    intro key f hf
    refine eq_none_iff_forall_ne_some.2 fun v hv => ?_
    rw [item_of_get? hv] at hf
    cases hf
  refine .lift (fun sourceKey hsourceKey => .lift (fun targetKey htargetKey => .lift (fun sourceIndex hfrom =>
    .lift (fun targetIndex hto => ?_) fun f hf => ?_) fun f hf => ?_) fun f hf => ?_) fun f hf => ?_
  · obtain ⟨sourceText,rfl,rfl⟩ := squeezedId_eq_ok hsourceKey
    obtain ⟨targetText,rfl,rfl⟩ := squeezedId_eq_ok htargetKey
    have hsourceNode := hindex.nodeFor_eq hids sourceText
    have htargetNode := hindex.nodeFor_eq hids targetText
    cases hs : index.find (squeeze sourceText) with
    | none =>
      rw [hs,bind_none] at hsourceNode
      exact fun _ => ⟨by simp [tie?,hsource,hsourceNode],rfl⟩
    | some s =>
      cases ht : index.find (squeeze targetText) with
      | none =>
        rw [ht,bind_none] at htargetNode
        exact fun _ => ⟨by simp [tie?,htarget,htargetNode],rfl⟩
      | some t =>
        obtain ⟨l,hl,-⟩ := hindex.found hs
        obtain ⟨l',hl',-⟩ := hindex.found ht
        rw [hs,bind_some,hl] at hsourceNode
        rw [ht,bind_some,hl'] at htargetNode
        rw [getElem?_map] at hl hl'
        obtain ⟨source,hsourceAt,rfl⟩ := map_eq_some_iff.1 hl
        obtain ⟨target,htargetAt,rfl⟩ := map_eq_some_iff.1 hl'
        have htie : tie? (nodes.map Labels.of) instruction=(do
            let fromPort ← portFor (Labels.of source).outputs sourceIndex
            let toPort ← portFor (Labels.of target).inputs targetIndex
            pure (Tie.mk (← (Labels.of source).id) fromPort (← (Labels.of target).id) toPort)) := by
          simp [tie?,hsource,htarget,hsourceNode,htargetNode,item_eq_ok hfrom,item_eq_ok hto]
        rw [htie]
        exact connect_ends_of_nodes hids hcomplete hsourceAt htargetAt
  · simp [tie?,hnone hf]
  · simp [tie?,hnone hf]
  · simp [tie?,htarget,nodeFor,squeezedId_eq_error hf]
  · simp [tie?,hsource,nodeFor,squeezedId_eq_error hf]

theorem enterPorts_eq_ok {ports : List Json} (h : enterPorts table ports=.ok table') :
    ∀ port∈ports, ∃ id, port.get? "Id" = some id := by
  induction ports generalizing table with
  | nil => simp
  | cons port rest ih =>
    obtain ⟨id,name,hid,-,h⟩ := bind_bind_eq_ok.1 h
    intro p hp
    rcases mem_cons.1 hp with rfl | hp
    · exact ⟨id,item_eq_ok hid⟩
    · exact ih h p hp

theorem none_notMem_of_enterPorts {side : String} {ports : List Json} (hlist : node.fieldOr side (.arr [])=.ok list)
    (heach : list.each=.ok ports) (h : enterPorts table ports=.ok table') :
    none∉(itemsOf side node).map (·.get? "Id") := by
  intro hmem
  obtain ⟨port,hport,hnone⟩ := mem_map.1 hmem
  have hlisted : port∈ports := by
    unfold itemsOf at hport
    split at hport
    · rename_i items hget
      rw [fieldOr_eq_ok hlist,hget] at heach
      cases heach
      exact hport
    · cases hport
  obtain ⟨id,hid⟩ := enterPorts_eq_ok h port hlisted
  rw [hid] at hnone
  cases hnone

theorem indexNodes_eq_ok {k : Nat} {table table' : Table Nat} {ports' : Table Json}
    (h : indexNodes k table ports nodes=.ok (table',ports')) :
    (∀ l∈nodes.map Labels.of, l.Complete) ∧
      (∀ {key i}, table'.find key=some i →
        table.find key=some i ∨ ∃ j l, (nodes.map Labels.of)[j]?=some l ∧ i=k+j ∧ l.key=some key) ∧
      ∀ {key}, table'.find key=none → table.find key=none ∧ ∀ l∈nodes.map Labels.of, l.key≠some key := by
  induction nodes generalizing k table ports with
  | nil =>
    cases h
    exact ⟨by simp,fun hi => .inl hi,fun hnone => ⟨hnone,by simp⟩⟩
  | cons node rest ih =>
    obtain ⟨id,text,hid,htext,h⟩ := bind_bind_eq_ok.1 h
    obtain ⟨inputs,inputPorts,hinputs,hinputPorts,h⟩ := bind_bind_eq_ok.1 h
    obtain ⟨table₁,outputs,henter₁,houtputs,h⟩ := bind_bind_eq_ok.1 h
    obtain ⟨outputPorts,table₂,houtputPorts,henter₂,h⟩ := bind_bind_eq_ok.1 h
    obtain ⟨hcomplete,hfound,hmissing⟩ := ih h
    obtain ⟨written,rfl,rfl⟩ := squeezedId_eq_ok htext
    have hwritten : (Labels.of node).id=some (.str written) := item_eq_ok hid
    have hkey : (Labels.of node).key=some (squeeze written) := by
      rw [Labels.key,hwritten]
      rfl
    refine ⟨?_,?_,?_⟩
    · rw [map_cons,forall_mem_cons]
      exact ⟨⟨⟨written,hwritten⟩,none_notMem_of_enterPorts hinputs hinputPorts henter₁,
        none_notMem_of_enterPorts houtputs houtputPorts henter₂⟩,hcomplete⟩
    · intro key i hi
      rcases hfound hi with hold | ⟨j,l,hl,hij,hlkey⟩
      · rw [find_put] at hold
        split_ifs at hold with heq
        · cases hold
          exact .inr ⟨0,Labels.of node,rfl,rfl,heq ▸ hkey⟩
        · exact .inl hold
      · exact .inr ⟨j+1,l,hl,by omega,hlkey⟩
    · intro key hnone
      obtain ⟨hold,hrest⟩ := hmissing hnone
      rw [find_put] at hold
      split_ifs at hold with heq
      refine ⟨hold,?_⟩
      rw [map_cons,forall_mem_cons]
      refine ⟨fun hl => heq ?_,hrest⟩
      exact some.inj (hl.symm.trans hkey)

theorem indexed_of_indexNodes (h : indexNodes 0 empty empty nodes=.ok (index,ports)) :
    (∀ l∈nodes.map Labels.of, l.Complete) ∧ Indexed index (nodes.map Labels.of) := by
  obtain ⟨hcomplete,hfound,hmissing⟩ := indexNodes_eq_ok h
  refine ⟨hcomplete,fun hi => ?_,fun hnone => (hmissing hnone).2⟩
  rcases hfound hi with hempty | ⟨j,l,hl,rfl,hkey⟩
  · cases hempty
  · exact ⟨l,by rwa [Nat.zero_add],hkey⟩

open Classical in
noncomputable def into (ties : List Tie) (node port : Json) : List Tie :=
  ties.filter fun c => c.toNode=node ∧ c.toPort=port

open Classical in
noncomputable def outOf (ties : List Tie) (node port : Json) : List Tie :=
  ties.filter fun c => c.fromNode=node ∧ c.fromPort=port

/-- Connections made one after the other: an input notes the last one into it, an output lists all out of it. -/
structure TiedAll (nodes : List Json) (made : List Tie) (nodes' : List Json) : Prop where
  labels : nodes'.map Labels.of=nodes.map Labels.of
  sources : ∀ node port,
    sourceOf nodes' node port=((into made node port).getLast?.map Tie.source).or (sourceOf nodes node port)
  lists : ∀ node port, listOf nodes' node port=listOf nodes node port++(outOf made node port).map Tie.target

theorem TiedAll.refl (nodes : List Json) : TiedAll nodes [] nodes :=
  ⟨rfl,fun _ _ => by simp [into],fun _ _ => by simp [outOf]⟩

theorem TiedAll.cons {mid : List Json} {rest : List Tie} (hfirst : Tied nodes c mid) (hrest : TiedAll mid rest nodes') :
    TiedAll nodes (c::rest) nodes' := by
  refine ⟨hrest.labels.trans hfirst.labels,fun node port => ?_,fun node port => ?_⟩
  · rw [hrest.sources]
    by_cases h : c.toNode=node ∧ c.toPort=port
    · obtain ⟨rfl,rfl⟩ := h
      have hcons : into (c::rest) c.toNode c.toPort=c::into rest c.toNode c.toPort := by simp [into]
      rw [hfirst.source,hcons,getLast?_cons]
      cases (into rest c.toNode c.toPort).getLast? <;> rfl
    · have hcons : into (c::rest) node port=into rest node port := by simp [into,h]
      rw [hfirst.sources (fun h' => h ⟨h'.1.symm,h'.2.symm⟩),hcons]
  · rw [hrest.lists]
    by_cases h : c.fromNode=node ∧ c.fromPort=port
    · obtain ⟨rfl,rfl⟩ := h
      have hcons : outOf (c::rest) c.fromNode c.fromPort=c::outOf rest c.fromNode c.fromPort := by simp [outOf]
      rw [hfirst.list,hcons,map_cons,append_assoc,singleton_append]
    · have hcons : outOf (c::rest) node port=outOf rest node port := by simp [outOf,h]
      rw [hfirst.lists (fun h' => h ⟨h'.1.symm,h'.2.symm⟩),hcons]

/-- The connections that a list of instructions makes. -/
def tiesOf (graph : List Labels) (instructions : List Json) : List Tie := instructions.filterMap (tie? graph)

/-- Instructions that ask for what is there are carried out in order, the others are passed over. -/
theorem connectEach_tiedAll {number total : Nat} (hids : DistinctIds (nodes.map Labels.of))
    (hcomplete : ∀ l∈nodes.map Labels.of, l.Complete) (hindex : Indexed index (nodes.map Labels.of))
    (hrun : result (connectEach index number count nodes instructions) desk=(.ok (nodes',total),desk')) :
    total=count+(tiesOf (nodes.map Labels.of) instructions).length ∧
      TiedAll nodes (tiesOf (nodes.map Labels.of) instructions) nodes' := by
  induction instructions generalizing number count nodes desk with
  | nil =>
    cases hrun
    exact ⟨rfl,TiedAll.refl _⟩
  | cons instruction rest ih =>
    rw [connectEach,result_lift_bind_eq_ok] at hrun
    obtain ⟨sourceId,hsource,hrun⟩ := hrun
    rw [result_lift_bind_eq_ok] at hrun
    obtain ⟨targetId,htarget,hrun⟩ := hrun
    have hends := connect_ends hids hcomplete hindex (item_eq_ok hsource) (item_eq_ok htarget)
    rcases hconnect : result (connect index instruction sourceId targetId) nodes with ⟨f | _,mid⟩
    · rw [hconnect] at hends
      rw [result] at hconnect
      rw [hconnect] at hrun
      dsimp only at hrun
      split_ifs at hrun with hpass
      · obtain ⟨_,desk₁,-,hrun⟩ := result_bind_eq_ok.1 hrun
        obtain ⟨hnone,rfl⟩ := hends hpass
        have hties : tiesOf (mid.map Labels.of) (instruction::rest)=tiesOf (mid.map Labels.of) rest := by
          rw [tiesOf,filterMap_cons,hnone,tiesOf]
        rw [hties]
        exact ih hids hcomplete hindex hrun
      · cases hrun
    · rw [hconnect] at hends
      rw [result] at hconnect
      rw [hconnect] at hrun
      obtain ⟨_,desk₁,-,hrun⟩ := result_bind_eq_ok.1 hrun
      obtain ⟨c,hc,htied⟩ := hends
      have hties : tiesOf (nodes.map Labels.of) (instruction::rest)=c::tiesOf (nodes.map Labels.of) rest := by
        rw [tiesOf,filterMap_cons,hc,tiesOf]
      rw [← htied.labels] at hids hcomplete hindex
      obtain ⟨htotal,hall⟩ := ih hids hcomplete hindex hrun
      rw [htied.labels] at htotal hall
      rw [hties]
      exact ⟨by rw [htotal,length_cons]; omega,.cons htied hall⟩

theorem each_eq_itemsOf (hlist : graph.fieldOr "Nodes" (.arr [])=.ok list) (heach : list.each=.ok nodes)
    (hindex : indexNodes 0 empty empty nodes=.ok (index,ports)) : nodes=itemsOf "Nodes" graph := by
  -- Names of a record and characters of a text are no nodes, so there are none of them.
  have hempty : ∀ texts : List String, nodes=texts.map Json.str → nodes=[] := by
    rintro (_ | ⟨text,texts⟩) rfl
    · rfl
    · cases hindex
  unfold itemsOf
  cases hget : graph.get? "Nodes" with
  | none =>
    rw [fieldOr_eq_ok hlist,hget] at heach
    cases heach
    rfl
  | some v =>
    rw [fieldOr_eq_ok hlist,hget,getD_some] at heach
    cases v with
    | arr items =>
      cases heach
      rfl
    | obj fields =>
      cases heach
      exact hempty (fields.map (·.1)) (by simp)
    | str text =>
      cases heach
      exact hempty (text.toList.map (·.toString)) (by simp)
    | _ => cases heach

theorem itemsOf_withItems (hlength : nodes'.length=(itemsOf "Nodes" graph).length) :
    itemsOf "Nodes" (graph.update "Nodes" fun v => v.withItems nodes')=nodes' := by
  unfold itemsOf at hlength ⊢
  rw [get?_update,if_pos rfl]
  cases hget : graph.get? "Nodes" with
  | none =>
    rw [hget] at hlength
    exact (length_eq_zero_iff.1 hlength).symm
  | some v =>
    rw [hget] at hlength
    cases v with
    | arr items => rfl
    | _ => exact (length_eq_zero_iff.1 hlength).symm

/-- What is written when connections were made in a save. -/
theorem connectAll_tiedAll (hgraph : readableGraph desk.save=.ok (some (slot,graph)))
    (hids : DistinctIds ((itemsOf "Nodes" graph).map Labels.of))
    (hrun : result (connectAll (.arr instructions) name) desk=(.ok (some count),desk')) :
    ∃ graph', (∀ l∈(itemsOf "Nodes" graph).map Labels.of, l.Complete) ∧
      desk'.save=setText slot (Json.write Json.Style.spaced.unicode graph') desk.save ∧
      count=(tiesOf ((itemsOf "Nodes" graph).map Labels.of) instructions).length ∧
      TiedAll (itemsOf "Nodes" graph) (tiesOf ((itemsOf "Nodes" graph).map Labels.of) instructions)
        (itemsOf "Nodes" graph') := by
  rw [connectAll,result_bind_ok (result_getSave desk),hgraph,result_ok_bind] at hrun
  dsimp only at hrun
  split_ifs at hrun with hnull
  · cases hrun
  · replace ⟨list,hlist,hrun⟩ := result_lift_bind_eq_ok.1 hrun
    replace ⟨nodes,hnodes,hrun⟩ := result_lift_bind_eq_ok.1 hrun
    replace ⟨⟨index,ports⟩,hindex,hrun⟩ := result_lift_bind_eq_ok.1 hrun
    rw [hnodes,result_ok_bind] at hrun
    replace ⟨_,hinstructions,hrun⟩ := result_lift_bind_eq_ok.1 hrun
    cases hinstructions
    replace ⟨⟨nodes',total⟩,desk₁,heach,hrun⟩ := result_bind_eq_ok.1 hrun
    cases hrun
    obtain rfl := each_eq_itemsOf hlist hnodes hindex
    obtain ⟨hcomplete,hindexed⟩ := indexed_of_indexNodes hindex
    obtain ⟨htotal,hall⟩ := connectEach_tiedAll hids hcomplete hindexed heach
    have hlength : nodes'.length=(itemsOf "Nodes" graph).length := by
      simpa using congrArg List.length hall.labels
    refine ⟨_,hcomplete,rfl,by rw [htotal,Nat.zero_add],?_⟩
    rwa [itemsOf_withItems hlength]

end ChipForge.Save
