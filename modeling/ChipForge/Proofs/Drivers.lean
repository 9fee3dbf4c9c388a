import ChipForge.Assembly.Connections
import ChipForge.Proofs.ScriptTargets

/-! Connections follow the wires of a graph one by one, so an input has two drivers exactly where two wires lead to one
node and to names of the same input. -/
namespace ChipForge.Assembly
open Script Wiring List

variable {index : Index} {placements : Table Placement} {cs : List Connection} {α β : Type} {items : List α}
  {edges : List Edge}

def Connection.target (c : Connection) : Json×Nat := (c.toNode,c.toPort)

def inputOf? (placements : Table Placement) (index : Index) (id port : String) : Option Nat := do
  let p ← placements.find id
  let kind ← index.find (Text.nameKey p.friendlyName)
  (resolvePort (.str port) kind.inputs).toOption

/-- A connection leads where its wire does. -/
def Follows (placements : Table Placement) (index : Index) (e : Edge) (c : Connection) : Prop :=
  ∃ p, placements.find e.toNode=some p ∧ c.toNode=p.newId ∧
    inputOf? placements index e.toNode e.toPort=some c.toPort

/-- Different nodes have different ids in the save. -/
def DistinctIds (placements : Table Placement) : Prop :=
  ∀ a b p q, placements.find a=some p → placements.find b=some q → p.newId=q.newId → a=b

theorem placeWire_eq_ok {wire friendly : Json} {r : Except Failure α} {a : α} (h : placeWire wire friendly r=.ok a) :
    r=.ok a := by
  unfold placeWire at h
  split at h
  · obtain ⟨_,-,h⟩ := bind_eq_ok.1 h
    cases h
  · exact h

theorem connectionOf_follows {e : Edge} {c : Connection}
    (h : connectionOf (Fittings.ofPlan placements index) e.toJson=.ok c) : Follows placements index e c := by
  have htoNode : e.toJson.item "to_node" = .ok (.str e.toNode) := rfl
  have htoPort : e.toJson.item "to_port" = .ok (.str e.toPort) := rfl
  obtain ⟨source,target,-,htarget,h⟩ := bind_bind_eq_ok.1 h
  obtain ⟨sourceKey,targetKey,-,hkey,h⟩ := bind_bind_eq_ok.1 h
  have hend : (Fittings.ofPlan placements index).wireEnd e.toNode=.ok target := by
    rw [findEnd,htoNode] at htarget
    exact htarget
  obtain ⟨p,hp,rfl⟩ : ∃ p, placements.find e.toNode=some p ∧ ⟨.str p.friendlyName,p.newId⟩=target := by
    simp only [Fittings.ofPlan] at hend
    split at hend
    · rename_i p hp
      exact ⟨p,hp,Except.ok.inj hend⟩
    · cases hend
  obtain rfl : Text.nameKey p.friendlyName=targetKey := Except.ok.inj hkey
  split at h
  · rename_i sourceChip targetChip _ hchip
    obtain ⟨fromPort,-,h⟩ := bind_eq_ok.1 h
    obtain ⟨toPort,hport,hc⟩ := bind_eq_ok.1 h
    obtain ⟨kind,hkind,rfl⟩ := Option.map_eq_some_iff.1 hchip
    obtain rfl := Except.ok.inj hc
    have hresolved : resolvePort (.str e.toPort) kind.inputs=.ok toPort := by
      have hwire := placeWire_eq_ok hport
      rw [htoPort] at hwire
      exact hwire
    refine ⟨p,hp,rfl,?_⟩
    rw [inputOf?,hp]
    show (index.find (Text.nameKey p.friendlyName)).bind _ = _
    rw [hkind]
    show (resolvePort (.str e.toPort) kind.inputs).toOption=_
    rw [hresolved]
    rfl
  · obtain ⟨_,-,h⟩ := bind_eq_ok.1 h
    cases h

/-- There is one connection for every wire, which leads where the wire does. -/
theorem connections_follow {g : Graph} {graph : Json} (hgraph : g.toJson?=some graph)
    (h : connections (Fittings.ofPlan placements index) graph=.ok cs) :
    Forall₂ (Follows placements index) g.edges cs := by
  obtain ⟨nodes,-,hgraph⟩ := Option.bind_eq_some_iff.1 hgraph
  obtain ⟨definitions,-,hgraph⟩ := Option.bind_eq_some_iff.1 hgraph
  cases hgraph
  obtain ⟨wires,items,hwires,hitems,h⟩ := bind_bind_eq_ok.1 h
  obtain rfl : .arr (g.edges.map Edge.toJson)=wires := Except.ok.inj hwires
  obtain rfl : g.edges.map Edge.toJson=items := Except.ok.inj hitems
  exact (List.forall₂_map_left_iff.1 (forall₂_of_mapM h)).imp fun e c hc => connectionOf_follows hc

theorem nodup_map_iff_of_forall₂ {γ δ : Type} {R : α→β→Prop} {f : α→γ} {k : β→δ}
    (hR : ∀ a a' b b', R a b→R a' b'→(f a=f a' ↔ k b=k b')) {out : List β} (h : Forall₂ R items out) :
    (items.map f).Nodup ↔ (out.map k).Nodup := by
  induction h with
  | nil => simp
  | @cons a b items out hab hrest ih =>
    have hmem : f a∈items.map f ↔ k b∈out.map k := by
      clear ih
      induction hrest with
      | nil => simp
      | @cons a' b' items out hab' _ ih =>
        rw [map_cons,map_cons,mem_cons,mem_cons,ih,hR a a' b b' hab hab']
    rw [map_cons,map_cons,nodup_cons,nodup_cons,hmem,ih]

/-- No input has two drivers exactly if no two wires lead to one node and to names of the same input. -/
theorem nodup_targets_iff (hids : DistinctIds placements) (h : Forall₂ (Follows placements index) edges cs) :
    (edges.map fun e => (e.toNode,inputOf? placements index e.toNode e.toPort)).Nodup ↔
      (cs.map Connection.target).Nodup := by
  refine nodup_map_iff_of_forall₂ ?_ h
  rintro e e' c c' ⟨p,hp,hnode,hport⟩ ⟨p',hp',hnode',hport'⟩
  simp only [Connection.target,Prod.mk.injEq,hnode,hnode',hport,hport',Option.some.injEq]
  refine and_congr_left fun _ => ⟨fun heq => ?_,hids _ _ _ _ hp hp'⟩
  rw [heq,hp'] at hp
  rw [Option.some.inj hp]

/-- The node and the number of the input that a target means. -/
def numbered? (placements : Table Placement) (index : Index) (target : String×String) : Option (String×Nat) :=
  (inputOf? placements index target.1 target.2).map fun n => (target.1,n)

theorem map_numbered_of_follows (h : Forall₂ (Follows placements index) edges cs) :
    (edges.map fun e => (e.toNode,inputOf? placements index e.toNode e.toPort)) =
      ((edges.map fun e => (e.toNode,e.toPort)).filterMap (numbered? placements index)).map (Prod.map id some) := by
  induction h with
  | nil => rfl
  | @cons e c edges cs hc _ ih =>
    obtain ⟨p,-,-,hport⟩ := hc
    have hnumber : numbered? placements index (e.toNode,e.toPort)=some (e.toNode,c.toPort) := by
      rw [numbered?,hport]
      rfl
    rw [map_cons,map_cons,filterMap_cons_some hnumber,map_cons,ih,hport]
    rfl

theorem Site.filterMap_numbered (placements : Table Placement) (index : Index) (site : Site) :
    site.targets.filterMap (numbered? placements index) =
      (site.ports.filterMap (inputOf? placements index site.id)).map (Prod.mk site.id) := by
  rw [Site.targets,filterMap_map,map_filterMap]
  rfl

/-- Where nodes have different ids and no node has two ports that mean one input, all targets differ. -/
theorem nodup_sites {sites : List Site} (hids : (sites.map (·.id)).Nodup)
    (hports : ∀ site∈sites, (site.ports.filterMap (inputOf? placements index site.id)).Nodup) :
    ((sites.flatMap Site.targets).filterMap (numbered? placements index)).Nodup := by
  rw [filterMap_flatMap,nodup_flatMap]
  constructor
  · intro site hsite
    rw [Site.filterMap_numbered]
    exact (hports site hsite).map fun _ _ h => (Prod.mk.inj h).2
  · refine (pairwise_map.1 hids).imp fun {first second} hne t hfirst hsecond => hne ?_
    simp only [Site.filterMap_numbered] at hfirst hsecond
    obtain ⟨_,-,rfl⟩ := mem_map.1 hfirst
    obtain ⟨_,-,hid⟩ := mem_map.1 hsecond
    exact (Prod.mk.inj hid).1.symm

theorem nodup_filterMap_of_subperm {f : α→Option β} {room : List α} (h : items.Subperm room)
    (hroom : (room.filterMap f).Nodup) : (items.filterMap f).Nodup := by
  obtain ⟨items',hperm,hsub⟩ := h
  exact (hperm.filterMap f).nodup_iff.1 ((hsub.filterMap f).nodup hroom)

/-- In the save of a compiled script whose nodes have different ids, an input has two drivers exactly if two wires lead to
one node and to names of the same input. The wires lead to the ports that nodes are made with, and to the variables that
inputs are fed into again. So no input has two drivers where these are different inputs, and in particular where no id is
asked for twice, no input is assigned to a name bound before, and no node can be made with two ports that mean one input. -/
theorem connections_targets_nodup {d : Dialect} {stmts : List Stmt} {g : Graph} {graph : Json}
    {placements : Table Placement} {index : Index} {cs : List Connection} (hg : graphOf d stmts = .ok g)
    (hgraph : g.toJson? = some graph) (hids : DistinctIds placements)
    (hrun : connections (Fittings.ofPlan placements index) graph = .ok cs) :
    ((cs.map Connection.target).Nodup ↔
      (g.edges.map fun e => (e.toNode, inputOf? placements index e.toNode e.toPort)).Nodup) ∧
    (∃ sites fed, g.Allotted stmts sites fed ∧
      (((sites.flatMap Site.targets ++ fed.flatMap feedTargets).filterMap (numbered? placements index)).Nodup →
        (cs.map Connection.target).Nodup)) ∧
    (g.ids.Nodup → refeedsAll [] (compiledOrder stmts) = 0 →
      (∀ node ∈ g.nodes, ∀ ports, Wirable (callsOfStmts stmts) node.type ports →
        (ports.filterMap (inputOf? placements index node.id)).Nodup) →
      (cs.map Connection.target).Nodup) := by
  have hfollow := connections_follow hgraph hrun
  have hiff := (nodup_targets_iff hids hfollow).symm
  obtain ⟨sites,fed,hallotted⟩ := graphOf_allotted hg
  have hroom : ((sites.flatMap Site.targets ++ fed.flatMap feedTargets).filterMap (numbered? placements index)).Nodup →
      (cs.map Connection.target).Nodup := by
    intro hroom
    rw [hiff,map_numbered_of_follows hfollow]
    refine (nodup_filterMap_of_subperm hallotted.targets hroom).map fun a b hab => ?_
    exact Prod.ext (Prod.mk.inj hab).1 (Option.some.inj (Prod.mk.inj hab).2)
  refine ⟨hiff,⟨sites,fed,hallotted,hroom⟩,fun hgraphIds hnone hclear => hroom ?_⟩
  obtain rfl : fed = [] := eq_nil_of_length_eq_zero (Nat.le_zero.1 (hnone ▸ hallotted.fedLength))
  rw [flatMap_nil,append_nil]
  have hpairs := hallotted.nodes
  refine nodup_sites ?_ fun site hsite => ?_
  · have hsiteIds : sites.map (·.id) = g.ids := by
      have := congrArg (List.map Prod.fst) hpairs
      simpa [map_map,Function.comp_def,Graph.ids] using this
    rw [hsiteIds]
    exact hgraphIds
  · have hmem : (site.id,site.type) ∈ g.nodes.map fun node => (node.id,node.type) :=
      hpairs ▸ mem_map_of_mem hsite
    obtain ⟨node,hnode,heq⟩ := mem_map.1 hmem
    obtain ⟨hid,htype⟩ := Prod.mk.inj heq
    rw [← hid]
    exact hclear node hnode site.ports (htype ▸ hallotted.wirable site hsite)

def withIds (placements : Table Placement) (ids : String→Json) : Table Placement :=
  placements.toList.map fun entry => (entry.1,{ entry.2 with newId := ids entry.1 })

theorem distinctIds_withIds (placements : Table Placement) {ids : String→Json} (hids : Function.Injective ids) :
    DistinctIds (withIds placements ids) := by
  have hfind : ∀ (entries : List (String×Placement)) (id : String) (p : Placement),
      Table.find (entries.map fun entry => (entry.1,{ entry.2 with newId := ids entry.1 })) id=some p →
        p.newId=ids id := by
    intro entries id p hp
    induction entries with
    | nil => cases hp
    | cons entry rest ih =>
      rw [map_cons,Table.find_cons] at hp
      split_ifs at hp with heq
      · rw [← Option.some.inj hp,heq]
      · exact ih hp
  intro a b p q hp hq heq
  rw [hfind placements a p hp,hfind placements b q hq] at heq
  exact hids heq

def arithmeticIndex : Index :=
  [("add",⟨some "Add","Add",.str "AddNode",[.str "A",.str "B"],[.str "Result"],true⟩),
    ("subtract",⟨some "Subtract","Subtract",.str "SubtractNode",[.str "A",.str "B"],[.str "Result"],true⟩),
    ("input",Index.inputKind),("output",Index.outputKind),("constant",Index.constantKind),
    ("variable",Index.variableKind)]

def arithmeticScript : List Stmt :=
  [.assign 1 [.name "a"] (.call 1 (.name "INPUT") [.const (.str "A" false),.const (.str "Number" false)] []),
    .assign 2 [.name "b"] (.call 2 (.name "Add") [.name "a"] [.mk (some "B") (.const (.int 2))]),
    .assign 3 [.name "c"] (.binary (.name "b") .sub (.name "a")),
    .expr 4 (.call 4 (.name "OUTPUT") [.name "c",.const (.str "C" false)] [])]

def arithmeticPorts : List (String×List String) :=
  [("INPUT",[]),("Add",["0","B"]),("Add",["A","B"]),("Constant",[]),("Subtract",["A","B"]),("OUTPUT",["0"])]

theorem mem_arithmeticPorts {type : String} {ports : List String} (h : Wirable (callsOfStmts arithmeticScript) type ports)
    (htype : type∈["INPUT","Add","Constant","Subtract","OUTPUT"]) : (type,ports)∈arithmeticPorts := by
  unfold arithmeticPorts
  cases h with
  | constant | declared | write | choice | negation | opposite => simp at htype ⊢
  | operator h => cases ‹BinaryOp› <;> cases h <;> simp at htype ⊢
  | comparison h => cases ‹CompareOp› <;> cases h <;> simp at htype ⊢
  | logic op => cases op <;> simp [logicModule] at htype
  | function h =>
    have hmodule := Form.find?_module _ h
    simp only [mem_cons,not_mem_nil,or_false] at htype
    rcases htype with heq | heq | heq | heq | heq <;> rw [heq] at hmodule <;> exact absurd hmodule (by decide +kernel)
  | call h hform =>
    have hcalls : callsOfStmts arithmeticScript =
        [.call 1 (.name "INPUT") [.const (.str "A" false),.const (.str "Number" false)] [],
          .call 2 (.name "Add") [.name "a"] [.mk (some "B") (.const (.int 2))],
          .call 4 (.name "OUTPUT") [.name "c",.const (.str "C" false)] []] := by
      simp [arithmeticScript,callsOfStmts,Stmt.calls,Expr.calls,callsIn,callsInKeywords]
    simp only [hcalls,mem_cons,Expr.call.injEq,not_mem_nil,or_false] at h
    rcases h with ⟨-,rfl,rfl,rfl⟩ | ⟨-,rfl,rfl,rfl⟩ | ⟨-,rfl,rfl,rfl⟩ <;> decide +kernel

def assembled? (stmts : List Stmt) (index : Index) : Option (Graph×Json×Plan×List Connection) := do
  let g ← (graphOf (.full []) stmts).toOption
  let graph ← g.toJson?
  let plan ← (planOf graph index).toOption
  let cs ← (connections (Fittings.ofPlan (withIds plan.placements .str) index) graph).toOption
  pure (g,graph,plan,cs)

theorem exists_of_assembled {stmts : List Stmt} {f : Graph×Json×Plan×List Connection→β} {b : β}
    (h : (assembled? stmts index).map f=some b) :
    ∃ g graph plan cs, graphOf (.full []) stmts=.ok g ∧ g.toJson?=some graph ∧ planOf graph index=.ok plan ∧
      connections (Fittings.ofPlan (withIds plan.placements .str) index) graph=.ok cs ∧ f (g,graph,plan,cs)=b := by
  have hok : ∀ {ε α : Type} {x : Except ε α} {a : α}, x.toOption=some a → x=.ok a := by
    intro ε α x a hx
    cases x with
    | error e => cases hx
    | ok a' => rw [Option.some.inj hx]
  obtain ⟨result,hresult,hf⟩ := Option.map_eq_some_iff.1 h
  obtain ⟨g,hg,hresult⟩ := Option.bind_eq_some_iff.1 hresult
  obtain ⟨graph,hgraph,hresult⟩ := Option.bind_eq_some_iff.1 hresult
  obtain ⟨plan,hplan,hresult⟩ := Option.bind_eq_some_iff.1 hresult
  obtain ⟨cs,hcs,hresult⟩ := Option.bind_eq_some_iff.1 hresult
  cases hresult
  exact ⟨g,graph,plan,cs,hok hg,hgraph,hok hplan,hok hcs,hf⟩

theorem connections_targets_nodup_arithmetic : ∃ g graph plan cs, graphOf (.full []) arithmeticScript = .ok g ∧
    g.toJson? = some graph ∧ planOf graph arithmeticIndex = .ok plan ∧
    connections (Fittings.ofPlan (withIds plan.placements .str) arithmeticIndex) graph = .ok cs ∧
    cs.map (·.toPort) = [0, 1, 0, 1, 0] ∧ (cs.map Connection.target).Nodup := by
  have hrun : ((assembled? arithmeticScript arithmeticIndex).map fun (g,_,plan,cs) =>
      (g.nodes.map (fun node => (node.id,node.type)),cs.map (·.toPort),decide (∀ node ∈ g.nodes, ∀ entry ∈ arithmeticPorts,
        entry.1 = node.type →
          (entry.2.filterMap (inputOf? (withIds plan.placements .str) arithmeticIndex node.id)).Nodup))) =
      some ([("input_0","INPUT"),("add_0","Add"),("constant_0","Constant"),("subtract_0","Subtract"),
        ("output_0","OUTPUT")],[0,1,0,1,0],true) := by decide +kernel
  obtain ⟨g,graph,plan,cs,hg,hgraph,hplan,hcs,hrun⟩ := exists_of_assembled hrun
  simp only [Prod.mk.injEq,decide_eq_true_eq] at hrun
  obtain ⟨hnodes,hports,hclear⟩ := hrun
  have hdistinct := distinctIds_withIds plan.placements (fun a b h => Json.str.inj h : Function.Injective Json.str)
  refine ⟨g,graph,plan,cs,hg,hgraph,hplan,hcs,hports,?_⟩
  refine (connections_targets_nodup hg hgraph hdistinct hcs).2.2 ?_ (by decide +kernel) fun node hnode ports hwirable => ?_
  · have hids : g.ids = ["input_0","add_0","constant_0","subtract_0","output_0"] := by
      simpa [Graph.ids,Function.comp_def] using congrArg (List.map Prod.fst) hnodes
    rw [hids]
    decide
  · have htypes : g.nodes.map (·.type) = ["INPUT","Add","Constant","Subtract","OUTPUT"] := by
      simpa [Function.comp_def] using congrArg (List.map Prod.snd) hnodes
    exact hclear node hnode _ (mem_arithmeticPorts hwirable (htypes ▸ mem_map_of_mem hnode)) rfl

def fedTwiceScript : List Stmt :=
  [.declare 1 (.name "x") (.name "Number") (some (.const (.int 0))),
    .assign 2 [.name "x"] (.call 2 (.name "INPUT") [.const (.str "a" false),.const (.str "Number" false)] []),
    .assign 3 [.name "x"] (.call 3 (.name "INPUT") [.const (.str "b" false),.const (.str "Number" false)] [])]

theorem fedTwice_two_drivers : ∃ g graph plan cs, graphOf (.full []) fedTwiceScript = .ok g ∧ g.ids.Nodup ∧
    g.toJson? = some graph ∧ planOf graph arithmeticIndex = .ok plan ∧ DistinctIds (withIds plan.placements .str) ∧
    connections (Fittings.ofPlan (withIds plan.placements .str) arithmeticIndex) graph = .ok cs ∧
    ¬(cs.map Connection.target).Nodup := by
  have hrun : ((assembled? fedTwiceScript arithmeticIndex).map fun (g,_,plan,_) => (decide g.ids.Nodup,decide
      (g.edges.map fun e => (e.toNode,inputOf? (withIds plan.placements .str) arithmeticIndex e.toNode e.toPort)).Nodup)) =
      some (true,false) := by decide +kernel
  obtain ⟨g,graph,plan,cs,hg,hgraph,hplan,hcs,hrun⟩ := exists_of_assembled hrun
  obtain ⟨hids,hrepeated⟩ := Prod.mk.inj hrun
  have hdistinct := distinctIds_withIds plan.placements (fun a b h => Json.str.inj h : Function.Injective Json.str)
  refine ⟨g,graph,plan,cs,hg,of_decide_eq_true hids,hgraph,hplan,hdistinct,hcs,?_⟩
  rw [← nodup_targets_iff hdistinct (connections_follow hgraph hcs)]
  exact of_decide_eq_false hrepeated

end ChipForge.Assembly
