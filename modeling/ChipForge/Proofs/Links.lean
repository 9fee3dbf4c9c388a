import ChipForge.Proofs.Connecting
import Mathlib.Data.List.Count

/-! Both ends of a link note it: an input the output that feeds it, an output the inputs it feeds. The two agree after a
run of connections where every connection goes to an input that was free. -/
namespace ChipForge.Save
open Json
open List hiding lookup insert

variable {nodes : List Json}

def Names (note port node : Json) : Prop := note.get? "Id" = some port ∧ note.get? "NodeId" = some node

/-- An input notes that an output feeds it. -/
def Fed (nodes : List Json) (node port fromNode fromPort : Json) : Prop :=
  ∃ note, sourceOf nodes node port=some note ∧ Names note fromPort fromNode

open Classical in
/-- How often an output lists an input. -/
noncomputable def timesListed (nodes : List Json) (fromNode fromPort node port : Json) : Nat :=
  (listOf nodes fromNode fromPort).countP fun note => Names note port node

/-- An input notes an output exactly if the output lists the input once. -/
def LinkConsistent (nodes : List Json) : Prop :=
  ∀ node port fromNode fromPort,
    Fed nodes node port fromNode fromPort ↔ timesListed nodes fromNode fromPort node port=1

/-- The ends of all links agree, and no output lists an input twice. -/
structure Tidy (nodes : List Json) : Prop where
  consistent : LinkConsistent nodes
  once : ∀ fromNode fromPort node port, timesListed nodes fromNode fromPort node port≤1

/-- Every connection goes to an input that no output lists, and no two go to the same input. -/
structure Fresh (nodes : List Json) (made : List Tie) : Prop where
  free : ∀ c∈made, ∀ fromNode fromPort, timesListed nodes fromNode fromPort c.toNode c.toPort=0
  apart : (made.map fun c => (c.toNode,c.toPort)).Nodup

theorem Tie.names_source (c : Tie) (port node : Json) : Names c.source port node ↔ c.fromNode=node ∧ c.fromPort=port := by
  simp [Names,Tie.source,get?,lookup,and_comm]

theorem Tie.names_target (c : Tie) (port node : Json) : Names c.target port node ↔ c.toNode=node ∧ c.toPort=port := by
  simp [Names,Tie.target,get?,lookup,and_comm]

section TiedAll
open Classical
variable {nodes nodes' : List Json} {made : List Tie} {node port : Json}

/-- An output lists an input once more for each connection made between them. -/
theorem TiedAll.timesListed_eq (h : TiedAll nodes made nodes') (fromNode fromPort node port : Json) :
    timesListed nodes' fromNode fromPort node port =
      timesListed nodes fromNode fromPort node port+made.count ⟨fromNode,fromPort,node,port⟩ := by
  rw [timesListed,h.lists,countP_append,countP_map,outOf,countP_filter,List.count,timesListed]
  congr 1
  refine countP_congr fun c _ => ?_
  obtain ⟨m,o,n,p⟩ := c
  simp only [Function.comp_apply,Tie.names_target,Bool.and_eq_true,decide_eq_true_eq,beq_iff_eq,Tie.mk.injEq]
  tauto

/-- An input is fed by the connection made last into it, or as before. -/
theorem TiedAll.fed_iff (h : TiedAll nodes made nodes') (node port fromNode fromPort : Json) :
    Fed nodes' node port fromNode fromPort ↔
      match (into made node port).getLast? with
      | some c => c.fromNode=fromNode ∧ c.fromPort=fromPort
      | none => Fed nodes node port fromNode fromPort := by
  rw [Fed,h.sources]
  cases (into made node port).getLast? with
  | none => rfl
  | some c => simp [Tie.names_source]

theorem mem_of_getLast?_into {c : Tie} (h : (into made node port).getLast?=some c) :
    c∈made ∧ c.toNode=node ∧ c.toPort=port := by
  have hmem := mem_filter.1 (mem_of_getLast? h)
  exact ⟨hmem.1,by simpa using hmem.2⟩

theorem notMem_of_getLast?_into (h : (into made node port).getLast?=none) (fromNode fromPort : Json) :
    (⟨fromNode,fromPort,node,port⟩ : Tie)∉made := by
  intro hmem
  have hinto : (⟨fromNode,fromPort,node,port⟩ : Tie)∈into made node port := mem_filter.2 ⟨hmem,by simp⟩
  rw [getLast?_eq_none_iff.1 h] at hinto
  cases hinto

/-- Where all connections go to inputs that were free, the ends of links still agree. -/
theorem TiedAll.linkConsistent (h : TiedAll nodes made nodes') (hfresh : Fresh nodes made) (hnodes : LinkConsistent nodes) :
    LinkConsistent nodes' := by
  intro node port fromNode fromPort
  have hfed := h.fed_iff node port fromNode fromPort
  rw [hfed,h.timesListed_eq]
  cases hlast : (into made node port).getLast? with
  | none =>
    rw [count_eq_zero_of_not_mem (notMem_of_getLast?_into hlast fromNode fromPort),Nat.add_zero]
    exact hnodes node port fromNode fromPort
  | some c =>
    obtain ⟨hc,rfl,rfl⟩ := mem_of_getLast?_into hlast
    rw [hfresh.free c hc,Nat.zero_add]
    constructor
    · rintro ⟨rfl,rfl⟩
      exact count_eq_one_of_mem hfresh.apart.of_map hc
    · intro hone
      have hmem : (⟨fromNode,fromPort,c.toNode,c.toPort⟩ : Tie)∈made :=
        count_pos_iff.1 (by rw [hone]; exact Nat.one_pos)
      have heq := inj_on_of_nodup_map hfresh.apart hmem hc rfl
      rw [← heq]
      exact ⟨rfl,rfl⟩

theorem TiedAll.tidy (h : TiedAll nodes made nodes') (hfresh : Fresh nodes made) (hnodes : Tidy nodes) : Tidy nodes' := by
  refine ⟨h.linkConsistent hfresh hnodes.consistent,fun fromNode fromPort node port => ?_⟩
  rw [h.timesListed_eq]
  by_cases hmem : (⟨fromNode,fromPort,node,port⟩ : Tie)∈made
  · rw [hfresh.free _ hmem,Nat.zero_add]
    exact nodup_iff_count_le_one.1 hfresh.apart.of_map _
  · rw [count_eq_zero_of_not_mem hmem]
    exact hnodes.once fromNode fromPort node port

theorem Tidy.unique (h : Tidy nodes) {m o m' o' : Json} (hfirst : 0 < timesListed nodes m o node port)
    (hsecond : 0 < timesListed nodes m' o' node port) : m=m' ∧ o=o' := by
  have hfed : ∀ {m o}, 0 < timesListed nodes m o node port→Fed nodes node port m o := fun {m o} hpos =>
    (h.consistent node port m o).2 (Nat.le_antisymm (h.once m o node port) hpos)
  obtain ⟨note,hnote,hport,hnode⟩ := hfed hfirst
  obtain ⟨note',hnote',hport',hnode'⟩ := hfed hsecond
  cases hnote.symm.trans hnote'
  exact ⟨Option.some.inj (hnode.symm.trans hnode'),Option.some.inj (hport.symm.trans hport')⟩

/-- A tidy result shows that all connections went to free inputs. -/
theorem TiedAll.fresh (h : TiedAll nodes made nodes') (htidy : Tidy nodes') : Fresh nodes made := by
  have htimes : ∀ c : Tie, timesListed nodes' c.fromNode c.fromPort c.toNode c.toPort =
      timesListed nodes c.fromNode c.fromPort c.toNode c.toPort+made.count c :=
    fun c => h.timesListed_eq c.fromNode c.fromPort c.toNode c.toPort
  have hlisted : ∀ c∈made, 0 < timesListed nodes' c.fromNode c.fromPort c.toNode c.toPort := by
    intro c hc
    rw [htimes]
    exact Nat.lt_of_lt_of_le (count_pos_iff.2 hc) (Nat.le_add_left _ _)
  refine ⟨fun c hc fromNode fromPort => ?_,?_⟩
  · by_contra hne
    have hpos : 0 < timesListed nodes' fromNode fromPort c.toNode c.toPort := by
      rw [h.timesListed_eq]
      omega
    obtain ⟨rfl,rfl⟩ := htidy.unique hpos (hlisted c hc)
    have hcount : 0 < made.count c := count_pos_iff.2 hc
    have honce := htidy.once c.fromNode c.fromPort c.toNode c.toPort
    rw [htimes] at honce
    omega
  · have hnodup : made.Nodup := by
      refine nodup_iff_count_le_one.2 fun c => ?_
      have honce := htidy.once c.fromNode c.fromPort c.toNode c.toPort
      rw [htimes] at honce
      omega
    refine hnodup.map_on fun c hc c' hc' hsame => ?_
    obtain ⟨hnode,hport⟩ := Prod.mk.inj hsame
    have hpos := hlisted c' hc'
    rw [← hnode,← hport] at hpos
    obtain ⟨hfromNode,hfromPort⟩ := htidy.unique (hlisted c hc) hpos
    obtain ⟨m,o,n,p⟩ := c
    obtain ⟨m',o',n',p'⟩ := c'
    rw [Tie.mk.injEq]
    exact ⟨hfromNode,hfromPort,hnode,hport⟩

end TiedAll

def pairNodes : List Json :=
  [.obj [("Id",.str "A : 1"),("Outputs",.arr [.obj [("Id",.str "o")]])],
    .obj [("Id",.str "B : 2"),("Inputs",.arr [.obj [("Id",.str "i")]])]]

def pairText : String :=
  "\x7b\"Nodes\": [\x7b\"Id\": \"A : 1\", \"Outputs\": [\x7b\"Id\": \"o\"\x7d]\x7d, " ++
    "\x7b\"Id\": \"B : 2\", \"Inputs\": [\x7b\"Id\": \"i\"\x7d]\x7d]\x7d"

def pairDesk : Desk :=
  ⟨.obj [("saveObjectContainers",.arr [.obj [("saveObjects",.obj [("saveMetaDatas",
    .arr [.obj [("key",.str "chip_graph"),("stringValue",.str pairText)]])])]])],fun _ => "",0,[]⟩

def pairTie : Tie := ⟨.str "A : 1",.str "o",.str "B : 2",.str "i"⟩

theorem readableGraph_pair : readableGraph pairDesk.save=.ok (some (⟨0,0⟩,.obj [("Nodes",.arr pairNodes)])) := by cbv

theorem distinctIds_pair : DistinctIds ((itemsOf "Nodes" (.obj [("Nodes",.arr pairNodes)])).map Labels.of) :=
  ⟨by decide +kernel,by simp [itemsOf,get?,lookup,pairNodes,Labels.of],
    by simp [itemsOf,get?,lookup,pairNodes,Labels.of]⟩

end ChipForge.Save
