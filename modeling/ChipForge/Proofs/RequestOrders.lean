import ChipForge.Assembly.Plan
import ChipForge.Proofs.Ports

/-! A plan has one request for each node of the graph, in order, and then the variables without nodes. Every placement
stands for a request of its own, which asks for a module of the kind the placement names. -/
namespace ChipForge

namespace Assembly
open Wiring List Text

variable {index : Index} {p : Placement} {key : String} {kind : ChipKind} {requests : List Request} {node : Json}
  {c : VariableContext} {plan : Plan} {c' : VariableContext} {graph : Json}

/-- Requests that a node of a kind may stand for. -/
inductive Asks (kind : ChipKind) : Request→Prop
  | input {name : Json} (h : lower kind.friendlyName = "input") : Asks kind (.input name)
  | output {name : Json} (h : lower kind.friendlyName = "output") : Asks kind (.output name)
  | constant {name : Json} (h : lower kind.friendlyName = "constant") : Asks kind (.constant name)
  | stored {key gateType value : Json} (h : lower kind.friendlyName = "variable") :
    Asks kind (.variable key gateType value)
  | module (h : isSpecial (lower kind.friendlyName)=false) : Asks kind (.module kind.friendlyName)

def Notes (node : Json) (c : VariableContext) (request : Request) (c' : VariableContext) : Prop :=
  requestVariable c node=.ok (request,c') ∨ c'=c ∧ ∀ key gateType value, request≠.variable key gateType value

theorem requestSpecial_eq_ok {friendly : Option Json} {c' : Option VariableContext} {request : Request}
    (h : requestSpecial (lower kind.friendlyName) node friendly (some c)=.ok (request,c')) :
    Asks kind request ∧ Notes node c request (c'.getD c) := by
  unfold requestSpecial at h
  split_ifs at h with hinput houtput hconstant hvariable
  · obtain ⟨name,-,h⟩ := bind_eq_ok.1 h
    cases h
    exact ⟨.input (eq_of_beq hinput),.inr ⟨rfl,nofun⟩⟩
  · obtain ⟨name,-,h⟩ := bind_eq_ok.1 h
    cases h
    exact ⟨.output (eq_of_beq houtput),.inr ⟨rfl,nofun⟩⟩
  · obtain ⟨name,-,h⟩ := bind_eq_ok.1 h
    cases h
    exact ⟨.constant (eq_of_beq hconstant),.inr ⟨rfl,nofun⟩⟩
  · obtain ⟨⟨made,after⟩,hmade,h⟩ := bind_eq_ok.1 h
    cases h
    refine ⟨?_,.inl hmade⟩
    obtain ⟨id,⟨key,definition⟩,-,-,hmade⟩ := bind_bind_eq_ok.1 hmade
    -- The value is that of the definition for the first node and null for others.
    dsimp only at hmade
    split_ifs at hmade
    all_goals
      obtain ⟨value,gateType,-,-,hmade⟩ := bind_bind_eq_ok.1 hmade
      cases hmade
      exact .stored (eq_of_beq hvariable)

theorem requestOf_eq_ok {request : Request} (h : requestOf kind node c=.ok (request,c')) :
    Asks kind request ∧ Notes node c request c' := by
  simp only [requestOf] at h
  split_ifs at h with hspecial
  · obtain ⟨⟨made,after⟩,hmade,h⟩ := bind_eq_ok.1 h
    cases h
    exact requestSpecial_eq_ok hmade
  · cases h
    exact ⟨.module (Bool.eq_false_iff.2 hspecial),.inr ⟨rfl,nofun⟩⟩

theorem kindOf_mem (h : kindOf index node=.ok kind) : ∃ key, index.find key=some kind := by
  obtain ⟨type,word,-,-,h⟩ := bind_bind_eq_ok.1 h
  obtain ⟨found,-,h⟩ := bind_eq_ok.1 h
  cases hfound : found.bind index.find with
  | none =>
    rw [hfound] at h
    obtain ⟨id,-,h⟩ := bind_eq_ok.1 h
    cases h
  | some kind' =>
    rw [hfound] at h
    cases h
    obtain ⟨key,-,hkey⟩ := Option.bind_eq_some_iff.1 hfound
    exact ⟨key,hkey⟩

/-- A placement without id that stands for a request of its kind. -/
structure StandsFor (index : Index) (requests : List Request) (p : Placement) : Prop where
  newId : p.newId=.null
  asked : ∃ key kind request, index.find key=some kind ∧ requests[p.order]?=some request ∧
    p.gameName=kind.gameName ∧ p.friendlyName=kind.friendlyName ∧ Asks kind request

theorem StandsFor.request (h : StandsFor index requests p) :
    ∃ key kind request, index.find key=some kind ∧ requests[p.order]?=some request ∧ p.gameName=kind.gameName ∧
      Asks kind request := by
  obtain ⟨key,kind,request,hkind,hrequest,hname,-,hasks⟩ := h.asked
  exact ⟨key,kind,request,hkind,hrequest,hname,hasks⟩

theorem StandsFor.mono (h : StandsFor index requests p) (more : List Request) : StandsFor index (requests++more) p := by
  obtain ⟨key,kind,request,hkind,hrequest,hnames⟩ := h.asked
  refine ⟨h.newId,key,kind,request,hkind,?_,hnames⟩
  rw [List.getElem?_append_left (List.getElem?_eq_some_iff.1 hrequest).1,hrequest]

theorem StandsFor.order_lt (h : StandsFor index requests p) : p.order < requests.length := by
  obtain ⟨_,_,_,_,hrequest,_⟩ := h.asked
  exact (List.getElem?_eq_some_iff.1 hrequest).1

/-- A plan whose placements stand for requests of their own. -/
structure Plan.Ordered (index : Index) (plan : Plan) : Prop where
  keys : plan.placements.keys.Nodup
  orders : (plan.placements.toList.map (·.2.order)).Nodup
  stands : ∀ entry∈plan.placements.toList, StandsFor index plan.requests entry.2

theorem Plan.Ordered.place (h : plan.Ordered index) {request : Request} {id : String}
    (hplaced : StandsFor index (plan.requests++[request]) p) (horder : p.order=plan.requests.length) :
    Plan.Ordered index ⟨plan.requests++[request],plan.placements.put id p⟩ := by
  refine ⟨Table.nodup_keys_put h.keys id p,?_,?_⟩
  · refine Table.nodup_map_put h.orders fun hmem => ?_
    obtain ⟨entry,hentry,hsame⟩ := mem_map.1 hmem
    have hlt := (h.stands entry hentry).order_lt
    rw [show entry.2.order=p.order from hsame,horder] at hlt
    exact Nat.lt_irrefl _ hlt
  · intro entry hentry
    rcases Table.mem_put hentry with rfl | hentry
    · exact hplaced
    · exact (h.stands entry hentry).mono [request]

theorem planNodes_ordered {nodes : List Json} {plan' : Plan} (h : planNodes index plan c nodes=.ok (plan',c'))
    (hplan : plan.Ordered index) :
    plan'.Ordered index ∧ (∀ id∈plan.placements.keys, id∈plan'.placements.keys) ∧
      ∀ node∈nodes, ∃ id, nodeId node=.ok id ∧ id∈plan'.placements.keys := by
  induction nodes generalizing plan c with
  | nil =>
    cases h
    exact ⟨hplan,fun _ hid => hid,by simp⟩
  | cons node rest ih =>
    obtain ⟨kind,⟨request,c₁⟩,hkind,hrequest,h⟩ := bind_bind_eq_ok.1 h
    obtain ⟨id,hid,h⟩ := bind_eq_ok.1 h
    obtain ⟨key,hkey⟩ := kindOf_mem hkind
    let p : Placement :=
      ⟨kind.friendlyName,kind.gameName,plan.requests.length,.null,kind.opType,kind.modifiable,roleOf request⟩
    have hp : StandsFor index (plan.requests++[request]) p :=
      ⟨rfl,key,kind,request,hkey,by simp [p],rfl,rfl,(requestOf_eq_ok hrequest).1⟩
    obtain ⟨hordered,hkept,hnodes⟩ := ih h (hplan.place hp rfl)
    have hkeys : ∀ other, other=id ∨ other∈plan.placements.keys → other∈(plan.placements.put id p).keys := by
      intro other hother
      rw [← Table.find_isSome_iff,Table.find_put]
      split_ifs with hsame
      · rfl
      · exact (Table.find_isSome_iff _ _).2 (hother.resolve_left hsame)
    refine ⟨hordered,fun other hother => hkept other (hkeys other (.inr hother)),fun other hother => ?_⟩
    rcases mem_cons.1 hother with rfl | hother
    · exact ⟨id,hid,hkept id (hkeys id (.inl rfl))⟩
    · exact hnodes other hother

def graphNodes (graph : Json) : Except Failure (List Json) := do (← graph.item "nodes").each

def graphVariables (graph : Json) : Except Failure (List Json) := do ((← graph.field "variables").orElse (.arr [])).each

/-- The nodes of a graph are planned one by one, then what is left over. -/
theorem planOf_eq_ok (h : planOf graph index=.ok plan) :
    ∃ given definitions keys nodes planned c unused, graphVariables graph=.ok given ∧
      definitionsByKey Table.empty given=.ok definitions ∧ graphNodes graph=.ok nodes ∧
      planNodes index ⟨[],Table.empty⟩ ⟨definitions,keys,Table.empty,[]⟩ nodes=.ok (planned,c) ∧
      requestUnused c=.ok unused ∧ plan={ planned with requests := planned.requests++unused } := by
  obtain ⟨field,given,hfield,hgiven,h⟩ := bind_bind_eq_ok.1 h
  obtain ⟨definitions,names,hdefinitions,-,h⟩ := bind_bind_eq_ok.1 h
  obtain ⟨_,_,-,-,h⟩ := bind_bind_eq_ok.1 h
  obtain ⟨_,_,-,-,h⟩ := bind_bind_eq_ok.1 h
  obtain ⟨keys,list,-,hlist,h⟩ := bind_bind_eq_ok.1 h
  obtain ⟨nodes,⟨planned,c⟩,hnodes,hplanned,h⟩ := bind_bind_eq_ok.1 h
  obtain ⟨unused,hunused,h⟩ := bind_eq_ok.1 h
  cases h
  exact ⟨given,definitions,keys,nodes,planned,c,unused,bind_eq_ok.2 ⟨field,hfield,hgiven⟩,hdefinitions,
    bind_eq_ok.2 ⟨list,hlist,hnodes⟩,hplanned,hunused,rfl⟩

theorem Plan.Ordered.empty (index : Index) : Plan.Ordered index ⟨[],Table.empty⟩ :=
  ⟨nodup_nil,nodup_nil,by simp [Table.empty,Table.toList]⟩

/-- The placements of a plan stand for requests of their own, and every node of the graph has one. -/
theorem planOf_ordered (h : planOf graph index=.ok plan) :
    plan.Ordered index ∧ ∃ nodes, graphNodes graph=.ok nodes ∧
      ∀ node∈nodes, ∃ id, nodeId node=.ok id ∧ id∈plan.placements.keys := by
  obtain ⟨_,_,_,nodes,planned,_,unused,-,-,hnodes,hplanned,-,rfl⟩ := planOf_eq_ok h
  obtain ⟨hordered,-,hplaced⟩ := planNodes_ordered hplanned (.empty index)
  have hstands := fun entry hentry => (hordered.stands entry hentry).mono unused
  exact ⟨⟨hordered.keys,hordered.orders,hstands⟩,nodes,hnodes,hplaced⟩

end Assembly

end ChipForge
