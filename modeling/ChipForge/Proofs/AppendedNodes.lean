import ChipForge.Proofs.SharedGraph
import Mathlib.Data.Set.Function
import Mathlib.Order.Interval.Set.Defs

/-! What a run adds to the graph comes after the nodes there were, in the order of the requests and under different ids.
The lists of the ends grow by one entry for each end that was asked for. -/
namespace ChipForge.Save
open Json Wiring
open List hiding lookup insert

variable {threshold : Option Text.Similarity.Threshold} {catalogue request : Json} {requests : List Json} {desk desk' : Desk}
  {side : Side} {supply : Nat→String}

/-- Ids of a part of a supply differ and are equally long, as uuids do. -/
structure Uuids (supply : Nat→String) (low high : Nat) : Prop where
  distinct : Set.InjOn supply (Set.Ico low high)
  length : ∀ m∈Set.Ico low high, ∀ n∈Set.Ico low high, (supply m).length=(supply n).length

theorem Uuids.mono {low low' high : Nat} (h : Uuids supply low high) (hlow : low ≤ low') : Uuids supply low' high := by
  have hsub : Set.Ico low' high ⊆ Set.Ico low high := fun n hn => ⟨Nat.le_trans hlow hn.1,hn.2⟩
  exact ⟨h.distinct.mono hsub,fun m hm n hn => h.length m (hsub hm) n (hsub hn)⟩

theorem Uuids.eq_of_append {low high m n : Nat} {first first' : String} (h : Uuids supply low high)
    (hm : m∈Set.Ico low high) (hn : n∈Set.Ico low high) (heq : first++supply m=first'++supply n) : m=n := by
  have hlists : first.toList++(supply m).toList=first'.toList++(supply n).toList := by
    rw [← String.toList_append,← String.toList_append,heq]
  have hlength : (supply m).toList.length=(supply n).toList.length := by
    rw [String.length_toList,String.length_toList,h.length m hm n hn]
  exact h.distinct hm hn (String.toList_inj.1 (append_inj_right' hlists hlength))

namespace Carries

variable {supply : Nat→String} {schema : Schema} {low high : Nat} {nodes nodes' : Json} {tasks : List (Option Task)}
  {pieces : List (Option Piece)}

theorem le (h : Carries supply schema low nodes tasks pieces nodes' high) : low ≤ high := by
  induction h with
  | nil hbounds => exact hbounds
  | pass _ ih => exact ih
  | skip _ _ ih => exact ih
  | make _ hlow _ _ ih => omega

theorem drawn_mem {p : Piece} (h : Carries supply schema low nodes tasks pieces nodes' high) (hp : p∈pieces.reduceOption) :
    p.draw∈Set.Ico low high ∧ p.node.id=p.className.plain ++ " : " ++ supply p.draw := by
  induction h with
  | nil => cases hp
  | pass _ ih => exact ih hp
  | skip _ _ ih => exact ih hp
  | make hmakes hlow _ hrest ih =>
    rw [reduceOption_cons_of_some] at hp
    rcases mem_cons.1 hp with rfl | hp
    · exact ⟨⟨hlow,hrest.le⟩,hmakes.id⟩
    · obtain ⟨⟨hlower,hupper⟩,hid⟩ := ih hp
      exact ⟨⟨by omega,hupper⟩,hid⟩

/-- Each node is made under an id that was drawn after those of the nodes before, so ids differ. -/
theorem nodup_ids (h : Carries supply schema low nodes tasks pieces nodes' high) (huuids : Uuids supply low high) :
    (pieces.reduceOption.map (·.node.id)).Nodup := by
  induction h with
  | nil => exact nodup_nil
  | pass _ ih => exact ih huuids
  | skip _ _ ih => exact ih huuids
  | @make low high _ _ _ _ p _ _ hmakes hlow _ hrest ih =>
    have hlater : low ≤ p.draw+1 := by omega
    rw [reduceOption_cons_of_some,map_cons]
    refine nodup_cons.2 ⟨fun hmem => ?_,ih (huuids.mono hlater)⟩
    obtain ⟨q,hq,hsame⟩ := mem_map.1 hmem
    obtain ⟨⟨hlower,hupper⟩,hid⟩ := hrest.drawn_mem hq
    rw [hid,hmakes.id] at hsame
    have hdraw : q.draw=p.draw := huuids.eq_of_append ⟨by omega,hupper⟩ ⟨hlow,hrest.le⟩ hsame
    omega

end Carries

def Wish.task? : Wish→Option Task
  | .input name type => some (.input name type)
  | .output name type => some (.output name type)
  | .constant type => some (.constant type)
  | .variable key gateType value => some (.variable key gateType value)
  | _ => none

/-- The task that a request spells out. -/
def spelled? (request : Json) : Option Task :=
  match readWish? request with
  | .ok (some wish) => wish.task?
  | _ => none

def asks (kind : Task→Bool) (request : Json) : Bool := (spelled? request).any kind

theorem spelled?_cases {task : Option Task} (h : requestTask threshold catalogue request=.ok task) :
    spelled? request=task ∨ spelled? request=none ∧ ∃ id info, task=some (.module id info) := by
  obtain ⟨entries,names,-,-,h⟩ := bind_bind_eq_ok.1 h
  obtain ⟨wish,hwish,h⟩ := bind_eq_ok.1 h
  rw [spelled?,hwish]
  cases wish with
  | none =>
    cases h
    exact .inl rfl
  | some wish =>
    cases wish with
    | named text =>
      obtain ⟨found,-,h⟩ := bind_eq_ok.1 h
      cases found with
      | none =>
        cases h
        exact .inl rfl
      | some id =>
        obtain ⟨info,-,h⟩ := bind_eq_ok.1 h
        cases h
        exact .inr ⟨rfl,id,info,rfl⟩
    | _ =>
      cases h
      exact .inl rfl

section
variable {kind : Task→Bool} (hkind : ∀ id info, kind (.module id info)=false)
include hkind

theorem asks_eq {task : Option Task} (h : requestTask threshold catalogue request=.ok task) :
    asks kind request=task.any kind := by
  rcases spelled?_cases h with hsame | ⟨hnone,id,info,rfl⟩
  · rw [asks,hsame]
  · rw [asks,hnone,Option.any_none,Option.any_some,hkind]

theorem any_asks {tasks : List (Option Task)}
    (h : Forall₂ (fun request task => requestTask threshold catalogue request=.ok task) requests tasks) :
    requests.any (asks kind)=tasks.reduceOption.any kind := by
  induction h with
  | nil => rfl
  | @cons request task _ _ htask _ ih =>
    rw [any_cons,asks_eq hkind htask,ih]
    cases task <;> rfl

end

theorem Side.isEnd_module (side : Side) (id : String) (info : Json) : side.isEnd (.module id info)=false := by
  cases side <;> rfl

/-- An entry and a node of one key and one type. -/
structure Matches (entry node : Json) : Prop where
  key : ∃ key, entry.get? "Key" = some (.str key) ∧ node.get? "MechanicConnectionId" = some (.str key)
  type : ∃ type, entry.get? "GateDataType" = some type ∧ node.get? "GateDataType" = some type

theorem Makes.matches {schema : Schema} {nodes name : Json} {t : Task} {p : Piece} (h : Makes supply schema nodes t p)
    (hname : side.name? t=some name) : Matches (endRecord name p.node) p.record := by
  obtain ⟨key,hkey⟩ : ∃ key, p.node.connection=.str key := by
    cases side with
    | input =>
      cases t with
      | input => exact h.linked
      | _ => cases hname
    | output =>
      cases t with
      | output => exact h.linked
      | _ => cases hname
  refine ⟨⟨key,congrArg some hkey,h.recorded.connection.trans (congrArg some hkey)⟩,p.node.type,rfl,h.recorded.shows.type⟩

/-- What the first container lists on a side after a run: what it listed before, and one entry for each request for such an
end, which matches the node made for it. Without such requests nothing changes. -/
def EndsAppended (side : Side) (save : Json) (requests : List Json) (made : List (Option Json)) (save' : Json) : Prop :=
  if requests.any (asks side.isEnd) then ∃ old new, ∃ entries nodes : List Json, ReadsList save side.listName old ∧
    HoldsList save' side.listName new ∧ Extends old entries new ∧
    ((requests.zip made).filter fun pair => asks side.isEnd pair.1).map (·.2)=nodes.map some ∧
    Forall₂ Matches entries nodes
  else Spares side.listName save save'

theorem isEnd_eq_false {task : Option Task} (h : task.elim (.ok none) taskClass=.ok none) :
    task.any side.isEnd=false := by
  cases task with
  | none => rfl
  | some t =>
    cases t with
    | input | output | constant => cases h
    | _ => cases side <;> rfl

theorem entered_matches (side : Side) {tasks : List (Option Task)} {pieces : List (Option Piece)}
    {supply : Nat→String} {schema : Schema}
    (hasked : Forall₂ (fun request task => requestTask threshold catalogue request=.ok task) requests tasks)
    (hmade : Forall₂ (fun task piece => (task.elim (.ok none) taskClass=.ok none ∧ piece=none) ∨ ∃ t p before, task=some t ∧ piece=some p ∧ Makes supply schema before t p) tasks pieces) :
    ∃ nodes : List Json, ((requests.zip (pieces.map (Option.map Piece.record))).filter fun pair =>
        asks side.isEnd pair.1).map (·.2)=nodes.map some ∧
      Forall₂ Matches (side.entered tasks pieces) nodes := by
  induction hasked generalizing pieces with
  | nil =>
    cases hmade
    exact ⟨[],rfl,.nil⟩
  | @cons request task requests tasks htask _ ih =>
    cases hmade with
    | @cons _ piece _ pieces hpiece hmade =>
      obtain ⟨nodes,hnodes,hmatches⟩ := ih hmade
      have hasks := asks_eq side.isEnd_module htask
      rcases hpiece with ⟨hclass,rfl⟩ | ⟨t,p,before,rfl,rfl,hmakes⟩
      · rw [isEnd_eq_false hclass] at hasks
        refine ⟨nodes,?_,?_⟩
        · rw [map_cons,zip_cons_cons,filter_cons,hasks,if_neg Bool.false_ne_true,hnodes]
        · cases task <;> exact hmatches
      · cases hname : side.name? t with
        | none =>
          rw [Option.any_some,Side.isEnd,hname,Option.isSome_none] at hasks
          refine ⟨nodes,?_,?_⟩
          · rw [map_cons,zip_cons_cons,filter_cons,hasks,if_neg Bool.false_ne_true,hnodes]
          · rw [Side.entered,zipWith_cons_cons,Side.entries,hname]
            exact hmatches
        | some name =>
          rw [Option.any_some,Side.isEnd,hname,Option.isSome_some] at hasks
          refine ⟨p.record::nodes,?_,?_⟩
          · rw [map_cons,zip_cons_cons,filter_cons,hasks,if_pos rfl,map_cons,hnodes]
            rfl
          · rw [Side.entered,zipWith_cons_cons,Side.entries,hname]
            exact .cons (hmakes.matches hname) hmatches

/-- The record of the node made for a request. There is one exactly if the request has a class, and its id starts with it. -/
def Answers (threshold : Option Text.Similarity.Threshold) (catalogue request : Json) : Option Json→Prop
  | none => classFor threshold catalogue request=.ok none
  | some record => ∃ name tail, classFor threshold catalogue request=.ok (some name) ∧
      record.get? "Id" = some (.str (name.plain ++ " : " ++ tail))

variable (run : AddRun threshold catalogue requests desk desk')

theorem AddRun.answers :
    Forall₂ (Answers threshold catalogue) requests (run.pieces.map (Option.map Piece.record)) := by
  rw [List.forall₂_map_right_iff]
  refine forall₂_comp run.asked run.carried.forall₂ fun request task piece htask hpiece => ?_
  rcases hpiece with ⟨hclass,rfl⟩ | ⟨t,p,nodes,rfl,rfl,hmakes⟩
  · exact (classFor_eq htask).trans hclass
  · refine ⟨p.className,desk.supply p.draw,(classFor_eq htask).trans hmakes.className,?_⟩
    rw [hmakes.recorded.shows.id,hmakes.id]

theorem AddRun.endsAppended (side : Side) :
    EndsAppended side desk.save requests (run.pieces.map (Option.map Piece.record)) desk'.save := by
  have hends := run.ends side
  rw [← any_asks side.isEnd_module run.asked] at hends
  rw [EndsAppended]
  split
  · rename_i hneeded
    rw [Rewrites,if_pos hneeded] at hends
    obtain ⟨old,new,hold,hnew,hholds⟩ := hends
    obtain ⟨nodes,hnodes,hmatches⟩ := entered_matches side run.asked run.carried.forall₂
    exact ⟨old,new,_,nodes,hold,hholds,extends_of_foldlM hnew,hnodes,hmatches⟩
  · rename_i hneeded
    rwa [Rewrites,if_neg hneeded] at hends

/-- A save whose graph has the records made for requests after the nodes it had. The ids told of are those of the records. -/
structure GrownBy (threshold : Option Text.Similarity.Threshold) (catalogue : Json) (requests : List Json) (save : Json)
    (created : List Created) (made : List (Option Json)) (save' : Json) : Prop where
  graph : ∃ slot graph nodes nodes' entry, heldGraph save=.ok (slot,graph) ∧ graph.item "Nodes" = .ok nodes ∧
    findEntry "chip_graph" save'=.ok (some (slot,entry)) ∧
    entry.get? "stringValue" = some (.str (write addedStyle (graph.set "Nodes" nodes'))) ∧
    Extends nodes made.reduceOption nodes'
  answers : Forall₂ (Answers threshold catalogue) requests made
  ids : made.reduceOption.map (·.get? "Id")=created.map fun c => some (.str c.id)

theorem AddRun.grownBy :
    GrownBy threshold catalogue requests desk.save (run.pieces.reduceOption.map Piece.created)
      (run.pieces.map (Option.map Piece.record)) desk'.save := by
  obtain ⟨entry,hentry,htext⟩ := run.findEntry_text
  refine ⟨⟨run.slot,run.graph,run.nodes,run.nodes',entry,run.held,run.listed,hentry,htext,?_⟩,run.answers,?_⟩
  · rw [reduceOption_map]
    exact extends_of_foldlM run.carried.append_records
  · rw [reduceOption_map,map_map,map_map]
    exact map_congr_left fun p hp => (run.carried.shows_of_mem (reduceOption_mem_iff.1 hp)).id

/-- A run appends to the nodes of the graph, in the order of the requests, and to the lists of the ends. The ids of the new
nodes are those it tells of, and they differ. -/
theorem addModules_appends {created : List Created}
    (h : result (addModules (.arr requests) catalogue threshold) desk = (.ok created, desk'))
    (huuids : Uuids desk.supply desk.drawn desk'.drawn) :
    ∃ made, GrownBy threshold catalogue requests desk.save created made desk'.save ∧ (created.map (·.id)).Nodup ∧
      ∀ side, EndsAppended side desk.save requests made desk'.save := by
  obtain ⟨run,rfl⟩ := addModules_run h
  refine ⟨_,run.grownBy,?_,run.endsAppended⟩
  rw [map_map]
  exact run.carried.nodup_ids huuids

theorem addModules_appends_input : ∃ created desk' made,
    result (addModules (.arr inputAndConstant) (.obj []) none) (twoBoxes [emptyGraph] []) = (.ok created, desk') ∧
    created.map (·.id) = ["RootNodeViewModel : 1", "ConstantNodeViewModel : 3"] ∧
    GrownBy none (.obj []) inputAndConstant (twoBoxes [emptyGraph] []).save created made desk'.save ∧
    EndsAppended .input (twoBoxes [emptyGraph] []).save inputAndConstant made desk'.save := by
  have hids : ((result (addModules (.arr inputAndConstant) (.obj []) none) (twoBoxes [emptyGraph] [])).1.toOption.map
      fun created => created.map (·.id)) = some ["RootNodeViewModel : 1","ConstantNodeViewModel : 3"] := by decide +kernel
  have hdrawn : (result (addModules (.arr inputAndConstant) (.obj []) none) (twoBoxes [emptyGraph] [])).2.drawn = 5 := by
    decide +kernel
  obtain ⟨created,desk',hrun,hcreated⟩ := result_of_ids hids
  rw [hrun] at hdrawn
  have hdistinct : ∀ m < 5, ∀ n < 5, toString m = toString n → m = n := by decide
  have hlength : ∀ m < 5, ∀ n < 5, (toString m).length = (toString n).length := by decide
  have huuids : Uuids (twoBoxes [emptyGraph] []).supply (twoBoxes [emptyGraph] []).drawn desk'.drawn := by
    rw [show desk'.drawn = 5 from hdrawn]
    exact ⟨fun m hm n hn => hdistinct m hm.2 n hn.2,fun m hm n hn => hlength m hm.2 n hn.2⟩
  obtain ⟨made,hmade,-,hends⟩ := addModules_appends hrun huuids
  exact ⟨created,desk',made,hrun,hcreated,hmade,hends .input⟩

end ChipForge.Save
