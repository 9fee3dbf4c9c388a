import ChipForge.Proofs.ColumnOrders
import ChipForge.Proofs.Words
import Mathlib.Data.List.Induction
import Mathlib.Tactic.Ring

/-! Routes of wires through the columns. Every wire between different columns becomes one row of links from column to column, with
a stand-in of its own in each column between its ends. -/
namespace ChipForge.Layout
open List

variable {s : Split} {columnOf : Table Int}

/-- The way of a wire: its ends and its stand-ins, all with their columns. -/
structure Route where
  source : String×Int
  between : List (String×Int)
  target : String×Int

namespace Route

def standIns (r : Route) : List String := r.between.map (·.1)

/-- Links from each node of a route to the next. -/
def links (r : Route) : List (String×String) := (r.source.1::r.standIns).zip (r.standIns++[r.target.1])

def steps (r : Route) : List ((String×Int)×String×Int) := (r.source::r.between).zip (r.between++[r.target])

theorem links_eq (r : Route) : r.links=r.steps.map (Prod.map (·.1) (·.1)) := by
  rw [steps,← zip_map,map_cons,map_append]
  rfl

theorem map_fst_links (r : Route) : r.links.map (·.1)=r.source.1::r.standIns := map_fst_zip (by simp)

theorem map_snd_links (r : Route) : r.links.map (·.2)=r.standIns++[r.target.1] := map_snd_zip (by simp)

/-- So many new stand-ins after a column, numbered from the next number on. -/
def laid (step : Int) : ℕ→ℕ → Int→List (String×Int)
  | 0, _, _ => []
  | length+1, n, c => (standIn (n+1),c+step)::laid step length (n+1) (c+step)

theorem map_fst_laid (step : Int) (length n : ℕ) (c : Int) :
    (laid step length n c).map (·.1)=(range' (n+1) length).map standIn := by
  induction length generalizing n c with
  | zero => rfl
  | succ length ih => rw [laid,map_cons,ih,range'_succ,map_cons]

theorem length_laid (step : Int) (length n : ℕ) (c : Int) : (laid step length n c).length=length := by
  rw [← length_map,map_fst_laid,length_map,length_range']

theorem steps_laid {source target : String} {step : Int} {length n : ℕ} {c d : Int} (hd : d=c+(length+1 : ℕ) * step) :
    ∀ e∈steps ⟨(source,c),laid step length n c,(target,d)⟩, e.2.2=e.1.2+step := by
  induction length generalizing source n c with
  | zero => exact forall_mem_singleton.2 (by simp [hd])
  | succ length ih =>
    have hrest : d=c+step+(length+1 : ℕ) * step := by
      rw [hd]
      push_cast
      ring
    exact forall_mem_cons.2 ⟨rfl,ih hrest⟩

end Route

namespace Split

/-- Enters a route: its stand-ins in their columns, and its links. -/
def enter (s : Split) (r : Route) : Split :=
  ⟨r.between.foldl (fun columns e => Columns.add columns e.2 e.1) s.columns,
    r.between.foldl (fun t e => t.put e.1 e.2) s.columnOf,
    r.links.foldl (fun t e => t.addTo e.2 e.1) s.before,r.links.foldl (fun t e => t.addTo e.1 e.2) s.after,
    s.count+r.between.length⟩

theorem lead_eq (target : String) (step : Int) (length : ℕ) (s : Split) (prev : String) (c d : Int) :
    lead target step length s prev c=s.enter ⟨(prev,c),Route.laid step length s.count c,(target,d)⟩ := by
  induction length generalizing s prev c with
  | zero => rfl
  | succ length ih =>
    rw [lead]
    simp only [extend]
    rw [ih]
    exact congrArg (Split.mk _ _ _ _) (Nat.add_right_comm s.count 1 _)

theorem foldl_enter (routes : List Route) (s : Split) : routes.foldl enter s =
    ⟨(routes.flatMap (·.between)).foldl (fun columns e => Columns.add columns e.2 e.1) s.columns,
      (routes.flatMap (·.between)).foldl (fun t e => t.put e.1 e.2) s.columnOf,
      (routes.flatMap (·.links)).foldl (fun t e => t.addTo e.2 e.1) s.before,
      (routes.flatMap (·.links)).foldl (fun t e => t.addTo e.1 e.2) s.after,
      s.count+(routes.flatMap (·.between)).length⟩ := by
  induction routes generalizing s with
  | nil => rfl
  | cons r rest ih =>
    rw [foldl_cons,ih]
    simp [enter,foldl_append,Nat.add_assoc]

end Split

theorem neighbours_foldl_addTo {β : Type} (f g : β→String) (links : List β) (t : Table (List String)) (id : String) :
    neighbours (links.foldl (fun t e => t.addTo (f e) (g e)) t) id=neighbours t id++(links.filter (f · == id)).map g := by
  induction links generalizing t with
  | nil => simp
  | cons e rest ih =>
    rw [foldl_cons,ih]
    by_cases h : f e=id
    · simp [neighbours,Table.addTo,h]
    · simp [neighbours,Table.addTo,h,Ne.symm h]

def crossesColumns (columnOf : Table Int) (wire : String×String) : Bool :=
  match columnOf.find wire.1, columnOf.find wire.2 with
  | some cu, some cv => cu != cv
  | _, _ => false

/-- Routes for wires, one for each that leads from one column to another. Each step of a route leads one column further. -/
structure Routed (columnOf : Table Int) (wires : List (String×String)) (routes : List Route) : Prop where
  ends : routes.map (fun r => (r.source.1,r.target.1))=wires.filter (crossesColumns columnOf)
  plain : ∀ w∈wires, isStandIn w.1=false ∧ isStandIn w.2=false
  standIns : routes.flatMap (·.standIns)=(range' 1 (routes.flatMap (·.between)).length).map standIn
  columns : ∀ r∈routes, columnOf.find r.source.1=some r.source.2 ∧ columnOf.find r.target.1=some r.target.2 ∧
    r.source.2≠r.target.2
  steps : ∀ r∈routes, r.steps.length=(r.target.2 - r.source.2).natAbs ∧
    ∀ e∈r.steps, e.2.2=e.1.2+(r.target.2 - r.source.2).sign

theorem standIn_injective : Function.Injective standIn := by
  intro m n h
  have hread := congrArg Text.readInt? ((String.append_right_inj standInMark).1 h)
  have hm : Text.readInt? (toString m)=some (m : Int) := Text.readInt?_toString m
  have hn : Text.readInt? (toString n)=some (n : Int) := Text.readInt?_toString n
  rw [hm,hn] at hread
  simpa using hread

namespace Routed
variable {wires : List (String×String)} {routes : List Route}

theorem nodup (h : Routed columnOf wires routes) : (routes.flatMap (·.standIns)).Nodup :=
  h.standIns ▸ Nodup.map standIn_injective (nodup_range' ..)

theorem fresh (h : Routed columnOf wires routes) {id : String} (hid : id∈routes.flatMap (·.standIns)) :
    isStandIn id=true := by
  rw [h.standIns] at hid
  obtain ⟨n,-,rfl⟩ := mem_map.1 hid
  exact isStandIn_standIn n

theorem find_columnOf (h : Routed columnOf wires routes) (hs : s.columnOf=columnOf) :
    (∀ id, isStandIn id=false→(routes.foldl Split.enter s).columnOf.find id=columnOf.find id) ∧
      ∀ e∈routes.flatMap (·.between), (routes.foldl Split.enter s).columnOf.find e.1=some e.2 := by
  have hnames : (routes.flatMap (·.between)).map (·.1)=routes.flatMap (·.standIns) := map_flatMap
  obtain ⟨hmem,hother⟩ := Table.find_foldl_put_entries (hnames ▸ h.nodup) s.columnOf
  rw [Split.foldl_enter,← hs]
  refine ⟨fun id hid => hother id fun hmem => ?_,hmem⟩
  rw [h.fresh (hnames ▸ hmem)] at hid
  cases hid

/-- What one more wire adds. -/
theorem addWire (h : Routed columnOf wires routes) (hs : s.columnOf=columnOf) (hcount : s.count=0) {u v : String}
    (hu : isStandIn u=false) (hv : isStandIn v=false) :
    ∃ routes', Routed columnOf (wires++[(u,v)]) routes' ∧
      Split.addWire u (routes.foldl Split.enter s) v=routes'.foldl Split.enter s := by
  obtain ⟨hfind,-⟩ := h.find_columnOf hs
  have hplain : ∀ w∈wires++[(u,v)], isStandIn w.1=false ∧ isStandIn w.2=false :=
    forall_mem_append.2 ⟨h.plain,forall_mem_singleton.2 ⟨hu,hv⟩⟩
  have hskip : crossesColumns columnOf (u,v)=false→Routed columnOf (wires++[(u,v)]) routes := fun hcross =>
    ⟨by simp [h.ends,hcross],hplain,h.standIns,h.columns,h.steps⟩
  unfold Split.addWire
  rw [hfind u hu,hfind v hv]
  cases hcu : columnOf.find u with
  | none => exact ⟨routes,hskip (by simp [crossesColumns,hcu]),rfl⟩
  | some cu =>
    cases hcv : columnOf.find v with
    | none => exact ⟨routes,hskip (by simp [crossesColumns,hcu,hcv]),rfl⟩
    | some cv =>
      dsimp only
      by_cases heq : cu=cv
      · rw [if_pos (beq_iff_eq.2 heq)]
        exact ⟨routes,hskip (by simp [crossesColumns,hcu,hcv,heq]),rfl⟩
      · have hstep : (if cu < cv then (1 : Int) else -1)=(cv - cu).sign := by
          split_ifs with hlt
          · exact (Int.sign_eq_one_of_pos (by omega)).symm
          · exact (Int.sign_eq_neg_one_of_neg (by omega)).symm
        have hlength : (cv - cu).natAbs - 1+1=(cv - cu).natAbs := by omega
        have hlast : cv=cu+((cv - cu).natAbs - 1+1 : ℕ) * (cv - cu).sign := by
          rw [hlength,Int.mul_comm,Int.sign_mul_natAbs,add_sub_cancel]
        have hnumber : (routes.foldl Split.enter s).count=(routes.flatMap (·.between)).length := by
          rw [Split.foldl_enter,hcount,Nat.zero_add]
        rw [if_neg (mt beq_iff_eq.1 heq),Split.lead_eq _ _ _ _ _ _ cv,hnumber,hstep]
        refine ⟨routes++[_],⟨?_,hplain,?_,?_,?_⟩,by rw [foldl_append]; rfl⟩
        · simp [h.ends,crossesColumns,hcu,hcv,heq]
        · rw [flatMap_append,h.standIns,flatMap_append,length_append,← range'_append_1,map_append]
          simp [Route.standIns,Route.map_fst_laid,Route.length_laid,Nat.add_comm 1]
        · exact forall_mem_append.2 ⟨h.columns,forall_mem_singleton.2 ⟨hcu,hcv,heq⟩⟩
        · refine forall_mem_append.2 ⟨h.steps,forall_mem_singleton.2 ⟨?_,Route.steps_laid hlast⟩⟩
          simpa [Route.steps,Route.length_laid] using hlength

end Routed

def wiresOf (after : Table (List String)) : List (String×String) := after.toList.flatMap fun (u,vs) => vs.map (u,·)

theorem Split.ofWires_eq (columns : Columns) (columnOf : Table Int) {after : Table (List String)}
    (hplain : ∀ w∈wiresOf after, isStandIn w.1=false ∧ isStandIn w.2=false) : ∃ routes,
      Routed columnOf (wiresOf after) routes ∧
        ofWires columns columnOf after=routes.foldl enter ⟨columns,columnOf,Table.empty,Table.empty,0⟩ := by
  have hfold : ofWires columns columnOf after =
      (wiresOf after).foldl (fun s w => addWire w.1 s w.2) ⟨columns,columnOf,Table.empty,Table.empty,0⟩ := by
    simp [ofWires,wiresOf,foldl_flatMap,foldl_map]
  rw [hfold]
  generalize wiresOf after=wires at hplain ⊢
  induction wires using reverseRecOn with
  | nil => exact ⟨[],⟨rfl,hplain,rfl,(fun _ h => nomatch h),fun _ h => nomatch h⟩,rfl⟩
  | append_singleton wires w ih =>
    obtain ⟨routes,hrouted,heq⟩ := ih fun w hw => hplain w (mem_append_left _ hw)
    obtain ⟨hu,hv⟩ := hplain w (mem_append_right _ (mem_singleton.2 rfl))
    rw [foldl_append,heq]
    exact hrouted.addWire rfl rfl hu hv

namespace Routed
variable {wires : List (String×String)} {routes : List Route}

/-- A stand-in is met once on all routes together. -/
theorem count_standIn (h : Routed columnOf wires routes) {id : String} (hid : id∈routes.flatMap (·.standIns)) :
    (routes.flatMap fun r => r.source.1::r.standIns).count id=1 ∧
      (routes.flatMap fun r => r.standIns++[r.target.1]).count id=1 := by
  have hends : ∀ r∈routes, r.source.1≠id ∧ r.target.1≠id := by
    intro r hr
    have hwire : (r.source.1,r.target.1)∈wires := filter_sublist.mem (h.ends ▸ mem_map_of_mem hr)
    obtain ⟨hsource,htarget⟩ := h.plain _ hwire
    exact ⟨fun heq => by simp [heq,h.fresh hid] at hsource,fun heq => by simp [heq,h.fresh hid] at htarget⟩
  have hone := count_eq_one_of_mem h.nodup hid
  rw [count_flatMap] at hone
  rw [count_flatMap,count_flatMap]
  constructor <;> rw [← hone] <;> refine congrArg List.sum (map_congr_left fun r hr => ?_)
  · simp [(hends r hr).1]
  · simp [count_append,(hends r hr).2]

/-- Links of a route lead from one column to the next. -/
theorem apart_of_link (h : Routed columnOf wires routes) (hs : s.columnOf=columnOf) {a b : String}
    (hlink : (a,b)∈routes.flatMap (·.links)) : ∃ ca cb, (routes.foldl Split.enter s).columnOf.find a=some ca ∧
      (routes.foldl Split.enter s).columnOf.find b=some cb ∧ (cb - ca).natAbs=1 := by
  obtain ⟨r,hr,hlink⟩ := mem_flatMap.1 hlink
  rw [r.links_eq] at hlink
  obtain ⟨⟨x,y⟩,hstep,heq⟩ := mem_map.1 hlink
  cases heq
  obtain ⟨hends,hinner⟩ := h.find_columnOf hs
  obtain ⟨hsource,htarget⟩ := h.plain _ (filter_sublist.mem (h.ends ▸ mem_map_of_mem hr))
  have hbetween : ∀ e∈r.between, (routes.foldl Split.enter s).columnOf.find e.1=some e.2 := fun e he =>
    hinner e (mem_flatMap.2 ⟨r,hr,he⟩)
  obtain ⟨hx,hy⟩ := of_mem_zip hstep
  refine ⟨x.2,y.2,?_,?_,?_⟩
  · rcases mem_cons.1 hx with rfl | hx
    · exact (hends _ hsource).trans (h.columns r hr).1
    · exact hbetween x hx
  · rcases mem_append.1 hy with hy | hy
    · exact hbetween y hy
    · rw [mem_singleton.1 hy]
      exact (hends _ htarget).trans (h.columns r hr).2.1
  · rw [(h.steps r hr).2 _ hstep,add_sub_cancel_left]
    exact Int.natAbs_sign_of_ne_zero (sub_ne_zero.2 (h.columns r hr).2.2.symm)

end Routed

/-- Long wires are split exactly. Each wire between different columns that are known has one route, which leads from column to
column over stand-ins that stand on no other; the links are those of the routes, seen alike from both of their ends; and
each column keeps its nodes and gets the stand-ins after them. -/
theorem Split.ofWires_routes {columns : Columns} {columnOf : Table Int} {after : Table (List String)}
    (hplain : ∀ w∈wiresOf after, isStandIn w.1=false ∧ isStandIn w.2=false) :
    let s := ofWires columns columnOf after
    ∃ routes : List Route, Routed columnOf (wiresOf after) routes ∧
      (routes.flatMap (·.standIns)).Nodup ∧ (∀ id∈routes.flatMap (·.standIns), isStandIn id=true) ∧
      (∀ a b, (neighbours s.after a).count b=(routes.flatMap (·.links)).count (a,b) ∧
        (neighbours s.before b).count a=(routes.flatMap (·.links)).count (a,b)) ∧
      (∀ id∈routes.flatMap (·.standIns), (neighbours s.before id).length=1 ∧ (neighbours s.after id).length=1) ∧
      (∀ a, ∀ b∈neighbours s.after a, ∃ ca cb, s.columnOf.find a=some ca ∧ s.columnOf.find b=some cb ∧
        (cb - ca).natAbs=1) ∧
      (∀ id, isStandIn id=false → s.columnOf.find id=columnOf.find id) ∧
      ∀ c, s.columns.column c =
        columns.column c++(routes.flatMap (·.standIns)).filter fun id => s.columnOf.find id == some c := by
  intro s
  obtain ⟨routes,hrouted,hs : s=_⟩ := ofWires_eq columns columnOf hplain
  clear_value s
  have hafter : ∀ a, neighbours s.after a=((routes.flatMap (·.links)).filter (·.1 == a)).map (·.2) := by
    intro a
    rw [hs,foldl_enter]
    exact neighbours_foldl_addTo Prod.fst Prod.snd _ _ _
  have hbefore : ∀ b, neighbours s.before b=((routes.flatMap (·.links)).filter (·.2 == b)).map (·.1) := by
    intro b
    rw [hs,foldl_enter]
    exact neighbours_foldl_addTo Prod.snd Prod.fst _ _ _
  obtain ⟨hcolumnOf,hinner⟩ := hrouted.find_columnOf (s := ⟨columns,columnOf,Table.empty,Table.empty,0⟩) rfl
  rw [← hs] at hcolumnOf hinner
  refine ⟨routes,hrouted,hrouted.nodup,fun id hid => hrouted.fresh hid,fun a b => ?_,fun id hid => ?_,fun a b hb => ?_,
    hcolumnOf,fun c => ?_⟩
  · simp only [hafter,hbefore,count_eq_countP,countP_map,countP_filter]
    constructor <;> refine countP_congr fun e _ => ?_ <;> simp [Prod.ext_iff,and_comm]
  · have hsources : (routes.flatMap (·.links)).map (·.1)=routes.flatMap fun r => r.source.1::r.standIns := by
      simp only [map_flatMap,Route.map_fst_links]
    have htargets : (routes.flatMap (·.links)).map (·.2)=routes.flatMap fun r => r.standIns++[r.target.1] := by
      simp only [map_flatMap,Route.map_snd_links]
    obtain ⟨hsource,htarget⟩ := hrouted.count_standIn hid
    rw [← hsources,count_eq_countP,countP_map,countP_eq_length_filter] at hsource
    rw [← htargets,count_eq_countP,countP_map,countP_eq_length_filter] at htarget
    rw [hafter,hbefore,length_map,length_map]
    exact ⟨htarget,hsource⟩
  · rw [hafter] at hb
    obtain ⟨link,hmem,rfl⟩ := mem_map.1 hb
    obtain ⟨hlink,ha⟩ := mem_filter.1 hmem
    obtain rfl := beq_iff_eq.1 ha
    rw [hs]
    exact hrouted.apart_of_link rfl hlink
  · have hcolumn : s.columns.column c=columns.column c++((routes.flatMap (·.between)).filter (·.2 == c)).map (·.1) := by
      rw [hs,foldl_enter]
      exact column_foldl_add _ _ _
    have hnames : routes.flatMap (·.standIns)=(routes.flatMap (·.between)).map (·.1) := map_flatMap.symm
    rw [hcolumn,hnames,filter_map]
    refine congrArg (fun es : List (String×Int) => columns.column c++es.map (·.1)) (filter_congr fun e he => ?_)
    rw [Function.comp_apply,hinner e he]
    simp

def doubleWire : Table (List String) := [("a",["b","b"]),("b",["a"])]

theorem Split.ofWires_routes_double : (∀ w∈wiresOf doubleWire, isStandIn w.1=false ∧ isStandIn w.2=false) ∧
    ∃ routes, Routed [("a",0),("b",3)] (wiresOf doubleWire) routes ∧ (routes.flatMap (·.standIns)).Nodup := by
  have hplain : ∀ w∈wiresOf doubleWire, isStandIn w.1=false ∧ isStandIn w.2=false := by decide
  obtain ⟨routes,hrouted,hnodup,-⟩ := @ofWires_routes [(0,["a"]),(3,["b"])] [("a",0),("b",3)] _ hplain
  exact ⟨hplain,routes,hrouted,hnodup⟩

end ChipForge.Layout
