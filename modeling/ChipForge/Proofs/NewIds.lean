import ChipForge.Proofs.Additions
import ChipForge.Proofs.RequestOrders
import ChipForge.Workshop.Stages
import Mathlib.Data.List.Perm.Subperm

/-! The placements of a plan take the ids of the new nodes in order. A placement has the id of the node made for its own
request exactly where as many nodes were made for earlier requests as there are placements before it. -/
namespace ChipForge.Workshop
open Assembly Save Wiring List Text

variable {c : Created} {made : List (Option Created)} {desk desk' : Desk} {index : Index} {p : Placement}
  {created : List Created} {requests : List Json} {placements filled : Table Placement} {modules : Json} {order : Nat}
  {plan : Plan} {catalogue : Json} {given : List (Nat×Created)} {orders : List Nat} {i : Nat} {request : Request}
  {name : Json} {kind : ChipKind}

/-- A placement with the id that is given out for its number, if one is. -/
def withGiven (given : List (Nat×Created)) (p : Placement) : Placement :=
  match given.lookup p.order with
  | some c => { p with newId := .str c.id }
  | none => p

def earlier (placements : Table Placement) (order : Nat) : Nat :=
  placements.toList.countP fun entry => entry.2.order < order

theorem fillId_eq {id : Json} {entries : List (String×Placement)} (h : (entries.map (·.2.order)).Nodup) :
    fillId order id entries=entries.map fun e => if e.2.order=order then (e.1,{ e.2 with newId := id }) else e := by
  induction entries with
  | nil => rfl
  | cons entry rest ih =>
    obtain ⟨name,p⟩ := entry
    rw [map_cons,nodup_cons] at h
    by_cases horder : p.order=order
    · have hrest : rest.map (fun e => if e.2.order=order then (e.1,{ e.2 with newId := id }) else e)=rest := by
        refine (map_congr_left fun e he => if_neg fun hsame => h.1 ?_).trans (map_id' rest)
        rw [horder,← hsame]
        exact mem_map_of_mem he
      simp [fillId,horder,hrest]
    · simp [fillId,horder,ih h.2]

theorem withGiven_cons_self (h : p.order∉given.map (·.1)) :
    withGiven given { p with newId := .str c.id }=withGiven ((p.order,c)::given) p := by
  have hnone : given.lookup p.order=none := by
    refine lookup_eq_none_iff.2 fun entry hentry => bne_iff_ne.2 fun hsame => h ?_
    rw [hsame]
    exact mem_map_of_mem hentry
  simp [withGiven,hnone]

theorem withGiven_cons_ne (h : p.order≠order) : withGiven given p=withGiven ((order,c)::given) p := by
  simp [withGiven,lookup_cons,beq_eq_false_iff_ne.2 h]

/-- Ids are given out by number, one for each node as long as there are numbers. -/
theorem fillIds_eq (horders : orders.Nodup) (hplacements : (placements.toList.map (·.2.order)).Nodup) (desk : Desk) :
    ∃ said, result (fillIds orders created placements) desk =
      (.ok (placements.toList.map fun e => (e.1,withGiven (orders.zip created) e.2)),{ desk with said := said }) := by
  induction created generalizing orders placements desk with
  | nil =>
    refine ⟨desk.said,?_⟩
    rw [zip_nil_right,show (fun e : String×Placement => (e.1,withGiven [] e.2))=id from rfl,map_id]
    cases orders <;> rfl
  | cons node rest ih =>
    cases orders with
    | nil =>
      obtain ⟨said,hsaid⟩ := ih horders hplacements { desk with said := desk.said++[_] }
      exact ⟨said,hsaid⟩
    | cons order orders =>
      rw [nodup_cons] at horders
      let filled : Table Placement := fillId order (.str node.id) placements.toList
      have hfilled : filled.toList=_ := fillId_eq hplacements
      have hkept : filled.toList.map (·.2.order)=placements.toList.map (·.2.order) := by
        rw [hfilled,map_map]
        refine map_congr_left fun e _ => ?_
        simp only [Function.comp]
        split_ifs <;> rfl
      have hnotMem : order∉(orders.zip rest).map (·.1) := by
        intro hmem
        obtain ⟨entry,hentry,hsame⟩ := mem_map.1 hmem
        exact horders.1 (hsame ▸ (of_mem_zip hentry).1)
      obtain ⟨said,hsaid⟩ := ih horders.2 (hkept ▸ hplacements) desk
      refine ⟨said,hsaid.trans ?_⟩
      rw [hfilled,map_map,zip_cons_cons]
      congr 2
      refine map_congr_left fun e _ => Prod.ext ?_ ?_
      · simp only [Function.comp]
        split_ifs <;> rfl
      · simp only [Function.comp]
        split_ifs with horder
        · subst horder
          exact withGiven_cons_self hnotMem
        · exact withGiven_cons_ne horder

theorem countP_lt_of_pairwise (h : orders.Pairwise (· < ·)) (hi : orders[i]?=some order) :
    orders.countP (fun n => n < order)=i := by
  induction orders generalizing i with
  | nil => cases hi
  | cons first rest ih =>
    rw [pairwise_cons] at h
    cases i with
    | zero =>
      cases hi
      refine countP_eq_zero.2 fun n hn => ?_
      rcases mem_cons.1 hn with rfl | hn
      · simp
      · have := h.1 n hn
        simp
        omega
    | succ i =>
      rw [getElem?_cons_succ] at hi
      rw [countP_cons_of_pos (by simpa using h.1 order (mem_of_getElem? hi)),ih h.2 hi]

section sortedOrders
variable {placements : Table Placement}

theorem sortedOrders_perm (placements : Table Placement) :
    (sortedOrders placements).Perm (placements.toList.map (·.2.order)) :=
  mergeSort_perm _ _

theorem sortedOrders_pairwise (h : (placements.toList.map (·.2.order)).Nodup) :
    (sortedOrders placements).Pairwise (· < ·) := by
  have hsorted : (sortedOrders placements).Pairwise (·≤·) := by
    refine (pairwise_mergeSort ?_ ?_ _).imp of_decide_eq_true
    · intro a b c hab hbc
      exact decide_eq_true (Nat.le_trans (of_decide_eq_true hab) (of_decide_eq_true hbc))
    · intro a b
      simpa using Nat.le_total a b
  exact (hsorted.and ((sortedOrders_perm placements).nodup_iff.2 h)).imp fun {a b} hab => Nat.lt_of_le_of_ne hab.1 hab.2

theorem earlier_of_getElem? (h : (placements.toList.map (·.2.order)).Nodup)
    (hi : (sortedOrders placements)[i]?=some order) : earlier placements order=i := by
  rw [← countP_lt_of_pairwise (sortedOrders_pairwise h) hi,(sortedOrders_perm placements).countP_eq,countP_map]
  rfl

/-- Where there are as many placements as numbers, every number is that of a placement. -/
theorem sortedOrders_perm_range (h : (placements.toList.map (·.2.order)).Nodup)
    (hlt : ∀ entry∈placements.toList, entry.2.order < placements.toList.length) :
    (sortedOrders placements).Perm (List.range placements.toList.length) := by
  have hperm := sortedOrders_perm placements
  have hsubset : sortedOrders placements ⊆ List.range placements.toList.length := by
    intro order horder
    obtain ⟨entry,hentry,rfl⟩ := mem_map.1 (hperm.subset horder)
    exact mem_range.2 (hlt entry hentry)
  refine (subperm_of_subset (hperm.nodup_iff.2 h) hsubset).perm_of_length_le ?_
  simp [hperm.length_eq]

theorem earlier_of_full (h : (placements.toList.map (·.2.order)).Nodup)
    (hlt : ∀ entry∈placements.toList, entry.2.order < placements.toList.length)
    (horder : order < placements.toList.length) : earlier placements order=order := by
  have hperm := (sortedOrders_perm placements).symm.trans (sortedOrders_perm_range h hlt)
  have hcount := hperm.countP_eq fun n => n < order
  rw [countP_lt_of_pairwise pairwise_lt_range (getElem?_range horder),countP_map] at hcount
  exact hcount

end sortedOrders

theorem exists_of_reduceOption (h : made.reduceOption[i]?=some c) :
    ∃ j, made[j]?=some (some c) ∧ (made.take j).reduceOption.length=i := by
  induction made generalizing i with
  | nil => cases h
  | cons first rest ih =>
    cases first with
    | none =>
      rw [reduceOption_cons_of_none] at h
      obtain ⟨j,hj,hcount⟩ := ih h
      exact ⟨j+1,hj,by rwa [take_succ_cons,reduceOption_cons_of_none]⟩
    | some node =>
      rw [reduceOption_cons_of_some] at h
      cases i with
      | zero =>
        cases h
        exact ⟨0,rfl,rfl⟩
      | succ i =>
        obtain ⟨j,hj,hcount⟩ := ih h
        exact ⟨j+1,hj,by rw [take_succ_cons,reduceOption_cons_of_some,length_cons,hcount]⟩

theorem eq_of_reduceOption {j k : Nat} {c' : Created} (hj : made[j]?=some (some c)) (hk : made[k]?=some (some c'))
    (h : (made.take j).reduceOption.length=(made.take k).reduceOption.length) : j=k := by
  induction made generalizing j k with
  | nil => cases hj
  | cons first rest ih =>
    cases j with
    | zero =>
      cases k with
      | zero => rfl
      | succ k =>
        cases hj
        simp [reduceOption_cons_of_some] at h
    | succ j =>
      cases k with
      | zero =>
        cases hk
        simp [reduceOption_cons_of_some] at h
      | succ k =>
        rw [take_succ_cons,take_succ_cons] at h
        cases first with
        | none =>
          rw [reduceOption_cons_of_none,reduceOption_cons_of_none] at h
          rw [ih hj hk h]
        | some node =>
          rw [reduceOption_cons_of_some,reduceOption_cons_of_some,length_cons,length_cons] at h
          rw [ih hj hk (Nat.succ.inj h)]

/-- The stage adds the modules and gives out the ids of the nodes that were made; in between it only says something. -/
theorem addStage_parts (h : result (addStage requests placements modules) desk=(.ok filled,desk')) :
    ∃ created desk₁ said, result (addModules (.arr requests) modules chipThreshold) desk=(.ok created,desk₁) ∧
      result (giveIds created placements) { desk₁ with said := said }=(.ok filled,desk') := by
  obtain ⟨created,desk₁,hcreated,h⟩ := result_bind_eq_ok.1 h
  rw [result_tryCatch_throw_eq_ok] at hcreated
  obtain ⟨_,desk₂,hsaid,h⟩ := result_bind_eq_ok.1 h
  cases hsaid
  dsimp only at h
  split_ifs at h
  · obtain ⟨_,desk₃,hsaid,h⟩ := result_bind_eq_ok.1 h
    cases hsaid
    exact ⟨created,desk₁,_,hcreated,h⟩
  · exact ⟨created,desk₁,_,hcreated,h⟩

theorem addStage_eq_ok (h : result (addStage requests placements modules) desk=(.ok filled,desk')) :
    ∃ created desk₁ desk₂, result (addModules (.arr requests) modules chipThreshold) desk=(.ok created,desk₁) ∧
      result (giveIds created placements) desk₂=(.ok filled,desk') ∧ desk₂.save=desk₁.save := by
  obtain ⟨created,desk₁,said,hcreated,h⟩ := addStage_parts h
  exact ⟨created,desk₁,_,hcreated,h,rfl⟩

theorem giveIds_eq_ok (hplacements : (placements.toList.map (·.2.order)).Nodup)
    (h : result (giveIds created placements) desk=(.ok filled,desk')) :
    desk'.save=desk.save ∧
      filled=placements.toList.map (fun e => (e.1,withGiven ((sortedOrders placements).zip created) e.2)) ∧
      ∀ entry∈filled.toList, entry.2.newId.isNull=false := by
  obtain ⟨said,hsaid⟩ := fillIds_eq ((sortedOrders_perm placements).nodup_iff.2 hplacements) hplacements desk
  unfold giveIds at h
  rw [result_bind_ok hsaid] at h
  dsimp only at h
  split_ifs at h with hmissing
  · cases h
    refine ⟨rfl,rfl,fun entry hentry => ?_⟩
    -- A placement without id would be listed.
    by_contra hnull
    unfold unmatched at hmissing
    rw [List.isEmpty_iff,List.filterMap_eq_nil_iff] at hmissing
    have hlisted := hmissing entry hentry
    rw [Bool.not_eq_false] at hnull
    simp [hnull] at hlisted
  · cases h

/-- Placements have the ids of nodes in the order of their numbers. -/
theorem newId_of_giveIds (hplan : plan.Ordered index)
    (h : result (giveIds created plan.placements) desk=(.ok filled,desk')) {id : String}
    (hp : plan.placements.find id=some p) :
    ∃ c, filled.find id=some { p with newId := .str c.id } ∧ created[earlier plan.placements p.order]?=some c := by
  obtain ⟨-,rfl,hnull⟩ := giveIds_eq_ok hplan.orders h
  have hmem := Table.mem_of_find hp
  have hfilled := Table.find_map (withGiven ((sortedOrders plan.placements).zip created)) plan.placements.toList id
  rw [show Table.find plan.placements.toList id=some p from hp,Option.map_some] at hfilled
  have hid := hnull _ (mem_map_of_mem hmem)
  cases hlookup : ((sortedOrders plan.placements).zip created).lookup p.order with
  | none =>
    simp only [withGiven,hlookup] at hid
    rw [show p.newId=.null from (hplan.stands _ hmem).newId] at hid
    cases hid
  | some c =>
    obtain ⟨before,after,hzip,-⟩ := lookup_eq_some_iff.1 hlookup
    have hpair : (p.order,c)∈(sortedOrders plan.placements).zip created := by simp [hzip]
    obtain ⟨i,hi⟩ := mem_iff_getElem?.1 hpair
    obtain ⟨horder,hcreated⟩ := getElem?_zip_eq_some.1 hi
    refine ⟨c,by rw [hfilled,withGiven,hlookup],?_⟩
    rw [earlier_of_getElem? hplan.orders horder]
    exact hcreated

/-- Where every request belongs to a placement and all placements were given ids, every request made a node. -/
theorem isSome_of_full (hplan : plan.Ordered index) (hfull : plan.requests.length=plan.placements.toList.length)
    (hlength : made.length=plan.requests.length)
    (hgiven : ∀ entry∈plan.placements.toList, ∃ c, made.reduceOption[earlier plan.placements entry.2.order]?=some c) :
    ∀ node∈made, node.isSome := by
  have hlt : ∀ entry∈plan.placements.toList, entry.2.order < plan.placements.toList.length := fun entry hentry =>
    hfull ▸ (hplan.stands entry hentry).order_lt
  rw [← reduceOption_length_eq_iff]
  refine Nat.le_antisymm (reduceOption_length_le made) ?_
  rw [hlength,hfull]
  -- The placement with the greatest number has an id, so there are as many nodes as placements.
  rcases Nat.eq_zero_or_pos plan.placements.toList.length with hzero | hpos
  · rw [hzero]
    exact Nat.zero_le _
  · have hlast : plan.placements.toList.length - 1 < plan.placements.toList.length := Nat.sub_one_lt_of_lt hpos
    have hperm := (sortedOrders_perm plan.placements).symm.trans (sortedOrders_perm_range hplan.orders hlt)
    obtain ⟨entry,hentry,horder⟩ := mem_map.1 (hperm.symm.subset (mem_range.2 hlast))
    obtain ⟨c,hc⟩ := hgiven entry hentry
    rw [horder,earlier_of_full hplan.orders hlt hlast] at hc
    have hreached := (List.getElem?_eq_some_iff.1 hc).1
    omega

/-- There each placement stands after as many nodes as placements. -/
theorem made_of_full (hplan : plan.Ordered index) (hfull : plan.requests.length=plan.placements.toList.length)
    (hlength : made.length=plan.requests.length)
    (hgiven : ∀ entry∈plan.placements.toList, ∃ c, made.reduceOption[earlier plan.placements entry.2.order]?=some c)
    {entry : String×Placement} (hentry : entry∈plan.placements.toList) :
    (∃ own, made[entry.2.order]?=some (some own)) ∧
      (made.take entry.2.order).reduceOption.length=earlier plan.placements entry.2.order := by
  have hsome := isSome_of_full hplan hfull hlength hgiven
  have hlt : ∀ entry∈plan.placements.toList, entry.2.order < plan.placements.toList.length := fun entry hentry =>
    hfull ▸ (hplan.stands entry hentry).order_lt
  have horder : entry.2.order < made.length := hlength ▸ (hplan.stands entry hentry).order_lt
  constructor
  · obtain ⟨own,hown⟩ := Option.isSome_iff_exists.1 (hsome _ (getElem_mem horder))
    exact ⟨own,List.getElem?_eq_some_iff.2 ⟨horder,hown⟩⟩
  · have htake : (made.take entry.2.order).reduceOption.length=(made.take entry.2.order).length :=
      reduceOption_length_eq_iff.2 fun node hnode => hsome node (mem_of_mem_take hnode)
    rw [htake,length_take_of_le (Nat.le_of_lt horder),earlier_of_full hplan.orders hlt (hlt entry hentry)]

/-- The class of the node that is made for a kind of chip, none if no node is. -/
def classOfKind (catalogue : Json) (kind : ChipKind) : Except Failure (Option Json) :=
  match lower kind.friendlyName with
  | "input" => .ok (some (.str "RootNodeViewModel"))
  | "output" => .ok (some (.str "ExitNodeViewModel"))
  | "constant" => .ok (some (.str "ConstantNodeViewModel"))
  | "variable" => .ok (some (.str "VariableNodeViewModel"))
  | _ => classFor chipThreshold catalogue (.str kind.friendlyName)

/-- The adder finds for every kind of the index a definition with the same name in the game, in which no separator of ids
occurs. -/
def Agrees (catalogue : Json) (index : Index) : Prop :=
  ∀ key kind, index.find key=some kind→∃ name, kind.gameName=.str name ∧
    firstPart (name ++ " : ") " : " = name ∧
    ∀ found, classOfKind catalogue kind=.ok (some found) → found=.str name

theorem wishClass_of_classFor {request : Json} {wish : Wish} {name : Option Json}
    (hread : readWish? request=.ok (some wish)) (h : classFor chipThreshold catalogue request=.ok name) :
    ∃ names, wishClass chipThreshold catalogue names wish=.ok name := by
  obtain ⟨entries,names,-,-,h⟩ := bind_bind_eq_ok.1 h
  obtain ⟨found,hfound,h⟩ := bind_eq_ok.1 h
  rw [hread] at hfound
  cases hfound
  exact ⟨names,h⟩

theorem classOfKind_of_asks (hasks : Asks kind request)
    (h : classFor chipThreshold catalogue request.toJson=.ok (some name)) :
    classOfKind catalogue kind=.ok (some name) := by
  cases hasks with
  | @input label hword =>
    have hread : readWish? (Request.input label).toJson=.ok (some (.input label (.int 2))) := rfl
    obtain ⟨names,hname⟩ := wishClass_of_classFor hread h
    simp only [classOfKind,hword]
    exact hname
  | @output label hword =>
    have hread : readWish? (Request.output label).toJson=.ok (some (.output label (.int 2))) := rfl
    obtain ⟨names,hname⟩ := wishClass_of_classFor hread h
    simp only [classOfKind,hword]
    exact hname
  | @constant label hword =>
    have hread : readWish? (Request.constant label).toJson=.ok (some (.constant (.int 2))) := rfl
    obtain ⟨names,hname⟩ := wishClass_of_classFor hread h
    simp only [classOfKind,hword]
    exact hname
  | module hspecial =>
    have hne : ∀ word, isSpecial word=true → lower kind.friendlyName≠word := by
      rintro word hword rfl
      exact absurd hword (by simp [hspecial])
    unfold classOfKind
    split <;> first
      | exact h
      | rename_i hsame
        exact absurd hsame (hne _ rfl)
  | @stored key gateType value hword =>
    have hread : readWish? (Request.variable key gateType value).toJson=.ok (some (.variable key gateType value)) := rfl
    obtain ⟨names,hname⟩ := wishClass_of_classFor hread h
    simp only [classOfKind,hword]
    -- A variable without a key has no class.
    change taskClass (.variable key gateType value)=.ok (some name) at hname
    cases key with
    | str s =>
      simp only [taskClass] at hname
      split_ifs at hname
      · cases hname
      · exact hname
    | _ => cases hname

theorem IsOf.firstPart_id (h : IsOf name c) : firstPart c.id " : " = firstPart (name.plain ++ " : ") " : " := by
  obtain ⟨tail,htail⟩ := h.id
  rw [htail,firstPart_append rfl]

/-- A node that was made for the request of a placement has the class that the placement names, where the index and the
adder agree. -/
theorem gameName_eq (hagrees : Agrees catalogue index) {key : String} (hkind : index.find key=some kind)
    (hasks : Asks kind request) (hserves : Serves chipThreshold catalogue request.toJson (some c)) :
    kind.gameName=.str (firstPart c.id " : ") := by
  obtain ⟨name,hname,hplain,hfound⟩ := hagrees key kind hkind
  have hclass := hfound c.className (classOfKind_of_asks hasks hserves.className)
  rw [IsOf.firstPart_id (hserves.isOf c rfl),hclass,hname,Json.plain,hplain]

/-- After modules were added for a plan, every node of the graph has the id of a node that was made, by the order of the
placements. It is the one made for its own request exactly where as many nodes were made before as there are placements
before it; so it is where every request belongs to a node of the graph. Then it has the class that the placement names,
if the index and the adder agree on the classes of modules. -/
theorem addStage_newIds {catalogue graph : Json} {index : Index} {plan : Plan} {desk desk' : Desk} {filled : Table Placement}
    (hplan : planOf graph index = .ok plan)
    (hrun : result (addStage (plan.requests.map Request.toJson) plan.placements catalogue) desk = (.ok filled, desk')) :
    ∃ nodes made, graphNodes graph = .ok nodes ∧
      (∀ node ∈ nodes, ∃ id, nodeId node = .ok id ∧ id ∈ plan.placements.keys) ∧
      List.Forall₂ (fun request => Serves chipThreshold catalogue (Request.toJson request)) plan.requests made ∧
      GraphGrown desk.save made.reduceOption desk'.save ∧
      ∀ id p, plan.placements.find id = some p → ∃ j c, filled.find id = some { p with newId := .str c.id } ∧
        made[j]? = some (some c) ∧ (made.take j).reduceOption.length = earlier plan.placements p.order ∧
        (j = p.order ↔ (∃ own, made[p.order]? = some (some own)) ∧
          (made.take p.order).reduceOption.length = earlier plan.placements p.order) ∧
        (plan.requests.length = plan.placements.toList.length → j = p.order) ∧
        (j = p.order → Agrees catalogue index → p.gameName = .str (Text.firstPart c.id " : ")) := by
  obtain ⟨hordered,nodes,hnodes,hplaced⟩ := planOf_ordered hplan
  obtain ⟨created,desk₁,desk₂,hcreated,hgiven,hsave⟩ := addStage_eq_ok hrun
  obtain ⟨made,hmade,rfl,hgrown⟩ := addModules_serves hcreated
  have hserves : Forall₂ (fun request => Serves chipThreshold catalogue (Request.toJson request)) plan.requests made :=
    List.forall₂_map_left_iff.1 hmade
  refine ⟨nodes,made,hnodes,hplaced,hserves,?_,fun id p hp => ?_⟩
  · rw [(giveIds_eq_ok hordered.orders hgiven).1,hsave]
    exact hgrown
  obtain ⟨c,hfilled,hc⟩ := newId_of_giveIds hordered hgiven hp
  obtain ⟨j,hj,hcount⟩ := exists_of_reduceOption hc
  have hmem := Table.mem_of_find hp
  have hown : (∃ own, made[p.order]? = some (some own)) ∧
      (made.take p.order).reduceOption.length = earlier plan.placements p.order → j = p.order := by
    rintro ⟨⟨own,hown⟩,hbefore⟩
    exact eq_of_reduceOption hj hown (hcount.trans hbefore.symm)
  refine ⟨j,c,hfilled,hj,hcount,⟨?_,hown⟩,?_,?_⟩
  · rintro rfl
    exact ⟨⟨c,hj⟩,hcount⟩
  · intro hfull
    refine hown (made_of_full hordered hfull hserves.length_eq.symm (fun entry hentry => ?_) hmem)
    obtain ⟨found,-,hfound⟩ := newId_of_giveIds hordered hgiven (Table.find_of_mem hordered.keys hentry)
    exact ⟨found,hfound⟩
  · rintro rfl hagrees
    obtain ⟨key,kind,request,hkind,hrequest,hname,hasks⟩ := (hordered.stands _ hmem).request
    obtain ⟨hlt,hget⟩ := List.getElem?_eq_some_iff.1 hrequest
    obtain ⟨hlt',hget'⟩ := List.getElem?_eq_some_iff.1 hj
    have hserved : Serves chipThreshold catalogue request.toJson (some c) := by
      rw [← hget,← hget']
      exact hserves.get hlt hlt'
    exact hname.trans (gameName_eq hagrees hkind hasks hserved)

def sampleCatalogue : Json :=
  .obj [("Foo",.obj [("id",.str "Foo"),("source_info",.obj [("chip_names_friendly_name",.str "Foo"),
      ("allmod_viewmodel",.str "FooNode")])]),
    ("Bar",.obj [("source_info",.obj [("chip_names_friendly_name",.str "Bar"),("allmod_viewmodel",.str "BarNode")])])]

def sampleIndex : Index :=
  [("foo",⟨some "Foo","Foo",.str "FooNode",[],[],true⟩),("bar",⟨some "Bar","Bar",.str "BarNode",[],[],true⟩),
    ("input",Index.inputKind),("output",Index.outputKind),("constant",Index.constantKind),
    ("variable",Index.variableKind)]

set_option maxRecDepth 4000 in
theorem ofCatalogue_sample : Index.ofCatalogue sampleCatalogue=.ok sampleIndex := rfl

def emptyDesk : Desk :=
  ⟨.obj [("saveObjectContainers",.arr [.obj [("saveObjects",.obj [("saveMetaDatas",.arr [
    .obj [("key",.str "chip_graph"),("stringValue",.str "\x7b\"Nodes\": []\x7d")],
    .obj [("key",.str "chip_variables"),("stringValue",.str "[]")]])])]])],fun n => toString n,0,[]⟩

def madeGraph : Json :=
  .obj [("nodes",.arr [.obj [("id",.str "a"),("type",.str "Foo")],.obj [("id",.str "b"),("type",.str "Input")]])]

def madePlan : Plan :=
  ⟨[.module "Foo",.input (.str "Input")],[("a",⟨"Foo",.str "FooNode",0,.null,some "Foo",true,none⟩),
      ("b",⟨"Input",.str "RootNodeViewModel",1,.null,some "256",true,none⟩)]⟩

set_option maxRecDepth 4000 in
theorem planOf_made : planOf madeGraph sampleIndex=.ok madePlan := rfl

def skippedGraph : Json :=
  .obj [("nodes",.arr [.obj [("id",.str "a"),("type",.str "Bar")],.obj [("id",.str "b"),("type",.str "Input")]]),
    ("variables",.arr [.obj [("Key",.str "V"),("GateDataType",.str "Number"),("Value",.int 0)]])]

def skippedPlan : Plan :=
  ⟨[.module "Bar",.input (.str "Input"),.variable (.str "V") (.str "Number") (.int 0)],
    [("a",⟨"Bar",.str "BarNode",0,.null,some "Bar",true,none⟩),
      ("b",⟨"Input",.str "RootNodeViewModel",1,.null,some "256",true,none⟩)]⟩

set_option maxRecDepth 4000 in
theorem planOf_skipped : planOf skippedGraph sampleIndex=.ok skippedPlan := rfl

theorem result_addStage_two {a b first second : String} {q : Placement} (hplacements : placements=[(a,p),(b,q)])
    (hp : p.order=0) (hq : q.order=1)
    (h : ((result (addModules (.arr requests) modules chipThreshold) desk).1.toOption.map fun created => created.map (·.id))=some [first,second]) :
    ∃ desk', result (addStage requests placements modules) desk =
      (.ok [(a,{ p with newId := .str first }),(b,{ q with newId := .str second })],desk') := by
  subst hplacements
  obtain ⟨created,desk₁,hcreated,hids⟩ := result_of_ids h
  obtain ⟨c,c',rfl⟩ : ∃ c c', created=[c,c'] := length_eq_two.1 (by simpa using congrArg List.length hids)
  obtain ⟨rfl,rfl⟩ : c.id=first ∧ c'.id=second := by simpa using hids
  have horders : sortedOrders [(a,p),(b,q)]=[0,1] := by
    simp only [sortedOrders,Table.toList,map_cons,map_nil,hp,hq]
    exact mergeSort_of_pairwise (by decide)
  have hgiven : ∀ desk, result (giveIds [c,c'] [(a,p),(b,q)]) desk =
      (.ok [(a,{ p with newId := .str c.id }),(b,{ q with newId := .str c'.id })],desk) := by
    intro desk
    unfold giveIds
    rw [horders]
    cases p
    cases q
    cases hp
    cases hq
    rfl
  unfold addStage
  rw [result_bind_ok (result_tryCatch_throw_eq_ok.2 hcreated),result_say_bind]
  dsimp only
  split_ifs
  · rw [result_say_bind]
    exact ⟨_,hgiven _⟩
  · exact ⟨_,hgiven _⟩

theorem agrees_sample : Agrees sampleCatalogue sampleIndex := by
  have hfoo : classFor chipThreshold sampleCatalogue (.str "Foo")=.ok (some (.str "FooNode")) := rfl
  have hbar : classFor chipThreshold sampleCatalogue (.str "Bar")=.ok none := rfl
  intro key kind hkind
  simp only [sampleIndex,Table.find_cons] at hkind
  split_ifs at hkind
  · cases hkind
    exact ⟨"FooNode",rfl,by decide,fun found h => (Option.some.inj (Except.ok.inj (hfoo.symm.trans h))).symm⟩
  · cases hkind
    exact ⟨"BarNode",rfl,by decide,fun found h => nomatch Except.ok.inj (hbar.symm.trans h)⟩
  · cases hkind
    exact ⟨"RootNodeViewModel",rfl,by decide,fun found h => (Option.some.inj (Except.ok.inj h)).symm⟩
  · cases hkind
    exact ⟨"ExitNodeViewModel",rfl,by decide,fun found h => (Option.some.inj (Except.ok.inj h)).symm⟩
  · cases hkind
    exact ⟨"ConstantNodeViewModel",rfl,by decide,fun found h => (Option.some.inj (Except.ok.inj h)).symm⟩
  · cases hkind
    exact ⟨"VariableNodeViewModel",rfl,by decide,fun found h => (Option.some.inj (Except.ok.inj h)).symm⟩
  · cases hkind

theorem addStage_newIds_made : planOf madeGraph sampleIndex = .ok madePlan ∧ ∃ filled desk',
    result (addStage (madePlan.requests.map Request.toJson) madePlan.placements sampleCatalogue) emptyDesk =
      (.ok filled, desk') ∧
    ∀ id p, madePlan.placements.find id = some p → ∃ c : Created, filled.find id = some { p with newId := .str c.id } ∧
      p.gameName = .str (Text.firstPart c.id " : ") := by
  have hids : ((result (addModules (.arr (madePlan.requests.map Request.toJson)) sampleCatalogue chipThreshold)
      emptyDesk).1.toOption.map fun created => created.map (·.id)) = some ["FooNode : 0","RootNodeViewModel : 2"] := by
    decide +kernel
  obtain ⟨desk',hrun⟩ := result_addStage_two (show madePlan.placements = [(_,_),(_,_)] from rfl) rfl rfl hids
  refine ⟨planOf_made,_,desk',hrun,fun id p hp => ?_⟩
  obtain ⟨nodes,made,-,-,-,-,hfilled⟩ := addStage_newIds planOf_made hrun
  obtain ⟨j,c,hid,-,-,-,hown,hclass⟩ := hfilled id p hp
  exact ⟨c,hid,hclass (hown rfl) agrees_sample⟩

theorem addStage_shifts_ids : Index.ofCatalogue sampleCatalogue = .ok sampleIndex ∧
    planOf skippedGraph sampleIndex = .ok skippedPlan ∧ ∃ filled desk' p,
      result (addStage (skippedPlan.requests.map Request.toJson) skippedPlan.placements sampleCatalogue) emptyDesk =
        (.ok filled, desk') ∧ filled.find "b" = some p ∧ p.gameName = .str "RootNodeViewModel" ∧
      p.newId = .str "VariableNodeViewModel : 3" := by
  have hids : ((result (addModules (.arr (skippedPlan.requests.map Request.toJson)) sampleCatalogue chipThreshold)
      emptyDesk).1.toOption.map fun created => created.map (·.id)) =
        some ["RootNodeViewModel : 1","VariableNodeViewModel : 3"] := by
    decide +kernel
  obtain ⟨desk',hrun⟩ := result_addStage_two (show skippedPlan.placements = [(_,_),(_,_)] from rfl) rfl rfl hids
  exact ⟨ofCatalogue_sample,planOf_skipped,_,desk',_,hrun,rfl,rfl,rfl⟩

end ChipForge.Workshop
