import ChipForge.Layout.Layers
import ChipForge.Proofs.ChipWires
import Mathlib.Data.List.Nodup
import Mathlib.Data.List.Perm.Subperm
import Mathlib.Logic.Relation
import Mathlib.Order.Bounds.Defs

/-! A walk visits every node once. A node is pushed to the left by each visit of a node that it feeds, so what counts is
not the longest row of wires after it, but the longest one that the walk visits from its end. -/
namespace ChipForge.Layout
open List

def back (top : Int) : Passing := ⟨top,fun cur layer => min cur (layer - 1)⟩

variable {next : Table (List String)} {top : Int} {w : Walk}

/-- How far the visits so far push a node down, the latest visit first. -/
def pushed (next : Table (List String)) : List String→String→Nat
  | [], _ => 0
  | a::earlier, id =>
    if id∈neighbours next a then max (pushed next earlier id) (pushed next earlier a+1) else pushed next earlier id

/-- A walk from some nodes that has visited others. Those that were met and not visited wait in the queue. -/
structure Walk.Sound (next : Table (List String)) (top : Int) (first visited : List String) (w : Walk) : Prop where
  seen : w.seen=visited++w.queue
  keys : w.layers.keys=w.seen
  nodup : w.seen.Nodup
  starts : ∀ id∈first, id∈w.seen
  reached : ∀ id∈w.seen, ∃ a∈first, Relation.ReflTransGen (fun a b => b∈neighbours next a) a id
  closed : ∀ a∈visited, ∀ b∈neighbours next a, b∈w.seen
  layers : (∀ a, a∉neighbours next a)→∀ id, w.layer (back top) id=top - pushed next visited.reverse id

theorem Walk.layer_meet (p : Passing) (a b : String) (w : Walk) (id : String) :
    (w.meet p a b).layer p id=if id=b then p.offer (w.layer p b) (w.layer p a) else w.layer p id := by
  unfold Walk.meet
  split_ifs with hseen hid hid <;> simp [Walk.layer,hid]

theorem Walk.layer_visit {bs : List String} (ha : a∉bs) (w : Walk) (id : String) :
    (bs.foldl (Walk.meet (back top) a) w).layer (back top) id =
      if id∈bs then min (w.layer (back top) id) (w.layer (back top) a - 1) else w.layer (back top) id := by
  induction bs generalizing w with
  | nil => rfl
  | cons b rest ih =>
    obtain ⟨hb,hrest⟩ := not_or.1 (mt mem_cons.2 ha)
    rw [foldl_cons,ih hrest]
    simp only [Walk.layer_meet,if_neg hb,mem_cons]
    by_cases hid : id=b
    · subst hid
      simp only [true_or,if_true,back]
      split_ifs <;> omega
    · simp only [hid,false_or,if_false]

theorem Walk.meets_visit (p : Passing) (a : String) (bs : List String) (hkeys : w.layers.keys=w.seen)
    (hnodup : w.seen.Nodup) : ∃ new, (bs.foldl (Walk.meet p a) w).seen=w.seen++new ∧
      (bs.foldl (Walk.meet p a) w).queue=w.queue++new ∧
      (bs.foldl (Walk.meet p a) w).layers.keys=w.seen++new ∧ (w.seen++new).Nodup ∧
      (∀ b∈new, b∈bs) ∧ ∀ b∈bs, b∈w.seen++new := by
  induction bs generalizing w with
  | nil => exact ⟨[],by simp [hkeys,hnodup]⟩
  | cons b rest ih =>
    rw [foldl_cons]
    by_cases hb : b∈w.seen
    · have hmeet : w.meet p a b={ w with layers := w.layers.put b (p.offer (w.layer p b) (w.layer p a)) } := by
        simp [Walk.meet,hb]
      obtain ⟨new,hseen,hqueue,hkeys',hnodup',hnew,hmet⟩ := ih (w := w.meet p a b)
        (by rw [hmeet,Table.keys_put,if_pos (hkeys ▸ hb),hkeys]) (by rwa [hmeet])
      rw [hmeet] at hseen hqueue hkeys' hnodup' hmet ⊢
      exact ⟨new,hseen,hqueue,hkeys',hnodup',fun x hx => mem_cons_of_mem _ (hnew x hx),
        forall_mem_cons.2 ⟨mem_append_left _ hb,hmet⟩⟩
    · have hmeet : w.meet p a b =
          ⟨w.queue++[b],w.seen++[b],w.layers.put b (p.offer (w.layer p b) (w.layer p a))⟩ := by
        simp [Walk.meet,hb]
      have hfresh : (w.seen++[b]).Nodup := by
        refine nodup_append.2 ⟨hnodup,nodup_singleton b,fun x hx y hy hxy => hb ?_⟩
        rwa [← mem_singleton.1 hy,← hxy]
      obtain ⟨new,hseen,hqueue,hkeys',hnodup',hnew,hmet⟩ := ih (w := w.meet p a b)
        (by rw [hmeet,Table.keys_put,if_neg (hkeys ▸ hb),hkeys]) (by rwa [hmeet])
      rw [hmeet] at hseen hqueue hkeys' hnodup' hmet ⊢
      simp only [append_assoc,singleton_append] at hseen hqueue hkeys' hnodup' hmet
      refine ⟨b::new,hseen,hqueue,hkeys',hnodup',?_,?_⟩
      · exact forall_mem_cons.2 ⟨mem_cons_self,fun x hx => mem_cons_of_mem _ (hnew x hx)⟩
      · exact forall_mem_cons.2 ⟨by simp,hmet⟩

theorem Walk.Sound.visit {rest : List String} (h : w.Sound next top first visited) (hqueue : w.queue=a::rest) :
    ((neighbours next a).foldl (Walk.meet (back top) a) { w with queue := rest }).Sound next top first (visited++[a]) := by
  obtain ⟨new,hseen,hqueue',hkeys,hnodup,hnew,hmet⟩ :=
    Walk.meets_visit (back top) a (neighbours next a) (w := { w with queue := rest }) h.keys h.nodup
  have ha : a∈w.seen := by
    rw [h.seen,hqueue]
    simp
  refine ⟨?_,?_,?_,?_,?_,?_,?_⟩
  · rw [hseen,hqueue',h.seen,hqueue]
    simp
  · rw [hkeys,hseen]
  · rwa [hseen]
  · intro id hid
    rw [hseen]
    exact mem_append_left _ (h.starts id hid)
  · intro id hid
    rw [hseen,mem_append] at hid
    rcases hid with hid | hid
    · exact h.reached id hid
    · obtain ⟨b,hb,hreach⟩ := h.reached a ha
      exact ⟨b,hb,hreach.tail (hnew id hid)⟩
  · intro b hb c hc
    rw [hseen]
    rcases mem_append.1 hb with hb | hb
    · exact mem_append_left _ (h.closed b hb c hc)
    · cases mem_singleton.1 hb
      exact hmet c hc
  · intro hloops id
    rw [Walk.layer_visit (hloops a)]
    have hlayer : ∀ x, Walk.layer (back top) { w with queue := rest } x=top - pushed next visited.reverse x :=
      h.layers hloops
    rw [hlayer,hlayer,reverse_append,reverse_singleton,singleton_append]
    simp only [pushed]
    split_ifs <;> omega

/-- A walk that stays among so many nodes comes to its end in as many visits. -/
theorem Walk.Sound.run {ids : List String} (h : w.Sound next top first visited) (hids : ∀ id∈w.seen, id∈ids)
    (hnext : ∀ a, ∀ b∈neighbours next a, b∈ids) {fuel : Nat} (hfuel : ids.length < fuel+visited.length) :
    (Walk.run (back top) next fuel w).Sound next top first (Walk.run (back top) next fuel w).seen := by
  have hshort : w.seen.length ≤ ids.length := (h.nodup.subperm hids).length_le
  rw [h.seen,length_append] at hshort
  induction fuel generalizing w visited with
  | zero => omega
  | succ fuel ih =>
    rw [Walk.run]
    cases hqueue : w.queue with
    | nil =>
      have hseen : w.seen=visited := by rw [h.seen,hqueue,append_nil]
      exact hseen ▸ h
    | cons a rest =>
      have hvisit := h.visit hqueue
      have hmem : ∀ id∈((neighbours next a).foldl (Walk.meet (back top) a) { w with queue := rest }).seen, id∈ids := by
        obtain ⟨new,hseen,-,-,-,hnew,-⟩ :=
          Walk.meets_visit (back top) a (neighbours next a) (w := { w with queue := rest }) h.keys h.nodup
        intro id hid
        rw [hseen,mem_append] at hid
        exact hid.elim (hids id) fun hid => hnext a id (hnew id hid)
      refine ih hvisit hmem ?_ ?_
      · rw [length_append,length_singleton]
        omega
      · have := (hvisit.nodup.subperm hmem).length_le
        rwa [hvisit.seen,length_append] at this

theorem Walk.Sound.start (hfirst : first.Nodup) :
    Walk.Sound next top first [] ⟨first,first,first.foldl (fun (t : Table Int) id => t.put id top) Table.empty⟩ := by
  refine ⟨rfl,Table.keys_foldl_put _ hfirst,hfirst,fun _ h => h,fun id h => ⟨id,h,.refl⟩,
    fun a ha => absurd ha not_mem_nil,fun _ id => ?_⟩
  rw [Walk.layer,Table.find_foldl_put,reverse_nil,pushed,Int.natCast_zero,Int.sub_zero]
  split_ifs <;> rfl

/-- A row of nodes after a node, each fed by the one before it, which a walk visits from its end. -/
structure Trail (next : Table (List String)) (visits : List String) (id : String) (row : List String) : Prop where
  chain : (id::row).IsChain fun a b => a∈neighbours next b
  order : row.Sublist visits.reverse

/-- A node is pushed down by the length of its longest trail. -/
theorem isGreatest_pushed (next : Table (List String)) (visits : List String) (id : String) :
    IsGreatest {n | ∃ row, Trail next visits id row ∧ row.length=n} (pushed next visits.reverse id) := by
  suffices h : ∀ (earlier : List String) (id : String),
      (∃ row : List String, (id::row).IsChain (fun a b => a∈neighbours next b) ∧ row.Sublist earlier ∧
        row.length=pushed next earlier id) ∧
      ∀ row : List String, (id::row).IsChain (fun a b => a∈neighbours next b) → row.Sublist earlier →
        row.length ≤ pushed next earlier id by
    obtain ⟨⟨row,hchain,horder,hlength⟩,hleast⟩ := h visits.reverse id
    refine ⟨⟨row,⟨hchain,horder⟩,hlength⟩,?_⟩
    rintro n ⟨row,hrow,rfl⟩
    exact hleast row hrow.chain hrow.order
  intro earlier
  induction earlier with
  | nil =>
    intro id
    refine ⟨⟨[],List.IsChain.singleton id,Sublist.slnil,rfl⟩,fun row _ horder => ?_⟩
    simp [sublist_nil.1 horder]
  | cons a earlier ih =>
    intro id
    obtain ⟨⟨row,hchain,horder,hlength⟩,hleast⟩ := ih id
    obtain ⟨⟨rowA,hchainA,horderA,hlengthA⟩,hleastA⟩ := ih a
    constructor
    · by_cases hid : id∈neighbours next a ∧ pushed next earlier id < pushed next earlier a+1
      · refine ⟨a::rowA,isChain_cons_cons.2 ⟨hid.1,hchainA⟩,horderA.cons_cons a,?_⟩
        rw [pushed,if_pos hid.1,length_cons,hlengthA]
        omega
      · refine ⟨row,hchain,horder.cons a,?_⟩
        rw [pushed,hlength]
        split_ifs with hmem
        · have := Nat.not_lt.1 fun h => hid ⟨hmem,h⟩
          omega
        · rfl
    · intro row' hchain' horder'
      rw [pushed]
      cases horder' with
      | cons _ horder' =>
        have := hleast row' hchain' horder'
        split_ifs <;> omega
      | @cons_cons rest _ _ horder' =>
        obtain ⟨hid,hchain'⟩ := isChain_cons_cons.1 hchain'
        have := hleastA rest hchain' horder'
        rw [if_pos hid,length_cons]
        omega

/-- A node without wires that lead on is reached along the wires. -/
def ReachesEnd (nodes : List Json) (id : String) : Prop :=
  ∃ last, (recordOf nodes last).isSome ∧ (∀ v, ¬ Feeds nodes last v) ∧ Relation.ReflTransGen (Feeds nodes) id last

variable {nodes : List Json} {ws : Wires} {first : List String} {a id : String} {visited : List String}

theorem ReachesEnd.isSome (h : ReachesEnd nodes id) : (recordOf nodes id).isSome := by
  obtain ⟨last,hlast,-,hreach⟩ := h
  rcases hreach.cases_head with rfl | ⟨v,hv,-⟩
  · exact hlast
  · exact hv.1

theorem lateLayers_walk (hws : ws.Of nodes) : ∃ walk : Walk, walk.layers=lateLayers ws ∧
    walk.Sound ws.before (depth ws) (ws.ids.filter fun id => (neighbours ws.after id).isEmpty) walk.seen := by
  have hstart : Walk.Sound ws.before (depth ws) _ [] _ :=
    .start (hws.nodup.filter fun id => (neighbours ws.after id).isEmpty)
  refine ⟨_,rfl,hstart.run (fun id hid => (mem_filter.1 hid).1) (fun a b hb => ?_) (Nat.lt_succ_self _)⟩
  rw [hws.ids]
  exact ((hws.before b a).1 hb).1

theorem nodup_keys_lateLayers (hws : ws.Of nodes) : (lateLayers ws).keys.Nodup := by
  obtain ⟨walk,hlayers,hwalk⟩ := lateLayers_walk hws
  rw [← hlayers,hwalk.keys]
  exact hwalk.nodup

/-- The nodes that have a layer are those from which an end is reached. -/
theorem mem_keys_lateLayers (hws : ws.Of nodes) (id : String) : id∈(lateLayers ws).keys ↔ ReachesEnd nodes id := by
  obtain ⟨walk,hlayers,hwalk⟩ := lateLayers_walk hws
  have hends : ∀ a, a∈ws.ids.filter (fun id => (neighbours ws.after id).isEmpty) ↔
      (recordOf nodes a).isSome ∧ ∀ v, ¬ Feeds nodes a v := by
    intro a
    rw [List.mem_filter,hws.ids,List.isEmpty_iff,List.eq_nil_iff_forall_not_mem]
    simp only [hws.after]
  have hback : ∀ a, Relation.ReflTransGen (fun a b => b∈neighbours ws.before a) a id ↔
      Relation.ReflTransGen (Feeds nodes) id a := by
    intro a
    rw [← Relation.reflTransGen_swap]
    simp only [Function.swap_def,hws.before]
  rw [← hlayers,hwalk.keys]
  constructor
  · intro hid
    obtain ⟨a,ha,hreach⟩ := hwalk.reached id hid
    exact ⟨a,((hends a).1 ha).1,((hends a).1 ha).2,(hback a).1 hreach⟩
  · rintro ⟨a,hrecord,hend,hreach⟩
    rw [← hback] at hreach
    clear hback
    induction hreach with
    | refl => exact hwalk.starts a ((hends a).2 ⟨hrecord,hend⟩)
    | tail _ hstep ih => exact hwalk.closed _ ih _ hstep

/-- If no node feeds itself, a layer lies as far below the greatest depth as its longest trail is long. -/
theorem isGreatest_depth_sub (hws : ws.Of nodes) (hloops : ∀ a, ¬ Feeds nodes a a) {layer : Int}
    (hid : (lateLayers ws).find id=some layer) :
    ∃ n : Nat, layer=depth ws - n ∧
      IsGreatest {n | ∃ row, Trail ws.before (lateLayers ws).keys id row ∧ row.length=n} n := by
  obtain ⟨walk,hlayers,hwalk⟩ := lateLayers_walk hws
  have hlayer := hwalk.layers (fun a ha => hloops a ((hws.before a a).1 ha)) id
  rw [Walk.layer,hlayers,hid,Option.getD_some] at hlayer
  rw [← hwalk.keys,hlayers] at hlayer
  exact ⟨_,hlayer,isGreatest_pushed ws.before (lateLayers ws).keys id⟩

end ChipForge.Layout
