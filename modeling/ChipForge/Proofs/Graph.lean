import ChipForge.Wiring.Compiler.State
import Mathlib.Data.List.Perm.Subperm
import Mathlib.Data.List.Nodup

/-! What adding and changing nodes does to the ids of a graph and to the records found under them, and that a new id is
one that no number was used for before. -/
namespace ChipForge.Wiring
open Script List

/-- The attributes of a node. -/
abbrev Attrs := List (Literal×Literal)

def Node.kind (n : Node) : String×Attrs := (n.type,n.attrs)

theorem attr?_setAttr_ne {attrs : Attrs} {key other : String} {v : Literal} (h : key≠other) :
    attr? (setAttr attrs key v) other=attr? attrs other := by
  have hkey : ∀ k : Literal, Literal.same k (.str key)=true→Literal.same k (.str other)=false := by
    intro k hk
    cases k <;> simp [Literal.same,Literal.numeric?] at hk ⊢
    exact hk ▸ h
  unfold attr? setAttr Literal.get?
  dsimp only
  congr 1
  induction attrs with
  | nil => simp [Literal.insertEntry,Literal.same,h]
  | cons entry rest ih =>
    obtain ⟨k,w⟩ := entry
    unfold Literal.insertEntry
    split_ifs with hk
    · simp [hkey k hk]
    · simp only [find?_cons,ih]

namespace Graph

variable {g : Graph} {n : Nat} {f : Node→Node} {id : String} {γ : Type} {k : Node→γ}

def ids (g : Graph) : List String := g.nodes.map (·.id)

def idsFrom (g : Graph) (n : Nat) : List String := (g.nodes.drop n).map (·.id)

theorem mem_ids_of_mem_idsFrom (h : id∈g.idsFrom n) : id∈g.ids := by
  obtain ⟨node,hnode,rfl⟩ := mem_map.1 h
  exact mem_map.2 ⟨node,mem_of_mem_drop hnode,rfl⟩

theorem hasNode_iff (g : Graph) (id : String) : g.hasNode id=true ↔ id∈g.ids := by
  simp [hasNode,ids]

@[simp] theorem ids_addNode (g : Graph) (node : Node) : (g.addNode node).ids=g.ids++[node.id] := by
  simp [ids,addNode]

theorem idsFrom_addNode (h : n ≤ g.nodes.length) (node : Node) : (g.addNode node).idsFrom n=g.idsFrom n++[node.id] := by
  simp [idsFrom,addNode,drop_append_of_le_length h]

theorem lastNode?_addNode (g : Graph) (node : Node) (id : String) :
    (g.addNode node).lastNode? id=if node.id=id then some node else g.lastNode? id := by
  simp only [lastNode?,addNode,reverse_append,reverse_singleton,singleton_append,find?_cons]
  by_cases h : node.id=id
  · simp [h]
  · simp [h,beq_eq_false_iff_ne.2 h]

theorem lastNode?_eq_none_iff (g : Graph) (id : String) : g.lastNode? id=none ↔ id∉g.ids := by
  simp [lastNode?,ids]

theorem updateLast_nodes (g : Graph) (id : String) (f : Node→Node) :
    (id∉g.ids ∧ (g.updateLast id f).nodes=g.nodes) ∨
      ∃ front node back, g.nodes=front++node::back ∧ node.id=id ∧ (∀ other∈back, other.id≠id) ∧
        (g.updateLast id f).nodes=front++f node::back := by
  have hgo : ∀ nodes : List Node,
      ((∀ other∈nodes, other.id≠id) ∧ updateLast.go id f nodes=(nodes,false)) ∨
        ∃ front node back, nodes=front++node::back ∧ node.id=id ∧ (∀ other∈back, other.id≠id) ∧
          updateLast.go id f nodes=(front++f node::back,true) := by
    intro nodes
    induction nodes with
    | nil => exact .inl ⟨by simp,rfl⟩
    | cons first rest ih =>
      rcases ih with ⟨hrest,hgo⟩ | ⟨front,node,back,rfl,hid,hback,hgo⟩
      · by_cases hfirst : first.id=id
        · refine .inr ⟨[],first,rest,rfl,hfirst,hrest,?_⟩
          simp [updateLast.go,hgo,hfirst]
        · refine .inl ⟨?_,?_⟩
          · simpa [hfirst] using hrest
          · simp [updateLast.go,hgo,hfirst]
      · refine .inr ⟨first::front,node,back,rfl,hid,hback,?_⟩
        simp [updateLast.go,hgo]
  rcases hgo g.nodes with ⟨hnone,hgo⟩ | ⟨front,node,back,hnodes,hid,hback,hgo⟩
  · refine .inl ⟨?_,?_⟩
    · simpa [ids] using hnone
    · rw [updateLast,hgo]
  · refine .inr ⟨front,node,back,hnodes,hid,hback,?_⟩
    rw [updateLast,hgo]

theorem updateLast_concat {front : List Node} {node : Node} (h : g.nodes=front++[node]) (hid : node.id=id)
    (f : Node→Node) : (g.updateLast id f).nodes=front++[f node] := by
  subst hid
  rcases g.updateLast_nodes node.id f with ⟨hnone,-⟩ | ⟨front',node',back,hnodes,-,hback,hupdate⟩
  · exact absurd (by simp [ids,h]) hnone
  · rcases eq_nil_or_concat back with rfl | ⟨back',last,rfl⟩
    · obtain ⟨rfl,hlast⟩ := append_inj' (h.symm.trans hnodes) rfl
      cases hlast
      exact hupdate
    · have hsplit : front++[node]=(front'++node'::back')++[last] := by simp [← h,hnodes]
      obtain ⟨-,hlast⟩ := append_inj' hsplit rfl
      cases hlast
      exact absurd rfl (hback node (by simp))

/-- Where ids are distinct, the last node under an id is the one with that id. -/
theorem updateLast_of_nodup (h : g.ids.Nodup) (id : String) (f : Node→Node) :
    (g.updateLast id f).nodes=g.nodes.map fun n => if n.id=id then f n else n := by
  have hothers : ∀ nodes : List Node, (∀ n∈nodes, n.id≠id) → nodes.map (fun n => if n.id=id then f n else n)=nodes := by
    intro nodes hne
    exact (map_congr_left fun n hn => if_neg (hne n hn)).trans nodes.map_id'
  rcases g.updateLast_nodes id f with ⟨hnone,hupdate⟩ | ⟨front,node,back,hnodes,hid,hback,hupdate⟩
  · rw [hupdate,hothers]
    exact fun n hn hid => hnone (hid ▸ mem_map_of_mem hn)
  · have hfront : ∀ n∈front, n.id≠id := by
      intro n hn heq
      rw [ids,hnodes,map_append,map_cons,nodup_append] at h
      exact h.2.2 n.id (mem_map_of_mem hn) node.id mem_cons_self (heq.trans hid.symm)
    rw [hupdate,hnodes,map_append,map_cons,hothers front hfront,hothers back hback,if_pos hid]

theorem map_updateLast (hk : ∀ node, k (f node)=k node) (g : Graph) (id : String) :
    (g.updateLast id f).nodes.map k=g.nodes.map k := by
  rcases g.updateLast_nodes id f with ⟨-,h⟩ | ⟨front,node,back,hnodes,-,-,h⟩
  · rw [h]
  · rw [h,hnodes,map_append,map_append,map_cons,map_cons,hk]

theorem map_updateAt (hk : ∀ node, k (f node)=k node) (g : Graph) (i : Nat) :
    (g.updateAt i f).nodes.map k=g.nodes.map k := by
  refine ext_getElem? fun j => ?_
  simp only [updateAt,getElem?_map,getElem?_modify]
  cases g.nodes[j]? with
  | none => rfl
  | some node =>
    by_cases hij : i=j <;> simp [hij,hk]

theorem ids_updateLast (hf : ∀ node, (f node).id=node.id) (g : Graph) (id : String) : (g.updateLast id f).ids=g.ids :=
  g.map_updateLast hf id

theorem ids_updateAt (hf : ∀ node, (f node).id=node.id) (g : Graph) (i : Nat) : (g.updateAt i f).ids=g.ids :=
  g.map_updateAt hf i

/-- A change of the last node under an id that stands from a place on leaves the nodes before it. -/
theorem take_updateLast (h : id∈g.idsFrom n) (f : Node→Node) : (g.updateLast id f).nodes.take n=g.nodes.take n := by
  rcases g.updateLast_nodes id f with ⟨hnone,-⟩ | ⟨front,node,back,hnodes,hid,hback,hupdate⟩
  · exact absurd (mem_ids_of_mem_idsFrom h) hnone
  · have hfront : n ≤ front.length := by
      by_contra hlt
      obtain ⟨other,hother,hsame⟩ := mem_map.1 h
      have hdrop : g.nodes.drop n=back.drop (n - front.length - 1) := by
        obtain ⟨k,hk⟩ : ∃ k, n - front.length=k+1 := ⟨n - front.length - 1,by omega⟩
        rw [hnodes,drop_append,drop_eq_nil_of_le (by omega),nil_append,hk,drop_succ_cons,
          Nat.add_sub_cancel]
      rw [hdrop] at hother
      exact hback other (mem_of_mem_drop hother) hsame
    rw [hupdate,hnodes,take_append_of_le_length hfront,take_append_of_le_length hfront]

theorem take_updateAt (g : Graph) {i : Nat} (h : n ≤ i) (f : Node→Node) :
    (g.updateAt i f).nodes.take n=g.nodes.take n := by
  refine ext_getElem? fun j => ?_
  simp only [updateAt,getElem?_take,getElem?_modify]
  by_cases hj : j < n
  · have hij : i≠j := by omega
    simp [hij]
  · simp [hj]

def kind? (g : Graph) (id : String) : Option (String×Attrs) := (g.lastNode? id).map Node.kind

theorem kind?_congr {h : Graph} (hnodes : h.nodes.map (fun n => (n.id,n.kind))=g.nodes.map fun n => (n.id,n.kind))
    (id : String) : h.kind? id=g.kind? id := by
  have hkind : ∀ g : Graph, g.kind? id =
      ((g.nodes.map fun n => (n.id,n.kind)).reverse.find? (·.1 == id)).map (·.2) := by
    intro g
    rw [kind?,lastNode?,← map_reverse,find?_map,Option.map_map]
    rfl
  rw [hkind,hkind,hnodes]

theorem kind?_addNode (g : Graph) (node : Node) (id : String) :
    (g.addNode node).kind? id=if node.id=id then some node.kind else g.kind? id := by
  rw [kind?,lastNode?_addNode]
  split_ifs <;> rfl

theorem kind?_isSome_iff (g : Graph) (id : String) : (g.kind? id).isSome ↔ id∈g.ids := by
  rw [kind?,Option.isSome_map,← not_iff_not,← lastNode?_eq_none_iff]
  simp

theorem lastNode?_updateLast (hf : ∀ node, (f node).id=node.id) (g : Graph) (id other : String) :
    (g.updateLast id f).lastNode? other=if other=id then (g.lastNode? id).map f else g.lastNode? other := by
  rcases g.updateLast_nodes id f with ⟨hnone,h⟩ | ⟨front,node,back,hnodes,hid,hback,h⟩
  · rw [lastNode?,h,← lastNode?]
    split_ifs with ho
    · rw [ho,(g.lastNode?_eq_none_iff id).2 hnone]
      rfl
    · rfl
  · have hskip : back.reverse.find? (·.id == id)=none := by
      simpa using hback
    simp only [lastNode?,h,hnodes,reverse_append,reverse_cons,find?_append]
    by_cases ho : other=id
    · simp [ho,hskip,hf,hid]
    · have hne : id≠other := Ne.symm ho
      simp [ho,hf,hid,hne]

theorem idOf_injective (base : String) : Function.Injective (idOf base) := by
  intro m n h
  have htext : toString m=toString n := (String.append_right_inj _).1 h
  have hdigits : Nat.toDigits 10 m=Nat.toDigits 10 n := String.ofList_injective htext
  rw [← Nat.ofDigitChars_ten_toDigits (n := m),hdigits,Nat.ofDigitChars_ten_toDigits]

theorem freeNumber_spec (used : List String) (base : String) (fuel i : Nat) :
    idOf base (freeNumber used base fuel i)∉used ∨ ∀ k ≤ fuel, idOf base (i+k)∈used := by
  induction fuel generalizing i with
  | zero =>
    by_cases hi : idOf base i∈used
    · exact .inr fun k hk => by rwa [Nat.le_zero.1 hk]
    · exact .inl hi
  | succ fuel ih =>
    by_cases hi : idOf base i∈used
    · rw [freeNumber,if_pos (by simpa using hi)]
      rcases ih (i+1) with hfree | htaken
      · exact .inl hfree
      · refine .inr fun k hk => ?_
        cases k with
        | zero => exact hi
        | succ k =>
          have hnext := htaken k (by omega)
          rwa [Nat.add_assoc,Nat.add_comm 1 k] at hnext
    · rw [freeNumber,if_neg (by simpa using hi)]
      exact .inl hi

/-- There are more numbers to try than used ids, so the search ends at a free one. -/
theorem freeNumber_free (used : List String) (base : String) (i : Nat) :
    idOf base (freeNumber used base used.length i)∉used := by
  rcases freeNumber_spec used base used.length i with hfree | htaken
  · exact hfree
  · let tried := (List.range (used.length+1)).map fun k => idOf base (i+k)
    have hnodup : tried.Nodup := by
      refine nodup_range.map fun j k hjk => ?_
      exact Nat.add_left_cancel (idOf_injective base hjk)
    have hsubset : tried ⊆ used := by
      intro id hid
      obtain ⟨k,hk,rfl⟩ := mem_map.1 hid
      exact htaken k (Nat.lt_succ_iff.1 (mem_range.1 hk))
    have hlength := (subperm_of_subset hnodup hsubset).length_le
    rw [length_map,length_range] at hlength
    omega

theorem nextId_notMem_used (g : Graph) (type : String) : (g.nextId type).1∉g.used :=
  freeNumber_free g.used (idBase type) (g.counter (idBase type))

end Graph

end ChipForge.Wiring
