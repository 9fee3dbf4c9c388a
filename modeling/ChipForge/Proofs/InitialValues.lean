import ChipForge.Proofs.Fields
import ChipForge.Proofs.RequestOrders

/-! Every variable that a graph defines is asked for. The first request for it carries the value of its last definition,
the others carry none, and all carry the type of that definition. -/
namespace ChipForge.Assembly
open Json Wiring
open List hiding lookup insert

variable {c c' : VariableContext} {definitions : Table Json} {requests unused : List Request} {request : Request}
  {node d : Json} {given : List Json} {k : String} {n : Nat}

/-- The definition of a key that counts, the last one. -/
def lastDefinition? (given : List Json) (k : String) : Option Json := given.reverse.find? (isKeyed k)

theorem definitionsByKey_eq_ok {table : Table Json} (h : definitionsByKey table given=.ok definitions)
    (hkeys : table.keys.Nodup) :
    definitions.keys.Nodup ∧ ∀ k, definitions.find k=(lastDefinition? given k).or (table.find k) := by
  induction given generalizing table with
  | nil =>
    cases h
    exact ⟨hkeys,fun k => rfl⟩
  | cons d rest ih =>
    obtain ⟨key,hkey,h⟩ := bind_eq_ok.1 h
    have hget := field_eq_ok hkey
    have hlast : ∀ k, lastDefinition? (d::rest) k=(lastDefinition? rest k).or (if isKeyed k d then some d else none) := by
      intro k
      rw [lastDefinition?,reverse_cons,find?_append,find?_singleton]
      rfl
    have hskip : (∀ k, isKeyed k d=false) → definitionsByKey table rest=.ok definitions →
        definitions.keys.Nodup ∧ ∀ k, definitions.find k=(lastDefinition? (d::rest) k).or (table.find k) := by
      intro hother hrest
      obtain ⟨hnodup,hfind⟩ := ih hrest hkeys
      exact ⟨hnodup,fun k => by rw [hfind,hlast,hother,if_neg Bool.false_ne_true,Option.or_none]⟩
    cases hfield : d.get? "Key" with
    | none =>
      rw [hfield] at hget
      cases hget
      exact hskip (fun k => by rw [isKeyed,hfield]) h
    | some value =>
      rw [hfield] at hget
      cases hget
      cases value with
      | str name =>
        obtain ⟨hnodup,hfind⟩ := ih h (Table.nodup_keys_put hkeys name d)
        refine ⟨hnodup,fun k => ?_⟩
        rw [hfind,hlast,Table.find_put,isKeyed,hfield]
        by_cases hk : k=name
        · simp [hk]
        · simp [hk,Ne.symm hk]
      | _ => exact hskip (fun k => by rw [isKeyed,hfield]) h

def asksFor (k : String) : Request→Bool
  | .variable (.str key) _ _ => key == k
  | _ => false

def firstRequest (k : String) (d : Json) : Request := .variable (.str k) (fieldOf d "GateDataType") (fieldOf d "Value")

def laterRequest (k : String) (d : Json) : Request := .variable (.str k) (fieldOf d "GateDataType") .null

/-- So many requests for a variable, the first of which sets its value. -/
def requestsFor (k : String) (d : Json) : Nat→List Request
  | 0 => []
  | n+1 => firstRequest k d::List.replicate n (laterRequest k d)

theorem requestsFor_append (k : String) (d : Json) (n : Nat) :
    requestsFor k d n++[if n=0 then firstRequest k d else laterRequest k d]=requestsFor k d (n+1) := by
  cases n with
  | zero => rfl
  | succ n =>
    rw [if_neg (Nat.succ_ne_zero n),requestsFor,requestsFor,replicate_succ']
    rfl

/-- The requests so far for the variables that are defined. -/
structure Asked (definitions : Table Json) (requests : List Request) (c : VariableContext) : Prop where
  context : c.definitions=definitions
  counted : ∀ k d, definitions.find k=some d → requests.filter (asksFor k)=requestsFor k d (c.count k)
  used : ∀ k, k∈c.used ↔ c.count k≠0
  defined : ∀ key gateType value, Request.variable key gateType value∈requests →
    ∃ k, key=.str k ∧ (definitions.find k).isSome

theorem definitionOf_eq_ok {id : String} (hkeys : c.definitions.keys.Nodup) (h : definitionOf c id=.ok (k,d)) :
    c.definitions.find k=some d := by
  rw [definitionOf] at h
  split at h
  · rename_i found hfound
    cases h
    obtain ⟨key,-,hkey⟩ := Option.bind_eq_some_iff.1 hfound
    obtain ⟨definition,hdefinition,hpair⟩ := Option.map_eq_some_iff.1 hkey
    cases hpair
    exact hdefinition
  · split at h
    · rename_i free hfree
      cases h
      exact Table.find_of_mem hkeys (mem_of_find?_eq_some hfree)
    · cases h

theorem requestVariable_eq_ok (hkeys : c.definitions.keys.Nodup) (h : requestVariable c node=.ok (request,c')) :
    ∃ k d, c.definitions.find k=some d ∧ request=(if c.count k=0 then firstRequest k d else laterRequest k d) ∧
      c'=c.use k := by
  obtain ⟨id,⟨k,d⟩,-,hd,h⟩ := bind_bind_eq_ok.1 h
  refine ⟨k,d,definitionOf_eq_ok hkeys hd,?_⟩
  dsimp only at h
  split_ifs at h with hcount
  all_goals
    obtain ⟨value,gateType,hvalue,hgateType,h⟩ := bind_bind_eq_ok.1 h
    cases h
    cases field_eq_ok hgateType
  · cases field_eq_ok hvalue
    exact ⟨(if_pos (eq_of_beq hcount)).symm,rfl⟩
  · cases hvalue
    exact ⟨(if_neg fun hzero => hcount (beq_iff_eq.2 hzero)).symm,rfl⟩

theorem count_use (c : VariableContext) (k other : String) :
    (c.use k).count other=if other=k then c.count k+1 else c.count other := by
  simp only [VariableContext.use,VariableContext.count,Table.find_put]
  split_ifs <;> rfl

theorem asksFor_of_defined (k : String) {key : String} (d : Json) (n : Nat) :
    asksFor k (if n=0 then firstRequest key d else laterRequest key d)=(key == k) := by
  split_ifs <;> rfl

theorem Asked.step (hkeys : definitions.keys.Nodup) (h : Asked definitions requests c) (hnotes : Notes node c request c') :
    Asked definitions (requests++[request]) c' := by
  rcases hnotes with hvariable | ⟨rfl,hother⟩
  -- A node of a variable adds one request for its key, and the counter of that key goes up.
  · obtain ⟨k,d,hd,rfl,rfl⟩ := requestVariable_eq_ok (h.context ▸ hkeys) hvariable
    rw [h.context] at hd
    refine ⟨h.context,fun other e he => ?_,fun other => ?_,fun key gateType value hmem => ?_⟩
    · rw [filter_append,h.counted other e he,filter_singleton,asksFor_of_defined,count_use]
      by_cases hk : other=k
      · subst hk
        cases hd.symm.trans he
        rw [beq_self_eq_true,if_pos rfl,cond_true,requestsFor_append]
      · rw [if_neg hk,beq_eq_false_iff_ne.2 (Ne.symm hk)]
        exact append_nil _
    · rw [count_use]
      have hused : other∈(c.use k).used ↔ other∈c.used ∨ other=k := by
        simp only [VariableContext.use]
        split_ifs with hk
        · rw [contains_iff_mem] at hk
          exact ⟨.inl,fun hother => hother.elim id fun hk' => hk' ▸ hk⟩
        · rw [mem_append,mem_singleton]
      rw [hused,h.used]
      split_ifs with hk <;> simp [hk]
    · rcases mem_append.1 hmem with hmem | hmem
      · exact h.defined key gateType value hmem
      · refine ⟨k,?_,by simp [hd]⟩
        have hsame := mem_singleton.1 hmem
        split_ifs at hsame <;> cases hsame <;> rfl
  · refine ⟨h.context,fun k d hd => ?_,h.used,fun key gateType value hmem => ?_⟩
    · have hnone : asksFor k request=false := by
        match request, hother with
        | .variable key gateType value, hother => exact absurd rfl (hother key gateType value)
        | .input _, _ | .output _, _ | .constant _, _ | .module _, _ => rfl
      rw [filter_append,h.counted k d hd,filter_singleton,hnone]
      exact append_nil _
    · exact h.defined key gateType value ((mem_append.1 hmem).resolve_right fun hmem =>
        hother key gateType value (mem_singleton.1 hmem).symm)

theorem planNodes_asked {index : Index} {nodes : List Json} {plan plan' : Plan} (hkeys : definitions.keys.Nodup)
    (h : planNodes index plan c nodes=.ok (plan',c')) (hasked : Asked definitions plan.requests c) :
    Asked definitions plan'.requests c' := by
  induction nodes generalizing plan c with
  | nil =>
    cases h
    exact hasked
  | cons node rest ih =>
    obtain ⟨kind,⟨request,c₁⟩,-,hrequest,h⟩ := bind_bind_eq_ok.1 h
    obtain ⟨id,-,h⟩ := bind_eq_ok.1 h
    exact ih h (hasked.step hkeys (requestOf_eq_ok hrequest).2)

/-- Variables without nodes are asked for in the order of their definitions. -/
theorem requestUnused_eq_ok (h : requestUnused c=.ok unused)
    (hkeyed : ∀ entry∈c.definitions.toList, isKeyed entry.1 entry.2=true) :
    unused=(c.definitions.toList.filter fun entry => !c.used.contains entry.1).map fun entry =>
      firstRequest entry.1 entry.2 := by
  refine eq_map_of_mapM h fun entry hentry request hrequest => ?_
  obtain ⟨key,gateType,hkey,hgateType,hrequest⟩ := bind_bind_eq_ok.1 hrequest
  obtain ⟨value,hvalue,hrequest⟩ := bind_eq_ok.1 hrequest
  cases hrequest
  cases field_eq_ok hgateType
  cases field_eq_ok hvalue
  have hentry := hkeyed entry (mem_filter.1 hentry).1
  rw [isKeyed] at hentry
  split at hentry
  · rename_i name hname
    cases field_eq_ok hkey
    rw [hname,Option.getD_some,eq_of_beq hentry]
    rfl
  · cases hentry

/-- What nodes do not ask for is asked for at the end. -/
theorem Asked.append_unused (h : Asked definitions requests c) (hunused : requestUnused c=.ok unused)
    (hkeys : definitions.keys.Nodup) (hkeyed : ∀ entry∈definitions.toList, isKeyed entry.1 entry.2=true) :
    (∀ k d, definitions.find k=some d→∃ n, (requests++unused).filter (asksFor k)=requestsFor k d (n+1)) ∧
      ∀ key gateType value, Request.variable key gateType value∈requests++unused →
        ∃ k, key=.str k ∧ (definitions.find k).isSome := by
  have hmap := requestUnused_eq_ok hunused (h.context ▸ hkeyed)
  rw [h.context] at hmap
  subst hmap
  refine ⟨fun k d hd => ?_,fun key gateType value hmem => ?_⟩
  · have hask : (asksFor k ∘ fun entry : String×Json => firstRequest entry.1 entry.2)=fun entry => entry.1 == k := rfl
    rw [filter_append,h.counted k d hd,filter_map,hask,filter_comm,Table.filter_key hkeys hd,
      filter_singleton]
    cases hcount : c.count k with
    | zero =>
      have hunused : k∉c.used := fun hk => (h.used k).1 hk hcount
      simp [hunused,requestsFor]
    | succ n =>
      have hused : k∈c.used := (h.used k).2 (by omega)
      exact ⟨n,by simp [hused]⟩
  · rcases mem_append.1 hmem with hmem | hmem
    · exact h.defined key gateType value hmem
    · obtain ⟨entry,hentry,hsame⟩ := mem_map.1 hmem
      cases hsame
      exact ⟨entry.1,rfl,by rw [Table.find_of_mem hkeys (mem_filter.1 hentry).1]; rfl⟩

/-- Every variable that is defined is asked for; the first request carries the value of its last definition and the others
none, and all carry the type of that definition. Nothing else is asked for as a variable. -/
theorem planOf_initialises {graph : Json} {index : Index} {plan : Plan} (h : planOf graph index = .ok plan) :
    ∃ given, graphVariables graph = .ok given ∧
      (∀ k d, lastDefinition? given k = some d → ∃ n, plan.requests.filter (asksFor k) =
        .variable (.str k) (fieldOf d "GateDataType") (fieldOf d "Value") ::
          List.replicate n (.variable (.str k) (fieldOf d "GateDataType") .null)) ∧
      ∀ key gateType value, Request.variable key gateType value ∈ plan.requests →
        ∃ k, key = .str k ∧ (lastDefinition? given k).isSome := by
  obtain ⟨given,definitions,keys,nodes,planned,c,unused,hgiven,hdefinitions,-,hplanned,hunused,rfl⟩ :=
    planOf_eq_ok h
  obtain ⟨hnodup,hfind⟩ := definitionsByKey_eq_ok hdefinitions nodup_nil
  have hlast : ∀ k, definitions.find k = lastDefinition? given k := fun k => by rw [hfind,Table.find_empty,Option.or_none]
  have hstart : Asked definitions [] ⟨definitions,keys,Table.empty,[]⟩ :=
    ⟨rfl,fun _ _ _ => rfl,fun _ => by simp [VariableContext.count],by simp⟩
  have hkeyed : ∀ entry ∈ definitions.toList, isKeyed entry.1 entry.2 = true := fun entry hentry =>
    find?_some ((hlast entry.1).symm.trans (Table.find_of_mem hnodup hentry))
  obtain ⟨hall,hdefined⟩ := (planNodes_asked hnodup hplanned hstart).append_unused hunused hnodup hkeyed
  refine ⟨given,hgiven,fun k d hd => hall k d ((hlast k).trans hd),fun key gateType value hmem => ?_⟩
  obtain ⟨k,hk,hsome⟩ := hdefined key gateType value hmem
  exact ⟨k,hk,hlast k ▸ hsome⟩

def sharedGraph : Json :=
  .obj [("nodes",.arr (["x","y"].map fun id =>
      .obj [("id",.str id),("type",.str "VARIABLE"),("attrs",.obj [("dsl_name",.str "n")])])),
    ("variables",.arr ([("a",.int 1),("b",.int 2),("a",.int 3)].map fun (key,value) =>
      .obj [("Key",.str key),("GateDataType",.str "Number"),("Value",value),
        ("dsl_name",.str (if key == "a" then "n" else "m"))]))]

set_option maxRecDepth 4000 in
theorem planOf_initialises_shared : ∃ plan n, planOf sharedGraph [("variable", Index.variableKind)] = .ok plan ∧
    plan.requests.filter (asksFor "a") = .variable (.str "a") (.str "Number") (.int 3) ::
      List.replicate n (.variable (.str "a") (.str "Number") .null) := by
  have hplan : planOf sharedGraph [("variable",Index.variableKind)] = .ok _ := rfl
  obtain ⟨given,hgiven,hall,-⟩ := planOf_initialises hplan
  cases hgiven
  obtain ⟨n,hn⟩ := hall "a" _ rfl
  exact ⟨_,n,hplan,hn⟩

end ChipForge.Assembly
