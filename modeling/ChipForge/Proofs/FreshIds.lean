import ChipForge.Proofs.Graph
import ChipForge.Proofs.Table

/-! Ids are drawn while others are taken from outside. The search for a free number has no bound of its own: it ends because
only so many ids are used, and what it finds was neither used nor drawn before. -/
namespace ChipForge.Wiring.Graph
open List

variable {used : List String} {base : String} {i n k : Nat}

/-- A search that tries one number after another ends at the first one whose id is free. -/
inductive Search (used : List String) (base : String) : Nat→Nat→Prop
  | free {i : Nat} : idOf base i∉used→Search used base i i
  | taken {i n : Nat} : idOf base i∈used→Search used base (i+1) n→Search used base i n

theorem Search.unique (hn : Search used base i n) (hk : Search used base i k) : n=k := by
  induction hn with
  | free hfree =>
    cases hk with
    | free => rfl
    | taken htaken => exact absurd htaken hfree
  | taken htaken _ ih =>
    cases hk with
    | free hfree => exact absurd htaken hfree
    | taken _ hk => exact ih hk

theorem search_freeNumber {tries : Nat} (h : idOf base (freeNumber used base tries i)∉used) :
    Search used base i (freeNumber used base tries i) := by
  induction tries generalizing i with
  | zero => exact .free h
  | succ tries ih =>
    unfold freeNumber at h ⊢
    split_ifs at h ⊢ with hi
    · exact .taken (contains_iff_mem.1 hi) (ih h)
    · exact .free h

/-- However many ids are used, the search ends, and it ends where the bounded search does. -/
theorem search_iff (used : List String) (base : String) (i n : Nat) :
    Search used base i n ↔ n=freeNumber used base used.length i := by
  have hsearch := search_freeNumber (freeNumber_free used base i)
  constructor
  · exact fun h => h.unique hsearch
  · rintro rfl
    exact hsearch

theorem counter_nextId (g : Graph) (type other : String) : (g.nextId type).2.counter other =
    if other=idBase type then freeNumber g.used (idBase type) g.used.length (g.counter (idBase type))+1
    else g.counter other := by
  unfold counter nextId
  dsimp only
  rw [Table.find_put]
  split_ifs <;> rfl

/-- What may happen to the ids of a graph. -/
inductive IdEvent
  /-- An id is drawn for a node of a type. -/
  | draw (type : String)
  /-- An id counts as used from now on. -/
  | take (id : String)

/-- The ids that are drawn in a row of events, and the graph after it. -/
def drawAll (g : Graph) : List IdEvent→List String×Graph
  | [] => ([],g)
  | .draw type::rest =>
    let (ids,h) := (g.nextId type).2.drawAll rest
    ((g.nextId type).1::ids,h)
  | .take id::rest => { g with used := id::g.used }.drawAll rest

/-- Used ids stay used, and drawn ids are. -/
theorem subset_used_drawAll (g : Graph) (events : List IdEvent) :
    g.used ⊆ (g.drawAll events).2.used ∧ (g.drawAll events).1 ⊆ (g.drawAll events).2.used := by
  induction events generalizing g with
  | nil => exact ⟨Subset.refl _,nil_subset _⟩
  | cons event rest ih =>
    cases event with
    | draw type =>
      obtain ⟨hused,hdrawn⟩ := ih (g.nextId type).2
      obtain ⟨hid,hold⟩ := cons_subset.1 hused
      exact ⟨hold,cons_subset.2 ⟨hid,hdrawn⟩⟩
    | take id =>
      obtain ⟨hused,hdrawn⟩ := ih { g with used := id::g.used }
      exact ⟨(cons_subset.1 hused).2,hdrawn⟩

/-- After whatever was drawn and taken, the search for an id ends at one number, its id was neither used nor drawn before and
counts as used afterwards, and the counters of other bases stay. -/
theorem nextId_fresh (g : Graph) (events : List IdEvent) (type : String) :
    let h := (g.drawAll events).2
    let (id, next) := h.nextId type
    (∃ n, (∀ k, Search h.used (idBase type) (h.counter (idBase type)) k ↔ k = n) ∧ id = idOf (idBase type) n ∧
      next.counter (idBase type) = n + 1) ∧
    id ∉ g.used ∧ id ∉ h.used ∧ id ∉ (g.drawAll events).1 ∧ next.used = id :: h.used ∧
    ∀ base, base ≠ idBase type → next.counter base = h.counter base := by
  intro h
  have hfresh := h.nextId_notMem_used type
  obtain ⟨hused,hdrawn⟩ := g.subset_used_drawAll events
  refine ⟨⟨_,search_iff _ _ _,rfl,?_⟩,fun hid => hfresh (hused hid),hfresh,fun hid => hfresh (hdrawn hid),rfl,?_⟩
  · exact (h.counter_nextId type _).trans (if_pos rfl)
  · exact fun base hbase => (h.counter_nextId type base).trans (if_neg hbase)

example : (empty.drawAll [.draw "A_1",.draw "A",.take "a_1",.draw "a!",.draw "A",.draw ""]).1 =
    ["a_1_0","a_0","a_2","a_3","node_0"] := by decide +kernel

end ChipForge.Wiring.Graph
