import ChipForge.Proofs.ExactPlaces

/-! A wire leads to a later layer just if a longer trail starts at its source than at its end. There are chips without
cycles that have a wire pointing backward. -/
namespace ChipForge.Layout
open List

variable {nodes : List Json} {w : Wires}

theorem Acyclic.of_rank (rank : String→Nat) (h : ∀ u v, Feeds nodes u v → rank u < rank v) : Acyclic nodes := by
  have hrank : ∀ u v, Relation.TransGen (Feeds nodes) u v → rank u < rank v := by
    intro u v huv
    induction huv with
    | single huv => exact h _ _ huv
    | tail _ hvw ih => exact ih.trans (h _ _ hvw)
  exact fun id hid => (hrank id id hid).ne rfl

theorem acyclic_records {table : List (String×List String)} (rank : String→Nat)
    (h : ∀ entry∈table, ∀ u∈entry.2, rank u < rank entry.1) : Acyclic (records table) := by
  refine .of_rank rank fun u v huv => ?_
  obtain ⟨-,node,hnode,port,hport,hu⟩ := huv
  obtain ⟨hmem,hv⟩ := mem_of_recordOf hnode
  obtain ⟨entry,hentry,rfl⟩ := mem_map.1 hmem
  obtain ⟨source,hsource,rfl⟩ := mem_map.1 hport
  cases hu
  cases hv
  exact h entry hentry u hsource

/-- Every node of a chip without cycles has a layer, and a place in the column of the layer. -/
theorem Acyclic.layer (h : Acyclic nodes) (hw : w.Of nodes) {id : String} (hid : (recordOf nodes id).isSome) :
    ∃ c, id∈(layersOf w).column c ∧ (lateLayers w).find id=some c := by
  have hkey := (mem_keys_lateLayers hw id).2 (h.reachesEnd hw hid)
  obtain ⟨c,hc⟩ := Option.isSome_iff_exists.1 ((Table.find_isSome_iff _ _).2 hkey)
  exact ⟨c,(mem_column_layersOf hw c id).2 hc,hc⟩

theorem x_of_layer (hw : w.Of nodes) {id : String} {c : Int} {p : Position ℚ} (hp : (placesOf w).find id=some p)
    (hc : (lateLayers w).find id=some c) : p.x=800 * c := by
  have hx := placesOf_x (α := ℚ) hw id
  rw [hp,hc] at hx
  split_ifs at hx
  · cases hx
  · exact Option.some.inj hx

theorem cons_sublist {l row : List String} (hl : l.Nodup) {s v : String} (hrow : (s::row).Sublist l)
    (hv : [v,s].Sublist l) : (v::s::row).Sublist l := by
  induction l with
  | nil => cases hrow
  | cons x rest ih =>
    obtain ⟨hx,hrest⟩ := nodup_cons.1 hl
    cases hv with
    | cons _ hv =>
      refine .cons _ (ih hrest ?_ hv)
      cases hrow with
      | cons _ hrow => exact hrow
      | cons_cons _ hrow => exact absurd (hv.subset (by simp)) hx
    | cons_cons _ hs =>
      refine .cons_cons _ ?_
      cases hrow with
      | cons _ hrow => exact hrow
      | cons_cons _ hrow => exact absurd (hs.subset (by simp)) hx

/-- A trail of the end of a wire gives one of its source, if the end is visited after its successors. -/
theorem Trail.extend {next : Table (List String)} {visits row : List String} {u v : String} (h : Trail next visits v row)
    (hu : u∈neighbours next v) (hnodup : visits.Nodup) (hv : v∈visits)
    (hlast : ∀ s, v∈neighbours next s → [s,v].Sublist visits) : Trail next visits u (v::row) := by
  refine ⟨isChain_cons_cons.2 ⟨hu,h.chain⟩,?_⟩
  cases row with
  | nil => exact singleton_sublist.2 (mem_reverse.2 hv)
  | cons s row =>
    have hs := hlast s (isChain_cons_cons.1 h.chain).1
    exact cons_sublist (nodup_reverse.2 hnodup) h.order hs.reverse

/-- A wire leads to a later layer just if a longer trail starts at its source than at its end. It does so if the end is
visited after all its successors. The columns of the places are in the order of the layers. -/
theorem layersOf_forward_iff (hnodes : ∀ node ∈ nodes, IsNode node) (hacyclic : Acyclic nodes) {u v : String}
    (huv : Feeds nodes u v) :
    ∃ w, Wires.ofNodes nodes = .ok w ∧ ∃ a b, u ∈ (layersOf w).column a ∧ v ∈ (layersOf w).column b ∧
      (a < b ↔ ∃ row, Trail w.before (lateLayers w).keys u row ∧
        ∀ row', Trail w.before (lateLayers w).keys v row' → row'.length < row.length) ∧
      ((∀ s, Feeds nodes v s → [s, v].Sublist (lateLayers w).keys) → a < b) ∧
      ∀ p q : Position ℚ, (placesOf w).find u = some p → (placesOf w).find v = some q → (p.x < q.x ↔ a < b) := by
  obtain ⟨w,hok,hw⟩ := Wires.ofNodes_eq_ok hnodes
  obtain ⟨hu,node,hnode,-⟩ := id huv
  have hv : (recordOf nodes v).isSome := by rw [hnode]; rfl
  obtain ⟨a,ha,hla⟩ := hacyclic.layer hw hu
  obtain ⟨b,hb,hlb⟩ := hacyclic.layer hw hv
  have hloops : ∀ c, ¬ Feeds nodes c c := fun c hc => hacyclic c (.single hc)
  obtain ⟨n,rfl,⟨⟨rowu,hrowu,hlenu⟩,hmaxu⟩⟩ := isGreatest_depth_sub hw hloops hla
  obtain ⟨m,rfl,⟨⟨rowv,hrowv,hlenv⟩,hmaxv⟩⟩ := isGreatest_depth_sub hw hloops hlb
  refine ⟨w,hok,_,_,ha,hb,⟨fun hlt => ⟨rowu,hrowu,fun row' hrow' => ?_⟩,?_⟩,fun hlast => ?_,
    fun p q hp hq => ?_⟩
  · have := hmaxv ⟨row',hrow',rfl⟩
    omega
  · rintro ⟨row,hrow,hlonger⟩
    have hle := hmaxu ⟨row,hrow,rfl⟩
    have := hlonger rowv hrowv
    omega
  · have hkey := (mem_keys_lateLayers hw v).2 (hacyclic.reachesEnd hw hv)
    have hlonger := hrowv.extend ((hw.before u v).2 huv) (nodup_keys_lateLayers hw) hkey fun s hs =>
      hlast s ((hw.before v s).1 hs)
    have hle := hmaxu ⟨_,hlonger,rfl⟩
    rw [length_cons] at hle
    omega
  · rw [x_of_layer hw hp hla,x_of_layer hw hq hlb,mul_lt_mul_iff_right₀ (by norm_num),Int.cast_lt]

def detour : List (String×List String) := [("p",[]),("v",["p"]),("w",["v"]),("x",["w"]),("t",["v","x"])]

theorem acyclic_detour : Acyclic (records detour) :=
  acyclic_records (["p","v","w","x","t"].idxOf ·) (by decide)

theorem feeds_detour : Feeds (records detour) "p" "v" := ⟨rfl,record "v" ["p"],rfl,_,mem_singleton_self _,rfl⟩

theorem layersOf_forward_iff_detour : Acyclic (records detour) ∧ Feeds (records detour) "p" "v" ∧
    ∃ w, Wires.ofNodes (records detour) = .ok w ∧ ∃ a b, "p" ∈ (layersOf w).column a ∧ "v" ∈ (layersOf w).column b ∧
      ((∀ s, Feeds (records detour) "v" s → [s, "v"].Sublist (lateLayers w).keys) → a < b) := by
  obtain ⟨w,hok,a,b,ha,hb,-,hlast,-⟩ := layersOf_forward_iff (isNode_records _) acyclic_detour feeds_detour
  exact ⟨acyclic_detour,feeds_detour,w,hok,a,b,ha,hb,hlast⟩

/-- A chip without cycles that has a wire pointing backward. -/
theorem layersOf_backward : ∃ nodes : List Json, (∀ node ∈ nodes, IsNode node) ∧ Acyclic nodes ∧
    ∃ u v, Feeds nodes u v ∧ ∃ w a b, Wires.ofNodes nodes = .ok w ∧ u ∈ (layersOf w).column a ∧
      v ∈ (layersOf w).column b ∧ b < a :=
  ⟨records detour,isNode_records _,acyclic_detour,"p","v",feeds_detour,_,2,1,rfl,by decide,by decide,by decide⟩

end ChipForge.Layout
