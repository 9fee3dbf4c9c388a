import ChipForge.Assembly.Ports
import ChipForge.Proofs.Ports

/-! The port that types are inferred for is the port that is wired: both ways to find the port of a name find the same one, and
it is one of the ports of the chip. -/
namespace ChipForge.Assembly
open List Text.Similarity Wiring

variable {port : Json} {ports : List Json} {i : Nat}

theorem best_mem {entries : List (Decimal.Ratio×String)} {entry : Decimal.Ratio×String} (h : best entries=some entry) :
    entry∈entries := by
  cases entries with
  | nil => cases h
  | cons p rest =>
    cases h
    -- Of two entries the closer one is one of them.
    refine foldlRecOn (motive := (·∈p::rest)) rest closer mem_cons_self fun q hq r hr => ?_
    unfold closer
    split_ifs
    · exact mem_cons_of_mem _ hr
    · exact hq
    · exact mem_cons_of_mem _ hr
    · exact hq

theorem closest_mem {t : Threshold} {name found : String} {candidates : List String}
    (h : closest t name candidates=some found) : found∈candidates := by
  obtain ⟨entry,hentry,rfl⟩ := Option.map_eq_some_iff.1 h
  obtain ⟨c,hc,rfl⟩ := mem_map.1 (mem_filter.1 (best_mem hentry)).1
  exact hc

theorem closestPort?_lt (h : closestPort? port ports=.ok (some i)) : i < ports.length := by
  obtain ⟨keys,hkeys,h⟩ := bind_eq_ok.1 h
  obtain ⟨found,hfound,h⟩ := bind_eq_ok.1 h
  cases found with
  | none => cases h
  | some best =>
    cases h
    rw [(forall₂_of_mapM hkeys).length_eq,idxOf_lt_length_iff]
    cases ht : portThreshold with
    | none =>
      rw [ht] at hfound
      cases hfound
    | some t =>
      rw [ht] at hfound
      exact closest_mem (Except.ok.inj hfound)

/-- The port a name means on a chip with several ports. -/
def seek (port : Json) (ports : List Json) : Except Failure (Option Nat) := do
  match ← portNumber? port with
  | some n => pure (if inRange n ports then some n.toNat else none)
  | none => closestPort? port ports

theorem seek_lt (h : seek port ports=.ok (some i)) : i < ports.length := by
  obtain ⟨number,-,h⟩ := bind_eq_ok.1 h
  cases number with
  | none => exact closestPort?_lt h
  | some n =>
    dsimp only at h
    split_ifs at h with hrange
    · cases h
      simp only [inRange,Bool.and_eq_true,decide_eq_true_eq] at hrange
      omega
    · cases h

theorem findPort?_eq_seek (h : 1 < ports.length) : findPort? port ports=seek port ports := by
  match ports, h with
  | _::_::_, _ => rfl

theorem same_auto : port.same (.str "__auto__")=true ↔ port=.str "__auto__" := by
  cases port <;> simp [Json.same]

theorem resolvePort_eq_ok_iff (hauto : port ≠ .str "__auto__") (hports : ports.length≠1) :
    resolvePort port ports=.ok i ↔ seek port ports=.ok (some i) := by
  unfold resolvePort
  rw [if_neg (fun h => hauto (same_auto.1 h)),if_neg (by simpa using hports),seek,bind_eq_ok,bind_eq_ok]
  refine exists_congr fun number => and_congr_right fun _ => ?_
  cases number with
  | some n =>
    dsimp only
    split_ifs
    · exact ⟨fun h => by cases h; rfl,fun h => by cases h; rfl⟩
    · exact ⟨nofun,nofun⟩
  | none =>
    dsimp only
    rw [bind_eq_ok]
    constructor
    · rintro ⟨found,hfound,h⟩
      cases found with
      | none => cases h
      | some k =>
        cases h
        exact hfound
    · exact fun h => ⟨some i,h,rfl⟩

theorem resolvePort_auto_ne_ok (hports : ports.length≠1) : resolvePort (.str "__auto__") ports≠.ok i := by
  match ports, hports with
  | [], _ => exact nofun
  | _::_::_, _ => exact nofun

theorem resolvePort_singleton (port p : Json) : resolvePort port [p]=.ok 0 := by
  unfold resolvePort
  rw [if_pos (show ([p].length == 1)=true from rfl),ite_self]
  rfl

/-- A port that is resolved is a port of the chip and the one that is found for its name. A port that is found is resolved,
unless the name leaves it open and the chip has several. -/
theorem resolvePort_agrees_findPort? (port : Json) (ports : List Json) (i : Nat) :
    (resolvePort port ports = .ok i → i < ports.length ∧ findPort? port ports = .ok (some i)) ∧
      (port ≠ .str "__auto__" ∨ ports.length = 1 → findPort? port ports = .ok (some i) → resolvePort port ports = .ok i) := by
  by_cases hone : ports.length = 1
  · obtain ⟨p,rfl⟩ := length_eq_one_iff.1 hone
    rw [resolvePort_singleton]
    exact ⟨fun h => by cases h; exact ⟨Nat.one_pos,rfl⟩,fun _ h => by cases h; rfl⟩
  · have hfind : findPort? port ports = .ok (some i) ↔ seek port ports = .ok (some i) := by
      cases ports with
      | nil => exact ⟨nofun,fun h => absurd (seek_lt h) (Nat.not_lt_zero i)⟩
      | cons p rest => rw [findPort?_eq_seek (by rw [length_cons] at hone ⊢; omega)]
    rw [hfind]
    by_cases hauto : port = .str "__auto__"
    · subst hauto
      exact ⟨fun h => absurd h (resolvePort_auto_ne_ok hone),fun h => absurd rfl (h.resolve_right hone)⟩
    · rw [resolvePort_eq_ok_iff hauto hone]
      exact ⟨fun h => ⟨seek_lt h,h⟩,fun _ h => h⟩

theorem resolvePort_agrees_findPort?_number : findPort? (.str "1") [.str "A", .str "B"] = .ok (some 1) ∧
    resolvePort (.str "1") [.str "A", .str "B"] = .ok 1 := by
  have hread : Text.readInt? "1" = some 1 := by decide +kernel
  have hfind : findPort? (.str "1") [.str "A",.str "B"] = .ok (some 1) := by
    rw [findPort?_eq_seek (by simp),seek,portNumber?,if_pos (by decide +kernel),Json.readDigits,hread]
    rfl
  exact ⟨hfind,(resolvePort_agrees_findPort? _ _ 1).2 (.inl (by simp)) hfind⟩

end ChipForge.Assembly
