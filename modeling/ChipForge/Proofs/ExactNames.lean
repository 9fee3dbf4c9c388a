import ChipForge.Assembly.Plan
import ChipForge.Proofs.AgreedPorts
import Mathlib

/-! A name that is among the candidates is the closest of them to itself. -/
namespace ChipForge.Decimal
open Float.Model Float.Model.UnpackedFloat

theorem unpack_of_decode {x : Float} {d : Dyadic} (h : (decode x).2=.finite d) :
    ∃ sign m e hpos, x.toModel.unpack=.finite sign m e hpos ∧ d.mantissa=m ∧ d.exponent=e ∧ m < 2 ^ 53 := by
  have hbits : x.toBits.toNat=x.toModel.toBits.toBitVec.toNat := rfl
  simp only [decode,hbits,beq_iff_eq] at h
  unfold Float.Model.unpack UnpackedFloat.unpack
  generalize x.toModel.toBits.toBitVec=bits at h ⊢
  have hfield : (@unpackExponent .binary64 bits).toNat=bits.toNat >>> 52 % 2048 := by simp [unpackExponent]
  have hfraction : (@unpackMantissa .binary64 bits).toNat=bits.toNat % 1 <<< 52 := by simp [unpackMantissa]
  rw [← hfield,← hfraction] at h
  simp only [← BitVec.toNat_inj]
  generalize @unpackExponent .binary64 bits=field at h ⊢
  have hsmall : (@unpackMantissa .binary64 bits).toNat < 2 ^ 52 := (@unpackMantissa .binary64 bits).isLt
  have happend : (1#1++@unpackMantissa .binary64 bits).toNat=2 ^ 52+(@unpackMantissa .binary64 bits).toNat := by
    rw [BitVec.toNat_append,← Nat.shiftLeft_add_eq_or_of_lt hsmall]
    rfl
  by_cases hlast : field.toNat=2047
  · rw [if_pos hlast] at h
    split_ifs at h
  rw [if_neg hlast] at h
  rw [if_neg (show ¬ field.toNat=(-1#11).toNat from hlast)]
  by_cases hfirst : field.toNat=0
  · rw [if_pos hfirst] at h
    rw [if_pos (show field.toNat=(0#11).toNat from hfirst)]
    split_ifs at h with hnone
    cases h
    rw [dif_neg (show ¬ (@unpackMantissa .binary64 bits).toNat=(0#52).toNat from hnone)]
    refine ⟨_,_,_,by omega,rfl,rfl,?_,by omega⟩
    simp [hfirst,Format.exponentBias]
  · rw [if_neg hfirst] at h
    rw [if_neg (show ¬ field.toNat=(0#11).toNat from hfirst)]
    cases h
    refine ⟨_,_,_,by omega,rfl,by rw [happend,Nat.add_comm]; rfl,?_,by omega⟩
    simp [Format.exponentBias]

theorem le_iff {x y : Float} : x ≤ y ↔ (x.toModel.unpack.compare y.toModel.unpack).any (·.isLE)=true :=
  show decide _ = true ↔ _ from decide_eq_true_iff

/-- A number up to one has a mantissa that its exponent makes no more than one. -/
theorem mantissa_le_of_decode {x : Float} {d : Dyadic} (hzero : 0.0 ≤ x) (hone : x≤1.0) (h : (decode x).2=.finite d) :
    ∃ k : Nat, d.exponent=-k ∧ d.mantissa≤2 ^ k := by
  obtain ⟨sign,m,e,hpos,hunpack,hm,he,hsmall⟩ := unpack_of_decode h
  rw [le_iff,hunpack] at hzero hone
  rw [hm,he]
  cases sign with
  | negative => cases hzero
  | positive =>
    have hcompare : ((compare e (-52)).then (compare m (2 ^ 52))).isLE=true := hone
    rw [Ordering.isLE_then_iff_or,Int.compare_eq_lt,Int.compare_eq_eq,Nat.isLE_compare] at hcompare
    obtain hlow | ⟨rfl,hle⟩ := hcompare
    · exact ⟨(-e).toNat,by omega,hsmall.le.trans (Nat.pow_le_pow_right (by decide) (by omega))⟩
    · exact ⟨52,rfl,hle⟩

theorem Dyadic.lower_lt_one {d : Dyadic} {k : Nat} (hexponent : d.exponent=-k) (hmantissa : d.mantissa≤2 ^ k) :
    d.lower.num < d.lower.den := by
  have hscale : ∀ n i : Nat, 0 < i → n < 2 ^ (k+i) →
      (Ratio.scale ⟨n,1⟩ 2 (d.exponent - i)).num < (Ratio.scale ⟨n,1⟩ 2 (d.exponent - i)).den := by
    intro n i hi hn
    rw [Ratio.scale,if_neg (by omega),show (-(d.exponent - i)).toNat=k+i by omega]
    simpa using hn
  have hpos := Nat.two_pow_pos k
  unfold Dyadic.lower
  split_ifs
  · exact hscale _ 2 (by decide) (by rw [Nat.pow_add]; omega)
  · exact hscale _ 1 (by decide) (by rw [Nat.pow_succ]; omega)

end ChipForge.Decimal
namespace ChipForge.Text.Similarity
open List

variable {a b done rest : List Char} {skip : Char→Bool} {m : Block} {lengths : List Nat} {i j : Nat}

/-- The characters of a block stand in both texts where it says. -/
def Block.Common (m : Block) (a b : List Char) : Prop :=
  ∃ p w s p' s', a=p++w++s ∧ b=p'++w++s' ∧ p.length=m.left ∧ p'.length=m.right ∧ w.length=m.size

/-- Lengths of common ends of the left text and of the right text up to each place from the given one on. -/
def Ends (done b : List Char) (j : Nat) (lengths : List Nat) : Prop :=
  ∀ n k, lengths[n]?=some k → j+n < b.length ∧ ∃ w, w.length=k ∧ w <:+ done ∧ w <:+ b.take (j+n+1)

theorem Ends.row (h : Ends done b 0 lengths) (skip : Char→Bool) (c : Char) :
    Ends (done++[c]) b 0 (row skip c lengths b) := by
  intro j k hk
  rw [Nat.zero_add]
  obtain ⟨⟨d,n⟩,hzip,hvalue⟩ := Option.map_eq_some_iff.1 ((getElem?_map ..).symm.trans hk)
  obtain ⟨hd,hn⟩ := getElem?_zip_eq_some.1 hzip
  obtain ⟨hj,hget : b[j]=d⟩ := List.getElem?_eq_some_iff.1 hd
  refine ⟨hj,?_⟩
  dsimp only at hvalue
  split_ifs at hvalue with hsame
  · have hdc : d=c := by simp_all
    have hold : ∃ w, w.length=n ∧ w <:+ done ∧ w <:+ b.take j := by
      cases j with
      | zero => exact ⟨[],Option.some.inj hn,nil_suffix,nil_suffix⟩
      | succ j => exact Nat.zero_add j ▸ (h j n hn).2
    obtain ⟨w,hw,⟨p,hp⟩,p',hp'⟩ := hold
    refine ⟨w++[c],by simp [hw,← hvalue],⟨p,by rw [← append_assoc,hp]⟩,p',?_⟩
    rw [← append_assoc,hp',← hdc,← hget,take_append_getElem hj]
  · exact ⟨[],hvalue,nil_suffix,nil_suffix⟩

theorem Ends.improve (h : Ends done b j lengths) (hi : done.length=i+1) (hm : m.Common (done++rest) b) :
    (improve i j lengths m).Common (done++rest) b := by
  induction lengths generalizing j m with
  | nil => exact hm
  | cons k lengths ih =>
    refine ih (fun n l hn => ?_) ?_
    · rw [Nat.add_assoc,Nat.add_comm 1 n]
      exact h (n+1) l hn
    · split_ifs
      · obtain ⟨hj,w,hw,⟨p,hp⟩,p',hp'⟩ := h 0 k rfl
        have hleft := congrArg length hp
        have hright := congrArg length hp'
        simp only [length_append,length_take,Nat.add_zero] at hleft hright
        refine ⟨p,w,rest,p',b.drop (j+1),by rw [hp],?_,?_,?_,hw⟩
        · rw [hp',Nat.add_zero,take_append_drop]
        · show p.length=i+1 - k
          omega
        · show p'.length=j+1 - k
          omega
      · exact hm

theorem le_size_improve (i j : Nat) (lengths : List Nat) (m : Block) :
    ∀ k∈m.size::lengths, k≤(improve i j lengths m).size := by
  induction lengths generalizing j m with
  | nil => simp [improve]
  | cons l lengths ih =>
    rw [improve]
    split_ifs with hlt
    all_goals obtain ⟨hbest,hrest⟩ := forall_mem_cons.1 (ih (j+1) _)
    · exact forall_mem_cons.2 ⟨Nat.le_trans (Nat.le_of_lt hlt) hbest,forall_mem_cons.2 ⟨hbest,hrest⟩⟩
    · exact forall_mem_cons.2 ⟨hbest,forall_mem_cons.2 ⟨Nat.le_trans (Nat.not_lt.1 hlt) hbest,hrest⟩⟩

theorem scan_common (h : Ends done b 0 lengths) (hi : done.length=i) (hm : m.Common (done++rest) b) :
    (scan skip b i rest lengths m).Common (done++rest) b := by
  induction rest generalizing done lengths m i with
  | nil => exact hm
  | cons c rest ih =>
    rw [append_cons] at hm ⊢
    have hi' : (done++[c]).length=i+1 := by rw [length_append,hi,length_singleton]
    exact ih (h.row skip c) hi' ((h.row skip c).improve hi' hm)

/-- A text compared with itself has itself in common. -/
theorem length_le_size_scan (hskip : ∀ c∈b, skip c=false) (hb : b=done++rest) (hi : done.length=i)
    (hlengths : (0::lengths)[i]?=some i) (hm : i ≤ m.size) : b.length≤(scan skip b i rest lengths m).size := by
  induction rest generalizing done lengths m i with
  | nil =>
    rw [hb,append_nil,hi]
    exact hm
  | cons c rest ih =>
    have hc : b[i]?=some c := by simp [hb,← hi]
    have hzip : (b.zip (0::lengths))[i]?=some (c,i) := getElem?_zip_eq_some.2 ⟨hc,hlengths⟩
    have hnew : (row skip c lengths b)[i]?=some (i+1) := by
      rw [row,getElem?_map,hzip]
      simp [hskip c (mem_of_getElem? hc)]
    exact ih (hb.trans (append_cons ..)) (by rw [length_append,hi,length_singleton]) hnew
      (le_size_improve i 0 _ m _ (mem_cons_of_mem _ (mem_of_getElem? hnew)))

theorem sharedStart_prefix (a b : List Char) : ∃ w, w.length=sharedStart a b ∧ w <+: a ∧ w <+: b := by
  fun_induction sharedStart a b with
  | case1 c as d bs heq ih =>
    obtain ⟨w,hw,ha,hb⟩ := ih
    rw [beq_iff_eq] at heq
    exact ⟨c::w,by simp [hw],cons_prefix_cons.2 ⟨rfl,ha⟩,cons_prefix_cons.2 ⟨heq,hb⟩⟩
  | case2 => exact ⟨[],rfl, nil_prefix, nil_prefix⟩
  | case3 => exact ⟨[],rfl, nil_prefix, nil_prefix⟩

theorem core_common (skip : Char→Bool) (a b : List Char) :
    (scan skip b 0 a (replicate b.length 0) ⟨0,0,0⟩).Common a b := by
  have hends : Ends [] b 0 (replicate b.length 0) := by
    intro n k hk
    rw [getElem?_replicate] at hk
    split_ifs at hk with hn
    cases hk
    exact ⟨by omega,[],rfl,nil_suffix,nil_suffix⟩
  exact scan_common hends rfl ⟨[],[],a,[],b,rfl,rfl,rfl,rfl,rfl⟩

theorem Block.Common.parts (h : m.Common a b) : ∃ w, w.length=m.size ∧ a.take m.left++w++a.drop (m.left+m.size)=a ∧
    b.take m.right++w++b.drop (m.right+m.size)=b ∧ m.left+m.size ≤ a.length ∧ m.right+m.size ≤ b.length := by
  obtain ⟨p,w,s,p',s',rfl,rfl,hleft,hright,hsize⟩ := h
  rw [← hleft,← hright,← hsize]
  have hparts : ∀ p s : List Char, (p++w++s).take p.length++w++(p++w++s).drop (p.length+w.length)=p++w++s := by
    intro p s
    rw [← length_append,drop_left,append_assoc p,take_left,append_assoc]
  exact ⟨w,rfl,hparts p s,hparts p' s',by simp,by simp⟩

theorem longest_common (skip : Char→Bool) (a b : List Char) : (longest skip a b).Common a b := by
  obtain ⟨w,hw,ha,hb,hleft,hright⟩ := (core_common skip a b).parts
  unfold longest
  generalize scan skip b 0 a (replicate b.length 0) ⟨0,0,0⟩=core at hw ha hb hleft hright ⊢
  obtain ⟨u,hu,hpa,hpb⟩ := sharedStart_prefix (a.take core.left).reverse (b.take core.right).reverse
  obtain ⟨v,hv,⟨s,hs⟩,s',hs'⟩ := sharedStart_prefix (a.drop (core.left+core.size)) (b.drop (core.right+core.size))
  obtain ⟨p,hp⟩ := reverse_suffix.2 hpa
  obtain ⟨p',hp'⟩ := reverse_suffix.2 hpb
  rw [reverse_reverse] at hp hp'
  have hpl := congrArg length hp
  have hpl' := congrArg length hp'
  simp only [length_append,length_reverse,length_take] at hpl hpl'
  refine ⟨p,u.reverse++w++v,s,p',s',?_,?_,?_,?_,by simp [hu,hw,hv,Nat.add_assoc]⟩
  · rw [← ha,← hp,← hs]
    simp only [append_assoc]
  · rw [← hb,← hp',← hs']
    simp only [append_assoc]
  · show p.length=core.left - _
    omega
  · show p'.length=core.right - _
    omega

/-- What is counted as matched stands in both texts in the same order. -/
theorem matched_sublist (skip : Char→Bool) (fuel : Nat) (a b : List Char) :
    ∃ l, l.length=matched skip fuel a b ∧ l <+ a ∧ l <+ b := by
  induction fuel generalizing a b with
  | zero => exact ⟨[],rfl,nil_sublist a,nil_sublist b⟩
  | succ fuel ih =>
    obtain ⟨w,hw,ha,hb,-⟩ := (longest_common skip a b).parts
    unfold matched
    dsimp only
    split_ifs
    · exact ⟨[],rfl,nil_sublist a,nil_sublist b⟩
    · obtain ⟨l,hl,hla,hlb⟩ := ih (a.take (longest skip a b).left) (b.take (longest skip a b).right)
      obtain ⟨r,hr,hra,hrb⟩ := ih (a.drop ((longest skip a b).left+(longest skip a b).size))
        (b.drop ((longest skip a b).right+(longest skip a b).size))
      have hleft := (hla.append (.refl w)).append hra
      have hright := (hlb.append (.refl w)).append hrb
      rw [ha] at hleft
      rw [hb] at hright
      refine ⟨l++w++r,?_,hleft,hright⟩
      simp only [length_append,hl,hw,hr]
      omega

theorem matched_self (hskip : ∀ c∈a, skip c=false) (fuel : Nat) : a.length ≤ matched skip (fuel+1) a a := by
  have hsize : a.length≤(scan skip a 0 a (replicate a.length 0) ⟨0,0,0⟩).size :=
    length_le_size_scan hskip (nil_append a).symm rfl rfl (Nat.le_refl 0)
  have hlongest : a.length≤(longest skip a a).size := by
    unfold longest
    dsimp only
    omega
  unfold matched
  dsimp only
  split_ifs with hzero
  · rw [beq_iff_eq] at hzero
    omega
  · omega

theorem reached_of_full {x : Float} (hzero : 0.0 ≤ x) (hone : x≤1.0) :
    ∃ t, Threshold.ofFloat? x=some t ∧ ∀ r : Decimal.Ratio, r.num=r.den→0 < r.den → t.reachedBy r := by
  unfold Threshold.ofFloat?
  rw [if_pos (by simp [hzero,hone])]
  split
  · rename_i d hd
    obtain ⟨k,hexponent,hmantissa⟩ := Decimal.mantissa_le_of_decode hzero hone hd
    have hlower := Decimal.Dyadic.lower_lt_one hexponent hmantissa
    refine ⟨_,rfl,fun r hr hpos => ?_⟩
    have hlt : d.lower.num * r.den < r.num * d.lower.den := by
      rw [hr,Nat.mul_comm]
      exact Nat.mul_lt_mul_of_pos_left hlower hpos
    unfold Threshold.reachedBy
    split_ifs
    · exact decide_eq_true hlt.le
    · exact decide_eq_true hlt
  · exact ⟨_,rfl,fun r _ _ => by simp [Threshold.reachedBy,Decimal.Ratio.le]⟩

theorem score_self {name : String} (hlength : name.length < 200) :
    (score name name).num=(score name name).den ∧ 0 < (score name name).den := by
  unfold score
  dsimp only
  split_ifs with hzero
  · exact ⟨rfl,Nat.one_pos⟩
  · rw [beq_iff_eq] at hzero
    have hskip : ∀ c∈name.toList, tooCommon name.toList c=false := by
      simp [tooCommon,String.length_toList,Nat.not_le.2 hlength]
    obtain ⟨fuel,hfuel⟩ : ∃ fuel, name.toList.length=fuel+1 := ⟨name.toList.length - 1,by omega⟩
    obtain ⟨l,hl,hsub,-⟩ := matched_sublist (tooCommon name.toList) name.toList.length name.toList name.toList
    have hle := hsub.length_le
    have hge := matched_self hskip fuel
    rw [← hfuel] at hge
    refine ⟨?_,Nat.pos_of_ne_zero hzero⟩
    show 2 * matched _ _ _ _ = _ + _
    omega

theorem score_lt {name other : String} (hne : other≠name) : (score name other).num < (score name other).den := by
  unfold score
  dsimp only
  split_ifs with hzero
  · rw [beq_iff_eq,Nat.add_eq_zero_iff] at hzero
    exact absurd (String.toList_inj.1 ((length_eq_zero_iff.1 hzero.1).trans (length_eq_zero_iff.1 hzero.2).symm)) hne
  · obtain ⟨l,hl,hother,hname⟩ := matched_sublist (tooCommon name.toList) other.toList.length other.toList name.toList
    show 2 * matched _ _ _ _ < _ + _
    rw [← hl]
    by_contra hge
    have hlother := hother.length_le
    have hlname := hname.length_le
    exact hne (String.toList_inj.1 ((hother.eq_of_length (by omega)).symm.trans (hname.eq_of_length (by omega))))

section
variable {p q top : Decimal.Ratio×String} {rest : List (Decimal.Ratio×String)}

theorem closer_top (h : q=top ∨ q.1.lt top.1) : closer top q=top ∧ closer q top=top := by
  obtain rfl | hlt := h
  · simp [closer]
  · have hge : top.1.lt q.1=false := by
      simp only [Decimal.Ratio.lt,decide_eq_true_eq,decide_eq_false_iff_not] at hlt ⊢
      omega
    simp [closer,hlt,hge]

theorem foldl_closer (h : ∀ q∈p::rest, q=top ∨ q.1.lt top.1) (hmem : top∈p::rest) :
    rest.foldl closer p=top := by
  induction rest generalizing p with
  | nil => exact (mem_singleton.1 hmem).symm
  | cons q rest ih =>
    obtain ⟨hp,hq,hrest⟩ : _ ∧ _ ∧ _ := by simpa only [forall_mem_cons] using h
    refine ih (forall_mem_cons.2 ⟨?_,hrest⟩) ?_
    · unfold closer
      split_ifs <;> assumption
    · rcases mem_cons.1 hmem with rfl | hmem
      · exact mem_cons.2 (.inl (closer_top hq).1.symm)
      rcases mem_cons.1 hmem with rfl | hmem
      · exact mem_cons.2 (.inl (closer_top hp).2.symm)
      · exact mem_cons_of_mem _ hmem

theorem best_eq_some {entries : List (Decimal.Ratio×String)} (h : ∀ q∈entries, q=top ∨ q.1.lt top.1) (hmem : top∈entries) :
    best entries=some top := by
  cases entries with
  | nil => cases hmem
  | cons p rest => exact congrArg some (foldl_closer h hmem)

end

theorem closestName_self {name : String} {candidates : List String} {x : Float} (hmem : name∈candidates)
    (hlength : name.length < 200) (hzero : 0.0 ≤ x) (hone : x≤1.0) :
    closestName (Threshold.ofFloat? x) name candidates=.ok (some name) := by
  obtain ⟨t,ht,hreached⟩ := reached_of_full hzero hone
  obtain ⟨hself,hpos⟩ := score_self hlength
  have hothers : ∀ p∈candidates.map fun c => (score name c,c), p=(score name name,name) ∨ p.1.lt (score name name) := by
    intro p hp
    obtain ⟨c,-,rfl⟩ := mem_map.1 hp
    by_cases hc : c=name
    · exact .inl (by rw [hc])
    · refine .inr (decide_eq_true ?_)
      rw [hself,Nat.mul_comm]
      exact Nat.mul_lt_mul_of_pos_left (score_lt hc) hpos
  rw [ht]
  show Except.ok (closest t name candidates)=_
  rw [closest,best_eq_some (fun p hp => hothers p (mem_filter.1 hp).1)
    (mem_filter.2 ⟨mem_map_of_mem hmem,hreached _ hself hpos⟩)]
  rfl

end ChipForge.Text.Similarity

namespace ChipForge.Assembly
open Text Text.Similarity

theorem kindOf_of_find {index : Index} {node : Json} {name : String} {kind : ChipKind} (htype : node.item "type" = .ok (.str name))
    (hkind : index.find (nameKey name)=some kind) (hlength : (nameKey name).length < 200) : kindOf index node=.ok kind := by
  have hmem : nameKey name∈index.keys := (Table.find_isSome_iff index _).1 (by rw [hkind]; rfl)
  have hclosest : closestName chipThreshold (nameKey name) index.keys=.ok (some (nameKey name)) :=
    closestName_self hmem hlength (by decide) (by decide)
  simp only [kindOf,htype,Json.text,hclosest,hkind,bind,Except.bind,Option.bind]
  rfl

theorem resolvePort_of_mem {name : String} {names : List String} (hports : 2 ≤ names.length) (hdigits : allDigits name=false)
    (hauto : name ≠ "__auto__") (hmem : nameKey name∈names.map nameKey) (hlength : (nameKey name).length < 200) :
    resolvePort (.str name) (names.map .str)=.ok ((names.map nameKey).idxOf (nameKey name)) := by
  have hkeys : portKeys (names.map .str)=.ok (names.map nameKey) := by
    rw [portKeys,List.mapM_map]
    exact List.mapM_pure
  have hclosest : closestName portThreshold (nameKey name) (names.map nameKey)=.ok (some (nameKey name)) :=
    closestName_self hmem hlength (by decide) (by decide)
  have hnumber : portNumber? (.str name)=.ok none := by rw [portNumber?,hdigits]; rfl
  refine (resolvePort_eq_ok_iff (by simpa using hauto) (by rw [List.length_map]; omega)).2 ?_
  simp only [seek,hnumber,closestPort?,hkeys,Json.plain,hclosest,bind,Except.bind]
  rfl

/-- A name among the candidates is the closest to itself, however close names must be. So the type of a node that is a key of the
index means that key, and the name of a port means the first port with the same key. -/
theorem closestName_exact {name : String} (hlength : name.length < 200) :
    (∀ candidates, name ∈ candidates → ∀ x : Float, 0.0 ≤ x → x ≤ 1.0 →
      closestName (Threshold.ofFloat? x) name candidates = .ok (some name)) ∧
    (∀ (index : Index) node type, node.item "type" = .ok (.str type) → nameKey type = name →
      ∀ kind, index.find name = some kind → kindOf index node = .ok kind) ∧
    ∀ port (ports : List String), 2 ≤ ports.length → allDigits port = false → port ≠ "__auto__" → nameKey port = name →
      name ∈ ports.map nameKey → resolvePort (.str port) (ports.map .str) = .ok ((ports.map nameKey).idxOf name) := by
  refine ⟨fun _ hmem x hzero hone => closestName_self hmem hlength hzero hone,
    fun index node type htype hname kind hkind => ?_,fun port ports hports hdigits hauto hname hmem => ?_⟩
  · subst hname
    exact kindOf_of_find htype hkind hlength
  · subst hname
    exact resolvePort_of_mem hports hdigits hauto hmem hlength

def adder : ChipKind := ⟨none,"add",.str "Add",[],[],true⟩

theorem closestName_exact_add : "add".length < 200 ∧
    closestName (Threshold.ofFloat? 1.0) "add" ["odd", "add", "adds"] = .ok (some "add") ∧
    kindOf [("odd", adder), ("add", adder)] (.obj [("type", .str "Add")]) = .ok adder ∧
    resolvePort (.str "A dd") (["Odd", "Add", "add"].map .str) = .ok 1 := by
  obtain ⟨hclosest,hkind,hport⟩ := @closestName_exact "add" (by decide)
  exact ⟨by decide,hclosest _ (by decide) _ (by decide) (by decide),hkind _ _ "Add" rfl (by decide +kernel) _ rfl,
    hport _ _ (by decide) (by decide +kernel) (by decide) (by decide +kernel) (by decide +kernel)⟩

end ChipForge.Assembly
