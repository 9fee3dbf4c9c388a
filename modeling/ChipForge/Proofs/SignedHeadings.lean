import ChipForge.Docs.Tutorial
import ChipForge.Proofs.Words
import Mathlib

/-! A tutorial is a row of passages: lines that stay, and headings of known modules with the signatures under them. Bringing
signatures up to date changes nothing else, and what it writes is read back as the same passages, so that doing it again changes
nothing. -/
namespace ChipForge.Text
open List

variable {p q : Char→Bool} {s t : String} {cs : List Char} {lines : List String}

theorem contains_append (s part t : String) : contains (s ++ part ++ t) part=true := by
  have hfind : ∀ (cs : List Char) (i : Nat), (findFrom part.toList i (cs++(part.toList++t.toList))).isSome=true := by
    intro cs
    induction cs with
    | nil =>
      intro i
      have hstart : part.toList.isPrefixOf (part.toList++t.toList)=true := isPrefixOf_iff_prefix.2 (prefix_append _ _)
      rw [nil_append]
      generalize part.toList++t.toList=cs at hstart ⊢
      cases cs with
      | nil => simp [findFrom,prefix_nil.1 ( isPrefixOf_iff_prefix.1 hstart)]
      | cons c cs => simp [findFrom,hstart]
    | cons c cs ih =>
      intro i
      rw [cons_append,findFrom]
      split_ifs
      · rfl
      · exact ih (i+1)
  rw [contains,String.toList_append,String.toList_append,append_assoc]
  exact hfind s.toList 0

/-- A text of characters of one class. -/
def Only (p : Char→Bool) (s : String) : Prop := ∀ c∈s.toList, p c=true

instance (p : Char→Bool) (s : String) : Decidable (Only p s) := decidable_of_iff (s.toList.all p=true) all_eq_true

theorem Only.imp (h : Only p s) (hpq : ∀ c, p c=true → q c=true) : Only q s := fun c hc => hpq c (h c hc)

theorem Only.append (hs : Only p s) (ht : Only p t) : Only p (s ++ t) := by
  intro c hc
  rw [String.toList_append] at hc
  exact (mem_append.1 hc).elim (hs c) (ht c)

theorem Only.intercalate (hs : Only p s) (h : ∀ l∈lines, Only p l) : Only p (String.intercalate s lines) := by
  induction lines with
  | nil => simp [Only]
  | cons l rest ih =>
    obtain ⟨hl,hrest⟩ := forall_mem_cons.1 h
    cases rest with
    | nil => simpa using hl
    | cons next rest =>
      rw [String.intercalate_cons_cons]
      exact (hl.append hs).append (ih hrest)

theorem Only.join (h : ∀ l∈lines, Only p l) : Only p (String.join lines) := by
  intro c hc
  rw [String.toList_join] at hc
  obtain ⟨l,hl,hc⟩ := mem_flatMap.1 hc
  exact h l hl c hc

theorem only_ofList_reverse (h : ∀ c∈cs, p c=true) : Only p (String.ofList cs.reverse) := by
  intro c hc
  rw [String.toList_ofList,mem_reverse] at hc
  exact h c hc

/-- A text without line ends. -/
abbrev OneLine : String→Prop := Only fun c => !isLineEnd c

theorem linesFrom_oneLine (cur : List Char) (h : ∀ c∈cur, (!isLineEnd c)=true) (cs : List Char) :
    ∀ l∈linesFrom cur cs, OneLine l := by
  fun_induction linesFrom cur cs with
  | case1 => exact nofun
  | case2 cur => exact forall_mem_singleton.2 (only_ofList_reverse h)
  | case3 cur rest ih => exact forall_mem_cons.2 ⟨only_ofList_reverse h,ih nofun⟩
  | case4 cur c rest _ _ ih => exact forall_mem_cons.2 ⟨only_ofList_reverse h,ih nofun⟩
  | case5 cur c rest _ hc ih => exact ih (forall_mem_cons.2 ⟨by simp [hc],h⟩)

theorem linesFrom_append (cur : List Char) (h : ∀ c∈cs, (!isLineEnd c)=true) (rest : List Char) :
    linesFrom cur (cs ++ '\n' :: rest)=String.ofList (cur.reverse++cs)::linesFrom [] rest := by
  induction cs generalizing cur with
  | nil => simp [linesFrom,isLineEnd]
  | cons c cs ih =>
    obtain ⟨hc,hcs⟩ := forall_mem_cons.1 h
    have hne : c ≠ '\r' := by
      rintro rfl
      cases hc
    rw [cons_append,linesFrom,if_neg (by simpa using hc),ih _ hcs]
    · simp
    · exact fun _ hr => absurd hr hne

/-- Lines written one under the other. -/
def joinLines (lines : List String) : String := String.intercalate "\n" lines ++ "\n"

theorem toList_joinLines (h : lines≠[]) : (joinLines lines).toList=lines.flatMap fun l => l.toList++['\n'] := by
  induction lines with
  | nil => exact absurd rfl h
  | cons l rest ih =>
    cases rest with
    | nil => simp [joinLines]
    | cons next rest =>
      rw [flatMap_cons,← ih (cons_ne_nil _ _)]
      simp [joinLines]

theorem splitLines_joinLines (hne : lines≠[]) (h : ∀ l∈lines, OneLine l) : splitLines (joinLines lines)=lines := by
  rw [splitLines,toList_joinLines hne]
  clear hne
  induction lines with
  | nil => rfl
  | cons l rest ih =>
    obtain ⟨hl,hrest⟩ := forall_mem_cons.1 h
    rw [flatMap_cons,append_assoc,singleton_append,linesFrom_append [] hl,ih hrest]
    simp

/-- A text as it is read from a file. -/
def asRead (text : String) : String := String.ofList (unifyLines text.toList)

theorem asRead_joinLines (h : ∀ l∈lines, OneLine l) : asRead (joinLines lines)=joinLines lines := by
  have hunify : ∀ cs : List Char, '\r'∉cs → unifyLines cs=cs := by
    intro cs h
    fun_induction unifyLines cs <;> simp_all
  rw [asRead,hunify,String.ofList_toList]
  by_cases hne : lines=[]
  · rw [hne]
    decide
  · rw [toList_joinLines hne]
    intro hmem
    obtain ⟨l,hl,hmem⟩ := mem_flatMap.1 hmem
    rcases mem_append.1 hmem with hmem | hmem
    · exact absurd (h l hl _ hmem) (by decide)
    · exact absurd hmem (by decide)

def isWordChar (c : Char) : Bool := isPlain c || c == '_'

theorem isWordChar_cases {c : Char} (h : isWordChar c=true) : (!isLineEnd c)=true ∧ isWordChar c.toUpper=true ∧
    isWordChar c.toLower=true ∧ lowerChar c=[c.toLower] ∧ c ≠ 'Σ' := by
  have hall : ∀ n : Fin 128, isWordChar (Char.ofNat n)=true → (!isLineEnd (Char.ofNat n))=true ∧
      isWordChar (Char.ofNat n).toUpper=true ∧ isWordChar (Char.ofNat n).toLower=true ∧
      lowerChar (Char.ofNat n)=[(Char.ofNat n).toLower] ∧ Char.ofNat n ≠ 'Σ' := by decide +kernel
  have hsmall : c.toNat < 128 := by
    simp only [isWordChar,isPlain,Char.isAlpha,Char.isUpper,Char.isLower,Char.isDigit,Bool.or_eq_true,Bool.and_eq_true,
      decide_eq_true_eq,beq_iff_eq,UInt32.le_iff_toNat_le] at h
    rcases h with ((h | h) | h) | rfl
    · exact Nat.lt_of_le_of_lt h.2 (by decide)
    · exact Nat.lt_of_le_of_lt h.2 (by decide)
    · exact Nat.lt_of_le_of_lt h.2 (by decide)
    · decide
  have hc := hall ⟨c.toNat,hsmall⟩
  rw [Char.ofNat_toNat] at hc
  exact hc h

/-- A text of letters, digits and underscores. -/
abbrev IsWord : String→Prop := Only isWordChar

theorem IsWord.oneLine (h : IsWord s) : OneLine s := h.imp fun _ hc => (isWordChar_cases hc).1

theorem IsWord.lower (h : IsWord s) : IsWord (lower s) := by
  have hlower : ∀ (before cs : List Char), (∀ c∈cs, isWordChar c=true) → ∀ c∈lowerAfter before cs, isWordChar c=true := by
    intro before cs
    induction cs generalizing before with
    | nil => exact fun _ => nofun
    | cons c rest ih =>
      intro h
      obtain ⟨hc,hrest⟩ := forall_mem_cons.1 h
      obtain ⟨-,-,hsmall,hchar,hsigma⟩ := isWordChar_cases hc
      rw [lowerAfter,if_neg (by simpa using hsigma),hchar]
      exact forall_mem_cons.2 ⟨hsmall,ih _ hrest⟩
  intro c hc
  rw [Text.lower,String.toList_ofList] at hc
  exact hlower [] _ h c hc

end ChipForge.Text

namespace ChipForge.Docs
open List Text

variable {index : Index} {line s name : String} {lines used : List String}

theorem runsFrom_isWord (cur : List Char) (h : ∀ c∈cur, isWordChar c=true) (cs : List Char) :
    ∀ w∈runsFrom cur cs, IsWord w := by
  fun_induction runsFrom cur cs with
  | case1 => exact nofun
  | case2 cur => exact forall_mem_singleton.2 (only_ofList_reverse h)
  | case3 cur c rest hc ih => exact ih (forall_mem_cons.2 ⟨by simp [isWordChar,hc],h⟩)
  | case4 cur c rest _ _ ih => exact ih nofun
  | case5 cur c rest _ _ ih => exact forall_mem_cons.2 ⟨only_ofList_reverse h,ih nofun⟩

theorem capitalFirst_isWord (h : IsWord s) : IsWord (capitalFirst s) := by
  unfold capitalFirst
  split
  · exact h
  · rename_i c rest hs
    intro d hd
    rw [String.toList_ofList] at hd
    rcases mem_cons.1 hd with rfl | hd
    · exact (isWordChar_cases (h c (hs ▸ mem_cons_self))).2.1
    · exact h d (hs ▸ mem_cons_of_mem c hd)

theorem callName_isWord (friendly : String) : IsWord (callName friendly) := by
  unfold callName
  dsimp only
  split_ifs
  · decide +kernel
  · refine Only.join fun w hw => ?_
    obtain ⟨v,hv,rfl⟩ := mem_map.1 hw
    exact capitalFirst_isWord (runsFrom_isWord [] nofun _ v hv)

theorem baseName_isWord (port : String) : IsWord (baseName port) := by
  have hjoined : IsWord (lower (String.intercalate "_" (runs port.toList))) :=
    IsWord.lower (.intercalate (by decide) (runsFrom_isWord [] nofun _))
  unfold baseName
  dsimp only
  split_ifs
  · decide
  · exact .append (by decide) hjoined
  · exact hjoined

theorem argumentName_isWord (used : List String) (port : String) : IsWord (argumentName used port) := by
  have hbase := baseName_isWord port
  have hnumber : ∀ i : Nat, IsWord (baseName port ++ "_" ++ toString i) := by
    refine fun i => (hbase.append (by decide)).append fun c hc => ?_
    simp [isWordChar,isPlain,isDigit_of_mem_toString hc]
  have hfree : ∀ fuel i, IsWord (freeName used (baseName port) fuel i) := by
    intro fuel
    induction fuel with
    | zero => exact hnumber
    | succ fuel ih =>
      intro i
      unfold freeName
      dsimp only
      split_ifs
      · exact ih (i+1)
      · exact hnumber i
  unfold argumentName
  dsimp only
  split_ifs
  · exact hfree _ _
  · exact hbase

theorem argumentNames_isWord (used ports : List String) : ∀ name∈argumentNames used ports, IsWord name := by
  induction ports generalizing used with
  | nil => exact nofun
  | cons port rest ih => exact forall_mem_cons.2 ⟨argumentName_isWord used port,ih _⟩

/-- Every signature is one line, with the marker. -/
theorem lineFor?_eq_some (h : lineFor? index name=some s) : OneLine s ∧ contains s marker=true := by
  unfold lineFor? at h
  split at h
  · rename_i entry _
    cases h
    constructor
    · have hnames := Only.intercalate (p := fun c => !isLineEnd c) (s := ", ") (by decide)
        fun n hn => (argumentNames_isWord [] entry.inputs n hn).oneLine
      have hcall := (callName_isWord entry.friendly).oneLine
      exact .append (.append (.append (.append (by decide +kernel) hcall) (by decide)) hnames) (by decide)
    · have hmarker := contains_append "  " marker
        (" " ++ callName entry.friendly ++ "(" ++ String.intercalate ", " (argumentNames [] entry.inputs) ++ ")")
      simpa only [Entry.line,String.append_assoc] using hmarker
  · have hall : ∀ l∈fixedLines, OneLine l.2 ∧ contains l.2 marker=true := by decide +kernel
    obtain ⟨before,after,hlines,-⟩ := lookup_eq_some_iff.1 h
    exact hall (headingKey name,s) (hlines ▸ mem_append_right before mem_cons_self)

/-- The signature that belongs under a line, if it is the heading of a known module. -/
def signature? (index : Index) (line : String) : Option String :=
  match readLine index line with
  | .known signature => some signature
  | _ => none

theorem signature?_eq_some (h : signature? index line=some s) : OneLine s ∧ contains s marker=true := by
  unfold signature? readLine at h
  cases hheading : headingText? line with
  | none => simp [hheading] at h
  | some text =>
    cases hline : lineFor? index (headingName text) with
    | none => simp [hheading,hline] at h; split_ifs at h
    | some l =>
      simp only [hheading,hline] at h
      split_ifs at h
      cases h
      exact lineFor?_eq_some hline

/-- A line with its signature, if it is the heading of a known module, and the old signature under it, if there is one. -/
structure Passage where
  line : String
  signature : Option String
  old : Option String

namespace Passage

def before (p : Passage) : List String := p.line::p.old.toList

def after (p : Passage) : List String := p.line::p.signature.toList

def renewed (p : Passage) : Passage := { p with old := p.signature }

end Passage

/-- The passages of a tutorial from left to right. A line with the marker right under the heading of a known module is its old
signature, and no passage of its own. -/
def passages (index : Index) : List String→List Passage
  | [] => []
  | [line] => [⟨line,signature? index line,none⟩]
  | line::next::rest =>
    if (signature? index line).isSome && contains next marker then
      ⟨line,signature? index line,some next⟩::passages index rest
    else ⟨line,signature? index line,none⟩::passages index (next::rest)

theorem flatMap_before (index : Index) (lines : List String) : (passages index lines).flatMap Passage.before=lines := by
  fun_induction passages index lines with
  | case1 => rfl
  | case2 => rfl
  | case3 line next rest _ ih => simp [Passage.before,ih]
  | case4 line next rest _ ih => simp [Passage.before,ih]

theorem lines_syncFrom_none (index : Index) (line : String) (rest : List String) :
    (syncFrom index none (line::rest)).lines=line::(syncFrom index (signature? index line) rest).lines := by
  rw [syncFrom,signature?]
  cases readLine index line <;> rfl

theorem lines_syncFrom_some (index : Index) (s next : String) (rest : List String) :
    (syncFrom index (some s) (next::rest)).lines =
      s::(syncFrom index none (if contains next marker then rest else next::rest)).lines := by
  rw [syncFrom]
  dsimp only
  split_ifs
  · rfl
  · rw [syncFrom]
    rfl

theorem lines_syncLines (index : Index) (lines : List String) :
    (syncLines index lines).lines=(passages index lines).flatMap Passage.after := by
  unfold syncLines
  fun_induction passages index lines with
  | case1 => rfl
  | case2 line =>
    rw [lines_syncFrom_none]
    cases signature? index line <;> simp [syncFrom,Passage.after,Outcome.insert,Outcome.empty]
  | case3 line next rest h ih =>
    rw [Bool.and_eq_true,Option.isSome_iff_exists] at h
    obtain ⟨⟨s,hs⟩,hnext⟩ := h
    rw [lines_syncFrom_none,hs,lines_syncFrom_some,if_pos hnext,ih]
    simp [Passage.after]
  | case4 line next rest h ih =>
    rw [lines_syncFrom_none,flatMap_cons,← ih,Passage.after]
    cases hs : signature? index line with
    | none => rfl
    | some s =>
      rw [hs] at h
      rw [lines_syncFrom_some,if_neg (by simpa using h)]
      rfl

theorem passages_cons_of_none (h : signature? index line=none) (rest : List String) :
    passages index (line::rest)=⟨line,none,none⟩::passages index rest := by
  cases rest <;> simp [passages,h]

theorem passages_cons_of_some (h : signature? index line=some s) (rest : List String) :
    passages index (line::s::rest)=⟨line,some s,some s⟩::passages index rest := by
  simp [passages,h,signature?_eq_some h]

/-- What is written is read as the same passages. -/
theorem passages_after (index : Index) (lines : List String) :
    passages index ((passages index lines).flatMap Passage.after)=(passages index lines).map Passage.renewed := by
  have hcons : ∀ line old rest, passages index ((Passage.mk line (signature? index line) old).after++rest) =
      (Passage.mk line (signature? index line) old).renewed::passages index rest := by
    intro line old rest
    unfold Passage.after Passage.renewed
    cases hs : signature? index line with
    | none => exact passages_cons_of_none hs rest
    | some s => exact passages_cons_of_some hs rest
  fun_induction passages index lines with
  | case1 => rfl
  | case2 line => exact hcons line none []
  | case3 line next rest _ ih => rw [flatMap_cons,hcons,ih,map_cons]
  | case4 line next rest _ ih => rw [flatMap_cons,hcons,ih,map_cons]

theorem signature_of_mem_passages (index : Index) (lines : List String) :
    ∀ p∈passages index lines, p.signature=signature? index p.line := by
  fun_induction passages index lines with
  | case1 => exact nofun
  | case2 => exact forall_mem_singleton.2 rfl
  | case3 line next rest _ ih => exact forall_mem_cons.2 ⟨rfl,ih⟩
  | case4 line next rest _ ih => exact forall_mem_cons.2 ⟨rfl,ih⟩

theorem oneLine_of_mem_syncLines (h : ∀ l∈lines, OneLine l) : ∀ l∈(syncLines index lines).lines, OneLine l := by
  rw [lines_syncLines]
  intro l hl
  obtain ⟨p,hp,hl⟩ := mem_flatMap.1 hl
  rcases mem_cons.1 hl with rfl | hl
  · refine h _ ?_
    rw [← flatMap_before index lines]
    exact mem_flatMap.2 ⟨p,hp,mem_cons_self⟩
  · rw [signature_of_mem_passages index lines p hp,Option.mem_toList] at hl
    exact (signature?_eq_some hl).1

/-- The file with its signatures brought up to date. -/
def syncFile (index : Index) (file text : String) : String := (syncText index file (asRead text)).1

theorem syncFile_joinLines (index : Index) (file : String) (h : ∀ l∈lines, OneLine l) :
    syncFile index file (joinLines lines)=joinLines (syncLines index lines).lines := by
  unfold syncFile
  rw [asRead_joinLines h]
  by_cases hne : lines=[]
  · subst hne
    rfl
  · show joinLines (syncLines index (splitLines (joinLines lines))).lines=_
    rw [splitLines_joinLines hne h]

/-- A file is brought up to date once and for all. Its lines are cut into passages: lines that stay, headings of known modules
among them, and an old signature under some of these. In the result the same lines stand, with the new signature under each of
the headings and nothing else, and it is cut into the same passages. -/
theorem syncFile_idempotent (index : Index) (file text : String) :
    let lines := splitLines (asRead text)
    let result := (syncLines index lines).lines
    syncFile index file (syncFile index file text) = syncFile index file text ∧
    syncFile index file text = joinLines result ∧
    (passages index lines).flatMap Passage.before = lines ∧ (passages index lines).flatMap Passage.after = result ∧
    passages index result = (passages index lines).map Passage.renewed := by
  intro lines result
  have hlines : ∀ l ∈ result, OneLine l := oneLine_of_mem_syncLines (linesFrom_oneLine [] nofun _)
  have hresult : passages index result = (passages index lines).map Passage.renewed := by
    rw [← passages_after,← lines_syncLines]
  refine ⟨?_,rfl,flatMap_before index lines,(lines_syncLines index lines).symm,hresult⟩
  calc syncFile index file (joinLines result)
      = joinLines (syncLines index result).lines := syncFile_joinLines index file hlines
    _ = joinLines result := by
      rw [lines_syncLines,hresult,flatMap_map]
      exact congrArg joinLines (lines_syncLines index lines).symm

end ChipForge.Docs
