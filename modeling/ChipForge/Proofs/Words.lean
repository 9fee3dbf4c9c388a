import ChipForge.Json.Writer
import Mathlib.Data.List.Basic

/-! Whole numbers are written with digits alone, and read back as they were. -/
namespace ChipForge.Text
open List

variable {c : Char} {n : Nat} {s : String} {cs : List Char}

def isWholeChar (c : Char) : Bool := c.isDigit || c == '-'

theorem toList_toString_nat (n : Nat) : (toString n).toList=Nat.toDigits 10 n := by
  rw [Nat.toString_eq_ofList_toDigits,String.toList_ofList]

theorem isDigit_of_mem_toString (h : c∈(toString n).toList) : c.isDigit=true := by
  rw [toList_toString_nat] at h
  exact Nat.isDigit_of_mem_toDigits (by decide) (by decide) h

theorem toList_toString_int (n : Int) :
    (toString n).toList=(if n < 0 then ['-'] else [])++(toString n.natAbs).toList := by
  cases n with
  | ofNat n =>
    rw [if_neg (by simp)]
    rfl
  | negSucc n =>
    rw [if_pos (Int.negSucc_lt_zero n)]
    show ("-" ++ toString (n+1)).toList=_
    rw [String.toList_append]
    rfl

theorem isWholeChar_of_mem_toString {n : Int} (h : c∈(toString n).toList) : isWholeChar c=true := by
  rw [toList_toString_int] at h
  rcases mem_append.1 h with h | h
  · have hc : c = '-' := by
      split_ifs at h
      · exact mem_singleton.1 h
      · cases h
    rw [hc]
    decide
  · rw [isWholeChar,isDigit_of_mem_toString h,Bool.true_or]

theorem mem_digits_of_isDigit (h : c.isDigit=true) : c∈['0','1','2','3','4','5','6','7','8','9'] := by
  obtain ⟨hlow,hhigh⟩ : 48 ≤ c.toNat ∧ c.toNat≤57 := by simpa [Char.isDigit,UInt32.le_iff_toNat_le] using h
  have hcode : c.toNat=48 ∨ c.toNat=49 ∨ c.toNat=50 ∨ c.toNat=51 ∨ c.toNat=52 ∨ c.toNat=53 ∨ c.toNat=54 ∨
      c.toNat=55 ∨ c.toNat=56 ∨ c.toNat=57 := by omega
  rw [← Char.ofNat_toNat c]
  rcases hcode with h | h | h | h | h | h | h | h | h | h <;> rw [h] <;> decide

theorem isBlank_of_isWholeChar (h : isWholeChar c=true) : isBlank c=false := by
  have hmem : c∈['-','0','1','2','3','4','5','6','7','8','9'] := by
    rcases Bool.or_eq_true _ _ ▸ h with hdigit | hsign
    · exact mem_cons_of_mem _ (mem_digits_of_isDigit hdigit)
    · exact mem_cons.2 (.inl (by simpa using hsign))
  have hall : ['-','0','1','2','3','4','5','6','7','8','9'].all (fun c => !isBlank c)=true := by decide +kernel
  simpa using all_eq_true.1 hall c hmem

theorem trim_eq_self (h : ∀ c∈s.toList, isBlank c=false) : trim s=s := by
  have hdrop : ∀ cs : List Char, (∀ c∈cs, isBlank c=false) → cs.dropWhile isBlank=cs := by
    intro cs hcs
    cases cs with
    | nil => rfl
    | cons c cs => rw [dropWhile_cons_of_neg (by simp [hcs c mem_cons_self])]
  have hend : dropBlankEnd s.toList=s.toList := by
    rw [dropBlankEnd,hdrop _ (fun c hc => h c (mem_reverse.1 hc)),reverse_reverse]
  rw [trim,hdrop _ h,hend,String.ofList_toList]

theorem readDigits_eq (hne : cs≠[]) (h : ∀ c∈cs, c.isDigit=true) :
    readDigits cs=some (cs.map fun c => c.toNat - '0'.toNat) := by
  have hvalue : ∀ c : Char, c.isDigit=true → decimalValue? c=some (c.toNat - '0'.toNat) := by
    intro c hc
    have hall : ['0','1','2','3','4','5','6','7','8','9'].all
        (fun c => decimalValue? c == some (c.toNat - '0'.toNat))=true := by decide +kernel
    exact eq_of_beq (all_eq_true.1 hall c (mem_digits_of_isDigit hc))
  fun_induction readDigits cs with
  | case1 => exact absurd rfl hne
  | case2 c => simp [hvalue c (h c mem_cons_self)]
  | case3 c rest _ => exact absurd (h '_' (by simp)) (by decide)
  | case4 c rest hrest _ ih =>
    simp [hvalue c (h c mem_cons_self),ih hrest fun c hc => h c (mem_cons_of_mem _ hc)]

theorem toList_toString_ne_nil (n : Nat) : (toString n).toList≠[] := by
  rw [toList_toString_nat]
  exact Nat.toDigits_ne_nil

theorem splitSign_digits (h : ∀ c∈cs, c.isDigit=true) : splitSign cs=(false,cs) := by
  unfold splitSign
  split
  · exact absurd (h '-' mem_cons_self) (by decide)
  · exact absurd (h '+' mem_cons_self) (by decide)
  · rfl

theorem readInt?_eq {negative : Bool} (htrim : trim s=s) (hsplit : splitSign s.toList=(negative,(toString n).toList)) :
    readInt? s=some (if negative then -(n : Int) else n) := by
  have hdigits := readDigits_eq (toList_toString_ne_nil n) fun c hc => isDigit_of_mem_toString hc
  have hvalue : ofDigitList ((toString n).toList.map fun c => c.toNat - '0'.toNat)=n := by
    rw [ofDigitList,foldl_map,toList_toString_nat,← Nat.ofDigitChars_eq_foldl,Nat.ofDigitChars_ten_toDigits]
  rw [← hvalue]
  simp only [readInt?,htrim,hsplit,hdigits]
  rfl

theorem trim_toString (n : Int) : trim (toString n)=toString n :=
  trim_eq_self fun _ hc => isBlank_of_isWholeChar (isWholeChar_of_mem_toString hc)

theorem readInt?_toString (n : Int) : readInt? (toString n)=some n := by
  by_cases hn : n < 0
  · have hsplit : splitSign (toString n).toList=(true,(toString n.natAbs).toList) := by
      rw [toList_toString_int,if_pos hn]
      rfl
    rw [readInt?_eq (trim_toString n) hsplit,if_pos rfl,Option.some.injEq]
    omega
  · have hsplit : splitSign (toString n).toList=(false,(toString n.natAbs).toList) := by
      rw [toList_toString_int,if_neg hn,nil_append,splitSign_digits fun c hc => isDigit_of_mem_toString hc]
    rw [readInt?_eq (trim_toString n) hsplit,if_neg Bool.false_ne_true,Option.some.injEq]
    omega

end ChipForge.Text
