import ChipForge.Proofs.Table
import ChipForge.Wiring.Compiler.Arithmetic
import Mathlib.Data.List.Forall2
import Mathlib.Data.List.Induction

/-! Which argument of a call goes to which port, said for arguments of any kind. The plan of a call and the arguments of
a function are instances of it. -/
namespace ChipForge.Wiring
open Script List Text

variable {α β : Type}

variable {module : String} {args : List α} {keywords : List (Option String×α)} {call : ModuleCall} {plan : CallPlan}
  {ε : Type} {f : α→Except ε β} {items : List α} {out : List β} {word : String} {x : Except ε α} {γ : Type} {a : α}
  {op : BinaryOp}

theorem bind_eq_ok {b : β} : (x >>= f)=.ok b ↔ ∃ a, x=.ok a ∧ f a=.ok b := by
  cases x with
  | error e => simp [bind,Except.bind]
  | ok a => simp [bind,Except.bind]

theorem bind_bind_eq_ok {g : α→β→Except ε γ} {c : γ} :
    (x >>= fun a => f a >>= g a)=.ok c ↔ ∃ a b, x=.ok a ∧ f a=.ok b ∧ g a b=.ok c := by
  simp only [bind_eq_ok,exists_and_left]

theorem forall₂_map_map {δ : Type} {R : β→γ→Prop} {f : δ→β} {g : δ→γ} {l : List δ} :
    Forall₂ R (l.map f) (l.map g) ↔ ∀ x∈l, R (f x) (g x) := by
  rw [List.forall₂_map_left_iff,List.forall₂_map_right_iff,List.forall₂_same]

theorem forall₂_of_mapM (h : items.mapM f=.ok out) : Forall₂ (fun a b => f a=.ok b) items out := by
  induction items generalizing out with
  | nil =>
    cases h
    exact .nil
  | cons a rest ih =>
    rw [mapM_cons] at h
    obtain ⟨b,others,hb,hothers,h⟩ := bind_bind_eq_ok.1 h
    cases h
    exact .cons hb (ih hothers)

theorem forall₂_getElem? {R : α→β→Prop} {as : List α} {bs : List β} (h : Forall₂ R as bs) {i : Nat}
    (ha : as[i]?=some a) : ∃ b, bs[i]?=some b ∧ R a b := by
  obtain ⟨hi,rfl⟩ := List.getElem?_eq_some_iff.1 ha
  have hi' : i < bs.length := h.length_eq ▸ hi
  exact ⟨bs[i],getElem?_eq_getElem hi',h.get hi hi'⟩

theorem eq_map_of_mapM {g : α→β} (h : items.mapM f=.ok out) (hfg : ∀ a∈items, ∀ b, f a=.ok b → b=g a) :
    out=items.map g := by
  have hboth := (List.forall₂_and_left items out).2 ⟨hfg,forall₂_of_mapM h⟩
  rw [← List.forall₂_eq_eq_eq,List.forall₂_map_right_iff]
  exact (hboth.imp fun a b hab => hab.1 b hab.2).flip

/-- Items that are sent to different values are told apart by them. -/
theorem eq_of_mapM_nodup (h : items.mapM f=.ok out) (hnodup : out.Nodup) {b : α} {x : β} (ha : a∈items) (hb : b∈items)
    (hfa : f a=.ok x) (hfb : f b=.ok x) : a=b := by
  obtain ⟨i,hi⟩ := mem_iff_getElem?.1 ha
  obtain ⟨j,hj⟩ := mem_iff_getElem?.1 hb
  obtain ⟨y,hy,hfy⟩ := forall₂_getElem? (forall₂_of_mapM h) hi
  obtain ⟨z,hz,hfz⟩ := forall₂_getElem? (forall₂_of_mapM h) hj
  rw [hfa] at hfy
  rw [hfb] at hfz
  cases hfy
  cases hfz
  obtain ⟨hlt,hat⟩ := List.getElem?_eq_some_iff.1 hy
  obtain ⟨hlt',hat'⟩ := List.getElem?_eq_some_iff.1 hz
  obtain rfl := (getElem_inj hnodup).1 (hat.trans hat'.symm)
  exact Option.some.inj (hi.symm.trans hj)

def isSetting (word key : String) : Bool :=
  key == "attrs" || key == "id" || key == "label" ||
    (word == "input" || word == "output") && (key == "name" || key == "data_type" || key == "datatype")

def givenPorts (word : String) (args : List α) : List (String×α) :=
  if word == "input" then []
  else if word == "output" then (args.take 1).map fun a => ("0",a)
  else args.zipIdx.map fun (a,i) => (toString i,a)

def keywordPort? (word : String) (k : Option String×α) : Option (String×α) :=
  k.1.bind fun key => if isSetting word key then none else some (key,k.2)

/-- Ports of all arguments of a call. -/
def callPorts (word : String) (args : List α) (keywords : List (Option String×α)) : List (String×α) :=
  givenPorts word args++keywords.filterMap (keywordPort? word)

theorem callPorts_map (f : α→β) (word : String) (args : List α) (keywords : List (Option String×α)) :
    callPorts word (args.map f) (keywords.map (Prod.map id f))=(callPorts word args keywords).map (Prod.map id f) := by
  have hgiven : givenPorts word (args.map f)=(givenPorts word args).map (Prod.map id f) := by
    unfold givenPorts
    split_ifs
    · rfl
    · simp [map_take,Function.comp_def]
    · simp [zipIdx_map]
  have hkeyword : ∀ k : Option String×α,
      keywordPort? word (Prod.map id f k)=(keywordPort? word k).map (Prod.map id f) := by
    rintro ⟨_ | key,a⟩
    · rfl
    · simp only [keywordPort?,Prod.map_apply,id_eq,Option.bind_some]
      split_ifs <;> rfl
  have hkeywords : (keywords.map (Prod.map id f)).filterMap (keywordPort? word) =
      (keywords.filterMap (keywordPort? word)).map (Prod.map id f) := by
    rw [filterMap_map,map_filterMap]
    congr 1
    funext k
    exact hkeyword k
  rw [callPorts,callPorts,hgiven,hkeywords,map_append]

theorem mem_of_mem_callPorts {p : String×α} (h : p∈callPorts word args keywords) : p.2∈args ∨ ∃ k∈keywords, k.2=p.2 := by
  rcases mem_append.1 h with h | h
  · left
    unfold givenPorts at h
    split_ifs at h
    · cases h
    · obtain ⟨a,ha,rfl⟩ := mem_map.1 h
      exact mem_of_mem_take ha
    · obtain ⟨⟨a,i⟩,ha,rfl⟩ := mem_map.1 h
      exact (mem_zipIdx' ha).2 ▸ getElem_mem _
  · right
    obtain ⟨⟨name,a⟩,hk,hp⟩ := mem_filterMap.1 h
    refine ⟨_,hk,?_⟩
    cases name with
    | none => cases hp
    | some key =>
      simp only [keywordPort?,Option.bind_some] at hp
      split_ifs at hp
      cases hp
      rfl

def NamedOperand.pair (k : NamedOperand) : Option String×Operand := (k.name,k.operand)

theorem planArgs_spec (h : planArgs call word=.ok plan) : plan.ports=givenPorts word call.args ∧ plan.id=none := by
  unfold planArgs at h
  unfold givenPorts
  by_cases hin : (word == "input")=true
  · simp only [hin,if_true] at h ⊢
    obtain ⟨attrs,-,hplan⟩ := bind_eq_ok.1 h
    cases hplan
    exact ⟨rfl,rfl⟩
  simp only [hin] at h ⊢
  by_cases hout : (word == "output")=true
  · simp only [hout,if_true] at h ⊢
    by_cases hlen : call.args.length > 3
    · simp [hlen] at h
    simp only [hlen,if_false] at h
    cases hargs : call.args with
    | nil =>
      simp only [hargs] at h
      cases h
      exact ⟨rfl,rfl⟩
    | cons value rest =>
      simp only [hargs] at h
      by_cases hkey : hasKeyword "input" call.keywords=true
      · simp [hkey] at h
      simp only [hkey] at h
      obtain ⟨attrs,-,hplan⟩ := bind_eq_ok.1 h
      cases hplan
      exact ⟨rfl,rfl⟩
  · simp only [hout] at h ⊢
    cases h
    exact ⟨rfl,rfl⟩

/-- One argument with keyword adds its port, if it has one, and sets an id only if it is one. -/
theorem planKeyword_spec {next : CallPlan} {k : NamedOperand} (h : planKeyword module word plan k=.ok next) :
    next.ports=plan.ports++(keywordPort? word k.pair).toList ∧
      (next.id=plan.id ∨ k.name=some "id" ∧ next.id=textOf? k.operand) := by
  unfold planKeyword at h
  rcases k with ⟨_ | key,o⟩
  · cases h
    simp [keywordPort?,NamedOperand.pair]
  simp only [keywordPort?,NamedOperand.pair,Option.bind_some,isSetting] at h ⊢
  by_cases hattrs : key = "attrs"
  · simp only [hattrs,beq_self_eq_true,if_true] at h
    cases h
    simp [hattrs]
  by_cases hid : key = "id"
  · simp only [hid] at h
    cases h
    cases ho : textOf? o <;> simp [hid]
  by_cases hlabel : key = "label"
  · simp only [hlabel] at h
    cases h
    simp [hlabel]
  simp only [beq_eq_false_iff_ne.2 hattrs,beq_eq_false_iff_ne.2 hid,beq_eq_false_iff_ne.2 hlabel,Bool.false_or,
    Bool.false_eq_true,if_false] at h ⊢
  by_cases hio :
      ((word == "input" || word == "output") && (key == "name" || key == "data_type" || key == "datatype"))=true
  · simp only [hio,if_true] at h ⊢
    obtain ⟨v,-,hnext⟩ := bind_eq_ok.1 h
    cases hnext
    simp
  · simp only [hio] at h ⊢
    cases h
    simp

/-- Ports and id of a call as its plan has them. -/
theorem planKeywords_spec {last : CallPlan} {keywords : List NamedOperand}
    (h : planKeywords module word plan keywords=.ok last) :
    last.ports=plan.ports++(keywords.map NamedOperand.pair).filterMap (keywordPort? word) ∧
      (last.id=plan.id ∨ ∃ k∈keywords, k.name=some "id" ∧ ∀ x, last.id=some x → textOf? k.operand=some x) := by
  induction keywords generalizing plan with
  | nil =>
    cases h
    simp
  | cons k rest ih =>
    obtain ⟨next,hk,hrest⟩ := bind_eq_ok.1 h
    obtain ⟨hports,hid⟩ := planKeyword_spec hk
    obtain ⟨hports',hid'⟩ := ih hrest
    refine ⟨?_,?_⟩
    · rw [hports',hports,map_cons,filterMap_cons]
      cases keywordPort? word k.pair <;> simp
    · rcases hid' with hid' | ⟨k',hk',hname,hx⟩
      · rcases hid with hid | ⟨hname,hid⟩
        · exact .inl (hid'.trans hid)
        · exact .inr ⟨k,mem_cons_self,hname,fun x hx => by rw [← hid,← hid',hx]⟩
      · exact .inr ⟨k',mem_cons_of_mem _ hk',hname,hx⟩

/-- A planned call feeds its ports with its arguments. -/
theorem planCall_ports (h : planCall call=.ok plan) :
    plan.ports=callPorts (lower call.module) call.args (call.keywords.map NamedOperand.pair) := by
  obtain ⟨start,hargs,hkeywords⟩ := bind_eq_ok.1 h
  rw [(planKeywords_spec hkeywords).1,(planArgs_spec hargs).1,callPorts]

theorem planCall_id {x : String} (h : planCall call=.ok plan)
    (hx : plan.id=some x) : ∃ k∈call.keywords, k.name=some "id" ∧ textOf? k.operand=some x := by
  obtain ⟨start,hargs,hkeywords⟩ := bind_eq_ok.1 h
  rcases (planKeywords_spec hkeywords).2 with hid | ⟨k,hk,hname,htext⟩
  · rw [hid,(planArgs_spec hargs).2] at hx
    cases hx
  · exact ⟨k,hk,hname,htext x hx⟩

/-- A module that is no end of the chip and ports that are no settings. -/
structure PlainPorts (module : String) (ports : List (String×α)) : Prop where
  module : lower module ≠ "input" ∧ lower module ≠ "output"
  ports : ∀ p∈ports, p.1 ≠ "attrs" ∧ p.1 ≠ "id" ∧ p.1 ≠ "label"

def named (ports : List (String×Operand)) : List NamedOperand := ports.map fun (port,o) => ⟨some port,o⟩

/-- Arguments under keywords that are no settings go to the ports of these names. -/
theorem planKeywords_named {ports : List (String×Operand)} (h : PlainPorts module ports) (rest : List NamedOperand) :
    planKeywords module (lower module) plan (named ports++rest) =
      planKeywords module (lower module) { plan with ports := plan.ports++ports } rest := by
  obtain ⟨⟨hin,hout⟩,hports⟩ := h
  induction ports generalizing plan with
  | nil =>
    rw [append_nil]
    rfl
  | cons p others ih =>
    obtain ⟨hattrs,hid,hlabel⟩ := hports p mem_cons_self
    have hp : planKeyword module (lower module) plan ⟨some p.1,p.2⟩=.ok { plan with ports := plan.ports++[p] } := by
      simp [planKeyword,hattrs,hid,hlabel,hin,hout]
    calc planKeywords module (lower module) plan (named (p::others)++rest)
        = (planKeyword module (lower module) plan ⟨some p.1,p.2⟩ >>= fun next =>
            planKeywords module (lower module) next (named others++rest)) := rfl
      _ = planKeywords module (lower module) { plan with ports := plan.ports++[p] } (named others++rest) := by
        rw [hp]
        rfl
      _ = planKeywords module (lower module) { plan with ports := plan.ports++p::others } rest := by
        rw [ih fun q hq => hports q (mem_cons_of_mem _ hq)]
        simp only [append_assoc,singleton_append]

theorem planArgs_plain {ports : List (String×Operand)} (h : PlainPorts module ports) (line : Option Nat)
    (args : List Operand) (keywords : List NamedOperand) :
    planArgs ⟨line,module,args,keywords⟩ (lower module) =
      .ok ⟨[],none,none,args.zipIdx.map fun (o,i) => (toString i,o),none⟩ := by
  simp [planArgs,h.module.1,h.module.2]

theorem planCall_plain {ports : List (String×Operand)} (h : PlainPorts module ports) :
    planCall ⟨none,module,[],ports.map fun (port,o) => ⟨some port,o⟩⟩=.ok ⟨[],none,none,ports,none⟩ := by
  have hkeywords : planKeywords module (lower module) ⟨[],none,none,[],none⟩ (named ports++[]) =
      .ok ⟨[],none,none,ports,none⟩ := planKeywords_named h []
  rw [append_nil] at hkeywords
  rw [planCall,planArgs_plain h]
  exact hkeywords

/-- Module and ports of an operator. -/
def operatorPorts? : BinaryOp→Option (String×String×String)
  | .add => some ("Add","A","B")
  | .sub => some ("Subtract","A","B")
  | .mul => some ("Multiply","A","B")
  | .div => some ("Divide","A","B")
  | .mod => some ("Mod","Dividend","Divider")
  | .pow => some ("Power","Value","Power")
  | _ => none

theorem operatorForm_eq_ok {left right : Option LiteralKind} {form : String×String×String}
    (h : operatorForm op left right=.ok form) : operatorPorts? op=some form := by
  unfold operatorForm at h
  cases op with
  | add | sub | mul | div | mod | pow =>
    dsimp only at h
    split_ifs at h
    cases h
    rfl
  | _ => cases h

theorem plainPorts_of_operator {a b : String} (h : operatorPorts? op=some (module,a,b)) (x y : α) :
    PlainPorts module [(a,x),(b,y)] := by
  cases op <;> cases h <;> exact ⟨by decide,by simp⟩

/-- The argument under a key: the last one with that keyword, else the one without keyword in its place. -/
def argument? (heads : List String) (args : List α) (keywords : List (Option String×α)) (key : String) : Option α :=
  ((keywords.reverse.find? fun k => k.1.map lower == some key).map (·.2)).or ((heads.zip args).lookup key)

theorem argument?_map (f : α→β) (heads : List String) (args : List α) (keywords : List (Option String×α))
    (key : String) :
    argument? heads (args.map f) (keywords.map (Prod.map id f)) key=(argument? heads args keywords key).map f := by
  have hlookup : (heads.zip (args.map f)).lookup key=((heads.zip args).lookup key).map f := by
    induction heads generalizing args with
    | nil => rfl
    | cons head rest ih =>
      cases args with
      | nil => rfl
      | cons a args =>
        simp only [map_cons,zip_cons_cons,lookup_cons,ih]
        split <;> rfl
  rw [argument?,argument?,hlookup,← map_reverse,find?_map,Option.map_or]
  simp [Function.comp_def]

theorem mem_of_argument? {heads : List String} {key : String} (h : argument? heads args keywords key=some a) :
    a∈args ∨ ∃ k∈keywords, k.2=a := by
  rcases Option.or_eq_some_iff.1 h with h | ⟨-,h⟩
  · obtain ⟨k,hk,rfl⟩ := Option.map_eq_some_iff.1 h
    exact .inr ⟨k,mem_reverse.1 (mem_of_find?_eq_some hk),rfl⟩
  · obtain ⟨before,rest,hzip,-⟩ := lookup_eq_some_iff.1 h
    have hmem : (key,a)∈heads.zip args := hzip ▸ mem_append_right before mem_cons_self
    exact .inl (of_mem_zip hmem).2

namespace Form

variable {form : Form} {γ : Type} {ports : List (String×α)}

def heads (form : Form) : List String := form.slots.map fun slot => slot.keys.headD ""

/-- The table of keywords holds the argument written last under a keyword. -/
theorem find_keywordTable (keywords : List NamedOperand) (key : String) :
    (keywordTable keywords).find key =
      ((keywords.map NamedOperand.pair).reverse.find? fun k => k.1.map lower == some key).map (·.2) := by
  -- The table is filled from the front, so the last keyword decides.
  induction keywords using List.reverseRecOn with
  | nil => rfl
  | append_singleton keywords k ih =>
    rw [keywordTable,foldl_append,foldl_cons,foldl_nil,← keywordTable,map_append,
      reverse_append,map_singleton,reverse_singleton,singleton_append,find?_cons]
    rcases k with ⟨_ | name,o⟩
    · simpa [NamedOperand.pair] using ih
    · by_cases h : key=lower name
      · simp [NamedOperand.pair,h]
      · have hne : (lower name == key)=false := beq_eq_false_iff_ne.2 (Ne.symm h)
        simpa [NamedOperand.pair,h,hne] using ih

theorem find_argumentTable (form : Form) (args : List Operand) (keywords : List NamedOperand) (key : String) :
    (form.argumentTable args keywords).find key=argument? form.heads args (keywords.map NamedOperand.pair) key := by
  have hfill : ∀ (pairs : List (String×Operand)) (table : Table Operand),
      (pairs.foldl (fun table (key,o) => table.putNew key o) table).find key =
        (table.find key).or (pairs.lookup key) := by
    intro pairs
    induction pairs with
    | nil => simp
    | cons pair rest ih =>
      obtain ⟨k,o⟩ := pair
      intro table
      rw [foldl_cons,ih,Table.find_putNew,lookup_cons]
      by_cases h : key=k
      · cases ht : table.find k <;> simp [h,ht]
      · simp [h,beq_eq_false_iff_ne.2 h]
  rw [argumentTable,hfill,find_keywordTable,argument?,heads]

/-- The argument of a slot: under the strongest of its keys that is given. -/
def slotArgument? (form : Form) (args : List α) (keywords : List (Option String×α)) (slot : Slot) : Option α :=
  slot.keys.findSome? (argument? form.heads args keywords)

/-- Ports of a function with their arguments, if all are given. -/
def ports? (form : Form) (args : List α) (keywords : List (Option String×α)) : Option (List (String×α)) :=
  if form.shape == .twice then
    (form.slots.findSome? (form.slotArgument? args keywords)).map fun a => [("A",a),("B",a)]
  else form.slots.mapM fun slot => (form.slotArgument? args keywords slot).map fun a => (slot.port,a)

theorem slotArgument?_map (form : Form) (f : α→β) (args : List α) (keywords : List (Option String×α)) (slot : Slot) :
    form.slotArgument? (args.map f) (keywords.map (Prod.map id f)) slot =
      (form.slotArgument? args keywords slot).map f := by
  rw [slotArgument?,slotArgument?,map_findSome?]
  congr 1
  funext key
  exact argument?_map f form.heads args keywords key

theorem mapM_option_map (g : Slot→Option γ) (f : γ→β) (slots : List Slot) :
    (slots.mapM fun slot => (g slot).map f)=(slots.mapM g).map (List.map f) := by
  induction slots with
  | nil => rfl
  | cons slot rest ih =>
    rw [mapM_cons,mapM_cons,ih]
    cases g slot <;> cases rest.mapM g <;> rfl

theorem ports?_map (form : Form) (f : α→β) (args : List α) (keywords : List (Option String×α)) :
    form.ports? (args.map f) (keywords.map (Prod.map id f)) =
      (form.ports? args keywords).map (List.map (Prod.map id f)) := by
  have hslot : form.slotArgument? (args.map f) (keywords.map (Prod.map id f)) =
      Option.map f ∘ form.slotArgument? args keywords := funext (form.slotArgument?_map f args keywords)
  unfold ports?
  rw [hslot]
  split_ifs
  · rw [← map_findSome?,Option.map_map,Option.map_map]
    rfl
  · rw [← mapM_option_map]
    simp [Function.comp_def]

private theorem mem_of_mapM_eq_some {g : Slot→Option γ} {slots : List Slot} {out : List γ} (h : slots.mapM g=some out)
    {y : γ} (hy : y∈out) : ∃ slot∈slots, g slot=some y := by
  induction slots generalizing out with
  | nil =>
    cases h
    cases hy
  | cons slot rest ih =>
    rw [mapM_cons] at h
    cases hslot : g slot with
    | none => simp [hslot] at h
    | some first =>
      cases hrest : rest.mapM g with
      | none => simp [hslot,hrest] at h
      | some others =>
        simp only [hslot,hrest,bind,pure,Option.bind_some,Option.some.injEq] at h
        subst h
        rcases mem_cons.1 hy with rfl | hy
        · exact ⟨slot,mem_cons_self,hslot⟩
        · obtain ⟨other,hother,hg⟩ := ih hrest hy
          exact ⟨other,mem_cons_of_mem _ hother,hg⟩

/-- The ports of a function are those of its slots, or the two that share one argument, and are fed by arguments. -/
theorem mem_of_ports? (h : form.ports? args keywords=some ports) {p : String×α} (hp : p∈ports) :
    (p.1 = "A" ∨ p.1 = "B" ∨ ∃ slot∈form.slots, slot.port=p.1) ∧ (p.2∈args ∨ ∃ k∈keywords, k.2=p.2) := by
  have hslot : ∀ {slot : Slot} {a : α}, form.slotArgument? args keywords slot=some a →
      a∈args ∨ ∃ k∈keywords, k.2=a := by
    intro slot a ha
    obtain ⟨key,-,hkey⟩ := exists_of_findSome?_eq_some ha
    exact mem_of_argument? hkey
  unfold ports? at h
  split_ifs at h
  · obtain ⟨a,ha,rfl⟩ := Option.map_eq_some_iff.1 h
    obtain ⟨slot,-,hfound⟩ := exists_of_findSome?_eq_some ha
    simp only [mem_cons,not_mem_nil,or_false] at hp
    rcases hp with rfl | rfl
    · exact ⟨.inl rfl,hslot hfound⟩
    · exact ⟨.inr (.inl rfl),hslot hfound⟩
  · obtain ⟨slot,hmem,hg⟩ := mem_of_mapM_eq_some h hp
    obtain ⟨a,ha,rfl⟩ := Option.map_eq_some_iff.1 hg
    exact ⟨.inr (.inr ⟨slot,hmem,rfl⟩),hslot ha⟩

theorem pick?_eq (form : Form) (args : List Operand) (keywords : List NamedOperand) (slot : Slot) :
    slot.pick? (form.argumentTable args keywords)=form.slotArgument? args (keywords.map NamedOperand.pair) slot := by
  rw [Slot.pick?,slotArgument?]
  congr 1
  funext key
  exact form.find_argumentTable args keywords key

/-- The arguments of a function are those of its slots. Only one that stands on two ports may be missing. -/
theorem arguments_eq_ok {args : List Operand} {keywords : List NamedOperand} {ports : List (String×Operand)}
    (h : form.arguments args keywords=.ok ports) :
    form.ports? args (keywords.map NamedOperand.pair)=some ports ∨
      form.shape=.twice ∧ ports=[("A",Operand.missing),("B",Operand.missing)] := by
  have hpick : (fun slot : Slot => slot.pick? (form.argumentTable args keywords)) =
      form.slotArgument? args (keywords.map NamedOperand.pair) := funext (form.pick?_eq args keywords)
  unfold arguments at h
  unfold ports?
  split_ifs at h ⊢ with htwice
  · cases h
    rw [hpick]
    cases form.slots.findSome? (form.slotArgument? args (keywords.map NamedOperand.pair)) with
    | none => exact .inr ⟨beq_iff_eq.1 htwice,rfl⟩
    | some o => exact .inl rfl
  · left
    simp only [form.pick?_eq args keywords] at h
    cases hpairs : form.slots.mapM fun slot =>
        (form.slotArgument? args (keywords.map NamedOperand.pair) slot).map fun o => (slot,o) with
    | none =>
      rw [hpairs] at h
      cases h
    | some pairs =>
      rw [hpairs] at h
      obtain ⟨-,-,hports⟩ := bind_eq_ok.1 h
      cases hports
      have hmap := mapM_option_map (fun slot =>
        (form.slotArgument? args (keywords.map NamedOperand.pair) slot).map fun o => (slot,o))
        (fun p : Slot×Operand => (p.1.port,p.2)) form.slots
      rw [hpairs] at hmap
      simpa [Function.comp_def] using hmap

/-- A slot's port is never the name of a setting, and no function is an end of the chip. -/
structure IsPlain (form : Form) : Prop where
  module : lower form.module ≠ "input" ∧ lower form.module ≠ "output"
  ports : ∀ slot∈form.slots, slot.port ≠ "attrs" ∧ slot.port ≠ "id" ∧ slot.port ≠ "label"

theorem IsPlain.plainPorts (hform : form.IsPlain) (h : form.ports? args keywords=some ports) :
    PlainPorts form.module ports := by
  refine ⟨hform.module,fun p hp => ?_⟩
  rcases (mem_of_ports? h hp).1 with hport | hport | ⟨slot,hslot,hport⟩
  · rw [hport]
    decide
  · rw [hport]
    decide
  · exact hport ▸ hform.ports slot hslot

/-- What holds of every entry of a row of choices holds of the one that is found. -/
private theorem forall_ite {P : Form→Prop} {c : Prop} [Decidable c] {entry : Form} {rest : Option Form}
    (hentry : c→P entry) (hrest : ∀ form, rest=some form→P form) :
    ∀ form, (if c then some entry else rest)=some form→P form := by
  intro form h
  by_cases hc : c
  · rw [if_pos hc] at h
    cases h
    exact hentry hc
  · rw [if_neg hc] at h
    exact hrest form h

theorem find?_isPlain : ∀ form, find? module=some form → form.IsPlain := by
  refine forall_ite (fun hword => ⟨?_,by simp⟩) ?_
  · simp only [contains_eq_mem,mem_cons,not_mem_nil,or_false,decide_eq_true_eq] at hword
    show lower module ≠ "input" ∧ lower module ≠ "output"
    rcases hword with h | h | h <;> rw [h] <;> decide
  · iterate 17
      refine forall_ite (fun _ => ⟨by dsimp only [single,rounding,double]; decide,by simp [single,rounding,double]⟩) ?_
    intro form h
    cases h

/-- No function stands for the module of constants. -/
theorem find?_module_ne : ∀ form, find? module=some form → form.module ≠ "Constant" := by
  refine forall_ite (fun hword hmodule => ?_) ?_
  · rw [show module = "Constant" from hmodule] at hword
    exact absurd hword (by decide)
  · iterate 17
      refine forall_ite (fun _ => by dsimp only [single,rounding,double]; decide) ?_
    intro form h
    cases h

/-- Modules that functions stand for under a name of their own. -/
def namedModules : List String :=
  ["Positive","Sqrt","Round","Floor","Ceiling","Clamp01","Clamp","Average","Max","Multiply","Inverse","Sign",
    "Logarithm","Random","Power","Mod"]

theorem find?_module : ∀ form, find? module=some form →
    form.module∈namedModules ∨ lower form.module∈["magnitude","to_string","tostring"] := by
  refine forall_ite (fun hword => .inr (by simpa using hword)) ?_
  iterate 17
    refine forall_ite (fun _ => .inl (by dsimp only [single,rounding,double]; decide)) ?_
  intro form h
  cases h

/-- No keyword gives two arguments of a function. -/
theorem find?_keys_nodup : ∀ form, find? module=some form→(form.slots.flatMap (·.keys)).Nodup := by
  refine forall_ite (fun _ => by simp) ?_
  iterate 17
    refine forall_ite (fun _ => by simp [single,rounding,double]) ?_
  intro form h
  cases h

end Form

end ChipForge.Wiring
