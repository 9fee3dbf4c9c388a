import ChipForge.Proofs.Placement

/-! What a statement that chooses between two rows of assignments leaves behind, from any state: which nodes it makes
for the choices, what is wired to them, and which names come to stand for them. -/
namespace ChipForge.Wiring
open Script List

section Merging
variable {u v w : State} {test : Ref} {yes no : String→Ref→Prop} {d : Dialect} {line : Nat} {name : String}
  {lines : List BranchLine} {stmts : List Stmt} {s t : State}

/-- What giving choices to names does: names in the list stand for a choice between a value of either branch, unless they
are written to. -/
structure Merges (test : Ref) (yes no : String→Ref→Prop) (names : List String) (u v : State) : Prop where
  adds : Adds u v
  kept : ∀ name, name∉names ∨ u.writes name=true → v.nodeOf.find name=u.nodeOf.find name
  chosen : ∀ name∈names, u.writes name=false →
    ∃ a b id, yes name a ∧ no name b ∧ Chosen u v test a b id ∧ v.nodeOf.find name=some id

theorem Merges.trans {front back : List String} (huv : Merges test yes no front u v) (hvw : Merges test yes no back v w) :
    Merges test yes no (front++back) u w where
  adds := huv.adds.trans hvw.adds
  kept name hname := by
    have hfront : name∉front ∨ u.writes name=true := hname.imp_left fun h hmem => h (mem_append_left _ hmem)
    have hback : name∉back ∨ v.writes name=true := by
      rw [huv.adds.writes]
      exact hname.imp_left fun h hmem => h (mem_append_right _ hmem)
    rw [hvw.kept name hback,huv.kept name hfront]
  chosen name hname hwrites := by
    -- The last choice made for a name is the one it stands for.
    by_cases hback : name∈back
    · obtain ⟨a,b,id,ha,hb,hchosen,hid⟩ := hvw.chosen name hback (by rwa [huv.adds.writes])
      exact ⟨a,b,id,ha,hb,hchosen.earlier huv.adds,hid⟩
    · have hfront : name∈front := (mem_append.1 hname).resolve_right hback
      obtain ⟨a,b,id,ha,hb,hchosen,hid⟩ := huv.chosen name hfront hwrites
      exact ⟨a,b,id,ha,hb,hchosen.later hvw.adds,by rw [hvw.kept name (.inl hback),hid]⟩

theorem mergeName_merges {a b : BranchValue} (ha : yes name a.ref) (hb : no name b.ref)
    (h : outcome (mergeName d line test (some a) (some b) name) u=(.ok (),v)) : Merges test yes no [name] u v := by
  rw [mergeName,outcome_get_bind] at h
  obtain ⟨t,s,htype,h⟩ := outcome_bind_eq_ok.1 h
  obtain rfl := (mergedType_reads _ _ _ _).eq htype
  cases t with
  | none => cases h
  | some t =>
    obtain ⟨hadds,hnodeOf,hchosen⟩ := s.placeChoice_spec test a.ref b.ref t (some line)
    dsimp only [valueOrEmpty] at h
    rw [outcome_bind_ok (outcome_pure _ _),outcome_bind_ok (outcome_pure _ _),
      outcome_bind_ok (outcome_emitChoice d test a.ref b.ref t (some line) s),outcome_get_bind] at h
    change outcome (if State.writes _ name then _ else _) _ = _ at h
    rw [hadds.writes] at h
    cases hwrites : s.writes name with
    | true =>
      rw [hwrites,if_pos rfl] at h
      obtain ⟨hwrite,hsame⟩ := Adds.write h
      refine ⟨hadds.trans hwrite,fun other _ => by rw [hsame,hnodeOf],fun other hother hfree => ?_⟩
      rw [mem_singleton.1 hother,hwrites] at hfree
      cases hfree
    | false =>
      rw [hwrites,if_neg (by decide)] at h
      obtain ⟨-,hv⟩ := Prod.mk.inj h
      have hput : v.nodeOf=s.nodeOf.put name (s.graph.nextId "Branch").1 := by
        rw [← hv,← hnodeOf]
        rfl
      have hbound : Adds (s.placeChoice test a.ref b.ref t (some line)) v := by
        rw [← hv]
        exact (Adds.refl _).of_graph rfl rfl rfl rfl rfl
      refine ⟨hadds.trans hbound,fun other hother => ?_,fun other hother _ => ?_⟩
      · have hne : other≠name := by
          rintro rfl
          rcases hother with hother | hother
          · exact hother (mem_singleton.2 rfl)
          · exact absurd (hwrites.symm.trans hother) (by decide)
        rw [hput,Table.find_put_ne _ _ hne]
      · obtain rfl := mem_singleton.1 hother
        exact ⟨a.ref,b.ref,_,ha,hb,hchosen.later hbound,by rw [hput,Table.find_put_self]⟩

theorem mergeNames_merges {yesValues noValues : List BranchValue} (hyes : ∀ value∈yesValues, yes value.name value.ref)
    (hno : ∀ value∈noValues, no value.name value.ref) {names : List String}
    (hnames : ∀ name∈names, name∈yesValues.map (·.name) ∧ name∈noValues.map (·.name))
    (h : outcome (mergeNames d line test yesValues noValues names) u=(.ok (),v)) : Merges test yes no names u v := by
  have hfind : ∀ (values : List BranchValue) (name : String), name∈values.map (·.name) →
      ∃ value∈values, values.find? (·.name == name)=some value ∧ value.name=name := by
    intro values name hname
    obtain ⟨value,hvalue,rfl⟩ := mem_map.1 hname
    have hsome : (values.find? (·.name == value.name)).isSome=true :=
      find?_isSome.2 ⟨value,hvalue,beq_self_eq_true value.name⟩
    obtain ⟨first,hfirst⟩ := Option.isSome_iff_exists.1 hsome
    have hsame := find?_some hfirst
    exact ⟨first,mem_of_find?_eq_some hfirst,hfirst,beq_iff_eq.1 hsame⟩
  induction names generalizing u with
  | nil =>
    obtain ⟨-,rfl⟩ := Prod.mk.inj h
    exact ⟨Adds.refl u,fun _ _ => rfl,fun _ hname => nomatch hname⟩
  | cons name rest ih =>
    obtain ⟨⟨⟩,s,hname,hrest⟩ := outcome_bind_eq_ok.1 h
    obtain ⟨hin,hin'⟩ := hnames name mem_cons_self
    obtain ⟨a,hmem,ha,hsame⟩ := hfind yesValues name hin
    obtain ⟨b,hmem',hb,hsame'⟩ := hfind noValues name hin'
    rw [ha,hb] at hname
    have hfirst : Merges test yes no [name] u s :=
      mergeName_merges (hsame ▸ hyes a hmem) (hsame' ▸ hno b hmem') hname
    exact hfirst.trans (ih (fun other hother => hnames other (mem_cons_of_mem _ hother)) hrest)

theorem Later.bindBranch (u : State) (name : String) (ref : Ref) (t : Option GateType) :
    Later u (u.bindBranch name ref t) := by
  cases ref with
  | node id port => cases t <;> exact (Later.refl u).of_graph rfl rfl rfl
  | name up port =>
    unfold State.bindBranch
    dsimp only
    split <;> split <;> try split
    all_goals exact (Later.refl u).of_graph rfl rfl rfl

/-- The value that a row of assignments gives to a name: that of the last line for the name, compiled after the lines
before it. -/
def LineValue (d : Dialect) (lines : List BranchLine) (s : State) (name : String) (ref : Ref) : Prop :=
  ∃ front value back values before after, lines=front++⟨name,value⟩::back ∧ name∉back.map (·.name) ∧
    outcome (compileLines d front) s=(.ok values,before) ∧ outcome (emitExpr d value) before=(.ok ref,after)

theorem compileLines_spec {values : List BranchValue} (hlines : (lines.map (·.name)).Nodup)
    (h : outcome (compileLines d lines) u=(.ok values,v)) :
    Later u v ∧ values.map (·.name)=lines.map (·.name) ∧ ∀ value∈values, LineValue d lines u value.name value.ref := by
  induction lines generalizing u values with
  | nil =>
    obtain ⟨hvalues,rfl⟩ := Prod.mk.inj h
    obtain rfl := Except.ok.inj hvalues
    exact ⟨Later.refl u,rfl,fun _ hvalue => nomatch hvalue⟩
  | cons line rest ih =>
    rw [map_cons,nodup_cons] at hlines
    obtain ⟨t,s,htype,hafter⟩ := outcome_bind_eq_ok.1 h
    obtain rfl := (typeOf_reads _ _).eq htype
    obtain ⟨ref,w,href,hafter⟩ := outcome_bind_eq_ok.1 hafter
    rw [outcome_modify_bind] at hafter
    obtain ⟨others,w',hothers,hafter⟩ := outcome_bind_eq_ok.1 hafter
    obtain ⟨hvalues,rfl⟩ := Prod.mk.inj hafter
    obtain rfl := Except.ok.inj hvalues
    obtain ⟨hlater,hnames,hgiven⟩ := ih hlines.2 hothers
    have hline : Later s w := by
      have hextends := emitExpr_extends d line.value s
      rw [href] at hextends
      exact hextends.later
    refine ⟨(hline.trans (Later.bindBranch w line.name ref t)).trans hlater,?_,fun value hvalue => ?_⟩
    · rw [map_cons,map_cons,hnames]
    rcases mem_cons.1 hvalue with rfl | hvalue
    · exact ⟨[],line.value,rest,[],s,w,rfl,hlines.1,rfl,href⟩
    · obtain ⟨front,e,back,values,before,after,rfl,hback,hfront,hrun⟩ := hgiven value hvalue
      refine ⟨line::front,e,back,⟨line.name,ref,t⟩::values,before,after,rfl,hback,?_,hrun⟩
      rw [compileLines,outcome_bind_ok htype,outcome_bind_ok href,outcome_modify_bind,
        outcome_bind_ok hfront,outcome_pure]

theorem branchLines_nodup {seen : List String} (h : branchLines seen stmts=.ok lines) :
    (lines.map (·.name)).Nodup ∧ ∀ name∈lines.map (·.name), name∉seen := by
  induction stmts generalizing seen lines with
  | nil =>
    cases h
    exact ⟨nodup_nil,fun _ hname => nomatch hname⟩
  | cons stmt rest ih =>
    rcases branchLines_cons_eq_ok h with hrest | ⟨place,name,value,others,-,hnew,hothers,rfl⟩
    · exact ih hrest
    · obtain ⟨hnodup,hothersNew⟩ := ih hothers
      rw [map_cons]
      refine ⟨nodup_cons.2 ⟨fun hname => hothersNew _ hname mem_cons_self,hnodup⟩,fun other hother => ?_⟩
      rcases mem_cons.1 hother with rfl | hother
      · exact hnew
      · exact fun hmem => hothersNew other hother (mem_cons_of_mem _ hmem)

theorem outcome_compileBranch {scope : Scope} (hlines : branchLines [] stmts=.ok lines) (s : State) :
    outcome (compileBranch d scope stmts) s=outcome (compileLines d lines) (s.withScope scope) := by
  rw [compileBranch,hlines,outcome_modify_bind,outcome_bind_ok (outcome_lift (.ok lines) _)]

theorem State.refOfName_eq_choice_iff {id : String} (haliases : t.aliases=s.aliases) (hid : t.nodeOf.find name=some id) :
    t.refOfName name=.node id autoPort ↔
      ∀ up port, s.aliases.find name=some (up,port) → port=autoPort ∧ t.nodeOf.find up=some id := by
  rw [State.refOfName,haliases]
  cases s.aliases.find name with
  | none => simp [hid]
  | some target =>
    obtain ⟨up,port⟩ := target
    cases hup : t.nodeOf.find up with
    | none => simp [hup]
    | some id' => simp [hup,and_comm]

theorem State.refOfName_eq_iff (haliases : t.aliases=s.aliases) (hname : t.nodeOf.find name=s.nodeOf.find name) :
    t.refOfName name=s.refOfName name ↔
      ∀ up port, s.aliases.find name=some (up,port) → t.nodeOf.find up=s.nodeOf.find up := by
  rw [State.refOfName,State.refOfName,haliases,hname]
  cases s.aliases.find name with
  | none => simp
  | some target =>
    obtain ⟨up,port⟩ := target
    cases hs : s.nodeOf.find up <;> cases ht : t.nodeOf.find up <;> simp [hs,ht]

/-- A choice between two rows of assignments to the same names compiles the test, either row from the names before, and
then the choices. -/
theorem compileIf_eq_ok {test : Expr} {body orelse : List Stmt} {yesLines noLines : List BranchLine}
    (hyes : branchLines [] body=.ok yesLines) (hno : branchLines [] orelse=.ok noLines)
    (h : outcome (compileIf d line test body orelse) s=(.ok (),t)) :
    ∃ testRef afterTest yes afterYes no afterNo, outcome (emitExpr d test) s=(.ok testRef,afterTest) ∧
      outcome (compileLines d yesLines) afterTest=(.ok yes,afterYes) ∧
      outcome (compileLines d noLines) (afterYes.withScope afterTest.scope)=(.ok no,afterNo) ∧
      outcome (mergeNames d line testRef yes no ((yes++no).map (·.name)).eraseDups)
        (afterNo.withScope afterTest.scope)=(.ok (),t) := by
  unfold compileIf at h
  cases hnested : (body++orelse).any isBranch with
  | true =>
    rw [hnested,if_pos rfl] at h
    cases h
  | false =>
    rw [hnested,if_neg (by decide)] at h
    obtain ⟨testRef,afterTest,htest,h⟩ := outcome_bind_eq_ok.1 h
    rw [outcome_get_bind] at h
    obtain ⟨yes,afterYes,hyesRun,h⟩ := outcome_bind_eq_ok.1 h
    obtain ⟨no,afterNo,hnoRun,h⟩ := outcome_bind_eq_ok.1 h
    rw [outcome_compileBranch hyes] at hyesRun
    rw [outcome_compileBranch hno] at hnoRun
    rw [outcome_modify_bind] at h
    exact ⟨testRef,afterTest,yes,afterYes,no,afterNo,htest,hyesRun,hnoRun,h⟩

end Merging

/-- After a choice between two rows of assignments to the same names, each assigned name that is not written to has a new
node that chooses between its two values. A name that was an alias stays one, so that it denotes the choice only if it
aliases it. -/
theorem compileStmt_ifElse_merges {d : Dialect} (hd : d.choices = true) {line : Nat} {test : Expr} {body orelse : List Stmt}
    (hguard : isGuardTest test = false) {yesLines noLines : List BranchLine} (hyes : branchLines [] body = .ok yesLines)
    (hno : branchLines [] orelse = .ok noLines)
    (hsame : ∀ name, name ∈ yesLines.map (·.name) ↔ name ∈ noLines.map (·.name)) {s t : State}
    (h : outcome (compileStmt d (.ifElse line test body orelse)) s = (.ok (), t)) :
    ∃ testRef afterTest afterYes afterNo, outcome (emitExpr d test) s = (.ok testRef, afterTest) ∧
      afterTest.scope = s.scope ∧ (outcome (compileLines d yesLines) afterTest).2 = afterYes ∧
      (outcome (compileLines d noLines) (afterYes.withScope s.scope)).2 = afterNo ∧ Later s afterNo ∧
      (∀ name ∈ yesLines.map (·.name), s.writes name = false → ∃ yes no id,
        LineValue d yesLines afterTest name yes ∧ LineValue d noLines (afterYes.withScope s.scope) name no ∧
        Chosen afterNo t testRef yes no id ∧ t.nodeOf.find name = some id ∧
        (t.refOfName name = .node id autoPort ↔
          ∀ up port, s.aliases.find name = some (up, port) → port = autoPort ∧ t.nodeOf.find up = some id)) ∧
      (∀ name, name ∉ yesLines.map (·.name) ∨ s.writes name = true → t.nodeOf.find name = s.nodeOf.find name ∧
        (t.refOfName name = s.refOfName name ↔
          ∀ up port, s.aliases.find name = some (up, port) → t.nodeOf.find up = s.nodeOf.find up)) := by
  rw [compileStmt,hd,hguard,if_pos (by decide)] at h
  obtain ⟨testRef,afterTest,yes,afterYes,no,afterNo,htest,hyesRun,hnoRun,hmerge⟩ := compileIf_eq_ok hyes hno h
  have htestRun := emitExpr_extends d test s
  rw [htest] at htestRun
  have hscope : afterTest.scope = s.scope := by
    rw [State.scope,State.scope,htestRun.nodeOf,htestRun.aliases,htestRun.nameTypes]
  rw [hscope] at hnoRun hmerge
  obtain ⟨hyesLater,hyesNames,hyesValues⟩ := compileLines_spec (branchLines_nodup hyes).1 hyesRun
  obtain ⟨hnoLater,hnoNames,hnoValues⟩ := compileLines_spec (branchLines_nodup hno).1 hnoRun
  have hrestored : Later s (afterYes.withScope s.scope) := (htestRun.later.trans hyesLater).of_graph rfl rfl rfl
  have hlater : Later s afterNo := hrestored.trans hnoLater
  have hnames : ∀ name, name ∈ ((yes ++ no).map (·.name)).eraseDups ↔ name ∈ yesLines.map (·.name) := by
    intro name
    rw [mem_eraseDups,map_append,mem_append,hyesNames,hnoNames,← hsame,or_self]
  have hboth : ∀ name ∈ ((yes ++ no).map (·.name)).eraseDups, name ∈ yes.map (·.name) ∧ name ∈ no.map (·.name) := by
    intro name hname
    rw [hyesNames,hnoNames,← hsame,and_self,← hnames]
    exact hname
  have hmerges := mergeNames_merges hyesValues hnoValues hboth hmerge
  have hwrites : ∀ name, (afterNo.withScope s.scope).writes name = s.writes name := hlater.writes
  have haliases : t.aliases = s.aliases := hmerges.adds.aliases
  refine ⟨testRef,afterTest,afterYes,afterNo,htest,hscope,by rw [hyesRun],by rw [hnoRun],hlater,?_,?_⟩
  · intro name hname hfree
    obtain ⟨a,b,id,ha,hb,hchosen,hid⟩ := hmerges.chosen name ((hnames name).2 hname) ((hwrites name).trans hfree)
    refine ⟨a,b,id,ha,hb,⟨hchosen.new,hchosen.used,hchosen.node,hchosen.feeds⟩,hid,?_⟩
    exact State.refOfName_eq_choice_iff haliases hid
  · intro name hname
    have hkept : t.nodeOf.find name = s.nodeOf.find name := hmerges.kept name (by rwa [hnames,hwrites])
    exact ⟨hkept,State.refOfName_eq_iff haliases hkept⟩

def aliasScript : List Stmt :=
  let input (line : Nat) (name : String) : Expr :=
    .call line (.name "INPUT") [.const (.str name false),.const (.str "Number" false)] []
  [.assign 1 [.name "a"] (input 1 "A"),.assign 2 [.name "c"] (input 2 "C"),
    .assign 3 [.name "x"] (.subscript (.name "a") (.const (.str "Value" false)))]

def aliasRow (line : Nat) (n : Nat) : List Stmt :=
  [.assign line [.name "x"] (.binary (.name "a") .add (.const (.int n)))]

private theorem lines_aliasRow (line n : Nat) :
    branchLines [] (aliasRow line n)=.ok [⟨"x",.binary (.name "a") .add (.const (.int n))⟩] := rfl

private theorem run_aliasRows : ∃ t, outcome (compileStmt (.full []) (.ifElse 4 (.name "c") (aliasRow 5 1) (aliasRow 7 2)))
    (outcome (compileScript (.full []) aliasScript) State.initial).2=(.ok (),t) ∧
    t.refOfName "x" = .node "input_0" "Value" := by
  exact ⟨_,outcome_eq_ok (a := ()) (by decide +kernel),by decide +kernel⟩

/-- The name has a choice between its values, and still denotes the output it was an alias of. -/
theorem compileStmt_ifElse_aliasRows : ∃ s t u test yes no id,
    s = (outcome (compileScript (.full []) aliasScript) State.initial).2 ∧
    outcome (compileStmt (.full []) (.ifElse 4 (.name "c") (aliasRow 5 1) (aliasRow 7 2))) s = (.ok (), t) ∧
    Chosen u t test yes no id ∧ t.nodeOf.find "x" = some id ∧ t.refOfName "x" ≠ .node id autoPort ∧
    t.refOfName "c" = s.refOfName "c" := by
  obtain ⟨t,hrun,-⟩ := run_aliasRows
  obtain ⟨test,_,_,u,-,-,-,-,-,hchosen,hkept⟩ := compileStmt_ifElse_merges rfl (by decide)
    (lines_aliasRow 5 1) (lines_aliasRow 7 2) (fun _ => Iff.rfl) hrun
  obtain ⟨yes,no,id,-,-,hnew,hid,hiff⟩ := hchosen "x" (mem_singleton.2 rfl) (by decide +kernel)
  have hnone : (outcome (compileScript (.full []) aliasScript) State.initial).2.aliases.find "c" = none := by
    decide +kernel
  refine ⟨_,t,u,test,yes,no,id,rfl,hrun,hnew,hid,fun hdenotes => ?_,?_⟩
  · exact absurd (hiff.1 hdenotes "a" "Value" (by decide +kernel)).1 (by decide)
  · refine (hkept "c" (.inl (by simp))).2.2 fun up port halias => ?_
    rw [hnone] at halias
    cases halias

/-- Not every name assigned in both branches denotes a new node afterwards. -/
theorem ifElse_keeps_alias : ¬∀ (d : Dialect) (line : Nat) (test : Expr) (body orelse : List Stmt)
    (yesLines noLines : List BranchLine) (s t : State), d.choices = true → isGuardTest test = false →
    branchLines [] body = .ok yesLines → branchLines [] orelse = .ok noLines →
    (∀ name, name ∈ yesLines.map (·.name) ↔ name ∈ noLines.map (·.name)) →
    outcome (compileStmt d (.ifElse line test body orelse)) s = (.ok (), t) →
    ∀ name ∈ yesLines.map (·.name), s.writes name = false →
      ∃ id, id ∉ s.graph.used ∧ t.refOfName name = .node id autoPort := by
  intro hall
  obtain ⟨t,hrun,hx⟩ := run_aliasRows
  obtain ⟨id,-,hid⟩ := hall _ _ _ _ _ _ _ _ t rfl (by decide) (lines_aliasRow 5 1) (lines_aliasRow 7 2)
    (fun _ => Iff.rfl) hrun "x" (mem_singleton.2 rfl) (by decide +kernel)
  rw [hx] at hid
  exact absurd (Ref.node.inj hid).2 (by decide)

end ChipForge.Wiring
