import ChipForge.Proofs.ConstantKey
import ChipForge.Proofs.Sound
import Mathlib.Data.List.Forall2

/-! The tree that a reference unfolds to: constants, nodes that were there before and names still to come are leaves,
and every other node stands with what feeds its ports. -/
namespace ChipForge.Wiring
open Script List

variable {wires : List (String×Ref)} {feeds : List (String×OpTree)}

/-- What a reference stands for, seen through the nodes made for it. -/
inductive OpTree
  /-- An output of what a name will stand for. -/
  | later (name port : String)
  /-- An output of a node that was there before. -/
  | before (id port : String)
  /-- A constant. -/
  | constant (text port : String)
  /-- An output of a node with the trees on its ports. -/
  | node (type : String) (attrs : Attrs) (feeds : List (String×OpTree)) (port : String)
  /-- What has no graph. -/
  | refused

namespace OpTree

def isLater : OpTree→Bool
  | later _ _ => true
  | _ => false

def withPort (port : String) : OpTree→OpTree
  | later name _ => later name port
  | before id _ => before id port
  | constant text _ => constant text port
  | node type attrs feeds _ => node type attrs feeds port
  | refused => refused

def settle (feeds : List (String×OpTree)) : List (String×OpTree) :=
  feeds.filter (!·.2.isLater)++feeds.filter (·.2.isLater)

/-- The tree of a node; a constant that nothing feeds is its value. -/
def ofNode (type : String) (attrs : Attrs) (feeds : List (String×OpTree)) (port : String) : OpTree :=
  match (if type = "Constant" ∧ feeds.isEmpty then attr? attrs "value" else none) with
  | some v => constant (reading v) port
  | none => node type attrs feeds port

def made (type : String) (attrs : Attrs) (feeds : List (String×OpTree)) : OpTree :=
  ofNode type attrs (settle feeds) autoPort

end OpTree

/-- A reference unfolds to a tree in a state: `old` nodes and constants are leaves, other nodes that are `done` are
unfolded port by port. -/
inductive Unfolds (old done : String→Prop) (s : State) : Ref→OpTree→Prop
  | later (name port : String) : Unfolds old done s (.name name port) (.later name port)
  | constant {id : String} (port : String) {v : Literal} (hdone : done id) (hv : s.constant? id=some v) :
    Unfolds old done s (.node id port) (.constant (reading v) port)
  | before {id : String} (port : String) (hold : old id) (hv : s.constant? id=none) :
    Unfolds old done s (.node id port) (.before id port)
  | node {id : String} (port : String) {type : String} {attrs : Attrs}
    {feeds : List (String×OpTree)} (hdone : done id) (hnew : ¬old id) (hv : s.constant? id=none)
    (hkind : s.graph.kind? id=some (type,attrs)) (hports : (s.feeds id).map (·.1)=feeds.map (·.1))
    (hfeeds : ∀ w∈(s.feeds id).zip feeds, Unfolds old done s w.1.2 w.2.2) :
    Unfolds old done s (.node id port) (.node type attrs feeds port)

/-- Feeds and trees agree port by port. -/
def Fed (old done : String→Prop) (s : State) (wires : List (String×Ref)) (feeds : List (String×OpTree)) : Prop :=
  Forall₂ (fun w f => w.1=f.1 ∧ Unfolds old done s w.2 f.2) wires feeds

theorem Fed.ports {old done : String→Prop} {s : State} (h : Fed old done s wires feeds) :
    wires.map (·.1)=feeds.map (·.1) := by
  induction h with
  | nil => rfl
  | cons hw _ ih => rw [map_cons,map_cons,hw.1,ih]

private theorem feeds_eq {R : Ref→OpTree→Prop} {others : List (String×OpTree)}
    (hports : wires.map (·.1)=feeds.map (·.1)) (hothers : wires.map (·.1)=others.map (·.1))
    (hfeeds : ∀ w∈wires.zip feeds, ∀ tree, R w.1.2 tree → w.2.2=tree) (h : ∀ w∈wires.zip others, R w.1.2 w.2.2) :
    feeds=others := by
  induction wires generalizing feeds others with
  | nil => rw [map_eq_nil_iff.1 hports.symm,map_eq_nil_iff.1 hothers.symm]
  | cons w wires ih =>
    cases feeds with
    | nil => cases hports
    | cons f rest =>
      cases others with
      | nil => cases hothers
      | cons g more =>
        simp only [map_cons,List.cons.injEq] at hports hothers
        have hhead : f.2=g.2 := hfeeds (w,f) mem_cons_self g.2 (h (w,g) mem_cons_self)
        have htail : rest=more := ih hports.2 hothers.2 (fun v hv => hfeeds v (mem_cons_of_mem _ hv))
          fun v hv => h v (mem_cons_of_mem _ hv)
        rw [htail,Prod.ext (hports.1.symm.trans hothers.1) hhead]

namespace Unfolds

variable {old done later : String→Prop} {s t : State} {ref : Ref} {tree other : OpTree}

/-- A reference unfolds to at most one tree. -/
theorem unique (h : Unfolds old done s ref tree) (h' : Unfolds old done s ref other) : tree=other := by
  induction h generalizing other with
  | later name port =>
    cases h'
    rfl
  | constant port hdone hv =>
    cases h' with
    | constant _ _ hv' =>
      rw [hv] at hv'
      cases hv'
      rfl
    | before _ _ hv' => exact nomatch hv.symm.trans hv'
    | node _ _ _ hv' => exact nomatch hv.symm.trans hv'
  | before port hold hv =>
    cases h' with
    | constant _ _ hv' => exact nomatch hv.symm.trans hv'
    | before => rfl
    | node _ _ hnew => exact absurd hold hnew
  | @node id port type attrs feeds hdone hnew hv hkind hports hfeeds ih =>
    cases h' with
    | constant _ _ hv' => exact nomatch hv.symm.trans hv'
    | before _ hold => exact absurd hold hnew
    | @node _ _ type' attrs' feeds' _ _ _ hkind' hports' hfeeds' =>
      rw [hkind] at hkind'
      cases hkind'
      rw [feeds_eq hports hports' (fun w hw tree htree => ih w hw htree) hfeeds']

/-- A tree stays as long as the finished nodes do. -/
theorem mono (h : Unfolds old done s ref tree) (hold : ∀ id, old id → done id) (hdone : ∀ id, done id → later id)
    (hkind : ∀ id, done id → t.graph.kind? id=s.graph.kind? id) (hfeeds : ∀ id, done id → t.feeds id=s.feeds id) :
    Unfolds old later t ref tree := by
  have hconstant : ∀ id, done id → t.constant? id=s.constant? id :=
    fun id hid => State.constant?_congr (hkind id hid) (hfeeds id hid)
  induction h with
  | later name port => exact .later name port
  | constant port hid hv => exact .constant port (hdone _ hid) ((hconstant _ hid).trans hv)
  | before port hid hv => exact .before port hid ((hconstant _ (hold _ hid)).trans hv)
  | node port hid hnew hv hkind' hports _ ih =>
    refine .node port (hdone _ hid) hnew ((hconstant _ hid).trans hv) ((hkind _ hid).trans hkind') ?_ ?_
    · rw [hfeeds _ hid]
      exact hports
    · rw [hfeeds _ hid]
      exact ih

theorem outputOf (h : Unfolds old done s ref tree) (port : String) :
    Unfolds old done s (outputOf ref port) (tree.withPort port) := by
  cases h with
  | later name _ => exact .later name port
  | constant _ hdone hv => exact .constant port hdone hv
  | before _ hold hv => exact .before port hold hv
  | node _ hdone hnew hv hkind hports hfeeds => exact .node port hdone hnew hv hkind hports hfeeds

end Unfolds

end ChipForge.Wiring
