import ChipForge.GateType
import ChipForge.Json.Access
import ChipForge.Table

/-! Classes of names that must have one type. Each class may be fixed to a type with a priority; when two types meet, the
one of higher priority stays and the conflict is noted. -/
namespace ChipForge.Inference

/-- A type with the priority of the assertion behind it. -/
structure Fixed where
  priority : Int
  type : GateType

/-- Two types that met in the class of a root: the one it had and the other. -/
structure Conflict where
  root : String
  had : GateType
  met : GateType

structure UnionFind where
  parent : Table String
  rank : Table Nat
  fixed : Table Fixed
  conflicts : List Conflict

namespace UnionFind

def ofItems (items : List String) : UnionFind :=
  ⟨items.foldl (fun t x => t.put x x) Table.empty,items.foldl (fun t x => t.put x 0) Table.empty,Table.empty,[]⟩

/-- Root of a name, each name on the way made to point to it. Ways are no longer than there are names. -/
def findWithin : Nat→UnionFind→String→String×UnionFind
  | 0, uf, x => (x,uf)
  | fuel+1, uf, x =>
    let p := (uf.parent.find x).getD x
    if p == x then (x,uf)
    else
      let (root,uf) := findWithin fuel uf p
      (root,{ uf with parent := uf.parent.put x root })

def find (uf : UnionFind) (x : String) : String×UnionFind := findWithin (uf.parent.toList.length+1) uf x

def assert (uf : UnionFind) (x : String) (t : GateType) (priority : Int) : UnionFind :=
  let (root,uf) := uf.find x
  match uf.fixed.find root with
  | none => { uf with fixed := uf.fixed.put root ⟨priority,t⟩ }
  | some cur =>
    let noted := if cur.type == t then uf.conflicts else uf.conflicts++[⟨root,cur.type,t⟩]
    let uf := { uf with conflicts := noted }
    if cur.priority < priority then { uf with fixed := uf.fixed.put root ⟨priority,t⟩ } else uf

def mergeFixed (uf : UnionFind) (root old : String) : UnionFind :=
  match uf.fixed.find old with
  | none => uf
  | some theirs =>
    match uf.fixed.find root with
    | none => { uf with fixed := (uf.fixed.put root theirs).drop old }
    | some ours =>
      if ours.type == theirs.type then
        let merged : Fixed := ⟨max ours.priority theirs.priority,ours.type⟩
        { uf with fixed := (uf.fixed.put root merged).drop old }
      else
        let winner := if ours.priority < theirs.priority then theirs else ours
        { uf with
          fixed := (uf.fixed.put root winner).drop old
          conflicts := uf.conflicts++[⟨root,ours.type,theirs.type⟩] }

def link (uf : UnionFind) (root old : String) (rankRoot rankOld : Nat) : UnionFind :=
  let uf := { uf with parent := uf.parent.put old root }
  let uf := if rankRoot == rankOld then { uf with rank := uf.rank.put root (rankRoot+1) } else uf
  uf.mergeFixed root old

/-- Joins the classes of two names; the names must be items. -/
def union (uf : UnionFind) (a b : String) : Except Failure Unit×UnionFind :=
  let (ra,uf) := uf.find a
  let (rb,uf) := uf.find b
  if ra == rb then (.ok (),uf)
  else
    match uf.rank.find ra, uf.rank.find rb with
    | some ka, some kb =>
      if ka < kb then (.ok (),uf.link rb ra kb ka) else (.ok (),uf.link ra rb ka kb)
    | none, _ => (Json.missingKey (Text.quoted ra),uf)
    | _, none => (Json.missingKey (Text.quoted rb),uf)

def info (uf : UnionFind) (x : String) : Option Fixed×UnionFind :=
  let (root,uf) := uf.find x
  (uf.fixed.find root,uf)

end UnionFind

end ChipForge.Inference
