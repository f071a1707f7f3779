import Conformance.Geometry.Dim3

namespace Conformance

/-- A dispatch: workitems cut into workgroups, the last of which along a dimension may be
partial. -/
structure Grid where
  rank : UInt32
  extent : Dim3
  workgroup : Dim3
deriving DecidableEq

namespace Grid

inductive Fault where
  | rank (n : UInt32)
  | empty (extent workgroup : Dim3)
  | unused (d : Fin 3) (rank : UInt32)
deriving DecidableEq

def Fault.message : Fault → String
  | .rank n => s!"grid dimensionality {n} out of range (expected 1..=3)"
  | .empty extent workgroup =>
    s!"grid {extent.text} / workgroup {workgroup.text} has a zero component"
  | .unused d n => s!"unused dimension {d.val} of a {n}D grid must be 1"

def checkAxis (rank : UInt32) (extent workgroup : Dim3) (d : Fin 3) : Except Fault Unit :=
  if extent.get d = 0 ∨ workgroup.get d = 0 then .error (.empty extent workgroup)
  else if rank.toNat ≤ d.val ∧ ¬(extent.get d = 1 ∧ workgroup.get d = 1) then
    .error (.unused d rank)
  else .ok ()

/-- One to three dimensions with nothing empty, and single points along the others. -/
def make (rank : UInt32) (extent workgroup : Dim3) : Except Fault Grid := do
  if rank = 0 ∨ 3 < rank then .error (.rank rank)
  else
    checkAxis rank extent workgroup 0
    checkAxis rank extent workgroup 1
    checkAxis rank extent workgroup 2
    return ⟨rank, extent, workgroup⟩

def line (extent workgroup : UInt64) : Except Fault Grid :=
  make 1 ⟨extent, 1, 1⟩ ⟨workgroup, 1, 1⟩

variable (g : Grid)

def text : String := s!"{g.rank}D grid {g.extent.text}, workgroup {g.workgroup.text}"

def size : Except CountFault UInt64 := g.extent.size

def workgroupSize : Except CountFault UInt64 := g.workgroup.size

def groups (d : Fin 3) : Except CountFault UInt64 :=
  Count.parts (g.extent.get d) (g.workgroup.get d)

def workgroupCount : Except CountFault UInt64 := do
  let x ← Count.times 1 (← g.groups 0)
  let xy ← Count.times x (← g.groups 1)
  Count.times xy (← g.groups 2)

/-- The place of `p` inside its workgroup along `d`; dimensions not in use report 0. -/
def workitemId (p : Dim3) (d : Fin 3) : Except CountFault UInt64 :=
  if d.val < g.rank.toNat then Count.remainder (p.get d) (g.workgroup.get d) else .ok 0

/-- The place of `p` in the grid along `d`; points outside wrap around. -/
def absoluteId (p : Dim3) (d : Fin 3) : Except CountFault UInt64 :=
  Count.remainder (p.get d) (g.extent.get d)

def workgroupId (p : Dim3) (d : Fin 3) : Except CountFault UInt64 :=
  Count.quotient (p.get d) (g.workgroup.get d)

def workitemFlatId (p : Dim3) : Except CountFault UInt64 := do
  let xy ← Count.plus (← g.workitemId p 0) (← Count.times (← g.workitemId p 1) g.workgroup.x)
  let z ← Count.times (← Count.times (← g.workitemId p 2) g.workgroup.x) g.workgroup.y
  Count.plus xy z

def absoluteFlatId (p : Dim3) : Except CountFault UInt64 := do
  let xy ← Count.plus (← g.absoluteId p 0) (← Count.times (← g.absoluteId p 1) g.extent.x)
  let z ← Count.times (← Count.times (← g.absoluteId p 2) g.extent.x) g.extent.y
  Count.plus xy z

def workgroupFlatId (p : Dim3) : Except CountFault UInt64 := do
  let x ← g.workgroupId p 0
  let xy ← Count.plus x (← Count.times (← g.workgroupId p 1) (← g.groups 0))
  let zx ← Count.times (← g.workgroupId p 2) (← g.groups 0)
  let z ← Count.times zx (← g.groups 1)
  Count.plus xy z

/-- The extent along `d` of the workgroup that holds `p`: what is left of the grid in a partial
last workgroup, and that of a full one elsewhere. -/
def currentWorkgroupSize (p : Dim3) (d : Fin 3) : Except CountFault UInt64 := do
  let left ← Count.remainder (g.extent.get d) (g.workgroup.get d)
  if left = 0 then return g.workgroup.get d
  else
    let last := (← g.groups d) - 1
    return if (← g.workgroupId p d) = last then left else g.workgroup.get d

def point (id : UInt64) : Except CountFault Dim3 := do
  let plane ← Count.times g.extent.x g.extent.y
  let z ← Count.quotient id plane
  let rest ← Count.remainder id plane
  let x ← Count.remainder rest g.extent.x
  let y ← Count.quotient rest g.extent.x
  return ⟨x, y, z⟩

/-- The wave that runs `p`, when waves of `waveSize` workitems are cut off in flattened order. -/
def wave (p : Dim3) (waveSize : UInt64) : Except CountFault UInt64 := do
  Count.quotient (← g.absoluteFlatId p) waveSize

def wavesPerWorkgroup (waveSize : UInt64) : Except CountFault UInt64 := do
  Count.parts (← g.workgroupSize) waveSize

def pointsFrom (start count : Nat) : Except CountFault (List Dim3) := do
  let size ← g.size
  (List.range' start (min count (size.toNat - start))).mapM fun id => g.point (UInt64.ofNat id)

def points : Except CountFault (List Dim3) := do
  g.pointsFrom 0 (← g.size).toNat

end Grid

end Conformance
