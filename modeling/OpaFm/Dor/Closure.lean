import OpaFm.Lib.WordBits
import Mathlib.Data.Fintype.Basic
import Mathlib.Algebra.GroupWithZero.Nat
import Mathlib.Data.List.FinRange
import Mathlib.Data.List.Range

/-!
# Meshes and tori

The switches of a fabric that is routed in dimension order, with the coordinates that
discovery assigned to them and their neighbours in each dimension.
-/

namespace OpaFm.Dor

inductive Way where
  | left
  | right
  deriving DecidableEq, Repr

def Way.other : Way → Way
  | left => right
  | right => left

@[simp] theorem Way.other_other (w : Way) : w.other.other = w := by cases w <;> rfl

theorem Way.other_ne (w : Way) : w.other ≠ w := by cases w <;> decide

/-- The fields of `DorTopology_t` and `DorNode_t` that routing uses; switches are named by
their index. -/
structure DorTopology (n D : Nat) where
  dimensionLength : Fin D → Nat
  toroidal : Fin D → Bool
  coords : Fin n → Fin D → Int
  left : Fin n → Fin D → Option (Fin n)
  right : Fin n → Fin D → Option (Fin n)

namespace DorTopology

variable {n D : Nat} (top : DorTopology n D)

def coordMinimum (i : Fin D) : Int :=
  if !top.toroidal i then 0
  else 0 - (top.dimensionLength i / 2 : Nat) + (if top.dimensionLength i % 2 ≠ 0 then 0 else 1)

def coordMaximum (i : Fin D) : Int :=
  if !top.toroidal i then top.dimensionLength i - 1 else (top.dimensionLength i / 2 : Nat)

def neighbor : Way → Fin n → Fin D → Option (Fin n)
  | .left => top.left
  | .right => top.right

def firstDifference (x y : Fin n) : Option (Fin D) :=
  Fin.find? fun i => top.coords x i != top.coords y i

end DorTopology

/-- A mesh or torus, of which links and switches may be missing: a link to the right goes to
the next coordinate, or around in a toroidal dimension. -/
structure DorFabric (n D : Nat) extends DorTopology n D where
  coords_mem : ∀ x i,
    toDorTopology.coordMinimum i ≤ coords x i ∧ coords x i ≤ toDorTopology.coordMaximum i
  coords_injective : Function.Injective coords
  left_iff : ∀ x y i, left y i = some x ↔ right x i = some y
  right_coords : ∀ x y i, right x i = some y →
    (∀ k, k ≠ i → coords y k = coords x k) ∧
      (coords y i = coords x i + 1 ∨
        toroidal i = true ∧ coords x i = toDorTopology.coordMaximum i ∧
          coords y i = toDorTopology.coordMinimum i)

/-!
## The closure of dimension order routing

`_calc_dor_closure` finds for each pair of switches which way to go first, by a recursive
walk that remembers its results in three bit maps.
-/

inductive DorDirection where
  | any
  | left
  | right
  deriving DecidableEq, Repr

def Way.direction : Way → DorDirection
  | .left => .left
  | .right => .right

theorem Way.direction_injective {w w' : Way} (h : w.direction = w'.direction) : w = w' := by
  cases w <;> cases w' <;> first | rfl | cases h

/-- The bit maps `dorLeft`, `dorRight` and `dorBroken`, by source and destination. -/
structure DorClosure (n : Nat) where
  dorLeft : Fin n → Fin n → Bool
  dorRight : Fin n → Fin n → Bool
  dorBroken : Fin n → Fin n → Bool

def ijSet {n : Nat} (bits : Fin n → Fin n → Bool) (i j : Fin n) : Fin n → Fin n → Bool :=
  Function.update bits i (Function.update (bits i) j true)

namespace DorClosure

variable {n : Nat} (cl : DorClosure n)

def empty (n : Nat) : DorClosure n where
  dorLeft := fun _ _ => false
  dorRight := fun _ _ => false
  dorBroken := fun _ _ => false

def bit : Way → Fin n → Fin n → Bool
  | .left => cl.dorLeft
  | .right => cl.dorRight

def set (i j : Fin n) : Way → DorClosure n
  | .left => { cl with dorLeft := ijSet cl.dorLeft i j }
  | .right => { cl with dorRight := ijSet cl.dorRight i j }

def setBroken (i j : Fin n) : DorClosure n := { cl with dorBroken := ijSet cl.dorBroken i j }

def routed (i j : Fin n) : Bool := cl.dorLeft i j || cl.dorRight i j

end DorClosure

namespace DorTopology

variable {n D : Nat} (top : DorTopology n D)

/-- Which ways a walk from coordinate `si` towards `di` may go: the shorter one when it may
choose, both when they are equally long. -/
def goes (i : Fin D) (dir : DorDirection) (si di : Int) : Way → Bool :=
  let (goLeft, goRight) :=
    match dir with
    | .any =>
      if si < di then
        if top.toroidal i && decide (si + top.dimensionLength i - di ≤ di - si) then
          (true, decide (si + top.dimensionLength i - di = di - si))
        else (false, true)
      else
        if top.toroidal i && decide (di - si + top.dimensionLength i ≤ si - di) then
          (decide (di - si + top.dimensionLength i = si - di), true)
        else (true, false)
    | .right => (false, true)
    | .left => (true, false)
  fun
  | .left => goLeft
  | .right => goRight

/-- The visit of a neighbour: the walk goes on in its direction until the coordinate is
reached and from there in any. -/
def visit (walk : DorClosure n → Fin n → DorDirection → Option (DorClosure n × Bool)) (i : Fin D)
    (src dst : Fin n) (w : Way) (cl : DorClosure n) : Option (DorClosure n × Bool) :=
  match top.neighbor w src i with
  | none => some (cl, false)
  | some x =>
    if x = dst then some (cl, true)
    else walk cl x (if top.coords x i = top.coords dst i then .any else w.direction)

/-- The attempt to go one way, and where `longer` the other way after it. -/
def tryWay (walk : DorClosure n → Fin n → DorDirection → Option (DorClosure n × Bool)) (i : Fin D)
    (src dst : Fin n) (longer : Bool) (w : Way) (cl : DorClosure n) : Option (DorClosure n) := do
  let (cl, ok) ← top.visit walk i src dst w cl
  if ok then some (cl.set src dst w)
  else if longer then
    match top.neighbor w.other src i with
    | none => some cl
    | some x => do
        let (cl, ok) ← walk cl x w.other.direction
        some (if ok then cl.set src dst w.other else cl)
  else some cl

def attempt (walk : DorClosure n → Fin n → DorDirection → Option (DorClosure n × Bool)) (i : Fin D)
    (src dst : Fin n) (dir : DorDirection) (w : Way) (cl : DorClosure n) : Option (DorClosure n) :=
  let go := top.goes i dir (top.coords src i) (top.coords dst i)
  if go w then top.tryWay walk i src dst (decide (dir = .any) && !go w.other) w cl else some cl

/-- `_is_path_realizable`; `fuel` bounds the depth of the recursion. -/
def isPathRealizable : Nat → DorClosure n → Fin n → Fin n → DorDirection →
    Option (DorClosure n × Bool)
  | 0, _, _, _, _ => none
  | fuel + 1, cl, src, dst, dir =>
    if src = dst then some (cl, true)
    else if cl.routed src dst then some (cl, true)
    else if cl.dorBroken src dst then some (cl, false)
    else
      match top.firstDifference src dst with
      | none => some (cl.setBroken src dst, false)
      | some i => do
          let walk := fun cl x dir => isPathRealizable fuel cl x dst dir
          let cl ← top.attempt walk i src dst dir .right cl
          let cl ← top.attempt walk i src dst dir .left cl
          if cl.routed src dst then some (cl, true) else some (cl.setBroken src dst, false)

/-- Deep enough for every walk: no dimension is gone along for more than its length. -/
def walkFuel : Nat := ((List.finRange D).map top.dimensionLength).sum + 1

/-- `_calc_dor_closure`, for the switches in the order of the topology's list. -/
def calcDorClosure (switches : List (Fin n)) : Option (DorClosure n) :=
  (switches.flatMap fun ni => switches.map fun nj => (ni, nj)).foldlM
    (fun cl p =>
      if p.1 = p.2 then some cl
      else (top.isPathRealizable top.walkFuel cl p.1 p.2 .any).map Prod.fst)
    (DorClosure.empty n)

/-! ### Routing -/

/-- `routingDimension`.  The source returns dimension 0 for two switches that do not differ,
for which no bit is set. -/
def routingDimension (src dst : Fin n) : Option (Fin D) := top.firstDifference src dst

/-- The switches that `_get_dor_port_group` looks for at the other end of the ports. -/
def dorNeighbors (cl : DorClosure n) (src dst : Fin n) : List (Option (Fin n)) :=
  match top.routingDimension src dst with
  | none => []
  | some i =>
    (if cl.dorLeft src dst then [top.left src i] else []) ++
      if cl.dorRight src dst then [top.right src i] else []

def Hop (cl : DorClosure n) (dst x y : Fin n) : Prop := some y ∈ top.dorNeighbors cl x dst

end DorTopology

/-!
## Renaming a switch in the closure

When `sm_compactSwitchSpace` gives a switch another index, `_process_swIdx_change` moves the
bits of its row and column in the bit maps of the closure.  The maps are packed in words of 32
bits, with as many rows and columns as there were switches when the closure was computed.
-/

structure DorBitmap (m : Nat) where
  words : List (BitVec 32)
  size : m * m ≤ 32 * words.length

def dorBitMapsIndex (m x y : Nat) : Nat := x * m + y

namespace DorBitmap

variable {m : Nat} (b : DorBitmap m)

def word (k : Nat) : BitVec 32 := b.words.getD k 0

theorem size_set (k : Nat) (x : BitVec 32) : m * m ≤ 32 * (b.words.set k x).length :=
  le_of_le_of_eq b.size (congrArg (32 * ·) List.length_set.symm)

def setWord (k : Nat) (x : BitVec 32) : DorBitmap m := ⟨b.words.set k x, b.size_set k x⟩

def ijSet (ij : Nat) : DorBitmap m := b.setWord (ij / 32) (b.word (ij / 32) ||| 1#32 <<< (ij % 32))

def clearAt (k j : Nat) : DorBitmap m := b.setWord k (b.word k &&& ~~~(1#32 <<< j))

def ijClear (ij : Nat) : DorBitmap m := b.clearAt (ij / 32) (ij % 32)

def ijTest (ij : Nat) : Bool := decide (b.word (ij / 32) &&& 1#32 <<< (ij % 32) ≠ 0)

def bit (x y : Nat) : Bool := b.ijTest (dorBitMapsIndex m x y)

/-- One bit is moved to `ij`.  What the source means to clear is the bit it comes from. -/
def moveBit (oldij ij : Nat) : DorBitmap m :=
  if b.ijTest oldij then
    -- the word of the old bit, but the place of the new one
    (b.ijSet ij).clearAt (oldij / 32) (ij % 32)
  else b.ijClear ij

/-- The round of `_process_swIdx_change` for switch `i`, in one map. -/
def moveEntry (oldIdx newIdx i : Nat) : DorBitmap m :=
  let ij := dorBitMapsIndex m i newIdx
  let ji := dorBitMapsIndex m newIdx i
  let (oldij, oldji) :=
    if i = newIdx then (dorBitMapsIndex m oldIdx oldIdx, dorBitMapsIndex m oldIdx oldIdx)
    else (dorBitMapsIndex m i oldIdx, dorBitMapsIndex m oldIdx i)
  (b.moveBit oldij ij).moveBit oldji ji

end DorBitmap

/-- The bit maps of a `DorTopology_t`; `m` is `closure_max_sws`.  They are allocated in this
order, so that the last does not exist without the first. -/
structure DorBitmaps (m : Nat) where
  dorLeft : Option (DorBitmap m)
  dorRight : Option (DorBitmap m)
  dorBroken : Option (DorBitmap m)
  allocated : dorLeft = none → dorBroken = none

namespace DorBitmaps

variable {m : Nat} (maps : DorBitmaps m)

theorem allocated_map (f : DorBitmap m → DorBitmap m) (h : maps.dorLeft.map f = none) :
    maps.dorBroken.map f = none :=
  Option.map_eq_none_iff.mpr (maps.allocated (Option.map_eq_none_iff.mp h))

def mapEach (f : DorBitmap m → DorBitmap m) : DorBitmaps m where
  dorLeft := maps.dorLeft.map f
  dorRight := maps.dorRight.map f
  dorBroken := maps.dorBroken.map f
  allocated := maps.allocated_map f

def processSwIdxChange (oldIdx newIdx lastIdx : Nat) : DorBitmaps m :=
  if maps.dorLeft.isNone && maps.dorRight.isNone then maps
  else
    (List.range lastIdx).foldl
      (fun maps i => maps.mapEach fun b => b.moveEntry oldIdx newIdx i) maps

def all : List (DorBitmap m) :=
  maps.dorLeft.toList ++ maps.dorRight.toList ++ maps.dorBroken.toList

end DorBitmaps

/-! ### Renaming -/

namespace DorBitmap

variable {m : Nat}

def Survives (used : Nat → Prop) (oldIdx newIdx x : Nat) : Prop :=
  x = newIdx ∨ used x ∧ x ≠ oldIdx

def formerIdx (oldIdx newIdx x : Nat) : Nat := if x = newIdx then oldIdx else x

/-- The bits between surviving switches are those from before under the renaming, nothing is
left in the row and the column of the old index, and every other bit is as it was. -/
structure Renamed (used : Nat → Prop) (oldIdx newIdx : Nat) (b b' : DorBitmap m) : Prop where
  moved : ∀ x y, Survives used oldIdx newIdx x → Survives used oldIdx newIdx y →
    b'.bit x y = b.bit (formerIdx oldIdx newIdx x) (formerIdx oldIdx newIdx y)
  cleared : ∀ x < m, b'.bit oldIdx x = false ∧ b'.bit x oldIdx = false
  kept : ∀ ij, (∀ x < m, ∀ y < m, ij = dorBitMapsIndex m x y → x ≠ oldIdx ∧ y ≠ oldIdx ∧
    ¬(Survives used oldIdx newIdx x ∧ Survives used oldIdx newIdx y)) →
    b'.ijTest ij = b.ijTest ij

/-- No set bit is moved to another place of its word, none is on the diagonal, and none
belongs to an index not in use. -/
structure Movable (used : Nat → Prop) (oldIdx newIdx : Nat) (b : DorBitmap m) : Prop where
  column : (oldIdx - newIdx) % 32 = 0 ∨ ∀ i < oldIdx, i ≠ newIdx → b.bit i oldIdx = false
  row : (oldIdx - newIdx) * m % 32 = 0 ∨ ∀ i < oldIdx, i ≠ newIdx → b.bit oldIdx i = false
  diagonal : b.bit oldIdx oldIdx = false
  stale : ∀ i < m, i = newIdx ∨ oldIdx < i → b.bit i oldIdx = false ∧ b.bit oldIdx i = false
  unused : ∀ i < oldIdx, i ≠ newIdx → ¬used i →
    b.bit i oldIdx = b.bit i newIdx ∧ b.bit oldIdx i = b.bit newIdx i

end DorBitmap

def DorBitmaps.Renamed {m : Nat} (used : Nat → Prop) (oldIdx newIdx : Nat)
    (maps maps' : DorBitmaps m) : Prop :=
  Option.Rel (DorBitmap.Renamed used oldIdx newIdx) maps.dorLeft maps'.dorLeft ∧
    Option.Rel (DorBitmap.Renamed used oldIdx newIdx) maps.dorRight maps'.dorRight ∧
    Option.Rel (DorBitmap.Renamed used oldIdx newIdx) maps.dorBroken maps'.dorBroken

end OpaFm.Dor
