import OpaFm.Cs.Bitset
import OpaFm.Cs.Pool
import OpaFm.Lib.RowMajor
import Mathlib.Data.Finset.Empty

/-!
# The space of switch indices

When the indices of the switches have become sparse, `sm_compactSwitchSpace` moves the last
ones into the holes, with their rows and columns of the cost and path matrices.
-/

namespace OpaFm.Fabric

open OpaFm.Cs OpaFm.Lib

/-- `topop->cost` and `topop->path`, with rows of `max_sws` entries. -/
structure SwitchMatrices where
  cost : Nat → Nat
  path : Nat → Finset Nat

/-- What compaction reads and changes of a topology: `max_sws`, the `swIdx` of each switch in
the order from `switch_tail`, and the matrices, if there are any. -/
structure SwitchSpace where
  maxSws : Nat
  switches : List Nat
  matrices : Option SwitchMatrices

/-- What the pool has for the new matrices, where there is memory. -/
structure CompactMemory where
  cost : Option (Nat → Nat)
  path : Option (Nat → Finset Nat)

/-- The switch with the index `lidx` gets the index `fidx`. -/
def renumber (lidx fidx : Nat) : List Nat → Option (List Nat)
  | [] => none
  | swIdx :: rest =>
    if swIdx = lidx then some (fidx :: rest) else (renumber lidx fidx rest).map (swIdx :: ·)

/-- The entries between the moved switch and switch `j`. -/
def SwitchMatrices.moveEntry (maxSws lidx fidx : Nat) (m : SwitchMatrices) (j : Nat) :
    SwitchMatrices :=
  let ij := rowMajor maxSws fidx j
  let ji := rowMajor maxSws j fidx
  if j = fidx then
    { cost := Function.update (Function.update m.cost ji 0) ij 0
      path := Function.update (Function.update m.path ji ∅) ij ∅ }
  else
    let oldij := rowMajor maxSws lidx j
    let oldji := rowMajor maxSws j lidx
    let path := Function.update m.path ij (m.path oldij)
    { cost := Function.update (Function.update m.cost ji (m.cost oldij)) ij (m.cost oldij)
      path := Function.update path ji (path oldji) }

def SwitchMatrices.moveEntries (maxSws lidx fidx : Nat) (m : SwitchMatrices) : SwitchMatrices :=
  (List.range lidx).foldl (moveEntry maxSws lidx fidx) m

namespace SwitchSpace

def moveSwitch (lidx fidx : Nat) (s : SwitchSpace × Bitset) : SwitchSpace × Bitset :=
  match renumber lidx fidx s.1.switches with
  | none => s
  | some switches =>
    ({ s.1 with
        switches := switches
        matrices := s.1.matrices.map (SwitchMatrices.moveEntries s.1.maxSws lidx fidx) },
      (s.2.bitsetSet fidx).bitsetClear lidx)

def compactLoop : Nat → Int → SwitchSpace × Bitset → Option (SwitchSpace × Bitset)
  | 0, _, _ => none
  | fuel + 1, fidx, s =>
    if fidx < 0 then some s
    else
      let lidx := s.2.bitsetFindLastOne
      if 0 ≤ lidx then
        if fidx > lidx then some s
        else
          let s := moveSwitch lidx.toNat fidx.toNat s
          compactLoop fuel (s.2.bitsetFindNextZero (fidx.toNat + 1)) s
      else compactLoop fuel (s.2.bitsetFindNextZero (fidx.toNat + 1)) s

def SwitchMatrices.shrink (maxSws numSws : Nat) (mem : CompactMemory) (m : SwitchMatrices) :
    SwitchMatrices where
  cost := copyRows maxSws numSws m.cost (mem.cost.getD m.cost)
  path := copyRows maxSws numSws m.path (mem.path.getD m.path)

def stays (sp : SwitchSpace) (switchbits : Bitset) : Bool :=
  switchbits.nset = 0 || switchbits.nset = sp.maxSws ||
    (sp.maxSws - switchbits.nset) * 100 / sp.maxSws < 10

/-- How the compaction ends: the process aborts, or copies past the end of a buffer, or the
topology and the bit set are these. -/
inductive Compaction
  | crash
  | done (sp : SwitchSpace) (switchbits : Bitset)

/-- How many of the bytes for a matrix `vs_pool_alloc` gives. -/
def allocated {α : Type} (mem : Option α) (bytes : Nat) : Option Nat :=
  if mem.isSome then Pool.vsPoolAlloc bytes else none

def smCompactSwitchSpace (fuel : Nat) (mem : CompactMemory) (sp : SwitchSpace)
    (switchbits : Bitset) : Option Compaction :=
  let numSws := switchbits.nset
  let bytesCost := numSws * numSws * 2
  let bytesPath := numSws * (numSws * 32)
  let cost := allocated mem.cost bytesCost
  let path := allocated mem.path bytesPath
  if sp.stays switchbits then some (.done sp switchbits)
  else if sp.matrices.isSome && cost.isNone then some (.done sp switchbits)
  -- without `path` the address of the variable `cost` is freed, which is no buffer of the pool
  else if sp.matrices.isSome && (cost != some bytesCost || path != some bytesPath) then
    some .crash
  else
    (compactLoop fuel switchbits.bitsetFindFirstZero (sp, switchbits)).map fun s =>
      .done { s.1 with
        maxSws := s.2.nset
        matrices := s.1.matrices.map (SwitchMatrices.shrink s.1.maxSws numSws mem) } s.2

end SwitchSpace

end OpaFm.Fabric
