import OpaFm.Fabric.Topology
import OpaFm.Lib.AssocMap
import OpaFm.Lib.BinaryHeap
import OpaFm.Multicast.Group

/-!
# The multicast LID pool

Group classes cap the number of MLIDs that the groups matching them may take.
Within a class, MLIDs are kept apart by `(pKey, mtu, rate)` in lid classes, each
a heap on the number of groups that share an MLID.  The heap's slots live in one
array of `maximumLids` entries, filled with `0xFF` bytes where unused.
-/

namespace OpaFm.Multicast

open OpaFm.Fabric OpaFm.Lib

/-- A run that stops: a failed `assert`, or an access outside an array. -/
inductive Fault where
  | assertGroupHeap
  | assertEmptySlot
  | assertFullSlot
  | assertLidClass
  | assertUsageCount
  | outOfBounds
  deriving DecidableEq, Repr

def multicastLidMin : Nat := 0xC000
def maxSizeMft : Nat := 0x4000

def inc16 (n : Nat) : Nat := (n + 1) % 65536
def dec16 (n : Nat) : Nat := (n + 65535) % 65536

theorem inc16_of_lt {n : Nat} (h : n < 65535) : inc16 n = n + 1 := by
  unfold inc16
  omega

theorem dec16_of_pos {n : Nat} (hpos : 0 < n) (h : n < 65536) : dec16 n = n - 1 := by
  unfold dec16
  omega

/-! ## Lid classes -/

structure LidUsage where
  lid : Nat
  usageCount : Nat
  deriving DecidableEq, Repr

def LidUsage.empty : LidUsage := ⟨0xFFFFFFFF, 0xFFFF⟩

/-- The `uint64_t` key of a lid class, as the three bit fields it packs. -/
structure LidClassKey where
  pKey : Nat
  mtu : Nat
  rate : Nat
  deriving DecidableEq, Repr

def lidClassKey (pKey mtu rate : Nat) : LidClassKey :=
  ⟨pKeyValue (pKey % 0x10000), mtu % 64, rate % 64⟩

structure LidClass where
  lidsUsed : Nat := 0
  pKey : Nat
  mtu : Nat
  rate : Nat
  lids : Nat → LidUsage := fun _ => LidUsage.empty

structure McGroupClass where
  maximumLids : Nat
  currentLids : Nat := 0
  mask : IbGid := 0
  value : IbGid := 0
  usageMap : List (LidClassKey × LidClass) := []

def getLidClass (c : McGroupClass) (pKey mtu rate : Nat) : Option LidClass :=
  c.usageMap.lookup (lidClassKey pKey mtu rate)

def McGroupClass.setLidClass (c : McGroupClass) (key : LidClassKey) (l : LidClass) :
    McGroupClass :=
  { c with usageMap := AssocMap.set c.usageMap key l }

def LidClass.new (pKey mtu rate : Nat) : LidClass := ⟨0, pKey, mtu, rate, fun _ => .empty⟩

/-- `addLidClass`, for a key that the map does not hold. -/
def addLidClass (c : McGroupClass) (pKey mtu rate : Nat) : McGroupClass :=
  { c with usageMap := (lidClassKey pKey mtu rate, LidClass.new pKey mtu rate) :: c.usageMap }

def getOrAddLidClass (c : McGroupClass) (pKey mtu rate : Nat) : McGroupClass × LidClass :=
  match getLidClass c pKey mtu rate with
  | some l => (c, l)
  | none => (addLidClass c pKey mtu rate, LidClass.new pKey mtu rate)

/-! ## The heap of a lid class -/

/-- `checkHeap`, which asserts the heap order over the used slots. -/
def checkHeap (l : LidClass) : Bool :=
  (List.range' 1 (l.lidsUsed - 1)).all fun i =>
    (l.lids (BinaryHeap.parentNode i)).usageCount ≤ (l.lids i).usageCount

def heapChecked (l : LidClass) : Except Fault LidClass :=
  if checkHeap l then .ok l else .error .assertGroupHeap

def heapTrickleDown (l : LidClass) (index : Nat) : Except Fault LidClass :=
  heapChecked { l with lids := BinaryHeap.siftDown LidUsage.usageCount l.lidsUsed l.lids index }

def heapTrickleUp (l : LidClass) (index : Nat) : Except Fault LidClass :=
  heapChecked { l with lids := BinaryHeap.siftUp LidUsage.usageCount index l.lids index }

def findLid (l : LidClass) (lid : Nat) : Option Nat :=
  (List.range l.lidsUsed).find? fun i => (l.lids i).lid = lid

def LidClass.setSlot (l : LidClass) (i : Nat) (u : LidUsage) : LidClass :=
  { l with lids := Function.update l.lids i u }

@[simp] theorem LidClass.setSlot_lidsUsed (l : LidClass) (i : Nat) (u : LidUsage) :
    (l.setSlot i u).lidsUsed = l.lidsUsed := rfl

/-- `++lids[index].usageCount` and the trickle that follows it. -/
def bumpUsage (l : LidClass) (index : Nat) : Except Fault LidClass :=
  heapTrickleDown
    (l.setSlot index ⟨(l.lids index).lid, inc16 (l.lids index).usageCount⟩) index

/-! ## The pool -/

/-- A pointer that `find_mc_group_class` returns. -/
inductive ClassRef where
  | entry (i : Nat)
  | default
  deriving DecidableEq, Repr

structure McPool where
  numMcGroupClasses : Nat
  groupClass : ClassRef → McGroupClass

def McPool.setClass (p : McPool) (ref : ClassRef) (c : McGroupClass) : McPool :=
  { p with groupClass := Function.update p.groupClass ref c }

@[simp] theorem McPool.setClass_self (p : McPool) (ref : ClassRef) (c : McGroupClass) :
    (p.setClass ref c).groupClass ref = c := by
  simp [McPool.setClass]

theorem McPool.setClass_other (p : McPool) {ref r : ClassRef} (hr : r ≠ ref)
    (c : McGroupClass) : (p.setClass ref c).groupClass r = p.groupClass r := by
  simp [McPool.setClass, hr]

/-- `find_mc_group_class`: the first class whose masked value the GID has. -/
def findMcGroupClass (p : McPool) (gid : IbGid) : ClassRef :=
  match (List.range p.numMcGroupClasses).find? fun i =>
      (p.groupClass (.entry i)).mask &&& gid = (p.groupClass (.entry i)).value with
  | some i => .entry i
  | none => .default

def smMulticastIsLidInUse (groups : List McGroup) (lid : Nat) : Nat :=
  groups.countP fun g => g.mLid = lid

/-- `sm_mcast_mlid_table_cap`, which start-up holds to `MAX_SIZE_MFT`. -/
structure MlidTableCap where
  cap : Nat
  cap_le : cap ≤ maxSizeMft

def sixteenLids : MlidTableCap := ⟨16, by decide⟩

def smMcFindUnusedLid (tcap : MlidTableCap) (groups : List McGroup) : Option Nat :=
  firstUnused multicastLidMin tcap.cap fun lid => smMulticastIsLidInUse groups lid ≠ 0

/-- Put `lid`, used once, at the end of the heap and trickle it up.  The two
callers raise `lidsUsed` on either side of the trickle. -/
def appendLid (c : McGroupClass) (l : LidClass) (lid : Nat) (countFirst : Bool) :
    Except Fault LidClass :=
  if c.maximumLids ≤ l.lidsUsed then .error .outOfBounds
  else if (l.lids l.lidsUsed).lid ≠ 0xFFFFFFFF then .error .assertEmptySlot
  else
    let l' := l.setSlot l.lidsUsed ⟨lid, 1⟩
    if countFirst then heapTrickleUp { l' with lidsUsed := inc16 l.lidsUsed } l.lidsUsed
    else do
      let l'' ← heapTrickleUp l' l.lidsUsed
      pure { l'' with lidsUsed := inc16 l.lidsUsed }

/-- The class with `key`'s lid class written back and one more MLID charged to
its budget. -/
def McGroupClass.charge (c : McGroupClass) (key : LidClassKey) (l : LidClass) : McGroupClass :=
  { c.setLidClass key l with currentLids := inc16 c.currentLids }

/-- `sm_mc_get_group_class_lid`.  A failure leaves the lid class that the call
may have added. -/
def smMcGetGroupClassLid (tcap : MlidTableCap) (groups : List McGroup) (c : McGroupClass)
    (pKey mtu rate requestedLid : Nat) :
    Except Fault (McGroupClass × Except VStatus Nat) :=
  let key := lidClassKey pKey mtu rate
  if c.currentLids < c.maximumLids then
    let (c, l) := getOrAddLidClass c pKey mtu rate
    if requestedLid = 0 then
      match smMcFindUnusedLid tcap groups with
      | none => .ok (c, .error .bad)
      | some newLid => do
          let l ← appendLid c l newLid true
          pure (c.charge key l, .ok newLid)
    else
      match findLid l requestedLid with
      | none => do
          let l ← appendLid c l requestedLid false
          pure (c.charge key l, .ok requestedLid)
      | some index => do
          let l ← bumpUsage l index
          pure (c.setLidClass key l, .ok requestedLid)
  else
    match getLidClass c pKey mtu rate with
    | none => .ok (c, .error .noResource)
    | some l =>
      if requestedLid = 0 then
        if (l.lids 0).lid = 0xFFFFFFFF then .error .assertFullSlot
        else do
          let newLid := (l.lids 0).lid
          let l ← bumpUsage l 0
          pure (c.setLidClass key l, .ok newLid)
      else
        match findLid l requestedLid with
        | some index => do
            let l ← bumpUsage l index
            pure (c.setLidClass key l, .ok requestedLid)
        | none => .ok (c, .error .noResource)

def smMulticastAssignLid (tcap : MlidTableCap) (p : McPool) (groups : List McGroup)
    (mGid : IbGid) (pKey mtu rate : Nat) : Except Fault (McPool × Except VStatus Nat) :=
  let ref := findMcGroupClass p mGid
  let c := p.groupClass ref
  if c.maximumLids = 0 then
    match smMcFindUnusedLid tcap groups with
    | none => .ok (p, .error .bad)
    | some lid => .ok (p.setClass ref { c with currentLids := inc16 c.currentLids }, .ok lid)
  else do
    let (c, r) ← smMcGetGroupClassLid tcap groups c pKey mtu rate 0
    pure (p.setClass ref c, r)

/-- Take the slot `i`, whose count has fallen to zero, out of the heap: the last
slot moves into it and is then put in order. -/
def removeLid (l : LidClass) (i : Nat) : Except Fault LidClass :=
  let last := l.lidsUsed - 1
  if i = last then .ok (l.setSlot last .empty)
  else
    let l' := (l.setSlot i (l.lids last)).setSlot last .empty
    if i ≠ 0 ∧ (l'.lids i).usageCount < (l'.lids (BinaryHeap.parentNode i)).usageCount then
      heapTrickleUp l' i
    else heapTrickleDown l' i

/-- The loop body of `sm_multicast_decommision_group` at the slot that holds the
group's MLID. -/
def releaseLid (c : McGroupClass) (key : LidClassKey) (l : LidClass) (i : Nat) :
    Except Fault McGroupClass :=
  let u := l.lids i
  if u.usageCount = 0 then .error .assertUsageCount
  else
    let l := l.setSlot i ⟨u.lid, dec16 u.usageCount⟩
    if dec16 u.usageCount = 0 then do
      let l ← removeLid l i
      pure { c.setLidClass key { l with lidsUsed := dec16 l.lidsUsed } with
        currentLids := dec16 c.currentLids }
    else do
      let l ← heapTrickleUp l i
      pure (c.setLidClass key l)

def smMulticastDecommisionGroup (p : McPool) (g : McGroup) : Except Fault McPool :=
  let ref := findMcGroupClass p g.mGid
  let c := p.groupClass ref
  if c.maximumLids = 0 then .ok p
  else
    match getLidClass c g.pKey g.mtu g.rate with
    | none => .error .assertLidClass
    | some l =>
      match findLid l g.mLid with
      | none => .ok p
      | some i => do
          let c ← releaseLid c (lidClassKey g.pKey g.mtu g.rate) l i
          pure (p.setClass ref c)

/-!
## Synchronizing an MLID on the standby

The standby SM does not choose MLIDs: it takes the one that the master gave to a group, if no
other table of lids holds it.
-/

def LidClass.addedFor (l : LidClass) (pKey mtu rate : Nat) : Bool :=
  l.pKey = pKey && l.mtu = mtu && l.rate = rate

def LidClass.holdsLid (l : LidClass) (lid : Nat) : Bool :=
  (List.range l.lidsUsed).any fun j => (l.lids j).lid = lid

/-- `sm_multicast_check_sync_consistancy`.  The loop over the default class runs in either case
and skips by the arguments alone, whatever `groupClass` is. -/
def smMulticastCheckSyncConsistancy (p : McPool) (groupClass : ClassRef)
    (pKey mtu rate lid : Nat) : Except VStatus Unit :=
  let usedInEntry := (List.range p.numMcGroupClasses).any fun i =>
    (p.groupClass (.entry i)).usageMap.any fun e =>
      !(decide (groupClass = .entry i) && e.2.addedFor pKey mtu rate) && e.2.holdsLid lid
  let usedInDefault := (p.groupClass .default).usageMap.any fun e =>
    !e.2.addedFor pKey mtu rate && e.2.holdsLid lid
  if usedInEntry || usedInDefault then .error .reject else .ok ()

def smMulticastSyncLid (tcap : MlidTableCap) (p : McPool) (groups : List McGroup)
    (mGid : IbGid) (pKey mtu rate lid : Nat) : Except Fault (McPool × Except VStatus Unit) :=
  let ref := findMcGroupClass p mGid
  let c := p.groupClass ref
  match smMulticastCheckSyncConsistancy p ref pKey mtu rate lid with
  | .error e => .ok (p, .error e)
  | .ok () =>
    if c.maximumLids = 0 then
      .ok (p.setClass ref { c with currentLids := inc16 c.currentLids }, .ok ())
    else do
      let (c, r) ← smMcGetGroupClassLid tcap groups c pKey mtu rate lid
      pure (p.setClass ref c, r.map fun _ => ())

/-- A group as the master sends it, whose MLID is neither 0, which stands for a request of any
MLID, nor the `0xFF` bytes of an empty slot. -/
structure SyncedGroup where
  group : McGroup
  mLid_pos : 0 < group.mLid
  mLid_ne_marker : group.mLid ≠ 0xFFFFFFFF

end OpaFm.Multicast
