import Mathlib.Algebra.Order.Ring.Nat
import Mathlib.Data.Finset.Basic

/-!
# Multicast groups

`McGroup_t`, `McMember_t` and the member record they are built from, with the
look-ups of `sm_multicast.c` over the group list.
-/

namespace OpaFm.Multicast

inductive VStatus where
  | ok
  | bad
  | noResource
  | reject
  deriving DecidableEq, Repr

/-- `IB_GID`, the sixteen bytes read as one number with the subnet prefix in
the high half. -/
abbrev IbGid := BitVec 128

namespace IbGid

def subnetPrefix (g : IbGid) : Nat := (g.extractLsb' 64 64).toNat
def interfaceId (g : IbGid) : Nat := (g.extractLsb' 0 64).toNat

/-! The fields of `Type.Multicast`. -/

def formatPrefix (g : IbGid) : Nat := (g.extractLsb' 120 8).toNat
def flags (g : IbGid) : Nat := (g.extractLsb' 116 4).toNat
def scope (g : IbGid) : Nat := (g.extractLsb' 112 4).toNat
def groupId13 (g : IbGid) : Nat := (g.extractLsb' 104 8).toNat
def groupId12 (g : IbGid) : Nat := (g.extractLsb' 96 8).toNat

end IbGid

def nullGid : IbGid := 0

/-- `STL_MCMEMBER_RECORD`, less its reserved fields.  The three join bits are
one-bit fields of the record. -/
structure McMemberRecord where
  mGid : IbGid := 0
  portGid : IbGid := 0
  qKey : Nat := 0
  mtuSelector : Nat := 0
  mtu : Nat := 0
  tClass : Nat := 0
  pKey : Nat := 0
  rateSelector : Nat := 0
  rate : Nat := 0
  pktLifeTimeSelector : Nat := 0
  pktLifeTime : Nat := 0
  sl : Nat := 0
  hopLimit : Nat := 0
  scope : Nat := 0
  joinSendOnlyMember : Bool := false
  joinNonMember : Bool := false
  joinFullMember : Bool := false
  mLid : Nat := 0
  deriving DecidableEq, Repr

/-- `STL_MCMRECORD_GETJOINSTATE`: the disjunction of three one-bit fields. -/
def McMemberRecord.getJoinState (r : McMemberRecord) : Nat :=
  r.joinSendOnlyMember.toNat ||| r.joinNonMember.toNat ||| r.joinFullMember.toNat

structure McMember where
  slid : Nat := 0
  proxy : Bool := false
  state : Nat := 0
  portGuid : Nat := 0
  record : McMemberRecord := {}
  index : Nat := 0
  deriving DecidableEq, Repr

structure McGroup where
  mGid : IbGid := 0
  membersFull : Nat := 0
  qKey : Nat := 0
  pKey : Nat := 0
  mLid : Nat := 0
  mtu : Nat := 0
  rate : Nat := 0
  life : Nat := 0
  sl : Nat := 0
  hopLimit : Nat := 0
  tClass : Nat := 0
  scope : Nat := 0
  mcMembers : List McMember := []
  indexPool : Nat := 0
  vfMembers : Finset Nat := ∅
  unrealizable : Bool := false
  deriving DecidableEq

inductive McGroupJoinBehavior where
  | strict
  | relaxed
  | spanningTree
  deriving DecidableEq, Repr

def smFindMulticastGid (groups : List McGroup) (gid : IbGid) : Option McGroup :=
  groups.find? fun g => g.mGid = gid

def smFindMulticastMember (g : McGroup) (gid : IbGid) : Option McMember :=
  g.mcMembers.find? fun m => m.record.portGid = gid

/-- The first number from `start` on that is not in use, among `count` many. -/
def firstUnused (start count : Nat) (inUse : Nat → Bool) : Option Nat :=
  (List.range' start count).find? fun i => !inUse i

theorem firstUnused_some {start count i : Nat} {inUse : Nat → Bool}
    (h : firstUnused start count inUse = some i) :
    start ≤ i ∧ i < start + count ∧ inUse i = false := by
  have hmem := List.mem_of_find?_eq_some h
  have hprop := List.find?_some h
  rw [List.mem_range'_1] at hmem
  exact ⟨hmem.1, hmem.2, by simpa using hprop⟩

/-! ## MGIDs -/

def ibLinkLocalScope : Nat := 2
def ibSiteLocalScope : Nat := 5
def ibOrgLocalScope : Nat := 8
def ibGlobalScope : Nat := 0xe

def smMulticastGidValid (gid : IbGid) : Bool :=
  gid.formatPrefix = 0xff ∧ gid.flags < 2 ∧
    (gid.scope = ibLinkLocalScope ∨ gid.scope = ibSiteLocalScope ∨
      gid.scope = ibOrgLocalScope ∨ gid.scope = ibGlobalScope) ∧
    ¬(gid.groupId13 = 0xa0 ∧ gid.groupId12 = 0x1b ∧ gid.scope = 2)

/-- The candidate MGID that `sm_multicast_gid_assign` builds for counter `i`. -/
def assignedGid (scope subnetPrefix i : Nat) : IbGid :=
  let scope := if scope = 0 then ibSiteLocalScope else scope
  BitVec.ofNat 8 0xff ++ BitVec.ofNat 4 1 ++ BitVec.ofNat 4 scope ++ BitVec.ofNat 8 0xa0 ++
    BitVec.ofNat 8 0x1b ++ BitVec.ofNat 64 subnetPrefix ++ BitVec.ofNat 32 i

/-- `sm_multicast_gid_assign`.  The function receives its GID by value, so the
one it finds is lost: the caller learns only whether there was one. -/
def smMulticastGidAssign (groups : List McGroup) (scope subnetPrefix : Nat) : VStatus :=
  match firstUnused 0 (2 ^ 32)
      (fun i => (smFindMulticastGid groups (assignedGid scope subnetPrefix i)).isSome) with
  | some _ => .ok
  | none => .bad

theorem getJoinState_eq (r : McMemberRecord) :
    r.getJoinState =
      (r.joinSendOnlyMember || r.joinNonMember || r.joinFullMember).toNat := by
  unfold McMemberRecord.getJoinState
  cases r.joinSendOnlyMember <;> cases r.joinNonMember <;> cases r.joinFullMember <;> rfl

theorem smMulticastGidValid_ne_null {gid : IbGid} (h : smMulticastGidValid gid = true) :
    gid ≠ nullGid := by
  rintro rfl
  revert h
  decide

end OpaFm.Multicast
