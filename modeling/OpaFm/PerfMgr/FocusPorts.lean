import OpaFm.Cs.Pool
import OpaFm.Lib.LinkedList
import OpaFm.PerfMgr.FreezeFrames
import OpaFm.PerfMgr.PortStats

/-!
# Focus ports

`paGetFocusPorts` lists the links of a group that are the worst, or the best, in one respect.  Each
port of the group offers its link to a sorted list in a pool of entries, from which the last one is
bumped when it is full.
-/

namespace OpaFm.PerfMgr

open OpaFm.Lib

/-! ## The image -/

/-- A pointer to a port: its node and its `portNum`. -/
structure PortRef where
  node : Nat
  portNum : Nat
  deriving DecidableEq, Repr

inductive PmQueryStatus where
  | ok
  | skip
  | failQuery
  | failClear
  deriving DecidableEq, Repr

/-- The fields of `PmPort_t` and of its `PmPortImage_t`; groups are given by their addresses. -/
structure FocusPort where
  pmaAvoid : Bool
  active : Bool
  queryStatus : PmQueryStatus
  neighbor : Option PortRef
  groups : List Nat
  rate : LinkRate
  stats : PortStats

/-- `swPorts` by port number, of which the loop over a `uint8` comes to the end, or `caPortp`. -/
inductive NodePorts where
  | switch (swPorts : List (Option FocusPort)) (length_le : swPorts.length ≤ 255)
  | ca (portNum : Nat) (port : FocusPort)

/-- `PmNode_t`, with the LID that it has in the image. -/
structure FocusNode where
  lid : BitVec 16
  ports : NodePorts

/-- `PmImage_t`, and the group of all ports. -/
structure FocusImage where
  maxLid : Nat
  lidMap : Nat → Option Nat
  node : Nat → FocusNode
  allPorts : Nat

def FocusNode.port? (n : FocusNode) (portNum : Nat) : Option FocusPort :=
  match n.ports with
  | .switch swPorts _ => (swPorts[portNum]?).join
  | .ca num port => if portNum = num then some port else none

def FocusImage.port? (img : FocusImage) (p : PortRef) : Option FocusPort :=
  (img.node p.node).port? p.portNum

def FocusImage.pmIsPortInGroup (img : FocusImage) (port : FocusPort) (groupp : Nat) : Bool :=
  if port.pmaAvoid || !port.active then false
  else groupp == img.allPorts || port.groups.contains groupp

/-! ## What ports are compared by -/

inductive FocusSelect where
  | utilHigh
  | utilPktsHigh
  | utilLow
  | errInteg
  | errCong
  | errSmaCong
  | errBubble
  | errSec
  | errRout
  deriving DecidableEq, Repr

def FocusSelect.ofCode (select : BitVec 32) : Option FocusSelect :=
  if select = 0x00020001#32 then some .utilHigh
  else if select = 0x00020082#32 then some .utilPktsHigh
  else if select = 0x00020101#32 then some .utilLow
  else if select = 0x00030001#32 then some .errInteg
  else if select = 0x00030002#32 then some .errCong
  else if select = 0x00030003#32 then some .errSmaCong
  else if select = 0x00030004#32 then some .errBubble
  else if select = 0x00030005#32 then some .errSec
  else if select = 0x00030006#32 then some .errRout
  else none

/-- `computeUtilizationValue`: tenths of a percent of what the link can carry. -/
def computeUtilizationValue (port : FocusPort) : Nat :=
  let rate := pmCalculateRate port.rate.activeSpeed port.rate.rxActiveWidth
  let pct10 := uint32 (port.stats.sendMBps.toNat * 1000 / staticRateToMBps rate)
  if pct10 < 1000 then pct10 else 1000

namespace FocusSelect

def computeFunc : FocusSelect → FocusPort → Nat
  | .utilHigh, port => computeUtilizationValue port
  | .utilPktsHigh, port => port.stats.sendKPps.toNat
  | .utilLow, port => computeUtilizationValue port
  | .errInteg, port => (port.stats.errors.stat .integrity).toNat
  | .errCong, port => (port.stats.errors.stat .congestion).toNat
  | .errSmaCong, port => (port.stats.errors.stat .smaCongestion).toNat
  | .errBubble, port => (port.stats.errors.stat .bubble).toNat
  | .errSec, port => (port.stats.errors.stat .security).toNat
  | .errRout, port => (port.stats.errors.stat .routing).toNat

def compareGE (value1 value2 : Nat) : Bool := decide (value1 ≥ value2)

def compareLE (value1 value2 : Nat) : Bool := decide (value1 ≤ value2)

def compareFunc : FocusSelect → Nat → Nat → Bool
  | .utilLow => compareGE
  | _ => compareLE

def candidateFunc : FocusSelect → Nat → Nat → Bool
  | .utilLow => compareLE
  | _ => compareGE

end FocusSelect

/-! ## The sorted list -/

inductive FocusFlag where
  | ok
  | pmaIgnore
  | pmaFailure
  | topoFailure
  deriving DecidableEq, Repr

structure SortedValueEntry where
  lid : Nat
  portNum : Nat
  localFlags : FocusFlag
  neighborFlags : FocusFlag
  value : Nat
  neighborValue : Nat
  sortValue : Nat
  portp : PortRef
  neighborPortp : Option PortRef

def SortedValueEntry.leadsTo (img : FocusImage) (lid portNum : Nat) (e : SortedValueEntry) : Bool :=
  (e.neighborPortp.map fun q =>
    lid == (img.node q.node).lid.toNat && portNum == q.portNum).getD false

/-- `sortInfo_t`, with the number of entries that there is memory for. -/
structure SortInfo where
  pool : Nat → SortedValueEntry
  poolEntries : Nat
  list : ListEnds Nat
  sortedValueListSize : Nat
  numValueEntries : Nat

namespace SortInfo

def empty (range poolEntries : Nat) (pool : Nat → SortedValueEntry) (links : Links Nat) :
    SortInfo where
  pool := pool
  poolEntries := poolEntries
  list := ⟨links, none, none⟩
  sortedValueListSize := range
  numValueEntries := 0

def entrySize : Nat := 64

/-- The list with a pool from `vs_pool_alloc`, unless it refuses or the memory runs out. -/
def alloc (range : Nat) (memory : Option ((Nat → SortedValueEntry) × Links Nat)) :
    Option SortInfo :=
  (Cs.Pool.vsPoolAlloc (range * entrySize)).bind fun bytes =>
    memory.map fun m => empty range (bytes / entrySize) m.1 m.2

variable (s : SortInfo)

def neighborInList (img : FocusImage) (lid portNum : Nat) : Bool :=
  (walkLinked s.list.links.next (s.sortedValueListSize + 1) s.list.head).any fun i =>
    (s.pool i).leadsTo img lid portNum

/-- The loop for the place of a new entry, which is put there; `none` if the loop does not end. -/
def insertSorted (select : FocusSelect) (newListEntry : Nat) (e : SortedValueEntry) :
    Option SortInfo :=
  let pool := Function.update s.pool newListEntry e
  let behind (i : Nat) : Bool := select.compareFunc e.sortValue (pool i).sortValue
  (passLinked s.list.links.next behind (s.sortedValueListSize + 1) none s.list.head).map fun prev =>
    { s with pool := pool, list := s.list.insertAfter prev newListEntry }

/-- The end of `processFocusPort`; `none` where a null pointer is followed or an entry lies outside
of the pool. -/
def addEntry (select : FocusSelect) (e : SortedValueEntry) : Option SortInfo :=
  match s.list.head with
  | none =>
    if s.poolEntries = 0 then none
    else
      some
        { s with
          pool := Function.update s.pool 0 e
          list :=
            { links := ⟨Function.update s.list.links.next 0 none,
                Function.update s.list.links.prev 0 none⟩
              head := some 0
              tail := some 0 }
          numValueEntries := s.numValueEntries + 1 }
  | some head =>
    if s.numValueEntries < s.sortedValueListSize then
      if s.numValueEntries < s.poolEntries then
        ({ s with numValueEntries := s.numValueEntries + 1 } : SortInfo).insertSorted select
          s.numValueEntries e
      else none
    else
      match s.list.tail with
      | none => none
      | some tail =>
        if select.candidateFunc e.sortValue (s.pool tail).sortValue then
          if s.sortedValueListSize = 1 then some { s with pool := Function.update s.pool head e }
          else
            match s.list.dropTail with
            | none => none
            | some list => ({ s with list := list } : SortInfo).insertSorted select tail e
        else some s

end SortInfo

/-! ## The ports of a group -/

/-- A port as the loop over the LIDs comes to it. -/
structure FocusVisit where
  lid : Nat
  portp : PortRef
  port : FocusPort

namespace FocusVisit

def nbrPt (v : FocusVisit) : Option PortRef :=
  if v.portp.portNum = 0 then none else v.port.neighbor

def flags (port : FocusPort) : FocusFlag :=
  if port.pmaAvoid then .pmaIgnore
  else if port.queryStatus ≠ .ok then .pmaFailure
  else .ok

def entry (v : FocusVisit) (select : FocusSelect) (nbr : Option FocusPort) : SortedValueEntry :=
  let nbrComputedValue := (nbr.map select.computeFunc).getD 0
  { lid := v.lid
    portNum := v.portp.portNum
    localFlags := flags v.port
    neighborFlags :=
      match nbr with
      | some nbr => flags nbr
      | none => if v.portp.portNum = 0 then .ok else .topoFailure
    value := select.computeFunc v.port
    neighborValue := nbrComputedValue
    sortValue := max (select.computeFunc v.port) nbrComputedValue
    portp := v.portp
    neighborPortp := v.nbrPt }

end FocusVisit

/-- `processFocusPort`; `none` where a pointer leads nowhere. -/
def processFocusPort (img : FocusImage) (select : FocusSelect) (s : SortInfo) (v : FocusVisit) :
    Option SortInfo :=
  match v.nbrPt with
  | none => s.addEntry select (v.entry select none)
  | some q =>
    match img.port? q with
    | none => none
    | some nbr =>
      if s.neighborInList img v.lid v.portp.portNum then some s
      else s.addEntry select (v.entry select (some nbr))

namespace FocusImage

variable (img : FocusImage)

def nodeVisits (lid node : Nat) : List FocusVisit :=
  match (img.node node).ports with
  | .switch swPorts _ =>
    swPorts.zipIdx.filterMap fun x => x.1.map fun port => ⟨lid, ⟨node, x.2⟩, port⟩
  | .ca portNum port => [⟨lid, ⟨node, portNum⟩, port⟩]

def lidVisits (lid : Nat) : List FocusVisit := ((img.lidMap lid).map (img.nodeVisits lid)).getD []

def groupVisits (groupp : Nat) : List FocusVisit :=
  ((List.range' 1 img.maxLid).flatMap img.lidVisits).filter fun v =>
    img.pmIsPortInGroup v.port groupp

def sortFocusPorts (groupp : Nat) (select : FocusSelect) (s : SortInfo) : Option SortInfo :=
  (img.groupVisits groupp).foldlM (processFocusPort img select) s

end FocusImage

structure PmFocusPortEntry where
  lid : Nat
  portNum : Nat
  localFlags : FocusFlag
  value : Nat
  neighborFlags : FocusFlag
  neighborLid : Nat
  neighborPortNum : Nat
  neighborValue : Nat
  deriving DecidableEq, Repr

def SortedValueEntry.focusPort (img : FocusImage) (e : SortedValueEntry) : PmFocusPortEntry :=
  let neighborPortp := if e.portNum = 0 then none else e.neighborPortp
  { lid := e.lid
    portNum := e.portNum
    localFlags := e.localFlags
    value := e.value
    neighborFlags := e.neighborFlags
    neighborLid := (neighborPortp.map fun q => (img.node q.node).lid.toNat).getD 0
    neighborPortNum := (neighborPortp.map PortRef.portNum).getD 0
    neighborValue := (neighborPortp.map fun _ => e.neighborValue).getD 0 }

/-- What the memory of the two lists holds, unless it runs out. -/
structure FocusMemory where
  sortedValueListPool : Option ((Nat → SortedValueEntry) × Links Nat)
  portList : Bool

def PmFocusPortEntry.size : Nat := 176

/-- `addSortedPorts`; `none` when an entry lies outside of the memory for the list. -/
def SortInfo.addSortedPorts (s : SortInfo) (img : FocusImage) (memory : Bool) :
    Option (Except FStatus (List PmFocusPortEntry)) :=
  if s.list.head.isNone then some (.ok [])
  else
    match Cs.Pool.vsPoolAlloc (s.numValueEntries * PmFocusPortEntry.size) with
    | none => some (.error .insufficientMemory)
    | some bytes =>
      if !memory then some (.error .insufficientMemory)
      else if s.numValueEntries * PmFocusPortEntry.size ≤ bytes then
        some <| .ok <| (walkLinked s.list.links.next s.numValueEntries s.list.head).map fun i =>
          (s.pool i).focusPort img
      else none

/-- `paGetFocusPorts` for an image and a group that have been found; `none` where the loops do not
come to a list. -/
def paGetFocusPorts (img : FocusImage) (groupp : Nat) (select start range : BitVec 32)
    (memory : FocusMemory) : Option (Except FStatus (List PmFocusPortEntry)) :=
  if start ≠ 0#32 then some (.error .invalidParameter)
  else if range = 0#32 then some (.error .invalidParameter)
  else
    match FocusSelect.ofCode select with
    | none => some (.error .invalidParameter)
    | some select =>
      match SortInfo.alloc range.toNat memory.sortedValueListPool with
      | none => some (.error .insufficientMemory)
      | some start =>
        (img.sortFocusPorts groupp select start).bind fun s => s.addSortedPorts img memory.portList

end OpaFm.PerfMgr
