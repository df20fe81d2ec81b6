import Mathlib.Algebra.Group.Nat.Defs
import Mathlib.Logic.Function.Basic

/-!
# Unicast LIDs

`lidmap` says which port GUID owns a LID, with 0 for a free one, and the
GUID-to-LID map remembers the base LID of each GUID.  `sm_check_lid` keeps the LID a
port came with, `sm_set_lid` gives it one, `sm_clear_lid` takes it away.

The table has `UNICAST_LID_MAX + 1` entries.  Where the code runs over its end, the
model reads and writes entries after it.
-/

namespace OpaFm.Fabric

def reservedLid : Nat := 0
def unicastLidMin : Nat := 1
def unicastLidMax : Nat := 0xBFFF

/-- The fields of `sm_config` that decide about LIDs. -/
structure LidConfig where
  lmc : Nat
  lmcE0 : Nat
  topoLidOffset : Nat

/-- `lidmap` and what belongs to it.  A hint of -1 is `none`. -/
@[ext] structure LidMap where
  guid : Nat → Nat
  guidToLid : Nat → Option Nat
  lmc0FreeLidHint : Option Nat
  lmcE0FreeLidHint : Option Nat
  lmcFreeLidHint : Option Nat

/-- What is read of a port: its GUID, and the LID and LMC it came with. -/
structure LidPort where
  guid : Nat
  lid : Nat
  lmc : Nat

namespace LidMap

def put (m : LidMap) (lid guid : Nat) : LidMap :=
  { m with guid := Function.update m.guid lid guid }

/-- `cl_qmap_insert`, which leaves a key that is there alone. -/
def qmapInsert (m : LidMap) (guid lid : Nat) : LidMap :=
  if m.guidToLid guid = none then
    { m with guidToLid := Function.update m.guidToLid guid (some lid) }
  else m

def qmapRemove (m : LidMap) (guid : Nat) : LidMap :=
  { m with guidToLid := Function.update m.guidToLid guid none }

def lids (base count : Nat) : List Nat := List.range' base count

/-! ## Clearing -/

def clearLids (guid : Nat) : List Nat → LidMap → LidMap
  | [], m => m
  | lid :: rest, m =>
    if lid > unicastLidMax then m
    else clearLids guid rest (if m.guid lid = guid then m.put lid 0 else m)

def smClearLid (m : LidMap) (p : LidPort) : Nat × LidPort × LidMap :=
  let m := (clearLids p.guid (lids p.lid (2 ^ p.lmc)) m).qmapRemove p.guid
  (reservedLid, { p with lid := reservedLid, lmc := 0 }, m)

/-! ## Checking -/

/-- The loop that takes the LIDs of a range, until one belongs to another port.  It
stands three times in the source, for a larger, a smaller and the same LMC. -/
def assignLids (guid : Nat) : List Nat → LidMap → LidMap × Bool
  | [], m => (m, true)
  | lid :: rest, m =>
    if m.guid lid = 0 then assignLids guid rest (m.put lid guid)
    else if m.guid lid ≠ guid then (m, false)
    else assignLids guid rest m

def clearExtra (guid : Nat) : List Nat → LidMap → LidMap
  | [], m => m
  | lid :: rest, m => clearExtra guid rest (if m.guid lid = guid then m.put lid 0 else m)

def suitable (cfg : LidConfig) (m : LidMap) (p : LidPort) (newLmc : Nat) : Bool :=
  !(newLmc = 0 ∧ p.lmc = 0 ∧ cfg.topoLidOffset > 1 ∧
    (p.lid % cfg.topoLidOffset ≠ 0 ∨ m.guid p.lid ≠ p.guid)) ∧
  p.lid % 2 ^ newLmc = 0 ∧ p.lid + 2 ^ newLmc ≤ unicastLidMax + 1

def smCheckLid (cfg : LidConfig) (m : LidMap) (p : LidPort) (newLmc : Nat) :
    Nat × LidPort × LidMap :=
  if p.lid < unicastLidMin ∨ p.lid > unicastLidMax then (reservedLid, p, m)
  else if !m.suitable cfg p newLmc then m.smClearLid p
  else
    match assignLids p.guid (lids p.lid (2 ^ newLmc)) m with
    | (m, false) => m.smClearLid p
    | (m, true) =>
      let m :=
        if newLmc < p.lmc then
          clearExtra p.guid (lids (p.lid + 2 ^ newLmc) (2 ^ p.lmc - 2 ^ newLmc)) m
        else m
      (p.lid, { p with lmc := newLmc }, m.qmapInsert p.guid p.lid)

/-! ## Searching -/

def takenAfter (m : LidMap) (lid1 count : Nat) : Option Nat :=
  (lids (lid1 + 1) (count - 1)).find? fun lid2 => m.guid lid2 ≠ 0

def fillHint (hint value : Option Nat) : Option Nat := if hint = some 0 then value else hint

def noteFreeSpace (cfg : LidConfig) (m : LidMap) (lid1 freeSpace : Nat) : LidMap :=
  { m with
    lmc0FreeLidHint :=
      if freeSpace ≥ 1 then fillHint m.lmc0FreeLidHint (some lid1) else m.lmc0FreeLidHint
    lmcE0FreeLidHint :=
      if freeSpace ≥ 2 ^ cfg.lmcE0 then fillHint m.lmcE0FreeLidHint (some lid1)
      else m.lmcE0FreeLidHint
    lmcFreeLidHint :=
      if freeSpace ≥ 2 ^ cfg.lmc then fillHint m.lmcFreeLidHint (some lid1)
      else m.lmcFreeLidHint }

def quickLoop (cfg : LidConfig) (lidCount : Nat) : List Nat → LidMap → LidMap × Nat
  | [], m => (m, 0)
  | lid1 :: rest, m =>
    if m.guid lid1 = 0 then
      match m.takenAfter lid1 lidCount with
      | none => (m, lid1)
      | some lid2 => quickLoop cfg lidCount rest (m.noteFreeSpace cfg lid1 (lid2 - lid1))
    else quickLoop cfg lidCount rest m

def startHint (cfg : LidConfig) (m : LidMap) (lidCount : Nat) : Option Nat :=
  if lidCount = 1 then m.lmc0FreeLidHint
  else if lidCount = 2 ^ cfg.lmc then m.lmcFreeLidHint
  else if lidCount = 2 ^ cfg.lmcE0 then m.lmcE0FreeLidHint
  else some reservedLid

def resetHints (m : LidMap) (lid1 : Nat) : LidMap :=
  { m with
    lmc0FreeLidHint := if m.lmc0FreeLidHint = some lid1 then some 0 else m.lmc0FreeLidHint
    lmcE0FreeLidHint := if m.lmcE0FreeLidHint = some lid1 then some 0 else m.lmcE0FreeLidHint
    lmcFreeLidHint := if m.lmcFreeLidHint = some lid1 then some 0 else m.lmcFreeLidHint }

def exhaustHints (m : LidMap) : LidMap :=
  { m with
    lmc0FreeLidHint := fillHint m.lmc0FreeLidHint none
    lmcE0FreeLidHint := fillHint m.lmcE0FreeLidHint none
    lmcFreeLidHint := fillHint m.lmcFreeLidHint none }

def alignLid (lmc lid2 : Nat) : Nat :=
  if lmc ≠ 0 ∧ lid2 % 2 ^ lmc ≠ 0 then (lid2 / 2 ^ lmc + 1) * 2 ^ lmc else lid2

/-- The hints for the next search.  The LID that is aligned for the second hint is
what the third one starts from. -/
def nextHints (cfg : LidConfig) (m : LidMap) (lidCount lid2 : Nat) : LidMap :=
  let upTo (lid : Nat) : Option Nat := if lid + lidCount ≤ unicastLidMax + 1 then some lid else none
  let lid2' := if m.lmcE0FreeLidHint = some 0 then alignLid cfg.lmcE0 lid2 else lid2
  { m with
    lmc0FreeLidHint := fillHint m.lmc0FreeLidHint (upTo lid2)
    lmcE0FreeLidHint := fillHint m.lmcE0FreeLidHint (upTo lid2')
    lmcFreeLidHint := fillHint m.lmcFreeLidHint (upTo (alignLid cfg.lmc lid2')) }

def smFindLidQuick (cfg : LidConfig) (m : LidMap) (lidCount : Nat) : LidMap × Nat :=
  match m.startHint cfg lidCount with
  | none => (m, reservedLid)
  | some lid1 =>
    let blocks := List.range' lid1 ((unicastLidMax + 1 - lid1) / lidCount) lidCount
    match quickLoop cfg lidCount blocks (m.resetHints lid1) with
    | (m, 0) => (m.exhaustHints, reservedLid)
    | (m, freeLid) => (m.nextHints cfg lidCount (freeLid + lidCount), freeLid)

/-! ## Setting -/

/-- The search over all LIDs.  Its end is computed from the LMC, its step may be larger. -/
def exhaustiveSearch (m : LidMap) (delta lmc : Nat) : Option Nat :=
  (List.range' delta ((unicastLidMax + 1 - 2 ^ lmc) / delta) delta).find? fun lid1 =>
    m.guid lid1 = 0 ∧ m.takenAfter lid1 delta = none

def newLids (cfg : LidConfig) (m : LidMap) (p : LidPort) (delta lmc : Nat) : LidMap × Option Nat :=
  let (m, quick) := m.smFindLidQuick cfg delta
  let found := if quick = reservedLid then m.exhaustiveSearch delta lmc else some quick
  match found with
  | none => (m, none)
  | some lid1 => (m.qmapInsert p.guid lid1, some lid1)

/-- The roll-back when the remembered place is too small.  The loop counts `lid3` but
clears the entry of `lid2`, which is the other port's. -/
def rollBack (m : LidMap) (p : LidPort) (lid1 lid2 : Nat) : LidMap :=
  ((lids lid1 (lid2 - lid1)).foldl (fun m _lid3 => m.put lid2 0) m).qmapRemove p.guid

def rememberedLid (m : LidMap) (p : LidPort) (delta : Nat) : LidMap × Option Nat :=
  match m.guidToLid p.guid with
  | none => (m, none)
  | some lid1 =>
    match (lids (lid1 + 1) (delta - 1)).find? fun lid2 =>
        m.guid lid2 ≠ p.guid ∧ m.guid lid2 ≠ 0 with
    | none => (m, some lid1)
    | some lid2 => (m.rollBack p lid1 lid2, none)

def smSetLid (cfg : LidConfig) (m : LidMap) (p : LidPort) (lmc : Nat) : Nat × LidPort × LidMap :=
  let delta := if 2 ^ lmc = 1 ∧ cfg.topoLidOffset > 1 then cfg.topoLidOffset else 2 ^ lmc
  let (m, remembered) := m.rememberedLid p delta
  let (m, found) :=
    match remembered with
    | some lid1 => (m, some lid1)
    | none => m.newLids cfg p delta lmc
  match found with
  | none => (reservedLid, p, m)
  | some lid1 =>
    let m := (lids lid1 delta).foldl (fun m lid2 => m.put lid2 p.guid) m
    (lid1, { p with lid := lid1, lmc := lmc }, m)

end LidMap

/-! ## Runs -/

inductive LidCall where
  | check (p : LidPort) (newLmc : Nat)
  | set (p : LidPort) (lmc : Nat)
  | clear (p : LidPort)

def LidCall.guid : LidCall → Nat
  | .check p _ => p.guid
  | .set p _ => p.guid
  | .clear p => p.guid

def LidMap.call (cfg : LidConfig) (m : LidMap) : LidCall → Nat × LidPort × LidMap
  | .check p newLmc => m.smCheckLid cfg p newLmc
  | .set p lmc => m.smSetLid cfg p lmc
  | .clear p => m.smClearLid p

/-- The map, with the base LID and LMC that each GUID holds. -/
structure LidSystem where
  map : LidMap
  held : Nat → Option (Nat × Nat)

namespace LidSystem

def init (cfg : LidConfig) : LidSystem where
  map :=
    { guid := fun _ => 0
      guidToLid := fun _ => none
      lmc0FreeLidHint := some 1
      lmcE0FreeLidHint := some (2 ^ cfg.lmcE0)
      lmcFreeLidHint := some (2 ^ cfg.lmc) }
  held := fun _ => none

/-- A call.  The port holds the range that is handed out to it; where none is, it
keeps the one it has as long as it is remembered. -/
def step (cfg : LidConfig) (s : LidSystem) (c : LidCall) : Except Empty (LidSystem × Nat) :=
  let (lid, p, map) := s.map.call cfg c
  let held :=
    if lid ≠ reservedLid then some (lid, p.lmc)
    else (map.guidToLid c.guid).bind fun _ => s.held c.guid
  .ok ({ map := map, held := Function.update s.held c.guid held }, lid)

end LidSystem

/-!
## Entries of the LID table

An entry of `lidmap` keeps, beside the GUID that owns its LID, the pass that saw it last
and where its node and port are in the new topology.  This is `sm_check_lid` and
`sm_clear_lid` on whole entries.
-/

/-- `LidMap_t`, without what only other threads use. -/
@[ext] structure LidEntry (ν π : Type) where
  guid : Nat
  pass : Nat
  newNodep : Option ν
  newPortp : Option π
  deriving DecidableEq, Repr

namespace LidEntry

variable {ν π : Type}

def free (e : LidEntry ν π) : LidEntry ν π := { e with guid := 0, pass := 0 }

def unpoint (e : LidEntry ν π) : LidEntry ν π := { e with newNodep := none, newPortp := none }

end LidEntry

structure LidTable (ν π : Type) where
  entry : Nat → LidEntry ν π
  guidToLid : Nat → Option Nat

namespace LidTable

variable {ν π : Type}

def modify (t : LidTable ν π) (lid : Nat) (f : LidEntry ν π → LidEntry ν π) : LidTable ν π :=
  { t with entry := Function.update t.entry lid (f (t.entry lid)) }

def qmapInsert (t : LidTable ν π) (guid lid : Nat) : LidTable ν π :=
  if t.guidToLid guid = none then
    { t with guidToLid := Function.update t.guidToLid guid (some lid) }
  else t

def qmapRemove (t : LidTable ν π) (guid : Nat) : LidTable ν π :=
  { t with guidToLid := Function.update t.guidToLid guid none }

/-- The loop of `sm_clear_lid`.  The pointers that it clears are those of the base LID. -/
def clearLids (base guid : Nat) : List Nat → LidTable ν π → LidTable ν π
  | [], t => t
  | lid :: rest, t =>
    if lid > unicastLidMax then t
    else
      clearLids base guid rest
        (if (t.entry lid).guid = guid then (t.modify lid .free).modify base .unpoint else t)

def smClearLid (t : LidTable ν π) (p : LidPort) : Nat × LidPort × LidTable ν π :=
  let t := (clearLids p.lid p.guid (LidMap.lids p.lid (2 ^ p.lmc)) t).qmapRemove p.guid
  (reservedLid, { p with lid := reservedLid, lmc := 0 }, t)

def assignLids (owner : LidEntry ν π) : List Nat → LidTable ν π → LidTable ν π × Bool
  | [], t => (t, true)
  | lid :: rest, t =>
    if (t.entry lid).guid = 0 then assignLids owner rest (t.modify lid fun _ => owner)
    else if (t.entry lid).guid ≠ owner.guid then (t, false)
    else assignLids owner rest t

def clearExtra (guid : Nat) : List Nat → LidTable ν π → LidTable ν π
  | [], t => t
  | lid :: rest, t =>
    clearExtra guid rest
      (if (t.entry lid).guid = guid then t.modify lid (·.free.unpoint) else t)

def suitable (cfg : LidConfig) (t : LidTable ν π) (p : LidPort) (newLmc : Nat) : Bool :=
  !(newLmc = 0 ∧ p.lmc = 0 ∧ cfg.topoLidOffset > 1 ∧
    (p.lid % cfg.topoLidOffset ≠ 0 ∨ (t.entry p.lid).guid ≠ p.guid)) ∧
  p.lid % 2 ^ newLmc = 0 ∧ p.lid + 2 ^ newLmc ≤ unicastLidMax + 1

/-- What `sm_check_lid` writes for a port: it was seen in the sweep that ends next. -/
def owner (topologyPasscount : Nat) (nodep : ν) (portp : π) (p : LidPort) : LidEntry ν π :=
  { guid := p.guid
    pass := (topologyPasscount + 1) % 2 ^ 32
    newNodep := nodep
    newPortp := portp }

/-- `sm_check_lid`, for the node `nodep` and the port `portp` with the data `p`. -/
def smCheckLid (cfg : LidConfig) (topologyPasscount : Nat) (t : LidTable ν π) (nodep : ν)
    (portp : π) (p : LidPort) (newLmc : Nat) : Nat × LidPort × LidTable ν π :=
  if p.lid < unicastLidMin ∨ p.lid > unicastLidMax then (reservedLid, p, t)
  else if !t.suitable cfg p newLmc then t.smClearLid p
  else
    match assignLids (owner topologyPasscount nodep portp p) (LidMap.lids p.lid (2 ^ newLmc)) t with
    | (t, false) => t.smClearLid p
    | (t, true) =>
      let t :=
        if newLmc < p.lmc then
          clearExtra p.guid (LidMap.lids (p.lid + 2 ^ newLmc) (2 ^ p.lmc - 2 ^ newLmc)) t
        else t
      (p.lid, { p with lmc := newLmc }, t.qmapInsert p.guid p.lid)

end LidTable

end OpaFm.Fabric
