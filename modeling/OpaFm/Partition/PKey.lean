import OpaFm.Partition.VirtualFabric

/-!
# P_Key tables

`sm_set_portPkey` fills the table of a port from its virtual fabrics, and the
checks of `sm_partMgr.c` then ask two tables for a common partition.  The first
three slots are set apart: slot 0 for applications, slots 1 and 2 for the two
memberships of the management key.
-/

namespace OpaFm.Partition

open OpaFm.Fabric

def invalidPkey : Nat := 0
def fullMember : Nat := 0x8000
def stlDefaultAppPkey : Nat := 0x8001
def stlDefaultFmPkey : Nat := 0xffff
def stlDefaultClientPkey : Nat := 0x7fff
def stlDefaultAppPkeyIdx : Nat := 0
def stlDefaultClientPkeyIdx : Nat := 1
def stlDefaultFmPkeyIdx : Nat := 2

def smPkeys : Nat := 32

/-- `pPKey`, and one `STL_PARTITION_TABLE` block. -/
abbrev PKeyTable := Vector Nat smPkeys

namespace PKeyTable

def empty : PKeyTable := Vector.replicate smPkeys 0

def entry (t : PKeyTable) (i : Nat) : Nat := t[i]?.getD 0

def write (t : PKeyTable) (i pkey : Nat) : PKeyTable := t.setIfInBounds i pkey

end PKeyTable

/-! ## Filling a table -/

/-- The locals of `sm_set_portPkey`, with the table of the port. -/
structure PKeySetup where
  pkeyTable : PKeyTable
  pPKey : PKeyTable
  pkeyEntry : Nat := 0
  pkeyEntryCntr : Nat := 0
  isEntryZeroUsed : Bool := false
  defaultDefined : Bool := false
  pkey : Nat := 0
  enforcePkey : Bool := false
  vlHighLimit : Nat := 0
  isl : Bool := false

/-- An assignment made to `pkeyTable` and to `pPKey`. -/
def PKeySetup.write (s : PKeySetup) (i pkey : Nat) : PKeySetup :=
  { s with pkeyTable := s.pkeyTable.write i pkey, pPKey := s.pPKey.write i pkey }

def PKeySetup.setStlPkey (s : PKeySetup) (key1 key2 : Nat) : PKeySetup :=
  (s.write stlDefaultClientPkeyIdx key1).write stlDefaultFmPkeyIdx key2

def smSetPortStlMngntPkey (n : Node) (portIndex pkey : Nat) (s : PKeySetup) : PKeySetup :=
  if n.nodeType = .switch ∧ portIndex = 0 ∧ ¬n.enhancedPort0 then
    s.setStlPkey 0 stlDefaultFmPkey
  else if ¬pKeyIsFull pkey then
    s.setStlPkey stlDefaultClientPkey 0
  else if n.nodeType = .ca ∨ (n.nodeType = .switch ∧ portIndex = 0 ∧ n.enhancedPort0) then
    s.setStlPkey stlDefaultClientPkey stlDefaultFmPkey
  else
    -- a switch port that is linked to a managed HFI
    s.setStlPkey 0 stlDefaultFmPkey

/-- `sm_get_stl_pkey_index`, with the new value of `isEntryZeroUseded`. -/
def smGetStlPkeyIndex (isEntryZeroUsed : Bool) (pkeyIndex : Nat) : Nat × Bool :=
  if ¬isEntryZeroUsed then (0, true)
  else if pkeyIndex = stlDefaultClientPkeyIdx ∨ pkeyIndex = stlDefaultFmPkeyIdx then
    (stlDefaultFmPkeyIdx + 1, true)
  else (pkeyIndex, true)

/-- The slots that the search for a duplicate visits.  It steps over the
management slots, once past the entries in use. -/
def searchSlots (pkeyEntry : Nat) : List Nat :=
  if pkeyEntry ≤ stlDefaultClientPkeyIdx then List.range pkeyEntry
  else 0 :: List.range' (stlDefaultFmPkeyIdx + 1) (max 1 (pkeyEntry - (stlDefaultFmPkeyIdx + 1)))

def vfPkey (d : PortData) (vf : VF) : Nat :=
  if vf.index ∈ d.vfMember ∨ vf.index ∈ d.fullPKeyMember then
    if vf.index ∈ d.fullPKeyMember then vf.pkey ||| fullMember else vf.pkey
  else 0

/-- A new entry, in the slot that `sm_get_stl_pkey_index` gives. -/
def appendPkey (pkey : Nat) (s : PKeySetup) : Except PKeySetup PKeySetup :=
  let (pkeyEntry, used) := smGetStlPkeyIndex s.isEntryZeroUsed s.pkeyEntry
  let s := { s with pkeyEntry := pkeyEntry, isEntryZeroUsed := used, pkey := pkey }
  if pkeyEntry < smPkeys then
    .ok { s.write pkeyEntry pkey with
      pkeyEntry := pkeyEntry + 1
      pkeyEntryCntr := s.pkeyEntryCntr + 1 }
  else .error s

def addPkey (pkey : Nat) (s : PKeySetup) : Except PKeySetup PKeySetup :=
  let found := (searchSlots s.pkeyEntry).find? fun i =>
    pKeyValue (s.pPKey.entry i) = pKeyValue pkey
  match found with
  | some i =>
    let s := { s with pkey := 0 }
    .ok (if ¬pKeyIsFull (s.pPKey.entry i) ∧ pKeyIsFull pkey then s.write i pkey else s)
  | none => appendPkey pkey s

def addMngntPkey (n : Node) (portIndex pkey : Nat) (s : PKeySetup) : PKeySetup :=
  let s := { s with pkey := pkey }
  let s := if s.defaultDefined then s
    else
      { s with
        defaultDefined := true
        pkeyEntry :=
          if s.pkeyEntry ≤ stlDefaultClientPkeyIdx then s.pkeyEntry + 2 else s.pkeyEntry
        pkeyEntryCntr := s.pkeyEntryCntr + 2 }
  smSetPortStlMngntPkey n portIndex pkey s

/-- The loop body for one virtual fabric, of which `d` may be a member.  Only
the ports of switches that face a host look at its security. -/
def addVfPkey (n : Node) (portIndex : Nat) (facesHost : Bool) (d : PortData) (s : PKeySetup)
    (vf : VF) : Except PKeySetup PKeySetup :=
  let pkey := vfPkey d vf
  if pkey = 0 then .ok { s with pkey := 0 }
  else
    let s := if facesHost ∧ vf.security then { s with enforcePkey := true } else s
    let s := if vf.qosEnable ∧ vf.priority ≠ 0 then
        { s with vlHighLimit := s.vlHighLimit + 1 }
      else s
    if pKeyValue pkey = defaultPkey then .ok (addMngntPkey n portIndex pkey s)
    else addPkey pkey s

def addVfPkeys (vfs : VirtualFabrics) (n : Node) (portIndex : Nat) (d : PortData)
    (linked : Option (Node × PortData)) (s : PKeySetup) : Except PKeySetup PKeySetup :=
  if n.nodeType = .switch ∧ 0 < portIndex then
    match linked with
    | none => .ok s
    | some (linkedNode, linkedData) =>
      match linkedNode.nodeType with
      | .ca => vfs.vFabric.foldlM (addVfPkey n portIndex true linkedData) s
      | .switch => .ok { s with isl := true }
      | .router => .ok s
  else vfs.vFabric.foldlM (addVfPkey n portIndex false d) s

def addDefaultPkeys (n : Node) (portIndex : Nat) (s : PKeySetup) : PKeySetup :=
  if ¬s.defaultDefined then
    let s := if s.pkeyEntry = 0 then
        { s with
          pkeyEntry := s.pkeyEntry + 1
          pkeyEntryCntr := s.pkeyEntryCntr + 1
          pPKey := s.pPKey.write stlDefaultAppPkeyIdx stlDefaultAppPkey }
      else s
    let s := if s.pkeyEntry ≤ stlDefaultClientPkeyIdx then
        { s with pkeyEntry := s.pkeyEntry + 2, pkeyEntryCntr := s.pkeyEntryCntr + 2 }
      else s
    smSetPortStlMngntPkey n portIndex stlDefaultFmPkey s
  else if s.pkeyEntry = 2 then
    -- `pkey` is what the last virtual fabric left there
    match appendPkey s.pkey s with
    | .ok s => s
    | .error s => s
  else s

def PKeyTable.default : PKeyTable :=
  (PKeyTable.empty.write 0 stlDefaultAppPkey).write 1 stlDefaultClientPkey

def pkeyCap (n : Node) (portIndex : Nat) : Option Nat :=
  match n.nodeType with
  | .switch =>
    if portIndex = 0 then if n.partitionCap ≠ 0 then some n.partitionCap else none
    else if n.partitionEnforcementCap ≠ 0 then some n.partitionEnforcementCap else none
  | .ca => some n.partitionCap
  | .router => none

/-- Cutting a table down to the capacity of the device.  A capacity of 0 would
put the management key in front of the table. -/
def truncatePkeys (cap : Nat) (s : PKeySetup) : PKeySetup :=
  if cap < s.pkeyEntryCntr then
    let isDefault i := pKeyValue (s.pkeyTable.entry i) = defaultPkey
    let dropped := List.range' cap (s.pkeyEntryCntr - cap)
    let pkey := ((dropped.filter isDefault).getLast?.map s.pkeyTable.entry).getD defaultPkey
    let cut := dropped.foldl (fun s i => s.write i 0) { s with enforcePkey := false }
    if (List.range cap).any isDefault ∨ cap = 0 then cut else cut.write (cap - 1) pkey
  else s

structure PKeyResult where
  pPKey : PKeyTable
  numPkeys : Nat
  enforcePkey : Bool
  vlHighLimit : Nat

/-- `sm_set_portPkey`.  `device` is the table that is read back from the port,
if it is; an error is `VSTATUS_BAD` with the table it leaves. -/
def smSetPortPkey (vfs : Option VirtualFabrics) (n : Node) (portIndex : Nat) (d : PortData)
    (linked : Option (Node × PortData)) (enforcePkey forceAttributeRewrite : Bool)
    (device : Option PKeyTable) : Except PKeyTable PKeyResult :=
  let start : PKeySetup :=
    { pkeyTable := PKeyTable.default, pPKey := PKeyTable.empty, enforcePkey := enforcePkey }
  let filled : Except PKeySetup PKeySetup := match vfs with
    | none => .ok { start with
        pPKey := PKeyTable.empty.write 0 stlDefaultAppPkey
        pkeyEntry := 1
        pkeyEntryCntr := 1
        defaultDefined := true }
    | some vfs => addVfPkeys vfs n portIndex d linked start
  match filled with
  | .error s => .error s.pPKey
  | .ok s =>
    let s := addDefaultPkeys n portIndex s
    match pkeyCap n portIndex with
    | none => .ok ⟨s.pPKey, s.pkeyEntryCntr, s.enforcePkey, s.vlHighLimit⟩
    | some cap =>
      let s := truncatePkeys cap s
      let pPKey := match device with
        | some t =>
          if s.isl ∧ ¬s.enforcePkey ∧ (t ≠ s.pkeyTable ∨ forceAttributeRewrite) then t
          else s.pPKey
        | none => s.pPKey
      .ok ⟨pPKey, min cap s.pkeyEntryCntr, s.enforcePkey, s.vlHighLimit⟩

/-! ## Checks -/

/-- A port as the checks see it; `addr` stands for the pointer to it. -/
structure PKeyPort where
  addr : Nat
  pPKey : PKeyTable

/-- `smGetPortPkey`.  Both memberships of the management key can stand in a table, and the full one
is preferred. -/
def smGetPortPkey (pkey : Nat) (port : PKeyPort) : Nat :=
  if pKeyValue pkey = stlDefaultClientPkey ∧
      port.pPKey.entry stlDefaultFmPkeyIdx = stlDefaultFmPkey then stlDefaultFmPkey
  else (port.pPKey.toList.find? fun e => pKeyValue e = pKeyValue pkey).getD 0

def smCheckPortPKey (pkey : Nat) (port : PKeyPort) : Bool :=
  port.pPKey.toList.any fun e => pKeyValue e = pKeyValue pkey

def smValidatePortPKey (pkey : Nat) (port : PKeyPort) : Bool :=
  port.pPKey.toList.any fun e =>
    pKeyValue e = pKeyValue pkey ∧ (pKeyIsFull pkey ∨ pKeyIsFull e)

def smValidatePortPKey2Way (pkey : Nat) (port1 port2 : PKeyPort) : Bool :=
  if port1.addr = port2.addr then true
  else if pKeyValue pkey = stlDefaultClientPkey then
    if port1.pPKey.entry stlDefaultFmPkeyIdx = stlDefaultFmPkey ∨
        port1.pPKey.entry stlDefaultClientPkeyIdx = stlDefaultFmPkey then
      smValidatePortPKey stlDefaultFmPkey port2
    else smValidatePortPKey stlDefaultClientPkey port2
  else
    match port1.pPKey.toList.find? (fun e => pKeyValue e = pKeyValue pkey) with
    | none => false
    | some e₁ =>
      match port2.pPKey.toList.find? (fun e => pKeyValue e = pKeyValue pkey) with
      | none => false
      | some e₂ => pKeyIsFull e₁ || pKeyIsFull e₂

/-- The end of `smGetCommonPKey`; `defPkey` is the key at `defPkeyEntry`. -/
def defaultCommonPKey (port2 : PKeyPort) : Option Nat → Nat
  | some pkey => if smValidatePortPKey pkey port2 then pKeyValue pkey else invalidPkey
  | none => invalidPkey

/-- The loop of `smGetCommonPKey` over what is left of the first table. -/
def commonPKeyLoop (port2 : PKeyPort) : List Nat → Option Nat → Nat
  | [], defPkey => defaultCommonPKey port2 defPkey
  | pkey :: rest, defPkey =>
    if pKeyValue pkey = invalidPkey then defaultCommonPKey port2 defPkey
    else if pKeyValue pkey = pKeyValue stlDefaultFmPkey then
      commonPKeyLoop port2 rest (if defPkey = none ∨ pKeyIsFull pkey then some pkey else defPkey)
    else if smValidatePortPKey pkey port2 then pKeyValue pkey
    else commonPKeyLoop port2 rest defPkey

def smGetCommonPKey (port1 port2 : PKeyPort) : Nat :=
  commonPKeyLoop port2 port1.pPKey.toList none

end OpaFm.Partition
