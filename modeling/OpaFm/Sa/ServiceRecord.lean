import OpaFm.Sa.InformInfo

/-!
# Service records

Ports register the services they offer for the time of a lease.  The records are kept in a hash
table and leave it by a request or by ageing.
-/

namespace OpaFm.Sa

open OpaFm.Cs

/-! ## Records -/

/-- `VTIMER_ETERNITY`, the time at which a record without end expires. -/
def vtimerEternity : BitVec 64 := 0x0100000000000000

/-- `STL_SERVICE_RECORD` in host order; the name and the data are taken as numbers. -/
structure ServiceRecord where
  serviceId : BitVec 64
  serviceLid : BitVec 32
  servicePKey : BitVec 16
  serviceGid : BitVec 128
  serviceLease : BitVec 32
  serviceKey : BitVec 128
  serviceName : BitVec 512
  serviceData : BitVec 512
  deriving DecidableEq

structure ServiceRecKey where
  serviceId : BitVec 64
  serviceGid : BitVec 128
  servicepKey : BitVec 16
  deriving DecidableEq

def ServiceRecord.key (r : ServiceRecord) : ServiceRecKey :=
  ⟨r.serviceId, r.serviceGid, r.servicePKey⟩

structure OpaServiceRecord where
  serviceRecord : ServiceRecord
  expireTime : BitVec 64
  pkeyDefined : Bool

def saServiceRecHashFromKey (k : ServiceRecKey) : BitVec 64 :=
  k.serviceId ||| ((ntoh64 (k.serviceGid.extractLsb' 0 64) &&& 0x00000000FFFFFFFF) <<< 32)

def saServiceRecCompare (k k' : ServiceRecKey) : Bool :=
  k.serviceGid = k'.serviceGid ∧ k.serviceId = k'.serviceId ∧ k.servicepKey = k'.servicepKey

def serviceFns : HashFns ServiceRecKey where
  hashfn := saServiceRecHashFromKey
  eqfn := saServiceRecCompare

abbrev ServiceTable := CsHashtable ServiceRecKey OpaServiceRecord

def saServiceRecInit (mem : Bool) : Option ServiceTable :=
  CsHashtable.csCreateHashtable 16 mem

/-! ## Adding -/

/-- Which allocations succeed, whether the lock is had, and whether the ports of the requester and
of the service are up and have a P_Key. -/
structure AddEnv where
  keyMem : Bool
  recordMem : Bool
  tableMem : Bool
  entryMem : Bool
  lock : Bool
  reqPortHas : BitVec 16 → BitVec 16 → Bool
  servicePortHas : BitVec 64 → BitVec 16 → Bool

def pkeyValue (key : BitVec 16) : BitVec 16 := key &&& 0x7FFF

def ServiceRecord.protect (r : ServiceRecord) : ServiceRecord :=
  { r with serviceName := (r.serviceName.setWidth 504).setWidth 512 }

/-- The end of a lease of `timer` seconds, in microseconds. -/
def leaseExpireTime (now : BitVec 64) (timer : BitVec 32) : BitVec 64 :=
  if timer ≠ 0xffffffff then now + 1000000 * timer.setWidth 64 else vtimerEternity

def pkeyAllowed (env : AddEnv) (slid : BitVec 16) (r : ServiceRecord) : Bool :=
  pkeyValue r.servicePKey ≠ 0 && env.reqPortHas slid r.servicePKey &&
    env.servicePortHas (r.serviceGid.extractLsb' 0 64) r.servicePKey

/-- `sa_ServiceRecord_DoAdd`, with its result and the number of records. -/
def saServiceRecordDoAdd (env : AddEnv) (t : ServiceTable) (now : BitVec 64) (slid : BitVec 16)
    (r : ServiceRecord) (havepkey : Bool) : VStatus × Nat × ServiceTable :=
  let r := r.protect
  let osr : OpaServiceRecord := ⟨r, leaseExpireTime now r.serviceLease, havepkey⟩
  if !env.keyMem then (.noMem, 0, t)
  else if havepkey && !pkeyAllowed env slid r then (.bad, 0, t)
  else if !env.lock then (.noMem, 0, t)
  else
    match t.csHashtableSearch serviceFns r.key with
    | none =>
      if !env.recordMem then (.noMem, 0, t)
      else
        let added := t.csHashtableInsert serviceFns r.key osr env.tableMem env.entryMem
        if added.2 then (.ok, 1, added.1) else (.bad, 0, added.1)
    | some _ => (.ok, 1, (t.csHashtableChange serviceFns r.key osr).1)

/-! ## Deleting -/

def saServiceRecordDoDelete (lock : Bool) (t : ServiceTable) (k : ServiceRecKey) :
    VStatus × Nat × ServiceTable :=
  if !lock then (.bad, 0, t)
  else
    let removed := t.csHashtableRemove serviceFns k
    (.ok, if removed.2.isSome then 1 else 0, removed.1)

/-! ## Ageing -/

/-- The loop of `sa_ServiceRecord_Age` from the entry at position `n`, with the number of records
removed.  An iterator that removes its entry stands at the next one. -/
def ageFrom (now : BitVec 64) : Nat → ServiceTable → Nat → Nat → ServiceTable × Nat
  | 0, t, _, records => (t, records)
  | fuel + 1, t, n, records =>
    match (t.iteratorAt n t.listHead).bind t.v with
    | none => (t, records)
    | some osr =>
      if osr.expireTime < now then
        ageFrom now fuel (t.csHashtableIteratorRemove serviceFns n) n (records + 1)
      else ageFrom now fuel t (n + 1) records

def saServiceRecordAge (lock : Bool) (t : ServiceTable) (now : BitVec 64) :
    VStatus × Nat × ServiceTable :=
  if !lock then (.bad, 0, t)
  else if t.entrycount > 0 then
    let aged := ageFrom now (t.allocated + 1) t 0 0
    (.ok, aged.2, aged.1)
  else (.ok, 0, t)

/-! ## Queries -/

/-- What a query meets: the time, whether it is trusted, what the port of the requester has for a
P_Key, and how many records there is room for. -/
structure QueryEnv where
  now : BitVec 64
  trusted : Bool
  reqPortHas : BitVec 16 → Bool
  room : Nat
  lock : Bool

def reportedLease (expireTime now : BitVec 64) : BitVec 32 :=
  if expireTime ≠ vtimerEternity then ((expireTime - now) / 1000000).setWidth 32 else 0xffffffff

/-- A record as it is reported.  A request that is not trusted does not get the service key. -/
def reportedRecord (env : QueryEnv) (osr : OpaServiceRecord) : ServiceRecord :=
  { osr.serviceRecord with
    serviceLease := reportedLease osr.expireTime env.now
    serviceKey := if env.trusted then osr.serviceRecord.serviceKey else 0 }

def filtersRecord (env : QueryEnv) (k : ServiceRecKey) (osr : OpaServiceRecord) : Bool :=
  !env.trusted && osr.pkeyDefined && !env.reqPortHas k.servicepKey

/-- The loop over the table, with the records that are put in the reply and whether it ran out of
room. -/
def tableRecords (env : QueryEnv) (passes : ServiceRecord → Bool) :
    Nat → List (ServiceRecKey × OpaServiceRecord) → List (ServiceRecKey × ServiceRecord) × Bool
  | _, [] => ([], false)
  | room, x :: rest =>
    if !passes x.2.serviceRecord then tableRecords env passes room rest
    else
      match room with
      | 0 => ([], true)
      | room + 1 =>
        if filtersRecord env x.1 x.2 then tableRecords env passes (room + 1) rest
        else
          let later := tableRecords env passes room rest
          ((x.1, reportedRecord env x.2) :: later.1, later.2)

def madStatusSaNoResources : Nat := 0x100

def queryTable (env : QueryEnv) (t : ServiceTable) (passes : ServiceRecord → Bool) :
    List (ServiceRecKey × ServiceRecord) × Option Nat :=
  if !env.lock then ([], none)
  else if t.entrycount > 0 then
    let found := tableRecords env passes env.room t.entries
    (found.1, if found.2 then some madStatusSaNoResources else none)
  else ([], none)

/-- `sa_ServiceRecord_GetTable`; `template` is what `sa_template_test_noinc` lets pass. -/
def saServiceRecordGetTable (env : QueryEnv) (t : ServiceTable)
    (template : ServiceRecord → Bool) : List (ServiceRecKey × ServiceRecord) × Option Nat :=
  queryTable env t template

def srComponentmaskId : BitVec 64 := 0x01
def srComponentmaskGid : BitVec 64 := 0x02
def srComponentmaskPkey : BitVec 64 := 0x04
def srComponentmaskLease : BitVec 64 := 0x10
def srComponentmaskKey : BitVec 64 := 0x20
def srComponentmaskName : BitVec 64 := 0x40

def ibQueryPasses (mask : BitVec 64) (query answer : ServiceRecord) : Bool :=
  if mask &&& srComponentmaskId ≠ 0 ∧ query.serviceId ≠ answer.serviceId then false
  else if mask &&& srComponentmaskPkey ≠ 0 ∧ query.servicePKey ≠ answer.servicePKey then false
  else if mask &&& srComponentmaskGid ≠ 0 ∧ query.serviceGid ≠ answer.serviceGid then false
  else if mask &&& srComponentmaskLease ≠ 0 ∧ query.serviceLease ≠ answer.serviceLease then false
  else if mask &&& srComponentmaskKey ≠ 0 ∧ query.serviceKey ≠ answer.serviceKey then false
  else if mask &&& srComponentmaskName ≠ 0 ∧ query.serviceName ≠ answer.serviceName then false
  else true

/-- `sa_IbServiceRecord_GetTable`.  An IB record has no field for the LID. -/
def saIbServiceRecordGetTable (env : QueryEnv) (t : ServiceTable) (mask : BitVec 64)
    (query : ServiceRecord) : List (ServiceRecKey × ServiceRecord) × Option Nat :=
  let found := queryTable env t (ibQueryPasses mask query)
  (found.1.map fun x => (x.1, { x.2 with serviceLid := 0 }), found.2)

end OpaFm.Sa
