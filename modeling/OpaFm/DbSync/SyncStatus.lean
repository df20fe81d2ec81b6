import Mathlib.Logic.Function.Basic

/-!
# Synchronization status of the standby SMs

The master keeps, for every SM in its table and every type of data, how the last synchronization
went.  `sm_dbsync_upSmDbsyncStat` records an outcome, and `sm_dbsync_fullSyncCheck` decides from
the records whether an SM is due for a full synchronization.
-/

namespace OpaFm.DbSync

inductive DBSyncStat where
  | uninitialized
  | inprogress
  | synchronized
  | failure
  deriving DecidableEq, Repr

inductive DBSyncCap where
  | unknown
  | asking
  | notSupported
  | supported
  deriving DecidableEq, Repr

inductive DBSyncDatTyp where
  | none
  | all
  | inform
  | group
  | service
  | mcroot
  | file
  | datelineGuid
  deriving DecidableEq, Repr

inductive SyncKind where
  | full
  | inform
  | group
  | service
  | mcroot
  | datelineGuid
  deriving DecidableEq, Repr

def DBSyncDatTyp.kind : DBSyncDatTyp → Option SyncKind
  | .none => Option.none
  | .all => some .full
  | .inform => some .inform
  | .group => some .group
  | .service => some .service
  | .mcroot => some .mcroot
  | .file => Option.none
  | .datelineGuid => some .datelineGuid

/-- The four fields of `SMDBSync_t` for one type of data. -/
structure SyncFields where
  syncStatus : DBSyncStat := .uninitialized
  syncFailCount : Nat := 0
  timeSyncFail : Nat := 0
  timeLastSync : Nat := 0
  deriving DecidableEq, Repr

structure SmDbSync where
  full : SyncFields := {}
  inform : SyncFields := {}
  group : SyncFields := {}
  service : SyncFields := {}
  mcroot : SyncFields := {}
  datelineGuid : SyncFields := {}
  deriving DecidableEq, Repr

def SmDbSync.fields (d : SmDbSync) : SyncKind → SyncFields
  | .full => d.full
  | .inform => d.inform
  | .group => d.group
  | .service => d.service
  | .mcroot => d.mcroot
  | .datelineGuid => d.datelineGuid

structure SmRec where
  portguid : Nat
  lid : Nat := 0
  syncCapability : DBSyncCap := .unknown
  dbsync : SmDbSync := {}
  isEmbedded : Nat := 0
  deriving DecidableEq, Repr

/-- `SMSyncReq_t`, for a full synchronization of all data. -/
structure SMSyncReq where
  portguid : Nat
  standbyLid : Nat
  isEmbedded : Nat
  deriving DecidableEq, Repr

/-- What a call finds around it: the exit flag, whether the lock is granted and a request finds
room in the queue, `time(NULL)`, and the configured interval. -/
structure CallEnv where
  dbsyncMainExit : Bool := false
  lockOk : Bool := true
  queueOk : Bool := true
  time : Int
  dbSyncInterval : Nat

/-- The SM table and the queue of the synchronization thread. -/
structure SyncState where
  smMap : Nat → Option SmRec
  queue : List SMSyncReq := []

def SyncState.setRec (st : SyncState) (recKey : Nat) (r : SmRec) : SyncState :=
  { st with smMap := Function.update st.smMap recKey (some r) }

inductive SyncReturn where
  | ok
  | lockFailed
  | bad
  | illparm
  | notFound
  deriving DecidableEq, Repr

/-! ## Recording an outcome -/

def time32 (t : Int) : Nat := (t % 0x100000000).toNat

def inc32 (n : Nat) : Nat := (n + 1) % 0x100000000

def SyncFields.counted (f : SyncFields) (time : Int) (syncStatus : DBSyncStat) : SyncFields :=
  match syncStatus with
  | .synchronized => { f with syncFailCount := 0, timeSyncFail := 0, timeLastSync := time32 time }
  | .failure => { f with syncFailCount := inc32 f.syncFailCount, timeSyncFail := time32 time }
  | _ => f

def SyncFields.reported (f : SyncFields) (time : Int) (syncStatus : DBSyncStat) : SyncFields :=
  { f.counted time syncStatus with syncStatus := syncStatus }

/-- The switch of `sm_dbsync_upSmDbsyncStat`.  The branch of the dateline GUID stores the status
in the field of the service records. -/
def SmDbSync.reported (d : SmDbSync) (time : Int) (syncStatus : DBSyncStat) :
    SyncKind → SmDbSync
  | .full => { d with full := d.full.reported time syncStatus }
  | .inform => { d with inform := d.inform.reported time syncStatus }
  | .group => { d with group := d.group.reported time syncStatus }
  | .service => { d with service := d.service.reported time syncStatus }
  | .mcroot => { d with mcroot := d.mcroot.reported time syncStatus }
  | .datelineGuid =>
    { d with
      service := { d.service with syncStatus := syncStatus }
      datelineGuid := d.datelineGuid.counted time syncStatus }

def smDbsyncUpSmDbsyncStat (env : CallEnv) (st : SyncState) (recKey : Nat) (type : DBSyncDatTyp)
    (syncStatus : DBSyncStat) : SyncState × SyncReturn :=
  if env.dbsyncMainExit then (st, .ok)
  else if !env.lockOk then (st, .lockFailed)
  else
    match st.smMap recKey with
    | none => (st, .bad)
    | some r =>
      match type.kind with
      | none => (st, .illparm)
      | some k =>
        (st.setRec recKey { r with dbsync := r.dbsync.reported env.time syncStatus k }, .ok)

/-! ## Checking for a full synchronization -/

def dbsyncMaxFailSyncAttempts : Nat := 3
def dbsyncTimeBetweenSyncFailures : Nat := 60

def SmDbSync.collectiveFail (d : SmDbSync) : Bool :=
  d.group.syncStatus = .failure || d.inform.syncStatus = .failure ||
    d.service.syncStatus = .failure

/-- `timeLastFail`, with the time of the last failed full synchronization when it is asked for. -/
def SmDbSync.timeLastFail (d : SmDbSync) : Nat :=
  let collective :=
    if d.collectiveFail then
      max (max d.group.timeSyncFail d.inform.timeSyncFail) d.service.timeSyncFail
    else 0
  if d.full.syncStatus = .failure then max collective d.full.timeSyncFail else collective

/-- An SM in failure is tried again soon, and after too many attempts on the regular interval. -/
def retryDue (env : CallEnv) (d : SmDbSync) : Bool :=
  (d.full.syncFailCount < dbsyncMaxFailSyncAttempts &&
      decide (env.time - d.timeLastFail > dbsyncTimeBetweenSyncFailures)) ||
    (d.full.syncFailCount ≥ dbsyncMaxFailSyncAttempts &&
      decide (env.time - d.timeLastFail > env.dbSyncInterval))

/-- The branches of `sm_dbsync_fullSyncCheck` that request a full synchronization. -/
def fullSyncDue (env : CallEnv) (r : SmRec) : Bool :=
  let d := r.dbsync
  if !d.collectiveFail && r.syncCapability = .supported &&
      d.full.syncStatus = .uninitialized then true
  else if !d.collectiveFail && d.full.syncStatus = .synchronized then
    decide (env.time - d.full.timeLastSync > env.dbSyncInterval)
  else if (d.collectiveFail && d.full.syncStatus ≠ .inprogress) ||
      d.full.syncStatus = .failure then
    retryDue env d
  else false

def smDbsyncQueueMsg (env : CallEnv) (st : SyncState) (req : SMSyncReq) : SyncState :=
  if env.dbSyncInterval = 0 || env.dbsyncMainExit then st
  else if env.queueOk then { st with queue := st.queue ++ [req] }
  else st

def requestFullSync (env : CallEnv) (st : SyncState) (recKey : Nat) (r : SmRec) : SyncState :=
  smDbsyncQueueMsg env
    (st.setRec recKey
      { r with dbsync.full.syncStatus := .inprogress })
    { portguid := r.portguid, standbyLid := r.lid, isEmbedded := r.isEmbedded }

def smDbsyncFullSyncCheck (env : CallEnv) (st : SyncState) (recKey : Nat) :
    SyncState × SyncReturn :=
  if env.dbSyncInterval = 0 || env.dbsyncMainExit then (st, .ok)
  else if !env.lockOk then (st, .ok)
  else
    match st.smMap recKey with
    | none => (st, .notFound)
    | some r =>
      if env.time < 0 then (st, .ok)
      else if fullSyncDue env r then (requestFullSync env st recKey r, .ok)
      else (st, .ok)

/-! ## Calls -/

inductive SyncOp where
  | upStat (env : CallEnv) (recKey : Nat) (type : DBSyncDatTyp) (syncStatus : DBSyncStat)
  | fullCheck (env : CallEnv) (recKey : Nat)

def syncStep (st : SyncState) : SyncOp → SyncState
  | .upStat env recKey type syncStatus =>
    (smDbsyncUpSmDbsyncStat env st recKey type syncStatus).1
  | .fullCheck env recKey => (smDbsyncFullSyncCheck env st recKey).1

end OpaFm.DbSync
