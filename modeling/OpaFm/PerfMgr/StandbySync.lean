import Mathlib.Data.List.FinRange
import OpaFm.PerfMgr.FreezeFrames

/-!
# Standby managers

The performance manager keeps for each standby SM how far its images have been sent.  At every
sweep it takes a new snapshot of the standby SMs, and `checkForChangesInStandbySMs` carries over
what the previous one, the base, knows about them.
-/

namespace OpaFm.PerfMgr

def maxNumberSms : Nat := 20

/-- The state of the synchronization with one SM. -/
structure SyncState where
  /-- 8 bits -/
  numRImagesForSync : Nat
  rImgPmDbsyncNeeded : Bool
  histPmDbsyncNeeded : Bool
  histImgListFile : String
  histImgFileIndex : Nat
  numSweepImagesSent : Nat
  numHistImagesSent : Nat
  sweepNumHistImageSent : Nat
  deriving DecidableEq, Repr

/-- What the table of SMs says about a standby SM. -/
structure StandbySm where
  portGuid : Nat
  smLid : Nat
  priority : Nat
  state : Nat
  syncCapability : Nat
  deriving DecidableEq, Repr

structure DbsyncSmInfo extends StandbySm, SyncState where
  deriving DecidableEq, Repr

structure PmDbsyncSmInfo where
  numStandbySms : Nat
  numStandbySms_le : numStandbySms ≤ maxNumberSms
  changeinStandbySms : Bool
  sweepNumLastSweepImageSent : Nat
  sms : Fin maxNumberSms → DbsyncSmInfo

def SyncState.cleared : SyncState where
  numRImagesForSync := 0
  rImgPmDbsyncNeeded := false
  histPmDbsyncNeeded := false
  histImgListFile := ""
  histImgFileIndex := 0
  numSweepImagesSent := 0
  numHistImagesSent := 0
  sweepNumHistImageSent := 0

def StandbySm.cleared : StandbySm := ⟨0, 0, 0, 0, 0⟩

theorem maxNumberSms_pos : 0 < maxNumberSms := by decide

namespace PmDbsyncSmInfo

/-- The snapshot that `PmDbsyncSmInfo_copy` takes of the standby SMs that it finds. -/
def snapshot (found : List StandbySm) : PmDbsyncSmInfo where
  numStandbySms := min found.length maxNumberSms
  numStandbySms_le := Nat.min_le_right _ _
  changeinStandbySms := false
  sweepNumLastSweepImageSent := 0
  sms i := { found.getD i .cleared with toSyncState := .cleared }

def setSm (s : PmDbsyncSmInfo) (i : Fin maxNumberSms) (sync : SyncState) : PmDbsyncSmInfo :=
  { s with sms := Function.update s.sms i { s.sms i with toSyncState := sync } }

def indices (s : PmDbsyncSmInfo) : List (Fin maxNumberSms) :=
  (List.finRange maxNumberSms).filter (·.val < s.numStandbySms)

def newStandby (c : PmConfig) (numSweeps : BitVec 32) (new : PmDbsyncSmInfo)
    (newIndex : Fin maxNumberSms) : PmDbsyncSmInfo :=
  { new with changeinStandbySms := true }.setSm newIndex
    { (new.sms newIndex).toSyncState with
      rImgPmDbsyncNeeded := true
      numRImagesForSync :=
        (if numSweeps.toNat < c.totalImages then numSweeps.toNat else c.totalImages) % 0x100
      histPmDbsyncNeeded := false
      histImgFileIndex := 0
      numSweepImagesSent := 0
      numHistImagesSent := 0
      sweepNumHistImageSent := 0 }

/-- The branch for an SM that the base has at `baseIndex`; the list file and its index are those
of the base at `newIndex`. -/
def movedStandby (base : PmDbsyncSmInfo) (new : PmDbsyncSmInfo)
    (newIndex baseIndex : Fin maxNumberSms) : PmDbsyncSmInfo :=
  new.setSm newIndex
    { histPmDbsyncNeeded := (base.sms baseIndex).histPmDbsyncNeeded
      rImgPmDbsyncNeeded := (base.sms baseIndex).rImgPmDbsyncNeeded
      numRImagesForSync := (base.sms baseIndex).numRImagesForSync
      histImgListFile := (base.sms newIndex).histImgListFile
      histImgFileIndex := (base.sms newIndex).histImgFileIndex
      numSweepImagesSent := (base.sms baseIndex).numSweepImagesSent
      numHistImagesSent := (base.sms baseIndex).numHistImagesSent
      sweepNumHistImageSent := (base.sms baseIndex).sweepNumHistImageSent }

def baseLoop (c : PmConfig) (numSweeps : BitVec 32) (base : PmDbsyncSmInfo) (smLid : Nat)
    (newIndex : Fin maxNumberSms) : List (Fin maxNumberSms) → PmDbsyncSmInfo → PmDbsyncSmInfo
  | [], new => new
  | baseIndex :: rest, new =>
    if (base.sms baseIndex).smLid = 0 then new
    else if smLid = (base.sms baseIndex).smLid then base.movedStandby new newIndex baseIndex
    else if baseIndex.val = base.numStandbySms - 1 then
      baseLoop c numSweeps base smLid newIndex rest (new.newStandby c numSweeps newIndex)
    else baseLoop c numSweeps base smLid newIndex rest new

def newLoop (c : PmConfig) (numSweeps : BitVec 32) (base : PmDbsyncSmInfo) :
    List (Fin maxNumberSms) → PmDbsyncSmInfo → PmDbsyncSmInfo
  | [], new => new
  | newIndex :: rest, new =>
    if (new.sms newIndex).smLid = 0 then new
    else newLoop c numSweeps base rest
      (baseLoop c numSweeps base (new.sms newIndex).smLid newIndex base.indices new)

/-- `checkForChangesInStandbySMs`: the base afterwards. -/
def checkForChangesInStandbySMs (c : PmConfig) (numSweeps : BitVec 32)
    (base new : PmDbsyncSmInfo) : PmDbsyncSmInfo :=
  if new.numStandbySms = 0 ∧ base.numStandbySms = 0 then base
  else if new.numStandbySms = 1 ∧ base.numStandbySms = 0 then
    new.newStandby c numSweeps ⟨0, maxNumberSms_pos⟩
  else
    newLoop c numSweeps base new.indices
      { new with
        sweepNumLastSweepImageSent := base.sweepNumLastSweepImageSent
        changeinStandbySms := base.changeinStandbySms }

end PmDbsyncSmInfo

end OpaFm.PerfMgr
