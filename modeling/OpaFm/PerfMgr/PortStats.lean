import Mathlib.Logic.Function.Basic

/-!
# Utilization and errors of ports

What a sweep has found that a port has sent, and which errors it has seen.
-/

namespace OpaFm.PerfMgr

/-! ## Data -/

/-- The classes of errors in `ErrorSummary_t`. -/
inductive ErrorClass where
  | integrity
  | congestion
  | smaCongestion
  | bubble
  | security
  | routing
  deriving DecidableEq, Repr

@[ext] structure ErrorSummary where
  stat : ErrorClass → BitVec 32

/-- The fields of `PmPortImage_t` for the statistics. -/
@[ext] structure PortStats where
  sendMBps : BitVec 32
  sendKPps : BitVec 32
  errors : ErrorSummary

/-- The statistics after `PmClearPortImage`. -/
def PortStats.cleared : PortStats := ⟨0#32, 0#32, ⟨fun _ => 0#32⟩⟩

/-- The speed of a link and the width in which it receives. -/
structure LinkRate where
  activeSpeed : BitVec 2
  rxActiveWidth : BitVec 4

inductive IbStaticRate where
  | rate1GB
  | rate14G
  | rate25G
  | rate40G
  | rate56G
  | rate80G
  | rate100G
  deriving DecidableEq, Repr

def pmCalculateRate (speed : BitVec 2) (width : BitVec 4) : IbStaticRate :=
  if speed = 1#2 then
    if width = 1#4 then .rate14G
    else if width = 2#4 then .rate25G
    else if width = 4#4 then .rate40G
    else if width = 8#4 then .rate56G
    else .rate1GB
  else if speed = 2#2 then
    if width = 1#4 then .rate25G
    else if width = 2#4 then .rate56G
    else if width = 4#4 then .rate80G
    else if width = 8#4 then .rate100G
    else .rate1GB
  else .rate1GB

def stlStaticRateToMbps : IbStaticRate → Nat
  | .rate14G => 12890
  | .rate1GB | .rate25G => 25781
  | .rate40G => 37500
  | .rate56G => 51562
  | .rate80G => 77343
  | .rate100G => 103125

/-- `s_StaticRateToMBps`: 64 of 66 bits on the wire are data. -/
def staticRateToMBps (rate : IbStaticRate) : Nat := stlStaticRateToMbps rate * 8 / 66

/-! ## Arithmetic -/

def uint32 (n : Nat) : Nat := n % 0x100000000

/-!
## Buckets

The utilization and each class of errors of a port fall into a bucket.  Ports in the last bucket
of a class are logged, up to a limit for each class.
-/

def pmUtilBuckets : Nat := 10

def pmErrBuckets : Nat := 5

/-- A port image with the fields for its buckets. -/
structure BucketImage where
  stats : PortStats
  rate : LinkRate
  bucketComputed : Bool
  utilBucket : BitVec 4
  errBucket : ErrorClass → BitVec 3

def computeUtilBucket (sendMBps : BitVec 32) (maxMBps : Nat) : Nat :=
  if maxMBps ≠ 0 then
    let utilBucket := uint32 (sendMBps.toNat * pmUtilBuckets) / maxMBps % 0x100
    if pmUtilBuckets ≤ utilBucket then pmUtilBuckets - 1 else utilBucket
  else 0

def computeErrBucket (errCnt errThreshold : BitVec 32) : Nat :=
  if errThreshold = 0#32 then 0
  else
    let errBucket := uint32 (errCnt.toNat * (pmErrBuckets - 1)) / errThreshold.toNat % 0x100
    if pmErrBuckets ≤ errBucket then pmErrBuckets - 1 else errBucket

def BucketImage.maxMBps (image : BucketImage) : Nat :=
  staticRateToMBps (pmCalculateRate image.rate.activeSpeed image.rate.rxActiveWidth)

def computeBuckets (thresholds : ErrorClass → BitVec 32) (image : BucketImage) : BucketImage :=
  if image.bucketComputed then image
  else
    { image with
      utilBucket := BitVec.ofNat 4 (computeUtilBucket image.stats.sendMBps image.maxMBps)
      errBucket := fun c =>
        BitVec.ofNat 3 (computeErrBucket (image.stats.errors.stat c) (thresholds c))
      bucketComputed := true }

/-! ### Ports that are logged -/

structure Exceeded (ι : Type) where
  port : ι
  statistic : ErrorClass
  threshold : BitVec 32
  value : BitVec 32

/-- The images, `thresholdsExceededMsgCount`, and what has been logged. -/
structure BucketRun (ι : Type) where
  image : ι → BucketImage
  count : ErrorClass → Nat
  log : List (Exceeded ι)

def logExceededThreshold {ι : Type} (thresholds : ErrorClass → BitVec 32)
    (limit : ErrorClass → Nat) (q : ι) (s : BucketRun ι) (c : ErrorClass) : BucketRun ι :=
  if pmErrBuckets - 1 ≤ ((s.image q).errBucket c).toNat ∧ s.count c < limit c then
    { s with
      count := Function.update s.count c (s.count c + 1)
      log := s.log ++ [⟨q, c, thresholds c, (s.image q).stats.errors.stat c⟩] }
  else s

def ErrorClass.all : List ErrorClass :=
  [.integrity, .congestion, .smaCongestion, .bubble, .security, .routing]

/-- The loop body of `PmFinalizeAllPortStats` for a port's buckets. -/
def bucketPort {ι : Type} [DecidableEq ι] (thresholds : ErrorClass → BitVec 32)
    (limit : ErrorClass → Nat) (s : BucketRun ι) (q : ι) : BucketRun ι :=
  ErrorClass.all.foldl (logExceededThreshold thresholds limit q)
    { s with image := Function.update s.image q (computeBuckets thresholds (s.image q)) }

/-- The second loop of `PmFinalizeAllPortStats`. -/
def bucketPorts {ι : Type} [DecidableEq ι] (thresholds : ErrorClass → BitVec 32)
    (limit : ErrorClass → Nat) (image : ι → BucketImage) (ports : List ι) : BucketRun ι :=
  ports.foldl (bucketPort thresholds limit) { image := image, count := fun _ => 0, log := [] }

end OpaFm.PerfMgr
