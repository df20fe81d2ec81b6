import OpaFm.Lib.Meter
import Mathlib.Data.List.FinRange
import Mathlib.Logic.Function.Basic

/-!
# Running totals

Each sweep reads the counters of a port into one of its images, clears those that have grown past
their thresholds, and adds what they have grown by to the running totals of the port.
-/

namespace OpaFm.PerfMgr

/-! ## Counters -/

/-- The counters of `PmCompositePortCounters_t`. -/
inductive PortCounter where
  | portXmitData | portRcvData | portXmitPkts | portRcvPkts
  | portMulticastXmitPkts | portMulticastRcvPkts
  | portXmitWait | swPortCongestion | portRcvFECN | portRcvBECN
  | portXmitTimeCong | portXmitWastedBW | portXmitWaitData
  | portRcvBubble | portMarkFECN
  | portRcvConstraintErrors | portRcvSwitchRelayErrors
  | portXmitDiscards | portXmitConstraintErrors | portRcvRemotePhysicalErrors
  | localLinkIntegrityErrors | portRcvErrors | excessiveBufferOverruns | fmConfigErrors
  | linkErrorRecovery | linkDowned | uncorrectableErrors
  deriving DecidableEq

/-- The counters of `PmCompositeVLCounters_t`. -/
inductive VLCounter where
  | portVLXmitData | portVLRcvData | portVLXmitPkts | portVLRcvPkts
  | portVLXmitWait | swPortVLCongestion | portVLRcvFECN | portVLRcvBECN
  | portVLXmitTimeCong | portVLXmitWastedBW | portVLXmitWaitData
  | portVLRcvBubble | portVLMarkFECN | portVLXmitDiscards
  deriving DecidableEq

abbrev maxPmVls : Nat := 16

inductive Counter where
  | port (c : PortCounter)
  | vl (i : Fin maxPmVls) (c : VLCounter)
  deriving DecidableEq

def PortCounter.all : List PortCounter :=
  [portXmitData, portRcvData, portXmitPkts, portRcvPkts, portMulticastXmitPkts,
    portMulticastRcvPkts, portXmitWait, swPortCongestion, portRcvFECN, portRcvBECN,
    portXmitTimeCong, portXmitWastedBW, portXmitWaitData, portRcvBubble, portMarkFECN,
    portRcvConstraintErrors, portRcvSwitchRelayErrors, portXmitDiscards,
    portXmitConstraintErrors, portRcvRemotePhysicalErrors, localLinkIntegrityErrors,
    portRcvErrors, excessiveBufferOverruns, fmConfigErrors, linkErrorRecovery, linkDowned,
    uncorrectableErrors]

def VLCounter.all : List VLCounter :=
  [portVLXmitData, portVLRcvData, portVLXmitPkts, portVLRcvPkts, portVLXmitWait,
    swPortVLCongestion, portVLRcvFECN, portVLRcvBECN, portVLXmitTimeCong, portVLXmitWastedBW,
    portVLXmitWaitData, portVLRcvBubble, portVLMarkFECN, portVLXmitDiscards]

def Counter.all : List Counter :=
  PortCounter.all.map port ++ (List.finRange maxPmVls).flatMap fun i => VLCounter.all.map (vl i)

theorem PortCounter.mem_all (c : PortCounter) : c ∈ all := by
  cases c <;> decide

def ibUint64Max : Nat := 0xffffffffffffffff

def PortCounter.max : PortCounter → Nat
  | linkErrorRecovery | linkDowned => 0xffffffff
  | uncorrectableErrors => 0xff
  | _ => ibUint64Max

/-- The counters of `STL_ERROR_PORT_COUNTERS_RSP`. -/
def PortCounter.isError : PortCounter → Bool
  | portRcvConstraintErrors | portRcvSwitchRelayErrors | portXmitDiscards
  | portXmitConstraintErrors | portRcvRemotePhysicalErrors | localLinkIntegrityErrors
  | portRcvErrors | excessiveBufferOverruns | fmConfigErrors | linkErrorRecovery | linkDowned
  | uncorrectableErrors => true
  | _ => false

/-- The counter of the port whose bit of `CounterSelectMask_t` also selects a counter of VLs. -/
def VLCounter.portCounter : VLCounter → PortCounter
  | portVLXmitData => .portXmitData
  | portVLRcvData => .portRcvData
  | portVLXmitPkts => .portXmitPkts
  | portVLRcvPkts => .portRcvPkts
  | portVLXmitWait => .portXmitWait
  | swPortVLCongestion => .swPortCongestion
  | portVLRcvFECN => .portRcvFECN
  | portVLRcvBECN => .portRcvBECN
  | portVLXmitTimeCong => .portXmitTimeCong
  | portVLXmitWastedBW => .portXmitWastedBW
  | portVLXmitWaitData => .portXmitWaitData
  | portVLRcvBubble => .portRcvBubble
  | portVLMarkFECN => .portMarkFECN
  | portVLXmitDiscards => .portXmitDiscards

namespace Counter

/-- The bit of `CounterSelectMask_t` that selects a counter. -/
def select : Counter → PortCounter
  | port c => c
  | vl _ c => c.portCounter

def isError (k : Counter) : Bool := k.select.isError

def max : Counter → Nat
  | port c => c.max
  | vl _ _ => ibUint64Max

end Counter

abbrev CounterSelectMask := PortCounter → Bool

def CounterSelectMask.nonzero (mask : CounterSelectMask) : Bool := PortCounter.all.any mask

/-- `PmCompositePortCounters_t` with the `PmCompositeVLCounters_t` of each VL. -/
structure CounterValues where
  val : Counter → Nat
  val_le : ∀ k, val k ≤ k.max

namespace CounterValues

def zero : CounterValues := ⟨fun _ => 0, fun k => k.max.zero_le⟩

/-- The counters of `x` where `p` holds, those of `y` elsewhere. -/
def select (p : Counter → Bool) (x y : CounterValues) : CounterValues where
  val k := if p k then x.val k else y.val k
  val_le k := by
    split
    · exact x.val_le k
    · exact y.val_le k

end CounterValues

structure LinkQuality where
  linkQualityIndicator : BitVec 3 := 0#3
  numLanesDown : BitVec 4 := 0#4

/-- What the configuration says about the counters of a port: the counters that are to be cleared,
and where. -/
structure CounterConfig where
  processVlCounters : Bool
  clearCounterSelect : CounterSelectMask
  clearThresholds : PortCounter → Nat

namespace CounterConfig

variable (cfg : CounterConfig)

/-- The counters of VLs are left out unless `process_vl_counters` is set. -/
def processed : Counter → Bool
  | .port _ => true
  | .vl _ _ => cfg.processVlCounters

def tracked (vlSelectMask : BitVec 32) : Counter → Bool
  | .port _ => true
  | .vl i _ => cfg.processVlCounters && vlSelectMask.getLsbD i

end CounterConfig

/-- The number of VLs that `vlSelectMask` has. -/
def numVLs (vlSelectMask : BitVec 32) : Nat :=
  ((List.range maxPmVls).filter vlSelectMask.getLsbD).length

/-- The fields of `PmPortImage_t` for the counters. -/
structure PmPortImage where
  vlSelectMask : BitVec 32 := 0#32
  stlCounters : CounterValues := .zero
  lq : LinkQuality := {}
  clearSelectMask : CounterSelectMask := fun _ => false
  unexpectedClear : Bool := false
  gotDataCntrs : Bool := false
  gotErrorCntrs : Bool := false
  clearSome : Bool := false
  clearAll : Bool := false

/-- The fields of `PmPort_t` for the counters; `total` is `StlPortCountersTotal` with
`StlVLPortCountersTotal`. -/
structure PmPort (n : Nat) where
  total : CounterValues := .zero
  totalLq : LinkQuality := {}
  image : Fin n → PmPortImage := fun _ => {}

/-! ## Reading and clearing -/

def pmClearPortImage (image : PmPortImage) : PmPortImage :=
  { image with
    unexpectedClear := false
    gotDataCntrs := false
    gotErrorCntrs := false
    clearAll := false
    clearSome := false }

def CounterConfig.reads (cfg : CounterConfig) (vlSelectMask : BitVec 32) (gotErrorCntrs : Bool)
    (k : Counter) : Bool :=
  cfg.tracked vlSelectMask k && (!k.isError || gotErrorCntrs)

/-- `PmCopyDataPortCounters`, and with the error counters `PmCopyErrorPortCounters` or
`PmCopyPortStatus`. -/
def pmCopyPortCounters (cfg : CounterConfig) (hardware : CounterValues) (lq : LinkQuality)
    (gotErrorCntrs : Bool) (image : PmPortImage) : PmPortImage :=
  { image with
    stlCounters := .select (cfg.reads image.vlSelectMask gotErrorCntrs) hardware image.stlCounters
    lq := lq
    gotDataCntrs := true
    gotErrorCntrs := gotErrorCntrs }

def exceedsThreshold (cfg : CounterConfig) (image : PmPortImage) : CounterSelectMask := fun c =>
  if cfg.clearThresholds c < image.stlCounters.val (.port c) then cfg.clearCounterSelect c
  else false

/-- `PmTabulatePort`, with the counters to clear in the image. -/
def pmTabulatePort (cfg : CounterConfig) (image : PmPortImage) : PmPortImage :=
  if CounterSelectMask.nonzero cfg.clearCounterSelect then
    let select := exceedsThreshold cfg image
    { image with
      clearSome := CounterSelectMask.nonzero select
      clearAll := PortCounter.all.all fun c => select c == cfg.clearCounterSelect c
      clearSelectMask := select }
  else { image with clearSelectMask := fun _ => false }

/-! ## Totals -/

/-- `GET_DELTA_PORTCOUNTERS` and `GET_DELTA_VLCOUNTERS`. -/
def getDelta (cur prev : Nat) (cleared : Bool) : Nat :=
  if cur < prev ∨ cleared = true then cur else cur - prev

theorem getDelta_le (cur prev : Nat) (cleared : Bool) : getDelta cur prev cleared ≤ cur := by
  unfold getDelta
  split
  · exact Nat.le_refl cur
  · exact Nat.sub_le cur prev

/-- The counters whose change `PmFinalizePortStats` computes. -/
def hasDelta (cfg : CounterConfig) (image : PmPortImage) (k : Counter) : Bool :=
  image.gotDataCntrs && cfg.processed k && (!k.isError || image.gotErrorCntrs)

/-- `DeltaPortCounters` and `DeltaVLCounters`. -/
def deltaCounters (cfg : CounterConfig) (image prev : PmPortImage) : CounterValues where
  val k :=
    if hasDelta cfg image k then
      getDelta (image.stlCounters.val k) (prev.stlCounters.val k) (prev.clearSelectMask k.select)
    else 0
  val_le k := by
    split
    · exact (getDelta_le _ _ _).trans (image.stlCounters.val_le k)
    · exact k.max.zero_le

def unexpectedClears (cfg : CounterConfig) (image prev : PmPortImage) : CounterSelectMask :=
  fun c => !prev.clearSelectMask c && Counter.all.any fun k =>
    k.select = c && hasDelta cfg image k && image.stlCounters.val k < prev.stlCounters.val k

def linkDownIgnoreMask : CounterSelectMask
  | .portRcvErrors | .linkErrorRecovery | .localLinkIntegrityErrors
  | .excessiveBufferOverruns => true
  | _ => false

/-- An unexpected clear is reported; a link that went down clears some counters itself. -/
def reportsClear (delta : CounterValues) (clears : CounterSelectMask) : Bool :=
  if delta.val (.port .linkDowned) ≠ 0 then
    CounterSelectMask.nonzero fun c => clears c && !linkDownIgnoreMask c
  else CounterSelectMask.nonzero clears

/-- The error counters of the previous image, where this sweep has not asked for them. -/
def copyErrorCounters (cfg : CounterConfig) (image prev : PmPortImage) : CounterValues :=
  .select (fun k => image.gotDataCntrs && !image.gotErrorCntrs && cfg.processed k && k.isError)
    prev.stlCounters image.stlCounters

def maxPortVLXmitWait (delta : Counter → Nat) : Nat :=
  (List.finRange maxPmVls).foldl (fun m i => Nat.max m (delta (.vl i .portVLXmitWait))) 0

/-- The change of `PortXmitWait`, weighted by those of the VLs, as a `uint64`. -/
def weightedXmitWait (maxWait numVLs wait : Nat) : Nat :=
  maxWait * maxWait * numVLs % (ibUint64Max + 1) / wait

theorem weightedXmitWait_le (maxWait numVLs wait : Nat) :
    weightedXmitWait maxWait numVLs wait ≤ ibUint64Max := by
  have hmod := Nat.mod_lt (maxWait * maxWait * numVLs) (Nat.succ_pos ibUint64Max)
  have hdiv := Nat.div_le_self (maxWait * maxWait * numVLs % (ibUint64Max + 1)) wait
  exact hdiv.trans (Nat.le_of_lt_succ hmod)

/-- `DeltaPortCounters` as the formula for the congestion leaves it. -/
def weightXmitWait (cfg : CounterConfig) (vlSelectMask : BitVec 32) (delta : CounterValues) :
    CounterValues :=
  let wait := delta.val (.port .portXmitWait)
  if cfg.processVlCounters = true ∧ wait ≠ 0 then
    { val := Function.update delta.val (.port .portXmitWait)
        (weightedXmitWait (maxPortVLXmitWait delta.val) (numVLs vlSelectMask) wait)
      val_le := fun k => by
        by_cases hk : k = .port .portXmitWait
        · subst hk
          rw [Function.update_self]
          exact weightedXmitWait_le _ _ _
        · rw [Function.update_of_ne hk]
          exact delta.val_le k }
  else delta

def incRunning (max running delta : Nat) : Nat :=
  if max - delta ≤ running then max else running + delta

theorem incRunning_eq {max delta : Nat} (running : Nat) (hdelta : delta ≤ max) :
    incRunning max running delta = min (running + delta) max := by
  unfold incRunning
  split <;> omega

def addRunning (cfg : CounterConfig) (gotErrorCntrs : Bool) (total delta : CounterValues) :
    CounterValues where
  val k :=
    if cfg.processed k && (!k.isError || gotErrorCntrs) then
      incRunning k.max (total.val k) (delta.val k)
    else total.val k
  val_le k := by
    split
    · rw [incRunning_eq _ (delta.val_le k)]
      exact min_le_right _ _
    · exact total.val_le k

/-- `PmFinalizePortStats`, for the counters. -/
def pmFinalizePortStats {n : Nat} (cfg : CounterConfig) (lastSweepIndex : Option (Fin n))
    (index : Fin n) (port : PmPort n) : PmPort n :=
  let image := port.image index
  match lastSweepIndex with
  | none =>
    { port with
      totalLq := { port.totalLq with linkQualityIndicator := image.lq.linkQualityIndicator } }
  | some imageIndexPrevious =>
    let prev := port.image imageIndexPrevious
    let delta := deltaCounters cfg image prev
    let clears := unexpectedClears cfg image prev
    let images := Function.update port.image index
      { image with
        stlCounters := copyErrorCounters cfg image prev
        unexpectedClear := image.unexpectedClear || reportsClear delta clears }
    { total := addRunning cfg image.gotErrorCntrs port.total
        (weightXmitWait cfg image.vlSelectMask delta)
      totalLq := image.lq
      image := Function.update images imageIndexPrevious
        { images imageIndexPrevious with
          clearSelectMask := fun c => prev.clearSelectMask c || clears c } }

/-!
## Sweeps of a port

The counters of the hardware grow between the sweeps, and only the manager clears them.
-/

/-- What one sweep finds: the counters as they stand, the VLs in use, and whether it asks for the
error counters.  `next` is the image that the manager takes next. -/
structure Sweep (n : Nat) where
  vlSelectMask : BitVec 32
  counters : CounterValues
  lq : LinkQuality
  gotErrorCntrs : Bool
  next : Fin n

/-- A port with its counters in the hardware, and the fields of `Pm_t` for the sweeps; `none` is
`PM_IMAGE_INDEX_INVALID`.  The meters count from the first sweep of the port that the manager
keeps; `fresh` until there has been a sweep. -/
structure PortSweeps (n : Nat) where
  port : PmPort n
  meter : Counter → Meter
  fresh : Bool
  lastSweepIndex : Option (Fin n)
  sweepIndex : Fin n
  firstSweepAsMaster : Bool

namespace PortSweeps

variable {n : Nat} (cfg : CounterConfig) (s : PortSweeps n) (w : Sweep n)

def tabulated : PmPortImage :=
  pmTabulatePort cfg (pmCopyPortCounters cfg w.counters w.lq w.gotErrorCntrs
    (pmClearPortImage { s.port.image s.sweepIndex with vlSelectMask := w.vlSelectMask }))

def grownMeter (k : Counter) : Meter :=
  let m := (s.meter k).grow (w.counters.val k)
  if s.lastSweepIndex = none ∨ s.fresh = true then m.restart else m

def readMeter (k : Counter) : Meter :=
  if cfg.reads w.vlSelectMask w.gotErrorCntrs k then (s.grownMeter w k).read else s.grownMeter w k

/-- One turn of `PmSweep`.  The first image of a master is not kept. -/
def sweep : PortSweeps n where
  port := pmFinalizePortStats cfg s.lastSweepIndex s.sweepIndex
    { s.port with image := Function.update s.port.image s.sweepIndex (s.tabulated cfg w) }
  meter k :=
    if (s.tabulated cfg w).clearSelectMask k.select then (s.readMeter cfg w k).clear
    else s.readMeter cfg w k
  fresh := false
  lastSweepIndex :=
    if s.firstSweepAsMaster && s.lastSweepIndex.isNone then none else some s.sweepIndex
  sweepIndex := w.next
  firstSweepAsMaster := false

def init (hardware : CounterValues) (lastSweepIndex : Option (Fin n)) (index : Fin n)
    (firstSweepAsMaster : Bool) : PortSweeps n where
  port := {}
  meter k := { value := hardware.val k }
  fresh := true
  lastSweepIndex := lastSweepIndex
  sweepIndex := index
  firstSweepAsMaster := firstSweepAsMaster

/-- The counters have only grown, those of the same VLs are read, and the next image is another
one. -/
structure CanSweep (mask : BitVec 32) : Prop where
  grows : ∀ k, (s.meter k).value ≤ w.counters.val k
  vls : w.vlSelectMask = mask
  next_ne : w.next ≠ s.sweepIndex

/-- The states that sweeps lead to where each sweep meets `P`.  The port is there from the start of
the manager, or appears between two sweeps. -/
inductive Run (mask : BitVec 32) (P : PortSweeps n → Sweep n → Prop) : PortSweeps n → Prop
  | init (hardware : CounterValues) (lastSweepIndex : Option (Fin n)) (index : Fin n)
      (firstSweepAsMaster : Bool) (hne : lastSweepIndex ≠ some index) :
      Run mask P (init hardware lastSweepIndex index firstSweepAsMaster)
  | sweep {s : PortSweeps n} {w : Sweep n} (hrun : Run mask P s) (hcan : s.CanSweep w mask)
      (hmeets : P s w) : Run mask P (s.sweep cfg w)

def TotalsTrue : Prop := ∀ k, s.port.total.val k = min (s.meter k).atRead k.max

def increment (k : Counter) : Nat :=
  if cfg.tracked w.vlSelectMask k then w.counters.val k - (s.meter k).value else 0

/-- The image that the sweep will fill holds a value past the threshold of a counter. -/
def staleExceeds (c : PortCounter) : Prop :=
  exceedsThreshold cfg (s.port.image s.sweepIndex) c = true

/-- What keeps the totals of a sweep true: `PortXmitWait` changes by as much as its weighted
change, and nothing is lost of an error counter that the sweep does not read or that was cleared
since it was last read.  A port that appears later has counted nothing. -/
structure Keeps : Prop where
  appears : s.lastSweepIndex ≠ none → s.fresh = true →
    ∀ k, cfg.tracked w.vlSelectMask k = true → w.counters.val k = 0
  xmitWait : cfg.processVlCounters = true → s.lastSweepIndex ≠ none →
    let wait := s.increment cfg w (.port .portXmitWait)
    wait ≠ 0 →
      weightedXmitWait (maxPortVLXmitWait (s.increment cfg w)) (numVLs w.vlSelectMask) wait = wait
  first : s.lastSweepIndex = none → s.firstSweepAsMaster = false → w.gotErrorCntrs = false →
    ∀ k, cfg.tracked w.vlSelectMask k = true → k.isError = true →
      (s.port.image s.sweepIndex).stlCounters.val k = w.counters.val k ∨
        s.staleExceeds cfg k.select
  skipped : s.lastSweepIndex ≠ none → w.gotErrorCntrs = false →
    ∀ k, cfg.tracked w.vlSelectMask k = true → k.isError = true →
      s.staleExceeds cfg k.select → (s.grownMeter w k).grown = (s.meter k).atRead
  read : ∀ last, s.lastSweepIndex = some last → w.gotErrorCntrs = true →
    ∀ k, cfg.tracked w.vlSelectMask k = true → k.isError = true →
      (s.meter k).cleared = true → (s.port.image last).clearSelectMask k.select = true ∨
        w.counters.val k < (s.port.image last).stlCounters.val k ∨
        (s.port.image last).stlCounters.val k = 0

end PortSweeps

end OpaFm.PerfMgr
