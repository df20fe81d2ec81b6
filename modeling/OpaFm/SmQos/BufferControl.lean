import OpaFm.Routing.SelectPorts
import OpaFm.SmQos.Vls

/-!
# Buffer control tables

`setupBufferControl` divides the receive memory of the neighbor port among the VLs.  Three rules
are tried one after the other, each of which gives less of the wire depth to the VLs.  All sizes
are in allocation units.
-/

namespace OpaFm.SmQos

open OpaFm.Routing

structure BufferControlTable where
  txOverallSharedLimit : Nat
  txDedicatedLimit : Nat → Nat
  txSharedLimit : Nat → Nat

/-- What `sm_config` has for buffers.  The parser takes a percentage up to 100, and a `uint8_t`. -/
structure BfrConfig where
  minSharedVLMem : Nat
  dedicatedVLMemMulti : Nat
  minShared_le : minSharedVLMem ≤ 100
  multi_lt : dedicatedVLMemMulti < 256

/-- The arguments of `setupBufferControl`.  The memory size is an `OverallBufferSpace`, which has
16 bits, and the allocation unit `8 * 2^N` bytes. -/
structure BfrInput where
  memSize : Nat
  pbw : Nat → Int
  pmtu : Nat → Nat
  wd : Nat
  au : Nat
  shmem : Bool
  memSize_lt : memSize < 65536
  au_pos : 0 < au

def toLimit (n : Int) : Nat := (n % 65536).toNat

/-! ## Packet sizes -/

def protocolHeaderSize : Nat := 128

def getBytesFromMtu (mtu : Nat) : Nat :=
  if 1 ≤ mtu ∧ mtu ≤ 5 then 128 * 2 ^ mtu
  else if mtu = 6 then 8192
  else if mtu = 7 then 10240
  else 0

def packetMult (c : BfrConfig) (n : BfrInput) : Nat :=
  if n.shmem = false ∧ c.dedicatedVLMemMulti = 0 then 1 else c.dedicatedVLMemMulti

def packetSize (c : BfrConfig) (n : BfrInput) (i : Nat) : Nat :=
  if i = 15 then ((2048 + protocolHeaderSize) * 2 + n.au - 1) / n.au
  else if 0 < n.pbw i then
    ((getBytesFromMtu (n.pmtu i) + protocolHeaderSize) * packetMult c n + n.au - 1) / n.au
  else 0

def minShared (c : BfrConfig) (n : BfrInput) : Nat :=
  let minShared := if n.shmem then c.minSharedVLMem * n.memSize / 100 else 0
  let vl15 := packetSize c n 15 + n.wd
  if (n.memSize : Int) - minShared - vl15 < 0 then
    if vl15 < minShared then minShared - vl15 else 0
  else minShared

/-! ## The rules -/

structure BfrState where
  remainingSize : Int
  txDedicatedLimit : Nat → Nat

def BfrState.dedicate (s : BfrState) (i : Nat) (limit : Int) : BfrState :=
  { s with txDedicatedLimit := fun j => if j = i then toLimit limit else s.txDedicatedLimit j }

def BfrState.take (s : BfrState) (size : Int) : BfrState :=
  { s with remainingSize := s.remainingSize - size }

/-- Rule A: a packet and the wire depth for each VL, with `intervalSize`. -/
def ruleA (packetSize : Nat → Nat) (wd : Nat) : List Nat → Int → BfrState → Int × BfrState
  | [], intervalSize, s => (intervalSize, s)
  | i :: rest, intervalSize, s =>
    if 0 < packetSize i then
      let s := s.take (packetSize i + wd : Nat)
      if s.remainingSize < 0 then (intervalSize, s)
      else
        ruleA packetSize wd rest (intervalSize + packetSize i)
          (s.dedicate i (packetSize i + wd : Nat))
    else ruleA packetSize wd rest intervalSize s

def ruleAgain (packetSize : Nat → Nat) (intervalSize : Int) : List Nat → BfrState → BfrState
  | [], s => s
  | i :: rest, s =>
    ruleAgain packetSize intervalSize rest
      (if 0 < packetSize i then
        s.dedicate i (s.txDedicatedLimit i + packetSize i * intervalSize)
      else s)

def ruleB (packetSize : Nat → Nat) (wd : Nat) (pbw : Nat → Int) (rankBw : Int) :
    List Nat → BfrState → BfrState
  | [], s => s
  | j :: rest, s =>
    let size := if rankBw < pbw j ∨ j = 15 then packetSize j + wd else packetSize j
    let s := (s.take size).dedicate j size
    if s.remainingSize < 0 then s else ruleB packetSize wd pbw rankBw rest s

/-- Rule C for one rank: nothing for the VLs with no more bandwidth, with `maxNoDed`. -/
def ruleC (packetSize : Nat → Nat) (wd : Nat) (pbw : Nat → Int) (rankBw : Int) :
    List Nat → Nat → BfrState → Nat × BfrState
  | [], maxNoDed, s => (maxNoDed, s)
  | j :: rest, maxNoDed, s =>
    if rankBw < pbw j ∨ j = 15 then
      let s := s.take (packetSize j + wd : Nat)
      if s.remainingSize < 0 then (maxNoDed, s)
      else
        ruleC packetSize wd pbw rankBw rest maxNoDed (s.dedicate j (packetSize j + wd : Nat))
    else
      ruleC packetSize wd pbw rankBw rest (max maxNoDed (packetSize j + wd)) (s.dedicate j 0)

/-- The loop over the ranks, of which the last of equal ones is tried.  An attempt says whether
it is good enough. -/
def tryRanks (attempt : Int → BfrState → Bool × BfrState) : List Int → BfrState → BfrState
  | [], s => s
  | rank :: rest, s =>
    if rest.head? = some rank then tryRanks attempt rest s
    else
      let r := attempt rank s
      if r.1 then r.2 else tryRanks attempt rest r.2

def rankBw (pbw : Nat → Int) : List Int :=
  ((List.range stlMaxVls).map pbw).mergeSort (· ≤ ·)

section

variable (c : BfrConfig) (n : BfrInput)

def BfrState.restart (s : BfrState) : BfrState :=
  { s with remainingSize := (n.memSize : Int) - minShared c n }

def attemptB (rank : Int) (s : BfrState) : Bool × BfrState :=
  let s := ruleB (packetSize c n) n.wd n.pbw rank (List.range stlMaxVls) (s.restart c n)
  (decide (0 ≤ s.remainingSize), s)

def attemptC (rank : Int) (s : BfrState) : Bool × BfrState :=
  let r := ruleC (packetSize c n) n.wd n.pbw rank (List.range stlMaxVls) 0 (s.restart c n)
  (decide (0 ≤ r.2.remainingSize) &&
    (!n.shmem || decide ((r.1 : Int) ≤ r.2.remainingSize + minShared c n)), r.2)

inductive BfrRule where
  | a | b | c
  deriving DecidableEq, Repr

def applyRules : BfrRule × BfrState :=
  let r := ruleA (packetSize c n) n.wd (List.range stlMaxVls) 1
    (BfrState.restart c n ⟨0, fun _ => 0⟩)
  let intervalSize := r.2.remainingSize.tdiv r.1
  let a :=
    if n.shmem = false ∧ 0 < intervalSize then
      ruleAgain (packetSize c n) intervalSize (List.range stlMaxVls) r.2
    else r.2
  let b :=
    if a.remainingSize < 0 ∧ 0 < n.wd then
      (BfrRule.b, tryRanks (attemptB c n) (rankBw n.pbw) a)
    else (BfrRule.a, a)
  if b.2.remainingSize < 0 then (.c, tryRanks (attemptC c n) (rankBw n.pbw) b.2) else b

def setupBufferControl : Status × BufferControlTable :=
  let r := applyRules c n
  let remainingSize := if n.shmem then r.2.remainingSize + minShared c n else 0
  (if r.1 = .c then .bad else .ok,
    { txOverallSharedLimit := toLimit remainingSize
      txDedicatedLimit := r.2.txDedicatedLimit
      txSharedLimit := fun i =>
        if (i = 15 ∨ 0 < n.pbw i) ∧ (r.1 = .c → r.2.txDedicatedLimit i = 0) then
          toLimit remainingSize
        else 0 })

end

end OpaFm.SmQos
