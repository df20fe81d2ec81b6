import OpaFm.Lib.WriteLog
import OpaFm.Smp.PortStates

/-!
# Sending linear forwarding tables

A table is sent to its switch in blocks of 64 LIDs, several of them in one packet.
-/

namespace OpaFm.Smp

open OpaFm.Lib

def maxLftElementsBlock : Nat := 64

def unicastLidMax : Nat := 0xBFFF

/-- What the senders read of `topop` and the configuration.  LIDs are unicast LIDs, and
`maxLid` is the highest one in the fabric; the SM's own LID is one of them. -/
structure LftTopology where
  maxLid : Nat
  smLid : Nat
  maxLid_le : maxLid ≤ unicastLidMax
  smLid_le : smLid ≤ maxLid
  /-- `LftMultiblock`, as configured. -/
  multiBlock : Nat
  forceRebalance : Bool

/-- `lft_multi_block`, which is limited to what a directed-route packet holds when the
configuration is read. -/
def LftTopology.lftMultiBlock (t : LftTopology) : Nat :=
  if t.multiBlock > 1872 / maxLftElementsBlock then 1872 / maxLftElementsBlock else t.multiBlock

/-- A switch in the fabric: the LID of its port 0 and whether that port is valid, whether it
was in use before the sweep, and its table. -/
structure LftSwitch (t : LftTopology) where
  lid : Nat
  lid_le : lid ≤ t.maxLid
  port0Valid : Bool
  old : Bool
  lft : Nat → Nat

/-- A packet with blocks of a table. -/
structure LftMad where
  amod : BitVec 32
  entries : List Nat

/-- The fields `N` and `B` of the attribute modifier. -/
def LftMad.numBlocks (m : LftMad) : Nat := ((m.amod >>> 24) &&& 0xff#32).toNat
def LftMad.block (m : LftMad) : Nat := (m.amod &&& 0x3ffff#32).toNat

variable {t : LftTopology}

/-- The packet that takes `numBlocks` blocks from `&lft[lid]` on, for block `block`. -/
def LftSwitch.lftMad (sw : LftSwitch t) (numBlocks block lid : Nat) : LftMad where
  amod := amod numBlocks block
  entries := (List.range (maxLftElementsBlock * numBlocks)).map fun i => sw.lft (lid + i)

abbrev LftSent := List LftMad × Bool

variable (send : LftMad → Bool)

def smSetupLftBlock (sw : LftSwitch t) (lidEntry : Nat) : LftSent :=
  let block := lidEntry >>> 6
  let startLid := lidEntry &&& 0xffc0
  ([sw.lftMad 1 block startLid], send (sw.lftMad 1 block startLid))

def smWriteMinimalLftBlocks (t : LftTopology) (sw : LftSwitch t) : LftSent :=
  let first := smSetupLftBlock send sw t.smLid
  if !first.2 then first
  else if !sw.port0Valid then (first.1, false)
  else if t.smLid >>> 6 ≠ sw.lid >>> 6 then
    let second := smSetupLftBlock send sw sw.lid
    (first.1 ++ second.1, second.2)
  else first

/-! ## All blocks to a list of switches -/

/-- One turn of the inner loop of `sm_write_full_lfts_by_block_LR`. -/
def fullTurn (t : LftTopology) (rebalance : Bool) (block : Nat) (sw : LftSwitch t) : LftSent :=
  let maxBlock := t.maxLid / maxLftElementsBlock
  -- an old switch is left alone where there is no rebalance
  if sw.old && !t.forceRebalance && !rebalance then ([], true)
  else if !sw.port0Valid then ([], false)
  else
    let numBlocks :=
      if block + t.lftMultiBlock - 1 ≤ maxBlock then t.lftMultiBlock else maxBlock - block + 1
    -- the block of the switch LID is programmed already
    if numBlocks = 1 ∧ block = sw.lid / maxLftElementsBlock then ([], true)
    else
      let m := sw.lftMad numBlocks block (block * maxLftElementsBlock)
      ([m], send m)

def fullSwitches (t : LftTopology) (rebalance : Bool) (block : Nat) :
    List (LftSwitch t) → List (LftSwitch t × LftMad) × Bool
  | [] => ([], true)
  | sw :: swlist =>
    let s := fullTurn send t rebalance block sw
    if s.2 then
      let r := fullSwitches t rebalance block swlist
      (s.1.map (sw, ·) ++ r.1, r.2)
    else (s.1.map (sw, ·), false)

def fullBlocks (t : LftTopology) (swlist : List (LftSwitch t)) (rebalance : Bool) :
    Nat → Nat → Option (List (LftSwitch t × LftMad) × Bool)
  | 0, _ => none
  | fuel + 1, block =>
    if block ≤ t.maxLid / maxLftElementsBlock then
      let s :=
        -- the block of the SM LID is programmed already
        if t.lftMultiBlock = 1 ∧ block = t.smLid / maxLftElementsBlock then ([], true)
        else fullSwitches send t rebalance block swlist
      if s.2 then
        (fullBlocks t swlist rebalance fuel (block + t.lftMultiBlock)).map fun r =>
          (s.1 ++ r.1, r.2)
      else some s
    else some ([], true)

def smWriteFullLftsByBlockLR (t : LftTopology) (swlist : List (LftSwitch t)) (rebalance : Bool)
    (fuel : Nat) : Option (List (LftSwitch t × LftMad) × Bool) :=
  fullBlocks send t swlist rebalance fuel 0

/-! ## All blocks to one switch -/

def lidsPerMad (t : LftTopology) : Nat := t.lftMultiBlock * maxLftElementsBlock % 65536

/-- The loop of `sm_send_lft`; its counters are `uint16_t`. -/
def sendSets (t : LftTopology) (sw : LftSwitch t) : Nat → Nat → Nat → Option LftSent
  | 0, _, _ => none
  | fuel + 1, currentSet, currentLid =>
    if currentLid ≤ t.maxLid then
      let numBlocks :=
        if currentLid + lidsPerMad t ≤ t.maxLid then t.lftMultiBlock
        else
          t.lftMultiBlock -
            (lidsPerMad t - (t.maxLid - currentLid + 1)) / maxLftElementsBlock
      let m := sw.lftMad numBlocks currentSet currentLid
      if send m then
        (sendSets t sw fuel ((currentSet + t.lftMultiBlock) % 65536)
          ((currentLid + lidsPerMad t) % 65536)).map fun r => (m :: r.1, r.2)
      else some ([m], false)
    else some ([], true)

def smSendLft (t : LftTopology) (sw : LftSwitch t) (fuel : Nat) : Option LftSent :=
  if !sw.port0Valid then some ([], false) else sendSets send t sw fuel 0 0

/-! ## What the packets program -/

def LftMad.writes (m : LftMad) : List (Nat × Nat) :=
  (List.range' (maxLftElementsBlock * m.block) (maxLftElementsBlock * m.numBlocks)).zip m.entries

def programmed (mads : List LftMad) : Nat → Option Nat := table (mads.flatMap LftMad.writes)

end OpaFm.Smp
