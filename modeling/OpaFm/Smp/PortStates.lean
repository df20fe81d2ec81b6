import OpaFm.Lib.Tiling
import Mathlib.Data.BitVec

/-!
# PortStateInfo packets

The port states of a node are read and written in packets.  The attribute modifier of a
packet has the number of its port states in the top byte and the first port in the lowest.
-/

namespace OpaFm.Smp

/-- `(count << 24) | start` on a `uint32_t`. -/
def amod (count start : Nat) : BitVec 32 := (BitVec.ofNat 32 count <<< 24) ||| BitVec.ofNat 32 start

/-- The fields `N` and `P` of the attribute modifier of a PortStateInfo packet. -/
def portCount (a : BitVec 32) : Nat := ((a >>> 24) &&& 0xff#32).toNat
def firstPort (a : BitVec 32) : Nat := (a &&& 0xff#32).toNat

structure PsiPort where
  state : Nat
  neighborQuarantined : Bool

/-- A node, its ports given by their index.  `NumPorts` has eight bits. -/
structure PsiNode where
  isSwitch : Bool
  NumPorts : Nat
  numPorts_lt : NumPorts < 256
  port0Valid : Bool
  port : Nat → PsiPort

/-- `STL_MAX_PAYLOAD_SMP_DR` and `STL_MAX_PAYLOAD_SMP_LR`, in port states of eight bytes. -/
def maxPSIsPerDRSMP : Nat := 1872 / 8
def maxPSIsPerLRSMP : Nat := 2016 / 8

namespace PsiNode

variable (node : PsiNode)

def numPSIs : Nat := if node.isSwitch then node.NumPorts + 1 else 1

def numPackets (maxPSIsPerPacket : Nat) : Nat :=
  if node.isSwitch ∧ node.numPSIs > maxPSIsPerPacket then
    node.numPSIs / maxPSIsPerPacket +
      if node.numPSIs % maxPSIsPerPacket ≠ 0 then 1 else 0
  else 1

/-- The attribute modifier of packet `i`; `portNum` is the port number that the packet
for an HFI is given. -/
def packet (maxPSIsPerPacket portNum i : Nat) : BitVec 32 :=
  if node.isSwitch then
    if i = node.numPackets maxPSIsPerPacket - 1 then
      amod (node.numPSIs % maxPSIsPerPacket) (i * maxPSIsPerPacket)
    else amod maxPSIsPerPacket (i * maxPSIsPerPacket)
  else amod (node.numPSIs % maxPSIsPerPacket) portNum

/-- The requests of `sm_get_node_port_states`, as long as they are answered; `path` tells
whether a path is provided. -/
def getRequests (maxPSIsPerPacket : Nat) (path : Bool) : List (BitVec 32) :=
  if !path && node.isSwitch && !node.port0Valid then []
  else (List.range (node.numPackets maxPSIsPerPacket)).map (node.packet maxPSIsPerPacket 0)

/-- The ports that `for_all_ports` goes through. -/
def allPorts : List Nat :=
  if node.isSwitch then List.range (node.NumPorts + 1) else List.range' 1 node.NumPorts

def selected (srcState p : Nat) : Bool :=
  (node.port p).state = srcState ∧ (node.port p).neighborQuarantined = false

/-- The states to write, one for each port state of the node; a write past them ends in
`none`. -/
def portStateInfo (srcState dstState : Nat) : Option (List Nat) :=
  (node.allPorts.filter (node.selected srcState)).foldlM
    (fun buffer p => if p < buffer.length then some (buffer.set p dstState) else none)
    (List.replicate node.numPSIs 0)

/-- The requests of `sm_set_node_port_states` with the states that each of them carries, as
long as they are answered.  `port` is the index of the port that the call is for, if it is
valid. -/
def setRequests (maxPSIsPerPacket : Nat) (port : Option Nat) (srcState dstState : Nat) :
    Option (List (BitVec 32 × List Nat)) :=
  match port with
  | none => some []
  | some portNum =>
    if node.isSwitch && !node.port0Valid then some []
    else if (node.allPorts.filter (node.selected srcState)).isEmpty then some []
    else
      (node.portStateInfo srcState dstState).map fun psi =>
        (List.range (node.numPackets maxPSIsPerPacket)).map fun i =>
          (node.packet maxPSIsPerPacket portNum i,
            (psi.drop (maxPSIsPerPacket * i)).take
              (portCount (node.packet maxPSIsPerPacket portNum i)))

/-! ## What the requests are about -/

/-- The ports that a request is about; an HFI takes it for the port that receives it. -/
def requestPorts (receiver : Nat) (a : BitVec 32) : List Nat :=
  if node.isSwitch then List.range' (firstPort a) (portCount a)
  else List.replicate (portCount a) receiver

def statePorts (receiver : Nat) : List Nat :=
  if node.isSwitch then List.range (node.NumPorts + 1) else [receiver]

def requested (srcState dstState p : Nat) : Nat :=
  if node.selected srcState p then dstState else 0

end PsiNode

end OpaFm.Smp
