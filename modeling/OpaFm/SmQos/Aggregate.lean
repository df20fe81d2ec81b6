import OpaFm.Fabric.Topology

/-!
# Aggregate requests

`sm_node_updateFromSma_aggregate` asks a node for its QoS tables in one MAD of several segments.
A segment names a number of contiguous ports.
-/

namespace OpaFm.SmQos

open OpaFm.Fabric

/-! ## Nodes -/

/-- The tables of a port, with what the FM has of them. -/
structure CurrentTables where
  slsc : Bool := false
  scsl : Bool := false
  scvlt : Bool := false
  scvlnt : Bool := false
  scvlr : Bool := false
  vlarbHigh : Bool := false
  vlarbLow : Bool := false
  vlarbPre : Bool := false
  vlarbMatrix : Bool := false

/-- What the request reads of a port's data. -/
structure SmaPortData where
  vl0 : Nat
  isVLrSupported : Bool := false
  current : CurrentTables := {}

structure SmaPort where
  state : PortState
  portData : Option SmaPortData

/-- A node with the port of its SMA, which for a switch is port 0. -/
structure SmaNode where
  nodeType : NodeType
  numPorts : Nat
  smaport : Nat
  port : Nat → SmaPort
  numPorts_lt : numPorts < 256
  smaport_le : smaport ≤ numPorts
  smaport_switch : nodeType = .switch → smaport = 0

/-- `sm_valid_port(portp)` and `portp->portData->vl0 > 1`. -/
def hasDataVls (n : SmaNode) (i : Nat) : Bool :=
  match (n.port i).portData with
  | none => false
  | some d => 1 < d.vl0

def isUp (n : SmaNode) (i : Nat) : Bool := (n.port i).state.isUp

/-! ## What to ask for -/

inductive ScvlAttr where
  | scvlt
  | scvlnt
  | scvlr
  deriving DecidableEq

/-- The sections of `STL_MCLASS_ATTRIB_ID_VL_ARBITRATION`, in the order of `vlarbSec`. -/
inductive VlarbSec where
  | high
  | low
  | preempt
  | matrix
  deriving DecidableEq

/-- The flags of the function. -/
structure AggrFlags where
  getScvlt : Bool := false
  getScvlnt : Bool := false
  getScvlr : Bool := false
  getVlarbLow : Bool := false
  getVlarbHigh : Bool := false
  getVlarbPre : Bool := false
  getVlarbMatrix : Bool := false

def addFlags (f : AggrFlags) (d : SmaPortData) : AggrFlags :=
  let f := { f with
    getScvlt := f.getScvlt || !d.current.scvlt
    getScvlnt := f.getScvlnt || !d.current.scvlnt
    getScvlr := f.getScvlr || (!d.current.scvlr && d.isVLrSupported) }
  if 1 < d.vl0 then
    { f with
      getVlarbHigh := f.getVlarbHigh || !d.current.vlarbHigh
      getVlarbLow := f.getVlarbLow || !d.current.vlarbLow
      getVlarbPre := f.getVlarbPre || !d.current.vlarbPre
      getVlarbMatrix := f.getVlarbMatrix || !d.current.vlarbMatrix }
  else f

/-- The loop that sets the flags.  It ends early once nothing more can be set by ports like the
one at hand. -/
def scanPorts (n : SmaNode) : List Nat → AggrFlags → AggrFlags
  | [], f => f
  | i :: rest, f =>
    match (n.port i).portData with
    | none => scanPorts n rest f
    | some d =>
      if isUp n i then
        let f := addFlags f d
        if f.getScvlt ∧ f.getScvlnt ∧ (f.getScvlr ∨ ¬d.isVLrSupported) ∧
            (f.getVlarbLow ∧ f.getVlarbHigh ∧ f.getVlarbPre ∧ f.getVlarbMatrix) then f
        else scanPorts n rest f
      else scanPorts n rest f

def AggrFlags.scvl (f : AggrFlags) : ScvlAttr → Bool
  | .scvlt => f.getScvlt
  | .scvlnt => f.getScvlnt
  | .scvlr => f.getScvlr

def AggrFlags.vlarb (f : AggrFlags) : VlarbSec → Bool
  | .high => f.getVlarbHigh
  | .low => f.getVlarbLow
  | .preempt => f.getVlarbPre
  | .matrix => f.getVlarbMatrix

/-! ## Segments -/

inductive SegAttr where
  | slsc
  | scsl
  | scvl (attr : ScvlAttr)
  | vlarb (sec : VlarbSec)
  deriving DecidableEq

/-- `STL_AGGREGATE`; the section, block count and port are the parts of `AttributeModifier`, and
`RequestLength` is in units of 8 bytes. -/
structure Segment where
  attributeId : SegAttr
  requestLength : Nat
  blkCount : Nat := 0
  port : Nat := 0
  deriving DecidableEq

def stlMaxPayloadAggregate : Nat := 1016
def sizeofScvlMap : Nat := 32
def sizeofVlarbTable : Nat := 256

def requestLength (size : Nat) : Nat := (size + 7) / 8

def stlReqAggrSegCount (n s : Nat) : Nat :=
  if s = 0 then 0
  else
    let blksPerSeg := stlMaxPayloadAggregate / s
    (n + (blksPerSeg - 1)) / blksPerSeg

def scvlSegments (attr : ScvlAttr) (startPort numPorts : Nat) : List Segment :=
  let portsPerSeg := stlMaxPayloadAggregate / sizeofScvlMap
  let segsReq := stlReqAggrSegCount numPorts sizeofScvlMap
  (List.range segsReq).map fun i =>
    let blkCount := if i + 1 < segsReq then portsPerSeg else numPorts % portsPerSeg
    { attributeId := .scvl attr
      requestLength := requestLength (blkCount * sizeofScvlMap)
      blkCount := blkCount
      port := (i * portsPerSeg + startPort) % 256 }

/-- The segments of one section of the arbitration tables, over the ports that are left; no
result when out of fuel.  The state that the inner loop tests is that of the first port. -/
def vlarbSegments (n : SmaNode) (sec : VlarbSec) : Nat → List Nat → Option (List Segment)
  | 0, _ => none
  | fuel + 1, ports =>
    match ports.dropWhile fun i => !(hasDataVls n i && isUp n i) with
    | [] => some []
    | portp :: rest =>
      let portsPerSeg := stlMaxPayloadAggregate / sizeofVlarbTable
      let group := ((portp :: rest).takeWhile fun endPortp =>
        hasDataVls n endPortp && isUp n portp).take portsPerSeg
      (vlarbSegments n sec fuel ((portp :: rest).drop group.length)).map fun segs =>
        { attributeId := .vlarb sec
          requestLength := requestLength (group.length * sizeofVlarbTable)
          blkCount := group.length
          port := portp } :: segs

def aggrNumPorts (n : SmaNode) : Option Nat :=
  match n.nodeType with
  | .ca => some 1
  | .switch => some ((n.numPorts + 1) % 256)
  | .router => none

def nodePorts (n : SmaNode) : List Nat :=
  if n.nodeType = .switch then List.range' 0 (n.numPorts + 1) else [n.smaport]

/-- The aggregate of `sm_node_updateFromSma_aggregate`. -/
def aggregate (n : SmaNode) : Option (List Segment) :=
  (aggrNumPorts n).bind fun numPorts =>
    ((n.port n.smaport).portData).bind fun smaData =>
      let flags := scanPorts n (List.range' n.smaport numPorts) {}
      let slsc : List Segment :=
        if smaData.current.slsc then []
        else [{ attributeId := .slsc, requestLength := requestLength 32 }]
      let scsl : List Segment :=
        if smaData.current.scsl then []
        else [{ attributeId := .scsl, requestLength := requestLength 32 }]
      let scvl := [ScvlAttr.scvlt, .scvlnt, .scvlr].flatMap fun attr =>
        if flags.scvl attr then scvlSegments attr n.smaport numPorts else []
      ([VlarbSec.high, .low, .preempt, .matrix].mapM fun sec =>
        if flags.vlarb sec then vlarbSegments n sec (n.numPorts + 2) (nodePorts n)
        else some []).map fun vlarb => slsc ++ scsl ++ scvl ++ vlarb.flatten

end OpaFm.SmQos
