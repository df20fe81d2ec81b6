import OpaFm.Cs.Pool
import OpaFm.Rmpp.Send

/-!
# Receiving segments

`rmpp_receive_getmulti_response` and `sa_receive_getmulti`, which put the segments of a
transfer together in a buffer that is allocated for the first one.  The two agree on the
order of their checks and on the ACKs.  They differ in how the first segment is measured,
in the width of the position of a later one, and in what follows an ACK of the sender.
-/

namespace OpaFm.Rmpp

/-- A received packet.  `data` is the memory from its payload on. -/
structure Mad where
  cversion : Nat
  mclass : Nat
  method : Nat
  header : RmppHeader
  data : Nat → UInt8

/-- A packet as it is received: what the memory of a new buffer holds, or `none` when it runs
out, and whether an answer can be sent. -/
structure RecvEvent where
  mad : Mad
  mem : Option (Nat → UInt8)
  sendOk : Bool

/-- `reqData`: a buffer of `size` bytes, and the memory from its start on. -/
structure Buffer where
  size : Nat
  bytes : Nat → UInt8

/-- A buffer for `length` bytes, as the pool hands it out. -/
def Buffer.alloc (length : Nat) (mem : Option (Nat → UInt8)) : Option Buffer :=
  (Cs.Pool.vsPoolAlloc length).bind fun size => mem.map (Buffer.mk size)

def Buffer.write (b : Buffer) (offset count : Nat) (data : Nat → UInt8) : Buffer where
  size := b.size
  bytes i := if offset ≤ i ∧ i < offset + count then data (i - offset) else b.bytes i

/-- The fields of a context that a receiver uses. -/
structure RecvCntxt where
  hashed : Bool
  es : Nat
  wl : Nat
  lastAck : Nat
  segTotal : Nat
  reqInProg : Bool
  isDS : Bool
  reqDataLen : Nat
  reqData : Option Buffer
  released : Bool

/-- A context that `cntxt_get` returns for a new request. -/
def RecvCntxt.fresh : RecvCntxt where
  hashed := false
  es := 0
  wl := 0
  lastAck := 0
  segTotal := 0
  reqInProg := false
  isDS := false
  reqDataLen := 0
  reqData := none
  released := false

/-- What a call does to memory: it asks for `length - headers` bytes and gets `size` of them, or
copies `count` bytes to an offset in a buffer of `size` bytes. -/
inductive MemOp where
  | alloc (length headers size : Nat)
  | copy (offset count size : Nat)
  deriving DecidableEq, Repr

/-- The context, the memory operations and, if the transfer is refused, the type and
status of the answer. -/
abbrev Handled := RecvCntxt × List MemOp × Option (RmppType × RmppStatus)

namespace RecvCntxt

variable (c : RecvCntxt)

/-- The number of bytes allocated for `reqData`. -/
def bufferSize : Nat :=
  match c.reqData with
  | none => 0
  | some b => b.size

def countSegment (last : Bool) : RecvCntxt :=
  if last then c else { c with es := (c.es + 1) % 2 ^ 32 }

def store (offset count : Nat) (data : Nat → UInt8) : RecvCntxt × MemOp :=
  ({ c with reqData := c.reqData.map (·.write offset count data) },
    .copy offset count c.bufferSize)

def startRequest : RecvCntxt :=
  if c.hashed then c
  else
    { c with hashed := true, es := 1, wl := 1, lastAck := 0, segTotal := 0, reqInProg := true }

/-- A later segment, at offset `pos`.  `bytesRcvd` has 16 bits. -/
def laterSegment (size pos : Nat) (tooLong : Nat → Bool) (m : Mad) : Handled :=
  let last := m.header.rmppFlags.last
  let len := if last then (m.header.length - BitVec.ofNat 32 saHeaderSize).toNat else size
  let bytesRcvd := (if last then pos + len else m.header.segNum.toNat * size) % 2 ^ 16
  if c.reqDataLen < bytesRcvd || (last && tooLong len) then
    (c, [], some (.abort, .abortInconsistentLastPayloadLength))
  else
    let (c, op) := c.store pos len m.data
    (c.countSegment last, [op], none)

/-- `send_ack` and `rmpp_receive_getmuli_response_send_ack` with a window of one segment:
the last segment leaves the window alone.  Without an ACK the transfer is over. -/
def sendAck (header : RmppHeader) (sendOk : Bool) : RecvCntxt × List RmppHeader :=
  let ack :=
    { header with
      rmppType := .ack
      rmppFlags := { active := true, first := false, last := false }
      rmppStatus := .noError
      length := if header.rmppFlags.last then header.segNum else header.segNum + 1 }
  if sendOk then ({ c with lastAck := header.segNum.toNat % 2 ^ 16 }, [ack])
  else ({ c with released := true }, [])

/-- A STOP or an ABORT ends the transfer.  `timeFlag` is cleared after the flags are set, and the
flags are part of it. -/
def refuse (header : RmppHeader) (rmppType : RmppType) (status : RmppStatus) (sendOk : Bool) :
    RecvCntxt × List RmppHeader :=
  let reply :=
    { header with
      rmppType := rmppType
      rmppFlags := { active := false, first := false, last := false }
      rmppStatus := status
      segNum := 0
      length := 0 }
  ({ c with released := true }, if sendOk then [reply] else [])

end RecvCntxt

/-- What the two receivers do in their own way. -/
structure Receiver where
  size : Nat
  firstSegment : RecvCntxt → Mad → Option (Nat → UInt8) → Handled
  laterSegment : RecvCntxt → Mad → Handled
  directionSwitch : RecvCntxt → RmppHeader → Except RmppStatus RecvCntxt
  accept : RecvCntxt → RmppHeader → RecvCntxt

namespace Receiver

variable (r : Receiver)

def data (c : RecvCntxt) (e : RecvEvent) : RecvCntxt × List MemOp × List RmppHeader :=
  let m := e.mad
  let c := c.startRequest
  if m.header.segNum.toNat = c.es then
    let (c, ops, refused) :=
      if m.header.segNum.toNat = 1 then r.firstSegment c m e.mem else r.laterSegment c m
    match refused with
    | some (rmppType, status) =>
      let (c, sent) := c.refuse m.header rmppType status e.sendOk
      (c, ops, sent)
    | none =>
      let (c, sent) := (r.accept c m.header).sendAck m.header e.sendOk
      (c, ops, sent)
  else
    let header :=
      { m.header with
        rmppFlags := { active := true, first := false, last := false }
        segNum := BitVec.ofNat 32 c.es - 1 }
    let (c, sent) := c.sendAck header e.sendOk
    (c, [], sent)

/-- A request in a single packet without RMPP goes to the processing routine at once. -/
def single (c : RecvCntxt) (e : RecvEvent) : RecvCntxt × List MemOp :=
  let c := { c with segTotal := 1, reqInProg := false, reqDataLen := r.size }
  match Buffer.alloc r.size e.mem with
  | none => (c, [])
  | some buffer =>
    let (c, op) := { c with reqData := some buffer }.store 0 r.size e.mad.data
    (c, [.alloc r.size 0 buffer.size, op])

def checkHeader (header : RmppHeader) : RmppStatus :=
  if header.rmppType = .not then .abortBadType
  else if header.rmppVersion ≠ rmppVersion1 then .abortUnsupportedVersion
  else if !header.rmppFlags.active then .abortBadType
  else header.rmppStatus

def receive (c : RecvCntxt) (e : RecvEvent) : RecvCntxt × List MemOp × List RmppHeader :=
  let header := e.mad.header
  if header.rmppType = .not && !c.hashed then
    let (c, ops) := r.single c e
    (c, ops, [])
  else if checkHeader header ≠ .noError then
    let (c, sent) := c.refuse header .abort (checkHeader header) e.sendOk
    (c, [], sent)
  else if header.rmppType = .stop || header.rmppType = .abort then
    ({ c with released := true }, [], [])
  else if header.rmppType = .ack then
    match r.directionSwitch c header with
    | .ok c => (c, [], [])
    | .error status =>
      let (c, sent) := c.refuse header .abort status e.sendOk
      (c, [], sent)
  else r.data c e

end Receiver

/-! ## The receiver of the managers' clients -/

/-- The payload of the first segment: the number of segments and the bytes without their
SA headers, in 16 and 32 bits. -/
def rmppSegTotal (size : Nat) (length : BitVec 32) : Nat :=
  ((length.toNat + size + saHeaderSize - 1) % 2 ^ 32 / (size + saHeaderSize)) % 2 ^ 16

def rmppFirstSegment (size : Nat) (c : RecvCntxt) (m : Mad) (mem : Option (Nat → UInt8)) :
    Handled :=
  let length := m.header.length
  let last := m.header.rmppFlags.last
  if !m.header.rmppFlags.first then (c, [], some (.abort, .abortInconsistentFirstSegnum))
  else if length = 0 && last then (c, [], some (.abort, .abortInconsistentLastPayloadLength))
  else
    let segTotal := if length ≠ 0 then rmppSegTotal size length else 0
    let headers := segTotal * saHeaderSize
    let total := if length ≠ 0 then length.toNat else size
    let len := (BitVec.ofNat 32 total - BitVec.ofNat 32 headers).toNat
    let c := { c with segTotal := segTotal, reqDataLen := len }
    let count := if last then len else size
    if len = 0 then
      -- nothing is allocated, and `reqData` stays what it was
      let (c, op) := c.store 0 count m.data
      (c.countSegment last, [op], none)
    else
      match Buffer.alloc len mem with
      | none => ({ c with reqData := none }, [], some (.stop, .stopNoResources))
      | some buffer =>
        let (c, op) := { c with reqData := some buffer }.store 0 count m.data
        (c.countSegment last, [.alloc total headers buffer.size, op], none)

def rmppLaterSegment (size : Nat) (c : RecvCntxt) (m : Mad) : Handled :=
  c.laterSegment size ((m.header.segNum - 1) * BitVec.ofNat 32 size).toNat (fun _ => false) m

def rmppDirectionSwitch (c : RecvCntxt) (header : RmppHeader) : Except RmppStatus RecvCntxt :=
  if header.segNum = 0 then .error .abortSegnumTooBig
  else if header.length = 0 then .error .abortNewWindowLastTooSmall
  else .ok { c with isDS := true, wl := header.length.toNat, reqInProg := false }

def rmppAccept (c : RecvCntxt) (header : RmppHeader) : RecvCntxt :=
  if header.segNum.toNat = c.segTotal then { c with reqInProg := false } else c

def rmppReceiver (size : Nat) : Receiver where
  size := size
  firstSegment := rmppFirstSegment size
  laterSegment := rmppLaterSegment size
  directionSwitch := rmppDirectionSwitch
  accept := rmppAccept

def madCvVendorDbsync : Nat := 0x31
def rmppCmdGet : Nat := 0x01
def rmppCmdGettable : Nat := 0x12

def rmppValidateResponseMad (m : Mad) : Bool :=
  m.cversion ≤ stlSaClassVersion &&
    (m.mclass = madCvVendorDbsync || !(m.method = rmppCmdGet || m.method = rmppCmdGettable))

def rmppDataLen (m : Mad) : Nat :=
  if m.cversion = stlSaClassVersion then stlSaDataLen else ibSaDataLen

def rmppReceiveGetmultiResponse (c : RecvCntxt) (e : RecvEvent) :
    RecvCntxt × List MemOp × List RmppHeader :=
  if rmppValidateResponseMad e.mad then (rmppReceiver (rmppDataLen e.mad)).receive c e
  else (c, [], [])

/-! ## The receiver of the SA -/

def saFirstSegment (c : RecvCntxt) (m : Mad) (mem : Option (Nat → UInt8)) : Handled :=
  let length := m.header.length.toNat
  let last := m.header.rmppFlags.last
  if !m.header.rmppFlags.first then (c, [], some (.abort, .abortInconsistentFirstSegnum))
  else if last && (length = 0 || stlSaDataLen < length) then
    (c, [], some (.abort, .abortInconsistentLastPayloadLength))
  else
    let segTotal :=
      if length ≠ 0 then
        ((length + stlSaDataLen + saHeaderSize - 1) / (stlSaDataLen + saHeaderSize)) % 2 ^ 16
      else 0
    let reqDataLen :=
      if length ≠ 0 then
        (BitVec.ofNat 32 length - BitVec.ofNat 32 (segTotal * saHeaderSize)).toNat
      else 8184
    let c := { c with segTotal := segTotal, reqDataLen := reqDataLen }
    -- the pool refuses a length of zero
    match Buffer.alloc length mem with
    | none => ({ c with reqData := none }, [], some (.stop, .stopNoResources))
    | some buffer =>
      let count := if last then min length stlSaDataLen else stlSaDataLen
      let (c, op) := { c with reqDataLen := length, reqData := some buffer }.store 0 count m.data
      (c.countSegment last, [.alloc length 0 buffer.size, op], none)

def saLaterSegment (c : RecvCntxt) (m : Mad) : Handled :=
  c.laterSegment stlSaDataLen ((m.header.segNum - 1).toNat * stlSaDataLen)
    (fun len => stlSaDataLen < len) m

def saDirectionSwitch (c : RecvCntxt) (header : RmppHeader) : Except RmppStatus RecvCntxt :=
  if header.segNum ≠ 0 then .error .abortSegnumTooBig
  else if header.length = 0 then .error .abortNewWindowLastTooSmall
  else if !c.reqInProg then .error .abortUnspecified
  else .ok { c with isDS := true, wl := header.length.toNat, reqInProg := false }

def saReceiver : Receiver where
  size := stlSaDataLen
  firstSegment := saFirstSegment
  laterSegment := saLaterSegment
  directionSwitch := saDirectionSwitch
  accept c _ := c

def saReceiveGetmulti (c : RecvCntxt) (e : RecvEvent) :
    RecvCntxt × List MemOp × List RmppHeader :=
  saReceiver.receive c e

/-! ## Receptions -/

/-- A reception: the context and what was done to memory so far. -/
structure Reception where
  cntxt : RecvCntxt
  ops : List MemOp

/-- The next packet for the context, in one of the two functions.  A released context is
not found any more. -/
def Reception.step
    (receive : RecvCntxt → RecvEvent → RecvCntxt × List MemOp × List RmppHeader)
    (t : Reception) (e : RecvEvent) : Reception :=
  if t.cntxt.released then t
  else
    let (c, ops, _) := receive t.cntxt e
    { cntxt := c, ops := t.ops ++ ops }

/-!
## A transfer over the network

`rmpp_send_multi` on one side and `rmpp_receive_getmulti_response` on the other.  Every
packet that was sent stays in the network and can be delivered at any time, any number of
times or never.
-/

/-- What a transfer is about: the limits of the sender, the class and method of its
packets, and the response. -/
structure Message where
  rmppDataLength : Nat
  rmppMaxRetries : Nat
  mclass : Nat
  method : Nat
  len : Nat
  bytes : Nat → UInt8

namespace Message

variable (msg : Message)

/-- The STL packet with a segment.  What is in it after the bytes of the segment does not
come from the response. -/
def packet (seg : Segment) (tail : Nat → UInt8) : Mad where
  cversion := stlSaClassVersion
  mclass := msg.mclass
  method := msg.method
  header :=
    { rmppVersion := rmppVersion1
      rmppType := .data
      rmppFlags := seg.rmppFlags
      rmppStatus := .noError
      segNum := seg.segNum
      length := seg.length }
  data i := if i < seg.size then msg.bytes (seg.offset + i) else tail i

def sendMulti : SendCntxt → SendEvent → SendCntxt × List Sent :=
  rmppSendMulti msg.rmppDataLength msg.rmppMaxRetries

end Message

def Sent.abort? : Sent → Option RmppStatus
  | .data _ => none
  | .abort status => some status

/-- Both sides and the network: the segments and ABORTs that the sender sent, and the
answers of the receiver. -/
structure Exchange where
  transfer : Transfer
  aborts : List RmppStatus
  receiver : RecvCntxt
  replies : List RmppHeader

/-- Delivery of a segment, with what else decides how the receiver goes on; delivery of an
answer; or a new context of the receiver. -/
inductive ExchangeEvent where
  | data (i : Nat) (tail : Nat → UInt8) (mem : Option (Nat → UInt8)) (sendOk : Bool)
  | reply (i : Nat) (sends : Nat)
  | newCntxt

def ExchangeEvent.hasMemory : ExchangeEvent → Bool
  | .data _ _ mem _ => mem.isSome
  | _ => true

namespace Exchange

variable (msg : Message)

def send (x : Exchange) (e : SendEvent) : Exchange :=
  { x with
    transfer := x.transfer.step msg.sendMulti e
    aborts :=
      if x.transfer.cntxt.released then x.aborts
      else x.aborts ++ (msg.sendMulti x.transfer.cntxt e).2.filterMap Sent.abort? }

def receive (x : Exchange) (e : RecvEvent) : Exchange :=
  if x.receiver.released then x
  else
    let (c, _, sent) := rmppReceiveGetmultiResponse x.receiver e
    { x with receiver := c, replies := x.replies ++ sent }

def step (x : Exchange) : ExchangeEvent → Exchange
  | .data i tail mem sendOk =>
    match x.transfer.sent[i]? with
    | none => x
    | some seg => x.receive ⟨msg.packet seg tail, mem, sendOk⟩
  | .reply i sends =>
    match x.replies[i]? with
    | none => x
    | some header => x.send msg (.packet stlBaseVersion header sends)
  | .newCntxt => { x with receiver := .fresh }

def started (req : RmppHeader) (sends : Nat) : Exchange :=
  send msg { transfer := { cntxt := SendCntxt.fresh msg.len, sent := [] }, aborts := [],
             receiver := .fresh, replies := [] } (.packet stlBaseVersion req sends)

end Exchange

end OpaFm.Rmpp
