import Mathlib.Data.BitVec

/-!
# RMPP packets

The header fields of a MAD that the RMPP transfers look at, in host byte order.
-/

namespace OpaFm.Rmpp

def stlBaseVersion : Nat := 0x80
def stlSaClassVersion : Nat := 0x80
def rmppVersion1 : Nat := 1

def ibSaDataLen : Nat := 200

/-- `STL_SA_DATA_LEN`: a block of 2048 bytes less the SA header and the common one. -/
def stlSaDataLen : Nat := 2048 - 32 - 24

def saHeaderSize : Nat := 20

inductive RmppType where
  | not
  | data
  | ack
  | stop
  | abort
  | other (code : Nat)
  deriving DecidableEq, Repr

structure RmppFlags where
  active : Bool
  first : Bool
  last : Bool
  deriving DecidableEq, Repr

inductive RmppStatus where
  | noError
  | stopNoResources
  | abortInconsistentLastPayloadLength
  | abortInconsistentFirstSegnum
  | abortBadType
  | abortNewWindowLastTooSmall
  | abortSegnumTooBig
  | abortUnsupportedVersion
  | abortTooManyRetries
  | abortUnspecified
  | other (code : Nat)
  deriving DecidableEq, Repr

/-- `STL_SA_MAD_HEADER`.  `length` is the payload length of a DATA packet and the new
window last of an ACK. -/
structure RmppHeader where
  rmppVersion : Nat
  rmppType : RmppType
  rmppFlags : RmppFlags
  rmppStatus : RmppStatus
  segNum : BitVec 32
  length : BitVec 32
  deriving DecidableEq, Repr

/-!
## Sending a response in segments

`rmpp_send_multi` and `sa_send_multi`, which differ in where their limits come from.  A
call handles the request itself, a packet of the receiver or the timeout of an ACK, and
then sends the segments of the window that were not sent yet.
-/

/-- `rmpp_data_length` and `rmppMaxRetries`, or `sa_data_length` and `max_retries`. -/
structure SendLimits where
  dataLength : Nat
  maxRetries : Nat

/-- The fields of a context that a sender uses.  `released` tells that the transfer is
over; a context without retries left is released by the aging of contexts. -/
structure SendCntxt where
  hashed : Bool
  isDS : Bool
  len : Nat
  wf : Nat
  wl : Nat
  ns : Nat
  lastAck : Nat
  retries : Nat
  segTotal : Nat
  released : Bool
  deriving DecidableEq, Repr

/-- A context for a response of `len` bytes. -/
def SendCntxt.fresh (len : Nat) : SendCntxt where
  hashed := false
  isDS := false
  len := len
  wf := 0
  wl := 0
  ns := 0
  lastAck := 0
  retries := 0
  segTotal := 0
  released := false

/-- A DATA packet: its header fields and which bytes of the response were copied into
it. -/
structure Segment where
  segNum : BitVec 32
  rmppFlags : RmppFlags
  length : BitVec 32
  offset : Nat
  size : Nat
  deriving DecidableEq, Repr

inductive Sent where
  | data (seg : Segment)
  | abort (status : RmppStatus)
  deriving DecidableEq, Repr

/-- A call of the sender: for a packet with its base version, or for a timeout.
`sends` is how many packets go out before sending fails. -/
inductive SendEvent where
  | packet (bversion : Nat) (resp : RmppHeader) (sends : Nat)
  | timeout (sends : Nat)

/-- `sa_data_size`; there is no packet when an ACK timed out. -/
def saDataSize (bversion : Option Nat) (len : Nat) : Nat :=
  if bversion = some stlBaseVersion then min stlSaDataLen len else ibSaDataLen

namespace SendCntxt

variable (c : SendCntxt)

/-- `dlen` of the segment that is sent next. -/
def dlen (size : Nat) : Nat :=
  if c.ns = c.segTotal then
    let d := if size ≠ 0 then c.len % size else 0
    if d ≠ 0 then d else size
  else size

/-- The segment that is sent next.  The first one has the length of the payload, with an
SA header for each segment. -/
def segment (size : Nat) : Segment :=
  { segNum := BitVec.ofNat 32 c.ns
    rmppFlags := { active := true, first := c.ns = 1, last := c.ns = c.segTotal }
    length :=
      if c.ns = 1 then BitVec.ofNat 32 (c.len + c.segTotal * saHeaderSize)
      else if c.ns = c.segTotal then
        let length := BitVec.ofNat 32 (c.dlen size + saHeaderSize)
        if length = 0 then BitVec.ofNat 32 size else length
      else 0
    offset := (c.ns - 1) * size
    size := if c.len ≠ 0 then c.dlen size else 0 }

def sendSegments (size wl : Nat) : Nat → Nat → SendCntxt → SendCntxt × List Sent × Bool
  | 0, _, c => (c, [], true)
  | fuel + 1, sends, c =>
    if c.ns ≤ wl then
      let c' := { c with ns := c.ns + 1 }
      match sends with
      | 0 => (c', [], false)
      | sends + 1 =>
        let (c'', sent, done) := sendSegments size wl fuel sends c'
        (c'', .data (c.segment size) :: sent, done)
    else (c, [], true)

def start (limits : SendLimits) (size : Nat) : SendCntxt × Option RmppStatus :=
  let c :=
    { c with
      wf := 1
      wl := if c.isDS then c.wl else 1
      ns := 1
      lastAck := 0
      retries := 0
      isDS := false
      hashed := true }
  if c.len = 0 then ({ c with segTotal := 1 }, none)
  else if c.len ≤ limits.dataLength then
    ({ c with segTotal := (if size ≠ 0 then (c.len + size - 1) / size else 1) % 2 ^ 16 }, none)
  else ({ c with len := 0, segTotal := 1 }, some .abortBadType)

def receiveAck (resp : RmppHeader) : SendCntxt × Option RmppStatus :=
  let segNum := resp.segNum.toNat
  let length := resp.length.toNat
  if segNum < c.wf then (c, none)
  else if c.wl < segNum then (c, some .abortSegnumTooBig)
  else if length < c.wl then (c, some .abortNewWindowLastTooSmall)
  else if c.lastAck ≤ segNum then
    let c := { c with lastAck := segNum % 2 ^ 16, retries := 0 }
    if segNum = c.segTotal then (c, none)
    else
      ({ c with
          wf := c.lastAck + 1
          wl := if c.segTotal < length then c.segTotal else length }, none)
  else (c, none)

/-- A packet of the receiver; `none` when it ends the transfer. -/
def receivePacket (resp : RmppHeader) : Option (SendCntxt × Option RmppStatus) :=
  if resp.rmppType = .not ∧ resp.rmppFlags.active then some (c, some .abortBadType)
  else if resp.rmppVersion ≠ rmppVersion1 then some (c, some .abortUnsupportedVersion)
  else if !resp.rmppFlags.active then some (c, some .abortBadType)
  else if resp.rmppType = .ack then some (c.receiveAck resp)
  else if resp.rmppType = .stop ∨ resp.rmppType = .abort then none
  else some (c, some .abortBadType)

def ackTimeout (limits : SendLimits) : SendCntxt × Option RmppStatus :=
  let c := { c with retries := (c.retries + 1) % 2 ^ 16 }
  if limits.maxRetries < c.retries then (c, some .abortTooManyRetries)
  else ({ c with ns := c.wf }, none)

def finish (size sends : Nat) : SendCntxt × Option RmppStatus → SendCntxt × List Sent
  | (c, some status) => ({ c with released := true }, if sends = 0 then [] else [.abort status])
  | (c, none) =>
    if c.lastAck = c.segTotal then ({ c with released := true }, [])
    else
      let (c', sent, done) := sendSegments size c.wl (c.wl + 1 - c.ns) sends c
      ({ c' with released := !done }, sent)

def sendMulti (limits : SendLimits) : SendEvent → SendCntxt × List Sent
  | .packet bversion resp sends =>
    let size := saDataSize (some bversion) c.len
    if !c.hashed || c.isDS then finish size sends (c.start limits size)
    else
      match c.receivePacket resp with
      | none => ({ c with released := true }, [])
      | some r => finish size sends r
  | .timeout sends =>
    let size := saDataSize none c.len
    if !c.hashed || c.isDS then finish size sends (c.start limits size)
    else finish size sends (c.ackTimeout limits)

end SendCntxt

def rmppSendMulti (rmppDataLength rmppMaxRetries : Nat) (c : SendCntxt) (e : SendEvent) :
    SendCntxt × List Sent :=
  c.sendMulti ⟨rmppDataLength, rmppMaxRetries⟩ e

def saSendMulti (saDataLength maxRetries : Nat) (c : SendCntxt) (e : SendEvent) :
    SendCntxt × List Sent :=
  c.sendMulti ⟨saDataLength, maxRetries⟩ e

/-! ### Transfers -/

def Sent.segment? : Sent → Option Segment
  | .data seg => some seg
  | .abort _ => none

/-- A transfer: the context and the segments sent so far. -/
structure Transfer where
  cntxt : SendCntxt
  sent : List Segment
  deriving DecidableEq, Repr

namespace Transfer

/-- The next call for the context, by one of the two functions.  A released context is
not found any more. -/
def step (sendMulti : SendCntxt → SendEvent → SendCntxt × List Sent) (t : Transfer)
    (e : SendEvent) : Transfer :=
  if t.cntxt.released then t
  else
    let (c, sent) := sendMulti t.cntxt e
    { cntxt := c, sent := t.sent ++ sent.filterMap Sent.segment? }

/-- The transfer of `len` bytes after the call for the request, which came in a packet
with the base version of STL. -/
def started (sendMulti : SendCntxt → SendEvent → SendCntxt × List Sent) (len : Nat)
    (req : RmppHeader) (sends : Nat) : Transfer :=
  step sendMulti { cntxt := SendCntxt.fresh len, sent := [] } (.packet stlBaseVersion req sends)

end Transfer

end OpaFm.Rmpp
