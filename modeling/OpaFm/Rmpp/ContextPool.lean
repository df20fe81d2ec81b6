import OpaFm.Lib.LinkedList
import OpaFm.Lib.Run
import OpaFm.Rmpp.Receive
import OpaFm.Rmpp.Send

/-!
# The pool of contexts

The contexts of one RMPP user: a free list, 64 hash chains by LID, and reference counts.
All calls are made under `rmpp_cntxt_lock`, which a thread that holds it waits for forever.
-/

namespace OpaFm.Rmpp

open OpaFm.Lib

def rmppCntxtHashTableDepth : Nat := 64

def rmppCmdGetResp : Nat := 0x81

def stlSamadDataCount : Nat := 2048 - (32 + 8)

inductive ContextGet where
  | allocated
  | notAvailable
  | exist
  | existGetMulti
  deriving DecidableEq, Repr

/-- `rmpp_cntxt_t`.  `info` tells whether the pointer to the user is set; the fields of the
transfer are those of the sender, which reads `hashed` from here. -/
structure RmppCntxt where
  tstamp : BitVec 64
  tid : BitVec 64
  lid : BitVec 16
  method : Nat
  hashed : Bool
  ref : BitVec 32
  usrId : Int
  info : Bool
  reqInProg : Bool
  respTimeout : BitVec 64
  xfer : SendCntxt

def RmppCntxt.zero : RmppCntxt where
  tstamp := 0
  tid := 0
  lid := 0
  method := 0
  hashed := false
  ref := 0
  usrId := 0
  info := false
  reqInProg := false
  respTimeout := 0
  xfer := SendCntxt.fresh 0

/-- The fields that `rmpp_cntxt_retire` resets. -/
def RmppCntxt.reset (x : RmppCntxt) : RmppCntxt :=
  { x with
    usrId := -1
    info := false
    ref := 0
    lid := 0
    tid := 0
    hashed := false
    xfer := { x.xfer with isDS := false, len := 0 } }

def cntxtBucket (lid : BitVec 16) : Fin rmppCntxtHashTableDepth :=
  ⟨lid.toNat % rmppCntxtHashTableDepth, Nat.mod_lt _ (by decide)⟩

/-- The address and transaction of a received MAD. -/
structure CntxtMad where
  slid : BitVec 16
  tid : BitVec 64
  method : Nat

/-- A call that ends the program, waits for a lock that its own thread holds, or does not
come to the end of a list. -/
inductive PoolFault where
  | nullPointer
  | deadlock
  | endless
  deriving DecidableEq, Repr

/-- The part of `rmpp_user_info_t` that the calls use; `n` is `rmpp_max_cntxt`. -/
structure CntxtPool (n : Nat) where
  usrId : Nat
  nalloc : Nat
  nfree : Nat
  freeList : Option (Fin n)
  hash : Fin rmppCntxtHashTableDepth → Option (Fin n)
  links : Links (Fin n)
  cntxt : Fin n → RmppCntxt

namespace CntxtPool

variable {n : Nat} (s : CntxtPool n)

def setCntxt (c : Fin n) (x : RmppCntxt) : CntxtPool n :=
  { s with cntxt := Function.update s.cntxt c x }

/-! ## The list macros -/

def deleteFree (c : Fin n) : Except PoolFault (CntxtPool n) :=
  match s.links.deleteEntry s.freeList c with
  | none => .error .nullPointer
  | some (links, list) => .ok { s with links := links, freeList := list }

def insertFree (c : Fin n) : CntxtPool n :=
  { s with links := s.links.insertHead s.freeList c, freeList := some c }

def deleteHash (b : Fin rmppCntxtHashTableDepth) (c : Fin n) : Except PoolFault (CntxtPool n) :=
  match s.links.deleteEntry (s.hash b) c with
  | none => .error .nullPointer
  | some (links, list) => .ok { s with links := links, hash := Function.update s.hash b list }

def insertHash (b : Fin rmppCntxtHashTableDepth) (c : Fin n) : CntxtPool n :=
  { s with
    links := s.links.insertHead (s.hash b) c
    hash := Function.update s.hash b (some c) }

def moveToHead (b : Fin rmppCntxtHashTableDepth) (c : Fin n) : Except PoolFault (CntxtPool n) := do
  let s ← s.deleteHash b c
  return s.insertHash b c

/-- `INCR_RMPP_CNTXT_NFREE` and its three relatives. -/
def incrNfree : CntxtPool n := if s.nfree < n then { s with nfree := s.nfree + 1 } else s

def decrNfree : CntxtPool n := if s.nfree ≠ 0 then { s with nfree := s.nfree - 1 } else s

def incrNalloc : CntxtPool n := if s.nalloc < n then { s with nalloc := s.nalloc + 1 } else s

def decrNalloc : CntxtPool n := if s.nalloc ≠ 0 then { s with nalloc := s.nalloc - 1 } else s

def zeroed (n usrId : Nat) : CntxtPool n where
  usrId := usrId
  nalloc := 0
  nfree := n
  freeList := none
  hash := fun _ => none
  links := { next := fun _ => none, prev := fun _ => none }
  cntxt := fun _ => .zero

/-- The pool that `rmpp_protocol_init` sets up. -/
def init (n usrId : Nat) : CntxtPool n := (List.finRange n).foldl insertFree (zeroed n usrId)

/-! ## Releasing -/

def retire (c : Fin n) : CntxtPool n :=
  if !(s.cntxt c).info then s
  else ((((s.setCntxt c (s.cntxt c).reset).insertFree c).incrNfree).decrNalloc)

/-- A context is taken out of its chain, if it is in one, and its links are cleared. -/
def unhash (c : Fin n) : Except PoolFault (CntxtPool n) := do
  let x := s.cntxt c
  let s ← if x.hashed then s.deleteHash (cntxtBucket x.lid) c else .ok s
  let links : Links (Fin n) :=
    { next := Function.update s.links.next c none
      prev := Function.update s.links.prev c none }
  return { s with links := links }

/-- What is done under the lock: one reference less, and without references the context is
taken out of its chain and retired. -/
def dropRef (c : Fin n) : Except PoolFault (CntxtPool n) :=
  let x := s.cntxt c
  if x.ref = 0 then .ok s
  else
    let s := s.setCntxt c { x with ref := x.ref - 1 }
    if x.ref - 1 = 0 then do
      let s ← s.unhash c
      return s.retire c
    else .ok s

/-- `rmpp_cntxt_release`, with whether it returns `VSTATUS_OK`. -/
def rmppCntxtRelease : Option (Fin n) → Except PoolFault (CntxtPool n × Bool)
  | none => .ok (s, false)
  | some c =>
    if (s.cntxt c).usrId = -1 then .ok (s, true)
    else if !(s.cntxt c).info then .ok (s, false)
    else do
      let s ← s.dropRef c
      return (s, true)

def rmppCntxtFullRelease : Option (Fin n) → Except PoolFault (CntxtPool n × Bool)
  | none => .ok (s, false)
  | some c =>
    let x := s.cntxt c
    if x.usrId = -1 then .ok (s, true)
    else if !x.info then .ok (s, false)
    else do
      let s := if 1 < x.ref then s.setCntxt c { x with ref := 1 } else s
      let (s, _) ← s.rmppCntxtRelease (some c)
      return (s, true)

def rmppLclCntxtRelease (c : Fin n) : Except PoolFault (CntxtPool n) :=
  if !(s.cntxt c).info then .ok s else s.dropRef c

/-! ## Reserving and finding -/

def rmppCntxtReserve (now : BitVec 64) : Option (Fin n) → CntxtPool n × Bool
  | none => (s, false)
  | some c =>
    let x := s.cntxt c
    if !x.info then (s, false)
    else
      let x := { x with ref := x.ref + 1 }
      if !x.hashed then
        let s := s.setCntxt c { x with hashed := true, tstamp := now }
        (s.insertHash (cntxtBucket x.lid) c, true)
      else (s.setCntxt c x, true)

def findHashed (mad : CntxtMad) : Option (Fin n) :=
  findLinked s.links.next
    (fun c => (s.cntxt c).lid = mad.slid && (s.cntxt c).tid = mad.tid) (n + 1)
    (s.hash (cntxtBucket mad.slid))

/-- A context that was found is moved to the head of its chain and gets a reference. -/
def touch (b : Fin rmppCntxtHashTableDepth) (now : BitVec 64) (c : Fin n) :
    Except PoolFault (CntxtPool n) := do
  let s ← s.moveToHead b c
  let x := s.cntxt c
  return s.setCntxt c { x with tstamp := now, ref := x.ref + 1 }

def rmppCntxtFind (now : BitVec 64) (mad : CntxtMad) :
    Except PoolFault (CntxtPool n × Option (Fin n)) :=
  match s.findHashed mad with
  | none => .ok (s, none)
  | some c => do
      let s ← s.touch (cntxtBucket mad.slid) now c
      return (s, some c)

def getMultiInProg (c : Fin n) : Bool :=
  (s.cntxt c).method != rmppCmdGet && (s.cntxt c).method != rmppCmdGetResp && (s.cntxt c).reqInProg

def cntxtGet (now : BitVec 64) (mad : CntxtMad) :
    Except PoolFault (CntxtPool n × ContextGet × Option (Fin n)) :=
  match s.findHashed mad with
  | some c =>
    if s.getMultiInProg c then do
      let s ← s.touch (cntxtBucket mad.slid) now c
      return (s, .existGetMulti, some c)
    else .ok (s, .exist, none)
  | none =>
    match s.freeList with
    | none => .ok (s, .notAvailable, none)
    | some c => do
        let s ← s.deleteFree c
        let s := (s.incrNalloc).decrNfree
        let s := s.setCntxt c
          { s.cntxt c with
            ref := 1
            lid := mad.slid
            tid := mad.tid
            method := mad.method
            tstamp := now
            info := true
            usrId := s.usrId }
        return (s, .allocated, some c)

/-! ## Aging -/

/-- `rmpp_send_multi` for a timeout, with the lock held: a context that starts to send is
reserved and one whose transfer ends is released, except when no retries are left. -/
def sendMultiLocked (limits : SendLimits) (sends : Nat) (x : RmppCntxt) :
    Except PoolFault RmppCntxt :=
  if !x.hashed || x.xfer.isDS then .error .deadlock
  else
    let r := (rmppSendMulti limits.dataLength limits.maxRetries { x.xfer with hashed := x.hashed }
      (.timeout sends)).1
    if r.released && r.retries ≤ limits.maxRetries then .error .deadlock
    else .ok { x with xfer := { r with released := false } }

/-- `rmpp_send_reply` without a packet, for a context whose ACK timed out. -/
def sendTimeout (limits : SendLimits) (sends : Nat) (x : RmppCntxt) : Except PoolFault RmppCntxt :=
  if !x.info then .ok x
  else if x.method = rmppCmdGettable then
    sendMultiLocked limits sends
      (if limits.dataLength < x.xfer.len then { x with xfer := { x.xfer with len := 0 } } else x)
  else if stlSamadDataCount < x.xfer.len then .ok { x with xfer := { x.xfer with len := 0 } }
  else .ok x

def ageCntxt (limits : SendLimits) (now : BitVec 64) (sends : Nat)
    (b : Fin rmppCntxtHashTableDepth) (c : Fin n) : Except PoolFault (CntxtPool n) := do
  let s ← s.moveToHead b c
  let x ← sendTimeout limits sends { s.cntxt c with tstamp := now }
  let s := s.setCntxt c x
  if limits.maxRetries < x.xfer.retries then s.rmppLclCntxtRelease c else .ok s

def ageChain (limits : SendLimits) (now : BitVec 64) (sends : Fin n → Nat)
    (b : Fin rmppCntxtHashTableDepth) :
    Nat → CntxtPool n → Option (Fin n) → Except PoolFault (CntxtPool n)
  | _, s, none => .ok s
  | 0, _, some _ => .error .endless
  | fuel + 1, s, some c =>
    let next := s.links.next c
    if (s.cntxt c).respTimeout < now - (s.cntxt c).tstamp then do
      let s ← s.ageCntxt limits now (sends c) b c
      ageChain limits now sends b fuel s next
    else ageChain limits now sends b fuel s next

def rmppCntxtAge (limits : SendLimits) (now : BitVec 64) (sends : Fin n → Nat) :
    Except PoolFault (CntxtPool n) :=
  (List.finRange rmppCntxtHashTableDepth).foldlM
    (fun s b => ageChain limits now sends b n s (s.hash b)) s

end CntxtPool

/-- A call, with the time it reads, or a write of the fields that a transfer keeps in its
context between two calls. -/
inductive PoolCall (n : Nat) where
  | get (now : BitVec 64) (mad : CntxtMad)
  | find (now : BitVec 64) (mad : CntxtMad)
  | reserve (now : BitVec 64) (c : Option (Fin n))
  | release (c : Option (Fin n))
  | fullRelease (c : Option (Fin n))
  | age (now : BitVec 64) (sends : Fin n → Nat)
  | write (c : Fin n) (method : Nat) (reqInProg : Bool) (respTimeout : BitVec 64)
      (xfer : SendCntxt)

inductive PoolReply (n : Nat) where
  | none
  | status (ok : Bool)
  | found (c : Option (Fin n))
  | context (get : ContextGet) (c : Option (Fin n))

namespace CntxtPool

variable {n : Nat}

def step (limits : SendLimits) (s : CntxtPool n) :
    PoolCall n → Except PoolFault (CntxtPool n × PoolReply n)
  | .get now mad => do
      let (s, get, c) ← s.cntxtGet now mad
      return (s, .context get c)
  | .find now mad => do
      let (s, c) ← s.rmppCntxtFind now mad
      return (s, .found c)
  | .reserve now c =>
    let (s, ok) := s.rmppCntxtReserve now c
    .ok (s, .status ok)
  | .release c => do
      let (s, ok) ← s.rmppCntxtRelease c
      return (s, .status ok)
  | .fullRelease c => do
      let (s, ok) ← s.rmppCntxtFullRelease c
      return (s, .status ok)
  | .age now sends => do
      let s ← s.rmppCntxtAge limits now sends
      return (s, .none)
  | .write c method reqInProg respTimeout xfer =>
    .ok (s.setCntxt c
      { s.cntxt c with
        method := method
        reqInProg := reqInProg
        respTimeout := respTimeout
        xfer := xfer }, .none)

end CntxtPool

end OpaFm.Rmpp
