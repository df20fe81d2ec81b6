import OpaFm.Rmpp.Proofs.ExchangeReceiver
import OpaFm.Rmpp.Proofs.Retransmit

/-!
# Transfers from end to end

The window of the sender is always the one segment that was sent last.  An ACK that is
still in the network is for that segment or an earlier one, so that it either opens the
window for the next segment or is discarded.
-/

namespace OpaFm.Rmpp

open Lib

/-- No side has sent an ABORT, and a request that is complete has the length and the bytes
of the message. -/
structure Exchange.Correct (msg : Message) (x : Exchange) : Prop where
  sender : x.aborts = []
  receiver : ∀ header ∈ x.replies, header.rmppType ≠ .abort
  complete : x.receiver.released = false → x.receiver.hashed = true →
    x.receiver.reqInProg = false → x.receiver.Holds msg msg.len

structure Exchange.Sound (msg : Message) (x : Exchange) : Prop where
  transfer : x.transfer.Sound msg.len
  sent_le : ∀ s ∈ x.transfer.sent, s.segNum.toNat ≤ x.transfer.cntxt.wl
  window : x.transfer.cntxt.released = false → x.transfer.cntxt.wf = x.transfer.cntxt.wl
  aborts : x.aborts = []
  replies : ∀ header ∈ x.replies, GoodReply (segCount msg.len) x.transfer.cntxt.wl header
  receiving : x.receiver.released = false → x.receiver.hashed = true →
    Receiving msg x.transfer.cntxt.wl x.receiver

theorem GoodReply.mono {total n n' : Nat} {header : RmppHeader} (hle : n ≤ n')
    (h : GoodReply total n header) : GoodReply total n' header :=
  { h with sent_le := h.sent_le.trans hle }

theorem Receiving.mono {msg : Message} {n n' : Nat} {c : RecvCntxt} (hle : n ≤ n')
    (h : Receiving msg n c) : Receiving msg n' c :=
  ⟨h.es_pos, h.es_le, h.es_sent.trans (Nat.succ_le_succ hle), h.held, h.done⟩

theorem Exchange.Sound.correct {msg : Message} {x : Exchange} (h : x.Sound msg) :
    x.Correct msg where
  sender := h.aborts
  receiver := by
    intro header hmem habort
    have hack := (h.replies header hmem).ack
    rw [habort] at hack
    cases hack
  complete hkept hhashed hdone := ((h.receiving hkept hhashed).done hdone).2

/-! ## The sender -/

variable {len : Nat} {c : SendCntxt} {limits : SendLimits} {header : RmppHeader}
  {r : SendCntxt × Option RmppStatus}

theorem receiveAck_reply (hcount : segCount len < 2 ^ 16) (h : Live len c) (hwindow : c.wf = c.wl)
    (hreply : GoodReply (segCount len) c.wl header) :
    (c.receiveAck header).2 = none ∧ c.wl ≤ (c.receiveAck header).1.wl ∧
      ((c.receiveAck header).1.lastAck ≠ (c.receiveAck header).1.segTotal →
        (c.receiveAck header).1.wf = (c.receiveAck header).1.wl) := by
  have hsent := hreply.sent_le
  have hle := hreply.total_le
  have hnwl := hreply.window
  have htotal := h.total_eq
  by_cases hstale : header.segNum.toNat < c.wf
  · have hsame : c.receiveAck header = (c, none) := if_pos hstale
    rw [hsame]
    exact ⟨rfl, Nat.le_refl _, fun _ => hwindow⟩
  · -- the ACK of the one segment of the window
    have hnum : header.segNum.toNat = c.wl := by omega
    have haccepts : c.AcceptsAck header := by
      refine ⟨not_lt.mp hstale, hsent, ?_⟩
      rw [hnwl]
      split <;> omega
    rw [receiveAck_accepted hcount h haccepts]
    by_cases hlast : header.segNum.toNat = c.segTotal
    · rw [if_pos hlast]
      exact ⟨rfl, Nat.le_refl _, fun hne => absurd hlast hne⟩
    · rw [if_neg hlast]
      rw [if_neg (by rwa [← htotal])] at hnwl
      rw [hnwl, if_neg (by omega)]
      exact ⟨rfl, hnum ▸ Nat.le_succ _, fun _ => rfl⟩

structure Continues (c c' : SendCntxt) (out : List Sent) : Prop where
  no_abort : out.filterMap Sent.abort? = []
  wl_le : c.wl ≤ c'.wl
  sent_le : ∀ s ∈ out.filterMap Sent.segment?, s.segNum.toNat ≤ c'.wl
  window : c'.released = false → c'.wf = c'.wl

theorem finish_no_abort {size sends : Nat} (hnone : r.2 = none) :
    (SendCntxt.finish size sends r).2.filterMap Sent.abort? = [] := by
  obtain ⟨c, status⟩ := r
  cases hnone
  rw [List.filterMap_eq_nil_iff]
  intro s hs
  by_cases hlast : c.lastAck = c.segTotal
  · simp [SendCntxt.finish, hlast] at hs
  · rw [finish_eq hlast] at hs
    obtain ⟨k, -, -, rfl⟩ := mem_sendSegments _ _ _ _ _ _ hs
    rfl

theorem finish_continues {size sends : Nat} (hres : Resolved len r) (hnone : r.2 = none)
    (hwl : c.wl ≤ r.1.wl) (hwindow : r.1.lastAck ≠ r.1.segTotal → r.1.wf = r.1.wl) :
    Continues c (SendCntxt.finish size sends r).1 (SendCntxt.finish size sends r).2 := by
  obtain ⟨ns, released, hfst⟩ := finish_fst size sends hres
  constructor
  case no_abort => exact finish_no_abort hnone
  case wl_le =>
      rw [hfst]
      exact hwl
  case sent_le =>
      intro s hs
      obtain ⟨-, -, k, -, hto, rfl⟩ := mem_finish (mem_segments.mp hs)
      rw [hfst]
      calc
        (SendCntxt.segment { r.1 with ns := k } size).segNum.toNat = k % 2 ^ 32 := rfl
        _ ≤ k := Nat.mod_le _ _
        _ ≤ r.1.wl := hto
  case window =>
      intro hkept
      have hlive := finish_live hres hkept
      rw [hfst] at hlive ⊢
      have hlast : r.1.lastAck ≠ r.1.segTotal := by
        have htotal : r.1.segTotal = segCount len := hlive.total_eq
        rw [htotal]
        exact hlive.lastAck_lt.ne
      exact hwindow hlast

theorem sendMulti_continues (hcount : segCount len < 2 ^ 16) (h : Live len c)
    (hwindow : c.wf = c.wl) (hreply : GoodReply (segCount len) c.wl header) (sends : Nat) :
    Continues c (c.sendMulti limits (.packet stlBaseVersion header sends)).1
      (c.sendMulti limits (.packet stlBaseVersion header sends)).2 := by
  have hack : c.handled limits (.packet stlBaseVersion header sends) =
      some (c.receiveAck header) := receivePacket_ack hreply.version hreply.active hreply.ack
  rw [sendMulti_live h, hack]
  obtain ⟨hnone, hwl, hnext⟩ := receiveAck_reply hcount h hwindow hreply
  exact finish_continues (receiveAck_resolved hcount h) hnone hwl hnext

/-! ## Runs -/

variable {msg : Message} {x : Exchange}

theorem send_live (hkept : x.transfer.cntxt.released = false) (e : SendEvent) :
    x.send msg e =
      { x with
        transfer :=
          { cntxt := (msg.sendMulti x.transfer.cntxt e).1
            sent := x.transfer.sent ++
              (msg.sendMulti x.transfer.cntxt e).2.filterMap Sent.segment? }
        aborts := x.aborts ++ (msg.sendMulti x.transfer.cntxt e).2.filterMap Sent.abort? } := by
  simp [Exchange.send, Transfer.step, hkept]

theorem send_released (hreleased : x.transfer.cntxt.released = true) (e : SendEvent) :
    x.send msg e = x := by
  simp [Exchange.send, Transfer.step, hreleased]

theorem send_sound (h : x.Sound msg) (e : SendEvent)
    (hkept : x.transfer.cntxt.released = false)
    (htransfer : (x.transfer.step msg.sendMulti e).Sound msg.len)
    (hcont : Continues x.transfer.cntxt (msg.sendMulti x.transfer.cntxt e).1
      (msg.sendMulti x.transfer.cntxt e).2) : (x.send msg e).Sound msg := by
  have hstep : x.transfer.step msg.sendMulti e = (x.send msg e).transfer := rfl
  rw [hstep] at htransfer
  rw [send_live hkept] at htransfer ⊢
  constructor
  case transfer => exact htransfer
  case sent_le =>
      intro s hs
      rcases List.mem_append.mp hs with hold | hnew
      · exact (h.sent_le s hold).trans hcont.wl_le
      · exact hcont.sent_le s hnew
  case window => exact hcont.window
  case aborts =>
      show x.aborts ++ _ = []
      rw [h.aborts, hcont.no_abort]
      rfl
  case replies =>
      intro header hmem
      exact (h.replies header hmem).mono hcont.wl_le
  case receiving =>
      intro hrecv hhashed
      exact (h.receiving hrecv hhashed).mono hcont.wl_le

theorem reply_sound (hcount : segCount msg.len < 2 ^ 16) (h : x.Sound msg)
    (hmem : header ∈ x.replies) (sends : Nat) :
    (x.send msg (.packet stlBaseVersion header sends)).Sound msg := by
  cases hreleased : x.transfer.cntxt.released with
  | true =>
    rw [send_released hreleased]
    exact h
  | false =>
    have hlive := h.transfer.live hreleased
    apply send_sound h _ hreleased
    · exact step_sound hcount h.transfer (.inr (.inr (.inl rfl)))
    · exact sendMulti_continues hcount hlive (h.window hreleased) (h.replies header hmem) sends

theorem data_sound (hcount : segCount msg.len < 2 ^ 16) (h : x.Sound msg) {seg : Segment}
    (hmem : seg ∈ x.transfer.sent) (tail bytes : Nat → UInt8) (sendOk : Bool) :
    (x.receive ⟨msg.packet seg tail, some bytes, sendOk⟩).Sound msg := by
  obtain ⟨k, hlow, hlast, rfl⟩ := h.transfer.sent_eq seg hmem
  have hsent : k ≤ x.transfer.cntxt.wl := by
    have hle := h.sent_le _ hmem
    rwa [segmentAt_segNum hcount hlast] at hle
  unfold Exchange.receive
  split
  next => exact h
  next hkept =>
    generalize hr : rmppReceiveGetmultiResponse x.receiver
      ⟨msg.packet (segmentAt msg.len k) tail, some bytes, sendOk⟩ = r
    have hrecv := receive_segment hcount hlow hlast hsent
      (h.receiving (Bool.eq_false_of_not_eq_true hkept)) hr.symm
    constructor
    case transfer => exact h.transfer
    case sent_le => exact h.sent_le
    case window => exact h.window
    case aborts => exact h.aborts
    case replies =>
        intro header hmem
        rcases List.mem_append.mp hmem with hold | hnew
        · exact h.replies header hold
        · exact hrecv.1 header hnew
    case receiving => exact hrecv.2

theorem exchange_step_sound (hcount : segCount msg.len < 2 ^ 16) (h : x.Sound msg)
    (e : ExchangeEvent) (hmemory : e.hasMemory = true) : (x.step msg e).Sound msg := by
  cases e with
  | data i tail mem sendOk =>
    obtain ⟨bytes, rfl⟩ := Option.isSome_iff_exists.mp hmemory
    simp only [Exchange.step]
    split
    next => exact h
    next seg hseg => exact data_sound hcount h (List.mem_of_getElem? hseg) tail bytes sendOk
  | reply i sends =>
    simp only [Exchange.step]
    split
    next => exact h
    next header hheader => exact reply_sound hcount h (List.mem_of_getElem? hheader) sends
  | newCntxt =>
    constructor
    case transfer => exact h.transfer
    case sent_le => exact h.sent_le
    case window => exact h.window
    case aborts => exact h.aborts
    case replies => exact h.replies
    case receiving =>
        intro _ hhashed
        cases hhashed

theorem exchange_started_sound (hcount : segCount msg.len < 2 ^ 16)
    (hlen : msg.len ≤ msg.rmppDataLength) (req : RmppHeader) (sends : Nat) :
    (Exchange.started msg req sends).Sound msg := by
  have htransfer : (Exchange.started msg req sends).transfer.Sound msg.len :=
    started_sound hcount req sends
  have hcall : msg.sendMulti (SendCntxt.fresh msg.len) (.packet stlBaseVersion req sends) =
      SendCntxt.finish (segSize msg.len) sends
        ((SendCntxt.fresh msg.len).start ⟨msg.rmppDataLength, msg.rmppMaxRetries⟩
          (segSize msg.len)) := by
    rw [← saDataSize_stl]
    rfl
  have hcont : Continues (SendCntxt.fresh msg.len)
      (msg.sendMulti (SendCntxt.fresh msg.len) (.packet stlBaseVersion req sends)).1
      (msg.sendMulti (SendCntxt.fresh msg.len) (.packet stlBaseVersion req sends)).2 := by
    rw [hcall]
    apply finish_continues (start_resolved hcount)
    all_goals rw [start_fresh hcount hlen]
    · exact Nat.zero_le _
    · exact fun _ => rfl
  unfold Exchange.started at htransfer ⊢
  rw [send_live rfl] at htransfer ⊢
  constructor
  case transfer => exact htransfer
  case sent_le => exact hcont.sent_le
  case window => exact hcont.window
  case aborts => exact hcont.no_abort
  case replies =>
      intro header hmem
      cases hmem
  case receiving =>
      intro _ hhashed
      cases hhashed

/-- A message of at most 65535 segments arrives as it was sent: in every run of both sides
over the network in which the memory of the receiver does not run out, no side aborts, and a
complete request has the message's length and bytes. -/
theorem exchange_correct (msg : Message) (hlen : msg.len ≤ msg.rmppDataLength)
    (hsegs : msg.len ≤ 65535 * stlSaDataLen) (req : RmppHeader) (sends : Nat)
    (events : List ExchangeEvent) (hmemory : ∀ e ∈ events, e.hasMemory = true) :
    AllStates (Exchange.step msg) (Exchange.Correct msg) (Exchange.started msg req sends)
      events := by
  have hcount := segCount_lt_of_le hsegs
  exact allStates_of_inputs (fun (x : Exchange) (h : x.Sound msg) => h.correct)
    (fun _ e h he => exchange_step_sound hcount h e he) events _
    (exchange_started_sound hcount hlen req sends) hmemory

def sampleMessage (rmppDataLength len : Nat) : Message where
  rmppDataLength := rmppDataLength
  rmppMaxRetries := 3
  mclass := 0x32
  method := 0x92
  len := len
  bytes := fun i => UInt8.ofNat i

def deliver (i : Nat) : ExchangeEvent := .data i (fun _ => 0) (some fun _ => 0) true

/-- Two segments, with the ACK of the first one and the segments delivered twice. -/
def twoSegments : List ExchangeEvent :=
  [deliver 0, deliver 0, .reply 0 1, deliver 1, .reply 1 1, deliver 0, deliver 1]

theorem exchange_correct_two_segments :
    2500 ≤ 65535 * stlSaDataLen ∧
      AllStates (Exchange.step (sampleMessage 5000 2500)) (Exchange.Correct (sampleMessage 5000 2500))
        (Exchange.started (sampleMessage 5000 2500) getTableRequest 1) twoSegments ∧
      (twoSegments.foldl (Exchange.step (sampleMessage 5000 2500))
        (Exchange.started (sampleMessage 5000 2500) getTableRequest 1)).receiver.reqInProg = false :=
  ⟨by decide, exchange_correct (sampleMessage 5000 2500) (by decide) (by decide) getTableRequest 1
    twoSegments (by decide), by decide⟩

/-- Without memory the receiver answers with a STOP that is not ACTIVE, and the sender aborts. -/
example : ([.data 0 (fun _ => 0) none true, .reply 0 1].foldl (Exchange.step (sampleMessage 5000 2500))
    (Exchange.started (sampleMessage 5000 2500) getTableRequest 1)).aborts = [.abortBadType] := by
  decide

/-- 66188 segments: the sender counts 652 of them and the receiver one, so that the request is
complete with the first segment and has another length. -/
theorem long_message_cut :
    131846496 ≤ 340006400 ∧
      ¬AllStates (Exchange.step (sampleMessage 340006400 131846496))
        (Exchange.Correct (sampleMessage 340006400 131846496))
        (Exchange.started (sampleMessage 340006400 131846496) getTableRequest 1) [deliver 0] := by
  refine ⟨by decide, fun h => ?_⟩
  have hlen := (h.2.complete rfl rfl rfl).1
  revert hlen
  decide

end OpaFm.Rmpp
