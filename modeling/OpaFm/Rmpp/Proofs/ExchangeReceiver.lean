import OpaFm.Rmpp.Receive
import OpaFm.Rmpp.Proofs.ReceiveSegments
import OpaFm.Rmpp.Proofs.Segments

/-!
# The receiver of a message

What the receiver does with the segments of a message of at most 65535 segments, in any
order and repeated: it counts as many segments as the sender, finds the same length, and
its buffer holds the message up to the segment that is expected next.
-/

namespace OpaFm.Rmpp

def RecvCntxt.Holds (msg : Message) (n : Nat) (c : RecvCntxt) : Prop :=
  c.reqDataLen = msg.len ∧
    (msg.len ≠ 0 → ∃ b, c.reqData = some b ∧ b.size = msg.len ∧
      ∀ i < min n msg.len, b.bytes i = msg.bytes i)

structure Receiving (msg : Message) (sent : Nat) (c : RecvCntxt) : Prop where
  es_pos : 1 ≤ c.es
  es_le : c.es ≤ segCount msg.len
  es_sent : c.es ≤ sent + 1
  held : 2 ≤ c.es →
    c.segTotal = segCount msg.len ∧ c.Holds msg ((c.es - 1) * stlSaDataLen)
  done : c.reqInProg = false → c.es = segCount msg.len ∧ c.Holds msg msg.len

structure GoodReply (total sent : Nat) (header : RmppHeader) : Prop where
  version : header.rmppVersion = rmppVersion1
  active : header.rmppFlags.active = true
  ack : header.rmppType = .ack
  sent_le : header.segNum.toNat ≤ sent
  total_le : header.segNum.toNat ≤ total
  window : header.length.toNat =
    if header.segNum.toNat = total then total else header.segNum.toNat + 1

/-! ## The lengths of both sides -/

section Lengths

variable {len : Nat}

theorem segCount_stl_bounds (h : len ≠ 0) :
    (segCount len - 1) * stlSaDataLen < len ∧ len ≤ segCount len * stlSaDataLen := by
  have hbounds := segCount_bounds h
  rcases Nat.lt_or_ge 1 (segCount len) with hmany | hone
  · rw [segSize_of_count hmany] at hbounds
    exact hbounds
  · have hcount : segCount len = 1 := Nat.le_antisymm hone (segCount_pos len)
    have hsize := segSize_le len
    rw [hcount] at hbounds ⊢
    rw [Nat.sub_self, Nat.zero_mul, Nat.one_mul]
    unfold stlSaDataLen
    omega

theorem len_le_segCount (len : Nat) : len ≤ segCount len * stlSaDataLen := by
  by_cases h : len = 0
  · rw [h]
    exact Nat.zero_le _
  · exact (segCount_stl_bounds h).2

theorem rmppSegTotal_segCount (hcount : segCount len < 2 ^ 16) :
    (segmentAt len 1).length.toNat = len + segCount len * saHeaderSize ∧
      rmppSegTotal stlSaDataLen (segmentAt len 1).length = segCount len := by
  have hpos := segCount_pos len
  have hlen := len_le_segCount len
  have hlow : (segCount len - 1) * stlSaDataLen ≤ len := by
    by_cases h : len = 0
    · subst h
      exact Nat.le_refl 0
    · exact (segCount_stl_bounds h).1.le
  have hlength : (segmentAt len 1).length.toNat = len + segCount len * saHeaderSize := by
    simp only [segmentAt, if_true, BitVec.toNat_ofNat]
    unfold stlSaDataLen at hlen
    unfold saHeaderSize
    exact Nat.mod_eq_of_lt (by omega)
  refine ⟨hlength, ?_⟩
  unfold rmppSegTotal
  rw [hlength]
  unfold stlSaDataLen saHeaderSize at *
  generalize segCount len = total at *
  have hwide : (len + total * 20 + (2048 - 32 - 24) + 20 - 1) % 2 ^ 32 =
      len + total * 20 + 2011 := by
    omega
  have hdiv : (len + total * 20 + 2011) / 2012 = total := by omega
  rw [hwide, show 2048 - 32 - 24 + 20 = 2012 from rfl, hdiv]
  exact Nat.mod_eq_of_lt hcount

end Lengths

/-! ## Accepted segments -/

variable {msg : Message} {c : RecvCntxt} {k sent : Nat} {tail : Nat → UInt8}

theorem packet_data (seg : Segment) {i : Nat} (hi : i < seg.size) :
    (msg.packet seg tail).data i = msg.bytes (seg.offset + i) := if_pos hi

theorem Holds.store {b : Buffer} {n n' offset count : Nat} {data : Nat → UInt8}
    (hbuffer : c.reqData = some b) (hsize : b.size = msg.len) (hlen : c.reqDataLen = msg.len)
    (hold : ∀ i < min n msg.len, b.bytes i = msg.bytes i)
    (hdata : ∀ i < count, data i = msg.bytes (offset + i))
    (hcover : ∀ i < min n' msg.len, i < n ∨ (offset ≤ i ∧ i < offset + count)) :
    (c.store offset count data).1.Holds msg n' := by
  refine ⟨hlen, fun _ => ⟨b.write offset count data, ?_, hsize, ?_⟩⟩
  · simp [RecvCntxt.store, hbuffer]
  · intro i hi
    unfold Buffer.write
    dsimp only
    split
    next hin =>
      rw [hdata _ (by omega)]
      congr 1
      omega
    next hout =>
      have hlow : i < n := (hcover i hi).resolve_right hout
      exact hold i (by omega)

structure Accepted (msg : Message) (k : Nat) (reqInProg : Bool) (c : RecvCntxt) : Prop where
  hashed : c.hashed = true
  segTotal : c.segTotal = segCount msg.len
  held : c.Holds msg (k * stlSaDataLen)
  es : c.es = if k = segCount msg.len then k else k + 1
  prog : c.reqInProg = reqInProg

theorem countSegment_holds {n : Nat} (last : Bool) (h : c.Holds msg n) :
    (c.countSegment last).Holds msg n := by
  cases last <;> exact h

theorem countSegment_es (hes : c.es = k) (hk : k < 2 ^ 16) (last : Bool) :
    (c.countSegment last).es = if last then k else k + 1 := by
  cases last with
  | true => exact hes
  | false =>
    show (c.es + 1) % 2 ^ 32 = k + 1
    rw [hes]
    exact Nat.mod_eq_of_lt (by omega)

theorem countSegment_segTotal (last : Bool) : (c.countSegment last).segTotal = c.segTotal := by
  cases last <;> rfl

theorem countSegment_hashed (last : Bool) : (c.countSegment last).hashed = c.hashed := by
  cases last <;> rfl

theorem countSegment_reqInProg (last : Bool) :
    (c.countSegment last).reqInProg = c.reqInProg := by
  cases last <;> rfl

theorem accepted_of_store {offset count : Nat} {data : Nat → UInt8} (hk : k < 2 ^ 16)
    (hhashed : c.hashed = true) (hes : c.es = k) (htotal : c.segTotal = segCount msg.len)
    (hholds : (c.store offset count data).1.Holds msg (k * stlSaDataLen)) {last : Bool}
    (hlast : last = decide (k = segCount msg.len)) :
    Accepted msg k c.reqInProg ((c.store offset count data).1.countSegment last) where
  hashed := (countSegment_hashed last).trans hhashed
  segTotal := (countSegment_segTotal last).trans htotal
  held := countSegment_holds last hholds
  es := by
    rw [countSegment_es (c := (c.store offset count data).1) hes hk, hlast]
    simp
  prog := countSegment_reqInProg last

theorem segmentAt_one_size {len : Nat} :
    (segmentAt len 1).size = if 1 = segCount len then len else stlSaDataLen := by
  have hsize : (segmentAt len 1).size = segSize len := by
    simp [segmentAt, segSize]
  rw [hsize]
  split
  next hone =>
    have hle := len_le_segCount len
    rw [← hone, Nat.one_mul] at hle
    exact Nat.min_eq_right hle
  next hmany =>
    have hpos := segCount_pos len
    exact segSize_of_count (by omega)

theorem firstSegment_accepted (hcount : segCount msg.len < 2 ^ 16) (hhashed : c.hashed = true)
    (hes : c.es = 1) (bytes : Nat → UInt8) :
    (rmppFirstSegment stlSaDataLen c (msg.packet (segmentAt msg.len 1) tail)
        (some bytes)).2.2 = none ∧
      Accepted msg 1 c.reqInProg (rmppFirstSegment stlSaDataLen c
        (msg.packet (segmentAt msg.len 1) tail) (some bytes)).1 := by
  obtain ⟨hlength, hsegs⟩ := rmppSegTotal_segCount hcount
  have hpos := segCount_pos msg.len
  have hne : (msg.packet (segmentAt msg.len 1) tail).header.length ≠ 0 := by
    intro h
    have hnat : (segmentAt msg.len 1).length.toNat = 0 := congrArg BitVec.toNat h
    rw [hlength] at hnat
    unfold saHeaderSize at hnat
    omega
  have hlen : (BitVec.ofNat 32 (msg.len + segCount msg.len * saHeaderSize) -
      BitVec.ofNat 32 (segCount msg.len * saHeaderSize)).toNat = msg.len := by
    have hle := len_le_segCount msg.len
    rw [BitVec.toNat_sub, BitVec.toNat_ofNat, BitVec.toNat_ofNat]
    unfold stlSaDataLen at hle
    unfold saHeaderSize
    omega
  have hfirst : (msg.packet (segmentAt msg.len 1) tail).header.rmppFlags.first = true := rfl
  rw [rmppFirstSegment_eq (some bytes) hfirst (fun h => hne h.1) ((if_pos hne).trans hsegs)
    ((if_pos hne).trans hlength) hlen]
  dsimp only
  by_cases hzero : msg.len = 0
  · -- an empty message: no buffer
    rw [if_pos hzero]
    refine ⟨rfl, ?_⟩
    apply accepted_of_store (k := 1)
      (c := { c with segTotal := segCount msg.len, reqDataLen := msg.len })
      (by decide) hhashed hes rfl _ rfl
    exact ⟨rfl, fun hne => absurd hzero hne⟩
  · have hsmall : msg.len < 2 ^ 31 - 48 := by
      have hle := len_le_segCount msg.len
      unfold stlSaDataLen at hle
      omega
    rw [if_neg hzero, alloc_of_lt (Nat.pos_of_ne_zero hzero) hsmall]
    refine ⟨rfl, ?_⟩
    apply accepted_of_store (k := 1)
      (c := { c with segTotal := segCount msg.len, reqDataLen := msg.len,
                     reqData := some ⟨msg.len, bytes⟩ })
      (by decide) hhashed hes rfl _ rfl
    have hsize : (segmentAt msg.len 1).size =
        if (msg.packet (segmentAt msg.len 1) tail).header.rmppFlags.last then msg.len
        else stlSaDataLen := by
      rw [segmentAt_one_size]
      simp [Message.packet, segmentAt]
    rw [← hsize]
    apply Holds.store (n := 0) rfl rfl rfl
    · intro i hi
      simp at hi
    · intro i hi
      rw [packet_data _ hi]
      simp [segmentAt]
    · intro i hi
      right
      rw [segmentAt_one_size]
      split <;> omega

theorem segmentAt_later_size {len : Nat} (hk : 2 ≤ k) (hlast : k ≤ segCount len) :
    (segmentAt len k).offset = (k - 1) * stlSaDataLen ∧
      (segmentAt len k).offset + (segmentAt len k).size = min (k * stlSaDataLen) len := by
  have hsize : segSize len = stlSaDataLen := segSize_of_count (by omega)
  refine ⟨?_, ?_⟩
  · rw [← hsize]
    rfl
  · rw [← hsize]
    exact segmentAt_end (by omega) hlast

theorem packet_payload (hk : 2 ≤ k) (hlast : k ≤ segCount msg.len) :
    (msg.packet (segmentAt msg.len k) tail).payload stlSaDataLen = (segmentAt msg.len k).size := by
  have hsize : segSize msg.len = stlSaDataLen := segSize_of_count (by omega)
  obtain ⟨hlow, hhigh⟩ := segCount_stl_bounds (ne_zero_of_count (show 1 < segCount msg.len by omega))
  have hone : k ≠ 1 := by omega
  unfold Mad.payload Message.packet segmentAt
  simp only [hsize, decide_eq_true_eq, if_neg hone]
  split
  next heq =>
    -- the length of the last packet counts an SA header
    subst heq
    rw [BitVec.toNat_sub, BitVec.toNat_ofNat, BitVec.toNat_ofNat, Nat.min_eq_right hhigh]
    unfold stlSaDataLen at *
    unfold saHeaderSize
    omega
  next hne =>
    have hfull : k * stlSaDataLen ≤ (segCount msg.len - 1) * stlSaDataLen :=
      Nat.mul_le_mul_right _ (by omega)
    rw [Nat.min_eq_left (by omega), Nat.sub_mul, Nat.one_mul]
    have hself : stlSaDataLen ≤ k * stlSaDataLen := Nat.le_mul_of_pos_left _ (by omega)
    omega

theorem packet_pos (hcount : segCount msg.len < 2 ^ 16) (hk : 2 ≤ k)
    (hlast : k ≤ segCount msg.len) :
    (((msg.packet (segmentAt msg.len k) tail).header.segNum - 1) *
      BitVec.ofNat 32 stlSaDataLen).toNat = (segmentAt msg.len k).offset := by
  have hnum : ((segmentAt msg.len k).segNum - 1).toNat = k - 1 := by
    have hk' := segmentAt_segNum hcount hlast
    rw [BitVec.toNat_sub, hk', show BitVec.toNat (1 : BitVec 32) = 1 from rfl]
    omega
  rw [(segmentAt_later_size hk hlast).1, BitVec.toNat_mul, BitVec.toNat_ofNat]
  show ((segmentAt msg.len k).segNum - 1).toNat * (stlSaDataLen % 2 ^ 32) % 2 ^ 32 = _
  rw [hnum]
  unfold stlSaDataLen
  omega

theorem laterSegment_accepted (hcount : segCount msg.len < 2 ^ 16) (h : Receiving msg sent c)
    (hhashed : c.hashed = true) (hes : c.es = k) (hk : 2 ≤ k) :
    (rmppLaterSegment stlSaDataLen c (msg.packet (segmentAt msg.len k) tail)).2.2 = none ∧
      Accepted msg k c.reqInProg
        (rmppLaterSegment stlSaDataLen c (msg.packet (segmentAt msg.len k) tail)).1 := by
  have hlast : k ≤ segCount msg.len := hes ▸ h.es_le
  obtain ⟨htotal, hlen, hbuffer⟩ := h.held (hes ▸ hk)
  have hzero : msg.len ≠ 0 := ne_zero_of_count (by omega)
  obtain ⟨b, hb, hsize, hold⟩ := hbuffer hzero
  obtain ⟨hoffset, hend⟩ := segmentAt_later_size hk hlast
  unfold rmppLaterSegment
  rw [laterSegment_eq _ (rmpp_pos _ _), packet_pos hcount hk hlast, packet_payload hk hlast, hend]
  -- the end of the segment is in the request, so that its low bits are too
  have hfits : ¬(decide (c.reqDataLen < min (k * stlSaDataLen) msg.len % 2 ^ 16) ||
      ((msg.packet (segmentAt msg.len k) tail).header.rmppFlags.last && false)) = true := by
    have hmod := Nat.mod_le (min (k * stlSaDataLen) msg.len) (2 ^ 16)
    simp only [Bool.and_false, Bool.or_false, decide_eq_true_eq, hlen]
    omega
  rw [if_neg hfits]
  refine ⟨rfl, ?_⟩
  apply accepted_of_store (by omega) hhashed hes htotal _ rfl
  apply Holds.store hb hsize hlen hold
  · intro i hi
    exact packet_data _ hi
  · intro i hi
    rw [hend, hes, hoffset]
    omega

/-! ## A delivered segment -/

theorem startRequest_receiving (h : c.hashed = true → Receiving msg sent c) :
    Receiving msg sent c.startRequest := by
  cases hhashed : c.hashed with
  | true =>
    rw [RecvCntxt.startRequest, if_pos hhashed]
    exact h hhashed
  | false =>
    rw [RecvCntxt.startRequest, if_neg (by simp [hhashed])]
    constructor
    case es_pos => exact Nat.le_refl 1
    case es_le => exact segCount_pos _
    case es_sent => exact Nat.le_add_left 1 _
    case held =>
        intro htwo
        cases htwo with
        | step h => cases h
    case done =>
        intro hdone
        cases hdone

theorem sendAck_receiving (h : Receiving msg sent c) (header : RmppHeader) (sendOk : Bool) :
    Receiving msg sent (c.sendAck header sendOk).1 := by
  cases sendOk <;> exact ⟨h.es_pos, h.es_le, h.es_sent, h.held, h.done⟩

theorem accept_receiving {reqInProg : Bool} (h : Accepted msg k reqInProg c) (hlow : 1 ≤ k)
    (hlast : k ≤ segCount msg.len) (hsent : k ≤ sent) (hprog : k ≠ segCount msg.len → reqInProg = true)
    {header : RmppHeader} (hnum : header.segNum.toNat = k) :
    Receiving msg sent (rmppAccept c header) := by
  have hes := h.es
  have hmono : ∀ n, n ≤ k * stlSaDataLen → c.Holds msg n := by
    intro n hn
    refine ⟨h.held.1, fun hzero => ?_⟩
    obtain ⟨b, hb, hsize, hbytes⟩ := h.held.2 hzero
    exact ⟨b, hb, hsize, fun i hi => hbytes i (by omega)⟩
  unfold rmppAccept
  split
  next hlastNum =>
    have heq : k = segCount msg.len := by rw [← hnum, hlastNum, h.segTotal]
    rw [if_pos heq] at hes
    have hall : c.Holds msg msg.len := by
      apply hmono
      rw [heq]
      exact len_le_segCount _
    constructor
    case es_pos => exact hes ▸ hlow
    case es_le => exact hes ▸ hlast
    case es_sent => exact hes ▸ hsent.trans (Nat.le_succ _)
    case held =>
        intro _
        refine ⟨h.segTotal, hmono _ ?_⟩
        rw [hes]
        exact Nat.mul_le_mul_right _ (Nat.sub_le _ _)
    case done => exact fun _ => ⟨hes.trans heq, hall⟩
  next hearlier =>
    have hne : k ≠ segCount msg.len := by rwa [← hnum, ← h.segTotal]
    rw [if_neg hne] at hes
    constructor
    case es_pos => exact hes ▸ Nat.le_add_left 1 k
    case es_le => exact hes ▸ (by omega)
    case es_sent => exact hes ▸ Nat.succ_le_succ hsent
    case held =>
        intro _
        refine ⟨h.segTotal, hmono _ ?_⟩
        rw [hes, Nat.add_sub_cancel]
    case done =>
        intro hdone
        rw [h.prog, hprog hne] at hdone
        cases hdone

theorem sendAck_goodReply (c : RecvCntxt) {total : Nat} {header : RmppHeader} {sendOk : Bool}
    (hversion : header.rmppVersion = rmppVersion1) (hsent : header.segNum.toNat ≤ sent)
    (hle : header.segNum.toNat ≤ total) (htotal : total < 2 ^ 16)
    (hlast : header.rmppFlags.last = decide (header.segNum.toNat = total)) :
    ∀ reply ∈ (c.sendAck header sendOk).2, GoodReply total sent reply := by
  intro reply hreply
  unfold RecvCntxt.sendAck at hreply
  cases sendOk with
  | false => cases hreply
  | true =>
    cases List.mem_singleton.mp hreply
    refine ⟨hversion, rfl, rfl, hsent, hle, ?_⟩
    dsimp only
    rw [hlast]
    split
    next heq =>
      rw [if_pos (of_decide_eq_true heq)]
      exact of_decide_eq_true heq
    next hne =>
      rw [if_neg (fun h => hne (decide_eq_true h)), BitVec.toNat_add]
      exact Nat.mod_eq_of_lt (by
        rw [show BitVec.toNat (1 : BitVec 32) = 1 from rfl]
        omega)

theorem packet_isData : (msg.packet (segmentAt msg.len k) tail).header.IsData := by
  simp [RmppHeader.IsData, Receiver.checkHeader, Message.packet, segmentAt]

theorem segment_accepted (hcount : segCount msg.len < 2 ^ 16) (hlast : k ≤ segCount msg.len)
    (h : Receiving msg sent c.startRequest) (hexp : k = c.expected)
    (tail : Nat → UInt8) (bytes : Nat → UInt8) (sendOk : Bool) :
    ((rmppReceiver stlSaDataLen).segment c
        ⟨msg.packet (segmentAt msg.len k) tail, some bytes, sendOk⟩).2.2 = none ∧
      Accepted msg k c.startRequest.reqInProg ((rmppReceiver stlSaDataLen).segment c
        ⟨msg.packet (segmentAt msg.len k) tail, some bytes, sendOk⟩).1 := by
  have hnum : (msg.packet (segmentAt msg.len k) tail).header.segNum.toNat = k :=
    segmentAt_segNum hcount hlast
  have hes : c.startRequest.es = k := startRequest_es.trans hexp.symm
  have hlow : 1 ≤ k := hes ▸ h.es_pos
  unfold Receiver.segment
  rw [hnum]
  rcases Nat.eq_or_lt_of_le hlow with hone | hmore
  · subst hone
    rw [if_pos rfl]
    exact firstSegment_accepted hcount startRequest_hashed hes bytes
  · rw [if_neg (by omega)]
    exact laterSegment_accepted hcount h startRequest_hashed hes hmore

theorem data_segment (hcount : segCount msg.len < 2 ^ 16) (hlow : 1 ≤ k)
    (hlast : k ≤ segCount msg.len) (hsent : k ≤ sent)
    (h : c.hashed = true → Receiving msg sent c) {bytes : Nat → UInt8} {sendOk : Bool}
    {r : RecvCntxt × List MemOp × List RmppHeader}
    (hr : r = (rmppReceiver stlSaDataLen).data c
      ⟨msg.packet (segmentAt msg.len k) tail, some bytes, sendOk⟩) :
    (∀ reply ∈ r.2.2, GoodReply (segCount msg.len) sent reply) ∧
      (r.1.released = false → Receiving msg sent r.1) := by
  have hstart := startRequest_receiving h
  have hnum := segmentAt_segNum hcount hlast
  have hes := startRequest_es (c := c)
  by_cases hexp : (segmentAt msg.len k).segNum.toNat = c.expected
  · rw [data_expected hexp] at hr
    obtain ⟨hnone, hacc⟩ := segment_accepted hcount hlast hstart (hnum.symm.trans hexp)
      tail bytes sendOk
    rw [hnone] at hr
    rw [hr]
    have hprog : k ≠ segCount msg.len → c.startRequest.reqInProg = true := by
      intro hne
      cases hdone : c.startRequest.reqInProg with
      | true => rfl
      | false =>
        have hlastSeg := (hstart.done hdone).1
        rw [hes, ← hexp, hnum] at hlastSeg
        exact absurd hlastSeg hne
    constructor
    · apply sendAck_goodReply
      · rfl
      · exact hnum.trans_le hsent
      · exact hnum.trans_le hlast
      · exact hcount
      · show decide (k = segCount msg.len) =
          decide ((segmentAt msg.len k).segNum.toNat = segCount msg.len)
        rw [hnum]
    · intro _
      apply sendAck_receiving
      exact accept_receiving hacc hlow hlast hsent hprog hnum
  · -- out of sequence: the ACK of the segment before the expected one
    rw [data_unexpected hexp] at hr
    have hle := hstart.es_le
    have hpos := hstart.es_pos
    have hes_sent := hstart.es_sent
    rw [hes] at hle hpos hes_sent
    have hagain : (BitVec.ofNat 32 c.expected - 1).toNat = c.expected - 1 := by
      rw [BitVec.toNat_sub, BitVec.toNat_ofNat, show BitVec.toNat (1 : BitVec 32) = 1 from rfl]
      omega
    rw [hr]
    refine ⟨?_, fun _ => sendAck_receiving hstart _ _⟩
    apply sendAck_goodReply
    · rfl
    · show (BitVec.ofNat 32 c.expected - 1).toNat ≤ sent
      omega
    · show (BitVec.ofNat 32 c.expected - 1).toNat ≤ segCount msg.len
      omega
    · exact hcount
    · show false = decide ((BitVec.ofNat 32 c.expected - 1).toNat = segCount msg.len)
      rw [hagain, eq_comm, decide_eq_false_iff_not]
      omega

theorem receive_segment (hcount : segCount msg.len < 2 ^ 16) (hlow : 1 ≤ k)
    (hlast : k ≤ segCount msg.len) (hsent : k ≤ sent)
    (h : c.hashed = true → Receiving msg sent c) {bytes : Nat → UInt8} {sendOk : Bool}
    {r : RecvCntxt × List MemOp × List RmppHeader}
    (hr : r = rmppReceiveGetmultiResponse c
      ⟨msg.packet (segmentAt msg.len k) tail, some bytes, sendOk⟩) :
    (∀ reply ∈ r.2.2, GoodReply (segCount msg.len) sent reply) ∧
      (r.1.released = false → r.1.hashed = true → Receiving msg sent r.1) := by
  unfold rmppReceiveGetmultiResponse at hr
  split at hr
  next =>
    have hdata : r = (rmppReceiver stlSaDataLen).data c
        ⟨msg.packet (segmentAt msg.len k) tail, some bytes, sendOk⟩ :=
      hr.trans (receive_data packet_isData)
    have hseg := data_segment hcount hlow hlast hsent h hdata
    exact ⟨hseg.1, fun hkept _ => hseg.2 hkept⟩
  next =>
    rw [hr]
    refine ⟨?_, fun _ => h⟩
    intro reply hreply
    cases hreply

end OpaFm.Rmpp
