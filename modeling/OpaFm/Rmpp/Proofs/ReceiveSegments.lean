import OpaFm.Rmpp.Receive
import Mathlib.Data.Nat.ModEq

/-!
# The order of the checks

What both receivers do with a packet, from the way they treat a first and a later segment.
The other packets never touch the buffer of a request that is under way.
-/

namespace OpaFm.Rmpp

section

/-- A copy within the buffer, or an allocation whose size did not wrap around. -/
def MemOp.Safe : MemOp → Prop
  | .alloc length headers _ => headers ≤ length
  | .copy offset count size => offset + count ≤ size

def RmppHeader.IsData (header : RmppHeader) : Prop :=
  Receiver.checkHeader header = .noError ∧ header.rmppType ≠ .stop ∧ header.rmppType ≠ .abort ∧
    header.rmppType ≠ .ack

def RecvCntxt.expected (c : RecvCntxt) : Nat := if c.hashed then c.es else 1

/-- The condition on a packet, from those on a first and on a later segment. -/
def RecvCntxt.Fits (first later : RecvCntxt → RecvEvent → Prop) (c : RecvCntxt)
    (e : RecvEvent) : Prop :=
  e.mad.header.IsData → e.mad.header.segNum.toNat = c.expected →
    if e.mad.header.segNum.toNat = 1 then e.mad.header.rmppFlags.first = true → first c e
    else later c e

def RecvCntxt.Sized (c : RecvCntxt) : Prop :=
  c.hashed = true → c.es ≠ 1 → c.reqDataLen ≤ c.bufferSize

structure Receiver.Spec (r : Receiver) (first later : RecvCntxt → RecvEvent → Prop) : Prop where
  size_lt : r.size < 2 ^ 31 - 48
  first_safe : ∀ c (e : RecvEvent),
    (∀ op ∈ (r.firstSegment c e.mad e.mem).2.1, op.Safe) ↔
      (e.mad.header.rmppFlags.first = true → first c e)
  later_safe : ∀ c (e : RecvEvent), c.reqDataLen ≤ c.bufferSize →
    ((∀ op ∈ (r.laterSegment c e.mad).2.1, op.Safe) ↔ later c e)
  first_start : ∀ c e, first c.startRequest e ↔ first c e
  first_sized : ∀ c (e : RecvEvent), (∀ op ∈ (r.firstSegment c e.mad e.mem).2.1, op.Safe) →
    (r.firstSegment c e.mad e.mem).2.2 = none → (r.firstSegment c e.mad e.mem).1.es ≠ c.es →
      (r.firstSegment c e.mad e.mem).1.reqDataLen ≤ (r.firstSegment c e.mad e.mem).1.bufferSize
  later_sized : ∀ c (e : RecvEvent), c.reqDataLen ≤ c.bufferSize →
    (r.laterSegment c e.mad).1.reqDataLen ≤ (r.laterSegment c e.mad).1.bufferSize
  switch_sized : ∀ c c' header, c.Sized → r.directionSwitch c header = .ok c' → c'.Sized
  accept_sized : ∀ c header, c.Sized → (r.accept c header).Sized

variable {c : RecvCntxt} {e : RecvEvent} {r : Receiver}
  {first later : RecvCntxt → RecvEvent → Prop}

theorem startRequest_hashed : c.startRequest.hashed = true := by
  unfold RecvCntxt.startRequest
  split
  next h => exact h
  next => rfl

theorem startRequest_es : c.startRequest.es = c.expected := by
  unfold RecvCntxt.startRequest RecvCntxt.expected
  split <;> rfl

theorem startRequest_of_expected (h : c.expected ≠ 1) : c.startRequest = c := by
  unfold RecvCntxt.expected at h
  split at h
  next hhashed => exact if_pos hhashed
  next => exact absurd rfl h

theorem startRequest_sized (h : c.Sized) : c.startRequest.Sized := by
  unfold RecvCntxt.startRequest
  split
  next => exact h
  next => exact fun _ hne => absurd rfl hne

theorem sendAck_sized (h : c.Sized) (header : RmppHeader) (sendOk : Bool) :
    (c.sendAck header sendOk).1.Sized := by
  cases sendOk <;> exact h

theorem alloc_cases {length : Nat} {mem : Option (Nat → UInt8)} {b : Buffer}
    (hlt : length < 2 ^ 32) (h : Buffer.alloc length mem = some b) :
    (b.size = length ∧ length < 2 ^ 31 - 48) ∨ (b.size ≤ 7 ∧ 2 ^ 32 - 48 ≤ length) := by
  obtain ⟨size, hsize, hmem⟩ := Option.bind_eq_some_iff.mp h
  obtain ⟨bytes, -, rfl⟩ := Option.map_eq_some_iff.mp hmem
  exact Cs.Pool.vsPoolAlloc_cases hlt hsize

theorem alloc_of_lt {length : Nat} (hpos : 0 < length) (hlt : length < 2 ^ 31 - 48)
    (bytes : Nat → UInt8) : Buffer.alloc length (some bytes) = some ⟨length, bytes⟩ := by
  rw [Buffer.alloc, Cs.Pool.vsPoolAlloc_of_lt hpos hlt]
  rfl

theorem single_safe (hsize : r.size < 2 ^ 31 - 48) : ∀ op ∈ (r.single c e).2, op.Safe := by
  unfold Receiver.single
  intro op hop
  split at hop
  next => cases hop
  next buffer hbuffer =>
    have hall : r.size ≤ buffer.size := by
      rcases alloc_cases (by omega) hbuffer with ⟨heq, -⟩ | ⟨-, hwrap⟩ <;> omega
    simp only [RecvCntxt.store, List.mem_cons, List.not_mem_nil, or_false] at hop
    rcases hop with rfl | rfl
    · exact Nat.zero_le _
    · exact (Nat.zero_add _).trans_le hall

theorem single_sized (hhashed : c.hashed = false) : (r.single c e).1.Sized := by
  intro hsingle
  have hkeep : (r.single c e).1.hashed = c.hashed := by
    unfold Receiver.single
    dsimp only
    split <;> rfl
  rw [hkeep, hhashed] at hsingle
  cases hsingle

theorem checkHeader_not {header : RmppHeader} (h : header.rmppType = .not) :
    Receiver.checkHeader header ≠ .noError := by
  simp [Receiver.checkHeader, h]

theorem receive_data (hdata : e.mad.header.IsData) : r.receive c e = r.data c e := by
  obtain ⟨hcheck, hstop, habort, hack⟩ := hdata
  have hnot : e.mad.header.rmppType ≠ .not := fun h => checkHeader_not h hcheck
  simp [Receiver.receive, hcheck, hstop, habort, hack, hnot]

theorem receive_other (hspec : r.Spec first later) (hdata : ¬e.mad.header.IsData) :
    (∀ op ∈ (r.receive c e).2.1, op.Safe) ∧
      (c.Sized → (r.receive c e).1.released = false → (r.receive c e).1.Sized) := by
  unfold Receiver.receive
  dsimp only
  split
  next hsingle =>
    have hhashed : c.hashed = false := by
      simp only [Bool.and_eq_true, Bool.not_eq_true'] at hsingle
      exact hsingle.2
    exact ⟨single_safe hspec.size_lt, fun _ _ => single_sized hhashed⟩
  next =>
    split
    next =>
      refine ⟨by simp, fun _ hkept => ?_⟩
      cases hkept
    next hcheck =>
      split
      next =>
        refine ⟨by simp, fun _ hkept => ?_⟩
        cases hkept
      next hstop =>
        split
        next hack =>
          cases hswitch : r.directionSwitch c e.mad.header with
          | ok c' =>
            exact ⟨by simp, fun hsized _ => hspec.switch_sized c c' _ hsized hswitch⟩
          | error status =>
            refine ⟨by simp, fun _ hkept => ?_⟩
            cases hkept
        next hack =>
          simp only [Bool.or_eq_true, decide_eq_true_eq, not_or] at hstop
          exact absurd ⟨not_not.mp hcheck, hstop.1, hstop.2, hack⟩ hdata

def Receiver.segment (r : Receiver) (c : RecvCntxt) (e : RecvEvent) : Handled :=
  if e.mad.header.segNum.toNat = 1 then r.firstSegment c.startRequest e.mad e.mem
  else r.laterSegment c.startRequest e.mad

theorem data_expected (hexp : e.mad.header.segNum.toNat = c.expected) :
    r.data c e =
      match (r.segment c e).2.2 with
      | some (rmppType, status) =>
        (((r.segment c e).1.refuse e.mad.header rmppType status e.sendOk).1, (r.segment c e).2.1,
          ((r.segment c e).1.refuse e.mad.header rmppType status e.sendOk).2)
      | none =>
        (((r.accept (r.segment c e).1 e.mad.header).sendAck e.mad.header e.sendOk).1,
          (r.segment c e).2.1,
          ((r.accept (r.segment c e).1 e.mad.header).sendAck e.mad.header e.sendOk).2) := by
  have hes : e.mad.header.segNum.toNat = c.startRequest.es := hexp.trans startRequest_es.symm
  unfold Receiver.data
  rw [if_pos hes]
  rfl

theorem data_expected_ops (hexp : e.mad.header.segNum.toNat = c.expected) :
    (r.data c e).2.1 = (r.segment c e).2.1 := by
  rw [data_expected hexp]
  split <;> rfl

def RecvCntxt.ackAgain (c : RecvCntxt) (header : RmppHeader) : RmppHeader :=
  { header with
    rmppFlags := { active := true, first := false, last := false }
    segNum := BitVec.ofNat 32 c.expected - 1 }

theorem data_unexpected (hexp : e.mad.header.segNum.toNat ≠ c.expected) :
    r.data c e =
      ((c.startRequest.sendAck (c.ackAgain e.mad.header) e.sendOk).1, [],
        (c.startRequest.sendAck (c.ackAgain e.mad.header) e.sendOk).2) := by
  have hes : e.mad.header.segNum.toNat ≠ c.startRequest.es := fun h =>
    hexp (h.trans startRequest_es)
  unfold Receiver.data RecvCntxt.ackAgain
  rw [if_neg hes, ← startRequest_es]

theorem sized_of_later (hsized : c.Sized) (hexp : e.mad.header.segNum.toNat = c.expected)
    (hlater : e.mad.header.segNum.toNat ≠ 1) :
    c.startRequest = c ∧ c.reqDataLen ≤ c.bufferSize := by
  have hne : c.expected ≠ 1 := hexp ▸ hlater
  have hsame := startRequest_of_expected hne
  refine ⟨hsame, hsized ?_ ?_⟩
  · rw [← hsame]
    exact startRequest_hashed
  · rw [← startRequest_es, hsame] at hne
    exact hne

theorem data_safe_iff (hspec : r.Spec first later) (hdata : e.mad.header.IsData)
    (hsized : c.Sized) :
    (∀ op ∈ (r.data c e).2.1, op.Safe) ↔ c.Fits first later e := by
  by_cases hexp : e.mad.header.segNum.toNat = c.expected
  · rw [data_expected_ops hexp, Receiver.segment]
    have hfits : c.Fits first later e ↔
        if e.mad.header.segNum.toNat = 1 then e.mad.header.rmppFlags.first = true → first c e
        else later c e :=
      ⟨fun h => h hdata hexp, fun h _ _ => h⟩
    rw [hfits]
    by_cases hone : e.mad.header.segNum.toNat = 1
    · rw [if_pos hone, if_pos hone, hspec.first_safe, hspec.first_start]
    · obtain ⟨hsame, hle⟩ := sized_of_later hsized hexp hone
      rw [if_neg hone, if_neg hone, hsame]
      exact hspec.later_safe c e hle
  · rw [data_unexpected hexp]
    exact ⟨fun _ _ h => absurd h hexp, fun _ op hop => by cases hop⟩

theorem segment_sized (hspec : r.Spec first later) (hsized : c.Sized)
    (hexp : e.mad.header.segNum.toNat = c.expected)
    (hsafe : ∀ op ∈ (r.segment c e).2.1, op.Safe) (hnone : (r.segment c e).2.2 = none) :
    (r.segment c e).1.Sized := by
  unfold Receiver.segment at hsafe hnone ⊢
  by_cases hone : e.mad.header.segNum.toNat = 1
  · rw [if_pos hone] at hsafe hnone ⊢
    intro _ hes
    apply hspec.first_sized _ e hsafe hnone
    rw [startRequest_es, ← hexp, hone]
    exact hes
  · obtain ⟨hsame, hle⟩ := sized_of_later hsized hexp hone
    rw [if_neg hone, hsame]
    exact fun _ _ => hspec.later_sized c e hle

theorem data_sized (hspec : r.Spec first later) (hsized : c.Sized)
    (hsafe : ∀ op ∈ (r.data c e).2.1, op.Safe) (hkept : (r.data c e).1.released = false) : (r.data c e).1.Sized := by
  by_cases hexp : e.mad.header.segNum.toNat = c.expected
  · rw [data_expected_ops hexp] at hsafe
    rw [data_expected hexp] at hkept ⊢
    cases hrefused : (r.segment c e).2.2 with
    | some refused =>
      rw [hrefused] at hkept
      cases hkept
    | none =>
      have hsegment := segment_sized hspec hsized hexp hsafe hrefused
      exact sendAck_sized (hspec.accept_sized _ _ hsegment) _ _
  · rw [data_unexpected hexp]
    exact sendAck_sized (startRequest_sized hsized) _ _

theorem receive_safe_iff (hspec : r.Spec first later) (hsized : c.Sized) :
    (∀ op ∈ (r.receive c e).2.1, op.Safe) ↔ c.Fits first later e := by
  by_cases hdata : e.mad.header.IsData
  · rw [receive_data hdata]
    exact data_safe_iff hspec hdata hsized
  · exact ⟨fun _ h => absurd h hdata, fun _ => (receive_other hspec hdata).1⟩

theorem receive_sized (hspec : r.Spec first later) (hsized : c.Sized)
    (hsafe : ∀ op ∈ (r.receive c e).2.1, op.Safe) (hkept : (r.receive c e).1.released = false) :
    (r.receive c e).1.Sized := by
  by_cases hdata : e.mad.header.IsData
  · rw [receive_data hdata] at hsafe hkept ⊢
    exact data_sized hspec hsized hsafe hkept
  · exact (receive_other hspec hdata).2 hsized hkept

end

/-!
## First and later segments

Which segments make a receiver write past the buffer.  Once the first segment is accepted,
`reqDataLen` is at most the size of the buffer, so that a later segment is safe as long as
its end fits into the 16 bits of `bytesRcvd`.
-/

variable {c : RecvCntxt}

/-! ### Later segments -/

def Mad.payload (size : Nat) (m : Mad) : Nat :=
  if m.header.rmppFlags.last then (m.header.length - BitVec.ofNat 32 saHeaderSize).toNat else size

/-- A later segment is safe if it ends below 64 KiB or in the buffer, or if it is refused:
for its length, or because the low 16 bits of its end are beyond the request. -/
def RecvCntxt.LaterFits (c : RecvCntxt) (size pos : Nat) (tooLong : Nat → Bool) (m : Mad) : Prop :=
  pos + m.payload size < 2 ^ 16 ∨ pos + m.payload size ≤ c.bufferSize ∨
    c.reqDataLen < (pos + m.payload size) % 2 ^ 16 ∨
    (m.header.rmppFlags.last = true ∧ tooLong (m.payload size) = true)

theorem laterSegment_eq {size pos : Nat} {m : Mad} (tooLong : Nat → Bool)
    (hpos : (m.header.segNum.toNat * size) % 2 ^ 16 = (pos + size) % 2 ^ 16) :
    c.laterSegment size pos tooLong m =
      if c.reqDataLen < (pos + m.payload size) % 2 ^ 16 ||
          (m.header.rmppFlags.last && tooLong (m.payload size)) then
        (c, [], some (.abort, .abortInconsistentLastPayloadLength))
      else
        ((c.store pos (m.payload size) m.data).1.countSegment m.header.rmppFlags.last,
          [.copy pos (m.payload size) c.bufferSize], none) := by
  have hbytes : (if m.header.rmppFlags.last = true then pos + m.payload size
      else m.header.segNum.toNat * size) % 2 ^ 16 = (pos + m.payload size) % 2 ^ 16 := by
    split
    next => rfl
    next hmiddle => rw [hpos, Mad.payload, if_neg hmiddle]
  rw [← hbytes]
  rfl

theorem laterSegment_safe {size pos : Nat} {tooLong : Nat → Bool} {m : Mad}
    (hpos : (m.header.segNum.toNat * size) % 2 ^ 16 = (pos + size) % 2 ^ 16)
    (hle : c.reqDataLen ≤ c.bufferSize) :
    (∀ op ∈ (c.laterSegment size pos tooLong m).2.1, op.Safe) ↔
      c.LaterFits size pos tooLong m := by
  rw [laterSegment_eq tooLong hpos]
  unfold RecvCntxt.LaterFits
  split
  next hrefused =>
    simp only [Bool.or_eq_true, decide_eq_true_eq, Bool.and_eq_true] at hrefused
    exact ⟨fun _ => .inr (.inr hrefused), fun _ op hop => by cases hop⟩
  next hrefused =>
    simp only [Bool.or_eq_true, decide_eq_true_eq, Bool.and_eq_true, not_or] at hrefused
    simp only [List.mem_singleton, forall_eq, MemOp.Safe]
    constructor
    · exact fun h => .inr (.inl h)
    · rintro (hsmall | hin | hover | hlong)
      · -- below 64 KiB the check of `bytesRcvd` is exact
        rw [Nat.mod_eq_of_lt hsmall] at hrefused
        exact (not_lt.mp hrefused.1).trans hle
      · exact hin
      · exact absurd hover hrefused.1
      · exact absurd hlong hrefused.2

theorem countSegment_bufferSize (last : Bool) :
    (c.countSegment last).bufferSize = c.bufferSize := by
  cases last <;> rfl

theorem countSegment_reqDataLen (last : Bool) :
    (c.countSegment last).reqDataLen = c.reqDataLen := by
  cases last <;> rfl

theorem store_bufferSize (offset count : Nat) (data : Nat → UInt8) :
    (c.store offset count data).1.bufferSize = c.bufferSize := by
  unfold RecvCntxt.store RecvCntxt.bufferSize
  cases c.reqData <;> rfl

theorem laterSegment_sized {size pos : Nat} (tooLong : Nat → Bool) {m : Mad}
    (hpos : (m.header.segNum.toNat * size) % 2 ^ 16 = (pos + size) % 2 ^ 16)
    (hle : c.reqDataLen ≤ c.bufferSize) :
    (c.laterSegment size pos tooLong m).1.reqDataLen ≤
      (c.laterSegment size pos tooLong m).1.bufferSize := by
  rw [laterSegment_eq tooLong hpos]
  split
  next => exact hle
  next =>
    rw [countSegment_bufferSize, countSegment_reqDataLen, store_bufferSize]
    exact hle

/-! ### The receiver of the managers' clients -/

/-- A first segment is safe if its length has room for one SA header and, when more
segments follow, for a full segment and the headers of the first one or of the first two, and if
the bytes to allocate do not wrap around.  Without memory nothing is copied.  A length of one
header allocates nothing, and the segment goes to the buffer of an earlier one. -/
def rmppFirstFits (size : Nat) (c : RecvCntxt) (e : RecvEvent) : Prop :=
  let length := e.mad.header.length.toNat
  length = 0 ∨ (e.mem = none ∧ length ≠ saHeaderSize) ∨
    (saHeaderSize ≤ length ∧ length < 2 ^ 32 - 48 ∧ (e.mad.header.rmppFlags.last = true ∨
      length = size + saHeaderSize ∨ size + 2 * saHeaderSize ≤ length)) ∨
    (length = saHeaderSize ∧ size ≤ c.bufferSize)

def rmppLaterFits (size : Nat) (c : RecvCntxt) (e : RecvEvent) : Prop :=
  c.LaterFits size ((e.mad.header.segNum - 1) * BitVec.ofNat 32 size).toNat (fun _ => false) e.mad

def IsDataLen (size : Nat) : Prop := size = ibSaDataLen ∨ size = stlSaDataLen

theorem rmppSegTotal_lt (size : Nat) (length : BitVec 32) :
    rmppSegTotal size length * (size + saHeaderSize) < length.toNat + (size + saHeaderSize) := by
  have hpos : 0 < size + saHeaderSize := Nat.add_pos_right _ (by decide)
  calc
    rmppSegTotal size length * (size + saHeaderSize) ≤
        (length.toNat + size + saHeaderSize - 1) % 2 ^ 32 / (size + saHeaderSize) *
          (size + saHeaderSize) := Nat.mul_le_mul_right _ (Nat.mod_le _ _)
    _ ≤ (length.toNat + size + saHeaderSize - 1) % 2 ^ 32 := Nat.div_mul_le_self _ _
    _ ≤ length.toNat + size + saHeaderSize - 1 := Nat.mod_le _ _
    _ < length.toNat + (size + saHeaderSize) := by omega

theorem rmppSegTotal_short {size : Nat} (hsize : IsDataLen size) (length : BitVec 32)
    (hzero : length.toNat ≠ 0) :
    (length.toNat ≤ size + saHeaderSize → rmppSegTotal size length = 1) ∧
    (size + saHeaderSize < length.toNat → length.toNat ≤ 2 * (size + saHeaderSize) →
      rmppSegTotal size length = 2) := by
  unfold rmppSegTotal saHeaderSize
  rcases hsize with rfl | rfl
  · unfold ibSaDataLen
    omega
  · unfold stlSaDataLen
    omega

theorem rmppSegTotal_spec {size : Nat} (hsize : IsDataLen size) (length : BitVec 32)
    (hzero : length.toNat ≠ 0) :
    (length.toNat < saHeaderSize → rmppSegTotal size length = 1) ∧
    (saHeaderSize ≤ length.toNat → rmppSegTotal size length * saHeaderSize ≤ length.toNat ∧
      (size ≤ length.toNat - rmppSegTotal size length * saHeaderSize ↔
        length.toNat = size + saHeaderSize ∨ size + 2 * saHeaderSize ≤ length.toNat) ∧
      (length.toNat - rmppSegTotal size length * saHeaderSize = 0 ↔
        length.toNat = saHeaderSize)) := by
  have hmany := rmppSegTotal_lt size length
  obtain ⟨hone, htwo⟩ := rmppSegTotal_short hsize length hzero
  generalize rmppSegTotal size length = total at *
  unfold saHeaderSize at *
  rcases hsize with rfl | rfl
  · unfold ibSaDataLen at *
    omega
  · unfold stlSaDataLen at *
    omega

theorem rmppSegTotal_wraps {size : Nat} (hsize : IsDataLen size) (length : BitVec 32)
    (hhigh : 2 ^ 32 - 48 ≤ length.toNat) : rmppSegTotal size length = 0 := by
  have hlt := length.isLt
  have hpos : 48 ≤ size + saHeaderSize := by rcases hsize with rfl | rfl <;> decide
  unfold saHeaderSize at hpos
  have hmod : (length.toNat + size + saHeaderSize - 1) % 2 ^ 32 < size + saHeaderSize := by
    rcases hsize with rfl | rfl
    · unfold ibSaDataLen saHeaderSize
      omega
    · unfold stlSaDataLen saHeaderSize
      omega
  rw [rmppSegTotal, Nat.div_eq_of_lt hmod, Nat.zero_mod]

theorem rmpp_len {size : Nat} (hsize : IsDataLen size) (length : BitVec 32)
    (hlow : saHeaderSize ≤ length.toNat) :
    (BitVec.ofNat 32 length.toNat - BitVec.ofNat 32 (rmppSegTotal size length * saHeaderSize)).toNat
      = length.toNat - rmppSegTotal size length * saHeaderSize := by
  have hlt := length.isLt
  have hzero : length.toNat ≠ 0 := by
    unfold saHeaderSize at hlow
    omega
  have hle := ((rmppSegTotal_spec hsize length hzero).2 hlow).1
  rw [BitVec.toNat_sub, BitVec.toNat_ofNat, BitVec.toNat_ofNat]
  omega

theorem rmpp_len_wraps {size : Nat} (hsize : IsDataLen size) (length : BitVec 32)
    (hzero : length.toNat ≠ 0) (hlow : length.toNat < saHeaderSize) :
    (BitVec.ofNat 32 length.toNat - BitVec.ofNat 32 (rmppSegTotal size length * saHeaderSize)).toNat
      ≠ 0 := by
  rw [(rmppSegTotal_spec hsize length hzero).1 hlow]
  unfold saHeaderSize at *
  rw [BitVec.toNat_sub, BitVec.toNat_ofNat, BitVec.toNat_ofNat]
  omega

theorem rmppFirstSegment_eq {size : Nat} {m : Mad} (mem : Option (Nat → UInt8))
    {segTotal total len : Nat} (hfirst : m.header.rmppFlags.first = true)
    (hguard : ¬(m.header.length = 0 ∧ m.header.rmppFlags.last = true))
    (hsegs : (if m.header.length ≠ 0 then rmppSegTotal size m.header.length else 0) = segTotal)
    (htotal : (if m.header.length ≠ 0 then m.header.length.toNat else size) = total)
    (hlen : (BitVec.ofNat 32 total - BitVec.ofNat 32 (segTotal * saHeaderSize)).toNat = len) :
    rmppFirstSegment size c m mem =
      let last := m.header.rmppFlags.last
      let count := if last then len else size
      let c := { c with segTotal := segTotal, reqDataLen := len }
      if len = 0 then
        ((c.store 0 count m.data).1.countSegment last, [.copy 0 count c.bufferSize], none)
      else
        match Buffer.alloc len mem with
        | none => ({ c with reqData := none }, [], some (.stop, .stopNoResources))
        | some buffer =>
          (({ c with reqData := some buffer }.store 0 count m.data).1.countSegment last,
            [.alloc total (segTotal * saHeaderSize) buffer.size, .copy 0 count buffer.size],
            none) := by
  have hrefused : ¬(decide (m.header.length = 0) && m.header.rmppFlags.last) = true := by
    simpa using hguard
  subst hsegs htotal hlen
  unfold rmppFirstSegment
  dsimp only
  rw [hfirst, if_neg (by decide), if_neg hrefused]
  rfl

theorem sa_pos (segNum : BitVec 32) (size : Nat) :
    (segNum.toNat * size) % 2 ^ 16 = ((segNum - 1).toNat * size + size) % 2 ^ 16 := by
  have hpred : segNum.toNat ≡ (segNum - 1).toNat + 1 [MOD 2 ^ 16] := by
    have hlt := segNum.isLt
    rw [BitVec.toNat_sub]
    unfold Nat.ModEq
    simp
    omega
  have hmul := hpred.mul_right size
  rw [Nat.add_mul, Nat.one_mul] at hmul
  exact hmul

theorem rmpp_pos (size : Nat) (segNum : BitVec 32) :
    (segNum.toNat * size) % 2 ^ 16 =
      (((segNum - 1) * BitVec.ofNat 32 size).toNat + size) % 2 ^ 16 := by
  rw [sa_pos, BitVec.toNat_mul, BitVec.toNat_ofNat]
  have hdvd : 2 ^ 16 ∣ 2 ^ 32 := Nat.pow_dvd_pow 2 (by decide)
  apply Nat.ModEq.add_right
  show (segNum - 1).toNat * size ≡ (segNum - 1).toNat * (size % 2 ^ 32) % 2 ^ 32 [MOD 2 ^ 16]
  have hwide : (segNum - 1).toNat * size ≡ (segNum - 1).toNat * (size % 2 ^ 32) % 2 ^ 32 [MOD 2 ^ 32] := by
    apply Nat.ModEq.symm
    calc
      (segNum - 1).toNat * (size % 2 ^ 32) % 2 ^ 32 ≡ (segNum - 1).toNat * (size % 2 ^ 32) [MOD 2 ^ 32] :=
        Nat.mod_modEq _ _
      _ ≡ (segNum - 1).toNat * size [MOD 2 ^ 32] := (Nat.mod_modEq _ _).mul_left _
  exact hwide.of_dvd hdvd

theorem alloc_wraps {length : Nat} (hlow : 2 ^ 32 - 48 ≤ length) (hlt : length < 2 ^ 32)
    (bytes : Nat → UInt8) :
    Buffer.alloc length (some bytes) = some ⟨length - (2 ^ 32 - 8), bytes⟩ := by
  rw [Buffer.alloc, Cs.Pool.vsPoolAlloc, if_neg (by omega), Nat.mod_eq_of_lt hlt,
    Cs.Pool.vsImplpoolAlloc_wraps hlow hlt]
  rfl

theorem alloc_none (length : Nat) : Buffer.alloc length none = none := by
  rw [Buffer.alloc]
  cases Cs.Pool.vsPoolAlloc length <;> rfl

/-- A segment of at least eight bytes, or of all bytes of the buffer, fits into what the pool
hands out if the bytes to allocate do not wrap around. -/
theorem alloc_fits {mem : Option (Nat → UInt8)} {len count : Nat} (hpos : 0 < len)
    (hlt : len < 2 ^ 32) (hcount : 8 ≤ count ∨ count = len) :
    (∀ b, Buffer.alloc len mem = some b → count ≤ b.size) ↔
      mem = none ∨ (2 ^ 31 - 48 ≤ len ∧ len < 2 ^ 32 - 48) ∨ (count ≤ len ∧ len < 2 ^ 32 - 48) := by
  constructor
  · intro h
    cases mem with
    | none => exact .inl rfl
    | some bytes =>
      right
      by_cases hsmall : len < 2 ^ 31 - 48
      · exact .inr ⟨h _ (alloc_of_lt hpos hsmall bytes), by omega⟩
      · by_cases hmid : len < 2 ^ 32 - 48
        · exact .inl ⟨by omega, hmid⟩
        · have hle := h _ (alloc_wraps (by omega) hlt bytes)
          dsimp only at hle
          rcases hcount with hmany | rfl <;> omega
  · intro h b hb
    have hcases := alloc_cases hlt hb
    rcases h with hnone | hrest
    · rw [hnone, alloc_none] at hb
      cases hb
    · omega

theorem alloc_fits_of {mem : Option (Nat → UInt8)} {total headers len count : Nat}
    (hle : headers ≤ total) (hpos : 0 < len) (hcount : 8 ≤ count ∨ count = len)
    (hlt : len < 2 ^ 32) :
    (∀ b, Buffer.alloc len mem = some b → headers ≤ total ∧ count ≤ b.size) ↔
      mem = none ∨ (2 ^ 31 - 48 ≤ len ∧ len < 2 ^ 32 - 48) ∨ (count ≤ len ∧ len < 2 ^ 32 - 48) := by
  rw [← alloc_fits hpos hlt hcount]
  exact forall₂_congr fun _ _ => and_iff_right hle

theorem first_ops_safe {mem : Option (Nat → UInt8)} {total headers len count bufferSize : Nat} :
    (∀ op ∈ if len = 0 then [MemOp.copy 0 count bufferSize]
        else match Buffer.alloc len mem with
          | none => []
          | some b => [.alloc total headers b.size, .copy 0 count b.size], op.Safe) ↔
      if len = 0 then count ≤ bufferSize
      else ∀ b, Buffer.alloc len mem = some b → headers ≤ total ∧ count ≤ b.size := by
  split
  next => simp [MemOp.Safe]
  next => cases Buffer.alloc len mem <;> simp [MemOp.Safe]

theorem rmppFirst_ops {size : Nat} {m : Mad} (mem : Option (Nat → UInt8)) {segTotal total len : Nat}
    (hfirst : m.header.rmppFlags.first = true)
    (hguard : ¬(m.header.length = 0 ∧ m.header.rmppFlags.last = true))
    (hsegs : (if m.header.length ≠ 0 then rmppSegTotal size m.header.length else 0) = segTotal)
    (htotal : (if m.header.length ≠ 0 then m.header.length.toNat else size) = total)
    (hlen : (BitVec.ofNat 32 total - BitVec.ofNat 32 (segTotal * saHeaderSize)).toNat = len) :
    (∀ op ∈ (rmppFirstSegment size c m mem).2.1, op.Safe) ↔
      if len = 0 then (if m.header.rmppFlags.last then len else size) ≤ c.bufferSize
      else ∀ b, Buffer.alloc len mem = some b → segTotal * saHeaderSize ≤ total ∧
        (if m.header.rmppFlags.last then len else size) ≤ b.size := by
  rw [rmppFirstSegment_eq mem hfirst hguard hsegs htotal hlen, ← first_ops_safe]
  dsimp only
  split
  next => rfl
  next => cases Buffer.alloc len mem <;> rfl

theorem rmppFirst_room {size len : Nat} (hsize : IsDataLen size) (length : BitVec 32) {last : Bool}
    {mem : Option (Nat → UInt8)}
    (hlen : length.toNat - rmppSegTotal size length * saHeaderSize = len)
    (hfull : size ≤ len ↔
      length.toNat = size + saHeaderSize ∨ size + 2 * saHeaderSize ≤ length.toNat) :
    (mem = none ∨ (2 ^ 31 - 48 ≤ len ∧ len < 2 ^ 32 - 48) ∨
        ((if last then len else size) ≤ len ∧ len < 2 ^ 32 - 48)) ↔
      mem = none ∨ (length.toNat < 2 ^ 32 - 48 ∧ (last = true ∨
        length.toNat = size + saHeaderSize ∨ size + 2 * saHeaderSize ≤ length.toNat)) := by
  have hle : len ≤ length.toNat := hlen ▸ Nat.sub_le _ _
  have hsmall : size + 2 * saHeaderSize < 2 ^ 31 - 48 := by rcases hsize with rfl | rfl <;> decide
  have hhigh : len < 2 ^ 32 - 48 ↔ length.toNat < 2 ^ 32 - 48 := by
    constructor
    · intro h
      by_contra hnot
      have hnone := rmppSegTotal_wraps hsize length (by omega)
      rw [hnone, Nat.zero_mul, Nat.sub_zero] at hlen
      omega
    · exact fun h => hle.trans_lt h
  rw [← hfull, hhigh]
  apply or_congr_right
  cases last with
  | true => simp +contextual
  | false =>
    simp only [Bool.false_eq_true, if_false, false_or]
    constructor
    · rintro (⟨hlow, hlt⟩ | ⟨hroom, hlt⟩)
      · exact ⟨hlt, (by omega : size ≤ len)⟩
      · exact ⟨hlt, hroom⟩
    · exact fun ⟨hlt, hroom⟩ => .inr ⟨hroom, hlt⟩

theorem rmppFirst_safe {size : Nat} (hsize : IsDataLen size) (c : RecvCntxt) (e : RecvEvent) :
    (∀ op ∈ (rmppFirstSegment size c e.mad e.mem).2.1, op.Safe) ↔
      (e.mad.header.rmppFlags.first = true → rmppFirstFits size c e) := by
  have hpos : 8 ≤ size ∧ size < 2 ^ 31 - 48 := by rcases hsize with rfl | rfl <;> decide
  have hpad : ∀ (last : Bool) (len : Nat),
      8 ≤ (if last then len else size) ∨ (if last then len else size) = len := by
    intro last len
    cases last with
    | true => exact .inr rfl
    | false => exact .inl hpos.1
  by_cases hfirst : e.mad.header.rmppFlags.first = true
  case neg => simp [rmppFirstSegment, hfirst]
  simp only [hfirst, true_imp_iff, rmppFirstFits]
  by_cases hzero : e.mad.header.length = 0
  · -- no length: a buffer for one full segment
    have hnat : e.mad.header.length.toNat = 0 := by simp [hzero]
    refine ⟨fun _ => .inl hnat, fun _ => ?_⟩
    by_cases hlast : e.mad.header.rmppFlags.last = true
    · simp [rmppFirstSegment, hfirst, hzero, hlast]
    · have hlen : (BitVec.ofNat 32 size - BitVec.ofNat 32 (0 * saHeaderSize)).toNat = size := by
        rw [Nat.zero_mul, BitVec.sub_zero, BitVec.toNat_ofNat, Nat.mod_eq_of_lt (by omega)]
      rw [rmppFirst_ops e.mem hfirst (fun h => hlast h.2) (if_neg (not_not.mpr hzero))
        (if_neg (not_not.mpr hzero)) hlen, if_neg (by omega), if_neg hlast]
      intro b hb
      refine ⟨(Nat.zero_mul _).trans_le (Nat.zero_le _), ?_⟩
      rcases alloc_cases (by omega) hb with ⟨hsize, -⟩ | ⟨-, hwrap⟩ <;> omega
  · have hnat : e.mad.header.length.toNat ≠ 0 := by simpa [BitVec.toNat_eq] using hzero
    have hguard : ¬(e.mad.header.length = 0 ∧ e.mad.header.rmppFlags.last = true) := fun h =>
      hzero h.1
    obtain ⟨hshort, hspec⟩ := rmppSegTotal_spec hsize e.mad.header.length hnat
    by_cases hlow : saHeaderSize ≤ e.mad.header.length.toNat
    · obtain ⟨hle, hfull, hempty⟩ := hspec hlow
      rw [rmppFirst_ops e.mem hfirst hguard (if_pos hzero) (if_pos hzero)
        (rmpp_len hsize e.mad.header.length hlow)]
      by_cases honly : e.mad.header.length.toNat = saHeaderSize
      · -- one header: nothing is allocated
        rw [hempty.mpr honly, if_pos rfl, honly]
        by_cases hlast : e.mad.header.rmppFlags.last = true
        · simp [hlast, saHeaderSize]
        · simp [hlast, saHeaderSize]
          omega
      · have hne : e.mad.header.length.toNat -
            rmppSegTotal size e.mad.header.length * saHeaderSize ≠ 0 :=
          fun h => honly (hempty.mp h)
        rw [if_neg hne, alloc_fits_of hle (Nat.pos_of_ne_zero hne)
          (hpad e.mad.header.rmppFlags.last _) (by omega),
          rmppFirst_room hsize e.mad.header.length rfl hfull]
        simp [hnat, honly, hlow]
    · -- less than one header: the size wraps around
      have hwraps := rmpp_len_wraps hsize e.mad.header.length hnat (not_le.mp hlow)
      rw [rmppFirst_ops e.mem hfirst hguard (if_pos hzero) (if_pos hzero) rfl,
        if_neg (by omega), hshort (not_le.mp hlow), Nat.one_mul]
      have hne : e.mad.header.length.toNat ≠ saHeaderSize := fun h => hlow h.ge
      have hlen : (BitVec.ofNat 32 e.mad.header.length.toNat -
          BitVec.ofNat 32 saHeaderSize).toNat = e.mad.header.length.toNat + (2 ^ 32 - 20) := by
        unfold saHeaderSize at hlow ⊢
        rw [BitVec.toNat_sub, BitVec.toNat_ofNat, BitVec.toNat_ofNat]
        omega
      rw [hlen]
      simp only [hnat, hlow, hne, false_or, false_and, or_false, ne_eq, not_false_eq_true, and_true]
      constructor
      · intro h
        cases hmem : e.mem with
        | none => rfl
        | some bytes =>
          unfold saHeaderSize at hlow
          rw [hmem] at h
          exact (h _ (alloc_wraps (by omega) (by omega) bytes)).elim
      · intro hmem b hb
        rw [hmem, alloc_none] at hb
        cases hb

theorem rmppFirst_sized {size : Nat} (hsize : IsDataLen size) (c : RecvCntxt) (e : RecvEvent)
    (hsafe : ∀ op ∈ (rmppFirstSegment size c e.mad e.mem).2.1, op.Safe)
    (hnone : (rmppFirstSegment size c e.mad e.mem).2.2 = none) :
    (rmppFirstSegment size c e.mad e.mem).1.reqDataLen ≤
      (rmppFirstSegment size c e.mad e.mem).1.bufferSize := by
  by_cases hfirst : e.mad.header.rmppFlags.first = true
  case neg => simp [rmppFirstSegment, hfirst] at hnone
  by_cases hguard : e.mad.header.length = 0 ∧ e.mad.header.rmppFlags.last = true
  case pos => simp [rmppFirstSegment, hfirst, hguard] at hnone
  obtain ⟨segTotal, hsegs⟩ : ∃ segTotal,
      (if e.mad.header.length ≠ 0 then rmppSegTotal size e.mad.header.length else 0) = segTotal :=
    ⟨_, rfl⟩
  obtain ⟨total, htotal⟩ : ∃ total,
      (if e.mad.header.length ≠ 0 then e.mad.header.length.toNat else size) = total :=
    ⟨_, rfl⟩
  obtain ⟨len, hlen⟩ : ∃ len,
      (BitVec.ofNat 32 total - BitVec.ofNat 32 (segTotal * saHeaderSize)).toNat = len :=
    ⟨_, rfl⟩
  have hsmall : 8 ≤ size := by rcases hsize with rfl | rfl <;> decide
  have hlt : len < 2 ^ 32 := hlen ▸ BitVec.isLt _
  rw [rmppFirst_ops e.mem hfirst hguard hsegs htotal hlen] at hsafe
  rw [rmppFirstSegment_eq e.mem hfirst hguard hsegs htotal hlen] at hnone ⊢
  dsimp only at hnone ⊢
  by_cases hzero : len = 0
  · rw [if_pos hzero, countSegment_reqDataLen]
    exact hzero.trans_le (Nat.zero_le _)
  · rw [if_neg hzero] at hsafe hnone ⊢
    cases hbuffer : Buffer.alloc len e.mem with
    | none =>
      rw [hbuffer] at hnone
      cases hnone
    | some buffer =>
      have hroom := (hsafe buffer hbuffer).2
      dsimp only
      rw [countSegment_reqDataLen, countSegment_bufferSize, store_bufferSize]
      show len ≤ buffer.size
      -- a buffer that is too small for its bytes is too small for the segment
      rcases alloc_cases hlt hbuffer with ⟨heq, -⟩ | ⟨hpad, hwrap⟩
      · exact heq.ge
      · split at hroom <;> omega

theorem rmppReceiver_spec {size : Nat} (hsize : IsDataLen size) :
    (rmppReceiver size).Spec (rmppFirstFits size) (rmppLaterFits size) where
  size_lt := by rcases hsize with rfl | rfl <;> decide
  first_safe := rmppFirst_safe hsize
  later_safe c e hle := laterSegment_safe (rmpp_pos size _) hle
  first_start c e := by
    have hbuffer : c.startRequest.bufferSize = c.bufferSize := by
      unfold RecvCntxt.startRequest
      split <;> rfl
    unfold rmppFirstFits
    rw [hbuffer]
  first_sized c e hsafe hnone _ := rmppFirst_sized hsize c e hsafe hnone
  later_sized c e hle := laterSegment_sized _ (rmpp_pos size _) hle
  switch_sized c c' header hsized hswitch := by
    have hok : rmppDirectionSwitch c header = .ok c' := hswitch
    unfold rmppDirectionSwitch at hok
    repeat' split at hok
    all_goals cases hok
    exact hsized
  accept_sized c header hsized := by
    show (rmppAccept c header).Sized
    unfold rmppAccept
    split <;> exact hsized

/-! ### The receiver of the SA -/

/-- A first segment is safe if its length has room for a full segment and the bytes to allocate
do not wrap around, or if no other segment follows. -/
def saFirstFits (_ : RecvCntxt) (e : RecvEvent) : Prop :=
  e.mad.header.length.toNat = 0 ∨ e.mem = none ∨ e.mad.header.rmppFlags.last = true ∨
    (stlSaDataLen ≤ e.mad.header.length.toNat ∧ e.mad.header.length.toNat < 2 ^ 32 - 48)

def saLaterFits (c : RecvCntxt) (e : RecvEvent) : Prop :=
  c.LaterFits stlSaDataLen ((e.mad.header.segNum - 1).toNat * stlSaDataLen)
    (fun len => stlSaDataLen < len) e.mad

theorem saFirstSegment_eq {m : Mad} (mem : Option (Nat → UInt8))
    (hfirst : m.header.rmppFlags.first = true)
    (hguard : ¬(m.header.rmppFlags.last = true ∧
      (m.header.length.toNat = 0 ∨ stlSaDataLen < m.header.length.toNat))) :
    ∃ segTotal reqDataLen, saFirstSegment c m mem =
      let length := m.header.length.toNat
      let last := m.header.rmppFlags.last
      let c := { c with segTotal := segTotal, reqDataLen := reqDataLen }
      match Buffer.alloc length mem with
      | none => ({ c with reqData := none }, [], some (.stop, .stopNoResources))
      | some buffer =>
        let count := if last then min length stlSaDataLen else stlSaDataLen
        (({ c with reqDataLen := length,
                   reqData := some buffer }.store 0 count m.data).1.countSegment last,
          [.alloc length 0 buffer.size, .copy 0 count buffer.size], none) := by
  have hrefused : ¬(m.header.rmppFlags.last && (decide (m.header.length.toNat = 0) ||
      decide (stlSaDataLen < m.header.length.toNat))) = true := by
    simpa using hguard
  have hflag : ¬(!m.header.rmppFlags.first) = true := by simp [hfirst]
  exact ⟨_, _, (if_neg hflag).trans (if_neg hrefused)⟩

theorem saFirst_ops {m : Mad} (mem : Option (Nat → UInt8))
    (hfirst : m.header.rmppFlags.first = true)
    (hguard : ¬(m.header.rmppFlags.last = true ∧
      (m.header.length.toNat = 0 ∨ stlSaDataLen < m.header.length.toNat))) :
    (∀ op ∈ (saFirstSegment c m mem).2.1, op.Safe) ↔
      ∀ b, Buffer.alloc m.header.length.toNat mem = some b →
        (if m.header.rmppFlags.last then min m.header.length.toNat stlSaDataLen
          else stlSaDataLen) ≤ b.size := by
  obtain ⟨segTotal, reqDataLen, heq⟩ := saFirstSegment_eq (c := c) mem hfirst hguard
  rw [heq]
  dsimp only
  cases Buffer.alloc m.header.length.toNat mem <;> simp [MemOp.Safe]

theorem saFirst_safe (c : RecvCntxt) (e : RecvEvent) :
    (∀ op ∈ (saFirstSegment c e.mad e.mem).2.1, op.Safe) ↔
      (e.mad.header.rmppFlags.first = true → saFirstFits c e) := by
  by_cases hfirst : e.mad.header.rmppFlags.first = true
  case neg => simp [saFirstSegment, hfirst]
  simp only [hfirst, true_imp_iff, saFirstFits]
  by_cases hguard : e.mad.header.rmppFlags.last = true ∧
      (e.mad.header.length.toNat = 0 ∨ stlSaDataLen < e.mad.header.length.toNat)
  case pos =>
      have hrefused : (saFirstSegment c e.mad e.mem).2.1 = [] := by
        simp [saFirstSegment, hfirst, hguard.1, hguard.2]
      simp [hrefused, hguard.1]
  rw [saFirst_ops e.mem hfirst hguard]
  have hlt := e.mad.header.length.isLt
  by_cases hzero : e.mad.header.length.toNat = 0
  · have hnone : Buffer.alloc e.mad.header.length.toNat e.mem = none := by
      rw [hzero]
      rfl
    refine ⟨fun _ => .inl hzero, fun _ b hb => ?_⟩
    rw [hnone] at hb
    cases hb
  · by_cases hlast : e.mad.header.rmppFlags.last = true
    · -- all bytes of the request are in the packet
      have hshort : e.mad.header.length.toNat ≤ stlSaDataLen := by
        by_contra hlong
        exact hguard ⟨hlast, .inr (not_le.mp hlong)⟩
      simp only [hlast, if_true, true_or, or_true, iff_true]
      intro b hb
      unfold stlSaDataLen at hshort
      rcases alloc_cases hlt hb with ⟨heq, -⟩ | ⟨-, hwrap⟩ <;> omega
    · rw [if_neg hlast, alloc_fits (Nat.pos_of_ne_zero hzero) hlt (.inl (by decide))]
      simp only [hzero, hlast, Bool.false_eq_true, false_or]
      apply or_congr_right
      unfold stlSaDataLen
      omega

theorem saFirst_sized (c : RecvCntxt) (e : RecvEvent)
    (hsafe : ∀ op ∈ (saFirstSegment c e.mad e.mem).2.1, op.Safe)
    (hnone : (saFirstSegment c e.mad e.mem).2.2 = none) :
    (saFirstSegment c e.mad e.mem).1.reqDataLen ≤
      (saFirstSegment c e.mad e.mem).1.bufferSize := by
  by_cases hfirst : e.mad.header.rmppFlags.first = true
  case neg => simp [saFirstSegment, hfirst] at hnone
  by_cases hguard : e.mad.header.rmppFlags.last = true ∧
      (e.mad.header.length.toNat = 0 ∨ stlSaDataLen < e.mad.header.length.toNat)
  case pos => simp [saFirstSegment, hfirst, hguard.1, hguard.2] at hnone
  rw [saFirst_ops e.mem hfirst hguard] at hsafe
  obtain ⟨segTotal, reqDataLen, heq⟩ := saFirstSegment_eq (c := c) e.mem hfirst hguard
  rw [heq] at hnone ⊢
  dsimp only at hnone ⊢
  cases hbuffer : Buffer.alloc e.mad.header.length.toNat e.mem with
  | none =>
    rw [hbuffer] at hnone
    cases hnone
  | some buffer =>
    have hroom := hsafe buffer hbuffer
    dsimp only
    rw [countSegment_reqDataLen, countSegment_bufferSize, store_bufferSize]
    show e.mad.header.length.toNat ≤ buffer.size
    rcases alloc_cases e.mad.header.length.isLt hbuffer with ⟨heq, -⟩ | ⟨hpad, hwrap⟩
    · exact heq.ge
    · unfold stlSaDataLen at hroom
      split at hroom <;> omega

theorem saReceiver_spec : saReceiver.Spec saFirstFits saLaterFits where
  size_lt := by decide
  first_safe := saFirst_safe
  later_safe c e hle := laterSegment_safe (sa_pos _ _) hle
  first_start c e := Iff.rfl
  first_sized c e hsafe hnone _ := saFirst_sized c e hsafe hnone
  later_sized c e hle := laterSegment_sized _ (sa_pos _ _) hle
  switch_sized c c' header hsized hswitch := by
    have hok : saDirectionSwitch c header = .ok c' := hswitch
    unfold saDirectionSwitch at hok
    repeat' split at hok
    all_goals cases hok
    exact hsized
  accept_sized c header hsized := hsized

end OpaFm.Rmpp
