import OpaFm.Lib.Run
import OpaFm.Rmpp.Proofs.ReceiveSegments
import OpaFm.Rmpp.Send
import Mathlib.Tactic.Ring

/-!
# Reassembly

The runs of both receivers: every write goes to the buffer if and only if no packet is one
of the segments that do not fit.
-/

namespace OpaFm.Rmpp

open Lib

/-- Every copy so far was within its buffer, and no allocated size wrapped around. -/
def Reception.Safe (t : Reception) : Prop := ∀ op ∈ t.ops, op.Safe

def Reception.fresh : Reception where
  cntxt := .fresh
  ops := []

def RecvCntxt.RmppFits (c : RecvCntxt) (e : RecvEvent) : Prop :=
  rmppValidateResponseMad e.mad = false ∨
    c.Fits (rmppFirstFits (rmppDataLen e.mad)) (rmppLaterFits (rmppDataLen e.mad)) e

def RecvCntxt.SaFits (c : RecvCntxt) (e : RecvEvent) : Prop := c.Fits saFirstFits saLaterFits e

/-- A packet meets the condition, or comes after the end of the transfer. -/
def Reception.Meets (ok : RecvCntxt → RecvEvent → Prop) (t : Reception) (e : RecvEvent) : Prop :=
  t.cntxt.released = true ∨ ok t.cntxt e

structure Reception.Sound (t : Reception) : Prop where
  safe : t.Safe
  sized : t.cntxt.released = false → t.cntxt.Sized

theorem fresh_sound : Reception.fresh.Sound where
  safe := by
    intro op hop
    cases hop
  sized _ hhashed := by cases hhashed

section Runs

variable {receive : RecvCntxt → RecvEvent → RecvCntxt × List MemOp × List RmppHeader}
  {ok : RecvCntxt → RecvEvent → Prop}

theorem step_ops {t : Reception} (h : t.cntxt.released = false) (e : RecvEvent) :
    t.step receive e =
      { cntxt := (receive t.cntxt e).1, ops := t.ops ++ (receive t.cntxt e).2.1 } := by
  simp [Reception.step, h]

theorem reception_safe_iff
    (hsafe : ∀ c e, c.Sized → ((∀ op ∈ (receive c e).2.1, op.Safe) ↔ ok c e))
    (hsized : ∀ c e, c.Sized → (∀ op ∈ (receive c e).2.1, op.Safe) →
      (receive c e).1.released = false → (receive c e).1.Sized)
    (packets : List RecvEvent) :
    AllStates (Reception.step receive) Reception.Safe .fresh packets ↔
      AllSteps (Reception.step receive) (Reception.Meets ok) .fresh packets := by
  have hkeep : ∀ (t : Reception) e, t.Sound → t.Meets ok e → (t.step receive e).Sound := by
    intro t e h hok
    cases hreleased : t.cntxt.released with
    | true =>
      rw [Reception.step, if_pos hreleased]
      exact h
    | false =>
      rw [step_ops hreleased]
      have hc := h.sized hreleased
      have hfits : ok t.cntxt e := hok.resolve_left (by simp [hreleased])
      have hnew := (hsafe _ _ hc).mpr hfits
      constructor
      case safe =>
          intro op hop
          rcases List.mem_append.mp hop with hold | hlast
          · exact h.safe op hold
          · exact hnew op hlast
      case sized => exact hsized _ _ hc hnew
  have hlose : ∀ (t : Reception) e, t.Sound → ¬t.Meets ok e → ¬(t.step receive e).Safe := by
    intro t e h hbad hnext
    have hreleased : t.cntxt.released = false :=
      Bool.eq_false_of_not_eq_true fun hr => hbad (.inl hr)
    rw [step_ops hreleased] at hnext
    apply hbad
    right
    apply (hsafe _ _ (h.sized hreleased)).mp
    intro op hop
    exact hnext op (List.mem_append_right _ hop)
  exact allStates_iff (fun _ h => h.safe) hkeep hlose packets _ fresh_sound

end Runs

theorem rmppDataLen_isDataLen (m : Mad) : IsDataLen (rmppDataLen m) := by
  unfold rmppDataLen
  split
  next => exact .inr rfl
  next => exact .inl rfl

/-- Both receivers stay within the buffer, and allocate what the packet's length says, in
exactly the runs all of whose segments fit. -/
theorem reassembly_safe_iff (packets : List RecvEvent) :
    (AllStates (Reception.step rmppReceiveGetmultiResponse) Reception.Safe .fresh packets ↔
      AllSteps (Reception.step rmppReceiveGetmultiResponse) (Reception.Meets RecvCntxt.RmppFits)
        .fresh packets) ∧
    (AllStates (Reception.step saReceiveGetmulti) Reception.Safe .fresh packets ↔
      AllSteps (Reception.step saReceiveGetmulti) (Reception.Meets RecvCntxt.SaFits) .fresh
        packets) := by
  constructor
  · apply reception_safe_iff
    · intro c e hc
      cases hvalid : rmppValidateResponseMad e.mad with
      | false => simp [rmppReceiveGetmultiResponse, RecvCntxt.RmppFits, hvalid]
      | true =>
        simp only [rmppReceiveGetmultiResponse, RecvCntxt.RmppFits, hvalid, if_true,
          Bool.true_eq_false, false_or]
        exact receive_safe_iff (rmppReceiver_spec (rmppDataLen_isDataLen e.mad)) hc
    · intro c e hc hops hkept
      cases hvalid : rmppValidateResponseMad e.mad with
      | false =>
        simp only [rmppReceiveGetmultiResponse, hvalid]
        exact hc
      | true =>
        simp only [rmppReceiveGetmultiResponse, hvalid, if_true] at hops hkept ⊢
        exact receive_sized (rmppReceiver_spec (rmppDataLen_isDataLen e.mad)) hc hops hkept
  · exact reception_safe_iff (fun c e hc => receive_safe_iff saReceiver_spec hc)
      (fun c e hc hops => receive_sized saReceiver_spec hc hops) packets

/-- The first segment of a request of several segments, with a payload length of 100. -/
def shortFirst : RecvEvent where
  mad :=
    { cversion := stlSaClassVersion
      mclass := 0x32
      method := 0x92
      header :=
        { rmppVersion := rmppVersion1
          rmppType := .data
          rmppFlags := { active := true, first := true, last := false }
          rmppStatus := .noError
          segNum := 1
          length := 100 }
      data := fun _ => 0 }
  mem := some fun _ => 0
  sendOk := true

/-- 1992 bytes go to a buffer of 80 bytes, and to one of 100 bytes in the SA. -/
theorem short_first_overflows :
    (¬AllStates (Reception.step rmppReceiveGetmultiResponse) Reception.Safe .fresh [shortFirst]) ∧
      ¬AllStates (Reception.step saReceiveGetmulti) Reception.Safe .fresh [shortFirst] := by
  constructor
  · intro h
    have hcopy := h.2 (.copy 0 1992 80) (by decide)
    exact absurd hcopy (by decide : ¬0 + 1992 ≤ 80)
  · intro h
    have hcopy := h.2 (.copy 0 1992 100) (by decide)
    exact absurd hcopy (by decide : ¬0 + 1992 ≤ 100)

/-!
## The segments of a response

A response is cut into segments of the size that the first call works with.  A later
call that works with the same size sends the same segments, and so does one with the
smaller size of a call without a packet, if the response fits into that.
-/

def segSize (len : Nat) : Nat := min stlSaDataLen len

def segCount (len : Nat) : Nat := if len = 0 then 1 else (len + segSize len - 1) / segSize len

def segmentAt (len k : Nat) : Segment where
  segNum := BitVec.ofNat 32 k
  rmppFlags := { active := true, first := k = 1, last := k = segCount len }
  length :=
    if k = 1 then BitVec.ofNat 32 (len + segCount len * saHeaderSize)
    else if k = segCount len then BitVec.ofNat 32 (len - (k - 1) * segSize len + saHeaderSize)
    else 0
  offset := (k - 1) * segSize len
  size := min (k * segSize len) len - (k - 1) * segSize len

/-! ### Counting -/

theorem segSize_pos {len : Nat} (h : len ≠ 0) : 0 < segSize len := by
  unfold segSize stlSaDataLen
  omega

theorem segSize_le (len : Nat) : segSize len ≤ 1992 := Nat.min_le_left _ _

theorem segCount_pos (len : Nat) : 1 ≤ segCount len := by
  unfold segCount
  split
  next => exact Nat.le_refl 1
  next h =>
    rw [Nat.one_le_iff_ne_zero, Nat.div_ne_zero_iff]
    have hpos := segSize_pos h
    omega

theorem pred_mul_segSize (len : Nat) :
    (segCount len - 1) * segSize len + segSize len = segCount len * segSize len := by
  rw [← Nat.succ_mul]
  congr 1
  have := segCount_pos len
  omega

theorem segCount_bounds {len : Nat} (h : len ≠ 0) :
    (segCount len - 1) * segSize len < len ∧ len ≤ segCount len * segSize len := by
  have hpos := segSize_pos h
  have hcount : segCount len = (len + segSize len - 1) / segSize len := if_neg h
  have hdiv := Nat.div_add_mod (len + segSize len - 1) (segSize len)
  have hmod := Nat.mod_lt (len + segSize len - 1) hpos
  rw [← hcount, Nat.mul_comm] at hdiv
  have hpred := pred_mul_segSize len
  omega

theorem segCount_eq_one {len : Nat} (h : len ≤ stlSaDataLen) : segCount len = 1 := by
  by_cases hzero : len = 0
  · exact if_pos hzero
  · have hsize : segSize len = len := Nat.min_eq_right h
    rw [segCount, if_neg hzero, hsize]
    have hlt : len - 1 < len := by omega
    rw [show len + len - 1 = len - 1 + len by omega, Nat.add_div_right _ (by omega),
      Nat.div_eq_of_lt hlt]

theorem segSize_of_count {len : Nat} (h : 1 < segCount len) : segSize len = stlSaDataLen := by
  by_contra hne
  have hle : len ≤ stlSaDataLen := by
    unfold segSize at hne
    omega
  rw [segCount_eq_one hle] at h
  exact Nat.lt_irrefl 1 h

theorem last_dlen {len : Nat} (h : len ≠ 0) :
    (if len % segSize len ≠ 0 then len % segSize len else segSize len) =
      len - (segCount len - 1) * segSize len := by
  obtain ⟨hlow, hhigh⟩ := segCount_bounds h
  have hpos := segSize_pos h
  have hpred := pred_mul_segSize len
  generalize segSize len = size at *
  have hrest : len - (segCount len - 1) * size ≤ size := by omega
  have hmod : len % size = (len - (segCount len - 1) * size) % size := by
    calc
      len % size = (len - (segCount len - 1) * size + (segCount len - 1) * size) % size := by
        rw [Nat.sub_add_cancel hlow.le]
      _ = (len - (segCount len - 1) * size) % size := Nat.add_mul_mod_self_right _ _ _
  rcases Nat.lt_or_eq_of_le hrest with hlt | heq
  · rw [hmod, Nat.mod_eq_of_lt hlt, if_pos (by omega)]
  · rw [hmod, heq, Nat.mod_self, if_neg (by simp)]

theorem segmentAt_segNum {len : Nat} (hcount : segCount len < 2 ^ 16) {k : Nat} (hk : k ≤ segCount len) :
    (segmentAt len k).segNum.toNat = k := by
  rw [segmentAt, BitVec.toNat_ofNat, Nat.mod_eq_of_lt (by omega)]

theorem segmentAt_end {len k : Nat} (hlow : 1 ≤ k) (hhigh : k ≤ segCount len) :
    (segmentAt len k).offset + (segmentAt len k).size = min (k * segSize len) len := by
  have hle : (k - 1) * segSize len ≤ min (k * segSize len) len := by
    apply Nat.le_min.mpr
    constructor
    · exact Nat.mul_le_mul_right _ (Nat.sub_le _ _)
    · by_cases hzero : len = 0
      · subst hzero
        simp [segSize]
      · have hlast := (segCount_bounds hzero).1
        have hmono : (k - 1) * segSize len ≤ (segCount len - 1) * segSize len :=
          Nat.mul_le_mul_right _ (by omega)
        omega
  exact Nat.add_sub_cancel' hle

/-! ### The segments that are sent -/

structure Transfers (len : Nat) (c : SendCntxt) : Prop where
  len_eq : c.len = len
  total_eq : c.segTotal = segCount len

variable {len : Nat} {c : SendCntxt}

theorem ne_zero_of_count (h : 1 < segCount len) : len ≠ 0 := by
  rintro rfl
  exact Nat.lt_irrefl 1 h

theorem dlen_segSize (h : Transfers len c) (hlen : len ≠ 0) (hlow : 1 ≤ c.ns)
    (hhigh : c.ns ≤ segCount len) :
    c.dlen (segSize len) = min (c.ns * segSize len) len - (c.ns - 1) * segSize len := by
  have hpos := segSize_pos hlen
  obtain ⟨hlast, htotal⟩ := segCount_bounds hlen
  rw [SendCntxt.dlen, h.total_eq, h.len_eq]
  split
  next heq =>
    simp only [ne_eq, hpos.ne', not_false_eq_true, if_true]
    rw [heq, Nat.min_eq_right htotal]
    exact last_dlen hlen
  next hne =>
    -- the segments before the last one are full
    have hle : c.ns * segSize len ≤ (segCount len - 1) * segSize len :=
      Nat.mul_le_mul_right _ (by omega)
    rw [Nat.min_eq_left (by omega), Nat.sub_mul, Nat.one_mul]
    have hself : segSize len ≤ c.ns * segSize len := Nat.le_mul_of_pos_left _ hlow
    omega

theorem segment_segSize (h : Transfers len c) (hlow : 1 ≤ c.ns) (hhigh : c.ns ≤ segCount len) :
    c.segment (segSize len) = segmentAt len c.ns := by
  by_cases hlen : len = 0
  · subst hlen
    have hns : c.ns = 1 := Nat.le_antisymm hhigh hlow
    simp [SendCntxt.segment, segmentAt, h.len_eq, h.total_eq, hns]
  · have hdlen := dlen_segSize h hlen hlow hhigh
    obtain ⟨hlast, htotal⟩ := segCount_bounds hlen
    unfold SendCntxt.segment segmentAt
    rw [hdlen, h.len_eq, h.total_eq, if_pos hlen]
    congr 1
    split
    next => rfl
    next =>
      split
      next heq =>
        rw [heq, Nat.min_eq_right htotal]
        have hsmall : len - (segCount len - 1) * segSize len + saHeaderSize < 2 ^ 32 := by
          have := pred_mul_segSize len
          have := segSize_le len
          unfold saHeaderSize
          omega
        rw [if_neg]
        intro hzero
        have hnat := congrArg BitVec.toNat hzero
        rw [BitVec.toNat_ofNat, Nat.mod_eq_of_lt hsmall] at hnat
        simp [saHeaderSize] at hnat
      next => rfl

theorem segment_ibSaDataLen (h : Transfers len c) (hlow : 1 ≤ c.ns) (hhigh : c.ns ≤ segCount len)
    (hsmall : len ≤ ibSaDataLen) : c.segment ibSaDataLen = segmentAt len c.ns := by
  have hcount : segCount len = 1 :=
    segCount_eq_one (hsmall.trans (show ibSaDataLen ≤ stlSaDataLen by decide))
  have hns : c.ns = 1 := Nat.le_antisymm (hcount ▸ hhigh) hlow
  have hsize : segSize len = len :=
    Nat.min_eq_right (hsmall.trans (show ibSaDataLen ≤ stlSaDataLen by decide))
  rw [← segment_segSize h hlow hhigh, hsize]
  unfold SendCntxt.segment SendCntxt.dlen
  rw [h.len_eq, h.total_eq, hns, hcount]
  by_cases hzero : len = 0
  · simp [hzero]
  · have hfull : (if len % ibSaDataLen ≠ 0 then len % ibSaDataLen else ibSaDataLen) = len := by
      unfold ibSaDataLen at hsmall ⊢
      split <;> omega
    have hne : ibSaDataLen ≠ 0 := by decide
    simp only [if_true, if_pos hne, hfull, Nat.mod_self, ne_eq, hzero, not_false_eq_true,
      not_true_eq_false, if_false, Nat.sub_self, Nat.zero_mul]

theorem segment_resized (hlow : 1 ≤ c.ns) (hlong : ibSaDataLen < len) :
    ¬((c.segment ibSaDataLen).offset = (c.ns - 1) * segSize len ∧
      (c.segment ibSaDataLen).offset + (c.segment ibSaDataLen).size =
        min (c.ns * segSize len) len) := by
  rintro ⟨hoffset, hend⟩
  have hwide : ibSaDataLen < segSize len := by
    unfold segSize
    exact Nat.lt_min.mpr ⟨by decide, hlong⟩
  have hdlen : c.dlen ibSaDataLen ≤ ibSaDataLen := by
    have hmod : c.len % ibSaDataLen < ibSaDataLen := Nat.mod_lt _ (by decide)
    unfold SendCntxt.dlen
    split
    next =>
      dsimp only
      rw [if_pos (show ibSaDataLen ≠ 0 by decide)]
      split <;> omega
    next => exact Nat.le_refl _
  have hsize : (c.segment ibSaDataLen).size ≤ ibSaDataLen := by
    unfold SendCntxt.segment
    dsimp only
    split
    next => exact hdlen
    next => exact Nat.zero_le _
  have hoff : (c.segment ibSaDataLen).offset = (c.ns - 1) * ibSaDataLen := rfl
  rcases Nat.eq_or_lt_of_le hlow with hone | hmore
  · -- the first segment ends too early
    rw [← hone, Nat.one_mul] at hend
    rw [hoff, ← hone, Nat.sub_self, Nat.zero_mul, Nat.zero_add] at hend
    unfold segSize at hwide hend
    omega
  · -- a later one starts too early
    rw [hoff] at hoffset
    have := Nat.eq_of_mul_eq_mul_left (show 0 < c.ns - 1 by omega) hoffset
    omega

end OpaFm.Rmpp
