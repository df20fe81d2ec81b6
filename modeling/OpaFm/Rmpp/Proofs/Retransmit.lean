import OpaFm.Lib.Run
import OpaFm.Rmpp.Proofs.SendWindow

/-!
# Retransmission

Every segment number stands for the same bytes in a whole transfer, as long as the calls
that send a segment cut the response into the same pieces.  The call for a timeout has no
packet, and works with the segments of an IB MAD; so does the call for an ACK with
another base version.
-/

namespace OpaFm.Rmpp

open Lib

def SendEvent.bversion : SendEvent → Option Nat
  | .packet bversion _ _ => some bversion
  | .timeout _ => none

def SendEvent.sends : SendEvent → Nat
  | .packet _ _ sends => sends
  | .timeout sends => sends

def SendCntxt.ExtendsWindow (c : SendCntxt) (resp : RmppHeader) : Prop :=
  resp.rmppVersion = rmppVersion1 ∧ resp.rmppFlags.active = true ∧ resp.rmppType = .ack ∧
    c.wf ≤ resp.segNum.toNat ∧ resp.segNum.toNat ≤ c.wl ∧
    c.wl < resp.length.toNat ∧ c.wl < c.segTotal

def SendCntxt.Transmits (limits : SendLimits) (c : SendCntxt) : SendEvent → Prop
  | .packet _ resp _ => c.ExtendsWindow resp
  | .timeout _ => (c.retries + 1) % 2 ^ 16 ≤ limits.maxRetries ∧ c.wf ≤ c.wl

def Transfer.KeepsSize (limits : SendLimits) (t : Transfer) (e : SendEvent) : Prop :=
  t.cntxt.released = true ∨ t.cntxt.len ≤ ibSaDataLen ∨ e.bversion = some stlBaseVersion ∨
    e.sends = 0 ∨ ¬t.cntxt.Transmits limits e

def Segment.Holds (size len : Nat) (s : Segment) : Prop :=
  s.offset = (s.segNum.toNat - 1) * size ∧ s.offset + s.size = min (s.segNum.toNat * size) len

/-- All packets that were sent are segments of the response, and those of one number are
identical. -/
structure Transfer.Consistent (size len : Nat) (t : Transfer) : Prop where
  numbered : ∀ s ∈ t.sent, 1 ≤ s.segNum.toNat ∧ s.segNum.toNat ≤ t.cntxt.segTotal
  holds : ∀ s ∈ t.sent, s.Holds size len
  identical : ∀ s ∈ t.sent, ∀ s' ∈ t.sent, s.segNum = s'.segNum → s = s'

variable {len : Nat} {c : SendCntxt} {limits : SendLimits} {resp : RmppHeader} {e : SendEvent}

/-! ## The calls -/

def SendCntxt.handled (limits : SendLimits) (c : SendCntxt) :
    SendEvent → Option (SendCntxt × Option RmppStatus)
  | .packet _ resp _ => c.receivePacket resp
  | .timeout _ => some (c.ackTimeout limits)

theorem sendMulti_live (h : Live len c) :
    c.sendMulti limits e =
      match c.handled limits e with
      | none => ({ c with released := true }, [])
      | some r => SendCntxt.finish (saDataSize e.bversion len) e.sends r := by
  have hstarted : (!c.hashed || c.isDS) = false := by simp [h.hashed, h.single]
  cases e with
  | packet v resp sends =>
    simp only [SendCntxt.sendMulti, hstarted, h.len_eq]
    rfl
  | timeout sends =>
    simp only [SendCntxt.sendMulti, hstarted, h.len_eq]
    rfl

theorem receivePacket_cases {r : SendCntxt × Option RmppStatus}
    (hr : c.receivePacket resp = some r) :
    (r.1 = c ∧ r.2 ≠ none) ∨
      (resp.rmppVersion = rmppVersion1 ∧ resp.rmppFlags.active = true ∧ resp.rmppType = .ack ∧
        r = c.receiveAck resp) := by
  unfold SendCntxt.receivePacket at hr
  repeat' split at hr
  all_goals cases hr
  all_goals simp_all

theorem receivePacket_ack (hversion : resp.rmppVersion = rmppVersion1)
    (hactive : resp.rmppFlags.active = true) (hack : resp.rmppType = .ack) :
    c.receivePacket resp = some (c.receiveAck resp) := by
  simp [SendCntxt.receivePacket, hversion, hactive, hack]

theorem receiveAck_segTotal (hcount : segCount len < 2 ^ 16) (h : Live len c) :
    (c.receiveAck resp).1.segTotal = c.segTotal := by
  by_cases hack : c.AcceptsAck resp
  · rw [receiveAck_accepted hcount h hack]
    split <;> rfl
  · rw [receiveAck_refused hack]

theorem ackTimeout_segTotal : (c.ackTimeout limits).1.segTotal = c.segTotal := by
  unfold SendCntxt.ackTimeout
  dsimp only
  split <;> rfl

theorem handled_resolved (hcount : segCount len < 2 ^ 16) (h : Live len c)
    {r : SendCntxt × Option RmppStatus} (hr : c.handled limits e = some r) :
    Resolved len r ∧ r.1.segTotal = segCount len := by
  cases e with
  | packet v resp sends =>
    rcases receivePacket_cases hr with ⟨hsame, hstatus⟩ | ⟨-, -, -, rfl⟩
    · exact ⟨fun hnone => absurd hnone hstatus, hsame ▸ h.total_eq⟩
    · exact ⟨receiveAck_resolved hcount h, (receiveAck_segTotal hcount h).trans h.total_eq⟩
  | timeout sends =>
    cases hr
    exact ⟨ackTimeout_resolved h, ackTimeout_segTotal.trans h.total_eq⟩

theorem receiveAck_sendsNext_iff (hcount : segCount len < 2 ^ 16) (h : Live len c) :
    SendsNext (c.receiveAck resp) ↔
      c.wf ≤ resp.segNum.toNat ∧ resp.segNum.toNat ≤ c.wl ∧ c.wl < resp.length.toNat ∧
        c.wl < c.segTotal := by
  have hns := h.ns_eq
  have hwl := h.wl_le
  have htotal := h.total_eq
  by_cases hack : c.AcceptsAck resp
  · obtain ⟨hlow, hhigh, hnwl⟩ := id hack
    rw [receiveAck_accepted hcount h hack]
    unfold SendsNext
    split
    next hlast =>
      dsimp only
      omega
    next hlast =>
      dsimp only
      split
      all_goals
        simp only [true_and]
        omega
  · constructor
    · rintro ⟨-, -, hle⟩
      rw [receiveAck_refused hack] at hle
      omega
    · rintro ⟨hlow, hhigh, hnwl, -⟩
      exact absurd ⟨hlow, hhigh, hnwl.le⟩ hack

theorem ackTimeout_sendsNext_iff (h : Live len c) :
    SendsNext (c.ackTimeout limits) ↔
      (c.retries + 1) % 2 ^ 16 ≤ limits.maxRetries ∧ c.wf ≤ c.wl := by
  have hlast : c.lastAck ≠ c.segTotal := h.total_eq ▸ h.lastAck_lt.ne
  unfold SendCntxt.ackTimeout SendsNext
  dsimp only
  split
  next hretry =>
    constructor
    · rintro ⟨hnone, -⟩
      cases hnone
    · rintro ⟨hle, -⟩
      exact absurd hretry (not_lt.mpr hle)
  next hretry =>
    constructor
    · rintro ⟨-, -, hle⟩
      exact ⟨not_lt.mp hretry, hle⟩
    · rintro ⟨-, hle⟩
      exact ⟨rfl, hlast, hle⟩

theorem handled_sendsNext_iff (hcount : segCount len < 2 ^ 16) (h : Live len c) :
    (∃ r, c.handled limits e = some r ∧ SendsNext r) ↔ c.Transmits limits e := by
  cases e with
  | packet v resp sends =>
    constructor
    · rintro ⟨r, hr, hnext⟩
      rcases receivePacket_cases hr with ⟨-, hstatus⟩ | ⟨hversion, hactive, hack, rfl⟩
      · exact absurd hnext.1 hstatus
      · exact ⟨hversion, hactive, hack, (receiveAck_sendsNext_iff hcount h).mp hnext⟩
    · rintro ⟨hversion, hactive, hack, hwindow⟩
      exact ⟨_, receivePacket_ack hversion hactive hack,
        (receiveAck_sendsNext_iff hcount h).mpr hwindow⟩
  | timeout sends =>
    rw [SendCntxt.Transmits, ← ackTimeout_sendsNext_iff h]
    simp [SendCntxt.handled]

/-! ## Runs -/

def CutsAlike (size len : Nat) : Prop :=
  size = segSize len ∨ (size = ibSaDataLen ∧ len ≤ ibSaDataLen)

theorem segment_of_cutsAlike {size : Nat} (hcut : CutsAlike size len) (h : Transfers len c)
    (hlow : 1 ≤ c.ns) (hhigh : c.ns ≤ segCount len) :
    c.segment size = segmentAt len c.ns := by
  rcases hcut with rfl | ⟨rfl, hsmall⟩
  · exact segment_segSize h hlow hhigh
  · exact segment_ibSaDataLen h hlow hhigh hsmall

structure Transfer.Sound (len : Nat) (t : Transfer) : Prop where
  sent_eq : ∀ s ∈ t.sent, ∃ k, 1 ≤ k ∧ k ≤ segCount len ∧ s = segmentAt len k
  total_eq : t.sent ≠ [] → t.cntxt.segTotal = segCount len
  live : t.cntxt.released = false → Live len t.cntxt

theorem Transfer.Sound.consistent (hcount : segCount len < 2 ^ 16) {t : Transfer}
    (h : t.Sound len) : t.Consistent (segSize len) len := by
  constructor
  case numbered =>
      intro s hs
      obtain ⟨k, hlow, hhigh, rfl⟩ := h.sent_eq s hs
      rw [segmentAt_segNum hcount hhigh, h.total_eq (List.ne_nil_of_mem hs)]
      exact ⟨hlow, hhigh⟩
  case holds =>
      intro s hs
      obtain ⟨k, hlow, hhigh, rfl⟩ := h.sent_eq s hs
      unfold Segment.Holds
      rw [segmentAt_segNum hcount hhigh]
      exact ⟨rfl, segmentAt_end hlow hhigh⟩
  case identical =>
      intro s hs s' hs' heq
      obtain ⟨k, -, hhigh, rfl⟩ := h.sent_eq s hs
      obtain ⟨k', -, hhigh', rfl⟩ := h.sent_eq s' hs'
      have hk := congrArg BitVec.toNat heq
      rw [segmentAt_segNum hcount hhigh, segmentAt_segNum hcount hhigh'] at hk
      rw [hk]

theorem mem_segments {sent : List Sent} {s : Segment} :
    s ∈ sent.filterMap Sent.segment? ↔ .data s ∈ sent := by
  rw [List.mem_filterMap]
  constructor
  · rintro ⟨a, ha, hs⟩
    cases a with
    | data seg =>
      cases hs
      exact ha
    | abort status => cases hs
  · intro hs
    exact ⟨_, hs, rfl⟩

theorem finish_sound {size sends : Nat} {r : SendCntxt × Option RmppStatus} {sent : List Segment}
    (hres : Resolved len r) (htotal : r.1.segTotal = segCount len)
    (hsent : ∀ s ∈ sent, ∃ k, 1 ≤ k ∧ k ≤ segCount len ∧ s = segmentAt len k)
    (hcut : SendsNext r → sends ≠ 0 → CutsAlike size len) :
    Transfer.Sound len
      { cntxt := (SendCntxt.finish size sends r).1
        sent := sent ++ (SendCntxt.finish size sends r).2.filterMap Sent.segment? } := by
  constructor
  case total_eq =>
      intro _
      obtain ⟨ns, released, hfst⟩ := finish_fst size sends hres
      rw [hfst]
      exact htotal
  case live => exact finish_live hres
  case sent_eq =>
      intro s hs
      rcases List.mem_append.mp hs with hold | hnew
      · exact hsent s hold
      · obtain ⟨hnext, hsends, k, hfrom, hto, rfl⟩ := mem_finish (mem_segments.mp hnew)
        have hpending := hres hnext.1 hnext.2.1
        have hlow : 1 ≤ k := hpending.ns_pos.trans hfrom
        have hhigh : k ≤ segCount len := hto.trans hpending.wl_le
        have htransfers : Transfers len { r.1 with ns := k } :=
          ⟨hpending.len_eq, hpending.total_eq⟩
        exact ⟨k, hlow, hhigh,
          segment_of_cutsAlike (hcut hnext hsends) htransfers hlow hhigh⟩

theorem step_released {t : Transfer} (h : t.cntxt.released = true) :
    t.step (SendCntxt.sendMulti · limits) e = t := by
  rw [Transfer.step, if_pos h]

theorem step_live {t : Transfer} (h : Live len t.cntxt) :
    t.step (SendCntxt.sendMulti · limits) e =
      match t.cntxt.handled limits e with
      | none => { t with cntxt := { t.cntxt with released := true } }
      | some r =>
        { cntxt := (SendCntxt.finish (saDataSize e.bversion len) e.sends r).1
          sent := t.sent ++ (SendCntxt.finish (saDataSize e.bversion len) e.sends r).2.filterMap
            Sent.segment? } := by
  simp only [Transfer.step, h.kept, sendMulti_live h]
  cases t.cntxt.handled limits e with
  | none => simp
  | some r => rfl

theorem saDataSize_stl : saDataSize (some stlBaseVersion) len = segSize len := if_pos rfl

theorem saDataSize_cutsAlike {bversion : Option Nat}
    (h : len ≤ ibSaDataLen ∨ bversion = some stlBaseVersion) :
    CutsAlike (saDataSize bversion len) len := by
  by_cases hstl : bversion = some stlBaseVersion
  · rw [hstl, saDataSize_stl]
    exact .inl rfl
  · rw [saDataSize, if_neg hstl]
    exact .inr ⟨rfl, h.resolve_right hstl⟩

theorem step_sound (hcount : segCount len < 2 ^ 16) {t : Transfer} (h : t.Sound len)
    (hok : t.KeepsSize limits e) : (t.step (SendCntxt.sendMulti · limits) e).Sound len := by
  cases hreleased : t.cntxt.released with
  | true =>
    rw [step_released hreleased]
    exact h
  | false =>
    have hlive := h.live hreleased
    rw [step_live hlive]
    split
    next => exact ⟨h.sent_eq, h.total_eq, fun hkept => Bool.noConfusion hkept⟩
    next r hr =>
      have hres := handled_resolved hcount hlive hr
      apply finish_sound hres.1 hres.2 h.sent_eq
      intro hnext hsends
      apply saDataSize_cutsAlike
      rcases hok with hgone | hsmall | hstl | hnone | hidle
      · rw [hreleased] at hgone
        cases hgone
      · exact .inl (hlive.len_eq ▸ hsmall)
      · exact .inr hstl
      · exact absurd hnone hsends
      · exact absurd ((handled_sendsNext_iff hcount hlive).mp ⟨r, hr, hnext⟩) hidle

theorem step_inconsistent (hcount : segCount len < 2 ^ 16) {t : Transfer} (h : t.Sound len)
    (hbad : ¬t.KeepsSize limits e) :
    ¬(t.step (SendCntxt.sendMulti · limits) e).Consistent (segSize len) len := by
  intro hcons
  simp only [Transfer.KeepsSize, not_or, not_not] at hbad
  obtain ⟨hreleased, hlong, hversion, hsends, htransmits⟩ := hbad
  have hlive := h.live (Bool.eq_false_of_not_eq_true hreleased)
  obtain ⟨r, hr, hnext⟩ := (handled_sendsNext_iff hcount hlive).mpr htransmits
  have hpending := (handled_resolved hcount hlive hr).1 hnext.1 hnext.2.1
  have hsize : saDataSize e.bversion len = ibSaDataLen := if_neg hversion
  have hsent : r.1.segment ibSaDataLen ∈ (t.step (SendCntxt.sendMulti · limits) e).sent := by
    rw [step_live hlive, hr, hsize]
    exact List.mem_append_right _ (mem_segments.mpr (head_finish hnext hsends))
  have hnum : (r.1.segment ibSaDataLen).segNum.toNat = r.1.ns := by
    have hle := hnext.2.2.trans hpending.wl_le
    simp only [SendCntxt.segment, BitVec.toNat_ofNat]
    exact Nat.mod_eq_of_lt (by omega)
  have hholds := hcons.holds _ hsent
  unfold Segment.Holds at hholds
  rw [hnum] at hholds
  exact segment_resized hpending.ns_pos (hlive.len_eq ▸ not_le.mp hlong) hholds

theorem started_sound (hcount : segCount len < 2 ^ 16) (req : RmppHeader) (sends : Nat) :
    (Transfer.started (SendCntxt.sendMulti · limits) len req sends).Sound len := by
  have hsize : saDataSize (some stlBaseVersion) (SendCntxt.fresh len).len = segSize len :=
    saDataSize_stl
  have hcall : Transfer.started (SendCntxt.sendMulti · limits) len req sends =
      { cntxt := (SendCntxt.finish (segSize len) sends
          ((SendCntxt.fresh len).start limits (segSize len))).1
        sent := [] ++ (SendCntxt.finish (segSize len) sends
          ((SendCntxt.fresh len).start limits (segSize len))).2.filterMap Sent.segment? } := by
    rw [← hsize]
    rfl
  rw [hcall]
  have hnothing : ∀ s ∈ ([] : List Segment),
      ∃ k, 1 ≤ k ∧ k ≤ segCount len ∧ s = segmentAt len k := by
    intro s hs
    cases hs
  by_cases hlen : len ≤ limits.dataLength
  · apply finish_sound (start_resolved hcount) _ hnothing (fun _ _ => .inl rfl)
    rw [start_fresh hcount hlen]
  · have hstatus := start_too_long hlen
    generalize (SendCntxt.fresh len).start limits (segSize len) = r at *
    obtain ⟨c, status⟩ := r
    cases hstatus
    have hempty : (SendCntxt.finish (segSize len) sends (c, some .abortBadType)).2.filterMap
        Sent.segment? = [] := by
      cases sends <;> rfl
    rw [hempty]
    exact ⟨hnothing, fun hne => absurd rfl hne, fun hkept => Bool.noConfusion hkept⟩

theorem sendMulti_consistent_iff (hcount : segCount len < 2 ^ 16) (req : RmppHeader)
    (sends : Nat) (events : List SendEvent) :
    AllStates (Transfer.step (SendCntxt.sendMulti · limits))
        (Transfer.Consistent (segSize len) len)
        (Transfer.started (SendCntxt.sendMulti · limits) len req sends) events ↔
      AllSteps (Transfer.step (SendCntxt.sendMulti · limits)) (Transfer.KeepsSize limits)
        (Transfer.started (SendCntxt.sendMulti · limits) len req sends) events :=
  allStates_iff (fun _ h => h.consistent hcount) (fun _ _ h hok => step_sound hcount h hok)
    (fun _ _ h hbad => step_inconsistent hcount h hbad) events _
    (started_sound hcount req sends)

theorem segCount_lt_of_le (h : len ≤ 65535 * stlSaDataLen) : segCount len < 2 ^ 16 := by
  by_cases hzero : len = 0
  · rw [segCount, if_pos hzero]
    decide
  · by_contra hmany
    have hsize : segSize len = stlSaDataLen := segSize_of_count (by omega)
    have hlast := (segCount_bounds hzero).1
    rw [hsize] at hlast
    have hmono : 65535 * stlSaDataLen ≤ (segCount len - 1) * stlSaDataLen :=
      Nat.mul_le_mul_right _ (by omega)
    omega

/-- In both senders, every packet of a transfer holds the bytes of its segment and is sent
again unchanged if and only if no call that sends segments cuts the response anew. -/
theorem retransmission_consistent_iff (len dataLength maxRetries : Nat)
    (hlen : len ≤ 65535 * stlSaDataLen) (req : RmppHeader) (sends : Nat)
    (events : List SendEvent) :
    (AllStates (Transfer.step (rmppSendMulti dataLength maxRetries))
        (Transfer.Consistent (saDataSize (some stlBaseVersion) len) len)
        (Transfer.started (rmppSendMulti dataLength maxRetries) len req sends) events ↔
      AllSteps (Transfer.step (rmppSendMulti dataLength maxRetries))
        (Transfer.KeepsSize ⟨dataLength, maxRetries⟩)
        (Transfer.started (rmppSendMulti dataLength maxRetries) len req sends) events) ∧
    (AllStates (Transfer.step (saSendMulti dataLength maxRetries))
        (Transfer.Consistent (saDataSize (some stlBaseVersion) len) len)
        (Transfer.started (saSendMulti dataLength maxRetries) len req sends) events ↔
      AllSteps (Transfer.step (saSendMulti dataLength maxRetries))
        (Transfer.KeepsSize ⟨dataLength, maxRetries⟩)
        (Transfer.started (saSendMulti dataLength maxRetries) len req sends) events) := by
  rw [saDataSize_stl]
  have hcount := segCount_lt_of_le hlen
  exact ⟨sendMulti_consistent_iff hcount req sends events,
    sendMulti_consistent_iff hcount req sends events⟩

def getTableRequest : RmppHeader where
  rmppVersion := rmppVersion1
  rmppType := .not
  rmppFlags := { active := false, first := false, last := false }
  rmppStatus := .noError
  segNum := 0
  length := 0

def ackOfFirst : RmppHeader where
  rmppVersion := rmppVersion1
  rmppType := .ack
  rmppFlags := { active := true, first := false, last := false }
  rmppStatus := .noError
  segNum := 1
  length := 2

/-- A response of 4000 bytes: the ACK of the first segment lets the second one follow. -/
theorem retransmission_consistent_acked :
    4000 ≤ 65535 * stlSaDataLen ∧
      AllStates (Transfer.step (rmppSendMulti 5000 3))
        (Transfer.Consistent (saDataSize (some stlBaseVersion) 4000) 4000)
        (Transfer.started (rmppSendMulti 5000 3) 4000 getTableRequest 1)
        [.packet stlBaseVersion ackOfFirst 1] :=
  ⟨by decide,
    (retransmission_consistent_iff 4000 5000 3 (by decide) getTableRequest 1
      [.packet stlBaseVersion ackOfFirst 1]).1.mpr ⟨.inr (.inr (.inl rfl)), trivial⟩⟩

/-- The same response: after a timeout, the first segment goes out again with 200 bytes. -/
theorem timeout_resends_less :
    4000 ≤ 5000 ∧
    (¬AllStates (Transfer.step (rmppSendMulti 5000 3))
        (Transfer.Consistent (saDataSize (some stlBaseVersion) 4000) 4000)
        (Transfer.started (rmppSendMulti 5000 3) 4000 getTableRequest 1) [.timeout 1]) ∧
    ¬AllStates (Transfer.step (saSendMulti 5000 3))
        (Transfer.Consistent (saDataSize (some stlBaseVersion) 4000) 4000)
        (Transfer.started (saSendMulti 5000 3) 4000 getTableRequest 1) [.timeout 1] := by
  have hbad : ¬Transfer.Consistent (saDataSize (some stlBaseVersion) 4000) 4000
      (Transfer.step (rmppSendMulti 5000 3)
        (Transfer.started (rmppSendMulti 5000 3) 4000 getTableRequest 1) (.timeout 1)) := by
    intro h
    have hfirst := h.identical (segmentAt 4000 1) (by decide)
      { segmentAt 4000 1 with size := 200 } (by decide) rfl
    have hsize : (segmentAt 4000 1).size = 200 := congrArg Segment.size hfirst
    revert hsize
    decide
  exact ⟨by decide, fun h => hbad h.2, fun h => hbad h.2⟩

end OpaFm.Rmpp
