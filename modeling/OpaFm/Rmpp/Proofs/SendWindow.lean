import OpaFm.Rmpp.Proofs.Segments

/-!
# The window of the sender

Between two calls the sender has sent its window, and `last_ack` is just before it.  An
ACK moves the window and a timeout goes back to its start; in both cases the segments
that are sent next are cut with the size of that call.
-/

namespace OpaFm.Rmpp

structure Pending (len : Nat) (c : SendCntxt) : Prop extends Transfers len c where
  hashed : c.hashed = true
  single : c.isDS = false
  kept : c.released = false
  wf_eq : c.wf = c.lastAck + 1
  lastAck_lt : c.lastAck < segCount len
  wl_le : c.wl ≤ segCount len
  wf_le : c.wf ≤ c.wl + 1
  ns_pos : 1 ≤ c.ns
  ns_le : c.ns ≤ c.wl + 1

structure Live (len : Nat) (c : SendCntxt) : Prop extends Pending len c where
  ns_eq : c.ns = c.wl + 1

def Resolved (len : Nat) (r : SendCntxt × Option RmppStatus) : Prop :=
  r.2 = none → r.1.lastAck ≠ r.1.segTotal → Pending len r.1

variable {len : Nat} {c : SendCntxt} {limits : SendLimits} {resp : RmppHeader}

/-! ## What each event does to the window -/

theorem start_fresh (hcount : segCount len < 2 ^ 16) (hlen : len ≤ limits.dataLength) :
    (SendCntxt.fresh len).start limits (segSize len) =
      ({ SendCntxt.fresh len with hashed := true, wf := 1, wl := 1, ns := 1,
                                  segTotal := segCount len }, none) := by
  by_cases hzero : len = 0
  · subst hzero
    rfl
  · have hsize : segSize len ≠ 0 := (segSize_pos hzero).ne'
    have hdef : segCount len = (len + segSize len - 1) / segSize len := if_neg hzero
    simpa [SendCntxt.start, SendCntxt.fresh, hzero, hlen, hsize, ← hdef] using hcount

theorem start_too_long (hlen : ¬len ≤ limits.dataLength) :
    ((SendCntxt.fresh len).start limits (segSize len)).2 = some .abortBadType := by
  have hzero : len ≠ 0 := by omega
  simp [SendCntxt.start, SendCntxt.fresh, hzero, hlen]

theorem start_resolved (hcount : segCount len < 2 ^ 16) :
    Resolved len ((SendCntxt.fresh len).start limits (segSize len)) := by
  have hpos := segCount_pos len
  intro hnone hunfinished
  by_cases hlen : len ≤ limits.dataLength
  · rw [start_fresh hcount hlen]
    constructor
    case toTransfers => exact ⟨rfl, rfl⟩
    case lastAck_lt => exact hpos
    case wl_le => exact hpos
    case wf_le => exact Nat.le_succ 1
    case ns_le => exact Nat.le_succ 1
    all_goals rfl
  · rw [start_too_long hlen] at hnone
    cases hnone

def SendCntxt.AcceptsAck (c : SendCntxt) (resp : RmppHeader) : Prop :=
  c.wf ≤ resp.segNum.toNat ∧ resp.segNum.toNat ≤ c.wl ∧ c.wl ≤ resp.length.toNat

theorem receiveAck_refused (hack : ¬c.AcceptsAck resp) : (c.receiveAck resp).1 = c := by
  unfold SendCntxt.AcceptsAck at hack
  unfold SendCntxt.receiveAck
  dsimp only
  split
  next => rfl
  next hlow =>
    split
    next => rfl
    next hhigh =>
      split
      next => rfl
      next hnwl => exact absurd ⟨not_lt.mp hlow, not_lt.mp hhigh, not_lt.mp hnwl⟩ hack

theorem receiveAck_accepted (hcount : segCount len < 2 ^ 16) (h : Live len c)
    (hack : c.AcceptsAck resp) :
    c.receiveAck resp =
      if resp.segNum.toNat = c.segTotal then
        ({ c with lastAck := resp.segNum.toNat, retries := 0 }, none)
      else
        ({ c with lastAck := resp.segNum.toNat, retries := 0, wf := resp.segNum.toNat + 1,
                  wl := if c.segTotal < resp.length.toNat then c.segTotal
                    else resp.length.toNat }, none) := by
  obtain ⟨hlow, hhigh, hnwl⟩ := hack
  have hwf := h.wf_eq
  have hwl := h.wl_le
  have hlast : c.lastAck ≤ resp.segNum.toNat := by omega
  have hmod : resp.segNum.toNat % 2 ^ 16 = resp.segNum.toNat := Nat.mod_eq_of_lt (by omega)
  simp only [SendCntxt.receiveAck, if_neg (not_lt.mpr hlow), if_neg (not_lt.mpr hhigh),
    if_neg (not_lt.mpr hnwl), if_pos hlast, hmod]

theorem receiveAck_resolved (hcount : segCount len < 2 ^ 16) (h : Live len c) :
    Resolved len (c.receiveAck resp) := by
  intro hnone hunfinished
  by_cases hack : c.AcceptsAck resp
  · rw [receiveAck_accepted hcount h hack] at hunfinished ⊢
    have hwl := h.wl_le
    have htotal := h.total_eq
    have hns := h.ns_eq
    obtain ⟨hlow, hhigh, hnwl⟩ := hack
    split at hunfinished
    next hlast => exact absurd hlast hunfinished
    next hlast =>
      rw [if_neg hlast]
      constructor
      case toTransfers => exact ⟨h.len_eq, htotal⟩
      case hashed => exact h.hashed
      case single => exact h.single
      case kept => exact h.kept
      case wf_eq => rfl
      case ns_pos => exact h.ns_pos
      case lastAck_lt =>
          dsimp only
          omega
      all_goals
        dsimp only
        split <;> omega
  · rw [receiveAck_refused hack]
    exact h.toPending

theorem ackTimeout_resolved (h : Live len c) : Resolved len (c.ackTimeout limits) := by
  intro hnone hunfinished
  unfold SendCntxt.ackTimeout at hnone ⊢
  dsimp only at hnone ⊢
  split at hnone
  next => cases hnone
  next hretry =>
    rw [if_neg hretry]
    constructor
    case toTransfers => exact ⟨h.len_eq, h.total_eq⟩
    case hashed => exact h.hashed
    case single => exact h.single
    case kept => exact h.kept
    case wf_eq => exact h.wf_eq
    case lastAck_lt => exact h.lastAck_lt
    case wl_le => exact h.wl_le
    case wf_le => exact h.wf_le
    case ns_pos => exact h.wf_eq ▸ Nat.le_add_left 1 _
    case ns_le => exact h.wf_le

/-! ## Sending the window -/

open SendCntxt

theorem sendSegments_fst (size wl : Nat) (fuel : Nat) :
    ∀ (sends : Nat) (c : SendCntxt), c.ns + fuel = wl + 1 →
      ∃ ns, (sendSegments size wl fuel sends c).1 = { c with ns := ns } ∧ c.ns ≤ ns ∧
        ((sendSegments size wl fuel sends c).2.2 = true → ns = wl + 1) := by
  induction fuel with
  | zero => exact fun sends c h => ⟨c.ns, rfl, Nat.le_refl _, fun _ => h⟩
  | succ fuel ih =>
    intro sends c h
    have hle : c.ns ≤ wl := by omega
    cases sends with
    | zero =>
      refine ⟨c.ns + 1, ?_, Nat.le_succ _, ?_⟩
      · simp [sendSegments, hle]
      · intro hdone
        simp [sendSegments, hle] at hdone
    | succ sends =>
      have hnext : c.ns + 1 + fuel = wl + 1 := by omega
      obtain ⟨ns, hfst, hfrom, hend⟩ := ih sends { c with ns := c.ns + 1 } hnext
      refine ⟨ns, ?_, Nat.le_of_succ_le hfrom, ?_⟩
      · simp [sendSegments, hle, hfst]
      · simpa [sendSegments, hle] using hend

theorem mem_sendSegments (size wl : Nat) (fuel : Nat) :
    ∀ (sends : Nat) (c : SendCntxt), ∀ s ∈ (sendSegments size wl fuel sends c).2.1,
      ∃ k, c.ns ≤ k ∧ k ≤ wl ∧ s = .data (SendCntxt.segment { c with ns := k } size) := by
  induction fuel with
  | zero =>
    intro sends c s hs
    cases hs
  | succ fuel ih =>
    intro sends c s hs
    rw [sendSegments] at hs
    split at hs
    next hle =>
      cases sends with
      | zero => cases hs
      | succ sends =>
        rcases List.mem_cons.mp hs with heq | htail
        · exact ⟨c.ns, Nat.le_refl _, hle, heq⟩
        · obtain ⟨k, hfrom, hto, heq⟩ := ih sends { c with ns := c.ns + 1 } s htail
          exact ⟨k, Nat.le_of_succ_le hfrom, hto, heq⟩
    next => cases hs

theorem head_sendSegments {size wl fuel sends : Nat} (hle : c.ns ≤ wl) (hfuel : fuel ≠ 0)
    (hsends : sends ≠ 0) : .data (c.segment size) ∈ (sendSegments size wl fuel sends c).2.1 := by
  cases fuel with
  | zero => exact absurd rfl hfuel
  | succ fuel =>
    cases sends with
    | zero => exact absurd rfl hsends
    | succ sends => simp [sendSegments, hle]

variable {size sends : Nat} {r : SendCntxt × Option RmppStatus}

theorem finish_eq (hlast : c.lastAck ≠ c.segTotal) :
    finish size sends (c, none) =
      ({ (sendSegments size c.wl (c.wl + 1 - c.ns) sends c).1 with
          released := !(sendSegments size c.wl (c.wl + 1 - c.ns) sends c).2.2 },
        (sendSegments size c.wl (c.wl + 1 - c.ns) sends c).2.1) :=
  if_neg hlast

theorem finish_live (h : Resolved len r) (hkept : (finish size sends r).1.released = false) :
    Live len (finish size sends r).1 := by
  obtain ⟨c, status⟩ := r
  cases status with
  | some status => cases hkept
  | none =>
    by_cases hlast : c.lastAck = c.segTotal
    · simp [finish, hlast] at hkept
    · have hpending : Pending len c := h rfl hlast
      have hfuel : c.ns + (c.wl + 1 - c.ns) = c.wl + 1 := Nat.add_sub_cancel' hpending.ns_le
      obtain ⟨ns, hfst, hfrom, hend⟩ :=
        sendSegments_fst size c.wl (c.wl + 1 - c.ns) sends c hfuel
      rw [finish_eq hlast] at hkept ⊢
      have hdone : (sendSegments size c.wl (c.wl + 1 - c.ns) sends c).2.2 = true := by
        simpa using hkept
      have hns : ns = c.wl + 1 := hend hdone
      rw [hfst, hdone, hns]
      constructor
      case ns_eq => rfl
      constructor
      case toTransfers => exact ⟨hpending.len_eq, hpending.total_eq⟩
      case hashed => exact hpending.hashed
      case single => exact hpending.single
      case kept => rfl
      case wf_eq => exact hpending.wf_eq
      case lastAck_lt => exact hpending.lastAck_lt
      case wl_le => exact hpending.wl_le
      case wf_le => exact hpending.wf_le
      case ns_pos => exact Nat.le_add_left 1 _
      case ns_le => exact Nat.le_refl _

theorem finish_fst (size sends : Nat) (h : Resolved len r) :
    ∃ ns released, (finish size sends r).1 = { r.1 with ns := ns, released := released } := by
  obtain ⟨c, status⟩ := r
  cases status with
  | some status => exact ⟨c.ns, true, rfl⟩
  | none =>
    by_cases hlast : c.lastAck = c.segTotal
    · exact ⟨c.ns, true, by simp [finish, hlast]⟩
    · have hfuel := Nat.add_sub_cancel' (h rfl hlast).ns_le
      obtain ⟨ns, hfst, -, -⟩ := sendSegments_fst size c.wl _ sends c hfuel
      rw [finish_eq hlast, hfst]
      exact ⟨ns, _, rfl⟩

def SendsNext (r : SendCntxt × Option RmppStatus) : Prop :=
  r.2 = none ∧ r.1.lastAck ≠ r.1.segTotal ∧ r.1.ns ≤ r.1.wl

theorem mem_finish {s : Segment} (hs : .data s ∈ (finish size sends r).2) :
    SendsNext r ∧ sends ≠ 0 ∧
      ∃ k, r.1.ns ≤ k ∧ k ≤ r.1.wl ∧ s = SendCntxt.segment { r.1 with ns := k } size := by
  obtain ⟨c, status⟩ := r
  cases status with
  | some status =>
    simp only [finish] at hs
    split at hs <;> simp at hs
  | none =>
    by_cases hlast : c.lastAck = c.segTotal
    · simp [finish, hlast] at hs
    · rw [finish_eq hlast] at hs
      obtain ⟨k, hfrom, hto, heq⟩ := mem_sendSegments _ _ _ _ _ _ hs
      refine ⟨⟨rfl, hlast, hfrom.trans hto⟩, ?_, k, hfrom, hto, Sent.data.inj heq⟩
      rintro rfl
      have hle : c.ns ≤ c.wl := hfrom.trans hto
      cases hfuel : c.wl + 1 - c.ns with
      | zero => omega
      | succ fuel => simp [hfuel, sendSegments, hle] at hs

theorem head_finish (h : SendsNext r) (hsends : sends ≠ 0) :
    .data (r.1.segment size) ∈ (finish size sends r).2 := by
  obtain ⟨c, status⟩ := r
  obtain ⟨hnone, hlast, hle⟩ := h
  cases hnone
  rw [finish_eq hlast]
  apply head_sendSegments hle _ hsends
  dsimp only at hle ⊢
  omega

end OpaFm.Rmpp
