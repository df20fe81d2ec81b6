import OpaFm.Sa.InformInfo
import OpaFm.Cs.Proofs.HashtableRefine

/-!
# Requests for event subscriptions

A request that is refused leaves the subscriptions and both locks as they were, except for a range
beyond the unicast LIDs, which keeps the lock of the topology.  A reply in the format of the
InfiniBand class loses its LIDs and parts of two registers.
-/

namespace OpaFm.Sa

open OpaFm.Cs OpaFm.Lib

/-! ## Locks -/

def Released (locks : List LockEvent) : Prop :=
  ∀ lock, locks.filter (fun e => e.lock = lock) = [] ∨
    locks.filter (fun e => e.lock = lock) = [.take lock, .giveBack lock]

theorem released_topology : Released [.take .topology, .giveBack .topology] := by
  intro lock
  cases lock with
  | topology => exact .inr rfl
  | subscribers => exact .inl rfl

theorem released_both :
    Released ([.take .topology, .giveBack .topology] ++
      [.take .subscribers, .giveBack .subscribers]) := by
  intro lock
  cases lock with
  | topology => exact .inr rfl
  | subscribers => exact .inr rfl

theorem not_released_topology : ¬Released [.take .topology] := by
  intro h
  obtain h | h := h .topology
  · exact absurd h (List.cons_ne_nil _ _)
  · exact absurd (List.cons.inj h).2 (List.cons_ne_nil _ _).symm

/-- The locks are given back, and a call that fails leaves the table as it was. -/
structure LeavesNoTrace (s : Subscribers) (o : InformOutcome) : Prop where
  released : Released o.locks
  unchanged : o.result ≠ .ok → o.subs.subsMap.entries = s.subsMap.entries

variable {env : InformEnv} {s : Subscribers} {addr : AddrInfo} {status : Nat}
  {iip : StlInformInfo} {ibMode : Bool}

theorem storeSubscription_unchanged {k : SubscriberKey} {lid : BitVec 32}
    (hbad : (storeSubscription env s k lid iip).1 ≠ .ok) :
    (storeSubscription env s k lid iip).2.subsMap.entries = s.subsMap.entries := by
  unfold storeSubscription at hbad ⊢
  cases hfound : s.subsMap.csHashtableSearch subscriberFns k with
  | some r =>
    rw [hfound] at hbad
    exact absurd rfl hbad
  | none =>
    simp only [hfound] at hbad ⊢
    by_cases hmem : env.recordMem = true
    · rw [hmem] at hbad ⊢
      apply CsHashtable.insert_failed
      by_contra hinserted
      apply hbad
      simp only [Bool.not_eq_false] at hinserted
      simp [hinserted]
    · simp [hmem]

theorem subscribe_leavesNoTrace_iff_checks :
    LeavesNoTrace s (saInformInfoSubscribe env s addr status iip ibMode) ↔
      ∀ r, subscribeChecks env addr (subscribedInfo addr iip) = .error r → r.unlocks = true := by
  unfold saInformInfoSubscribe
  dsimp only
  cases hchecks : subscribeChecks env addr (subscribedInfo addr iip) with
  | error r =>
    have hsame {locks : List LockEvent} {n : Nat} :
        LeavesNoTrace s ⟨.bad, n, subscribedInfo addr iip, s, locks⟩ ↔ Released locks :=
      ⟨fun h => h.released, fun h => ⟨h, fun _ => rfl⟩⟩
    simp only [Except.error.injEq, forall_eq', hsame]
    cases r.unlocks with
    | true => exact iff_of_true released_topology rfl
    | false => exact iff_of_false not_released_topology Bool.false_ne_true
  | ok found =>
    apply iff_of_true _ (fun r hr => nomatch hr)
    simp only
    split
    next => exact ⟨released_topology, fun _ => rfl⟩
    next =>
      split
      next => exact ⟨released_topology, fun _ => rfl⟩
      next => exact ⟨released_both, storeSubscription_unchanged⟩

def RangeBeyond (iip : StlInformInfo) : Prop :=
  iip.gid = 0 ∧ iip.lidRangeBegin ≠ stlLidPermissive ∧
    (iip.lidRangeBegin > unicastLidMax ∨ iip.lidRangeEnd > unicastLidMax)

theorem subscribeRange_unlocks_iff :
    (∀ r, subscribeRange env iip = .error r → r.unlocks = true) ↔ ¬RangeBeyond iip := by
  unfold subscribeRange RangeBeyond
  by_cases hgid : iip.gid = 0
  · rw [if_neg (not_not.mpr hgid)]
    by_cases hall : iip.lidRangeBegin = stlLidPermissive
    · rw [if_pos hall]
      exact iff_of_true (fun r hr => nomatch hr) fun h => h.2.1 hall
    · rw [if_neg hall]
      by_cases hbeyond : iip.lidRangeBegin > unicastLidMax ∨ iip.lidRangeEnd > unicastLidMax
      · rw [if_pos hbeyond]
        exact iff_of_false (fun h => Bool.false_ne_true (h _ rfl))
          (not_not.mpr ⟨hgid, hall, hbeyond⟩)
      · rw [if_neg hbeyond]
        refine iff_of_true (fun r hr => ?_) fun h => hbeyond h.2.2
        split at hr <;> nomatch hr
  · rw [if_pos hgid]
    refine iff_of_true (fun r hr => ?_) fun h => hgid h.1
    simp only at hr
    split at hr
    next =>
      cases hr
      rfl
    next =>
      split at hr
      next =>
        cases hr
        rfl
      next => nomatch hr

theorem subscribeChecks_unlocks_iff :
    (∀ r, subscribeChecks env addr iip = .error r → r.unlocks = true) ↔
      ¬(env.findActivePortLid (addr.slid.setWidth 32) ≠ none ∧ RangeBeyond iip) := by
  unfold subscribeChecks
  cases hport : env.findActivePortLid (addr.slid.setWidth 32) with
  | none =>
    refine iff_of_true (fun r hr => ?_) fun h => h.1 rfl
    cases hr
    rfl
  | some subsPort =>
    have hrange : (∀ r, subscribeRange env iip = .error r → r.unlocks = true) ↔ _ :=
      subscribeRange_unlocks_iff
    simp only [ne_eq, reduceCtorEq, not_false_eq_true, true_and]
    rw [← hrange]
    cases subscribeRange env iip with
    | error r => simp only [Except.error.injEq]
    | ok range =>
      refine iff_of_true (fun r hr => ?_) fun r hr => nomatch hr
      simp only at hr
      split at hr
      next => nomatch hr
      next =>
        cases hr
        rfl

theorem unsubscribe_leavesNoTrace :
    LeavesNoTrace s (saInformInfoUnsubscribe env s addr status iip) := by
  unfold saInformInfoUnsubscribe
  cases env.findActivePortLid (addr.slid.setWidth 32) with
  | none => exact ⟨released_topology, fun _ => rfl⟩
  | some subsPort =>
    simp only
    split
    next => exact ⟨released_topology, fun _ => rfl⟩
    next => exact ⟨released_both, fun hbad => absurd rfl hbad⟩

/-- A request to subscribe leaves a trace just if its source is found and its range ends beyond the
unicast LIDs; one to unsubscribe never does. -/
theorem inform_leavesNoTrace_iff (env : InformEnv) (s : Subscribers) (addr : AddrInfo)
    (status : Nat) (iip : StlInformInfo) (ibMode : Bool) :
    (LeavesNoTrace s (saInformInfoSubscribe env s addr status iip ibMode) ↔
      ¬(env.findActivePortLid (addr.slid.setWidth 32) ≠ none ∧ RangeBeyond iip)) ∧
    LeavesNoTrace s (saInformInfoUnsubscribe env s addr status iip) := by
  refine ⟨?_, unsubscribe_leavesNoTrace⟩
  calc
    LeavesNoTrace s (saInformInfoSubscribe env s addr status iip ibMode)
        ↔ ∀ r, subscribeChecks env addr (subscribedInfo addr iip) = .error r →
            r.unlocks = true := subscribe_leavesNoTrace_iff_checks
    _ ↔ ¬(env.findActivePortLid (addr.slid.setWidth 32) ≠ none ∧
          RangeBeyond (subscribedInfo addr iip)) := subscribeChecks_unlocks_iff
    _ ↔ ¬(env.findActivePortLid (addr.slid.setWidth 32) ≠ none ∧ RangeBeyond iip) := Iff.rfl

def openEnv : InformEnv where
  findActivePortLid lid := some ⟨lid, 0xfe80000000000000#64 ++ lid.setWidth 64⟩
  findActivePortGuid _ := none
  caEndPorts := []
  authenticatePath _ _ := true
  authenticateAccess _ _ := true
  activateInProgress := false
  smKey := 0
  subsLock := true
  keyMem := true
  recordMem := true
  tableMem := true
  entryMem := true

def hostAddr : AddrInfo where
  slid := 5
  srcqp := 1
  pkey := 0x7FFF
  qkey := 0x80010000

/-- All generic notices of a channel adapter on the LIDs from `first` to `last`. -/
def rangeInfo (first last : BitVec 32) : StlInformInfo where
  gid := 0
  lidRangeBegin := first
  lidRangeEnd := last
  isGeneric := 1
  subscribe := 1
  type := 0xFFFF
  reserved1 := 0
  trapNumber := 0xFFFF
  u1 := 0x112
  u2 := 1

/-- A subscription to the LIDs up to `0xC000` keeps the lock of the topology. -/
theorem inform_keepsTopologyLock :
    ∃ s, saSubscriberInit true = some s ∧
      ¬LeavesNoTrace s (saInformInfoSubscribe openEnv s hostAddr 0 (rangeInfo 1 0xC000) false) :=
  ⟨_, rfl, fun h => not_released_topology h.released⟩

/-! ## Replies in the InfiniBand format -/

theorem ntoh16_ntoh16 (x : BitVec 16) : ntoh16 (ntoh16 x) = x :=
  swapHalves_swapHalves (w := 8) (f := id) (fun _ => rfl) x

theorem ntoh32_ntoh32 (x : BitVec 32) : ntoh32 (ntoh32 x) = x :=
  swapHalves_swapHalves (w := 16) ntoh16_ntoh16 x

theorem ntoh64_ntoh64 (x : BitVec 64) : ntoh64 (ntoh64 x) = x :=
  swapHalves_swapHalves (w := 32) ntoh32_ntoh32 x

theorem bswapIbGid_bswapIbGid (x : BitVec 128) : bswapIbGid (bswapIbGid x) = x :=
  swapHalves_swapHalves (w := 64) ntoh64_ntoh64 x

theorem ntoh16_and (x y : BitVec 16) : ntoh16 (x &&& y) = ntoh16 x &&& ntoh16 y :=
  swapHalves_and (w := 8) (f := id) (fun _ _ => rfl) x y

theorem ntoh32_and (x y : BitVec 32) : ntoh32 (x &&& y) = ntoh32 x &&& ntoh32 y :=
  swapHalves_and (w := 16) ntoh16_and x y

theorem ntoh16_eq_iff {x y : BitVec 16} : ntoh16 x = y ↔ x = ntoh16 y := by
  constructor
  · intro h
    rw [← h, ntoh16_ntoh16]
  · intro h
    rw [h, ntoh16_ntoh16]

theorem ntoh32_lid (x : BitVec 16) : (ntoh32 (x.setWidth 32)).setWidth 16 = 0 := by
  have hhigh : (x.setWidth 32).extractLsb' 16 16 = 0 := by
    ext i hi
    simp
  calc
    (ntoh32 (x.setWidth 32)).setWidth 16 = (ntoh32 (x.setWidth 32)).extractLsb' 0 16 := by
      ext i hi
      simp
    _ = ntoh16 ((x.setWidth 32).extractLsb' 16 16) := low_swapHalves (w := 16) _
    _ = 0 := by
      rw [hhigh]
      rfl

/-! The registers. -/

theorem qpNumberOf_clearQpReserved (r : BitVec 32) :
    qpNumberOf (clearQpReserved r) = qpNumberOf r := by
  unfold qpNumberOf clearQpReserved
  rw [BitVec.extractLsb'_and]
  exact BitVec.and_allOnes

theorem respTimeValueOf_clearQpReserved (r : BitVec 32) :
    respTimeValueOf (clearQpReserved r) = respTimeValueOf r := by
  unfold respTimeValueOf clearQpReserved
  rw [BitVec.extractLsb'_and]
  exact BitVec.and_allOnes

theorem producerTypeOf_clearProducerReserved (r : BitVec 32) :
    producerTypeOf (clearProducerReserved r) = producerTypeOf r := by
  unfold producerTypeOf clearProducerReserved
  rw [BitVec.extractLsb'_and]
  exact BitVec.and_allOnes

theorem qpNumberOf_setQpNumber (r srcqp : BitVec 32) :
    qpNumberOf (setQpNumber r srcqp) = srcqp.setWidth 24 :=
  BitVec.extractLsb'_append_eq_left

theorem respTimeValueOf_setQpNumber (r srcqp : BitVec 32) :
    respTimeValueOf (setQpNumber r srcqp) = respTimeValueOf r := by
  unfold respTimeValueOf setQpNumber
  rw [BitVec.extractLsb'_append_eq_of_add_le (by decide : 0 + 5 ≤ 8)]
  ext i hi
  simp

theorem qpNumberOf_swapped (r : BitVec 32) :
    qpNumberOf (ntoh32 (clearQpReserved (ntoh32 r))) = qpNumberOf r &&& 0x1FFFFF := by
  unfold clearQpReserved
  rw [ntoh32_and, ntoh32_ntoh32]
  exact BitVec.extractLsb'_and

theorem respTimeValueOf_swapped (r : BitVec 32) :
    respTimeValueOf (ntoh32 (clearQpReserved (ntoh32 r))) = respTimeValueOf r := by
  unfold clearQpReserved
  rw [ntoh32_and, ntoh32_ntoh32]
  unfold respTimeValueOf
  rw [BitVec.extractLsb'_and]
  exact BitVec.and_allOnes

theorem producerTypeOf_swapped (r : BitVec 32) :
    producerTypeOf (ntoh32 (clearProducerReserved (ntoh32 r))) =
      producerTypeOf r &&& 0xFFFF00 := by
  unfold clearProducerReserved
  rw [ntoh32_and, ntoh32_ntoh32]
  exact BitVec.extractLsb'_and

theorem and_qpMask_iff (x : BitVec 24) : x &&& 0x1FFFFF = x ↔ x.toNat < 2 ^ 21 := by
  have hmask : (x &&& 0x1FFFFF).toNat = x.toNat % 2 ^ 21 := by
    rw [BitVec.toNat_and]
    exact Nat.and_two_pow_sub_one_eq_mod x.toNat 21
  rw [← BitVec.toNat_inj, hmask]
  omega

theorem and_producerMask_iff (x : BitVec 24) : x &&& 0xFFFF00 = x ↔ x.setWidth 8 = 0 := by
  have hmask : ∀ i : Fin 24, (0xFFFF00 : BitVec 24).getLsbD i = decide (8 ≤ i.val) := by decide
  constructor
  · intro h
    ext i hi
    have hbit := congrArg (BitVec.getLsbD · i) h
    simp only [BitVec.getLsbD_and, hmask ⟨i, by omega⟩] at hbit
    simp only [BitVec.getElem_setWidth, BitVec.ofNat_eq_ofNat, BitVec.getElem_zero]
    rw [← hbit]
    simp
    omega
  · intro h
    ext i hi
    have hbit := congrArg (BitVec.getLsbD · i) h
    simp only [BitVec.getLsbD_setWidth, BitVec.ofNat_eq_ofNat, BitVec.getLsbD_zero] at hbit
    rw [BitVec.getElem_and, ← BitVec.getLsbD_eq_getElem, ← BitVec.getLsbD_eq_getElem,
      hmask ⟨i, hi⟩]
    by_cases hlow : i < 8
    · simp only [hlow, decide_true, Bool.true_and] at hbit
      rw [hbit, Bool.false_and]
    · rw [decide_eq_true (Nat.le_of_not_lt hlow), Bool.and_true]

/-! The reply. -/

def Subscribes (env : InformEnv) (maip : InformMai) : Prop :=
  (requestInfo maip).subscribe = 1 ∧ notTrusted env maip (requestInfo maip) = false

instance (env : InformEnv) (maip : InformMai) : Decidable (Subscribes env maip) :=
  inferInstanceAs (Decidable (_ ∧ _))

def replyQpn (env : InformEnv) (maip : InformMai) : BitVec 24 :=
  if Subscribes env maip then maip.addrInfo.srcqp.setWidth 24
  else qpNumberOf (ntoh32 maip.ibData.u2)

structure Echoes (env : InformEnv) (s : Subscribers) (maip : InformMai) (d : IbInformInfo) :
    Prop where
  gid : d.gid = maip.ibData.gid
  isGeneric : d.isGeneric = maip.ibData.isGeneric
  lidRangeBegin : d.lidRangeBegin = maip.ibData.lidRangeBegin
  lidRangeEnd : d.lidRangeEnd = maip.ibData.lidRangeEnd
  type : d.type = maip.ibData.type
  trapNumber : d.trapNumber = maip.ibData.trapNumber
  producerType : producerTypeOf (ntoh32 d.u) = producerTypeOf (ntoh32 maip.ibData.u)
  respTimeValue : respTimeValueOf (ntoh32 d.u2) = respTimeValueOf (ntoh32 maip.ibData.u2)
  qpNumber : qpNumberOf (ntoh32 d.u2) = replyQpn env maip
  subscribe : d.subscribe =
    if (handleInform env s maip (requestInfo maip)).result = .ok then maip.ibData.subscribe else 0

variable {maip : InformMai}

theorem handleInform_iip :
    (handleInform env s maip (requestInfo maip)).iip =
      if Subscribes env maip then subscribedInfo maip.addrInfo (requestInfo maip)
      else requestInfo maip := by
  have hsubscribe {status : Nat} {iip : StlInformInfo} {ibMode : Bool} :
      (saInformInfoSubscribe env s maip.addrInfo status iip ibMode).iip =
        subscribedInfo maip.addrInfo iip := by
    unfold saInformInfoSubscribe
    dsimp only
    split
    next => rfl
    next => split <;> [rfl; (split <;> rfl)]
  have hunsubscribe {status : Nat} {iip : StlInformInfo} :
      (saInformInfoUnsubscribe env s maip.addrInfo status iip).iip = iip := by
    unfold saInformInfoUnsubscribe
    dsimp only
    split
    next => rfl
    next => split <;> rfl
  unfold handleInform
  by_cases hone : (requestInfo maip).subscribe = 1
  · rw [if_pos hone]
    by_cases htrust : notTrusted env maip (requestInfo maip) = true
    · have hnot : ¬Subscribes env maip := fun h => Bool.false_ne_true (h.2.symm.trans htrust)
      rw [if_pos htrust, if_neg hnot]
    · have hsub : Subscribes env maip := ⟨hone, Bool.eq_false_iff.mpr htrust⟩
      rw [if_neg htrust, if_pos hsub]
      exact hsubscribe
  · have hnot : ¬Subscribes env maip := fun h => hone h.1
    rw [if_neg hone, if_neg hnot]
    split
    next => exact hunsubscribe
    next => rfl

theorem replyInfo_eq (o : InformOutcome) :
    o.replyInfo = { o.iip with
      subscribe := if o.result = .ok then o.iip.subscribe else 0 } := by
  unfold InformOutcome.replyInfo
  split <;> rfl

theorem lidRangeBegin_toIb (i : IbInformInfo) :
    i.toStl.toIb.lidRangeBegin = if i.lidRangeBegin = permissiveLid then permissiveLid else 0 := by
  have hpermissive : (ntoh16 i.lidRangeBegin).setWidth 32 = permissiveLid.setWidth 32 ↔
      i.lidRangeBegin = permissiveLid := by
    have hinj : (ntoh16 i.lidRangeBegin).setWidth 32 = permissiveLid.setWidth 32 ↔
        ntoh16 i.lidRangeBegin = permissiveLid := by
      rw [← BitVec.toNat_inj, ← BitVec.toNat_inj, BitVec.toNat_setWidth_of_le (by decide),
        BitVec.toNat_setWidth_of_le (by decide)]
    rw [hinj, ntoh16_eq_iff]
    rfl
  have hsmall : (ntoh16 i.lidRangeBegin).setWidth 32 ≠ stlLidPermissive := by
    intro h
    have hvalue := congrArg BitVec.toNat h
    rw [BitVec.toNat_setWidth_of_le (by decide)] at hvalue
    have hlt := (ntoh16 i.lidRangeBegin).isLt
    simp [stlLidPermissive] at hvalue
    omega
  unfold StlInformInfo.toIb IbInformInfo.toStl
  dsimp only
  by_cases hall : i.lidRangeBegin = permissiveLid
  · rw [if_pos (hpermissive.mpr hall), if_pos rfl, if_pos hall]
  · rw [if_neg fun h => hall (hpermissive.mp h), if_neg hsmall, if_neg hall]
    exact ntoh32_lid _

theorem lidRangeEnd_toIb (i : IbInformInfo) : i.toStl.toIb.lidRangeEnd = 0 :=
  ntoh32_lid _

structure Registers (env : InformEnv) (maip : InformMai) (iip : StlInformInfo) : Prop where
  qpNumber : qpNumberOf iip.u1 = replyQpn env maip
  respTimeValue : respTimeValueOf iip.u1 = respTimeValueOf (ntoh32 maip.ibData.u2)
  producerType : producerTypeOf iip.u2 = producerTypeOf (ntoh32 maip.ibData.u)

theorem handleInform_registers (hinfo : requestInfo maip = maip.ibData.toStl) :
    Registers env maip (handleInform env s maip (requestInfo maip)).iip := by
  have hqpn : qpNumberOf maip.ibData.toStl.u1 = qpNumberOf (ntoh32 maip.ibData.u2) :=
    qpNumberOf_clearQpReserved _
  have hresp : respTimeValueOf maip.ibData.toStl.u1 = respTimeValueOf (ntoh32 maip.ibData.u2) :=
    respTimeValueOf_clearQpReserved _
  have hproducer : producerTypeOf maip.ibData.toStl.u2 = producerTypeOf (ntoh32 maip.ibData.u) :=
    producerTypeOf_clearProducerReserved _
  rw [handleInform_iip, hinfo]
  by_cases hsub : Subscribes env maip
  · rw [if_pos hsub]
    constructor
    · show qpNumberOf (clearQpReserved (setQpNumber _ _)) = _
      rw [qpNumberOf_clearQpReserved, qpNumberOf_setQpNumber, replyQpn, if_pos hsub]
    · show respTimeValueOf (clearQpReserved (setQpNumber _ _)) = _
      rw [respTimeValueOf_clearQpReserved, respTimeValueOf_setQpNumber, hresp]
    · show producerTypeOf (clearProducerReserved _) = _
      rw [producerTypeOf_clearProducerReserved, hproducer]
  · rw [if_neg hsub]
    constructor
    · rw [hqpn, replyQpn, if_neg hsub]
    · exact hresp
    · exact hproducer

theorem replyInfo_toIb (env : InformEnv) (s : Subscribers) (maip : InformMai) :
    (handleInform env s maip (requestInfo maip)).replyInfo.toIb =
      { (requestInfo maip).toIb with
        subscribe :=
          if (handleInform env s maip (requestInfo maip)).result = .ok then
            (requestInfo maip).subscribe
          else 0
        u2 := clearQpReserved (ntoh32 (handleInform env s maip (requestInfo maip)).iip.u1)
        u :=
          clearProducerReserved (ntoh32 (handleInform env s maip (requestInfo maip)).iip.u2) } := by
  rw [replyInfo_eq, handleInform_iip]
  split <;> rfl

/-- The requests that come back as they were sent. -/
structure EchoedRequest (env : InformEnv) (maip : InformMai) : Prop where
  lidRangeBegin : maip.ibData.lidRangeBegin = 0 ∨ maip.ibData.lidRangeBegin = permissiveLid
  lidRangeEnd : maip.ibData.lidRangeEnd = 0
  producerType : (producerTypeOf (ntoh32 maip.ibData.u)).setWidth 8 = 0
  qpNumber : (replyQpn env maip).toNat < 2 ^ 21

/-- The reply to a request in the format of the InfiniBand class echoes it just if its range is
empty or starts at the permissive LID, its producer has no low byte, and the queue pair has no more
than 21 bits. -/
theorem saInformInfo_echoes_iff (env : InformEnv) (s : Subscribers) (maip : InformMai)
    (hmethod : maip.method = saCmSet) (hclass : maip.cversion = ibSubnAdmClassVersion) :
    ∃ d, (saInformInfo env s maip).reply = .ib d ∧
      (Echoes env s maip d ↔ EchoedRequest env maip) := by
  have hib : maip.cversion ≠ stlSaClassVersion := by
    rw [hclass]
    decide
  have hinfo : requestInfo maip = maip.ibData.toStl := if_neg hib
  have hregisters : Registers env maip (handleInform env s maip (requestInfo maip)).iip :=
    handleInform_registers hinfo
  have hreply := replyInfo_toIb env s maip
  refine ⟨(handleInform env s maip (requestInfo maip)).replyInfo.toIb, ?_, ?_⟩
  · unfold saInformInfo
    rw [if_neg (not_not.mpr hmethod), if_neg fun h => h.2 hclass]
    exact if_neg hib
  have hproducer := calc
    producerTypeOf (ntoh32 (handleInform env s maip (requestInfo maip)).replyInfo.toIb.u)
        = producerTypeOf (handleInform env s maip (requestInfo maip)).iip.u2 &&& 0xFFFF00 := by
      rw [hreply]
      exact producerTypeOf_swapped _
    _ = producerTypeOf (ntoh32 maip.ibData.u) &&& 0xFFFF00 := by rw [hregisters.producerType]
  have hqpn := calc
    qpNumberOf (ntoh32 (handleInform env s maip (requestInfo maip)).replyInfo.toIb.u2)
        = qpNumberOf (handleInform env s maip (requestInfo maip)).iip.u1 &&& 0x1FFFFF := by
      rw [hreply]
      exact qpNumberOf_swapped _
    _ = replyQpn env maip &&& 0x1FFFFF := by rw [hregisters.qpNumber]
  have hresp := calc
    respTimeValueOf (ntoh32 (handleInform env s maip (requestInfo maip)).replyInfo.toIb.u2)
        = respTimeValueOf (handleInform env s maip (requestInfo maip)).iip.u1 := by
      rw [hreply]
      exact respTimeValueOf_swapped _
    _ = respTimeValueOf (ntoh32 maip.ibData.u2) := hregisters.respTimeValue
  have hbegin : (handleInform env s maip (requestInfo maip)).replyInfo.toIb.lidRangeBegin =
      if maip.ibData.lidRangeBegin = permissiveLid then permissiveLid else 0 := by
    rw [hreply, hinfo]
    exact lidRangeBegin_toIb _
  have hend : (handleInform env s maip (requestInfo maip)).replyInfo.toIb.lidRangeEnd = 0 := by
    rw [hreply, hinfo]
    exact lidRangeEnd_toIb _
  constructor
  · intro h
    constructor
    · have hkept := h.lidRangeBegin
      rw [hbegin] at hkept
      split at hkept
      next hall => exact .inr hall
      next => exact .inl hkept.symm
    · exact h.lidRangeEnd.symm.trans hend
    · exact (and_producerMask_iff _).mp (hproducer.symm.trans h.producerType)
    · exact (and_qpMask_iff _).mp (hqpn.symm.trans h.qpNumber)
  · intro h
    constructor
    · rw [hreply, hinfo]
      exact bswapIbGid_bswapIbGid _
    · rw [hreply, hinfo]
      rfl
    · rw [hbegin]
      split
      next hall => exact hall.symm
      next hall => exact (h.lidRangeBegin.resolve_right hall).symm
    · exact hend.trans h.lidRangeEnd.symm
    · rw [hreply, hinfo]
      exact ntoh16_ntoh16 _
    · rw [hreply, hinfo]
      exact ntoh16_ntoh16 _
    · exact hproducer.trans ((and_producerMask_iff _).mpr h.producerType)
    · exact hresp
    · exact hqpn.trans ((and_qpMask_iff _).mpr h.qpNumber)
    · rw [hreply, hinfo]
      rfl

/-- A host that subscribes to the traps of LID 7 in the format of the InfiniBand class. -/
def ibHostMai : InformMai where
  method := saCmSet
  cversion := ibSubnAdmClassVersion
  addrInfo := hostAddr
  smKey := 0
  stlData := rangeInfo 0 0
  ibData := {
    gid := 0
    lidRangeBegin := ntoh16 7
    lidRangeEnd := ntoh16 7
    reserved := 0
    isGeneric := 1
    subscribe := 1
    type := 0xFFFF
    trapNumber := 0xFFFF
    u2 := ntoh32 0x112
    u := ntoh32 1 }

theorem saInformInfo_echoes_iff_host :
    ∃ s d, saSubscriberInit true = some s ∧ (saInformInfo openEnv s ibHostMai).reply = .ib d ∧
      (Echoes openEnv s ibHostMai d ↔ EchoedRequest openEnv ibHostMai) := by
  obtain ⟨s, hs⟩ : ∃ s, saSubscriberInit true = some s := ⟨_, rfl⟩
  obtain ⟨d, hd⟩ := saInformInfo_echoes_iff openEnv s ibHostMai rfl rfl
  exact ⟨s, d, hs, hd⟩

/-- The reply has LID 0 in place of LID 7. -/
theorem saInformInfo_losesLid :
    ∃ s d, saSubscriberInit true = some s ∧ (saInformInfo openEnv s ibHostMai).reply = .ib d ∧
      ¬Echoes openEnv s ibHostMai d := by
  obtain ⟨s, hs⟩ : ∃ s, saSubscriberInit true = some s := ⟨_, rfl⟩
  refine ⟨s, _, hs, rfl, fun h => ?_⟩
  have hbegin := h.lidRangeBegin
  rw [replyInfo_toIb] at hbegin
  have hlost : ibHostMai.ibData.toStl.toIb.lidRangeBegin = 0 := by
    rw [lidRangeBegin_toIb]
    decide
  exact absurd (hlost.symm.trans hbegin) (by decide)

end OpaFm.Sa
