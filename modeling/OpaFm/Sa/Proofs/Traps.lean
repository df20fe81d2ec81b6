import OpaFm.Sa.InformInfo
import OpaFm.Sa.Proofs.Subscribers

/-!
# The fan-out of notices and the trap rate of a port

The loops that forward a notice do not look at the LID range of a subscription, and the one that
counts the notices not at the producer either.  The trap rate of a port is taken over the time since
its window was opened, which is no time at all for a trap that comes at once.
-/

namespace OpaFm.Sa

open OpaFm.Cs OpaFm.Lib

/-! ## Forwarding -/

def ProducerMatches (n : Notice) (info : StlInformInfo) : Prop :=
  info.producerType = nodeTypeAll ∨ info.producerType = 0 ∨ info.producerType = n.producerType ∨
    ((n.trapNumber ≥ madSmtPortUp ∧ n.trapNumber ≤ madSmtMcastGrpDeleted) ∧
      info.producerType = noticeProducertypeCa)

instance (n : Notice) (info : StlInformInfo) : Decidable (ProducerMatches n info) :=
  inferInstanceAs (Decidable (_ ∨ _))

def InRange (n : Notice) (k : SubscriberKey) : Prop :=
  k.startLid.setWidth 32 ≤ n.issuerLid ∧ n.issuerLid ≤ k.endLid.setWidth 32

instance (n : Notice) (k : SubscriberKey) : Decidable (InRange n k) :=
  inferInstanceAs (Decidable (_ ∧ _))

def Wants (n : Notice) (x : SubscriberKey × InformInfoRecord) : Prop :=
  countsNotice n x.2.informInfoData = true ∧ ProducerMatches n x.2.informInfoData ∧ InRange n x.1

instance (n : Notice) (x : SubscriberKey × InformInfoRecord) : Decidable (Wants n x) :=
  inferInstanceAs (Decidable (_ ∧ _))

variable {t : CsHashtable SubscriberKey InformInfoRecord} {n : Notice}

def wantedBy (t : CsHashtable SubscriberKey InformInfoRecord) (n : Notice) : List SubscriberKey :=
  (t.entries.filter fun x => Wants n x).map Prod.fst

theorem forwardsNotice_iff {info : StlInformInfo} :
    forwardsNotice n info = true ↔ countsNotice n info = true ∧ ProducerMatches n info := by
  unfold forwardsNotice countsNotice ProducerMatches
  by_cases hgeneric : info.isGeneric = n.isGeneric.setWidth 8
  case neg => simp [hgeneric]
  by_cases htype : info.type = trapAll ∨ info.type = n.type.setWidth 16
  case neg =>
    rw [if_neg (not_not.mpr hgeneric), if_pos (not_or.mp htype)]
    simp [htype]
  by_cases htrap : info.trapNumber = trapAll ∨ info.trapNumber = n.trapNumber
  case neg =>
    rw [if_neg (not_not.mpr hgeneric), if_neg fun h => htype.elim h.1 h.2,
      if_pos (not_or.mp htrap)]
    simp [htrap]
  rw [if_neg (not_not.mpr hgeneric), if_neg fun h => htype.elim h.1 h.2,
    if_neg fun h => htrap.elim h.1 h.2]
  simp only [hgeneric, htype, htrap, true_and, decide_true]
  by_cases hproducer : info.producerType ≠ nodeTypeAll ∧ info.producerType ≠ 0 ∧
      info.producerType ≠ n.producerType
  · rw [if_pos hproducer]
    simp only [hproducer, false_or]
    split
    next hnumber => simp [hnumber]
    next hnumber => simp [hnumber]
  · rw [if_neg hproducer]
    refine iff_of_true rfl ?_
    by_contra hno
    simp only [not_or] at hno
    exact hproducer ⟨hno.1, hno.2.1, hno.2.2.1⟩

/-- A notice goes to the subscribers that want it, once to each, and they are counted. -/
structure FanOutExact (t : CsHashtable SubscriberKey InformInfoRecord) (n : Notice) : Prop where
  trap : saTrapForwards t n = wantedBy t n
  notice : smSaForwardNotice t n = wantedBy t n
  count : smSaGetNoticeCount t n = (wantedBy t n).length
  once : (saTrapForwards t n).Nodup

/-- Every subscription to the kind of notice wants this one.  A table whose count has wrapped to
zero must have none that does. -/
def NoticeMeets (t : CsHashtable SubscriberKey InformInfoRecord) (n : Notice) : Prop :=
  if t.entrycount = 0 then ∀ x ∈ t.entries, ¬Wants n x
  else ∀ x ∈ t.entries, countsNotice n x.2.informInfoData = true → Wants n x

theorem filter_wants_eq {p : StlInformInfo → Bool}
    (hp : ∀ x ∈ t.entries, (p x.2.informInfoData = true ↔ Wants n x)) :
    (t.entries.filter fun x => p x.2.informInfoData) = t.entries.filter fun x => Wants n x := by
  apply List.filter_congr
  intro x hx
  rw [Bool.eq_iff_iff, decide_eq_true_eq]
  exact hp x hx

theorem wants_of_length
    (hlength : (t.entries.filter fun x => countsNotice n x.2.informInfoData).length =
      (t.entries.filter fun x => decide (Wants n x)).length) {x : SubscriberKey × InformInfoRecord}
    (hx : x ∈ t.entries) (hcounts : countsNotice n x.2.informInfoData = true) : Wants n x := by
  have hsub : (t.entries.filter fun x => decide (Wants n x)).Sublist
      (t.entries.filter fun x => countsNotice n x.2.informInfoData) := by
    apply List.monotone_filter_right
    intro y hy
    exact (of_decide_eq_true hy).1
  have heq := hsub.eq_of_length hlength.symm
  have hmem : x ∈ t.entries.filter fun x => decide (Wants n x) := by
    rw [heq]
    exact List.mem_filter.mpr ⟨hx, hcounts⟩
  exact of_decide_eq_true (List.mem_filter.mp hmem).2

theorem fanOut_once (h : t.IsMap subscriberFns SubscriberKey.ident) (n : Notice) :
    (saTrapForwards t n).Nodup := by
  have hkeys : (t.entries.map Prod.fst).Nodup := by
    apply List.Nodup.of_map SubscriberKey.ident
    rw [List.map_map]
    exact h.nodup
  unfold saTrapForwards overSubscribers
  split
  next => exact hkeys.sublist (List.filter_sublist.map _)
  next => exact List.nodup_nil

/-- The fan-out is exact just if every subscription to notices of this kind is for this producer
and this issuer. -/
theorem fanOutExact_iff (h : t.IsMap subscriberFns SubscriberKey.ident) (n : Notice) :
    FanOutExact t n ↔ NoticeMeets t n := by
  have hforward : smSaForwardNotice t n = saTrapForwards t n := rfl
  unfold NoticeMeets
  by_cases hcount : t.entrycount = 0
  · rw [if_pos hcount]
    have hnone : ∀ p, overSubscribers t p = [] := fun p => if_neg (by omega)
    have htrap : saTrapForwards t n = [] := by rw [saTrapForwards, hnone]; rfl
    have hnumber : smSaGetNoticeCount t n = 0 := by rw [smSaGetNoticeCount, hnone]; rfl
    have hwanted : wantedBy t n = [] ↔ ∀ x ∈ t.entries, ¬Wants n x := by
      unfold wantedBy
      rw [List.map_eq_nil_iff, List.filter_eq_nil_iff]
      simp only [decide_eq_true_eq]
    rw [← hwanted]
    constructor
    · intro hexact
      exact hexact.trap.symm.trans htrap
    · intro hempty
      rw [← hempty] at htrap
      refine ⟨htrap, hforward.trans htrap, ?_, fanOut_once h n⟩
      rw [hnumber, hempty]
      rfl
  · rw [if_neg hcount]
    have hsome : ∀ p, overSubscribers t p = t.entries.filter fun x => p x.2.informInfoData :=
      fun p => if_pos (by omega)
    have htrap : saTrapForwards t n = (t.entries.filter fun x =>
        forwardsNotice n x.2.informInfoData).map Prod.fst := by rw [saTrapForwards, hsome]
    have hnumber : smSaGetNoticeCount t n = (t.entries.filter fun x =>
        countsNotice n x.2.informInfoData).length := by rw [smSaGetNoticeCount, hsome]
    constructor
    · intro hexact x hx hcounts
      apply wants_of_length _ hx hcounts
      have hlength := hexact.count
      rw [hnumber, wantedBy, List.length_map] at hlength
      exact hlength
    · intro hmeets
      have hcounts : ∀ x ∈ t.entries, (countsNotice n x.2.informInfoData = true ↔ Wants n x) :=
        fun x hx => ⟨hmeets x hx, fun hw => hw.1⟩
      have hforwards : ∀ x ∈ t.entries, (forwardsNotice n x.2.informInfoData = true ↔ Wants n x) :=
        fun x hx => ⟨fun hf => hmeets x hx (forwardsNotice_iff.mp hf).1,
          fun hw => forwardsNotice_iff.mpr ⟨hw.1, hw.2.1⟩⟩
      have hexact : saTrapForwards t n = wantedBy t n := by
        rw [htrap, filter_wants_eq hforwards]
        rfl
      refine ⟨hexact, hforward.trans hexact, ?_, fanOut_once h n⟩
      rw [hnumber, filter_wants_eq hcounts, wantedBy, List.length_map]

def portChange : Notice where
  isGeneric := 1
  type := 4
  producerType := 1
  trapNumber := 128
  issuerLid := 50

def rangeSubscriber (lid first last : BitVec 16) (s : Subscribers) : Subscribers :=
  (storeSubscription openEnv s
    (subscriberKey { hostAddr with slid := lid } ⟨lid.setWidth 32, lid.setWidth 128⟩
      (rangeInfo (first.setWidth 32) (last.setWidth 32)) first last false)
    (lid.setWidth 32) (rangeInfo (first.setWidth 32) (last.setWidth 32))).2

def rangeSubscribers (s : Subscribers) : Subscribers :=
  rangeSubscriber 6 40 60 (rangeSubscriber 5 1 10 s)

theorem rangeSubscriber_isMap {s : Subscribers} (h : s.IsMap) (lid first last : BitVec 16) :
    (rangeSubscriber lid first last s).IsMap :=
  (storeSubscription_map h openEnv _ _ _).1

theorem fanOutExact_iff_range :
    ∃ s, saSubscriberInit true = some s ∧
      (FanOutExact (rangeSubscribers s).subsMap portChange ↔
        NoticeMeets (rangeSubscribers s).subsMap portChange) := by
  obtain ⟨s, hs⟩ : ∃ s, saSubscriberInit true = some s := ⟨_, rfl⟩
  have hmap : (rangeSubscribers s).IsMap :=
    rangeSubscriber_isMap (rangeSubscriber_isMap (SubscriberRun.start_inv hs).map 5 1 10) 6 40 60
  exact ⟨s, hs, fanOutExact_iff hmap portChange⟩

/-- The notice about LID 50 goes to both hosts. -/
theorem not_fanOutExact :
    ∃ s, saSubscriberInit true = some s ∧
      ¬FanOutExact (rangeSubscribers s).subsMap portChange :=
  ⟨_, rfl, fun h => absurd h.count (by decide)⟩

/-! ## The trap rate -/

def Monitored (cfg : TrapConfig) (a : TrapArrival) : Prop :=
  a.src.found = true ∧ cfg.trapThreshold ≠ 0 ∧ a.disable = true

instance (cfg : TrapConfig) (a : TrapArrival) : Decidable (Monitored cfg a) :=
  inferInstanceAs (Decidable (_ ∧ _))

def inWindow (cfg : TrapConfig) (start : BitVec 64) (times : List (BitVec 64)) : Nat :=
  (times.filter fun time => time - start < cfg.window).length

/-- A port, whether a trap has ended in a division by zero, whether a trap has opened the window,
the traps that came since, and the traps counted and the time at each disabling. -/
structure TrapRun where
  port : TrapPort := {}
  faulted : Bool := false
  opened : Bool := false
  later : List (BitVec 64) := []
  disables : List (Nat × Nat) := []

namespace TrapRun

def start : TrapRun := {}

def counted (cfg : TrapConfig) (S : TrapRun) (times : List (BitVec 64)) : Nat :=
  S.opened.toNat + inWindow cfg S.port.trapWindowStartTime times

def arrivals (cfg : TrapConfig) (S : TrapRun) (a : TrapArrival) : List (BitVec 64) :=
  if Monitored cfg a then S.later ++ [a.timenow] else S.later

def after (cfg : TrapConfig) (S : TrapRun) (a : TrapArrival) (p : TrapPort) (disabled : Bool) :
    TrapRun :=
  let renewed := decide (p.trapWindowStartTime ≠ S.port.trapWindowStartTime)
  let times := arrivals cfg S a
  { port := p
    faulted := false
    opened := S.opened || renewed
    later := if renewed then [] else times
    disables :=
      if disabled then
        (S.counted cfg times, (a.timenow - S.port.trapWindowStartTime).toNat) :: S.disables
      else S.disables }

def step (cfg : TrapConfig) (S : TrapRun) (a : TrapArrival) : TrapRun :=
  if S.faulted then S
  else
    (saUpdateTrapCountForPort cfg S.port a).elim { S with faulted := true } fun r =>
      S.after cfg a r.1 r.2

/-- Nothing is divided by zero, the count is that of the traps in the window, and a port is
disabled only for enough traps at a rate that reaches the threshold. -/
structure Correct (cfg : TrapConfig) (S : TrapRun) : Prop where
  noFault : S.faulted = false
  count : S.port.trapWindowCount.toNat = S.counted cfg S.later
  disables : ∀ d ∈ S.disables, cfg.minCount.toNat ≤ d.1 ∧
    cfg.trapThreshold.toNat * d.2 ≤ 60000000 * d.1

/-- No trap that is to be looked at for its rate comes when the window starts, and the count does
not wrap. -/
def Meets (cfg : TrapConfig) (S : TrapRun) (a : TrapArrival) : Prop :=
  Monitored cfg a →
    (a.timenow = S.port.trapWindowStartTime →
      (S.port.countTrap cfg 0).checksRate cfg 0 = false) ∧
    (a.timenow - S.port.trapWindowStartTime < cfg.window →
      S.port.trapWindowCount.toNat + 1 < 2 ^ 32)

end TrapRun

/-! ### The parts of a call -/

variable {cfg : TrapConfig} {p : TrapPort} {a : TrapArrival} {S : TrapRun}

theorem suppress_start (timenow : BitVec 64) :
    (p.suppress cfg timenow).trapWindowStartTime = p.trapWindowStartTime := by
  unfold TrapPort.suppress
  split
  next =>
    split
    next => split <;> rfl
    next => rfl
  next => rfl

theorem suppress_count (timenow : BitVec 64) :
    (p.suppress cfg timenow).trapWindowCount = p.trapWindowCount := by
  unfold TrapPort.suppress
  split
  next =>
    split
    next => split <;> rfl
    next => rfl
  next => rfl

theorem countTrap_start (d : BitVec 64) :
    (p.countTrap cfg d).trapWindowStartTime = p.trapWindowStartTime := by
  unfold TrapPort.countTrap
  split <;> rfl

theorem countTrap_count (d : BitVec 64) :
    (p.countTrap cfg d).trapWindowCount =
      if d < cfg.window then p.trapWindowCount + 1 else p.trapWindowCount := by
  unfold TrapPort.countTrap
  split <;> rfl

theorem inWindow_append (start now : BitVec 64) (times : List (BitVec 64)) :
    inWindow cfg start (times ++ [now]) =
      inWindow cfg start times + if now - start < cfg.window then 1 else 0 := by
  unfold inWindow
  rw [List.filter_append, List.length_append, List.filter_singleton]
  split
  next hin => simp [hin]
  next hout => simp [hout]

theorem le_of_trapRate {d : BitVec 64} (hd : d ≠ 0)
    (hrate : p.trapRate d ≥ cfg.trapThreshold.setWidth 64) :
    cfg.trapThreshold.toNat * d.toNat ≤ 60000000 * p.trapWindowCount.toNat := by
  have hlt := p.trapWindowCount.isLt
  have hvalue : (60 * p.trapWindowCount.setWidth 64 * vtimer1S).toNat =
      60000000 * p.trapWindowCount.toNat := by
    have hsixty : (60 : BitVec 64).toNat = 60 := rfl
    have hsecond : vtimer1S.toNat = 1000000 := rfl
    rw [BitVec.toNat_mul, BitVec.toNat_mul, BitVec.toNat_setWidth, hsixty, hsecond]
    omega
  have hpos : 0 < d.toNat := by
    rw [Nat.pos_iff_ne_zero]
    exact fun hzero => hd (BitVec.eq_of_toNat_eq hzero)
  have hle : cfg.trapThreshold.toNat ≤ 60000000 * p.trapWindowCount.toNat / d.toNat := by
    have h := BitVec.le_def.mp hrate
    rw [TrapPort.trapRate, BitVec.toNat_udiv, hvalue, BitVec.toNat_setWidth_of_le (by decide)] at h
    exact h
  exact (Nat.le_div_iff_mul_le hpos).mp hle

namespace TrapRun

theorem countTrap_counted (hcorrect : S.Correct cfg) (hmonitored : Monitored cfg a)
    (hwrap : a.timenow - S.port.trapWindowStartTime < cfg.window →
      S.port.trapWindowCount.toNat + 1 < 2 ^ 32) :
    (((S.port.suppress cfg a.timenow).countTrap cfg
        (a.timenow - S.port.trapWindowStartTime)).trapWindowCount).toNat =
      S.counted cfg (S.arrivals cfg a) := by
  have hcount := hcorrect.count
  unfold arrivals counted at *
  rw [if_pos hmonitored, inWindow_append, countTrap_count, suppress_count]
  split
  next hin =>
    have hone : (1 : BitVec 32).toNat = 1 := rfl
    have hlt := hwrap hin
    rw [BitVec.toNat_add, hone]
    omega
  next hout => omega

def KeepsWindow (cfg : TrapConfig) (S : TrapRun) (a : TrapArrival) (p : TrapPort) : Prop :=
  (p.trapWindowStartTime = S.port.trapWindowStartTime ∧
      p.trapWindowCount.toNat = S.counted cfg (S.arrivals cfg a)) ∨
    (p.trapWindowStartTime ≠ S.port.trapWindowStartTime ∧ p.trapWindowCount = 1)

theorem after_correct (hcorrect : S.Correct cfg) (hwindow : S.KeepsWindow cfg a p)
    {disabled : Bool}
    (hdisabled : disabled = true → cfg.minCount.toNat ≤ S.counted cfg (S.arrivals cfg a) ∧
      cfg.trapThreshold.toNat * (a.timenow - S.port.trapWindowStartTime).toNat ≤
        60000000 * S.counted cfg (S.arrivals cfg a)) :
    (S.after cfg a p disabled).Correct cfg := by
  refine ⟨rfl, ?_, ?_⟩
  · unfold after counted
    obtain ⟨hstart, hcount⟩ | ⟨hstart, hcount⟩ := hwindow
    · simp only [hstart, ne_eq, not_true_eq_false, decide_false, Bool.or_false,
        Bool.false_eq_true, if_false]
      exact hcount
    · simp only [hstart, ne_eq, not_false_eq_true, decide_true, Bool.or_true, if_true]
      rw [hcount]
      rfl
  · unfold after
    cases hd : disabled with
    | false => exact hcorrect.disables
    | true =>
      intro d hmem
      obtain rfl | hmem := List.mem_cons.mp hmem
      · exact hdisabled hd
      · exact hcorrect.disables d hmem

theorem keepsWindow_createWindow
    (hstart : p.trapWindowStartTime = S.port.trapWindowStartTime)
    (hcount : p.trapWindowCount.toNat = S.counted cfg (S.arrivals cfg a)) :
    S.KeepsWindow cfg a
      (p.createWindow cfg a.timenow (a.timenow - S.port.trapWindowStartTime)) := by
  unfold TrapPort.createWindow
  split
  next hpast =>
    right
    refine ⟨?_, rfl⟩
    show a.timenow ≠ S.port.trapWindowStartTime
    intro hnow
    rw [hnow, BitVec.sub_self] at hpast
    exact absurd (BitVec.lt_def.mp hpast) (Nat.not_lt_zero _)
  next => exact .inl ⟨hstart, hcount⟩

theorem step_of_not_monitored (hfault : S.faulted = false) (hnot : ¬Monitored cfg a) :
    ∃ p, S.step cfg a = S.after cfg a p false ∧
      p.trapWindowStartTime = S.port.trapWindowStartTime ∧
      p.trapWindowCount = S.port.trapWindowCount := by
  unfold step saUpdateTrapCountForPort
  rw [if_neg (Bool.eq_false_iff.mp hfault)]
  by_cases hfound : a.src.found = true
  · have hearly : cfg.trapThreshold = 0 ∨ (!a.disable) = true := by
      by_contra hno
      simp only [not_or, Bool.not_eq_true', Bool.not_eq_false] at hno
      exact hnot ⟨hfound, hno⟩
    refine ⟨S.port.suppress cfg a.timenow, ?_, suppress_start _, suppress_count _⟩
    simp only [hfound, Bool.not_true, Bool.false_eq_true, if_false, hearly, if_true]
    rfl
  · refine ⟨S.port, ?_, rfl, rfl⟩
    simp only [Bool.eq_false_iff.mpr hfound, Bool.not_false, if_true]
    rfl

def countedPort (cfg : TrapConfig) (S : TrapRun) (a : TrapArrival) : TrapPort :=
  (S.port.suppress cfg a.timenow).countTrap cfg (a.timenow - S.port.trapWindowStartTime)

def elapsed (S : TrapRun) (a : TrapArrival) : BitVec 64 :=
  a.timenow - S.port.trapWindowStartTime

theorem countedPort_start :
    (S.countedPort cfg a).trapWindowStartTime = S.port.trapWindowStartTime :=
  (countTrap_start _).trans (suppress_start _)

theorem update_of_monitored (h : Monitored cfg a) :
    saUpdateTrapCountForPort cfg S.port a =
      if (S.countedPort cfg a).checksRate cfg (S.elapsed a) then
        if S.elapsed a = 0 then none
        else if (S.countedPort cfg a).trapRate (S.elapsed a) ≥ cfg.trapThreshold.setWidth 64 then
          if !a.src.canDisable then some (S.countedPort cfg a, false)
          else some ((S.countedPort cfg a).createWindow cfg a.timenow (S.elapsed a), true)
        else some ((S.countedPort cfg a).createWindow cfg a.timenow (S.elapsed a), false)
      else some ((S.countedPort cfg a).createWindow cfg a.timenow (S.elapsed a), false) := by
  have hlate : ¬(cfg.trapThreshold = 0 ∨ (!a.disable) = true) := by
    rw [h.2.2]
    exact fun hno => hno.elim h.2.1 Bool.false_ne_true
  unfold saUpdateTrapCountForPort countedPort elapsed
  simp only [h.1, Bool.not_true, Bool.false_eq_true, if_false, hlate, suppress_start]

theorem checksRate_countedPort :
    (S.countedPort cfg a).checksRate cfg (S.elapsed a) =
      (S.port.countTrap cfg (S.elapsed a)).checksRate cfg (S.elapsed a) := by
  unfold TrapPort.checksRate countedPort elapsed
  rw [countTrap_count, countTrap_count, suppress_count]

theorem step_correct (hcorrect : S.Correct cfg) (hmeets : S.Meets cfg a) :
    (S.step cfg a).Correct cfg := by
  by_cases hmonitored : Monitored cfg a
  · obtain ⟨hinstant, hwrap⟩ := hmeets hmonitored
    have hcount : (S.countedPort cfg a).trapWindowCount.toNat =
        S.counted cfg (S.arrivals cfg a) := countTrap_counted hcorrect hmonitored hwrap
    have hcreated : S.KeepsWindow cfg a
        ((S.countedPort cfg a).createWindow cfg a.timenow (S.elapsed a)) :=
      keepsWindow_createWindow countedPort_start hcount
    unfold step
    rw [if_neg (Bool.eq_false_iff.mp hcorrect.noFault), update_of_monitored hmonitored]
    by_cases hchecks : (S.countedPort cfg a).checksRate cfg (S.elapsed a) = true
    · rw [if_pos hchecks]
      have hlater : S.elapsed a ≠ 0 := by
        intro hzero
        rw [checksRate_countedPort, hzero] at hchecks
        rw [hinstant (sub_eq_zero.mp hzero)] at hchecks
        exact Bool.false_ne_true hchecks
      rw [if_neg hlater]
      split
      next hrate =>
        split
        next => exact after_correct hcorrect (.inl ⟨countedPort_start, hcount⟩) nofun
        next =>
          apply after_correct hcorrect hcreated
          intro _
          rw [← hcount]
          have hmin := (of_decide_eq_true hchecks).1
          exact ⟨BitVec.le_def.mp hmin, le_of_trapRate hlater hrate⟩
      next => exact after_correct hcorrect hcreated nofun
    · rw [if_neg hchecks]
      exact after_correct hcorrect hcreated nofun
  · obtain ⟨p, hstep, hstart, hcount⟩ := step_of_not_monitored hcorrect.noFault hmonitored
    rw [hstep]
    refine after_correct hcorrect (.inl ⟨hstart, ?_⟩) fun h => absurd h Bool.false_ne_true
    rw [hcount, arrivals, if_neg hmonitored]
    exact hcorrect.count

theorem update_in_window (h : Monitored cfg a)
    (hin : a.timenow - S.port.trapWindowStartTime < cfg.window) :
    saUpdateTrapCountForPort cfg S.port a = none ∨
      ∃ disabled, saUpdateTrapCountForPort cfg S.port a = some (S.countedPort cfg a, disabled) := by
  have hkept : (S.countedPort cfg a).createWindow cfg a.timenow (S.elapsed a) =
      S.countedPort cfg a := by
    apply if_neg
    exact fun hpast => absurd (BitVec.lt_def.mp hpast) (Nat.lt_asymm (BitVec.lt_def.mp hin))
  rw [update_of_monitored h, hkept]
  split
  next =>
    split
    next => exact .inl rfl
    next =>
      right
      split
      next => split <;> exact ⟨_, rfl⟩
      next => exact ⟨_, rfl⟩
  next => exact .inr ⟨_, rfl⟩

theorem not_correct_of_not_meets (hcorrect : S.Correct cfg) (hno : ¬S.Meets cfg a) :
    ¬(S.step cfg a).Correct cfg := by
  intro hafter
  apply hno
  intro hmonitored
  have hstep : S.step cfg a = (saUpdateTrapCountForPort cfg S.port a).elim
      { S with faulted := true } fun r => S.after cfg a r.1 r.2 :=
    if_neg (Bool.eq_false_iff.mp hcorrect.noFault)
  rw [hstep, update_of_monitored hmonitored] at hafter
  constructor
  · intro hnow
    have hzero : S.elapsed a = 0 := sub_eq_zero.mpr hnow
    by_contra hchecks
    rw [Bool.not_eq_false, ← hzero, ← checksRate_countedPort] at hchecks
    rw [if_pos hchecks, if_pos hzero] at hafter
    nomatch hafter.noFault
  · intro hin
    obtain hnone | ⟨disabled, hsome⟩ := update_in_window hmonitored hin
    · rw [← update_of_monitored hmonitored, hnone] at hafter
      nomatch hafter.noFault
    · rw [← update_of_monitored hmonitored, hsome] at hafter
      have hcount : (S.countedPort cfg a).trapWindowCount.toNat =
          S.counted cfg (S.arrivals cfg a) := by
        have hcount := hafter.count
        unfold after counted at hcount
        simp only [Option.elim_some, countedPort_start, ne_eq, not_true_eq_false, decide_false,
          Bool.or_false, Bool.false_eq_true, if_false] at hcount
        exact hcount
      have hgrown : S.counted cfg (S.arrivals cfg a) = S.port.trapWindowCount.toNat + 1 := by
        rw [hcorrect.count, arrivals, if_pos hmonitored]
        unfold counted
        rw [inWindow_append, if_pos hin]
        rfl
      rw [← hgrown, ← hcount]
      exact BitVec.isLt _

theorem start_correct : Correct cfg start :=
  ⟨rfl, rfl, fun _ hd => nomatch hd⟩

/-- The run goes well just if no trap that is looked at for its rate comes when the window starts,
and no count wraps. -/
theorem allStates_trapsCorrect_iff (cfg : TrapConfig) (arrivals : List TrapArrival) :
    AllStates (step cfg) (Correct cfg) start arrivals ↔
      AllSteps (step cfg) (Meets cfg) start arrivals :=
  allStates_iff (fun _ => id) (fun _ _ => step_correct) (fun _ _ => not_correct_of_not_meets)
    arrivals start start_correct

def tenAMinute : TrapConfig := smSetTrapThreshold 0 10 2

def trapAt (timenow : BitVec 64) : TrapArrival where
  timenow := timenow
  disable := true
  src := {}

/-- Two traps at once divide by zero. -/
theorem not_allStates_trapsCorrect :
    ¬AllStates (step tenAMinute) (Correct tenAMinute) start
      [trapAt 100000000, trapAt 100000000] :=
  fun h => absurd h.last.noFault (by decide)

end TrapRun

end OpaFm.Sa
