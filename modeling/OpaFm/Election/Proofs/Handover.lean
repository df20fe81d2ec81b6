import OpaFm.Election.SmFsm

/-!
# Handing over

An ACKNOWLEDGE is only sent in answer to a HANDOVER, and reports a standby or master SM.
A master that receives one becomes standby; it does not look whether its HANDOVER has
been acknowledged before.
-/

namespace OpaFm.Election

open OpaFm.Lib

theorem smFsmStandby_ack {mad ack : SmInfoMad} (h : (smFsmStandby mad).2 = some ack) :
    mad.amod = .handover ∧ ack = handoverAck mad .standby := by
  unfold smFsmStandby at h
  cases hamod : mad.amod with
  | handover =>
    simp only [hamod, Option.some.injEq] at h
    exact ⟨rfl, h.symm⟩
  | _ => simp [hamod] at h

theorem smFsmMaster_ack {mad ack : SmInfoMad} (h : (smFsmMaster mad).2 = some ack) :
    mad.amod = .handover ∧ ack = handoverAck mad .master := by
  unfold smFsmMaster at h
  cases hamod : mad.amod with
  | handover =>
    simp only [hamod, Option.some.injEq] at h
    exact ⟨rfl, h.symm⟩
  | acknowledge =>
    simp only [hamod] at h
    split at h <;> cases h
  | _ => simp [hamod] at h

theorem smFsmNotactive_ack (mad : SmInfoMad) : (smFsmNotactive mad).2 = none := by
  unfold smFsmNotactive
  cases mad.amod <;> rfl

theorem stateEventMad_ack {smState : SmState} {mad ack : SmInfoMad}
    (h : (stateEventMad smState mad).2 = some ack) :
    mad.amod = .handover ∧ SmState.standby.code ≤ ack.smStateCurrent.code ∧
      ack.src = mad.dst ∧ ack.dst = mad.src := by
  unfold stateEventMad at h
  split at h
  · cases h
  · cases smState with
    | notactive =>
      simp only [smFsmNotactive_ack] at h
      cases h
    | discovering => cases h
    | standby =>
      obtain ⟨hamod, rfl⟩ := smFsmStandby_ack h
      exact ⟨hamod, Nat.le_refl _, rfl, rfl⟩
    | master =>
      obtain ⟨hamod, rfl⟩ := smFsmMaster_ack h
      exact ⟨hamod, Nat.le_succ _, rfl, rfl⟩

namespace SmWorld

def HandedOver (w : SmWorld) (a b : Nat) : Prop :=
  ∃ h ∈ w.sent, h.amod = .handover ∧ h.src = a ∧ h.dst = b

def AckInv (w : SmWorld) : Prop :=
  ∀ ack ∈ w.sent, ack.amod = .acknowledge →
    SmState.standby.code ≤ ack.smStateCurrent.code ∧ w.HandedOver ack.dst ack.src

theorem ackInv_init (state : Nat → SmState) : AckInv (init state) := by
  intro ack hack
  cases hack

theorem HandedOver.mono {w w' : SmWorld} {a b : Nat} (hsent : ∀ m ∈ w.sent, m ∈ w'.sent)
    (h : w.HandedOver a b) : w'.HandedOver a b := by
  obtain ⟨m, hm, hrest⟩ := h
  exact ⟨m, hsent m hm, hrest⟩

theorem AckInv.add {w w' : SmWorld} (hw : AckInv w) (new : List SmInfoMad)
    (hsent : w'.sent = new ++ w.sent)
    (hnew : ∀ ack ∈ new, ack.amod = .acknowledge →
      SmState.standby.code ≤ ack.smStateCurrent.code ∧ w.HandedOver ack.dst ack.src) :
    AckInv w' := by
  have hmono : ∀ m ∈ w.sent, m ∈ w'.sent := by
    intro m hm
    rw [hsent]
    exact List.mem_append_right new hm
  intro ack hack hamod
  rw [hsent] at hack
  rcases List.mem_append.mp hack with hack | hack
  · exact ⟨(hnew ack hack hamod).1, (hnew ack hack hamod).2.mono hmono⟩
  · exact ⟨(hw ack hack hamod).1, (hw ack hack hamod).2.mono hmono⟩

theorem step_ackInv {w w' : SmWorld} {e : SmEvent} (hw : AckInv w) (he : w.Enabled e)
    (hstep : w.step e = .ok (w', ())) : AckInv w' := by
  cases e with
  | deliver mad =>
    cases hstep
    apply hw.add (stateEventMad (w.state mad.dst) mad).2.toList rfl
    intro ack hack _
    obtain ⟨hamod, hcode, hsrc, hdst⟩ := stateEventMad_ack (Option.mem_toList.mp hack)
    exact ⟨hcode, mad, he.1, hamod, hdst.symm, hsrc.symm⟩
  | takeOver portGuid =>
    cases hstep
    exact hw
  | sweep portGuid priority smKey records =>
    cases hstep
    apply hw.add _ rfl
    intro ack hack hamod
    obtain ⟨dst, -, rfl⟩ := Option.map_eq_some_iff.mp (Option.mem_toList.mp hack)
    cases hamod
  | transition portGuid newState =>
    cases hstep
    exact hw
  | control mad =>
    cases hstep
    apply hw.add [mad] rfl
    intro ack hack hamod
    rw [List.mem_singleton.mp hack] at hamod
    exact absurd hamod he.2

theorem reach_ackInv {state : Nat → SmState} {w : SmWorld}
    (h : Reach step Enabled (init state) w) : AckInv w :=
  h.invariant AckInv (ackInv_init state) fun _ _ _ _ hw he hstep => step_ackInv hw he hstep

/-- In every run, whatever the order, delay and duplication of the packets: a master that
receives an ACKNOWLEDGE becomes standby, and it has sent a HANDOVER to that SM before. -/
theorem deliver_acknowledge (state : Nat → SmState) {w : SmWorld}
    (h : Reach step Enabled (init state) w) {ack : SmInfoMad} (hsent : ack ∈ w.sent)
    (hamod : ack.amod = .acknowledge) (hmaster : w.state ack.dst = .master) :
    (w.deliver ack).state ack.dst = .standby ∧ w.HandedOver ack.dst ack.src := by
  obtain ⟨hcode, hover⟩ := reach_ackInv h ack hsent hamod
  refine ⟨?_, hover⟩
  have hevent : (stateEventMad .master ack).1 = .standby := by
    simp [stateEventMad, smFsmMaster, hamod, Nat.not_lt.mpr hcode, smTransition]
  show Function.update w.state ack.dst (stateEventMad (w.state ack.dst) ack).1 ack.dst = .standby
  rw [Function.update_self, hmaster]
  exact hevent

/-! ## Two managers -/

section TwoManagers

variable {state : Nat → SmState} {w : SmWorld}

theorem reach_deliver (h : Reach step Enabled (init state) w) (mad : SmInfoMad)
    (hmad : mad ∈ w.sent ∧ w.waiting mad.dst = false) :
    Reach step Enabled (init state) (w.deliver mad) :=
  .next (i := .deliver mad) h hmad rfl

theorem reach_takeOver (h : Reach step Enabled (init state) w) (portGuid : Nat)
    (hwaiting : w.waiting portGuid = true) : Reach step Enabled (init state) (w.takeOver portGuid) :=
  .next (i := .takeOver portGuid) h hwaiting rfl

theorem reach_sweep (h : Reach step Enabled (init state) w) (portGuid priority smKey : Nat)
    (records : List SmRecord) :
    Reach step Enabled (init state) (w.sweep portGuid priority smKey records) :=
  .next (i := .sweep portGuid priority smKey records) h trivial rfl

end TwoManagers

def handoverMad (src dst : Nat) : SmInfoMad := ⟨src, dst, .handover, .master⟩
def ackMad (src dst : Nat) : SmInfoMad := ⟨src, dst, .acknowledge, .standby⟩

/-- Manager 1 is master, manager 2 outranks it and gets a HANDOVER. -/
def oneHandsOver : SmWorld :=
  (((init fun _ => .discovering).sweep 1 0 0 []).sweep 2 5 0
      [⟨2, .discovering, 5, 0, true⟩, ⟨1, .master, 0, 0, true⟩]).sweep 1 0 0
    [⟨1, .master, 0, 0, true⟩, ⟨2, .standby, 5, 0, true⟩]

/-- The acknowledgement arrives before manager 2 is master. -/
def noneIsMaster : SmWorld :=
  (oneHandsOver.deliver (handoverMad 1 2)).deliver (ackMad 2 1)

def twoIsMaster : SmWorld := noneIsMaster.takeOver 2

/-- Manager 1 has been given a higher priority and has got the fabric back. -/
def oneIsMaster : SmWorld :=
  (((twoIsMaster.sweep 2 5 0 [⟨2, .master, 5, 0, true⟩, ⟨1, .standby, 9, 0, true⟩]).deliver
    (handoverMad 2 1)).deliver (ackMad 1 2)).takeOver 1

theorem reach_oneHandsOver :
    Reach step Enabled (init fun _ => .discovering) oneHandsOver :=
  reach_sweep (reach_sweep (reach_sweep .start _ _ _ _) _ _ _ _) _ _ _ _

theorem reach_oneIsMaster : Reach step Enabled (init fun _ => .discovering) oneIsMaster := by
  have htaken := reach_deliver reach_oneHandsOver (handoverMad 1 2) (by decide +kernel)
  have hnone := reach_deliver htaken (ackMad 2 1) (by decide +kernel)
  have htwo := reach_takeOver hnone 2 (by decide +kernel)
  have hback := reach_sweep htwo 2 5 0 [⟨2, .master, 5, 0, true⟩, ⟨1, .standby, 9, 0, true⟩]
  have hgiven := reach_deliver hback (handoverMad 2 1) (by decide +kernel)
  have hack := reach_deliver hgiven (ackMad 1 2) (by decide +kernel)
  exact reach_takeOver hack 1 (by decide +kernel)

/-- The first acknowledgement of a HANDOVER. -/
theorem deliver_acknowledge_first :
    ((oneHandsOver.deliver (handoverMad 1 2)).deliver (ackMad 2 1)).state 1 = .standby ∧
      (oneHandsOver.deliver (handoverMad 1 2)).HandedOver 1 2 :=
  deliver_acknowledge (fun _ => .discovering)
    (reach_deliver reach_oneHandsOver (handoverMad 1 2) (by decide +kernel))
    (by decide +kernel) rfl (by decide +kernel)

/-- The same acknowledgement arrives again when manager 1 is the only master and has no
HANDOVER outstanding. -/
theorem deliver_acknowledge_again :
    Reach step Enabled (init fun _ => .discovering) oneIsMaster ∧ ackMad 2 1 ∈ oneIsMaster.sent ∧
      oneIsMaster.state 1 = .master ∧ oneIsMaster.state 2 = .standby ∧
      oneIsMaster.outstanding 1 2 = false ∧
      (oneIsMaster.deliver (ackMad 2 1)).state 1 = .standby := by
  refine ⟨reach_oneIsMaster, ?_, ?_, ?_, ?_, ?_⟩
  all_goals decide +kernel

end SmWorld

end OpaFm.Election
