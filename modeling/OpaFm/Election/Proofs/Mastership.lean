import OpaFm.Election.Proofs.Handover
import Mathlib.Data.Finset.Max
import Mathlib.Data.List.MinMax
import Mathlib.Data.Prod.Lex

/-!
# Mastership

SMs that see the same records agree on the one that is to be master.  While priorities stay
as they are and no master stops by itself, no order of the packets takes the last master
from the fabric, but for the time in which a better one waits for the response to its
ACKNOWLEDGE.
-/

namespace OpaFm.Election

open OpaFm.Lib

/-- SMs in the order of their priorities, and of lower GUIDs for one priority. -/
def smRank (priority portGuid : Nat) : Nat ×ₗ Natᵒᵈ := toLex (priority, OrderDual.toDual portGuid)

theorem smRank_lt_iff {p p' g g' : Nat} :
    smRank p g < smRank p' g' ↔ p < p' ∨ p = p' ∧ g' < g := by
  simp [smRank, Prod.Lex.toLex_lt_toLex]

theorem smRank_inj {p p' g g' : Nat} (h : smRank p g = smRank p' g') : g = g' :=
  congrArg (fun r : Nat ×ₗ Natᵒᵈ => OrderDual.ofDual (ofLex r).2) h

/-! ## The top SM -/

namespace SmRecord

def rank (r : SmRecord) : Nat ×ₗ Natᵒᵈ := smRank r.priority r.portGuid

theorem outranks_iff {r s : SmRecord} : r.outranks s = true ↔ s.rank < r.rank := by
  rw [rank, rank, smRank_lt_iff, outranks, decide_eq_true_eq]
  omega

def rival (self r : SmRecord) : Bool :=
  r.portGuid ≠ self.portGuid ∧ r.smStateCurrent ≠ .notactive ∧ r.smKey = self.smKey

theorem findTopSm_eq_foldl (self : SmRecord) (records : List SmRecord) (topSm : Option SmRecord) :
    findTopSm self records topSm = (records.filter self.rival).foldl
      (List.argAux fun r t => t.rank < r.rank) topSm := by
  induction records generalizing topSm with
  | nil => rfl
  | cons r rest ih =>
    unfold findTopSm
    by_cases hrival : self.rival r = true
    · have hlooked : ¬(r.portGuid = self.portGuid ∨ r.smStateCurrent = .notactive ∨
          r.smKey ≠ self.smKey) := by simpa [rival] using hrival
      rw [if_neg hlooked, List.filter_cons_of_pos hrival, List.foldl_cons]
      cases topSm with
      | none => exact ih _
      | some t =>
        simp only [ih, List.argAux, outranks_iff]
        split <;> rfl
    · have hskipped : r.portGuid = self.portGuid ∨ r.smStateCurrent = .notactive ∨
          r.smKey ≠ self.smKey := by
        simp [rival] at hrival
        grind
      rw [if_pos hskipped, List.filter_cons_of_neg hrival]
      exact ih topSm

theorem findTopSm_eq_argmax (self : SmRecord) (records : List SmRecord) :
    findTopSm self records none = (records.filter self.rival).argmax rank :=
  findTopSm_eq_foldl self records none

end SmRecord

section Sweep

variable {self : SmRecord} {records : List SmRecord}

theorem topologyTransition_master (hself : self.smStateCurrent = .master) :
    (topologyTransition self records).1 = .master := by
  unfold topologyTransition
  rw [hself]
  split
  · rfl
  · split
    case h_4 | h_5 => split <;> rfl
    case h_6 => rfl
    all_goals simp_all

theorem topologyTransition_standby (hself : self.smStateCurrent = .standby) :
    (topologyTransition self records).1 = .standby ∨
      (topologyTransition self records).1 = .master := by
  unfold topologyTransition
  rw [hself]
  split
  · exact .inr rfl
  · exact .inl (by split <;> simp_all)

theorem topologyTransition_handover {b : Nat} (h : (topologyTransition self records).2 = some b) :
    ∃ t ∈ records, t.portGuid = b ∧ self.rank < t.rank := by
  unfold topologyTransition at h
  split at h
  next => cases h
  next t ht =>
    have hfound : findTopSm self records none = some t := by
      split at ht
      · exact ht
      · cases ht
    rw [SmRecord.findTopSm_eq_argmax] at hfound
    have hin : t ∈ records := List.mem_of_mem_filter (List.argmax_mem hfound)
    split at h
    case h_4 | h_5 =>
      split at h
      next hout => exact ⟨t, hin, Option.some.inj h, SmRecord.outranks_iff.1 hout.1⟩
      next => cases h
    case h_2 | h_3 => split at h <;> cases h
    case h_1 | h_6 => cases h

end Sweep

/-! ## Agreement

The SMs of a fabric end their sweeps in any order and any number of times.  Each sees the
records of all of them, in the order of its own hash table.
-/

/-- SMs with one SM key, and their priorities. -/
structure Contest where
  prio : Nat → Nat
  smKey : Nat
  guids : List Nat

namespace Contest

variable (c : Contest)

def rank (g : Nat) : Nat ×ₗ Natᵒᵈ := smRank (c.prio g) g

def record (w : SmWorld) (upToDate : Nat → Bool) (g : Nat) : SmRecord :=
  ⟨g, w.state g, c.prio g, c.smKey, upToDate g⟩

def Sees (w : SmWorld) (records : List SmRecord) : Prop :=
  ∃ upToDate, records.Perm (c.guids.map (c.record w upToDate))

def Sweeps (w : SmWorld) (e : SmEvent) : Prop :=
  ∃ g ∈ c.guids, ∃ records, c.Sees w records ∧ e = .sweep g (c.prio g) c.smKey records

def decided (top g : Nat) : SmState := if g = top then .master else .standby

def Settling (top : Nat) (w : SmWorld) : Prop :=
  w.sent = [] ∧ ∀ g ∈ c.guids, w.state g = .discovering ∨ w.state g = decided top g

variable {c} {top g : Nat} {w : SmWorld} {records : List SmRecord}

theorem mem_rivals (hw : c.Settling top w) {upToDate : Nat → Bool}
    (hperm : records.Perm (c.guids.map (c.record w upToDate))) {r : SmRecord} :
    r ∈ records.filter (c.record w (fun _ => true) g).rival ↔
      ∃ g' ∈ c.guids, g' ≠ g ∧ r = c.record w upToDate g' := by
  rw [List.mem_filter, hperm.mem_iff, List.mem_map]
  constructor
  · rintro ⟨⟨g', hg', rfl⟩, hrival⟩
    simp only [SmRecord.rival, record, decide_eq_true_eq] at hrival
    exact ⟨g', hg', hrival.1, rfl⟩
  · rintro ⟨g', hg', hne, rfl⟩
    have hactive : w.state g' ≠ .notactive := by
      rcases hw.2 g' hg' with hstate | hstate
      · simp [hstate]
      · rw [hstate, decided]
        split <;> simp
    exact ⟨⟨g', hg', rfl⟩, by simp [SmRecord.rival, record, hne, hactive]⟩

theorem sweep_decides (hw : c.Settling top w) (htop : top ∈ c.guids)
    (hbest : ∀ g ∈ c.guids, c.rank g ≤ c.rank top) (hg : g ∈ c.guids) (hsees : c.Sees w records) :
    topologyTransition (c.record w (fun _ => true) g) records = (decided top g, none) := by
  obtain ⟨upToDate, hperm⟩ := hsees
  have hself : c.record w upToDate g ∈ records := hperm.mem_iff.2 (List.mem_map_of_mem hg)
  have hown := hw.2 g hg
  unfold topologyTransition
  rw [SmRecord.findTopSm_eq_argmax]
  cases hfound : (records.filter (c.record w (fun _ => true) g).rival).argmax SmRecord.rank with
  | none =>
    have hgtop : g = top := by
      by_contra hne
      have hin := (mem_rivals hw hperm).2 ⟨top, htop, Ne.symm hne, rfl⟩
      rw [List.argmax_eq_none.1 hfound] at hin
      cases hin
    subst hgtop
    rw [ite_self]
    rcases hown with h | h <;> simp [record, h, decided, smTransition]
  | some t =>
    have hmem := List.argmax_mem hfound
    obtain ⟨g', hg', hne, rfl⟩ := (mem_rivals hw hperm).1 hmem
    have hlong : records.length > 1 := by
      obtain ⟨i, hi, hgi⟩ := List.getElem_of_mem hself
      obtain ⟨j, hj, hgj⟩ := List.getElem_of_mem (List.mem_of_mem_filter hmem)
      have hij : i ≠ j := by
        rintro rfl
        exact hne (congrArg SmRecord.portGuid (hgj.symm.trans hgi))
      omega
    rw [if_pos hlong]
    have hother := hw.2 g' hg'
    by_cases hgtop : g = top
    · -- it outranks the best of the others, which is not master
      have hless : c.rank g' < c.rank g :=
        lt_of_le_of_ne (hgtop ▸ hbest g' hg') fun heq => hne (smRank_inj heq)
      have hout : (c.record w (fun _ => true) g).outranks (c.record w upToDate g') = true :=
        SmRecord.outranks_iff.2 hless
      have hnot : ¬(c.record w upToDate g').outranks (c.record w (fun _ => true) g) = true :=
        fun h => hless.asymm (SmRecord.outranks_iff.1 h)
      rw [decided, if_neg (hgtop ▸ hne)] at hother
      rcases hown with h | h <;> rcases hother with h' | h' <;>
        simp_all [record, decided, smTransition]
    · have htop' : g' = top := by
        have hle := List.le_of_mem_argmax
          ((mem_rivals hw hperm).2 ⟨top, htop, Ne.symm hgtop, rfl⟩) hfound
        exact smRank_inj (le_antisymm (hbest g' hg') hle)
      have hnot : ¬(c.record w (fun _ => true) g).outranks (c.record w upToDate g') = true :=
        fun h => (SmRecord.outranks_iff.1 h).not_ge (htop' ▸ hbest g hg)
      rw [decided, if_pos htop'] at hother
      rcases hown with h | h <;> rcases hother with h' | h' <;>
        simp_all [record, decided, smTransition]

theorem settling_step (htop : top ∈ c.guids) (hbest : ∀ g ∈ c.guids, c.rank g ≤ c.rank top)
    {e : SmEvent} {w' : SmWorld} (hw : c.Settling top w) (he : c.Sweeps w e)
    (hstep : w.step e = .ok (w', ())) : c.Settling top w' := by
  obtain ⟨g, hg, records, hsees, rfl⟩ := he
  cases hstep
  have hdecides := sweep_decides hw htop hbest hg hsees
  unfold record at hdecides
  refine ⟨?_, fun g' hg' => ?_⟩
  · simp only [SmWorld.sweep, hdecides]
    exact hw.1
  · simp only [SmWorld.sweep, hdecides]
    by_cases heq : g' = g
    · rw [heq, Function.update_self]
      exact .inr rfl
    · rw [Function.update_of_ne heq]
      exact hw.2 g' hg'

/-- Whatever the order of the sweeps, only the best SM becomes master, every other one that has
ended a sweep is in standby, and no HANDOVER is sent. -/
theorem elects_best (c : Contest) (hne : c.guids ≠ []) :
    ∃ top ∈ c.guids, (∀ g ∈ c.guids, c.rank g ≤ c.rank top) ∧
      ∀ w, Reach SmWorld.step c.Sweeps (SmWorld.init fun _ => .discovering) w →
        w.sent = [] ∧ (∀ g ∈ c.guids, w.state g = .discovering ∨ w.state g = decided top g) ∧
          ∀ g ∈ c.guids, ∀ records, c.Sees w records →
            (w.sweep g (c.prio g) c.smKey records).state g = decided top g := by
  obtain ⟨top, htop, hbest⟩ := c.guids.toFinset.exists_max_image c.rank (by simpa using hne)
  simp only [List.mem_toFinset] at htop hbest
  refine ⟨top, htop, hbest, fun w h => ?_⟩
  have hw : c.Settling top w :=
    h.invariant (c.Settling top) ⟨rfl, fun _ _ => .inl rfl⟩ fun _ _ _ _ hw he hstep =>
      settling_step htop hbest hw he hstep
  refine ⟨hw.1, hw.2, fun g hg records hsees => ?_⟩
  have hdecides := sweep_decides hw htop hbest hg hsees
  unfold record at hdecides
  simp only [SmWorld.sweep, hdecides, Function.update_self]

def twoFirst : Nat → Nat := fun g => if g = 2 then 5 else 0

theorem elects_best_three : ∃ top ∈ [1, 2, 3],
    (∀ g ∈ [1, 2, 3], rank ⟨twoFirst, 0, [1, 2, 3]⟩ g ≤ rank ⟨twoFirst, 0, [1, 2, 3]⟩ top) ∧
      ∀ w, Reach SmWorld.step (Sweeps ⟨twoFirst, 0, [1, 2, 3]⟩)
          (SmWorld.init fun _ => .discovering) w →
        w.sent = [] ∧ (∀ g ∈ [1, 2, 3], w.state g = .discovering ∨ w.state g = decided top g) ∧
          ∀ g ∈ [1, 2, 3], ∀ records, Sees ⟨twoFirst, 0, [1, 2, 3]⟩ w records →
            (w.sweep g (twoFirst g) 0 records).state g = decided top g :=
  elects_best ⟨twoFirst, 0, [1, 2, 3]⟩ (by decide)

end Contest

/-! ## No master is lost -/

namespace SmWorld

variable {prio : Nat → Nat} {w w' : SmWorld} {e : SmEvent}

def Takes (w : SmWorld) (a : Nat) : Prop := w.state a = .master ∨ w.waiting a = true

/-- A step with the given priorities, in which no SM that is or will be master stops by itself. -/
def Steady (prio : Nat → Nat) (w : SmWorld) (e : SmEvent) : Prop :=
  w.Enabled e ∧
    match e with
    | .sweep g priority _ records =>
      priority = prio g ∧ ∀ r ∈ records, r.priority = prio r.portGuid
    | .transition g _ => ¬w.Takes g
    | .deliver _ | .takeOver _ | .control _ => True

def Covered (prio : Nat → Nat) (w : SmWorld) (b : Nat) : Prop :=
  ∃ a, w.Takes a ∧ smRank (prio b) b ≤ smRank (prio a) a

structure Upward (prio : Nat → Nat) (w : SmWorld) : Prop where
  handover : ∀ m ∈ w.sent, m.amod = .handover →
    smRank (prio m.src) m.src < smRank (prio m.dst) m.dst
  ack : ∀ m ∈ w.sent, m.amod = .acknowledge →
    smRank (prio m.dst) m.dst < smRank (prio m.src) m.src ∧ w.Covered prio m.src
  waiting : ∀ g, w.waiting g = true → w.state g = .standby ∨ w.state g = .master

theorem Covered.of_takes {b : Nat} (h : w.Covered prio b)
    (hstay : ∀ a, w.Takes a → w'.Takes a) : w'.Covered prio b := by
  obtain ⟨a, ha, hab⟩ := h
  exact ⟨a, hstay a ha, hab⟩

theorem stateEventMad_ack_state {smState : SmState} {mad ack : SmInfoMad}
    (h : (stateEventMad smState mad).2 = some ack) : ack.amod = .acknowledge ∧
      ((stateEventMad smState mad).1 = .standby ∨ (stateEventMad smState mad).1 = .master) := by
  have hamod := (stateEventMad_ack h).1
  unfold stateEventMad at h ⊢
  split at h
  · cases h
  next hcheck =>
    rw [if_neg hcheck]
    cases smState with
    | notactive => simp [smFsmNotactive_ack] at h
    | discovering => cases h
    | standby =>
      obtain ⟨-, rfl⟩ := smFsmStandby_ack h
      simp [smFsmStandby, hamod, handoverAck]
    | master =>
      obtain ⟨-, rfl⟩ := smFsmMaster_ack h
      simp [smFsmMaster, hamod, handoverAck]

theorem stateEventMad_master {mad : SmInfoMad} (hamod : mad.amod ≠ .acknowledge) :
    (stateEventMad .master mad).1 = .master := by
  unfold stateEventMad
  split
  · rfl
  · cases h : mad.amod <;> simp_all [smFsmMaster]

section Deliver

variable {mad : SmInfoMad}

theorem deliver_state_other {a : Nat} (hne : a ≠ mad.dst) : (w.deliver mad).state a = w.state a :=
  Function.update_of_ne hne _ _

theorem deliver_state_dst : (w.deliver mad).state mad.dst =
    (stateEventMad (w.state mad.dst) mad).1 :=
  Function.update_self _ _ _

theorem deliver_waiting (a : Nat) : (w.deliver mad).waiting a = true ↔
    w.waiting a = true ∨ a = mad.dst ∧ (stateEventMad (w.state mad.dst) mad).2.isSome = true := by
  show (if (stateEventMad (w.state mad.dst) mad).2.isSome then
    Function.update w.waiting mad.dst true else w.waiting) a = true ↔ _
  by_cases hsome : (stateEventMad (w.state mad.dst) mad).2.isSome = true
  · rw [if_pos hsome]
    by_cases heq : a = mad.dst
    · simp [heq, hsome]
    · simp [heq]
  · rw [if_neg hsome]
    simp [hsome]

theorem Takes.deliver_other {a : Nat} (h : w.Takes a) (hne : a ≠ mad.dst) :
    (w.deliver mad).Takes a := by
  rcases h with h | h
  · exact .inl ((deliver_state_other hne).trans h)
  · exact .inr ((deliver_waiting a).mpr (.inl h))

theorem Upward.deliver_covered (hw : w.Upward prio) (hmad : mad ∈ w.sent)
    (hfree : w.waiting mad.dst = false) {b : Nat} (hb : w.Covered prio b) :
    (w.deliver mad).Covered prio b := by
  by_cases hamod : mad.amod = .acknowledge
  · obtain ⟨hranks, d, hd, hdsrc⟩ := hw.ack mad hmad hamod
    have hdst : d ≠ mad.dst := fun heq => (hranks.trans_le hdsrc).ne (heq ▸ rfl)
    obtain ⟨a, ha, hab⟩ := hb
    by_cases heq : a = mad.dst
    · exact ⟨d, hd.deliver_other hdst, hab.trans (heq ▸ (hranks.trans_le hdsrc).le)⟩
    · exact ⟨a, ha.deliver_other heq, hab⟩
  · refine hb.of_takes fun a ha => ?_
    by_cases heq : a = mad.dst
    · subst heq
      have hmaster : w.state mad.dst = .master :=
        ha.resolve_right fun h => Bool.false_ne_true (hfree.symm.trans h)
      refine .inl ?_
      rw [deliver_state_dst, hmaster]
      exact stateEventMad_master hamod
    · exact ha.deliver_other heq

end Deliver

theorem Upward.takeOver_state (hw : w.Upward prio) {g : Nat} (hg : w.Takes g) :
    (w.takeOver g).state g = .master := by
  show Function.update w.state g _ g = .master
  rw [Function.update_self]
  rcases hg with h | h
  · rw [h]
    rfl
  · rcases hw.waiting g h with hstate | hstate <;> rw [hstate] <;> rfl

theorem Upward.step_covered (hw : w.Upward prio) (he : w.Steady prio e)
    (hstep : w.step e = .ok (w', ())) {b : Nat} (hb : w.Covered prio b) : w'.Covered prio b := by
  cases e with
  | deliver mad =>
    cases hstep
    exact hw.deliver_covered he.1.1 he.1.2 hb
  | takeOver g =>
    cases hstep
    refine hb.of_takes fun a ha => ?_
    by_cases hag : a = g
    · subst hag
      exact .inl (hw.takeOver_state ha)
    · refine ha.imp (fun h => ?_) fun h => ?_
      · exact (Function.update_of_ne hag _ _).trans h
      · exact (Function.update_of_ne hag _ _).trans h
  | sweep g priority smKey records =>
    cases hstep
    refine hb.of_takes fun a ha => ha.imp (fun ha => ?_) id
    show Function.update w.state g _ a = .master
    by_cases hag : a = g
    · rw [hag, Function.update_self]
      exact topologyTransition_master (hag ▸ ha)
    · rw [Function.update_of_ne hag, ha]
  | transition g newState =>
    cases hstep
    refine hb.of_takes fun a ha => ?_
    have hag : a ≠ g := fun heq => he.2 (heq ▸ ha)
    exact ha.imp (fun h => (Function.update_of_ne hag _ _).trans h) id
  | control mad =>
    cases hstep
    exact hb

theorem Upward.step_waiting (hw : w.Upward prio) (he : w.Steady prio e)
    (hstep : w.step e = .ok (w', ())) :
    ∀ g, w'.waiting g = true → w'.state g = .standby ∨ w'.state g = .master := by
  intro a ha
  cases e with
  | deliver mad =>
    cases hstep
    by_cases heq : a = mad.dst
    · subst heq
      have hfree : ¬w.waiting mad.dst = true := Bool.eq_false_iff.mp he.1.2
      have hsome := (((deliver_waiting _).mp ha).resolve_left hfree).2
      obtain ⟨ack, hack⟩ := Option.isSome_iff_exists.mp hsome
      rw [deliver_state_dst]
      exact (stateEventMad_ack_state hack).2
    · rw [deliver_state_other heq]
      exact hw.waiting a (((deliver_waiting a).mp ha).resolve_right fun h => heq h.1)
  | takeOver g =>
    cases hstep
    by_cases hag : a = g
    · subst hag
      have hfree : (w.takeOver a).waiting a = false := Function.update_self _ _ _
      exact absurd (hfree.symm.trans ha) Bool.false_ne_true
    · have hstate : (w.takeOver g).state a = w.state a := Function.update_of_ne hag _ _
      rw [hstate]
      exact hw.waiting a ((Function.update_of_ne hag _ _).symm.trans ha)
  | sweep g priority smKey records =>
    cases hstep
    have hstate := hw.waiting a ha
    show Function.update w.state g _ a = .standby ∨ Function.update w.state g _ a = .master
    by_cases hag : a = g
    · subst hag
      rw [Function.update_self]
      rcases hstate with h | h
      · exact topologyTransition_standby h
      · exact .inr (topologyTransition_master h)
    · rwa [Function.update_of_ne hag]
  | transition g newState =>
    cases hstep
    have hag : a ≠ g := fun heq => he.2 (heq ▸ .inr ha)
    have hstate := hw.waiting a ha
    show Function.update w.state g _ a = .standby ∨ Function.update w.state g _ a = .master
    rwa [Function.update_of_ne hag]
  | control mad =>
    cases hstep
    exact hw.waiting a ha

theorem Upward.step (hw : w.Upward prio) (he : w.Steady prio e)
    (hstep : w.step e = .ok (w', ())) : w'.Upward prio := by
  have hkeep := fun b (hb : w.Covered prio b) => hw.step_covered he hstep hb
  have hadd : ∀ new, w'.sent = new ++ w.sent →
      (∀ m ∈ new, m.amod = .handover → smRank (prio m.src) m.src < smRank (prio m.dst) m.dst) →
      (∀ m ∈ new, m.amod = .acknowledge →
        smRank (prio m.dst) m.dst < smRank (prio m.src) m.src ∧ w'.Covered prio m.src) →
      w'.Upward prio := by
    intro new hsent hover hack
    refine ⟨?_, ?_, hw.step_waiting he hstep⟩ <;> intro m hm hamod <;> rw [hsent] at hm <;>
      rcases List.mem_append.1 hm with hm | hm
    · exact hover m hm hamod
    · exact hw.handover m hm hamod
    · exact hack m hm hamod
    · exact (hw.ack m hm hamod).imp_right (hkeep _)
  cases e with
  | deliver mad =>
    cases hstep
    refine hadd (stateEventMad (w.state mad.dst) mad).2.toList rfl ?_ ?_
    · intro ack hin hamod
      rw [(stateEventMad_ack_state (Option.mem_toList.1 hin)).1] at hamod
      cases hamod
    · intro ack hin hamod
      have hack := Option.mem_toList.1 hin
      obtain ⟨hamod', -, hsrc, hdst⟩ := stateEventMad_ack hack
      rw [hsrc, hdst]
      refine ⟨hw.handover mad he.1.1 hamod', mad.dst, .inr ?_, le_rfl⟩
      exact (deliver_waiting _).mpr (.inr ⟨rfl, Option.isSome_iff_exists.mpr ⟨ack, hack⟩⟩)
  | sweep g priority smKey records =>
    cases hstep
    obtain ⟨hprio, hrecords⟩ := he.2
    refine hadd _ rfl ?_ ?_ <;> intro m hm hamod <;>
      obtain ⟨dst, hdst, rfl⟩ := Option.map_eq_some_iff.1 (Option.mem_toList.1 hm)
    · obtain ⟨t, ht, hguid, hout⟩ := topologyTransition_handover hdst
      subst hguid
      rw [SmRecord.rank, SmRecord.rank, hrecords t ht, hprio] at hout
      exact hout
    · cases hamod
  | takeOver g | transition g newState =>
    cases hstep
    exact hadd [] rfl (fun m hm => nomatch hm) (fun m hm => nomatch hm)
  | control mad =>
    cases hstep
    refine hadd [mad] rfl ?_ ?_ <;> intro m hm hamod <;>
      rw [List.mem_singleton.1 hm] at hamod
    · exact absurd hamod he.1.1
    · exact absurd hamod he.1.2

/-- From when an SM is master, it or one that outranks it is master ever after, or has
acknowledged a HANDOVER and is master when the wait for the response ends, whatever the order,
delay and duplication of the packets. -/
theorem masters_not_lost {state : Nat → SmState}
    (h : Reach step (Steady prio) (init state) w) (h' : Reach step (Steady prio) w w') {b : Nat}
    (hb : w.state b = .master) :
    ∃ a, smRank (prio b) b ≤ smRank (prio a) a ∧
      (w'.state a = .master ∨ w'.waiting a = true ∧ (w'.takeOver a).state a = .master) := by
  have hw : w.Upward prio := h.invariant (Upward prio)
    ⟨fun _ hm => absurd hm List.not_mem_nil, fun _ hm => absurd hm List.not_mem_nil,
      fun _ hwaiting => absurd hwaiting Bool.false_ne_true⟩
    fun _ _ _ _ hw he hstep => hw.step he hstep
  have hw' : w'.Upward prio ∧ w'.Covered prio b :=
    h'.invariant (fun v => v.Upward prio ∧ v.Covered prio b) ⟨hw, b, .inl hb, le_rfl⟩
      fun _ _ _ _ hv he hstep => ⟨hv.1.step he hstep, hv.1.step_covered he hstep hv.2⟩
  obtain ⟨hup, a, ha, hab⟩ := hw'
  exact ⟨a, hab, ha.imp_right fun hwaiting => ⟨hwaiting, hup.takeOver_state (.inr hwaiting)⟩⟩

/-- Manager 1 hands over to manager 2, and is not master any more before manager 2 is. -/
theorem masters_not_lost_two : ∃ a, smRank (Contest.twoFirst 1) 1 ≤ smRank (Contest.twoFirst a) a ∧
    (noneIsMaster.state a = .master ∨
      noneIsMaster.waiting a = true ∧ (noneIsMaster.takeOver a).state a = .master) := by
  have hover : Reach step (Steady Contest.twoFirst) (init fun _ => .discovering) oneHandsOver :=
    .next (i := .sweep 1 0 0 [⟨1, .master, 0, 0, true⟩, ⟨2, .standby, 5, 0, true⟩])
      (.next (i := .sweep 2 5 0 [⟨2, .discovering, 5, 0, true⟩, ⟨1, .master, 0, 0, true⟩])
        (.next (i := .sweep 1 0 0 []) .start ⟨trivial, rfl, by decide⟩ rfl)
        ⟨trivial, rfl, by decide⟩ rfl)
      ⟨trivial, rfl, by decide⟩ rfl
  have hsent : handoverMad 1 2 ∈ oneHandsOver.sent := by decide +kernel
  have hack : ackMad 2 1 ∈ (oneHandsOver.deliver (handoverMad 1 2)).sent := by decide +kernel
  have htaken : Reach step (Steady Contest.twoFirst) oneHandsOver noneIsMaster :=
    .next (i := .deliver (ackMad 2 1))
      (.next (i := .deliver (handoverMad 1 2)) .start ⟨⟨hsent, rfl⟩, trivial⟩ rfl)
      ⟨⟨hack, by decide +kernel⟩, trivial⟩ rfl
  exact masters_not_lost hover htaken (by decide)

end SmWorld

end OpaFm.Election
