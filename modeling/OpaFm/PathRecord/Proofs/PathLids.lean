import OpaFm.PathRecord.Proofs.FixedLid

/-!
# The pairs of any query

A query can name a LID that is not one of its port, when it also names the port by its GID.  The
iterator uses only the bits of the LID that the mask of the port leaves, so it goes through the
same LIDs as for the LID of the port with these bits.
-/

namespace OpaFm.PathRecord

open OpaFm.Lib

variable {p q src dst : EndPort} {mode : PathMode} {o : Nat}

/-! ## The fixed side -/

structure SameRun (a b : LidIterator) : Prop where
  dstStart : a.dstStart = b.dstStart
  dstEndp1 : a.dstEndp1 = b.dstEndp1
  srcLmcMask : a.srcLmcMask = b.srcLmcMask
  dstLmcMask : a.dstLmcMask = b.dstLmcMask
  dlid : a.dlid = b.dlid
  phase : a.phase = b.phase
  endPhase : a.endPhase = b.endPhase
  bits : a.slid &&& a.srcLmcMask = b.slid &&& b.srcLmcMask
  stride : wrap16 (a.srcEndp1 + 65536 - a.srcStart) = wrap16 (b.srcEndp1 + 65536 - b.srcStart)

theorem rel_ite {α β : Type*} {R : α → β → Prop} {c c' : Prop} [Decidable c] [Decidable c']
    {x y : α} {x' y' : β} (hc : c ↔ c') (hx : R x x') (hy : R y y') :
    R (if c then x else y) (if c' then x' else y') := by
  by_cases h : c
  · rw [if_pos h, if_pos (hc.mp h)]
    exact hx
  · rw [if_neg h, if_neg (mt hc.mpr h)]
    exact hy

namespace SameRun

variable {a b : LidIterator}

theorem apart (h : SameRun a b) : a.apart = b.apart := by
  unfold LidIterator.apart
  rw [h.bits, h.dlid, h.srcLmcMask, h.dstLmcMask]

theorem incDlid (h : SameRun a b) : SameRun a.incDlid b.incDlid :=
  { h with dlid := congrArg (fun n => wrap16 (n + 1)) h.dlid }

theorem nextPhase1 (h : SameRun a b) : SameRun a.nextPhase1 b.nextPhase1 :=
  { h with phase := congrArg (· + 1) h.phase, dlid := h.dstStart }

theorem dlid_lt_iff (h : SameRun a b) : a.dlid < a.dstEndp1 ↔ b.dlid < b.dstEndp1 := by
  rw [h.dlid, h.dstEndp1]

theorem phase_eq_iff (h : SameRun a b) (n : Nat) : a.phase = n ↔ b.phase = n := by rw [h.phase]

def After (r t : LidIterator × Bool) : Prop := SameRun r.1 t.1 ∧ r.2 = t.2

theorem After.flag_iff {r t : LidIterator × Bool} (h : After r t) : r.2 = true ↔ t.2 = true := by
  rw [h.2]

theorem after_zero (h : SameRun a b) : After (phaseZero1 a) (phaseZero1 b) := by
  have hstep : SameRun
      { a with dlid := wrap16 (a.dlid + wrap16 (a.srcEndp1 + 65536 - a.srcStart)) }
      { b with dlid := wrap16 (b.dlid + wrap16 (b.srcEndp1 + 65536 - b.srcStart)) } :=
    { h with dlid := by rw [h.dlid, h.stride] }
  have hlid : wrap16 (a.dstStart + 65535) = wrap16 (b.dstStart + 65535) := by rw [h.dstStart]
  have hstop : SameRun { a with phase := a.phase + 1, dlid := wrap16 (a.dstStart + 65535) }
      { b with phase := b.phase + 1, dlid := wrap16 (b.dstStart + 65535) } :=
    ⟨h.dstStart, h.dstEndp1, h.srcLmcMask, h.dstLmcMask, hlid, congrArg (· + 1) h.phase,
      h.endPhase, h.bits, h.stride⟩
  unfold phaseZero1
  exact rel_ite (R := After) hstep.dlid_lt_iff ⟨hstep, rfl⟩ ⟨hstop, rfl⟩

theorem after_one (h : SameRun a b) (fuel : Nat) :
    Option.Rel After (phaseOne1 fuel a) (phaseOne1 fuel b) := by
  induction fuel generalizing a b with
  | zero => exact .none
  | succ fuel ih =>
    have hinc := h.incDlid
    have hend : a.incDlid.dlid ≥ a.incDlid.dstEndp1 ↔ b.incDlid.dlid ≥ b.incDlid.dstEndp1 := by
      rw [hinc.dlid, hinc.dstEndp1]
    have hapart : a.incDlid.apart = true ↔ b.incDlid.apart = true := by rw [hinc.apart]
    apply rel_ite hend
    · exact .some ⟨hinc.nextPhase1, rfl⟩
    · apply rel_ite hapart
      · exact .some ⟨hinc, rfl⟩
      · exact ih hinc

theorem after_four (h : SameRun a b) : After (phaseFour1 a) (phaseFour1 b) := by
  have hinc := h.incDlid
  apply rel_ite hinc.dlid_lt_iff
  · exact ⟨hinc, rfl⟩
  · exact ⟨hinc.nextPhase1, rfl⟩

theorem after_last {r t : LidIterator × Bool} (h : After r t) :
    After (lastPhases1 r) (lastPhases1 t) := by
  apply rel_ite h.flag_iff h
  have hfour : After (if r.1.phase = 4 then phaseFour1 r.1 else r)
      (if t.1.phase = 4 then phaseFour1 t.1 else t) :=
    rel_ite (h.1.phase_eq_iff 4) h.1.after_four h
  apply rel_ite hfour.flag_iff hfour
  apply rel_ite (hfour.1.phase_eq_iff 6) _ hfour
  exact ⟨hfour.1.nextPhase1, rfl⟩

theorem after_rest {r t : LidIterator × Bool} (h : After r t) :
    Option.Rel After
      ((if r.1.phase = 1 then phaseOne1 phaseOneFuel r.1 else some (r.1, false)).map lastPhases1)
      ((if t.1.phase = 1 then phaseOne1 phaseOneFuel t.1 else some (t.1, false)).map
        lastPhases1) := by
  have hnone : Option.Rel After (some (r.1, false)) (some (t.1, false)) := .some ⟨h.1, rfl⟩
  have hone := rel_ite (h.1.phase_eq_iff 1) (h.1.after_one phaseOneFuel) hnone
  revert hone
  generalize (if r.1.phase = 1 then phaseOne1 phaseOneFuel r.1 else some (r.1, false)) = x
  generalize (if t.1.phase = 1 then phaseOne1 phaseOneFuel t.1 else some (t.1, false)) = y
  intro hone
  cases hone with
  | none => exact .none
  | some hxy => exact .some (after_last hxy)

theorem after_phases (h : SameRun a b) :
    Option.Rel After (lidIteratorPhases1 a) (lidIteratorPhases1 b) := by
  have hzero : After (if a.phase = 0 then phaseZero1 a else (a, false))
      (if b.phase = 0 then phaseZero1 b else (b, false)) :=
    rel_ite (h.phase_eq_iff 0) h.after_zero ⟨h, rfl⟩
  exact rel_ite hzero.flag_iff (.some hzero) (after_rest hzero)

theorem next1 (h : SameRun a b) (lid : Nat) :
    Option.Rel (fun s t => SameRun s.1 t.1 ∧ s.2 = t.2) (lidIteratorNext1 (a, lid))
      (lidIteratorNext1 (b, lid)) := by
  have hphases := h.after_phases
  unfold lidIteratorNext1
  revert hphases
  generalize lidIteratorPhases1 a = x
  generalize lidIteratorPhases1 b = y
  intro hphases
  cases hphases with
  | none => exact .none
  | some hxy =>
    apply Option.Rel.some
    apply And.intro hxy.1
    unfold showLid
    rw [hxy.2, hxy.1.dstStart, hxy.1.dstLmcMask, hxy.1.dlid]

theorem collectLids_eq (h : SameRun a b) (fuel lid : Nat) :
    collectLids fuel (a, lid) = collectLids fuel (b, lid) := by
  apply collect_congr (R := fun s t => SameRun s.1 t.1 ∧ s.2 = t.2)
  · intro s t hst
    unfold lidIteratorDone1
    rw [hst.1.dlid, hst.1.dstEndp1, hst.1.phase, hst.1.endPhase]
  · intro s t hst
    exact hst.2
  · rintro ⟨c, lid⟩ ⟨d, lid'⟩ ⟨hcd, rfl⟩
    exact hcd.next1 lid
  · exact ⟨h, rfl⟩

end SameRun

/-! ## Any LID on the fixed side -/

theorem and_lmcMask_eq_mod (p : EndPort) (n : Nat) : n &&& lmcMask p.lmc = n % p.count := by
  rw [lmcMask_eq p.lmc_le, Nat.and_two_pow_sub_one_eq_mod]
  rfl

theorem stride_one {n : Nat} (h : n < 65536) : wrap16 (wrap16 (n + 1) + 65536 - n) = 1 := by
  unfold wrap16
  omega

theorem sameRun_init1 (mode : PathMode) (q : EndPort) {n n' : Nat} (hn : n < 65536) (hn' : n' < 65536)
    (hmod : n % p.count = n' % p.count) :
    SameRun (lidIteratorInit1 p n n 1 q q.lid q.count mode).1
        (lidIteratorInit1 p n' n' 1 q q.lid q.count mode).1 ∧
      (lidIteratorInit1 p n n 1 q q.lid q.count mode).2 =
        (lidIteratorInit1 p n' n' 1 q q.lid q.count mode).2 := by
  have hbits : n &&& lmcMask p.lmc = n' &&& lmcMask p.lmc := by
    rw [and_lmcMask_eq_mod, and_lmcMask_eq_mod, hmod]
  have hstride := (stride_one hn).trans (stride_one hn').symm
  have hlid : (lidIteratorInit1 p n n 1 q q.lid q.count mode).2 =
      (lidIteratorInit1 p n' n' 1 q q.lid q.count mode).2 := by
    simp only [lidIteratorInit1, hbits]
  exact ⟨⟨rfl, rfl, rfl, rfl, hlid, rfl, rfl, hbits, hstride⟩, hlid⟩

theorem yields_minimal1 (ho : o < p.count) :
    YieldsLids (lidIteratorInit1 p (p.lid + o) (p.lid + o) 1 q q.lid q.count .minimal)
      (fixedLids .minimal p q o) := by
  rw [lidIteratorInit1_eq ho]
  have hnext : lidIteratorNext1 (lidAt p q .minimal o 6 (firstPartner q o)) =
      some ((iterAt1 p q .minimal o 6 (firstPartner q o)).nextPhase1,
        q.lid + firstPartner q o) := rfl
  apply Yields.cons
  · exact not_done1_of_lt (firstPartner_lt q o) (Nat.le_refl 6)
  · exact hnext
  · exact Yields.of_done
      (done1_of_phase .minimal 0 (show PathMode.minimal.phases.2 < 6 + 1 by decide))

theorem collectLids_fixed (p q : EndPort) (mode : PathMode) {n : Nat} (hn : n < 65536) :
    ∃ fuel, collectLids fuel (lidIteratorInit1 p n n 1 q q.lid q.count mode) =
      some (fixedLids mode p q (n % p.count)) := by
  have ho : n % p.count < p.count := Nat.mod_lt n p.count_pos
  have hyields : YieldsLids
      (lidIteratorInit1 p (p.lid + n % p.count) (p.lid + n % p.count) 1 q q.lid q.count mode)
      (fixedLids mode p q (n % p.count)) := by
    by_cases hmode : mode = .minimal
    · subst hmode
      exact yields_minimal1 ho
    · exact yields_fixedLids hmode ho
  obtain ⟨fuel, hfuel⟩ := hyields
  have hle := p.lid_add_count_le
  have hmod : n % p.count = (p.lid + n % p.count) % p.count := by
    rw [p.lid_add_mod, Nat.mod_mod]
  obtain ⟨hsame, hlid⟩ := sameRun_init1 mode q hn
    (show p.lid + n % p.count < 65536 by omega) hmod
  apply Exists.intro fuel
  rw [← hfuel]
  have heq := hsame.collectLids_eq fuel (lidIteratorInit1 p n n 1 q q.lid q.count mode).2
  rw [Prod.mk.eta, hlid, Prod.mk.eta] at heq
  exact heq

/-! ## All queries -/

def pathPairs (mode : PathMode) (src : EndPort) (slid : Nat) (dst : EndPort) (dlid : Nat) :
    List (Nat × Nat) :=
  if slid = permissiveLid ∧ dlid = permissiveLid then lidPairs mode src dst
  else if slid = permissiveLid then
    (fixedLids mode dst src (dlid % dst.count)).map fun lid => (lid, dlid)
  else if dlid = permissiveLid then
    (fixedLids mode src dst (slid % src.count)).map fun lid => (slid, lid)
  else [(slid, dlid)]

theorem selectLids_fixed {p : EndPort} {lid : Nat} (h : lid ≠ permissiveLid) :
    selectLids p lid = ([lid], 1) := by
  rw [selectLids, if_neg h]

theorem pathLids_ends (mode : PathMode) (src dst : EndPort) {slid dlid : Nat}
    (hslid : slid < 65536) (hdlid : dlid < 65536) :
    ∃ fuel, pathLids fuel mode src slid dst dlid = some (pathPairs mode src slid dst dlid) := by
  have hs := Prod.mk.inj (selectLids_permissive src)
  have hd := Prod.mk.inj (selectLids_permissive dst)
  by_cases hsp : slid = permissiveLid
  · by_cases hdp : dlid = permissiveLid
    · subst hsp hdp
      exact pathLids_permissive src dst mode
    · obtain ⟨fuel, hfuel⟩ := collectLids_fixed dst src mode hdlid
      apply Exists.intro fuel
      subst hsp
      simp only [pathLids, pathPairs, smSelectPathLids, hdp, and_false, if_false, if_true,
        selectLids_fixed hdp, hs.1, hs.2, List.headD_cons]
      exact Option.map_eq_some_iff.mpr ⟨_, hfuel, rfl⟩
  · by_cases hdp : dlid = permissiveLid
    · obtain ⟨fuel, hfuel⟩ := collectLids_fixed src dst mode hslid
      apply Exists.intro fuel
      subst hdp
      simp only [pathLids, pathPairs, smSelectPathLids, hsp, false_and, if_false, if_true,
        selectLids_fixed hsp, hd.1, hd.2, List.headD_cons]
      exact Option.map_eq_some_iff.mpr ⟨_, hfuel, rfl⟩
    · apply Exists.intro 0
      simp only [pathLids, pathPairs, hsp, hdp, and_self, if_false]

theorem pathLids_mono {fuel fuel' : Nat} (hle : fuel ≤ fuel') {slid dlid : Nat}
    {l : List (Nat × Nat)} (h : pathLids fuel mode src slid dst dlid = some l) :
    pathLids fuel' mode src slid dst dlid = some l := by
  unfold pathLids at h ⊢
  dsimp only at h ⊢
  split_ifs at h ⊢
  · exact collect_mono hle h
  · obtain ⟨lids, hlids, heq⟩ := Option.map_eq_some_iff.mp h
    exact Option.map_eq_some_iff.mpr ⟨lids, collect_mono hle hlids, heq⟩
  · obtain ⟨lids, hlids, heq⟩ := Option.map_eq_some_iff.mp h
    exact Option.map_eq_some_iff.mpr ⟨lids, collect_mono hle hlids, heq⟩
  · exact h

theorem pathLids_eq {fuel : Nat} {slid dlid : Nat} (hslid : slid < 65536) (hdlid : dlid < 65536)
    {l : List (Nat × Nat)} (h : pathLids fuel mode src slid dst dlid = some l) :
    l = pathPairs mode src slid dst dlid := by
  obtain ⟨fuel', hfuel'⟩ := pathLids_ends mode src dst hslid hdlid
  have hl := pathLids_mono (Nat.le_max_left fuel fuel') h
  have hl' := pathLids_mono (Nat.le_max_right fuel fuel') hfuel'
  rw [hl, Option.some.injEq] at hl'
  exact hl'

/-! ## Repeated pairs -/

theorem fixedLids_orderall_nodup_iff (ho : o < p.count) :
    (fixedLids .orderall p q o).Nodup ↔ StrideHarmless p q o := by
  rw [fixedLids, List.nodup_append]
  constructor
  · rintro ⟨-, -, hdisjoint⟩
    by_contra hnot
    obtain ⟨hlt, hapart⟩ := apart_of_not_harmless hnot
    have hfrom : q.lid + (firstPartner q o + 1) ∈ lidsFromPartner q o :=
      mem_lidsFromPartner.mpr ⟨firstPartner q o + 1, hlt, Nat.le_succ _, rfl⟩
    have hin : q.lid + (firstPartner q o + 1) ∈ lidsApart p q o :=
      mem_lidsApart.mpr ⟨firstPartner q o + 1, hlt, hapart, rfl⟩
    exact hdisjoint _ hfrom _ hin rfl
  · intro h
    refine ⟨nodup_lidsFromPartner, nodup_lidsApart, ?_⟩
    intro lid hfrom lid' hapart heq
    obtain ⟨j, hj, hle, rfl⟩ := mem_lidsFromPartner.mp hfrom
    obtain ⟨j', -, hne, rfl⟩ := mem_lidsApart.mp hapart
    rw [← Nat.add_left_cancel heq] at hne
    exact hne ((agree_of_harmless h ho hj).mp hle)

theorem fixedLids_nodup_iff (ho : o < p.count) :
    (fixedLids mode p q o).Nodup ↔ (mode = .orderall → StrideHarmless p q o) := by
  cases mode with
  | orderall => simpa using fixedLids_orderall_nodup_iff ho
  | pairwise => simpa [fixedLids] using nodup_lidsFromPartner
  | srcdstall => simpa [fixedLids] using List.Nodup.map (add_injective q) List.nodup_range
  | minimal => simp [fixedLids]

/-- No step of phase 0 goes past partners in a query that has a phase 1. -/
def PairsHarmless (mode : PathMode) (src : EndPort) (slid : Nat) (dst : EndPort) (dlid : Nat) :
    Prop :=
  mode = .orderall →
    (slid = permissiveLid → dlid ≠ permissiveLid → StrideHarmless dst src (dlid % dst.count)) ∧
    (slid ≠ permissiveLid → dlid = permissiveLid → StrideHarmless src dst (slid % src.count))

theorem pathPairs_nodup_iff {slid dlid : Nat} :
    (pathPairs mode src slid dst dlid).Nodup ↔ PairsHarmless mode src slid dst dlid := by
  unfold pathPairs PairsHarmless
  split_ifs with hboth hs hd
  · simpa [hboth.1, hboth.2] using nodup_lidPairs mode
  · have hd : dlid ≠ permissiveLid := fun hd => hboth ⟨hs, hd⟩
    rw [List.nodup_map_iff fun _ _ h => (Prod.mk.inj h).1,
      fixedLids_nodup_iff (Nat.mod_lt dlid dst.count_pos)]
    simp [hs, hd]
  · rw [List.nodup_map_iff fun _ _ h => (Prod.mk.inj h).2,
      fixedLids_nodup_iff (Nat.mod_lt slid src.count_pos)]
    simp [hs, hd]
  · simp [hs, hd]

theorem fixedLids_ne_nil (mode : PathMode) (p q : EndPort) (o : Nat) :
    fixedLids mode p q o ≠ [] := by
  have hlt := firstPartner_lt q o
  have hpos := q.count_pos
  have hfrom : lidsFromPartner q o ≠ [] := by
    simp only [lidsFromPartner, ne_eq, List.map_eq_nil_iff, List.range'_eq_nil_iff]
    omega
  cases mode with
  | pairwise => exact hfrom
  | orderall => simp [fixedLids, hfrom]
  | srcdstall => simp [fixedLids, Nat.ne_of_gt hpos]
  | minimal => simp [fixedLids]

theorem lidPairs_ne_nil (mode : PathMode) (src dst : EndPort) : lidPairs mode src dst ≠ [] := by
  have hmore := more_pos src dst
  have hgrid := grid_pos src dst
  have htogether : pairsTogether src dst ≠ [] := by
    simp only [pairsTogether, ne_eq, List.map_eq_nil_iff, List.range_eq_nil]
    omega
  cases mode with
  | pairwise => exact htogether
  | orderall => simp [lidPairs, htogether]
  | srcdstall => simpa [lidPairs, pairsOfGrid] using Nat.ne_of_gt hgrid
  | minimal => simp [lidPairs, fewer_eq]

theorem pathPairs_ne_nil (mode : PathMode) (src dst : EndPort) (slid dlid : Nat) :
    pathPairs mode src slid dst dlid ≠ [] := by
  unfold pathPairs
  split_ifs
  · exact lidPairs_ne_nil mode src dst
  · simpa using fixedLids_ne_nil mode dst src _
  · simpa using fixedLids_ne_nil mode src dst _
  · exact List.cons_ne_nil _ _

end OpaFm.PathRecord
