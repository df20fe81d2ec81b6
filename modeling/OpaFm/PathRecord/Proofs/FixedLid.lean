import OpaFm.PathRecord.Proofs.LidIterator

/-!
# Queries that fix one LID

With one side fixed `sm_select_path_lids` gives a range of one LID for it, by which phase 0 of the
iterator steps.  So the iterator shows all LIDs from the first partner on, and these are the
partners of the fixed LID only if its port has one LID or the first partner is the last LID.
-/

namespace OpaFm.PathRecord

open OpaFm.Lib

variable {p q : EndPort} {mode : PathMode} {o : Nat}

def iterAt1 (p q : EndPort) (mode : PathMode) (o phase j : Nat) : LidIterator :=
  { srcStart := p.lid + o
    srcEndp1 := p.lid + o + 1
    srcLmcMask := lmcMask p.lmc
    dstStart := q.lid
    dstEndp1 := q.lid + q.count
    dstLmcMask := lmcMask q.lmc
    slid := p.lid + o
    dlid := q.lid + j
    phase := phase
    endPhase := mode.phases.2 }

def firstPartner (q : EndPort) (o : Nat) : Nat := o % q.count

def startOffset (q : EndPort) (mode : PathMode) (o : Nat) : Nat :=
  match mode with
  | .srcdstall => 0
  | _ => firstPartner q o

theorem base_or_mod (q : EndPort) (i : Nat) : q.lid ||| i % q.count = q.lid + i % q.count := by
  obtain ⟨c, hc⟩ := q.aligned
  rw [hc]
  exact (Nat.two_pow_add_eq_or_of_lt (Nat.mod_lt i q.count_pos) c).symm

theorem lidIteratorInit1_eq (ho : o < p.count) :
    lidIteratorInit1 p (p.lid + o) (p.lid + o) 1 q q.lid q.count mode =
      (iterAt1 p q mode o mode.phases.1 (startOffset q mode o), q.lid + startOffset q mode o) := by
  have hp := p.lid_add_count_le
  have hq := q.lid_add_count_le
  have hpartner : q.lid ||| ((p.lid + o) &&& lmcMask p.lmc &&& lmcMask q.lmc) =
      q.lid + firstPartner q o := by
    rw [p.and_lmcMask, Nat.mod_eq_of_lt ho, lmcMask_eq q.lmc_le, Nat.and_two_pow_sub_one_eq_mod]
    exact base_or_mod q o
  have hwp : wrap16 (p.lid + o + 1) = p.lid + o + 1 := wrap16_of_lt (by omega)
  have hwq : wrap16 (q.lid + q.count) = q.lid + q.count := wrap16_of_lt (by omega)
  cases mode <;>
    simp only [lidIteratorInit1, PathMode.phases, iterAt1, startOffset, hpartner, hwp, hwq,
      Nat.add_zero]

theorem apart_iterAt1 (phase j : Nat) :
    (iterAt1 p q mode o phase j).apart = apartAt p q o j :=
  apart_iterAt p q mode phase o j

theorem lidIteratorDone1_iterAt1 (phase j : Nat) :
    lidIteratorDone1 (iterAt1 p q mode o phase j) =
      (q.count ≤ j || mode.phases.2 < phase) := by
  simp [lidIteratorDone1, iterAt1]

theorem incDlid_iterAt1 {phase j : Nat} (hj : j ≤ 128) :
    (iterAt1 p q mode o phase j).incDlid = iterAt1 p q mode o phase (j + 1) := by
  simp only [LidIterator.incDlid, iterAt1, inc_src hj]

theorem dlid_lt_iterAt1 (phase j : Nat) :
    (iterAt1 p q mode o phase j).dlid < (iterAt1 p q mode o phase j).dstEndp1 ↔ j < q.count := by
  simp only [iterAt1, Nat.add_lt_add_iff_left]

theorem nextPhase1_iterAt1 (phase j : Nat) :
    (iterAt1 p q mode o phase j).nextPhase1 = iterAt1 p q mode o (phase + 1) 0 := rfl

theorem showLid_found {phase j : Nat} (lid : Nat) (hj : j < q.count) :
    showLid lid (iterAt1 p q mode o phase j, true) =
      (iterAt1 p q mode o phase j, q.lid + j) := by
  simp only [showLid, iterAt1, if_true, q.foldLid_eq, Nat.mod_eq_of_lt hj]

/-! ## The phases -/

def beforeFirst (p q : EndPort) (mode : PathMode) (o : Nat) : LidIterator :=
  { iterAt1 p q mode o 1 0 with dlid := wrap16 (q.lid + 65535) }

theorem incDlid_beforeFirst :
    (beforeFirst p q mode o).incDlid = iterAt1 p q mode o 1 0 := by
  have hq := q.lid_add_count_le
  have hwrap : wrap16 (wrap16 (q.lid + 65535) + 1) = q.lid := by
    unfold wrap16
    omega
  simp only [LidIterator.incDlid, beforeFirst, iterAt1, hwrap, Nat.add_zero]

theorem phaseZero1_iterAt1 {j : Nat} (hj : j ≤ 128) :
    phaseZero1 (iterAt1 p q mode o 0 j) =
      if j + 1 < q.count then (iterAt1 p q mode o 0 (j + 1), true)
      else (beforeFirst p q mode o, false) := by
  have hp := p.lid_add_count_le
  have hstride : wrap16 (p.lid + o + 1 + 65536 - (p.lid + o)) = 1 := by
    unfold wrap16
    omega
  simp only [phaseZero1, iterAt1, hstride, inc_src hj, Nat.add_lt_add_iff_left, beforeFirst]

theorem phaseFour1_iterAt1 {j : Nat} (hj : j ≤ 128) :
    phaseFour1 (iterAt1 p q mode o 4 j) =
      if j + 1 < q.count then (iterAt1 p q mode o 4 (j + 1), true)
      else (iterAt1 p q mode o 5 0, false) := by
  simp only [phaseFour1, incDlid_iterAt1 hj, dlid_lt_iterAt1, nextPhase1_iterAt1]

theorem phaseOne1_of_inc {fuel j : Nat} {it : LidIterator}
    (hinc : it.incDlid = iterAt1 p q mode o 1 j) (hj : j ≤ q.count)
    (hfuel : q.count - j < fuel) :
    phaseOne1 fuel it =
      some (seek (fun j => (iterAt1 p q mode o 1 j, true)) (iterAt1 p q mode o 2 0, false)
        (apartAt p q o) q.count j) := by
  induction fuel generalizing j it with
  | zero => omega
  | succ fuel ih =>
    have hcount := q.count_le
    simp only [phaseOne1, hinc, ge_iff_le, ← Nat.not_lt, dlid_lt_iterAt1, ite_not,
      apart_iterAt1, nextPhase1_iterAt1]
    by_cases hin : j < q.count
    · rw [if_pos hin]
      cases htest : apartAt p q o j with
      | true => rw [if_pos rfl, seek_self hin htest]
      | false =>
        rw [if_neg (by simp), seek_succ hin htest]
        exact ih (incDlid_iterAt1 (by omega)) (by omega) (by omega)
    · rw [if_neg hin, seek_end (by omega)]

/-! ## Steps -/

def lidAt (p q : EndPort) (mode : PathMode) (o phase j : Nat) : LidIterator × Nat :=
  (iterAt1 p q mode o phase j, q.lid + j)

def searchFrom1 (p q : EndPort) (mode : PathMode) (o lid j : Nat) : LidIterator × Nat :=
  seek (lidAt p q mode o 1) (iterAt1 p q mode o 2 0, lid) (apartAt p q o) q.count j

theorem showLid_search (lid j : Nat) :
    showLid lid (lastPhases1 (seek (fun j => (iterAt1 p q mode o 1 j, true))
        (iterAt1 p q mode o 2 0, false) (apartAt p q o) q.count j)) =
      searchFrom1 p q mode o lid j := by
  simp only [seek, searchFrom1]
  cases hfind : (List.range' j (q.count - j)).find? (apartAt p q o) with
  | none => rfl
  | some j' =>
    have hmem := List.mem_range'_1.mp (List.mem_of_find?_eq_some hfind)
    exact showLid_found lid (by omega)

theorem fuel_lt {j : Nat} (q : EndPort) : q.count - j < phaseOneFuel := by
  have hcount := q.count_le
  unfold phaseOneFuel
  omega

theorem next1_zero {j : Nat} (hj : j < q.count) :
    lidIteratorNext1 (lidAt p q mode o 0 j) =
      some (if j + 1 < q.count then lidAt p q mode o 0 (j + 1)
        else searchFrom1 p q mode o (q.lid + j) 0) := by
  have hcount := q.count_le
  have hphase : (iterAt1 p q mode o 0 j).phase = 0 := rfl
  have hone : (beforeFirst p q mode o).phase = 1 := rfl
  simp only [lidIteratorNext1, lidIteratorPhases1, lidAt, hphase, if_true,
    phaseZero1_iterAt1 (show j ≤ 128 by omega)]
  by_cases hmore : j + 1 < q.count
  · simp only [if_pos hmore, if_true, Option.map_some, showLid_found (q.lid + j) hmore]
  · simp only [if_neg hmore, hone, if_true, Bool.false_eq_true, if_false,
      phaseOne1_of_inc incDlid_beforeFirst (Nat.zero_le _) (fuel_lt q), Option.map_some]
    exact congrArg some (showLid_search (q.lid + j) 0)

theorem next1_one {j : Nat} (hj : j < q.count) :
    lidIteratorNext1 (lidAt p q mode o 1 j) =
      some (searchFrom1 p q mode o (q.lid + j) (j + 1)) := by
  have hcount := q.count_le
  have hphase : (iterAt1 p q mode o 1 j).phase = 1 := rfl
  simp only [lidIteratorNext1, lidIteratorPhases1, lidAt, hphase, Nat.one_ne_zero, if_false,
    if_true, Bool.false_eq_true,
    phaseOne1_of_inc (incDlid_iterAt1 (show j ≤ 128 by omega)) hj (fuel_lt q), Option.map_some]
  exact congrArg some (showLid_search (q.lid + j) (j + 1))

theorem next1_four {j : Nat} (hj : j < q.count) :
    lidIteratorNext1 (lidAt p q mode o 4 j) =
      some (if j + 1 < q.count then lidAt p q mode o 4 (j + 1)
        else (iterAt1 p q mode o 5 0, q.lid + j)) := by
  have hcount := q.count_le
  have hphase : (iterAt1 p q mode o 4 j).phase = 4 := rfl
  have hfive : (iterAt1 p q mode o 5 0).phase = 5 := rfl
  have hlast : lastPhases1 (iterAt1 p q mode o 4 j, false) =
      if j + 1 < q.count then (iterAt1 p q mode o 4 (j + 1), true)
      else (iterAt1 p q mode o 5 0, false) := by
    by_cases hmore : j + 1 < q.count
    · simp [lastPhases1, hphase, phaseFour1_iterAt1 (show j ≤ 128 by omega), hmore]
    · simp [lastPhases1, hphase, phaseFour1_iterAt1 (show j ≤ 128 by omega), hmore, hfive]
  have hphases : lidIteratorPhases1 (iterAt1 p q mode o 4 j) =
      some (lastPhases1 (iterAt1 p q mode o 4 j, false)) := by
    simp [lidIteratorPhases1, hphase]
  rw [lidIteratorNext1, lidAt, hphases, hlast]
  split
  case isTrue hmore => exact congrArg some (showLid_found (q.lid + j) hmore)
  case isFalse => rfl

/-! ## The loop -/

def YieldsLids (s : LidIterator × Nat) (l : List Nat) : Prop :=
  Yields (fun s => lidIteratorDone1 s.1) lidIteratorNext1 Prod.snd s l

def lidsFromPartner (q : EndPort) (o : Nat) : List Nat :=
  (List.range' (firstPartner q o) (q.count - firstPartner q o)).map (q.lid + ·)

def lidsApart (p q : EndPort) (o : Nat) : List Nat :=
  ((List.range q.count).filter (apartAt p q o)).map (q.lid + ·)

def fixedLids (mode : PathMode) (p q : EndPort) (o : Nat) : List Nat :=
  match mode with
  | .pairwise => lidsFromPartner q o
  | .orderall => lidsFromPartner q o ++ lidsApart p q o
  | .srcdstall => (List.range q.count).map (q.lid + ·)
  | .minimal => [q.lid + firstPartner q o]

theorem firstPartner_lt (q : EndPort) (o : Nat) : firstPartner q o < q.count :=
  Nat.mod_lt o q.count_pos

theorem not_done1_of_lt {phase j : Nat} (hj : j < q.count) (hphase : phase ≤ mode.phases.2) :
    lidIteratorDone1 (iterAt1 p q mode o phase j) = false := by
  rw [lidIteratorDone1_iterAt1]
  simp only [Bool.or_eq_false_iff, decide_eq_false_iff_not]
  omega

theorem done1_of_phase (mode : PathMode) {phase : Nat} (j : Nat) (hphase : mode.phases.2 < phase) :
    lidIteratorDone1 (iterAt1 p q mode o phase j) = true := by
  rw [lidIteratorDone1_iterAt1]
  simp [hphase]

theorem yields1_phase_zero {l : List Nat}
    (hend : ∀ lid, YieldsLids (searchFrom1 p q mode o lid 0) l) :
    YieldsLids (lidAt p q mode o 0 (firstPartner q o)) (lidsFromPartner q o ++ l) := by
  refine Yields.count (fun j hj => ?_) (fun j hj => next1_zero hj)
    (fun j _ => hend (q.lid + j)) (firstPartner_lt q o)
  exact not_done1_of_lt hj (Nat.zero_le _)

theorem yields1_phase_one (hmode : mode.phases.2 = 1) (lid : Nat) :
    YieldsLids (searchFrom1 p q mode o lid 0) (lidsApart p q o) := by
  have hstop : ∀ lid, YieldsLids (iterAt1 p q mode o 2 0, lid) [] :=
    fun lid => Yields.of_done (done1_of_phase mode 0 (by omega))
  rw [lidsApart, List.range_eq_range', ← List.append_nil (List.map _ _)]
  refine Yields.search (fun j hj => ?_) (fun j hj => next1_one hj)
    (fun j _ => hstop (q.lid + j)) 0 (hstop lid)
  exact not_done1_of_lt hj hmode.ge

theorem yields_fixedLids (hmode : mode ≠ .minimal) (ho : o < p.count) :
    YieldsLids (lidIteratorInit1 p (p.lid + o) (p.lid + o) 1 q q.lid q.count mode)
      (fixedLids mode p q o) := by
  rw [lidIteratorInit1_eq ho]
  cases mode with
  | pairwise =>
    rw [fixedLids, ← List.append_nil (lidsFromPartner q o)]
    apply yields1_phase_zero
    intro lid
    apply Yields.of_done
    rw [searchFrom1, seek]
    split
    · exact done1_of_phase .pairwise _ (by decide)
    · exact done1_of_phase .pairwise _ (by decide)
  | orderall => exact yields1_phase_zero (yields1_phase_one rfl)
  | srcdstall =>
    rw [fixedLids, ← List.append_nil (List.map _ _)]
    refine Yields.count_zero (fun j hj => ?_) (fun j hj => next1_four hj) (fun j _ => ?_)
      q.count_pos
    · exact not_done1_of_lt hj (Nat.le_refl 4)
    · exact Yields.of_done (done1_of_phase .srcdstall 0 (by decide))
  | minimal => exact absurd rfl hmode

/-! ## Partners -/

def Partner (mode : PathMode) (p q : EndPort) (o lid : Nat) : Prop :=
  q.HasLid lid ∧ (mode = .pairwise → Agree p q (p.lid + o, lid))

def StrideHarmless (p q : EndPort) (o : Nat) : Prop :=
  p.lmc = 0 ∨ o % 2 ^ q.lmc = 2 ^ q.lmc - 1

theorem agree_of_harmless (h : StrideHarmless p q o) (ho : o < p.count) {j : Nat}
    (hj : j < q.count) : firstPartner q o ≤ j ↔ o % fewer p q = j % fewer p q := by
  rw [firstPartner]
  rcases h with hzero | hlast
  · have hone : p.count = 1 := by rw [EndPort.count, hzero, Nat.pow_zero]
    have hfew : fewer p q = 1 := by
      rw [fewer, hone]
      exact Nat.min_eq_left q.count_pos
    have ho' : o = 0 := by omega
    simp [hfew, ho', Nat.mod_one]
  · have hlast' : o % q.count = q.count - 1 := hlast
    have hpos := q.count_pos
    have hle : o % q.count ≤ o := Nat.mod_le _ _
    have hfew : fewer p q = q.count := Nat.min_eq_right (by omega)
    rw [hfew, Nat.mod_eq_of_lt hj, hlast']
    omega

theorem apart_of_not_harmless (h : ¬StrideHarmless p q o) :
    firstPartner q o + 1 < q.count ∧
      o % fewer p q ≠ (firstPartner q o + 1) % fewer p q := by
  obtain ⟨hzero, hlast⟩ := not_or.mp h
  have hlast' : firstPartner q o ≠ q.count - 1 := hlast
  have hlt := firstPartner_lt q o
  have htwo : 2 ≤ p.count := by
    calc 2 = 2 ^ 1 := rfl
      _ ≤ 2 ^ p.lmc := Nat.pow_le_pow_right (by decide) (Nat.pos_of_ne_zero hzero)
  have hfew : 2 ≤ fewer p q := Nat.le_min.mpr ⟨htwo, by omega⟩
  refine ⟨by omega, fun heq => ?_⟩
  have hmod : firstPartner q o % fewer p q = o % fewer p q :=
    Nat.mod_mod_of_dvd o (fewer_dvd_dst p q)
  rw [← hmod] at heq
  rcases cell_succ (firstPartner q o) (show 0 < fewer p q by omega) with
    ⟨-, -, hsucc⟩ | ⟨hwrap, -, hsucc⟩
  · omega
  · omega

theorem mem_lidsFromPartner {lid : Nat} :
    lid ∈ lidsFromPartner q o ↔ ∃ j < q.count, firstPartner q o ≤ j ∧ lid = q.lid + j := by
  have hlt := firstPartner_lt q o
  simp only [lidsFromPartner, List.mem_map, List.mem_range'_1]
  constructor
  · rintro ⟨j, hj, rfl⟩
    exact ⟨j, by omega, hj.1, rfl⟩
  · rintro ⟨j, hj, hle, rfl⟩
    exact ⟨j, by omega, rfl⟩

theorem mem_lidsApart {lid : Nat} :
    lid ∈ lidsApart p q o ↔
      ∃ j < q.count, o % fewer p q ≠ j % fewer p q ∧ lid = q.lid + j := by
  simp only [lidsApart, List.mem_map, List.mem_filter, List.mem_range, apartAt,
    decide_eq_true_eq]
  constructor
  · rintro ⟨j, ⟨hj, hne⟩, rfl⟩
    exact ⟨j, hj, hne, rfl⟩
  · rintro ⟨j, hj, hne, rfl⟩
    exact ⟨j, ⟨hj, hne⟩, rfl⟩

theorem add_injective (q : EndPort) : Function.Injective (q.lid + ·) :=
  fun _ _ h => Nat.add_left_cancel h

theorem nodup_lidsFromPartner : (lidsFromPartner q o).Nodup :=
  List.Nodup.map (add_injective q) List.nodup_range'

theorem nodup_lidsApart : (lidsApart p q o).Nodup :=
  List.Nodup.map (add_injective q) (List.nodup_range.filter _)

theorem partner_iff {lid : Nat} :
    Partner mode p q o lid ↔ ∃ j < q.count,
      (mode = .pairwise → o % fewer p q = j % fewer p q) ∧ lid = q.lid + j := by
  rw [Partner, EndPort.hasLid_iff]
  constructor
  · rintro ⟨⟨j, hj, rfl⟩, hagree⟩
    exact ⟨j, hj, fun hmode => (agree_iff o j).mp (hagree hmode), rfl⟩
  · rintro ⟨j, hj, hagree, rfl⟩
    exact ⟨⟨j, hj, rfl⟩, fun hmode => (agree_iff o j).mpr (hagree hmode)⟩

theorem fixedLids_meets_iff (hmode : mode ≠ .minimal) (ho : o < p.count) :
    ((fixedLids mode p q o).Nodup ∧ ∀ lid, lid ∈ fixedLids mode p q o ↔ Partner mode p q o lid) ↔
      mode = .srcdstall ∨ StrideHarmless p q o := by
  cases mode with
  | minimal => exact absurd rfl hmode
  | srcdstall =>
    refine iff_of_true ⟨List.Nodup.map (add_injective q) List.nodup_range, fun lid => ?_⟩
      (.inl rfl)
    rw [partner_iff]
    simp [fixedLids, eq_comm]
  | pairwise =>
    simp only [reduceCtorEq, false_or, fixedLids, partner_iff, forall_const]
    constructor
    · rintro ⟨-, hmem⟩
      by_contra hnot
      obtain ⟨hlt, hapart⟩ := apart_of_not_harmless hnot
      have hin := mem_lidsFromPartner.mpr ⟨firstPartner q o + 1, hlt, Nat.le_succ _, rfl⟩
      obtain ⟨j, -, hagree, heq⟩ := (hmem _).mp hin
      exact hapart (by rwa [Nat.add_left_cancel heq])
    · intro h
      refine ⟨nodup_lidsFromPartner, fun lid => ?_⟩
      rw [mem_lidsFromPartner]
      constructor
      · rintro ⟨j, hj, hle, rfl⟩
        exact ⟨j, hj, (agree_of_harmless h ho hj).mp hle, rfl⟩
      · rintro ⟨j, hj, hagree, rfl⟩
        exact ⟨j, hj, (agree_of_harmless h ho hj).mpr hagree, rfl⟩
  | orderall =>
    simp only [reduceCtorEq, false_or, fixedLids, partner_iff, false_implies, true_and,
      List.mem_append, List.nodup_append]
    constructor
    · rintro ⟨⟨-, -, hdisjoint⟩, -⟩
      by_contra hnot
      obtain ⟨hlt, hapart⟩ := apart_of_not_harmless hnot
      exact hdisjoint _ (mem_lidsFromPartner.mpr ⟨firstPartner q o + 1, hlt, Nat.le_succ _, rfl⟩) _
        (mem_lidsApart.mpr ⟨firstPartner q o + 1, hlt, hapart, rfl⟩) rfl
    · intro h
      refine ⟨⟨nodup_lidsFromPartner, nodup_lidsApart, ?_⟩, fun lid => ?_⟩
      · intro lid hfrom lid' hapart heq
        obtain ⟨j, hj, hle, rfl⟩ := mem_lidsFromPartner.mp hfrom
        obtain ⟨j', -, hne, rfl⟩ := mem_lidsApart.mp hapart
        rw [← Nat.add_left_cancel heq] at hne
        exact hne ((agree_of_harmless h ho hj).mp hle)
      · constructor
        · rintro (hfrom | hapart)
          · obtain ⟨j, hj, -, rfl⟩ := mem_lidsFromPartner.mp hfrom
            exact ⟨j, hj, rfl⟩
          · obtain ⟨j, hj, -, rfl⟩ := mem_lidsApart.mp hapart
            exact ⟨j, hj, rfl⟩
        · rintro ⟨j, hj, rfl⟩
          by_cases hagree : o % fewer p q = j % fewer p q
          · exact .inl (mem_lidsFromPartner.mpr
              ⟨j, hj, (agree_of_harmless h ho hj).mpr hagree, rfl⟩)
          · exact .inr (mem_lidsApart.mpr ⟨j, hj, hagree, rfl⟩)

/-! ## Queries -/

theorem mem_lidPairs_iff {src dst : EndPort} (hmode : mode ≠ .minimal) {p : Nat × Nat} :
    p ∈ lidPairs mode src dst ↔ InRanges src dst p ∧ (mode = .pairwise → Agree src dst p) := by
  cases mode with
  | pairwise => simpa [lidPairs] using mem_pairsTogether
  | orderall => simpa using mem_lidPairs_orderall
  | srcdstall => simpa [lidPairs] using mem_pairsOfGrid_true
  | minimal => exact absurd rfl hmode

theorem agree_swap {src dst : EndPort} {s d : Nat} : Agree dst src (d, s) ↔ Agree src dst (s, d) := by
  rw [Agree, Agree, Nat.min_comm, eq_comm]

def Enumerates (mode : PathMode) (src : EndPort) (slid : Nat) (dst : EndPort) (dlid : Nat)
    (l : List (Nat × Nat)) : Prop :=
  ∃ fuel, pathLids fuel mode src slid dst dlid = some l

theorem hasLid_ne_permissive {p : EndPort} {lid : Nat} (h : p.HasLid lid) :
    lid ≠ permissiveLid := by
  have hle := p.unicast
  have hlt := h.2
  unfold permissiveLid
  omega

theorem selectLids_of_hasLid {p : EndPort} {lid : Nat} (h : p.HasLid lid) :
    selectLids p lid = ([lid], 1) := by
  rw [selectLids, if_neg (hasLid_ne_permissive h)]

theorem enumerates_slid (src dst : EndPort) (hmode : mode ≠ .minimal) (ho : o < src.count) :
    Enumerates mode src (src.lid + o) dst permissiveLid
      ((fixedLids mode src dst o).map fun lid => (src.lid + o, lid)) := by
  obtain ⟨fuel, hfuel⟩ := yields_fixedLids (q := dst) hmode ho
  have hlid : src.HasLid (src.lid + o) := EndPort.hasLid_iff.mpr ⟨o, ho, rfl⟩
  have hd := Prod.mk.inj (selectLids_permissive dst)
  refine ⟨fuel, ?_⟩
  simp only [pathLids, smSelectPathLids, hasLid_ne_permissive hlid, selectLids_of_hasLid hlid,
    false_and, if_false, if_true, hd.1, hd.2, List.headD_cons]
  exact Option.map_eq_some_iff.mpr ⟨_, hfuel, rfl⟩

theorem enumerates_dlid (src dst : EndPort) (hmode : mode ≠ .minimal) (ho : o < dst.count) :
    Enumerates mode src permissiveLid dst (dst.lid + o)
      ((fixedLids mode dst src o).map fun lid => (lid, dst.lid + o)) := by
  obtain ⟨fuel, hfuel⟩ := yields_fixedLids (q := src) hmode ho
  have hlid : dst.HasLid (dst.lid + o) := EndPort.hasLid_iff.mpr ⟨o, ho, rfl⟩
  have hs := Prod.mk.inj (selectLids_permissive src)
  refine ⟨fuel, ?_⟩
  simp only [pathLids, smSelectPathLids, hasLid_ne_permissive hlid, selectLids_of_hasLid hlid,
    and_false, if_false, if_true, hs.1, hs.2, List.headD_cons]
  exact Option.map_eq_some_iff.mpr ⟨_, hfuel, rfl⟩

theorem mem_lidPairs_slid {src dst : EndPort} (hmode : mode ≠ .minimal) (ho : o < src.count)
    {lid : Nat} :
    (src.lid + o, lid) ∈ lidPairs mode src dst ↔ Partner mode src dst o lid := by
  have hlid : src.HasLid (src.lid + o) := EndPort.hasLid_iff.mpr ⟨o, ho, rfl⟩
  rw [mem_lidPairs_iff hmode, InRanges, Partner]
  simp only [hlid, true_and]

theorem mem_lidPairs_dlid {src dst : EndPort} (hmode : mode ≠ .minimal) (ho : o < dst.count)
    {lid : Nat} :
    (lid, dst.lid + o) ∈ lidPairs mode src dst ↔ Partner mode dst src o lid := by
  have hlid : dst.HasLid (dst.lid + o) := EndPort.hasLid_iff.mpr ⟨o, ho, rfl⟩
  rw [mem_lidPairs_iff hmode, InRanges, Partner, agree_swap]
  simp only [hlid, and_true]

/-- The pairs of the query are those of `l` that have the fixed LID, each once. -/
def SamePairs (l fixed : List (Nat × Nat)) (hasFixed : Nat × Nat → Prop) : Prop :=
  fixed.Nodup ∧ ∀ p, p ∈ fixed ↔ p ∈ l ∧ hasFixed p

/-- The mode, or the fixed LID `lid` of `p` when the LIDs of `q` are iterated, make the step of
phase 0 harmless. -/
def FixedMeets (mode : PathMode) (p q : EndPort) (lid : Nat) : Prop :=
  mode = .srcdstall ∨ StrideHarmless p q (lid - p.lid)

theorem samePairs_slid_iff {src dst : EndPort} (hmode : mode ≠ .minimal) (ho : o < src.count) :
    SamePairs (lidPairs mode src dst)
        ((fixedLids mode src dst o).map fun lid => (src.lid + o, lid)) (·.1 = src.lid + o) ↔
      (fixedLids mode src dst o).Nodup ∧
        ∀ lid, lid ∈ fixedLids mode src dst o ↔ Partner mode src dst o lid := by
  have hinj : Function.Injective fun lid : Nat => (src.lid + o, lid) :=
    fun _ _ h => (Prod.mk.inj h).2
  refine and_congr (List.nodup_map_iff hinj) ⟨fun h lid => ?_, fun h p => ?_⟩
  · rw [← mem_lidPairs_slid hmode ho, ← List.mem_map_of_injective hinj]
    simpa using h (src.lid + o, lid)
  · obtain ⟨s, d⟩ := p
    by_cases hs : s = src.lid + o
    · subst hs
      rw [mem_lidPairs_slid hmode ho, ← h d]
      simp
    · simp [hs, Ne.symm hs]

theorem samePairs_dlid_iff {src dst : EndPort} (hmode : mode ≠ .minimal) (ho : o < dst.count) :
    SamePairs (lidPairs mode src dst)
        ((fixedLids mode dst src o).map fun lid => (lid, dst.lid + o)) (·.2 = dst.lid + o) ↔
      (fixedLids mode dst src o).Nodup ∧
        ∀ lid, lid ∈ fixedLids mode dst src o ↔ Partner mode dst src o lid := by
  have hinj : Function.Injective fun lid : Nat => (lid, dst.lid + o) :=
    fun _ _ h => (Prod.mk.inj h).1
  refine and_congr (List.nodup_map_iff hinj) ⟨fun h lid => ?_, fun h p => ?_⟩
  · rw [← mem_lidPairs_dlid hmode ho, ← List.mem_map_of_injective hinj]
    simpa using h (lid, dst.lid + o)
  · obtain ⟨s, d⟩ := p
    by_cases hd : d = dst.lid + o
    · subst hd
      rw [mem_lidPairs_dlid hmode ho, ← h s]
      simp
    · simp [hd, Ne.symm hd]

/-- A query with one LID fixed goes through the pairs of the unrestricted query that have this LID
in just these cases. -/
theorem fixed_lid_agrees_iff (src dst : EndPort) (mode : PathMode) (hmode : mode ≠ .minimal) :
    (∀ slid, src.HasLid slid → ∃ l fixed,
      Enumerates mode src permissiveLid dst permissiveLid l ∧
        Enumerates mode src slid dst permissiveLid fixed ∧
        (SamePairs l fixed (·.1 = slid) ↔ FixedMeets mode src dst slid)) ∧
    ∀ dlid, dst.HasLid dlid → ∃ l fixed,
      Enumerates mode src permissiveLid dst permissiveLid l ∧
        Enumerates mode src permissiveLid dst dlid fixed ∧
        (SamePairs l fixed (·.2 = dlid) ↔ FixedMeets mode dst src dlid) := by
  refine ⟨fun slid hslid => ?_, fun dlid hdlid => ?_⟩
  · obtain ⟨o, ho, rfl⟩ := EndPort.hasLid_iff.mp hslid
    refine ⟨_, _, pathLids_permissive src dst mode, enumerates_slid src dst hmode ho, ?_⟩
    rw [samePairs_slid_iff hmode ho, fixedLids_meets_iff hmode ho, FixedMeets,
      Nat.add_sub_cancel_left]
  · obtain ⟨o, ho, rfl⟩ := EndPort.hasLid_iff.mp hdlid
    refine ⟨_, _, pathLids_permissive src dst mode, enumerates_dlid src dst hmode ho, ?_⟩
    rw [samePairs_dlid_iff hmode ho, fixedLids_meets_iff hmode ho, FixedMeets,
      Nat.add_sub_cancel_left]

def twoLids : EndPort := ⟨8, 1, by decide, by decide, by decide⟩

def fourLids : EndPort := ⟨16, 2, by decide, by decide, by decide⟩

/-- LID 19 pairs with LID 9 only, at which phase 0 starts. -/
theorem fixed_lid_agrees_nineteen : ∃ l fixed,
    Enumerates .pairwise fourLids permissiveLid twoLids permissiveLid l ∧
      Enumerates .pairwise fourLids 19 twoLids permissiveLid fixed ∧
      SamePairs l fixed (·.1 = 19) := by
  obtain ⟨l, fixed, hl, hfixed, hiff⟩ :=
    (fixed_lid_agrees_iff fourLids twoLids .pairwise (by decide)).1 19 (by decide)
  exact ⟨l, fixed, hl, hfixed, hiff.mpr (.inr (.inr rfl))⟩

/-- LID 8 pairs with LIDs 16 and 18, but with LID 8 fixed the loop shows 17 as well. -/
theorem fixed_lid_shows_seventeen :
    Enumerates .pairwise twoLids permissiveLid fourLids permissiveLid
        [(8, 16), (9, 17), (8, 18), (9, 19)] ∧
      Enumerates .pairwise twoLids 8 fourLids permissiveLid
        [(8, 16), (8, 17), (8, 18), (8, 19)] ∧
      ¬SamePairs [(8, 16), (9, 17), (8, 18), (9, 19)] [(8, 16), (8, 17), (8, 18), (8, 19)]
        (·.1 = 8) := by
  refine ⟨⟨5, by decide +kernel⟩, ⟨5, by decide +kernel⟩, fun h => ?_⟩
  have hin := ((h.2 (8, 17)).mp (by decide)).1
  exact absurd hin (by decide)

end OpaFm.PathRecord
