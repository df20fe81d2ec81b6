import OpaFm.PathRecord.LidIterator
import Mathlib.Algebra.Order.Group.Nat
import Mathlib.Data.List.Nodup
import Mathlib.Data.Nat.Bitwise
import Mathlib.Tactic.IntervalCases

/-!
# The pairs of LIDs of two ports

In phase 0 and phase 6 the offsets of both cursors are one number that counts up, and in phases 1
and 4 a number that runs through the rows of a grid.
-/

namespace OpaFm.PathRecord

open OpaFm.Lib

/-! ## Masks -/

theorem lmcMask_eq {lmc : Nat} (h : lmc ≤ 7) : lmcMask lmc = 2 ^ lmc - 1 := by
  interval_cases lmc <;> rfl

theorem wrap16_of_lt {n : Nat} (h : n < 65536) : wrap16 n = n := Nat.mod_eq_of_lt h

namespace EndPort

variable (p : EndPort)

def count : Nat := 2 ^ p.lmc

theorem count_pos : 0 < p.count := Nat.two_pow_pos p.lmc

theorem count_le : p.count ≤ 128 := Nat.pow_le_pow_right (by decide) p.lmc_le

theorem lid_add_count_le : p.lid + p.count ≤ 0xC000 := p.unicast

theorem lid_add_mod (i : Nat) : (p.lid + i) % p.count = i % p.count := by
  obtain ⟨q, hq⟩ := p.aligned
  rw [hq, count, Nat.mul_add_mod]

theorem and_lmcMask (i : Nat) : (p.lid + i) &&& lmcMask p.lmc = i % p.count := by
  rw [lmcMask_eq p.lmc_le, Nat.and_two_pow_sub_one_eq_mod]
  exact p.lid_add_mod i

theorem and_xor_lmcMask : p.lid &&& (0xffff ^^^ lmcMask p.lmc) = p.lid := by
  have hmask := lmcMask_eq p.lmc_le
  have hlt : p.lid < 2 ^ 16 := by
    have := p.unicast
    have := Nat.two_pow_pos p.lmc
    omega
  apply Nat.eq_of_testBit_eq
  intro j
  rw [Nat.testBit_and, Nat.testBit_xor, hmask, show (0xffff : Nat) = 2 ^ 16 - 1 by rfl,
    Nat.testBit_two_pow_sub_one, Nat.testBit_two_pow_sub_one]
  by_cases hj : j < p.lmc
  · obtain ⟨q, hq⟩ := p.aligned
    rw [hq, Nat.testBit_two_pow_mul]
    simp [hj]
  · by_cases h16 : j < 16
    · simp [hj, h16]
    · have hbit : p.lid.testBit j = false :=
        Nat.testBit_lt_two_pow (hlt.trans_le (Nat.pow_le_pow_right (by decide) (by omega)))
      simp [hbit]

theorem foldLid_eq (i : Nat) : foldLid p.lid (lmcMask p.lmc) (p.lid + i) = p.lid + i % p.count := by
  rw [foldLid, and_xor_lmcMask, and_lmcMask]
  obtain ⟨q, hq⟩ := p.aligned
  rw [hq]
  exact (Nat.two_pow_add_eq_or_of_lt (Nat.mod_lt i p.count_pos) q).symm

end EndPort

/-! ## The iterator of two ports -/

variable (src dst : EndPort) (mode : PathMode)

def fewer : Nat := min src.count dst.count

def apartAt (i j : Nat) : Bool := i % fewer src dst ≠ j % fewer src dst

theorem count_dvd_of_le {p q : EndPort} (h : p.count ≤ q.count) : p.count ∣ q.count :=
  Nat.pow_dvd_pow 2 ((Nat.pow_le_pow_iff_right (by decide)).mp h)

theorem mod_count_mod (i : Nat) : i % src.count % dst.count = i % fewer src dst := by
  rcases Nat.le_total src.count dst.count with h | h
  · rw [fewer, Nat.min_eq_left h, Nat.mod_eq_of_lt]
    exact (Nat.mod_lt i src.count_pos).trans_le h
  · rw [fewer, Nat.min_eq_right h, Nat.mod_mod_of_dvd i (count_dvd_of_le h)]

theorem fewer_comm : fewer src dst = fewer dst src := Nat.min_comm _ _

def iterAt (phase i j : Nat) : LidIterator :=
  { srcStart := src.lid
    srcEndp1 := src.lid + src.count
    srcLmcMask := lmcMask src.lmc
    dstStart := dst.lid
    dstEndp1 := dst.lid + dst.count
    dstLmcMask := lmcMask dst.lmc
    slid := src.lid + i
    dlid := dst.lid + j
    phase := phase
    endPhase := mode.phases.2 }

def pairAt (i j : Nat) : Nat × Nat := (src.lid + i % src.count, dst.lid + j % dst.count)

theorem lidIteratorInit_eq :
    lidIteratorInit src src.lid src.count dst dst.lid dst.count mode =
      (iterAt src dst mode mode.phases.1 0 0, pairAt src dst 0 0) := by
  have hsrc := src.lid_add_count_le
  have hdst := dst.lid_add_count_le
  simp only [lidIteratorInit, iterAt, pairAt, Nat.add_zero, Nat.zero_mod]
  rw [wrap16_of_lt (by omega), wrap16_of_lt (by omega)]

theorem apart_iterAt (phase i j : Nat) :
    (iterAt src dst mode phase i j).apart = apartAt src dst i j := by
  have hs : (src.lid + i) &&& lmcMask src.lmc &&& lmcMask dst.lmc = i % fewer src dst := by
    rw [src.and_lmcMask, lmcMask_eq dst.lmc_le, Nat.and_two_pow_sub_one_eq_mod]
    exact mod_count_mod src dst i
  have hd : (dst.lid + j) &&& lmcMask dst.lmc &&& lmcMask src.lmc = j % fewer src dst := by
    rw [dst.and_lmcMask, lmcMask_eq src.lmc_le, Nat.and_two_pow_sub_one_eq_mod, fewer_comm]
    exact mod_count_mod dst src j
  simp only [LidIterator.apart, iterAt, hs, hd, apartAt]

theorem lidIteratorDone_iterAt (phase i j : Nat) :
    lidIteratorDone (iterAt src dst mode phase i j) =
      ((src.count ≤ i && dst.count ≤ j) || mode.phases.2 < phase) := by
  simp [lidIteratorDone, iterAt]

theorem foldLid_iterAt (phase i j : Nat) :
    (foldLid (iterAt src dst mode phase i j).srcStart (iterAt src dst mode phase i j).srcLmcMask
        (iterAt src dst mode phase i j).slid,
      foldLid (iterAt src dst mode phase i j).dstStart (iterAt src dst mode phase i j).dstLmcMask
        (iterAt src dst mode phase i j).dlid) = pairAt src dst i j := by
  simp only [iterAt, src.foldLid_eq, dst.foldLid_eq, pairAt]

/-! ## The phases -/

section

variable {src dst mode}

theorem inc_src {i : Nat} (hi : i ≤ 128) : wrap16 (src.lid + i + 1) = src.lid + (i + 1) := by
  have := src.lid_add_count_le
  exact wrap16_of_lt (by omega)

theorem incSlid_iterAt {phase i j : Nat} (hi : i ≤ 128) :
    (iterAt src dst mode phase i j).incSlid = iterAt src dst mode phase (i + 1) j := by
  simp only [LidIterator.incSlid, iterAt, inc_src hi]

theorem incDlid_iterAt {phase i j : Nat} (hj : j ≤ 128) :
    (iterAt src dst mode phase i j).incDlid = iterAt src dst mode phase i (j + 1) := by
  simp only [LidIterator.incDlid, iterAt, inc_src hj]

theorem resetDlid_iterAt (phase i j : Nat) :
    (iterAt src dst mode phase i j).resetDlid = iterAt src dst mode phase i 0 := rfl

theorem nextPhase_iterAt (phase i j : Nat) :
    (iterAt src dst mode phase i j).nextPhase = iterAt src dst mode (phase + 1) 0 0 := rfl

theorem slid_lt_iterAt (phase i j : Nat) :
    (iterAt src dst mode phase i j).slid < (iterAt src dst mode phase i j).srcEndp1 ↔
      i < src.count := by
  simp only [iterAt, Nat.add_lt_add_iff_left]

theorem dlid_lt_iterAt (phase i j : Nat) :
    (iterAt src dst mode phase i j).dlid < (iterAt src dst mode phase i j).dstEndp1 ↔
      j < dst.count := by
  simp only [iterAt, Nat.add_lt_add_iff_left]

theorem phaseZero_iterAt {i j : Nat} (hi : i ≤ 128) (hj : j ≤ 128) :
    phaseZero (iterAt src dst mode 0 i j) =
      if i + 1 < src.count ∨ j + 1 < dst.count then (iterAt src dst mode 0 (i + 1) (j + 1), true)
      else (iterAt src dst mode 1 0 0, false) := by
  simp only [phaseZero, incSlid_iterAt hi, incDlid_iterAt hj, slid_lt_iterAt, dlid_lt_iterAt,
    nextPhase_iterAt]

theorem phaseSix_iterAt {i j : Nat} (hi : i ≤ 128) (hj : j ≤ 128) :
    phaseSix (iterAt src dst mode 6 i j) =
      if i + 1 < src.count ∧ j + 1 < dst.count then (iterAt src dst mode 6 (i + 1) (j + 1), true)
      else (iterAt src dst mode 7 0 0, false) := by
  simp only [phaseSix, incSlid_iterAt hi, incDlid_iterAt hj, slid_lt_iterAt, dlid_lt_iterAt,
    nextPhase_iterAt]

/-! ### The grid -/

def cellAt (src dst : EndPort) (mode : PathMode) (phase k : Nat) : LidIterator :=
  iterAt src dst mode phase (k / dst.count) (k % dst.count)

def apartCell (src dst : EndPort) (k : Nat) : Bool :=
  apartAt src dst (k / dst.count) (k % dst.count)

theorem cell_succ {n : Nat} (k : Nat) (hn : 0 < n) :
    (k % n + 1 < n ∧ (k + 1) / n = k / n ∧ (k + 1) % n = k % n + 1) ∨
      (k % n + 1 = n ∧ (k + 1) / n = k / n + 1 ∧ (k + 1) % n = 0) := by
  have hlt := Nat.mod_lt k hn
  have hk : k + 1 = n * (k / n) + (k % n + 1) := by
    rw [← Nat.add_assoc, Nat.div_add_mod]
  by_cases hlast : k % n + 1 = n
  · right
    have hk' : k + 1 = n * (k / n + 1) := by
      rw [hk, hlast, Nat.mul_succ]
    rw [hk', Nat.mul_div_cancel_left _ hn, Nat.mul_mod_right]
    exact ⟨hlast, rfl, rfl⟩
  · left
    have hlt' : k % n + 1 < n := by omega
    refine ⟨hlt', ?_, ?_⟩
    · rw [hk, Nat.mul_add_div hn, Nat.div_eq_of_lt hlt', Nat.add_zero]
    · rw [hk, Nat.mul_add_mod, Nat.mod_eq_of_lt hlt']

theorem div_lt_count {k : Nat} (hk : k < src.count * dst.count) : k / dst.count < src.count :=
  Nat.div_lt_of_lt_mul (by rwa [Nat.mul_comm])

theorem succ_lt_grid_iff {k : Nat} (hlast : k % dst.count + 1 = dst.count) :
    k / dst.count + 1 < src.count ↔ k + 1 < src.count * dst.count := by
  have hk : k + 1 = dst.count * (k / dst.count + 1) := by
    rw [Nat.mul_succ, ← hlast, ← Nat.add_assoc, hlast, Nat.div_add_mod]
  rw [hk, Nat.mul_comm src.count, Nat.mul_lt_mul_left dst.count_pos]

theorem row_le {k : Nat} (hk : k < src.count * dst.count) : k / dst.count ≤ 128 := by
  have hrow := div_lt_count hk
  have hcount := src.count_le
  omega

theorem column_le (dst : EndPort) (k : Nat) : k % dst.count ≤ 128 := by
  have hlt := Nat.mod_lt k dst.count_pos
  have hcount := dst.count_le
  omega

theorem succ_lt_grid {k : Nat} (hk : k < src.count * dst.count)
    (hmod : (k + 1) % dst.count = k % dst.count + 1) : k + 1 < src.count * dst.count := by
  by_contra hge
  have heq : k + 1 = src.count * dst.count := by omega
  rw [heq, Nat.mul_mod_left] at hmod
  omega

theorem phaseFour_cellAt {k : Nat} (hk : k < src.count * dst.count) :
    phaseFour (cellAt src dst mode 4 k) =
      if k + 1 < src.count * dst.count then (cellAt src dst mode 4 (k + 1), true)
      else (iterAt src dst mode 5 0 0, false) := by
  simp only [phaseFour, cellAt, incDlid_iterAt (column_le dst k), resetDlid_iterAt,
    incSlid_iterAt (row_le hk), nextPhase_iterAt, slid_lt_iterAt, dlid_lt_iterAt]
  rcases cell_succ k dst.count_pos with ⟨hlt, hdiv, hmod⟩ | ⟨hlast, hdiv, hmod⟩
  · rw [if_pos hlt, if_pos (succ_lt_grid hk hmod), hdiv, hmod]
  · rw [if_neg (by omega)]
    simp only [succ_lt_grid_iff hlast, hdiv, hmod]

theorem phaseOne_succ (fuel : Nat) {k : Nat} (hk : k < src.count * dst.count) :
    phaseOne (fuel + 1) (cellAt src dst mode 1 k) =
      if k + 1 < src.count * dst.count then
        if apartCell src dst (k + 1) then some (cellAt src dst mode 1 (k + 1), true)
        else phaseOne fuel (cellAt src dst mode 1 (k + 1))
      else some (iterAt src dst mode 2 0 0, false) := by
  simp only [phaseOne, cellAt, incDlid_iterAt (column_le dst k), resetDlid_iterAt,
    incSlid_iterAt (row_le hk), nextPhase_iterAt, ge_iff_le, ← Nat.not_lt, slid_lt_iterAt,
    dlid_lt_iterAt, apart_iterAt, apartCell, ite_not]
  rcases cell_succ k dst.count_pos with ⟨hlt, hdiv, hmod⟩ | ⟨hlast, hdiv, hmod⟩
  · rw [if_pos hlt, if_pos (succ_lt_grid hk hmod)]
    simp only [hdiv, hmod]
  · rw [if_neg (by omega)]
    simp only [succ_lt_grid_iff hlast, hdiv, hmod]

theorem phaseOne_cellAt {fuel k : Nat} (hk : k < src.count * dst.count)
    (hfuel : src.count * dst.count - (k + 1) < fuel) :
    phaseOne fuel (cellAt src dst mode 1 k) =
      some (seek (fun k => (cellAt src dst mode 1 k, true)) (iterAt src dst mode 2 0 0, false)
        (apartCell src dst) (src.count * dst.count) (k + 1)) := by
  induction fuel generalizing k with
  | zero => omega
  | succ fuel ih =>
    rw [phaseOne_succ fuel hk]
    by_cases hgrid : k + 1 < src.count * dst.count
    · rw [if_pos hgrid]
      cases htest : apartCell src dst (k + 1) with
      | true => rw [if_pos rfl, seek_self hgrid htest]
      | false => rw [if_neg (by simp), seek_succ hgrid htest, ih hgrid (by omega)]
    · rw [if_neg hgrid, seek_end (by omega)]

/-! ## Steps -/

theorem grid_le (src dst : EndPort) : src.count * dst.count ≤ 16384 :=
  Nat.mul_le_mul src.count_le dst.count_le

theorem grid_pos (src dst : EndPort) : 0 < src.count * dst.count := Nat.mul_pos src.count_pos dst.count_pos

def diagAt (src dst : EndPort) (mode : PathMode) (phase i : Nat) : LidIterator × (Nat × Nat) :=
  (iterAt src dst mode phase i i, pairAt src dst i i)

def gridAt (src dst : EndPort) (mode : PathMode) (phase k : Nat) : LidIterator × (Nat × Nat) :=
  (cellAt src dst mode phase k, pairAt src dst (k / dst.count) (k % dst.count))

def searchFrom (src dst : EndPort) (mode : PathMode) (pair : Nat × Nat) (k : Nat) :
    LidIterator × (Nat × Nat) :=
  seek (gridAt src dst mode 1) (iterAt src dst mode 2 0 0, pair) (apartCell src dst)
    (src.count * dst.count) k

theorem showPair_found (pair : Nat × Nat) (phase i j : Nat) :
    showPair pair (iterAt src dst mode phase i j, true) =
      (iterAt src dst mode phase i j, pairAt src dst i j) := by
  rw [showPair, if_pos rfl, foldLid_iterAt]

theorem showPair_search (pair : Nat × Nat) (k : Nat) :
    showPair pair (lastPhases (seek (fun k => (cellAt src dst mode 1 k, true))
        (iterAt src dst mode 2 0 0, false) (apartCell src dst) (src.count * dst.count) k)) =
      searchFrom src dst mode pair k := by
  rw [map_seek lastPhases, map_seek (showPair pair), searchFrom]
  congr 1
  funext k'
  exact showPair_found pair 1 _ _

theorem next_diag {i : Nat} (hi : i ≤ 128) :
    lidIteratorNext (diagAt src dst mode 0 i) =
      some (if i + 1 < src.count ∨ i + 1 < dst.count then diagAt src dst mode 0 (i + 1)
        else searchFrom src dst mode (pairAt src dst i i) 1) := by
  have hgrid := grid_pos src dst
  have hfuel : src.count * dst.count - (0 + 1) < phaseOneFuel := by
    have := grid_le src dst
    unfold phaseOneFuel
    omega
  have hcell : iterAt src dst mode 1 0 0 = cellAt src dst mode 1 0 := by
    rw [cellAt, Nat.zero_div, Nat.zero_mod]
  have hphase : (iterAt src dst mode 0 i i).phase = 0 := rfl
  simp only [lidIteratorNext, lidIteratorPhases, diagAt, hphase, if_true, phaseZero_iterAt hi hi]
  by_cases hmore : i + 1 < src.count ∨ i + 1 < dst.count
  · simp only [if_pos hmore, if_true, Option.map_some, showPair_found]
  · simp only [if_neg hmore, hcell, phaseOne_cellAt hgrid hfuel]
    exact congrArg some (showPair_search (pairAt src dst i i) 1)

theorem next_grid_one {k : Nat} (hk : k < src.count * dst.count) :
    lidIteratorNext (gridAt src dst mode 1 k) =
      some (searchFrom src dst mode (pairAt src dst (k / dst.count) (k % dst.count)) (k + 1)) := by
  have hfuel : src.count * dst.count - (k + 1) < phaseOneFuel := by
    have := grid_le src dst
    unfold phaseOneFuel
    omega
  have hphase : (cellAt src dst mode 1 k).phase = 1 := rfl
  simp only [lidIteratorNext, lidIteratorPhases, gridAt, hphase, phaseOne_cellAt hk hfuel,
    Nat.one_ne_zero, if_false, if_true, Option.map_some, Bool.false_eq_true]
  exact congrArg some (showPair_search _ _)

theorem phases_of_four_le {it : LidIterator} (h : 4 ≤ it.phase) :
    lidIteratorPhases it = some (lastPhases (it, false)) := by
  have hzero : it.phase ≠ 0 := by omega
  have hone : it.phase ≠ 1 := by omega
  simp [lidIteratorPhases, hzero, hone]

theorem lastPhases_cellAt {k : Nat} (hk : k < src.count * dst.count) :
    lastPhases (cellAt src dst mode 4 k, false) =
      if k + 1 < src.count * dst.count then (cellAt src dst mode 4 (k + 1), true)
      else (iterAt src dst mode 5 0 0, false) := by
  have hphase : (cellAt src dst mode 4 k).phase = 4 := rfl
  have hfive : (iterAt src dst mode 5 0 0).phase = 5 := rfl
  by_cases hmore : k + 1 < src.count * dst.count
  · simp [lastPhases, hphase, phaseFour_cellAt hk, hmore]
  · simp [lastPhases, hphase, phaseFour_cellAt hk, hmore, hfive]

theorem next_grid_four {k : Nat} (hk : k < src.count * dst.count) :
    lidIteratorNext (gridAt src dst mode 4 k) =
      some (if k + 1 < src.count * dst.count then gridAt src dst mode 4 (k + 1)
        else (iterAt src dst mode 5 0 0, pairAt src dst (k / dst.count) (k % dst.count))) := by
  rw [lidIteratorNext, gridAt, phases_of_four_le (Nat.le_refl 4), lastPhases_cellAt hk]
  split
  · exact congrArg some (showPair_found _ 4 _ _)
  · rfl

theorem next_diag_six {i : Nat} (hi : i ≤ 128) :
    lidIteratorNext (diagAt src dst mode 6 i) =
      some (if i + 1 < src.count ∧ i + 1 < dst.count then diagAt src dst mode 6 (i + 1)
        else (iterAt src dst mode 7 0 0, pairAt src dst i i)) := by
  have hlast : lastPhases (iterAt src dst mode 6 i i, false) = phaseSix (iterAt src dst mode 6 i i) :=
    rfl
  have hle : 4 ≤ (iterAt src dst mode 6 i i).phase := show 4 ≤ 6 by decide
  rw [lidIteratorNext, diagAt, phases_of_four_le hle, hlast, phaseSix_iterAt hi hi]
  split
  · exact congrArg some (showPair_found _ 6 _ _)
  · rfl

/-! ## The loop -/

def YieldsPairs (s : LidIterator × (Nat × Nat)) (l : List (Nat × Nat)) : Prop :=
  Yields (fun s => lidIteratorDone s.1) lidIteratorNext Prod.snd s l

theorem not_done_of_lt {phase i j : Nat} (h : i < src.count ∨ j < dst.count)
    (hphase : phase ≤ mode.phases.2) : lidIteratorDone (iterAt src dst mode phase i j) = false := by
  rw [lidIteratorDone_iterAt]
  simp only [Bool.or_eq_false_iff, Bool.and_eq_false_iff, decide_eq_false_iff_not]
  omega

theorem done_of_phase (mode : PathMode) {phase : Nat} (i j : Nat) (hphase : mode.phases.2 < phase) :
    lidIteratorDone (iterAt src dst mode phase i j) = true := by
  rw [lidIteratorDone_iterAt]
  simp [hphase]

def more (src dst : EndPort) : Nat := max src.count dst.count

theorem more_pos (src dst : EndPort) : 0 < more src dst :=
  src.count_pos.trans_le (Nat.le_max_left _ _)

theorem more_le (src dst : EndPort) : more src dst ≤ 128 := Nat.max_le.mpr ⟨src.count_le, dst.count_le⟩

def pairsTogether (src dst : EndPort) : List (Nat × Nat) :=
  (List.range (more src dst)).map fun i => pairAt src dst i i

def pairsOfGrid (src dst : EndPort) (test : Nat → Bool) : List (Nat × Nat) :=
  ((List.range (src.count * dst.count)).filter test).map fun k =>
    pairAt src dst (k / dst.count) (k % dst.count)

theorem yields_phase_zero {l : List (Nat × Nat)}
    (hend : ∀ pair, YieldsPairs (searchFrom src dst mode pair 1) l) :
    YieldsPairs (diagAt src dst mode 0 0) (pairsTogether src dst ++ l) := by
  have hle := more_le src dst
  have hmax : ∀ i, i < more src dst ↔ i < src.count ∨ i < dst.count := fun i => lt_max_iff
  refine Yields.count_zero (fun i hi => ?_) (fun i hi => ?_)
    (fun i _ => hend (pairAt src dst i i)) (more_pos src dst)
  · exact not_done_of_lt ((hmax i).mp hi) (Nat.zero_le _)
  · rw [next_diag (by omega)]
    simp only [hmax]

theorem yields_phase_one (hmode : mode.phases.2 = 1) (pair : Nat × Nat) :
    YieldsPairs (searchFrom src dst mode pair 1)
      (pairsOfGrid src dst (apartCell src dst)) := by
  have hstop : ∀ pair, YieldsPairs (iterAt src dst mode 2 0 0, pair) [] :=
    fun pair => Yields.of_done (done_of_phase mode 0 0 (by omega))
  have hsearch := Yields.search (fun k hk => ?_) (fun k hk => next_grid_one hk)
    (fun k _ => hstop (pairAt src dst (k / dst.count) (k % dst.count))) 1 (hstop pair)
  · have hfirst : apartCell src dst 0 = false := by simp [apartCell, apartAt]
    have hgrid := grid_pos src dst
    rw [List.append_nil] at hsearch
    rw [pairsOfGrid, List.range_eq_range',
      show src.count * dst.count = src.count * dst.count - 1 + 1 by omega, List.range'_succ,
      List.filter_cons_of_neg (by simp [hfirst])]
    exact hsearch
  · exact not_done_of_lt (.inl (div_lt_count hk)) hmode.ge

theorem yields_pairwise :
    YieldsPairs (diagAt src dst .pairwise 0 0) (pairsTogether src dst) := by
  rw [← List.append_nil (pairsTogether src dst)]
  apply yields_phase_zero
  intro pair
  apply Yields.of_done
  rw [searchFrom, seek]
  split
  · exact done_of_phase .pairwise _ _ (by decide)
  · exact done_of_phase .pairwise _ _ (by decide)

theorem yields_orderall :
    YieldsPairs (diagAt src dst .orderall 0 0)
      (pairsTogether src dst ++ pairsOfGrid src dst (apartCell src dst)) :=
  yields_phase_zero (yields_phase_one rfl)

theorem yields_srcdstall :
    YieldsPairs (gridAt src dst .srcdstall 4 0) (pairsOfGrid src dst fun _ => true) := by
  rw [pairsOfGrid, List.filter_true, ← List.append_nil (List.map _ _)]
  refine Yields.count_zero (fun k hk => ?_) (fun k hk => next_grid_four hk) (fun k _ => ?_)
    (grid_pos src dst)
  · exact not_done_of_lt (.inl (div_lt_count hk)) (Nat.le_refl 4)
  · exact Yields.of_done (done_of_phase .srcdstall 0 0 (by decide))

theorem yields_minimal :
    YieldsPairs (diagAt src dst .minimal 6 0)
      ((List.range (fewer src dst)).map fun i => pairAt src dst i i) := by
  have hmin : ∀ i, i < fewer src dst ↔ i < src.count ∧ i < dst.count := fun i => lt_min_iff
  have hpos : 0 < fewer src dst := (hmin 0).mpr ⟨src.count_pos, dst.count_pos⟩
  have hle := src.count_le
  have hnext : ∀ i < fewer src dst, lidIteratorNext (diagAt src dst .minimal 6 i) =
      some (if i + 1 < fewer src dst then diagAt src dst .minimal 6 (i + 1)
        else (iterAt src dst .minimal 7 0 0, pairAt src dst i i)) := by
    intro i hi
    have hlt := ((hmin i).mp hi).1
    rw [next_diag_six (by omega)]
    simp only [hmin]
  rw [← List.append_nil (List.map _ _)]
  refine Yields.count_zero (fun i hi => ?_) hnext (fun i _ => ?_) hpos
  · exact not_done_of_lt (.inl ((hmin i).mp hi).1) (Nat.le_refl 6)
  · exact Yields.of_done (done_of_phase .minimal 0 0 (by decide))

def lidPairs (mode : PathMode) (src dst : EndPort) : List (Nat × Nat) :=
  match mode with
  | .pairwise => pairsTogether src dst
  | .orderall => pairsTogether src dst ++ pairsOfGrid src dst (apartCell src dst)
  | .srcdstall => pairsOfGrid src dst fun _ => true
  | .minimal => (List.range (fewer src dst)).map fun i => pairAt src dst i i

theorem yields_lidPairs (src dst : EndPort) (mode : PathMode) :
    YieldsPairs (lidIteratorInit src src.lid src.count dst dst.lid dst.count mode)
      (lidPairs mode src dst) := by
  rw [lidIteratorInit_eq]
  cases mode with
  | pairwise => exact yields_pairwise
  | orderall => exact yields_orderall
  | srcdstall =>
    have hcell : iterAt src dst .srcdstall 4 0 0 = cellAt src dst .srcdstall 4 0 := by
      rw [cellAt, Nat.zero_div, Nat.zero_mod]
    have hpair : pairAt src dst 0 0 = pairAt src dst (0 / dst.count) (0 % dst.count) := by
      rw [Nat.zero_div, Nat.zero_mod]
    show YieldsPairs (iterAt src dst .srcdstall 4 0 0, pairAt src dst 0 0) _
    rw [hcell, hpair]
    exact yields_srcdstall
  | minimal => exact yields_minimal

/-! ## Which pairs these are -/

def InRanges (src dst : EndPort) (p : Nat × Nat) : Prop := src.HasLid p.1 ∧ dst.HasLid p.2

def Agree (src dst : EndPort) (p : Nat × Nat) : Prop :=
  (p.1 - src.lid) % 2 ^ min src.lmc dst.lmc = (p.2 - dst.lid) % 2 ^ min src.lmc dst.lmc

theorem fewer_eq : fewer src dst = 2 ^ min src.lmc dst.lmc := by
  rcases Nat.le_total src.lmc dst.lmc with h | h
  · have hle : src.count ≤ dst.count := Nat.pow_le_pow_right (by decide) h
    rw [fewer, Nat.min_eq_left hle, Nat.min_eq_left h, EndPort.count]
  · have hle : dst.count ≤ src.count := Nat.pow_le_pow_right (by decide) h
    rw [fewer, Nat.min_eq_right hle, Nat.min_eq_right h, EndPort.count]

theorem EndPort.hasLid_iff {p : EndPort} {lid : Nat} :
    p.HasLid lid ↔ ∃ i < p.count, lid = p.lid + i := by
  constructor
  · rintro ⟨hle, hlt⟩
    refine ⟨lid - p.lid, ?_, by omega⟩
    rw [count]
    omega
  · rintro ⟨i, hi, rfl⟩
    exact ⟨Nat.le_add_right _ _, Nat.add_lt_add_left hi _⟩

theorem inRanges_iff {p : Nat × Nat} :
    InRanges src dst p ↔
      ∃ i < src.count, ∃ j < dst.count, p = (src.lid + i, dst.lid + j) := by
  simp only [InRanges, EndPort.hasLid_iff]
  constructor
  · rintro ⟨⟨i, hi, h₁⟩, j, hj, h₂⟩
    exact ⟨i, hi, j, hj, Prod.ext h₁ h₂⟩
  · rintro ⟨i, hi, j, hj, rfl⟩
    exact ⟨⟨i, hi, rfl⟩, j, hj, rfl⟩

theorem agree_iff (i j : Nat) :
    Agree src dst (src.lid + i, dst.lid + j) ↔ i % fewer src dst = j % fewer src dst := by
  rw [Agree, fewer_eq, Nat.add_sub_cancel_left, Nat.add_sub_cancel_left]

theorem fewer_dvd_src (src dst : EndPort) : fewer src dst ∣ src.count := by
  rw [fewer_eq]
  exact Nat.pow_dvd_pow 2 (Nat.min_le_left _ _)

theorem fewer_dvd_dst (src dst : EndPort) : fewer src dst ∣ dst.count := by
  rw [fewer_eq]
  exact Nat.pow_dvd_pow 2 (Nat.min_le_right _ _)

theorem mem_pairsTogether {p : Nat × Nat} :
    p ∈ pairsTogether src dst ↔ InRanges src dst p ∧ Agree src dst p := by
  simp only [pairsTogether, List.mem_map, List.mem_range, inRanges_iff]
  constructor
  · rintro ⟨i, -, rfl⟩
    refine ⟨⟨_, Nat.mod_lt i src.count_pos, _, Nat.mod_lt i dst.count_pos, rfl⟩, ?_⟩
    rw [pairAt, agree_iff, Nat.mod_mod_of_dvd i (fewer_dvd_src src dst),
      Nat.mod_mod_of_dvd i (fewer_dvd_dst src dst)]
  · rintro ⟨⟨i, hi, j, hj, rfl⟩, hagree⟩
    rw [agree_iff] at hagree
    -- the number is the offset on the side with more LIDs
    rcases Nat.le_total src.count dst.count with h | h
    · rw [fewer, Nat.min_eq_left h, Nat.mod_eq_of_lt hi] at hagree
      refine ⟨j, hj.trans_le (Nat.le_max_right _ _), ?_⟩
      rw [pairAt, ← hagree, Nat.mod_eq_of_lt hj]
    · rw [fewer, Nat.min_eq_right h, Nat.mod_eq_of_lt hj] at hagree
      refine ⟨i, hi.trans_le (Nat.le_max_left _ _), ?_⟩
      rw [pairAt, hagree, Nat.mod_eq_of_lt hi]

theorem nodup_pairsTogether : (pairsTogether src dst).Nodup := by
  apply List.Nodup.map_on _ List.nodup_range
  intro i hi i' hi' heq
  rw [List.mem_range, more] at hi hi'
  simp only [pairAt, Prod.mk.injEq, Nat.add_left_cancel_iff] at heq
  rcases Nat.le_total src.count dst.count with h | h
  · rw [Nat.max_eq_right h] at hi hi'
    rw [← Nat.mod_eq_of_lt hi, ← Nat.mod_eq_of_lt hi']
    exact heq.2
  · rw [Nat.max_eq_left h] at hi hi'
    rw [← Nat.mod_eq_of_lt hi, ← Nat.mod_eq_of_lt hi']
    exact heq.1

theorem grid_cell {i j : Nat} (hi : i < src.count) (hj : j < dst.count) :
    dst.count * i + j < src.count * dst.count ∧ (dst.count * i + j) / dst.count = i ∧
      (dst.count * i + j) % dst.count = j := by
  refine ⟨?_, ?_, ?_⟩
  · calc dst.count * i + j < dst.count * i + dst.count := Nat.add_lt_add_left hj _
      _ = dst.count * (i + 1) := (Nat.mul_succ _ _).symm
      _ ≤ dst.count * src.count := Nat.mul_le_mul_left _ hi
      _ = src.count * dst.count := Nat.mul_comm _ _
  · rw [Nat.mul_add_div dst.count_pos, Nat.div_eq_of_lt hj, Nat.add_zero]
  · rw [Nat.mul_add_mod, Nat.mod_eq_of_lt hj]

theorem pairAt_cell {k : Nat} (hk : k < src.count * dst.count) :
    pairAt src dst (k / dst.count) (k % dst.count) =
      (src.lid + k / dst.count, dst.lid + k % dst.count) := by
  rw [pairAt, Nat.mod_eq_of_lt (div_lt_count hk), Nat.mod_mod]

theorem mem_pairsOfGrid {test : Nat → Bool} {p : Nat × Nat} :
    p ∈ pairsOfGrid src dst test ↔ ∃ i < src.count, ∃ j < dst.count,
      test (dst.count * i + j) = true ∧ p = (src.lid + i, dst.lid + j) := by
  simp only [pairsOfGrid, List.mem_map, List.mem_filter, List.mem_range]
  constructor
  · rintro ⟨k, ⟨hk, htest⟩, rfl⟩
    refine ⟨k / dst.count, div_lt_count hk, k % dst.count, Nat.mod_lt k dst.count_pos, ?_,
      pairAt_cell hk⟩
    rw [Nat.div_add_mod]
    exact htest
  · rintro ⟨i, hi, j, hj, htest, rfl⟩
    obtain ⟨hk, hdiv, hmod⟩ := grid_cell hi hj
    refine ⟨dst.count * i + j, ⟨hk, htest⟩, ?_⟩
    rw [pairAt_cell hk, hdiv, hmod]

theorem nodup_pairsOfGrid (test : Nat → Bool) : (pairsOfGrid src dst test).Nodup := by
  apply List.Nodup.map_on _ (List.nodup_range.filter _)
  intro k hk k' hk' heq
  rw [pairAt_cell (List.mem_range.mp (List.mem_filter.mp hk).1),
    pairAt_cell (List.mem_range.mp (List.mem_filter.mp hk').1)] at heq
  simp only [Prod.mk.injEq, Nat.add_left_cancel_iff] at heq
  rw [← Nat.div_add_mod k dst.count, ← Nat.div_add_mod k' dst.count, heq.1, heq.2]

theorem mem_pairsOfGrid_apart {p : Nat × Nat} :
    p ∈ pairsOfGrid src dst (apartCell src dst) ↔ InRanges src dst p ∧ ¬Agree src dst p := by
  rw [mem_pairsOfGrid, inRanges_iff]
  constructor
  · rintro ⟨i, hi, j, hj, htest, rfl⟩
    obtain ⟨-, hdiv, hmod⟩ := grid_cell hi hj
    refine ⟨⟨i, hi, j, hj, rfl⟩, ?_⟩
    rw [agree_iff]
    simpa [apartCell, apartAt, hdiv, hmod] using htest
  · rintro ⟨⟨i, hi, j, hj, rfl⟩, hapart⟩
    obtain ⟨-, hdiv, hmod⟩ := grid_cell hi hj
    rw [agree_iff] at hapart
    exact ⟨i, hi, j, hj, by simpa [apartCell, apartAt, hdiv, hmod] using hapart, rfl⟩

theorem mem_pairsOfGrid_true {p : Nat × Nat} :
    p ∈ pairsOfGrid src dst (fun _ => true) ↔ InRanges src dst p := by
  simp only [mem_pairsOfGrid, inRanges_iff, true_and]

theorem mem_lidPairs_orderall {p : Nat × Nat} :
    p ∈ lidPairs .orderall src dst ↔ InRanges src dst p := by
  simp only [lidPairs, List.mem_append, mem_pairsTogether, mem_pairsOfGrid_apart]
  by_cases h : Agree src dst p <;> simp [h]

theorem nodup_lidPairs (mode : PathMode) : (lidPairs mode src dst).Nodup := by
  cases mode with
  | pairwise => exact nodup_pairsTogether
  | orderall =>
    refine List.nodup_append.mpr ⟨nodup_pairsTogether, nodup_pairsOfGrid _, ?_⟩
    rintro p hp _ hp' rfl
    exact (mem_pairsOfGrid_apart.mp hp').2 (mem_pairsTogether.mp hp).2
  | srcdstall => exact nodup_pairsOfGrid _
  | minimal =>
    apply List.Nodup.map_on _ List.nodup_range
    intro i hi i' hi' heq
    rw [List.mem_range, fewer] at hi hi'
    have hlt : i < src.count := lt_min_iff.mp hi |>.1
    have hlt' : i' < src.count := lt_min_iff.mp hi' |>.1
    simp only [pairAt, Prod.mk.injEq, Nat.add_left_cancel_iff, Nat.mod_eq_of_lt hlt,
      Nat.mod_eq_of_lt hlt'] at heq
    exact heq.1

theorem length_lidPairs_srcdstall :
    (lidPairs .srcdstall src dst).length = 2 ^ src.lmc * 2 ^ dst.lmc := by
  rw [lidPairs, pairsOfGrid, List.filter_true, List.length_map, List.length_range]
  rfl

theorem length_lidPairs_orderall :
    (lidPairs .orderall src dst).length = 2 ^ src.lmc * 2 ^ dst.lmc := by
  rw [← length_lidPairs_srcdstall]
  apply List.Perm.length_eq
  rw [List.perm_ext_iff_of_nodup (nodup_lidPairs .orderall) (nodup_lidPairs .srcdstall)]
  intro p
  rw [mem_lidPairs_orderall]
  exact mem_pairsOfGrid_true.symm

theorem inRanges_of_mem_lidPairs {mode : PathMode} {p : Nat × Nat}
    (h : p ∈ lidPairs mode src dst) : InRanges src dst p := by
  cases mode with
  | pairwise => exact (mem_pairsTogether.mp h).1
  | orderall => exact mem_lidPairs_orderall.mp h
  | srcdstall => exact mem_pairsOfGrid_true.mp h
  | minimal =>
    obtain ⟨i, hi, rfl⟩ := List.mem_map.mp h
    rw [List.mem_range, fewer, lt_min_iff] at hi
    rw [inRanges_iff]
    exact ⟨_, Nat.mod_lt i src.count_pos, _, Nat.mod_lt i dst.count_pos, rfl⟩

end

def Shows (src dst : EndPort) (l : List (Nat × Nat)) : PathMode → Prop
  | .srcdstall => l.length = 2 ^ src.lmc * 2 ^ dst.lmc ∧ ∀ p, p ∈ l ↔ InRanges src dst p
  | .orderall =>
    l.length = 2 ^ src.lmc * 2 ^ dst.lmc ∧ (∀ p, p ∈ l ↔ InRanges src dst p) ∧
      ∃ first rest, l = first ++ rest ∧ ∀ p, p ∈ first ↔ InRanges src dst p ∧ Agree src dst p
  | .pairwise => ∀ p, p ∈ l ↔ InRanges src dst p ∧ Agree src dst p
  | .minimal =>
    l.length = min (2 ^ src.lmc) (2 ^ dst.lmc) ∧ (l.map Prod.fst).Nodup ∧
      (l.map Prod.snd).Nodup

theorem shows_lidPairs : Shows src dst (lidPairs mode src dst) mode := by
  cases mode with
  | pairwise => exact fun p => mem_pairsTogether
  | orderall =>
    exact ⟨length_lidPairs_orderall, fun p => mem_lidPairs_orderall, pairsTogether src dst,
      pairsOfGrid src dst (apartCell src dst), rfl, fun p => mem_pairsTogether⟩
  | srcdstall => exact ⟨length_lidPairs_srcdstall, fun p => mem_pairsOfGrid_true⟩
  | minimal =>
    have hmin : ∀ i ∈ List.range (fewer src dst), i < src.count ∧ i < dst.count := by
      intro i hi
      exact lt_min_iff.mp (List.mem_range.mp hi)
    refine ⟨by simp [lidPairs, fewer, EndPort.count], ?_, ?_⟩
    · rw [lidPairs, List.map_map]
      apply List.Nodup.map_on _ List.nodup_range
      intro i hi i' hi' heq
      simpa [pairAt, Nat.mod_eq_of_lt (hmin i hi).1, Nat.mod_eq_of_lt (hmin i' hi').1] using heq
    · rw [lidPairs, List.map_map]
      apply List.Nodup.map_on _ List.nodup_range
      intro i hi i' hi' heq
      simpa [pairAt, Nat.mod_eq_of_lt (hmin i hi).2, Nat.mod_eq_of_lt (hmin i' hi').2] using heq

/-! ## The ranges of `sm_select_path_lids` -/

theorem selectLids_permissive (p : EndPort) :
    ((selectLids p permissiveLid).1.headD 0, (selectLids p permissiveLid).2) =
      (p.lid, p.count) := by
  have hpos := p.count_pos
  have hle := p.count_le
  rw [selectLids, if_pos rfl]
  rw [EndPort.count] at hpos hle
  refine Prod.ext ?_ ?_
  · rw [show 2 ^ p.lmc = (2 ^ p.lmc - 1) + 1 by omega, List.range_succ_eq_map]
    rfl
  · exact Nat.mod_eq_of_lt (by omega)

theorem pathLids_permissive :
    ∃ fuel, pathLids fuel mode src permissiveLid dst permissiveLid =
      some (lidPairs mode src dst) := by
  obtain ⟨fuel, hfuel⟩ := yields_lidPairs src dst mode
  refine ⟨fuel, ?_⟩
  have hs := Prod.mk.inj (selectLids_permissive src)
  have hd := Prod.mk.inj (selectLids_permissive dst)
  simp only [pathLids, smSelectPathLids, and_self, if_true, hs.1, hs.2, hd.1, hd.2]
  exact hfuel

/-- The loop ends and shows every pair at most once, and in each mode those it should. -/
theorem lid_pairs_enumerated :
    ∃ fuel l, pathLids fuel mode src permissiveLid dst permissiveLid = some l ∧ l.Nodup ∧
      (∀ p ∈ l, InRanges src dst p) ∧ Shows src dst l mode := by
  obtain ⟨fuel, hfuel⟩ := pathLids_permissive src dst mode
  exact ⟨fuel, lidPairs mode src dst, hfuel, nodup_lidPairs mode,
    fun p hp => inRanges_of_mem_lidPairs hp, shows_lidPairs src dst mode⟩

end OpaFm.PathRecord
