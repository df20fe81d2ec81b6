import Mathlib.Algebra.BigOperators.Ring.List
import Mathlib.Algebra.Order.BigOperators.Group.List
import Mathlib.Data.List.Pairwise
import OpaFm.SmQos.BufferControl

/-!
# The memory that the rules divide

An attempt that does not run out of memory has written the limit of every VL, and what is left is
the memory less the limits.  The last attempt of rule C keeps nothing but VL 15.
-/

namespace OpaFm.SmQos

open OpaFm.Routing

variable {c : BfrConfig} {n : BfrInput} {size packets : Nat → Nat} {pbw : Nat → Int}
  {wd : Nat} {js : List Nat} {s r : BfrState} {rank : Int}

/-! ## One attempt -/

structure Taken (size : Nat → Nat) (js : List Nat) (s r : BfrState) : Prop where
  remaining : r.remainingSize + (js.map size).sum = s.remainingSize
  inside : ∀ j ∈ js, r.txDedicatedLimit j = size j
  outside : ∀ j, j ∉ js → r.txDedicatedLimit j = s.txDedicatedLimit j

theorem toLimit_of_lt {k : Nat} (h : k < 65536) : toLimit k = k := by
  unfold toLimit
  omega

namespace Taken

theorem nil (size : Nat → Nat) (s : BfrState) : Taken size [] s s := by
  constructor
  · exact Int.add_zero _
  · exact nofun
  · exact fun _ _ => rfl

theorem cons {j : Nat} (hj : j ∉ js) (hsize : size j < 65536)
    (h : Taken size js ((s.take (size j)).dedicate j (size j)) r) : Taken size (j :: js) s r := by
  constructor
  · have hremaining := h.remaining
    show r.remainingSize + ((size j + (js.map size).sum : Nat) : Int) = s.remainingSize
    change r.remainingSize + _ = s.remainingSize - size j at hremaining
    omega
  · refine List.forall_mem_cons.mpr ⟨?_, h.inside⟩
    rw [h.outside j hj]
    exact (if_pos rfl).trans (toLimit_of_lt hsize)
  · intro i hi
    rw [List.mem_cons, not_or] at hi
    rw [h.outside i hi.2]
    exact if_neg hi.1

theorem skip {j : Nat} (hj : j ∉ js) (hsize : size j = 0) (hzero : s.txDedicatedLimit j = 0)
    (h : Taken size js s r) : Taken size (j :: js) s r := by
  constructor
  · rw [List.map_cons, List.sum_cons, hsize, Nat.zero_add]
    exact h.remaining
  · refine List.forall_mem_cons.mpr ⟨?_, h.inside⟩
    rw [h.outside j hj, hzero, hsize]
  · intro i hi
    exact h.outside i fun hin => hi (List.mem_cons_of_mem j hin)

theorem total (h : Taken size js s r) :
    ((js.map r.txDedicatedLimit).sum : Int) + r.remainingSize = s.remainingSize := by
  rw [List.map_congr_left h.inside, Int.add_comm]
  exact h.remaining

end Taken

/-! ## Rule A -/

def sizeA (packets : Nat → Nat) (wd j : Nat) : Nat :=
  if 0 < packets j then packets j + wd else 0

theorem ruleA_taken {intervalSize : Int} (hnodup : js.Nodup) (hlt : s.remainingSize < 65536)
    (hzero : ∀ j ∈ js, s.txDedicatedLimit j = 0)
    (h : 0 ≤ (ruleA packets wd js intervalSize s).2.remainingSize) :
    Taken (sizeA packets wd) js s (ruleA packets wd js intervalSize s).2 ∧
      (ruleA packets wd js intervalSize s).1 = intervalSize + (js.map packets).sum := by
  induction js generalizing intervalSize s with
  | nil => exact ⟨Taken.nil _ s, (Int.add_zero _).symm⟩
  | cons j js ih =>
    obtain ⟨hj, hnodup⟩ := List.nodup_cons.mp hnodup
    obtain ⟨hjzero, hzero⟩ := List.forall_mem_cons.mp hzero
    rw [ruleA] at h ⊢
    by_cases hpos : 0 < packets j
    · have hsize : sizeA packets wd j = packets j + wd := if_pos hpos
      rw [if_pos hpos] at h ⊢
      dsimp only at h ⊢
      by_cases hneg : (s.take (packets j + wd : Nat)).remainingSize < 0
      · rw [if_pos hneg] at h
        exact absurd h (Int.not_le.mpr hneg)
      · rw [if_neg hneg] at h ⊢
        change ¬s.remainingSize - (packets j + wd : Nat) < 0 at hneg
        have hzero' : ∀ i ∈ js, ((s.take (packets j + wd : Nat)).dedicate j
            (packets j + wd : Nat)).txDedicatedLimit i = 0 := by
          intro i hi
          have hne : i ≠ j := fun heq => hj (heq ▸ hi)
          exact (if_neg hne).trans (hzero i hi)
        have hlt' : ((s.take (packets j + wd : Nat)).dedicate j
            (packets j + wd : Nat)).remainingSize < 65536 := by
          show s.remainingSize - (packets j + wd : Nat) < 65536
          omega
        obtain ⟨htaken, hinterval⟩ := ih hnodup hlt' hzero' h
        constructor
        · apply Taken.cons hj
          · omega
          · rw [hsize]
            exact htaken
        · rw [hinterval, List.map_cons, List.sum_cons]
          omega
    · rw [if_neg hpos] at h ⊢
      obtain ⟨htaken, hinterval⟩ := ih hnodup hlt hzero h
      constructor
      · exact htaken.skip hj (if_neg hpos) hjzero
      · rw [hinterval, List.map_cons, List.sum_cons]
        omega

theorem ruleA_interval_pos {intervalSize : Int} (h : 0 < intervalSize) :
    0 < (ruleA packets wd js intervalSize s).1 := by
  induction js generalizing intervalSize s with
  | nil => exact h
  | cons j js ih =>
    rw [ruleA]
    split
    · dsimp only
      split
      · exact h
      · apply ih
        omega
    · exact ih h

theorem ruleAgain_limits {intervalSize : Nat} (hnodup : js.Nodup)
    (hlt : ∀ j ∈ js, s.txDedicatedLimit j + packets j * intervalSize < 65536) :
    (ruleAgain packets intervalSize js s).remainingSize = s.remainingSize ∧
      ∀ j, (ruleAgain packets intervalSize js s).txDedicatedLimit j =
        s.txDedicatedLimit j + if j ∈ js then packets j * intervalSize else 0 := by
  induction js generalizing s with
  | nil => exact ⟨rfl, fun j => rfl⟩
  | cons j js ih =>
    obtain ⟨hj, hnodup⟩ := List.nodup_cons.mp hnodup
    obtain ⟨hjlt, hlt⟩ := List.forall_mem_cons.mp hlt
    -- a VL without packets keeps its limit, to which nothing would be added
    have hstep : ∃ t : BfrState, ruleAgain packets intervalSize (j :: js) s =
          ruleAgain packets intervalSize js t ∧ t.remainingSize = s.remainingSize ∧
        ∀ i, t.txDedicatedLimit i =
          s.txDedicatedLimit i + if i = j then packets j * intervalSize else 0 := by
      rw [ruleAgain]
      by_cases hpos : 0 < packets j
      · rw [if_pos hpos]
        refine ⟨_, rfl, rfl, ?_⟩
        intro i
        show (if i = j then toLimit _ else s.txDedicatedLimit i) = _
        by_cases hi : i = j
        · rw [if_pos hi, if_pos hi, hi, ← Int.natCast_mul, ← Int.natCast_add]
          exact toLimit_of_lt hjlt
        · rw [if_neg hi, if_neg hi, Nat.add_zero]
      · rw [if_neg hpos]
        refine ⟨s, rfl, rfl, ?_⟩
        intro i
        rw [Nat.eq_zero_of_not_pos hpos, Nat.zero_mul, ite_self, Nat.add_zero]
    obtain ⟨t, hrec, hremaining, hlimits⟩ := hstep
    have hlt' : ∀ i ∈ js, t.txDedicatedLimit i + packets i * intervalSize < 65536 := by
      intro i hi
      have hne : i ≠ j := fun heq => hj (heq ▸ hi)
      rw [hlimits, if_neg hne, Nat.add_zero]
      exact hlt i hi
    obtain ⟨hsame, hadded⟩ := ih hnodup hlt'
    rw [hrec]
    refine ⟨hsame.trans hremaining, ?_⟩
    intro i
    rw [hadded, hlimits]
    by_cases hi : i = j
    · rw [if_pos hi, hi, if_neg hj, if_pos List.mem_cons_self, Nat.add_zero]
    · rw [if_neg hi, Nat.add_zero]
      by_cases hin : i ∈ js
      · rw [if_pos hin, if_pos (List.mem_cons_of_mem j hin)]
      · rw [if_neg hin, if_neg]
        exact fun h => (List.mem_cons.mp h).elim hi hin

/-! ## Rules B and C -/

def sizeB (packets : Nat → Nat) (wd : Nat) (pbw : Nat → Int) (rank : Int) (j : Nat) : Nat :=
  if rank < pbw j ∨ j = 15 then packets j + wd else packets j

def sizeC (packets : Nat → Nat) (wd : Nat) (pbw : Nat → Int) (rank : Int) (j : Nat) : Nat :=
  if rank < pbw j ∨ j = 15 then packets j + wd else 0

theorem ruleB_taken (hnodup : js.Nodup) (hlt : s.remainingSize < 65536)
    (h : 0 ≤ (ruleB packets wd pbw rank js s).remainingSize) :
    Taken (sizeB packets wd pbw rank) js s (ruleB packets wd pbw rank js s) := by
  induction js generalizing s with
  | nil => exact Taken.nil _ s
  | cons j js ih =>
    obtain ⟨hj, hnodup⟩ := List.nodup_cons.mp hnodup
    rw [ruleB] at h ⊢
    change 0 ≤ BfrState.remainingSize (if s.remainingSize - sizeB packets wd pbw rank j < 0
      then _ else _) at h
    change Taken _ _ s (if s.remainingSize - sizeB packets wd pbw rank j < 0 then _ else _)
    by_cases hneg : s.remainingSize - sizeB packets wd pbw rank j < 0
    · rw [if_pos hneg] at h
      exact absurd h (Int.not_le.mpr hneg)
    · rw [if_neg hneg] at h ⊢
      apply Taken.cons hj
      · omega
      · apply ih hnodup _ h
        show s.remainingSize - sizeB packets wd pbw rank j < 65536
        omega

theorem ruleC_taken {maxNoDed : Nat} (hnodup : js.Nodup) (hlt : s.remainingSize < 65536)
    (h : 0 ≤ (ruleC packets wd pbw rank js maxNoDed s).2.remainingSize) :
    Taken (sizeC packets wd pbw rank) js s (ruleC packets wd pbw rank js maxNoDed s).2 := by
  induction js generalizing s maxNoDed with
  | nil => exact Taken.nil _ s
  | cons j js ih =>
    obtain ⟨hj, hnodup⟩ := List.nodup_cons.mp hnodup
    rw [ruleC] at h ⊢
    by_cases hmore : rank < pbw j ∨ j = 15
    · have hsize : sizeC packets wd pbw rank j = packets j + wd := if_pos hmore
      rw [if_pos hmore] at h ⊢
      dsimp only at h ⊢
      by_cases hneg : (s.take (packets j + wd : Nat)).remainingSize < 0
      · rw [if_pos hneg] at h
        exact absurd h (Int.not_le.mpr hneg)
      · rw [if_neg hneg] at h ⊢
        change ¬s.remainingSize - (packets j + wd : Nat) < 0 at hneg
        apply Taken.cons hj
        · omega
        · rw [hsize]
          apply ih hnodup _ h
          show s.remainingSize - (packets j + wd : Nat) < 65536
          omega
    · have hsize : sizeC packets wd pbw rank j = 0 := if_neg hmore
      rw [if_neg hmore] at h ⊢
      have hlt' : (s.dedicate j 0).remainingSize < 65536 := hlt
      have htaken := ih hnodup hlt' h
      apply Taken.cons hj
      · omega
      · rw [hsize]
        have htake : s.take ((0 : Nat) : Int) = s := by
          unfold BfrState.take
          rw [Int.natCast_zero, Int.sub_zero]
        rw [htake]
        exact htaken

theorem ruleC_fits {maxNoDed : Nat}
    (h : ((js.map (sizeC packets wd pbw rank)).sum : Int) ≤ s.remainingSize) :
    0 ≤ (ruleC packets wd pbw rank js maxNoDed s).2.remainingSize := by
  induction js generalizing s maxNoDed with
  | nil => exact h
  | cons j js ih =>
    rw [List.map_cons, List.sum_cons] at h
    rw [ruleC]
    by_cases hmore : rank < pbw j ∨ j = 15
    · have hsize : sizeC packets wd pbw rank j = packets j + wd := if_pos hmore
      rw [hsize] at h
      rw [if_pos hmore]
      dsimp only
      have hfits : ¬(s.take (packets j + wd : Nat)).remainingSize < 0 := by
        show ¬s.remainingSize - (packets j + wd : Nat) < 0
        omega
      rw [if_neg hfits]
      apply ih
      show _ ≤ s.remainingSize - (packets j + wd : Nat)
      omega
    · have hsize : sizeC packets wd pbw rank j = 0 := if_neg hmore
      rw [hsize] at h
      rw [if_neg hmore]
      apply ih
      show _ ≤ s.remainingSize
      omega

theorem tryRanks_cases (attempt : Int → BfrState → Bool × BfrState) {ranks : List Int}
    (hne : ranks ≠ []) (s : BfrState) :
    ∃ rank s', tryRanks attempt ranks s = (attempt rank s').2 ∧
      ((attempt rank s').1 = true ∨ rank = ranks.getLast hne) := by
  induction ranks generalizing s with
  | nil => exact absurd rfl hne
  | cons rank rest ih =>
    rw [tryRanks]
    by_cases hsame : rest.head? = some rank
    · have hrest : rest ≠ [] := by
        intro hnil
        rw [hnil] at hsame
        cases hsame
      rw [if_pos hsame, List.getLast_cons hrest]
      exact ih hrest s
    · rw [if_neg hsame]
      dsimp only
      by_cases hgood : (attempt rank s).1 = true
      · rw [if_pos hgood]
        exact ⟨rank, s, rfl, Or.inl hgood⟩
      · rw [if_neg hgood]
        by_cases hrest : rest = []
        · subst hrest
          exact ⟨rank, s, rfl, Or.inr rfl⟩
        · rw [List.getLast_cons hrest]
          exact ih hrest _

/-! ## Packets and shared memory -/

theorem packetSize_vl15_pos (c : BfrConfig) (n : BfrInput) : 0 < packetSize c n 15 := by
  unfold packetSize protocolHeaderSize
  rw [if_pos rfl]
  have := n.au_pos
  exact Nat.div_pos (by omega) this

theorem minShared_room (hmem : packetSize c n 15 + n.wd ≤ n.memSize) :
    packetSize c n 15 + n.wd + minShared c n ≤ n.memSize := by
  have hshare : c.minSharedVLMem * n.memSize / 100 ≤ n.memSize := by
    apply Nat.div_le_of_le_mul
    exact Nat.mul_le_mul_right _ c.minShared_le
  have hle : (if n.shmem = true then c.minSharedVLMem * n.memSize / 100 else 0) ≤ n.memSize := by
    split
    · exact hshare
    · exact Nat.zero_le _
  unfold minShared
  dsimp only
  generalize (if n.shmem = true then c.minSharedVLMem * n.memSize / 100 else 0) = shared at hle ⊢
  split
  · split <;> omega
  · omega

/-! ## The last rank -/

theorem rankBw_ne_nil (pbw : Nat → Int) : rankBw pbw ≠ [] := by
  apply List.ne_nil_of_length_pos
  rw [rankBw, List.length_mergeSort, List.length_map, List.length_range]
  decide

theorem le_lastRank {j : Nat} (hj : j < stlMaxVls) :
    pbw j ≤ (rankBw pbw).getLast (rankBw_ne_nil pbw) := by
  have hsorted : (rankBw pbw).Pairwise (· ≤ ·) := by
    have hpairs : (rankBw pbw).Pairwise fun a b => decide (a ≤ b) = true := by
      apply List.pairwise_mergeSort
      · intro a b c hab hbc
        exact decide_eq_true (Int.le_trans (of_decide_eq_true hab) (of_decide_eq_true hbc))
      · intro a b
        rw [Bool.or_eq_true, decide_eq_true_iff, decide_eq_true_iff]
        exact Int.le_total a b
    exact hpairs.imp fun h => of_decide_eq_true h
  have hmem : pbw j ∈ rankBw pbw :=
    List.mem_mergeSort.mpr (List.mem_map_of_mem (List.mem_range.mpr hj))
  exact hsorted.rel_getLast hmem

/-! ## What the rules leave -/

def dedicatedTotal (txDedicatedLimit : Nat → Nat) : Nat :=
  ((List.range stlMaxVls).map txDedicatedLimit).sum

structure Divided (c : BfrConfig) (n : BfrInput) (x : BfrRule × BfrState) : Prop where
  remaining : 0 ≤ x.2.remainingSize
  total_le : n.shmem = false → dedicatedTotal x.2.txDedicatedLimit ≤ n.memSize
  total : n.shmem = true → (dedicatedTotal x.2.txDedicatedLimit : Int) + x.2.remainingSize +
    minShared c n = n.memSize
  vl15 : packetSize c n 15 + n.wd ≤ x.2.txDedicatedLimit 15
  packets : x.1 ≠ .c → ∀ j < stlMaxVls, 0 < n.pbw j → packetSize c n j ≤ x.2.txDedicatedLimit j

theorem restart_lt (s : BfrState) : (s.restart c n).remainingSize < 65536 := by
  show (n.memSize : Int) - minShared c n < 65536
  have := n.memSize_lt
  omega

theorem Taken.divided {rule : BfrRule}
    (h : Taken size (List.range stlMaxVls) (s.restart c n) r) (hremaining : 0 ≤ r.remainingSize)
    (hvl15 : packetSize c n 15 + n.wd ≤ size 15)
    (hpackets : rule ≠ .c → ∀ j < stlMaxVls, 0 < n.pbw j → packetSize c n j ≤ size j) :
    Divided c n (rule, r) := by
  have htotal := h.total
  change ((dedicatedTotal r.txDedicatedLimit : Nat) : Int) + r.remainingSize =
    (n.memSize : Int) - minShared c n at htotal
  constructor
  · exact hremaining
  · intro _
    show dedicatedTotal r.txDedicatedLimit ≤ n.memSize
    omega
  · intro _
    show (dedicatedTotal r.txDedicatedLimit : Int) + r.remainingSize + minShared c n = n.memSize
    omega
  · show _ ≤ r.txDedicatedLimit 15
    rw [h.inside 15 (by decide)]
    exact hvl15
  · intro hrule j hj hbw
    show _ ≤ r.txDedicatedLimit j
    rw [h.inside j (List.mem_range.mpr hj)]
    exact hpackets hrule j hj hbw

theorem tryRanks_ruleB
    (h : 0 ≤ (tryRanks (attemptB c n) (rankBw n.pbw) s).remainingSize) :
    Divided c n (.b, tryRanks (attemptB c n) (rankBw n.pbw) s) := by
  obtain ⟨rank, s', heq, _⟩ := tryRanks_cases (attemptB c n) (rankBw_ne_nil n.pbw) s
  rw [heq] at h ⊢
  apply (ruleB_taken List.nodup_range (restart_lt s') h).divided h
  · exact Nat.le_of_eq (if_pos (Or.inr rfl)).symm
  · intro _ j _ _
    unfold sizeB
    split <;> omega

theorem sizeC_last (packets : Nat → Nat) (wd : Nat) {rank : Int}
    (hrank : ∀ j < stlMaxVls, pbw j ≤ rank) :
    ((List.range stlMaxVls).map (sizeC packets wd pbw rank)).sum = packets 15 + wd := by
  have hsize : ∀ j ∈ List.range stlMaxVls, sizeC packets wd pbw rank j =
      if j = 15 then packets 15 + wd else 0 := by
    intro j hj
    have hle := hrank j (List.mem_range.mp hj)
    unfold sizeC
    by_cases h15 : j = 15
    · rw [if_pos (Or.inr h15), if_pos h15, h15]
    · rw [if_neg (not_or.mpr ⟨Int.not_lt.mpr hle, h15⟩), if_neg h15]
  rw [List.map_congr_left hsize]
  generalize packets 15 + wd = k
  show ((List.range 32).map fun j => if j = 15 then k else 0).sum = k
  simp [List.range_succ]

theorem tryRanks_ruleC (hmem : packetSize c n 15 + n.wd ≤ n.memSize) :
    Divided c n (.c, tryRanks (attemptC c n) (rankBw n.pbw) s) := by
  obtain ⟨rank, s', heq, hcase⟩ := tryRanks_cases (attemptC c n) (rankBw_ne_nil n.pbw) s
  have hremaining : 0 ≤ (attemptC c n rank s').2.remainingSize := by
    rcases hcase with hgood | hlast
    · unfold attemptC at hgood ⊢
      dsimp only at hgood ⊢
      rw [Bool.and_eq_true] at hgood
      exact of_decide_eq_true hgood.1
    · apply ruleC_fits
      have hrank : ∀ j < stlMaxVls, n.pbw j ≤ rank := by
        intro j hj
        rw [hlast]
        exact le_lastRank hj
      rw [sizeC_last _ _ hrank]
      have hroom := minShared_room hmem
      show ((packetSize c n 15 + n.wd : Nat) : Int) ≤ (n.memSize : Int) - minShared c n
      omega
  rw [heq]
  apply (ruleC_taken List.nodup_range (restart_lt s') hremaining).divided hremaining
  · exact Nat.le_of_eq (if_pos (Or.inr rfl)).symm
  · exact fun h => absurd rfl h

def firstRule (c : BfrConfig) (n : BfrInput) : Int × BfrState :=
  ruleA (packetSize c n) n.wd (List.range stlMaxVls) 1 (BfrState.restart c n ⟨0, fun _ => 0⟩)

theorem firstRule_taken (h : 0 ≤ (firstRule c n).2.remainingSize) :
    Taken (sizeA (packetSize c n) n.wd) (List.range stlMaxVls)
        (BfrState.restart c n ⟨0, fun _ => 0⟩) (firstRule c n).2 ∧
      (firstRule c n).1 = 1 + ((List.range stlMaxVls).map (packetSize c n)).sum :=
  ruleA_taken List.nodup_range (restart_lt _) (fun _ _ => rfl) h

theorem sizeA_vl15 (c : BfrConfig) (n : BfrInput) :
    sizeA (packetSize c n) n.wd 15 = packetSize c n 15 + n.wd :=
  if_pos (packetSize_vl15_pos c n)

theorem le_sizeA (packets : Nat → Nat) (wd j : Nat) : packets j ≤ sizeA packets wd j := by
  unfold sizeA
  split <;> omega

theorem firstRule_divided (h : 0 ≤ (firstRule c n).2.remainingSize) :
    Divided c n (.a, (firstRule c n).2) := by
  apply (firstRule_taken h).1.divided h
  · exact Nat.le_of_eq (sizeA_vl15 c n).symm
  · exact fun _ j _ _ => le_sizeA _ _ j

theorem ruleAgain_divided {k : Nat} (h : 0 ≤ (firstRule c n).2.remainingSize)
    (hshmem : n.shmem = false) (hk : (firstRule c n).2.remainingSize.tdiv (firstRule c n).1 = k) :
    Divided c n (.a, ruleAgain (packetSize c n) k (List.range stlMaxVls) (firstRule c n).2) := by
  obtain ⟨htaken, hinterval⟩ := firstRule_taken h
  have htotal := htaken.remaining
  change _ = (n.memSize : Int) - minShared c n at htotal
  have hfits : k * ((List.range stlMaxVls).map (packetSize c n)).sum ≤
      (firstRule c n).2.remainingSize.toNat := by
    rw [Int.tdiv_eq_ediv_of_nonneg h, hinterval] at hk
    have hmul := Int.ediv_mul_le (firstRule c n).2.remainingSize
      (b := 1 + ((List.range stlMaxVls).map (packetSize c n)).sum) (by omega)
    rw [hk, Int.mul_add, Int.mul_one, ← Int.natCast_mul] at hmul
    omega
  have hsum : ((List.range stlMaxVls).map fun j =>
        sizeA (packetSize c n) n.wd j + packetSize c n j * k).sum ≤ n.memSize := by
    rw [List.sum_map_add, List.sum_map_mul_right, Nat.mul_comm _ k]
    omega
  have hlt : ∀ j ∈ List.range stlMaxVls,
      (firstRule c n).2.txDedicatedLimit j + packetSize c n j * k < 65536 := by
    intro j hj
    rw [htaken.inside j hj]
    have hle := List.le_sum_of_mem (List.mem_map_of_mem
      (f := fun j => sizeA (packetSize c n) n.wd j + packetSize c n j * k) hj)
    exact Nat.lt_of_le_of_lt (Nat.le_trans hle hsum) n.memSize_lt
  obtain ⟨hremaining, hlimits⟩ := ruleAgain_limits List.nodup_range hlt
  have hlimit : ∀ j ∈ List.range stlMaxVls,
      (ruleAgain (packetSize c n) k (List.range stlMaxVls) (firstRule c n).2).txDedicatedLimit j =
        sizeA (packetSize c n) n.wd j + packetSize c n j * k := by
    intro j hj
    rw [hlimits, htaken.inside j hj, if_pos hj]
  constructor
  · exact hremaining ▸ h
  · intro _
    show dedicatedTotal _ ≤ n.memSize
    rw [dedicatedTotal, List.map_congr_left hlimit]
    exact hsum
  · intro hyes
    rw [hshmem] at hyes
    exact absurd hyes Bool.false_ne_true
  · show _ ≤ BfrState.txDedicatedLimit _ 15
    rw [hlimit 15 (by decide), sizeA_vl15]
    exact Nat.le_add_right _ _
  · intro _ j hj _
    show _ ≤ BfrState.txDedicatedLimit _ j
    rw [hlimit j (List.mem_range.mpr hj)]
    exact Nat.le_trans (le_sizeA _ n.wd j) (Nat.le_add_right _ _)

def afterRuleA (c : BfrConfig) (n : BfrInput) : BfrState :=
  let intervalSize := (firstRule c n).2.remainingSize.tdiv (firstRule c n).1
  if n.shmem = false ∧ 0 < intervalSize then
    ruleAgain (packetSize c n) intervalSize (List.range stlMaxVls) (firstRule c n).2
  else (firstRule c n).2

def afterRuleB (c : BfrConfig) (n : BfrInput) : BfrRule × BfrState :=
  if (afterRuleA c n).remainingSize < 0 ∧ 0 < n.wd then
    (.b, tryRanks (attemptB c n) (rankBw n.pbw) (afterRuleA c n))
  else (.a, afterRuleA c n)

theorem applyRules_eq (c : BfrConfig) (n : BfrInput) :
    applyRules c n =
      if (afterRuleB c n).2.remainingSize < 0 then
        (.c, tryRanks (attemptC c n) (rankBw n.pbw) (afterRuleB c n).2)
      else afterRuleB c n :=
  rfl

theorem afterRuleA_divided (h : 0 ≤ (afterRuleA c n).remainingSize) :
    Divided c n (.a, afterRuleA c n) := by
  unfold afterRuleA at h ⊢
  dsimp only at h ⊢
  by_cases hagain : n.shmem = false ∧
      0 < (firstRule c n).2.remainingSize.tdiv (firstRule c n).1
  · rw [if_pos hagain]
    have hfirst : 0 ≤ (firstRule c n).2.remainingSize := by
      -- the quotient of a negative size is not positive
      by_contra hneg
      have hinterval : 0 < (firstRule c n).1 := ruleA_interval_pos Int.one_pos
      have hquot := Int.tdiv_nonneg (a := -(firstRule c n).2.remainingSize) (by omega)
        (Int.le_of_lt hinterval)
      rw [Int.neg_tdiv] at hquot
      omega
    obtain ⟨k, hk⟩ := Int.eq_ofNat_of_zero_le (Int.le_of_lt hagain.2)
    rw [hk]
    exact ruleAgain_divided hfirst hagain.1 hk
  · rw [if_neg hagain] at h ⊢
    exact firstRule_divided h

theorem applyRules_divided (hmem : packetSize c n 15 + n.wd ≤ n.memSize) :
    Divided c n (applyRules c n) := by
  rw [applyRules_eq]
  by_cases hfail : (afterRuleB c n).2.remainingSize < 0
  · rw [if_pos hfail]
    exact tryRanks_ruleC hmem
  · rw [if_neg hfail]
    have hleft := Int.not_lt.mp hfail
    unfold afterRuleB at hleft ⊢
    by_cases hrank : (afterRuleA c n).remainingSize < 0 ∧ 0 < n.wd
    · rw [if_pos hrank] at hleft ⊢
      exact tryRanks_ruleB hleft
    · rw [if_neg hrank] at hleft ⊢
      exact afterRuleA_divided hleft

/-! ## The table -/

/-- How the memory is to be divided. -/
structure BufferSplit (c : BfrConfig) (n : BfrInput) (x : Status × BufferControlTable) : Prop where
  total_le : dedicatedTotal x.2.txDedicatedLimit + x.2.txOverallSharedLimit ≤ n.memSize
  total : n.shmem = true →
    dedicatedTotal x.2.txDedicatedLimit + x.2.txOverallSharedLimit = n.memSize
  shared_le : ∀ j, x.2.txSharedLimit j ≤ x.2.txOverallSharedLimit
  vl15 : packetSize c n 15 + n.wd ≤ x.2.txDedicatedLimit 15
  packets : x.1 = .ok → ∀ j < stlMaxVls, 0 < n.pbw j → packetSize c n j ≤ x.2.txDedicatedLimit j

theorem toLimit_of_le {k : Int} (h0 : 0 ≤ k) (h : k < 65536) : (toLimit k : Int) = k := by
  unfold toLimit
  omega

theorem setupBufferControl_split (c : BfrConfig) (n : BfrInput)
    (hmem : packetSize c n 15 + n.wd ≤ n.memSize) : BufferSplit c n (setupBufferControl c n) := by
  have h := applyRules_divided hmem
  have hlt := n.memSize_lt
  have hpackets : (setupBufferControl c n).1 = .ok → (applyRules c n).1 ≠ .c := by
    intro hok hrule
    change (if (applyRules c n).1 = .c then Status.bad else .ok) = .ok at hok
    rw [if_pos hrule] at hok
    cases hok
  have hoverall : (setupBufferControl c n).2.txOverallSharedLimit =
      if n.shmem then (applyRules c n).2.remainingSize.toNat + minShared c n else 0 := by
    have hremaining := h.remaining
    show toLimit (if n.shmem then (applyRules c n).2.remainingSize + minShared c n else 0) = _
    by_cases hshmem : n.shmem = true
    · have htotal := h.total hshmem
      rw [if_pos hshmem, if_pos hshmem]
      have hlimit := toLimit_of_le (k := (applyRules c n).2.remainingSize + minShared c n)
        (by omega) (by omega)
      omega
    · rw [if_neg hshmem, if_neg hshmem]
      rfl
  constructor
  · rw [hoverall]
    show dedicatedTotal (applyRules c n).2.txDedicatedLimit + _ ≤ n.memSize
    by_cases hshmem : n.shmem = true
    · have htotal := h.total hshmem
      have hremaining := h.remaining
      rw [if_pos hshmem]
      omega
    · rw [if_neg hshmem, Nat.add_zero]
      exact h.total_le (Bool.not_eq_true _ ▸ hshmem)
  · intro hshmem
    have htotal := h.total hshmem
    have hremaining := h.remaining
    rw [hoverall, if_pos hshmem]
    show dedicatedTotal (applyRules c n).2.txDedicatedLimit + _ = n.memSize
    omega
  · intro j
    show (if _ then _ else 0) ≤ _
    split
    · exact Nat.le_refl _
    · exact Nat.zero_le _
  · exact h.vl15
  · intro hok
    exact h.packets (hpackets hok)

def smallBuffer : BfrInput where
  memSize := 300
  pbw j := if j = 0 then 100 else 0
  pmtu _ := 6
  wd := 60
  au := 64
  shmem := true
  memSize_lt := by decide
  au_pos := by decide

theorem defaultShared_le : 0 ≤ 100 := Nat.zero_le 100

theorem defaultMulti_lt : 1 < 256 := by decide

def defaultBfrConfig : BfrConfig where
  minSharedVLMem := 0
  dedicatedVLMemMulti := 1
  minShared_le := defaultShared_le
  multi_lt := defaultMulti_lt

theorem setupBufferControl_split_small :
    packetSize defaultBfrConfig smallBuffer 15 + smallBuffer.wd ≤ smallBuffer.memSize ∧
      BufferSplit defaultBfrConfig smallBuffer (setupBufferControl defaultBfrConfig smallBuffer) :=
  ⟨by decide, setupBufferControl_split defaultBfrConfig smallBuffer (by decide)⟩

end OpaFm.SmQos
