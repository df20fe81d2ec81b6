import OpaFm.SmQos.VlArb

/-!
# The preemption matrix

The ranks are collected up to the first VL without a virtual fabric, so that the matrix is right
where no VL that takes part in preemption stands behind a gap.
-/

namespace OpaFm.SmQos

open OpaFm.Routing

variable {vFabric : Nat → PreemptVF} {vlvfmap : VlVfMap} {numVls n i j vl : Nat} {r : Nat → Nat}

def rankOf (vFabric : Nat → PreemptVF) (vlvfmap : VlVfMap) (vl : Nat) : Nat :=
  match vlvfmap vl with
  | [] => 0
  | vf :: _ => (vFabric vf).preemptRank

def Preempts (vFabric : Nat → PreemptVF) (vlvfmap : VlVfMap) (numVls i j : Nat) : Prop :=
  (i < numVls ∧ i ≠ mgmtVl) ∧ (j < numVls ∧ j ≠ mgmtVl) ∧
    rankOf vFabric vlvfmap j ≠ 0 ∧ rankOf vFabric vlvfmap j < rankOf vFabric vlvfmap i

def Scanned (vlvfmap : VlVfMap) (numVls vl : Nat) : Prop :=
  ∀ k ≤ vl, vlvfmap k ≠ [] ∧ k < numVls ∧ k ≠ mgmtVl

theorem rankLoop_of_lt (hvl : vl < i) : rankLoop vFabric vlvfmap numVls n i r vl = r vl := by
  induction n generalizing i r with
  | zero => rfl
  | succ n ih =>
    unfold rankLoop
    cases vlvfmap i with
    | nil => rfl
    | cons vf _ =>
      simp only
      split
      · rfl
      · rw [ih (Nat.lt_succ_of_lt hvl), Function.update_of_ne (Nat.ne_of_lt hvl)]

theorem rankLoop_spec (hi : ∀ k < i, vlvfmap k ≠ [] ∧ k < numVls ∧ k ≠ mgmtVl)
    (hr : ∀ k, i ≤ k → r k = 0) (hvl : i ≤ vl) (hn : vl < i + n) :
    (Scanned vlvfmap numVls vl →
      rankLoop vFabric vlvfmap numVls n i r vl = rankOf vFabric vlvfmap vl) ∧
    (¬Scanned vlvfmap numVls vl → rankLoop vFabric vlvfmap numVls n i r vl = 0) := by
  induction n generalizing i r with
  | zero => omega
  | succ n ih =>
    unfold rankLoop
    cases hvf : vlvfmap i with
    | nil =>
      constructor
      · exact fun h => absurd hvf (h i hvl).1
      · exact fun _ => hr vl hvl
    | cons vf rest =>
      simp only
      by_cases hend : numVls ≤ i ∨ i = mgmtVl
      · rw [if_pos hend]
        constructor
        · intro h
          obtain ⟨-, hlt, hne⟩ := h i hvl
          omega
        · exact fun _ => hr vl hvl
      · rw [if_neg hend]
        have hi' : ∀ k < i + 1, vlvfmap k ≠ [] ∧ k < numVls ∧ k ≠ mgmtVl := by
          intro k hk
          by_cases hki : k = i
          · subst hki
            refine ⟨?_, by omega, by omega⟩
            rw [hvf]
            exact List.cons_ne_nil _ _
          · exact hi k (by omega)
        rcases Nat.eq_or_lt_of_le hvl with rfl | hlt
        · rw [rankLoop_of_lt (Nat.lt_succ_self _), Function.update_self]
          constructor
          · intro _
            unfold rankOf
            rw [hvf]
          · exact fun h => absurd (fun k hk => hi' k (Nat.lt_succ_of_le hk)) h
        · apply ih hi' _ hlt (by omega)
          intro k hk
          rw [Function.update_of_ne (by omega)]
          exact hr k (by omega)

theorem vlRanks_scanned (hvl : vl < stlMaxVls) (h : Scanned vlvfmap numVls vl) :
    vlRanks vFabric vlvfmap numVls vl = rankOf vFabric vlvfmap vl :=
  (rankLoop_spec (fun _ hk => absurd hk (Nat.not_lt_zero _)) (fun _ _ => rfl) (Nat.zero_le _)
    (by omega)).1 h

theorem vlRanks_not_scanned (hvl : vl < stlMaxVls) (h : ¬Scanned vlvfmap numVls vl) :
    vlRanks vFabric vlvfmap numVls vl = 0 :=
  (rankLoop_spec (fun _ hk => absurd hk (Nat.not_lt_zero _)) (fun _ _ => rfl) (Nat.zero_le _)
    (by omega)).2 h

theorem foldl_row (test : Nat → Prop) [DecidablePred test] (l : List Nat) (row : BitVec 32)
    (hj : j < 32) :
    (l.foldl (fun row j => if test j then row ||| 1#32 <<< j else row) row).getLsbD j = true ↔
      row.getLsbD j = true ∨ (j ∈ l ∧ test j) := by
  induction l generalizing row with
  | nil => simp
  | cons k l ih =>
    rw [List.foldl_cons, ih]
    by_cases hk : test k
    · rw [if_pos hk]
      have hbit : (row ||| 1#32 <<< k).getLsbD j = true ↔ row.getLsbD j = true ∨ j = k := by
        rw [BitVec.getLsbD_or, Bool.or_eq_true]
        apply or_congr_right
        simp only [BitVec.getLsbD_shiftLeft, BitVec.getLsbD_one]
        simp only [hj, decide_true, Bool.true_and, Bool.and_eq_true, Bool.not_eq_true',
          decide_eq_false_iff_not, decide_eq_true_eq]
        omega
      rw [hbit, List.mem_cons]
      constructor
      · rintro ((h | rfl) | ⟨h, ht⟩)
        · exact .inl h
        · exact .inr ⟨.inl rfl, hk⟩
        · exact .inr ⟨.inr h, ht⟩
      · rintro (h | ⟨rfl | h, ht⟩)
        · exact .inl (.inl h)
        · exact .inl (.inr rfl)
        · exact .inr ⟨h, ht⟩
    · rw [if_neg hk, List.mem_cons]
      apply or_congr_right
      constructor
      · exact fun ⟨h, ht⟩ => ⟨.inr h, ht⟩
      · rintro ⟨rfl | h, ht⟩
        · exact absurd ht hk
        · exact ⟨h, ht⟩

theorem matrixRow_bit (hj : j < 32) :
    (matrixRow r numVls i).getLsbD j = true ↔
      i < numVls ∧ j < numVls ∧ r j ≠ 0 ∧ r j < r i := by
  unfold matrixRow
  by_cases hi : i < numVls
  · rw [if_pos hi, foldl_row (fun j => r j ≠ 0 ∧ r i ≠ 0 ∧ r j < r i) _ _ hj, List.mem_range]
    have hzero : ¬(0 : BitVec 32).getLsbD j = true := by simp
    rw [or_iff_right hzero, and_iff_right hi]
    constructor
    · exact fun ⟨hj, hrj, _, hlt⟩ => ⟨hj, hrj, hlt⟩
    · exact fun ⟨hj, hrj, hlt⟩ => ⟨hj, hrj, by omega, hlt⟩
  · rw [if_neg hi]
    simp [hi]

structure MatrixMeets (vFabric : Nat → PreemptVF) (vlvfmap : VlVfMap) (numVls : Nat)
    (matrix : Nat → BitVec 32) : Prop where
  bit : ∀ i < stlMaxVls, ∀ j < stlMaxVls,
    ((matrix i).getLsbD j = true ↔ Preempts vFabric vlvfmap numVls i j)
  irrefl : ∀ i < stlMaxVls, (matrix i).getLsbD i = false
  trans : ∀ i < stlMaxVls, ∀ j < stlMaxVls, ∀ k < stlMaxVls, (matrix i).getLsbD j = true →
    (matrix j).getLsbD k = true → (matrix i).getLsbD k = true

/-- No VL up to one that takes part in preemption is without a virtual fabric, or VL15. -/
def NoGap (vFabric : Nat → PreemptVF) (vlvfmap : VlVfMap) (numVls : Nat) : Prop :=
  ∀ i < stlMaxVls, ∀ j < stlMaxVls, Preempts vFabric vlvfmap numVls i j →
    ∀ k ≤ max i j, vlvfmap k ≠ [] ∧ k ≠ mgmtVl

theorem matrixMeets_iff : MatrixMeets vFabric vlvfmap numVls
      (matrixRow (vlRanks vFabric vlvfmap numVls) numVls) ↔ NoGap vFabric vlvfmap numVls := by
  constructor
  · intro h i hi j hj hpre k hk
    obtain ⟨-, -, hrj, hlt⟩ := (matrixRow_bit hj).mp ((h.bit i hi j hj).mpr hpre)
    have hscan : ∀ vl < stlMaxVls, vlRanks vFabric vlvfmap numVls vl ≠ 0 →
        Scanned vlvfmap numVls vl := by
      intro vl hvl hne
      by_contra hnot
      exact hne (vlRanks_not_scanned hvl hnot)
    rcases le_max_iff.mp hk with hk | hk
    · have hki := hscan i hi (by omega) k hk
      exact ⟨hki.1, hki.2.2⟩
    · have hkj := hscan j hj hrj k hk
      exact ⟨hkj.1, hkj.2.2⟩
  · intro h
    constructor
    · intro i hi j hj
      rw [matrixRow_bit hj]
      constructor
      · rintro ⟨hin, hjn, hrj, hlt⟩
        have hsj : Scanned vlvfmap numVls j := by
          by_contra hnot
          exact hrj (vlRanks_not_scanned hj hnot)
        have hsi : Scanned vlvfmap numVls i := by
          by_contra hnot
          rw [vlRanks_not_scanned hi hnot] at hlt
          omega
        rw [vlRanks_scanned hj hsj] at hrj hlt
        rw [vlRanks_scanned hi hsi] at hlt
        exact ⟨⟨hin, (hsi i le_rfl).2.2⟩, ⟨hjn, (hsj j le_rfl).2.2⟩, hrj, hlt⟩
      · intro hpre
        have hgap := h i hi j hj hpre
        obtain ⟨⟨hin, -⟩, ⟨hjn, -⟩, hrj, hlt⟩ := hpre
        have hsi : Scanned vlvfmap numVls i := fun k hk =>
          ⟨(hgap k (by omega)).1, by omega, (hgap k (by omega)).2⟩
        have hsj : Scanned vlvfmap numVls j := fun k hk =>
          ⟨(hgap k (by omega)).1, by omega, (hgap k (by omega)).2⟩
        rw [vlRanks_scanned hj hsj, vlRanks_scanned hi hsi]
        exact ⟨hin, hjn, hrj, hlt⟩
    · intro i hi
      rw [Bool.eq_false_iff, ne_eq, matrixRow_bit hi]
      omega
    · intro i hi j hj k hk hij hjk
      rw [matrixRow_bit hj] at hij
      rw [matrixRow_bit hk] at hjk ⊢
      exact ⟨hij.1, hjk.2.1, hjk.2.2.1, by omega⟩

theorem qosFillVlarbTable_matrix {portp : QosPort} {qos qos' : Qos} {arbp arbp' : PortDataVLArb}
    (h : qosFillVlarbTable portp qos arbp = some (qos', arbp')) :
    arbp'.vlarbMatrix = arbp.vlarbMatrix := by
  unfold qosFillVlarbTable at h
  simp only at h
  split at h
  · obtain ⟨⟨q, entries⟩, -, heq⟩ := Option.map_eq_some_iff.mp h
    obtain ⟨rfl, rfl⟩ := Prod.mk.inj heq
    rfl
  · obtain ⟨rfl, rfl⟩ := Prod.mk.inj (Option.some.inj h)
    rfl

def arbVlvfMap (vFabric : Nat → PreemptVF) (smQos : Nat → Qos) (vlCap : Nat) :
    Option QosPort → VlVfMap
  | none => (getQos smQos vlCap).vlvf
  | some portp => (smSelectVlvfMap vFabric (getQos smQos portp.vl1) portp).2

def arbNumVls (vlCap : Nat) : Option QosPort → Nat
  | none => vlCap
  | some portp => portp.vl1

theorem smFillStlVlarbTable_matrix {smQos smQos' : Nat → Qos} {vlCap : Nat}
    {portp : Option QosPort} {arbp arbp' : PortDataVLArb} {status : Status}
    (hfilter : portp.any QosPort.qosHfiFilter = false)
    (h : smFillStlVlarbTable (some vFabric) smQos vlCap portp arbp =
      some (status, arbp', smQos')) :
    arbp'.vlarbMatrix =
      matrixRow (vlRanks vFabric (arbVlvfMap vFabric smQos vlCap portp) (arbNumVls vlCap portp))
        (arbNumVls vlCap portp) := by
  unfold smFillStlVlarbTable at h
  rw [if_neg (by simp [hfilter])] at h
  cases portp with
  | none =>
    obtain ⟨-, rfl, -⟩ := Option.some.inj h
    rfl
  | some portp =>
    obtain ⟨⟨qos, arb⟩, hfill, heq⟩ := Option.map_eq_some_iff.mp h
    obtain ⟨-, rfl, -⟩ := heq
    exact qosFillVlarbTable_matrix hfill

/-- `sm_fill_stl_vlarb_table` fills in who preempts whom exactly where no VL below a VL that
takes part is without a virtual fabric. -/
theorem smFillStlVlarbTable_meets_iff {smQos smQos' : Nat → Qos} {vlCap : Nat}
    {portp : Option QosPort} {arbp arbp' : PortDataVLArb} {status : Status}
    (hfilter : portp.any QosPort.qosHfiFilter = false)
    (h : smFillStlVlarbTable (some vFabric) smQos vlCap portp arbp =
      some (status, arbp', smQos')) :
    MatrixMeets vFabric (arbVlvfMap vFabric smQos vlCap portp) (arbNumVls vlCap portp)
        arbp'.vlarbMatrix ↔
      NoGap vFabric (arbVlvfMap vFabric smQos vlCap portp) (arbNumVls vlCap portp) := by
  rw [smFillStlVlarbTable_matrix hfilter h]
  exact matrixMeets_iff

/-- Four VLs with one virtual fabric each, where a host is a member of some. -/
def fourVlQos : Qos where
  numVLs := 4
  activeVLs := 4
  scvl sc := sc % 4
  highPriorityVLs := {0, 1, 2, 3}
  lowPriorityVLs := ∅
  bw _ := 0
  vlvf vl := if vl < 4 then [vl] else []

def fourVlFabrics (vf : Nat) : PreemptVF := { index := vf, pkey := 0x8001 + vf, preemptRank := vf }

def memberPort (vfMember : Finset Nat) : QosPort where
  vl1 := 4
  maxVlMtu := 7
  arbitrationLowCap := 16
  arbitrationHighCap := 16
  isCa := true
  vfMember := vfMember
  neighborVfMember := none

theorem smFillStlVlarbTable_meets_iff_member : ∃ arbp' smQos',
    smFillStlVlarbTable (some fourVlFabrics) (fun _ => fourVlQos) 4
        (some (memberPort {0, 1, 2, 3})) (smFillVlarbTableDefault 4) = some (.ok, arbp', smQos') ∧
      (MatrixMeets fourVlFabrics
          (arbVlvfMap fourVlFabrics (fun _ => fourVlQos) 4 (some (memberPort {0, 1, 2, 3}))) 4
          arbp'.vlarbMatrix ↔
        NoGap fourVlFabrics
          (arbVlvfMap fourVlFabrics (fun _ => fourVlQos) 4 (some (memberPort {0, 1, 2, 3}))) 4) := by
  have h : smFillStlVlarbTable (some fourVlFabrics) (fun _ => fourVlQos) 4
      (some (memberPort {0, 1, 2, 3})) (smFillVlarbTableDefault 4) = some (.ok, _, _) := rfl
  exact ⟨_, _, h, smFillStlVlarbTable_meets_iff rfl h⟩

/-- A host that is no member of the virtual fabric on VL1: VL3 has the greater rank, but no bit
for VL2. -/
theorem smFillStlVlarbTable_misses : ∃ arbp' smQos',
    smFillStlVlarbTable (some fourVlFabrics) (fun _ => fourVlQos) 4
        (some (memberPort {0, 2, 3})) (smFillVlarbTableDefault 4) = some (.ok, arbp', smQos') ∧
      (arbp'.vlarbMatrix 3).getLsbD 2 = false ∧
      ¬MatrixMeets fourVlFabrics
        (arbVlvfMap fourVlFabrics (fun _ => fourVlQos) 4 (some (memberPort {0, 2, 3}))) 4
        arbp'.vlarbMatrix := by
  refine ⟨_, _, rfl, by decide, ?_⟩
  intro h
  have hpre : Preempts fourVlFabrics
      (arbVlvfMap fourVlFabrics (fun _ => fourVlQos) 4 (some (memberPort {0, 2, 3}))) 4 3 2 := by
    unfold Preempts mgmtVl
    decide
  have hbit := (h.bit 3 (by decide) 2 (by decide)).mpr hpre
  exact absurd hbit (by decide)

end OpaFm.SmQos
