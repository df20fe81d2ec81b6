import Mathlib.Data.List.Forall2
import Mathlib.Data.List.Nodup
import OpaFm.SmQos.Vls

/-!
# The bandwidth that is shared

The loop keeps that the next share is what is free divided by the number of virtual fabrics still
without bandwidth, and that there is at least one percent for each of them.
-/

namespace OpaFm.SmQos

open OpaFm.Partition OpaFm.Routing

/-! ## Statements -/

def lowBw (vFabric : List BwVF) : Nat :=
  ((vFabric.filter BwVF.lowPriority).map BwVF.percentBandwidth).sum

def nonQosBw (vFabric : List BwVF) : Nat :=
  ((vFabric.find? fun v => !v.qosEnable).map BwVF.percentBandwidth).getD 0

structure BwAssigned (v w : BwVF) : Prop where
  same : w = { v with percentBandwidth := w.percentBandwidth }
  kept : v.qosEnable = true → v.noBw = false → w.percentBandwidth = v.percentBandwidth
  one_le : v.noBw = true → 1 ≤ w.percentBandwidth

structure BwShared (vFabric vFabric' : List BwVF) : Prop where
  each : List.Forall₂ BwAssigned vFabric vFabric'
  nonQos : ∀ w ∈ vFabric', w.qosEnable = false →
    5 ≤ w.percentBandwidth ∧ w.percentBandwidth = nonQosBw vFabric'
  total_le : lowBw vFabric' + nonQosBw vFabric' ≤ 100
  total : (∃ v ∈ vFabric, v.noBw = true ∨ v.qosEnable = false) →
    lowBw vFabric' + nonQosBw vFabric' = 100

/-! ## Kinds of virtual fabrics -/

inductive BwKind (v : BwVF) : Prop
  | nonQos (hqos : v.qosEnable = false) (hlow : v.lowPriority = false) (hno : v.noBw = false)
  | shares (hqos : v.qosEnable = true) (hprio : v.priority = 0)
      (hbw : v.percentBandwidth = undefinedXml8) (hlow : v.lowPriority = true)
      (hno : v.noBw = true)
  | configured (hqos : v.qosEnable = true) (hprio : v.priority = 0)
      (hbw : v.percentBandwidth ≠ undefinedXml8) (hlow : v.lowPriority = true)
      (hno : v.noBw = false)
  | high (hqos : v.qosEnable = true) (hprio : v.priority ≠ 0) (hlow : v.lowPriority = false)
      (hno : v.noBw = false)

theorem BwVF.kind (v : BwVF) : BwKind v := by
  cases hqos : v.qosEnable with
  | false =>
    have hlow : v.lowPriority = false := by rw [BwVF.lowPriority, hqos, Bool.false_and]
    exact .nonQos hqos hlow (by rw [BwVF.noBw, hlow, Bool.false_and])
  | true =>
    by_cases hprio : v.priority = 0
    · have hlow : v.lowPriority = true := by rw [BwVF.lowPriority, hqos, hprio]; rfl
      by_cases hbw : v.percentBandwidth = undefinedXml8
      · exact .shares hqos hprio hbw hlow (by rw [BwVF.noBw, hlow, hbw]; rfl)
      · apply BwKind.configured hqos hprio hbw hlow
        rw [BwVF.noBw, hlow, Bool.true_and, beq_eq_false_iff_ne]
        exact hbw
    · have hlow : v.lowPriority = false := by
        rw [BwVF.lowPriority, hqos, Bool.true_and, beq_eq_false_iff_ne]
        exact hprio
      exact .high hqos hprio hlow (by rw [BwVF.noBw, hlow, Bool.false_and])

/-! ## Counting -/

def configuredBw (vFabric : List BwVF) : Nat :=
  ((vFabric.filter fun v => v.lowPriority && !v.noBw).map BwVF.percentBandwidth).sum

theorem configuredBw_cons (v : BwVF) (l : List BwVF) :
    configuredBw (v :: l) =
      (if v.lowPriority && !v.noBw then v.percentBandwidth else 0) + configuredBw l := by
  unfold configuredBw
  rw [List.filter_cons]
  split
  · rfl
  · rw [Nat.zero_add]

theorem lowBw_cons (v : BwVF) (l : List BwVF) :
    lowBw (v :: l) = (if v.lowPriority then v.percentBandwidth else 0) + lowBw l := by
  unfold lowBw
  rw [List.filter_cons]
  split
  · rfl
  · rw [Nat.zero_add]

theorem countBw_foldl (t : BwCounts) (l : List BwVF) :
    l.foldl countBw t =
      ⟨t.bwInUse + configuredBw l, t.nonQosVfs + l.countP (fun v => !v.qosEnable),
        t.qosNoBwVfs + l.countP BwVF.noBw⟩ := by
  induction l generalizing t with
  | nil => exact congrArg (BwCounts.mk · _ _) (Int.add_zero _).symm
  | cons v l ih =>
    rw [List.foldl_cons, ih, List.countP_cons, List.countP_cons, configuredBw_cons]
    unfold countBw
    cases v.kind with
    | nonQos hqos hlow hno => simp [hqos, hlow, hno]; omega
    | shares hqos hprio hbw hlow hno => simp [hqos, hprio, hbw, hlow, hno]; omega
    | configured hqos hprio hbw hlow hno => simp [hqos, hprio, hbw, hlow, hno]; omega
    | high hqos hprio hlow hno => simp [hqos, hprio, hlow, hno]

/-! ## One share after the other -/

theorem toUint8_of_le {n : Int} (h0 : 0 ≤ n) (h100 : n ≤ 100) : (toUint8 n : Int) = n := by
  unfold toUint8
  omega

theorem share_step {free share : Int} {q : Nat} (hfree : (q + 1 : Nat) ≤ free)
    (hshare : share = free / (q + 1 : Nat)) :
    1 ≤ share ∧ share ≤ free ∧ (q : Int) ≤ free - share ∧ (q = 0 → share = free) := by
  have hle : share * (q + 1 : Nat) ≤ free := by
    rw [hshare]
    exact Int.ediv_mul_le free (by omega)
  have hone : 1 ≤ share := by
    rw [hshare]
    apply Int.le_ediv_of_mul_le (by omega)
    omega
  have hrest : (q : Int) ≤ share * q := by
    calc
      (q : Int) = 1 * q := (Int.one_mul _).symm
      _ ≤ share * q := Int.mul_le_mul_of_nonneg_right hone (Int.natCast_nonneg q)
  have hsplit : share * (q + 1 : Nat) = share * q + share := by
    rw [Int.natCast_succ, Int.mul_add, Int.mul_one]
  refine ⟨hone, by omega, by omega, ?_⟩
  intro hq
  rw [hshare, hq]
  exact Int.ediv_one free

structure LoopAssigned (nonQosShareSz free : Int) (l out : List BwVF) : Prop where
  each : List.Forall₂ BwAssigned l out
  nonQos : ∀ w ∈ out, w.qosEnable = false → (w.percentBandwidth : Int) = nonQosShareSz
  none_left : ∀ w ∈ out, w.noBw = false
  total : (lowBw out : Int) = configuredBw l + if l.countP BwVF.noBw = 0 then 0 else free

theorem LoopAssigned.cons {nonQosShareSz free free' : Int} {l out : List BwVF} {v w : BwVF}
    (h : LoopAssigned nonQosShareSz free l out) (hvw : BwAssigned v w)
    (hnon : w.qosEnable = false → (w.percentBandwidth : Int) = nonQosShareSz)
    (hno : w.noBw = false)
    (htotal : ((if w.lowPriority then w.percentBandwidth else 0 : Nat) : Int) +
        (if l.countP BwVF.noBw = 0 then 0 else free) =
      (if v.lowPriority && !v.noBw then v.percentBandwidth else 0 : Nat) +
        if (v :: l).countP BwVF.noBw = 0 then 0 else free') :
    LoopAssigned nonQosShareSz free' (v :: l) (w :: out) := by
  constructor
  · exact List.Forall₂.cons hvw h.each
  · exact List.forall_mem_cons.mpr ⟨hnon, h.nonQos⟩
  · exact List.forall_mem_cons.mpr ⟨hno, h.none_left⟩
  · rw [lowBw_cons, configuredBw_cons]
    have := h.total
    omega

theorem assignBw_assigned {nonQosShareSz free share : Int} {l : List BwVF}
    (hnon : 0 ≤ nonQosShareSz ∧ nonQosShareSz ≤ 100) (hfree : (l.countP BwVF.noBw : Int) ≤ free)
    (hle : free ≤ 100)
    (hshare : l.countP BwVF.noBw ≠ 0 → share = free / (l.countP BwVF.noBw : Nat)) :
    LoopAssigned nonQosShareSz free l
      (assignBw nonQosShareSz free share (l.countP BwVF.noBw) l).1 := by
  induction l generalizing free share with
  | nil => exact ⟨.nil, nofun, nofun, rfl⟩
  | cons v l ih =>
    cases v.kind with
    | nonQos hqos hlow hno =>
      have hcount : (v :: l).countP BwVF.noBw = l.countP BwVF.noBw := by
        rw [List.countP_cons, hno]
        rfl
      rw [hcount] at hfree hshare ⊢
      rw [assignBw, hqos, if_neg Bool.false_ne_true]
      apply (ih hfree hle hshare).cons
      · refine ⟨rfl, fun h => ?_, fun h => ?_⟩
        · exact absurd (hqos.symm.trans h) Bool.false_ne_true
        · exact absurd (hno.symm.trans h) Bool.false_ne_true
      · exact fun _ => toUint8_of_le hnon.1 hnon.2
      · show (v.lowPriority && _) = false
        rw [hlow, Bool.false_and]
      · show ((if v.lowPriority then _ else 0 : Nat) : Int) + _ = _
        rw [hcount, hlow]
        rfl
    | shares hqos hprio hbw hlow hno =>
      have hcount : (v :: l).countP BwVF.noBw = l.countP BwVF.noBw + 1 := by
        rw [List.countP_cons, hno]
        rfl
      rw [hcount] at hfree hshare ⊢
      obtain ⟨hone, hsharele, hrest, hlast⟩ := share_step hfree (hshare (Nat.succ_ne_zero _))
      have hpercent := toUint8_of_le (Int.le_trans Int.one_nonneg hone) (Int.le_trans hsharele hle)
      rw [assignBw, hqos, if_pos rfl, if_pos ⟨hprio, hbw⟩]
      apply (ih hrest (by omega) fun hne => if_neg hne).cons
      · refine ⟨rfl, fun _ h => ?_, fun _ => ?_⟩
        · exact absurd (h.symm.trans hno) Bool.false_ne_true
        · show 1 ≤ toUint8 share
          omega
      · exact fun h => absurd (h.symm.trans hqos) Bool.false_ne_true
      · show (v.lowPriority && toUint8 share == undefinedXml8) = false
        rw [hlow, Bool.true_and, beq_eq_false_iff_ne]
        show toUint8 share ≠ 255
        omega
      · show ((if v.lowPriority then toUint8 share else 0 : Nat) : Int) + _ = _
        rw [hcount, hlow, hno, if_pos rfl, if_neg (Nat.succ_ne_zero _), hpercent]
        show _ = (0 : Int) + free
        by_cases hq : l.countP BwVF.noBw = 0
        · rw [if_pos hq, hlast hq]
          omega
        · rw [if_neg hq]
          omega
    | configured hqos hprio hbw hlow hno =>
      have hcount : (v :: l).countP BwVF.noBw = l.countP BwVF.noBw := by
        rw [List.countP_cons, hno]
        rfl
      rw [hcount] at hfree hshare ⊢
      rw [assignBw, hqos, if_pos rfl, if_neg fun h => hbw h.2]
      apply (ih hfree hle hshare).cons
      · exact ⟨rfl, fun _ _ => rfl, fun h => absurd (hno.symm.trans h) Bool.false_ne_true⟩
      · exact fun h => absurd (h.symm.trans hqos) Bool.false_ne_true
      · exact hno
      · rw [hcount, hlow, hno]
        rfl
    | high hqos hprio hlow hno =>
      have hcount : (v :: l).countP BwVF.noBw = l.countP BwVF.noBw := by
        rw [List.countP_cons, hno]
        rfl
      rw [hcount] at hfree hshare ⊢
      rw [assignBw, hqos, if_pos rfl, if_neg fun h => hprio h.1]
      apply (ih hfree hle hshare).cons
      · exact ⟨rfl, fun _ _ => rfl, fun h => absurd (hno.symm.trans h) Bool.false_ne_true⟩
      · exact fun h => absurd (h.symm.trans hqos) Bool.false_ne_true
      · exact hno
      · rw [hcount, hlow]
        rfl

/-! ## The active list -/

theorem reportBw_same (shareSz : Int) {l : List BwVF} (hnames : (l.map fun v => v.name).Nodup)
    (hno : ∀ v ∈ l, v.noBw = false) (vf : Nat) : reportBw shareSz l vf = l := by
  unfold reportBw
  cases hv : l[vf]? with
  | none => rfl
  | some v =>
    obtain ⟨hvf, hget⟩ := List.getElem?_eq_some_iff.mp hv
    have hset : l.set vf v = l := by
      rw [← hget]
      exact List.set_getElem_self hvf
    have hnov : ¬v.noBw = true := by
      rw [hno v (List.mem_of_getElem? hv)]
      exact Bool.false_ne_true
    dsimp only
    rw [if_neg hnov, hset]
    cases hfind : findVfIdxInActiveList v.toQosVF (l.map (·.toQosVF)) with
    | none => rfl
    | some j =>
      unfold findVfIdxInActiveList at hfind
      split at hfind
      · cases hfind
      · obtain ⟨hj, hname, _⟩ := List.findIdx?_eq_some_iff_getElem.mp hfind
        rw [List.length_map] at hj
        rw [List.getElem_map] at hname
        have hindex : j = vf := by
          have hjlen : j < (l.map fun v => v.name).length := by rwa [List.length_map]
          have hvflen : vf < (l.map fun v => v.name).length := by rwa [List.length_map]
          have hsame : (l.map fun v => v.name)[j] = (l.map fun v => v.name)[vf] := by
            rw [List.getElem_map, List.getElem_map, hget]
            exact (of_decide_eq_true hname).2
          exact hnames.getElem_inj_iff.mp hsame
        dsimp only
        apply List.ext_getElem?
        intro i
        rw [List.getElem?_modify]
        by_cases hi : j = i
        · rw [← hi, hindex, hv]
          exact congrArg some (if_pos rfl)
        · cases l[i]? with
          | none => rfl
          | some w => exact congrArg some (if_neg hi)

theorem reportBw_foldl (shareSz : Int) {l : List BwVF} (hnames : (l.map fun v => v.name).Nodup)
    (hno : ∀ v ∈ l, v.noBw = false) (is : List Nat) : is.foldl (reportBw shareSz) l = l := by
  induction is with
  | nil => rfl
  | cons i is ih => rw [List.foldl_cons, reportBw_same shareSz hnames hno, ih]

/-! ## The first shares -/

structure SharesOf (t : BwCounts) (free : Int) (s : BwShares) : Prop where
  parts : s.freeBw + s.nonQosShareSz = free
  free_le : (t.qosNoBwVfs : Int) ≤ s.freeBw
  nonQos : if t.nonQosVfs = 0 then s.nonQosShareSz = 0 else 5 ≤ s.nonQosShareSz
  rest : t.nonQosVfs ≠ 0 → t.qosNoBwVfs = 0 → s.freeBw = 0
  share : t.qosNoBwVfs ≠ 0 → s.shareSz = s.freeBw / (t.qosNoBwVfs : Nat)

theorem bwShares_spec {t : BwCounts} {free : Int}
    (hneeded : ¬free < ((if t.nonQosVfs = 0 then 0 else 5) + t.qosNoBwVfs : Nat)) :
    SharesOf t free (bwShares t free) := by
  unfold bwShares
  by_cases hnon : t.nonQosVfs = 0
  · rw [if_pos hnon] at hneeded ⊢
    by_cases hq : t.qosNoBwVfs = 0
    · rw [if_pos hq]
      have hle : (t.qosNoBwVfs : Int) ≤ free := by omega
      refine ⟨Int.add_zero _, hle, ?_, fun h => absurd hnon h, fun h => absurd hq h⟩
      rw [if_pos hnon]
    · rw [if_neg hq]
      have hle : (t.qosNoBwVfs : Int) ≤ free := by omega
      refine ⟨Int.add_zero _, hle, ?_, fun h => absurd hnon h, fun _ => rfl⟩
      rw [if_pos hnon]
  · rw [if_neg hnon] at hneeded ⊢
    dsimp only
    split
    case isTrue hsmall =>
      have hq : t.qosNoBwVfs ≠ 0 := by
        intro hq
        rw [hq, Int.natCast_zero, Int.mul_zero] at hsmall
        omega
      have hle : (t.qosNoBwVfs : Int) ≤ free - 5 := by omega
      rw [if_neg hq]
      refine ⟨Int.sub_add_cancel _ _, hle, ?_, fun _ h => absurd h hq, fun _ => rfl⟩
      rw [if_neg hnon]
    case isFalse hlarge =>
      have hcancel : free - (free - free / (t.qosNoBwVfs + 1) * t.qosNoBwVfs) =
          free / (t.qosNoBwVfs + 1) * t.qosNoBwVfs := Int.sub_sub_self _ _
      have hone : 1 ≤ free / ((t.qosNoBwVfs : Int) + 1) := by
        apply Int.le_ediv_of_mul_le (by omega)
        omega
      constructor
      · exact Int.sub_add_cancel _ _
      · rw [hcancel]
        calc
          (t.qosNoBwVfs : Int) = 1 * t.qosNoBwVfs := (Int.one_mul _).symm
          _ ≤ free / (t.qosNoBwVfs + 1) * t.qosNoBwVfs :=
            Int.mul_le_mul_of_nonneg_right hone (Int.natCast_nonneg _)
      · rw [if_neg hnon]
        exact Int.not_lt.mp hlarge
      · intro _ hq
        rw [hcancel, hq]
        exact Int.mul_zero _
      · intro hq
        rw [hcancel]
        exact (Int.mul_ediv_cancel _ (by omega)).symm

/-! ## The whole function -/

theorem bwAssigned_map {β : Type} {f : BwVF → β} {l out : List BwVF}
    (hf : ∀ v p, f { v with percentBandwidth := p } = f v) (h : List.Forall₂ BwAssigned l out) :
    out.map f = l.map f := by
  induction h with
  | nil => rfl
  | cons hvw _ ih => rw [List.map_cons, List.map_cons, ih, hvw.same, hf]

theorem nonQosBw_eq {nonQosShareSz : Int} {l : List BwVF}
    (h : ∀ w ∈ l, w.qosEnable = false → (w.percentBandwidth : Int) = nonQosShareSz)
    (hnone : (l.countP fun v => !v.qosEnable) = 0 → nonQosShareSz = 0) :
    (nonQosBw l : Int) = nonQosShareSz := by
  unfold nonQosBw
  cases hfind : l.find? fun v => !v.qosEnable with
  | none =>
    have hzero := hnone (List.countP_eq_zero.mpr (List.find?_eq_none.mp hfind))
    rw [hzero]
    rfl
  | some w =>
    have hqos : w.qosEnable = false := by simpa using List.find?_some hfind
    exact h w (List.mem_of_find?_eq_some hfind) hqos

theorem bwShared_of_shares {l : List BwVF} {t : BwCounts} {s : BwShares}
    (hnames : (l.map fun v => v.name).Nodup) (ht : t = l.foldl countBw {})
    (hs : SharesOf t (100 - t.bwInUse) s) :
    let r := assignBw s.nonQosShareSz s.freeBw s.shareSz t.qosNoBwVfs l
    BwShared l ((List.range r.1.length).foldl (reportBw r.2) r.1) := by
  dsimp only
  rw [countBw_foldl] at ht
  have hconfigured : t.bwInUse = configuredBw l := by rw [ht]; exact Int.zero_add _
  have hnonQos : t.nonQosVfs = l.countP fun v => !v.qosEnable := by rw [ht]; exact Nat.zero_add _
  have hnoBw : t.qosNoBwVfs = l.countP BwVF.noBw := by rw [ht]; exact Nat.zero_add _
  obtain ⟨hparts, hfree, hnon, hrest, hshare⟩ := hs
  rw [hnoBw] at hfree hshare hrest ⊢
  have hnonneg : 0 ≤ s.nonQosShareSz := by
    by_cases hzero : t.nonQosVfs = 0
    · rw [if_pos hzero] at hnon
      omega
    · rw [if_neg hzero] at hnon
      omega
  have hassigned := assignBw_assigned (l := l) ⟨hnonneg, by omega⟩ hfree (by omega) hshare
  have hqos := bwAssigned_map (f := fun v : BwVF => v.qosEnable) (fun _ _ => rfl) hassigned.each
  have hout := bwAssigned_map (f := fun v : BwVF => v.name) (fun _ _ => rfl) hassigned.each
  revert hassigned hqos hout
  generalize assignBw s.nonQosShareSz s.freeBw s.shareSz (l.countP BwVF.noBw) l = r
  intro hassigned hqos hout
  rw [reportBw_foldl r.2 (by rw [hout]; exact hnames) hassigned.none_left]
  have hcount : (r.1.countP fun v => !v.qosEnable) = t.nonQosVfs := by
    have hmap := congrArg (List.countP (!·)) hqos
    rw [List.countP_map, List.countP_map] at hmap
    exact hmap.trans hnonQos.symm
  have hshared : (nonQosBw r.1 : Int) = s.nonQosShareSz := by
    apply nonQosBw_eq hassigned.nonQos
    intro hzero
    rw [hcount] at hzero
    rwa [if_pos hzero] at hnon
  have htotal := hassigned.total
  constructor
  · exact hassigned.each
  · intro w hw hwqos
    have hsome : t.nonQosVfs ≠ 0 := by
      rw [← hcount]
      intro hzero
      have := List.countP_eq_zero.mp hzero w hw
      rw [hwqos] at this
      exact this rfl
    have hwbw := hassigned.nonQos w hw hwqos
    rw [if_neg hsome] at hnon
    omega
  · split at htotal <;> omega
  · rintro ⟨v, hv, hfree⟩
    by_cases hq : l.countP BwVF.noBw = 0
    · -- then there is one without QoS, and its part is all that is free
      have hnot := List.countP_eq_zero.mp hq v hv
      have hvqos := hfree.resolve_left hnot
      have hsome : t.nonQosVfs ≠ 0 := by
        rw [hnonQos]
        intro hzero
        have := List.countP_eq_zero.mp hzero v hv
        rw [hvqos] at this
        exact this rfl
      have hzero := hrest hsome hq
      rw [if_pos hq] at htotal
      omega
    · rw [if_neg hq] at htotal
      omega

theorem smUpdateBw_shared (vfs : BwFabrics) :
    ((smUpdateBw vfs).1 = .ok → BwShared vfs.vFabric (smUpdateBw vfs).2) ∧
      ((smUpdateBw vfs).1 = .bad → (smUpdateBw vfs).2 = vfs.vFabric) := by
  unfold smUpdateBw
  by_cases hall : vfs.numberOfVfsAll = 0
  · have hempty : vfs.vFabric = [] := by
      apply List.eq_nil_of_length_eq_zero
      have := vfs.active_le
      omega
    rw [if_pos hall, hempty]
    refine ⟨fun _ => ⟨.nil, nofun, Nat.zero_le _, ?_⟩, fun _ => rfl⟩
    rintro ⟨v, hv, _⟩
    exact absurd hv List.not_mem_nil
  · rw [if_neg hall]
    generalize ht : vfs.vFabric.foldl countBw {} = t
    dsimp only
    by_cases hneeded : 100 - t.bwInUse < ((if t.nonQosVfs = 0 then 0 else 5) + t.qosNoBwVfs : Nat)
    · rw [if_pos hneeded]
      exact ⟨nofun, fun _ => rfl⟩
    · rw [if_neg hneeded]
      exact ⟨fun _ => bwShared_of_shares vfs.names ht.symm (bwShares_spec hneeded), nofun⟩

/-- One virtual fabric of high priority, and one with half of the bandwidth. -/
def priorityFabrics : BwFabrics where
  vFabric :=
    [{ index := 0, pkey := 1, name := "a", standby := false, requiresRespSl := false,
       containsMcast := false, qosEnable := true, priority := 1 },
     { index := 1, pkey := 2, name := "b", standby := false, requiresRespSl := false,
       containsMcast := false, qosEnable := true, percentBandwidth := 50 }]
  numberOfVfsAll := 2
  names := by decide
  active_le := by decide

/-- High priority without bandwidth does not use up the rest. -/
theorem smUpdateBw_priority :
    (smUpdateBw priorityFabrics).1 = .ok ∧
      (∃ v ∈ priorityFabrics.vFabric, v.percentBandwidth = undefinedXml8) ∧
      lowBw (smUpdateBw priorityFabrics).2 + nonQosBw (smUpdateBw priorityFabrics).2 ≠ 100 := by
  decide

end OpaFm.SmQos
