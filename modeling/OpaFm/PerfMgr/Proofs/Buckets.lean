import OpaFm.PerfMgr.PortStats

/-!
# Which counts get their bucket

The product with the number of buckets is taken in 32 bits and the quotient in 8.
-/

namespace OpaFm.PerfMgr

/-! ## Wrapped quotients -/

section

variable {x divisor top : Nat}

theorem clamped_wrapped_iff (htop : top < 0x100) (hpos : 0 < divisor)
    (hlt : divisor < 0x100000000) :
    min top (uint32 x / divisor % 0x100) = min top (x / divisor) ↔
      (x < top * divisor → x < 0x100000000) ∧
        (top * divisor ≤ x → top * divisor ≤ uint32 x % (0x100 * divisor)) := by
  by_cases hx : x < top * divisor
  · have hquot : x / divisor < top := Nat.div_lt_of_lt_mul (by rwa [Nat.mul_comm])
    by_cases hwrap : x < 0x100000000
    · have hsame : uint32 x = x := Nat.mod_eq_of_lt hwrap
      rw [hsame, Nat.mod_eq_of_lt (Nat.lt_trans hquot htop)]
      exact ⟨fun _ => ⟨fun _ => hwrap, fun h => by omega⟩, fun _ => rfl⟩
    · have hless : uint32 x + divisor ≤ x := by
        unfold uint32
        omega
      have hquot' : uint32 x / divisor < x / divisor := by
        have hsucc : (uint32 x + divisor) / divisor = uint32 x / divisor + 1 :=
          Nat.add_div_right _ hpos
        have hle : (uint32 x + divisor) / divisor ≤ x / divisor := Nat.div_le_div_right hless
        omega
      have hmod : uint32 x / divisor % 0x100 = uint32 x / divisor :=
        Nat.mod_eq_of_lt (by omega)
      rw [hmod]
      constructor
      · intro h
        omega
      · exact fun h => absurd (h.1 hx) hwrap
  · have hle : top * divisor ≤ x := Nat.le_of_not_lt hx
    have hquot : top ≤ x / divisor := (Nat.le_div_iff_mul_le hpos).mpr hle
    have hmod : uint32 x / divisor % 0x100 = uint32 x % (0x100 * divisor) / divisor := by
      rw [Nat.mul_comm, Nat.mod_mul_right_div_self]
    have hiff : top ≤ uint32 x / divisor % 0x100 ↔
        top * divisor ≤ uint32 x % (0x100 * divisor) := by
      rw [hmod, Nat.le_div_iff_mul_le hpos]
    constructor
    · intro h
      exact ⟨fun h => absurd h hx, fun _ => hiff.mp (by omega)⟩
    · intro h
      have hreach := hiff.mpr (h.2 hle)
      omega

end

/-! ## One port -/

theorem maxMBps_bounds (image : BucketImage) : 0 < image.maxMBps ∧ image.maxMBps ≤ 12500 := by
  unfold BucketImage.maxMBps staticRateToMBps
  cases pmCalculateRate image.rate.activeSpeed image.rate.rxActiveWidth <;> decide

theorem computeUtilBucket_eq {maxMBps : Nat} (sendMBps : BitVec 32) (hpos : 0 < maxMBps) :
    computeUtilBucket sendMBps maxMBps =
      min 9 (uint32 (sendMBps.toNat * 10) / maxMBps % 0x100) := by
  unfold computeUtilBucket pmUtilBuckets
  rw [if_pos (Nat.ne_of_gt hpos)]
  dsimp only
  split <;> omega

theorem computeErrBucket_eq (errCnt : BitVec 32) {errThreshold : BitVec 32}
    (hne : errThreshold ≠ 0#32) :
    computeErrBucket errCnt errThreshold =
      min 4 (uint32 (errCnt.toNat * 4) / errThreshold.toNat % 0x100) := by
  have hlast : pmErrBuckets - 1 = 4 := rfl
  unfold computeErrBucket
  rw [if_neg hne, hlast]
  unfold pmErrBuckets
  dsimp only
  split <;> omega

/-- The buckets that the utilization and the errors of an image call for. -/
structure Bucketed (thresholds : ErrorClass → BitVec 32) (image after : BucketImage) : Prop where
  util : after.utilBucket.toNat =
    min (pmUtilBuckets - 1) (image.stats.sendMBps.toNat * pmUtilBuckets / image.maxMBps)
  errors : ∀ c, thresholds c ≠ 0#32 → (after.errBucket c).toNat =
    min (pmErrBuckets - 1)
      ((image.stats.errors.stat c).toNat * (pmErrBuckets - 1) / (thresholds c).toNat)
  top : ∀ c, thresholds c ≠ 0#32 → thresholds c ≤ image.stats.errors.stat c →
    (after.errBucket c).toNat = pmErrBuckets - 1

/-- An error count whose bucket is computed without harm: below the threshold the product fits 32
bits, and from the threshold on it does not come around to the first buckets. -/
def ErrorFits (threshold count : Nat) : Prop :=
  (count < threshold → count < 0x40000000) ∧
    (threshold ≤ count → 4 * threshold ≤ count * 4 % 0x100000000 % (0x100 * threshold))

def UtilFits (maxMBps sendMBps : Nat) : Prop :=
  9 * maxMBps ≤ sendMBps * 10 →
    9 * maxMBps ≤ sendMBps * 10 % 0x100000000 % (0x100 * maxMBps)

structure Fits (thresholds : ErrorClass → BitVec 32) (image : BucketImage) : Prop where
  util : UtilFits image.maxMBps image.stats.sendMBps.toNat
  errors : ∀ c, thresholds c ≠ 0#32 →
    ErrorFits (thresholds c).toNat (image.stats.errors.stat c).toNat

theorem toNat_pos {v : BitVec 32} (hne : v ≠ 0#32) : 0 < v.toNat := by
  refine Nat.pos_of_ne_zero fun h => hne ?_
  exact BitVec.eq_of_toNat_eq h

section

variable {thresholds : ErrorClass → BitVec 32} {image : BucketImage}

theorem utilBucket_iff (h : image.bucketComputed = false) :
    (computeBuckets thresholds image).utilBucket.toNat =
        min (pmUtilBuckets - 1) (image.stats.sendMBps.toNat * pmUtilBuckets / image.maxMBps) ↔
      UtilFits image.maxMBps image.stats.sendMBps.toNat := by
  obtain ⟨hpos, hle⟩ := maxMBps_bounds image
  have hbucket : (computeBuckets thresholds image).utilBucket.toNat =
      min 9 (uint32 (image.stats.sendMBps.toNat * 10) / image.maxMBps % 0x100) := by
    unfold computeBuckets
    rw [h, if_neg Bool.false_ne_true]
    show (BitVec.ofNat 4 (computeUtilBucket image.stats.sendMBps image.maxMBps)).toNat = _
    rw [computeUtilBucket_eq _ hpos, BitVec.toNat_ofNat]
    omega
  have hiff := clamped_wrapped_iff (x := image.stats.sendMBps.toNat * 10)
    (show 9 < 0x100 by decide) hpos (by omega)
  rw [hbucket]
  refine hiff.trans (and_iff_right_of_imp fun _ => ?_)
  intro hx
  omega

theorem errBucket_iff (h : image.bucketComputed = false) {c : ErrorClass}
    (hne : thresholds c ≠ 0#32) :
    ((computeBuckets thresholds image).errBucket c).toNat =
        min (pmErrBuckets - 1)
          ((image.stats.errors.stat c).toNat * (pmErrBuckets - 1) / (thresholds c).toNat) ↔
      ErrorFits (thresholds c).toNat (image.stats.errors.stat c).toNat := by
  have hbucket : ((computeBuckets thresholds image).errBucket c).toNat =
      min 4 (uint32 ((image.stats.errors.stat c).toNat * 4) / (thresholds c).toNat % 0x100) := by
    unfold computeBuckets
    rw [h, if_neg Bool.false_ne_true]
    show (BitVec.ofNat 3 (computeErrBucket _ (thresholds c))).toNat = _
    rw [computeErrBucket_eq _ hne, BitVec.toNat_ofNat]
    omega
  have hiff := clamped_wrapped_iff (x := (image.stats.errors.stat c).toNat * 4)
    (show 4 < 0x100 by decide) (toNat_pos hne) (thresholds c).isLt
  rw [hbucket]
  refine hiff.trans ?_
  unfold ErrorFits uint32
  have hlt : (image.stats.errors.stat c).toNat * 4 < 4 * (thresholds c).toNat ↔
      (image.stats.errors.stat c).toNat < (thresholds c).toNat := by omega
  have hle : 4 * (thresholds c).toNat ≤ (image.stats.errors.stat c).toNat * 4 ↔
      (thresholds c).toNat ≤ (image.stats.errors.stat c).toNat := by omega
  have hfit : (image.stats.errors.stat c).toNat * 4 < 0x100000000 ↔
      (image.stats.errors.stat c).toNat < 0x40000000 := by omega
  rw [hlt, hle, hfit]

theorem bucketed_iff (h : image.bucketComputed = false) :
    Bucketed thresholds image (computeBuckets thresholds image) ↔ Fits thresholds image := by
  constructor
  · intro hb
    exact ⟨(utilBucket_iff h).mp hb.util, fun c hne => (errBucket_iff h hne).mp (hb.errors c hne)⟩
  · intro hf
    have herrors := fun c hne => (errBucket_iff h hne).mpr (hf.errors c hne)
    refine ⟨(utilBucket_iff h).mpr hf.util, herrors, fun c hne hle => ?_⟩
    have hquot : pmErrBuckets - 1 ≤
        (image.stats.errors.stat c).toNat * (pmErrBuckets - 1) / (thresholds c).toNat := by
      rw [Nat.le_div_iff_mul_le (toNat_pos hne), Nat.mul_comm]
      exact Nat.mul_le_mul_right _ hle
    rw [herrors c hne]
    exact Nat.min_eq_left hquot

theorem errBucket_ignored (h : image.bucketComputed = false) {c : ErrorClass}
    (hzero : thresholds c = 0#32) : (computeBuckets thresholds image).errBucket c = 0#3 := by
  have hbucket : computeErrBucket (image.stats.errors.stat c) (thresholds c) = 0 := if_pos hzero
  unfold computeBuckets
  rw [h, if_neg Bool.false_ne_true]
  exact congrArg (BitVec.ofNat 3) hbucket

theorem last_iff (h : image.bucketComputed = false) (hf : Fits thresholds image) (c : ErrorClass) :
    pmErrBuckets - 1 ≤ ((computeBuckets thresholds image).errBucket c).toNat ↔
      thresholds c ≠ 0#32 ∧ thresholds c ≤ image.stats.errors.stat c := by
  have hb := (bucketed_iff h).mpr hf
  by_cases hzero : thresholds c = 0#32
  · rw [errBucket_ignored h hzero]
    exact ⟨fun h => absurd h (by decide), fun h => absurd hzero h.1⟩
  · constructor
    · intro hlast
      rw [hb.errors c hzero] at hlast
      have hquot : 4 ≤ (image.stats.errors.stat c).toNat * 4 / (thresholds c).toNat :=
        (Nat.le_min.mp hlast).2
      rw [Nat.le_div_iff_mul_le (toNat_pos hzero)] at hquot
      exact ⟨hzero, BitVec.le_def.mpr (by omega)⟩
    · exact fun hle => Nat.le_of_eq (hb.top c hzero hle.2).symm

theorem errBucket_mono {image' : BucketImage} (h : image.bucketComputed = false)
    (h' : image'.bucketComputed = false) (hf : Fits thresholds image)
    (hf' : Fits thresholds image') (c : ErrorClass)
    (hle : image.stats.errors.stat c ≤ image'.stats.errors.stat c) :
    (computeBuckets thresholds image).errBucket c ≤
      (computeBuckets thresholds image').errBucket c := by
  by_cases hzero : thresholds c = 0#32
  · rw [errBucket_ignored h hzero]
    exact BitVec.le_def.mpr (Nat.zero_le _)
  · have hquot : (image.stats.errors.stat c).toNat * (pmErrBuckets - 1) / (thresholds c).toNat ≤
        (image'.stats.errors.stat c).toNat * (pmErrBuckets - 1) / (thresholds c).toNat :=
      Nat.div_le_div_right (Nat.mul_le_mul_right _ hle)
    rw [BitVec.le_def, ((bucketed_iff h).mpr hf).errors c hzero,
      ((bucketed_iff h').mpr hf').errors c hzero]
    omega

end

/-! ## All ports -/

section

variable {ι : Type} [DecidableEq ι] (thresholds : ErrorClass → BitVec 32)
  {limit : ErrorClass → Nat}

def BucketRun.logged (s : BucketRun ι) (c : ErrorClass) : List ι :=
  (s.log.filter (·.statistic = c)).map (·.port)

structure Logged (limit : ErrorClass → Nat) (s : BucketRun ι) (c : ErrorClass) (wanted : List ι) :
    Prop where
  log : s.logged c = wanted.take (limit c)
  count : s.count c = (s.logged c).length

omit [DecidableEq ι] in
theorem logExceededThreshold_image (limit : ErrorClass → Nat) (q : ι) (s : BucketRun ι)
    (c : ErrorClass) :
    (logExceededThreshold thresholds limit q s c).image = s.image := by
  unfold logExceededThreshold
  split <;> rfl

omit [DecidableEq ι] in
theorem logExceededThreshold_other {c c' : ErrorClass} (hne : c' ≠ c) (q : ι) {s : BucketRun ι}
    {wanted : List ι} (h : Logged limit s c wanted) :
    Logged limit (logExceededThreshold thresholds limit q s c') c wanted := by
  unfold logExceededThreshold
  split
  · have hlogged : ∀ threshold value,
        (s.log ++ [(⟨q, c', threshold, value⟩ : Exceeded ι)]).filter (·.statistic = c) =
          s.log.filter (·.statistic = c) := by
      intro threshold value
      rw [List.filter_append]
      simp [hne]
    constructor
    · unfold BucketRun.logged
      rw [hlogged]
      exact h.log
    · unfold BucketRun.logged
      rw [hlogged]
      exact (Function.update_of_ne hne.symm _ _).trans h.count
  · exact h

omit [DecidableEq ι] in
theorem logExceededThreshold_self (c : ErrorClass) (q : ι) {s : BucketRun ι} {wanted : List ι}
    (h : Logged limit s c wanted) :
    Logged limit (logExceededThreshold thresholds limit q s c) c
      (wanted ++ if pmErrBuckets - 1 ≤ ((s.image q).errBucket c).toNat then [q] else []) := by
  unfold logExceededThreshold
  have hcount : s.count c = min (limit c) wanted.length := by
    rw [h.count, h.log, List.length_take]
  by_cases hlast : pmErrBuckets - 1 ≤ ((s.image q).errBucket c).toNat
  · rw [if_pos hlast]
    by_cases hroom : s.count c < limit c
    · have hall : wanted.length < limit c := by omega
      rw [if_pos ⟨hlast, hroom⟩]
      have hlogged : BucketRun.logged
          { s with
            count := Function.update s.count c (s.count c + 1)
            log := s.log ++ [⟨q, c, thresholds c, (s.image q).stats.errors.stat c⟩] } c =
          s.logged c ++ [q] := by
        simp [BucketRun.logged]
      constructor
      · rw [hlogged, h.log, List.take_of_length_le (Nat.le_of_lt hall),
          List.take_of_length_le (by simp; omega)]
      · rw [hlogged, List.length_append, ← h.count]
        exact Function.update_self _ _ _
    · rw [if_neg fun h => hroom h.2]
      refine ⟨h.log.trans ?_, h.count⟩
      rw [List.take_append_of_le_length (by omega)]
  · rw [if_neg fun h => hlast h.1, if_neg hlast, List.append_nil]
    exact h

omit [DecidableEq ι] in
theorem logClasses (c : ErrorClass) (q : ι) (l : List ErrorClass) : ∀ (s : BucketRun ι) wanted,
    l.Nodup → Logged limit s c wanted →
      (l.foldl (logExceededThreshold thresholds limit q) s).image = s.image ∧
        Logged limit (l.foldl (logExceededThreshold thresholds limit q) s) c
          (wanted ++ if c ∈ l ∧ pmErrBuckets - 1 ≤ ((s.image q).errBucket c).toNat then [q]
            else []) := by
  induction l with
  | nil =>
    intro s wanted _ h
    refine ⟨rfl, ?_⟩
    rw [if_neg fun h => absurd h.1 List.not_mem_nil, List.append_nil]
    exact h
  | cons c' l ih =>
    intro s wanted hnodup h
    obtain ⟨hout, hnodup'⟩ := List.nodup_cons.mp hnodup
    have himage := logExceededThreshold_image thresholds limit q s c'
    rw [List.foldl_cons]
    by_cases hc : c' = c
    · subst hc
      have hself := logExceededThreshold_self thresholds c' q h
      obtain ⟨himage', hrest⟩ := ih _ _ hnodup' hself
      refine ⟨himage'.trans himage, ?_⟩
      rw [if_neg (c := c' ∈ l ∧ _) fun h => hout h.1, List.append_nil] at hrest
      have hiff : (c' ∈ c' :: l ∧ pmErrBuckets - 1 ≤ ((s.image q).errBucket c').toNat) ↔
          pmErrBuckets - 1 ≤ ((s.image q).errBucket c').toNat := by simp
      simp only [hiff]
      exact hrest
    · have hother := logExceededThreshold_other thresholds hc q h
      obtain ⟨himage', hrest⟩ := ih _ _ hnodup' hother
      refine ⟨himage'.trans himage, ?_⟩
      rw [himage] at hrest
      have hiff : c ∈ c' :: l ↔ c ∈ l := by simp [Ne.symm hc]
      simp only [hiff]
      exact hrest

theorem ErrorClass.mem_all (c : ErrorClass) : c ∈ ErrorClass.all := by
  cases c <;> decide

theorem bucketPort_logged (c : ErrorClass) (q : ι) {s : BucketRun ι} {wanted : List ι}
    (h : Logged limit s c wanted) :
    (bucketPort thresholds limit s q).image =
        Function.update s.image q (computeBuckets thresholds (s.image q)) ∧
      Logged limit (bucketPort thresholds limit s q) c
        (wanted ++ if pmErrBuckets - 1 ≤
          ((computeBuckets thresholds (s.image q)).errBucket c).toNat then [q] else []) := by
  have hstart : Logged limit
      { s with image := Function.update s.image q (computeBuckets thresholds (s.image q)) } c
        wanted := ⟨h.log, h.count⟩
  have hall : ErrorClass.all.Nodup := by decide
  obtain ⟨himage, hlog⟩ := logClasses thresholds c q ErrorClass.all _ _ hall hstart
  refine ⟨himage, ?_⟩
  simp only [ErrorClass.mem_all, true_and, Function.update_self] at hlog
  exact hlog

theorem computeBuckets_again (image : BucketImage) :
    computeBuckets thresholds (computeBuckets thresholds image) =
      computeBuckets thresholds image := by
  unfold computeBuckets
  cases h : image.bucketComputed <;> simp [h]

theorem bucketPorts_spec (image : ι → BucketImage) (c : ErrorClass) (ports : List ι) :
    (∀ q, (bucketPorts thresholds limit image ports).image q =
        if q ∈ ports then computeBuckets thresholds (image q) else image q) ∧
      (bucketPorts thresholds limit image ports).logged c = (ports.filter fun q =>
        pmErrBuckets - 1 ≤ ((computeBuckets thresholds (image q)).errBucket c).toNat).take
          (limit c) := by
  have hrun : ∀ (l : List ι) (s : BucketRun ι) (wanted : List ι),
      (∀ q, s.image q = image q ∨ s.image q = computeBuckets thresholds (image q)) →
        Logged limit s c wanted →
          (∀ q, (l.foldl (bucketPort thresholds limit) s).image q =
            if q ∈ l then computeBuckets thresholds (image q) else s.image q) ∧
          Logged limit (l.foldl (bucketPort thresholds limit) s) c (wanted ++ l.filter fun q =>
            pmErrBuckets - 1 ≤
              ((computeBuckets thresholds (image q)).errBucket c).toNat) := by
    intro l
    induction l with
    | nil =>
      intro s wanted _ h
      exact ⟨fun _ => rfl, by simpa using h⟩
    | cons q l ih =>
      intro s wanted hs h
      obtain ⟨himage, hlog⟩ := bucketPort_logged thresholds c q h
      have hq : computeBuckets thresholds (s.image q) = computeBuckets thresholds (image q) := by
        rcases hs q with heq | heq
        · rw [heq]
        · rw [heq, computeBuckets_again]
      have hs' : ∀ q', (bucketPort thresholds limit s q).image q' = image q' ∨
          (bucketPort thresholds limit s q).image q' =
            computeBuckets thresholds (image q') := by
        intro q'
        rw [himage]
        by_cases hqq : q' = q
        · subst hqq
          exact .inr ((Function.update_self _ _ _).trans hq)
        · rw [Function.update_of_ne hqq]
          exact hs q'
      obtain ⟨himages, hlogs⟩ := ih _ _ hs' hlog
      constructor
      · intro q'
        rw [List.foldl_cons, himages, himage]
        by_cases hqq : q' = q
        · subst hqq
          rw [Function.update_self, hq]
          simp
        · rw [Function.update_of_ne hqq]
          simp [hqq]
      · rw [List.foldl_cons]
        rw [hq] at hlogs
        by_cases hlast : pmErrBuckets - 1 ≤
            ((computeBuckets thresholds (image q)).errBucket c).toNat
        · rw [if_pos hlast, List.append_assoc] at hlogs
          rw [List.filter_cons_of_pos (by simpa using hlast)]
          exact hlogs
        · rw [if_neg hlast, List.append_nil] at hlogs
          rw [List.filter_cons_of_neg (by simpa using hlast)]
          exact hlogs
  obtain ⟨himages, hlogs⟩ := hrun ports
    { image := image, count := fun _ => 0, log := [] } [] (fun _ => .inl rfl)
      ⟨List.take_nil.symm, rfl⟩
  exact ⟨himages, hlogs.log⟩

/-- The buckets are right exactly for the ports whose counts fit.  Among those no larger count has
a lower bucket, and when all of them fit, the ports at or above a threshold are logged, up to the
limit. -/
theorem bucketPorts_right_iff (image : ι → BucketImage)
    (hcleared : ∀ q, (image q).bucketComputed = false) (ports : List ι) :
    ((∀ q ∈ ports, Bucketed thresholds (image q)
        ((bucketPorts thresholds limit image ports).image q)) ↔
      ∀ q ∈ ports, Fits thresholds (image q)) ∧
    (∀ q ∈ ports, ∀ q' ∈ ports, Fits thresholds (image q) → Fits thresholds (image q') →
      ∀ c, (image q).stats.errors.stat c ≤ (image q').stats.errors.stat c →
        ((bucketPorts thresholds limit image ports).image q).errBucket c ≤
          ((bucketPorts thresholds limit image ports).image q').errBucket c) ∧
    ((∀ q ∈ ports, Fits thresholds (image q)) →
      ∀ c, (bucketPorts thresholds limit image ports).logged c =
        (ports.filter fun q => thresholds c ≠ 0#32 ∧
          thresholds c ≤ (image q).stats.errors.stat c).take (limit c)) := by
  have himage : ∀ q ∈ ports, (bucketPorts thresholds limit image ports).image q =
      computeBuckets thresholds (image q) := by
    intro q hq
    rw [(bucketPorts_spec thresholds image .integrity ports).1 q, if_pos hq]
  refine ⟨?_, ?_, ?_⟩
  · refine forall₂_congr fun q hq => ?_
    rw [himage q hq]
    exact bucketed_iff (hcleared q)
  · intro q hq q' hq' hf hf' c hle
    rw [himage q hq, himage q' hq']
    exact errBucket_mono (hcleared q) (hcleared q') hf hf' c hle
  · intro hf c
    rw [(bucketPorts_spec thresholds image c ports).2]
    refine congrArg (List.take (limit c)) (List.filter_congr fun q hq => ?_)
    exact decide_eq_decide.mpr (last_iff (hcleared q) (hf q hq) c)

end

def hundred : ErrorClass → BitVec 32 := fun _ => 100#32

def errorImage (count : BitVec 32) : BucketImage where
  stats := { PortStats.cleared with errors := ⟨fun c => if c = .integrity then count else 0#32⟩ }
  rate := ⟨2#2, 8#4⟩
  bucketComputed := false
  utilBucket := 0#4
  errBucket := fun _ => 0#3

def errorPorts (q : Bool) : BucketImage := errorImage (if q then 150#32 else 50#32)

theorem errorPorts_fits (q : Bool) : Fits hundred (errorPorts q) := by
  constructor
  · intro h
    cases q <;> exact absurd h (by decide)
  · intro c _
    cases q <;> cases c <;> exact ⟨by decide, by decide⟩

/-- A port with half as many errors as the threshold, and one that is logged. -/
theorem bucketPorts_right_half :
    (∀ q ∈ [false, true], Bucketed hundred (errorPorts q)
      ((bucketPorts hundred (fun _ => 2) errorPorts [false, true]).image q)) ∧
    (bucketPorts hundred (fun _ => 2) errorPorts [false, true]).logged .integrity = [true] := by
  have hright := @bucketPorts_right_iff Bool _ hundred (fun _ => 2) errorPorts (fun _ => rfl)
    [false, true]
  refine ⟨hright.1.mpr fun q _ => errorPorts_fits q, ?_⟩
  rw [hright.2.2 fun q _ => errorPorts_fits q]
  decide

/-- 6400 errors, 64 times the threshold, fall into the first bucket. -/
theorem not_bucketed : ¬∀ (thresholds : ErrorClass → BitVec 32) (image : BucketImage),
    image.bucketComputed = false → Bucketed thresholds image (computeBuckets thresholds image) := by
  intro hall
  have htop := (hall hundred (errorImage 6400#32) rfl).top .integrity (by decide) (by decide)
  exact absurd htop (by decide)

end OpaFm.PerfMgr
