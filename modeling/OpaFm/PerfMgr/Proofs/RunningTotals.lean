import OpaFm.PerfMgr.RunningTotals

/-!
# Running totals are true

After each sweep the image of the sweep and its clear mask are what the meters of the counters are
read against, so the changes that the next sweep computes are what the counters have grown by.
-/

namespace OpaFm.PerfMgr

variable {n : Nat} {cfg : CounterConfig} {mask : BitVec 32} {image prev : PmPortImage}
  {k : Counter}

/-! ## Images -/

theorem exceedsThreshold_eq_false {c : PortCounter} (h : cfg.clearCounterSelect c = false) :
    exceedsThreshold cfg image c = false := by
  unfold exceedsThreshold
  rw [h, ite_self]

@[simp] theorem pmTabulatePort_clearSelectMask :
    (pmTabulatePort cfg image).clearSelectMask = exceedsThreshold cfg image := by
  unfold pmTabulatePort
  split
  · rfl
  · rename_i hzero
    funext c
    have hselect : cfg.clearCounterSelect c = false := by
      apply Bool.eq_false_iff.mpr
      intro hc
      exact hzero (List.any_eq_true.mpr ⟨c, c.mem_all, hc⟩)
    rw [exceedsThreshold_eq_false hselect]

@[simp] theorem pmTabulatePort_stlCounters :
    (pmTabulatePort cfg image).stlCounters = image.stlCounters := by
  unfold pmTabulatePort
  split <;> rfl

@[simp] theorem pmTabulatePort_vlSelectMask :
    (pmTabulatePort cfg image).vlSelectMask = image.vlSelectMask := by
  unfold pmTabulatePort
  split <;> rfl

@[simp] theorem pmTabulatePort_gotDataCntrs :
    (pmTabulatePort cfg image).gotDataCntrs = image.gotDataCntrs := by
  unfold pmTabulatePort
  split <;> rfl

@[simp] theorem pmTabulatePort_gotErrorCntrs :
    (pmTabulatePort cfg image).gotErrorCntrs = image.gotErrorCntrs := by
  unfold pmTabulatePort
  split <;> rfl

theorem processed_of_tracked (h : cfg.tracked mask k = true) : cfg.processed k = true := by
  cases k with
  | port c => rfl
  | vl i c => exact (Bool.and_eq_true_iff.mp h).1

theorem reads_iff {gotErrorCntrs : Bool} : cfg.reads mask gotErrorCntrs k = true ↔
    cfg.tracked mask k = true ∧ (k.isError = true → gotErrorCntrs = true) := by
  unfold CounterConfig.reads
  cases k.isError <;> simp

theorem reads_eq_false {gotErrorCntrs : Bool} (htracked : cfg.tracked mask k = true)
    (hread : cfg.reads mask gotErrorCntrs k = false) :
    k.isError = true ∧ gotErrorCntrs = false := by
  unfold CounterConfig.reads at hread
  rw [htracked] at hread
  simpa using hread

namespace PortSweeps

variable {s : PortSweeps n} {w : Sweep n}

@[simp] theorem tabulated_vlSelectMask :
    (s.tabulated cfg w).vlSelectMask = w.vlSelectMask := by
  unfold tabulated
  rw [pmTabulatePort_vlSelectMask]
  rfl

@[simp] theorem tabulated_gotDataCntrs : (s.tabulated cfg w).gotDataCntrs = true := by
  unfold tabulated
  rw [pmTabulatePort_gotDataCntrs]
  rfl

@[simp] theorem tabulated_gotErrorCntrs :
    (s.tabulated cfg w).gotErrorCntrs = w.gotErrorCntrs := by
  unfold tabulated
  rw [pmTabulatePort_gotErrorCntrs]
  rfl

theorem tabulated_val (cfg : CounterConfig) (s : PortSweeps n) (w : Sweep n) (k : Counter) :
    (s.tabulated cfg w).stlCounters.val k =
    if cfg.reads w.vlSelectMask w.gotErrorCntrs k then w.counters.val k
    else (s.port.image s.sweepIndex).stlCounters.val k := by
  unfold tabulated
  rw [pmTabulatePort_stlCounters]
  rfl

theorem tabulated_clears_iff
    (h : cfg.reads w.vlSelectMask w.gotErrorCntrs (.port k.select) = false) :
    (s.tabulated cfg w).clearSelectMask k.select = true ↔ s.staleExceeds cfg k.select := by
  unfold tabulated staleExceeds
  rw [pmTabulatePort_clearSelectMask]
  unfold exceedsThreshold
  have hval : (pmCopyPortCounters cfg w.counters w.lq w.gotErrorCntrs
      (pmClearPortImage { s.port.image s.sweepIndex with
        vlSelectMask := w.vlSelectMask })).stlCounters.val (.port k.select) =
      (s.port.image s.sweepIndex).stlCounters.val (.port k.select) := by
    show (if cfg.reads w.vlSelectMask w.gotErrorCntrs (.port k.select) then _ else _) = _
    rw [h]
    rfl
  rw [hval]

/-! ## What a sweep does -/

theorem sweep_total_of_none (h : s.lastSweepIndex = none) :
    (s.sweep cfg w).port.total = s.port.total := by
  unfold sweep pmFinalizePortStats
  rw [h]

theorem sweep_image_of_none (h : s.lastSweepIndex = none) : (s.sweep cfg w).port.image =
    Function.update s.port.image s.sweepIndex (s.tabulated cfg w) := by
  unfold sweep pmFinalizePortStats
  rw [h]

section Later

variable {last : Fin n}

def delta (cfg : CounterConfig) (s : PortSweeps n) (w : Sweep n) (last : Fin n) : CounterValues :=
  deltaCounters cfg (s.tabulated cfg w) (s.port.image last)

theorem sweep_total_of_some (h : s.lastSweepIndex = some last) (hne : last ≠ s.sweepIndex) :
    (s.sweep cfg w).port.total =
      addRunning cfg w.gotErrorCntrs s.port.total
        (weightXmitWait cfg w.vlSelectMask (delta cfg s w last)) := by
  unfold sweep pmFinalizePortStats delta
  rw [h]
  dsimp only
  rw [Function.update_self, Function.update_of_ne hne, tabulated_gotErrorCntrs,
    tabulated_vlSelectMask]

theorem sweep_counters_self (h : s.lastSweepIndex = some last) (hne : last ≠ s.sweepIndex) :
    ((s.sweep cfg w).port.image s.sweepIndex).stlCounters =
      copyErrorCounters cfg (s.tabulated cfg w) (s.port.image last) := by
  unfold sweep pmFinalizePortStats
  rw [h]
  dsimp only
  rw [Function.update_of_ne hne.symm, Function.update_self, Function.update_self,
    Function.update_of_ne hne]

theorem sweep_clearSelectMask_self (h : s.lastSweepIndex = some last)
    (hne : last ≠ s.sweepIndex) :
    ((s.sweep cfg w).port.image s.sweepIndex).clearSelectMask =
      (s.tabulated cfg w).clearSelectMask := by
  unfold sweep pmFinalizePortStats
  rw [h]
  dsimp only
  rw [Function.update_of_ne hne.symm, Function.update_self, Function.update_self]

theorem sweep_counters_other (h : s.lastSweepIndex = some last) {j : Fin n}
    (hj : j ≠ s.sweepIndex) :
    ((s.sweep cfg w).port.image j).stlCounters = (s.port.image j).stlCounters := by
  unfold sweep pmFinalizePortStats
  rw [h]
  dsimp only
  by_cases hlast : j = last
  · subst hlast
    rw [Function.update_self, Function.update_of_ne hj, Function.update_of_ne hj]
  · rw [Function.update_of_ne hlast, Function.update_of_ne hj, Function.update_of_ne hj]

end Later

theorem copyErrorCounters_val (htracked : cfg.tracked w.vlSelectMask k = true) :
    (copyErrorCounters cfg (s.tabulated cfg w) prev).val k =
      if cfg.reads w.vlSelectMask w.gotErrorCntrs k then w.counters.val k
      else prev.stlCounters.val k := by
  show (if (s.tabulated cfg w).gotDataCntrs && !(s.tabulated cfg w).gotErrorCntrs &&
    cfg.processed k && k.isError then _ else _) = _
  rw [tabulated_gotDataCntrs, tabulated_gotErrorCntrs, processed_of_tracked htracked]
  cases hread : cfg.reads w.vlSelectMask w.gotErrorCntrs k with
  | false =>
    obtain ⟨herror, hgot⟩ := reads_eq_false htracked hread
    rw [herror, hgot]
    rfl
  | true =>
    have hval := tabulated_val cfg s w k
    rw [hread, if_pos rfl] at hval
    rw [hval, if_pos rfl, if_neg]
    intro hskip
    have hgot := (reads_iff.mp hread).2
    cases herror : k.isError with
    | false => simp [herror] at hskip
    | true => simp [hgot herror] at hskip

/-! ## The invariant -/

structure Follows (cfg : CounterConfig) (mask : BitVec 32) (s : PortSweeps n) : Prop where
  totals : s.TotalsTrue
  swept : s.lastSweepIndex ≠ none → s.fresh = false
  atRead_idle : s.lastSweepIndex = none → ∀ k, (s.meter k).atRead = 0
  atRead_untracked : ∀ k, cfg.tracked mask k = false → (s.meter k).atRead = 0
  image_untracked : ∀ k, cfg.tracked mask k = false →
    ∀ j, (s.port.image j).stlCounters.val k = 0
  last_ne : ∀ last, s.lastSweepIndex = some last → last ≠ s.sweepIndex
  based : ∀ last, s.lastSweepIndex = some last → ∀ k, cfg.tracked mask k = true →
    (s.meter k).Based ((s.port.image last).stlCounters.val k)
      ((s.port.image last).clearSelectMask k.select)
  data_read : s.lastSweepIndex ≠ none → ∀ k, cfg.tracked mask k = true → k.isError = false →
    (s.meter k).grown = (s.meter k).atRead
  data_known : ∀ last, s.lastSweepIndex = some last → ∀ k, cfg.tracked mask k = true →
    k.isError = false → (s.meter k).cleared = true →
      (s.port.image last).clearSelectMask k.select = true

/-! ## A new port -/

section NewPort

variable {hardware : CounterValues} {last : Option (Fin n)} {index : Fin n} {first : Bool}

theorem totalsTrue_init (hardware : CounterValues) (last : Option (Fin n)) (index : Fin n)
    (first : Bool) : (init hardware last index first).TotalsTrue :=
  fun _ => (Nat.zero_min _).symm

def settled (hardware : CounterValues) (last : Option (Fin n)) (index : Fin n) (first : Bool) :
    PortSweeps n :=
  { init hardware last index first with fresh := false }

theorem sweep_init : (init hardware last index first).sweep cfg w =
    (settled w.counters last index first).sweep cfg w := by
  have hgrown : (init hardware last index first).grownMeter w =
      (settled w.counters last index first).grownMeter w := by
    funext k
    unfold grownMeter
    rw [if_pos (.inr rfl)]
    split
    · rfl
    · show _ = (⟨_, 0 + (w.counters.val k - w.counters.val k), 0, false⟩ : Meter)
      rw [Nat.sub_self]
      rfl
  unfold sweep readMeter
  rw [hgrown]
  rfl

theorem follows_settled (hne : last ≠ some index)
    (hzero : last ≠ none → ∀ k, cfg.tracked mask k = true → hardware.val k = 0) :
    Follows cfg mask (settled hardware last index first) where
  totals := totalsTrue_init hardware last index first
  swept _ := rfl
  atRead_idle _ _ := rfl
  atRead_untracked _ _ := rfl
  image_untracked _ _ _ := rfl
  last_ne i h := by
    rintro rfl
    exact hne h
  based i h k htracked := {
    atRead_le := Nat.le_refl 0
    cleared_of_known := fun hknown => nomatch hknown
    value_eq := hzero (by rw [show last = some i from h]; exact Option.some_ne_none i) k htracked }
  data_read _ _ _ _ := rfl
  data_known _ _ _ _ _ hcleared := nomatch hcleared

theorem Keeps.settled (hkeeps : (init hardware last index first).Keeps cfg w) :
    (settled w.counters last index first).Keeps cfg w where
  appears _ hfresh := nomatch hfresh
  xmitWait _ _ := by
    intro wait hwait
    apply absurd _ hwait
    show (if _ then w.counters.val _ - w.counters.val _ else 0) = 0
    rw [Nat.sub_self, ite_self]
  first := hkeeps.first
  skipped hsome _ k _ _ _ := by
    unfold grownMeter
    rw [if_neg]
    · show 0 + (w.counters.val k - w.counters.val k) = 0
      rw [Nat.sub_self]
    · rintro (hnone | hfresh)
      · exact hsome hnone
      · contradiction
  read _ _ _ _ _ _ hcleared := nomatch hcleared

end NewPort

/-! ## Changes -/

section Changes

variable {last : Fin n}

theorem grownMeter_of_some (hf : Follows cfg mask s) (h : s.lastSweepIndex = some last)
    (k : Counter) : s.grownMeter w k = (s.meter k).grow (w.counters.val k) := by
  have hsome : s.lastSweepIndex ≠ none := by
    rw [h]
    exact Option.some_ne_none last
  unfold grownMeter
  rw [if_neg]
  rintro (hnone | hfresh)
  · exact hsome hnone
  · rw [hf.swept hsome] at hfresh
    contradiction

theorem grownMeter_of_none (h : s.lastSweepIndex = none) (k : Counter) :
    s.grownMeter w k = ((s.meter k).grow (w.counters.val k)).restart := by
  unfold grownMeter
  rw [if_pos (.inl h)]

theorem hasDelta_of_reads (hread : cfg.reads w.vlSelectMask w.gotErrorCntrs k = true) :
    hasDelta cfg (s.tabulated cfg w) k = true := by
  obtain ⟨htracked, hgot⟩ := reads_iff.mp hread
  unfold hasDelta
  rw [tabulated_gotDataCntrs, tabulated_gotErrorCntrs, processed_of_tracked htracked]
  cases herror : k.isError with
  | false => rfl
  | true => rw [hgot herror]; rfl

theorem delta_of_reads (hf : Follows cfg w.vlSelectMask s) (hcan : s.CanSweep w w.vlSelectMask)
    (h : s.lastSweepIndex = some last) (hread : cfg.reads w.vlSelectMask w.gotErrorCntrs k = true)
    (hnoticed : (s.meter k).cleared = true →
      (s.port.image last).clearSelectMask k.select = true ∨
        w.counters.val k < (s.port.image last).stlCounters.val k ∨
        (s.port.image last).stlCounters.val k = 0) :
    (delta cfg s w last).val k = (s.grownMeter w k).grown - (s.meter k).atRead := by
  have htracked := (reads_iff.mp hread).1
  have hbased := (hf.based last h k htracked).grow (hcan.grows k)
  have hcur := tabulated_val cfg s w k
  rw [hread, if_pos rfl] at hcur
  show (if hasDelta cfg (s.tabulated cfg w) k then
    getDelta ((s.tabulated cfg w).stlCounters.val k) _ _ else 0) = _
  rw [hasDelta_of_reads hread, if_pos rfl, hcur, grownMeter_of_some hf h]
  exact hbased.unread_eq hnoticed

theorem delta_of_untracked (hf : Follows cfg w.vlSelectMask s)
    (htracked : cfg.tracked w.vlSelectMask k = false) :
    (delta cfg s w last).val k = 0 := by
  have hread : cfg.reads w.vlSelectMask w.gotErrorCntrs k = false := by
    unfold CounterConfig.reads
    rw [htracked]
    rfl
  have hcur := tabulated_val cfg s w k
  rw [hread, if_neg Bool.false_ne_true, hf.image_untracked k htracked] at hcur
  show (if hasDelta cfg (s.tabulated cfg w) k then
    getDelta ((s.tabulated cfg w).stlCounters.val k) _ _ else 0) = 0
  rw [hcur]
  split
  · exact Nat.le_zero.mp (getDelta_le 0 _ _)
  · rfl

theorem delta_of_data (hf : Follows cfg w.vlSelectMask s) (hcan : s.CanSweep w w.vlSelectMask)
    (h : s.lastSweepIndex = some last) (hdata : k.isError = false) :
    (delta cfg s w last).val k = s.increment cfg w k := by
  unfold increment
  cases htracked : cfg.tracked w.vlSelectMask k with
  | false => rw [delta_of_untracked hf htracked]; rfl
  | true =>
    have hread : cfg.reads w.vlSelectMask w.gotErrorCntrs k = true :=
      reads_iff.mpr ⟨htracked, fun herror => absurd herror (by rw [hdata]; decide)⟩
    rw [delta_of_reads hf hcan h hread, grownMeter_of_some hf h, if_pos rfl]
    · have hall : (s.meter k).grown = (s.meter k).atRead :=
        hf.data_read (by rw [h]; exact Option.some_ne_none last) k htracked hdata
      show (s.meter k).grown + (w.counters.val k - (s.meter k).value) - (s.meter k).atRead = _
      rw [hall, Nat.add_sub_cancel_left]
    · intro hcleared
      exact .inl (hf.data_known last h k htracked hdata hcleared)

theorem maxPortVLXmitWait_congr {f g : Counter → Nat}
    (h : ∀ i, f (.vl i .portVLXmitWait) = g (.vl i .portVLXmitWait)) :
    maxPortVLXmitWait f = maxPortVLXmitWait g := by
  unfold maxPortVLXmitWait
  congr
  funext m i
  rw [h i]

theorem weightXmitWait_val {d : CounterValues}
    (h : cfg.processVlCounters = true → d.val (.port .portXmitWait) ≠ 0 →
      weightedXmitWait (maxPortVLXmitWait d.val) (numVLs w.vlSelectMask)
        (d.val (.port .portXmitWait)) =
        d.val (.port .portXmitWait)) :
    (weightXmitWait cfg w.vlSelectMask d).val = d.val := by
  unfold weightXmitWait
  dsimp only
  split
  · rename_i hweigh
    show Function.update d.val _ _ = d.val
    rw [h hweigh.1 hweigh.2, Function.update_eq_self]
  · rfl

theorem weighted_val (hf : Follows cfg w.vlSelectMask s) (hcan : s.CanSweep w w.vlSelectMask)
    (hkeeps : s.Keeps cfg w) (h : s.lastSweepIndex = some last) :
    (weightXmitWait cfg w.vlSelectMask (delta cfg s w last)).val = (delta cfg s w last).val := by
  apply weightXmitWait_val
  have hmax : maxPortVLXmitWait (delta cfg s w last).val =
      maxPortVLXmitWait (s.increment cfg w) :=
    maxPortVLXmitWait_congr fun i => delta_of_data hf hcan h rfl
  rw [hmax, delta_of_data hf hcan h rfl]
  intro hprocess hwait
  exact hkeeps.xmitWait hprocess (by rw [h]; exact Option.some_ne_none last) hwait

end Changes

/-! ## Meters -/

theorem readMeter_of_reads (hread : cfg.reads w.vlSelectMask w.gotErrorCntrs k = true) :
    s.readMeter cfg w k = (s.grownMeter w k).read := if_pos hread

theorem readMeter_of_not (hread : cfg.reads w.vlSelectMask w.gotErrorCntrs k = false) :
    s.readMeter cfg w k = s.grownMeter w k := by
  unfold readMeter
  rw [hread, if_neg Bool.false_ne_true]

theorem grownMeter_value (k : Counter) : (s.grownMeter w k).value = w.counters.val k := by
  unfold grownMeter
  dsimp only
  split <;> rfl

@[simp] theorem sweep_meter_atRead (k : Counter) :
    ((s.sweep cfg w).meter k).atRead = (s.readMeter cfg w k).atRead := by
  unfold sweep
  dsimp only
  split <;> rfl

@[simp] theorem sweep_meter_grown (k : Counter) :
    ((s.sweep cfg w).meter k).grown = (s.readMeter cfg w k).grown := by
  unfold sweep
  dsimp only
  split <;> rfl

theorem sweep_based {base : Nat}
    (hbased : (s.readMeter cfg w k).Based base false ∨
      (s.tabulated cfg w).clearSelectMask k.select = true)
    (hread : (s.tabulated cfg w).clearSelectMask k.select = true →
      (s.readMeter cfg w k).grown = (s.readMeter cfg w k).atRead) :
    ((s.sweep cfg w).meter k).Based base ((s.tabulated cfg w).clearSelectMask k.select) := by
  show (if (s.tabulated cfg w).clearSelectMask k.select then (s.readMeter cfg w k).clear
    else s.readMeter cfg w k).Based _ _
  cases hmask : (s.tabulated cfg w).clearSelectMask k.select with
  | false =>
    rw [if_neg Bool.false_ne_true]
    rcases hbased with hbased | hclear
    · exact hbased
    · rw [hmask] at hclear
      contradiction
  | true =>
    rw [if_pos rfl]
    exact Meter.based_clear (hread hmask) base true

theorem staleExceeds_of_clears (herror : k.isError = true) (hgot : w.gotErrorCntrs = false)
    (hclear : (s.tabulated cfg w).clearSelectMask k.select = true) :
    s.staleExceeds cfg k.select := by
  apply (tabulated_clears_iff _).mp hclear
  apply Bool.eq_false_iff.mpr
  intro hread
  have hgot' := (reads_iff.mp hread).2 herror
  rw [hgot] at hgot'
  contradiction

theorem reads_of_data (htracked : cfg.tracked w.vlSelectMask k = true) (hdata : k.isError = false) :
    cfg.reads w.vlSelectMask w.gotErrorCntrs k = true := by
  apply reads_iff.mpr
  refine ⟨htracked, ?_⟩
  intro herror
  rw [hdata] at herror
  contradiction

theorem sweep_data (htracked : cfg.tracked w.vlSelectMask k = true) (hdata : k.isError = false) :
    ((s.sweep cfg w).meter k).grown = ((s.sweep cfg w).meter k).atRead ∧
      (((s.sweep cfg w).meter k).cleared = true →
        (s.tabulated cfg w).clearSelectMask k.select = true) := by
  constructor
  · rw [sweep_meter_grown, sweep_meter_atRead, readMeter_of_reads (reads_of_data htracked hdata)]
    rfl
  · show (if (s.tabulated cfg w).clearSelectMask k.select then (s.readMeter cfg w k).clear
      else s.readMeter cfg w k).cleared = true → _
    cases (s.tabulated cfg w).clearSelectMask k.select with
    | true => exact fun _ => rfl
    | false =>
      rw [if_neg Bool.false_ne_true, readMeter_of_reads (reads_of_data htracked hdata)]
      exact fun hcleared => nomatch hcleared

/-! ## Steps -/

theorem Follows.sweep_of_none (hf : Follows cfg w.vlSelectMask s)
    (hcan : s.CanSweep w w.vlSelectMask) (hkeeps : s.Keeps cfg w) (h : s.lastSweepIndex = none) :
    Follows cfg w.vlSelectMask (s.sweep cfg w) := by
  have hatRead : ∀ k, ((s.sweep cfg w).meter k).atRead = 0 := by
    intro k
    rw [sweep_meter_atRead]
    cases hread : cfg.reads w.vlSelectMask w.gotErrorCntrs k with
    | false => rw [readMeter_of_not hread, grownMeter_of_none h]; rfl
    | true => rw [readMeter_of_reads hread, grownMeter_of_none h]; rfl
  have hself : (s.sweep cfg w).port.image s.sweepIndex = s.tabulated cfg w := by
    rw [sweep_image_of_none h, Function.update_self]
  have hlast : ∀ last, (s.sweep cfg w).lastSweepIndex = some last →
      s.firstSweepAsMaster = false ∧ last = s.sweepIndex := by
    intro last hsome
    unfold sweep at hsome
    rw [h] at hsome
    cases hfirst : s.firstSweepAsMaster with
    | false =>
      simp only [hfirst] at hsome
      exact ⟨rfl, (Option.some.inj hsome).symm⟩
    | true =>
      simp only [hfirst] at hsome
      contradiction
  constructor
  case totals =>
    intro k
    rw [hatRead k, sweep_total_of_none h, hf.totals k, hf.atRead_idle h k]
  case swept => exact fun _ => rfl
  case atRead_idle => exact fun _ => hatRead
  case atRead_untracked => exact fun k _ => hatRead k
  case image_untracked =>
    intro k htracked j
    rw [sweep_image_of_none h]
    by_cases hj : j = s.sweepIndex
    · subst hj
      rw [Function.update_self, tabulated_val, if_neg, hf.image_untracked k htracked]
      intro hread
      rw [(reads_iff.mp hread).1] at htracked
      contradiction
    · rw [Function.update_of_ne hj, hf.image_untracked k htracked]
  case last_ne =>
    intro last hsome
    rw [(hlast last hsome).2]
    exact hcan.next_ne.symm
  case based =>
    intro last hsome k htracked
    obtain ⟨hfirst, rfl⟩ := hlast last hsome
    rw [hself, tabulated_val]
    cases hread : cfg.reads w.vlSelectMask w.gotErrorCntrs k with
    | true =>
      rw [if_pos rfl]
      apply sweep_based
      · rw [readMeter_of_reads hread, ← grownMeter_value (s := s) (w := w) k]
        exact .inl (Meter.based_read _)
      · rw [readMeter_of_reads hread]
        exact fun _ => rfl
    | false =>
      obtain ⟨herror, hgot⟩ := reads_eq_false htracked hread
      rw [if_neg Bool.false_ne_true]
      apply sweep_based
      · rw [readMeter_of_not hread, grownMeter_of_none h]
        rcases hkeeps.first h hfirst hgot k htracked herror with hsame | hstale
        · rw [hsame]
          exact .inl (Meter.based_restart _)
        · refine .inr ((tabulated_clears_iff ?_).mpr hstale)
          apply Bool.eq_false_iff.mpr
          intro hport
          have hgot' := (reads_iff.mp hport).2 herror
          rw [hgot] at hgot'
          contradiction
      · rw [readMeter_of_not hread, grownMeter_of_none h]
        exact fun _ => rfl
  case data_read => exact fun _ k htracked hdata => (sweep_data htracked hdata).1
  case data_known =>
    intro last hsome k htracked hdata
    obtain ⟨-, rfl⟩ := hlast last hsome
    rw [hself]
    exact (sweep_data htracked hdata).2

section Later

variable {last : Fin n}

theorem sweep_lastSweepIndex (h : s.lastSweepIndex = some last) :
    (s.sweep cfg w).lastSweepIndex = some s.sweepIndex := by
  unfold sweep
  rw [h, Option.isNone_some, Bool.and_false, if_neg Bool.false_ne_true]

theorem noticed (hf : Follows cfg w.vlSelectMask s) (hkeeps : s.Keeps cfg w)
    (h : s.lastSweepIndex = some last) (hread : cfg.reads w.vlSelectMask w.gotErrorCntrs k = true)
    (hcleared : (s.meter k).cleared = true) :
    (s.port.image last).clearSelectMask k.select = true ∨
      w.counters.val k < (s.port.image last).stlCounters.val k ∨
      (s.port.image last).stlCounters.val k = 0 := by
  obtain ⟨htracked, hgot⟩ := reads_iff.mp hread
  cases herror : k.isError with
  | false => exact .inl (hf.data_known last h k htracked herror hcleared)
  | true => exact hkeeps.read last h (hgot herror) k htracked herror hcleared

theorem addRunning_val {total d : CounterValues} {gotErrorCntrs : Bool} (k : Counter) :
    (addRunning cfg gotErrorCntrs total d).val k =
      if cfg.processed k && (!k.isError || gotErrorCntrs) then min (total.val k + d.val k) k.max
      else total.val k := by
  show (if _ then incRunning k.max (total.val k) (d.val k) else total.val k) = _
  rw [incRunning_eq _ (d.val_le k)]

theorem Follows.totals_sweep (hf : Follows cfg w.vlSelectMask s)
    (hcan : s.CanSweep w w.vlSelectMask) (hkeeps : s.Keeps cfg w) (h : s.lastSweepIndex = some last) :
    (s.sweep cfg w).TotalsTrue := by
  intro k
  have htotal := hf.totals k
  rw [sweep_meter_atRead, sweep_total_of_some h (hf.last_ne last h), addRunning_val,
    weighted_val hf hcan hkeeps h]
  cases hread : cfg.reads w.vlSelectMask w.gotErrorCntrs k with
  | true =>
    have htracked := (reads_iff.mp hread).1
    have hprocess : (cfg.processed k && (!k.isError || w.gotErrorCntrs)) = true := by
      unfold CounterConfig.reads at hread
      rw [htracked, Bool.true_and] at hread
      rw [processed_of_tracked htracked, hread]
      rfl
    have hle : (s.meter k).atRead ≤ (s.grownMeter w k).grown := by
      rw [grownMeter_of_some hf h]
      exact ((hf.based last h k htracked).grow (hcan.grows k)).atRead_le
    rw [hprocess, if_pos rfl, htotal, readMeter_of_reads hread, Meter.read_atRead,
      delta_of_reads hf hcan h hread (noticed hf hkeeps h hread)]
    omega
  | false =>
    rw [readMeter_of_not hread, grownMeter_of_some hf h, Meter.grow_atRead]
    cases htracked : cfg.tracked w.vlSelectMask k with
    | true =>
      obtain ⟨herror, hgot⟩ := reads_eq_false htracked hread
      rw [herror, hgot, htotal]
      simp
    | false =>
      rw [delta_of_untracked hf htracked, htotal, hf.atRead_untracked k htracked]
      simp

theorem Follows.sweep_of_some (hf : Follows cfg w.vlSelectMask s)
    (hcan : s.CanSweep w w.vlSelectMask) (hkeeps : s.Keeps cfg w) (h : s.lastSweepIndex = some last) :
    Follows cfg w.vlSelectMask (s.sweep cfg w) := by
  have hne := hf.last_ne last h
  have hsome : s.lastSweepIndex ≠ none := by
    rw [h]
    exact Option.some_ne_none last
  have hmask : ((s.sweep cfg w).port.image s.sweepIndex).clearSelectMask =
      (s.tabulated cfg w).clearSelectMask := sweep_clearSelectMask_self h hne
  have hindex : ∀ i, (s.sweep cfg w).lastSweepIndex = some i → i = s.sweepIndex := by
    intro i hi
    rw [sweep_lastSweepIndex h] at hi
    exact (Option.some.inj hi).symm
  constructor
  case totals => exact hf.totals_sweep hcan hkeeps h
  case swept => exact fun _ => rfl
  case atRead_idle =>
    intro hnone
    rw [sweep_lastSweepIndex h] at hnone
    contradiction
  case atRead_untracked =>
    intro k htracked
    rw [sweep_meter_atRead, readMeter_of_not, grownMeter_of_some hf h, Meter.grow_atRead]
    · exact hf.atRead_untracked k htracked
    · unfold CounterConfig.reads
      rw [htracked, Bool.false_and]
  case image_untracked =>
    intro k htracked j
    by_cases hj : j = s.sweepIndex
    · subst hj
      have hread : cfg.reads w.vlSelectMask w.gotErrorCntrs k = false := by
        unfold CounterConfig.reads
        rw [htracked, Bool.false_and]
      rw [sweep_counters_self h hne]
      show (if _ then (s.port.image last).stlCounters.val k
        else (s.tabulated cfg w).stlCounters.val k) = 0
      rw [tabulated_val, hread, if_neg Bool.false_ne_true, hf.image_untracked k htracked,
        hf.image_untracked k htracked, ite_self]
    · rw [sweep_counters_other h hj, hf.image_untracked k htracked]
  case last_ne =>
    intro i hi
    rw [hindex i hi]
    exact hcan.next_ne.symm
  case based =>
    intro i hi k htracked
    rw [hindex i hi, hmask, sweep_counters_self h hne, copyErrorCounters_val htracked]
    cases hread : cfg.reads w.vlSelectMask w.gotErrorCntrs k with
    | true =>
      rw [if_pos rfl]
      apply sweep_based
      · rw [readMeter_of_reads hread, ← grownMeter_value (s := s) (w := w) k]
        exact .inl (Meter.based_read _)
      · rw [readMeter_of_reads hread]
        exact fun _ => rfl
    | false =>
      obtain ⟨herror, hgot⟩ := reads_eq_false htracked hread
      rw [if_neg Bool.false_ne_true]
      apply sweep_based
      · rw [readMeter_of_not hread, grownMeter_of_some hf h]
        exact .inl ((hf.based last h k htracked).grow (hcan.grows k)).forget
      · intro hclear
        have hskip := hkeeps.skipped hsome hgot k htracked herror
          (staleExceeds_of_clears herror hgot hclear)
        rw [readMeter_of_not hread, hskip, grownMeter_of_some hf h, Meter.grow_atRead]
  case data_read => exact fun _ k htracked hdata => (sweep_data htracked hdata).1
  case data_known =>
    intro i hi k htracked hdata
    rw [hindex i hi, hmask]
    exact (sweep_data htracked hdata).2

end Later

theorem Follows.sweep (hf : Follows cfg mask s) (hcan : s.CanSweep w mask)
    (hkeeps : s.Keeps cfg w) : Follows cfg mask (s.sweep cfg w) := by
  obtain rfl := hcan.vls
  cases h : s.lastSweepIndex with
  | none => exact hf.sweep_of_none hcan hkeeps h
  | some last => exact hf.sweep_of_some hcan hkeeps h

/-! ## Runs -/

theorem Run.follows (h : Run cfg mask (Keeps cfg) s) : Follows cfg mask s ∨
    ∃ hardware last index first, last ≠ some index ∧
      s = PortSweeps.init hardware last index first := by
  induction h with
  | init hardware last index first hne => exact .inr ⟨hardware, last, index, first, hne, rfl⟩
  | @sweep s w _ hcan hkeeps ih =>
    rcases ih with hf | ⟨hardware, last, index, first, hne, rfl⟩
    · exact .inl (hf.sweep hcan hkeeps)
    · have hzero : last ≠ none → ∀ k, cfg.tracked mask k = true → w.counters.val k = 0 := by
        intro hlast k htracked
        exact hkeeps.appears hlast rfl k (by rw [hcan.vls]; exact htracked)
      rw [sweep_init]
      exact .inl ((follows_settled hne hzero).sweep
        ⟨fun k => Nat.le_refl _, hcan.vls, hcan.next_ne⟩ hkeeps.settled)

/-- After every sweep the running totals hold what the counters have grown by, in every run whose
sweeps lose nothing. -/
theorem totalsTrue_of_keeps (h : Run cfg mask (Keeps cfg) s) : s.TotalsTrue := by
  rcases h.follows with hf | ⟨hardware, last, index, first, -, rfl⟩
  · exact hf.totals
  · exact totalsTrue_init hardware last index first

/-! ## A port that waits -/

def waitConfig : CounterConfig where
  processVlCounters := true
  clearCounterSelect := fun _ => false
  clearThresholds := fun c => c.max

def waitCounters (wait vlWait : BitVec 8) : CounterValues where
  val k :=
    if k = .port .portXmitWait then wait.toNat
    else if k = .vl 0 .portVLXmitWait then vlWait.toNat
    else 0
  val_le k := by
    have hwait := wait.isLt
    have hvl := vlWait.isLt
    split
    · rename_i hk
      subst hk
      show wait.toNat ≤ 0xffffffffffffffff
      omega
    · split
      · rename_i hk
        subst hk
        show vlWait.toNat ≤ 0xffffffffffffffff
        omega
      · exact Nat.zero_le _

def waitSweep (wait vlWait : BitVec 8) (next : Fin 3) : Sweep 3 :=
  { vlSelectMask := 0x8001#32, counters := waitCounters wait vlWait, lq := {}
    gotErrorCntrs := true, next := next }

def waitStart : PortSweeps 3 :=
  ((init (waitCounters 0 0) none 0 true).sweep waitConfig (waitSweep 0 0 1)).sweep waitConfig
    (waitSweep 0 0 2)

def waitState (wait vlWait : BitVec 8) : PortSweeps 3 :=
  waitStart.sweep waitConfig (waitSweep wait vlWait 0)

theorem sweep_meter_value_le (k : Counter) :
    ((s.sweep cfg w).meter k).value ≤ w.counters.val k := by
  have hread : (s.readMeter cfg w k).value = w.counters.val k := by
    rw [← grownMeter_value (s := s) (w := w) k]
    unfold readMeter
    split <;> rfl
  unfold sweep
  dsimp only
  split
  · exact Nat.zero_le _
  · exact Nat.le_of_eq hread

theorem run_waitState {P : PortSweeps 3 → Sweep 3 → Prop} (wait vlWait : BitVec 8)
    (hnone : ∀ s w, s.lastSweepIndex = none → w.gotErrorCntrs = true → P s w)
    (hlast : P waitStart (waitSweep wait vlWait 0)) :
    Run waitConfig 0x8001#32 P (waitState wait vlWait) := by
  have hzero : ∀ k, (waitCounters 0 0).val k = 0 := by
    intro k
    show (if _ then 0 else if _ then 0 else 0) = 0
    rw [ite_self, ite_self]
  have hfirst : Run waitConfig 0x8001#32 P
      ((init (waitCounters 0 0) none 0 true).sweep waitConfig (waitSweep 0 0 1)) :=
    .sweep (.init _ none 0 true (by decide)) ⟨fun k => Nat.le_refl _, rfl, by decide⟩
      (hnone _ _ rfl rfl)
  have hstart : Run waitConfig 0x8001#32 P waitStart :=
    hfirst.sweep ⟨fun k => sweep_meter_value_le k, rfl, by decide⟩ (hnone _ _ rfl rfl)
  have hnext : (0 : Fin 3) ≠ waitStart.sweepIndex := by decide
  refine hstart.sweep ⟨?_, rfl, hnext⟩ hlast
  intro k
  apply (sweep_meter_value_le k).trans
  show (waitCounters 0 0).val k ≤ _
  rw [hzero k]
  exact Nat.zero_le _

theorem keeps_of_none (h : s.lastSweepIndex = none) (hgot : w.gotErrorCntrs = true) :
    s.Keeps cfg w where
  appears hsome := absurd h hsome
  xmitWait _ hsome := absurd h hsome
  first _ _ hskip := absurd hgot (by rw [hskip]; decide)
  skipped hsome := absurd h hsome
  read last hsome := absurd h (by rw [hsome]; exact Option.some_ne_none last)

theorem waitStart_cleared (htracked : waitConfig.tracked 0x8001#32 k = true) :
    (waitStart.meter k).cleared = false := by
  have hread : waitConfig.reads 0x8001#32 true k = true :=
    reads_iff.mpr ⟨htracked, fun _ => rfl⟩
  have hmeter : ∀ (s : PortSweeps 3) (w : Sweep 3), w.vlSelectMask = 0x8001#32 →
      w.gotErrorCntrs = true →
      ((s.sweep waitConfig w).meter k).cleared = false := by
    intro s w hvls hgot
    have hmask : (s.tabulated waitConfig w).clearSelectMask k.select = false := by
      unfold tabulated
      rw [pmTabulatePort_clearSelectMask, exceedsThreshold_eq_false rfl]
    unfold sweep
    dsimp only
    rw [hmask, if_neg Bool.false_ne_true, readMeter_of_reads (by rw [hvls, hgot]; exact hread)]
    rfl
  exact hmeter _ _ rfl rfl

/-- The change of 7 is weighted to 5 * 5 * 2 / 7. -/
theorem totalsTrue_of_keeps_wait : (waitState 7 5).TotalsTrue := by
  apply totalsTrue_of_keeps
  apply run_waitState 7 5 fun s w => keeps_of_none
  constructor
  case appears => exact fun _ hfresh => nomatch hfresh
  case xmitWait =>
    intro _ _ _ _
    decide
  case first => exact fun h => nomatch h
  case skipped => exact fun _ h => nomatch h
  case read =>
    intro last _ _ k htracked _ hcleared
    rw [waitStart_cleared htracked] at hcleared
    contradiction

/-- A change of 10 is weighted to 10 * 10 * 2 / 10, which is what the total takes. -/
theorem totals_misses : ¬∀ (n : Nat) (cfg : CounterConfig) (mask : BitVec 32) (s : PortSweeps n),
    Run cfg mask (fun _ _ => True) s → s.TotalsTrue := by
  intro h
  have htrue := h 3 waitConfig 0x8001#32 (waitState 10 10)
    (run_waitState 10 10 (fun _ _ _ _ => trivial) trivial) (.port .portXmitWait)
  have htotal : (waitState 10 10).port.total.val (.port .portXmitWait) = 20 := by decide
  have hgrown : ((waitState 10 10).meter (.port .portXmitWait)).atRead = 10 := by decide
  rw [htotal, hgrown] at htrue
  exact absurd htrue (by decide)

end PortSweeps

end OpaFm.PerfMgr
