import OpaFm.SmQos.ScScWrite
import Mathlib.Order.Interval.Finset.Nat
import Mathlib.Data.Finset.Max

/-!
# Runs of ports in a mask

A mask is taken apart into a run up to the last port and runs of limited length below it.  The
search for the next run looks at the first 64 ports only, so that the loop does not end if a run
has to start behind them.
-/

namespace OpaFm.SmQos

variable {maxBlocks numPorts c len k i start : Nat} {mask : Finset Nat}

/-! ## The run up to the last port -/

structure Below (top start : Nat) (mask : Finset Nat) (r : Nat × Finset Nat) (count : Nat) :
    Prop where
  count_lt : count < top
  start_eq : r.1 = if count = 0 then start else top - count
  taken : ∀ p, top - count ≤ p → p < top → p ∈ mask
  mask_eq : ∀ p, p ∈ r.2 ↔ p ∈ mask ∧ p < top - count
  full : top - count = 1 ∨ top - count - 1 ∉ mask

theorem extendDown_below (top start : Nat) (htop : 0 < top)
    (hmask : ∀ p ∈ mask, p < top) :
    ∃ count, Below top start mask (extendDown (List.range' 1 (top - 1)).reverse start mask)
      count := by
  obtain ⟨t, rfl⟩ : ∃ t, top = t + 1 := ⟨top - 1, by omega⟩
  rw [Nat.add_sub_cancel]
  induction t generalizing start mask with
  | zero =>
    refine ⟨0, Nat.one_pos, rfl, fun p _ _ => by omega, ?_, Or.inl rfl⟩
    intro p
    exact ⟨fun hp => ⟨hp, hmask p hp⟩, fun h => h.1⟩
  | succ t ih =>
    have hlist : (List.range' 1 (t + 1)).reverse = (t + 1) :: (List.range' 1 t).reverse := by
      rw [List.range'_1_concat, List.reverse_append, Nat.add_comm 1 t]
      rfl
    rw [hlist, extendDown]
    by_cases hin : t + 1 ∈ mask
    · rw [if_pos hin]
      have hrest : ∀ p ∈ mask.erase (t + 1), p < t + 1 := by
        intro p hp
        have hp' := Finset.mem_erase.mp hp
        have := hmask p hp'.2
        have := hp'.1
        omega
      obtain ⟨count, hbelow⟩ := ih (t + 1) (Nat.succ_pos t) hrest
      refine ⟨count + 1, by have := hbelow.count_lt; omega, ?_, ?_, ?_, ?_⟩
      · rw [hbelow.start_eq, if_neg (Nat.succ_ne_zero count)]
        split <;> omega
      · intro p hp hlt
        by_cases hpt : p = t + 1
        · rw [hpt]
          exact hin
        · exact Finset.mem_of_mem_erase (hbelow.taken p (by omega) (by omega))
      · intro p
        rw [hbelow.mask_eq, Finset.mem_erase]
        constructor
        · rintro ⟨⟨_, hp⟩, hlt⟩
          exact ⟨hp, by omega⟩
        · rintro ⟨hp, hlt⟩
          exact ⟨⟨by omega, hp⟩, by omega⟩
      · have hcount := hbelow.count_lt
        rcases hbelow.full with hone | hnot
        · exact Or.inl (by omega)
        · right
          intro hp
          apply hnot
          rw [Finset.mem_erase]
          refine ⟨by omega, ?_⟩
          have heq : t + 1 - count - 1 = t + 1 + 1 - (count + 1) - 1 := by omega
          rwa [heq]
    · rw [if_neg hin]
      refine ⟨0, Nat.succ_pos _, rfl, fun p _ _ => by omega, ?_, Or.inr hin⟩
      intro p
      exact ⟨fun hp => ⟨hp, hmask p hp⟩, fun h => h.1⟩

theorem lastRun_below (start : Nat) (hpos : 0 < numPorts) (hmask : ∀ p ∈ mask, p ≤ numPorts) :
    ∃ count, Below numPorts start (mask.erase numPorts) (lastRun numPorts start mask) count := by
  apply extendDown_below numPorts start hpos
  intro p hp
  have hp' := Finset.mem_erase.mp hp
  exact Nat.lt_of_le_of_ne (hmask p hp'.2) hp'.1

/-! ## Runs of limited length -/

structure RunAt (maxBlocks start : Nat) (mask : Finset Nat) (numBlocks : Nat)
    (rest : Finset Nat) : Prop where
  pos : 0 < numBlocks
  le : numBlocks ≤ maxBlocks
  taken : ∀ p, start ≤ p → p < start + numBlocks → p ∈ mask
  rest_eq : ∀ p, p ∈ rest ↔ p ∈ mask ∧ ¬(start ≤ p ∧ p < start + numBlocks)
  full : numBlocks = maxBlocks ∨ start + numBlocks ∉ mask

theorem extendUp_run {m nb : Nat} {whole : Finset Nat} (hpos : 0 < nb) (hle : nb ≤ maxBlocks)
    (htaken : ∀ p, start ≤ p → p < start + nb → p ∈ whole)
    (hmask : ∀ p, p ∈ mask ↔ p ∈ whole ∧ ¬(start ≤ p ∧ p < start + nb))
    (hend : ∀ p ∈ whole, p < start + nb + m) :
    RunAt maxBlocks start whole (extendUp maxBlocks (List.range' (start + nb) m) nb mask).1
      (extendUp maxBlocks (List.range' (start + nb) m) nb mask).2 := by
  induction m generalizing nb mask with
  | zero =>
    refine ⟨hpos, hle, htaken, hmask, Or.inr ?_⟩
    intro hin
    have hlt := hend _ hin
    exact absurd hlt (Nat.lt_irrefl _)
  | succ m ih =>
    rw [List.range'_succ, extendUp]
    by_cases hstop : maxBlocks < nb + 1 ∨ start + nb ∉ mask
    · rw [if_pos hstop]
      refine ⟨hpos, hle, htaken, hmask, ?_⟩
      rcases hstop with hmax | hnot
      · exact Or.inl (by omega)
      · right
        intro hin
        exact hnot ((hmask _).mpr ⟨hin, by omega⟩)
    · rw [if_neg hstop]
      push Not at hstop
      obtain ⟨hmax, hin⟩ := hstop
      have hwhole := ((hmask _).mp hin).1
      have htaken' : ∀ p, start ≤ p → p < start + (nb + 1) → p ∈ whole := by
        intro p hp hlt
        by_cases hpe : p = start + nb
        · rw [hpe]
          exact hwhole
        · exact htaken p hp (by omega)
      have hrest : ∀ p, p ∈ mask.erase (start + nb) ↔
          p ∈ whole ∧ ¬(start ≤ p ∧ p < start + (nb + 1)) := by
        intro p
        rw [Finset.mem_erase, hmask]
        constructor
        · rintro ⟨hne, hp, hnot⟩
          exact ⟨hp, by omega⟩
        · rintro ⟨hp, hnot⟩
          exact ⟨by omega, hp, by omega⟩
      have hend' : ∀ p ∈ whole, p < start + (nb + 1) + m := by
        intro p hp
        have := hend p hp
        omega
      exact ih (by omega) hmax htaken' hrest hend'

theorem getFirst_eq (hc : c ∈ mask) (hle : c ≤ maxStlPorts) (hmin : ∀ p ∈ mask, c ≤ p) :
    stlGetFirstPortInPortMask mask = c := by
  unfold stlGetFirstPortInPortMask
  have hfind : (List.range (maxStlPorts + 1)).find? (· ∈ mask) = some c := by
    rw [List.find?_range_eq_some]
    refine ⟨decide_eq_true hc, List.mem_range.mpr (by omega), ?_⟩
    intro j hj
    rw [Bool.not_eq_true', decide_eq_false_iff_not]
    intro hin
    have := hmin j hin
    omega
  rw [hfind, Option.getD_some]

theorem getFirst_far (hmin : ∀ p ∈ mask, maxStlPorts < p) :
    stlGetFirstPortInPortMask mask = 0xff := by
  unfold stlGetFirstPortInPortMask
  have hfind : (List.range (maxStlPorts + 1)).find? (· ∈ mask) = none := by
    rw [List.find?_eq_none]
    intro p hp hin
    have := hmin p (of_decide_eq_true hin)
    have := List.mem_range.mp hp
    omega
  rw [hfind, Option.getD_none]

theorem firstRun_run (hmax : 0 < maxBlocks) (hc : c ∈ mask) (hle : c ≤ maxStlPorts)
    (hmin : ∀ p ∈ mask, c ≤ p ∧ p ≤ numPorts) :
    (firstRun maxBlocks numPorts mask).1 = c ∧
      RunAt maxBlocks c mask (firstRun maxBlocks numPorts mask).2.1
        (firstRun maxBlocks numPorts mask).2.2 := by
  have hfirst := getFirst_eq hc hle fun p hp => (hmin p hp).1
  unfold firstRun
  dsimp only
  rw [hfirst]
  refine ⟨rfl, ?_⟩
  apply extendUp_run Nat.one_pos hmax
  · intro p hp hlt
    have hpc : p = c := by omega
    rw [hpc]
    exact hc
  · intro p
    rw [Finset.mem_erase]
    constructor
    · rintro ⟨hne, hp⟩
      exact ⟨hp, by omega⟩
    · rintro ⟨hp, hnot⟩
      exact ⟨by omega, hp⟩
  · intro p hp
    have := (hmin p hp).2
    have := (hmin c hc).2
    omega

theorem firstRun_far (hmin : ∀ p ∈ mask, maxStlPorts < p ∧ p < numPorts) (hnum : numPorts ≤ 255) :
    (firstRun maxBlocks numPorts mask).2.2 = mask := by
  have hfirst := getFirst_far fun p hp => (hmin p hp).1
  unfold firstRun
  dsimp only
  rw [hfirst, Nat.sub_eq_zero_of_le hnum]
  show mask.erase 0xff = mask
  apply Finset.erase_eq_of_notMem
  intro hin
  have := (hmin _ hin).2
  omega

/-! ## Ports that start a run -/

def portsBefore (mask : Finset Nat) : Nat → Nat
  | 0 => 0
  | p + 1 => if p ∈ mask then portsBefore mask p + 1 else 0

def InReach (maxBlocks : Nat) (mask : Finset Nat) : Prop :=
  ∀ p ∈ mask, maxBlocks ∣ portsBefore mask p → p ≤ maxStlPorts

theorem portsBefore_eq_zero {p : Nat} (h : ∀ q, q + 1 = p → q ∉ mask) :
    portsBefore mask p = 0 := by
  cases p with
  | zero => rfl
  | succ q => exact if_neg (h q rfl)

theorem portsBefore_run (hbefore : portsBefore mask start = 0)
    (htaken : ∀ p, start ≤ p → p < start + k → p ∈ mask) :
    portsBefore mask (start + k) = k := by
  induction k with
  | zero => exact hbefore
  | succ k ih =>
    rw [← Nat.add_assoc, portsBefore, if_pos (htaken _ (by omega) (by omega))]
    rw [ih fun p hp hlt => htaken p hp (by omega)]

theorem RunAt.portsBefore_mod {numBlocks : Nat} {rest : Finset Nat}
    (h : RunAt maxBlocks start mask numBlocks rest) (hbefore : portsBefore mask start = 0) :
    start + numBlocks + k ∈ mask →
      portsBefore mask (start + numBlocks + k) % maxBlocks =
        portsBefore rest (start + numBlocks + k) % maxBlocks := by
  induction k with
  | zero =>
    intro hin
    rw [Nat.add_zero] at hin ⊢
    have hfull : numBlocks = maxBlocks := h.full.resolve_right fun hnot => hnot hin
    have hrest : portsBefore rest (start + numBlocks) = 0 := by
      apply portsBefore_eq_zero
      intro q hq hin'
      have hpos := h.pos
      exact ((h.rest_eq q).mp hin').2 (by omega)
    rw [portsBefore_run hbefore h.taken, hrest, hfull, Nat.mod_self, Nat.zero_mod]
  | succ k ih =>
    intro _
    rw [← Nat.add_assoc, portsBefore, portsBefore]
    by_cases hin : start + numBlocks + k ∈ mask
    · have hrest : start + numBlocks + k ∈ rest := (h.rest_eq _).mpr ⟨hin, by omega⟩
      rw [if_pos hin, if_pos hrest, Nat.add_mod, ih hin, ← Nat.add_mod]
    · have hrest : start + numBlocks + k ∉ rest := fun hr => hin ((h.rest_eq _).mp hr).1
      rw [if_neg hin, if_neg hrest]

theorem RunAt.inReach_iff {numBlocks : Nat} {rest : Finset Nat}
    (h : RunAt maxBlocks start mask numBlocks rest) (hmin : ∀ p ∈ mask, start ≤ p)
    (hle : start ≤ maxStlPorts) : InReach maxBlocks mask ↔ InReach maxBlocks rest := by
  have hbefore : portsBefore mask start = 0 := by
    apply portsBefore_eq_zero
    intro q hq hin
    have := hmin q hin
    omega
  have hsame : ∀ p ∈ rest, (maxBlocks ∣ portsBefore mask p ↔ maxBlocks ∣ portsBefore rest p) := by
    intro p hp
    have hp' := (h.rest_eq p).mp hp
    have hge := hmin p hp'.1
    obtain ⟨d, rfl⟩ : ∃ d, p = start + numBlocks + d := ⟨p - (start + numBlocks), by omega⟩
    rw [Nat.dvd_iff_mod_eq_zero, Nat.dvd_iff_mod_eq_zero, h.portsBefore_mod hbefore hp'.1]
  constructor
  · intro hreach p hp hdvd
    exact hreach p ((h.rest_eq p).mp hp).1 ((hsame p hp).mpr hdvd)
  · intro hreach p hp hdvd
    by_cases hrun : start ≤ p ∧ p < start + numBlocks
    · -- inside the run only its start has a multiple of the blocks before it
      have hcount : portsBefore mask p = p - start := by
        have hrunp := portsBefore_run hbefore (k := p - start)
          fun q hq hlt => h.taken q hq (by omega)
        rwa [Nat.add_sub_of_le hrun.1] at hrunp
      have hlt : p - start < maxBlocks := by
        have := h.le
        omega
      have hzero : p - start = 0 := Nat.eq_zero_of_dvd_of_lt (hcount ▸ hdvd) hlt
      omega
    · have hrest := (h.rest_eq p).mpr ⟨hp, hrun⟩
      exact hreach p hrest ((hsame p hrest).mp hdvd)

/-! ## One step of the loops -/

structure RangeSplit (first last : Nat) (mask rest : Finset Nat) : Prop where
  disjoint : Disjoint (Finset.Icc first last) rest
  union : Finset.Icc first last ∪ rest = mask

theorem RangeSplit.mem_iff {last p : Nat} {rest : Finset Nat}
    (h : RangeSplit start last mask rest) : p ∈ mask ↔ (start ≤ p ∧ p ≤ last) ∨ p ∈ rest := by
  rw [← h.union, Finset.mem_union, Finset.mem_Icc]

theorem RangeSplit.card_lt {last : Nat} {rest : Finset Nat} (h : RangeSplit start last mask rest)
    (hle : start ≤ last) : rest.card < mask.card := by
  apply Finset.card_lt_card
  rw [Finset.ssubset_iff_of_subset fun p hp => h.mem_iff.mpr (Or.inr hp)]
  refine ⟨start, h.mem_iff.mpr (Or.inl ⟨Nat.le_refl start, hle⟩), ?_⟩
  intro hin
  exact Finset.disjoint_left.mp h.disjoint (Finset.mem_Icc.mpr ⟨Nat.le_refl start, hle⟩) hin

theorem rangeSplit_of_mem {last : Nat} {rest : Finset Nat}
    (hrange : ∀ p, start ≤ p → p ≤ last → p ∈ mask)
    (hrest : ∀ p, p ∈ rest ↔ p ∈ mask ∧ ¬(start ≤ p ∧ p ≤ last)) :
    RangeSplit start last mask rest := by
  constructor
  · rw [Finset.disjoint_left]
    intro p hp hin
    exact ((hrest p).mp hin).2 (Finset.mem_Icc.mp hp)
  · ext p
    rw [Finset.mem_union, Finset.mem_Icc, hrest]
    by_cases hp : start ≤ p ∧ p ≤ last
    · exact ⟨fun _ => hrange p hp.1 hp.2, fun _ => Or.inl hp⟩
    · exact ⟨fun h => (h.resolve_left hp).1, fun h => Or.inr ⟨h, hp⟩⟩

def belowLastRun (numPorts : Nat) (mask : Finset Nat) : Finset Nat :=
  mask.filter fun p => ¬Finset.Icc (p + 1) numPorts ⊆ mask

theorem mem_belowLastRun {p : Nat} :
    p ∈ belowLastRun numPorts mask ↔ p ∈ mask ∧ ∃ q, p < q ∧ q ≤ numPorts ∧ q ∉ mask := by
  rw [belowLastRun, Finset.mem_filter, Finset.not_subset]
  simp only [Finset.mem_Icc, Nat.succ_le_iff, and_assoc]

theorem belowLastRun_eq_self (hmask : ∀ p ∈ mask, p < numPorts) :
    belowLastRun numPorts mask = mask := by
  ext p
  rw [mem_belowLastRun]
  constructor
  · exact fun h => h.1
  · intro hp
    exact ⟨hp, numPorts, hmask p hp, Nat.le_refl _, fun hin => Nat.lt_irrefl _ (hmask _ hin)⟩

section LastRun

variable (hmask : ∀ p ∈ mask, 1 ≤ p ∧ p ≤ numPorts) (hlast : numPorts ∈ mask)
include hmask hlast

theorem lastRun_rest (start : Nat) :
    (lastRun numPorts start mask).2 = belowLastRun numPorts mask := by
  have hpos := (hmask _ hlast).1
  obtain ⟨count, h⟩ := lastRun_below start hpos fun p hp => (hmask p hp).2
  ext p
  rw [h.mask_eq, mem_belowLastRun, Finset.mem_erase]
  have hcount := h.count_lt
  constructor
  · rintro ⟨⟨_, hp⟩, hlt⟩
    have hp1 := (hmask p hp).1
    rcases h.full with hone | hnot
    · omega
    · have hnot' : numPorts - count - 1 ∉ mask := fun hin =>
        hnot (Finset.mem_erase.mpr ⟨by omega, hin⟩)
      have hpne : p ≠ numPorts - count - 1 := fun heq => hnot' (heq ▸ hp)
      exact ⟨hp, numPorts - count - 1, by omega, by omega, hnot'⟩
  · rintro ⟨hp, q, hpq, hq, hnot⟩
    have hqlast : q ≠ numPorts := fun heq => hnot (heq ▸ hlast)
    have hqlt : q < numPorts - count := by
      by_contra hge
      exact hnot (Finset.mem_of_mem_erase (h.taken q (by omega) (by omega)))
    exact ⟨⟨by omega, hp⟩, by omega⟩

/-- The run up to the last port is a range of the mask if it has another port, or if the variable
for its start holds the last port. -/
theorem lastRun_split (start : Nat) (h : start = numPorts ∨ numPorts - 1 ∈ mask) :
    (lastRun numPorts start mask).1 ≤ numPorts ∧
      RangeSplit (lastRun numPorts start mask).1 numPorts mask (belowLastRun numPorts mask) := by
  have hpos := (hmask _ hlast).1
  obtain ⟨count, hbelow⟩ := lastRun_below start hpos fun p hp => (hmask p hp).2
  have hcount := hbelow.count_lt
  have hfirst : (lastRun numPorts start mask).1 = numPorts - count := by
    rw [hbelow.start_eq]
    split
    case isFalse => rfl
    case isTrue hzero =>
      rcases h with hstart | hin
      · omega
      · exfalso
        have hin1 := (hmask _ hin).1
        rcases hbelow.full with hone | hnot
        · omega
        · apply hnot
          rw [hzero, Nat.sub_zero]
          exact Finset.mem_erase.mpr ⟨by omega, hin⟩
  rw [hfirst]
  refine ⟨Nat.sub_le _ _, ?_⟩
  apply rangeSplit_of_mem
  · intro p hp hle
    by_cases hpe : p = numPorts
    · rw [hpe]
      exact hlast
    · exact Finset.mem_of_mem_erase (hbelow.taken p hp (by omega))
  · intro p
    rw [← lastRun_rest hmask hlast start, hbelow.mask_eq, Finset.mem_erase]
    constructor
    · rintro ⟨⟨_, hp⟩, hlt⟩
      exact ⟨hp, by omega⟩
    · rintro ⟨hp, hnot⟩
      have hle := (hmask p hp).2
      exact ⟨⟨by omega, hp⟩, by omega⟩

theorem lastRun_stale (h : numPorts - 1 ∉ mask) : (lastRun numPorts start mask).1 = start := by
  have hpos := (hmask _ hlast).1
  obtain ⟨count, hbelow⟩ := lastRun_below start hpos fun p hp => (hmask p hp).2
  have hcount := hbelow.count_lt
  rw [hbelow.start_eq]
  apply if_pos
  by_contra hne
  exact h (Finset.mem_of_mem_erase (hbelow.taken _ (by omega) (by omega)))

theorem lastRun_le (h : start ≤ numPorts - 1) :
    (lastRun numPorts start mask).1 ≤ numPorts - 1 := by
  have hpos := (hmask _ hlast).1
  obtain ⟨count, hbelow⟩ := lastRun_below start hpos fun p hp => (hmask p hp).2
  rw [hbelow.start_eq]
  split <;> omega

end LastRun

structure NextRun (maxBlocks : Nat) (mask : Finset Nat) (r : Nat × Nat × Finset Nat) : Prop where
  split : RangeSplit r.1 (r.1 + r.2.1 - 1) mask r.2.2
  start_le : r.1 ≤ r.1 + r.2.1 - 1
  start_mem : r.1 ∈ mask
  blocks_le : r.2.1 ≤ maxBlocks
  reach_iff : InReach maxBlocks mask ↔ InReach maxBlocks r.2.2

theorem firstRun_cases (hmax : 0 < maxBlocks) (hnum : numPorts ≤ 255) (hne : mask.Nonempty)
    (hmask : ∀ p ∈ mask, p < numPorts) :
    NextRun maxBlocks mask (firstRun maxBlocks numPorts mask) ∨
      ((firstRun maxBlocks numPorts mask).2.2 = mask ∧ ¬InReach maxBlocks mask) := by
  have hc := Finset.min'_mem mask hne
  have hmin : ∀ p ∈ mask, mask.min' hne ≤ p := fun p hp => Finset.min'_le mask p hp
  generalize mask.min' hne = c at hc hmin
  by_cases hle : c ≤ maxStlPorts
  · left
    have hrange : ∀ p ∈ mask, c ≤ p ∧ p ≤ numPorts := by
      intro p hp
      exact ⟨hmin p hp, Nat.le_of_lt (hmask p hp)⟩
    obtain ⟨hstart, hrun⟩ := firstRun_run hmax hc hle hrange
    have hpos := hrun.pos
    constructor
    · rw [hstart]
      apply rangeSplit_of_mem
      · intro p hp hlast
        exact hrun.taken p hp (by omega)
      · intro p
        rw [hrun.rest_eq]
        constructor
        · rintro ⟨hp, hnot⟩
          exact ⟨hp, by omega⟩
        · rintro ⟨hp, hnot⟩
          exact ⟨hp, by omega⟩
    · omega
    · rw [hstart]
      exact hc
    · exact hrun.le
    · exact hrun.inReach_iff hmin hle
  · right
    constructor
    · apply firstRun_far _ hnum
      intro p hp
      have := hmin p hp
      exact ⟨by omega, hmask p hp⟩
    · intro hreach
      apply hle
      apply hreach c hc
      have hbefore : portsBefore mask c = 0 := by
        apply portsBefore_eq_zero
        intro q hq hin
        have := hmin q hin
        omega
      rw [hbefore]
      exact Nat.dvd_zero _

end OpaFm.SmQos
