import OpaFm.Lib.Tiling
import OpaFm.SmQos.Proofs.PortRuns

/-!
# The pairs of ports that SC to SC requests set

The requests for a block tile its pairs of ports if the loops end and a run of egress ports up to
the last port has another port: for the last port alone the variable for the start of the run
keeps what it had.
-/

namespace OpaFm.SmQos

open OpaFm.Lib

variable {numPorts fuel : Nat} {mask : Finset Nat} {scscMap : Nat → Nat} {e : EgressRange}

def ScscSet.pairs (s : ScscSet) : Finset (Nat × Nat) :=
  Finset.Icc s.ingress s.lastIngress ×ˢ Finset.Icc s.egress s.lastEgress

structure Writes (sets : List ScscSet) (pairs : Finset (Nat × Nat)) : Prop where
  tiles : Tiles ScscSet.pairs sets pairs
  blocks_le : ∀ s ∈ sets, s.numBlocks ≤ stlNumScscBlocksPerLidSmp

theorem Writes.nil : Writes [] ∅ :=
  ⟨Tiles.nil, fun _ h => absurd h List.not_mem_nil⟩

theorem Writes.append {sets sets' : List ScscSet} {p p' : Finset (Nat × Nat)}
    (h : Writes sets p) (h' : Writes sets' p') (hdisjoint : Disjoint p p') :
    Writes (sets ++ sets') (p ∪ p') := by
  constructor
  · exact h.tiles.append h'.tiles hdisjoint
  · intro s hs
    rcases List.mem_append.mp hs with hs | hs
    · exact h.blocks_le s hs
    · exact h'.blocks_le s hs

theorem Writes.singleton {s : ScscSet} (h : s.numBlocks ≤ stlNumScscBlocksPerLidSmp) :
    Writes [s] s.pairs := by
  constructor
  · exact Tiles.singleton s
  · intro s' hs'
    rw [List.mem_singleton.mp hs']
    exact h

theorem noPorts_iff (hmask : ∀ p ∈ mask, p ≤ numPorts) :
    stlNumPortsSetInPortMask mask numPorts = 0 ↔ mask = ∅ := by
  rw [stlNumPortsSetInPortMask, Finset.filter_true_of_mem hmask, Finset.card_eq_zero]

/-! ## Ingress ports -/

def EgressRange.maxIngress (e : EgressRange) : Nat :=
  if e.allEgress then stlNumScscBlocksPerLidSmp else 1

theorem firstRun_one (numPorts : Nat) (mask : Finset Nat) :
    firstRun 1 numPorts mask = (stlGetFirstPortInPortMask mask, 1,
      mask.erase (stlGetFirstPortInPortMask mask)) := by
  unfold firstRun
  dsimp only
  cases List.range' (stlGetFirstPortInPortMask mask + 1)
      (numPorts - stlGetFirstPortInPortMask mask) with
  | nil => rfl
  | cons i rest => rw [extendUp, if_pos (Or.inl (Nat.lt_succ_self 1))]

def ingressRun (scscMap : Nat → Nat) (e : EgressRange) (r : Nat × Nat × Finset Nat) : ScscSet where
  allIngress := false
  allEgress := e.allEgress
  numBlocks := if e.allEgress then r.2.1 else e.numBlocks
  ingress := r.1
  lastIngress := r.1 + r.2.1 - 1
  egress := e.egress
  lastEgress := e.lastEgress
  scscMap := scscMap

def ingressLast (numPorts : Nat) (scscMap : Nat → Nat) (e : EgressRange) (first : Nat) :
    ScscSet where
  allIngress := true
  allEgress := e.allEgress
  numBlocks := if e.allEgress then 1 else e.numBlocks
  ingress := first
  lastIngress := numPorts
  egress := e.egress
  lastEgress := e.lastEgress
  scscMap := scscMap

theorem ingressLoop_empty : ingressLoop numPorts scscMap e (fuel + 1) ∅ = some [] := by
  rw [ingressLoop]
  exact if_pos rfl

theorem ingressLoop_run (hne : mask.Nonempty) (hmask : ∀ p ∈ mask, p < numPorts) :
    ingressLoop numPorts scscMap e (fuel + 1) mask =
      (ingressLoop numPorts scscMap e fuel (firstRun e.maxIngress numPorts mask).2.2).map
        (ingressRun scscMap e (firstRun e.maxIngress numPorts mask) :: ·) := by
  have hnot : numPorts ∉ mask := fun hin => Nat.lt_irrefl _ (hmask _ hin)
  rw [ingressLoop, if_neg, if_neg hnot]
  · rw [EgressRange.maxIngress]
    cases hall : e.allEgress with
    | true =>
      rw [if_pos rfl, if_pos rfl]
      unfold ingressRun
      rw [hall]
      rfl
    | false =>
      rw [if_neg Bool.false_ne_true, if_neg Bool.false_ne_true, firstRun_one]
      unfold ingressRun
      rw [hall]
      rfl
  · rw [noPorts_iff fun p hp => Nat.le_of_lt (hmask p hp)]
    exact hne.ne_empty

theorem ingressLoop_last (hmask : ∀ p ∈ mask, 1 ≤ p ∧ p ≤ numPorts) (hlast : numPorts ∈ mask) :
    ingressLoop numPorts scscMap e (fuel + 1) mask =
      (ingressLoop numPorts scscMap e fuel (belowLastRun numPorts mask)).map
        (ingressLast numPorts scscMap e (lastRun numPorts numPorts mask).1 :: ·) := by
  rw [ingressLoop, if_neg, if_pos hlast]
  · rw [← lastRun_rest hmask hlast numPorts]
    rfl
  · rw [noPorts_iff fun p hp => (hmask p hp).2]
    exact Finset.ne_empty_of_mem hlast

theorem EgressRange.maxIngress_pos : 0 < e.maxIngress := by
  unfold EgressRange.maxIngress
  split <;> decide

def EgressRange.ports (e : EgressRange) : Finset Nat :=
  Finset.Icc e.egress e.lastEgress

theorem ingressRun_blocks {r : Nat × Nat × Finset Nat}
    (he : e.numBlocks ≤ stlNumScscBlocksPerLidSmp)
    (hr : r.2.1 ≤ e.maxIngress) :
    (ingressRun scscMap e r).numBlocks ≤ stlNumScscBlocksPerLidSmp := by
  show (if e.allEgress then r.2.1 else e.numBlocks) ≤ _
  unfold EgressRange.maxIngress at hr
  by_cases hall : e.allEgress = true
  · rw [if_pos hall] at hr ⊢
    exact hr
  · rw [if_neg hall]
    exact he

theorem writes_cons_ingress {s : ScscSet} {sets : List ScscSet} {rest : Finset Nat}
    (hs : s.numBlocks ≤ stlNumScscBlocksPerLidSmp)
    (hegress : Finset.Icc s.egress s.lastEgress = e.ports)
    (hsplit : RangeSplit s.ingress s.lastIngress mask rest) (hsets : Writes sets (rest ×ˢ e.ports)) :
    Writes (s :: sets) (mask ×ˢ e.ports) := by
  have hpairs : s.pairs = Finset.Icc s.ingress s.lastIngress ×ˢ e.ports := by
    rw [ScscSet.pairs, hegress]
  have hwrites := (Writes.singleton hs).append hsets
  rw [hpairs, ← Finset.union_product, hsplit.union] at hwrites
  apply hwrites
  exact Finset.disjoint_product.mpr (Or.inl hsplit.disjoint)

section IngressRuns

variable (hnum : numPorts ≤ 255) (hmask : ∀ p ∈ mask, p < numPorts)
include hnum hmask

theorem ingressLoop_writes_run {sets : List ScscSet}
    (he : e.numBlocks ≤ stlNumScscBlocksPerLidSmp)
    (h : ingressLoop numPorts scscMap e fuel mask = some sets) :
    InReach e.maxIngress mask ∧ Writes sets (mask ×ˢ e.ports) := by
  induction fuel generalizing mask sets with
  | zero => cases h
  | succ fuel ih =>
    rcases mask.eq_empty_or_nonempty with hempty | hne
    · subst hempty
      rw [ingressLoop_empty, Option.some.injEq] at h
      rw [← h, Finset.empty_product]
      exact ⟨fun p hp => absurd hp (Finset.notMem_empty p), Writes.nil⟩
    · rw [ingressLoop_run hne hmask, Option.map_eq_some_iff] at h
      obtain ⟨sets', hrest, rfl⟩ := h
      rcases firstRun_cases e.maxIngress_pos hnum hne hmask with hrun | ⟨hstuck, hreach⟩
      · obtain ⟨hreach, hwrites⟩ := ih
          (fun p hp => hmask p (hrun.split.mem_iff.mpr (Or.inr hp))) hrest
        refine ⟨hrun.reach_iff.mpr hreach, ?_⟩
        exact writes_cons_ingress (ingressRun_blocks he hrun.blocks_le) rfl hrun.split hwrites
      · rw [hstuck] at hrest
        exact absurd (ih hmask hrest).1 hreach

theorem ingressLoop_total_run (hreach : InReach e.maxIngress mask) (hfuel : mask.card < fuel) :
    ∃ sets, ingressLoop numPorts scscMap e fuel mask = some sets := by
  induction fuel generalizing mask with
  | zero => exact absurd hfuel (Nat.not_lt_zero _)
  | succ fuel ih =>
    rcases mask.eq_empty_or_nonempty with hempty | hne
    · subst hempty
      exact ⟨[], ingressLoop_empty⟩
    · rcases firstRun_cases e.maxIngress_pos hnum hne hmask with hrun | ⟨_, hnot⟩
      · have hcard := hrun.split.card_lt hrun.start_le
        obtain ⟨sets, hsets⟩ := ih
          (fun p hp => hmask p (hrun.split.mem_iff.mpr (Or.inr hp)))
          (hrun.reach_iff.mp hreach) (by omega)
        rw [ingressLoop_run hne hmask, hsets]
        exact ⟨_, rfl⟩
      · exact absurd hreach hnot

end IngressRuns

theorem belowLastRun_lt : ∀ p ∈ belowLastRun numPorts mask, p < numPorts := by
  intro p hp
  obtain ⟨_, q, hpq, hq, _⟩ := mem_belowLastRun.mp hp
  omega

section Ingress

variable (hnum : numPorts ≤ 255) (hmask : ∀ p ∈ mask, 1 ≤ p ∧ p ≤ numPorts)
include hnum hmask

theorem ingressLoop_writes {sets : List ScscSet}
    (he : e.numBlocks ≤ stlNumScscBlocksPerLidSmp)
    (h : ingressLoop numPorts scscMap e fuel mask = some sets) :
    InReach e.maxIngress (belowLastRun numPorts mask) ∧ Writes sets (mask ×ˢ e.ports) := by
  by_cases hlast : numPorts ∈ mask
  · cases fuel with
    | zero => cases h
    | succ fuel =>
      rw [ingressLoop_last hmask hlast, Option.map_eq_some_iff] at h
      obtain ⟨sets', hrest, rfl⟩ := h
      obtain ⟨hreach, hwrites⟩ := ingressLoop_writes_run hnum belowLastRun_lt he hrest
      refine ⟨hreach, writes_cons_ingress ?_ rfl ?_ hwrites⟩
      · show (if e.allEgress then 1 else e.numBlocks) ≤ _
        split
        · decide
        · exact he
      · exact (lastRun_split hmask hlast numPorts (Or.inl rfl)).2
  · have hlt : ∀ p ∈ mask, p < numPorts := by
      intro p hp
      exact Nat.lt_of_le_of_ne (hmask p hp).2 fun heq => hlast (heq ▸ hp)
    rw [belowLastRun_eq_self hlt]
    exact ingressLoop_writes_run hnum hlt he h

theorem ingressLoop_total (scscMap : Nat → Nat) (e : EgressRange)
    (hreach : InReach e.maxIngress (belowLastRun numPorts mask))
    (hfuel : mask.card < fuel) :
    ∃ sets, ingressLoop numPorts scscMap e fuel mask = some sets := by
  by_cases hlast : numPorts ∈ mask
  · cases fuel with
    | zero => exact absurd hfuel (Nat.not_lt_zero _)
    | succ fuel =>
      obtain ⟨hle, hsplit⟩ := lastRun_split hmask hlast numPorts (Or.inl rfl)
      have hcard := hsplit.card_lt hle
      obtain ⟨sets, hsets⟩ := ingressLoop_total_run hnum belowLastRun_lt hreach
        (show _ < fuel by omega)
      rw [ingressLoop_last hmask hlast, hsets]
      exact ⟨_, rfl⟩
  · have hlt : ∀ p ∈ mask, p < numPorts := by
      intro p hp
      exact Nat.lt_of_le_of_ne (hmask p hp).2 fun heq => hlast (heq ▸ hp)
    rw [belowLastRun_eq_self hlt] at hreach
    exact ingressLoop_total_run hnum hlt hreach hfuel

end Ingress

/-! ## Egress ports -/

def egressRun (r : Nat × Nat × Finset Nat) : EgressRange :=
  ⟨false, r.1, r.1 + r.2.1 - 1, r.2.1⟩

def egressLast (numPorts first : Nat) : EgressRange :=
  ⟨true, first, numPorts, 0⟩

theorem Writes.appendEgress {sets sets' : List ScscSet} {ingress rest : Finset Nat}
    (hsets : Writes sets (ingress ×ˢ e.ports)) (hsplit : RangeSplit e.egress e.lastEgress mask rest)
    (hsets' : Writes sets' (ingress ×ˢ rest)) : Writes (sets ++ sets') (ingress ×ˢ mask) := by
  rw [← hsplit.union, Finset.product_union]
  apply hsets.append hsets'
  exact Finset.disjoint_product.mpr (Or.inr hsplit.disjoint)

section Egress

variable (b : ScscMultiset numPorts) (ingressFuel egress : Nat)

theorem egressLoop_empty : egressLoop b ingressFuel (fuel + 1) egress ∅ = some ([], egress) := by
  rw [egressLoop]
  exact if_pos rfl

theorem egressLoop_run (hne : mask.Nonempty) (hmask : ∀ p ∈ mask, p < numPorts) :
    egressLoop b ingressFuel (fuel + 1) egress mask =
      (ingressLoop numPorts b.scscMap
          (egressRun (firstRun stlNumScscBlocksPerLidSmp numPorts mask)) ingressFuel
          b.ingressPortMask).bind fun sets =>
        (egressLoop b ingressFuel fuel (firstRun stlNumScscBlocksPerLidSmp numPorts mask).1
          (firstRun stlNumScscBlocksPerLidSmp numPorts mask).2.2).map fun r =>
            (sets ++ r.1, r.2) := by
  have hnot : numPorts ∉ mask := fun hin => Nat.lt_irrefl _ (hmask _ hin)
  rw [egressLoop, if_neg]
  · rw [nextEgress, if_neg hnot]
    rfl
  · rw [noPorts_iff fun p hp => Nat.le_of_lt (hmask p hp)]
    exact hne.ne_empty

theorem egressLoop_last (hmask : ∀ p ∈ mask, 1 ≤ p ∧ p ≤ numPorts) (hlast : numPorts ∈ mask) :
    egressLoop b ingressFuel (fuel + 1) egress mask =
      (ingressLoop numPorts b.scscMap (egressLast numPorts (lastRun numPorts egress mask).1)
          ingressFuel b.ingressPortMask).bind fun sets =>
        (egressLoop b ingressFuel fuel (lastRun numPorts egress mask).1
          (belowLastRun numPorts mask)).map fun r => (sets ++ r.1, r.2) := by
  rw [egressLoop, if_neg]
  · rw [nextEgress, if_pos hlast, ← lastRun_rest hmask hlast egress]
    rfl
  · rw [noPorts_iff fun p hp => (hmask p hp).2]
    exact Finset.ne_empty_of_mem hlast

variable {b ingressFuel egress} (hnum : numPorts ≤ 255)
include hnum

theorem egressLoop_writes_run {r : List ScscSet × Nat} (hmask : ∀ p ∈ mask, p < numPorts)
    (h : egressLoop b ingressFuel fuel egress mask = some r) :
    InReach stlNumScscBlocksPerLidSmp mask ∧
      (mask.Nonempty → InReach 1 (belowLastRun numPorts b.ingressPortMask)) ∧
      (egress ≤ numPorts - 1 → r.2 ≤ numPorts - 1) ∧
      Writes r.1 (b.ingressPortMask ×ˢ mask) := by
  induction fuel generalizing egress mask r with
  | zero => cases h
  | succ fuel ih =>
    rcases mask.eq_empty_or_nonempty with hempty | hne
    · subst hempty
      rw [egressLoop_empty, Option.some.injEq] at h
      rw [← h, Finset.product_empty]
      refine ⟨fun p hp => absurd hp (Finset.notMem_empty p), ?_, id, Writes.nil⟩
      exact fun hne => absurd rfl hne.ne_empty
    · rw [egressLoop_run b ingressFuel egress hne hmask, Option.bind_eq_some_iff] at h
      obtain ⟨sets, hsets, h⟩ := h
      rw [Option.map_eq_some_iff] at h
      obtain ⟨r', hrest, rfl⟩ := h
      rcases firstRun_cases (show 0 < stlNumScscBlocksPerLidSmp by decide) hnum hne hmask with
        hrun | ⟨hstuck, hreach⟩
      · obtain ⟨hsingle, hwrites⟩ := ingressLoop_writes hnum b.ingress_ports hrun.blocks_le hsets
        have hstart := hmask _ hrun.start_mem
        obtain ⟨hreach, _, hstale, hrestWrites⟩ := ih
          (fun p hp => hmask p (hrun.split.mem_iff.mpr (Or.inr hp))) hrest
        refine ⟨hrun.reach_iff.mpr hreach, fun _ => hsingle, ?_, ?_⟩
        · intro _
          apply hstale
          omega
        · exact hwrites.appendEgress hrun.split hrestWrites
      · rw [hstuck] at hrest
        exact absurd (ih hmask hrest).1 hreach

theorem egressLoop_total_run (egress : Nat) (hmask : ∀ p ∈ mask, p < numPorts)
    (hreach : InReach stlNumScscBlocksPerLidSmp mask)
    (hsingle : mask.Nonempty → InReach 1 (belowLastRun numPorts b.ingressPortMask))
    (hingress : b.ingressPortMask.card < ingressFuel) (hfuel : mask.card < fuel) :
    ∃ r, egressLoop b ingressFuel fuel egress mask = some r := by
  induction fuel generalizing egress mask with
  | zero => exact absurd hfuel (Nat.not_lt_zero _)
  | succ fuel ih =>
    rcases mask.eq_empty_or_nonempty with hempty | hne
    · subst hempty
      exact ⟨_, egressLoop_empty b ingressFuel egress⟩
    · rcases firstRun_cases (show 0 < stlNumScscBlocksPerLidSmp by decide) hnum hne hmask with
        hrun | ⟨_, hnot⟩
      · have hcard := hrun.split.card_lt hrun.start_le
        obtain ⟨sets, hsets⟩ := ingressLoop_total hnum b.ingress_ports b.scscMap
          (egressRun (firstRun stlNumScscBlocksPerLidSmp numPorts mask)) (hsingle hne) hingress
        obtain ⟨r, hr⟩ := ih (firstRun stlNumScscBlocksPerLidSmp numPorts mask).1
          (fun p hp => hmask p (hrun.split.mem_iff.mpr (Or.inr hp)))
          (hrun.reach_iff.mp hreach) (fun _ => hsingle hne) (by omega)
        rw [egressLoop_run b ingressFuel egress hne hmask, hsets, Option.bind_some, hr]
        exact ⟨_, rfl⟩
      · exact absurd hreach hnot

end Egress

/-! ## Blocks -/

structure Writable (b : ScscMultiset numPorts) : Prop where
  egress_reach : InReach stlNumScscBlocksPerLidSmp (belowLastRun numPorts b.egressPortMask)
  ingress_reach : numPorts ∈ b.egressPortMask →
    InReach stlNumScscBlocksPerLidSmp (belowLastRun numPorts b.ingressPortMask)
  single_reach : (belowLastRun numPorts b.egressPortMask).Nonempty →
    InReach 1 (belowLastRun numPorts b.ingressPortMask)
  not_alone : numPorts ∈ b.egressPortMask → b.ingressPortMask.Nonempty →
    numPorts - 1 ∈ b.egressPortMask

def BlockMeets (b : ScscMultiset numPorts) (sets : List ScscSet) : Prop :=
  Writes sets (b.ingressPortMask ×ˢ b.egressPortMask)

section Blocks

variable {b : ScscMultiset numPorts} {egress : Nat} (hnum : numPorts ≤ 255)
  (hegress : egress ≤ numPorts - 1)
include hnum hegress

/-- The loops for a block end, with a start for the next block, only where its ports are in reach;
they write its pairs if the last egress port is not alone. -/
theorem egressLoop_writes {r : List ScscSet × Nat}
    (h : egressLoop b fuel fuel egress b.egressPortMask = some r) :
    r.2 ≤ numPorts - 1 ∧ (BlockMeets b r.1 ↔ Writable b) := by
  by_cases hlast : numPorts ∈ b.egressPortMask
  · cases fuel with
    | zero => cases h
    | succ fuel =>
      rw [egressLoop_last b _ egress b.egress_ports hlast, Option.bind_eq_some_iff] at h
      obtain ⟨sets, hsets, h⟩ := h
      rw [Option.map_eq_some_iff] at h
      obtain ⟨r', hrest, rfl⟩ := h
      obtain ⟨hmulti, hwrites⟩ := ingressLoop_writes hnum b.ingress_ports (Nat.zero_le _) hsets
      obtain ⟨hreach, hsingle, hstale, hrestWrites⟩ :=
        egressLoop_writes_run hnum belowLastRun_lt hrest
      refine ⟨hstale (lastRun_le b.egress_ports hlast hegress), ?_, ?_⟩
      · intro hmeets
        refine ⟨hreach, fun _ => hmulti, hsingle, ?_⟩
        rintro _ ⟨i, hi⟩
        by_contra hnot
        -- the range begins with what the variable held, which lies before the last port
        have hpair : (i, numPorts - 1) ∈ b.ingressPortMask ×ˢ
            (egressLast numPorts (lastRun numPorts egress b.egressPortMask).1).ports := by
          rw [Finset.mem_product, lastRun_stale b.egress_ports hlast hnot]
          exact ⟨hi, Finset.mem_Icc.mpr ⟨hegress, Nat.sub_le _ _⟩⟩
        obtain ⟨s, hs, hin⟩ := (hwrites.tiles.cover _).mpr hpair
        have hblock := (hmeets.tiles.cover _).mp ⟨s, List.mem_append_left _ hs, hin⟩
        exact hnot (Finset.mem_product.mp hblock).2
      · intro hwritable
        rcases b.ingressPortMask.eq_empty_or_nonempty with hnone | hsome
        · rw [hnone, Finset.empty_product] at hwrites hrestWrites
          have hboth := hwrites.append hrestWrites (Finset.disjoint_empty_left _)
          rwa [BlockMeets, hnone, Finset.empty_product]
        · have hsplit := lastRun_split b.egress_ports hlast egress
            (Or.inr (hwritable.not_alone hlast hsome))
          exact hwrites.appendEgress hsplit.2 hrestWrites
  · have hlt : ∀ p ∈ b.egressPortMask, p < numPorts := by
      intro p hp
      exact Nat.lt_of_le_of_ne (b.egress_ports p hp).2 fun heq => hlast (heq ▸ hp)
    obtain ⟨hreach, hsingle, hstale, hwrites⟩ := egressLoop_writes_run hnum hlt h
    refine ⟨hstale hegress, fun _ => ?_, fun _ => hwrites⟩
    constructor
    · rwa [belowLastRun_eq_self hlt]
    · exact fun hin => absurd hin hlast
    · rwa [belowLastRun_eq_self hlt]
    · exact fun hin => absurd hin hlast

omit hegress in
theorem egressLoop_total (egress : Nat) (hwritable : Writable b) (hfuel : numPorts < fuel) :
    ∃ r, egressLoop b fuel fuel egress b.egressPortMask = some r := by
  have hcard : ∀ {mask : Finset Nat}, (∀ p ∈ mask, 1 ≤ p ∧ p ≤ numPorts) → mask.card < fuel := by
    intro mask hmask
    have hsub : mask ⊆ Finset.Icc 1 numPorts := fun p hp => Finset.mem_Icc.mpr (hmask p hp)
    have hle := Finset.card_le_card hsub
    rw [Nat.card_Icc] at hle
    omega
  have hingress := hcard b.ingress_ports
  have hcount := hcard b.egress_ports
  by_cases hlast : numPorts ∈ b.egressPortMask
  · cases fuel with
    | zero => exact absurd hfuel (Nat.not_lt_zero _)
    | succ fuel =>
      have hbelow : (belowLastRun numPorts b.egressPortMask).card < fuel := by
        obtain ⟨hle, hsplit⟩ := lastRun_split b.egress_ports hlast numPorts (Or.inl rfl)
        have := hsplit.card_lt hle
        omega
      have hmulti := hwritable.ingress_reach hlast
      obtain ⟨sets, hsets⟩ := ingressLoop_total hnum b.ingress_ports b.scscMap
        (egressLast numPorts (lastRun numPorts egress b.egressPortMask).1) hmulti hingress
      obtain ⟨r, hr⟩ := egressLoop_total_run hnum
        (lastRun numPorts egress b.egressPortMask).1 belowLastRun_lt
        hwritable.egress_reach hwritable.single_reach hingress hbelow
      rw [egressLoop_last b _ egress b.egress_ports hlast, hsets, Option.bind_some, hr]
      exact ⟨_, rfl⟩
  · have hlt : ∀ p ∈ b.egressPortMask, p < numPorts := by
      intro p hp
      exact Nat.lt_of_le_of_ne (b.egress_ports p hp).2 fun heq => hlast (heq ▸ hp)
    have hreach := hwritable.egress_reach
    have hsingle := hwritable.single_reach
    rw [belowLastRun_eq_self hlt] at hreach hsingle
    exact egressLoop_total_run hnum egress hlt hreach hsingle hingress hcount

end Blocks

theorem writeGen1SCSC_total (blocks : List (ScscMultiset numPorts)) (egress : Nat)
    (hwritable : ∀ b ∈ blocks, Writable b) :
    ∃ sets, writeGen1SCSC (numPorts + 1) blocks egress = some sets := by
  induction blocks generalizing egress with
  | nil => exact ⟨[], rfl⟩
  | cons b blocks ih =>
    obtain ⟨hb, hrest⟩ := List.forall_mem_cons.mp hwritable
    obtain ⟨r, hr⟩ := egressLoop_total b.num_ports egress hb (Nat.lt_succ_self _)
    obtain ⟨sets, hsets⟩ := ih r.2 hrest
    rw [writeGen1SCSC, hr, Option.bind_some, hsets]
    exact ⟨_, rfl⟩

theorem writeGen1SCSC_blocks {blocks : List (ScscMultiset numPorts)} {egress : Nat}
    {sets : List (List ScscSet)} (hegress : egress ≤ numPorts - 1)
    (h : writeGen1SCSC fuel blocks egress = some sets) :
    List.Forall₂ BlockMeets blocks sets ↔ ∀ b ∈ blocks, Writable b := by
  induction blocks generalizing egress sets with
  | nil =>
    cases h
    exact ⟨fun _ b hb => absurd hb List.not_mem_nil, fun _ => List.Forall₂.nil⟩
  | cons b blocks ih =>
    rw [writeGen1SCSC, Option.bind_eq_some_iff] at h
    obtain ⟨r, hr, h⟩ := h
    rw [Option.map_eq_some_iff] at h
    obtain ⟨sets', hsets, rfl⟩ := h
    obtain ⟨hstale, hblock⟩ := egressLoop_writes b.num_ports hegress hr
    rw [List.forall₂_cons, hblock, ih hstale hsets, List.forall_mem_cons]

/-- The loops end, and the requests for each block set exactly its pairs. -/
def ScscMeets (blocks : List (ScscMultiset numPorts)) : Prop :=
  ∃ fuel sets, writeGen1SCSC fuel blocks 0 = some sets ∧ List.Forall₂ BlockMeets blocks sets

theorem writeGen1SCSC_meets_iff (blocks : List (ScscMultiset numPorts)) :
    ScscMeets blocks ↔ ∀ b ∈ blocks, Writable b := by
  constructor
  · rintro ⟨fuel, sets, hsets, hmeets⟩
    exact (writeGen1SCSC_blocks (Nat.zero_le _) hsets).mp hmeets
  · intro hwritable
    obtain ⟨sets, hsets⟩ := writeGen1SCSC_total blocks 0 hwritable
    exact ⟨_, sets, hsets, (writeGen1SCSC_blocks (Nat.zero_le _) hsets).mpr hwritable⟩

def lastPortBlock : ScscMultiset 2 where
  ingressPortMask := {1}
  egressPortMask := {2}
  num_ports := by decide
  ingress_ports := by decide
  egress_ports := by decide

example : (writeGen1SCSC 3 [lastPortBlock] 0).map
    (List.map (List.map fun s => (s.ingress, s.lastIngress, s.egress, s.lastEgress))) =
      some [[(1, 1, 0, 2)]] := by
  decide

theorem writeGen1SCSC_misses : ¬ScscMeets [lastPortBlock] := by
  rintro ⟨fuel, sets, hsets, hmeets⟩
  have hwritable := (writeGen1SCSC_blocks (Nat.zero_le _) hsets).mp hmeets lastPortBlock
    List.mem_cons_self
  have halone := hwritable.not_alone (by decide) ⟨1, by decide⟩
  exact absurd halone (by decide)

end OpaFm.SmQos
