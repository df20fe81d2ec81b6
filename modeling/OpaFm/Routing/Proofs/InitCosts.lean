import OpaFm.Routing.Proofs.CostMatrix
import Mathlib.Order.Bounds.Defs

/-!
# Parallel links

The initial matrix keeps the cost that was written last, and the ports of all links.  It is
what routing asks for exactly when the links between two switches have one cost.
-/

namespace OpaFm.Routing

open OpaFm.Fabric OpaFm.Lib

/-! ## The visits of the loops -/

abbrev PortVisit := Node × Port

def initVisits (topop : Topology) : List PortVisit :=
  topop.switches.flatMap fun n => (physicalPorts n).map fun p => (n, p)

def visitPort (topop : Topology) (s : CostMatrix) (v : PortVisit) : CostMatrix :=
  initPort topop v.1 s v.2

def unlinked : CostMatrix where
  cost := fun _ _ => costInfinity
  path := fun _ _ => ∅

def initCostMatrixIn (topop : Topology) (visits : List PortVisit) : CostMatrix :=
  let s := visits.foldl (visitPort topop) unlinked
  { s with cost := fun i j => if i = j ∧ i < topop.maxSws then 0 else s.cost i j }

theorem foldl_initSwitch (topop : Topology) (s : CostMatrix) :
    topop.switches.foldl (initSwitch topop) s = (initVisits topop).foldl (visitPort topop) s := by
  unfold initVisits
  rw [List.foldl_flatMap]
  congr 1
  funext s n
  rw [List.foldl_map]
  rfl

theorem initCostMatrix_eq (topop : Topology) :
    smRoutingFuncInitCostMatrixFloyds topop = initCostMatrixIn topop (initVisits topop) := by
  unfold smRoutingFuncInitCostMatrixFloyds initCostMatrixIn
  rw [foldl_initSwitch]
  rfl

section Visits

variable (topop : Topology)

def VisitCost (v : PortVisit) (i k c : Nat) : Prop :=
  ∃ d n', v.2.portData = some d ∧ neighborSwitch topop v.2 = some n' ∧ smGetCost d = c ∧
    (v.1.swIdx = i ∧ n'.swIdx = k ∨ v.1.swIdx = k ∧ n'.swIdx = i)

def VisitMask (v : PortVisit) (i k p : Nat) : Prop :=
  ∃ n', smValidPort v.2 = true ∧ neighborSwitch topop v.2 = some n' ∧
    (v.1.swIdx = i ∧ n'.swIdx = k ∧ v.2.index = p ∨
      n'.swIdx = i ∧ v.1.swIdx = k ∧ v.2.portno = some p)

variable {topop}

theorem VisitCost.symm {v : PortVisit} {i k c : Nat} (h : VisitCost topop v i k c) :
    VisitCost topop v k i c := by
  obtain ⟨d, n', hd, hto, hc, hends⟩ := h
  exact ⟨d, n', hd, hto, hc, hends.symm⟩

theorem visitPort_spec (topop : Topology) (s : CostMatrix) (v : PortVisit) (i k : Nat) :
    (VisitCost topop v i k ((visitPort topop s v).cost i k) ∨
      (∀ c, ¬VisitCost topop v i k c) ∧ (visitPort topop s v).cost i k = s.cost i k) ∧
    ∀ p, p ∈ (visitPort topop s v).path i k ↔ p ∈ s.path i k ∨ VisitMask topop v i k p := by
  unfold visitPort initPort
  split
  next d n' hd hto =>
    have hvalid : smValidPort v.2 = true := by simp [smValidPort, hd]
    constructor
    · by_cases hends : v.1.swIdx = i ∧ n'.swIdx = k ∨ v.1.swIdx = k ∧ n'.swIdx = i
      · left
        refine ⟨d, n', hd, hto, ?_, hends⟩
        rcases hends with ⟨rfl, rfl⟩ | ⟨rfl, rfl⟩
        · simp [setEntry]
        · by_cases heq : n'.swIdx = v.1.swIdx <;> simp [setEntry, heq]
      · right
        constructor
        · rintro c ⟨d', n'', -, hto', -, hends'⟩
          rw [hto] at hto'
          cases hto'
          exact hends hends'
        · simp only [setEntry]
          rw [if_neg, if_neg]
          · rintro ⟨rfl, rfl⟩
            exact hends (.inr ⟨rfl, rfl⟩)
          · rintro ⟨rfl, rfl⟩
            exact hends (.inl ⟨rfl, rfl⟩)
    · intro p
      have hmask : VisitMask topop v i k p ↔
          (v.1.swIdx = i ∧ n'.swIdx = k ∧ v.2.index = p) ∨
            n'.swIdx = i ∧ v.1.swIdx = k ∧ v.2.portno = some p := by
        constructor
        · rintro ⟨n'', -, hto', hends⟩
          rw [hto] at hto'
          cases hto'
          exact hends
        · exact fun hends => ⟨n', hvalid, hto, hends⟩
      rw [hmask]
      unfold maskLink
      cases hportno : v.2.portno with
      | none =>
        simp only [setEntry]
        split <;> grind
      | some q =>
        simp only [setEntry]
        split <;> grind
  next hno =>
    refine ⟨.inr ⟨?_, rfl⟩, fun p => ⟨.inl, fun h => h.elim id ?_⟩⟩
    · rintro c ⟨d, n', hd, hto, -⟩
      exact hno d n' hd hto
    · rintro ⟨n', hvalid, hto, -⟩
      obtain ⟨d, hd⟩ := Option.isSome_iff_exists.mp hvalid
      exact (hno d n' hd hto).elim

theorem visits_spec (topop : Topology) (visits : List PortVisit) (i k : Nat) :
    ((∃ v ∈ visits, VisitCost topop v i k ((visits.foldl (visitPort topop) unlinked).cost i k)) ∨
      (∀ v ∈ visits, ∀ c, ¬VisitCost topop v i k c) ∧
        (visits.foldl (visitPort topop) unlinked).cost i k = costInfinity) ∧
    ∀ p, p ∈ (visits.foldl (visitPort topop) unlinked).path i k ↔
      ∃ v ∈ visits, VisitMask topop v i k p := by
  induction visits using List.reverseRecOn with
  | nil =>
    constructor
    · exact .inr ⟨fun v hv => absurd hv List.not_mem_nil, rfl⟩
    · intro p
      exact ⟨fun h => absurd h (Finset.notMem_empty p), fun ⟨v, hv, _⟩ => absurd hv List.not_mem_nil⟩
  | append_singleton visits v ih =>
    rw [List.foldl_append, List.foldl_cons, List.foldl_nil]
    obtain ⟨hcost, hmask⟩ := visitPort_spec topop
      (visits.foldl (visitPort topop) unlinked) v i k
    simp only [List.mem_append, List.mem_singleton]
    constructor
    · rcases hcost with hnew | ⟨hno, hkept⟩
      · exact .inl ⟨v, .inr rfl, hnew⟩
      · rw [hkept]
        rcases ih.1 with ⟨w, hw, hold⟩ | ⟨hnone, hinf⟩
        · exact .inl ⟨w, .inl hw, hold⟩
        · refine .inr ⟨?_, hinf⟩
          rintro w (hw | rfl)
          · exact hnone w hw
          · exact hno
    · intro p
      rw [hmask p, ih.2 p]
      constructor
      · rintro (⟨w, hw, h⟩ | h)
        · exact ⟨w, .inl hw, h⟩
        · exact ⟨v, .inr rfl, h⟩
      · rintro ⟨w, hw | rfl, h⟩
        · exact .inl ⟨w, hw, h⟩
        · exact .inr h

end Visits

/-! ## The links between two switches -/

namespace SwitchFabric

variable (F : SwitchFabric)

def PortCost (i p c : Nat) : Prop :=
  ∃ n ∈ F.topop.switches, n.swIdx = i ∧ ∃ d, (n.port p).portData = some d ∧ smGetCost d = c

def LinkCost (i k c : Nat) : Prop :=
  (∃ p, F.Leads i p k ∧ F.PortCost i p c) ∨ ∃ p, F.Leads k p i ∧ F.PortCost k p c

/-- What the initial matrix is for: least costs, the ports of the cheapest links, whatever the
order of the visits. -/
structure InitMeets : Prop where
  cost : ∀ i k, i ≠ k → (∃ p, F.Leads i p k) → IsLeast {c | F.LinkCost i k c} (F.initial.cost i k)
  path : ∀ i k, i ≠ k → (∃ p, F.Leads i p k) → ∀ p,
    p ∈ F.initial.path i k ↔ F.Leads i p k ∧ F.PortCost i p (F.initial.cost i k)
  order : ∀ visits : List PortVisit, visits.Perm (initVisits F.topop) →
    initCostMatrixIn F.topop visits = F.initial

/-- All up links between two different switches have the same cost, at both ends. -/
def UniformLinks : Prop :=
  ∀ i k, i ≠ k → ∀ c c', F.LinkCost i k c → F.LinkCost i k c' → c = c'

variable {F}

theorem Leads.portCost {i p k : Nat} (h : F.Leads i p k) : ∃ c, F.PortCost i p c := by
  obtain ⟨n, hn, hi, -, -, -, -, -, hvalid, -⟩ := h
  obtain ⟨d, hd⟩ := Option.isSome_iff_exists.mp hvalid
  exact ⟨smGetCost d, n, hn, hi, d, hd, rfl⟩

theorem PortCost.functional {i p c c' : Nat} (h : F.PortCost i p c) (h' : F.PortCost i p c') :
    c = c' := by
  obtain ⟨n, hn, hi, d, hd, rfl⟩ := h
  obtain ⟨n', hn', hi', d', hd', rfl⟩ := h'
  obtain rfl := switch_ext hn hn' (hi.trans hi'.symm)
  rw [hd] at hd'
  cases hd'
  rfl

theorem mem_initVisits {v : PortVisit} : v ∈ initVisits F.topop ↔
    v.1 ∈ F.topop.switches ∧ ∃ x, 1 ≤ x ∧ x ≤ v.1.numPorts ∧ v.1.port x = v.2 := by
  unfold initVisits
  rw [List.mem_flatMap]
  constructor
  · rintro ⟨n, hn, hv⟩
    obtain ⟨p, hp, rfl⟩ := List.mem_map.mp hv
    exact ⟨hn, mem_physicalPorts.mp hp⟩
  · rintro ⟨hn, hp⟩
    exact ⟨v.1, hn, List.mem_map.mpr ⟨v.2, mem_physicalPorts.mpr hp, rfl⟩⟩

theorem linkCost_iff {i k c : Nat} :
    F.LinkCost i k c ↔ ∃ v ∈ initVisits F.topop, VisitCost F.topop v i k c := by
  have hvisit : ∀ {i k p c : Nat}, F.Leads i p k → F.PortCost i p c →
      ∃ v ∈ initVisits F.topop, VisitCost F.topop v i k c := by
    rintro i k p c ⟨n, hn, hi, n', hn', hk, h1, hle, -, hto⟩ ⟨m, hm, hmi, d, hd, hc⟩
    obtain rfl := switch_ext hn hm (hi.trans hmi.symm)
    exact ⟨(n, n.port p), mem_initVisits.mpr ⟨hn, p, h1, hle, rfl⟩, d, n', hd, hto, hc,
      .inl ⟨hi, hk⟩⟩
  constructor
  · rintro (⟨p, hlead, hcost⟩ | ⟨p, hlead, hcost⟩)
    · exact hvisit hlead hcost
    · obtain ⟨v, hv, hc⟩ := hvisit hlead hcost
      exact ⟨v, hv, hc.symm⟩
  · rintro ⟨⟨n, portp⟩, hv, d, n', hd, hto, hc, hends⟩
    obtain ⟨hn, x, h1, hle, hx⟩ := mem_initVisits.mp hv
    dsimp only at hn h1 hle hx hd hto hends
    subst hx
    have hvalid : smValidPort (n.port x) = true := by simp [smValidPort, hd]
    have hlead : F.Leads n.swIdx x n'.swIdx :=
      ⟨n, hn, rfl, n', neighborSwitch_mem hto, rfl, h1, hle, hvalid, hto⟩
    have hcost : F.PortCost n.swIdx x c := ⟨n, hn, rfl, d, hd, hc⟩
    rcases hends with ⟨rfl, rfl⟩ | ⟨rfl, rfl⟩
    · exact .inl ⟨x, hlead, hcost⟩
    · exact .inr ⟨x, hlead, hcost⟩

theorem linkCost_initial {i k p : Nat} (hik : i ≠ k) (h : F.Leads i p k) :
    F.LinkCost i k (F.initial.cost i k) := by
  obtain ⟨c, hc⟩ := h.portCost
  obtain ⟨v, hv, hcost⟩ := linkCost_iff.mp (.inl ⟨p, h, hc⟩)
  have hinit : F.initial.cost i k =
      ((initVisits F.topop).foldl (visitPort F.topop) unlinked).cost i k := by
    rw [initial, initCostMatrix_eq]
    exact if_neg fun h => hik h.1
  rw [hinit]
  rcases (visits_spec F.topop (initVisits F.topop) i k).1 with hsome | ⟨hnone, -⟩
  · exact linkCost_iff.mpr hsome
  · exact absurd hcost (hnone v hv c)

theorem initial_symm (i k : Nat) : F.initial.cost i k = F.initial.cost k i := by
  have h := (links_spec (F := F)).1.symm i k
  by_cases hik : i = k
  · rw [hik]
  · simpa [initial, smRoutingFuncInitCostMatrixFloyds, hik, Ne.symm hik] using h

theorem uniform_of_initMeets (h : F.InitMeets) : F.UniformLinks := by
  have hcost : ∀ i k, i ≠ k → ∀ c, F.LinkCost i k c → c = F.initial.cost i k := by
    rintro i k hik c (⟨p, hlead, hc⟩ | ⟨p, hlead, hc⟩)
    · have hmem := (h.path i k hik ⟨p, hlead⟩ p).mp (initial_path_iff.mpr hlead)
      exact hc.functional hmem.2
    · have hmem := (h.path k i hik.symm ⟨p, hlead⟩ p).mp (initial_path_iff.mpr hlead)
      rw [initial_symm]
      exact hc.functional hmem.2
  intro i k hik c c' hc hc'
  rw [hcost i k hik c hc, hcost i k hik c' hc']

theorem order_of_uniform (h : F.UniformLinks) {visits : List PortVisit}
    (hperm : visits.Perm (initVisits F.topop)) : initCostMatrixIn F.topop visits = F.initial := by
  rw [initial, initCostMatrix_eq]
  have hspec := fun i k => visits_spec F.topop visits i k
  have hspec' := fun i k => visits_spec F.topop (initVisits F.topop) i k
  unfold initCostMatrixIn
  dsimp only
  congr 1
  · funext i k
    by_cases hdiag : i = k ∧ i < F.topop.maxSws
    · rw [if_pos hdiag, if_pos hdiag]
    · rw [if_neg hdiag, if_neg hdiag]
      rcases (hspec i k).1 with ⟨v, hv, hc⟩ | ⟨hnone, hinf⟩
      · have hv' := hperm.mem_iff.mp hv
        rcases (hspec' i k).1 with hsome | ⟨hnone', -⟩
        · have hlink := linkCost_iff.mpr ⟨v, hv', hc⟩
          apply h i k _ _ _ hlink (linkCost_iff.mpr hsome)
          rintro rfl
          rcases hlink with ⟨p, hlead, -⟩ | ⟨p, hlead, -⟩ <;> exact hdiag ⟨rfl, hlead.lt.1⟩
        · exact absurd hc (hnone' v hv' _)
      · rcases (hspec' i k).1 with ⟨v, hv, hc⟩ | ⟨-, hinf'⟩
        · exact absurd hc (hnone v (hperm.mem_iff.mpr hv) _)
        · rw [hinf, hinf']
  · funext i k
    ext p
    rw [(hspec i k).2 p, (hspec' i k).2 p]
    exact exists_congr fun v => and_congr_left fun _ => hperm.mem_iff

/-- The initial matrix is what it is for exactly when parallel links cost the same. -/
theorem initMeets_iff (F : SwitchFabric) : F.InitMeets ↔ F.UniformLinks := by
  refine ⟨uniform_of_initMeets, fun h => ⟨?_, ?_, fun visits => order_of_uniform h⟩⟩
  · rintro i k hik ⟨p, hlead⟩
    have hmem := linkCost_initial hik hlead
    exact ⟨hmem, fun c hc => (h i k hik _ _ hmem hc).le⟩
  · rintro i k hik ⟨p₀, hlead₀⟩ p
    rw [initial_path_iff]
    constructor
    · intro hlead
      obtain ⟨c, hc⟩ := hlead.portCost
      have heq := h i k hik _ _ (linkCost_initial hik hlead₀) (.inl ⟨p, hlead, hc⟩)
      exact ⟨hlead, heq ▸ hc⟩
    · exact fun hp => hp.1

def parallelSwitch (k : Nat) : Node where
  index := k
  swIdx := k
  numPorts := 2
  port i :=
    { index := i
      state := .active
      nodeno := some (1 - k)
      portno := some i
      portData := some { linkSpeed := if i = 1 then .s25G else .s12_5G } }

def parallelTopology : Topology where
  nodes := [parallelSwitch 0, parallelSwitch 1]
  maxSws := 2

theorem parallel_switches : parallelTopology.switches = [parallelSwitch 0, parallelSwitch 1] := rfl

theorem parallel_switch {n : Node} (hn : n ∈ parallelTopology.switches) :
    n = parallelSwitch 0 ∨ n = parallelSwitch 1 := by
  simpa [parallel_switches] using hn

def parallelFabric : SwitchFabric where
  topop := parallelTopology
  distinct := by decide
  swIdx_lt := by decide
  swIdx_inj := by decide
  numPorts_le := by decide
  port_index := by
    intro n hn i
    rcases parallel_switch hn with rfl | rfl <;> rfl
  nodeGuid_ne := by decide
  linked := by
    intro n hn p hp _ n' hto
    obtain ⟨i, h1, hi, rfl⟩ := mem_physicalPorts.mp hp
    rcases parallel_switch hn with rfl | rfl
    · cases hto
      exact ⟨(parallelSwitch 1).port i, mem_physicalPorts.mpr ⟨i, h1, hi, rfl⟩, rfl, rfl, rfl⟩
    · cases hto
      exact ⟨(parallelSwitch 0).port i, mem_physicalPorts.mpr ⟨i, h1, hi, rfl⟩, rfl, rfl, rfl⟩

/-- The entry is that of the slow link, and the mask has both. -/
theorem not_initMeets_parallel : ¬parallelFabric.InitMeets := by
  intro h
  have hfirst : parallelSwitch 0 ∈ parallelFabric.topop.switches := List.mem_cons_self
  have hsecond : parallelSwitch 1 ∈ parallelFabric.topop.switches :=
    List.mem_cons_of_mem _ List.mem_cons_self
  have hlead : parallelFabric.Leads 0 1 1 :=
    ⟨parallelSwitch 0, hfirst, rfl, parallelSwitch 1, hsecond, rfl, by decide, by decide, rfl, rfl⟩
  have hmem : 1 ∈ parallelFabric.initial.path 0 1 := by decide
  have hcost : parallelFabric.initial.cost 0 1 = 25 := by decide
  have hfast : parallelFabric.PortCost 0 1 12 := ⟨parallelSwitch 0, hfirst, rfl, _, rfl, by decide⟩
  have hslow := ((h.path 0 1 (by decide) ⟨1, hlead⟩ 1).mp hmem).2
  rw [hcost] at hslow
  exact absurd (hfast.functional hslow) (by decide)

end SwitchFabric

end OpaFm.Routing
