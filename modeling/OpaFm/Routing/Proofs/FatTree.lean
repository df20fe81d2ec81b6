import OpaFm.Routing.FatTree
import OpaFm.Routing.Proofs.Hypercube

/-!
# Tables of fat trees
-/

namespace OpaFm.Routing

open OpaFm.Fabric

theorem smRoutingFuncSetupXft_counts {qsort : Qsort SwitchportToNextGuid} {topop : Topology}
    {path : Nat → Nat → Finset Nat} {doSpineCheck : Bool} {load : RouteLoad}
    (hb : LftTables.Bounded load) {switchp nodep : Node} (hsw : nodep.nodeType = .switch)
    {orig : ValidPort} {r : XftResult}
    (h : smRoutingFuncSetupXft qsort topop path doSpineCheck load switchp nodep orig = some r) :
    r.load.lidsRouted = load.lidsRouted := by
  unfold smRoutingFuncSetupXft at h
  dsimp only at h
  rw [if_pos hsw] at h
  cases hdest : destinationSwitch topop nodep orig.port with
  | none =>
    rw [hdest] at h
    cases h
    rfl
  | some j =>
    rw [hdest] at h
    dsimp only at h
    by_cases hj : j = switchp.swIdx
    · rw [if_pos hj] at h
      cases h
      rfl
    · rw [if_neg hj] at h
      by_cases hlmc : orig.data.lmc = 0
      · rw [if_pos hlmc] at h
        cases hsel : smRoutingFuncSelectPorts topop path load doSpineCheck switchp j true with
        | nil =>
          rw [hsel] at h
          cases h
          rfl
        | cons e rest =>
          rw [hsel] at h
          dsimp only at h
          rw [if_neg fun hne => hne.2 hsw] at h
          cases h
          rfl
      · rw [if_neg hlmc] at h
        cases hsel : smRoutingFuncSelectPorts topop path load doSpineCheck switchp j false with
        | nil =>
          rw [hsel] at h
          cases h
          rfl
        | cons e rest =>
          rw [hsel] at h
          obtain ⟨ports, -, rfl⟩ := Option.map_eq_some_iff.mp h
          exact spreadLids_counts hb _ _ _

namespace FatTree

/-- A fat tree whose switches have all found their tiers; discovery fails otherwise. -/
structure Formed (f : FatTree) : Prop where
  wired : Wired f.topop
  tierCount_pos : 0 < f.tierCount
  tiers_nodup : f.allTierSwitches.Nodup
  tiers_switch : ∀ x ∈ f.allTierSwitches, x ∈ f.topop.switches
  queued : ∀ x ∈ f.topop.switches, x ∈ f.allTierSwitches
  path_isl : ∀ x ∈ f.topop.switches, ∀ y ∈ f.topop.switches, ∀ p ∈ f.path x.swIdx y.swIdx,
    ∀ portp, smGetPort x p = some portp → ∀ n, smFindNode f.topop portp.nodeno = some n →
      n.nodeType = .switch

variable {f : FatTree}

theorem getPortGroup_load (load load' : RouteLoad) (switchp nodep : Node) :
    f.getPortGroup load switchp nodep = f.getPortGroup load' switchp nodep := by
  unfold getPortGroup
  rw [smRoutingFuncSelectPorts_load f.topop f.path f.spineFirstRouting switchp load load']

theorem getPortGroup_isl (h : f.Formed) (load : RouteLoad) {x y : Node}
    (hx : x ∈ f.topop.switches) (hy : y ∈ f.topop.switches) :
    ∀ p ∈ f.getPortGroup load x y, isIslPort f.topop x p = true := by
  intro p hp
  unfold getPortGroup at hp
  split_ifs at hp
  · exact absurd hp List.not_mem_nil
  · exact absurd hp List.not_mem_nil
  · obtain ⟨e, he, rfl⟩ := List.mem_map.mp hp
    obtain ⟨-, cport, hmask, d, hport⟩ := (smRoutingFuncSelectPorts_spec f.topop load
      f.spineFirstRouting false x f.path y.swIdx).1 e ((f.qsort.perm _ _).subset he)
    obtain ⟨hget, hdata, hup, hfind⟩ := maskedPort_some hport
    have hsw := h.path_isl x hx y hy cport hmask _ hget _ hfind
    have hindex := smGetPort_index (h.wired.port_index x (Wired.node_mem hx)) hget
    unfold isIslPort isLive smValidPort
    rw [hindex, hget, Option.any_some, hdata, hup, hfind, Option.any_some, hsw]
    rfl

/-! ## The entries of a host -/

theorem routeLids_induct (J : LftTables → Prop) (x : Node) (g : List Nat) (port : Nat)
    (c : DestCount) (lids : List Nat) (st : LftTables × Nat) (hst : J st.1)
    (hown : g.length = 0 → ∀ t lid, J t → J (t.attach x lid port))
    (hgroup : g.length ≠ 0 → ∀ t lid, ∀ p ∈ g, J t → J (LftTables.assign f.topop t x lid p)) :
    J (lids.foldl (f.routeLid x g port c) st).1 := by
  induction lids generalizing st with
  | nil => exact hst
  | cons lid rest ih =>
    apply ih
    unfold routeLid
    by_cases hlen : g.length = 0
    · rw [if_pos hlen]
      exact hown hlen st.1 lid hst
    · rw [if_neg hlen]
      exact hgroup hlen st.1 lid _ (mem_getD (Nat.mod_lt _ (Nat.pos_of_ne_zero hlen)) _) hst

theorem routeHost_induct (J : LftTables → Prop) (x : Node) (g : List Nat) (l : Port × Node)
    (s : LftTables × DestCount) (hs : J s.1)
    (hown : g.length = 0 → ∀ t lid, J t → J (t.attach x lid l.1.index))
    (hgroup : g.length ≠ 0 → ∀ t lid, ∀ p ∈ g, J t → J (LftTables.assign f.topop t x lid p)) :
    J (f.routeHost x g l s).1 := by
  unfold routeHost
  induction liveEndPorts l.2 generalizing s with
  | nil => exact hs
  | cons portp rest ih =>
    apply ih
    exact routeLids_induct J x g l.1.index s.2 _ (s.1, 0) hs hown hgroup

theorem routeLids_places (x : Node) (g : List Nat) (port : Nat) (c : DestCount) (lids : List Nat)
    (st : LftTables × Nat) :
    (lids.foldl (f.routeLid x g port c) st).1.wrote.map LftWrite.place =
      st.1.wrote.map LftWrite.place ++
        lids.map fun lid => ⟨x.index, lid, decide (g.length ≠ 0)⟩ := by
  induction lids generalizing st with
  | nil => exact (List.append_nil _).symm
  | cons lid rest ih =>
    rw [List.foldl_cons, List.map_cons, List.append_cons, ih]
    apply congrArg (· ++ _)
    unfold routeLid
    by_cases hlen : g.length = 0
    · rw [if_pos hlen, decide_eq_false (not_not.mpr hlen)]
      exact LftTables.attach_places _ _ _ _
    · rw [if_neg hlen, decide_eq_true hlen]
      exact LftTables.assign_places _ _ _ _ _

theorem routeHost_places (x : Node) (g : List Nat) (l : Port × Node) (s : LftTables × DestCount) :
    (f.routeHost x g l s).1.wrote.map LftWrite.place = s.1.wrote.map LftWrite.place ++
      (hostLids l.2).map fun lid => ⟨x.index, lid, decide (g.length ≠ 0)⟩ := by
  unfold routeHost hostLids
  induction liveEndPorts l.2 generalizing s with
  | nil => exact (List.append_nil _).symm
  | cons portp rest ih =>
    rw [List.foldl_cons, ih, List.flatMap_cons, List.map_append, ← List.append_assoc]
    apply congrArg (· ++ _)
    exact routeLids_places x g l.1.index s.2 (portLids portp) (s.1, 0)

/-! ## The passes -/

theorem Formed.target_source (h : f.Formed) {y : Node} (hy : y ∈ f.hfiTierSwitches) :
    y ∈ f.allTierSwitches := by
  unfold hfiTierSwitches hfiTierEnd at hy
  obtain ⟨t, ht, hmem⟩ := List.mem_flatMap.mp hy
  apply List.mem_flatMap.mpr ⟨t, List.mem_range.mpr _, hmem⟩
  have hlt := List.mem_range.mp ht
  have hpos := h.tierCount_pos
  split at hlt <;> omega

theorem Formed.regular (h : f.Formed) : f.systematic.Regular where
  apart y hy y' hy' l hl heq := by
    obtain ⟨-, -, -, hn, hca⟩ := h.wired.mem_hostLinks.mp hl
    have hy' := h.tiers_switch y' (h.target_source hy')
    exact Wired.not_ca hy' (h.wired.eq_of_index hn (Wired.node_mem hy') heq ▸ hca)
  group_length load load' x y := congrArg List.length (getPortGroup_load load load' x y)
  host_skip x g l s := routeHost_induct (fun t => t.skipBalance = s.1.skipBalance) x g l s rfl
    (fun _ _ _ ht => ht) fun _ _ _ _ _ ht => ht
  host_places := routeHost_places

theorem Formed.counting (h : f.Formed) : f.systematic.Counting where
  toRegular := h.regular
  wired := h.wired
  sources_nodup := h.tiers_nodup
  sources_switch := h.tiers_switch
  switches_source := h.queued
  targets_source := fun _ hy => h.target_source hy
  links_host := fun _ _ _ hl => hl
  group_isl load x hx y hy := getPortGroup_isl h load (h.tiers_switch x hx)
    (h.tiers_switch y (h.target_source hy))
  host_induct := routeHost_induct

/-! ## Routes to switches -/

theorem switchToSwitch_spares {t t' : LftTables} {switchp : Node}
    (h : f.switchToSwitch t switchp = some t') :
    LftTables.Spares (IsSwitchLid f.topop) t t' := by
  apply LftTables.Spares.foldlM _ h
  intro t nodep hn t' hrun
  apply LftTables.Spares.foldlM _ hrun
  intro t p hp t' hrun
  obtain ⟨portp, hport, hvalid⟩ := List.mem_filterMap.mp hp
  have hsw : nodep.nodeType = .switch := of_decide_eq_true (List.mem_filter.mp hn).2
  obtain ⟨r, hr, rfl⟩ := Option.map_eq_some_iff.mp hrun
  apply LftTables.Spares.fill
  · intro lid hlid
    rw [toValid_port hvalid] at hlid
    exact ⟨nodep, hn, portp, hport, hlid⟩
  · exact fun hb => smRoutingFuncSetupXft_counts hb hsw hr

theorem Formed.isSwitchQueued (h : f.Formed) {x : Node} (hx : x ∈ f.topop.switches) :
    f.isSwitchQueued x = true := by
  obtain ⟨t, ht, hmem⟩ := List.mem_flatMap.mp (h.queued x hx)
  exact List.any_eq_true.mpr ⟨t, ht, List.any_eq_true.mpr ⟨x, hmem, decide_eq_true rfl⟩⟩

theorem Formed.systematic_spares (h : f.Formed) {t t' : LftTables}
    (hrun : f.calculateBalancedLftsSystematic t = some t') :
    LftTables.Spares (IsSwitchLid f.topop) (f.systematicHosts t) t' := by
  apply LftTables.Spares.foldlM _ hrun
  intro t x hx t' hstep
  rw [if_pos (h.isSwitchQueued hx)] at hstep
  exact switchToSwitch_spares hstep

theorem Formed.systematic_counts (h : f.Formed)
    (hlids : ∀ lid ∈ hostLidSet f.topop, lid < 0x10000) (skip : Nat → Bool) {t' : LftTables}
    (hrun : f.calculateBalancedLftsSystematic { skipBalance := skip } = some t') :
    ((∀ x ∈ f.topop.switches, f.systematic.CountedOnce f.routeLast skip x) →
        CountsMatch f.topop t') ∧
      ((∀ x ∈ f.topop.switches, f.systematic.FewAssigned f.routeLast skip x) →
        CountsMatch f.topop t' →
          ∀ x ∈ f.topop.switches, f.systematic.CountedOnce f.routeLast skip x) := by
  let start : LftTables := { skipBalance := skip }
  have hstart : LftTables.Logged f.topop start :=
    LftTables.Logged.start f.topop rfl (fun _ => rfl) fun _ _ => rfl
  have hhosts : f.systematicHosts start = (f.systematic.passes f.routeLast (start, {})).1 := by
    unfold systematicHosts
    rw [LftTables.initLfts_start]
  have hspares := h.systematic_spares hrun
  rw [hhosts] at hspares
  have hb : LftTables.Bounded (f.systematic.passes f.routeLast (start, {})).1.load :=
    h.counting.passes_bounded f.routeLast fun _ _ => Nat.zero_lt_succ _
  rw [CountsMatch.spares_iff h.wired hb hspares]
  exact h.counting.match_iff hlids f.routeLast (s := (start, {})) rfl hstart

end FatTree

/-- Counters and tables of both routines: they match where no switch goes through a host with LIDs
again after it counted them, and, with few enough LIDs to count, only there. -/
theorem loadCounters_iff (s : HypercubeState) (f : FatTree) (w : Wired s.topop) (h : f.Formed)
    (hlids : ∀ lid ∈ hostLidSet s.topop, lid < 0x10000)
    (hlids' : ∀ lid ∈ hostLidSet f.topop, lid < 0x10000) (skip : Nat → Bool) :
    (((∀ x ∈ s.topop.switches, s.hostRouting.CountedOnce s.routeLast skip x) →
        CountsMatch s.topop (s.hypercubeCalculateAllLfts { skipBalance := skip })) ∧
      ((∀ x ∈ s.topop.switches, s.hostRouting.FewAssigned s.routeLast skip x) →
        CountsMatch s.topop (s.hypercubeCalculateAllLfts { skipBalance := skip }) →
          ∀ x ∈ s.topop.switches, s.hostRouting.CountedOnce s.routeLast skip x)) ∧
    ∀ t', f.calculateBalancedLftsSystematic { skipBalance := skip } = some t' →
      ((∀ x ∈ f.topop.switches, f.systematic.CountedOnce f.routeLast skip x) →
        CountsMatch f.topop t') ∧
      ((∀ x ∈ f.topop.switches, f.systematic.FewAssigned f.routeLast skip x) →
        CountsMatch f.topop t' →
          ∀ x ∈ f.topop.switches, f.systematic.CountedOnce f.routeLast skip x) :=
  ⟨HypercubeState.hypercube_counts w hlids skip, fun _ hrun => h.systematic_counts hlids' skip hrun⟩

/-! ## Two switches -/

def leafTree (dg dg' : Finset Nat) (routeLast : String) : FatTree where
  topop := leafTopology 0 dg dg'
  path := fun i j => if i = j then ∅ else {1, 2}
  qsort := insertQsort _
  spineFirstRouting := false
  routeLast := routeLast
  fisOnSameTier := true
  tierCount := 2
  tierSwitches := fun t => if t = 0 then [leafSwitch] else if t = 1 then [coreSwitch] else []
  tierIndex := fun _ => 0
  uplinkTrunkCnt := fun _ => 2
  trunkGrouped := fun _ => true
  edgeSwitch := fun n => n.index == 1

theorem leaf_switches {dg dg' : Finset Nat} {x : Node}
    (hx : x ∈ (leafTopology 0 dg dg').switches) : x = coreSwitch ∨ x = leafSwitch := by
  change x ∈ [coreSwitch, leafSwitch] at hx
  simpa using hx

theorem leafTree_formed (dg dg' : Finset Nat) (routeLast : String) :
    (leafTree dg dg' routeLast).Formed where
  wired := leaf_wired dg dg'
  tierCount_pos := Nat.zero_lt_succ 1
  tiers_nodup := by
    apply List.Nodup.of_map Node.index
    show [1, 0].Nodup
    decide
  tiers_switch := by
    intro x hx
    change x ∈ [leafSwitch, coreSwitch] at hx
    show x ∈ [coreSwitch, leafSwitch]
    simpa [or_comm] using hx
  queued := by
    intro x hx
    rcases leaf_switches hx with rfl | rfl
    · exact List.mem_cons_of_mem _ List.mem_cons_self
    · exact List.mem_cons_self
  path_isl := by
    intro x hx y hy p hp portp hget n hfind
    have hports : p = 1 ∨ p = 2 := by
      change p ∈ (if x.swIdx = y.swIdx then (∅ : Finset Nat) else {1, 2}) at hp
      split at hp
      · exact absurd hp (Finset.notMem_empty p)
      · simpa using hp
    rcases leaf_switches hx with rfl | rfl <;> rcases hports with rfl | rfl <;>
      cases hget <;> cases hfind <;> rfl

/-- Host 3 is routed last, and the other host is counted twice: three are counted for two LIDs. -/
theorem hypercube_counts_twice :
    ¬CountsMatch (leafCube ∅ {0}).topop
      ((leafCube ∅ {0}).hypercubeCalculateAllLfts { skipBalance := (leafCube ∅ {0}).marked }) := by
  intro h
  have hmem : coreSwitch ∈ (leafCube ∅ {0}).topop.switches := List.mem_cons_self
  have hport := h coreSwitch hmem 1 (by decide)
  revert hport
  decide

theorem leaf_hostLids {dg dg' : Finset Nat} :
    ∀ lid ∈ hostLidSet (leafTopology 0 dg dg'), lid < 0x10000 := by
  show ∀ lid ∈ ([8, 12] : List Nat).toFinset, lid < 0x10000
  decide

theorem loadCounters_match_leaf :
    CountsMatch (leafCube ∅ ∅).topop
        ((leafCube ∅ ∅).hypercubeCalculateAllLfts { skipBalance := fun _ => false }) ∧
      ∃ t', (leafTree ∅ ∅ "").calculateBalancedLftsSystematic { skipBalance := fun _ => false } =
        some t' ∧ CountsMatch (leafTree ∅ ∅ "").topop t' := by
  obtain ⟨hcube, htree⟩ := loadCounters_iff (leafCube ∅ ∅) (leafTree ∅ ∅ "") (leaf_wired ∅ ∅)
    (leafTree_formed ∅ ∅ "") leaf_hostLids leaf_hostLids fun _ => false
  constructor
  · apply hcube.1
    intro x hx
    rcases leaf_switches hx with rfl | rfl <;> unfold HostRouting.CountedOnce <;> decide
  · obtain ⟨t', ht⟩ : ∃ t', (leafTree ∅ ∅ "").calculateBalancedLftsSystematic
        { skipBalance := fun _ => false } = some t' := ⟨_, rfl⟩
    refine ⟨t', ht, (htree t' ht).1 ?_⟩
    intro x hx
    rcases leaf_switches hx with rfl | rfl <;> unfold HostRouting.CountedOnce <;> decide

/-!
## The trunk count of a switch

The groups have the sizes of the trunks.  `min` is raised like the maximum, so that the two never
differ, and the largest trunk is taken also when the trunks are uneven.
-/

/-- The uplinks of a switch, by the nodes at their other ends.  A port number has 8 bits, and
discovery ends at fewer nodes than 16 bits can count. -/
structure Uplinks where
  nodes : List (BitVec 32)
  indexed : ∀ n ∈ nodes, n.toNat < 0x10000
  nonempty : nodes ≠ []
  few : nodes.length ≤ 255

def EvenTrunks (l : List (BitVec 32)) : Prop := ∀ a ∈ l, ∀ b ∈ l, l.count a ≤ l.count b + 1

/-- The largest number of parallel uplinks to one node. -/
def IsLargestTrunk (l : List (BitVec 32)) (n : Nat) : Prop :=
  (∃ a ∈ l, l.count a = n) ∧ ∀ a ∈ l, l.count a ≤ n

namespace TrunkGroups

def nodeno (g : TrunkGroups) (i : Nat) : BitVec 32 := (g.trunkGrpNode i).setWidth 32

structure Counted (g : TrunkGroups) (l : List (BitVec 32)) : Prop where
  group : ∀ i < g.trunkCnt, g.nodeno i ∈ l ∧ (g.trunkGrpCnt i).toNat = l.count (g.nodeno i)
  cover : ∀ a ∈ l, ∃ i < g.trunkCnt, g.nodeno i = a
  distinct : ∀ i < g.trunkCnt, ∀ j < g.trunkCnt, g.nodeno i = g.nodeno j → i = j

variable {g : TrunkGroups} {l : List (BitVec 32)}

theorem count_concat (l : List (BitVec 32)) (a b : BitVec 32) :
    (l ++ [a]).count b = l.count b + if a = b then 1 else 0 := by
  rw [List.count_append, List.count_singleton]
  simp only [beq_iff_eq]

theorem Counted.grow (h : g.Counted l) (hfew : l.length < 255) {i : Nat} (hi : i < g.trunkCnt) :
    Counted { g with trunkGrpCnt := Function.update g.trunkGrpCnt i (g.trunkGrpCnt i + 1) }
      (l ++ [g.nodeno i]) where
  group j hj := by
    obtain ⟨hmem, hcount⟩ := h.group j hj
    refine ⟨List.mem_append_left _ hmem, ?_⟩
    show (Function.update g.trunkGrpCnt i (g.trunkGrpCnt i + 1) j).toNat =
      (l ++ [g.nodeno i]).count (g.nodeno j)
    rw [count_concat]
    by_cases hji : j = i
    · subst hji
      have hle : l.count (g.nodeno j) ≤ l.length := List.count_le_length
      have hone : (1 : BitVec 8).toNat = 1 := rfl
      rw [Function.update_self, if_pos rfl, BitVec.toNat_add, hcount, hone]
      exact Nat.mod_eq_of_lt (by omega)
    · rw [Function.update_of_ne hji, if_neg fun heq => hji (h.distinct j hj i hi heq.symm), hcount]
      rfl
  cover a ha := by
    rcases List.mem_append.mp ha with hold | hnew
    · exact h.cover a hold
    · exact ⟨i, hi, (List.mem_singleton.mp hnew).symm⟩
  distinct := h.distinct

theorem setWidth_indexed {a : BitVec 32} (ha : a.toNat < 0x10000) :
    (a.setWidth 16).setWidth 32 = a := by
  apply BitVec.eq_of_toNat_eq
  rw [BitVec.toNat_setWidth, BitVec.toNat_setWidth]
  omega

def extend (g : TrunkGroups) (a : BitVec 32) : TrunkGroups where
  trunkCnt := g.trunkCnt + 1
  trunkGrpCnt := Function.update g.trunkGrpCnt g.trunkCnt 1
  trunkGrpNode := Function.update g.trunkGrpNode g.trunkCnt (a.setWidth 16)

theorem Counted.add (h : g.Counted l) {a : BitVec 32} (ha : a.toNat < 0x10000)
    (hnew : ∀ i < g.trunkCnt, g.nodeno i ≠ a) : (g.extend a).Counted (l ++ [a]) := by
  have hout : a ∉ l := by
    intro ha
    obtain ⟨i, hi, heq⟩ := h.cover a ha
    exact hnew i hi heq
  have hold : ∀ i < g.trunkCnt, (g.extend a).nodeno i = g.nodeno i := by
    intro i hi
    exact congrArg (BitVec.setWidth 32) (Function.update_of_ne (Nat.ne_of_lt hi) _ _)
  have hlast : (g.extend a).nodeno g.trunkCnt = a := by
    calc (g.extend a).nodeno g.trunkCnt = (a.setWidth 16).setWidth 32 :=
          congrArg (BitVec.setWidth 32) (Function.update_self _ _ _)
      _ = a := setWidth_indexed ha
  constructor
  · intro i hi
    rcases Nat.lt_succ_iff_lt_or_eq.mp hi with hlt | rfl
    · obtain ⟨hmem, hcount⟩ := h.group i hlt
      have hcnt : (g.extend a).trunkGrpCnt i = g.trunkGrpCnt i :=
        Function.update_of_ne (Nat.ne_of_lt hlt) _ _
      rw [hold i hlt, hcnt, count_concat, if_neg fun heq => hnew i hlt heq.symm]
      exact ⟨List.mem_append_left _ hmem, hcount⟩
    · have hcnt : (g.extend a).trunkGrpCnt g.trunkCnt = 1 := Function.update_self _ _ _
      rw [hlast, hcnt, count_concat, if_pos rfl, List.count_eq_zero_of_not_mem hout]
      exact ⟨List.mem_append_right _ (List.mem_singleton_self a), rfl⟩
  · intro b hb
    rcases List.mem_append.mp hb with hmem | hmem
    · obtain ⟨i, hi, heq⟩ := h.cover b hmem
      exact ⟨i, Nat.lt_succ_of_lt hi, (hold i hi).trans heq⟩
    · exact ⟨g.trunkCnt, Nat.lt_succ_self _, hlast.trans (List.mem_singleton.mp hmem).symm⟩
  · intro i hi j hj heq
    rcases Nat.lt_succ_iff_lt_or_eq.mp hi with hlt | rfl <;>
      rcases Nat.lt_succ_iff_lt_or_eq.mp hj with hlt' | rfl
    · rw [hold i hlt, hold j hlt'] at heq
      exact h.distinct i hlt j hlt' heq
    · rw [hold i hlt, hlast] at heq
      exact absurd heq (hnew i hlt)
    · rw [hold j hlt', hlast] at heq
      exact absurd heq.symm (hnew j hlt')
    · rfl

theorem Counted.incr (h : g.Counted l) (hfew : l.length < 255) {a : BitVec 32}
    (ha : a.toNat < 0x10000) :
    (incrTrunkCount g a).Counted (l ++ [a]) := by
  unfold incrTrunkCount
  cases hfind : (List.range g.trunkCnt).find? fun i =>
      decide ((g.trunkGrpNode i).setWidth 32 = a) with
  | some i =>
    have hnode : g.nodeno i = a := by simpa [nodeno] using List.find?_some hfind
    have hi : i < g.trunkCnt := List.mem_range.mp (List.mem_of_find?_eq_some hfind)
    subst hnode
    exact h.grow hfew hi
  | none =>
    refine h.add ha fun i hi heq => ?_
    have hnot := List.find?_eq_none.mp hfind i (List.mem_range.mpr hi)
    exact hnot (decide_eq_true heq)

theorem counted_foldl (uplinks : List (BitVec 32)) (hindexed : ∀ n ∈ uplinks, n.toNat < 0x10000) :
    ∀ (g : TrunkGroups) (l : List (BitVec 32)), g.Counted l → l.length + uplinks.length ≤ 255 →
      (uplinks.foldl incrTrunkCount g).Counted (l ++ uplinks) := by
  induction uplinks with
  | nil =>
    intro g l h _
    rw [List.append_nil]
    exact h
  | cons a uplinks ih =>
    intro g l h hfew
    rw [List.length_cons] at hfew
    rw [List.forall_mem_cons] at hindexed
    have hnext := ih hindexed.2 _ _ (h.incr (by omega) hindexed.1) (by rw [List.length_append]; simp; omega)
    rw [List.append_assoc] at hnext
    exact hnext

theorem foldl_trunkTurn (g : TrunkGroups) (n : Nat) :
    ∃ k ≤ n, (List.range' 1 n).foldl (trunkTurn g)
        (g.trunkGrpCnt 0, ((g.trunkGrpCnt 0).toNat : Int)) =
          (g.trunkGrpCnt k, ((g.trunkGrpCnt k).toNat : Int)) ∧
      ∀ i ≤ n, (g.trunkGrpCnt i).toNat ≤ (g.trunkGrpCnt k).toNat := by
  induction n with
  | zero =>
    refine ⟨0, Nat.le_refl 0, rfl, fun i hi => ?_⟩
    rw [Nat.le_zero.mp hi]
  | succ n ih =>
    obtain ⟨k, hk, hfold, hmax⟩ := ih
    rw [List.range'_1_concat, List.foldl_append, hfold]
    show ∃ k' ≤ n + 1,
      trunkTurn g (g.trunkGrpCnt k, ((g.trunkGrpCnt k).toNat : Int)) (1 + n) = _ ∧ _
    unfold trunkTurn
    rw [Nat.add_comm 1 n]
    have hiff : g.trunkGrpCnt (n + 1) > g.trunkGrpCnt k ↔
        ((g.trunkGrpCnt k).toNat : Int) < (g.trunkGrpCnt (n + 1)).toNat := by
      rw [gt_iff_lt, BitVec.lt_def]
      omega
    by_cases hlarger : g.trunkGrpCnt (n + 1) > g.trunkGrpCnt k
    · refine ⟨n + 1, Nat.le_refl _, ?_, fun i hi => ?_⟩
      · rw [if_pos hlarger, if_pos (hiff.mp hlarger)]
      · have hlt := BitVec.lt_def.mp hlarger
        rcases Nat.le_succ_iff.mp hi with hle | rfl
        · exact (hmax i hle).trans (Nat.le_of_lt hlt)
        · exact Nat.le_refl _
    · refine ⟨k, Nat.le_succ_of_le hk, ?_, fun i hi => ?_⟩
      · rw [if_neg hlarger, if_neg fun h => hlarger (hiff.mpr h)]
      · rcases Nat.le_succ_iff.mp hi with hle | rfl
        · exact hmax i hle
        · exact Nat.le_of_not_lt fun h => hlarger (BitVec.lt_def.mpr h)

theorem Counted.setTrunkCount (h : g.Counted l) (hl : l ≠ []) :
    IsLargestTrunk l (setTrunkCount g).toNat := by
  obtain ⟨a, ha⟩ := List.exists_mem_of_ne_nil l hl
  obtain ⟨i₀, hi₀, -⟩ := h.cover a ha
  obtain ⟨k, hk, hfold, hmax⟩ := foldl_trunkTurn g (g.trunkCnt - 1)
  have hset : OpaFm.Routing.setTrunkCount g = g.trunkGrpCnt k := by
    unfold OpaFm.Routing.setTrunkCount
    dsimp only
    rw [hfold, if_neg (by simp)]
  have hk' : k < g.trunkCnt := by omega
  rw [hset]
  refine ⟨⟨g.nodeno k, (h.group k hk').1, (h.group k hk').2.symm⟩, fun b hb => ?_⟩
  obtain ⟨i, hi, rfl⟩ := h.cover b hb
  rw [← (h.group i hi).2]
  exact hmax i (by omega)

end TrunkGroups

def uplinkTrunkCount (cnt : Nat → BitVec 8) (node : Nat → BitVec 16) (u : Uplinks) : Nat :=
  (setTrunkCount (u.nodes.foldl incrTrunkCount ⟨0, cnt, node⟩)).toNat

/-- The count is that of the largest trunk for even trunks and 1 for others, exactly when the
trunks are even. -/
theorem uplinkTrunkCount_iff (cnt : Nat → BitVec 8) (node : Nat → BitVec 16) (u : Uplinks) :
    ((EvenTrunks u.nodes → IsLargestTrunk u.nodes (uplinkTrunkCount cnt node u)) ∧
        (¬EvenTrunks u.nodes → uplinkTrunkCount cnt node u = 1)) ↔
      EvenTrunks u.nodes := by
  have hnone : TrunkGroups.Counted ⟨0, cnt, node⟩ [] :=
    { group := fun i hi => absurd hi (Nat.not_lt_zero i)
      cover := fun a ha => nomatch ha
      distinct := fun i hi => absurd hi (Nat.not_lt_zero i) }
  have hlargest : IsLargestTrunk u.nodes (uplinkTrunkCount cnt node u) :=
    (TrunkGroups.counted_foldl u.nodes u.indexed _ _ hnone (by simpa using u.few)).setTrunkCount u.nonempty
  constructor
  · rintro ⟨-, huneven⟩
    by_contra hnot
    have hone := huneven hnot
    rw [hone] at hlargest
    refine hnot fun a ha b hb => ?_
    have hle := hlargest.2 a ha
    omega
  · intro heven
    exact ⟨fun _ => hlargest, fun hnot => absurd heven hnot⟩

theorem unevenUplinks_indexed : ∀ n ∈ [(1 : BitVec 32), 1, 1, 2], n.toNat < 0x10000 := by
  simp

def unevenUplinks : Uplinks := ⟨[1, 1, 1, 2], unevenUplinks_indexed, by decide, by decide⟩

theorem not_uplinkTrunkCount :
    ¬∀ (cnt : Nat → BitVec 8) (node : Nat → BitVec 16) (u : Uplinks),
      (EvenTrunks u.nodes → IsLargestTrunk u.nodes (uplinkTrunkCount cnt node u)) ∧
        (¬EvenTrunks u.nodes → uplinkTrunkCount cnt node u = 1) := by
  intro h
  have huneven : ¬EvenTrunks unevenUplinks.nodes := fun heven =>
    absurd (heven 1 (by decide) 2 (by decide)) (by decide)
  exact absurd ((h (fun _ => 0) (fun _ => 0) unevenUplinks).2 huneven) (by decide)

end OpaFm.Routing
