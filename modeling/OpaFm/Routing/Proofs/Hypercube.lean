import OpaFm.Routing.Hypercube
import OpaFm.Routing.Proofs.LoadCounters
import OpaFm.Routing.Proofs.SelectPorts

/-!
# The order of ports of a switch

`_setup_routing_ctrl` numbers virtual ports from one and `hypercube_select_ports` reads the array
from zero: the first element is never written.
-/

namespace OpaFm.Routing

open OpaFm.Fabric OpaFm.Partition

/-- The entries that apply to a switch, in its own control or else in the default one. -/
def configuredEntries (cfg : DGXmlConfig) (ctrls : List SmSPRoutingCtrl) (nodep : Node) :
    List SmSPRoutingPort :=
  let entries : List SmSPRoutingPort :=
    match nodeCtrl cfg ctrls nodep, defaultCtrl ctrls with
    | some c, some d =>
      c.ports ++ d.ports.filter fun e => !(c.pportMap e.pport || c.vportMap e.vport)
    | some c, none => c.ports
    | none, some d => d.ports
    | none, none => []
  entries.filter fun e => e.inRange nodep.numPorts

/-- The order that is wanted of a switch: each port comes once, virtual port `v` is the `v`-th, and
nothing is written behind the array. -/
structure OrderOk (nodep : Node) (entries : List SmSPRoutingPort) (routingData : Option PortOrder) :
    Prop where
  perm : (visitedPorts nodep routingData).Perm (List.range' 1 nodep.numPorts)
  held : ∀ e ∈ entries, (visitedPorts nodep routingData)[e.vport - 1]? = some e.pport
  written : ∀ o, routingData = some o → ∀ i ∈ o.wrote, i < nodep.numPorts

def noGroups : DGXmlConfig := ⟨[], List.nodup_nil⟩

def swapCtrl : SmSPRoutingCtrl where
  switches := ""
  pportMap := fun p => p == 2
  vportMap := fun v => v == 1
  ports := [{ pport := 2, vport := 1, cost := 0 }]

/-- Of two ports the first is lost, and the second place is behind the array. -/
theorem setupRoutingCtrl_loses_port :
    let nodep : Node := { index := 0, numPorts := 2 }
    ¬OrderOk nodep (configuredEntries noGroups [swapCtrl] nodep)
      (setupRoutingCtrl noGroups [swapCtrl] nodep fun _ => 0).routingData := by
  intro nodep hok
  have hvisited : visitedPorts nodep
      (setupRoutingCtrl noGroups [swapCtrl] nodep fun _ => 0).routingData = [0, 2] := by decide
  have hperm := hok.perm
  rw [hvisited] at hperm
  exact absurd hperm (by decide)

/-! ## The first element -/

namespace PortOrder

def Untouched (o : PortOrder) : Prop := o.portOrder 0 = 0

theorem Untouched.put {o : PortOrder} (h : o.Untouched) {vport : Nat} (hv : vport ≠ 0)
    (pport : Nat) : (o.put vport pport).Untouched := by
  show Function.update o.portOrder vport pport 0 = 0
  rw [Function.update_of_ne (Ne.symm hv)]
  exact h

end PortOrder

theorem SmSPRoutingPort.vport_ne {n : Nat} {e : SmSPRoutingPort} (h : e.inRange n = true) :
    e.vport ≠ 0 := by
  intro hz
  simp [SmSPRoutingPort.inRange, hz] at h

section

variable {n : Nat}

theorem untouched_nodeEntries (ports : List SmSPRoutingPort) {o : PortOrder} (h : o.Untouched) :
    (nodeEntries n ports o).Untouched := by
  unfold nodeEntries
  induction ports generalizing o with
  | nil => exact h
  | cons e rest ih =>
    rw [List.foldl_cons]
    apply ih
    by_cases he : e.inRange n = true
    · rw [if_pos he]
      exact h.put (SmSPRoutingPort.vport_ne he) e.pport
    · rw [if_neg he]
      exact h

theorem untouched_defaultEntry {s : OrderMaps} (h : s.order.Untouched) (e : SmSPRoutingPort) :
    (defaultEntry n s e).order.Untouched := by
  unfold defaultEntry
  by_cases ht : (s.pportMap e.pport || s.vportMap e.vport) = true
  · rw [if_pos ht]
    exact h
  · rw [if_neg ht]
    by_cases he : e.inRange n = true
    · rw [if_pos he]
      exact h.put (SmSPRoutingPort.vport_ne he) e.pport
    · rw [if_neg he]
      exact h

theorem untouched_defaultEntries (ports : List SmSPRoutingPort) {s : OrderMaps}
    (h : s.order.Untouched) : (ports.foldl (defaultEntry n) s).order.Untouched := by
  induction ports generalizing s with
  | nil => exact h
  | cons e rest ih => exact ih (untouched_defaultEntry h e)

theorem untouched_fillGaps {s : OrderMaps} (h : s.order.Untouched) : (fillGaps n s).Untouched := by
  have hpos : ∀ v ∈ List.range' 1 n, v ≠ 0 := by
    intro v hv
    have := (List.mem_range'_1.mp hv).1
    omega
  unfold fillGaps
  show (((List.range' 1 n).foldl _ (s.order, 1)).1).portOrder 0 = 0
  have hstart : ((s.order, 1) : PortOrder × Nat).1.Untouched := h
  generalize ((s.order, 1) : PortOrder × Nat) = st at hstart
  -- the positions that are filled are those of virtual ports, from one on
  generalize List.range' 1 n = vports at hpos
  induction vports generalizing st with
  | nil => exact hstart
  | cons v rest ih =>
    rw [List.foldl_cons]
    apply ih _ _ fun u hu => hpos u (List.mem_cons_of_mem _ hu)
    by_cases hv : s.vportMap v = true
    · rw [if_pos hv]
      exact hstart
    · rw [if_neg hv]
      cases hnext : nextPort n s.pportMap (n + 1) st.2 with
      | mk found next =>
        cases found with
        | none => exact hstart
        | some pport => exact hstart.put (hpos v List.mem_cons_self) pport

end

theorem setupRoutingCtrl_untouched {cfg : DGXmlConfig} {ctrls : List SmSPRoutingCtrl}
    {nodep : Node} (routingCost : Nat → Nat)
    (hc : (nodeCtrl cfg ctrls nodep <|> defaultCtrl ctrls) ≠ none) (hn : nodep.numPorts ≠ 0) :
    ∃ o, (setupRoutingCtrl cfg ctrls nodep routingCost).routingData = some o ∧ o.Untouched := by
  have hstart (ctrl : SmSPRoutingCtrl) :
      (OrderMaps.mk (nodeEntries nodep.numPorts ctrl.ports {}) ctrl.pportMap
        ctrl.vportMap).order.Untouched := untouched_nodeEntries ctrl.ports rfl
  unfold setupRoutingCtrl
  revert hc
  simp only [if_neg hn]
  cases nodeCtrl cfg ctrls nodep with
  | none =>
    cases defaultCtrl ctrls with
    | none => exact fun hc => absurd rfl hc
    | some d => exact fun _ => ⟨_, rfl, untouched_fillGaps (hstart d)⟩
  | some c =>
    cases defaultCtrl ctrls with
    | none => exact fun _ => ⟨_, rfl, untouched_fillGaps (hstart c)⟩
    | some d =>
      exact fun _ => ⟨_, rfl, untouched_fillGaps (untouched_defaultEntries d.ports (hstart c))⟩

theorem setupRoutingCtrl_unset {cfg : DGXmlConfig} {ctrls : List SmSPRoutingCtrl} {nodep : Node}
    {routingCost : Nat → Nat}
    (h : (nodeCtrl cfg ctrls nodep <|> defaultCtrl ctrls) = none ∨ nodep.numPorts = 0) :
    (setupRoutingCtrl cfg ctrls nodep routingCost).routingData = none := by
  unfold setupRoutingCtrl
  revert h
  dsimp only
  cases (nodeCtrl cfg ctrls nodep <|> defaultCtrl ctrls) with
  | none => exact fun _ => rfl
  | some ctrl =>
    intro h
    have hn : nodep.numPorts = 0 := h.resolve_left (Option.some_ne_none ctrl)
    simp only [if_pos hn]

theorem visitedPorts_none (nodep : Node) :
    visitedPorts nodep none = List.range' 1 nodep.numPorts := by
  unfold visitedPorts
  rw [List.range'_eq_map_range]
  apply List.map_congr_left
  intro i _
  exact Nat.add_comm i 1

theorem zero_mem_visitedPorts {nodep : Node} {o : PortOrder} (h : o.Untouched)
    (hn : nodep.numPorts ≠ 0) : 0 ∈ visitedPorts nodep (some o) := by
  unfold visitedPorts
  exact List.mem_map.mpr ⟨0, List.mem_range.mpr (Nat.pos_of_ne_zero hn), h⟩

theorem inRange_zero (e : SmSPRoutingPort) : e.inRange 0 = false := by
  by_cases h : e.vport = 0 <;> simp [SmSPRoutingPort.inRange, h]

theorem configuredEntries_unset {cfg : DGXmlConfig} {ctrls : List SmSPRoutingCtrl} {nodep : Node}
    (h : (nodeCtrl cfg ctrls nodep <|> defaultCtrl ctrls) = none ∨ nodep.numPorts = 0) :
    configuredEntries cfg ctrls nodep = [] := by
  unfold configuredEntries
  cases h with
  | inl hc =>
    rw [Option.orElse_eq_orElse, Option.orElse_eq_or] at hc
    obtain ⟨h1, h2⟩ := Option.or_eq_none_iff.mp hc
    rw [h1, h2]
    rfl
  | inr hn =>
    rw [hn]
    exact List.filter_eq_nil_iff.mpr fun e _ => by rw [inRange_zero]; exact Bool.false_ne_true

/-- The order is the wanted one exactly where no control applies to the switch, or where it has no
ports. -/
theorem setupRoutingCtrl_order_iff (cfg : DGXmlConfig) (ctrls : List SmSPRoutingCtrl)
    (nodep : Node) (routingCost : Nat → Nat) :
    OrderOk nodep (configuredEntries cfg ctrls nodep)
        (setupRoutingCtrl cfg ctrls nodep routingCost).routingData ↔
      (nodeCtrl cfg ctrls nodep <|> defaultCtrl ctrls) = none ∨ nodep.numPorts = 0 := by
  constructor
  · intro hok
    by_contra hcon
    obtain ⟨hc, hn⟩ := not_or.mp hcon
    obtain ⟨o, hdata, ho⟩ := setupRoutingCtrl_untouched routingCost hc hn
    have hzero : 0 ∈ List.range' 1 nodep.numPorts := by
      apply hok.perm.subset
      rw [hdata]
      exact zero_mem_visitedPorts ho hn
    have := (List.mem_range'_1.mp hzero).1
    omega
  · intro h
    rw [setupRoutingCtrl_unset h, configuredEntries_unset h]
    refine ⟨?_, ?_, ?_⟩
    · rw [visitedPorts_none]
    · intro e he
      exact absurd he List.not_mem_nil
    · intro o ho
      exact absurd ho.symm (Option.some_ne_none o)

/-! ## The passes -/

namespace HypercubeState

variable {s : HypercubeState}

def SameSelect (a a' : HypercubeSelect) : Prop := a.first = a'.first ∧ Agree a.sel a'.sel

theorem selectPort_same {a a' : HypercubeSelect} (h : SameSelect a a') (load load' : RouteLoad)
    (switchp : Node) (endIndex port : Nat) :
    SameSelect (s.selectPort load switchp endIndex false a port)
      (s.selectPort load' switchp endIndex false a' port) := by
  obtain ⟨hfirst, hsel⟩ := h
  unfold selectPort
  cases (smGetPort switchp port).bind Port.toValid with
  | none => exact ⟨hfirst, hsel⟩
  | some p =>
    dsimp only
    by_cases hup : (!p.port.state.isUp) = true
    · rw [if_pos hup, if_pos hup]
      exact ⟨hfirst, hsel⟩
    · rw [if_neg hup, if_neg hup]
      cases (smFindNode s.topop p.port.nodeno).filter fun n => n.nodeType = .switch with
      | none => exact ⟨hfirst, hsel⟩
      | some next =>
        dsimp only
        rw [hfirst]
        split_ifs
        · exact ⟨hfirst, hsel⟩
        · exact ⟨hfirst, hsel⟩
        · exact ⟨hfirst, hsel⟩
        · exact ⟨rfl, considerPort_agree hsel _ _ _ _ _ _⟩

theorem hypercubeSelectPorts_load (load load' : RouteLoad) (switchp : Node) (endIndex : Nat) :
    s.hypercubeSelectPorts load switchp endIndex false =
      s.hypercubeSelectPorts load' switchp endIndex false := by
  have hfold (ports : List Nat) : ∀ a a' : HypercubeSelect, SameSelect a a' →
      SameSelect (ports.foldl (s.selectPort load switchp endIndex false) a)
        (ports.foldl (s.selectPort load' switchp endIndex false) a') := by
    induction ports with
    | nil => exact fun a a' h => h
    | cons p rest ih =>
      exact fun a a' h => ih _ _ (selectPort_same h load load' switchp endIndex p)
  exact (hfold _ {} {} ⟨rfl, rfl, rfl, rfl⟩).2.2.2

theorem length_hypercubeGetPortGroup (load load' : RouteLoad) (switchp nodep : Node) :
    (s.hypercubeGetPortGroup load switchp nodep).length =
      (s.hypercubeGetPortGroup load' switchp nodep).length := by
  unfold hypercubeGetPortGroup
  split_ifs
  · rfl
  · rfl
  · rw [List.length_map, List.length_map, (s.qsort.perm _ _).length_eq, (s.qsort.perm _ _).length_eq,
      hypercubeSelectPorts_load load load']

theorem hypercubeHost_effect (switchp : Node) (portGroup : List Nat) (l : Port × Node)
    (st : LftTables × Nat) :
    (s.hypercubeHost switchp portGroup l st).1.skipBalance = st.1.skipBalance ∧
      (s.hypercubeHost switchp portGroup l st).1.wrote.map LftWrite.place =
        st.1.wrote.map LftWrite.place ++
          (hostLids l.2).map fun lid => ⟨switchp.index, lid, decide (portGroup.length ≠ 0)⟩ := by
  unfold hypercubeHost
  induction hostLids l.2 generalizing st with
  | nil => exact ⟨rfl, (List.append_nil _).symm⟩
  | cons lid rest ih =>
    rw [List.foldl_cons, List.map_cons, List.append_cons]
    by_cases hown : portGroup.length = 0
    · rw [if_pos hown, decide_eq_false (not_not.mpr hown), (ih _).1, (ih _).2,
        decide_eq_false (not_not.mpr hown)]
      exact ⟨rfl, congrArg (· ++ _) (LftTables.attach_places _ _ _ _)⟩
    · rw [if_neg hown, decide_eq_true hown, (ih _).1, (ih _).2, decide_eq_true hown]
      exact ⟨rfl, congrArg (· ++ _) (LftTables.assign_places _ _ _ _ _)⟩

theorem links_mem {toSwitchp : Node} {l : Port × Node} (hl : l ∈ s.hostRouting.links toSwitchp) :
    l ∈ hostLinks s.topop toSwitchp := (List.mem_filter.mp hl).1

theorem regular (w : Wired s.topop) : s.hostRouting.Regular := by
  constructor
  · intro y hy y' hy' l hl heq
    obtain ⟨-, -, -, hn, hca⟩ := w.mem_hostLinks.mp (links_mem hl)
    exact Wired.not_ca hy' (w.eq_of_index hn (Wired.node_mem hy') heq ▸ hca)
  · exact length_hypercubeGetPortGroup
  · exact fun x g l st => (hypercubeHost_effect x g l st).1
  · exact fun x g l st => (hypercubeHost_effect x g l st).2

theorem hypercubeSelectPorts_isl (w : Wired s.topop) {switchp : Node}
    (hx : switchp ∈ s.topop.switches) (load : RouteLoad) (endIndex : Nat) (selectBest : Bool) :
    ∀ e ∈ s.hypercubeSelectPorts load switchp endIndex selectBest,
      isIslPort s.topop switchp e.portp.index = true := by
  have hstep (a : HypercubeSelect) (port : Nat)
      (ha : ∀ e ∈ a.sel.orderedPorts, isIslPort s.topop switchp e.portp.index = true) :
      ∀ e ∈ (s.selectPort load switchp endIndex selectBest a port).sel.orderedPorts,
        isIslPort s.topop switchp e.portp.index = true := by
    unfold selectPort
    cases hget : (smGetPort switchp port).bind Port.toValid with
    | none => exact ha
    | some p =>
      dsimp only
      by_cases hup : (!p.port.state.isUp) = true
      · rw [if_pos hup]
        exact ha
      · rw [if_neg hup]
        cases hnext : (smFindNode s.topop p.port.nodeno).filter fun n => n.nodeType = .switch with
        | none => exact ha
        | some next =>
          dsimp only
          split_ifs
          · exact ha
          · exact ha
          · exact ha
          · intro e he
            cases mem_considerPort selectBest he with
            | inr hold => exact ha e hold
            | inl hnew =>
              obtain ⟨portp, hport, hvalid⟩ := Option.bind_eq_some_iff.mp hget
              have hsame := toValid_port hvalid
              have hindex := smGetPort_index (w.port_index _ (Wired.node_mem hx)) hport
              have hsome : smValidPort portp = true := by
                unfold smValidPort
                rw [← hsame, p.valid]
                rfl
              obtain ⟨hfind, hsw⟩ := Option.filter_eq_some_iff.mp hnext
              rw [hsame] at hfind hup
              rw [hnew]
              show isIslPort s.topop switchp p.port.index = true
              rw [hsame, hindex]
              unfold isIslPort isLive
              rw [hport, Option.any_some, hsome, hfind, Option.any_some, hsw]
              simpa using hup
  unfold hypercubeSelectPorts
  have hstart : ∀ e ∈ ({} : HypercubeSelect).sel.orderedPorts,
      isIslPort s.topop switchp e.portp.index = true := fun e he => absurd he List.not_mem_nil
  generalize ({} : HypercubeSelect) = a at hstart
  induction visitedPorts switchp (s.routingData switchp) generalizing a with
  | nil => exact hstart
  | cons port rest ih => exact ih _ (hstep a port hstart)

theorem hypercubeHost_induct (J : LftTables → Prop) (x : Node) (g : List Nat) (l : Port × Node)
    (st : LftTables × Nat) (hst : J st.1)
    (hown : g.length = 0 → ∀ t lid, J t → J (t.attach x lid l.1.index))
    (hgroup : g.length ≠ 0 → ∀ t lid, ∀ p ∈ g, J t → J (LftTables.assign s.topop t x lid p)) :
    J (s.hypercubeHost x g l st).1 := by
  unfold hypercubeHost
  induction hostLids l.2 generalizing st with
  | nil => exact hst
  | cons lid rest ih =>
    rw [List.foldl_cons]
    apply ih
    by_cases hlen : g.length = 0
    · rw [if_pos hlen]
      exact hown hlen st.1 lid hst
    · rw [if_neg hlen]
      exact hgroup hlen st.1 lid _ (mem_getD (Nat.mod_lt st.2 (Nat.pos_of_ne_zero hlen)) _) hst

theorem counting (w : Wired s.topop) : s.hostRouting.Counting where
  toRegular := regular w
  wired := w
  sources_nodup := w.nodup_switches
  sources_switch := fun _ hx => hx
  switches_source := fun _ hx => hx
  targets_source := fun _ hy => hy
  links_host := fun _ _ _ hl => links_mem hl
  group_isl := by
    intro load x hx y _ p hp
    change p ∈ s.hypercubeGetPortGroup load x y at hp
    unfold hypercubeGetPortGroup at hp
    split_ifs at hp
    · exact absurd hp List.not_mem_nil
    · exact absurd hp List.not_mem_nil
    · obtain ⟨e, he, rfl⟩ := List.mem_map.mp hp
      exact hypercubeSelectPorts_isl w hx load _ _ e ((s.qsort.perm _ _).subset he)
  host_induct := hypercubeHost_induct

/-! ## Routes to switches -/

theorem hypercubeSetupXft_counts {load : RouteLoad} (hb : LftTables.Bounded load)
    {switchp nodep : Node} (hsw : nodep.nodeType = .switch) (orig : ValidPort) :
    (s.hypercubeSetupXft load switchp nodep orig).load.lidsRouted = load.lidsRouted := by
  unfold hypercubeSetupXft
  dsimp only
  rw [if_pos hsw]
  cases destinationSwitch s.topop nodep orig.port with
  | none => rfl
  | some j =>
    dsimp only
    by_cases hj : j = switchp.swIdx
    · rw [if_pos hj]
    · rw [if_neg hj]
      by_cases hlmc : orig.data.lmc = 0
      · rw [if_pos hlmc]
        cases s.hypercubeSelectPorts load switchp j true with
        | nil => rfl
        | cons e rest =>
          dsimp only
          rw [if_neg fun h => h.2 hsw]
      · rw [if_neg hlmc]
        cases s.hypercubeSelectPorts load switchp j false with
        | nil => rfl
        | cons e rest => exact spreadLids_counts hb _ _ _

theorem switchRoutes_spares (t : LftTables) :
    LftTables.Spares (IsSwitchLid s.topop) t (s.switchRoutes t) := by
  unfold switchRoutes
  apply LftTables.Spares.foldl
  intro t switchp _
  apply LftTables.Spares.foldl
  intro t nodep hn
  apply LftTables.Spares.foldl
  intro t p hp
  obtain ⟨portp, hport, hvalid⟩ := List.mem_filterMap.mp hp
  have hsw : nodep.nodeType = .switch := of_decide_eq_true (List.mem_filter.mp hn).2
  apply LftTables.Spares.fill
  · intro lid hlid
    rw [toValid_port hvalid] at hlid
    exact ⟨nodep, hn, portp, hport, hlid⟩
  · exact fun hb => hypercubeSetupXft_counts hb hsw p

theorem hypercube_counts (w : Wired s.topop) (hlids : ∀ lid ∈ hostLidSet s.topop, lid < 0x10000)
    (skip : Nat → Bool) :
    ((∀ x ∈ s.topop.switches, s.hostRouting.CountedOnce s.routeLast skip x) →
        CountsMatch s.topop (s.hypercubeCalculateAllLfts { skipBalance := skip })) ∧
      ((∀ x ∈ s.topop.switches, s.hostRouting.FewAssigned s.routeLast skip x) →
        CountsMatch s.topop (s.hypercubeCalculateAllLfts { skipBalance := skip }) →
          ∀ x ∈ s.topop.switches, s.hostRouting.CountedOnce s.routeLast skip x) := by
  let start : LftTables := { skipBalance := skip }
  have hstart : LftTables.Logged s.topop start :=
    LftTables.Logged.start s.topop rfl (fun _ => rfl) fun _ _ => rfl
  have hb : LftTables.Bounded (s.hostRouting.passes s.routeLast (start, 0)).1.load :=
    (counting w).passes_bounded s.routeLast fun _ _ => Nat.zero_lt_succ _
  unfold hypercubeCalculateAllLfts
  rw [LftTables.initLfts_start, CountsMatch.spares_iff w hb (switchRoutes_spares _)]
  exact (counting w).match_iff hlids s.routeLast (s := (start, 0)) rfl hstart

/-! ## Hosts to be routed last -/

section

variable (s)

/-- A live port of the node is in the device group of hosts to be routed last. -/
def inRouteLast (nodep : Node) : Bool :=
  s.routeLast.length ≠ 0 && (smGetDgIdx s.cfg s.routeLast).any fun dgIdx => inGroup nodep dgIdx

def marked : Nat → Bool := s.markRouteLast fun _ => false

def markedLfts : LftTables := s.hypercubeCalculateAllLfts { skipBalance := s.marked }

/-- The hosts of the group are the marked ones, and on each switch every LID of another host that is
routed comes before the LIDs of marked ones. -/
structure RoutedLast : Prop where
  marks : ∀ nodep ∈ s.topop.nodes, nodep.nodeType = .ca →
    (s.marked nodep.index = true ↔ s.inRouteLast nodep = true)
  order : ∀ switchp ∈ s.topop.switches, ∀ n ∈ s.topop.nodes, ∀ n' ∈ s.topop.nodes,
    n.nodeType = .ca → n'.nodeType = .ca → s.marked n.index = false → s.marked n'.index = true →
      ∀ lid ∈ hostLids n, (∃ w ∈ s.markedLfts.wrote, w.switch = switchp.index ∧ w.lid = lid) →
        ∀ before w after, s.markedLfts.wrote = before ++ w :: after → w.switch = switchp.index →
          w.lid ∈ hostLids n' → ∃ w' ∈ before, w'.switch = switchp.index ∧ w'.lid = lid

end

theorem subset_of_split {α : Type} {before after first later : List α} {w : α}
    (h : before ++ w :: after = first ++ later) (hw : w ∉ first) : first ⊆ before := by
  cases List.append_eq_append_iff.mp h with
  | inl hin =>
    obtain ⟨c, rfl, hc⟩ := hin
    cases c with
    | nil => exact fun a ha => by rwa [List.append_nil] at ha
    | cons u c =>
      cases hc
      exact absurd (List.mem_append_right _ List.mem_cons_self) hw
  | inr hin =>
    obtain ⟨c, rfl, -⟩ := hin
    exact List.subset_append_left _ _

/-- What is assigned: entries for hosts that are not marked, entries for hosts that are or that have
entries already, and entries for switches. -/
theorem markedLfts_wrote (w : Wired s.topop) :
    ∃ first later ws, s.markedLfts.wrote = first ++ (later ++ ws) ∧
      (∀ u ∈ first, ∃ y, ∃ l ∈ s.hostRouting.links y, s.marked l.2.index = false ∧
        u.lid ∈ hostLids l.2) ∧
      (∀ u ∈ later, ∃ y, ∃ l ∈ s.hostRouting.links y, u.lid ∈ hostLids l.2 ∧
        (s.marked l.2.index = false → ∃ u' ∈ first, u'.switch = u.switch ∧ u'.lid = u.lid)) ∧
      ∀ u ∈ ws, IsSwitchLid s.topop u.lid := by
  let start : LftTables := { skipBalance := s.marked }
  obtain ⟨first, later, hpasses, hfirst, hlater⟩ :=
    HostRouting.passes_order (regular w) s.routeLast (s := (start, 0)) rfl
  obtain ⟨ws, hws, hin⟩ :=
    (switchRoutes_spares (s := s) (s.hostRouting.passes s.routeLast (start, 0)).1).wrote
  refine ⟨first, later, ws, ?_, ?_, ?_, hin⟩
  · unfold markedLfts hypercubeCalculateAllLfts
    rw [LftTables.initLfts_start, hws, hpasses, List.append_assoc]
  · intro u hu
    obtain ⟨y, -, l, hl, hsk, hlid⟩ := hfirst u hu
    exact ⟨y, l, hl, hsk, hlid⟩
  · intro u hu
    obtain ⟨y, -, l, hl, hlid, hback⟩ := hlater u hu
    exact ⟨y, l, hl, hlid, hback⟩

theorem markedLfts_order (w : Wired s.topop) :
    ∀ switchp ∈ s.topop.switches, ∀ n ∈ s.topop.nodes, ∀ n' ∈ s.topop.nodes,
      n.nodeType = .ca → n'.nodeType = .ca → s.marked n.index = false → s.marked n'.index = true →
        ∀ lid ∈ hostLids n, (∃ w ∈ s.markedLfts.wrote, w.switch = switchp.index ∧ w.lid = lid) →
          ∀ before w after, s.markedLfts.wrote = before ++ w :: after → w.switch = switchp.index →
            w.lid ∈ hostLids n' → ∃ w' ∈ before, w'.switch = switchp.index ∧ w'.lid = lid := by
  intro x _ n hn n' hn' hca hca' hfree hmark lid hlid hwrote before u after hsplit _ hu
  obtain ⟨first, later, ws, hall, hfirst, hlater, hin⟩ := markedLfts_wrote w
  -- a LID tells its node
  have hnode {m m' : Node} (hm : m ∈ s.topop.nodes) (hm' : m' ∈ s.topop.nodes) {lid : Nat}
      (h : lid ∈ hostLids m) (h' : lid ∈ hostLids m') : m = m' := by
    obtain ⟨p, hp, hl⟩ := mem_hostLids.mp h
    obtain ⟨p', hp', hl'⟩ := mem_hostLids.mp h'
    exact (w.lid_unique m hm m' hm' p hp p' hp' lid hl hl').1
  have hhost {y : Node} {l : Port × Node} (hl : l ∈ s.hostRouting.links y) :
      l.2 ∈ s.topop.nodes := (w.mem_hostLinks.mp (links_mem hl)).2.2.2.1
  have hmarked : u ∉ first := by
    intro hmem
    obtain ⟨y, l, hl, hsk, hl'⟩ := hfirst u hmem
    have heq := hnode (hhost hl) hn' hl' hu
    rw [heq, hmark] at hsk
    cases hsk
  rw [hall] at hsplit
  have hsub := subset_of_split hsplit.symm hmarked
  obtain ⟨v, hv, hvx, hvlid⟩ := hwrote
  rw [hall] at hv
  cases List.mem_append.mp hv with
  | inl hv => exact ⟨v, hsub hv, hvx, hvlid⟩
  | inr hv =>
    cases List.mem_append.mp hv with
    | inl hv =>
      obtain ⟨y, l, hl, hl', hback⟩ := hlater v hv
      have heq : l.2 = n := hnode (hhost hl) hn hl' (hvlid ▸ hlid)
      obtain ⟨v', hv', hsw, hlid'⟩ := hback (heq ▸ hfree)
      exact ⟨v', hsub hv', hsw.trans hvx, hlid'.trans hvlid⟩
    | inr hv =>
      -- the LID of a switch is not one of a host
      obtain ⟨m, hm, p, hp, hlp⟩ := hin v hv
      have heq : m = n := hnode (Wired.node_mem hm) hn
        (mem_hostLids.mpr ⟨p, hp, hlp⟩) (hvlid ▸ hlid)
      exact absurd (heq ▸ hca) (Wired.not_ca hm)

theorem marked_iff (w : Wired s.topop) {nodep : Node} (hn : nodep ∈ s.topop.nodes) :
    s.marked nodep.index = true ↔ (s.topop.nodes.filter fun n => n.nodeType = .ca).find?
      s.inRouteLast = some nodep := by
  unfold marked markRouteLast
  have hno (h : ∀ n, s.inRouteLast n = false) :
      (s.topop.nodes.filter fun n => n.nodeType = .ca).find? s.inRouteLast = none :=
    List.find?_eq_none.mpr fun n _ => by rw [h]; exact Bool.false_ne_true
  by_cases hlast : s.routeLast.length = 0
  · rw [if_pos hlast, hno fun n => by unfold inRouteLast; rw [hlast]; rfl]
    exact iff_of_false Bool.false_ne_true (fun h => by cases h)
  · rw [if_neg hlast]
    cases hdg : smGetDgIdx s.cfg s.routeLast with
    | none =>
      rw [hno fun n => by unfold inRouteLast; rw [hdg]; exact Bool.and_false _]
      exact iff_of_false Bool.false_ne_true (fun h => by cases h)
    | some dgIdx =>
      have hsame : s.inRouteLast = fun n => inGroup n dgIdx := by
        funext n
        unfold inRouteLast
        rw [hdg, decide_eq_true hlast]
        rfl
      rw [hsame]
      dsimp only
      cases hfind : (s.topop.nodes.filter fun n => n.nodeType = .ca).find?
          (fun n => inGroup n dgIdx) with
      | none => exact iff_of_false Bool.false_ne_true (fun h => by cases h)
      | some m =>
        have hm := (List.mem_filter.mp (List.mem_of_find?_eq_some hfind)).1
        show Function.update (fun _ => false) m.index true nodep.index = true ↔ _
        by_cases heq : nodep.index = m.index
        · rw [heq, Function.update_self, w.eq_of_index hn hm heq]
          exact iff_of_true rfl rfl
        · rw [Function.update_of_ne heq]
          exact iff_of_false Bool.false_ne_true fun h => heq (by cases h; rfl)

/-- Hosts are routed last as the group has them exactly if it has at most one. -/
theorem routedLast_iff (w : Wired s.topop) :
    s.RoutedLast ↔ ∀ n ∈ s.topop.nodes, ∀ n' ∈ s.topop.nodes, n.nodeType = .ca →
      n'.nodeType = .ca → s.inRouteLast n = true → s.inRouteLast n' = true → n = n' := by
  constructor
  · intro h n hn n' hn' hca hca' hin hin'
    have h1 := (marked_iff w hn).mp ((h.marks n hn hca).mpr hin)
    have h2 := (marked_iff w hn').mp ((h.marks n' hn' hca').mpr hin')
    rw [h1] at h2
    exact Option.some.inj h2
  · intro hone
    refine ⟨fun nodep hn hca => ?_, markedLfts_order w⟩
    rw [marked_iff w hn]
    constructor
    · exact fun h => List.find?_some h
    · intro hin
      cases hfind : (s.topop.nodes.filter fun n => n.nodeType = .ca).find? s.inRouteLast with
      | none =>
        have hmem : nodep ∈ s.topop.nodes.filter fun n => n.nodeType = .ca :=
          List.mem_filter.mpr ⟨hn, decide_eq_true hca⟩
        exact absurd hin (List.find?_eq_none.mp hfind nodep hmem)
      | some m =>
        obtain ⟨hm, hmca⟩ := List.mem_filter.mp (List.mem_of_find?_eq_some hfind)
        rw [hone m hm nodep hn (of_decide_eq_true hmca) hca (List.find?_some hfind) hin]

end HypercubeState

/-! ## Two hosts -/

/-- The fabric of two switches as a hypercube; group "L" is routed last. -/
def leafCube (dg dg' : Finset Nat) : HypercubeState where
  topop := leafTopology 0 dg dg'
  cfg := ⟨[{ name := "L" }], List.nodup_singleton _⟩
  routeLast := "L"
  qsort := insertQsort _
  cost := fun i j => if i = j then 0 else 1
  routingData := fun _ => none
  edgeSwitch := fun n => n.index == 1
  isIsl := fun n p => n.nodeType == .switch && p.index ≤ 2

/-- The second host of the group is not marked. -/
theorem routedLast_loses_host : ¬(leafCube {0} {0}).RoutedLast := by
  intro h
  have hin : (leafCube {0} {0}).inRouteLast (leafHost 3 0 {0}) = true := by decide
  have hmem : leafHost 3 0 {0} ∈ (leafCube {0} {0}).topop.nodes :=
    List.mem_cons_of_mem _ (List.mem_cons_of_mem _ (List.mem_cons_of_mem _ List.mem_cons_self))
  exact absurd ((h.marks _ hmem rfl).mpr hin) (by decide)

theorem leafCube_nodes {dg dg' : Finset Nat} {n : Node}
    (hn : n ∈ (leafCube dg dg').topop.nodes) (hca : n.nodeType = .ca) :
    n = leafHost 2 0 dg ∨ n = leafHost 3 0 dg' := by
  change n ∈ [coreSwitch, leafSwitch, leafHost 2 0 dg, leafHost 3 0 dg'] at hn
  simp only [List.mem_cons, List.not_mem_nil, or_false] at hn
  rcases hn with rfl | rfl | rfl | rfl
  · cases hca
  · cases hca
  · exact Or.inl rfl
  · exact Or.inr rfl

theorem routedLast_one_host : (leafCube ∅ {0}).RoutedLast := by
  apply (HypercubeState.routedLast_iff (leaf_wired ∅ {0})).mpr
  intro n hn n' hn' hca hca' hin hin'
  rcases leafCube_nodes hn hca with rfl | rfl
  · exact absurd hin (by decide)
  · rcases leafCube_nodes hn' hca' with rfl | rfl
    · exact absurd hin' (by decide)
    · rfl

end OpaFm.Routing
