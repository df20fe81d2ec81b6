import OpaFm.Routing.Proofs.BalancePorts
import OpaFm.Routing.Proofs.CostMatrix
import OpaFm.Routing.Proofs.SelectPorts
import OpaFm.Routing.SelectPorts

/-!
# Routes arrive

Every switch picks ports on its own, out of the mask for the destination's
switch.  Each port of the mask that can be used leads strictly nearer, so routes
arrive as long as there is one; and there is one exactly where some chain of links
costs no more than `Cost_Infinity`.  Discovery fails for switches that are too many hops
away for a chain to cost more.
-/

namespace OpaFm.Routing

open OpaFm.Fabric OpaFm.Lib

/-- A port with LIDs, and the switch it is at: an end port behind that switch, or
port 0 of the switch. -/
structure Destination (F : SwitchFabric) where
  nodep : Node
  orig : ValidPort
  switch : Node
  portno : Nat
  node_mem : nodep ∈ F.topop.nodes
  switch_mem : switch ∈ F.topop.switches
  lmc_lt : orig.data.lmc < 8
  nodeno_eq : orig.port.nodeno = some switch.index
  portno_eq : orig.port.portno = some portno
  portno_le : portno ≤ switch.numPorts
  own : nodep.nodeType = .switch → nodep = switch

namespace SwitchFabric

variable (F : SwitchFabric)

def place {n : Node} (hn : n ∈ F.topop.switches) : Fin F.topop.maxSws :=
  ⟨n.swIdx, F.swIdx_lt n hn⟩

def Chain : Fin F.topop.maxSws → Fin F.topop.maxSws → Nat → Prop :=
  Floyd.Walk F.Linked F.linkCost

def Near : Prop :=
  ∀ s (hs : s ∈ F.topop.switches) t (ht : t ∈ F.topop.switches), s ≠ t →
    ∃ a ≤ costInfinity, F.Chain (F.place hs) (F.place ht) a

def Hop (s t : Node) : Prop :=
  ∃ p ∈ physicalPorts s, smValidPort p = true ∧ neighborSwitch F.topop p = some t

def Hops : Nat → Node → Node → Prop
  | 0, s, t => s = t
  | k + 1, s, t => ∃ m ∈ F.topop.switches, F.Hop s m ∧ Hops k m t

def xft (qsort : Qsort SwitchportToNextGuid) (d : Destination F) (doSpineCheck : Bool)
    (load : RouteLoad) (s : Node) : Option XftResult :=
  smRoutingFuncSetupXft qsort F.topop F.floyds.path doSpineCheck load s d.nodep d.orig

variable {F}

theorem smFindNode_index {n : Node} (hn : n ∈ F.topop.nodes) :
    smFindNode F.topop (some n.index) = some n :=
  (find?_key_iff F.distinct).mpr ⟨hn, rfl⟩

theorem switch_mem_nodes {n : Node} (hn : n ∈ F.topop.switches) : n ∈ F.topop.nodes :=
  (List.mem_filter.mp hn).1

theorem Leads.of_switch {n : Node} (hn : n ∈ F.topop.switches) {p k : Nat}
    (h : F.Leads n.swIdx p k) :
    ∃ n' ∈ F.topop.switches, n'.swIdx = k ∧ 1 ≤ p ∧ p ≤ n.numPorts ∧
      smValidPort (n.port p) = true ∧ neighborSwitch F.topop (n.port p) = some n' := by
  obtain ⟨n₁, hn₁, hi, n', hn', hk, h1, hle, hvalid, hto⟩ := h
  obtain rfl := switch_ext hn₁ hn hi
  exact ⟨n', hn', hk, h1, hle, hvalid, hto⟩

theorem maskedPort_eq {n n' : Node} {p : Nat} (hle : p ≤ n.numPorts)
    (hvalid : smValidPort (n.port p) = true)
    (hto : neighborSwitch F.topop (n.port p) = some n') :
    maskedPort F.topop n p =
      if n'.swIdx = n.swIdx then none
      else (n.port p).portData.map fun d => (n.port p, d, n') := by
  obtain ⟨d, hd⟩ := Option.isSome_iff_exists.mp hvalid
  unfold neighborSwitch at hto
  split at hto
  · rename_i hup
    obtain ⟨hfind, -⟩ := Option.filter_eq_some_iff.mp hto
    by_cases hsame : n'.swIdx = n.swIdx <;>
      simp [maskedPort, smGetPort, hle, hd, hup, hfind, hsame]
  · cases hto

variable (F) in
def StepPort (s : Node) (j p : Nat) : Prop :=
  1 ≤ p ∧ p ≤ maxStlPorts ∧ ∃ s' ∈ F.topop.switches,
    neighborSwitch F.topop (s.port p) = some s' ∧
      s'.swIdx ∈ F.Steps s.swIdx (F.floyds.path s.swIdx j)

/-! ## Selected ports -/

section Select

variable {s : Node} (hs : s ∈ F.topop.switches)

include hs

theorem fromMask_spec {j : Nat} {e : SwitchportToNextGuid}
    (he : FromMask F.topop s (F.floyds.path s.swIdx j) e) :
    e.guid ≠ 0 ∧ F.StepPort s j e.portp.index := by
  obtain ⟨hguid, p, hp, d, hport⟩ := he
  obtain ⟨m, hlead⟩ := pathsLead_floyds _ _ p hp
  obtain ⟨n', hn', hm, h1, hle, hvalid, hto⟩ := hlead.of_switch hs
  rw [maskedPort_eq hle hvalid hto] at hport
  split at hport
  · cases hport
  · rename_i hother
    obtain ⟨d', -, hport⟩ := Option.map_eq_some_iff.mp hport
    obtain ⟨hportp, -, hnext⟩ : s.port p = e.portp ∧ d' = d ∧ n' = e.nextSwp := by
      simpa using hport
    have hindex : e.portp.index = p := by rw [← hportp, F.port_index s hs p]
    have hbound := F.numPorts_le s hs
    refine ⟨?_, ?_⟩
    · rw [hguid, ← hnext]
      exact F.nodeGuid_ne n' hn'
    · rw [StepPort, hindex]
      exact ⟨h1, by omega, n', hn', hto, hother, p, hp, hm ▸ hlead⟩

theorem selectPorts_eq_nil_iff (load : RouteLoad) (doSpineCheck selectBest : Bool) (j : Nat) :
    smRoutingFuncSelectPorts F.topop F.floyds.path load doSpineCheck s j selectBest = [] ↔
      F.Steps s.swIdx (F.floyds.path s.swIdx j) = ∅ := by
  obtain ⟨hentries, hne⟩ :=
    smRoutingFuncSelectPorts_spec F.topop load doSpineCheck selectBest s F.floyds.path j
  constructor
  · intro hnil
    rw [Set.eq_empty_iff_forall_notMem]
    rintro m ⟨hm, p, hp, hlead⟩
    obtain ⟨n', hn', rfl, h1, hle, hvalid, hto⟩ := hlead.of_switch hs
    have hbound := F.numPorts_le s hs
    refine hne ⟨p, hp, h1, by omega, ?_⟩ hnil
    rw [maskedPort_eq hle hvalid hto, if_neg hm]
    obtain ⟨d, hd⟩ := Option.isSome_iff_exists.mp hvalid
    simp [hd]
  · intro hempty
    by_contra hsome
    obtain ⟨e, he⟩ := List.exists_mem_of_ne_nil _ hsome
    obtain ⟨-, -, -, s', -, -, hstep⟩ := fromMask_spec hs (hentries e he)
    rw [hempty] at hstep
    exact hstep

end Select

end SwitchFabric

/-! ## Forwarding entries -/

theorem mem_of_unmarked_perm {ports ports' : List SwitchportToNextGuid}
    (hperm : (ports'.map SwitchportToNextGuid.unmarked).Perm
      (ports.map SwitchportToNextGuid.unmarked)) {e : SwitchportToNextGuid} (he : e ∈ ports') :
    ∃ e' ∈ ports, e.portp = e'.portp := by
  have hmem := hperm.mem_iff.mp (List.mem_map_of_mem he)
  obtain ⟨e', he', heq⟩ := List.mem_map.mp hmem
  have hportp : e'.unmarked.portp = e.unmarked.portp := by rw [heq]
  exact ⟨e', he', hportp.symm⟩

theorem spreadLids_spec (load : RouteLoad) (switchp : Node) (numLids inc : Nat)
    {ports : List SwitchportToNextGuid} (hne : ports ≠ []) (hpos : 0 < numLids) :
    (spreadLids load switchp numLids inc ports).status = .ok ∧
      (spreadLids load switchp numLids inc ports).portnos.length = numLids ∧
      ∀ p ∈ (spreadLids load switchp numLids inc ports).portnos,
        ∃ e ∈ ports, e.portp.index = p := by
  have hlen : 0 < (ports.take numLids).length := by
    rw [List.length_take]
    have := List.length_pos_iff.mpr hne
    omega
  have hget : ∀ i, ∃ e, (ports.take numLids)[i % (ports.take numLids).length]? = some e :=
    fun i => ⟨_, List.getElem?_eq_getElem (Nat.mod_lt i hlen)⟩
  refine ⟨rfl, ?_, ?_⟩
  · unfold spreadLids
    rw [List.length_map]
    generalize smBalanceBaseLids load switchp (ports.take numLids) = offset
    calc ((List.range numLids).filterMap fun i =>
          (ports.take numLids)[(i + offset) % (ports.take numLids).length]?).length
        = (List.range numLids).length := by
          rw [List.length_filterMap_eq_countP, List.countP_eq_length]
          intro i _
          obtain ⟨e, he⟩ := hget (i + offset)
          rw [he]
          rfl
      _ = numLids := List.length_range
  · intro p hp
    obtain ⟨e, he, rfl⟩ := List.mem_map.mp hp
    obtain ⟨i, -, hi⟩ := List.mem_filterMap.mp he
    exact ⟨e, List.mem_of_mem_take (List.mem_of_getElem? hi), rfl⟩

namespace SwitchFabric

variable {F : SwitchFabric} (qsort : Qsort SwitchportToNextGuid) (d : Destination F)

theorem destinationSwitch_eq :
    destinationSwitch F.topop d.nodep d.orig.port = some d.switch.swIdx := by
  unfold destinationSwitch
  split
  · rename_i htype
    rw [d.own htype]
  · rw [d.nodeno_eq, smFindNode_index (switch_mem_nodes d.switch_mem)]
    rfl

theorem numLids_eq : 2 ^ d.orig.data.lmc % 256 = 2 ^ d.orig.data.lmc := by
  have h := d.lmc_lt
  exact Nat.mod_eq_of_lt (Nat.pow_lt_pow_right (by decide) h)

theorem xft_at (doSpineCheck : Bool) (load : RouteLoad) :
    F.xft qsort d doSpineCheck load d.switch =
      some ⟨.ok, List.replicate (2 ^ d.orig.data.lmc) d.portno, load⟩ := by
  unfold xft smRoutingFuncSetupXft
  simp only [destinationSwitch_eq, numLids_eq, d.portno_eq, if_true, Option.getD_some]

theorem xft_step {s : Node} (hs : s ∈ F.topop.switches) (hne : s.swIdx ≠ d.switch.swIdx)
    (hstep : (F.Steps s.swIdx (F.floyds.path s.swIdx d.switch.swIdx)).Nonempty)
    (doSpineCheck : Bool) (load : RouteLoad) :
    ∃ r, F.xft qsort d doSpineCheck load s = some r ∧ r.status = .ok ∧
      r.portnos.length = 2 ^ d.orig.data.lmc ∧
      ∀ p ∈ r.portnos, F.StepPort s d.switch.swIdx p := by
  have hselect : ∀ selectBest, ∃ e l, smRoutingFuncSelectPorts F.topop F.floyds.path load
      doSpineCheck s d.switch.swIdx selectBest = e :: l := by
    intro selectBest
    apply List.exists_cons_of_ne_nil
    rw [ne_eq, selectPorts_eq_nil_iff hs]
    exact hstep.ne_empty
  have hmask := fun selectBest =>
    (smRoutingFuncSelectPorts_spec F.topop load doSpineCheck selectBest s F.floyds.path
      d.switch.swIdx).1
  unfold xft smRoutingFuncSetupXft
  simp only [destinationSwitch_eq, numLids_eq, Ne.symm hne, if_false]
  by_cases hlmc : d.orig.data.lmc = 0
  · obtain ⟨e, l, hsel⟩ := hselect true
    have he := fromMask_spec hs (hmask true e (by rw [hsel]; exact .head _))
    simp only [hlmc, if_true, hsel]
    exact ⟨_, rfl, rfl, rfl, by simpa using he.2⟩
  · obtain ⟨e, l, hsel⟩ := hselect false
    have hfrom : ∀ e' ∈ e :: l, e'.guid ≠ 0 ∧ F.StepPort s d.switch.swIdx e'.portp.index :=
      fun e' he' => fromMask_spec hs (hmask false e' (by rw [hsel]; exact he'))
    have hfew : (e :: l).length ≤ 0x10000 := by
      rw [← hsel]
      exact (selectPorts_length_le F.topop F.floyds.path doSpineCheck s (F.port_index s hs) load _
        false).trans (by decide)
    obtain ⟨ports, hbalance, hperm⟩ :=
      balancePorts_spec qsort load s hfew fun e' he' => (hfrom e' he').1
    have hports : ports ≠ [] := by
      rintro rfl
      have hlen := hperm.length_eq
      simp at hlen
    obtain ⟨hok, hlen, hchosen⟩ := spreadLids_spec load s (2 ^ d.orig.data.lmc)
      (if d.nodep.nodeType = .switch then 0 else 1) hports (Nat.two_pow_pos _)
    simp only [hlmc, if_false, hsel, hbalance, Option.map_some]
    refine ⟨_, rfl, hok, hlen, fun p hp => ?_⟩
    obtain ⟨e', he', rfl⟩ := hchosen p hp
    obtain ⟨e₀, he₀, hportp⟩ := mem_of_unmarked_perm hperm he'
    rw [hportp]
    exact (hfrom e₀ he₀).2

/-! ## Routes -/

theorem swIdx_ne {s t : Node} (hs : s ∈ F.topop.switches) (ht : t ∈ F.topop.switches)
    (hne : s ≠ t) : s.swIdx ≠ t.swIdx :=
  fun h => hne (switch_ext hs ht h)

theorem place_ne {s t : Node} (hs : s ∈ F.topop.switches) (ht : t ∈ F.topop.switches)
    (hne : s ≠ t) : F.place hs ≠ F.place ht :=
  fun h => swIdx_ne hs ht hne (congrArg Fin.val h)

theorem steps_nonempty_iff {s t : Node} (hs : s ∈ F.topop.switches) (ht : t ∈ F.topop.switches)
    (hne : s ≠ t) :
    (F.Steps s.swIdx (F.floyds.path s.swIdx t.swIdx)).Nonempty ↔
      ∃ a ≤ costInfinity, F.Chain (F.place hs) (F.place ht) a := by
  have hiff := Floyd.Inv.next_nonempty_iff (relaxed_floyds (F := F))
    (fun _ _ h => linkCost_pos h) (place_ne hs ht hne)
  refine Iff.trans ⟨?_, ?_⟩ hiff
  · rintro ⟨m, hm⟩
    obtain ⟨-, p, -, hlead⟩ := id hm
    exact ⟨⟨m, hlead.lt.2⟩, hm⟩
  · rintro ⟨m, hm⟩
    exact ⟨m.val, hm⟩

variable (F)

def Forwards (s s' : Node) : Prop :=
  ∃ doSpineCheck load r, F.xft qsort d doSpineCheck load s = some r ∧
    ∃ p ∈ r.portnos, neighborSwitch F.topop (s.port p) = some s'

def costTo (s : Node) : Nat := F.floyds.cost s.swIdx d.switch.swIdx

/-- Routing to a destination is complete and free of loops, with any counters and
any spine-first setting at each switch. -/
structure Routes : Prop where
  filled : ∀ s ∈ F.topop.switches, ∀ doSpineCheck load, ∃ r,
    F.xft qsort d doSpineCheck load s = some r ∧ r.status = .ok ∧
      r.portnos.length = 2 ^ d.orig.data.lmc ∧ ∀ p ∈ r.portnos, p ≠ 0xff
  forwarded : ∀ s ∈ F.topop.switches, s ≠ d.switch → ∀ doSpineCheck load r,
    F.xft qsort d doSpineCheck load s = some r → ∀ p ∈ r.portnos, ∃ s' ∈ F.topop.switches,
      neighborSwitch F.topop (s.port p) = some s' ∧ F.costTo d s' < F.costTo d s
  arrives : ∀ route : Nat → Node, (∀ n, route n ∈ F.topop.switches) →
    (∀ n, route n ≠ d.switch → F.Forwards qsort d (route n) (route (n + 1))) →
      ∃ n ≤ F.costTo d (route 0), route n = d.switch
  delivered : ∀ doSpineCheck load r, F.xft qsort d doSpineCheck load d.switch = some r →
    ∀ p ∈ r.portnos, p = d.portno

variable {F}

theorem StepPort.costTo_lt {s : Node} (hs : s ∈ F.topop.switches) (hne : s ≠ d.switch) {p : Nat}
    (hp : F.StepPort s d.switch.swIdx p) :
    ∃ s' ∈ F.topop.switches, neighborSwitch F.topop (s.port p) = some s' ∧
      s'.swIdx ∈ F.Steps s.swIdx (F.floyds.path s.swIdx d.switch.swIdx) ∧
      F.costTo d s' < F.costTo d s := by
  obtain ⟨-, -, s', hs', hto, hstep⟩ := hp
  have hlt := Floyd.Inv.cost_lt (relaxed_floyds (F := F)) (fun _ _ h => linkCost_pos h)
    (place_ne hs d.switch_mem hne) (m := F.place hs') hstep
  exact ⟨s', hs', hto, hstep, hlt⟩

end SwitchFabric

open SwitchFabric in
theorem routes_of_near (F : SwitchFabric) (hnear : F.Near) (qsort : Qsort SwitchportToNextGuid)
    (d : Destination F) : F.Routes qsort d := by
  have hsteps : ∀ s ∈ F.topop.switches, s ≠ d.switch →
      (F.Steps s.swIdx (F.floyds.path s.swIdx d.switch.swIdx)).Nonempty := fun s hs hne =>
    (steps_nonempty_iff hs d.switch_mem hne).mpr (hnear s hs d.switch d.switch_mem hne)
  have hentry : ∀ s ∈ F.topop.switches, s ≠ d.switch → ∀ doSpineCheck load, ∃ r,
      F.xft qsort d doSpineCheck load s = some r ∧ r.status = .ok ∧
        r.portnos.length = 2 ^ d.orig.data.lmc ∧
        ∀ p ∈ r.portnos, F.StepPort s d.switch.swIdx p := fun s hs hne doSpineCheck load =>
    xft_step qsort d hs (swIdx_ne hs d.switch_mem hne) (hsteps s hs hne) doSpineCheck load
  have hforward : ∀ s ∈ F.topop.switches, s ≠ d.switch → ∀ doSpineCheck load r,
      F.xft qsort d doSpineCheck load s = some r →
      ∀ p ∈ r.portnos, F.StepPort s d.switch.swIdx p := by
    intro s hs hne doSpineCheck load r hr
    obtain ⟨r', hr', -, -, hports⟩ := hentry s hs hne doSpineCheck load
    obtain rfl := Option.some.inj (hr.symm.trans hr')
    exact hports
  refine ⟨?_, ?_, ?_, ?_⟩
  · intro s hs doSpineCheck load
    by_cases hat : s = d.switch
    · subst hat
      refine ⟨_, xft_at qsort d doSpineCheck load, rfl, List.length_replicate, fun p hp => ?_⟩
      have hle := d.portno_le
      have hbound := F.numPorts_le d.switch d.switch_mem
      rw [(List.mem_replicate.mp hp).2]
      simp only [maxStlPorts] at hbound
      omega
    · obtain ⟨r, hr, hok, hlen, hports⟩ := hentry s hs hat doSpineCheck load
      refine ⟨r, hr, hok, hlen, fun p hp => ?_⟩
      have hbound := (hports p hp).2.1
      simp only [maxStlPorts] at hbound
      omega
  · intro s hs hne doSpineCheck load r hr p hp
    obtain ⟨s', hs', hto, -, hlt⟩ :=
      StepPort.costTo_lt d hs hne (hforward s hs hne doSpineCheck load r hr p hp)
    exact ⟨s', hs', hto, hlt⟩
  · intro route hroute hhops
    obtain ⟨n, hn, harrived⟩ := Floyd.Inv.arrives (relaxed_floyds (F := F))
      (fun _ _ h => linkCost_pos h) (j := F.place d.switch_mem)
      (fun n => F.place (hroute n)) fun n hn => by
        have hne : route n ≠ d.switch := by
          intro heq
          exact hn (Fin.ext (congrArg Node.swIdx heq))
        obtain ⟨doSpineCheck, load, r, hr, p, hp, hto⟩ := hhops n hne
        obtain ⟨s', -, hto', hstep, -⟩ := StepPort.costTo_lt d (hroute n) hne
          (hforward _ (hroute n) hne doSpineCheck load r hr p hp)
        obtain rfl := Option.some.inj (hto.symm.trans hto')
        exact hstep
    exact ⟨n, hn, switch_ext (hroute n) d.switch_mem (congrArg Fin.val harrived)⟩
  · intro doSpineCheck load r hr p hp
    rw [xft_at] at hr
    obtain rfl := Option.some.inj hr
    exact (List.mem_replicate.mp hp).2

/-! ## The hop limit -/

/-- Discovery gives up a fabric with a switch that is further away from the SM. -/
def maxHops : Nat := 60

/-- A fabric that discovery has gone through, from the switch that the SM is at.  The switches
are connected, as discovery finds no others. -/
structure DiscoveredFabric extends SwitchFabric where
  smSwitch : Node
  smSwitch_mem : smSwitch ∈ topop.switches
  discovered : ∀ s ∈ topop.switches, ∃ k ≤ maxHops, toSwitchFabric.Hops k smSwitch s

namespace SwitchFabric

variable {F : SwitchFabric} {s t m : Node}

theorem Hop.symm (hs : s ∈ F.topop.switches) (h : F.Hop s t) : F.Hop t s := by
  obtain ⟨p, hp, hvalid, hto⟩ := h
  obtain ⟨q, hq, -, hvalid', hback⟩ := F.linked s hs p hp hvalid t hto
  exact ⟨q, hq, hvalid', hback⟩

theorem Hops.snoc {k : Nat} (h : F.Hops k s m) (ht : t ∈ F.topop.switches) (hlast : F.Hop m t) :
    F.Hops (k + 1) s t := by
  induction k generalizing s with
  | zero =>
    cases h
    exact ⟨t, ht, hlast, rfl⟩
  | succ k ih =>
    obtain ⟨n, hn, hfirst, hrest⟩ := h
    exact ⟨n, hn, hfirst, ih hrest⟩

theorem Hops.append {k l : Nat} (h : F.Hops k s m) (h' : F.Hops l m t) : F.Hops (k + l) s t := by
  induction k generalizing s with
  | zero =>
    cases h
    rwa [Nat.zero_add]
  | succ k ih =>
    obtain ⟨n, hn, hfirst, hrest⟩ := h
    rw [Nat.add_right_comm]
    exact ⟨n, hn, hfirst, ih hrest⟩

theorem Hops.symm {k : Nat} (hs : s ∈ F.topop.switches) (h : F.Hops k s t) : F.Hops k t s := by
  induction k generalizing s with
  | zero => exact Eq.symm h
  | succ k ih =>
    obtain ⟨n, hn, hfirst, hrest⟩ := h
    exact (ih hn hrest).snoc hs (hfirst.symm hs)

theorem Hop.linked (hs : s ∈ F.topop.switches) (ht : t ∈ F.topop.switches) (hne : s ≠ t)
    (h : F.Hop s t) : F.Linked (F.place hs) (F.place ht) := by
  obtain ⟨p, hp, hvalid, hto⟩ := h
  obtain ⟨i, h1, hle, rfl⟩ := mem_physicalPorts.mp hp
  exact ⟨place_ne hs ht hne, i, s, hs, rfl, t, ht, rfl, h1, hle, hvalid, hto⟩

theorem linkCost_le {i j : Fin F.topop.maxSws} (h : F.Linked i j) : F.linkCost i j ≤ 100 := by
  have hne := Fin.val_ne_of_ne h.1
  obtain ⟨-, p, hlead⟩ := h
  have hfinite := initial_cost_of_leads hne hlead
  rcases initial_cost (F := F) hne with hinf | ⟨-, d, -, hcost⟩
  · omega
  · exact hcost.trans_le (smGetCost_le d)

theorem Hops.chain {k : Nat} (hs : s ∈ F.topop.switches) (ht : t ∈ F.topop.switches) (hne : s ≠ t)
    (h : F.Hops k s t) : ∃ a ≤ 100 * k, F.Chain (F.place hs) (F.place ht) a := by
  induction k generalizing s with
  | zero => exact absurd h hne
  | succ k ih =>
    obtain ⟨m, hm, hfirst, hrest⟩ := h
    by_cases hback : m = t
    · subst hback
      have hlink := hfirst.linked hs hm hne
      have hle := linkCost_le hlink
      exact ⟨_, by omega, .edge hlink⟩
    · obtain ⟨a, ha, hchain⟩ := ih hm hback hrest
      by_cases hloop : s = m
      · subst hloop
        exact ⟨a, by omega, hchain⟩
      · have hlink := hfirst.linked hs hm hloop
        have hle := linkCost_le hlink
        exact ⟨_, by omega, .cons hlink hchain⟩

end SwitchFabric

theorem DiscoveredFabric.near (F : DiscoveredFabric) : F.toSwitchFabric.Near := by
  intro s hs t ht hne
  obtain ⟨k, hk, hfrom⟩ := F.discovered s hs
  obtain ⟨l, hl, hto⟩ := F.discovered t ht
  obtain ⟨a, ha, hchain⟩ := ((hfrom.symm F.smSwitch_mem).append hto).chain hs ht hne
  refine ⟨a, ?_, hchain⟩
  unfold maxHops at hk hl
  unfold costInfinity
  omega

/-- In a discovered fabric every destination is reached. -/
theorem setupXft_routes (F : DiscoveredFabric) (qsort : Qsort SwitchportToNextGuid)
    (d : Destination F.toSwitchFabric) : F.toSwitchFabric.Routes qsort d :=
  routes_of_near F.toSwitchFabric F.near qsort d

/-! Switches in a chain, over the slowest links: each costs 100. -/

def chainData : PortData := { linkSpeed := .s12_5G, linkWidth := .x1 }

def chainPeer (n k i : Nat) : Option (Nat × Nat) :=
  if i = 0 then some (k, 0)
  else if i = 1 ∧ 1 ≤ k then some (k - 1, 2)
  else if i = 2 ∧ k + 1 < n then some (k + 1, 1)
  else none

def chainSwitch (n k : Nat) : Node where
  index := k
  swIdx := k
  numPorts := 2
  port := fun i =>
    { index := i
      state := .active
      nodeno := (chainPeer n k i).map Prod.fst
      portno := (chainPeer n k i).map Prod.snd
      portData := some chainData }

def chainTopology (n : Nat) : Topology where
  nodes := (List.range n).map (chainSwitch n)
  maxSws := n

theorem chain_switches (n : Nat) :
    (chainTopology n).switches = (List.range n).map (chainSwitch n) := by
  unfold Topology.switches chainTopology
  rw [List.filter_eq_self]
  intro s hs
  obtain ⟨k, -, rfl⟩ := List.mem_map.mp hs
  rfl

theorem chain_indices (n : Nat) (f : Node → Nat) (hf : ∀ k, f (chainSwitch n k) = k) :
    ((List.range n).map (chainSwitch n)).map f = List.range n := by
  have hid : f ∘ chainSwitch n = id := funext hf
  rw [List.map_map, hid, List.map_id]

theorem chain_neighbor {n k i : Nat} {s : Node} :
    neighborSwitch (chainTopology n) ((chainSwitch n k).port i) = some s ↔
      ∃ m q, chainPeer n k i = some (m, q) ∧ m < n ∧ s = chainSwitch n m := by
  have hdistinct : ((chainTopology n).nodes.map Node.index).Nodup := by
    rw [chainTopology, chain_indices n Node.index fun _ => rfl]
    exact List.nodup_range
  have hup : ((chainSwitch n k).port i).state.isUp = true := by
    simp [chainSwitch, PortState.isUp, PortState.code]
  unfold neighborSwitch
  rw [if_pos hup, Option.filter_eq_some_iff]
  cases hpeer : chainPeer n k i with
  | none => simp [chainSwitch, hpeer, smFindNode]
  | some mq =>
    obtain ⟨m, q⟩ := mq
    have hnodeno : ((chainSwitch n k).port i).nodeno = some m := by
      simp [chainSwitch, hpeer]
    rw [hnodeno]
    have hfind : smFindNode (chainTopology n) (some m) = some s ↔
        s ∈ (chainTopology n).nodes ∧ s.index = m := find?_key_iff hdistinct
    rw [hfind]
    constructor
    · rintro ⟨⟨hs, hindex⟩, -⟩
      obtain ⟨x, hx, rfl⟩ := List.mem_map.mp hs
      obtain rfl : x = m := hindex
      exact ⟨x, q, rfl, List.mem_range.mp hx, rfl⟩
    · rintro ⟨m', q', heq, hlt, rfl⟩
      obtain ⟨rfl, rfl⟩ : m = m' ∧ q = q' := by simpa using heq
      exact ⟨⟨List.mem_map_of_mem (List.mem_range.mpr hlt), rfl⟩, rfl⟩

def chainFabric (n : Nat) : SwitchFabric where
  topop := chainTopology n
  distinct := by
    rw [chainTopology, chain_indices n Node.index fun _ => rfl]
    exact List.nodup_range
  swIdx_lt := by
    rw [chain_switches]
    intro s hs
    obtain ⟨k, hk, rfl⟩ := List.mem_map.mp hs
    exact List.mem_range.mp hk
  swIdx_inj := by
    rw [chain_switches, chain_indices n Node.swIdx fun _ => rfl]
    exact List.nodup_range
  numPorts_le := by
    rw [chain_switches]
    intro s hs
    obtain ⟨k, -, rfl⟩ := List.mem_map.mp hs
    show 2 ≤ maxStlPorts
    decide
  port_index := by
    rw [chain_switches]
    intro s hs i
    obtain ⟨k, -, rfl⟩ := List.mem_map.mp hs
    rfl
  nodeGuid_ne := by
    rw [chain_switches]
    intro s hs
    obtain ⟨k, -, rfl⟩ := List.mem_map.mp hs
    show 1 ≠ 0
    decide
  linked := by
    rw [chain_switches]
    intro s hs p hp _ s' hto
    obtain ⟨k, hk, rfl⟩ := List.mem_map.mp hs
    obtain ⟨i, h1, hi, rfl⟩ := mem_physicalPorts.mp hp
    obtain ⟨m, q, hpeer, hm, rfl⟩ := chain_neighbor.mp hto
    have hk' := List.mem_range.mp hk
    have hback : chainPeer n m q = some (k, i) ∧ 1 ≤ q ∧ q ≤ 2 := by
      unfold chainPeer at hpeer ⊢
      split_ifs at hpeer <;> grind
    refine ⟨(chainSwitch n m).port q, mem_physicalPorts.mpr ⟨q, hback.2.1, hback.2.2, rfl⟩,
      ?_, rfl, chain_neighbor.mpr ⟨k, i, hback.1, hk', rfl⟩⟩
    simp [chainSwitch, hpeer]

theorem chain_mem {n k : Nat} (hk : k < n) : chainSwitch n k ∈ (chainFabric n).topop.switches := by
  simp only [chainFabric, chain_switches]
  exact List.mem_map_of_mem (List.mem_range.mpr hk)

theorem chain_hops {n k i : Nat} (hlt : i + k < n) :
    (chainFabric n).Hops k (chainSwitch n i) (chainSwitch n (i + k)) := by
  induction k generalizing i with
  | zero => rfl
  | succ k ih =>
    refine ⟨chainSwitch n (i + 1), chain_mem (by omega), ?_, ?_⟩
    · have hpeer : chainPeer n i 2 = some (i + 1, 1) := by
        unfold chainPeer
        rw [if_neg (by decide), if_neg (by simp), if_pos ⟨rfl, by omega⟩]
      exact ⟨(chainSwitch n i).port 2, mem_physicalPorts.mpr ⟨2, by decide, Nat.le_refl 2, rfl⟩,
        rfl, chain_neighbor.mpr ⟨i + 1, 1, hpeer, by omega, rfl⟩⟩
    · rw [← Nat.add_assoc, Nat.add_right_comm]
      exact ih (by omega)

def discoveredChain : DiscoveredFabric where
  toSwitchFabric := chainFabric (maxHops + 1)
  smSwitch := chainSwitch (maxHops + 1) 0
  smSwitch_mem := chain_mem (Nat.succ_pos maxHops)
  discovered := by
    intro s hs
    simp only [chainFabric, chain_switches] at hs
    obtain ⟨k, hk, rfl⟩ := List.mem_map.mp hs
    have hlt := List.mem_range.mp hk
    have hhops := chain_hops (n := maxHops + 1) (i := 0) (k := k) (by omega)
    rw [Nat.zero_add] at hhops
    exact ⟨k, by omega, hhops⟩

def chainEnd (n : Nat) : Destination (chainFabric (n + 1)) where
  nodep := chainSwitch (n + 1) n
  orig := ⟨(chainSwitch (n + 1) n).port 0, chainData, rfl⟩
  switch := chainSwitch (n + 1) n
  portno := 0
  node_mem := List.mem_map_of_mem (List.mem_range.mpr (Nat.lt_succ_self n))
  switch_mem := by
    simp only [chainFabric, chain_switches]
    exact List.mem_map_of_mem (List.mem_range.mpr (Nat.lt_succ_self n))
  lmc_lt := Nat.zero_lt_succ 7
  nodeno_eq := rfl
  portno_eq := rfl
  portno_le := Nat.zero_le _
  own := fun _ => rfl

theorem setupXft_routes_chain :
    (chainFabric (maxHops + 1)).Routes (mergeQsort _) (chainEnd maxHops) :=
  setupXft_routes discoveredChain (mergeQsort _) (chainEnd maxHops)

end OpaFm.Routing
