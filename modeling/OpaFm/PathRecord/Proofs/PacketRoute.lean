import OpaFm.PathRecord.PathRecordSet
import OpaFm.PathRecord.Proofs.PathRecordSet

/-!
# Whether packets can have what a path record promises

The values of a record come from the walk by the LID of the last switch.  Where that walk and the
packets are led through the same links, and both ends of a link allow the same, the packets can have
them.
-/

namespace OpaFm.PathRecord

open OpaFm.Fabric OpaFm.Lib OpaFm.Partition Relation

variable {f : PathFabric} {src dst : PathEnd f} {w : WalkStart} {n m : Node} {lid : Nat}
  {mtu rate : Nat} {d : PortData}

/-! ## Ports -/

theorem PathEnd.port_eq (e : PathEnd f) : e.nodep.port e.port.index = e.port := by
  have hmem := e.port_mem
  rw [endPorts] at hmem
  split_ifs at hmem
  · rw [List.mem_singleton] at hmem
    rw [hmem, f.port_index _ e.node_mem]
  · obtain ⟨j, -, hj⟩ := List.mem_map.mp hmem
    rw [← hj, f.port_index _ e.node_mem]

theorem PathEnd.port_index_of_switch (e : PathEnd f) (h : e.nodep.nodeType = .switch) :
    e.port.index = 0 := by
  have hmem := e.port_mem
  rw [endPorts, if_pos h, List.mem_singleton] at hmem
  rw [hmem, f.port_index _ e.node_mem]

theorem smFindNode_self (e : PathEnd f) :
    smFindNode f.topology (some e.nodep.index) = some e.nodep := by
  rw [smFindNode, Option.bind_some]
  cases hfind : f.topology.nodes.find? fun n => n.index = e.nodep.index with
  | none =>
    have hno := List.find?_eq_none.mp hfind _ e.node_mem
    simp at hno
  | some n =>
    have hindex : decide (n.index = e.nodep.index) = true :=
      List.find?_some (p := fun n : Node => decide (n.index = e.nodep.index)) hfind
    rw [f.index_inj n (List.mem_of_find?_eq_some hfind) _ e.node_mem (of_decide_eq_true hindex)]

/-! ## Rates -/

theorem ordinal_slowest_le (r : Nat) :
    linkrateToOrdinal ibStaticRate2_5G ≤ linkrateToOrdinal r := by
  change 25 ≤ linkrateToOrdinal r
  unfold linkrateToOrdinal
  split <;> decide

theorem Carries.mono {mtu' rate' : Nat} (h : Carries mtu rate d) (hmtu : mtu' ≤ mtu)
    (hrate : linkrateToOrdinal rate' ≤ linkrateToOrdinal rate) : Carries mtu' rate' d := by
  have hle := linkrateGt_eq_false_iff.mp h.2
  exact ⟨hmtu.trans h.1, linkrateGt_eq_false_iff.mpr (hrate.trans hle)⟩

/-! ## Packets with more fuel -/

theorem packetRoute_mono {fuel fuel' : Nat} (hle : fuel ≤ fuel') {i : Option Nat}
    {route : List PortData} (h : packetRoute lid dst fuel n i = some route) :
    packetRoute lid dst fuel' n i = some route := by
  induction fuel generalizing fuel' n i route with
  | zero => cases h
  | succ fuel ih =>
    cases fuel' with
    | zero => omega
    | succ fuel' =>
      rw [packetRoute] at h ⊢
      by_cases hswitch : n.nodeType = .switch
      · rw [if_neg (not_not.mpr hswitch)] at h ⊢
        obtain ⟨p, hp, h⟩ := Option.bind_eq_some_iff.mp h
        rw [hp, Option.bind_some]
        by_cases hzero : p.port.index = 0
        · rw [if_pos hzero] at h ⊢
          exact h
        · rw [if_neg hzero] at h ⊢
          obtain ⟨m, hm, h⟩ := Option.bind_eq_some_iff.mp h
          obtain ⟨rest, hrest, rfl⟩ := Option.map_eq_some_iff.mp h
          rw [hm, Option.bind_some, ih (by omega) hrest, Option.map_some]
      · rw [if_pos hswitch] at h ⊢
        exact h

theorem sentRoute_mono {fuel fuel' : Nat} (hle : fuel ≤ fuel') {route : List PortData}
    (h : sentRoute lid fuel src dst = some route) : sentRoute lid fuel' src dst = some route := by
  unfold sentRoute at h ⊢
  split_ifs at h ⊢
  · exact h
  · exact packetRoute_mono hle h
  · obtain ⟨m, hm, h⟩ := Option.bind_eq_some_iff.mp h
    obtain ⟨rest, hrest, rfl⟩ := Option.map_eq_some_iff.mp h
    rw [hm, Option.bind_some, packetRoute_mono hle hrest, Option.map_some]

theorem Attainable.carries {dlid fuel : Nat} {route : List PortData}
    (h : Attainable src dst dlid mtu rate) (hroute : sentRoute dlid fuel src dst = some route) :
    ∀ d ∈ route, Carries mtu rate d := by
  obtain ⟨fuel', route', hroute', hcarries⟩ := h
  have hmax := sentRoute_mono (Nat.le_max_left fuel fuel') hroute
  rw [sentRoute_mono (Nat.le_max_right fuel fuel') hroute', Option.some.injEq] at hmax
  rw [← hmax]
  exact hcarries

/-! ## Where the walk and the packets agree -/

def LinkSound (f : PathFabric) (port : Port) (d : PortData) : Prop :=
  ∀ m, smFindNode f.topology port.nodeno = some m → ∀ d', farEnd m port.portno = some d' →
    Carries d.maxVlMtu d.rate d'

def LeadsTo (dst : PathEnd f) (p : ValidPort) : Prop :=
  if dst.nodep.nodeType = .switch then p.port.index = 0
  else p.port.index ≠ 0 ∧ p.port.nodeno = some dst.nodep.index ∧
    p.port.portno = some dst.port.index ∧ Carries dst.portData.maxVlMtu dst.portData.rate p.data

/-- Up to the last switch the walk goes from switch to switch by links that the tables name for the
LID as well, and there the table has an entry for the LID that leads to the destination. -/
structure RouteWalked (dst : PathEnd f) (w : WalkStart) (lid : Nat) : Prop where
  entries : ∀ n, ReflTransGen (Leads (w.nextHop f)) w.nextNodep n → n.index ≠ w.lastNodep.index →
    n.nodeType = .switch ∧ egressPort f n lid = w.egress f n
  linked : ∀ n, ReflTransGen (Leads (w.nextHop f)) w.nextNodep n → n.index ≠ w.lastNodep.index →
    ∀ p, w.egress f n = some p → p.port.index ≠ 0 ∧
      smFindNode f.topology p.port.nodeno ≠ none ∧ LinkSound f p.port p.data
  lastSwitch : w.lastNodep.nodeType = .switch
  lastEntry : ∃ p, egressPort f w.lastNodep lid = some p ∧ LeadsTo dst p

theorem Carries.trans (h : Carries mtu rate d) {d' : PortData}
    (h' : Carries d.maxVlMtu d.rate d') : Carries mtu rate d' :=
  h'.mono h.1 (linkrateGt_eq_false_iff.mp h.2)

theorem LinkSound.carries_farEnd {port : Port} (h : LinkSound f port d)
    (hm : smFindNode f.topology port.nodeno = some m) (hcarries : Carries mtu rate d) :
    ∀ d' ∈ d :: (farEnd m port.portno).toList, Carries mtu rate d' := by
  intro d' hmem
  rcases List.mem_cons.mp hmem with rfl | hfar
  · exact hcarries
  · exact hcarries.trans (h m hm d' (Option.mem_toList.mp hfar))

/-! ## The walk -/

theorem hopWalk_le {fuel : Nat} {s s' : HopState} (h : hopWalk f w fuel s = some (some s')) :
    s'.mtu ≤ s.mtu ∧ linkrateToOrdinal s'.rate ≤ linkrateToOrdinal s.rate := by
  induction fuel generalizing s with
  | zero => cases h
  | succ fuel ih =>
    rw [hopWalk] at h
    cases hnext : s.nextNodep with
    | none =>
      rw [hnext] at h
      cases h
      exact ⟨Nat.le_refl _, Nat.le_refl _⟩
    | some n =>
      rw [hnext] at h
      dsimp only at h
      split_ifs at h with hlast
      · cases h
        exact ⟨Nat.le_refl _, Nat.le_refl _⟩
      · cases hport : w.egress f n with
        | none =>
          rw [hport] at h
          cases h
        | some p =>
          rw [hport] at h
          dsimp only at h
          split_ifs at h with hsmall
          · cases h
            exact ⟨Nat.min_le_left _ _, Nat.le_refl _⟩
          · obtain ⟨hmtu, hrate⟩ := ih h
            dsimp only at hmtu hrate
            rw [ordinal_slowerRate] at hrate
            omega

theorem walkStart_last_mem (h : walkStart src dst = some w) :
    w.lastNodep ∈ f.topology.nodes := by
  obtain ⟨⟨next, mtu, rate⟩, -, h⟩ := Option.bind_eq_some_iff.mp h
  dsimp only at h
  split_ifs at h
  · obtain ⟨last, hlast, rfl⟩ := Option.map_eq_some_iff.mp h
    exact mem_of_smFindNode hlast
  · cases h
    exact dst.node_mem
  · cases h
    exact dst.node_mem

theorem reachable_mem (hw : w.nextNodep ∈ f.topology.nodes)
    (h : ReflTransGen (Leads (w.nextHop f)) w.nextNodep n) : n ∈ f.topology.nodes := by
  cases h with
  | refl => exact hw
  | tail _ hlast => exact WalkStart.nextHop_mem hlast

theorem route_of_hopWalk (hwalked : RouteWalked dst w lid)
    (hw : w.nextNodep ∈ f.topology.nodes) (hlastMem : w.lastNodep ∈ f.topology.nodes)
    {fuel : Nat} {s s' : HopState} (h : hopWalk f w fuel s = some (some s'))
    (hs : s.nextNodep = some n) (hreach : ReflTransGen (Leads (w.nextHop f)) w.nextNodep n)
    (hbig : ibMtu2048 ≤ s'.mtu)
    (hend : ∀ i, ∃ k route, packetRoute lid dst k w.lastNodep i = some route ∧
      ∀ d ∈ route, Carries s'.mtu s'.rate d) (i : Option Nat) :
    ∃ k route, packetRoute lid dst k n i = some route ∧
      ∀ d ∈ route, Carries s'.mtu s'.rate d := by
  induction fuel generalizing s n i with
  | zero => cases h
  | succ fuel ih =>
    have hn := reachable_mem hw hreach
    rw [hopWalk, hs] at h
    dsimp only at h
    by_cases hlast : n.index = w.lastNodep.index
    · rw [f.index_inj n hn _ hlastMem hlast]
      exact hend i
    · rw [if_neg hlast] at h
      obtain ⟨hswitch, hentry⟩ := hwalked.entries n hreach hlast
      cases hport : w.egress f n with
      | none =>
        rw [hport] at h
        cases h
      | some p =>
        rw [hport] at h hentry
        dsimp only at h
        by_cases hsmall : min s.mtu p.data.maxVlMtu < ibMtu2048
        · rw [if_pos hsmall] at h
          cases h
          exact absurd hsmall (Nat.not_lt.mpr hbig)
        · rw [if_neg hsmall] at h
          obtain ⟨hnonzero, hlinked, hsound⟩ := hwalked.linked n hreach hlast p hport
          obtain ⟨m, hm⟩ := Option.ne_none_iff_exists'.mp hlinked
          have hleads : Leads (w.nextHop f) n m := by
            have hwide : ¬p.data.maxVlMtu < ibMtu2048 := by omega
            rw [Leads, WalkStart.nextHop, if_neg hlast, hport, Option.bind_some, if_neg hwide,
              hm]
          obtain ⟨k, rest, hrest, hcarries⟩ := ih h hm (hreach.tail hleads) p.port.portno
          obtain ⟨hmtu, hrate⟩ := hopWalk_le h
          have hhere : Carries s'.mtu s'.rate p.data := by
            dsimp only at hmtu hrate
            rw [ordinal_slowerRate] at hrate
            exact ⟨by omega, linkrateGt_eq_false_iff.mpr (by omega)⟩
          have hlink := hsound.carries_farEnd hm hhere
          refine ⟨k + 1, p.data :: (farEnd m p.port.portno).toList ++ rest, ?_, ?_⟩
          · rw [packetRoute, if_neg (not_not.mpr hswitch), hentry, Option.bind_some,
              if_neg hnonzero, hm, Option.bind_some, hrest, Option.map_some]
          · intro d hd
            rcases List.mem_append.mp hd with hd | hd
            · exact hlink d hd
            · exact hcarries d hd

/-! ## The ends of the walk -/

theorem walkStart_last (h : walkStart src dst = some w) (hdst : dst.nodep.nodeType = .switch) :
    w.lastNodep = dst.nodep := by
  obtain ⟨⟨next, mtu, rate⟩, -, h⟩ := Option.bind_eq_some_iff.mp h
  dsimp only at h
  rw [if_neg (not_not.mpr hdst)] at h
  split_ifs at h
  · cases h
    rfl
  · cases h
    rfl

theorem walkStart_carries_dst (h : walkStart src dst = some w)
    (hdst : dst.nodep.nodeType ≠ .switch) : Carries w.mtu w.rate dst.portData := by
  obtain ⟨⟨next, mtu, rate⟩, -, h⟩ := Option.bind_eq_some_iff.mp h
  dsimp only at h
  rw [if_pos hdst] at h
  obtain ⟨last, -, rfl⟩ := Option.map_eq_some_iff.mp h
  have hord := ordinal_slowerRate rate dst.portData.rate
  exact ⟨Nat.min_le_right _ _, linkrateGt_eq_false_iff.mpr (by dsimp only; omega)⟩

theorem walkStart_next (h : walkStart src dst = some w) (hsrc : src.nodep.nodeType = .switch) :
    w.nextNodep = src.nodep := by
  obtain ⟨⟨next, mtu, rate⟩, hsource, h⟩ := Option.bind_eq_some_iff.mp h
  have hnext : next = src.nodep := by
    rw [walkSource, if_neg (not_not.mpr hsrc)] at hsource
    split_ifs at hsource
    · cases hsource
      rfl
    · cases hsource
      rfl
  dsimp only at h
  split_ifs at h
  · obtain ⟨last, -, rfl⟩ := Option.map_eq_some_iff.mp h
    exact hnext
  · cases h
    exact hnext
  · cases h
    exact hnext

def KeepsMtu (src dst : PathEnd f) : Prop :=
  src.nodep.nodeType ≠ .switch → dst.nodep.nodeType = .switch → dst.nodep.enhancedPort0 = false →
    ibMtu2048 ≤ src.portData.maxVlMtu

theorem walkStart_carries_src (h : walkStart src dst = some w) (hkeeps : KeepsMtu src dst)
    (hsrc : src.nodep.nodeType ≠ .switch) :
    smFindNode f.topology src.port.nodeno = some w.nextNodep ∧
      Carries w.mtu w.rate src.portData := by
  obtain ⟨⟨next, mtu, rate⟩, hsource, h⟩ := Option.bind_eq_some_iff.mp h
  rw [walkSource, if_pos hsrc] at hsource
  obtain ⟨next', hnext, heq⟩ := Option.map_eq_some_iff.mp hsource
  cases heq
  have hord := ordinal_slowerRate src.portData.rate dst.portData.rate
  have hmin : Carries (min src.portData.maxVlMtu dst.portData.maxVlMtu)
      (slowerRate src.portData.rate dst.portData.rate) src.portData :=
    ⟨Nat.min_le_left _ _, linkrateGt_eq_false_iff.mpr (by omega)⟩
  dsimp only at h
  by_cases hdst : dst.nodep.nodeType = .switch
  · rw [if_neg (not_not.mpr hdst)] at h
    by_cases henhanced : dst.nodep.enhancedPort0 = true
    · rw [if_pos henhanced] at h
      cases h
      exact ⟨hnext, hmin⟩
    · rw [if_neg henhanced] at h
      cases h
      refine ⟨hnext, hkeeps hsrc hdst (Bool.not_eq_true _ ▸ henhanced), ?_⟩
      exact linkrateGt_eq_false_iff.mpr (ordinal_slowest_le _)
  · rw [if_pos hdst] at h
    obtain ⟨last, -, rfl⟩ := Option.map_eq_some_iff.mp h
    exact ⟨hnext, hmin⟩

theorem packetRoute_arrived (hdst : dst.nodep.nodeType ≠ .switch) :
    packetRoute lid dst 1 dst.nodep (some dst.port.index) = some [] := by
  rw [packetRoute, if_pos hdst, if_pos ⟨rfl, rfl⟩]

theorem farEnd_dst (dst : PathEnd f) :
    farEnd dst.nodep (some dst.port.index) = some dst.portData := by
  rw [farEnd, Option.bind_some, dst.port_eq, dst.valid]

theorem route_of_last (hwalked : RouteWalked dst w lid)
    (hlast : dst.nodep.nodeType = .switch → w.lastNodep = dst.nodep)
    (hcarries : dst.nodep.nodeType ≠ .switch → Carries mtu rate dst.portData) (i : Option Nat) :
    ∃ k route, packetRoute lid dst k w.lastNodep i = some route ∧
      ∀ d ∈ route, Carries mtu rate d := by
  obtain ⟨p, hentry, hleads⟩ := hwalked.lastEntry
  have hswitch := not_not.mpr hwalked.lastSwitch
  by_cases hdst : dst.nodep.nodeType = .switch
  · rw [LeadsTo, if_pos hdst] at hleads
    refine ⟨1, [], ?_, fun _ hd => nomatch hd⟩
    rw [packetRoute, if_neg hswitch, hentry, Option.bind_some, if_pos hleads,
      if_pos ⟨by rw [hlast hdst], dst.port_index_of_switch hdst⟩]
  · rw [LeadsTo, if_neg hdst] at hleads
    obtain ⟨hnonzero, hnode, hport, hlink⟩ := hleads
    refine ⟨2, [p.data, dst.portData], ?_, ?_⟩
    · rw [packetRoute, if_neg hswitch, hentry, Option.bind_some, if_neg hnonzero, hnode,
        smFindNode_self, Option.bind_some, hport, packetRoute_arrived hdst, Option.map_some,
        farEnd_dst]
      rfl
    · simp [(hcarries hdst).trans hlink, hcarries hdst]

/-! ## Attainable values -/

theorem attainable_of_hopStart (hkeeps : KeepsMtu src dst)
    (hsource : src.nodep.nodeType ≠ .switch → LinkSound f src.port src.portData)
    (hstart : hopStart src dst = some w) (hwalked : RouteWalked dst w lid) {fuel : Nat}
    {p : PathParams} (h : pathParams fuel src dst = some (some p)) :
    Attainable src dst lid p.mtu p.rate := by
  rw [pathParams_of_hopStart hstart, Option.map_eq_some_iff] at h
  obtain ⟨r, hwalk, hr⟩ := h
  obtain ⟨hr, hbig⟩ := Option.filter_eq_some_iff.mp hr
  obtain ⟨s, rfl, rfl⟩ := Option.map_eq_some_iff.mp hr
  unfold hopStart at hstart
  split_ifs at hstart with hnear
  rw [not_or] at hnear
  have hlastMem := walkStart_last_mem hstart
  have hnextMem := walkStart_mem hstart
  obtain ⟨hmtu, hrate⟩ := hopWalk_le hwalk
  have hend : ∀ i, ∃ k route, packetRoute lid dst k w.lastNodep i = some route ∧
      ∀ d ∈ route, Carries s.mtu s.rate d :=
    route_of_last hwalked (walkStart_last hstart) fun hdst =>
      (walkStart_carries_dst hstart hdst).mono hmtu hrate
  have hroute := route_of_hopWalk hwalked hnextMem hlastMem hwalk rfl .refl
    (of_decide_eq_true hbig) hend
  by_cases hsrc : src.nodep.nodeType = .switch
  · obtain ⟨k, route, hk, hcarries⟩ := hroute (some src.port.index)
    refine ⟨k, route, ?_, hcarries⟩
    rw [sentRoute, if_neg hnear.1, if_pos hsrc, ← walkStart_next hstart hsrc, hk]
  · obtain ⟨hnext, hfirst⟩ := walkStart_carries_src hstart hkeeps hsrc
    obtain ⟨k, rest, hk, hcarries⟩ := hroute src.port.portno
    refine ⟨k, src.portData :: (farEnd w.nextNodep src.port.portno).toList ++ rest, ?_, ?_⟩
    · rw [sentRoute, if_neg hnear.1, if_neg hsrc, hnext, Option.bind_some, hk, Option.map_some]
    · have hlink := (hsource hsrc).carries_farEnd hnext (hfirst.mono hmtu hrate)
      intro d hd
      rcases List.mem_append.mp hd with hd | hd
      · exact hlink d hd
      · exact hcarries d hd

def NearHosts (src dst : PathEnd f) : Prop :=
  isDirectConnected src dst = true → src.nodep.nodeType ≠ .switch ∧ dst.nodep.nodeType ≠ .switch

theorem attainable_of_near (hnear : NearHosts src dst) (hstart : hopStart src dst = none)
    {fuel : Nat} {p : PathParams} (h : pathParams fuel src dst = some (some p)) (lid : Nat) :
    Attainable src dst lid p.mtu p.rate := by
  obtain ⟨r, hwalk, hr⟩ := Option.map_eq_some_iff.mp h
  obtain ⟨rfl, -⟩ := Option.filter_eq_some_iff.mp hr
  unfold hopStart at hstart
  unfold pathWalk at hwalk
  by_cases hsame : src.addr = dst.addr
  · refine ⟨0, [], ?_, fun _ hd => nomatch hd⟩
    rw [sentRoute, if_pos hsame]
  · rw [if_neg hsame] at hwalk
    by_cases hdirect : isDirectConnected src dst = true
    · rw [if_pos hdirect] at hwalk
      cases hwalk
      obtain ⟨hsrc, hdst⟩ := hnear hdirect
      obtain ⟨hsn, hsp, -⟩ := of_decide_eq_true hdirect
      refine ⟨1, [src.portData, dst.portData], ?_, ?_⟩
      · rw [sentRoute, if_neg hsame, if_neg hsrc, hsn, smFindNode_self, Option.bind_some, hsp,
          packetRoute_arrived hdst, Option.map_some, farEnd_dst]
        rfl
      · have hord := ordinal_slowerRate src.portData.rate dst.portData.rate
        simp only [List.forall_mem_cons, Carries, linkrateGt_eq_false_iff]
        refine ⟨⟨by omega, by omega⟩, ⟨by omega, by omega⟩, fun _ hd => nomatch hd⟩
    · rw [if_neg (not_or.mpr ⟨hsame, hdirect⟩)] at hstart
      rw [if_neg hdirect, hstart] at hwalk
      cases hwalk

/-! ## The bit field of the rate -/

theorem slowerRate_lt {r r' : Nat} (h : r < 64) (h' : r' < 64) : slowerRate r r' < 64 := by
  rcases slowerRate_eq_or r r' with heq | heq
  · rwa [heq]
  · rwa [heq]

theorem rate_lt (d : PortData) : d.rate < 64 := by
  rw [PortData.rate]
  cases d.linkSpeed <;> cases d.linkWidth <;> decide

theorem hopWalk_rate_lt {fuel : Nat} {s s' : HopState} (h : hopWalk f w fuel s = some (some s'))
    (hs : s.rate < 64) : s'.rate < 64 := by
  induction fuel generalizing s with
  | zero => cases h
  | succ fuel ih =>
    rw [hopWalk] at h
    cases hnext : s.nextNodep with
    | none =>
      rw [hnext] at h
      cases h
      exact hs
    | some n =>
      rw [hnext] at h
      dsimp only at h
      split_ifs at h
      · cases h
        exact hs
      · cases hport : w.egress f n with
        | none =>
          rw [hport] at h
          cases h
        | some p =>
          rw [hport] at h
          dsimp only at h
          split_ifs at h
          · cases h
            exact hs
          · exact ih h (slowerRate_lt hs (rate_lt p.data))

theorem walkStart_rate_lt (h : walkStart src dst = some w) : w.rate < 64 := by
  obtain ⟨⟨next, mtu, rate⟩, hsource, h⟩ := Option.bind_eq_some_iff.mp h
  have hrate : rate < 64 := by
    unfold walkSource at hsource
    split_ifs at hsource
    · obtain ⟨next', -, heq⟩ := Option.map_eq_some_iff.mp hsource
      cases heq
      exact rate_lt _
    · cases hsource
      exact rate_lt _
    · cases hsource
      decide
  dsimp only at h
  split_ifs at h
  · obtain ⟨last, -, rfl⟩ := Option.map_eq_some_iff.mp h
    exact slowerRate_lt hrate (rate_lt _)
  · cases h
    exact slowerRate_lt hrate (rate_lt _)
  · cases h
    change ibStaticRate2_5G < 64
    decide

theorem pathParams_rate_lt {fuel : Nat} {p : PathParams}
    (h : pathParams fuel src dst = some (some p)) : p.rate < 64 := by
  obtain ⟨r, hwalk, hr⟩ := Option.map_eq_some_iff.mp h
  obtain ⟨rfl, -⟩ := Option.filter_eq_some_iff.mp hr
  unfold pathWalk at hwalk
  split_ifs at hwalk
  · cases hwalk
    exact rate_lt _
  · cases hwalk
    exact slowerRate_lt (rate_lt _) (rate_lt _)
  · cases hstart : walkStart src dst with
    | none =>
      rw [hstart] at hwalk
      cases hwalk
    | some w =>
      rw [hstart] at hwalk
      obtain ⟨s, hs, hparams⟩ := Option.map_eq_some_iff.mp hwalk
      obtain ⟨s', rfl, rfl⟩ := Option.map_eq_some_iff.mp hparams
      exact hopWalk_rate_lt hs (walkStart_rate_lt hstart)

/-! ## Records -/

variable {env : PathEnv} {q : PathQuery} {dlid : BitVec 16}

structure WalkMatches (env : PathEnv) (q : PathQuery) (src dst : PathEnd f) (lid : Nat) :
    Prop where
  near : NearHosts src dst
  rates : ∀ k ∈ selectedVfs env q src dst, ∀ v, env.vfs.vFabric[k]? = some v → v.maxRateInt < 64
  keepsMtu : KeepsMtu src dst
  source : hopStart src dst ≠ none → src.nodep.nodeType ≠ .switch →
    LinkSound f src.port src.portData
  routes : ∀ w, hopStart src dst = some w → RouteWalked dst w lid

/-- The walk matches for the DLIDs of the first `n` pairs, unless the call finds no path, no virtual
fabric or no pair for a record. -/
def RoutesMatch (env : PathEnv) (q : PathQuery) (n : Nat) (src dst : PathEnd f)
    (dlid : BitVec 16) : Prop :=
  (∃ p, Issues env q src dst p) → selectedVfs env q src dst ≠ ∅ →
    ∀ lids ∈ (pathPairs env.pathSelection src.endPort q.slid.toNat dst.endPort dlid.toNat).take n,
      WalkMatches env q src dst lids.2

theorem WalkMatches.attainable (hmatch : WalkMatches env q src dst lid) {fuel : Nat}
    {p : PathParams} (h : pathParams fuel src dst = some (some p)) :
    Attainable src dst lid p.mtu p.rate := by
  cases hstart : hopStart src dst with
  | none => exact attainable_of_near hmatch.near hstart h lid
  | some w =>
    have hsource := hmatch.source (by rw [hstart]; exact Option.some_ne_none w)
    exact attainable_of_hopStart hmatch.keepsMtu hsource hstart (hmatch.routes w hstart) h

theorem mem_take_of_mem_take_fillsOf {pairs : List (Nat × Nat)} {groups : List VfPath} {n : Nat}
    {x : VfPath × Nat × Nat} (h : x ∈ (fillsOf pairs groups).take n) : x.2 ∈ pairs.take n := by
  cases groups with
  | nil =>
    rw [fillsOf, List.flatMap_nil, List.take_nil] at h
    cases h
  | cons g groups =>
    rw [fillsOf, List.flatMap_cons, List.take_append] at h
    rcases List.mem_append.mp h with hfirst | hlater
    · rw [← List.map_take] at hfirst
      obtain ⟨lids, hlids, rfl⟩ := List.mem_map.mp hfirst
      exact hlids
    · rw [List.length_map] at hlater
      have hlong : pairs.length ≤ n := by
        by_contra hshort
        rw [Nat.sub_eq_zero_of_le (by omega), List.take_zero] at hlater
        cases hlater
      obtain ⟨g', -, hmem⟩ := List.mem_flatMap.mp (List.mem_of_mem_take hlater)
      obtain ⟨lids, hlids, rfl⟩ := List.mem_map.mp hmem
      rw [List.take_of_length_le hlong]
      exact hlids

theorem le_of_mem_groups {p : PathParams} {g : VfPath}
    (hg : g ∈ vfGroups env.vfs p (List.range maxVfabrics) (selectedVfs env q src dst))
    (hrates : ∀ k ∈ selectedVfs env q src dst, ∀ v, env.vfs.vFabric[k]? = some v →
      v.maxRateInt < 64) (hp : p.rate < 64) :
    g.vfMtu ≤ p.mtu ∧ linkrateGt g.vfRate p.rate = false ∧ g.vfRate < 64 := by
  rw [range_eq_range'] at hg
  obtain ⟨k, hin, hk, v, hv, hkey⟩ := exists_of_mem_vfGroups (Nat.zero_add _) hg
  obtain ⟨g', hg', hkey', hmerged⟩ := exists_group (p := p) (Nat.zero_add _) hin hk hv
  have hsame : g' = g := List.inj_on_of_nodup_map (nodup_key_vfGroups (Nat.zero_add _)) hg' hg
    (hkey'.trans hkey.symm)
  subst hsame
  refine ⟨hmerged.mtu.2 (Set.mem_insert _ _), hmerged.rate_le _ (Set.mem_insert _ _), ?_⟩
  rcases hmerged.rate_mem with heq | ⟨u, ⟨j, -, hj, hu, -⟩, heq⟩
  · rwa [heq]
  · rw [← heq]
    exact hrates j hj u hu

/-- Every record that a call appends is attainable. -/
theorem saPathRecordSet_attainable {fuel numPath : Nat} {records added : List IbPathRecord}
    {status : PathStatus}
    (hmatch : RoutesMatch env q (room env numPath records.length) src dst dlid)
    (h : saPathRecordSet env q fuel records numPath src dst dlid =
      some (status, records ++ added)) :
    ∀ r ∈ added, Attainable src dst r.dlid r.mtu r.rate := by
  intro r hr
  by_cases hissues : ∃ p, Issues env q src dst p
  · obtain ⟨p, hp⟩ := hissues
    obtain ⟨-, hadded⟩ := Prod.mk.inj (saPathRecordSet_of_issues hp h)
    rw [List.append_cancel_left hadded] at hr
    rw [← List.map_take] at hr
    obtain ⟨⟨g, lids⟩, htake, rfl⟩ := List.mem_map.mp hr
    obtain ⟨g', hg, hmem⟩ := List.mem_flatMap.mp (List.mem_of_mem_take htake)
    obtain ⟨lids', -, heq⟩ := List.mem_map.mp hmem
    cases heq
    have hselected : selectedVfs env q src dst ≠ ∅ := by
      intro hempty
      rw [hempty, vfGroups_empty] at hg
      cases hg
    have hwalk := hmatch ⟨p, hp⟩ hselected lids (mem_take_of_mem_take_fillsOf htake)
    obtain ⟨fuel', hpath⟩ := hp.path
    obtain ⟨k, route, hroute, hcarries⟩ := hwalk.attainable hpath
    obtain ⟨hmtu, hrate, hlt⟩ := le_of_mem_groups hg hwalk.rates (pathParams_rate_lt hpath)
    refine ⟨k, route, hroute, fun d hd => (hcarries d hd).mono ?_ ?_⟩
    · exact (Nat.mod_le _ _).trans hmtu
    · change linkrateToOrdinal (g.vfRate % 64) ≤ _
      rw [Nat.mod_eq_of_lt hlt]
      exact linkrateGt_eq_false_iff.mp hrate
  · have hnone := saPathRecordSet_of_not_issues (not_exists.mp hissues) h
    have hempty : added = [] := List.append_cancel_left (hnone.trans (List.append_nil _).symm)
    rw [hempty] at hr
    cases hr

/-! ## Two links between two switches -/

def twinPort (lid mtu : Nat) : PortData :=
  { lid := lid, maxVlMtu := mtu, vfMember := {0}, fullPKeyMember := {0} }

def twinHost (i far lid : Nat) : Node :=
  { index := i
    nodeType := .ca
    numPorts := 1
    port := fun j =>
      { index := j
        state := .active
        nodeno := some far
        portno := some 1
        portData := some (twinPort lid stlMtu8192) } }

def twinSwitch (i host far lid : Nat) : Node :=
  { index := i
    numPorts := 3
    enhancedPort0 := true
    port := fun j =>
      { index := j
        state := .active
        nodeno := if j = 0 then none else some (if j = 1 then host else far)
        portno := if j = 0 then none else some j
        portData := some (twinPort (if j = 0 then lid else 0)
          (if j = 3 then ibMtu2048 else stlMtu8192)) } }

def twinLeft : Node := twinSwitch 2 0 3 3

def twinRight : Node := twinSwitch 3 1 2 4

def twinNodes : List Node := [twinHost 0 2 1, twinHost 1 3 2, twinLeft, twinRight]

theorem twinNodes_index_inj :
    ∀ n ∈ twinNodes, ∀ m ∈ twinNodes, n.index = m.index → n = m := by
  simp [twinNodes, twinLeft, twinRight, twinSwitch, twinHost]

theorem twinNodes_port_index : ∀ n ∈ twinNodes, ∀ i, (n.port i).index = i := by
  simp [twinNodes, twinLeft, twinRight, twinSwitch, twinHost]

theorem twinNodes_lids : ∀ n ∈ twinNodes, ∀ p ∈ endPorts n, ∀ d, p.portData = some d →
    d.lmc ≤ 7 ∧ 2 ^ d.lmc ∣ d.lid ∧ d.lid + 2 ^ d.lmc ≤ 0xC000 := by
  simp [twinNodes, twinLeft, twinRight, twinSwitch, twinHost, endPorts, physicalPorts, twinPort]

/-- The entries for the second host and for the second switch; `egress` is the port by which the
first switch sends packets to the second host. -/
def twinTable (egress i lid : Nat) : Nat :=
  if i = 2 then if lid = 2 then egress else if lid = 4 then 2 else 255
  else if lid = 2 then 1 else if lid = 4 then 0 else 255

def twinFabric (egress : Nat) : PathFabric where
  topology := ⟨twinNodes, 4⟩
  tables := fun i => ⟨if i < 2 then none else some (twinTable egress i), 4⟩
  pPKey := fun _ _ => PKeyTable.empty.write 0 stlDefaultAppPkey
  gid := fun _ _ => 0
  gidPrefix := fun _ _ => 0
  index_inj := twinNodes_index_inj
  port_index := twinNodes_port_index
  lids := twinNodes_lids

theorem twinSource_mem : twinHost 0 2 1 ∈ twinNodes := List.mem_cons_self

theorem twinDestination_mem : twinHost 1 3 2 ∈ twinNodes := by simp [twinNodes]

theorem twinHost_port_mem (i far lid : Nat) :
    (twinHost i far lid).port 1 ∈ endPorts (twinHost i far lid) := List.mem_cons_self

def twinSource (egress : Nat) : PathEnd (twinFabric egress) where
  nodep := twinHost 0 2 1
  node_mem := twinSource_mem
  port := (twinHost 0 2 1).port 1
  port_mem := twinHost_port_mem 0 2 1
  portData := twinPort 1 stlMtu8192
  valid := rfl

def twinDestination (egress : Nat) : PathEnd (twinFabric egress) where
  nodep := twinHost 1 3 2
  node_mem := twinDestination_mem
  port := (twinHost 1 3 2).port 1
  port_mem := twinHost_port_mem 1 3 2
  portData := twinPort 2 stlMtu8192
  valid := rfl

def twinQuery : PathQuery := { starQuery with slid := 0xFFFF }

def twinStart : WalkStart := ⟨twinLeft, twinRight, some (twinRight.port 0), stlMtu8192, 16⟩

theorem twin_linkSound : LinkSound (twinFabric 2) (twinLeft.port 2) (twinPort 0 stlMtu8192) := by
  intro m hm d' hd'
  cases hm
  cases hd'
  exact ⟨Nat.le_refl _, rfl⟩

theorem twin_reachable {n : Node}
    (h : ReflTransGen (Leads (twinStart.nextHop (twinFabric 2))) twinLeft n) :
    n = twinLeft ∨ n = twinRight := by
  induction h with
  | refl => exact .inl rfl
  | tail _ hlast ih =>
    rcases ih with rfl | rfl
    · have hnext : twinStart.nextHop (twinFabric 2) twinLeft = some twinRight := rfl
      rw [Leads, hnext, Option.some.injEq] at hlast
      exact .inr hlast.symm
    · have hnext : twinStart.nextHop (twinFabric 2) twinRight = none := rfl
      rw [Leads, hnext] at hlast
      cases hlast

theorem twin_routeWalked : RouteWalked (twinDestination 2) twinStart 2 where
  entries := by
    intro n hn hlast
    rcases twin_reachable hn with rfl | rfl
    · exact ⟨rfl, rfl⟩
    · exact absurd rfl hlast
  linked := by
    intro n hn hlast p hp
    rcases twin_reachable hn with rfl | rfl
    · cases hp
      exact ⟨by decide, Option.some_ne_none _, twin_linkSound⟩
    · exact absurd rfl hlast
  lastSwitch := rfl
  lastEntry := ⟨_, rfl, Nat.one_ne_zero, rfl, rfl, Nat.le_refl _, rfl⟩

theorem twin_walkMatches :
    WalkMatches starEnv twinQuery (twinSource 2) (twinDestination 2) 2 where
  near := fun h => nomatch h
  rates := by decide
  keepsMtu := fun _ h => nomatch h
  source := by
    intro _ _ m hm d' hd'
    cases hm
    cases hd'
    exact ⟨Nat.le_refl _, rfl⟩
  routes := by
    intro w hw
    have hstart : hopStart (twinSource 2) (twinDestination 2) = some twinStart := rfl
    rw [hstart, Option.some.injEq] at hw
    subst hw
    exact twin_routeWalked

theorem twin_routesMatch :
    RoutesMatch starEnv twinQuery 2 (twinSource 2) (twinDestination 2) 0xFFFF := by
  intro _ _ lids hlids
  have hpairs : lids.2 = 2 := by
    revert lids
    decide
  rw [hpairs]
  exact twin_walkMatches

theorem saPathRecordSet_attainable_twin :
    ∃ status added, saPathRecordSet starEnv twinQuery 10 [] 0 (twinSource 2) (twinDestination 2)
        0xFFFF = some (status, [] ++ added) ∧
      ∀ r ∈ added, Attainable (twinSource 2) (twinDestination 2) r.dlid r.mtu r.rate := by
  have hreturns : (saPathRecordSet starEnv twinQuery 10 [] 0 (twinSource 2) (twinDestination 2)
      0xFFFF).isSome = true := by
    decide +kernel
  obtain ⟨⟨status, added⟩, hrun⟩ := Option.isSome_iff_exists.mp hreturns
  have happend : saPathRecordSet starEnv twinQuery 10 [] 0 (twinSource 2) (twinDestination 2)
      0xFFFF = some (status, [] ++ added) := hrun
  exact ⟨status, added, hrun, saPathRecordSet_attainable twin_routesMatch happend⟩

/-- Packets to the second host go over the narrow link, and its record has the MTU of the wide
one. -/
theorem saPathRecordSet_too_wide :
    ∃ r status added, saPathRecordSet starEnv twinQuery 10 [] 0 (twinSource 3) (twinDestination 3)
        0xFFFF = some (status, added) ∧ r ∈ added ∧
      ¬Attainable (twinSource 3) (twinDestination 3) r.dlid r.mtu r.rate := by
  have hrecord : ((saPathRecordSet starEnv twinQuery 10 [] 0 (twinSource 3) (twinDestination 3)
      0xFFFF).bind fun r => r.2.head?.map fun x => (x.dlid, x.mtu)) = some (2, stlMtu8192) := by
    decide +kernel
  obtain ⟨⟨status, added⟩, hrun, hhead⟩ := Option.bind_eq_some_iff.mp hrecord
  obtain ⟨r, hr, hvalues⟩ := Option.map_eq_some_iff.mp hhead
  obtain ⟨hdlid, hmtu⟩ := Prod.mk.inj hvalues
  refine ⟨r, status, added, hrun, List.mem_of_mem_head? hr, ?_⟩
  rw [hdlid, hmtu]
  intro h
  have hroute : sentRoute 2 5 (twinSource 3) (twinDestination 3) =
      some [twinPort 1 stlMtu8192, twinPort 0 stlMtu8192, twinPort 0 ibMtu2048,
        twinPort 0 ibMtu2048, twinPort 0 stlMtu8192, twinPort 2 stlMtu8192] := rfl
  have hnarrow := (h.carries hroute (twinPort 0 ibMtu2048) (by simp)).1
  exact absurd hnarrow (by decide)

end OpaFm.PathRecord
