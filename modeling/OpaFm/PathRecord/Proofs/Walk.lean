import OpaFm.Lib.Iterator
import OpaFm.PathRecord.Walk
import Mathlib.Data.Set.Finite.Basic

/-!
# When the hop walk ends

The walk has no memory of where it was.  From a first MTU of 2048 on it goes from switch to switch
until an entry leads nowhere, to the last switch or through a link with a small MTU, so it ends
unless the entries lead around a cycle.
-/

namespace OpaFm.PathRecord

open OpaFm.Fabric OpaFm.Lib

variable {f : PathFabric} {w : WalkStart} {n m : Node} {s : HopState}

def WalkStart.nextHop (f : PathFabric) (w : WalkStart) (n : Node) : Option Node :=
  if n.index = w.lastNodep.index then none
  else
    (w.egress f n).bind fun p =>
      if p.data.maxVlMtu < ibMtu2048 then none else smFindNode f.topology p.port.nodeno

theorem hopWalk_of_nextHop_none (hs : s.nextNodep = some n) (h : w.nextHop f n = none)
    (fuel : Nat) : ∃ r, hopWalk f w (fuel + 2) s = some r := by
  unfold WalkStart.nextHop at h
  simp only [hopWalk, hs]
  split_ifs at h with hlast
  · exact ⟨some s, if_pos hlast⟩
  · rw [if_neg hlast]
    cases hport : w.egress f n with
    | none => exact ⟨none, rfl⟩
    | some p =>
      rw [hport, Option.bind_some] at h
      dsimp only
      by_cases hsmall : min s.mtu p.data.maxVlMtu < ibMtu2048
      · exact ⟨_, if_pos hsmall⟩
      · rw [if_neg hsmall]
        have hbig : ¬p.data.maxVlMtu < ibMtu2048 := by omega
        rw [if_neg hbig] at h
        simp only [h]
        exact ⟨_, rfl⟩

theorem hopWalk_of_nextHop (hs : s.nextNodep = some n) (hmtu : ibMtu2048 ≤ s.mtu)
    (h : w.nextHop f n = some m) :
    ∃ s', s'.nextNodep = some m ∧ ibMtu2048 ≤ s'.mtu ∧
      ∀ fuel, hopWalk f w (fuel + 1) s = hopWalk f w fuel s' := by
  unfold WalkStart.nextHop at h
  split_ifs at h with hlast
  obtain ⟨p, hport, h⟩ := Option.bind_eq_some_iff.mp h
  split_ifs at h with hbig
  have hmin : ¬min s.mtu p.data.maxVlMtu < ibMtu2048 := by omega
  apply Exists.intro
    { s with
      nextNodep := smFindNode f.topology p.port.nodeno
      mtu := min s.mtu p.data.maxVlMtu
      hopCount := s.hopCount + 1
      rate := slowerRate s.rate p.data.rate }
  refine ⟨h, Nat.le_of_not_lt hmin, ?_⟩
  intro fuel
  simp only [hopWalk, hs, if_neg hlast, hport, if_neg hmin]

theorem hopWalk_ends_of_ends (h : Ends (w.nextHop f) n) (hs : s.nextNodep = some n)
    (hmtu : ibMtu2048 ≤ s.mtu) : ∃ fuel r, hopWalk f w fuel s = some r := by
  obtain ⟨k, hk⟩ := h
  induction k generalizing n s with
  | zero => cases hk
  | succ k ih =>
    cases hnext : w.nextHop f n with
    | none => exact ⟨2, hopWalk_of_nextHop_none hs hnext 0⟩
    | some m =>
      obtain ⟨s', hs', hmtu', hgo⟩ := hopWalk_of_nextHop hs hmtu hnext
      rw [orbit, hnext, Option.bind_some] at hk
      obtain ⟨fuel, r, hr⟩ := ih hs' hmtu' hk
      exact ⟨fuel + 1, r, (hgo fuel).trans hr⟩

theorem ends_of_hopWalk {fuel : Nat} {r : Option HopState} (h : hopWalk f w fuel s = some r)
    (hs : s.nextNodep = some n) (hmtu : ibMtu2048 ≤ s.mtu) : Ends (w.nextHop f) n := by
  induction fuel generalizing n s with
  | zero => cases h
  | succ fuel ih =>
    cases hnext : w.nextHop f n with
    | none => exact ⟨1, by rw [orbit, hnext, Option.bind_none]⟩
    | some m =>
      obtain ⟨s', hs', hmtu', hgo⟩ := hopWalk_of_nextHop hs hmtu hnext
      rw [hgo] at h
      obtain ⟨k, hk⟩ := ih h hs' hmtu'
      exact ⟨k + 1, by rw [orbit, hnext, Option.bind_some, hk]⟩

theorem hopWalk_of_small (hmtu : s.mtu < ibMtu2048) : ∃ r, hopWalk f w 1 s = some r := by
  simp only [hopWalk]
  cases s.nextNodep with
  | none => exact ⟨_, rfl⟩
  | some n =>
    dsimp only
    split_ifs with hlast
    · exact ⟨_, rfl⟩
    · cases w.egress f n with
      | none => exact ⟨_, rfl⟩
      | some p =>
        have hsmall : min s.mtu p.data.maxVlMtu < ibMtu2048 := by omega
        exact ⟨_, if_pos hsmall⟩

theorem mem_of_smFindNode {topop : Topology} {nodeno : Option Nat}
    (h : smFindNode topop nodeno = some n) : n ∈ topop.nodes := by
  obtain ⟨k, -, hk⟩ := Option.bind_eq_some_iff.mp h
  exact List.mem_of_find?_eq_some hk

theorem WalkStart.nextHop_mem (h : w.nextHop f n = some m) : m ∈ f.topology.nodes := by
  unfold WalkStart.nextHop at h
  split_ifs at h
  obtain ⟨p, -, h⟩ := Option.bind_eq_some_iff.mp h
  split_ifs at h
  exact mem_of_smFindNode h

theorem walkSource_mem {src : PathEnd f} {x : Nat × Nat} (h : walkSource src = some (n, x)) :
    n ∈ f.topology.nodes := by
  unfold walkSource at h
  split_ifs at h
  · obtain ⟨m, hm, heq⟩ := Option.map_eq_some_iff.mp h
    cases heq
    exact mem_of_smFindNode hm
  · cases h
    exact src.node_mem
  · cases h
    exact src.node_mem

theorem walkStart_mem {src dst : PathEnd f} (h : walkStart src dst = some w) :
    w.nextNodep ∈ f.topology.nodes := by
  obtain ⟨⟨next, mtu, rate⟩, hsource, h⟩ := Option.bind_eq_some_iff.mp h
  have hmem := walkSource_mem hsource
  dsimp only at h
  split_ifs at h
  · obtain ⟨last, -, rfl⟩ := Option.map_eq_some_iff.mp h
    exact hmem
  · cases h
    exact hmem
  · cases h
    exact hmem

/-- The walk of two ports that are neither the same nor next to each other. -/
def hopStart (src dst : PathEnd f) : Option WalkStart :=
  if src.addr = dst.addr ∨ isDirectConnected src dst = true then none else walkStart src dst

theorem hopStart_mem {src dst : PathEnd f} (h : hopStart src dst = some w) :
    w.nextNodep ∈ f.topology.nodes := by
  unfold hopStart at h
  split_ifs at h
  exact walkStart_mem h

theorem pathParams_of_hopStart {src dst : PathEnd f} (h : hopStart src dst = some w)
    (fuel : Nat) :
    pathParams fuel src dst =
      (hopWalk f w fuel w.hopState).map fun r =>
        (r.map HopState.params).filter fun p => ibMtu2048 ≤ p.mtu := by
  unfold hopStart at h
  split_ifs at h with hnear
  rw [not_or] at hnear
  rw [pathParams, pathWalk, if_neg hnear.1, if_neg hnear.2, h, Option.map_map]
  rfl

theorem pathParams_of_hopStart_none {src dst : PathEnd f} (h : hopStart src dst = none)
    (fuel : Nat) : ∃ r, pathParams fuel src dst = some r := by
  unfold hopStart at h
  unfold pathParams pathWalk
  by_cases hsame : src.addr = dst.addr
  · rw [if_pos hsame]
    exact ⟨_, rfl⟩
  · rw [if_neg hsame]
    by_cases hdirect : isDirectConnected src dst = true
    · rw [if_pos hdirect]
      exact ⟨_, rfl⟩
    · rw [if_neg hdirect]
      rw [if_neg (not_or.mpr ⟨hsame, hdirect⟩)] at h
      rw [h]
      exact ⟨_, rfl⟩

theorem hopWalk_ends_iff {src dst : PathEnd f} (h : hopStart src dst = some w) :
    (∃ fuel r, hopWalk f w fuel w.hopState = some r) ↔
      w.mtu < ibMtu2048 ∨ ¬Cycles (w.nextHop f) w.nextNodep := by
  have hends : Ends (w.nextHop f) w.nextNodep ↔ ¬Cycles (w.nextHop f) w.nextNodep :=
    ends_iff_not_cycles (List.finite_toSet f.topology.nodes) (hopStart_mem h)
      fun _ _ _ hnext => WalkStart.nextHop_mem hnext
  rcases Nat.lt_or_ge w.mtu ibMtu2048 with hsmall | hbig
  · constructor
    · intro _
      exact .inl hsmall
    · intro _
      exact ⟨1, hopWalk_of_small hsmall⟩
  · rw [← hends]
    constructor
    · rintro ⟨fuel, r, hr⟩
      exact .inr (ends_of_hopWalk hr rfl hbig)
    · intro hor
      exact hopWalk_ends_of_ends (hor.resolve_left (Nat.not_lt.mpr hbig)) rfl hbig

/-- The walk ends unless the entries for the last switch lead around a cycle of links with an MTU
of 2048 or more. -/
theorem pathParams_ends_iff (src dst : PathEnd f) :
    (∃ fuel r, pathParams fuel src dst = some r) ↔
      ∀ w, hopStart src dst = some w →
        w.mtu < ibMtu2048 ∨ ¬Cycles (w.nextHop f) w.nextNodep := by
  cases h : hopStart src dst with
  | none =>
    constructor
    · intro _ w hw
      cases hw
    · intro _
      exact ⟨0, pathParams_of_hopStart_none h 0⟩
  | some w =>
    have hwalk : (∃ fuel r, pathParams fuel src dst = some r) ↔
        ∃ fuel r, hopWalk f w fuel w.hopState = some r := by
      simp only [pathParams_of_hopStart h, Option.map_eq_some_iff]
      constructor
      · rintro ⟨fuel, r, r', hr', -⟩
        exact ⟨fuel, r', hr'⟩
      · rintro ⟨fuel, r, hr⟩
        exact ⟨fuel, _, r, hr, rfl⟩
    rw [hwalk, hopWalk_ends_iff h]
    constructor
    · intro hend w' hw'
      cases hw'
      exact hend
    · intro hend
      exact hend w rfl

/-! ## Tables in the middle of a change -/

def rowSwitch (i lid : Nat) (link : Nat → Option Nat × Option Nat) : Node :=
  { index := i
    numPorts := 2
    enhancedPort0 := true
    port := fun j =>
      { index := j
        state := .active
        nodeno := (link j).1
        portno := (link j).2
        portData := some { lid := if j = 0 then lid else 0, maxVlMtu := stlMtu8192 } } }

def rowLeft : Node := rowSwitch 0 1 fun j => if j = 1 then (some 1, some 1) else (none, none)

def rowMiddle : Node :=
  rowSwitch 1 2 fun j =>
    if j = 1 then (some 0, some 1) else if j = 2 then (some 2, some 1) else (none, none)

def rowRight : Node := rowSwitch 2 3 fun j => if j = 1 then (some 1, some 2) else (none, none)

def rowNodes : List Node := [rowLeft, rowMiddle, rowRight]

theorem rowNodes_index_inj :
    ∀ n ∈ rowNodes, ∀ m ∈ rowNodes, n.index = m.index → n = m := by
  simp [rowNodes, rowLeft, rowMiddle, rowRight, rowSwitch]

theorem rowNodes_port_index : ∀ n ∈ rowNodes, ∀ i, (n.port i).index = i := by
  simp [rowNodes, rowLeft, rowMiddle, rowRight, rowSwitch]

theorem rowNodes_lids : ∀ n ∈ rowNodes, ∀ p ∈ endPorts n, ∀ d, p.portData = some d →
    d.lmc ≤ 7 ∧ 2 ^ d.lmc ∣ d.lid ∧ d.lid + 2 ^ d.lmc ≤ 0xC000 := by
  simp [rowNodes, rowLeft, rowMiddle, rowRight, rowSwitch, endPorts]

def rowFabric (portOf : Nat → Nat) : PathFabric where
  topology := ⟨rowNodes, 3⟩
  tables := fun i => ⟨some fun lid => if lid = 3 then portOf i else 255, 3⟩
  pPKey := fun _ _ => .empty
  gid := fun _ _ => 0
  gidPrefix := fun _ _ => 0
  index_inj := rowNodes_index_inj
  port_index := rowNodes_port_index
  lids := rowNodes_lids

theorem rowLeft_mem : rowLeft ∈ rowNodes := List.mem_cons_self

theorem rowRight_mem : rowRight ∈ rowNodes := by simp [rowNodes]

theorem port_zero_mem (n : Node) (h : n.nodeType = .switch) : n.port 0 ∈ endPorts n := by
  rw [endPorts, if_pos h]
  exact List.mem_singleton_self _

def rowSource (portOf : Nat → Nat) : PathEnd (rowFabric portOf) where
  nodep := rowLeft
  node_mem := rowLeft_mem
  port := rowLeft.port 0
  port_mem := port_zero_mem rowLeft rfl
  portData := { lid := 1, maxVlMtu := stlMtu8192 }
  valid := rfl

def rowDestination (portOf : Nat → Nat) : PathEnd (rowFabric portOf) where
  nodep := rowRight
  node_mem := rowRight_mem
  port := rowRight.port 0
  port_mem := port_zero_mem rowRight rfl
  portData := { lid := 3, maxVlMtu := stlMtu8192 }
  valid := rfl

def rowStart : WalkStart := ⟨rowLeft, rowRight, some (rowRight.port 0), stlMtu8192, 16⟩

/-- The entries of the first two switches point at each other. -/
theorem pathParams_endless :
    ¬∀ (f : PathFabric) (src dst : PathEnd f), ∃ fuel r, pathParams fuel src dst = some r := by
  intro hends
  have hstart : hopStart (rowSource fun _ => 1) (rowDestination fun _ => 1) = some rowStart :=
    rfl
  have hright : rowStart.nextHop (rowFabric fun _ => 1) rowLeft = some rowMiddle := rfl
  have hleft : rowStart.nextHop (rowFabric fun _ => 1) rowMiddle = some rowLeft := rfl
  have hround : Relation.TransGen (Leads (rowStart.nextHop (rowFabric fun _ => 1))) rowLeft
      rowLeft := .tail (.single hright) hleft
  have hcycle : Cycles (rowStart.nextHop (rowFabric fun _ => 1)) rowLeft :=
    ⟨rowLeft, .refl, hround⟩
  have hwalk := (hopWalk_ends_iff hstart).mp
  obtain ⟨fuel, r, hr⟩ := hends _ (rowSource fun _ => 1) (rowDestination fun _ => 1)
  rw [pathParams_of_hopStart hstart] at hr
  obtain ⟨r', hr', -⟩ := Option.map_eq_some_iff.mp hr
  rcases hwalk ⟨fuel, r', hr'⟩ with hsmall | hnot
  · exact absurd hsmall (by decide)
  · exact hnot hcycle

end OpaFm.PathRecord
