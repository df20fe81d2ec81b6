import OpaFm.DorBiu.Proofs.Closure
import OpaFm.DorBiu.Closure
import OpaFm.Lib.Delivery
import OpaFm.DorBiu.SiScScMap

/-!
# Ports towards a switch

What the groups of ports lead to that go on in dimension order.
-/

namespace OpaFm.DorBiu

open OpaFm.Lib OpaFm.Dor OpaFm.Dor.DorFabric

namespace DorBiuFabric

open DorBiuClosure

variable {n D : Nat} {F : DorBiuFabric n D} {cl : DorBiuClosure n} {x y d : Fin n}
  {group : Option (List Nat)} {P Q : Fin n → Prop}

theorem mem_addPorts {p : Nat} (hp : p ∈ F.addPorts x y) :
    ((F.switch x).port p).link.map Prod.fst = some y := by
  unfold addPorts at hp
  rw [List.mem_filter, Bool.and_eq_true] at hp
  exact of_decide_eq_true hp.2.2

theorem addPorts_ne_nil (h : (∃ w i, F.neighbor w x i = some y) ∨ F.brother x = some y) :
    F.addPorts x y ≠ [] := by
  have hcable : (∃ i, F.left x i = some y ∨ F.right x i = some y) ∨ F.brother x = some y := by
    apply h.imp _ id
    rintro ⟨w, i, hy⟩
    cases w with
    | left => exact ⟨i, .inl hy⟩
    | right => exact ⟨i, .inr hy⟩
  obtain ⟨p, hp, husable, hlink⟩ := F.cabled x y hcable
  apply List.ne_nil_of_mem
  show p ∈ F.addPorts x y
  unfold addPorts
  rw [List.mem_filter, husable, decide_eq_true hlink]
  exact ⟨hp, rfl⟩

/-! ## Where a group leads -/

def Leads (F : DorBiuFabric n D) (x : Fin n) (P : Fin n → Prop) (group : Option (List Nat)) : Prop :=
  ∃ ports, group = some ports ∧ ports ≠ [] ∧
    ∀ p ∈ ports, ∃ y, ((F.switch x).port p).link.map Prod.fst = some y ∧ P y

theorem Leads.of_portTo (h : F.Leads x P group) (hy : F.PortTo group x y) : P y := by
  obtain ⟨ports, rfl, -, hall⟩ := h
  obtain ⟨ports', p, hsome, hp, hlink⟩ := hy
  cases hsome
  obtain ⟨z, hz, hP⟩ := hall p hp
  rw [hz] at hlink
  cases hlink
  exact hP

theorem Leads.exists_portTo (h : F.Leads x P group) : ∃ y, F.PortTo group x y := by
  obtain ⟨ports, rfl, hne, hall⟩ := h
  obtain ⟨p, hp⟩ := List.exists_mem_of_ne_nil ports hne
  obtain ⟨y, hy, -⟩ := hall p hp
  exact ⟨y, ports, p, rfl, hp, hy⟩

theorem leads_addPorts (h : (∃ w i, F.neighbor w x i = some y) ∨ F.brother x = some y) (hP : P y) :
    F.Leads x P (some (F.addPorts x y)) :=
  ⟨_, rfl, addPorts_ne_nil h, fun _ hp => ⟨y, mem_addPorts hp, hP⟩⟩

theorem addPortsBy_leads {i : Fin D} (h : Counts F.toDorFabric cl) (hi : F.firstDifference x d = some i) (w : Way) :
    F.addPortsBy cl x d i w = some [] ∧ cl.steps w x d = none ∨
      F.Leads x (OnWay F.toDorFabric d x) (F.addPortsBy cl x d i w) := by
  unfold addPortsBy
  cases hsteps : cl.steps w x d with
  | none => exact .inl ⟨rfl, rfl⟩
  | some v =>
    have hshort := (h.steps w x d v hsteps).1
    obtain ⟨y, hy⟩ := exists_neighbor hi hshort
    rw [hy]
    exact .inr (leads_addPorts (.inl ⟨w, i, hy⟩) ⟨i, w, hi, hy, hshort⟩)

theorem addPortsTowards_leads (h : Counts F.toDorFabric cl) (hne : x ≠ d) (hrouted : cl.routed x d = true) :
    F.Leads x (OnWay F.toDorFabric d x) (F.addPortsTowards cl x d) := by
  obtain ⟨i, hi⟩ := F.exists_firstDifference hne
  unfold addPortsTowards DorTopology.routingDimension
  simp only [hi]
  rcases addPortsBy_leads h hi .left with ⟨hleft, hnol⟩ | ⟨left, hleft, hlne, hlall⟩
  · rcases addPortsBy_leads h hi .right with ⟨-, hnor⟩ | ⟨right, hright, hrne, hrall⟩
    · obtain ⟨w, v, hv⟩ := routed_iff.mp hrouted
      cases w with
      | left => rw [hnol] at hv; cases hv
      | right => rw [hnor] at hv; cases hv
    · rw [hleft, hright]
      exact ⟨right, rfl, hrne, hrall⟩
  · rcases addPortsBy_leads h hi .right with ⟨hright, -⟩ | ⟨right, hright, hrne, hrall⟩
    · rw [hleft, hright]
      exact ⟨left ++ [], rfl, by rwa [List.append_nil], by rwa [List.append_nil]⟩
    · rw [hleft, hright]
      refine ⟨left ++ right, rfl, List.append_ne_nil_of_left_ne_nil hlne right, fun p hp => ?_⟩
      exact (List.mem_append.mp hp).elim (hlall p) (hrall p)

theorem routed_of_closure (h : ∀ x e, cl.dorBiuClosure x e = true) (hne : x ≠ d) :
    cl.routed x d = true := by
  have hx := h x d
  unfold dorBiuClosure at hx
  rwa [decide_eq_false hne, Bool.false_or] at hx

/-!
## Routes over BIU links arrive

A switch heads for the destination or for its brother, whichever is nearer; either way the
smaller one of the two hop counts goes down.  The test whether there is a way to the brother does
not look at the closure, but what it looks at is never all ones.
-/

variable {b : Fin n} {alternatePath : Fin n → Fin n → List Nat} {topop : TopologyMatrices}

/-- The hops that are left at most: to the destination, or to its brother and over the BIU
link. -/
def bound (F : DorBiuFabric n D) (x d : Fin n) : Nat :=
  match F.brother d with
  | none => hops F.toDorFabric x d
  | some b => min (hops F.toDorFabric x d) (hops F.toDorFabric x b + 1)

theorem bound_le_hops (F : DorBiuFabric n D) (x d : Fin n) : F.bound x d ≤ hops F.toDorFabric x d := by
  unfold bound
  split
  · exact le_rfl
  · exact Nat.min_le_left _ _

theorem bound_le_brother (hb : F.brother d = some b) : F.bound x d ≤ hops F.toDorFabric x b + 1 := by
  unfold bound
  rw [hb]
  exact Nat.min_le_right _ _

theorem bound_pos (hne : x ≠ d) : 0 < F.bound x d := by
  have hpos := hops_pos (F := F.toDorFabric) hne
  unfold bound
  split <;> omega

/-- The tests on the topology find a way from all other switches to those with a BIU link. -/
def TestsPass (F : DorBiuFabric n D) (topop : TopologyMatrices) : Prop :=
  ∀ x d b, F.brother d = some b → x ≠ d → x ≠ b → topop.dorBiuClosure x b = true

theorem getPortGroup_cases (alternatePath : Fin n → Fin n → List Nat) (h : Counts F.toDorFabric cl)
    (hall : ∀ x e, cl.dorBiuClosure x e = true) (hpass : F.TestsPass topop) (hne : x ≠ d) :
    F.Leads x (· = d) (F.getPortGroup alternatePath topop cl x d).ports ∨
      (F.Leads x (OnWay F.toDorFabric d x) (F.getPortGroup alternatePath topop cl x d).ports ∧
        F.bound x d = hops F.toDorFabric x d) ∨
      ∃ b, F.brother d = some b ∧
        F.Leads x (OnWay F.toDorFabric b x) (F.getPortGroup alternatePath topop cl x d).ports ∧
        F.bound x d = hops F.toDorFabric x b + 1 := by
  have hto := addPortsTowards_leads h hne (routed_of_closure hall hne)
  unfold getPortGroup
  rw [if_pos (hall x d)]
  unfold getDorPortGroup bound
  cases hb : F.brother d with
  | none => exact .inr (.inl ⟨hto, rfl⟩)
  | some b =>
    simp only
    by_cases hbx : b = x
    · subst hbx
      have hback := F.brother_symm d b hb
      rw [if_pos ⟨rfl, hback⟩]
      exact .inl (leads_addPorts (.inr hback) rfl)
    · have hrouted := routed_of_closure hall (Ne.symm hbx)
      obtain ⟨first, hfirst⟩ := exists_hopCount hrouted
      obtain ⟨second, hsecond⟩ := exists_hopCount (routed_of_closure hall hne)
      rw [if_neg (fun hand => hbx hand.1), if_pos (hpass x d b hb hne (Ne.symm hbx)), hfirst,
        hsecond]
      simp only [Option.bind_eq_bind, Option.bind_some]
      have hg := h.hopCount hfirst
      have hh := h.hopCount hsecond
      split
      next hlt =>
        refine .inr (.inr ⟨b, rfl, addPortsTowards_leads h (Ne.symm hbx) hrouted, ?_⟩)
        omega
      next hge =>
        refine .inr (.inl ⟨hto, ?_⟩)
        omega

theorem bound_lt (h : Counts F.toDorFabric cl) (hall : ∀ x e, cl.dorBiuClosure x e = true)
    (hpass : F.TestsPass topop) (hhop : F.Hop alternatePath topop cl d x y) :
    F.bound y d < F.bound x d := by
  obtain ⟨hne, hgo⟩ := hhop
  rcases getPortGroup_cases alternatePath h hall hpass hne with
    hlink | ⟨hto, hbound⟩ | ⟨b, hb, hto, hbound⟩
  · -- over the BIU link
    rw [hlink.of_portTo hgo]
    have hend := F.bound_le_hops d d
    rw [hops_self] at hend
    have hpos := bound_pos (F := F) hne
    omega
  · have hnear := (hto.of_portTo hgo).hops_add_one
    have hle := F.bound_le_hops y d
    omega
  · have hnear := (hto.of_portTo hgo).hops_add_one
    have hle := bound_le_brother (x := y) hb
    omega

theorem exists_hop (h : Counts F.toDorFabric cl) (hall : ∀ x e, cl.dorBiuClosure x e = true)
    (hpass : F.TestsPass topop) (hne : x ≠ d) : ∃ y, F.Hop alternatePath topop cl d x y := by
  have hport : ∃ y, F.PortTo (F.getPortGroup alternatePath topop cl x d).ports x y := by
    rcases getPortGroup_cases alternatePath h hall hpass hne with
      hlink | ⟨hto, -⟩ | ⟨b, -, hto, -⟩
    · exact hlink.exists_portTo
    · exact hto.exists_portTo
    · exact hto.exists_portTo
  obtain ⟨y, hy⟩ := hport
  exact ⟨y, hne, hy⟩

theorem delivers_of_testsPass (h : Counts F.toDorFabric cl)
    (hall : ∀ x e, cl.dorBiuClosure x e = true) (hpass : F.TestsPass topop) (s d : Fin n) :
    Delivers (F.Hop alternatePath topop cl d) d (F.bound s d) s := by
  apply @Delivers.of_measure _ _ _ _ (fun _ => True) (fun x => F.bound x d) _ _ trivial
  · exact fun x y _ hhop => ⟨trivial, bound_lt h hall hpass hhop⟩
  · intro x _
    by_cases heq : x = d
    · exact .inl heq
    · exact .inr (exists_hop h hall hpass heq)

def TestsOnDor (F : DorBiuFabric n D) (alternatePath : Fin n → Fin n → List Nat)
    (topop : TopologyMatrices) (cl : DorBiuClosure n) : Prop :=
  ∀ x d, x ≠ d → ∀ test ∈ (F.getPortGroup alternatePath topop cl x d).tests, test = .dorTop

theorem tests_of_brother (alternatePath : Fin n → Fin n → List Nat) (topop : TopologyMatrices)
    (hclosure : cl.dorBiuClosure x d = true) (hb : F.brother d = some b) (hne : x ≠ b) :
    (F.getPortGroup alternatePath topop cl x d).tests = [.dorTop, .topop] := by
  unfold getPortGroup
  rw [if_pos hclosure]
  unfold getDorPortGroup
  rw [hb]
  simp only
  rw [if_neg fun h => hne h.1.symm]
  split <;> rfl

theorem testsOnDor_iff (alternatePath : Fin n → Fin n → List Nat) (topop : TopologyMatrices)
    (hall : ∀ x e, cl.dorBiuClosure x e = true) :
    F.TestsOnDor alternatePath topop cl ↔ ∀ x d b, F.brother d = some b → x = d ∨ x = b := by
  constructor
  · intro htests x d b hb
    by_contra hother
    obtain ⟨hxd, hxb⟩ := not_or.mp hother
    have htest := htests x d hxd .topop
    rw [tests_of_brother alternatePath topop (hall x d) hb hxb] at htest
    cases htest (List.mem_cons_of_mem _ (List.mem_singleton.mpr rfl))
  · intro halone x d hne test htest
    have hdor : (F.getDorPortGroup topop cl x d).tests = [] := by
      unfold getDorPortGroup
      cases hb : F.brother d with
      | none => rfl
      | some b =>
        obtain rfl := (halone x d b hb).resolve_left hne
        exact congrArg PortGroup.tests (if_pos ⟨rfl, F.brother_symm d x hb⟩)
    unfold getPortGroup at htest
    rw [if_pos (hall x d)] at htest
    have htest : test ∈ .dorTop :: (F.getDorPortGroup topop cl x d).tests := htest
    rw [hdor] at htest
    exact List.mem_singleton.mp htest

/-- In a complete mesh or torus every choice of ports leads to the destination, in no more hops
than dimension order needs to it or to its brother, if the words that are tested are not all ones.
They are those of the wrong structure for all BIU links but the one between the only two
switches. -/
theorem dorBiuRouting_delivers_iff (F : DorBiuFabric n D)
    (alternatePath : Fin n → Fin n → List Nat) (topop : TopologyMatrices) :
    ∃ cl, calcDorClosure F.toDorTopology F.switches = some cl ∧
      (F.TestsPass topop → ∀ s d, Delivers (F.Hop alternatePath topop cl d) d (F.bound s d) s) ∧
      ((∀ s d, Delivers (F.Hop alternatePath topop cl d) d (F.bound s d) s) ∧
          F.TestsOnDor alternatePath topop cl ↔
        ∀ x d b, F.brother d = some b → x = d ∨ x = b) := by
  obtain ⟨cl, hcl, hcounts, hall⟩ := F.calcDorClosure_counts
  refine ⟨cl, hcl, delivers_of_testsPass hcounts hall, ?_⟩
  rw [testsOnDor_iff alternatePath topop hall]
  refine and_iff_right_of_imp fun halone => delivers_of_testsPass hcounts hall ?_
  intro x d b hb hxd hxb
  exact ((halone x d b hb).elim hxd hxb).elim

end DorBiuFabric

/-!
## Routes through communication nodes

From the brother of a communication node the routes go over the BIU link, from there in
dimension order.  They arrive unless that leads to the brother again.
-/

/-! ### Communication nodes -/

section ComNodes

variable {n D : Nat} {top : DorTopology n D} {switches : List (Fin n)} {numBiuInSi : Nat}
  {key : Fin n → Int}

def ComInSi (top : DorTopology n D) (comNode : Fin n → Option (Fin n)) : Prop :=
  ∀ x y, comNode x = some y → sameSi top x y = true

theorem coords_eq_of_tmod {F : DorFabric n D} {x y : Fin n} {i : Fin D}
    (h : (F.coords x i - F.coords y i).tmod (F.dimensionLength i) = 0) :
    F.coords x i = F.coords y i := by
  have hx := F.coords_mem x i
  have hy := F.coords_mem y i
  have hmax := F.coordMaximum_eq i
  have hzero := Int.eq_zero_of_dvd_of_natAbs_lt_natAbs (Int.dvd_of_tmod_eq_zero h) (by omega)
  omega

theorem coords_eq_of_sameSi {F : DorFabric n D} {x y : Fin n} {i : Fin D}
    (h : sameSi F.toDorTopology x y = true) (hi : 3 ≤ i.val) : F.coords x i = F.coords y i := by
  unfold sameSi at h
  have hall := List.all_eq_true.mp h i (List.mem_finRange i)
  rw [Bool.or_eq_true] at hall
  rcases hall with hlt | hmod
  · exact absurd (of_decide_eq_true hlt) (Nat.not_lt.mpr hi)
  · exact coords_eq_of_tmod (of_decide_eq_true hmod)

end ComNodes

namespace DorBiuSiFabric

open DorBiuFabric DorBiuClosure

variable {n m : Nat} {F : DorBiuSiFabric n m} {cl : DorBiuClosure n} {x y b c d : Fin n}
  {comNode : Fin n → Option (Fin n)} {alternatePath : Fin n → Fin n → List Nat}
  {k : Fin (m + 4)}

/-! ### Routes within a Si -/

theorem arc_le_one (hk : k.val < 3) : arc F.toDorFabric x d k ≤ 1 := by
  by_cases heq : F.coords x k = F.coords d k
  · rw [arc_eq_zero heq]
    exact Nat.zero_le 1
  · have hsum := dist_add_other (w := .left) heq
    simp only [Way.other] at hsum
    have hL : F.dimensionLength k ≤ 3 := by
      have hcases : k = 0 ∨ k = 1 ∨ k = 2 := by
        rw [Fin.ext_iff, Fin.ext_iff, Fin.ext_iff]
        show k.val = 0 ∨ k.val = 1 % (m + 4) ∨ k.val = 2 % (m + 4)
        rw [Nat.mod_eq_of_lt (by omega), Nat.mod_eq_of_lt (by omega)]
        omega
      rcases hcases with rfl | rfl | rfl
      · rw [F.length_zero]
        omega
      · exact F.length_one.le
      · rw [F.length_two]
        omega
    unfold arc
    rw [if_pos (F.toroidal_all k)]
    omega

theorem coords_eq_of_arc (h : arc F.toDorFabric x d k = 0) : F.coords x k = F.coords d k := by
  unfold arc at h
  rw [if_pos (F.toroidal_all k)] at h
  rcases Nat.min_eq_zero_iff.mp h with h0 | h0
  · exact dist_eq_zero_iff.mp h0
  · exact dist_eq_zero_iff.mp h0

theorem routeUpTo_start (F : DorBiuSiFabric n m) (c d : Fin n) : F.RouteUpTo c d 0 c :=
  ⟨fun _ hk => absurd hk (Nat.not_lt_zero _), fun _ _ => rfl⟩

theorem routeUpTo_onWay {i : Nat} (hsi : sameSi F.toDorTopology d c = true)
    (hx : F.RouteUpTo c d i x) (hy : OnWay F.toDorFabric d x y) :
    ∃ k, F.firstDifference x d = some k ∧ i ≤ k.val ∧ F.RouteUpTo c d (k.val + 1) y := by
  obtain ⟨k, w, hk, hn, hshort⟩ := hy
  obtain ⟨hne, hbefore⟩ := firstDifference_eq_some_iff.mp hk
  have hik : i ≤ k.val := by
    by_contra hlt
    exact hne (hx.1 k (Nat.not_le.mp hlt))
  have hk3 : k.val < 3 := by
    by_contra hge
    apply hne
    rw [hx.2 k hik, coords_eq_of_sameSi hsi (Nat.not_lt.mp hge)]
  have harrived : F.coords y k = F.coords d k := by
    have hstep := arc_neighbor hk hn hshort
    have hone := arc_le_one (F := F) (x := x) (d := d) hk3
    exact coords_eq_of_arc (by omega)
  refine ⟨k, hk, hik, fun j hj => ?_, fun j hj => ?_⟩
  · rcases Nat.lt_succ_iff_lt_or_eq.mp hj with hlt | heq
    · rw [neighbor_coords hn (Fin.ne_of_lt hlt), hbefore j hlt]
    · rw [Fin.ext heq, harrived]
  · have hgt : k < j := Fin.lt_def.mpr (by omega)
    rw [neighbor_coords hn hgt.ne', hx.2 j (by omega)]

theorem hops_le_of_routeUpTo {i : Nat} (hx : F.RouteUpTo c d i x) :
    hops F.toDorFabric x d ≤ hops F.toDorFabric c d := by
  apply Finset.sum_le_sum
  intro k _
  by_cases hk : k.val < i
  · rw [arc_eq_zero (hx.1 k hk)]
    exact Nat.zero_le _
  · unfold arc DorFabric.dist DorFabric.pos
    rw [hx.2 k (Nat.not_lt.mp hk)]

/-! ### The decision of a switch -/

theorem preferBiu_subset {ports : List Nat} {p : Nat} (hp : p ∈ F.preferBiu ports) : p ∈ ports := by
  unfold preferBiu at hp
  split at hp
  next hmem =>
    rw [List.mem_singleton.mp hp]
    exact hmem.2
  next => exact hp

theorem exists_mem_preferBiu {ports : List Nat} {p : Nat} (hp : p ∈ ports) :
    ∃ q, q ∈ F.preferBiu ports := by
  unfold preferBiu
  split
  · exact ⟨F.biuPort, List.mem_singleton.mpr rfl⟩
  · exact ⟨p, hp⟩

theorem leads_preferBiu {P : Fin n → Prop} {group : Option (List Nat)} (h : F.Leads x P group) :
    F.Leads x P (group.map F.preferBiu) := by
  obtain ⟨ports, rfl, hne, hall⟩ := h
  obtain ⟨p, hp⟩ := List.exists_mem_of_ne_nil ports hne
  obtain ⟨q, hq⟩ := exists_mem_preferBiu (F := F) hp
  exact ⟨F.preferBiu ports, rfl, List.ne_nil_of_mem hq, fun r hr => hall r (preferBiu_subset hr)⟩

theorem comm2dest_eq (h : Counts F.toDorFabric cl) (hall : ∀ x e, cl.dorBiuClosure x e = true) :
    comm2dest cl c d = some (hops F.toDorFabric c d) := by
  unfold comm2dest
  by_cases heq : c = d
  · rw [if_pos heq, heq, hops_self]
  · obtain ⟨v, hv⟩ := exists_hopCount (routed_of_closure hall heq)
    rw [if_neg heq, if_pos (hall c d), hv, h.hopCount hv]
    rfl

theorem getPortGroup_cases (alternatePath : Fin n → Fin n → List Nat)
    (comNode : Fin n → Option (Fin n)) (h : Counts F.toDorFabric cl)
    (hall : ∀ x e, cl.dorBiuClosure x e = true) (hne : x ≠ d) :
    (∃ c, comNode d = some c ∧ F.brother c = some x ∧
        F.Leads x (· = c) (F.getPortGroup alternatePath comNode cl x d)) ∨
      (F.Leads x (OnWay F.toDorFabric d x) (F.getPortGroup alternatePath comNode cl x d) ∧
        ∀ c b, comNode d = some c → F.brother c = some b →
          x ≠ b ∧ hops F.toDorFabric x d ≤ hops F.toDorFabric x b + hops F.toDorFabric c d) ∨
      ∃ c b, comNode d = some c ∧ F.brother c = some b ∧ x ≠ b ∧
        F.Leads x (OnWay F.toDorFabric b x) (F.getPortGroup alternatePath comNode cl x d) ∧
        hops F.toDorFabric x b + hops F.toDorFabric c d < hops F.toDorFabric x d := by
  have hto := leads_preferBiu (addPortsTowards_leads h hne (routed_of_closure hall hne))
  unfold getPortGroup
  rw [if_pos (hall x d)]
  unfold getDorPortGroup getBiuPortGroup
  cases hc : comNode d with
  | none => exact .inr (.inl ⟨hto, fun c b hcd => (nomatch hcd)⟩)
  | some c =>
    simp only [comm2dest_eq h hall]
    cases hb : F.brother c with
    | none =>
      refine .inr (.inl ⟨hto, fun c' b hcd hbc => ?_⟩)
      cases hcd
      rw [hb] at hbc
      cases hbc
    | some b =>
      simp only
      by_cases hbx : b = x
      · subst hbx
        have hback := F.brother_symm c b hb
        rw [if_pos ⟨rfl, hback⟩]
        have hlink : F.Leads b (· = c) (some (F.addPorts b c)) := leads_addPorts (.inr hback) rfl
        exact .inl ⟨c, rfl, hb, leads_preferBiu hlink⟩
      · have hrouted := routed_of_closure hall (Ne.symm hbx)
        obtain ⟨first, hfirst⟩ := exists_hopCount hrouted
        obtain ⟨second, hsecond⟩ := exists_hopCount (routed_of_closure hall hne)
        rw [if_neg (fun hand => hbx hand.1), if_pos (hall x b), hfirst, hsecond]
        simp only
        rw [h.hopCount hfirst, h.hopCount hsecond]
        by_cases hlt : hops F.toDorFabric x b + hops F.toDorFabric c d < hops F.toDorFabric x d
        · have hbro := leads_preferBiu (addPortsTowards_leads h (Ne.symm hbx) hrouted)
          rw [if_pos hlt]
          refine .inr (.inr ⟨c, b, rfl, hb, Ne.symm hbx, ?_, hlt⟩)
          cases hports : F.addPortsTowards cl x b with
          | none =>
            rw [hports] at hbro
            exact hbro
          | some ports =>
            rw [hports] at hbro
            exact hbro
        · rw [if_neg hlt]
          refine .inr (.inl ⟨hto, fun c' b' hcd hbc => ?_⟩)
          cases hcd
          rw [hb] at hbc
          cases hbc
          exact ⟨Ne.symm hbx, Nat.not_lt.mp hlt⟩

theorem exists_hop (alternatePath : Fin n → Fin n → List Nat)
    (comNode : Fin n → Option (Fin n)) (h : Counts F.toDorFabric cl)
    (hall : ∀ x e, cl.dorBiuClosure x e = true) (hne : x ≠ d) :
    ∃ y, F.Hop alternatePath comNode cl d x y := by
  have hport : ∃ y, F.PortTo (F.getPortGroup alternatePath comNode cl x d) x y := by
    rcases getPortGroup_cases alternatePath comNode h hall hne with
      ⟨c, -, -, hlink⟩ | ⟨hto, -⟩ | ⟨c, b, -, -, -, hto, -⟩
    · exact hlink.exists_portTo
    · exact hto.exists_portTo
    · exact hto.exists_portTo
  obtain ⟨y, hy⟩ := hport
  exact ⟨y, hne, hy⟩

/-! ### Routes that arrive -/

/-- No brother of a communication node is in between on a route from it. -/
def Unblocked (F : DorBiuSiFabric n m) (comNode : Fin n → Option (Fin n)) : Prop :=
  ∀ c d b, comNode d = some c → F.brother c = some b → b ≠ d → ¬F.OnSiRoute c d b

theorem hops_le_of_onSiRoute (hx : F.OnSiRoute c d x) :
    hops F.toDorFabric x d ≤ hops F.toDorFabric c d := by
  obtain ⟨i, hi⟩ := hx
  exact hops_le_of_routeUpTo hi

theorem onSiRoute_onWay (hsi : sameSi F.toDorTopology d c = true) (hx : F.OnSiRoute c d x)
    (hy : OnWay F.toDorFabric d x y) : F.OnSiRoute c d y := by
  obtain ⟨i, hi⟩ := hx
  obtain ⟨k, -, -, hk⟩ := routeUpTo_onWay hsi hi hy
  exact ⟨⟨k.val + 1, by omega⟩, hk⟩

def remaining (F : DorBiuSiFabric n m) (comNode : Fin n → Option (Fin n)) (d x : Fin n) : Nat :=
  match comNode d with
  | none => hops F.toDorFabric x d
  | some c =>
    match F.brother c with
    | none => hops F.toDorFabric x d
    | some b =>
      let t := hops F.toDorFabric c d
      if F.OnSiRoute c d x then hops F.toDorFabric x d
      else if x = b then t + 1
      else t + 2 + min (hops F.toDorFabric x d) (hops F.toDorFabric x b + 1 + t)

theorem remaining_of_none (hno : ∀ c b, comNode d = some c → F.brother c = some b → False) :
    F.remaining comNode d x = hops F.toDorFabric x d := by
  unfold remaining
  split
  next => rfl
  next c hc =>
    split
    next => rfl
    next b hb => exact (hno c b hc hb).elim

theorem remaining_onRoute (hx : F.OnSiRoute c d x) (hc : comNode d = some c) :
    F.remaining comNode d x = hops F.toDorFabric x d := by
  unfold remaining
  rw [hc]
  simp only
  split
  next => rfl
  next => rw [if_pos hx]

theorem remaining_brother (hc : comNode d = some c) (hb : F.brother c = some b)
    (hoff : ¬F.OnSiRoute c d b) : F.remaining comNode d b = hops F.toDorFabric c d + 1 := by
  unfold remaining
  simp only [hc, hb]
  rw [if_neg hoff, if_pos trivial]

theorem remaining_before (hc : comNode d = some c) (hb : F.brother c = some b)
    (hoff : ¬F.OnSiRoute c d x) (hne : x ≠ b) :
    F.remaining comNode d x = hops F.toDorFabric c d + 2 +
      min (hops F.toDorFabric x d) (hops F.toDorFabric x b + 1 + hops F.toDorFabric c d) := by
  unfold remaining
  simp only [hc, hb]
  rw [if_neg hoff, if_neg hne]

theorem remaining_le (hc : comNode d = some c) (hb : F.brother c = some b) (y : Fin n) :
    F.remaining comNode d y ≤ hops F.toDorFabric c d + 1 ∨
      F.remaining comNode d y = hops F.toDorFabric c d + 2 +
        min (hops F.toDorFabric y d) (hops F.toDorFabric y b + 1 + hops F.toDorFabric c d) := by
  by_cases hon : F.OnSiRoute c d y
  · have hle := hops_le_of_onSiRoute hon
    rw [remaining_onRoute hon hc]
    exact .inl (by omega)
  · by_cases heq : y = b
    · subst heq
      exact .inl (remaining_brother hc hb hon).le
    · exact .inr (remaining_before hc hb hon heq)

theorem onSiRoute_start (F : DorBiuSiFabric n m) (c d : Fin n) : F.OnSiRoute c d c :=
  ⟨0, F.routeUpTo_start c d⟩

theorem remaining_lt (hcom : ComInSi F.toDorTopology comNode) (hfree : F.Unblocked comNode)
    (h : Counts F.toDorFabric cl) (hall : ∀ x e, cl.dorBiuClosure x e = true)
    (hhop : F.Hop alternatePath comNode cl d x y) :
    F.remaining comNode d y < F.remaining comNode d x := by
  obtain ⟨hne, hgo⟩ := hhop
  rcases getPortGroup_cases alternatePath comNode h hall hne with
    ⟨c, hc, hb, hlink⟩ | ⟨hto, hplain⟩ | ⟨c, b, hc, hb, hxb, hto, hshort⟩
  · -- over the BIU link
    rw [hlink.of_portTo hgo, remaining_onRoute (F.onSiRoute_start c d) hc,
      remaining_brother hc hb (hfree c d x hc hb hne)]
    exact Nat.lt_succ_self _
  · have hway := hto.of_portTo hgo
    have hnear := hway.hops_add_one
    by_cases hno : ∀ c b, comNode d = some c → F.brother c = some b → False
    · rw [remaining_of_none hno, remaining_of_none hno]
      omega
    · simp only [not_forall, not_false_eq_true, exists_prop, and_true] at hno
      obtain ⟨c, b, hc, hb⟩ := hno
      obtain ⟨hxb, hle⟩ := hplain c b hc hb
      by_cases hon : F.OnSiRoute c d x
      · rw [remaining_onRoute hon hc, remaining_onRoute (onSiRoute_onWay (hcom d c hc) hon hway) hc]
        omega
      · rw [remaining_before hc hb hon hxb]
        rcases remaining_le hc hb y with hy | hy <;> omega
  · have hnear := (hto.of_portTo hgo).hops_add_one
    have hoff : ¬F.OnSiRoute c d x := by
      intro hon
      have hle := hops_le_of_onSiRoute hon
      omega
    rw [remaining_before hc hb hoff hxb]
    rcases remaining_le hc hb y with hy | hy <;> omega

/-! ### Routes that do not -/

end DorBiuSiFabric

/-! ### A torus of two Si's -/

def siDigit (x : Fin 24) : Fin 4 → Nat := ![x.val / 12, x.val / 4 % 3, x.val / 2 % 2, x.val % 2]

def siMove (x : Fin 24) (i : Fin 4) (digit : Nat) : Fin 24 :=
  Fin.ofNat 24 (x.val - siDigit x i * ![12, 4, 2, 1] i + digit * ![12, 4, 2, 1] i)

def siRight (x : Fin 24) (i : Fin 4) : Fin 24 := siMove x i ((siDigit x i + 1) % ![2, 3, 2, 2] i)

def siLeft (x : Fin 24) (i : Fin 4) : Fin 24 :=
  siMove x i ((siDigit x i + ![2, 3, 2, 2] i - 1) % ![2, 3, 2, 2] i)

def siBrother (x : Fin 24) : Option (Fin 24) :=
  if x = 4 then some 16 else if x = 16 then some 4 else none

def siDimension (p : Nat) : Fin 4 := ⟨(p - 1) / 2 % 4, Nat.mod_lt _ (by decide)⟩

def siSwitch (x : Fin 24) : DorSwitch 24 where
  numPorts := 9
  port := fun p =>
    { valid := true
      up := true
      isIsl := true
      scscCurrent := false
      scscMap := fun _ sc => sc
      link :=
        if p = 9 then (siBrother x).map fun y => (y, 9)
        else if p % 2 = 1 then some (siRight x (siDimension p), p + 1)
        else some (siLeft x (siDimension p), p - 1) }

def siFabric : DorBiuSiFabric 24 0 where
  dimensionLength := ![2, 3, 2, 2]
  toroidal := fun _ => true
  coords := fun x i => siDigit x i - (if i = 1 then 1 else 0 : Int)
  left := fun x i => some (siLeft x i)
  right := fun x i => some (siRight x i)
  coords_mem := by decide +kernel
  coords_injective := fun x y => by
    revert x y
    decide +kernel
  left_iff := by decide +kernel
  right_coords := by decide +kernel
  switches := List.finRange 24
  brother := siBrother
  switch := siSwitch
  mem_switches := List.mem_finRange
  brother_symm := by decide +kernel
  left_isSome := fun _ _ _ _ => rfl
  right_isSome := fun _ _ _ _ => rfl
  cabled := by decide +kernel
  numBiuInSi := 1
  biuPort := 9
  toroidal_all := fun _ => rfl
  length_zero := rfl
  length_one := rfl
  length_two := rfl
  numBiuInSi_admitted := rfl
  brother_ne := by decide +kernel

/-- Between two of its 24 switches there is a BIU link, and for the others the test of the way to
them is made on the costs and the paths. -/
theorem siFabric_not_delivers_on_dor :
    ¬∃ alternatePath topop cl, calcDorClosure siFabric.toDorTopology siFabric.switches = some cl ∧
      (∀ s d, Delivers (siFabric.toDorBiuFabric.Hop alternatePath topop cl d) d
        (siFabric.bound s d) s) ∧
      siFabric.TestsOnDor alternatePath topop cl := by
  rintro ⟨alternatePath, topop, cl, hcl, -, htests⟩
  obtain ⟨cl', hcl', -, hall⟩ := siFabric.calcDorClosure_counts
  cases hcl.symm.trans hcl'
  have hother := (DorBiuFabric.testsOnDor_iff alternatePath topop hall).mp htests 0 4 16 rfl
  exact absurd hother (by decide)

end OpaFm.DorBiu
