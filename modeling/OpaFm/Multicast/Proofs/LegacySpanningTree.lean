import OpaFm.Multicast.SpanningTree
import OpaFm.Multicast.Proofs.Mft
import Mathlib.Data.List.Count
import Mathlib.Logic.Relation

/-!
# Parents come earlier

An entry is hung below one that stands before it, and once at most.  The links are counted as
they are made, so that there is one for each entry but the first when the tree is complete.
-/

namespace OpaFm.Multicast

open OpaFm.Fabric

variable (topop : Topology) (mtu rate : Nat)

structure LegacyLink (indexes : List Nat) (j k : Nat) (m : McNode) : Prop where
  before : k < j
  parent : m.parent = some k
  nodeno : m.nodeno = indexes[k]?
  port : ∃ nodep portp, smFindNode topop indexes[k]? = some nodep ∧
    portp ∈ physicalPorts nodep ∧ m.portno = some portp.index ∧ smValidPort portp = true ∧
    portp.state = .active ∧ portp.nodeno = some m.index ∧ portp.portno ≠ none ∧
    meetsMtuRate mtu rate portp = true
  child : ∃ n, smFindNode topop (some m.index) = some n ∧ n.nodeType = .switch

structure Unlinked (m : McNode) : Prop where
  nodeno : m.nodeno = none
  portno : m.portno = none
  parent : m.parent = none

def linked (m : McNode) : Bool := m.nodeno.isSome

structure LegacyInv (indexes : List Nat) (s : LegacyState) : Prop where
  indexes_eq : s.mcNodes.map (·.index) = indexes
  entry : ∀ j m, s.mcNodes[j]? = some m →
    Unlinked m ∨ ∃ k, LegacyLink topop mtu rate indexes j k m
  links_eq : s.numLinks = s.mcNodes.countP linked

variable {topop mtu rate}

theorem legacyPeer_some {portp : Port} {peer : Nat} (h : legacyPeer topop mtu rate portp = some peer) :
    smValidPort portp = true ∧ portp.state = .active ∧ portp.nodeno = some peer ∧
      portp.portno ≠ none ∧ meetsMtuRate mtu rate portp = true ∧
      ∃ n, smFindNode topop (some peer) = some n ∧ n.nodeType = .switch := by
  unfold legacyPeer at h
  split at h
  next hgood =>
    obtain ⟨hvalid, hstate, -, hportno, hmeets⟩ := hgood
    obtain ⟨n, hn, hpeer⟩ := Option.bind_eq_some_iff.mp h
    obtain ⟨hfind, hswitch⟩ := Option.filter_eq_some_iff.mp hn
    rw [hpeer] at hfind
    have hactive : portp.state = .active := by
      cases hst : portp.state <;> rw [hst] at hstate <;> first | rfl | (absurd hstate; decide)
    exact ⟨hvalid, hactive, hpeer, hportno, hmeets, n, hfind, by simpa using hswitch⟩
  next => cases h

theorem Unlinked.not_linked {m : McNode} (h : Unlinked m) : linked m = false := by
  unfold linked
  rw [h.nodeno]
  rfl

theorem LegacyInv.attachLater {indexes : List Nat} {s : LegacyState}
    (hs : LegacyInv topop mtu rate indexes s) {i : Nat} {nodep : Node} {portp : Port} {peer : Nat}
    (hnode : smFindNode topop indexes[i]? = some nodep)
    (hindex : indexes[i]? = some nodep.index) (hport : portp ∈ physicalPorts nodep)
    (hpeer : legacyPeer topop mtu rate portp = some peer) :
    LegacyInv topop mtu rate indexes (attachLater i nodep portp peer s) := by
  unfold Multicast.attachLater
  split
  next => exact hs
  next m j hfind =>
    split
    next hnone =>
      have hmindex : m.index = peer := by simpa using List.find?_some hfind
      have hmem := List.mem_of_find?_eq_some hfind
      rw [List.mk_mem_zipIdx_iff_le_and_getElem?_sub, List.getElem?_drop] at hmem
      obtain ⟨hle, hget⟩ := hmem
      rw [Nat.add_sub_cancel' hle] at hget
      obtain ⟨hj, hgetj⟩ := List.getElem?_eq_some_iff.mp hget
      have hkept : (s.mcNodes.map (·.index))[j]? = some m.index := by
        rw [List.getElem?_map, hget]
        rfl
      constructor
      · rw [← hs.indexes_eq, List.map_set]
        apply List.ext_getElem?
        intro k
        rw [List.getElem?_set]
        split
        next hk =>
          subst hk
          rw [hkept, List.length_map, if_pos hj]
        next => rfl
      · intro j' m' hm'
        rw [List.getElem?_set] at hm'
        split at hm'
        next hjj =>
          cases hm'
          obtain ⟨hvalid, hstate, hpno, hportno, hmeets, n, hn, hswitch⟩ := legacyPeer_some hpeer
          subst hjj
          rw [← hmindex] at hpno hn
          exact .inr ⟨i, hle, rfl, hindex.symm,
            ⟨nodep, portp, hnode, hport, rfl, hvalid, hstate, hpno, hportno, hmeets⟩,
            ⟨n, hn, hswitch⟩⟩
        next => exact hs.entry j' m' hm'
      · have hunlinked : linked s.mcNodes[j] = false := by
          rw [hgetj]
          unfold linked
          rw [hnone]
          rfl
        have hlinked : linked { m with
            nodeno := some nodep.index, portno := some portp.index, parent := some i } = true :=
          rfl
        rw [List.countP_set hj, hunlinked, hlinked, hs.links_eq]
        simp
    next => exact hs

theorem LegacyInv.legacySwitch {indexes : List Nat} {s : LegacyState}
    (hs : LegacyInv topop mtu rate indexes s) (i : Nat) :
    LegacyInv topop mtu rate indexes (legacySwitch topop mtu rate s i) := by
  have hindexes : (s.mcNodes[i]?).map (·.index) = indexes[i]? := by
    rw [← hs.indexes_eq, List.getElem?_map]
  unfold Multicast.legacySwitch
  rw [hindexes]
  split
  next => exact hs
  next nodep hnode =>
    obtain ⟨u, hu, hfind⟩ := Option.bind_eq_some_iff.mp hnode
    have hindex : indexes[i]? = some nodep.index := by
      have := List.find?_some hfind
      rw [hu]
      simpa using (of_decide_eq_true this).symm
    have hports : ∀ ports : List Port, (∀ p ∈ ports, p ∈ physicalPorts nodep) →
        ∀ s, LegacyInv topop mtu rate indexes s →
        LegacyInv topop mtu rate indexes (ports.foldl (legacyPort topop mtu rate i nodep) s) := by
      intro ports
      induction ports with
      | nil => exact fun _ _ hs => hs
      | cons portp ports ih =>
        intro hmem s hs
        apply ih (fun p hp => hmem p (List.mem_cons_of_mem _ hp))
        unfold legacyPort
        split
        next => exact hs
        next peer hpeer => exact hs.attachLater hnode hindex (hmem portp List.mem_cons_self) hpeer
    exact hports _ (fun _ h => h) s hs

theorem legacyInv_init :
    LegacyInv topop mtu rate ((initMcNodes topop).map (·.index)) { mcNodes := initMcNodes topop } := by
  have hunlinked : ∀ m ∈ initMcNodes topop, Unlinked m := by
    intro m hm
    obtain ⟨n, -, rfl⟩ := List.mem_map.mp hm
    exact ⟨rfl, rfl, rfl⟩
  constructor
  · rfl
  · exact fun j m hm => .inl (hunlinked m (List.mem_of_getElem? hm))
  · symm
    apply List.countP_eq_zero.mpr
    intro m hm
    rw [(hunlinked m hm).not_linked]
    exact Bool.false_ne_true

def legacyEnd (topop : Topology) (mtu rate : Nat) : LegacyState :=
  (List.range ((initMcNodes topop).length - 1)).foldl (legacySwitch topop mtu rate)
    { mcNodes := initMcNodes topop }

theorem legacyEnd_inv (topop : Topology) (mtu rate : Nat) :
    LegacyInv topop mtu rate ((initMcNodes topop).map (·.index)) (legacyEnd topop mtu rate) := by
  have hrun : ∀ (is : List Nat) (s : LegacyState),
      LegacyInv topop mtu rate ((initMcNodes topop).map (·.index)) s →
      LegacyInv topop mtu rate ((initMcNodes topop).map (·.index))
        (is.foldl (legacySwitch topop mtu rate) s) := by
    intro is
    induction is with
    | nil => exact fun _ hs => hs
    | cons i is ih => exact fun s hs => ih _ (hs.legacySwitch i)
  exact hrun _ _ legacyInv_init

/-! ## The tree -/

def HangsBelow (nodes : List McNode) (j k : Nat) : Prop :=
  ∃ m, nodes[j]? = some m ∧ m.parent = some k

theorem countP_all_but_first {α : Type*} {p : α → Bool} {l : List α} (hl : l ≠ [])
    (hfirst : ∀ a, l[0]? = some a → p a = false) :
    l.countP p + 1 = l.length ↔ ∀ j a, 0 < j → l[j]? = some a → p a = true := by
  cases l with
  | nil => exact absurd rfl hl
  | cons a l =>
    rw [List.countP_cons_of_neg (by rw [hfirst a rfl]; exact Bool.false_ne_true),
      List.length_cons, Nat.add_right_cancel_iff, List.countP_eq_length]
    constructor
    · intro hall j b hj hb
      obtain ⟨j', rfl⟩ := Nat.exists_eq_add_of_lt hj
      rw [Nat.zero_add, List.getElem?_cons_succ] at hb
      exact hall b (List.mem_of_getElem? hb)
    · intro hall b hb
      obtain ⟨j, hj⟩ := List.getElem?_of_mem hb
      exact hall (j + 1) b (Nat.succ_pos j) hj

/-- What the loops leave: links to earlier entries only, from each entry a way up to one without
parent, and `complete` when all but the first have one. -/
structure IsLegacyTree (topop : Topology) (mtu rate : Nat) (nodes : List McNode) (complete : Bool) :
    Prop where
  entries : nodes.map (·.index) = topop.switches.map (·.index)
  link : ∀ j m, nodes[j]? = some m →
    Unlinked m ∨ ∃ k, LegacyLink topop mtu rate (topop.switches.map (·.index)) j k m
  descends : ∀ j k, HangsBelow nodes j k → k < j ∧ k < nodes.length
  ends : ∀ j, ∃ r, Relation.ReflTransGen (HangsBelow nodes) j r ∧ ∀ k, ¬HangsBelow nodes r k
  first : ∀ k, ¬HangsBelow nodes 0 k
  complete_iff : complete = true ↔ ∀ j, 0 < j → j < nodes.length → ∃ k, HangsBelow nodes j k

theorem LegacyInv.descends {indexes : List Nat} {s : LegacyState}
    (hs : LegacyInv topop mtu rate indexes s) {j k : Nat} (h : HangsBelow s.mcNodes j k) :
    k < j ∧ k < s.mcNodes.length := by
  obtain ⟨m, hm, hparent⟩ := h
  obtain ⟨hj, -⟩ := List.getElem?_eq_some_iff.mp hm
  rcases hs.entry j m hm with hnone | ⟨k', hlink⟩
  · rw [hnone.parent] at hparent
    cases hparent
  · rw [hlink.parent] at hparent
    cases hparent
    have := hlink.before
    exact ⟨this, by omega⟩

theorem exists_top {nodes : List McNode} (hdescends : ∀ j k, HangsBelow nodes j k → k < j) (j : Nat) :
    ∃ r, Relation.ReflTransGen (HangsBelow nodes) j r ∧ ∀ k, ¬HangsBelow nodes r k := by
  induction j using Nat.strongRecOn with
  | ind j ih =>
    by_cases h : ∃ k, HangsBelow nodes j k
    · obtain ⟨k, hk⟩ := h
      obtain ⟨r, hr, htop⟩ := ih k (hdescends j k hk)
      exact ⟨r, .head hk hr, htop⟩
    · exact ⟨j, .refl, not_exists.mp h⟩

theorem LegacyInv.linked_iff {indexes : List Nat} {s : LegacyState}
    (hs : LegacyInv topop mtu rate indexes s) {j : Nat} {m : McNode} (hm : s.mcNodes[j]? = some m) :
    linked m = true ↔ ∃ k, HangsBelow s.mcNodes j k := by
  obtain ⟨hj, -⟩ := List.getElem?_eq_some_iff.mp hm
  rcases hs.entry j m hm with hnone | ⟨k, hlink⟩
  · rw [hnone.not_linked]
    refine ⟨fun h => absurd h Bool.false_ne_true, ?_⟩
    rintro ⟨k, m', hm', hparent⟩
    rw [hm] at hm'
    cases hm'
    rw [hnone.parent] at hparent
    cases hparent
  · refine ⟨fun _ => ⟨k, m, hm, hlink.parent⟩, fun _ => ?_⟩
    have hk : k < indexes.length := by
      have := hlink.before
      rw [← hs.indexes_eq, List.length_map]
      omega
    unfold linked
    rw [hlink.nodeno, List.getElem?_eq_getElem hk]
    rfl

/-- For every topology with a switch. -/
theorem smSpanningTreeLegacy_spec (topop : Topology) (mtu rate : Nat) (hsome : topop.switches ≠ []) :
    IsLegacyTree topop mtu rate (smSpanningTreeLegacy topop mtu rate).1
      (smSpanningTreeLegacy topop mtu rate).2 := by
  have hinv := legacyEnd_inv topop mtu rate
  have hindexes : (initMcNodes topop).map (·.index) = topop.switches.map (·.index) := by
    unfold initMcNodes
    rw [List.map_map]
    rfl
  have hlength : (legacyEnd topop mtu rate).mcNodes.length = (initMcNodes topop).length := by
    have := congrArg List.length hinv.indexes_eq
    rwa [List.length_map, List.length_map] at this
  have hne : (legacyEnd topop mtu rate).mcNodes ≠ [] := by
    intro h
    rw [h, initMcNodes, List.length_map] at hlength
    exact hsome (List.length_eq_zero_iff.mp hlength.symm)
  have hfirst : ∀ k, ¬HangsBelow (legacyEnd topop mtu rate).mcNodes 0 k :=
    fun k h => Nat.not_lt_zero k (hinv.descends h).1
  show IsLegacyTree topop mtu rate (legacyEnd topop mtu rate).mcNodes
    (decide ((legacyEnd topop mtu rate).numLinks + 1 = (initMcNodes topop).length))
  constructor
  · rw [hinv.indexes_eq, hindexes]
  · rw [← hindexes]
    exact hinv.entry
  · exact fun j k h => hinv.descends h
  · exact exists_top fun j k h => (hinv.descends h).1
  · exact hfirst
  · rw [decide_eq_true_iff, hinv.links_eq, ← hlength, countP_all_but_first hne]
    · constructor
      · intro hall j hj hlt
        have hm := List.getElem?_eq_getElem hlt
        exact (hinv.linked_iff hm).mp (hall j _ hj hm)
      · intro hall j m hj hm
        obtain ⟨hlt, -⟩ := List.getElem?_eq_some_iff.mp hm
        exact (hinv.linked_iff hm).mpr (hall j hj hlt)
    · intro m hm
      rw [Bool.eq_false_iff]
      intro h
      exact ((hinv.linked_iff hm).mp h).elim hfirst

def discoveredPair : Topology where
  nodes := [{ index := 0, numPorts := 1,
              port := fun i => { index := i, state := .active, nodeno := some 1, portno := some 1,
                                 portData := some { maxVlMtu := ibMtu2048 } } },
            { index := 1 }]
  maxSws := 2

theorem smSpanningTreeLegacy_pair :
    IsLegacyTree discoveredPair ibMtu2048 ibStaticRate100G
      (smSpanningTreeLegacy discoveredPair ibMtu2048 ibStaticRate100G).1
      (smSpanningTreeLegacy discoveredPair ibMtu2048 ibStaticRate100G).2 :=
  smSpanningTreeLegacy_spec discoveredPair ibMtu2048 ibStaticRate100G (by decide)

/-- Without switches there is no entry 0, and the tree counts as incomplete. -/
theorem smSpanningTreeLegacy_empty :
    let r := smSpanningTreeLegacy { nodes := [], maxSws := 0 } ibMtu2048 ibStaticRate100G
    ¬(r.2 = true ↔ ∀ j, 0 < j → j < r.1.length → ∃ k, HangsBelow r.1 j k) := by
  intro r h
  have hcomplete : r.2 = true := by
    apply h.mpr
    intro j _ hj
    exact absurd hj (Nat.not_lt_zero j)
  exact Bool.false_ne_true hcomplete

end OpaFm.Multicast

