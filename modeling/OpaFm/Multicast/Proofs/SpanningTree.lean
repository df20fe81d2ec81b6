import Mathlib.Data.Fintype.EquivFin
import Mathlib.Data.Fintype.Sets
import Mathlib.Data.List.Pairwise
import OpaFm.Lib.BfsRoutes
import OpaFm.Lib.FirstMatch
import OpaFm.Multicast.SpanningTree

/-!
# When a complete search is a tree

The search counts links, and reports a complete tree when there is one for every
switch but the root.  Each switch then has a parent: of the switches with a good link
to it, the one with the least route of active links from the root.  That one may come
later than the switch itself, and then nothing keeps the parents from going round in a
circle.
-/

namespace OpaFm.Multicast

open OpaFm.Fabric OpaFm.Lib

/-- A topology with a root switch. -/
structure RootedFabric where
  topop : Topology
  root : Node
  distinct : (topop.nodes.map Node.index).Nodup
  root_mem : root ∈ topop.switches

structure TreeLink where
  peer : Nat
  nodeno : Nat
  portno : Nat

/-! ## Nodes by index -/

theorem smFindNode_iff {topop : Topology} (hdistinct : (topop.nodes.map Node.index).Nodup)
    {i : Nat} {n : Node} :
    smFindNode topop (some i) = some n ↔ n ∈ topop.nodes ∧ n.index = i := by
  simp only [smFindNode, Option.bind_some]
  exact find?_key_iff hdistinct

theorem mem_switches {topop : Topology} {n : Node} :
    n ∈ topop.switches ↔ n ∈ topop.nodes ∧ n.nodeType = .switch := by
  simp [Topology.switches]

theorem switches_distinct {topop : Topology} (hdistinct : (topop.nodes.map Node.index).Nodup) :
    (topop.switches.map Node.index).Nodup :=
  hdistinct.sublist (List.filter_sublist.map _)

/-! ## Entries and links -/

def attachFirst (nodes : List McNode) (links : List TreeLink) (m : McNode) : McNode :=
  match links.find? fun l => l.peer = m.index with
  | none => m
  | some l =>
    { m with
      nodeno := some l.nodeno
      portno := some l.portno
      parent := nodes.findIdx? fun k => k.index = l.nodeno }

@[simp] theorem attachFirst_index (nodes : List McNode) (links : List TreeLink) (m : McNode) :
    (attachFirst nodes links m).index = m.index := by
  unfold attachFirst
  split <;> rfl

def hasLink (links : List TreeLink) (m : McNode) : Bool :=
  (links.find? fun l => l.peer = m.index).isSome

structure Attached (nodes : List McNode) (links : List TreeLink) (s : SpanState) : Prop where
  nodes_eq : s.mcNodes = nodes.map (attachFirst nodes links)
  links_eq : s.numLinks = nodes.countP (hasLink links)

theorem hasLink_append (links : List TreeLink) (l : TreeLink) (m : McNode) :
    hasLink (links ++ [l]) m = (hasLink links m || decide (l.peer = m.index)) := by
  unfold hasLink
  rw [List.find?_append]
  cases links.find? fun l => l.peer = m.index with
  | some l' => simp
  | none => by_cases h : l.peer = m.index <;> simp [h]

theorem attachFirst_append_of_ne {nodes : List McNode} {links : List TreeLink} {l : TreeLink}
    {m : McNode} (h : hasLink links m = true ∨ l.peer ≠ m.index) :
    attachFirst nodes (links ++ [l]) m = attachFirst nodes links m := by
  unfold attachFirst
  rw [List.find?_append]
  cases hfind : links.find? fun l => l.peer = m.index with
  | some l' => rfl
  | none =>
    have hne : l.peer ≠ m.index := by
      rcases h with h | h
      · simp [hasLink, hfind] at h
      · exact h
    simp [hne]

theorem attachFirst_append_of_eq {nodes : List McNode} {links : List TreeLink} {l : TreeLink}
    {m : McNode} (hnone : hasLink links m = false) (hpeer : l.peer = m.index) :
    attachFirst nodes (links ++ [l]) m =
      { m with
        nodeno := some l.nodeno
        portno := some l.portno
        parent := nodes.findIdx? fun k => k.index = l.nodeno } := by
  have hfind : links.find? (fun l => l.peer = m.index) = none := by
    simpa [hasLink] using hnone
  unfold attachFirst
  rw [List.find?_append, hfind]
  simp [hpeer]

theorem attachFirst_of_not_hasLink {nodes : List McNode} {links : List TreeLink} {m : McNode}
    (h : hasLink links m = false) : attachFirst nodes links m = m := by
  have hfind : links.find? (fun l => l.peer = m.index) = none := by simpa [hasLink] using h
  simp [attachFirst, hfind]

theorem attachFirst_nodeno {nodes : List McNode} {links : List TreeLink} {m : McNode}
    (hnone : m.nodeno = none) :
    (attachFirst nodes links m).nodeno = none ↔ hasLink links m = false := by
  unfold attachFirst hasLink
  cases links.find? fun l => l.peer = m.index with
  | none => simp [hnone]
  | some l => simp

theorem countP_or_index {nodes : List McNode} {p : McNode → Bool} {x : Nat}
    (hdistinct : (nodes.map McNode.index).Nodup) (hx : x ∈ nodes.map McNode.index)
    (hp : ∀ m ∈ nodes, m.index = x → p m = false) :
    nodes.countP (fun m => p m || decide (x = m.index)) = nodes.countP p + 1 := by
  induction nodes with
  | nil => simp at hx
  | cons m nodes ih =>
    rw [List.map_cons, List.nodup_cons] at hdistinct
    by_cases hm : m.index = x
    · have hrest : nodes.countP (fun k => p k || decide (x = k.index)) = nodes.countP p := by
        apply List.countP_congr
        intro k hk
        have hne : x ≠ k.index := by
          rintro rfl
          exact hdistinct.1 (hm ▸ List.mem_map_of_mem hk)
        simp [hne]
      rw [List.countP_cons, List.countP_cons, hrest, hp m List.mem_cons_self hm]
      simp [hm]
    · have hx' : x ∈ nodes.map McNode.index := by
        rcases List.mem_cons.mp (List.map_cons ▸ hx) with h | h
        · exact absurd h.symm hm
        · exact h
      rw [List.countP_cons, List.countP_cons,
        ih hdistinct.2 hx' fun k hk => hp k (List.mem_cons_of_mem _ hk)]
      simp [Ne.symm hm]
      omega

section Search

variable {nodes : List McNode} (hdistinct : (nodes.map McNode.index).Nodup)
  (hinit : ∀ m ∈ nodes, m.nodeno = none)

include hdistinct hinit

theorem Attached.attachPeer {links : List TreeLink} {s : SpanState} (h : Attached nodes links s)
    {peer : Node} (hpeer : peer.index ∈ nodes.map McNode.index) (nodep : Node) (portp : Port) :
    Attached nodes (links ++ [⟨peer.index, nodep.index, portp.index⟩])
      (attachPeer peer nodep portp s) := by
  obtain ⟨m₀, hm₀, hindex₀⟩ := List.mem_map.mp hpeer
  have htest : (s.mcNodes.any fun m => m.index = peer.index ∧ m.nodeno = none) = true ↔
      hasLink links m₀ = false := by
    rw [h.nodes_eq, List.any_map, List.any_eq_true]
    constructor
    · rintro ⟨m, hm, htest⟩
      simp only [Function.comp_apply, attachFirst_index, decide_eq_true_eq] at htest
      obtain rfl := List.inj_on_of_nodup_map hdistinct hm hm₀ (htest.1.trans hindex₀.symm)
      exact (attachFirst_nodeno (hinit m hm)).mp htest.2
    · intro hnone
      refine ⟨m₀, hm₀, ?_⟩
      simp only [Function.comp_apply, attachFirst_index, decide_eq_true_eq]
      exact ⟨hindex₀, (attachFirst_nodeno (hinit m₀ hm₀)).mpr hnone⟩
  unfold Multicast.attachPeer
  cases hhas : hasLink links m₀ with
  | true =>
    rw [if_neg (by rw [htest, hhas]; decide)]
    have hall : ∀ m ∈ nodes, hasLink links m = true ∨ peer.index ≠ m.index := by
      intro m hm
      by_cases hne : peer.index = m.index
      · obtain rfl := List.inj_on_of_nodup_map hdistinct hm hm₀ (hne.symm.trans hindex₀.symm)
        exact .inl hhas
      · exact .inr hne
    constructor
    · rw [h.nodes_eq]
      exact List.map_congr_left fun m hm => (attachFirst_append_of_ne (hall m hm)).symm
    · rw [h.links_eq]
      apply List.countP_congr
      intro m hm
      rw [hasLink_append]
      rcases hall m hm with htrue | hne
      · simp [htrue]
      · simp [hne]
  | false =>
    rw [if_pos (htest.mpr hhas)]
    have hnone : ∀ m ∈ nodes, m.index = peer.index → hasLink links m = false := by
      intro m hm hne
      obtain rfl := List.inj_on_of_nodup_map hdistinct hm hm₀ (hne.trans hindex₀.symm)
      exact hhas
    constructor
    · have hfound : s.mcNodes.findIdx? (fun m => m.index = nodep.index) =
          nodes.findIdx? fun m => m.index = nodep.index := by
        rw [h.nodes_eq, List.findIdx?_map]
        simp only [Function.comp_def, attachFirst_index]
      simp only [hfound]
      rw [h.nodes_eq, List.map_map]
      apply List.map_congr_left
      intro m hm
      simp only [Function.comp_apply, attachFirst_index]
      by_cases hm' : m.index = peer.index
      · rw [if_pos hm', attachFirst_of_not_hasLink (hnone m hm hm'),
          attachFirst_append_of_eq (hnone m hm hm') hm'.symm]
      · rw [if_neg hm', attachFirst_append_of_ne (.inr (Ne.symm hm'))]
    · simp only [h.links_eq]
      rw [← countP_or_index hdistinct hpeer hnone]
      exact List.countP_congr fun m _ => by rw [hasLink_append]

end Search

/-! ## The search -/

section

variable (F : RootedFabric) (mtu rate : Nat)

def activePeers (n : Node) : List Nat :=
  (physicalPorts n).filterMap fun p => (islPeer F.topop F.root true n p).map Node.index

def goodLinks (n : Node) : List TreeLink :=
  (physicalPorts n).filterMap fun p =>
    if meetsMtuRate mtu rate p then
      (islPeer F.topop F.root true n p).map fun peer => ⟨peer.index, n.index, p.index⟩
    else none

def atSwitch {α : Type} (f : Node → List α) (i : Nat) : List α :=
  match smFindNode F.topop (some i) with
  | none => []
  | some n => f n

def visitOrder : List Nat :=
  (bfs (atSwitch F (activePeers F)) F.topop.switches.length [F.root.index] []).getD []

def linksAlong (order : List Nat) : List TreeLink :=
  order.flatMap (atSwitch F (goodLinks F mtu rate))

def switchSet : Finset Nat := (F.topop.switches.map Node.index).toFinset

end

section Loop

variable {F : RootedFabric} {mtu rate : Nat}

theorem mem_switchSet {i : Nat} : i ∈ switchSet F ↔ ∃ n ∈ F.topop.switches, n.index = i := by
  simp [switchSet]

theorem islPeer_some {n peer : Node} {p : Port} (h : islPeer F.topop F.root true n p = some peer) :
    peer ∈ F.topop.switches ∧ p.nodeno = some peer.index ∧ peer.index ≠ n.index ∧
      peer.index ≠ F.root.index ∧ smValidPort p = true ∧ p.state = .active := by
  simp only [islPeer, ↓reduceIte] at h
  split at h
  · rename_i hcond
    obtain ⟨hvalid, hstate, hnode, -, hroot, hself⟩ := hcond
    obtain ⟨hfind, htype⟩ := Option.filter_eq_some_iff.mp h
    obtain ⟨i, hi⟩ := Option.ne_none_iff_exists'.mp hnode
    rw [hi] at hfind hroot hself ⊢
    obtain ⟨hmem, rfl⟩ := (smFindNode_iff F.distinct).mp hfind
    refine ⟨mem_switches.mpr ⟨hmem, of_decide_eq_true htype⟩, rfl, ?_, ?_, hvalid, ?_⟩
    · exact fun heq => hself (by rw [heq])
    · exact fun heq => hroot (by rw [heq])
    · cases hs : p.state <;> simp [hs, PortState.code] at hstate ⊢
  · cases h

theorem activePeers_mem {n : Node} {i : Nat} (h : i ∈ activePeers F n) :
    i ∈ switchSet F ∧ i ≠ n.index := by
  obtain ⟨p, -, hp⟩ := List.mem_filterMap.mp h
  obtain ⟨peer, hpeer, rfl⟩ := Option.map_eq_some_iff.mp hp
  obtain ⟨hmem, -, hne, -⟩ := islPeer_some hpeer
  exact ⟨mem_switchSet.mpr ⟨peer, hmem, rfl⟩, hne⟩

theorem atSwitch_eq {α : Type} {f : Node → List α} {n : Node} (hn : n ∈ F.topop.switches) :
    atSwitch F f n.index = f n := by
  have hfind : smFindNode F.topop (some n.index) = some n :=
    (smFindNode_iff F.distinct).mpr ⟨(mem_switches.mp hn).1, rfl⟩
  simp [atSwitch, hfind]

theorem smFindNode_switch {i : Nat} (hi : i ∈ switchSet F) :
    ∃ n ∈ F.topop.switches, n.index = i ∧ smFindNode F.topop (some i) = some n := by
  obtain ⟨n, hn, rfl⟩ := mem_switchSet.mp hi
  exact ⟨n, hn, rfl, (smFindNode_iff F.distinct).mpr ⟨(mem_switches.mp hn).1, rfl⟩⟩

theorem initMcNodes_index : (initMcNodes F.topop).map McNode.index =
    F.topop.switches.map Node.index := by
  simp [initMcNodes]

theorem initMcNodes_distinct : ((initMcNodes F.topop).map McNode.index).Nodup := by
  rw [initMcNodes_index]
  exact switches_distinct F.distinct

theorem initMcNodes_nodeno {m : McNode} (hm : m ∈ initMcNodes F.topop) : m.nodeno = none := by
  obtain ⟨n, -, rfl⟩ := List.mem_map.mp hm
  rfl

theorem mem_initMcNodes_index {i : Nat} :
    i ∈ (initMcNodes F.topop).map McNode.index ↔ i ∈ switchSet F := by
  rw [initMcNodes_index, switchSet, List.mem_toFinset]

@[simp] theorem attachPeer_swlist (peer nodep : Node) (portp : Port) (s : SpanState) :
    (attachPeer peer nodep portp s).swlist = s.swlist := by
  unfold attachPeer
  split <;> rfl

@[simp] theorem attachPeer_chkDone (peer nodep : Node) (portp : Port) (s : SpanState) :
    (attachPeer peer nodep portp s).chkDone = s.chkDone := by
  unfold attachPeer
  split <;> rfl

theorem listPeer_eq {peer : Node} {s : SpanState} {i : Nat} (hne : peer.index ≠ i) :
    listPeer peer s =
      { s with swlist := enqueueNew (s.chkDone ++ [i]) s.swlist peer.index } := by
  unfold listPeer enqueueNew
  by_cases hdone : peer.index ∈ s.chkDone <;> by_cases hq : peer.index ∈ s.swlist <;>
    simp [hdone, hq, hne]

theorem spanPorts_spec (mtu rate : Nat) (n : Node) (ports : List Port) {links : List TreeLink} {s : SpanState}
    (hs : Attached (initMcNodes F.topop) links s) :
    let s' := ports.foldl (spanPort F.topop F.root true mtu rate n) s
    Attached (initMcNodes F.topop)
        (links ++ ports.filterMap fun p =>
          if meetsMtuRate mtu rate p then
            (islPeer F.topop F.root true n p).map fun peer => ⟨peer.index, n.index, p.index⟩
          else none) s' ∧
      s'.chkDone = s.chkDone ∧
      s'.swlist = (ports.filterMap fun p => (islPeer F.topop F.root true n p).map Node.index).foldl
        (enqueueNew (s.chkDone ++ [n.index])) s.swlist := by
  induction ports generalizing links s with
  | nil => exact ⟨by simpa using hs, rfl, rfl⟩
  | cons p ports ih =>
    simp only [List.foldl_cons]
    cases hpeer : islPeer F.topop F.root true n p with
    | none =>
      have hstep : spanPort F.topop F.root true mtu rate n s p = s := by
        simp [spanPort, hpeer]
      rw [hstep]
      simpa [hpeer] using ih hs
    | some peer =>
      obtain ⟨hmem, -, hne, -⟩ := islPeer_some hpeer
      have hin : peer.index ∈ (initMcNodes F.topop).map McNode.index :=
        mem_initMcNodes_index.mpr (mem_switchSet.mpr ⟨peer, hmem, rfl⟩)
      have hlist : Attached (initMcNodes F.topop) links (listPeer peer s) := by
        rw [listPeer_eq hne]
        exact ⟨hs.nodes_eq, hs.links_eq⟩
      cases hmeets : meetsMtuRate mtu rate p with
      | false =>
        have hstep : spanPort F.topop F.root true mtu rate n s p = listPeer peer s := by
          simp [spanPort, hpeer, hmeets]
        obtain ⟨hatt, hdone, hq⟩ := ih hlist
        rw [hstep]
        rw [listPeer_eq hne] at hatt hdone hq ⊢
        refine ⟨by simpa [hmeets] using hatt, hdone, ?_⟩
        simpa [hpeer] using hq
      | true =>
        have hstep : spanPort F.topop F.root true mtu rate n s p =
            attachPeer peer n p (listPeer peer s) := by
          simp [spanPort, hpeer, hmeets]
        have hatt := hlist.attachPeer initMcNodes_distinct
          (fun m hm => initMcNodes_nodeno hm) hin n p
        obtain ⟨hatt', hdone, hq⟩ := ih hatt
        rw [hstep]
        refine ⟨by simpa [hpeer, hmeets] using hatt', ?_, ?_⟩
        · rw [hdone, attachPeer_chkDone, listPeer_eq hne]
        · rw [hq, attachPeer_chkDone, attachPeer_swlist, listPeer_eq hne]
          simp [hpeer]

theorem spanSwitch_spec {n : Node} (hn : n ∈ F.topop.switches) {s : SpanState}
    (hs : Attached (initMcNodes F.topop) (linksAlong F mtu rate s.chkDone) s) :
    let s' := spanSwitch F.topop F.root true mtu rate n s
    Attached (initMcNodes F.topop) (linksAlong F mtu rate (s.chkDone ++ [n.index])) s' ∧
      s'.chkDone = s.chkDone ++ [n.index] ∧
      s'.swlist = (atSwitch F (activePeers F) n.index).foldl
        (enqueueNew (s.chkDone ++ [n.index])) s.swlist := by
  obtain ⟨hatt, hdone, hq⟩ := spanPorts_spec mtu rate n (physicalPorts n) hs
  refine ⟨⟨?_, ?_⟩, ?_, ?_⟩
  · rw [linksAlong, List.flatMap_append, List.flatMap_singleton, atSwitch_eq hn]
    exact hatt.nodes_eq
  · rw [linksAlong, List.flatMap_append, List.flatMap_singleton, atSwitch_eq hn]
    exact hatt.links_eq
  · simp only [spanSwitch, hdone]
  · rw [atSwitch_eq hn]
    exact hq

theorem mem_foldl_enqueueNew {done queue l : List Nat} {i : Nat}
    (h : i ∈ l.foldl (enqueueNew done) queue) : i ∈ queue ∨ i ∈ l := by
  induction l generalizing queue with
  | nil => exact .inl h
  | cons x l ih =>
    rcases ih h with hi | hi
    · unfold enqueueNew at hi
      split at hi
      · exact .inl hi
      · rcases List.mem_append.mp hi with hi | hi
        · exact .inl hi
        · exact .inr (List.mem_singleton.mp hi ▸ List.mem_cons_self)
    · exact .inr (List.mem_cons_of_mem _ hi)

theorem spanLoop_spec {fuel : Nat} {n : Node} (hn : n ∈ F.topop.switches) {s : SpanState}
    (hs : Attached (initMcNodes F.topop) (linksAlong F mtu rate s.chkDone) s)
    (hlisted : ∀ i ∈ s.swlist, i ∈ switchSet F) {order : List Nat}
    (horder : bfs (atSwitch F (activePeers F)) fuel (n.index :: s.swlist) s.chkDone = some order) :
    ∃ s', spanLoop F.topop F.root true mtu rate fuel (some n) s = some s' ∧
      Attached (initMcNodes F.topop) (linksAlong F mtu rate order) s' := by
  induction fuel generalizing n s with
  | zero => cases horder
  | succ fuel ih =>
    obtain ⟨hatt, hdone, hq⟩ := spanSwitch_spec hn hs
    rw [bfs, ← hq, ← hdone] at horder
    rw [← hdone] at hatt
    rw [spanLoop]
    have hlisted' : ∀ i ∈ (spanSwitch F.topop F.root true mtu rate n s).swlist,
        i ∈ switchSet F := by
      intro i hi
      rw [hq, atSwitch_eq hn] at hi
      rcases mem_foldl_enqueueNew hi with hi | hi
      · exact hlisted i hi
      · exact (activePeers_mem hi).1
    cases hlist : (spanSwitch F.topop F.root true mtu rate n s).swlist with
    | nil =>
      rw [hlist] at horder
      have hend : (spanSwitch F.topop F.root true mtu rate n s).chkDone = order := by
        cases fuel <;> exact Option.some.inj horder
      refine ⟨_, ?_, hend ▸ hatt⟩
      cases fuel <;> rfl
    | cons i rest =>
      obtain ⟨k, hk, rfl, hfind⟩ := smFindNode_switch (hlisted' i (by rw [hlist]; simp))
      rw [hlist] at horder
      simp only [hfind]
      refine ih hk ⟨hatt.nodes_eq, hatt.links_eq⟩ (fun j hj => ?_) horder
      exact hlisted' j (by rw [hlist]; exact List.mem_cons_of_mem _ hj)

theorem atSwitch_activePeers_closed :
    ∀ i ∈ switchSet F, ∀ j ∈ atSwitch F (activePeers F) i, j ∈ switchSet F := by
  intro i hi j hj
  obtain ⟨n, hn, rfl⟩ := mem_switchSet.mp hi
  rw [atSwitch_eq hn] at hj
  exact (activePeers_mem hj).1

theorem root_mem_switchSet : F.root.index ∈ switchSet F :=
  mem_switchSet.mpr ⟨F.root, F.root_mem, rfl⟩

theorem visitOrder_spec :
    bfs (atSwitch F (activePeers F)) F.topop.switches.length [F.root.index] [] =
        some (visitOrder F) ∧
      ∀ i ∈ visitOrder F, i ∈ switchSet F := by
  have hcard : (switchSet F).card = F.topop.switches.length := by
    rw [switchSet, List.toFinset_card_of_nodup (switches_distinct F.distinct), List.length_map]
  have hstart : BfsOk (switchSet F) [] [F.root.index] := by
    constructor
    · simp
    · intro i hi
      obtain rfl := List.mem_singleton.mp hi
      exact root_mem_switchSet
  obtain ⟨order, horder, hmem⟩ := exists_bfs atSwitch_activePeers_closed F.topop.switches.length
    hstart (by simp [hcard])
  have heq : visitOrder F = order := by simp [visitOrder, horder]
  rw [heq]
  exact ⟨horder, hmem⟩

end Loop

/-! ## Trees -/

section

variable (F : RootedFabric) (mtu rate : Nat)

def firstParent (x : Nat) : Option Nat :=
  ((linksAlong F mtu rate (visitOrder F)).find? fun l => l.peer = x).map TreeLink.nodeno

def ParentOf (nodes : List McNode) (m k : McNode) : Prop :=
  ∃ i, m.parent = some i ∧ nodes[i]? = some k

def HangsBy (nodes : List McNode) (m : McNode) : Prop :=
  ∃ n ∈ F.topop.switches, ∃ p ∈ physicalPorts n, ∃ d, ∃ k ∈ nodes,
    ParentOf nodes m k ∧ k.index = n.index ∧ m.nodeno = some n.index ∧
      m.portno = some p.index ∧ p.nodeno = some m.index ∧ p.state = .active ∧
      p.portData = some d ∧ mtu ≤ d.maxVlMtu ∧ linkrateLt d.rate rate = false

/-- The entries are one tree over all switches, below the root. -/
structure IsTree (nodes : List McNode) : Prop where
  all : nodes.map McNode.index = F.topop.switches.map Node.index
  hangs : ∀ m ∈ nodes, m.index ≠ F.root.index → HangsBy F mtu rate nodes m
  root : ∀ m ∈ nodes, m.index = F.root.index → m.parent = none
  rooted : ∀ m ∈ nodes, ∃ r ∈ nodes, r.index = F.root.index ∧
    Relation.ReflTransGen (ParentOf nodes) m r

/-! ### Links and routes of the fabric -/

def GoodLink (u x : Nat) : Prop :=
  ∃ n ∈ F.topop.switches, n.index = u ∧ ∃ p ∈ physicalPorts n, ∃ peer,
    islPeer F.topop F.root true n p = some peer ∧ peer.index = x ∧
      meetsMtuRate mtu rate p = true

def ActiveRoute (r : List Nat) (x : Nat) : Prop :=
  Route (atSwitch F (activePeers F)) F.root.index r x

def Nearer (u w : Nat) : Prop := Before (atSwitch F (activePeers F)) F.root.index u w

structure FirstLink (u x : Nat) : Prop where
  reached : ∃ r, ActiveRoute F r u
  good : GoodLink F mtu rate u x
  nearest : ∀ w, GoodLink F mtu rate w x → ¬Nearer F w u

/-- A switch other than the root has no good link from a switch that a route leads to. -/
def LeftOut : Prop :=
  ∃ n ∈ F.topop.switches, n.index ≠ F.root.index ∧
    ∀ u r, ActiveRoute F r u → ¬GoodLink F mtu rate u n.index

/-- Switches in a circle, for each of which the next is the nearest with a good link to it. -/
def Circle : Prop := ∃ x, Relation.TransGen (FirstLink F mtu rate) x x

end

section Trees

variable {F : RootedFabric} {mtu rate : Nat}

theorem mem_linksAlong {order : List Nat} {l : TreeLink} (hl : l ∈ linksAlong F mtu rate order) :
    l.nodeno ∈ order ∧ l.peer ∈ switchSet F ∧ l.peer ≠ F.root.index ∧
      ∃ n ∈ F.topop.nodes, ∃ p ∈ physicalPorts n, ∃ d, n.index = l.nodeno ∧ p.index = l.portno ∧
        p.nodeno = some l.peer ∧ p.state = .active ∧ p.portData = some d ∧ mtu ≤ d.maxVlMtu ∧
        linkrateLt d.rate rate = false := by
  obtain ⟨i, hi, hl⟩ := List.mem_flatMap.mp hl
  unfold atSwitch at hl
  split at hl
  · cases hl
  · rename_i n hfind
    obtain ⟨hmem, rfl⟩ := (smFindNode_iff F.distinct).mp hfind
    obtain ⟨p, hp, hlink⟩ := List.mem_filterMap.mp hl
    split at hlink
    · rename_i hmeets
      obtain ⟨peer, hpeer, rfl⟩ := Option.map_eq_some_iff.mp hlink
      obtain ⟨hswitch, hnodeno, -, hroot, -, hactive⟩ := islPeer_some hpeer
      have hin : peer.index ∈ switchSet F := mem_switchSet.mpr ⟨peer, hswitch, rfl⟩
      unfold meetsMtuRate at hmeets
      cases hd : p.portData with
      | none => simp [hd] at hmeets
      | some d =>
        simp only [hd, Option.any_some, Bool.not_eq_true, decide_eq_true_eq] at hmeets
        exact ⟨hi, hin, hroot, n, hmem, p, hp, d, rfl, rfl, hnodeno, hactive, hd, hmeets.1, hmeets.2⟩
    · cases hlink

/-! ### The first parent -/

theorem mem_goodLinks_iff {u x : Nat} (hu : u ∈ switchSet F) :
    (∃ l ∈ atSwitch F (goodLinks F mtu rate) u, l.peer = x) ↔ GoodLink F mtu rate u x := by
  obtain ⟨n, hn, rfl⟩ := mem_switchSet.mp hu
  rw [atSwitch_eq hn]
  constructor
  · rintro ⟨l, hl, rfl⟩
    obtain ⟨p, hp, hlink⟩ := List.mem_filterMap.mp hl
    split at hlink
    · rename_i hmeets
      obtain ⟨peer, hpeer, rfl⟩ := Option.map_eq_some_iff.mp hlink
      exact ⟨n, hn, rfl, p, hp, peer, hpeer, rfl, hmeets⟩
    · cases hlink
  · rintro ⟨n', hn', hsame, p, hp, peer, hpeer, rfl, hmeets⟩
    obtain rfl := List.inj_on_of_nodup_map (switches_distinct F.distinct) hn' hn hsame
    exact ⟨⟨peer.index, n'.index, p.index⟩,
      List.mem_filterMap.mpr ⟨p, hp, by rw [if_pos hmeets, hpeer, Option.map_some]⟩, rfl⟩

theorem nodeno_of_mem {u : Nat} {l : TreeLink} (hl : l ∈ atSwitch F (goodLinks F mtu rate) u) :
    l.nodeno = u := by
  have hmem : l ∈ linksAlong F mtu rate [u] := by
    rw [linksAlong, List.flatMap_singleton]
    exact hl
  exact List.mem_singleton.mp (mem_linksAlong hmem).1

theorem mem_visitOrder_iff {u : Nat} : u ∈ visitOrder F ↔ ∃ r, ActiveRoute F r u :=
  mem_bfs_iff visitOrder_spec.1

theorem visitOrder_sorted : (visitOrder F).Pairwise (Nearer F) := pairwise_bfs visitOrder_spec.1

theorem firstParent_eq_none_iff {x : Nat} :
    firstParent F mtu rate x = none ↔
      ∀ u r, ActiveRoute F r u → ¬GoodLink F mtu rate u x := by
  unfold firstParent linksAlong
  rw [Option.map_eq_none_iff, List.find?_flatMap_eq_none_iff]
  constructor
  · intro h u r hr hgood
    have hu := mem_visitOrder_iff.mpr ⟨r, hr⟩
    obtain ⟨l, hl, hpeer⟩ := (mem_goodLinks_iff (visitOrder_spec.2 u hu)).mpr hgood
    simpa [hpeer] using h u hu l hl
  · intro h u hu l hl
    obtain ⟨r, hr⟩ := mem_visitOrder_iff.mp hu
    have hnot := h u r hr
    rw [← mem_goodLinks_iff (visitOrder_spec.2 u hu)] at hnot
    simpa using fun hpeer => hnot ⟨l, hl, hpeer⟩

theorem firstLink_of_firstParent {u x : Nat} (h : firstParent F mtu rate x = some u) :
    FirstLink F mtu rate u x := by
  obtain ⟨l, hfind, rfl⟩ := Option.map_eq_some_iff.mp h
  rw [linksAlong, List.find?_flatMap, List.findSome?_eq_some_iff] at hfind
  obtain ⟨earlier, i, later, horder, hfirst, hnone⟩ := hfind
  have hl := List.mem_of_find?_eq_some hfirst
  have hpeer : l.peer = x := by simpa using List.find?_some hfirst
  rw [nodeno_of_mem hl]
  have hmem : ∀ w, w ∈ earlier ∨ w = i ∨ w ∈ later ↔ w ∈ visitOrder F := by
    intro w
    rw [horder, List.mem_append, List.mem_cons]
  have hi : i ∈ visitOrder F := (hmem i).mp (.inr (.inl rfl))
  have hswitch := visitOrder_spec.2 i hi
  refine ⟨mem_visitOrder_iff.mp hi, (mem_goodLinks_iff hswitch).mp ⟨l, hl, hpeer⟩, ?_⟩
  intro w hgood hnearer
  have hsorted := visitOrder_sorted (F := F)
  rw [horder, List.pairwise_append, List.pairwise_cons] at hsorted
  have hw : w ∈ visitOrder F := by
    obtain ⟨r, hr, -⟩ := hnearer
    exact mem_visitOrder_iff.mpr ⟨r, hr⟩
  rcases (hmem w).mpr hw with hw' | rfl | hw'
  · -- a switch before `i` has no good link to `x`
    obtain ⟨l', hl', hpeer'⟩ := (mem_goodLinks_iff (visitOrder_spec.2 w hw)).mpr hgood
    have hno := List.find?_eq_none.mp (hnone w hw') l' hl'
    simp [hpeer'] at hno
  · exact Before.asymm hnearer hnearer
  · exact Before.asymm hnearer (hsorted.2.1.1 w hw')

theorem nearer_or {u w : Nat} (hu : ∃ r, ActiveRoute F r u) (hw : ∃ r, ActiveRoute F r w)
    (hne : u ≠ w) : Nearer F u w ∨ Nearer F w u := by
  have hsymm : Std.Symm fun u w => Nearer F u w ∨ Nearer F w u := ⟨fun _ _ => Or.symm⟩
  have heither : (visitOrder F).Pairwise fun u w => Nearer F u w ∨ Nearer F w u :=
    visitOrder_sorted.imp .inl
  exact heither.forall (mem_visitOrder_iff.mpr hu) (mem_visitOrder_iff.mpr hw) hne

theorem FirstLink.functional {u u' x : Nat} (h : FirstLink F mtu rate u x)
    (h' : FirstLink F mtu rate u' x) : u = u' := by
  by_contra hne
  rcases nearer_or h.reached h'.reached hne with hnear | hnear
  · exact h'.nearest u h.good hnear
  · exact h.nearest u' h'.good hnear

theorem firstParent_iff {u x : Nat} :
    firstParent F mtu rate x = some u ↔ FirstLink F mtu rate u x := by
  constructor
  · exact firstLink_of_firstParent
  · intro h
    cases hfirst : firstParent F mtu rate x with
    | none =>
      obtain ⟨r, hr⟩ := h.reached
      exact absurd h.good (firstParent_eq_none_iff.mp hfirst u r hr)
    | some u' => rw [(firstLink_of_firstParent hfirst).functional h]

theorem hasLink_iff_firstParent {m : McNode} :
    hasLink (linksAlong F mtu rate (visitOrder F)) m = true ↔
      firstParent F mtu rate m.index ≠ none := by
  unfold hasLink firstParent
  cases (linksAlong F mtu rate (visitOrder F)).find? fun l => l.peer = m.index <;> simp

theorem not_hasLink_root {m : McNode} (hm : m.index = F.root.index) (order : List Nat) :
    hasLink (linksAlong F mtu rate order) m = false := by
  unfold hasLink
  rw [Option.isSome_eq_false_iff, Option.isNone_iff_eq_none, List.find?_eq_none]
  intro l hl
  have hne := (mem_linksAlong hl).2.2.1
  simpa [hm] using hne

theorem countP_add_one_iff {nodes : List McNode} {p : McNode → Bool} {x : Nat}
    (hdistinct : (nodes.map McNode.index).Nodup) (hx : x ∈ nodes.map McNode.index)
    (hp : ∀ m ∈ nodes, m.index = x → p m = false) :
    nodes.countP p + 1 = nodes.length ↔ ∀ m ∈ nodes, m.index ≠ x → p m = true := by
  rw [← countP_or_index hdistinct hx hp, List.countP_eq_length]
  constructor
  · intro h m hm hne
    have hor := h m hm
    simpa [Ne.symm hne] using hor
  · intro h m hm
    by_cases hne : x = m.index
    · simp [hne]
    · simp [h m hm (Ne.symm hne)]

def finalNodes (F : RootedFabric) (mtu rate : Nat) : List McNode :=
  (initMcNodes F.topop).map
    (attachFirst (initMcNodes F.topop) (linksAlong F mtu rate (visitOrder F)))

theorem smIdealSpanningTree_eq :
    smIdealSpanningTree F.topop F.root true mtu rate F.topop.switches.length =
      some (finalNodes F mtu rate, decide (∀ n ∈ F.topop.switches, n.index ≠ F.root.index →
        firstParent F mtu rate n.index ≠ none)) := by
  have hstart : Attached (initMcNodes F.topop) (linksAlong F mtu rate [])
      { mcNodes := initMcNodes F.topop } := by
    constructor
    · exact (List.map_id' _).symm.trans (List.map_congr_left fun m _ => rfl)
    · exact (List.countP_eq_zero.mpr fun m _ => by simp [hasLink, linksAlong]).symm
  have hlisted : ∀ i ∈ ({ mcNodes := initMcNodes F.topop } : SpanState).swlist,
      i ∈ switchSet F := by
    intro i hi
    cases hi
  obtain ⟨s, hrun, hatt⟩ := spanLoop_spec F.root_mem hstart hlisted visitOrder_spec.1
  unfold smIdealSpanningTree
  rw [hrun, Option.map_some, hatt.nodes_eq, hatt.links_eq]
  congr 2
  rw [decide_eq_decide, List.length_map,
    countP_add_one_iff initMcNodes_distinct (mem_initMcNodes_index.mpr root_mem_switchSet)
      fun m _ hm => not_hasLink_root hm _]
  constructor
  · intro h n hn hne
    exact hasLink_iff_firstParent.mp (h ⟨n.index, none, none, none, 0⟩ (List.mem_map_of_mem hn) hne)
  · intro h m hm hne
    obtain ⟨n, hn, rfl⟩ := List.mem_map.mp hm
    exact hasLink_iff_firstParent.mpr (h n hn hne)

theorem finalNodes_index (F : RootedFabric) (mtu rate : Nat) :
    (finalNodes F mtu rate).map McNode.index = F.topop.switches.map Node.index := by
  rw [finalNodes, List.map_map, ← initMcNodes_index]
  exact List.map_congr_left fun m _ => attachFirst_index _ _ m

theorem mem_finalNodes {m : McNode} (hm : m ∈ finalNodes F mtu rate) :
    ∃ n ∈ F.topop.switches, m.index = n.index ∧
      m = attachFirst (initMcNodes F.topop) (linksAlong F mtu rate (visitOrder F))
        { index := n.index } := by
  obtain ⟨m₀, hm₀, rfl⟩ := List.mem_map.mp hm
  obtain ⟨n, hn, rfl⟩ := List.mem_map.mp hm₀
  exact ⟨n, hn, attachFirst_index _ _ _, rfl⟩

theorem exists_finalNode {i : Nat} (hi : i ∈ switchSet F) :
    ∃ k ∈ finalNodes F mtu rate, k.index = i := by
  rw [switchSet, List.mem_toFinset, ← finalNodes_index F mtu rate] at hi
  exact List.mem_map.mp hi

theorem parent_eq_none {m : McNode} (hm : m ∈ finalNodes F mtu rate)
    (hnone : firstParent F mtu rate m.index = none) : m.parent = none := by
  obtain ⟨n, -, hindex, hatt⟩ := mem_finalNodes hm
  have hlink : hasLink (linksAlong F mtu rate (visitOrder F)) { index := n.index } = false := by
    rw [Bool.eq_false_iff, ne_eq, hasLink_iff_firstParent, not_not]
    exact hindex ▸ hnone
  rw [hatt, attachFirst_of_not_hasLink hlink]

theorem exists_firstLink {m : McNode} (hm : m ∈ finalNodes F mtu rate) {u : Nat}
    (hu : firstParent F mtu rate m.index = some u) :
    ∃ l ∈ linksAlong F mtu rate (visitOrder F), l.peer = m.index ∧ l.nodeno = u ∧
      m.nodeno = some u ∧ m.portno = some l.portno ∧
      m.parent = (initMcNodes F.topop).findIdx? fun k => k.index = u := by
  obtain ⟨n, -, hindex, hatt⟩ := mem_finalNodes hm
  obtain ⟨l, hfind, rfl⟩ := Option.map_eq_some_iff.mp hu
  have hpeer : l.peer = m.index := by simpa using List.find?_some hfind
  rw [hindex] at hfind
  have hm' : m =
      { index := n.index
        nodeno := some l.nodeno
        portno := some l.portno
        parent := (initMcNodes F.topop).findIdx? fun k => k.index = l.nodeno } := by
    rw [hatt, attachFirst, hfind]
  refine ⟨l, List.mem_of_find?_eq_some hfind, hpeer, rfl, ?_, ?_, ?_⟩ <;> rw [hm']

theorem parentOf_firstParent {m : McNode} (hm : m ∈ finalNodes F mtu rate) {u : Nat}
    (hu : firstParent F mtu rate m.index = some u) :
    ∃ k ∈ finalNodes F mtu rate, ParentOf (finalNodes F mtu rate) m k ∧ k.index = u := by
  obtain ⟨l, hl, -, rfl, -, -, hparent⟩ := exists_firstLink hm hu
  have hmem : l.nodeno ∈ (initMcNodes F.topop).map McNode.index :=
    mem_initMcNodes_index.mpr (visitOrder_spec.2 _ (mem_linksAlong hl).1)
  obtain ⟨k₀, hk₀, hindex⟩ := List.mem_map.mp hmem
  have hfound := List.findIdx?_eq_some_of_exists
    (p := fun k : McNode => decide (k.index = l.nodeno)) ⟨k₀, hk₀, by simpa using hindex⟩
  obtain ⟨hlt, htest, -⟩ := List.findIdx?_eq_some_iff_getElem.mp hfound
  refine ⟨_, List.mem_map_of_mem (List.getElem_mem hlt), ⟨_, hparent.trans hfound, ?_⟩, ?_⟩
  · rw [finalNodes, List.getElem?_map, List.getElem?_eq_getElem hlt]
    rfl
  · rw [attachFirst_index]
    simpa using htest

theorem ParentOf.functional {nodes : List McNode} {m k k' : McNode} (h : ParentOf nodes m k)
    (h' : ParentOf nodes m k') : k = k' := by
  obtain ⟨i, hi, hk⟩ := h
  obtain ⟨j, hj, hk'⟩ := h'
  rw [hi] at hj
  rw [← Option.some.inj hj, hk] at hk'
  exact Option.some.inj hk'

theorem firstParent_of_parentOf {m k : McNode} (hm : m ∈ finalNodes F mtu rate)
    (h : ParentOf (finalNodes F mtu rate) m k) : firstParent F mtu rate m.index = some k.index := by
  cases hu : firstParent F mtu rate m.index with
  | none =>
    obtain ⟨i, hi, -⟩ := h
    rw [parent_eq_none hm hu] at hi
    cases hi
  | some u =>
    obtain ⟨k', -, hk', rfl⟩ := parentOf_firstParent hm hu
    rw [h.functional hk']

theorem hangsBy_of_firstParent {m : McNode} (hm : m ∈ finalNodes F mtu rate) {u : Nat}
    (hu : firstParent F mtu rate m.index = some u) :
    HangsBy F mtu rate (finalNodes F mtu rate) m := by
  obtain ⟨k, hk, hparent, hindex⟩ := parentOf_firstParent hm hu
  obtain ⟨l, hl, hpeer, rfl, hnodeno, hportno, -⟩ := exists_firstLink hm hu
  obtain ⟨hin, -, -, n, hn, p, hp, d, hnindex, hpindex, hto, hactive, hd, hmtu, hrate⟩ :=
    mem_linksAlong hl
  have hswitch : n ∈ F.topop.switches := by
    obtain ⟨n', hn', hsame⟩ := mem_switchSet.mp (visitOrder_spec.2 _ hin)
    have heq := List.inj_on_of_nodup_map F.distinct (mem_switches.mp hn').1 hn
      (hsame.trans hnindex.symm)
    exact heq ▸ hn'
  exact ⟨n, hswitch, p, hp, d, k, hk, hparent, hindex.trans hnindex.symm, hnindex ▸ hnodeno,
    hpindex ▸ hportno, hpeer ▸ hto, hactive, hd, hmtu, hrate⟩

theorem exists_circle {r : Nat → Nat → Prop} {W : Finset Nat} (hne : W.Nonempty)
    (hpred : ∀ x ∈ W, ∃ u ∈ W, r u x) : ∃ x, Relation.TransGen r x x := by
  by_contra hnone
  push Not at hnone
  have hirrefl : Std.Irrefl fun a b : W => Relation.TransGen r a b := ⟨fun a => hnone a⟩
  have htrans : IsTrans W fun a b => Relation.TransGen r a b := ⟨fun _ _ _ => .trans⟩
  have hwf := Finite.wellFounded_of_trans_of_irrefl fun a b : W => Relation.TransGen r a b
  obtain ⟨x, hx⟩ := hne
  obtain ⟨⟨m, hm⟩, -, hmin⟩ := hwf.has_min Set.univ ⟨⟨x, hx⟩, trivial⟩
  obtain ⟨u, hu, hr⟩ := hpred m hm
  exact hmin ⟨u, hu⟩ trivial (.single hr)

theorem rooted_of_not_circle
    (hparent : ∀ n ∈ F.topop.switches, n.index ≠ F.root.index →
      firstParent F mtu rate n.index ≠ none)
    (hcircle : ¬Circle F mtu rate) {m : McNode} (hm : m ∈ finalNodes F mtu rate) :
    ∃ r ∈ finalNodes F mtu rate, r.index = F.root.index ∧
      Relation.ReflTransGen (ParentOf (finalNodes F mtu rate)) m r := by
  classical
  by_contra hlost
  -- the parents of the switches that do not reach the root do not reach it either
  let Lost (k : McNode) : Prop := ¬∃ r ∈ finalNodes F mtu rate, r.index = F.root.index ∧
    Relation.ReflTransGen (ParentOf (finalNodes F mtu rate)) k r
  let W : Finset Nat := (((finalNodes F mtu rate).filter fun k => Lost k).map McNode.index).toFinset
  have hW : ∀ x, x ∈ W ↔ ∃ k ∈ finalNodes F mtu rate, Lost k ∧ k.index = x := by
    intro x
    simp only [W, List.mem_toFinset, List.mem_map, List.mem_filter, decide_eq_true_eq, and_assoc]
  refine hcircle (exists_circle ⟨m.index, (hW _).mpr ⟨m, hm, hlost, rfl⟩⟩ ?_)
  intro x hx
  obtain ⟨k, hk, hlostk, rfl⟩ := (hW x).mp hx
  have hne : k.index ≠ F.root.index := fun heq => hlostk ⟨k, hk, heq, .refl⟩
  obtain ⟨n, hn, hindex, -⟩ := mem_finalNodes hk
  obtain ⟨u, hu⟩ := Option.ne_none_iff_exists'.mp (hparent n hn (hindex ▸ hne))
  rw [← hindex] at hu
  obtain ⟨k', hk', hparent', rfl⟩ := parentOf_firstParent hk hu
  refine ⟨k'.index, (hW _).mpr ⟨k', hk', ?_, rfl⟩, firstParent_iff.mp hu⟩
  rintro ⟨r, hr, hrindex, hreach⟩
  exact hlostk ⟨r, hr, hrindex, .head hparent' hreach⟩

theorem not_circle_of_reaches {m r : McNode} (hm : m ∈ finalNodes F mtu rate)
    (hr : r.index = F.root.index)
    (hreach : Relation.ReflTransGen (ParentOf (finalNodes F mtu rate)) m r) :
    ¬Relation.TransGen (FirstLink F mtu rate) m.index m.index := by
  induction hreach using Relation.ReflTransGen.head_induction_on with
  | refl =>
    intro hcircle
    obtain ⟨u, -, hlast⟩ := Relation.TransGen.tail'_iff.mp hcircle
    obtain ⟨n, -, -, p, -, peer, hpeer, hindex, -⟩ := hlast.good
    exact (islPeer_some hpeer).2.2.2.1 (hindex.trans hr)
  | @head m k hstep _ ih =>
    intro hcircle
    obtain ⟨u, hto, hlast⟩ := Relation.TransGen.tail'_iff.mp hcircle
    have hfirst := firstParent_iff.mp (firstParent_of_parentOf hm hstep)
    obtain rfl := hfirst.functional hlast
    obtain ⟨i, -, hget⟩ := hstep
    exact ih (List.mem_of_getElem? hget) (Relation.TransGen.head' hlast hto)

theorem leftOut_iff : LeftOut F mtu rate ↔ ¬∀ n ∈ F.topop.switches, n.index ≠ F.root.index →
    firstParent F mtu rate n.index ≠ none := by
  unfold LeftOut
  simp only [← firstParent_eq_none_iff]
  push Not
  rfl

theorem mem_switchSet_of_good {u x : Nat} (h : GoodLink F mtu rate u x) : x ∈ switchSet F := by
  obtain ⟨n, -, -, p, -, peer, hpeer, rfl, -⟩ := h
  exact mem_switchSet.mpr ⟨peer, (islPeer_some hpeer).1, rfl⟩

theorem circle_iff_pair
    (halike : ∀ u x, u ≠ F.root.index → GoodLink F mtu rate u x → GoodLink F mtu rate x u) :
    Circle F mtu rate ↔ ∃ x y, FirstLink F mtu rate x y ∧ FirstLink F mtu rate y x := by
  constructor
  · rintro ⟨x, hx⟩
    have hpred : ∀ y, Relation.TransGen (FirstLink F mtu rate) y y →
        ∃ u, Relation.TransGen (FirstLink F mtu rate) u u ∧ FirstLink F mtu rate u y := by
      intro y hy
      obtain ⟨u, hto, hlast⟩ := Relation.TransGen.tail'_iff.mp hy
      exact ⟨u, .head' hlast hto, hlast⟩
    have hroute : ∀ y, Relation.TransGen (FirstLink F mtu rate) y y → ∃ r, ActiveRoute F r y := by
      intro y hy
      obtain ⟨z, hfirst, -⟩ := Relation.TransGen.head'_iff.mp hy
      exact hfirst.reached
    -- the nearest switch in a circle
    obtain ⟨r, ⟨y, hy, hr⟩, hmin⟩ := (List.Shortlex.wf Nat.lt_wfRel.wf).has_min
      {r | ∃ y, Relation.TransGen (FirstLink F mtu rate) y y ∧ ActiveRoute F r y}
      (by obtain ⟨r, hr⟩ := hroute x hx; exact ⟨r, x, hx, hr⟩)
    obtain ⟨u, hu, huy⟩ := hpred y hy
    obtain ⟨w, hw, hwu⟩ := hpred u hu
    have hne : u ≠ F.root.index := by
      obtain ⟨n, -, -, p, -, peer, hpeer, hindex, -⟩ := hwu.good
      exact hindex ▸ (islPeer_some hpeer).2.2.2.1
    have hfar : ¬Nearer F w y := by
      rintro ⟨s, hs, hlater⟩
      exact hmin s ⟨w, hw, hs⟩ (hlater r hr)
    have hwy : w = y := by
      by_contra hne'
      rcases nearer_or hwu.reached ⟨r, hr⟩ hne' with hnear | hnear
      · exact hfar hnear
      · exact hwu.nearest y (halike u y hne huy.good) hnear
    exact ⟨y, u, hwy ▸ hwu, huy⟩
  · rintro ⟨x, y, hxy, hyx⟩
    exact ⟨x, .tail (.single hxy) hyx⟩

/-- The search ends.  A complete result is a tree if and only if a switch is left out or no
switches are in a circle. -/
theorem sm_ideal_spanning_tree_iff (F : RootedFabric) (mtu rate : Nat) :
    ∃ nodes complete,
      smIdealSpanningTree F.topop F.root true mtu rate F.topop.switches.length =
        some (nodes, complete) ∧
      ((complete = true → IsTree F mtu rate nodes) ↔
        LeftOut F mtu rate ∨ ¬Circle F mtu rate) := by
  refine ⟨_, _, smIdealSpanningTree_eq, ?_⟩
  rw [decide_eq_true_eq, leftOut_iff, ← imp_iff_not_or]
  apply imp_congr_right
  intro hparent
  constructor
  · rintro h ⟨x, hx⟩
    obtain ⟨u, -, hlast⟩ := Relation.TransGen.tail'_iff.mp hx
    obtain ⟨m, hm, rfl⟩ := exists_finalNode (mem_switchSet_of_good hlast.good)
    obtain ⟨r, -, hr, hreach⟩ := h.rooted m hm
    exact not_circle_of_reaches hm hr hreach hx
  · intro hcircle
    refine ⟨finalNodes_index F mtu rate, fun m hm hne => ?_, fun m hm hroot => ?_,
      fun m hm => rooted_of_not_circle hparent hcircle hm⟩
    · obtain ⟨n, hn, hindex, -⟩ := mem_finalNodes hm
      obtain ⟨u, hu⟩ := Option.ne_none_iff_exists'.mp (hparent n hn (hindex ▸ hne))
      exact hangsBy_of_firstParent hm (hindex ▸ hu)
    · apply parent_eq_none hm
      by_contra hsome
      have hlink := hasLink_iff_firstParent.mpr hsome
      rw [not_hasLink_root hroot] at hlink
      cases hlink

end Trees

/-! Three switches in a row.  The link from the root to switch 1 has a smaller MTU
than the link from switch 1 to switch 2. -/

def islPort (i maxVlMtu peer peerPort : Nat) : Port :=
  { index := i
    state := .active
    nodeno := some peer
    portno := some peerPort
    portData := some { maxVlMtu := maxVlMtu } }

def rowSwitch (k : Nat) (ports : List Port) : Node :=
  { index := k, numPorts := ports.length, port := fun i => ports.getD (i - 1) {} }

def rowRoot : Node := rowSwitch 0 [islPort 1 ibMtu2048 1 1]

def threeInRow : RootedFabric where
  topop :=
    { nodes := [rowRoot, rowSwitch 1 [islPort 1 ibMtu2048 0 1, islPort 2 ibMtu4096 2 1],
        rowSwitch 2 [islPort 1 ibMtu4096 1 2]]
      maxSws := 3 }
  root := rowRoot
  distinct := by decide
  root_mem := List.mem_cons_self

def circleNodes : List McNode :=
  [{ index := 0 }, { index := 1, nodeno := some 2, portno := some 1, parent := some 2 },
    { index := 2, nodeno := some 1, portno := some 2, parent := some 1 }]

/-- At the larger MTU, switches 1 and 2 are each other's parents, and the result
is reported as complete. -/
theorem sm_ideal_spanning_tree_circle :
    smIdealSpanningTree threeInRow.topop threeInRow.root true ibMtu4096 ibStaticRate100G 3 =
        some (circleNodes, true) ∧
      ¬IsTree threeInRow ibMtu4096 ibStaticRate100G circleNodes := by
  refine ⟨by decide +kernel, fun h => ?_⟩
  obtain ⟨r, -, hroot, hreach⟩ := h.rooted _ (List.mem_cons_of_mem _ List.mem_cons_self)
  have hcircle : r.parent = some 2 ∧ r.index = 1 ∨ r.parent = some 1 ∧ r.index = 2 := by
    clear hroot
    induction hreach with
    | refl => exact .inl ⟨rfl, rfl⟩
    | tail _ hstep ih =>
      obtain ⟨i, hi, hget⟩ := hstep
      rcases ih with ⟨hp, -⟩ | ⟨hp, -⟩ <;>
      · obtain rfl := Option.some.inj (hi.symm.trans hp)
        obtain rfl := Option.some.inj hget
        simp
  have hzero : r.index = 0 := hroot
  omega

end OpaFm.Multicast
