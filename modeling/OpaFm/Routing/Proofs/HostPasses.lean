import OpaFm.Routing.HostPasses
import OpaFm.Lib.FirstMatch
import Mathlib.Data.List.Nodup
import Mathlib.Data.List.Pairwise
import Mathlib.Data.List.Sort

/-!
# Hosts of a wired fabric
-/

namespace OpaFm.Routing

open OpaFm.Fabric

theorem mem_hostLids {nodep : Node} {lid : Nat} :
    lid ∈ hostLids nodep ↔ ∃ portp ∈ liveEndPorts nodep, lid ∈ portLids portp :=
  List.mem_flatMap

theorem nodup_portLids (portp : Port) : (portLids portp).Nodup := by
  unfold portLids
  cases portp.portData with
  | none => exact List.nodup_nil
  | some d => exact List.nodup_range'

namespace Wired

variable {topop : Topology} (w : Wired topop)
include w

omit w in
theorem node_mem {switchp : Node} (h : switchp ∈ topop.switches) : switchp ∈ topop.nodes :=
  (List.mem_filter.mp h).1

omit w in
theorem not_ca {switchp : Node} (h : switchp ∈ topop.switches) : switchp.nodeType ≠ .ca := by
  have := (List.mem_filter.mp h).2
  intro heq
  rw [heq] at this
  cases this

theorem eq_of_index {n n' : Node} (hn : n ∈ topop.nodes) (hn' : n' ∈ topop.nodes)
    (h : n.index = n'.index) : n = n' :=
  List.inj_on_of_nodup_map w.distinct hn hn' h

theorem nodup_switches : topop.switches.Nodup :=
  (List.Nodup.of_map _ w.distinct).filter _

theorem smFindNode_iff {nodeno : Option Nat} {n : Node} :
    smFindNode topop nodeno = some n ↔ n ∈ topop.nodes ∧ nodeno = some n.index := by
  unfold smFindNode
  rw [Option.bind_eq_some_iff]
  constructor
  · rintro ⟨k, rfl, hfind⟩
    obtain ⟨hn, rfl⟩ := (Lib.find?_key_iff w.distinct).mp hfind
    exact ⟨hn, rfl⟩
  · rintro ⟨hn, rfl⟩
    exact ⟨n.index, rfl, (Lib.find?_key_iff w.distinct).mpr ⟨hn, rfl⟩⟩

theorem mem_hostLinks {switchp nodep : Node} {portp : Port} :
    (portp, nodep) ∈ hostLinks topop switchp ↔ portp ∈ physicalPorts switchp ∧
      isLive portp = true ∧ portp.nodeno = some nodep.index ∧ nodep ∈ topop.nodes ∧
        nodep.nodeType = .ca := by
  unfold hostLinks
  rw [List.mem_filterMap]
  constructor
  · rintro ⟨p, hp, hmap⟩
    obtain ⟨n, hn, heq⟩ := Option.map_eq_some_iff.mp hmap
    cases heq
    obtain ⟨hfind, hca⟩ := Option.filter_eq_some_iff.mp hn
    obtain ⟨hmem, hno⟩ := w.smFindNode_iff.mp hfind
    obtain ⟨hphys, hlive⟩ := List.mem_filter.mp hp
    exact ⟨hphys, hlive, hno, hmem, of_decide_eq_true hca⟩
  · rintro ⟨hphys, hlive, hno, hmem, hca⟩
    refine ⟨portp, List.mem_filter.mpr ⟨hphys, hlive⟩, ?_⟩
    rw [w.smFindNode_iff.mpr ⟨hmem, hno⟩, Option.filter_some, if_pos (decide_eq_true hca)]
    rfl

theorem port_eq {switchp : Node} (h : switchp ∈ topop.nodes) {p p' : Port}
    (hp : p ∈ physicalPorts switchp) (hp' : p' ∈ physicalPorts switchp)
    (heq : p.index = p'.index) : p = p' := by
  obtain ⟨i, -, -, rfl⟩ := mem_physicalPorts.mp hp
  obtain ⟨j, -, -, rfl⟩ := mem_physicalPorts.mp hp'
  rw [w.port_index _ h, w.port_index _ h] at heq
  rw [heq]

theorem nodup_physicalPorts {switchp : Node} (h : switchp ∈ topop.nodes) :
    (physicalPorts switchp).Nodup := by
  unfold physicalPorts
  apply List.Nodup.map_on _ List.nodup_range'
  intro i _ j _ heq
  rw [← w.port_index _ h i, heq, w.port_index _ h j]

theorem nodup_endPorts {nodep : Node} (h : nodep ∈ topop.nodes) : (endPorts nodep).Nodup := by
  unfold endPorts
  by_cases hsw : nodep.nodeType = .switch
  · rw [if_pos hsw]
    exact List.nodup_singleton _
  · rw [if_neg hsw]
    exact w.nodup_physicalPorts h

theorem exists_hostLink {nodep switchp : Node} (hn : nodep ∈ topop.nodes)
    (hca : nodep.nodeType = .ca) {portp : Port} (hp : portp ∈ liveEndPorts nodep)
    (hs : switchp ∈ topop.switches) (hno : portp.nodeno = some switchp.index) :
    ∃ swPortp, (swPortp, nodep) ∈ hostLinks topop switchp ∧ portp.portno = some swPortp.index := by
  obtain ⟨q, hq, h1, h2, hlive, hback⟩ := w.link_back nodep hn hca portp hp switchp hs hno
  refine ⟨switchp.port q, w.mem_hostLinks.mpr ⟨?_, hlive, hback, hn, hca⟩, ?_⟩
  · exact mem_physicalPorts.mpr ⟨q, h1, h2, rfl⟩
  · rw [w.port_index switchp (node_mem hs) q]
    exact hq

theorem nodup_hostLinks {switchp : Node} (h : switchp ∈ topop.nodes) :
    (hostLinks topop switchp).Nodup := by
  unfold hostLinks
  apply List.Nodup.filterMap _ ((w.nodup_physicalPorts h).filter _)
  intro p p' l hl hl'
  obtain ⟨n, -, rfl⟩ := Option.map_eq_some_iff.mp hl
  obtain ⟨n', -, heq⟩ := Option.map_eq_some_iff.mp hl'
  exact (congrArg Prod.fst heq).symm

end Wired

/-! ## Wired fabrics -/

theorem eq_of_nodup_flatMap {α β : Type} {f : α → List β} {l : List α} (h : (l.flatMap f).Nodup)
    {a a' : α} (ha : a ∈ l) (ha' : a' ∈ l) {b : β} (hb : b ∈ f a) (hb' : b ∈ f a') : a = a' := by
  by_contra hne
  have hsymm : Std.Symm (Function.onFun List.Disjoint f) := ⟨fun _ _ h => List.Disjoint.symm h⟩
  exact (List.nodup_flatMap.mp h).2.forall ha ha' hne hb hb'

theorem lid_unique_of_nodup {nodes : List Node} (h : (nodes.flatMap hostLids).Nodup) :
    ∀ n ∈ nodes, ∀ n' ∈ nodes, ∀ p ∈ liveEndPorts n, ∀ p' ∈ liveEndPorts n',
      ∀ lid, lid ∈ portLids p → lid ∈ portLids p' → n = n' ∧ p = p' := by
  intro n hn n' hn' p hp p' hp' lid hl hl'
  obtain rfl := eq_of_nodup_flatMap h hn hn' (mem_hostLids.mpr ⟨p, hp, hl⟩)
    (mem_hostLids.mpr ⟨p', hp', hl'⟩)
  exact ⟨rfl, eq_of_nodup_flatMap ((List.nodup_flatMap.mp h).1 n hn) hp hp' hl hl'⟩

theorem wired_of_lids {topop : Topology} (distinct : (topop.nodes.map Node.index).Nodup)
    (port_index : ∀ nodep ∈ topop.nodes, ∀ q, (nodep.port q).index = q)
    (link_back : ∀ nodep ∈ topop.nodes, nodep.nodeType = .ca → ∀ portp ∈ liveEndPorts nodep,
      ∀ switchp ∈ topop.switches, portp.nodeno = some switchp.index →
        (portp.portno.any fun q => 1 ≤ q && q ≤ switchp.numPorts && isLive (switchp.port q) &&
          (switchp.port q).nodeno = some nodep.index) = true)
    (lids : (0 :: topop.nodes.flatMap hostLids).Nodup) : Wired topop where
  distinct := distinct
  port_index := port_index
  link_back n hn hca p hp x hx hno := by
    have hany := link_back n hn hca p hp x hx hno
    rw [Option.any_eq_true] at hany
    simp only [Bool.and_eq_true, decide_eq_true_eq] at hany
    obtain ⟨q, hq, ⟨⟨h1, h2⟩, hlive⟩, hback⟩ := hany
    exact ⟨q, hq, h1, h2, hlive, hback⟩
  lid_pos n hn p hp lid hl := by
    rw [Nat.pos_iff_ne_zero]
    intro hz
    apply (List.nodup_cons.mp lids).1
    exact List.mem_flatMap.mpr ⟨n, hn, mem_hostLids.mpr ⟨p, hp, hz ▸ hl⟩⟩
  lid_unique := lid_unique_of_nodup (List.nodup_cons.mp lids).2

/-! ## A small fabric -/

def insertQsort (α : Type) : Qsort α where
  sort := fun cmp l => l.insertionSort fun a b => (cmp a b).isLE = true
  perm := fun _ l => List.perm_insertionSort _ l
  sorted := by
    intro cmp l _
    have htotal : Std.Total fun a b => (cmp a b).isLE = true := ⟨fun a b => by
      rw [@Std.OrientedCmp.eq_swap _ cmp _ b]
      cases cmp a b <;> simp⟩
    have htrans : IsTrans α fun a b => (cmp a b).isLE = true :=
      ⟨fun a b c => Std.TransCmp.isLE_trans⟩
    exact List.pairwise_insertionSort _ l

def livePort (q nodeno portno : Nat) (d : PortData) : Port :=
  { index := q, state := .active, nodeno := some nodeno, portno := some portno, portData := some d }

def coreSwitch : Node where
  index := 0
  numPorts := 2
  port := fun q =>
    if q = 0 then livePort q 0 0 { lid := 1 }
    else if q ≤ 2 then livePort q 1 q {}
    else { index := q }

def leafSwitch : Node where
  index := 1
  swIdx := 1
  numPorts := 4
  port := fun q =>
    if q = 0 then livePort q 1 0 { lid := 2 }
    else if q ≤ 2 then livePort q 0 q { uplink := true }
    else if q ≤ 4 then livePort q (q - 1) 1 {}
    else { index := q }

def leafHost (k lmc : Nat) (dg : Finset Nat) : Node where
  index := k
  nodeType := .ca
  numPorts := 1
  port := fun q =>
    if q = 1 then livePort q 1 (k + 1) { lid := 4 * k, lmc := lmc, dgMember := dg }
    else { index := q }

def leafTopology (lmc : Nat) (dg dg' : Finset Nat) : Topology where
  nodes := [coreSwitch, leafSwitch, leafHost 2 lmc dg, leafHost 3 lmc dg']
  maxSws := 2

theorem leaf_wired (dg dg' : Finset Nat) : Wired (leafTopology 0 dg dg') := by
  apply wired_of_lids
  · show [0, 1, 2, 3].Nodup
    decide
  · intro n hn q
    simp only [leafTopology, List.mem_cons, List.not_mem_nil, or_false] at hn
    rcases hn with rfl | rfl | rfl | rfl <;>
      simp only [coreSwitch, leafSwitch, leafHost] <;> split_ifs <;> rfl
  · intro n hn hca p hp x hx hno
    simp only [leafTopology, List.mem_cons, List.not_mem_nil, or_false] at hn
    have hx' : x = coreSwitch ∨ x = leafSwitch := by
      change x ∈ [coreSwitch, leafSwitch] at hx
      simpa using hx
    rcases hn with rfl | rfl | rfl | rfl
    · cases hca
    · cases hca
    · rw [List.mem_singleton.mp hp] at hno ⊢
      rcases hx' with rfl | rfl
      · cases hno
      · rfl
    · rw [List.mem_singleton.mp hp] at hno ⊢
      rcases hx' with rfl | rfl
      · cases hno
      · rfl
  · show [0, 1, 2, 8, 12].Nodup
    decide

/-!
## What the passes over hosts assign

Which switches get an entry for which LID, in which order, and which edge switches come again in the
second pass does not depend on how ports are chosen.
-/

structure LftPlace where
  switch : Nat
  lid : Nat
  counted : Bool
  deriving DecidableEq, Repr

def LftWrite.place (w : LftWrite) : LftPlace := ⟨w.switch, w.lid, w.counted⟩

def hostPlaces (switchp : Node) (v : Node × Node) : List LftPlace :=
  (hostLids v.2).map fun lid => ⟨switchp.index, lid, decide (switchp.index ≠ v.1.index)⟩

/-- Some edge switches are marked, and assignments follow those that were made. -/
structure LftTables.Effect (t t' : LftTables) (marks : Nat → Bool) (ps : List LftPlace) : Prop where
  skip : ∀ k, t'.skipBalance k = (t.skipBalance k || marks k)
  places : t'.wrote.map LftWrite.place = t.wrote.map LftWrite.place ++ ps

namespace LftTables

theorem Effect.refl (t : LftTables) : t.Effect t (fun _ => false) [] :=
  ⟨fun _ => (Bool.or_false _).symm, (List.append_nil _).symm⟩

theorem Effect.trans {t t' t'' : LftTables} {marks marks' : Nat → Bool} {ps ps' : List LftPlace}
    (h : t.Effect t' marks ps) (h' : t'.Effect t'' marks' ps') :
    t.Effect t'' (fun k => marks k || marks' k) (ps ++ ps') := by
  constructor
  · intro k
    rw [h'.skip, h.skip, Bool.or_assoc]
  · rw [h'.places, h.places, List.append_assoc]

theorem Effect.foldl {γ α : Type} {f : LftTables × γ → α → LftTables × γ} {J : LftTables → Prop}
    {marks : α → Nat → Bool} {ps : α → List LftPlace} {l : List α}
    (hstep : ∀ s, ∀ a ∈ l, J s.1 → s.1.Effect (f s a).1 (marks a) (ps a) ∧ J (f s a).1)
    {s : LftTables × γ} (hs : J s.1) :
    s.1.Effect (l.foldl f s).1 (fun k => l.any fun a => marks a k) (l.flatMap ps) ∧
      J (l.foldl f s).1 := by
  induction l generalizing s with
  | nil => exact ⟨Effect.refl s.1, hs⟩
  | cons a rest ih =>
    obtain ⟨heff, hok⟩ := hstep s a List.mem_cons_self hs
    obtain ⟨hrest, hend⟩ := ih (fun s b hb => hstep s b (List.mem_cons_of_mem _ hb)) hok
    exact ⟨heff.trans hrest, hend⟩

end LftTables

namespace HostRouting

variable {γ : Type} (R : HostRouting γ)

/-- What the routines have in common: an edge switch is reached whatever the counters are, hosts are
no switches, and all LIDs of a host are assigned. -/
structure Regular : Prop where
  apart : ∀ y ∈ R.targets, ∀ y' ∈ R.targets, ∀ l ∈ R.links y, l.2.index ≠ y'.index
  group_length : ∀ load load' x y, (R.group load x y).length = (R.group load' x y).length
  host_skip : ∀ x g l s, (R.host x g l s).1.skipBalance = s.1.skipBalance
  host_places : ∀ x g l s, (R.host x g l s).1.wrote.map LftWrite.place =
    s.1.wrote.map LftWrite.place ++
      (hostLids l.2).map fun lid => ⟨x.index, lid, decide (g.length ≠ 0)⟩

def reaches (switchp toSwitchp : Node) : Bool :=
  switchp.index = toSwitchp.index || (R.group {} switchp toSwitchp).length ≠ 0

def enters (r : Nat) (skip : Nat → Bool) (switchp toSwitchp : Node) : Bool :=
  R.edgeSwitch toSwitchp && (r ≠ 1 || skip toSwitchp.index) && R.reaches switchp toSwitchp

def hostsAt (r : Nat) (skip : Nat → Bool) (toSwitchp : Node) : List (Node × Node) :=
  ((R.links toSwitchp).filter fun l => !(r = 0 && skip l.2.index)).map fun l => (toSwitchp, l.2)

def visits (r : Nat) (skip : Nat → Bool) (switchp : Node) : List (Node × Node) :=
  R.targets.flatMap fun y => if R.enters r skip switchp y then R.hostsAt r skip y else []

def defers (skip : Nat → Bool) (toSwitchp : Node) : Bool :=
  (R.links toSwitchp).any fun l => skip l.2.index

def marks (r : Nat) (skip : Nat → Bool) (switchp : Node) (k : Nat) : Bool :=
  R.targets.any fun y =>
    R.enters r skip switchp y && (r = 0 && k = y.index && R.defers skip y)

structure Agrees (r : Nat) (skip : Nat → Bool) (t : LftTables) : Prop where
  hosts : ∀ y ∈ R.targets, ∀ l ∈ R.links y, t.skipBalance l.2.index = skip l.2.index
  second : r ≠ 0 → t.skipBalance = skip

variable {R}

theorem Agrees.effect (hr : R.Regular) {r : Nat} {skip : Nat → Bool} {t t' : LftTables}
    (h : R.Agrees r skip t) {marks : Nat → Bool} {ps : List LftPlace} (he : t.Effect t' marks ps)
    (hmarks : ∀ k, marks k = true → r = 0 ∧ ∃ y ∈ R.targets, k = y.index) :
    R.Agrees r skip t' := by
  constructor
  · intro y hy l hl
    rw [he.skip, h.hosts y hy l hl]
    cases hm : marks l.2.index with
    | false => exact Bool.or_false _
    | true =>
      obtain ⟨-, y', hy', heq⟩ := hmarks _ hm
      exact absurd heq (hr.apart y hy y' hy' l hl)
  · intro hne
    funext k
    rw [he.skip, h.second hne]
    cases hm : marks k with
    | false => exact Bool.or_false _
    | true => exact absurd (hmarks k hm).1 hne

theorem routeLink_effect (hr : R.Regular) {r : Nat} {skip : Nat → Bool} {switchp toSwitchp : Node}
    (hto : toSwitchp ∈ R.targets) {portGroup : List Nat}
    (hgroup : switchp.index = toSwitchp.index ↔ portGroup.length = 0) {s : LftTables × γ}
    (hs : R.Agrees r skip s.1) {l : Port × Node} (hl : l ∈ R.links toSwitchp) :
    s.1.Effect (R.routeLink r switchp portGroup toSwitchp s l).1
      (fun k => r = 0 && k = toSwitchp.index && skip l.2.index)
      (if r = 0 && skip l.2.index then [] else hostPlaces switchp (toSwitchp, l.2)) := by
  have hflag := hs.hosts toSwitchp hto l hl
  unfold routeLink
  by_cases hskip : r = 0 ∧ s.1.skipBalance l.2.index = true
  · obtain ⟨hr0, hsk⟩ := hskip
    rw [if_pos ⟨hr0, hsk⟩, ← hflag, hsk, decide_eq_true hr0, Bool.and_true, if_pos rfl]
    constructor
    · intro k
      show Function.update s.1.skipBalance toSwitchp.index true k = _
      by_cases hk : k = toSwitchp.index
      · rw [hk, Function.update_self, decide_eq_true rfl, Bool.and_true, Bool.and_true,
          Bool.or_true]
      · rw [Function.update_of_ne hk, decide_eq_false hk, Bool.and_false, Bool.false_and,
          Bool.or_false]
    · exact (List.append_nil _).symm
  · have hno : (decide (r = 0) && skip l.2.index) = false := by
      rw [← hflag]
      rw [Bool.eq_false_iff]
      intro h
      obtain ⟨h1, h2⟩ := Bool.and_eq_true_iff.mp h
      exact hskip ⟨of_decide_eq_true h1, h2⟩
    rw [if_neg hskip, hno]
    constructor
    · intro k
      rw [hr.host_skip, Bool.and_right_comm, hno, Bool.false_and, Bool.or_false]
    · rw [hr.host_places]
      unfold hostPlaces
      rw [← decide_eq_decide.mpr (not_congr hgroup)]
      rfl

theorem routeLink_agrees (hr : R.Regular) {r : Nat} {skip : Nat → Bool} {switchp toSwitchp : Node}
    (hto : toSwitchp ∈ R.targets) {portGroup : List Nat}
    (hgroup : switchp.index = toSwitchp.index ↔ portGroup.length = 0) {s : LftTables × γ}
    (hs : R.Agrees r skip s.1) {l : Port × Node} (hl : l ∈ R.links toSwitchp) :
    R.Agrees r skip (R.routeLink r switchp portGroup toSwitchp s l).1 := by
  apply hs.effect hr (routeLink_effect hr hto hgroup hs hl)
  intro k hk
  simp only [Bool.and_eq_true, decide_eq_true_eq] at hk
  exact ⟨hk.1.1, toSwitchp, hto, hk.1.2⟩

theorem routeLinks_effect (hr : R.Regular) {r : Nat} {skip : Nat → Bool} {switchp toSwitchp : Node}
    (hto : toSwitchp ∈ R.targets) {portGroup : List Nat}
    (hgroup : switchp.index = toSwitchp.index ↔ portGroup.length = 0) {s : LftTables × γ}
    (hs : R.Agrees r skip s.1) :
    s.1.Effect ((R.links toSwitchp).foldl (R.routeLink r switchp portGroup toSwitchp) s).1
      (fun k => r = 0 && k = toSwitchp.index && R.defers skip toSwitchp)
      ((R.hostsAt r skip toSwitchp).flatMap (hostPlaces switchp)) := by
  have hrun := (LftTables.Effect.foldl (J := R.Agrees r skip) (l := R.links toSwitchp)
    (f := R.routeLink r switchp portGroup toSwitchp)
    (fun _ _ hl hok =>
      ⟨routeLink_effect hr hto hgroup hok hl, routeLink_agrees hr hto hgroup hok hl⟩) hs).1
  constructor
  · intro k
    rw [hrun.skip]
    congr 1
    unfold defers
    generalize R.links toSwitchp = links
    induction links with
    | nil => rw [List.any_nil, List.any_nil, Bool.and_false]
    | cons l rest ih => rw [List.any_cons, List.any_cons, ih, ← Bool.and_or_distrib_left]
  · rw [hrun.places]
    congr 1
    unfold hostsAt
    generalize R.links toSwitchp = links
    induction links with
    | nil => rfl
    | cons l rest ih =>
      rw [List.flatMap_cons, ih, List.filter_cons]
      cases (decide (r = 0) && skip l.2.index) with
      | true => rfl
      | false => rfl

theorem reaches_iff {switchp toSwitchp : Node} :
    R.reaches switchp toSwitchp = true ↔
      switchp.index = toSwitchp.index ∨ (R.group {} switchp toSwitchp).length ≠ 0 := by
  unfold reaches
  rw [Bool.or_eq_true, decide_eq_true_eq, decide_eq_true_eq]

theorem enters_iff {r : Nat} {skip : Nat → Bool} {switchp toSwitchp : Node} :
    R.enters r skip switchp toSwitchp = true ↔ R.edgeSwitch toSwitchp = true ∧
      (r = 1 → skip toSwitchp.index = true) ∧ R.reaches switchp toSwitchp = true := by
  unfold enters
  rw [Bool.and_eq_true, Bool.and_eq_true, Bool.or_eq_true, decide_eq_true_eq, and_assoc]
  exact and_congr_right' (and_congr_left' Decidable.imp_iff_not_or.symm)

section

variable (R)

def groupAt (load : RouteLoad) (switchp toSwitchp : Node) : List Nat :=
  if switchp.index = toSwitchp.index then [] else R.group load switchp toSwitchp

def enterAt (load : RouteLoad) (switchp toSwitchp : Node) (c : γ) : γ :=
  if switchp.index = toSwitchp.index then c else R.enter switchp (R.group load switchp toSwitchp) c

end

theorem routeTo_eq (hr : R.Regular) {r : Nat} {skip : Nat → Bool} (switchp toSwitchp : Node)
    {s : LftTables × γ} (hs : R.Agrees r skip s.1) :
    R.routeTo r switchp s toSwitchp =
      if R.enters r skip switchp toSwitchp then
        (R.links toSwitchp).foldl
          (R.routeLink r switchp (R.groupAt s.1.load switchp toSwitchp) toSwitchp)
          (s.1, R.enterAt s.1.load switchp toSwitchp s.2)
      else s := by
  have hflag (h1 : r = 1) : s.1.skipBalance toSwitchp.index = skip toSwitchp.index := by
    rw [hs.second (by omega)]
  unfold routeTo
  by_cases hedge : (!R.edgeSwitch toSwitchp) = true
  · rw [if_pos hedge, if_neg]
    rw [enters_iff]
    intro h
    rw [h.1] at hedge
    cases hedge
  · rw [if_neg hedge]
    rw [Bool.not_eq_true, Bool.not_eq_false'] at hedge
    by_cases hdone : r = 1 ∧ (!s.1.skipBalance toSwitchp.index) = true
    · rw [if_pos hdone, if_neg]
      rw [enters_iff]
      intro h
      have hsk := hdone.2
      rw [hflag hdone.1, h.2.1 hdone.1] at hsk
      cases hsk
    · rw [if_neg hdone]
      have hopen (h1 : r = 1) : skip toSwitchp.index = true := by
        rw [← hflag h1]
        simpa using not_and.mp hdone h1
      unfold groupAt enterAt
      by_cases hown : switchp.index = toSwitchp.index
      · rw [if_pos hown, if_pos hown, if_pos hown, if_pos]
        exact enters_iff.mpr ⟨hedge, hopen, reaches_iff.mpr (Or.inl hown)⟩
      · rw [if_neg hown, if_neg hown, if_neg hown]
        have hlen := hr.group_length s.1.load {} switchp toSwitchp
        dsimp only
        by_cases hempty : (R.group s.1.load switchp toSwitchp).length = 0
        · rw [if_pos hempty, if_neg]
          rw [enters_iff, reaches_iff]
          intro h
          rw [hlen] at hempty
          exact h.2.2.elim hown fun hne => hne hempty
        · rw [if_neg hempty, if_pos]
          rw [hlen] at hempty
          exact enters_iff.mpr ⟨hedge, hopen, reaches_iff.mpr (Or.inr hempty)⟩

theorem groupAt_length (hr : R.Regular) {r : Nat} {skip : Nat → Bool} {switchp toSwitchp : Node}
    (h : R.enters r skip switchp toSwitchp = true) (load : RouteLoad) :
    switchp.index = toSwitchp.index ↔ (R.groupAt load switchp toSwitchp).length = 0 := by
  unfold groupAt
  by_cases hown : switchp.index = toSwitchp.index
  · rw [if_pos hown]
    exact iff_of_true hown List.length_nil
  · rw [if_neg hown, hr.group_length load {}]
    exact iff_of_false hown ((reaches_iff.mp (enters_iff.mp h).2.2).resolve_left hown)

theorem routeTo_effect (hr : R.Regular) {r : Nat} {skip : Nat → Bool} (switchp : Node)
    {toSwitchp : Node} (hto : toSwitchp ∈ R.targets) {s : LftTables × γ} (hs : R.Agrees r skip s.1) :
    s.1.Effect (R.routeTo r switchp s toSwitchp).1
      (fun k => R.enters r skip switchp toSwitchp &&
        (r = 0 && k = toSwitchp.index && R.defers skip toSwitchp))
      ((if R.enters r skip switchp toSwitchp then R.hostsAt r skip toSwitchp else []).flatMap
        (hostPlaces switchp)) := by
  rw [routeTo_eq hr switchp toSwitchp hs]
  by_cases hent : R.enters r skip switchp toSwitchp = true
  · rw [if_pos hent, hent]
    exact routeLinks_effect (s := (s.1, R.enterAt s.1.load switchp toSwitchp s.2)) hr hto
      (groupAt_length hr hent s.1.load) hs
  · rw [if_neg hent, Bool.eq_false_iff.mpr hent]
    exact LftTables.Effect.refl s.1

theorem routeTo_agrees (hr : R.Regular) {r : Nat} {skip : Nat → Bool} (switchp : Node)
    {toSwitchp : Node} (hto : toSwitchp ∈ R.targets) {s : LftTables × γ} (hs : R.Agrees r skip s.1) :
    R.Agrees r skip (R.routeTo r switchp s toSwitchp).1 := by
  apply hs.effect hr (routeTo_effect hr switchp hto hs)
  intro k hk
  simp only [Bool.and_eq_true, decide_eq_true_eq] at hk
  exact ⟨hk.2.1.1, toSwitchp, hto, hk.2.1.2⟩

theorem turn_effect (hr : R.Regular) {r : Nat} {skip : Nat → Bool} (switchp : Node)
    {s : LftTables × γ} (hs : R.Agrees r skip s.1) :
    s.1.Effect (R.turn r s switchp).1 (R.marks r skip switchp)
      ((R.visits r skip switchp).flatMap (hostPlaces switchp)) ∧
      R.Agrees r skip (R.turn r s switchp).1 := by
  have hrun := LftTables.Effect.foldl (J := R.Agrees r skip) (l := R.targets)
    (f := R.routeTo r switchp)
    (fun _ _ hy hok => ⟨routeTo_effect hr switchp hy hok, routeTo_agrees hr switchp hy hok⟩)
    (s := (s.1, R.start s.2)) hs
  unfold visits
  rw [List.flatMap_assoc]
  exact hrun

section

variable (R)

def passPlaces (r : Nat) (skip : Nat → Bool) : List LftPlace :=
  R.sources.flatMap fun x => (R.visits r skip x).flatMap (hostPlaces x)

def secondFlags (skip : Nat → Bool) (k : Nat) : Bool :=
  skip k || R.sources.any fun x => R.marks 0 skip x k

def laterPlaces (routeLast : String) (skip : Nat → Bool) : List LftPlace :=
  if routeLast.length = 0 then [] else R.passPlaces 1 (R.secondFlags skip)

end

theorem pass_effect (hr : R.Regular) {r : Nat} {skip : Nat → Bool} {s : LftTables × γ}
    (hs : R.Agrees r skip s.1) :
    s.1.Effect (R.pass s r).1 (fun k => R.sources.any fun x => R.marks r skip x k)
      (R.passPlaces r skip) :=
  (LftTables.Effect.foldl (J := R.Agrees r skip) (f := R.turn r)
    (fun _ x _ hok => turn_effect hr x hok) hs).1

theorem passes_places (hr : R.Regular) (routeLast : String) (s : LftTables × γ) :
    (R.passes routeLast s).1.wrote.map LftWrite.place = s.1.wrote.map LftWrite.place ++
      (R.passPlaces 0 s.1.skipBalance ++ R.laterPlaces routeLast s.1.skipBalance) := by
  have hstart : R.Agrees 0 s.1.skipBalance s.1 := ⟨fun _ _ _ _ => rfl, fun h => absurd rfl h⟩
  have hfirst := pass_effect hr hstart
  unfold passes laterPlaces
  by_cases hlast : routeLast.length = 0
  · rw [if_pos hlast, if_pos hlast, List.append_nil]
    exact hfirst.places
  · have hflags : (R.pass s 0).1.skipBalance = R.secondFlags s.1.skipBalance :=
      funext hfirst.skip
    have hagree : R.Agrees 1 (R.secondFlags s.1.skipBalance) (R.pass s 0).1 :=
      ⟨fun _ _ _ _ => congrFun hflags _, fun _ => hflags⟩
    have hsecond := pass_effect hr hagree
    rw [if_neg hlast, if_neg hlast]
    show (R.pass (R.pass s 0) 1).1.wrote.map LftWrite.place = _
    rw [hsecond.places, hfirst.places, List.append_assoc]

/-! ### The order of assignments -/

theorem mem_passPlaces {r : Nat} {skip : Nat → Bool} {p : LftPlace} :
    p ∈ R.passPlaces r skip ↔ ∃ x ∈ R.sources, ∃ y ∈ R.targets, R.enters r skip x y = true ∧
      ∃ l ∈ R.links y, ¬(r = 0 ∧ skip l.2.index = true) ∧ p ∈ hostPlaces x (y, l.2) := by
  unfold passPlaces visits hostsAt
  simp only [List.mem_flatMap]
  constructor
  · rintro ⟨x, hx, v, ⟨y, hy, hv⟩, hp⟩
    by_cases hent : R.enters r skip x y = true
    · rw [if_pos hent] at hv
      obtain ⟨l, hl, rfl⟩ := List.mem_map.mp hv
      obtain ⟨hlink, hkeep⟩ := List.mem_filter.mp hl
      refine ⟨x, hx, y, hy, hent, l, hlink, fun hskip => ?_, hp⟩
      rw [hskip.2, decide_eq_true hskip.1] at hkeep
      cases hkeep
    · rw [if_neg hent] at hv
      exact absurd hv List.not_mem_nil
  · rintro ⟨x, hx, y, hy, hent, l, hl, hkeep, hp⟩
    refine ⟨x, hx, (y, l.2), ⟨y, hy, ?_⟩, hp⟩
    rw [if_pos hent]
    refine List.mem_map.mpr ⟨l, List.mem_filter.mpr ⟨hl, ?_⟩, rfl⟩
    rw [Bool.not_eq_true', Bool.eq_false_iff]
    intro h
    obtain ⟨h1, h2⟩ := Bool.and_eq_true_iff.mp h
    exact hkeep ⟨of_decide_eq_true h1, h2⟩

theorem mem_hostPlaces {switchp : Node} {v : Node × Node} {p : LftPlace} :
    p ∈ hostPlaces switchp v ↔ p.switch = switchp.index ∧ p.lid ∈ hostLids v.2 ∧
      p.counted = decide (switchp.index ≠ v.1.index) := by
  unfold hostPlaces
  rw [List.mem_map]
  constructor
  · rintro ⟨lid, hlid, rfl⟩
    exact ⟨rfl, hlid, rfl⟩
  · rintro ⟨hsw, hlid, hcounted⟩
    refine ⟨p.lid, hlid, ?_⟩
    rw [← hcounted, ← hsw]

theorem mem_first_of_second {skip skip' : Nat → Bool} {switchp toSwitchp nodep : Node}
    {p : LftPlace} (hx : switchp ∈ R.sources) (hy : toSwitchp ∈ R.targets)
    (hent : R.enters 1 skip' switchp toSwitchp = true) {l : Port × Node}
    (hl : l ∈ R.links toSwitchp) (hn : l.2 = nodep) (hkeep : skip nodep.index = false)
    (hp : p ∈ hostPlaces switchp (toSwitchp, nodep)) : p ∈ R.passPlaces 0 skip := by
  rw [mem_passPlaces]
  refine ⟨switchp, hx, toSwitchp, hy, ?_, l, hl, ?_, hn ▸ hp⟩
  · obtain ⟨hedge, -, hreach⟩ := enters_iff.mp hent
    exact enters_iff.mpr ⟨hedge, fun h => absurd h (by decide), hreach⟩
  · intro h
    rw [hn, hkeep] at h
    exact Bool.false_ne_true h.2

/-- The assignments are in two parts: the first is for hosts that are not marked, and no LID of such
a host comes anew in the second. -/
theorem passes_order (hr : R.Regular) (routeLast : String) {s : LftTables × γ}
    (hs : s.1.wrote = []) :
    ∃ first later, (R.passes routeLast s).1.wrote = first ++ later ∧
      (∀ w ∈ first, ∃ y ∈ R.targets, ∃ l ∈ R.links y, s.1.skipBalance l.2.index = false ∧
        w.lid ∈ hostLids l.2) ∧
      ∀ w ∈ later, ∃ y ∈ R.targets, ∃ l ∈ R.links y, w.lid ∈ hostLids l.2 ∧
        (s.1.skipBalance l.2.index = false →
          ∃ w' ∈ first, w'.switch = w.switch ∧ w'.lid = w.lid) := by
  have hplaces := passes_places hr routeLast s
  rw [hs, List.map_nil, List.nil_append] at hplaces
  obtain ⟨first, later, heq, hfirst, hlater⟩ := List.map_eq_append_iff.mp hplaces
  refine ⟨first, later, heq, ?_, ?_⟩
  · intro w hw
    have hmem : w.place ∈ R.passPlaces 0 s.1.skipBalance := hfirst ▸ List.mem_map_of_mem hw
    obtain ⟨x, -, y, hy, -, l, hl, hkeep, hp⟩ := mem_passPlaces.mp hmem
    refine ⟨y, hy, l, hl, ?_, (mem_hostPlaces.mp hp).2.1⟩
    exact Bool.eq_false_iff.mpr fun h => hkeep ⟨rfl, h⟩
  · intro w hw
    have hmem : w.place ∈ R.laterPlaces routeLast s.1.skipBalance :=
      hlater ▸ List.mem_map_of_mem hw
    unfold laterPlaces at hmem
    by_cases hlast : routeLast.length = 0
    · rw [if_pos hlast] at hmem
      exact absurd hmem List.not_mem_nil
    · rw [if_neg hlast] at hmem
      obtain ⟨x, hx, y, hy, hent, l, hl, -, hp⟩ := mem_passPlaces.mp hmem
      refine ⟨y, hy, l, hl, (mem_hostPlaces.mp hp).2.1, fun hkeep => ?_⟩
      have hin := mem_first_of_second hx hy hent hl rfl hkeep hp
      rw [← hfirst] at hin
      obtain ⟨w', hw', hplace⟩ := List.mem_map.mp hin
      exact ⟨w', hw', congrArg LftPlace.switch hplace, congrArg LftPlace.lid hplace⟩

end HostRouting

/-! ### Entries for other LIDs -/

def IsSwitchLid (topop : Topology) (lid : Nat) : Prop :=
  ∃ nodep ∈ topop.switches, ∃ portp ∈ liveEndPorts nodep, lid ∈ portLids portp

theorem toValid_port {portp : Port} {p : ValidPort} (h : portp.toValid = some p) :
    p.port = portp := by
  unfold Port.toValid at h
  split at h
  · cases h
  · cases h
    rfl

namespace LftTables

@[simp] theorem attach_skipBalance (t : LftTables) (x : Node) (lid port : Nat) :
    (t.attach x lid port).skipBalance = t.skipBalance := rfl

@[simp] theorem assign_skipBalance (topop : Topology) (t : LftTables) (x : Node) (lid port : Nat) :
    (assign topop t x lid port).skipBalance = t.skipBalance := rfl

@[simp] theorem attach_load (t : LftTables) (x : Node) (lid port : Nat) :
    (t.attach x lid port).load = t.load := rfl

theorem initLfts_start (switches : List Node) (skip : Nat → Bool) :
    switches.foldl initLft { skipBalance := skip } = { skipBalance := skip } := by
  induction switches with
  | nil => rfl
  | cons x rest ih =>
    have hstay : initLft { skipBalance := skip } x = { skipBalance := skip } := by
      unfold initLft
      rw [Function.update_eq_self_iff.mpr rfl, List.filter_nil]
    rw [List.foldl_cons, hstay, ih]

theorem attach_places (t : LftTables) (x : Node) (lid port : Nat) :
    (t.attach x lid port).wrote.map LftWrite.place =
      t.wrote.map LftWrite.place ++ [⟨x.index, lid, false⟩] :=
  List.map_append

theorem assign_places (topop : Topology) (t : LftTables) (x : Node) (lid port : Nat) :
    (assign topop t x lid port).wrote.map LftWrite.place =
      t.wrote.map LftWrite.place ++ [⟨x.index, lid, true⟩] :=
  List.map_append

def Bounded (load : RouteLoad) : Prop := ∀ k p, load.lidsRouted k p < 0x10000

structure Spares (lids : Nat → Prop) (t t' : LftTables) : Prop where
  lft : ∀ k lid, ¬lids lid → t'.lft k lid = t.lft k lid
  counts : Bounded t.load → t'.load.lidsRouted = t.load.lidsRouted
  wrote : ∃ ws, t'.wrote = t.wrote ++ ws ∧ ∀ w ∈ ws, lids w.lid

variable {lids : Nat → Prop} {t t' t'' : LftTables}

theorem Spares.refl (t : LftTables) : Spares lids t t :=
  ⟨fun _ _ _ => rfl, fun _ => rfl, [], (List.append_nil _).symm, fun _ hw => absurd hw List.not_mem_nil⟩

theorem Spares.trans (h : Spares lids t t') (h' : Spares lids t' t'') : Spares lids t t'' := by
  constructor
  · intro k lid hlid
    rw [h'.lft k lid hlid, h.lft k lid hlid]
  · intro hb
    have heq := h.counts hb
    rw [h'.counts (fun k p => by rw [heq]; exact hb k p), heq]
  · obtain ⟨ws, hws, hin⟩ := h.wrote
    obtain ⟨ws', hws', hin'⟩ := h'.wrote
    refine ⟨ws ++ ws', by rw [hws', hws, List.append_assoc], fun w hw => ?_⟩
    exact (List.mem_append.mp hw).elim (hin w) (hin' w)

theorem Spares.attach (t : LftTables) (x : Node) {lid : Nat} (hlid : lids lid) (port : Nat) :
    Spares lids t (t.attach x lid port) := by
  constructor
  · intro k lid' hne
    show Function.update t.lft x.index (Function.update (t.lft x.index) lid (some port)) k lid' = _
    by_cases hk : k = x.index
    · rw [hk, Function.update_self, Function.update_of_ne]
      intro heq
      exact hne (heq ▸ hlid)
    · rw [Function.update_of_ne hk]
  · exact fun _ => rfl
  · exact ⟨_, rfl, fun w hw => (List.mem_singleton.mp hw) ▸ hlid⟩

theorem Spares.foldl {α : Type} {f : LftTables → α → LftTables} {l : List α}
    (hstep : ∀ t, ∀ a ∈ l, Spares lids t (f t a)) (t : LftTables) :
    Spares lids t (l.foldl f t) := by
  induction l generalizing t with
  | nil => exact Spares.refl t
  | cons a rest ih =>
    exact (hstep t a List.mem_cons_self).trans
      (ih (fun t b hb => hstep t b (List.mem_cons_of_mem _ hb)) _)

theorem Spares.foldlM {α : Type} {f : LftTables → α → Option LftTables} {l : List α}
    (hstep : ∀ t, ∀ a ∈ l, ∀ t', f t a = some t' → Spares lids t t') {t t' : LftTables}
    (h : l.foldlM f t = some t') : Spares lids t t' := by
  induction l generalizing t with
  | nil =>
    cases h
    exact Spares.refl _
  | cons a rest ih =>
    rw [List.foldlM_cons] at h
    obtain ⟨u, hu, hrest⟩ := Option.bind_eq_some_iff.mp h
    exact (hstep t a List.mem_cons_self u hu).trans
      (ih (fun t b hb => hstep t b (List.mem_cons_of_mem _ hb)) hrest)

theorem Spares.fill (t : LftTables) (x : Node) {ls : List Nat} (hls : ∀ lid ∈ ls, lids lid)
    (portnos : List Nat) {load : RouteLoad}
    (hload : Bounded t.load → load.lidsRouted = t.load.lidsRouted) :
    Spares lids t (ls.zipIdx.foldl (fun t l => t.attach x l.1 (portnos.getD l.2 0xff))
      { t with load := load }) := by
  have hset : Spares lids t { t with load := load } :=
    ⟨fun _ _ _ => rfl, hload, [], (List.append_nil _).symm, fun _ hw => absurd hw List.not_mem_nil⟩
  apply hset.trans
  apply Spares.foldl
  intro t l hl
  exact Spares.attach t x (hls l.1 (List.fst_mem_of_mem_zipIdx hl)) _

end LftTables

theorem spreadLids_counts {load : RouteLoad} (hb : LftTables.Bounded load) (switchp : Node)
    (numLids : Nat) (ports : List SwitchportToNextGuid) :
    (spreadLids load switchp numLids 0 ports).load.lidsRouted = load.lidsRouted := by
  have hroute (chosen : List SwitchportToNextGuid) (load' : RouteLoad)
      (h : load'.lidsRouted = load.lidsRouted) :
      (chosen.foldl (fun load e => load.route switchp e 0) load').lidsRouted = load.lidsRouted := by
    induction chosen generalizing load' with
    | nil => exact h
    | cons e rest ih =>
      apply ih
      rw [← h]
      funext k p
      unfold RouteLoad.route
      dsimp only
      rw [Nat.add_zero, Nat.mod_eq_of_lt (by rw [h]; exact hb k p), ite_self]
  unfold spreadLids
  dsimp only
  rw [← hroute _ load rfl]
  cases ((ports.take numLids)[smBalanceBaseLids load switchp (ports.take numLids)]?) with
  | none => rfl
  | some e => rfl

end OpaFm.Routing
