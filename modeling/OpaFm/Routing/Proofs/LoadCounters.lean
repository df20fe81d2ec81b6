import OpaFm.Lib.WriteLog
import OpaFm.Routing.Proofs.HostPasses

/-!
# Counters and tables

A counter of a port goes up with each assignment, also where the entry has been assigned before; the
table holds the last assignment.
-/

namespace OpaFm.Routing

open OpaFm.Fabric OpaFm.Lib

def isIslPort (topop : Topology) (switchp : Node) (port : Nat) : Bool :=
  (smGetPort switchp port).any fun p =>
    isLive p && (smFindNode topop p.nodeno).any fun n => n.nodeType = .switch

def hostLidSet (topop : Topology) : Finset Nat :=
  ((topop.nodes.filter fun n => n.nodeType = .ca).flatMap hostLids).toFinset

/-- The counter of every port between switches is the number of host LIDs that the table sends to
that port. -/
def CountsMatch (topop : Topology) (t : LftTables) : Prop :=
  ∀ switchp ∈ topop.switches, ∀ port, isIslPort topop switchp port = true →
    t.load.lidsRouted switchp.index port =
      ((hostLidSet topop).filter fun lid => t.lft switchp.index lid = some port).card

theorem mem_hostLidSet {topop : Topology} {lid : Nat} :
    lid ∈ hostLidSet topop ↔ ∃ n ∈ topop.nodes, n.nodeType = .ca ∧ lid ∈ hostLids n := by
  unfold hostLidSet
  rw [List.mem_toFinset, List.mem_flatMap]
  constructor
  · rintro ⟨n, hn, hlid⟩
    exact ⟨n, (List.mem_filter.mp hn).1, of_decide_eq_true (List.mem_filter.mp hn).2, hlid⟩
  · rintro ⟨n, hn, hca, hlid⟩
    exact ⟨n, List.mem_filter.mpr ⟨hn, decide_eq_true hca⟩, hlid⟩

theorem card_hostLids_lt {topop : Topology} (w : Wired topop)
    (hlids : ∀ lid ∈ hostLidSet topop, lid < 0x10000) (P : Nat → Bool) :
    ((hostLidSet topop).filter fun lid => P lid).card < 0x10000 := by
  have hsub : (hostLidSet topop).filter (fun lid => P lid) ⊆ (Finset.range 0x10000).erase 0 := by
    intro lid hlid
    have hmem := (Finset.mem_filter.mp hlid).1
    obtain ⟨n, hn, -, hl⟩ := mem_hostLidSet.mp hmem
    obtain ⟨p, hp, hl⟩ := mem_hostLids.mp hl
    have hpos := w.lid_pos n hn p hp lid hl
    exact Finset.mem_erase.mpr ⟨by omega, Finset.mem_range.mpr (hlids lid hmem)⟩
  calc ((hostLidSet topop).filter fun lid => P lid).card
      ≤ ((Finset.range 0x10000).erase 0).card := Finset.card_le_card hsub
    _ < 0x10000 := by rw [Finset.card_erase_of_mem (by simp), Finset.card_range]; omega

theorem mem_getD {l : List Nat} {i : Nat} (h : i < l.length) (d : Nat) : l.getD i d ∈ l := by
  rw [List.getD_eq_getElem?_getD, List.getElem?_eq_getElem h]
  exact List.getElem_mem h

/-! ## The log -/

namespace LftTables

def writesOf (t : LftTables) (switch : Nat) : List LftWrite :=
  t.wrote.filter fun w => w.switch = switch

def log (t : LftTables) (switch : Nat) : List (Nat × Nat) :=
  (t.writesOf switch).map fun w => (w.lid, w.port)

structure Logged (topop : Topology) (t : LftTables) : Prop where
  lft : ∀ k, t.lft k = table (t.log k)
  counts : ∀ x ∈ topop.nodes, ∀ p, (smGetPort x p).any isLive = true →
    t.load.lidsRouted x.index p =
      (t.writesOf x.index).countP (fun w => w.counted ∧ w.port = p) % 0x10000

theorem log_snoc (t t' : LftTables) {w : LftWrite} (h : t'.wrote = t.wrote ++ [w]) (k : Nat) :
    t'.writesOf k = if w.switch = k then t.writesOf k ++ [w] else t.writesOf k := by
  unfold writesOf
  rw [h, List.filter_append]
  by_cases hk : w.switch = k
  · rw [if_pos hk, List.filter_cons_of_pos (by simpa using hk), List.filter_nil]
  · rw [if_neg hk, List.filter_cons_of_neg (by simpa using hk), List.filter_nil, List.append_nil]

theorem lft_snoc {t t' : LftTables} {w : LftWrite} {k : Nat} (hlog : t.lft k = table (t.log k))
    (hwrote : t'.wrote = t.wrote ++ [w])
    (hlft : t'.lft = Function.update t.lft w.switch
      (Function.update (t.lft w.switch) w.lid (some w.port))) : t'.lft k = table (t'.log k) := by
  unfold log
  rw [hlft, log_snoc t t' hwrote]
  by_cases hk : w.switch = k
  · rw [if_pos hk, hk, Function.update_self, List.map_append]
    funext lid
    rw [table_append, List.map_singleton, table_singleton, hlog]
    by_cases hl : lid = w.lid
    · rw [hl, Function.update_self, if_pos rfl, Option.some_or]
    · rw [Function.update_of_ne hl, if_neg hl, Option.none_or]
      rfl
  · rw [if_neg hk, Function.update_of_ne (Ne.symm hk), hlog]
    rfl

variable {topop : Topology}

theorem Logged.attach {t : LftTables} (h : Logged topop t) (x : Node) (lid port : Nat) :
    Logged topop (t.attach x lid port) := by
  have hw : (t.attach x lid port).wrote = t.wrote ++ [⟨x.index, lid, port, false⟩] := rfl
  refine ⟨fun k => lft_snoc (h.lft k) hw rfl, fun y hy p hp => ?_⟩
  rw [log_snoc t _ hw, attach_load, h.counts y hy p hp]
  by_cases hk : x.index = y.index
  · rw [if_pos hk, List.countP_append]
    rfl
  · rw [if_neg hk]

theorem Logged.assign (w : Wired topop) {t : LftTables} (h : Logged topop t) {x : Node}
    (hx : x ∈ topop.nodes) (lid port : Nat) : Logged topop (assign topop t x lid port) := by
  have hw : (LftTables.assign topop t x lid port).wrote =
      t.wrote ++ [⟨x.index, lid, port, true⟩] := rfl
  refine ⟨fun k => lft_snoc (h.lft k) hw rfl, fun y hy p hp => ?_⟩
  rw [log_snoc t _ hw]
  have hcount : (incrLidsRouted topop t.load x port).lidsRouted y.index p =
      if y.index = x.index ∧ p = port then (t.load.lidsRouted y.index p + 1) % 0x10000
      else t.load.lidsRouted y.index p := by
    unfold incrLidsRouted
    cases hget : smGetPort x port with
    | none =>
      dsimp only
      rw [if_neg]
      rintro ⟨hk, rfl⟩
      rw [w.eq_of_index hy hx hk, hget] at hp
      cases hp
    | some q =>
      dsimp only
      by_cases hlive : smValidPort q ∧ PortState.init.code ≤ q.state.code
      · rw [if_pos hlive]
      · rw [if_neg hlive, if_neg]
        rintro ⟨hk, rfl⟩
        rw [w.eq_of_index hy hx hk, hget, Option.any_some] at hp
        obtain ⟨h1, h2⟩ := Bool.and_eq_true_iff.mp hp
        exact hlive ⟨h1, of_decide_eq_true h2⟩
  show (incrLidsRouted topop t.load x port).lidsRouted y.index p = _
  rw [hcount, h.counts y hy p hp]
  by_cases hk : x.index = y.index
  · rw [if_pos hk, List.countP_append, List.countP_singleton]
    by_cases hport : p = port
    · rw [if_pos ⟨hk.symm, hport⟩, if_pos (by simp [hport]), Nat.mod_add_mod]
    · rw [if_neg fun h => hport h.2, if_neg (by simpa using Ne.symm hport)]
      rfl
  · rw [if_neg hk, if_neg fun h => hk h.1.symm]

def Sound (topop : Topology) (t : LftTables) : Prop :=
  ∀ x ∈ topop.switches, ∀ w ∈ t.writesOf x.index, w.counted = isIslPort topop x w.port

theorem Sound.snoc {t t' : LftTables} (h : Sound topop t) {w : LftWrite}
    (hwrote : t'.wrote = t.wrote ++ [w])
    (hw : ∀ x ∈ topop.switches, w.switch = x.index → w.counted = isIslPort topop x w.port) :
    Sound topop t' := by
  intro x hx u hu
  rw [log_snoc t t' hwrote] at hu
  by_cases hk : w.switch = x.index
  · rw [if_pos hk] at hu
    cases List.mem_append.mp hu with
    | inl hu => exact h x hx u hu
    | inr hu =>
      rw [List.mem_singleton.mp hu]
      exact hw x hx hk
  · rw [if_neg hk] at hu
    exact h x hx u hu

end LftTables

namespace HostRouting

variable {γ : Type} (R : HostRouting γ)

/-- A routine whose counters can be compared with its tables: hosts are assigned the port they are
at, or ports of a group, which lead to switches. -/
structure Counting : Prop extends R.Regular where
  wired : Wired R.topop
  sources_nodup : R.sources.Nodup
  sources_switch : ∀ x ∈ R.sources, x ∈ R.topop.switches
  switches_source : ∀ x ∈ R.topop.switches, x ∈ R.sources
  targets_source : ∀ y ∈ R.targets, y ∈ R.sources
  links_host : ∀ y ∈ R.targets, ∀ l ∈ R.links y, l ∈ hostLinks R.topop y
  group_isl : ∀ load, ∀ x ∈ R.sources, ∀ y ∈ R.targets, ∀ p ∈ R.group load x y,
    isIslPort R.topop x p = true
  host_induct : ∀ (J : LftTables → Prop) (x : Node) (g : List Nat) (l : Port × Node)
    (s : LftTables × γ), J s.1 →
    (g.length = 0 → ∀ t lid, J t → J (t.attach x lid l.1.index)) →
    (g.length ≠ 0 → ∀ t lid, ∀ p ∈ g, J t → J (LftTables.assign R.topop t x lid p)) →
      J (R.host x g l s).1

variable {R}

theorem passes_invariant {J : LftTables → Prop}
    (hmark : ∀ t n, J t → J (LftTables.setSkipBalance t n))
    (hhost : ∀ x ∈ R.sources, ∀ y ∈ R.targets, ∀ l ∈ R.links y, ∀ g, (x.index = y.index ∧ g = [] ∨
      ∃ load, g = R.group load x y ∧ g.length ≠ 0) → ∀ s : LftTables × γ, J s.1 →
        J (R.host x g l s).1) (routeLast : String) {s : LftTables × γ} (hs : J s.1) :
    J (R.passes routeLast s).1 := by
  have hfold {α : Type} {f : LftTables × γ → α → LftTables × γ} (l : List α)
      (hstep : ∀ s, ∀ a ∈ l, J s.1 → J (f s a).1) (s : LftTables × γ) (hs : J s.1) :
      J (l.foldl f s).1 := by
    induction l generalizing s with
    | nil => exact hs
    | cons a rest ih =>
      exact ih (fun s b hb => hstep s b (List.mem_cons_of_mem _ hb)) _
        (hstep s a List.mem_cons_self hs)
  have hlinks (r : Nat) {x y : Node} (hx : x ∈ R.sources) (hy : y ∈ R.targets) {g : List Nat}
      (hg : x.index = y.index ∧ g = [] ∨ ∃ load, g = R.group load x y ∧ g.length ≠ 0)
      (s : LftTables × γ) (hs : J s.1) : J ((R.links y).foldl (R.routeLink r x g y) s).1 := by
    refine hfold _ (fun s l hl hs => ?_) s hs
    unfold routeLink
    by_cases hskip : r = 0 ∧ s.1.skipBalance l.2.index = true
    · rw [if_pos hskip]
      exact hmark _ _ hs
    · rw [if_neg hskip]
      exact hhost x hx y hy l hl g hg s hs
  refine hfold _ (fun s r _ hs => hfold _ (fun s x hx hs => hfold _ (fun s y hy hs => ?_)
    (s.1, R.start s.2) hs) s hs) s hs
  unfold routeTo
  by_cases hedge : (!R.edgeSwitch y) = true
  · rw [if_pos hedge]
    exact hs
  · rw [if_neg hedge]
    by_cases hdone : r = 1 ∧ (!s.1.skipBalance y.index) = true
    · rw [if_pos hdone]
      exact hs
    · rw [if_neg hdone]
      by_cases hown : x.index = y.index
      · rw [if_pos hown]
        exact hlinks r hx hy (Or.inl ⟨hown, rfl⟩) s hs
      · rw [if_neg hown]
        dsimp only
        by_cases hempty : (R.group s.1.load x y).length = 0
        · rw [if_pos hempty]
          exact hs
        · rw [if_neg hempty]
          exact hlinks r hx hy (Or.inr ⟨s.1.load, rfl, hempty⟩) _ hs

theorem Counting.passes_logged (h : R.Counting) (routeLast : String) {s : LftTables × γ}
    (hlog : LftTables.Logged R.topop s.1) (hsound : LftTables.Sound R.topop s.1) :
    LftTables.Logged R.topop (R.passes routeLast s).1 ∧
      LftTables.Sound R.topop (R.passes routeLast s).1 := by
  apply passes_invariant (J := fun t => LftTables.Logged R.topop t ∧ LftTables.Sound R.topop t)
    (fun t n ht => ⟨⟨ht.1.lft, ht.1.counts⟩, ht.2⟩) _ routeLast ⟨hlog, hsound⟩
  intro x hx y hy l hl g hg s hs
  have hxs := h.sources_switch x hx
  have hsame {z : Node} (hz : z ∈ R.topop.switches) (heq : x.index = z.index) : x = z :=
    h.wired.eq_of_index (Wired.node_mem hxs) (Wired.node_mem hz) heq
  apply h.host_induct (fun t => LftTables.Logged R.topop t ∧ LftTables.Sound R.topop t) x g l s hs
  · intro hnil t lid ht
    refine ⟨ht.1.attach x lid l.1.index, ht.2.snoc rfl fun z hz heq => ?_⟩
    -- the port of a host leads to no switch
    have hown : x.index = y.index := hg.elim And.left fun ⟨_, _, hne⟩ => absurd hnil hne
    have hyx : x = y := hsame (h.sources_switch y (h.targets_source y hy)) hown
    have hzx : x = z := hsame hz heq
    obtain ⟨hphys, -, hno, hn, hca⟩ := h.wired.mem_hostLinks.mp (h.links_host y hy l hl)
    rw [← hyx] at hphys
    obtain ⟨q, -, hle, hq⟩ := mem_physicalPorts.mp hphys
    rw [← hzx]
    show false = isIslPort R.topop x l.1.index
    unfold isIslPort smGetPort
    rw [← hq, h.wired.port_index x (Wired.node_mem hxs), if_pos hle, Option.any_some, hq, hno,
      h.wired.smFindNode_iff.mpr ⟨hn, rfl⟩, Option.any_some, hca]
    exact (Bool.and_false _).symm
  · intro hne t lid p hp ht
    refine ⟨ht.1.assign h.wired (Wired.node_mem hxs) lid p, ht.2.snoc rfl fun z hz heq => ?_⟩
    rw [← hsame hz heq]
    show true = isIslPort R.topop x p
    cases hg with
    | inl hnil => exact absurd (by rw [hnil.2]; rfl) hne
    | inr hgroup =>
      obtain ⟨load, rfl, -⟩ := hgroup
      exact (h.group_isl load x hx y hy p hp).symm

/-! ## Hosts that come again -/

section

variable (R)

def comesAgain (skip : Nat → Bool) (k : Nat) : Bool :=
  skip k || R.targets.any fun y => R.edgeSwitch y && (k = y.index && R.defers skip y)

def turns (routeLast : String) (skip : Nat → Bool) (switchp : Node) : List (Node × Node) :=
  R.visits 0 skip switchp ++
    if routeLast.length = 0 then [] else R.visits 1 (R.comesAgain skip) switchp

/-- No host with LIDs that a switch goes through behind another switch comes again. -/
def CountedOnce (routeLast : String) (skip : Nat → Bool) (switchp : Node) : Prop :=
  (R.turns routeLast skip switchp).Pairwise fun v v' =>
    switchp.index ≠ v.1.index → v.2.index = v'.2.index → hostLids v.2 = []

def FewAssigned (routeLast : String) (skip : Nat → Bool) (switchp : Node) : Prop :=
  ((R.turns routeLast skip switchp).flatMap fun v => hostLids v.2).length < 0x10000

end

theorem Counting.secondFlags_eq (h : R.Counting) (skip : Nat → Bool) :
    R.secondFlags skip = R.comesAgain skip := by
  funext k
  unfold secondFlags comesAgain marks
  congr 1
  rw [Bool.eq_iff_iff]
  simp only [List.any_eq_true, Bool.and_eq_true, decide_eq_true_eq]
  constructor
  · rintro ⟨x, -, y, hy, hent, ⟨-, hk⟩, hdef⟩
    exact ⟨y, hy, (enters_iff.mp hent).1, hk, hdef⟩
  · rintro ⟨y, hy, hedge, hk, hdef⟩
    refine ⟨y, h.targets_source y hy, y, hy, ?_, ⟨trivial, hk⟩, hdef⟩
    exact enters_iff.mpr ⟨hedge, fun h => absurd h (by decide), reaches_iff.mpr (Or.inl rfl)⟩

theorem filter_flatMap_key {α β : Type} {f : α → List β} {key : β → Nat} {keyOf : α → Nat}
    {l : List α} (hkey : ∀ a ∈ l, ∀ b ∈ f a, key b = keyOf a) (hnd : (l.map keyOf).Nodup) {a : α}
    (ha : a ∈ l) : (l.flatMap f).filter (fun b => key b = keyOf a) = f a := by
  induction l with
  | nil => exact absurd ha List.not_mem_nil
  | cons c rest ih =>
    rw [List.map_cons, List.nodup_cons] at hnd
    have hrest : ∀ a ∈ rest, ∀ b ∈ f a, key b = keyOf a :=
      fun a ha => hkey a (List.mem_cons_of_mem _ ha)
    have hhead := hkey c List.mem_cons_self
    rw [List.flatMap_cons, List.filter_append]
    cases List.mem_cons.mp ha with
    | inl heq =>
      rw [heq, List.filter_eq_self.mpr fun b hb => decide_eq_true (hhead b hb),
        List.filter_eq_nil_iff.mpr, List.append_nil]
      intro b hb hkb
      obtain ⟨d, hd, hbd⟩ := List.mem_flatMap.mp hb
      apply hnd.1
      rw [← of_decide_eq_true hkb, hrest d hd b hbd]
      exact List.mem_map_of_mem hd
    | inr hmem =>
      rw [List.filter_eq_nil_iff.mpr, List.nil_append, ih hrest hnd.2 hmem]
      intro b hb hkb
      apply hnd.1
      rw [← hhead b hb, of_decide_eq_true hkb]
      exact List.mem_map_of_mem hmem

theorem Counting.places_of (h : R.Counting) (routeLast : String) {s : LftTables × γ}
    (hs : s.1.wrote = []) {x : Node} (hx : x ∈ R.topop.switches) :
    ((R.passes routeLast s).1.writesOf x.index).map LftWrite.place =
      (R.turns routeLast s.1.skipBalance x).flatMap (hostPlaces x) := by
  have hxs := h.switches_source x hx
  have hnd : (R.sources.map Node.index).Nodup := by
    apply List.Nodup.map_on _ h.sources_nodup
    intro a ha b hb heq
    exact h.wired.eq_of_index (Wired.node_mem (h.sources_switch a ha))
      (Wired.node_mem (h.sources_switch b hb)) heq
  have hpass (r : Nat) (skip : Nat → Bool) :
      (R.passPlaces r skip).filter (fun p => p.switch = x.index) =
        (R.visits r skip x).flatMap (hostPlaces x) := by
    apply filter_flatMap_key _ hnd hxs
    intro a _ p hp
    obtain ⟨v, -, hv⟩ := List.mem_flatMap.mp hp
    exact (mem_hostPlaces.mp hv).1
  have hplaces := passes_places h.toRegular routeLast s
  rw [hs, List.map_nil, List.nil_append] at hplaces
  calc ((R.passes routeLast s).1.writesOf x.index).map LftWrite.place
      = ((R.passes routeLast s).1.wrote.map LftWrite.place).filter
          (fun p => p.switch = x.index) := by rw [List.filter_map]; rfl
    _ = (R.turns routeLast s.1.skipBalance x).flatMap (hostPlaces x) := by
        rw [hplaces, List.filter_append, hpass]
        unfold laterPlaces turns
        rw [List.flatMap_append]
        congr 1
        by_cases hlast : routeLast.length = 0
        · rw [if_pos hlast, if_pos hlast]
          rfl
        · rw [if_neg hlast, if_neg hlast, hpass, h.secondFlags_eq]

/-! ## Counters -/

theorem Counting.visit_host (h : R.Counting) {r : Nat} {skip : Nat → Bool} {x : Node}
    {v : Node × Node} (hv : v ∈ R.visits r skip x) :
    v.2 ∈ R.topop.nodes ∧ v.2.nodeType = .ca := by
  obtain ⟨y, hy, hin⟩ := List.mem_flatMap.mp hv
  by_cases hent : R.enters r skip x y = true
  · rw [if_pos hent] at hin
    obtain ⟨l, hl, rfl⟩ := List.mem_map.mp hin
    obtain ⟨-, -, -, hn, hca⟩ :=
      h.wired.mem_hostLinks.mp (h.links_host y hy l (List.mem_filter.mp hl).1)
    exact ⟨hn, hca⟩
  · rw [if_neg hent] at hin
    exact absurd hin List.not_mem_nil

theorem Counting.turn_host (h : R.Counting) {routeLast : String} {skip : Nat → Bool} {x : Node}
    {v : Node × Node} (hv : v ∈ R.turns routeLast skip x) :
    v.2 ∈ R.topop.nodes ∧ v.2.nodeType = .ca := by
  cases List.mem_append.mp hv with
  | inl hv => exact h.visit_host hv
  | inr hv =>
    by_cases hlast : routeLast.length = 0
    · rw [if_pos hlast] at hv
      exact absurd hv List.not_mem_nil
    · rw [if_neg hlast] at hv
      exact h.visit_host hv

/-- A switch goes through hosts with LIDs once, but for its own, exactly when no counted assignment
is followed by another one for the same LID. -/
theorem Counting.countedOnce_iff (h : R.Counting) (routeLast : String) (skip : Nat → Bool)
    {x : Node} :
    ((R.turns routeLast skip x).flatMap (hostPlaces x)).Pairwise
        (fun a b => a.counted = true → a.lid ≠ b.lid) ↔ R.CountedOnce routeLast skip x := by
  have hnodup {v : Node × Node} (hv : v ∈ R.turns routeLast skip x) : (hostLids v.2).Nodup := by
    apply List.nodup_flatMap.mpr ⟨fun p _ => nodup_portLids p, ?_⟩
    have hports : (liveEndPorts v.2).Nodup := (h.wired.nodup_endPorts (h.turn_host hv).1).filter _
    apply List.Pairwise.imp_of_mem _ hports
    intro p p' hp hp' hne lid hl hl'
    exact hne (h.wired.lid_unique _ (h.turn_host hv).1 _ (h.turn_host hv).1 p hp p' hp' lid hl hl').2
  rw [List.pairwise_flatMap]
  unfold CountedOnce
  constructor
  · intro hpair
    apply List.Pairwise.imp_of_mem _ hpair.2
    intro v v' hv hv' hno hne heq
    rw [List.eq_nil_iff_forall_not_mem]
    intro lid hlid
    have hsame := h.wired.eq_of_index (h.turn_host hv).1 (h.turn_host hv').1 heq
    refine hno ⟨x.index, lid, decide (x.index ≠ v.1.index)⟩ (mem_hostPlaces.mpr ⟨rfl, hlid, rfl⟩)
      ⟨x.index, lid, decide (x.index ≠ v'.1.index)⟩
      (mem_hostPlaces.mpr ⟨rfl, hsame ▸ hlid, rfl⟩) (decide_eq_true hne) rfl
  · intro hpair
    refine ⟨fun v hv => ?_, ?_⟩
    · apply List.Pairwise.map _ _ (hnodup hv)
      exact fun lid lid' hne _ => hne
    · apply List.Pairwise.imp_of_mem _ hpair
      intro v v' hv hv' hno a ha b hb hcounted hlid
      obtain ⟨-, hla, hca⟩ := mem_hostPlaces.mp ha
      obtain ⟨-, hlb, -⟩ := mem_hostPlaces.mp hb
      rw [hca] at hcounted
      obtain ⟨p, hp, hl⟩ := mem_hostLids.mp hla
      obtain ⟨p', hp', hl'⟩ := mem_hostLids.mp hlb
      have hsame := (h.wired.lid_unique _ (h.turn_host hv).1 _ (h.turn_host hv').1 p hp p' hp' a.lid hl
        (hlid ▸ hl')).1
      rw [hno (of_decide_eq_true hcounted) (congrArg Node.index hsame)] at hla
      exact List.not_mem_nil hla

theorem Counting.lasting_iff (h : R.Counting) (routeLast : String) {s : LftTables × γ}
    (hs : s.1.wrote = []) (hsound : LftTables.Sound R.topop (R.passes routeLast s).1) {x : Node}
    (hx : x ∈ R.topop.switches) :
    (∀ p, isIslPort R.topop x p = true →
        Lasting p ((R.passes routeLast s).1.log x.index)) ↔
      R.CountedOnce routeLast s.1.skipBalance x := by
  rw [← h.countedOnce_iff routeLast s.1.skipBalance, ← h.places_of routeLast hs hx]
  unfold Lasting LftTables.log
  simp only [List.pairwise_map]
  constructor
  · intro hlast
    rw [List.pairwise_iff_forall_sublist]
    intro a b hab hcounted
    have ha := hab.subset List.mem_cons_self
    have hisl : isIslPort R.topop x a.port = true := by
      rw [← hsound x hx a ha]
      exact hcounted
    exact (List.pairwise_iff_forall_sublist.mp (hlast a.port hisl)) hab rfl
  · intro hpair p hisl
    apply List.Pairwise.imp_of_mem _ hpair
    intro a b ha _ hno hp
    apply hno
    show a.counted = true
    rw [hsound x hx a ha, hp, hisl]

theorem Counting.match_iff (h : R.Counting) (hlids : ∀ lid ∈ hostLidSet R.topop, lid < 0x10000)
    (routeLast : String) {s : LftTables × γ} (hs : s.1.wrote = [])
    (hlog : LftTables.Logged R.topop s.1) :
    ((∀ x ∈ R.topop.switches, R.CountedOnce routeLast s.1.skipBalance x) →
        CountsMatch R.topop (R.passes routeLast s).1) ∧
      ((∀ x ∈ R.topop.switches, R.FewAssigned routeLast s.1.skipBalance x) →
        CountsMatch R.topop (R.passes routeLast s).1 →
          ∀ x ∈ R.topop.switches, R.CountedOnce routeLast s.1.skipBalance x) := by
  have hstart : LftTables.Sound R.topop s.1 := by
    intro x _ w hw
    have hmem := (List.mem_filter.mp hw).1
    rw [hs] at hmem
    exact absurd hmem List.not_mem_nil
  obtain ⟨hend, hsound⟩ := h.passes_logged routeLast hlog hstart
  let t := (R.passes routeLast s).1
  -- the counter of a port between switches, and the LIDs that are sent to it
  have hcount {x : Node} (hx : x ∈ R.topop.switches) {p : Nat}
      (hisl : isIslPort R.topop x p = true) :
      t.load.lidsRouted x.index p = (t.log x.index).countP (fun w => w.2 = p) % 0x10000 := by
    have hlive : (smGetPort x p).any isLive = true := by
      unfold isIslPort at hisl
      cases hget : smGetPort x p with
      | none => rw [hget] at hisl; cases hisl
      | some q =>
        rw [hget, Option.any_some] at hisl
        exact (Bool.and_eq_true_iff.mp hisl).1
    rw [hend.counts x (Wired.node_mem hx) p hlive]
    unfold LftTables.log
    rw [List.countP_map]
    congr 1
    apply List.countP_congr
    intro w hw
    simp only [decide_eq_true_eq, Function.comp_apply]
    refine ⟨And.right, fun hp => ⟨?_, hp⟩⟩
    rw [hsound x hx w hw, hp, hisl]
  have hheld (x : Node) (p : Nat) :
      (hostLidSet R.topop).filter (fun lid => t.lft x.index lid = some p) =
        holders (hostLidSet R.topop) p (t.log x.index) := by
    unfold holders
    rw [hend.lft]
  have hlidset {x : Node} (hx : x ∈ R.topop.switches) :
      ∀ w ∈ t.log x.index, w.1 ∈ hostLidSet R.topop := by
    intro w hw
    obtain ⟨u, hu, rfl⟩ := List.mem_map.mp hw
    have hplace : u.place ∈ (R.turns routeLast s.1.skipBalance x).flatMap (hostPlaces x) := by
      rw [← h.places_of routeLast hs hx]
      exact List.mem_map_of_mem hu
    obtain ⟨v, hv, hp⟩ := List.mem_flatMap.mp hplace
    obtain ⟨hn, hca⟩ := h.turn_host hv
    exact mem_hostLidSet.mpr ⟨v.2, hn, hca, (mem_hostPlaces.mp hp).2.1⟩
  constructor
  · intro hone x hx p hisl
    have hlast := (h.lasting_iff routeLast hs hsound hx).mpr (hone x hx) p hisl
    have hcard := (card_holders (v := p) (hlidset hx)).2.mpr hlast
    have hlt := card_hostLids_lt h.wired hlids fun lid => decide (t.lft x.index lid = some p)
    simp only [decide_eq_true_eq] at hlt
    rw [hheld] at hlt
    show t.load.lidsRouted x.index p = _
    rw [hcount hx hisl, hheld, hcard, Nat.mod_eq_of_lt (hcard ▸ hlt)]
  · intro hfew hmatch x hx
    rw [← h.lasting_iff routeLast hs hsound hx]
    intro p hisl
    have hlen : (t.log x.index).countP (fun w => w.2 = p) < 0x10000 := by
      calc (t.log x.index).countP (fun w => w.2 = p)
          ≤ (t.log x.index).length := List.countP_le_length
        _ = ((t.writesOf x.index).map LftWrite.place).length := by
            rw [LftTables.log, List.length_map, List.length_map]
        _ = ((R.turns routeLast s.1.skipBalance x).flatMap fun v => hostLids v.2).length := by
            rw [h.places_of routeLast hs hx, List.length_flatMap, List.length_flatMap]
            congr 1
            apply List.map_congr_left
            intro v _
            exact List.length_map _
        _ < 0x10000 := hfew x hx
    have heq := hmatch x hx p hisl
    change t.load.lidsRouted x.index p = _ at heq
    rw [hcount hx hisl, hheld, Nat.mod_eq_of_lt hlen] at heq
    exact (card_holders (hlidset hx)).2.mp heq.symm

theorem Counting.passes_bounded (h : R.Counting) (routeLast : String) {s : LftTables × γ}
    (hs : LftTables.Bounded s.1.load) : LftTables.Bounded (R.passes routeLast s).1.load := by
  apply passes_invariant (J := fun t => LftTables.Bounded t.load) (fun _ _ ht => ht) _ routeLast hs
  intro x _ y _ l _ g _ s hs
  apply h.host_induct (fun t => LftTables.Bounded t.load) x g l s hs (fun _ _ _ ht => ht)
  intro _ t lid p _ ht k q
  show (incrLidsRouted R.topop t.load x p).lidsRouted k q < 0x10000
  unfold incrLidsRouted
  cases smGetPort x p with
  | none => exact ht k q
  | some swPortp =>
    dsimp only
    by_cases hlive : smValidPort swPortp ∧ PortState.init.code ≤ swPortp.state.code
    · rw [if_pos hlive]
      dsimp only
      by_cases hk : k = x.index ∧ q = p
      · rw [if_pos hk]
        exact Nat.mod_lt _ (by decide)
      · rw [if_neg hk]
        exact ht k q
    · rw [if_neg hlive]
      exact ht k q

end HostRouting

theorem CountsMatch.spares_iff {topop : Topology} (w : Wired topop) {t t' : LftTables}
    (hb : LftTables.Bounded t.load) (h : LftTables.Spares (IsSwitchLid topop) t t') :
    CountsMatch topop t' ↔ CountsMatch topop t := by
  have hset (k p : Nat) : (hostLidSet topop).filter (fun lid => t'.lft k lid = some p) =
      (hostLidSet topop).filter fun lid => t.lft k lid = some p := by
    apply Finset.filter_congr
    intro lid hlid
    obtain ⟨n, hn, hca, hl⟩ := mem_hostLidSet.mp hlid
    obtain ⟨p, hp, hl⟩ := mem_hostLids.mp hl
    rw [h.lft]
    rintro ⟨m, hm, q, hq, hl'⟩
    have hsame := (w.lid_unique n hn m (Wired.node_mem hm) p hp q hq lid hl hl').1
    exact Wired.not_ca hm (hsame ▸ hca)
  unfold CountsMatch
  rw [h.counts hb]
  simp only [hset]

theorem LftTables.Logged.start (topop : Topology) {t : LftTables} (hw : t.wrote = [])
    (hlft : ∀ k, t.lft k = fun _ => none) (hload : ∀ k p, t.load.lidsRouted k p = 0) :
    LftTables.Logged topop t := by
  have hnone (k : Nat) : t.writesOf k = [] := by
    unfold LftTables.writesOf
    rw [hw]
    rfl
  constructor
  · intro k
    rw [hlft, LftTables.log, hnone]
    rfl
  · intro x _ p _
    rw [hload, hnone]
    rfl

end OpaFm.Routing
