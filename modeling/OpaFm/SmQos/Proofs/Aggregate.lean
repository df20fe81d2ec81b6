import OpaFm.SmQos.Aggregate

/-!
# What an aggregate asks for

The last segment of an SC to VL table has the rest of the ports, which is none where the segments
come out even.  The segments of an arbitration table are groups of three contiguous ports at most;
a group takes along ports that are down.
-/

namespace OpaFm.SmQos

open OpaFm.Fabric

variable {n : SmaNode} {sec : VlarbSec} {a i k len : Nat} {l rest : List Nat}

def Segment.ports (s : Segment) : List Nat := List.range' s.port s.blkCount

def eligible (n : SmaNode) (i : Nat) : Bool := hasDataVls n i && isUp n i

/-! ## Tables of SCs -/

theorem flatMap_range'_ports (start count : Nat) (q : Nat) :
    ((List.range q).flatMap fun i => List.range' (i * count + start) count) =
      List.range' start (q * count) := by
  induction q with
  | zero => simp
  | succ q ih =>
    rw [List.range_succ, List.flatMap_append, ih, List.flatMap_singleton, Nat.succ_mul,
      Nat.add_comm (q * count) start, List.range'_append_1]

theorem stlReqAggrSegCount_eq (q r : Nat) (hr : r < 31) (hpos : 0 < r) :
    stlReqAggrSegCount (q * 31 + r) sizeofScvlMap = q + 1 := by
  show (q * 31 + r + (31 - 1)) / 31 = q + 1
  omega

def Partitions (segs : List Segment) (ports : List Nat) : Prop :=
  (∀ s ∈ segs, 1 ≤ s.blkCount ∧ s.blkCount ≤ stlMaxPayloadAggregate / sizeofScvlMap) ∧
    segs.flatMap Segment.ports = ports

theorem scvlSegments_partitions_iff (attr : ScvlAttr) {start count : Nat} (hcount : 0 < count)
    (hlt : start + count ≤ 256) :
    Partitions (scvlSegments attr start count) (List.range' start count) ↔ count % 31 ≠ 0 := by
  constructor
  · intro h hzero
    have hsegs : stlReqAggrSegCount count sizeofScvlMap = count / 31 := by
      show (count + (31 - 1)) / 31 = count / 31
      omega
    have hlast : (⟨.scvl attr, requestLength 0, 0, ((count / 31 - 1) * 31 + start) % 256⟩ :
        Segment) ∈ scvlSegments attr start count := by
      unfold scvlSegments
      dsimp only
      rw [hsegs, List.mem_map]
      refine ⟨count / 31 - 1, List.mem_range.mpr (by omega), ?_⟩
      have hnot : ¬count / 31 - 1 + 1 < count / 31 := by omega
      have hrest : count % (stlMaxPayloadAggregate / sizeofScvlMap) = 0 := hzero
      rw [if_neg hnot, hrest]
      rfl
    exact Nat.not_succ_le_zero 0 (h.1 _ hlast).1
  · intro hrest
    obtain ⟨q, r, hr, hpos, rfl⟩ : ∃ q r, r < 31 ∧ 0 < r ∧ count = q * 31 + r :=
      ⟨count / 31, count % 31, by omega, by omega, by omega⟩
    have hmod : (q * 31 + r) % 31 = r := by omega
    have hsegs : scvlSegments attr start (q * 31 + r) = (List.range (q + 1)).map fun i =>
        { attributeId := .scvl attr
          requestLength := requestLength ((if i < q then 31 else r) * sizeofScvlMap)
          blkCount := if i < q then 31 else r
          port := (i * 31 + start) % 256 } := by
      unfold scvlSegments
      dsimp only
      rw [stlReqAggrSegCount_eq q r hr hpos]
      apply List.map_congr_left
      intro i _
      have hcount' : (if i + 1 < q + 1 then stlMaxPayloadAggregate / sizeofScvlMap
          else (q * 31 + r) % (stlMaxPayloadAggregate / sizeofScvlMap)) =
            if i < q then 31 else r := by
        show (if i + 1 < q + 1 then 31 else (q * 31 + r) % 31) = _
        rw [hmod]
        split <;> split <;> omega
      rw [hcount']
      rfl
    rw [hsegs]
    constructor
    · intro s hs
      obtain ⟨i, _, rfl⟩ := List.mem_map.mp hs
      show 1 ≤ (if i < q then 31 else r) ∧ (if i < q then 31 else r) ≤ 31
      split <;> omega
    · rw [List.flatMap_map, List.range_succ, List.flatMap_append, List.flatMap_singleton]
      have hfirst : ((List.range q).flatMap fun i => List.range' ((i * 31 + start) % 256)
          (if i < q then 31 else r)) = List.range' start (q * 31) := by
        rw [← flatMap_range'_ports]
        apply List.flatMap_congr
        intro i hi
        rw [List.mem_range] at hi
        rw [if_pos hi, Nat.mod_eq_of_lt (by omega)]
      show ((List.range q).flatMap fun i => List.range' ((i * 31 + start) % 256)
        (if i < q then 31 else r)) ++
          List.range' ((q * 31 + start) % 256) (if q < q then 31 else r) = _
      rw [hfirst, if_neg (Nat.lt_irrefl q), Nat.mod_eq_of_lt (by omega),
        Nat.add_comm (q * 31) start, List.range'_append_1]

/-! ## Tables of arbitration -/

/-- A port that is down but has data VLs only follows directly after as many eligible ports as
fill their segments; `k` ports that are eligible come directly before the list. -/
def GroupsClose (n : SmaNode) : Nat → List Nat → Prop
  | _, [] => True
  | k, i :: rest =>
    if eligible n i then GroupsClose n (k + 1) rest
    else (hasDataVls n i = true → k % 3 = 0) ∧ GroupsClose n 0 rest

theorem groupsClose_up (h : eligible n i = true) :
    GroupsClose n k (i :: rest) ↔ GroupsClose n (k + 1) rest := by
  rw [GroupsClose, if_pos h]

theorem groupsClose_down (h : ¬eligible n i = true) :
    GroupsClose n k (i :: rest) ↔
      (hasDataVls n i = true → k % 3 = 0) ∧ GroupsClose n 0 rest := by
  rw [GroupsClose, if_neg h]

theorem hasDataVls_of_eligible (h : eligible n i = true) : hasDataVls n i = true :=
  (Bool.and_eq_true _ _ ▸ h).1

theorem groupsClose_of_ended (hend : ∀ i ∈ l.head?, hasDataVls n i = false) :
    GroupsClose n k l ↔ GroupsClose n 0 l := by
  cases l with
  | nil => exact Iff.rfl
  | cons i rest =>
    have hdata : hasDataVls n i = false := hend i rfl
    have hdown : ¬eligible n i = true := by simp [eligible, hdata]
    rw [groupsClose_down hdown, groupsClose_down hdown, hdata]
    simp

theorem groupsClose_mod {k' : Nat} (hk : k % 3 = k' % 3) :
    GroupsClose n k l ↔ GroupsClose n k' l := by
  induction l generalizing k k' with
  | nil => exact Iff.rfl
  | cons i rest ih =>
    by_cases hup : eligible n i = true
    · rw [groupsClose_up hup, groupsClose_up hup]
      exact ih (by omega)
    · rw [groupsClose_down hup, groupsClose_down hup, hk]

def groupSegment (sec : VlarbSec) (portp len : Nat) : Segment where
  attributeId := .vlarb sec
  requestLength := requestLength (len * sizeofVlarbTable)
  blkCount := len
  port := portp

theorem vlarbSegments_skip (fuel : Nat) (h : ¬eligible n i = true) :
    vlarbSegments n sec (fuel + 1) (i :: rest) = vlarbSegments n sec (fuel + 1) rest := by
  have hdrop : (i :: rest).dropWhile (fun i => !(hasDataVls n i && isUp n i)) =
      rest.dropWhile fun i => !(hasDataVls n i && isUp n i) := by
    apply List.dropWhile_cons_of_pos
    have h' : (hasDataVls n i && isUp n i) = false := Bool.eq_false_iff.mpr h
    rw [h']
    rfl
  rw [vlarbSegments, vlarbSegments, hdrop]

theorem vlarbSegments_group (fuel : Nat) (h : eligible n i = true) {group : List Nat}
    (hgroup : ((i :: rest).takeWhile (hasDataVls n)).take 3 = group) :
    vlarbSegments n sec (fuel + 1) (i :: rest) =
      (vlarbSegments n sec fuel ((i :: rest).drop group.length)).map fun segs =>
        groupSegment sec i group.length :: segs := by
  have hdrop : (i :: rest).dropWhile (fun i => !(hasDataVls n i && isUp n i)) = i :: rest := by
    apply List.dropWhile_cons_of_neg
    have h' : (hasDataVls n i && isUp n i) = true := h
    rw [h']
    decide
  have hup : isUp n i = true := (Bool.and_eq_true _ _ ▸ h).2
  have hpred : (fun endPortp => hasDataVls n endPortp && isUp n i) = hasDataVls n := by
    funext j
    rw [hup, Bool.and_true]
  rw [vlarbSegments, hdrop]
  dsimp only
  rw [hpred]
  show Option.map _ (vlarbSegments n sec fuel ((i :: rest).drop
    (((i :: rest).takeWhile (hasDataVls n)).take 3).length)) = _
  rw [← hgroup]
  rfl

structure GroupSpec (n : SmaNode) (sec : VlarbSec) (k : Nat) (l : List Nat)
    (segs : List Segment) : Prop where
  attr : ∀ s ∈ segs, s.attributeId = .vlarb sec
  ports : segs.flatMap Segment.ports = l.filter (eligible n) ↔ GroupsClose n k l

theorem GroupSpec.cons {g : Nat} {segs : List Segment} (hk : k % 3 = 0)
    (hg : g ≤ 3) (hup : ∀ i ∈ List.range' a g, eligible n i = true) (h : GroupSpec n sec 0 l segs)
    (hend : g = 3 ∨ ∀ i ∈ l.head?, hasDataVls n i = false) :
    GroupSpec n sec k (List.range' a g ++ l) (groupSegment sec a g :: segs) := by
  have hclose : ∀ (b : Nat) (k' : Nat) (m : List Nat), (∀ i ∈ List.range' b g, eligible n i = true) →
      (GroupsClose n k' (List.range' b g ++ m) ↔ GroupsClose n (k' + g) m) := by
    clear hend hup hg
    induction g with
    | zero => exact fun b k' m _ => Iff.rfl
    | succ g ih =>
      intro b k' m hall
      rw [List.range'_succ, List.cons_append,
        groupsClose_up (hall b (by simp [List.mem_range'_1])),
        ih (b + 1) (k' + 1) m fun i hi => hall i (by
          rw [List.mem_range'_1] at hi ⊢
          omega)]
      rw [Nat.add_assoc, Nat.add_comm 1 g]
  constructor
  · intro s hs
    rcases List.mem_cons.mp hs with rfl | hs
    · rfl
    · exact h.attr s hs
  · have hfilter : (List.range' a g ++ l).filter (eligible n) =
        List.range' a g ++ l.filter (eligible n) := by
      rw [List.filter_append, List.filter_eq_self.mpr hup]
    have hports : (groupSegment sec a g :: segs).flatMap Segment.ports =
        List.range' a g ++ segs.flatMap Segment.ports := by
      rw [List.flatMap_cons]
      rfl
    rw [hfilter, hports, List.append_cancel_left_eq, h.ports, hclose a k l hup]
    rcases hend with rfl | hend
    · exact groupsClose_mod (by omega)
    · exact (groupsClose_of_ended hend).symm

theorem GroupSpec.cons_down {g j : Nat} {segs : List Segment} (hj : j ∈ List.range' a g)
    (hdown : ¬eligible n j = true) (hattr : ∀ s ∈ segs, s.attributeId = .vlarb sec)
    (hopen : ¬GroupsClose n k l) : GroupSpec n sec k l (groupSegment sec a g :: segs) := by
  constructor
  · intro s hs
    rcases List.mem_cons.mp hs with rfl | hs
    · rfl
    · exact hattr s hs
  · refine iff_of_false ?_ hopen
    intro heq
    have hin : j ∈ (groupSegment sec a g :: segs).flatMap Segment.ports := by
      rw [List.flatMap_cons]
      exact List.mem_append_left _ hj
    rw [heq] at hin
    exact hdown (List.mem_filter.mp hin).2

theorem takeWhile_range' (p : Nat → Bool) (c a len : Nat) :
    ∃ g m, len = g + m ∧ g ≤ c ∧ ((List.range' a len).takeWhile p).take c = List.range' a g ∧
      (g = c ∨ ∀ i ∈ (List.range' (a + g) m).head?, p i = false) ∧
      ∀ i ∈ List.range' a g, p i = true := by
  induction c generalizing a len with
  | zero =>
    exact ⟨0, len, (Nat.zero_add len).symm, Nat.le_refl 0, by simp, Or.inl rfl,
      fun i hi => absurd hi List.not_mem_nil⟩
  | succ c ih =>
    cases len with
    | zero =>
      refine ⟨0, 0, rfl, Nat.zero_le _, rfl, Or.inr ?_, fun i hi => absurd hi List.not_mem_nil⟩
      intro i hi
      cases hi
    | succ len =>
      cases ha : p a with
      | true =>
        obtain ⟨g, m, hlen, hg, htake, hend, hall⟩ := ih (a + 1) len
        refine ⟨g + 1, m, by omega, by omega, ?_, ?_, ?_⟩
        · rw [List.range'_succ, List.takeWhile_cons_of_pos ha, List.take_succ_cons, htake,
            List.range'_succ]
        · rcases hend with rfl | hend
          · exact Or.inl rfl
          · right
            have heq : a + 1 + g = a + (g + 1) := by omega
            rwa [heq] at hend
        · intro i hi
          rw [List.range'_succ] at hi
          rcases List.mem_cons.mp hi with rfl | hi
          · exact ha
          · exact hall i hi
      | false =>
        refine ⟨0, len + 1, by omega, Nat.zero_le _, ?_, Or.inr ?_,
          fun i hi => absurd hi List.not_mem_nil⟩
        · rw [List.range'_succ, List.takeWhile_cons_of_neg (by rw [ha]; decide)]
          rfl
        · intro i hi
          rw [Nat.add_zero, List.range'_succ, List.head?_cons] at hi
          injection hi with hi
          rw [← hi]
          exact ha

theorem not_groupsClose {g j : Nat} (hk : k % 3 = 0) (hg : g ≤ 3) (ha : eligible n a = true)
    (hdata : ∀ i ∈ List.range' a g, hasDataVls n i = true) (hj : j ∈ List.range' a g)
    (hdown : ¬eligible n j = true) : ¬GroupsClose n k (List.range' a g ++ l) := by
  intro h
  rw [List.mem_range'_1] at hj
  have hne : j ≠ a := by
    rintro rfl
    exact hdown ha
  have hjdata := hdata j (by rw [List.mem_range'_1]; omega)
  have hstep : List.range' a g = a :: List.range' (a + 1) (g - 1) := by
    obtain ⟨g', rfl⟩ : ∃ g', g = g' + 1 := ⟨g - 1, by omega⟩
    exact List.range'_succ
  rw [hstep, List.cons_append, groupsClose_up ha] at h
  have hstep' : List.range' (a + 1) (g - 1) = (a + 1) :: List.range' (a + 2) (g - 2) := by
    obtain ⟨g', rfl⟩ : ∃ g', g = g' + 2 := ⟨g - 2, by omega⟩
    exact List.range'_succ
  rw [hstep', List.cons_append] at h
  by_cases hb : eligible n (a + 1) = true
  · -- the port that is down is the third
    have hj2 : j = a + 2 := by
      have hne' : j ≠ a + 1 := by
        rintro rfl
        exact hdown hb
      omega
    subst hj2
    have hstep'' : List.range' (a + 2) (g - 2) = (a + 2) :: List.range' (a + 3) (g - 3) := by
      obtain ⟨g', rfl⟩ : ∃ g', g = g' + 3 := ⟨g - 3, by omega⟩
      exact List.range'_succ
    rw [groupsClose_up hb, hstep'', List.cons_append, groupsClose_down hdown] at h
    have := h.1 hjdata
    omega
  · have hbdata := hdata (a + 1) (by rw [List.mem_range'_1]; omega)
    rw [groupsClose_down hb] at h
    have := h.1 hbdata
    omega

theorem vlarbSegments_spec (sec : VlarbSec) (fuel a len k : Nat) (hk : k % 3 = 0)
    (hfuel : len < fuel) :
    ∃ segs, vlarbSegments n sec fuel (List.range' a len) = some segs ∧
      GroupSpec n sec k (List.range' a len) segs := by
  induction len using Nat.strongRecOn generalizing fuel a k with
  | ind len ih =>
    obtain ⟨fuel, rfl⟩ : ∃ f, fuel = f + 1 := ⟨fuel - 1, by omega⟩
    cases len with
    | zero => exact ⟨[], rfl, fun s hs => absurd hs List.not_mem_nil, iff_of_true rfl trivial⟩
    | succ len =>
      have hcons : List.range' a (len + 1) = a :: List.range' (a + 1) len := List.range'_succ
      by_cases ha : eligible n a = true
      · obtain ⟨g, m, hlen, hg, htake, hend, hdata⟩ :=
          takeWhile_range' (hasDataVls n) 3 a (len + 1)
        have hpos : 0 < g := by
          apply Nat.pos_of_ne_zero
          rintro rfl
          rcases hend with hthree | hend
          · cases hthree
          · have hm : m = len + 1 := by omega
            have hfalse := hend a (by rw [hm, Nat.add_zero, hcons]; rfl)
            rw [hasDataVls_of_eligible ha] at hfalse
            cases hfalse
        have hsplit : List.range' a (len + 1) = List.range' a g ++ List.range' (a + g) m := by
          rw [hlen, List.range'_append_1]
        obtain ⟨segs, hsegs, hspec⟩ := ih m (by omega) fuel (a + g) 0 rfl (by omega)
        have hdrop : (List.range' a (len + 1)).drop (List.range' a g).length =
            List.range' (a + g) m := by
          rw [hsplit, List.drop_left]
        have hrun : vlarbSegments n sec (fuel + 1) (List.range' a (len + 1)) =
            some (groupSegment sec a g :: segs) := by
          rw [hcons] at htake hdrop ⊢
          rw [vlarbSegments_group fuel ha htake, hdrop, hsegs, Option.map_some,
            List.length_range']
        refine ⟨_, hrun, ?_⟩
        by_cases hall : ∀ i ∈ List.range' a g, eligible n i = true
        · rw [hsplit]
          exact GroupSpec.cons hk hg hall hspec hend
        · push Not at hall
          obtain ⟨j, hj, hdown⟩ := hall
          apply GroupSpec.cons_down hj hdown hspec.attr
          rw [hsplit]
          exact not_groupsClose hk hg ha hdata hj hdown
      · obtain ⟨segs, hsegs, hspec⟩ := ih len (by omega) (fuel + 1) (a + 1) 0 rfl (by omega)
        refine ⟨segs, ?_, hspec.attr, ?_⟩
        · rw [hcons, vlarbSegments_skip fuel ha]
          exact hsegs
        · rw [hcons, List.filter_cons_of_neg ha, groupsClose_down ha, hspec.ports]
          exact (and_iff_right fun _ => hk).symm

/-! ## The aggregate -/

def withAttr (attr : SegAttr) (segs : List Segment) : List Segment :=
  segs.filter fun s => s.attributeId = attr

theorem withAttr_append (attr : SegAttr) (l l' : List Segment) :
    withAttr attr (l ++ l') = withAttr attr l ++ withAttr attr l' := List.filter_append ..

theorem withAttr_of_eq {attr : SegAttr} {l : List Segment}
    (h : ∀ s ∈ l, s.attributeId = attr) : withAttr attr l = l :=
  List.filter_eq_self.mpr fun s hs => decide_eq_true (h s hs)

theorem withAttr_of_ne {attr attr' : SegAttr} {l : List Segment}
    (h : ∀ s ∈ l, s.attributeId = attr) (hne : attr ≠ attr') : withAttr attr' l = [] := by
  apply List.filter_eq_nil_iff.mpr
  intro s hs heq
  rw [decide_eq_true_iff, h s hs] at heq
  exact hne heq

def wantedFlags (n : SmaNode) : AggrFlags := scanPorts n (nodePorts n) {}

/-- The aggregate has a segment of the ports for each table that a scan of all ports asks for:
the SC to VL tables in parts of the node's ports, and the arbitration tables for the ports that
are valid, up and have more than one data VL. -/
def AggregateMeets (n : SmaNode) : Prop :=
  ∃ segs, aggregate n = some segs ∧
    (∀ attr, (wantedFlags n).scvl attr = true →
      Partitions (withAttr (.scvl attr) segs) (nodePorts n)) ∧
    ∀ sec, (wantedFlags n).vlarb sec = true →
      (withAttr (.vlarb sec) segs).flatMap Segment.ports = (nodePorts n).filter (eligible n)

theorem scvlSegments_attr (attr : ScvlAttr) (start count : Nat) :
    ∀ s ∈ scvlSegments attr start count, s.attributeId = .scvl attr := by
  intro s hs
  obtain ⟨i, _, rfl⟩ := List.mem_map.mp hs
  rfl

theorem nodePorts_eq (n : SmaNode) :
    ∃ start count, nodePorts n = List.range' start count ∧ count ≤ n.numPorts + 1 := by
  unfold nodePorts
  split
  · exact ⟨0, n.numPorts + 1, rfl, Nat.le_refl _⟩
  · exact ⟨n.smaport, 1, rfl, by omega⟩

def headSegments (data : SmaPortData) : List Segment :=
  (if data.current.slsc then [] else [{ attributeId := .slsc, requestLength := requestLength 32 }]) ++
  (if data.current.scsl then [] else [{ attributeId := .scsl, requestLength := requestLength 32 }])

theorem withAttr_headSegments (data : SmaPortData) {attr : SegAttr} (hslsc : attr ≠ .slsc)
    (hscsl : attr ≠ .scsl) : withAttr attr (headSegments data) = [] := by
  apply List.filter_eq_nil_iff.mpr
  intro s hs heq
  rw [decide_eq_true_iff] at heq
  rcases List.mem_append.mp hs with hs | hs
  · split at hs
    · exact List.not_mem_nil hs
    · rw [List.mem_singleton.mp hs] at heq
      exact hslsc heq.symm
  · split at hs
    · exact List.not_mem_nil hs
    · rw [List.mem_singleton.mp hs] at heq
      exact hscsl heq.symm

def scvlParts (n : SmaNode) (flags : AggrFlags) (numPorts : Nat) (attr : ScvlAttr) : List Segment :=
  if flags.scvl attr then scvlSegments attr n.smaport numPorts else []

theorem scvlParts_attr (flags : AggrFlags) (numPorts : Nat) (attr : ScvlAttr) :
    ∀ s ∈ scvlParts n flags numPorts attr, s.attributeId = .scvl attr := by
  intro s hs
  unfold scvlParts at hs
  split at hs
  · exact scvlSegments_attr attr _ _ s hs
  · exact absurd hs List.not_mem_nil

theorem vlarbParts_spec (n : SmaNode) (flags : AggrFlags) (sec : VlarbSec) : ∃ segs,
    (if flags.vlarb sec then vlarbSegments n sec (n.numPorts + 2) (nodePorts n) else some []) =
      some segs ∧ (∀ s ∈ segs, s.attributeId = .vlarb sec) ∧
    (flags.vlarb sec = true → GroupSpec n sec 0 (nodePorts n) segs) ∧
    (flags.vlarb sec = false → segs = []) := by
  obtain ⟨start, count, hports, hcount⟩ := nodePorts_eq n
  cases hflag : flags.vlarb sec with
  | true =>
    obtain ⟨segs, hsegs, hspec⟩ :=
      vlarbSegments_spec (n := n) sec (n.numPorts + 2) start count 0 rfl (by omega)
    rw [hports]
    exact ⟨segs, hsegs, hspec.attr, fun _ => hspec, fun h => Bool.noConfusion h⟩
  | false =>
    exact ⟨[], rfl, fun s hs => absurd hs List.not_mem_nil, fun h => Bool.noConfusion h,
      fun _ => rfl⟩

theorem aggregate_run {smaData : SmaPortData}
    (hdata : (n.port n.smaport).portData = some smaData) {numPorts : Nat}
    (hnum : aggrNumPorts n = some numPorts) {flags : AggrFlags}
    (hflags : flags = scanPorts n (List.range' n.smaport numPorts) {})
    {vlarb : VlarbSec → List Segment} (hvlarb : ∀ sec,
      (if flags.vlarb sec then vlarbSegments n sec (n.numPorts + 2) (nodePorts n) else some []) =
        some (vlarb sec)) :
    aggregate n = some (headSegments smaData ++
      (scvlParts n flags numPorts .scvlt ++
        (scvlParts n flags numPorts .scvlnt ++ scvlParts n flags numPorts .scvlr)) ++
      (vlarb .high ++ (vlarb .low ++ (vlarb .preempt ++ vlarb .matrix)))) := by
  unfold aggregate
  rw [hnum, Option.bind_some, hdata, Option.bind_some]
  dsimp only
  rw [← hflags]
  have hmap : ([VlarbSec.high, .low, .preempt, .matrix].mapM fun sec =>
      if flags.vlarb sec then vlarbSegments n sec (n.numPorts + 2) (nodePorts n) else some []) =
        some [vlarb .high, vlarb .low, vlarb .preempt, vlarb .matrix] := by
    simp only [List.mapM_cons, List.mapM_nil, hvlarb]
    rfl
  rw [hmap, Option.map_some]
  simp only [List.flatMap_cons, List.flatMap_nil, List.flatten_cons, List.flatten_nil,
    List.append_nil]
  rfl

section

variable {heads : List Segment} {scvl : ScvlAttr → List Segment} {vlarb : VlarbSec → List Segment}

theorem withAttr_scvl (hheads : ∀ attr, attr ≠ .slsc → attr ≠ .scsl → withAttr attr heads = [])
    (hscvl : ∀ attr, ∀ s ∈ scvl attr, s.attributeId = .scvl attr)
    (hvlarb : ∀ sec, ∀ s ∈ vlarb sec, s.attributeId = .vlarb sec) (attr : ScvlAttr) :
    withAttr (.scvl attr) (heads ++ (scvl .scvlt ++ (scvl .scvlnt ++ scvl .scvlr)) ++
      (vlarb .high ++ (vlarb .low ++ (vlarb .preempt ++ vlarb .matrix)))) = scvl attr := by
  have hother : ∀ sec, withAttr (.scvl attr) (vlarb sec) = [] := fun sec =>
    withAttr_of_ne (hvlarb sec) fun h => by cases h
  have hdiff : ∀ attr', attr' ≠ attr → withAttr (.scvl attr) (scvl attr') = [] := fun attr' hne =>
    withAttr_of_ne (hscvl attr') fun h => hne (by injection h)
  have hsame : withAttr (.scvl attr) (scvl attr) = scvl attr := withAttr_of_eq (hscvl attr)
  simp only [withAttr_append, hother, hheads (.scvl attr) (fun h => by cases h)
    (fun h => by cases h), List.nil_append, List.append_nil]
  cases attr with
  | scvlt =>
    rw [hsame, hdiff .scvlnt (fun h => by cases h), hdiff .scvlr (fun h => by cases h)]
    simp only [List.append_nil]
  | scvlnt =>
    rw [hsame, hdiff .scvlt (fun h => by cases h), hdiff .scvlr (fun h => by cases h)]
    simp only [List.append_nil, List.nil_append]
  | scvlr =>
    rw [hsame, hdiff .scvlt (fun h => by cases h), hdiff .scvlnt (fun h => by cases h)]
    simp only [List.nil_append]

theorem withAttr_vlarb (hheads : ∀ attr, attr ≠ .slsc → attr ≠ .scsl → withAttr attr heads = [])
    (hscvl : ∀ attr, ∀ s ∈ scvl attr, s.attributeId = .scvl attr)
    (hvlarb : ∀ sec, ∀ s ∈ vlarb sec, s.attributeId = .vlarb sec) (sec : VlarbSec) :
    withAttr (.vlarb sec) (heads ++ (scvl .scvlt ++ (scvl .scvlnt ++ scvl .scvlr)) ++
      (vlarb .high ++ (vlarb .low ++ (vlarb .preempt ++ vlarb .matrix)))) = vlarb sec := by
  have hother : ∀ attr, withAttr (.vlarb sec) (scvl attr) = [] := fun attr =>
    withAttr_of_ne (hscvl attr) fun h => by cases h
  have hdiff : ∀ sec', sec' ≠ sec → withAttr (.vlarb sec) (vlarb sec') = [] := fun sec' hne =>
    withAttr_of_ne (hvlarb sec') fun h => hne (by injection h)
  have hsame : withAttr (.vlarb sec) (vlarb sec) = vlarb sec := withAttr_of_eq (hvlarb sec)
  simp only [withAttr_append, hother, hheads (.vlarb sec) (fun h => by cases h)
    (fun h => by cases h), List.nil_append]
  cases sec with
  | high =>
    rw [hsame, hdiff .low (fun h => by cases h), hdiff .preempt (fun h => by cases h),
      hdiff .matrix (fun h => by cases h)]
    simp only [List.append_nil]
  | low =>
    rw [hsame, hdiff .high (fun h => by cases h), hdiff .preempt (fun h => by cases h),
      hdiff .matrix (fun h => by cases h)]
    simp only [List.append_nil, List.nil_append]
  | preempt =>
    rw [hsame, hdiff .high (fun h => by cases h), hdiff .low (fun h => by cases h),
      hdiff .matrix (fun h => by cases h)]
    simp only [List.append_nil, List.nil_append]
  | matrix =>
    rw [hsame, hdiff .high (fun h => by cases h), hdiff .low (fun h => by cases h),
      hdiff .preempt (fun h => by cases h)]
    simp only [List.nil_append]

end

theorem aggregate_eq
    (hsma : (n.port n.smaport).portData.isSome = true) {numPorts : Nat}
    (hnum : aggrNumPorts n = some numPorts) :
    ∃ segs, aggregate n = some segs ∧
      (∀ attr, withAttr (.scvl attr) segs =
        if (scanPorts n (List.range' n.smaport numPorts) {}).scvl attr then
          scvlSegments attr n.smaport numPorts else []) ∧
      ∀ sec, ((scanPorts n (List.range' n.smaport numPorts) {}).vlarb sec = true →
          GroupSpec n sec 0 (nodePorts n) (withAttr (.vlarb sec) segs)) ∧
        ((scanPorts n (List.range' n.smaport numPorts) {}).vlarb sec = false →
          withAttr (.vlarb sec) segs = []) := by
  obtain ⟨smaData, hdata⟩ := Option.isSome_iff_exists.mp hsma
  set flags := scanPorts n (List.range' n.smaport numPorts) {} with hflags
  choose vlarb hvlarb hattr hgroup hnone using vlarbParts_spec n flags
  have hheads := fun attr => @withAttr_headSegments smaData attr
  have hscvl := scvlParts_attr (n := n) flags numPorts
  refine ⟨_, aggregate_run hdata hnum hflags hvlarb, ?_, ?_⟩
  · exact withAttr_scvl hheads hscvl hattr
  · intro sec
    rw [withAttr_vlarb hheads hscvl hattr sec]
    exact ⟨hgroup sec, hnone sec⟩

theorem exists_eligible_of_vlarb {f : AggrFlags} (h : (scanPorts n l f).vlarb sec = true) :
    f.vlarb sec = true ∨ ∃ i ∈ l, eligible n i = true := by
  induction l generalizing f with
  | nil => exact Or.inl h
  | cons i rest ih =>
    have hrest : ∀ {f'}, (scanPorts n rest f').vlarb sec = true →
        f'.vlarb sec = true ∨ ∃ j ∈ i :: rest, eligible n j = true := by
      intro f' h'
      rcases ih h' with h' | ⟨j, hj, hup⟩
      · exact Or.inl h'
      · exact Or.inr ⟨j, List.mem_cons_of_mem i hj, hup⟩
    cases hdata : (n.port i).portData with
    | none =>
      rw [scanPorts, hdata] at h
      exact hrest h
    | some d =>
      rw [scanPorts, hdata] at h
      dsimp only at h
      by_cases hup : isUp n i = true
      · rw [if_pos hup] at h
        have hflags : (addFlags f d).vlarb sec = true ∨
            ∃ j ∈ i :: rest, eligible n j = true := by
          split at h
          · exact Or.inl h
          · exact hrest h
        rcases hflags with hflags | hlater
        · by_cases hvl : 1 < d.vl0
          · right
            refine ⟨i, List.mem_cons_self, ?_⟩
            have hvls : hasDataVls n i = true := by
              unfold hasDataVls
              rw [hdata]
              exact decide_eq_true hvl
            unfold eligible
            rw [hvls, hup]
            rfl
          · left
            unfold addFlags at hflags
            dsimp only at hflags
            rw [if_neg hvl] at hflags
            cases sec <;> exact hflags
        · exact Or.inr hlater
      · rw [if_neg hup] at h
        exact hrest h

theorem wantedFlags_vlarb (h : (wantedFlags n).vlarb sec = true) :
    (nodePorts n).filter (eligible n) ≠ [] := by
  rcases exists_eligible_of_vlarb h with hfalse | ⟨i, hi, hup⟩
  · cases sec <;> cases hfalse
  · exact List.ne_nil_of_mem (List.mem_filter.mpr ⟨hi, hup⟩)

/-- A switch with so many ports that their number does not fit in 8 bits. -/
def PortsWrap (n : SmaNode) : Prop := n.nodeType = .switch ∧ n.numPorts = 255

/-- Where the number of ports wraps, nothing is scanned, and nothing may be asked for. -/
theorem aggregate_meets_wrap (hwrap : PortsWrap n)
    (hsma : (n.port n.smaport).portData.isSome = true) :
    AggregateMeets n ↔ (∀ attr, (wantedFlags n).scvl attr = false) ∧
      ∀ sec, (wantedFlags n).vlarb sec = false := by
  have hnum : aggrNumPorts n = some 0 := by
    unfold aggrNumPorts
    rw [hwrap.1, hwrap.2]
  obtain ⟨segs, hrun, hscvl, hvlarb⟩ := aggregate_eq hsma hnum
  have hports : nodePorts n = List.range' 0 256 := by
    unfold nodePorts
    rw [if_pos hwrap.1, hwrap.2]
  constructor
  · rintro ⟨segs', hrun', hscvl', hvlarb'⟩
    rw [hrun] at hrun'
    injection hrun' with hrun'
    subst hrun'
    constructor
    · intro attr
      by_contra hwant
      have hpart := (hscvl' attr (Bool.eq_true_of_not_eq_false hwant)).2
      have hnil : withAttr (.scvl attr) segs = [] := by
        rw [hscvl attr]
        cases attr <;> rfl
      rw [hnil, hports] at hpart
      cases hpart
    · intro sec
      by_contra hwant
      have hwant := Bool.eq_true_of_not_eq_false hwant
      have heq := hvlarb' sec hwant
      have hnil : withAttr (.vlarb sec) segs = [] := (hvlarb sec).2 (by cases sec <;> rfl)
      rw [hnil] at heq
      exact wantedFlags_vlarb hwant heq.symm
  · rintro ⟨hnoscvl, hnovlarb⟩
    refine ⟨segs, hrun, ?_, ?_⟩
    · intro attr hwant
      rw [hnoscvl attr] at hwant
      cases hwant
    · intro sec hwant
      rw [hnovlarb sec] at hwant
      cases hwant

theorem aggrNumPorts_of_not_wrap (hwrap : ¬PortsWrap n) (hrouter : n.nodeType ≠ .router) :
    ∃ count, aggrNumPorts n = some count ∧ nodePorts n = List.range' n.smaport count ∧
      0 < count ∧ n.smaport + count ≤ 256 := by
  have hnum := n.numPorts_lt
  have hsma' := n.smaport_le
  unfold aggrNumPorts nodePorts
  cases htype : n.nodeType with
  | ca => exact ⟨1, rfl, rfl, Nat.one_pos, by omega⟩
  | switch =>
    have hne : n.numPorts ≠ 255 := fun h => hwrap ⟨htype, h⟩
    refine ⟨n.numPorts + 1, ?_, ?_, Nat.succ_pos _, ?_⟩
    · show some ((n.numPorts + 1) % 256) = _
      rw [Nat.mod_eq_of_lt (by omega)]
    · rw [if_pos rfl, n.smaport_switch htype]
    · rw [n.smaport_switch htype]
      omega
  | router => exact absurd htype hrouter

theorem aggregate_meets_of_not_wrap (hwrap : ¬PortsWrap n) (hrouter : n.nodeType ≠ .router)
    (hsma : (n.port n.smaport).portData.isSome = true) :
    AggregateMeets n ↔
      (∀ attr, (wantedFlags n).scvl attr = true → (nodePorts n).length % 31 ≠ 0) ∧
      ∀ sec, (wantedFlags n).vlarb sec = true → GroupsClose n 0 (nodePorts n) := by
  obtain ⟨count, hnum, hports, hcount, hlt⟩ := aggrNumPorts_of_not_wrap hwrap hrouter
  obtain ⟨segs, hrun, hscvl, hvlarb⟩ := aggregate_eq hsma hnum
  have hflags : scanPorts n (List.range' n.smaport count) {} = wantedFlags n := by
    unfold wantedFlags
    rw [hports]
  rw [hflags] at hscvl hvlarb
  have hparts : ∀ attr, (wantedFlags n).scvl attr = true →
      (Partitions (withAttr (.scvl attr) segs) (nodePorts n) ↔
        (nodePorts n).length % 31 ≠ 0) := by
    intro attr hwant
    rw [hscvl attr, if_pos hwant, hports, scvlSegments_partitions_iff attr hcount hlt,
      List.length_range']
  constructor
  · rintro ⟨segs', hrun', hscvl', hvlarb'⟩
    rw [hrun] at hrun'
    injection hrun' with hrun'
    subst hrun'
    constructor
    · exact fun attr hwant => (hparts attr hwant).mp (hscvl' attr hwant)
    · exact fun sec hwant => ((hvlarb sec).1 hwant).ports.mp (hvlarb' sec hwant)
  · rintro ⟨hparts', hgroups⟩
    refine ⟨segs, hrun, ?_, ?_⟩
    · exact fun attr hwant => (hparts attr hwant).mpr (hparts' attr hwant)
    · exact fun sec hwant => ((hvlarb sec).1 hwant).ports.mpr (hgroups sec hwant)

/-- The requests cover the ports, exactly if their number does not wrap, the segments of SC to VL
tables do not come out even, and no group of ports takes along one that is down. -/
theorem aggregate_meets_iff (n : SmaNode) (hrouter : n.nodeType ≠ .router)
    (hsma : (n.port n.smaport).portData.isSome = true) :
    AggregateMeets n ↔
      (PortsWrap n → (∀ attr, (wantedFlags n).scvl attr = false) ∧
        ∀ sec, (wantedFlags n).vlarb sec = false) ∧
      (∀ attr, (wantedFlags n).scvl attr = true → (nodePorts n).length % 31 ≠ 0) ∧
      ∀ sec, (wantedFlags n).vlarb sec = true → GroupsClose n 0 (nodePorts n) := by
  by_cases hwrap : PortsWrap n
  · rw [aggregate_meets_wrap hwrap hsma]
    constructor
    · rintro ⟨hnoscvl, hnovlarb⟩
      refine ⟨fun _ => ⟨hnoscvl, hnovlarb⟩, ?_, ?_⟩
      · intro attr hwant
        rw [hnoscvl attr] at hwant
        cases hwant
      · intro sec hwant
        rw [hnovlarb sec] at hwant
        cases hwant
    · exact fun h => h.1 hwrap
  · rw [aggregate_meets_of_not_wrap hwrap hrouter hsma]
    exact ⟨fun h => ⟨fun hw => absurd hw hwrap, h⟩, And.right⟩

/-! A switch of which all ports are up, with all tables still to be read. -/

def freshSwitch (numPorts : Nat) (h : numPorts < 256) : SmaNode where
  nodeType := .switch
  numPorts := numPorts
  smaport := 0
  port := fun _ => { state := .active, portData := some { vl0 := 8 } }
  numPorts_lt := h
  smaport_le := Nat.zero_le _
  smaport_switch := fun _ => rfl

theorem aggregate_meets_iff_switch :
    AggregateMeets (freshSwitch 48 (by decide)) ↔
      (PortsWrap (freshSwitch 48 (by decide)) →
        (∀ attr, (wantedFlags (freshSwitch 48 (by decide))).scvl attr = false) ∧
        ∀ sec, (wantedFlags (freshSwitch 48 (by decide))).vlarb sec = false) ∧
      (∀ attr, (wantedFlags (freshSwitch 48 (by decide))).scvl attr = true →
        (nodePorts (freshSwitch 48 (by decide))).length % 31 ≠ 0) ∧
      ∀ sec, (wantedFlags (freshSwitch 48 (by decide))).vlarb sec = true →
        GroupsClose (freshSwitch 48 (by decide)) 0 (nodePorts (freshSwitch 48 (by decide))) :=
  aggregate_meets_iff (freshSwitch 48 (by decide)) (by decide) rfl

/-- With 30 ports and port 0, the one segment for a table asks for no port. -/
theorem aggregate_misses : ¬AggregateMeets (freshSwitch 30 (by decide)) := by
  rintro ⟨segs, hrun, hscvl, _⟩
  have hnum : aggrNumPorts (freshSwitch 30 (by decide)) = some 31 := rfl
  obtain ⟨segs', hrun', hscvl', _⟩ := aggregate_eq rfl hnum
  rw [hrun] at hrun'
  injection hrun' with hrun'
  have hseg : withAttr (.scvl .scvlt) segs = scvlSegments .scvlt 0 31 := by
    rw [hrun', hscvl' .scvlt]
    rfl
  have hpart := hscvl .scvlt rfl
  rw [hseg] at hpart
  exact (scvlSegments_partitions_iff .scvlt (by decide) (by decide)).mp hpart rfl

end OpaFm.SmQos
