import OpaFm.Routing.Proofs.CycleSort
import OpaFm.Routing.Proofs.HostPasses

/-!
# Where balancing spreads over the neighbours

The runs that are sorted by load end where the GUID goes down.  The first round ends so if a GUID
that is not the largest comes again.  If only the largest one does, the GUID never goes down, and
all ports are sorted as one run.
-/

namespace OpaFm.Routing

open OpaFm.Fabric OpaFm.Lib

/-! ## The runs that are sorted -/

section Runs

variable {ports : List SwitchportToNextGuid}
  {sort : List SwitchportToNextGuid → List SwitchportToNextGuid}

theorem sortRun_skip {i : Nat} (hlast : i + 1 ≠ ports.length)
    (hasc : guidDescends ports i = false) :
    sortRun sort (ports, 0) i = (ports, 0) := by
  rw [sortRun, if_neg]
  rintro (hend | hdesc)
  · exact hlast hend
  · rw [hasc] at hdesc
    cases hdesc

theorem foldl_sortRun_first {k : Nat} (hk : k < ports.length)
    (hasc : ∀ i < k, guidDescends ports i = false)
    (hend : k + 1 = ports.length ∨ guidDescends ports k = true) :
    (List.range (k + 1)).foldl (sortRun sort) (ports, 0) =
      (sort (ports.take (k + 1)) ++ ports.drop (k + 1), k + 1) := by
  have hskip (n : Nat) (hn : n ≤ k) :
      (List.range n).foldl (sortRun sort) (ports, 0) = (ports, 0) := by
    induction n with
    | zero => rfl
    | succ n ih =>
      rw [List.range_succ, List.foldl_append, ih (by omega)]
      exact sortRun_skip (by omega) (hasc n (by omega))
  rw [List.range_succ, List.foldl_append, hskip k (Nat.le_refl k)]
  show sortRun sort (ports, 0) k = _
  rw [sortRun, if_pos hend, List.take_zero, List.drop_zero, Nat.sub_zero]
  rfl

theorem foldl_sortRun_rest (hsort : ∀ l, (sort l).Perm l) {d : Nat} (is : List Nat)
    (s : List SwitchportToNextGuid × Nat) (his : ∀ i ∈ is, d ≤ i ∧ i < s.1.length)
    (hd : d ≤ s.2) (hlen : s.2 ≤ s.1.length) :
    (is.foldl (sortRun sort) s).1.take d = s.1.take d := by
  induction is generalizing s with
  | nil => rfl
  | cons i is ih =>
    obtain ⟨hdi, hi⟩ := his i (.head _)
    have hlength : (sortRun sort s i).1.length = s.1.length := (sortRun_perm hsort s i).length_eq
    have hstep : (sortRun sort s i).1.take d = s.1.take d ∧ d ≤ (sortRun sort s i).2 ∧
        (sortRun sort s i).2 ≤ s.1.length := by
      unfold sortRun
      split
      · refine ⟨?_, by dsimp only; omega, hi⟩
        dsimp only
        rw [List.append_assoc, List.take_append_of_le_length (by simp; omega), List.take_take,
          Nat.min_eq_left hd]
      · exact ⟨rfl, hd, hlen⟩
    rw [List.foldl_cons, ih _ (fun j hj => hlength ▸ his j (.tail _ hj)) hstep.2.1
      (hlength ▸ hstep.2.2), hstep.1]

end Runs

/-! ## Where the first round ends -/

section Rounds

variable {ports : List SwitchportToNextGuid}

theorem guidDescends_iff {i g g' : Nat} (hg : (ports.map SwitchportToNextGuid.guid)[i]? = some g)
    (hg' : (ports.map SwitchportToNextGuid.guid)[i + 1]? = some g') :
    guidDescends ports i = true ↔ g' < g := by
  rw [List.getElem?_map, Option.map_eq_some_iff] at hg hg'
  obtain ⟨e, he, rfl⟩ := hg
  obtain ⟨e', he', rfl⟩ := hg'
  simp only [guidDescends, he, he', decide_eq_true_eq]

def LowerRepeated (guids : List Nat) : Prop :=
  ∃ g ∈ guids, ∃ g' ∈ guids, g < g' ∧ 2 ≤ guids.count g

theorem descends_of_lowerRepeated
    (hrounds : RoundRobin (ports.map SwitchportToNextGuid.guid))
    (h : LowerRepeated (ports.map SwitchportToNextGuid.guid)) :
    ∃ k, k + 1 = (ports.map SwitchportToNextGuid.guid).dedup.length ∧ k + 1 < ports.length ∧
      (∀ i < k, guidDescends ports i = false) ∧ guidDescends ports k = true := by
  generalize hguids : ports.map SwitchportToNextGuid.guid = guids at hrounds h ⊢
  have hlen : guids.length = ports.length := by rw [← hguids, List.length_map]
  obtain ⟨g, hg, g', hg', hlt, hcount⟩ := h
  obtain ⟨s, hs, hsg'⟩ := hrounds.mem_firstRound hg'
  obtain ⟨t, ht, hocc⟩ := exists_occurrence guids hcount
  have htlt : t < guids.length := (List.getElem?_eq_some_iff.mp ht).1
  have hdt : guids.dedup.length ≤ t := by
    by_contra hlt
    have := (hrounds.firstRound htlt).mpr (by omega)
    omega
  obtain ⟨k, hk⟩ : ∃ k, k + 1 = guids.dedup.length := ⟨guids.dedup.length - 1, by omega⟩
  have hget (i : Nat) (hi : i < guids.length) : ∃ h, guids[i]? = some h :=
    ⟨_, List.getElem?_eq_getElem hi⟩
  obtain ⟨a, ha⟩ := hget k (by omega)
  obtain ⟨b, hb⟩ := hget (k + 1) (by omega)
  -- the first round ends with the largest GUID
  have hga : g' ≤ a := by
    rcases Nat.eq_or_lt_of_le (show s ≤ k by omega) with hsk | hsk
    · rw [hsk, ha] at hsg'
      exact Nat.le_of_eq (Option.some.inj hsg').symm
    · obtain ⟨c, c', hc, hc', hcc⟩ := hrounds.ascending hsk (by omega) (by omega)
      rw [hsg'] at hc
      rw [ha] at hc'
      rw [Option.some.inj hc, Option.some.inj hc']
      exact Nat.le_of_lt hcc
  -- and the second one begins with the least GUID that comes again
  have hbg : b ≤ g := by
    rcases Nat.eq_or_lt_of_le (show k + 1 ≤ t by omega) with hkt | hkt
    · rw [hkt, ht] at hb
      exact Nat.le_of_eq (Option.some.inj hb).symm
    · have hround := mt (hrounds.firstRound (s := k + 1) (by omega)).mp (by omega)
      rcases hrounds (k + 1) t hkt htlt with hless | ⟨-, c, c', hc, hc', hcc⟩
      · omega
      · rw [hb] at hc
        rw [ht] at hc'
        rw [Option.some.inj hc, Option.some.inj hc']
        exact Nat.le_of_lt hcc
  refine ⟨k, hk, by omega, fun i hi => ?_, ?_⟩
  · obtain ⟨c, c', hc, hc', hcc⟩ := hrounds.ascending (Nat.lt_succ_self i) (by omega) (by omega)
    rw [← hguids] at hc hc'
    rw [Bool.eq_false_iff, Ne, guidDescends_iff hc hc']
    exact Nat.lt_asymm hcc
  · rw [← hguids] at ha hb
    exact (guidDescends_iff ha hb).mpr (by omega)

theorem ascends_of_not_lowerRepeated
    (hrounds : RoundRobin (ports.map SwitchportToNextGuid.guid))
    (h : ¬LowerRepeated (ports.map SwitchportToNextGuid.guid)) {i : Nat}
    (hi : i + 1 < ports.length) :
    guidDescends ports i = false := by
  generalize hguids : ports.map SwitchportToNextGuid.guid = guids at hrounds h
  have hlen : guids.length = ports.length := by rw [← hguids, List.length_map]
  have hget (j : Nat) (hj : j < guids.length) : ∃ h, guids[j]? = some h :=
    ⟨_, List.getElem?_eq_getElem hj⟩
  obtain ⟨a, ha⟩ := hget i (by omega)
  obtain ⟨b, hb⟩ := hget (i + 1) (by omega)
  have hle : a ≤ b := by
    rcases hrounds i (i + 1) (Nat.lt_succ_self i) (by omega) with hless | ⟨-, c, c', hc, hc', hcc⟩
    · -- the second of the two comes again, so it is the largest
      by_contra hba
      have hpos : 0 < occurrence guids (i + 1) := by omega
      have htwo : 2 ≤ guids.count b := two_le_count hb hpos
      exact h ⟨b, List.mem_of_getElem? hb, a, List.mem_of_getElem? ha, by omega, htwo⟩
    · rw [ha] at hc
      rw [hb] at hc'
      rw [Option.some.inj hc, Option.some.inj hc']
      exact Nat.le_of_lt hcc
  rw [← hguids] at ha hb
  rw [Bool.eq_false_iff, Ne, guidDescends_iff ha hb]
  omega

end Rounds

/-! ## One run of all ports -/

def TopBefore (load : RouteLoad) (switchp : Node) (guids : List Nat) (x p : SwitchportToNextGuid) :
    Prop :=
  (∀ g ∈ guids, g ≤ p.guid) ∧ x.guid < p.guid ∧
    compareLidsRoutedThenGuids load switchp p x = .lt

instance (load : RouteLoad) (switchp : Node) (guids : List Nat) (x p : SwitchportToNextGuid) :
    Decidable (TopBefore load switchp guids x p) :=
  inferInstanceAs (Decidable (_ ∧ _ ∧ _))

/-- Of the ports with the largest GUID, at most one is sorted before any port with a smaller one. -/
def TopSpread (load : RouteLoad) (switchp : Node) (ports : List SwitchportToNextGuid) : Prop :=
  ∀ x ∈ ports, (ports.countP fun p =>
    TopBefore load switchp (ports.map SwitchportToNextGuid.guid) x p) ≤ 1

section OneRun

variable {load : RouteLoad} {switchp : Node}

instance : Std.TransCmp (compareLidsRoutedThenGuids load switchp) :=
  inferInstanceAs (Std.TransCmp (compareLex
    (compareLex (compareOn fun e => load.lidsRouted switchp.index e.portp.index)
      (compareOn fun e => load.numLidsRouted e.nextSwp.index))
    (compareLex (compareOn SwitchportToNextGuid.guid) (compareOn fun e => e.portp.index))))

variable (load switchp) in
theorem compare_ne_eq {p x : SwitchportToNextGuid} (h : p.guid ≠ x.guid) :
    compareLidsRoutedThenGuids load switchp p x ≠ .eq := by
  intro heq
  have hguid : compare p.guid x.guid = .eq := by
    unfold compareLidsRoutedThenGuids at heq
    exact (Ordering.then_eq_eq.mp (Ordering.then_eq_eq.mp heq).2).1
  exact h (Nat.compare_eq_eq.mp hguid)

theorem lt_of_isLE {p x : SwitchportToNextGuid} (h : p.guid ≠ x.guid)
    (hle : (compareLidsRoutedThenGuids load switchp p x).isLE) :
    compareLidsRoutedThenGuids load switchp p x = .lt := by
  have hne := compare_ne_eq load switchp h
  revert hle hne
  cases compareLidsRoutedThenGuids load switchp p x <;> decide

theorem eq_of_count_le_one {ports : List SwitchportToNextGuid} {x e : SwitchportToNextGuid}
    (hx : x ∈ ports) (he : e ∈ ports) (hguid : e.guid = x.guid)
    (hcount : (ports.map SwitchportToNextGuid.guid).count x.guid ≤ 1) : e = x := by
  have hlen : (ports.filter fun p => p.guid == x.guid).length ≤ 1 := by
    rwa [List.count_eq_countP, List.countP_map, List.countP_eq_length_filter] at hcount
  have hx' : x ∈ ports.filter fun p => p.guid == x.guid :=
    List.mem_filter.mpr ⟨hx, beq_self_eq_true _⟩
  have he' : e ∈ ports.filter fun p => p.guid == x.guid :=
    List.mem_filter.mpr ⟨he, beq_iff_eq.mpr hguid⟩
  obtain ⟨i, hi, hgeti⟩ := List.mem_iff_getElem.mp hx'
  obtain ⟨j, hj, hgetj⟩ := List.mem_iff_getElem.mp he'
  have hij : i = j := by omega
  rw [← hgeti, ← hgetj]
  simp only [hij]

section

variable {ports : List SwitchportToNextGuid} {d : Nat}
  (hsplit : ∀ a ∈ ports.take d, ∀ b ∈ ports.drop d,
    (compareLidsRoutedThenGuids load switchp a b).isLE)
  (hlower : ¬LowerRepeated (ports.map SwitchportToNextGuid.guid))
  (hiff : ((ports.take d).map SwitchportToNextGuid.guid).Nodup ↔
    ∀ g ∈ ports.map SwitchportToNextGuid.guid,
      g ∈ (ports.take d).map SwitchportToNextGuid.guid)
include hsplit hlower hiff

theorem topSpread_of_nodup
    (hnodup : ((ports.take d).map SwitchportToNextGuid.guid).Nodup) :
    TopSpread load switchp ports := by
  intro x hx
  by_contra htwo
  obtain ⟨p, hp, hpx⟩ := List.countP_pos_iff.mp (Nat.lt_of_lt_of_le Nat.one_pos
    (Nat.le_of_lt (Nat.lt_of_not_le htwo)))
  obtain ⟨htop, hlt, -⟩ := of_decide_eq_true hpx
  -- all GUIDs are among the first ports, and so is that of the port
  obtain ⟨e, he, heguid⟩ := List.mem_map.mp (hiff.mp hnodup x.guid (List.mem_map_of_mem hx))
  have honce : (ports.map SwitchportToNextGuid.guid).count x.guid ≤ 1 := by
    by_contra hmore
    exact hlower ⟨x.guid, List.mem_map_of_mem hx, p.guid, List.mem_map_of_mem hp, hlt, by omega⟩
  have hex := eq_of_count_le_one hx (List.mem_of_mem_take he) heguid honce
  rw [hex] at he
  -- so what is sorted before it is there too
  have hnone : (ports.drop d).countP (fun q =>
      TopBefore load switchp (ports.map SwitchportToNextGuid.guid) x q) = 0 := by
    rw [List.countP_eq_zero]
    intro q hq hqx
    obtain ⟨-, -, hbefore⟩ := of_decide_eq_true hqx
    have hle := hsplit x he q hq
    have hswap : compareLidsRoutedThenGuids load switchp x q =
        (compareLidsRoutedThenGuids load switchp q x).swap := Std.OrientedCmp.eq_swap
    rw [hswap, hbefore] at hle
    cases hle
  have hcount : ports.countP (fun q =>
      TopBefore load switchp (ports.map SwitchportToNextGuid.guid) x q) ≤
        ((ports.take d).map SwitchportToNextGuid.guid).count p.guid := by
    calc ports.countP (fun q =>
          TopBefore load switchp (ports.map SwitchportToNextGuid.guid) x q)
        = (ports.take d).countP fun q =>
            TopBefore load switchp (ports.map SwitchportToNextGuid.guid) x q := by
          conv_lhs => rw [← List.take_append_drop d ports, List.countP_append]
          rw [List.take_append_drop, hnone, Nat.add_zero]
      _ ≤ (ports.take d).countP fun q => q.guid == p.guid := by
          refine List.countP_mono_left fun q hq hqx => ?_
          obtain ⟨hqtop, -, -⟩ := of_decide_eq_true hqx
          exact beq_iff_eq.mpr (Nat.le_antisymm
            (htop q.guid (List.mem_map_of_mem (List.mem_of_mem_take hq)))
            (hqtop p.guid (List.mem_map_of_mem hp)))
      _ = ((ports.take d).map SwitchportToNextGuid.guid).count p.guid := by
          rw [List.count_eq_countP, List.countP_map]
          rfl
  have hone := List.nodup_iff_count_le_one.mp hnodup p.guid
  omega

theorem nodup_of_topSpread (hspread : TopSpread load switchp ports) :
    ((ports.take d).map SwitchportToNextGuid.guid).Nodup := by
  by_contra hdup
  obtain ⟨g, hg, hmissing⟩ : ∃ g ∈ ports.map SwitchportToNextGuid.guid,
      g ∉ (ports.take d).map SwitchportToNextGuid.guid := by
    have hnot := mt hiff.mpr hdup
    simpa only [not_forall, exists_prop] using hnot
  obtain ⟨x, hx, rfl⟩ := List.mem_map.mp hg
  obtain ⟨a, ha⟩ : ∃ a, [a, a].Sublist ((ports.take d).map SwitchportToNextGuid.guid) := by
    have hnot := mt List.nodup_iff_sublist.mpr hdup
    simpa only [not_forall, not_not] using hnot
  obtain ⟨l, hl, hla⟩ := List.sublist_map_iff.mp ha
  have hla' : ∀ r ∈ l, r.guid = a := by
    intro r hr
    have hra : r.guid ∈ [a, a] := hla ▸ List.mem_map_of_mem hr
    simpa using hra
  have hlen : l.length = 2 := by
    rw [← List.length_map SwitchportToNextGuid.guid, ← hla]
    rfl
  have htwo : 2 ≤ (ports.map SwitchportToNextGuid.guid).count a := by
    have hsub := (ha.trans ((List.take_sublist d ports).map _)).count_le a
    simpa using hsub
  have hxa : x.guid ≠ a := fun heq => hmissing (heq ▸ ha.subset (List.mem_cons_self ..))
  -- what is repeated is the largest
  have htop : ∀ b ∈ ports.map SwitchportToNextGuid.guid, b ≤ a := by
    intro b hb
    by_contra hba
    exact hlower ⟨a, (List.count_pos_iff.mp (by omega)), b, hb, by omega, htwo⟩
  have hxdrop : x ∈ ports.drop d := by
    rw [← List.take_append_drop d ports] at hx
    exact (List.mem_append.mp hx).resolve_left fun h => hmissing (List.mem_map_of_mem h)
  have hxlt : x.guid < a := Nat.lt_of_le_of_ne (htop _ hg) hxa
  have hbefore : l.countP (fun r =>
      TopBefore load switchp (ports.map SwitchportToNextGuid.guid) x r) = l.length := by
    refine List.countP_eq_length.mpr fun r hr => ?_
    have hra := hla' r hr
    refine decide_eq_true ⟨fun b hb => hra ▸ htop b hb, hra ▸ hxlt, ?_⟩
    exact lt_of_isLE (by omega) (hsplit r (hl.subset hr) x hxdrop)
  have hsub := (hl.trans (List.take_sublist d ports)).countP_le (p := fun r =>
    decide (TopBefore load switchp (ports.map SwitchportToNextGuid.guid) x r))
  rw [hbefore, hlen] at hsub
  have := hspread x hx
  omega

end

theorem nodup_take_sorted {ports : List SwitchportToNextGuid}
    (hsorted : ports.Pairwise fun a b => (compareLidsRoutedThenGuids load switchp a b).isLE)
    (hlower : ¬LowerRepeated (ports.map SwitchportToNextGuid.guid)) :
    ((ports.map SwitchportToNextGuid.guid).take
        (ports.map SwitchportToNextGuid.guid).dedup.length).Nodup ↔
      TopSpread load switchp ports := by
  have hiff := nodup_take_dedup_iff (ports.map SwitchportToNextGuid.guid)
  generalize (ports.map SwitchportToNextGuid.guid).dedup.length = d at hiff ⊢
  rw [← List.map_take] at hiff ⊢
  rw [← List.take_append_drop d ports, List.pairwise_append] at hsorted
  exact ⟨topSpread_of_nodup hsorted.2.2 hlower hiff, nodup_of_topSpread hsorted.2.2 hlower hiff⟩

instance : Std.TransCmp (compareGuidsThenLidsRouted load switchp) :=
  inferInstanceAs (Std.TransCmp (compareLex (compareOn SwitchportToNextGuid.guid)
    (compareLex (compareOn fun e => load.lidsRouted switchp.index e.portp.index)
      (compareOn fun e => load.numLidsRouted e.nextSwp.index))))

theorem guid_le_of_isLE {p x : SwitchportToNextGuid}
    (h : (compareGuidsThenLidsRouted load switchp p x).isLE) : p.guid ≤ x.guid := by
  unfold compareGuidsThenLidsRouted at h
  rw [← Nat.isLE_compare]
  revert h
  cases compare p.guid x.guid <;> simp [Ordering.then]

theorem topSpread_perm {l l' : List SwitchportToNextGuid} (h : l'.Perm l) :
    TopSpread load switchp l' ↔ TopSpread load switchp l := by
  have hbefore (x p : SwitchportToNextGuid) :
      TopBefore load switchp (l'.map SwitchportToNextGuid.guid) x p ↔
        TopBefore load switchp (l.map SwitchportToNextGuid.guid) x p := by
    unfold TopBefore
    simp only [(h.map SwitchportToNextGuid.guid).mem_iff]
  unfold TopSpread
  simp only [h.mem_iff, hbefore, h.countP_eq]

theorem topSpread_unmarked (l : List SwitchportToNextGuid) :
    TopSpread load switchp (l.map SwitchportToNextGuid.unmarked) ↔ TopSpread load switchp l := by
  have hguids : (l.map SwitchportToNextGuid.unmarked).map SwitchportToNextGuid.guid =
      l.map SwitchportToNextGuid.guid := by
    rw [List.map_map]
    rfl
  unfold TopSpread
  rw [List.forall_mem_map, hguids]
  simp only [List.countP_map]
  rfl

end OneRun

theorem lowerRepeated_perm {l l' : List Nat} (h : l'.Perm l) :
    LowerRepeated l' ↔ LowerRepeated l := by
  unfold LowerRepeated
  simp only [h.mem_iff, h.count_eq]

/-! ## Balancing -/

section

variable (qsort : Qsort SwitchportToNextGuid) (load : RouteLoad) (switchp : Node)

theorem nodup_take_runs_iff {ports : List SwitchportToNextGuid} (hne : ports ≠ [])
    (hrounds : RoundRobin (ports.map SwitchportToNextGuid.guid)) :
    ((((List.range ports.length).foldl
        (sortRun (qsort.sort (compareLidsRoutedThenGuids load switchp))) (ports, 0)).1.map
          SwitchportToNextGuid.guid).take
            (ports.map SwitchportToNextGuid.guid).dedup.length).Nodup ↔
      LowerRepeated (ports.map SwitchportToNextGuid.guid) ∨ TopSpread load switchp ports := by
  have hpos : 0 < ports.length := List.length_pos_iff.mpr hne
  have hperm := qsort.perm (compareLidsRoutedThenGuids load switchp)
  by_cases hlower : LowerRepeated (ports.map SwitchportToNextGuid.guid)
  · -- the first round is sorted by itself
    obtain ⟨k, hk, hlt, hasc, hdesc⟩ := descends_of_lowerRepeated hrounds hlower
    have hrange : List.range ports.length =
        List.range (k + 1) ++ List.range' (k + 1) (ports.length - (k + 1)) := by
      have happend := List.range'_append_1 (s := 0) (m := k + 1) (n := ports.length - (k + 1))
      rw [Nat.zero_add, Nat.add_sub_cancel' (Nat.le_of_lt hlt)] at happend
      rw [List.range_eq_range', List.range_eq_range', happend]
    have htake : (qsort.sort (compareLidsRoutedThenGuids load switchp)
        (ports.take (k + 1))).length = k + 1 := by
      rw [(hperm _).length_eq, List.length_take, Nat.min_eq_left (Nat.le_of_lt hlt)]
    have hlen : (qsort.sort (compareLidsRoutedThenGuids load switchp) (ports.take (k + 1)) ++
        ports.drop (k + 1)).length = ports.length := by
      rw [List.length_append, htake, List.length_drop]
      omega
    have hrest := foldl_sortRun_rest hperm (d := k + 1)
      (List.range' (k + 1) (ports.length - (k + 1)))
      (qsort.sort (compareLidsRoutedThenGuids load switchp) (ports.take (k + 1)) ++
        ports.drop (k + 1), k + 1)
      (fun i hi => by rw [List.mem_range'_1] at hi; rw [hlen]; omega) (Nat.le_refl _)
      (by rw [hlen]; omega)
    have hnodup := hrounds.nodup_take
    rw [← hk, ← List.map_take] at hnodup ⊢
    rw [hrange, List.foldl_append, foldl_sortRun_first (by omega) hasc (.inr hdesc), hrest,
      List.take_left' htake]
    exact ⟨fun _ => .inl hlower, fun _ => ((hperm _).map _).nodup_iff.mpr hnodup⟩
  · -- all ports are one run
    obtain ⟨k, hk⟩ : ∃ k, k + 1 = ports.length := ⟨ports.length - 1, by omega⟩
    have hasc : ∀ i < k, guidDescends ports i = false := fun i hi =>
      ascends_of_not_lowerRepeated hrounds hlower (by omega)
    rw [← hk, foldl_sortRun_first (by omega) hasc (.inl hk), hk, List.take_length, List.drop_length,
      List.append_nil]
    have hguids := (hperm ports).map SwitchportToNextGuid.guid
    have hiff := nodup_take_sorted
      (qsort.sorted (compareLidsRoutedThenGuids load switchp) ports inferInstance)
      (mt (lowerRepeated_perm hguids).mp hlower)
    rw [hguids.dedup.length_eq, topSpread_perm (hperm ports)] at hiff
    rw [hiff, or_iff_right hlower]

/-- Balancing ends and permutes the ports.  As many of the first ones as there are neighbours have
different neighbours exactly if a GUID below the largest comes again, or at most one port with the
largest GUID is sorted before any other port. -/
theorem balancePorts_spread_iff (ports : List SwitchportToNextGuid)
    (hfew : ports.length ≤ 0x10000) (hinternal : switchp.internalLinks = false)
    (hguid : ∀ e ∈ ports, e.guid ≠ 0) :
    ∃ ports', balancePorts qsort load switchp ports = some ports' ∧
      (ports'.map SwitchportToNextGuid.unmarked).Perm (ports.map SwitchportToNextGuid.unmarked) ∧
      (((ports'.map SwitchportToNextGuid.guid).take
          (ports.map SwitchportToNextGuid.guid).dedup.length).Nodup ↔
        LowerRepeated (ports.map SwitchportToNextGuid.guid) ∨ TopSpread load switchp ports) := by
  obtain ⟨ports', hbalance, hperm⟩ := balancePorts_spec qsort load switchp hfew hguid
  refine ⟨ports', hbalance, hperm, ?_⟩
  unfold balancePorts at hbalance
  by_cases hempty : ports.length = 0
  · rw [if_pos hempty] at hbalance
    rw [← Option.some.inj hbalance, List.eq_nil_of_length_eq_zero hempty]
    exact ⟨fun _ => .inr fun x hx => absurd hx List.not_mem_nil, fun _ => List.nodup_nil⟩
  rw [if_neg hempty, if_neg (by rw [hinternal]; exact Bool.false_ne_true)] at hbalance
  have hsort := qsort.perm (compareGuidsThenLidsRouted load switchp) ports
  have hsorted : ((qsort.sort (compareGuidsThenLidsRouted load switchp) ports).map
      (sortGuid false)).Pairwise (· ≤ ·) :=
    List.pairwise_map.mpr ((qsort.sorted (compareGuidsThenLidsRouted load switchp) ports
      inferInstance).imp guid_le_of_isLE)
  have hfew' : (qsort.sort (compareGuidsThenLidsRouted load switchp) ports).length ≤ 0x10000 :=
    hsort.length_eq.trans_le hfew
  have hguid' : ∀ e ∈ qsort.sort (compareGuidsThenLidsRouted load switchp) ports,
      sortGuid false e ≠ 0 := fun e he => hguid e (hsort.mem_iff.mp he)
  obtain ⟨cycled, order, hcycle, hdealt⟩ := guidCycleSort_dealt hfew' hsorted hguid'
  obtain ⟨cycled', hcycle', hunmarked⟩ := guidCycleSort_spec hfew' hguid'
  obtain rfl : cycled' = cycled := Option.some.inj (hcycle'.symm.trans hcycle)
  have hrounds := hdealt.arranged.roundRobin
  rw [map_guid_unmarked] at hrounds
  have hcycled := hunmarked.trans (hsort.map SwitchportToNextGuid.unmarked)
  have hguids : (cycled'.map SwitchportToNextGuid.guid).Perm
      (ports.map SwitchportToNextGuid.guid) := by
    have hmap := hcycled.map SwitchportToNextGuid.guid
    rwa [List.map_map, List.map_map] at hmap
  have hne : cycled' ≠ [] := by
    intro hnil
    have hlen := hguids.length_eq
    rw [List.length_map, List.length_map, hnil] at hlen
    exact hempty hlen.symm
  rw [hcycle, Option.map_some] at hbalance
  have hiff := nodup_take_runs_iff qsort load switchp hne hrounds
  rw [hguids.dedup.length_eq, lowerRepeated_perm hguids, ← topSpread_unmarked cycled',
    topSpread_perm hcycled, topSpread_unmarked] at hiff
  rw [← Option.some.inj hbalance]
  exact hiff

end

/-! ## Two ports to the switch with the larger GUID -/

def portTo (guid index : Nat) : SwitchportToNextGuid where
  guid := guid
  portp := { index := index }
  nextSwp := { index := guid, nodeGuid := guid }

def usedLoad : RouteLoad where
  lidsRouted _ p := if p = 1 then 5 else 0

def balancedSwitch : Node := { index := 0 }

/-- The two ports to the second switch are used less, so they come first. -/
theorem not_balancePorts_spread :
    ¬∀ (qsort : Qsort SwitchportToNextGuid) (load : RouteLoad) (switchp : Node)
      (ports : List SwitchportToNextGuid), switchp.internalLinks = false →
      (∀ e ∈ ports, e.guid ≠ 0) →
      ∃ ports', balancePorts qsort load switchp ports = some ports' ∧
        ((ports'.map SwitchportToNextGuid.guid).take
          (ports.map SwitchportToNextGuid.guid).dedup.length).Nodup := by
  intro hall
  obtain ⟨ports', hbalance, hnodup⟩ := hall (insertQsort _) usedLoad balancedSwitch
    [portTo 1 1, portTo 2 2, portTo 2 3] rfl (by decide)
  have hguids : (balancePorts (insertQsort _) usedLoad balancedSwitch
      [portTo 1 1, portTo 2 2, portTo 2 3]).map (List.map SwitchportToNextGuid.guid) =
        some [2, 2, 1] := by
    decide
  rw [hbalance, Option.map_some] at hguids
  rw [Option.some.inj hguids] at hnodup
  revert hnodup
  decide

theorem balancePorts_spread_three :
    ∃ ports', balancePorts (insertQsort _) usedLoad balancedSwitch
        [portTo 1 1, portTo 2 2, portTo 2 3] = some ports' ∧
      (ports'.map SwitchportToNextGuid.unmarked).Perm
        ([portTo 1 1, portTo 2 2, portTo 2 3].map SwitchportToNextGuid.unmarked) ∧
      (((ports'.map SwitchportToNextGuid.guid).take
          ([portTo 1 1, portTo 2 2, portTo 2 3].map SwitchportToNextGuid.guid).dedup.length).Nodup ↔
        LowerRepeated ([portTo 1 1, portTo 2 2, portTo 2 3].map SwitchportToNextGuid.guid) ∨
          TopSpread usedLoad balancedSwitch [portTo 1 1, portTo 2 2, portTo 2 3]) :=
  balancePorts_spread_iff (insertQsort _) usedLoad balancedSwitch
    [portTo 1 1, portTo 2 2, portTo 2 3] (by decide) rfl (by decide)

end OpaFm.Routing
