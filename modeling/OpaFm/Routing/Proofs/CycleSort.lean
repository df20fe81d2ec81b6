import OpaFm.Lib.RoundRobin
import OpaFm.Routing.Proofs.BalancePorts

/-!
# The cycle sort deals the ports out in rounds

The counters are the runs of equal GUIDs.  The first pass takes from each run that has ports left
one port in a round, so it marks the places round after round, and in a round by ascending GUID.
-/

namespace OpaFm.Routing

open OpaFm.Fabric OpaFm.Lib

/-! ## The runs -/

structure RunsTo (guids : List Nat) (s : List GuidCounter × Nat) : Prop where
  count : ∀ c ∈ s.1, 0 < c.count
  entry : ∀ c ∈ s.1, ∀ i < c.count, guids[c.offset + i]? = some c.guid
  ascending : s.1.Pairwise fun c c' => c.guid < c'.guid
  first : s.1 = [] → s.2 = 0
  last : ∀ gc c, s.1 = gc ++ [c] → c.guid = s.2

section

variable {guids : List Nat} {m g : Nat} {s : List GuidCounter × Nat}

theorem RunsTo.guid_le (hs : RunsTo guids s) (hsorted : guids.Pairwise (· ≤ ·))
    (hcounts : CountsTo m s) (hget : guids[m]? = some g) {c : GuidCounter} (hc : c ∈ s.1) :
    c.guid ≤ g := by
  have hcount := hs.count c hc
  have hoff : c.offset ∈ remaining s.1 :=
    List.mem_flatMap.mpr ⟨c, hc, List.mem_range'_1.mpr (by omega)⟩
  rw [hcounts.1, List.mem_range] at hoff
  obtain ⟨hl, hg⟩ := List.getElem?_eq_some_iff.mp (hs.entry c hc 0 hcount)
  obtain ⟨hl', hg'⟩ := List.getElem?_eq_some_iff.mp hget
  rw [← hg, ← hg']
  exact List.pairwise_iff_getElem.mp hsorted _ _ hl hl' hoff

theorem RunsTo.guid_lt (hs : RunsTo guids s) (hle : ∀ c ∈ s.1, c.guid ≤ g) (hnew : g ≠ s.2)
    {c : GuidCounter} (hc : c ∈ s.1) : c.guid < g := by
  rcases List.eq_nil_or_concat' s.1 with hnil | ⟨gc, d, hgc⟩
  · rw [hnil] at hc
    exact absurd hc List.not_mem_nil
  · have hd := hle d (hgc ▸ by simp)
    have hlast := hs.last gc d hgc
    have hasc := hs.ascending
    rw [hgc, List.pairwise_append] at hasc
    rw [hgc] at hc
    rcases List.mem_append.mp hc with hc | hc
    · have := hasc.2.2 c hc d (List.mem_singleton_self d)
      omega
    · rw [List.mem_singleton.mp hc]
      omega

theorem RunsTo.begin_run (hs : RunsTo guids s) (hbelow : ∀ c ∈ s.1, c.guid < g)
    (hget : guids[m]? = some g) : RunsTo guids (s.1 ++ [⟨g, m, 1⟩], g) where
  count c hc := by
    rcases List.mem_append.mp hc with hc | hc
    · exact hs.count c hc
    · rw [List.mem_singleton.mp hc]
      exact Nat.one_pos
  entry c hc i hi := by
    rcases List.mem_append.mp hc with hc | hc
    · exact hs.entry c hc i hi
    · rw [List.mem_singleton.mp hc] at hi ⊢
      have hzero : i = 0 := Nat.lt_one_iff.mp hi
      rw [hzero]
      exact hget
  ascending := by
    refine List.pairwise_append.mpr ⟨hs.ascending, List.pairwise_singleton _ _, ?_⟩
    intro c hc c' hc'
    rw [List.mem_singleton.mp hc']
    exact hbelow c hc
  first hnil := absurd hnil (by simp)
  last gc c hgc := by
    have hc := (List.append_inj' hgc rfl).2
    rw [← List.singleton_inj.mp hc]

theorem RunsTo.extend_run (hs : RunsTo guids s) {gc : List GuidCounter} {c : GuidCounter}
    (hgc : s.1 = gc ++ [c]) (hget : guids[c.offset + c.count]? = some s.2) :
    RunsTo guids (gc ++ [{ c with count := c.count + 1 }], s.2) := by
  have hc : c ∈ s.1 := hgc ▸ by simp
  have hgc' : ∀ c' ∈ gc, c' ∈ s.1 := fun c' hc' => hgc ▸ List.mem_append_left _ hc'
  constructor
  case count =>
    intro c' hc'
    rcases List.mem_append.mp hc' with hc' | hc'
    · exact hs.count c' (hgc' c' hc')
    · rw [List.mem_singleton.mp hc']
      exact Nat.succ_pos _
  case entry =>
    intro c' hc' i hi
    rcases List.mem_append.mp hc' with hc' | hc'
    · exact hs.entry c' (hgc' c' hc') i hi
    · rw [List.mem_singleton.mp hc'] at hi ⊢
      rcases Nat.lt_succ_iff_lt_or_eq.mp hi with hlt | heq
      · exact hs.entry c hc i hlt
      · show guids[c.offset + i]? = some c.guid
        rw [heq, hget, hs.last gc c hgc]
  case ascending =>
    have hasc := hs.ascending
    rw [hgc, List.pairwise_append] at hasc
    refine List.pairwise_append.mpr ⟨hasc.1, List.pairwise_singleton _ _, ?_⟩
    intro c₁ hc₁ c₂ hc₂
    rw [List.mem_singleton.mp hc₂]
    exact hasc.2.2 c₁ hc₁ c (List.mem_singleton_self c)
  case first => exact fun hnil => absurd hnil (by simp)
  case last =>
    intro gc' c' hgc'
    have hc' := (List.append_inj' hgc' rfl).2
    rw [← List.singleton_inj.mp hc']
    exact hs.last gc c hgc

theorem RunsTo.step (hsorted : guids.Pairwise (· ≤ ·)) (hs : RunsTo guids s)
    (hcounts : CountsTo m s) {useSysGuid : Bool} {e : SwitchportToNextGuid}
    (he : sortGuid useSysGuid e ≠ 0) (hget : guids[m]? = some (sortGuid useSysGuid e)) :
    RunsTo guids (countGuid useSysGuid s (e, m)) := by
  unfold countGuid
  dsimp only
  by_cases hnew : sortGuid useSysGuid e ≠ s.2
  · rw [if_pos hnew]
    exact hs.begin_run
      (fun c hc => hs.guid_lt (fun c hc => hs.guid_le hsorted hcounts hget hc) hnew hc) hget
  · rw [if_neg hnew]
    have hsame : sortGuid useSysGuid e = s.2 := not_not.mp hnew
    rcases hcounts.2 with ⟨-, hzero⟩ | ⟨gc, c, hgc, hend⟩
    · exact absurd (hsame.trans hzero) he
    · have hmod : s.1.modify (s.1.length - 1) (fun c => { c with count := c.count + 1 }) =
          gc ++ [{ c with count := c.count + 1 }] := by
        rw [hgc, List.length_append, List.length_singleton, Nat.add_sub_cancel,
          modify_append_last]
      rw [hmod, hsame]
      exact hs.extend_run hgc (by rw [hend, hget, hsame])

end

theorem countGuids_runs {useSysGuid : Bool} {ports : List SwitchportToNextGuid}
    (hsorted : (ports.map (sortGuid useSysGuid)).Pairwise (· ≤ ·))
    (hguid : ∀ e ∈ ports, sortGuid useSysGuid e ≠ 0) :
    ∃ prev, RunsTo (ports.map (sortGuid useSysGuid)) (countGuids useSysGuid ports, prev) := by
  have hall (l : List SwitchportToNextGuid) (m : Nat) (s : List GuidCounter × Nat)
      (hl : ports.drop m = l) (hcounts : CountsTo m s)
      (hs : RunsTo (ports.map (sortGuid useSysGuid)) s) :
      RunsTo (ports.map (sortGuid useSysGuid)) ((l.zipIdx m).foldl (countGuid useSysGuid) s) := by
    induction l generalizing m s with
    | nil => exact hs
    | cons e l ih =>
      have he : ports[m]? = some e := by
        rw [← List.head?_drop, hl]
        rfl
      have hne := hguid e (List.mem_of_getElem? he)
      have hrest : ports.drop (m + 1) = l := by
        rw [← List.tail_drop, hl]
        rfl
      rw [List.zipIdx_cons, List.foldl_cons]
      refine ih (m + 1) _ hrest (countGuid_spec hcounts hne) (hs.step hsorted hcounts hne ?_)
      rw [List.getElem?_map, he]
      rfl
  refine ⟨_, hall ports 0 ([], 0) rfl ⟨rfl, .inl ⟨rfl, rfl⟩⟩ ?_⟩
  exact ⟨fun c hc => absurd hc List.not_mem_nil, fun c hc => absurd hc List.not_mem_nil,
    List.Pairwise.nil, fun _ => rfl, fun gc c h => absurd h (by simp)⟩

/-! ## The rounds of the first pass -/

structure Cycling (guids : List Nat) (round j : Nat) (gc : List GuidCounter) : Prop where
  entry : ∀ (m : Nat) (c : GuidCounter), gc[m]? = some c → ∀ i < c.count,
    guids[c.offset + i]? = some c.guid
  turn : ∀ (m : Nat) (c : GuidCounter), gc[m]? = some c → ∀ i < c.count,
    occurrence guids (c.offset + i) = round + (if m < j then 1 else 0) + i
  ascending : ∀ (m m' : Nat) (c c' : GuidCounter), m < m' → gc[m]? = some c →
    gc[m']? = some c' → c.guid < c'.guid

variable {guids : List Nat} {round j : Nat} {gc : List GuidCounter}

theorem nextAvailable_first {fuel j k : Nat} (h : nextAvailable gc fuel j = some k) :
    j < gc.length → ∃ d < fuel, k = (j + d) % gc.length ∧
      ∀ i < d, ∀ c, gc[(j + i) % gc.length]? = some c → c.count = 0 := by
  induction fuel generalizing j with
  | zero => cases h
  | succ fuel ih =>
    intro hj
    unfold nextAvailable at h
    by_cases hzero : gc[j]?.any (fun c => c.count = 0) = true
    · rw [if_pos hzero] at h
      obtain ⟨d, hd, hk, hbetween⟩ := ih h (Nat.mod_lt _ (by omega))
      refine ⟨d + 1, Nat.succ_lt_succ hd, ?_, fun i hi c hc => ?_⟩
      · rw [hk, Nat.mod_add_mod, Nat.add_assoc, Nat.add_comm 1 d]
      · cases i with
        | zero =>
          rw [Nat.add_zero, Nat.mod_eq_of_lt hj] at hc
          rw [hc] at hzero
          simpa using hzero
        | succ i =>
          refine hbetween i (Nat.lt_of_succ_lt_succ hi) c ?_
          rw [Nat.mod_add_mod, Nat.add_assoc, Nat.add_comm 1 i]
          exact hc
    · rw [if_neg hzero] at h
      refine ⟨0, Nat.succ_pos _, ?_, fun i hi => absurd hi (Nat.not_lt_zero i)⟩
      rw [← Option.some.inj h, Nat.add_zero, Nat.mod_eq_of_lt hj]

theorem Cycling.skip (h : Cycling guids round j gc) (hj : j < gc.length) {k : Nat}
    (hk : nextAvailable gc gc.length j = some k) : ∃ round', Cycling guids round' k gc := by
  obtain ⟨d, hd, hkd, hbetween⟩ := nextAvailable_first hk hj
  by_cases hwrap : j + d < gc.length
  · rw [Nat.mod_eq_of_lt hwrap] at hkd
    refine ⟨round, h.entry, fun m c hc i hi => ?_, h.ascending⟩
    rw [h.turn m c hc i hi]
    by_cases hm : j ≤ m ∧ m < k
    · have hempty := hbetween (m - j) (by omega) c (by
        rw [Nat.mod_eq_of_lt (by omega), Nat.add_sub_cancel' hm.1]
        exact hc)
      omega
    · have hsame : m < k ↔ m < j := by omega
      simp only [hsame]
  · have hmod : (j + d) % gc.length = j + d - gc.length := by
      rw [Nat.mod_eq_sub_mod (Nat.le_of_not_lt hwrap), Nat.mod_eq_of_lt (by omega)]
    rw [hmod] at hkd
    refine ⟨round + 1, h.entry, fun m c hc i hi => ?_, h.ascending⟩
    have hmlt : m < gc.length := (List.getElem?_eq_some_iff.mp hc).1
    rw [h.turn m c hc i hi]
    by_cases hmj : m < j
    · by_cases hmk : m < k
      · have hempty := hbetween (m + gc.length - j) (by omega) c (by
          have hsum : j + (m + gc.length - j) = m + gc.length := by omega
          rw [hsum, Nat.add_mod_right, Nat.mod_eq_of_lt hmlt]
          exact hc)
        omega
      · rw [if_pos hmj, if_neg hmk]
    · have hempty := hbetween (m - j) (by omega) c (by
        rw [Nat.add_sub_cancel' (Nat.le_of_not_lt hmj), Nat.mod_eq_of_lt hmlt]
        exact hc)
      omega

theorem Cycling.take (h : Cycling guids round j gc) {c : GuidCounter} (hc : gc[j]? = some c) :
    Cycling guids round (j + 1)
      (gc.set j { c with offset := c.offset + 1, count := c.count - 1 }) := by
  have hj : j < gc.length := (List.getElem?_eq_some_iff.mp hc).1
  constructor
  case entry =>
    intro m c' hc' i hi
    by_cases hm : j = m
    · subst hm
      rw [List.getElem?_set_self hj] at hc'
      rw [← Option.some.inj hc'] at hi ⊢
      show guids[c.offset + 1 + i]? = some c.guid
      rw [Nat.add_assoc, Nat.add_comm 1 i]
      exact h.entry j c hc (i + 1) (by simp only at hi; omega)
    · rw [List.getElem?_set_ne hm] at hc'
      exact h.entry m c' hc' i hi
  case turn =>
    intro m c' hc' i hi
    by_cases hm : j = m
    · subst hm
      rw [List.getElem?_set_self hj] at hc'
      rw [← Option.some.inj hc'] at hi ⊢
      have hturn := h.turn j c hc (i + 1) (by simp only at hi; omega)
      rw [if_neg (Nat.lt_irrefl j)] at hturn
      show occurrence guids (c.offset + 1 + i) = _
      rw [Nat.add_assoc, Nat.add_comm 1 i, hturn, if_pos (Nat.lt_succ_self j)]
      omega
    · rw [List.getElem?_set_ne hm] at hc'
      have hsame : m < j + 1 ↔ m < j := by omega
      simp only [hsame]
      exact h.turn m c' hc' i hi
  case ascending =>
    have hguid (m : Nat) (c' : GuidCounter)
        (hc' : (gc.set j { c with offset := c.offset + 1, count := c.count - 1 })[m]? = some c') :
        ∃ d, gc[m]? = some d ∧ d.guid = c'.guid := by
      by_cases hm : j = m
      · subst hm
        rw [List.getElem?_set_self hj] at hc'
        exact ⟨c, hc, by rw [← Option.some.inj hc']⟩
      · rw [List.getElem?_set_ne hm] at hc'
        exact ⟨c', hc', rfl⟩
    intro m m' c₁ c₂ hlt h₁ h₂
    obtain ⟨d₁, hd₁, heq₁⟩ := hguid m c₁ h₁
    obtain ⟨d₂, hd₂, heq₂⟩ := hguid m' c₂ h₂
    rw [← heq₁, ← heq₂]
    exact h.ascending m m' d₁ d₂ hlt hd₁ hd₂

theorem Cycling.wrap (h : Cycling guids round (j + 1) gc) (hj : j < gc.length) :
    ∃ round', Cycling guids round' ((j + 1) % gc.length) gc := by
  by_cases hlast : j + 1 = gc.length
  · refine ⟨round + 1, h.entry, fun m c hc i hi => ?_, h.ascending⟩
    have hm : m < gc.length := (List.getElem?_eq_some_iff.mp hc).1
    rw [h.turn m c hc i hi, hlast, Nat.mod_self, if_pos hm, if_neg (Nat.not_lt_zero m)]
  · rw [Nat.mod_eq_of_lt (by omega)]
    exact ⟨round, h⟩

theorem Cycling.before (h : Cycling guids round j gc) {c : GuidCounter} (hc : gc[j]? = some c)
    (hcount : c.count ≠ 0) {y : Nat}
    (hy : y ∈ remaining (gc.set j { c with offset := c.offset + 1, count := c.count - 1 })) :
    RoundBefore guids c.offset y := by
  have hnext := h.take hc
  obtain ⟨c', hc', hy⟩ := List.mem_flatMap.mp hy
  obtain ⟨m, hm⟩ := List.mem_iff_getElem?.mp hc'
  obtain ⟨hle, hlt⟩ := List.mem_range'_1.mp hy
  have hi : y - c'.offset < c'.count := by omega
  have hsum : c'.offset + (y - c'.offset) = y := by omega
  have hfirst := h.turn j c hc 0 (by omega)
  have hturn := hnext.turn m c' hm _ hi
  have hentry := hnext.entry m c' hm _ hi
  rw [Nat.add_zero, if_neg (Nat.lt_irrefl j)] at hfirst
  rw [hsum] at hturn hentry
  by_cases hmj : m < j + 1
  · rw [if_pos hmj] at hturn
    exact .inl (by omega)
  · rw [if_neg hmj] at hturn
    by_cases hpos : y - c'.offset = 0
    · rw [List.getElem?_set_ne (by omega)] at hm
      exact .inr ⟨by omega, c.guid, c'.guid, h.entry j c hc 0 (by omega), hentry,
        h.ascending j m c c' (by omega) hc hm⟩
    · exact .inl (by omega)

theorem mem_markOrder {rounds j x : Nat} {gc : List GuidCounter}
    (hlen : (remaining gc).length = rounds) (hj : j < gc.length)
    (hx : x ∈ markOrder rounds j gc) : x ∈ remaining gc := by
  induction rounds generalizing j gc with
  | zero => exact absurd hx List.not_mem_nil
  | succ rounds ih =>
    have hleft : remaining gc ≠ [] := by
      intro h
      rw [h] at hlen
      cases hlen
    obtain ⟨k, c, hnext, hget, hcount⟩ := nextAvailable_spec hleft hj
    have hperm := remaining_set hget hcount
    rw [markOrder_succ hnext hget] at hx
    rw [hperm.mem_iff]
    rcases List.mem_cons.mp hx with hx | hx
    · rw [hx]
      exact .head _
    · have hlen' := hperm.length_eq
      rw [hlen, List.length_cons] at hlen'
      refine .tail _ (ih (Nat.succ.inj hlen').symm ?_ hx)
      rw [List.length_set]
      exact Nat.mod_lt _ (by omega)

theorem Cycling.markOrder {rounds : Nat} (h : Cycling guids round j gc)
    (hlen : (remaining gc).length = rounds) (hj : j < gc.length) :
    (markOrder rounds j gc).Pairwise (RoundBefore guids) := by
  induction rounds generalizing round j gc with
  | zero => exact List.Pairwise.nil
  | succ rounds ih =>
    have hleft : remaining gc ≠ [] := by
      intro h
      rw [h] at hlen
      cases hlen
    obtain ⟨k, c, hnext, hget, hcount⟩ := nextAvailable_spec hleft hj
    have hk : k < gc.length := (List.getElem?_eq_some_iff.mp hget).1
    obtain ⟨round₁, h₁⟩ := h.skip hj hnext
    obtain ⟨round₂, h₂⟩ := (h₁.take hget).wrap (by rw [List.length_set]; exact hk)
    have hlen' := (remaining_set hget hcount).length_eq
    rw [hlen, List.length_cons] at hlen'
    rw [List.length_set] at h₂
    have hj' : (k + 1) % gc.length <
        (gc.set k { c with offset := c.offset + 1, count := c.count - 1 }).length := by
      rw [List.length_set]
      exact Nat.mod_lt _ (by omega)
    rw [markOrder_succ hnext hget, List.pairwise_cons]
    constructor
    · intro y hy
      exact h₁.before hget hcount (mem_markOrder (Nat.succ.inj hlen').symm hj' hy)
    · exact ih h₂ (Nat.succ.inj hlen').symm hj'

/-! ## The start of the first pass -/

variable {prev : Nat}

theorem RunsTo.eq_of_guid (h : RunsTo guids (gc, prev)) {c d : GuidCounter} (hc : c ∈ gc)
    (hd : d ∈ gc) (heq : c.guid = d.guid) : c = d :=
  List.inj_on_of_nodup_map (List.pairwise_map.mpr (h.ascending.imp Nat.ne_of_lt)) hc hd heq

theorem RunsTo.exists_run (h : RunsTo guids (gc, prev))
    (hcover : remaining gc = List.range guids.length) {y : Nat} (hy : y < guids.length) :
    ∃ c ∈ gc, c.offset ≤ y ∧ y < c.offset + c.count ∧ guids[y]? = some c.guid := by
  have hmem : y ∈ remaining gc := hcover ▸ List.mem_range.mpr hy
  obtain ⟨c, hc, hyc⟩ := List.mem_flatMap.mp hmem
  obtain ⟨hle, hlt⟩ := List.mem_range'_1.mp hyc
  have hentry := h.entry c hc (y - c.offset) (by omega)
  rw [Nat.add_sub_cancel' hle] at hentry
  exact ⟨c, hc, hle, hlt, hentry⟩

theorem RunsTo.occurrence (h : RunsTo guids (gc, prev))
    (hcover : remaining gc = List.range guids.length) {c : GuidCounter} (hc : c ∈ gc) {i : Nat}
    (hi : i < c.count) : Lib.occurrence guids (c.offset + i) = i := by
  have hget := h.entry c hc i hi
  have hlt : c.offset + i < guids.length := (List.getElem?_eq_some_iff.mp hget).1
  have hplaces : ((List.range (c.offset + i)).filter fun y => guids[y]? = guids[c.offset + i]?).Perm
      (List.range' c.offset i) := by
    refine (List.perm_ext_iff_of_nodup (List.nodup_range.filter _) List.nodup_range').mpr
      fun y => ?_
    rw [List.mem_filter, List.mem_range, decide_eq_true_eq, List.mem_range'_1, hget]
    constructor
    · intro hy
      -- an earlier place of this GUID is in a run of this GUID, so in this one
      obtain ⟨d, hd, hle, -, hentry⟩ := h.exists_run hcover (y := y) (by omega)
      rw [hy.2] at hentry
      rw [h.eq_of_guid hc hd (Option.some.inj hentry)]
      exact ⟨hle, h.eq_of_guid hc hd (Option.some.inj hentry) ▸ hy.1⟩
    · intro hy
      refine ⟨hy.2, ?_⟩
      have hentry := h.entry c hc (y - c.offset) (by omega)
      rwa [Nat.add_sub_cancel' hy.1] at hentry
  calc Lib.occurrence guids (c.offset + i)
      = ((List.range (c.offset + i)).filter fun y => guids[y]? = guids[c.offset + i]?).length := by
        rw [occurrence_eq guids (Nat.le_of_lt hlt), List.countP_eq_length_filter]
    _ = i := by rw [hplaces.length_eq, List.length_range']

theorem RunsTo.cycling (h : RunsTo guids (gc, prev))
    (hcover : remaining gc = List.range guids.length) : Cycling guids 0 0 gc where
  entry m c hc i hi := h.entry c (List.mem_of_getElem? hc) i hi
  turn m c hc i hi := by
    rw [h.occurrence hcover (List.mem_of_getElem? hc) hi, if_neg (Nat.not_lt_zero m), Nat.add_zero,
      Nat.zero_add]
  ascending m m' c c' hlt hc hc' := by
    obtain ⟨hm, hget⟩ := List.getElem?_eq_some_iff.mp hc
    obtain ⟨hm', hget'⟩ := List.getElem?_eq_some_iff.mp hc'
    rw [← hget, ← hget']
    exact List.pairwise_iff_getElem.mp h.ascending m m' hm hm' hlt

theorem RunsTo.roundRobin_of_single (h : RunsTo guids (gc, prev))
    (hcover : remaining gc = List.range guids.length) (hsingle : gc.length ≤ 1) :
    RoundRobin guids := by
  refine RoundRobin.of_constant fun x y hx hy => ?_
  obtain ⟨c, hc, -, -, hxc⟩ := h.exists_run hcover hx
  obtain ⟨d, hd, -, -, hyd⟩ := h.exists_run hcover hy
  have hsame : c = d := by
    obtain ⟨i, hi, hgeti⟩ := List.mem_iff_getElem.mp hc
    obtain ⟨k, hk, hgetk⟩ := List.mem_iff_getElem.mp hd
    have hik : i = k := by omega
    rw [← hgeti, ← hgetk]
    simp only [hik]
  rw [hxc, hyd, hsame]

theorem length_le_remaining {gc : List GuidCounter} (hcount : ∀ c ∈ gc, 0 < c.count) :
    gc.length ≤ (remaining gc).length ∧
      ((remaining gc).length = gc.length → ∀ c ∈ gc, c.count = 1) := by
  induction gc with
  | nil => exact ⟨Nat.le_refl _, fun _ c hc => absurd hc List.not_mem_nil⟩
  | cons d gc ih =>
    obtain ⟨hle, hone⟩ := ih fun c hc => hcount c (.tail _ hc)
    have hd := hcount d (.head _)
    have hlen : (remaining (d :: gc)).length = d.count + (remaining gc).length := by
      rw [remaining, List.flatMap_cons, List.length_append, List.length_range']
      rfl
    rw [hlen, List.length_cons]
    refine ⟨by omega, fun heq c hc => ?_⟩
    rcases List.mem_cons.mp hc with hc | hc
    · rw [hc]
      omega
    · exact hone (by omega) c hc

theorem RunsTo.roundRobin_of_distinct (h : RunsTo guids (gc, prev))
    (hcover : remaining gc = List.range guids.length) (hsorted : guids.Pairwise (· ≤ ·))
    (hdistinct : gc.length = guids.length) : RoundRobin guids := by
  have hone := (length_le_remaining h.count).2 (by rw [hcover, List.length_range, hdistinct])
  refine RoundRobin.of_ascending (List.pairwise_iff_getElem.mpr fun x y hx hy hxy => ?_)
  refine Nat.lt_of_le_of_ne (List.pairwise_iff_getElem.mp hsorted x y hx hy hxy) fun heq => ?_
  obtain ⟨c, hc, hcx, hcx', hxc⟩ := h.exists_run hcover hx
  obtain ⟨d, hd, hdy, hdy', hyd⟩ := h.exists_run hcover hy
  rw [List.getElem?_eq_getElem hx, heq, ← List.getElem?_eq_getElem hy, hyd] at hxc
  have hsame := h.eq_of_guid hd hc (Option.some.inj hxc)
  have hcount := hone c hc
  rw [hsame] at hdy hdy'
  omega

theorem roundRobin_of_two (hsorted : guids.Pairwise (· ≤ ·)) (hlen : guids.length ≤ 2) :
    RoundRobin guids := by
  match guids with
  | [] => exact fun s t _ ht => absurd ht (Nat.not_lt_zero t)
  | [a] => exact RoundRobin.of_ascending (List.pairwise_singleton _ a)
  | [a, b] =>
    have hle : a ≤ b := (List.pairwise_cons.mp hsorted).1 b (List.mem_singleton_self b)
    rcases Nat.eq_or_lt_of_le hle with heq | hlt
    · rw [heq]
      refine RoundRobin.of_constant fun x y hx hy => ?_
      have hget (z : Nat) (hz : z < 2) : [b, b][z]? = some b := by
        rcases Nat.lt_succ_iff_lt_or_eq.mp hz with hz | hz
        · rw [Nat.lt_one_iff.mp hz]
          rfl
        · rw [hz]
          rfl
      rw [hget x hx, hget y hy]
    · exact RoundRobin.of_ascending (List.pairwise_pair.mpr hlt)
  | a :: b :: c :: rest => exact absurd hlen (by simp)

/-! ## The sorted array -/

section Sorted

variable {useSysGuid : Bool} {ports ports' : List SwitchportToNextGuid}

theorem map_guid_unmarked (l : List SwitchportToNextGuid) :
    (l.map SwitchportToNextGuid.unmarked).map (sortGuid useSysGuid) =
      l.map (sortGuid useSysGuid) := by
  rw [List.map_map]
  apply List.map_congr_left
  intro e _
  cases useSysGuid <;> rfl

structure Dealt (useSysGuid : Bool) (ports ports' : List SwitchportToNextGuid) (order : List Nat) :
    Prop where
  arranged : Arranged ((ports.map SwitchportToNextGuid.unmarked).map (sortGuid useSysGuid))
    ((ports'.map SwitchportToNextGuid.unmarked).map (sortGuid useSysGuid)) order
  entries : (ports'.map SwitchportToNextGuid.unmarked).map some =
    order.map fun x => (ports.map SwitchportToNextGuid.unmarked)[x]?

theorem Dealt.of_entries {order : List Nat} (hperm : order.Perm (List.range ports.length))
    (hrounds : order.Pairwise (RoundBefore (ports.map (sortGuid useSysGuid))))
    (hentries : (ports'.map SwitchportToNextGuid.unmarked).map some =
      order.map fun x => (ports.map SwitchportToNextGuid.unmarked)[x]?) :
    Dealt useSysGuid ports ports' order := by
  refine ⟨⟨?_, ?_, ?_⟩, hentries⟩
  · rw [List.length_map, List.length_map]
    exact hperm
  · rw [map_guid_unmarked]
    exact hrounds
  · calc ((ports'.map SwitchportToNextGuid.unmarked).map (sortGuid useSysGuid)).map some
        = ((ports'.map SwitchportToNextGuid.unmarked).map some).map
            (Option.map (sortGuid useSysGuid)) := by
          rw [List.map_map, List.map_map (g := Option.map (sortGuid useSysGuid))]
          rfl
      _ = (order.map fun x => (ports.map SwitchportToNextGuid.unmarked)[x]?).map
            (Option.map (sortGuid useSysGuid)) := by rw [hentries]
      _ = order.map fun x =>
            ((ports.map SwitchportToNextGuid.unmarked).map (sortGuid useSysGuid))[x]? := by
          rw [List.map_map]
          exact List.map_congr_left fun x _ => List.getElem?_map.symm

theorem Dealt.refl (h : RoundRobin (ports.map (sortGuid useSysGuid)))
    (hsame : ports'.map SwitchportToNextGuid.unmarked = ports.map SwitchportToNextGuid.unmarked) :
    Dealt useSysGuid ports ports' (List.range ports.length) := by
  have hself := Arranged.refl h
  rw [List.length_map] at hself
  refine .of_entries .rfl hself.rounds ?_
  have hmap := map_some_take (ports.map SwitchportToNextGuid.unmarked) ports.length (by simp)
  rw [List.take_of_length_le (by simp)] at hmap
  rw [hsame, hmap]

theorem Dealt.of_marks {order : List Nat} {marked : List SwitchportToNextGuid}
    (hperm : order.Perm (List.range ports.length))
    (hrounds : order.Pairwise (RoundBefore (ports.map (sortGuid useSysGuid))))
    (hsame : marked.map SwitchportToNextGuid.unmarked = ports.map SwitchportToNextGuid.unmarked)
    (hmarks : ∀ t x : Nat, order[t]? = some x →
      ∃ e : SwitchportToNextGuid, marked[x]? = some e ∧ e.sortIndex = t)
    (hperm' : ports'.Perm marked)
    (hplaced : ∀ i (e : SwitchportToNextGuid), ports'[i]? = some e → e.sortIndex = i) :
    Dealt useSysGuid ports ports' order := by
  have hlen : ports'.length = order.length := by
    have hmarked := congrArg List.length hsame
    rw [List.length_map, List.length_map] at hmarked
    rw [hperm'.length_eq, hmarked, hperm.length_eq, List.length_range]
  refine .of_entries hperm hrounds (List.ext_getElem? fun t => ?_)
  rw [List.getElem?_map, List.getElem?_map, List.getElem?_map]
  by_cases ht : t < order.length
  · have hx := List.getElem?_eq_getElem ht
    obtain ⟨e, he, hindex⟩ := hmarks t _ hx
    have het : ports'[t]? = some e := by
      obtain ⟨i, hi⟩ := List.mem_iff_getElem?.mp (hperm'.mem_iff.mpr (List.mem_of_getElem? he))
      rw [← hindex, hplaced i e hi]
      exact hi
    have hsame' := congrArg (fun l => l[order[t]]?) hsame
    simp only [List.getElem?_map, he, Option.map_some] at hsame'
    rw [het, hx, Option.map_some, Option.map_some, Option.map_some, hsame', List.getElem?_map]
  · rw [List.getElem?_eq_none (by omega), List.getElem?_eq_none (by omega)]
    rfl

theorem guidCycleSort_dealt (hfew : ports.length ≤ 0x10000)
    (hsorted : (ports.map (sortGuid useSysGuid)).Pairwise (· ≤ ·))
    (hguid : ∀ e ∈ ports, sortGuid useSysGuid e ≠ 0) :
    ∃ ports' order, guidCycleSort ports useSysGuid = some ports' ∧
      Dealt useSysGuid ports ports' order := by
  have hclear : (ports.map fun e => { e with sortIndex := 0 }).map SwitchportToNextGuid.unmarked =
      ports.map SwitchportToNextGuid.unmarked := by
    rw [List.map_map]
    rfl
  obtain ⟨prev, hruns⟩ := countGuids_runs hsorted hguid
  have hrem := remaining_countGuids hguid
  have hcover : remaining (countGuids useSysGuid ports) =
      List.range (ports.map (sortGuid useSysGuid)).length := by
    rw [hrem, List.length_map]
  unfold guidCycleSort
  by_cases hshort : ports.length ≤ 2
  · rw [if_pos hshort]
    have hrounds := roundRobin_of_two hsorted (by simpa using hshort)
    exact ⟨ports, _, rfl, .refl hrounds rfl⟩
  rw [if_neg hshort]
  dsimp only
  rw [List.length_map]
  by_cases hsimple : (countGuids useSysGuid ports).length ≤ 1 ∨
      (countGuids useSysGuid ports).length = ports.length
  · rw [if_pos hsimple]
    have hrounds : RoundRobin (ports.map (sortGuid useSysGuid)) := by
      rcases hsimple with hsingle | hdistinct
      · exact hruns.roundRobin_of_single hcover hsingle
      · exact hruns.roundRobin_of_distinct hcover hsorted (by rw [hdistinct, List.length_map])
    exact ⟨_, _, rfl, .refl hrounds hclear⟩
  · rw [if_neg hsimple]
    have hgc : 0 < (countGuids useSysGuid ports).length := by omega
    have hlen : (remaining (countGuids useSysGuid ports)).length = ports.length := by
      rw [hrem, List.length_range]
    obtain ⟨marked, hmark, horder, hsame, -, hmarks⟩ :=
      markPorts_spec ports.length 0 0 (countGuids useSysGuid ports)
        (ports.map fun e => { e with sortIndex := 0 }) hlen
        (hrem ▸ List.nodup_range) (fun x hx => by rw [hrem] at hx; simpa using hx) hgc
    rw [hrem] at horder
    rw [hclear] at hsame
    have hmarks' : ∀ t x : Nat,
        (markOrder ports.length 0 (countGuids useSysGuid ports))[t]? = some x →
        ∃ e : SwitchportToNextGuid, marked[x]? = some e ∧ e.sortIndex = t := by
      intro t x ht
      obtain ⟨e, he, hindex⟩ := hmarks t x ht
      have hlt : t < ports.length := by
        rw [← List.length_range (n := ports.length), ← horder.length_eq]
        exact (List.getElem?_eq_some_iff.mp ht).1
      exact ⟨e, he, by omega⟩
    have hlen' : marked.length = ports.length := by
      have h := congrArg List.length hsame
      rwa [List.length_map, List.length_map] at h
    obtain ⟨ports', hswap, hperm, hplaced⟩ :=
      swapPorts_all (marked_of_order (hlen'.symm ▸ horder) hmarks')
    rw [hlen'] at hswap
    refine ⟨ports', markOrder ports.length 0 (countGuids useSysGuid ports),
      by rw [hmark, Option.bind_some, hswap], ?_⟩
    exact .of_marks horder ((hruns.cycling hcover).markOrder hlen hgc) hsame hmarks' hperm hplaced

/-- The sort ends, and permutes the ports into round-robin order; ports of one GUID keep their
order. -/
theorem guidCycleSort_roundRobin (ports : List SwitchportToNextGuid) (useSysGuid : Bool)
    (hfew : ports.length ≤ 0x10000)
    (hsorted : (ports.map (sortGuid useSysGuid)).Pairwise (· ≤ ·))
    (hguid : ∀ e ∈ ports, sortGuid useSysGuid e ≠ 0) :
    ∃ ports', guidCycleSort ports useSysGuid = some ports' ∧
      (ports'.map SwitchportToNextGuid.unmarked).Perm (ports.map SwitchportToNextGuid.unmarked) ∧
      RoundRobin (ports'.map (sortGuid useSysGuid)) ∧
      ∀ guid, ((ports'.map SwitchportToNextGuid.unmarked).filter
          fun e => sortGuid useSysGuid e = guid) =
        (ports.map SwitchportToNextGuid.unmarked).filter fun e => sortGuid useSysGuid e = guid := by
  obtain ⟨ports', order, hsort, hdealt⟩ := guidCycleSort_dealt hfew hsorted hguid
  obtain ⟨cycled, hcycle, hperm⟩ := guidCycleSort_spec hfew hguid
  obtain rfl : cycled = ports' := Option.some.inj (hcycle.symm.trans hsort)
  refine ⟨cycled, hsort, hperm, ?_, hdealt.arranged.filter_eq hdealt.entries⟩
  have hrounds := hdealt.arranged.roundRobin
  rwa [map_guid_unmarked] at hrounds

end Sorted

def guidPort (guid index : Nat) : SwitchportToNextGuid where
  guid := guid
  portp := { index := index }
  nextSwp := { index := guid }

def unevenGuids : List SwitchportToNextGuid :=
  [guidPort 1 1, guidPort 1 2, guidPort 2 3, guidPort 2 4, guidPort 2 5, guidPort 3 6]

theorem unevenGuids_roundRobin :
    ∃ ports', guidCycleSort unevenGuids false = some ports' ∧
      (ports'.map SwitchportToNextGuid.unmarked).Perm
        (unevenGuids.map SwitchportToNextGuid.unmarked) ∧
      RoundRobin (ports'.map (sortGuid false)) ∧
      ∀ guid, ((ports'.map SwitchportToNextGuid.unmarked).filter
          fun e => sortGuid false e = guid) =
        (unevenGuids.map SwitchportToNextGuid.unmarked).filter fun e => sortGuid false e = guid :=
  guidCycleSort_roundRobin unevenGuids false (by decide) (by decide) (by decide)

example : (guidCycleSort unevenGuids false).map (List.map SwitchportToNextGuid.guid) =
    some [1, 2, 3, 1, 2, 2] := by
  decide

end OpaFm.Routing
