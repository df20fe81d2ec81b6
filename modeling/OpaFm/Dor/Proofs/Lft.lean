import OpaFm.Dor.Lft
import OpaFm.Routing.Proofs.HostPasses
import OpaFm.Lib.Fold
import Mathlib.Data.List.GetD
import Mathlib.Data.List.Nodup
import Mathlib.Data.List.Range
import Mathlib.Data.List.Sort

/-!
# What the tables in dimension order hold
-/

namespace OpaFm.Dor

open OpaFm.Fabric OpaFm.Routing

namespace DorState

/-! ## The ports for one destination -/

theorem fill_from (buf : PortBuffer) (vs : List Nat) (k : Nat) :
    let filled := (vs.zipIdx k).foldl (fun buf v => buf.put v.2 v.1) buf
    (∀ i, filled.portnos i =
      if k ≤ i ∧ i < k + vs.length then vs.getD (i - k) 0 else buf.portnos i) ∧
    ∀ i, i ∈ filled.wrote ↔ i ∈ buf.wrote ∨ k ≤ i ∧ i < k + vs.length := by
  induction vs generalizing buf k with
  | nil =>
    have hempty : ∀ i, ¬(k ≤ i ∧ i < k + ([] : List Nat).length) := by
      intro i h
      rw [List.length_nil] at h
      omega
    refine ⟨fun i => (if_neg (hempty i)).symm, fun i => ⟨Or.inl, fun h => ?_⟩⟩
    exact h.resolve_right (hempty i)
  | cons v vs ih =>
    obtain ⟨hval, hwrote⟩ := ih (buf.put k v) (k + 1)
    rw [List.zipIdx_cons, List.foldl_cons]
    refine ⟨fun i => ?_, fun i => ?_⟩
    · rw [hval i, List.length_cons]
      by_cases hi : k + 1 ≤ i ∧ i < k + 1 + vs.length
      · have hsub : i - k = (i - (k + 1)) + 1 := by omega
        rw [if_pos hi, if_pos (by omega), hsub, List.getD_cons_succ]
      · rw [if_neg hi]
        by_cases hk : i = k
        · subst hk
          rw [if_pos (by omega), Nat.sub_self, List.getD_cons_zero]
          exact Function.update_self ..
        · rw [if_neg (by omega)]
          exact Function.update_of_ne hk ..
    · rw [hwrote i, List.length_cons]
      show i ∈ buf.wrote ++ [k] ∨ _ ↔ _
      rw [List.mem_append, List.mem_singleton, or_assoc]
      apply or_congr_right
      omega

theorem fill_portnos (buf : PortBuffer) (vs : List Nat) (i : Nat) :
    (buf.fill vs).portnos i = if i < vs.length then vs.getD i 0 else buf.portnos i := by
  have := (fill_from buf vs 0).1 i
  simpa [PortBuffer.fill] using this

theorem mem_fill_wrote (buf : PortBuffer) (vs : List Nat) (i : Nat) :
    i ∈ (buf.fill vs).wrote ↔ i ∈ buf.wrote ∨ i < vs.length := by
  have := (fill_from buf vs 0).2 i
  simpa [PortBuffer.fill] using this

/-- A buffer that was cleared for the LIDs of the destination and holds a group: it agrees with
the group exactly when there is a port for each LID and none too many. -/
theorem xftAgrees_iff {mem : Nat → Nat} {group : List Nat} {lmc : Nat} (hne : group ≠ []) :
    XftAgrees (((⟨mem, []⟩ : PortBuffer).fill (List.replicate (2 ^ lmc % 256) 0xff)).fill group)
      group lmc ↔ group.length = 2 ^ lmc ∧ 0xff ∉ group := by
  have hmod : 2 ^ lmc % 256 ≤ 2 ^ lmc := Nat.mod_le _ _
  unfold XftAgrees
  simp only [mem_fill_wrote, fill_portnos, List.length_replicate, List.not_mem_nil, false_or]
  constructor
  · rintro ⟨hall, hin⟩
    have hle : group.length ≤ 2 ^ lmc := by
      have hpos := List.length_pos_iff.mpr hne
      have := hin (group.length - 1) (Or.inr (by omega))
      omega
    have hlen : group.length = 2 ^ lmc := by
      by_contra hlt
      obtain ⟨hw, hff, -⟩ := hall group.length (by omega)
      have hin' : group.length < 2 ^ lmc % 256 := by omega
      rw [if_neg (Nat.lt_irrefl _), if_pos hin', List.getD_replicate _ hin'] at hff
      exact hff rfl
    refine ⟨hlen, fun hmem => ?_⟩
    obtain ⟨i, hi, hget⟩ := List.getElem_of_mem hmem
    have hff := (hall i (by omega)).2.1
    rw [if_pos hi, List.getD_eq_getElem _ _ hi] at hff
    exact hff hget
  · rintro ⟨hlen, hff⟩
    refine ⟨fun i hi => ?_, fun i hi => by omega⟩
    have hi' : i < group.length := by omega
    have hmem : group.getD i 0 ∈ group := by
      rw [List.getD_eq_getElem _ _ hi']
      exact List.getElem_mem hi'
    rw [if_pos hi']
    exact ⟨Or.inr hi', fun heq => hff (heq ▸ hmem), hmem⟩

variable {s : DorState}

theorem setupXft_eq {load : RouteLoad} {switchp endNodep endSwitchp : Node} {endPortp : ValidPort}
    {group : List Nat} {buf : PortBuffer}
    (hsw : s.getSwitch endNodep endPortp.port = some endSwitchp)
    (hne : switchp.swIdx ≠ endSwitchp.swIdx)
    (hgroup : s.getPortGroup load switchp endSwitchp = some group) :
    s.setupXft load switchp endNodep endPortp buf =
      some (.ok, (buf.fill (List.replicate (2 ^ endPortp.data.lmc % 256) 0xff)).fill group) := by
  unfold setupXft
  rw [hsw]
  simp only [if_neg hne, hgroup, Option.map_some]

/-- The ports for a destination behind a group agree with it exactly when the group has as many
ports as the destination has LIDs. -/
theorem setupXft_meets_iff {load : RouteLoad} {switchp endNodep endSwitchp : Node}
    {endPortp : ValidPort} {group : List Nat} {mem : Nat → Nat}
    (hsw : s.getSwitch endNodep endPortp.port = some endSwitchp)
    (hne : switchp.swIdx ≠ endSwitchp.swIdx)
    (hgroup : s.getPortGroup load switchp endSwitchp = some group) (hports : group ≠ []) :
    (∃ buf, s.setupXft load switchp endNodep endPortp ⟨mem, []⟩ = some (.ok, buf) ∧
      XftAgrees buf group endPortp.data.lmc) ↔
      group.length = 2 ^ endPortp.data.lmc ∧ 0xff ∉ group := by
  rw [setupXft_eq hsw hne hgroup, ← xftAgrees_iff hports]
  constructor
  · rintro ⟨buf, heq, hag⟩
    cases heq
    exact hag
  · exact fun hag => ⟨_, rfl, hag⟩

/-! ## Loops over LIDs -/

variable {switchp : Node} {portGroup : List Nat}

theorem getD_mem (hne : portGroup ≠ []) (i : Nat) :
    portGroup.getD (i % portGroup.length) 0xff ∈ portGroup := by
  have hlt : i % portGroup.length < portGroup.length :=
    Nat.mod_lt i (List.length_pos_iff.mpr hne)
  rw [List.getD_eq_getElem _ _ hlt]
  exact List.getElem_mem hlt

theorem foldl_routeLid (hne : portGroup ≠ []) (lids : List Nat) (st : LftState) :
    let st' := lids.foldl (fun st lid => s.routeLid switchp portGroup lid st) st
    (∀ lid, lid ∉ lids → st'.lft lid = st.lft lid) ∧
      ∀ lid ∈ lids, ∃ port ∈ portGroup, st'.lft lid = some port := by
  induction lids generalizing st with
  | nil => exact ⟨fun _ _ => rfl, fun _ h => absurd h List.not_mem_nil⟩
  | cons l lids ih =>
    obtain ⟨hkeep, hset⟩ := ih (s.routeLid switchp portGroup l st)
    refine ⟨fun lid hlid => ?_, fun lid hlid => ?_⟩
    · rw [List.mem_cons, not_or] at hlid
      rw [List.foldl_cons, hkeep lid hlid.2]
      exact Function.update_of_ne hlid.1 ..
    · rw [List.foldl_cons]
      by_cases hmem : lid ∈ lids
      · exact hset lid hmem
      · rw [hkeep lid hmem]
        obtain rfl : lid = l := (List.mem_cons.mp hlid).resolve_right hmem
        exact ⟨_, getD_mem hne st.i, Function.update_self ..⟩

def asideLids (st : LftState) : List Nat := (List.range st.routeLastCount).map st.routeLast

theorem routeLastLids_eq (st : LftState) : s.routeLastLids switchp portGroup st =
    (asideLids st).foldl (fun st lid => s.routeLid switchp portGroup lid st) st := by
  have hsame : ∀ (js : List Nat) (st' : LftState), st'.routeLast = st.routeLast →
      js.foldl (fun st j => s.routeLid switchp portGroup (st.routeLast j) st) st' =
        (js.map st.routeLast).foldl (fun st lid => s.routeLid switchp portGroup lid st) st' := by
    intro js
    induction js with
    | nil => exact fun _ _ => rfl
    | cons j js ih =>
      intro st' heq
      rw [List.foldl_cons, List.map_cons, List.foldl_cons, heq]
      exact ih _ heq
  exact hsame _ st rfl

theorem routeLastLids_routeLast (st : LftState) :
    (s.routeLastLids switchp portGroup st).routeLast = st.routeLast := by
  rw [routeLastLids_eq]
  generalize asideLids st = lids
  induction lids generalizing st with
  | nil => rfl
  | cons l lids ih => exact ih (s.routeLid switchp portGroup l st)

section

variable (s) (L : List (Port × Node × Nat))

def directLids : List Nat := (L.filter fun l => !s.skipBalance l.2.1).map fun l => l.2.2

def deferredLids : List Nat := (L.filter fun l => s.skipBalance l.2.1).map fun l => l.2.2

end

theorem putAside_count_lt (lid : Nat) (st : LftState) : (putAside lid st).routeLastCount < 256 :=
  Nat.mod_lt _ (by decide)

theorem putAside_byte (lid : Nat) {st : LftState} (h : ∀ j, st.routeLast j < 256) (j : Nat) :
    (putAside lid st).routeLast j < 256 := by
  show Function.update st.routeLast st.routeLastCount (lid % 256) j < 256
  by_cases hj : j = st.routeLastCount
  · rw [hj, Function.update_self]
    exact Nat.mod_lt _ (by decide)
  · rw [Function.update_of_ne hj]
    exact h j

theorem asideLids_putAside {lid : Nat} {st : LftState} (hlid : lid < 256)
    (hcount : st.routeLastCount + 1 < 256) :
    asideLids (putAside lid st) = asideLids st ++ [lid] := by
  have heq : asideLids (putAside lid st) = (List.range ((st.routeLastCount + 1) % 256)).map
      (Function.update st.routeLast st.routeLastCount (lid % 256)) := rfl
  rw [heq, Nat.mod_eq_of_lt hlid, Nat.mod_eq_of_lt hcount, List.range_succ, List.map_append,
    List.map_singleton, Function.update_self]
  unfold asideLids
  congr 1
  apply List.map_congr_left
  intro j hj
  exact Function.update_of_ne (Nat.ne_of_lt (List.mem_range.mp hj)) ..

theorem hostLids_lft (hne : portGroup ≠ []) (L : List (Port × Node × Nat)) (st : LftState)
    (hcount : st.routeLastCount < 256) :
    let st' := L.foldl (fun st l => s.hostLid switchp portGroup l.1 l.2.1 st l.2.2) st
    (∀ lid, lid ∉ s.directLids L → st'.lft lid = st.lft lid) ∧
      (∀ lid ∈ s.directLids L, ∃ port ∈ portGroup, st'.lft lid = some port) ∧
      ((∀ j, st.routeLast j < 256) → ∀ j, st'.routeLast j < 256) := by
  have hlen : portGroup.length ≠ 0 := fun h => hne (List.length_eq_zero_iff.mp h)
  induction L generalizing st with
  | nil => exact ⟨fun _ _ => rfl, fun _ h => absurd h List.not_mem_nil, fun h => h⟩
  | cons l L ih =>
    by_cases hskip : s.skipBalance l.2.1 = true
    · -- the LID is put aside
      have hstep : s.hostLid switchp portGroup l.1 l.2.1 st l.2.2 = putAside l.2.2 st := by
        unfold hostLid
        rw [if_neg hlen, hskip, decide_eq_true hcount]
        rfl
      have hdirect : s.directLids (l :: L) = s.directLids L := by
        unfold directLids
        rw [List.filter_cons_of_neg (by simp [hskip])]
      obtain ⟨hkeep, hset, hbyte⟩ := ih (putAside l.2.2 st) (putAside_count_lt l.2.2 st)
      rw [List.foldl_cons, hstep, hdirect]
      exact ⟨hkeep, hset, fun h => hbyte (putAside_byte l.2.2 h)⟩
    · have hskip := Bool.eq_false_of_not_eq_true hskip
      have hstep : s.hostLid switchp portGroup l.1 l.2.1 st l.2.2 =
          s.routeLid switchp portGroup l.2.2 st := by
        unfold hostLid
        rw [if_neg hlen, hskip]
        rfl
      have hdirect : s.directLids (l :: L) = l.2.2 :: s.directLids L := by
        unfold directLids
        rw [List.filter_cons_of_pos (by simp [hskip]), List.map_cons]
      obtain ⟨hkeep, hset, hbyte⟩ := ih (s.routeLid switchp portGroup l.2.2 st) hcount
      rw [List.foldl_cons, hstep, hdirect]
      refine ⟨fun lid hlid => ?_, fun lid hlid => ?_, hbyte⟩
      · rw [List.mem_cons, not_or] at hlid
        rw [hkeep lid hlid.2]
        exact Function.update_of_ne hlid.1 ..
      · by_cases hmem : lid ∈ s.directLids L
        · exact hset lid hmem
        · rw [hkeep lid hmem]
          obtain rfl := (List.mem_cons.mp hlid).resolve_right hmem
          exact ⟨_, getD_mem hne st.i, Function.update_self ..⟩

theorem hostLids_aside (hne : portGroup ≠ []) (L : List (Port × Node × Nat)) (st : LftState)
    (hfit : ∀ lid ∈ s.deferredLids L, lid < 256)
    (hcount : st.routeLastCount + (s.deferredLids L).length < 256) :
    asideLids (L.foldl (fun st l => s.hostLid switchp portGroup l.1 l.2.1 st l.2.2) st) =
      asideLids st ++ s.deferredLids L := by
  have hlen : portGroup.length ≠ 0 := fun h => hne (List.length_eq_zero_iff.mp h)
  induction L generalizing st with
  | nil => exact (List.append_nil _).symm
  | cons l L ih =>
    by_cases hskip : s.skipBalance l.2.1 = true
    · have hdef : s.deferredLids (l :: L) = l.2.2 :: s.deferredLids L := by
        unfold deferredLids
        rw [List.filter_cons_of_pos (by simp [hskip]), List.map_cons]
      rw [hdef] at hfit hcount ⊢
      rw [List.length_cons] at hcount
      have hlt : st.routeLastCount < 256 := by omega
      have hstep : s.hostLid switchp portGroup l.1 l.2.1 st l.2.2 = putAside l.2.2 st := by
        unfold hostLid
        rw [if_neg hlen, hskip, decide_eq_true hlt]
        rfl
      have hcount' : (putAside l.2.2 st).routeLastCount + (s.deferredLids L).length < 256 := by
        show (st.routeLastCount + 1) % 256 + _ < 256
        omega
      rw [List.foldl_cons, hstep, ih _ (fun lid h => hfit lid (List.mem_cons_of_mem _ h)) hcount',
        asideLids_putAside (hfit l.2.2 List.mem_cons_self) (by omega), List.append_assoc,
        List.singleton_append]
    · have hskip := Bool.eq_false_of_not_eq_true hskip
      have hstep : s.hostLid switchp portGroup l.1 l.2.1 st l.2.2 =
          s.routeLid switchp portGroup l.2.2 st := by
        unfold hostLid
        rw [if_neg hlen, hskip]
        rfl
      have hdef : s.deferredLids (l :: L) = s.deferredLids L := by
        unfold deferredLids
        rw [List.filter_cons_of_neg (by simp [hskip])]
      rw [hdef] at hfit hcount ⊢
      rw [List.foldl_cons, hstep, ih (s.routeLid switchp portGroup l.2.2 st) hfit hcount]
      rfl

theorem routeSwitch_lft (toSwitchp : Node) (st : LftState) :
    let st' := routeSwitch portGroup toSwitchp st
    (∀ lid, (∀ p ∈ liveEndPorts toSwitchp, lid ∉ portLids p) → st'.lft lid = st.lft lid) ∧
      (∀ p ∈ liveEndPorts toSwitchp, ∀ lid ∈ portLids p, ∃ p' ∈ liveEndPorts toSwitchp,
        lid ∈ portLids p' ∧ st'.lft lid =
          some (if portGroup.length = 0 then p'.index else portGroup.getD 0 0xff)) ∧
      st'.routeLast = st.routeLast := by
  unfold routeSwitch
  generalize liveEndPorts toSwitchp = ps
  -- one port
  have hport : ∀ (p : Port) (lids : List Nat) (st : LftState),
      let st' := lids.foldl (fun st lid =>
        ({ st with
          lft := Function.update st.lft lid
            (some (if portGroup.length = 0 then p.index else portGroup.getD 0 0xff)) } :
          LftState)) st
      (∀ lid, lid ∉ lids → st'.lft lid = st.lft lid) ∧ (∀ lid ∈ lids, st'.lft lid =
        some (if portGroup.length = 0 then p.index else portGroup.getD 0 0xff)) ∧
        st'.routeLast = st.routeLast := by
    intro p lids
    induction lids with
    | nil => exact fun st => ⟨fun _ _ => rfl, fun _ h => absurd h List.not_mem_nil, rfl⟩
    | cons l lids ih =>
      intro st
      obtain ⟨hkeep, hset, hlast⟩ := ih
        { st with
          lft := Function.update st.lft l
            (some (if portGroup.length = 0 then p.index else portGroup.getD 0 0xff)) }
      refine ⟨fun lid hlid => ?_, fun lid hlid => ?_, hlast⟩
      · rw [List.mem_cons, not_or] at hlid
        rw [List.foldl_cons, hkeep lid hlid.2]
        exact Function.update_of_ne hlid.1 ..
      · rw [List.foldl_cons]
        by_cases hmem : lid ∈ lids
        · exact hset lid hmem
        · rw [hkeep lid hmem, (List.mem_cons.mp hlid).resolve_right hmem]
          exact Function.update_self ..
  induction ps generalizing st with
  | nil => exact ⟨fun _ _ => rfl, fun _ h => absurd h List.not_mem_nil, rfl⟩
  | cons p ps ih =>
    obtain ⟨hkeep1, hset1, hlast1⟩ := hport p (portLids p) st
    obtain ⟨hkeep, hset, hlast⟩ := ih ((portLids p).foldl _ st)
    rw [List.foldl_cons]
    refine ⟨fun lid hlid => ?_, fun q hq lid hlid => ?_, hlast.trans hlast1⟩
    · rw [hkeep lid fun q hq => hlid q (List.mem_cons_of_mem p hq)]
      exact hkeep1 lid (hlid p List.mem_cons_self)
    · by_cases hmem : ∃ q' ∈ ps, lid ∈ portLids q'
      · obtain ⟨q', hq', hlid'⟩ := hmem
        obtain ⟨p', hp', hl, heq⟩ := hset q' hq' lid hlid'
        exact ⟨p', List.mem_cons_of_mem p hp', hl, heq⟩
      · obtain rfl : q = p := (List.mem_cons.mp hq).resolve_right fun h => hmem ⟨q, h, hlid⟩
        refine ⟨q, List.mem_cons_self, hlid, ?_⟩
        rw [hkeep lid fun q' hq' hl => hmem ⟨q', hq', hl⟩]
        exact hset1 lid hlid

theorem hostLids_own (L : List (Port × Node × Nat)) (st : LftState) :
    let st' := L.foldl (fun st l => s.hostLid switchp [] l.1 l.2.1 st l.2.2) st
    (∀ lid, (∀ l ∈ L, l.2.2 ≠ lid) → st'.lft lid = st.lft lid) ∧
      (∀ l ∈ L, ∃ l' ∈ L, l'.2.2 = l.2.2 ∧ st'.lft l.2.2 = some l'.1.index) ∧
      st'.routeLast = st.routeLast ∧ st'.routeLastCount = st.routeLastCount := by
  induction L generalizing st with
  | nil => exact ⟨fun _ _ => rfl, fun _ h => absurd h List.not_mem_nil, rfl, rfl⟩
  | cons l L ih =>
    obtain ⟨hkeep, hset, hlast⟩ := ih (s.hostLid switchp [] l.1 l.2.1 st l.2.2)
    rw [List.foldl_cons]
    refine ⟨fun lid hlid => ?_, fun k hk => ?_, hlast⟩
    · rw [hkeep lid fun k hk => hlid k (List.mem_cons_of_mem l hk)]
      exact Function.update_of_ne (hlid l List.mem_cons_self).symm ..
    · by_cases hmem : ∃ k' ∈ L, k'.2.2 = k.2.2
      · obtain ⟨k', hk', hlid⟩ := hmem
        obtain ⟨l', hl', heq, hval⟩ := hset k' hk'
        rw [hlid] at heq hval
        exact ⟨l', List.mem_cons_of_mem l hl', heq, hval⟩
      · obtain rfl : k = l := (List.mem_cons.mp hk).resolve_right fun h => hmem ⟨k, h, rfl⟩
        refine ⟨k, List.mem_cons_self, rfl, ?_⟩
        rw [hkeep k.2.2 fun k' hk' heq => hmem ⟨k', hk', heq⟩]
        exact Function.update_self ..

theorem leadsTo_own {toSwitchp : Node} (heq : switchp.index = toSwitchp.index) {own port : Nat} :
    s.LeadsTo switchp toSwitchp own port ↔ port = own := by
  unfold LeadsTo
  rw [if_pos heq]

end DorState

/-! ## LIDs of a subnet -/

namespace DorSubnet

open DorState

variable (F : DorSubnet) {switchp toSwitchp : Node}

theorem mem_hostsAt (hs : toSwitchp ∈ F.topop.switches) {l : Port × Node} :
    l ∈ F.hostsAt toSwitchp ↔ l ∈ hostLinks F.topop toSwitchp := by
  unfold hostsAt
  rw [List.mem_filter]
  constructor
  · exact fun h => h.1
  · intro h
    rw [F.host_not_isl toSwitchp hs l h]
    exact ⟨h, rfl⟩

theorem mem_lidsAt {p : Port} {nodep : Node} {lid : Nat} :
    (p, nodep, lid) ∈ F.lidsAt toSwitchp ↔
      (p, nodep) ∈ F.hostsAt toSwitchp ∧ lid ∈ hostLids nodep := by
  unfold lidsAt
  simp only [List.mem_flatMap, List.mem_map, Prod.mk.injEq, Prod.exists]
  constructor
  · rintro ⟨p', n', hl, lid', hlid, rfl, rfl, rfl⟩
    exact ⟨hl, hlid⟩
  · exact fun ⟨hl, hlid⟩ => ⟨p, nodep, hl, lid, hlid, rfl, rfl, rfl⟩

theorem exists_lidAt (hs : toSwitchp ∈ F.topop.switches) {own lid : Nat}
    (h : F.LidAt toSwitchp own lid) (hnot : ∀ p ∈ liveEndPorts toSwitchp, lid ∉ portLids p) :
    ∃ p nodep, (p, nodep, lid) ∈ F.lidsAt toSwitchp := by
  rcases h with ⟨nodep, hn, hca, portp, hp, hno, hportno, hlid⟩ | ⟨portp, hp, -, hlid⟩
  · obtain ⟨p, hlink, -⟩ := F.wired.exists_hostLink hn hca hp hs hno
    exact ⟨p, nodep, F.mem_lidsAt.mpr ⟨(F.mem_hostsAt hs).mpr hlink,
      mem_hostLids.mpr ⟨portp, hp, hlid⟩⟩⟩
  · exact absurd hlid (hnot portp hp)

theorem lidAt_unique {S S' : Node} (hs : S ∈ F.topop.switches) (hs' : S' ∈ F.topop.switches)
    {own own' lid : Nat} (h : F.LidAt S own lid) (h' : F.LidAt S' own' lid) :
    S = S' ∧ own = own' := by
  have hmem := fun {n} (hn : n ∈ F.topop.switches) => Wired.node_mem hn
  rcases h with ⟨n, hn, hca, p, hp, hno, hportno, hlid⟩ | ⟨p, hp, hown, hlid⟩ <;>
    rcases h' with ⟨n', hn', hca', p', hp', hno', hportno', hlid'⟩ | ⟨p', hp', hown', hlid'⟩
  · obtain ⟨-, rfl⟩ := F.wired.lid_unique n hn n' hn' p hp p' hp' lid hlid hlid'
    rw [hno] at hno'
    rw [hportno] at hportno'
    exact ⟨F.wired.eq_of_index (hmem hs) (hmem hs') (Option.some.inj hno'),
      Option.some.inj hportno'⟩
  · obtain ⟨rfl, -⟩ := F.wired.lid_unique n hn S' (hmem hs') p hp p' hp' lid hlid hlid'
    exact absurd hca (Wired.not_ca hs')
  · obtain ⟨rfl, -⟩ := F.wired.lid_unique S (hmem hs) n' hn' p hp p' hp' lid hlid hlid'
    exact absurd hca' (Wired.not_ca hs)
  · obtain ⟨rfl, rfl⟩ := F.wired.lid_unique S (hmem hs) S' (hmem hs') p hp p' hp' lid hlid hlid'
    exact ⟨rfl, hown.symm.trans hown'⟩

theorem not_lidAt_of_ne {S S' : Node} (hS : S ∈ F.topop.switches) (hS' : S' ∈ F.topop.switches)
    (hne : S ≠ S') {own lid : Nat} (h : F.LidAt S own lid) (own' : Nat) :
    ¬F.LidAt S' own' lid :=
  fun h' => hne (F.lidAt_unique hS hS' h h').1

section

variable (hsingle : F.SingleAt toSwitchp) (hs : toSwitchp ∈ F.topop.switches)
include hsingle hs

theorem lidAt_of_mem {p : Port} {nodep : Node} {lid : Nat}
    (h : (p, nodep, lid) ∈ F.lidsAt toSwitchp) : F.LidAt toSwitchp p.index lid := by
  obtain ⟨hl, hlid⟩ := F.mem_lidsAt.mp h
  obtain ⟨portp, hp, hlid⟩ := mem_hostLids.mp hlid
  obtain ⟨-, -, -, hn, hca⟩ := F.wired.mem_hostLinks.mp ((F.mem_hostsAt hs).mp hl)
  obtain ⟨hno, hportno⟩ := (hsingle (p, nodep) hl).2 portp hp
  exact Or.inl ⟨nodep, hn, hca, portp, hp, hno, hportno, hlid⟩

theorem nodup_lidsAt : ((F.lidsAt toSwitchp).map fun l => l.2.2).Nodup := by
  have hmap : (F.lidsAt toSwitchp).map (fun l => l.2.2) =
      (F.hostsAt toSwitchp).flatMap fun l => hostLids l.2 := by
    unfold lidsAt
    rw [List.map_flatMap]
    simp only [List.map_map]
    congr 1
    funext l
    exact List.map_id _
  rw [hmap, List.nodup_flatMap]
  constructor
  · intro l hl
    unfold hostLids
    have hlen := (hsingle l hl).1
    rcases hports : liveEndPorts l.2 with _ | ⟨p, _ | ⟨q, ps⟩⟩
    · exact List.nodup_nil
    · rw [List.flatMap_singleton]
      exact nodup_portLids p
    · rw [hports] at hlen
      simp at hlen
  · have hnodup : (F.hostsAt toSwitchp).Nodup :=
      (F.wired.nodup_hostLinks (Wired.node_mem hs)).filter _
    refine hnodup.imp_of_mem fun {l l'} hl hl' hne => ?_
    intro lid hlid hlid'
    apply hne
    obtain ⟨p, nodep⟩ := l
    obtain ⟨p', nodep'⟩ := l'
    have hat := F.lidAt_of_mem hsingle hs (F.mem_lidsAt.mpr ⟨hl, hlid⟩)
    have hat' := F.lidAt_of_mem hsingle hs (F.mem_lidsAt.mpr ⟨hl', hlid'⟩)
    obtain ⟨hphys, -, hno, hn, -⟩ := F.wired.mem_hostLinks.mp ((F.mem_hostsAt hs).mp hl)
    obtain ⟨hphys', -, hno', hn', -⟩ := F.wired.mem_hostLinks.mp ((F.mem_hostsAt hs).mp hl')
    have hpp : p = p' :=
      F.wired.port_eq (Wired.node_mem hs) hphys hphys' (F.lidAt_unique hs hs hat hat').2
    subst hpp
    rw [hno] at hno'
    rw [F.wired.eq_of_index hn hn' (Option.some.inj hno')]

end

/-! ## One destination switch -/

theorem exists_portGroup (hx : switchp ∈ F.topop.switches) (hs : toSwitchp ∈ F.topop.switches)
    (hne : switchp.index ≠ toSwitchp.index) (load : RouteLoad) :
    ∃ group, F.getPortGroup load switchp toSwitchp = some group ∧
      (∀ port own, port ∈ group ↔ F.LeadsTo switchp toSwitchp own port) ∧
      (group ≠ [] ↔ F.Reachable switchp toSwitchp) := by
  have hsome : ∃ ports, F.groupPorts switchp toSwitchp = some ports ∧
      (F.dorClosure switchp.swIdx toSwitchp.swIdx = true → ∃ e, e ∈ ports) := by
    unfold groupPorts
    by_cases hcl : F.dorClosure switchp.swIdx toSwitchp.swIdx = true
    · obtain ⟨e, ports, hports, he⟩ := F.cabled _ hx _ hs hne hcl
      rw [if_pos hcl]
      exact ⟨ports, hports, fun _ => ⟨e, he⟩⟩
    · rw [if_neg hcl]
      exact ⟨_, rfl, fun h => absurd h hcl⟩
  obtain ⟨ports, hports, hcl⟩ := hsome
  have hmem : ∀ e, e ∈ F.qsort.sort (compareLidsRouted load switchp) ports ↔ e ∈ ports :=
    fun e => (F.qsort.perm _ ports).mem_iff
  refine ⟨_, by unfold getPortGroup; rw [hports]; rfl, fun port own => ?_, ?_⟩
  · unfold LeadsTo
    rw [if_neg hne, List.mem_map]
    constructor
    · rintro ⟨e, he, rfl⟩
      exact ⟨e, ports, hports, (hmem e).mp he, rfl⟩
    · rintro ⟨e, ports', hports', he, rfl⟩
      rw [hports] at hports'
      cases hports'
      exact ⟨e, (hmem e).mpr he, rfl⟩
  · rw [List.ne_nil_iff_exists_cons, Reachable]
    constructor
    · rintro ⟨b, l, heq⟩
      obtain ⟨e, he, -⟩ := List.mem_map.mp (heq ▸ List.mem_cons_self)
      exact Or.inr (Or.inr ⟨e, ports, hports, (hmem e).mp he⟩)
    · intro h
      have he : ∃ e, e ∈ ports := by
        rcases h with h | h | ⟨e, ports', hports', he⟩
        · exact absurd h hne
        · exact hcl h
        · rw [hports] at hports'
          cases hports'
          exact ⟨e, he⟩
      obtain ⟨e, he⟩ := he
      exact List.exists_cons_of_ne_nil
        (List.ne_nil_of_mem (List.mem_map_of_mem ((hmem e).mpr he)))

def FitAt (toSwitchp : Node) : Prop :=
  ∀ l ∈ F.lidsAt toSwitchp, F.skipBalance l.2.1 = true → l.2.2 < 256

/-- What the visit of a switch does to the table: its LIDs get ports on the way there, LIDs that do
not fit in a byte are left out when they are put aside, and other LIDs keep their entries. -/
structure Visited (switchp toSwitchp : Node) (st st' : LftState) : Prop where
  byte : ∀ j, st'.routeLast j < 256
  routed : F.Reachable switchp toSwitchp →
    (switchp.index ≠ toSwitchp.index → F.FitAt toSwitchp) →
      ∀ own lid, F.LidAt toSwitchp own lid →
        ∃ port, st'.lft lid = some port ∧ F.LeadsTo switchp toSwitchp own port
  frame : ∀ lid, (F.Reachable switchp toSwitchp → ∀ own, ¬F.LidAt toSwitchp own lid) →
    (256 ≤ lid ∨ (switchp.index ≠ toSwitchp.index → F.Reachable switchp toSwitchp →
      F.FitAt toSwitchp)) → st'.lft lid = st.lft lid
  lost : switchp.index ≠ toSwitchp.index → ∀ l ∈ F.lidsAt toSwitchp, F.skipBalance l.2.1 = true →
    256 ≤ l.2.2 → st'.lft l.2.2 = st.lft l.2.2

structure HostsRouted (group : List Nat) (toSwitchp : Node) (st st' : LftState) : Prop where
  byte : ∀ j, st'.routeLast j < 256
  routed : F.FitAt toSwitchp → ∀ l ∈ F.lidsAt toSwitchp, ∃ port ∈ group,
    st'.lft l.2.2 = some port
  frame : ∀ lid, (∀ l ∈ F.lidsAt toSwitchp, l.2.2 ≠ lid) → (256 ≤ lid ∨ F.FitAt toSwitchp) →
    st'.lft lid = st.lft lid
  lost : ∀ l ∈ F.lidsAt toSwitchp, F.skipBalance l.2.1 = true → 256 ≤ l.2.2 →
    st'.lft l.2.2 = st.lft l.2.2

section

variable (hsingle : F.SingleAt toSwitchp) (hs : toSwitchp ∈ F.topop.switches)
include hsingle hs

omit hsingle in
theorem not_own_of_mem {p : Port} {nodep : Node} {lid : Nat}
    (h : (p, nodep, lid) ∈ F.lidsAt toSwitchp) (portp : Port)
    (hp : portp ∈ liveEndPorts toSwitchp) : lid ∉ portLids portp := by
  intro hlid
  obtain ⟨hl, hmem⟩ := F.mem_lidsAt.mp h
  obtain ⟨-, -, -, hn, hca⟩ := F.wired.mem_hostLinks.mp ((F.mem_hostsAt hs).mp hl)
  obtain ⟨p', hp', hlid'⟩ := mem_hostLids.mp hmem
  obtain ⟨rfl, -⟩ := F.wired.lid_unique nodep hn toSwitchp (Wired.node_mem hs) p' hp' portp hp lid
    hlid' hlid
  exact Wired.not_ca hs hca

theorem length_deferredLids (hfit : F.FitAt toSwitchp) :
    (F.deferredLids (F.lidsAt toSwitchp)).length < 256 := by
  have hsub : List.Sublist (F.deferredLids (F.lidsAt toSwitchp))
      ((F.lidsAt toSwitchp).map fun l => l.2.2) := List.filter_sublist.map _
  have hnodup := (F.nodup_lidsAt hsingle hs).sublist hsub
  have hrange : F.deferredLids (F.lidsAt toSwitchp) ⊆ List.range' 1 255 := by
    intro lid hlid
    obtain ⟨l, hl, rfl⟩ := List.mem_map.mp hlid
    obtain ⟨hl, hskip⟩ := List.mem_filter.mp hl
    have hlt := hfit l hl hskip
    obtain ⟨p, nodep, lid⟩ := l
    obtain ⟨hl, hmem⟩ := F.mem_lidsAt.mp hl
    obtain ⟨-, -, -, hn, -⟩ := F.wired.mem_hostLinks.mp ((F.mem_hostsAt hs).mp hl)
    obtain ⟨p', hp', hlid'⟩ := mem_hostLids.mp hmem
    have hpos := F.wired.lid_pos nodep hn p' hp' lid hlid'
    apply List.mem_range'_1.mpr
    show 1 ≤ lid ∧ lid < 1 + 255
    change lid < 256 at hlt
    omega
  have := (List.subperm_of_subset hnodup hrange).length_le
  rw [List.length_range'] at this
  omega

theorem routeTo_own (heq : switchp.index = toSwitchp.index) (st : LftState)
    (hbyte : ∀ j, st.routeLast j < 256) :
    ∃ st', F.routeTo switchp st toSwitchp = some st' ∧ F.Visited switchp toSwitchp st st' := by
  obtain ⟨hkeep, hset, hlast, hcount⟩ :=
    @hostLids_own F.toDorState switchp (F.lidsAt toSwitchp)
      { st with i := 0, routeLastCount := 0 }
  have hrun : F.routeTo switchp st toSwitchp = some (routeSwitch [] toSwitchp
      (F.routeLastLids switchp [] (F.routeHosts switchp [] toSwitchp { st with i := 0 }))) := by
    unfold routeTo
    exact if_pos heq
  have hnone : F.routeLastLids switchp [] (F.routeHosts switchp [] toSwitchp { st with i := 0 }) =
      F.routeHosts switchp [] toSwitchp { st with i := 0 } := by
    unfold routeLastLids
    have : (F.routeHosts switchp [] toSwitchp { st with i := 0 }).routeLastCount = 0 := hcount
    rw [this]
    rfl
  rw [hrun, hnone]
  obtain ⟨hkeep', hset', hlast'⟩ := @routeSwitch_lft [] toSwitchp
    (F.routeHosts switchp [] toSwitchp { st with i := 0 })
  refine ⟨_, rfl, ⟨?_, ?_, ?_, fun h => absurd heq h⟩⟩
  · intro j
    rw [hlast']
    exact (congrFun hlast j).symm ▸ hbyte j
  · intro _ _ own lid hat
    by_cases hown : ∃ p ∈ liveEndPorts toSwitchp, lid ∈ portLids p
    · obtain ⟨p, hp, hlid⟩ := hown
      obtain ⟨p', hp', hlid', hval⟩ := hset' p hp lid hlid
      exact ⟨p'.index, hval, (leadsTo_own heq).mpr
        (F.lidAt_unique hs hs (Or.inr ⟨p', hp', rfl, hlid'⟩) hat).2⟩
    · have hnot : ∀ p ∈ liveEndPorts toSwitchp, lid ∉ portLids p :=
        fun p hp hlid => hown ⟨p, hp, hlid⟩
      obtain ⟨p, nodep, hl⟩ := F.exists_lidAt hs hat hnot
      obtain ⟨⟨p', nodep', lid'⟩, hl', rfl, hval⟩ := hset _ hl
      refine ⟨p'.index, (hkeep' lid' hnot).trans hval, (leadsTo_own heq).mpr ?_⟩
      exact (F.lidAt_unique hs hs (F.lidAt_of_mem hsingle hs hl') hat).2
  · intro lid hnot _
    have hnot := hnot (Or.inl heq)
    rw [hkeep' lid fun p hp hlid => hnot p.index (Or.inr ⟨p, hp, rfl, hlid⟩)]
    apply hkeep
    rintro ⟨p, nodep, lid'⟩ hl rfl
    exact hnot p.index (F.lidAt_of_mem hsingle hs hl)

omit hsingle in
theorem host_unique {l l' : Port × Node × Nat} (hl : l ∈ F.lidsAt toSwitchp)
    (hl' : l' ∈ F.lidsAt toSwitchp) (hlid : l.2.2 = l'.2.2) : l.2.1 = l'.2.1 := by
  obtain ⟨p, nodep, lid⟩ := l
  obtain ⟨p', nodep', lid'⟩ := l'
  change lid = lid' at hlid
  subst hlid
  obtain ⟨hat, hmem⟩ := F.mem_lidsAt.mp hl
  obtain ⟨hat', hmem'⟩ := F.mem_lidsAt.mp hl'
  obtain ⟨-, -, -, hn, -⟩ := F.wired.mem_hostLinks.mp ((F.mem_hostsAt hs).mp hat)
  obtain ⟨-, -, -, hn', -⟩ := F.wired.mem_hostLinks.mp ((F.mem_hostsAt hs).mp hat')
  obtain ⟨q, hq, hlid⟩ := mem_hostLids.mp hmem
  obtain ⟨q', hq', hlid'⟩ := mem_hostLids.mp hmem'
  exact (F.wired.lid_unique nodep hn nodep' hn' q hq q' hq' lid hlid hlid').1

omit hsingle hs in
theorem mem_directLids {lid : Nat} : lid ∈ F.directLids (F.lidsAt toSwitchp) ↔
    ∃ l ∈ F.lidsAt toSwitchp, F.skipBalance l.2.1 = false ∧ l.2.2 = lid := by
  unfold directLids
  simp only [List.mem_map, List.mem_filter, Bool.not_eq_true', and_assoc]

omit hsingle hs in
theorem mem_deferredLids {lid : Nat} : lid ∈ F.deferredLids (F.lidsAt toSwitchp) ↔
    ∃ l ∈ F.lidsAt toSwitchp, F.skipBalance l.2.1 = true ∧ l.2.2 = lid := by
  unfold deferredLids
  simp only [List.mem_map, List.mem_filter, and_assoc]

theorem hosts_routed {group : List Nat} (hnil : group ≠ []) {st : LftState}
    (hbyte : ∀ j, st.routeLast j < 256) :
    F.HostsRouted group toSwitchp st (F.routeLastLids switchp group
      (F.routeHosts switchp group toSwitchp { st with i := 0 })) := by
  obtain ⟨hkeep1, hset1, hbyte1⟩ := @hostLids_lft F.toDorState switchp group hnil
    (F.lidsAt toSwitchp) { st with i := 0, routeLastCount := 0 } (by decide : 0 < 256)
  generalize hst1 : F.routeHosts switchp group toSwitchp { st with i := 0 } = st1
  unfold routeHosts at hst1
  rw [hst1] at hkeep1 hset1 hbyte1
  have hfits : F.FitAt toSwitchp → asideLids st1 = F.deferredLids (F.lidsAt toSwitchp) := by
    intro hfit
    rw [← hst1]
    apply hostLids_aside hnil
    · intro lid hlid
      obtain ⟨l, hl, hskip, rfl⟩ := F.mem_deferredLids.mp hlid
      exact hfit l hl hskip
    · show 0 + _ < 256
      rw [Nat.zero_add]
      exact F.length_deferredLids hsingle hs hfit
  obtain ⟨hkeep2, hset2⟩ := @foldl_routeLid F.toDorState switchp group hnil (asideLids st1) st1
  rw [← routeLastLids_eq] at hkeep2 hset2
  have haside : ∀ lid, 256 ≤ lid → lid ∉ asideLids st1 := by
    intro lid hbig hlid
    obtain ⟨j, -, rfl⟩ := List.mem_map.mp hlid
    exact absurd (hbyte1 hbyte j) (Nat.not_lt.mpr hbig)
  constructor
  case byte =>
    intro j
    rw [@routeLastLids_routeLast F.toDorState switchp group st1]
    exact hbyte1 hbyte j
  case routed =>
    intro hfit l hl
    by_cases hin : l.2.2 ∈ asideLids st1
    · exact hset2 l.2.2 hin
    · rw [hkeep2 l.2.2 hin]
      apply hset1 l.2.2
      rw [hfits hfit, F.mem_deferredLids] at hin
      refine F.mem_directLids.mpr ⟨l, hl, ?_, rfl⟩
      by_contra hskip
      exact hin ⟨l, hl, Bool.not_eq_false _ ▸ hskip, rfl⟩
  case frame =>
    intro lid hnot hfit
    rw [hkeep2, hkeep1]
    · intro hin
      obtain ⟨l, hl, -, hlid⟩ := F.mem_directLids.mp hin
      exact hnot l hl hlid
    · rcases hfit with hbig | hfit
      · exact haside lid hbig
      · rw [hfits hfit]
        intro hin
        obtain ⟨l, hl, -, hlid⟩ := F.mem_deferredLids.mp hin
        exact hnot l hl hlid
  case lost =>
    intro l hl hskip hbig
    rw [hkeep2 _ (haside _ hbig), hkeep1]
    intro hin
    obtain ⟨l', hl', hskip', hlid⟩ := F.mem_directLids.mp hin
    rw [F.host_unique hs hl' hl hlid, hskip] at hskip'
    cases hskip'

omit hsingle in
theorem routeTo_other (hsingle : F.Reachable switchp toSwitchp → F.SingleAt toSwitchp)
    (hx : switchp ∈ F.topop.switches) (hne : switchp.index ≠ toSwitchp.index)
    (st : LftState) (hbyte : ∀ j, st.routeLast j < 256) :
    ∃ st', F.routeTo switchp st toSwitchp = some st' ∧ F.Visited switchp toSwitchp st st' := by
  obtain ⟨group, hgroup, hmem, hreach⟩ := F.exists_portGroup hx hs hne st.load
  by_cases hnil : group = []
  · -- no port leads there
    have hrun : F.routeTo switchp st toSwitchp = some { st with i := 0 } := by
      unfold routeTo
      simp only [if_neg hne, hgroup, hnil, Option.bind_eq_bind, Option.bind_some, List.length_nil,
        if_pos]
    rw [hrun]
    have hnot : ¬F.Reachable switchp toSwitchp := fun h => hreach.mpr h hnil
    exact ⟨_, rfl, ⟨hbyte, fun h => absurd h hnot, fun _ _ _ => rfl, fun _ _ _ _ _ => rfl⟩⟩
  · have hlen : group.length ≠ 0 := fun h => hnil (List.length_eq_zero_iff.mp h)
    have hyes := hreach.mp hnil
    have hrun : F.routeTo switchp st toSwitchp = some (routeSwitch group toSwitchp
        (F.routeLastLids switchp group
          (F.routeHosts switchp group toSwitchp { st with i := 0 }))) := by
      unfold routeTo
      simp only [if_neg hne, hgroup, Option.bind_eq_bind, Option.bind_some, if_neg hlen]
    have hhosts := @hosts_routed F switchp toSwitchp (hsingle hyes) hs group hnil st hbyte
    rw [hrun]
    generalize F.routeLastLids switchp group
      (F.routeHosts switchp group toSwitchp { st with i := 0 }) = st2 at hhosts
    obtain ⟨hkeep, hset, hlast⟩ := @routeSwitch_lft group toSwitchp st2
    refine ⟨_, rfl, ⟨fun j => hlast ▸ hhosts.byte j, ?_, ?_, ?_⟩⟩
    · intro _ hfit own lid hat
      by_cases hown : ∃ p ∈ liveEndPorts toSwitchp, lid ∈ portLids p
      · obtain ⟨p, hp, hlid⟩ := hown
        obtain ⟨p', hp', hlid', hval⟩ := hset p hp lid hlid
        rw [if_neg hlen] at hval
        refine ⟨_, hval, (hmem _ own).mp ?_⟩
        have := getD_mem hnil 0
        rwa [Nat.zero_mod] at this
      · have hnot : ∀ p ∈ liveEndPorts toSwitchp, lid ∉ portLids p :=
          fun p hp hlid => hown ⟨p, hp, hlid⟩
        obtain ⟨p, nodep, hl⟩ := F.exists_lidAt hs hat hnot
        obtain ⟨port, hport, hval⟩ := hhosts.routed (hfit hne) _ hl
        exact ⟨port, (hkeep lid hnot).trans hval, (hmem port own).mp hport⟩
    · intro lid hnot hfit
      have hnot := hnot hyes
      rw [hkeep lid fun p hp hlid => hnot p.index (Or.inr ⟨p, hp, rfl, hlid⟩)]
      apply hhosts.frame lid _ (hfit.imp_right fun h => h hne hyes)
      rintro ⟨p, nodep, lid'⟩ hl rfl
      exact hnot p.index (F.lidAt_of_mem (hsingle hyes) hs hl)
    · rintro - ⟨p, nodep, lid⟩ hl hskip hbig
      rw [hkeep lid (F.not_own_of_mem hs hl)]
      exact hhosts.lost (p, nodep, lid) hl hskip hbig

omit hsingle in
theorem routeTo_visited (hsingle : F.SingleHomed switchp) (hx : switchp ∈ F.topop.switches)
    (st : LftState)
    (hbyte : ∀ j, st.routeLast j < 256) :
    ∃ st', F.routeTo switchp st toSwitchp = some st' ∧ F.Visited switchp toSwitchp st st' := by
  by_cases heq : switchp.index = toSwitchp.index
  · exact F.routeTo_own (hsingle toSwitchp hs (Or.inl heq)) hs heq st hbyte
  · exact F.routeTo_other hs (hsingle toSwitchp hs) hx heq st hbyte

/-! ## All destination switches -/

structure VisitedAll (switchp : Node) (l : List Node) (st st' : LftState) : Prop where
  byte : ∀ j, st'.routeLast j < 256
  routed : (∀ S ∈ l, switchp.index ≠ S.index → F.Reachable switchp S → F.FitAt S) →
    ∀ S ∈ l, F.Reachable switchp S → ∀ own lid, F.LidAt S own lid →
      ∃ port, st'.lft lid = some port ∧ F.LeadsTo switchp S own port
  frame : ∀ lid, (∀ S ∈ l, F.Reachable switchp S → ∀ own, ¬F.LidAt S own lid) →
    (256 ≤ lid ∨ ∀ S ∈ l, switchp.index ≠ S.index → F.Reachable switchp S → F.FitAt S) →
      st'.lft lid = st.lft lid
  lost : ∀ S ∈ l, switchp.index ≠ S.index → F.Reachable switchp S → ∀ k ∈ F.lidsAt S,
    F.skipBalance k.2.1 = true → 256 ≤ k.2.2 → st'.lft k.2.2 = st.lft k.2.2

end

theorem foldlM_visited (hsingle : F.SingleHomed switchp) (hx : switchp ∈ F.topop.switches) (l : List Node)
    (hl : l ⊆ F.topop.switches) (hnodup : l.Nodup) (st : LftState)
    (hbyte : ∀ j, st.routeLast j < 256) :
    ∃ st', l.foldlM (F.routeTo switchp) st = some st' ∧ F.VisitedAll switchp l st st' := by
  induction l generalizing st with
  | nil =>
    exact ⟨st, rfl, ⟨hbyte, fun _ S hS => absurd hS List.not_mem_nil, fun _ _ _ => rfl,
      fun S hS => absurd hS List.not_mem_nil⟩⟩
  | cons S l ih =>
    have hS : S ∈ F.topop.switches := hl List.mem_cons_self
    have hsub : l ⊆ F.topop.switches := List.subset_of_cons_subset hl
    obtain ⟨hnot, hnodup⟩ := List.nodup_cons.mp hnodup
    obtain ⟨st1, hrun1, h1⟩ := F.routeTo_visited hS hsingle hx st hbyte
    obtain ⟨st2, hrun2, h2⟩ := ih hsub hnodup st1 h1.byte
    -- what is at one switch of the list is at no other
    have hapart : ∀ own lid, F.LidAt S own lid → ∀ S' ∈ l, ∀ own', ¬F.LidAt S' own' lid := by
      intro own lid hat S' hS'
      exact F.not_lidAt_of_ne hS (hsub hS') (fun h => hnot (h ▸ hS')) hat
    refine ⟨st2, ?_, ⟨h2.byte, ?_, ?_, ?_⟩⟩
    · rw [List.foldlM_cons, hrun1]
      exact hrun2
    · intro hfit S' hS' hreach own lid hat
      have hfit' : ∀ S' ∈ l, switchp.index ≠ S'.index → F.Reachable switchp S' → F.FitAt S' :=
        fun S' h => hfit S' (List.mem_cons_of_mem S h)
      rcases List.mem_cons.mp hS' with rfl | hS'
      · obtain ⟨port, hval, hleads⟩ := h1.routed hreach
          (fun hne => hfit S' List.mem_cons_self hne hreach) own lid hat
        refine ⟨port, ?_, hleads⟩
        rw [h2.frame lid (fun S'' h _ => hapart own lid hat S'' h) (Or.inr hfit')]
        exact hval
      · exact h2.routed hfit' S' hS' hreach own lid hat
    · intro lid hnone hfit
      rw [h2.frame lid (fun S' h => hnone S' (List.mem_cons_of_mem S h))
        (hfit.imp_right fun h S' hS' => h S' (List.mem_cons_of_mem S hS'))]
      exact h1.frame lid (fun hreach => hnone S List.mem_cons_self hreach)
        (hfit.imp_right fun h => h S List.mem_cons_self)
    · rintro S' hS' hne hreach ⟨p, nodep, lid⟩ hk hskip hbig
      rcases List.mem_cons.mp hS' with rfl | hS'
      · have hat := F.lidAt_of_mem (hsingle S' hS hreach) hS hk
        rw [h2.frame lid (fun S'' h _ => hapart _ lid hat S'' h) (Or.inl hbig)]
        exact h1.lost hne (p, nodep, lid) hk hskip hbig
      · have hat := F.lidAt_of_mem (hsingle S' (hsub hS') hreach) (hsub hS') hk
        rw [h2.lost S' hS' hne hreach (p, nodep, lid) hk hskip hbig]
        apply h1.frame lid _ (Or.inl hbig)
        intro _
        exact F.not_lidAt_of_ne (hsub hS') hS (fun h => hnot (h ▸ hS')) hat

theorem deferredFit_iff : F.DeferredFit switchp ↔ ∀ S ∈ F.topop.switches,
    switchp.index ≠ S.index → F.Reachable switchp S → F.FitAt S := Iff.rfl

theorem calculateLft_visited (hsingle : F.SingleHomed switchp) (hx : switchp ∈ F.topop.switches)
    (load : RouteLoad) : ∃ st, F.calculateLft load switchp = some st ∧
      F.VisitedAll switchp F.topop.switches { lft := fun _ => none, load := load } st :=
  F.foldlM_visited hsingle hx _ (List.Subset.refl _) F.wired.nodup_switches _ fun _ => Nat.zero_lt_succ 255

/-- In a subnet where hosts are at one switch, the table of a switch is right exactly when bytes
hold the LIDs that are put aside at the other switches. -/
theorem calculateLft_meets_iff (hsingle : F.SingleHomed switchp) (hx : switchp ∈ F.topop.switches)
    (load : RouteLoad) : ∃ st, F.calculateLft load switchp = some st ∧
      (F.TableOk switchp st.lft ↔ F.DeferredFit switchp) := by
  obtain ⟨st, hrun, h⟩ := F.calculateLft_visited hsingle hx load
  refine ⟨st, hrun, ⟨fun hok S hS hne hreach k hk hskip => ?_, fun hfit => ⟨?_, ?_⟩⟩⟩
  · by_contra hbig
    have hbig : 256 ≤ k.2.2 := Nat.not_lt.mp hbig
    obtain ⟨p, nodep, lid⟩ := k
    obtain ⟨port, hval, -⟩ := hok.routed S hS hreach p.index lid
      (F.lidAt_of_mem (hsingle S hS hreach) hS hk)
    have hlost := h.lost S hS hne hreach (p, nodep, lid) hk hskip hbig
    change st.lft lid = none at hlost
    rw [hval] at hlost
    cases hlost
  · exact h.routed (F.deferredFit_iff.mp hfit)
  · intro lid hlid
    by_contra hnone
    apply hlid
    apply h.frame lid _ (Or.inr (F.deferredFit_iff.mp hfit))
    intro S hS hreach own hat
    exact hnone ⟨S, hS, hreach, own, hat⟩

end DorSubnet

/-! ## Two switches in a line -/

def linePort (q nodeno portno lid lmc : Nat) : Port :=
  { index := q, state := .active, nodeno := some nodeno, portno := some portno,
    portData := some { lid := lid, lmc := lmc } }

def lineSwitch (k : Nat) : Node :=
  { index := k, swIdx := k, numPorts := 2
    port := fun q =>
      if q = 0 then linePort 0 k 0 (k + 1) 0
      else if q = 1 then linePort 1 (1 - k) 1 0 0
      else if q = 2 then linePort 2 (2 + k) 1 0 0
      else { index := q } }

def lineHost (k lid lmc : Nat) : Node :=
  { index := 2 + k, nodeType := .ca, numPorts := 1
    port := fun q => if q = 1 then linePort 1 k 2 lid lmc else { index := q } }

/-- Two switches in one dimension, with a host at each; the second host is routed last. -/
def lineState (lid lmc : Nat) : DorState where
  topop := { nodes := [lineSwitch 0, lineSwitch 1, lineHost 0 10 0, lineHost 1 lid lmc], maxSws := 2 }
  qsort := insertQsort _
  numDimensions := 1
  portPair := [[(1, 1)]]
  routingData := fun n =>
    { coords := fun _ => n.swIdx
      multipleBrokenDims := false
      left := fun _ => if n.swIdx = 1 then some (lineSwitch 0) else none
      right := fun _ => if n.swIdx = 0 then some (lineSwitch 1) else none }
  dorLeft := fun i j => i == 1 && j == 0
  dorRight := fun i j => i == 0 && j == 1
  cost := fun _ _ => 0
  isIsl := fun n p => n.nodeType == .switch && p.index == 1
  skipBalance := fun n => n.index == 3

theorem lineState_group (lid lmc : Nat) (load : RouteLoad) :
    (lineState lid lmc).getPortGroup load (lineSwitch 0) (lineSwitch 1) = some [1] := rfl

theorem lineHost_lids (k lid lmc : Nat) :
    liveEndPorts (lineHost k lid lmc) = [linePort 1 k 2 lid lmc] := rfl

/-- One cable, but two LIDs: the second one has no port. -/
theorem setupXft_too_few :
    ¬∃ buf, (lineState 12 1).setupXft {} (lineSwitch 0) (lineHost 1 12 1)
      ⟨linePort 1 1 2 12 1, { lid := 12, lmc := 1 }, rfl⟩ ⟨fun _ => 0, []⟩ = some (.ok, buf) ∧
        DorState.XftAgrees buf [1] 1 := by
  rintro ⟨buf, hrun, hag⟩
  rw [DorState.setupXft_eq (by rfl) (by decide) (lineState_group 12 1 {})] at hrun
  cases hrun
  have := ((DorState.xftAgrees_iff (by decide)).mp hag).1
  revert this
  decide

theorem setupXft_meets_line :
    ∃ buf, (lineState 12 0).setupXft {} (lineSwitch 0) (lineHost 1 12 0)
      ⟨linePort 1 1 2 12 0, { lid := 12, lmc := 0 }, rfl⟩ ⟨fun _ => 0, []⟩ = some (.ok, buf) ∧
        DorState.XftAgrees buf [1] 0 :=
  (DorState.setupXft_meets_iff (by rfl) (by decide) (lineState_group 12 0 {}) (by decide)).mpr
    ⟨rfl, by decide⟩

theorem line_cases {lid : Nat} {n : Node} (hn : n ∈ (lineState lid 0).topop.nodes) :
    (∃ k < 2, n = lineSwitch k ∧ liveEndPorts n = [linePort 0 k 0 (k + 1) 0]) ∨
      ∃ k < 2, n = lineHost k (if k = 0 then 10 else lid) 0 ∧
        liveEndPorts n = [linePort 1 k 2 (if k = 0 then 10 else lid) 0] := by
  change n ∈ [lineSwitch 0, lineSwitch 1, lineHost 0 10 0, lineHost 1 lid 0] at hn
  simp only [List.mem_cons, List.not_mem_nil, or_false] at hn
  rcases hn with rfl | rfl | rfl | rfl
  · exact Or.inl ⟨0, by decide, rfl, rfl⟩
  · exact Or.inl ⟨1, by decide, rfl, rfl⟩
  · exact Or.inr ⟨0, by decide, rfl, rfl⟩
  · exact Or.inr ⟨1, by decide, rfl, rfl⟩

theorem lineSwitch_mem {lid : Nat} {n : Node} (hn : n ∈ (lineState lid 0).topop.switches) :
    n = lineSwitch 0 ∨ n = lineSwitch 1 := by
  change n ∈ [lineSwitch 0, lineSwitch 1] at hn
  simpa using hn

theorem line_hostLinks {lid k : Nat} (hk : k < 2) :
    hostLinks (lineState lid 0).topop (lineSwitch k) =
      [(linePort 2 (2 + k) 1 0 0, lineHost k (if k = 0 then 10 else lid) 0)] := by
  have : k = 0 ∨ k = 1 := by omega
  rcases this with rfl | rfl <;> rfl

theorem mem_portLids_linePort {q nodeno portno lid l : Nat} :
    l ∈ portLids (linePort q nodeno portno lid 0) ↔ l = lid := by
  show l ∈ List.range' lid 1 ↔ l = lid
  rw [List.range'_one, List.mem_singleton]

theorem line_wired {lid : Nat} (h : 10 < lid) : Wired (lineState lid 0).topop where
  distinct := by
    show [0, 1, 2, 3].Nodup
    decide
  port_index n hn q := by
    rcases line_cases hn with ⟨k, -, rfl, -⟩ | ⟨k, -, rfl, -⟩
    · unfold lineSwitch linePort
      by_cases h0 : q = 0
      · simp [h0]
      · by_cases h1 : q = 1
        · simp [h1]
        · by_cases h2 : q = 2 <;> simp [h0, h1, h2]
    · unfold lineHost linePort
      by_cases h1 : q = 1 <;> simp [h1]
  link_back n hn hca p hp S hS hno := by
    rcases line_cases hn with ⟨k, -, rfl, -⟩ | ⟨k, hk, rfl, hports⟩
    · cases hca
    · rw [hports, List.mem_singleton] at hp
      subst hp
      have hidx : k = S.index := Option.some.inj hno
      refine ⟨2, rfl, by decide, ?_⟩
      rcases lineSwitch_mem hS with rfl | rfl
      · exact ⟨by decide, rfl, by rw [hidx]; rfl⟩
      · exact ⟨by decide, rfl, by rw [hidx]; rfl⟩
  lid_pos n hn p hp l hl := by
    rcases line_cases hn with ⟨k, -, rfl, hports⟩ | ⟨k, -, rfl, hports⟩
    · rw [hports, List.mem_singleton] at hp
      subst hp
      rw [mem_portLids_linePort] at hl
      omega
    · rw [hports, List.mem_singleton] at hp
      subst hp
      rw [mem_portLids_linePort] at hl
      split at hl <;> omega
  lid_unique n hn n' hn' p hp p' hp' l hl hl' := by
    rcases line_cases hn with ⟨k, hk, rfl, hports⟩ | ⟨k, hk, rfl, hports⟩ <;>
      rcases line_cases hn' with ⟨k', hk', rfl, hports'⟩ | ⟨k', hk', rfl, hports'⟩ <;>
      rw [hports, List.mem_singleton] at hp <;> rw [hports', List.mem_singleton] at hp' <;>
      subst hp <;> subst hp' <;> rw [mem_portLids_linePort] at hl hl'
    · obtain rfl : k = k' := by omega
      exact ⟨rfl, rfl⟩
    · split at hl' <;> omega
    · split at hl <;> omega
    · have : k = k' := by split at hl <;> split at hl' <;> omega
      subst this
      exact ⟨rfl, rfl⟩

def lineSubnet (lid : Nat) (h : 10 < lid) : DorSubnet where
  toDorState := lineState lid 0
  wired := line_wired h
  host_not_isl S hS l hl := by
    rcases lineSwitch_mem hS with rfl | rfl <;>
      rw [line_hostLinks (by decide), List.mem_singleton] at hl <;> subst hl <;> rfl
  cabled x hx y hy hne _ := by
    rcases lineSwitch_mem hx with rfl | rfl <;> rcases lineSwitch_mem hy with rfl | rfl
    · exact absurd rfl hne
    · exact ⟨_, _, rfl, List.mem_cons_self⟩
    · exact ⟨_, _, rfl, List.mem_cons_self⟩
    · exact absurd rfl hne

theorem line_singleHomed {lid : Nat} (h : 10 < lid) (x : Node) :
    (lineSubnet lid h).SingleHomed x := by
  intro S hS _ l hl
  have hl := ((lineSubnet lid h).mem_hostsAt hS).mp hl
  rcases lineSwitch_mem hS with rfl | rfl
  · change l ∈ hostLinks (lineState lid 0).topop (lineSwitch 0) at hl
    rw [line_hostLinks (by decide), List.mem_singleton] at hl
    subst hl
    refine ⟨Nat.le_refl 1, fun p hp => ?_⟩
    rw [lineHost_lids, List.mem_singleton] at hp
    subst hp
    exact ⟨rfl, rfl⟩
  · change l ∈ hostLinks (lineState lid 0).topop (lineSwitch 1) at hl
    rw [line_hostLinks (by decide), List.mem_singleton] at hl
    subst hl
    refine ⟨Nat.le_refl 1, fun p hp => ?_⟩
    rw [lineHost_lids, List.mem_singleton] at hp
    subst hp
    exact ⟨rfl, rfl⟩

theorem line_calculateLft (lid : Nat) : ((lineState lid 0).calculateLft {} (lineSwitch 0)).map
    (fun st => st.lft) = some (Function.update (Function.update (Function.update (Function.update
      (fun _ => none) 10 (some 2)) 1 (some 0)) (lid % 256) (some 1)) 2 (some 1)) := rfl

theorem line_switches {lid : Nat} (k : Nat) (hk : k < 2) :
    lineSwitch k ∈ (lineState lid 0).topop.switches := by
  show lineSwitch k ∈ [lineSwitch 0, lineSwitch 1]
  have : k = 0 ∨ k = 1 := by omega
  rcases this with rfl | rfl <;> simp

/-- LID 300 is put aside as 44, and LID 300 has no entry. -/
theorem calculateLft_loses_lid :
    ¬∃ st, (lineSubnet 300 (by decide)).calculateLft {} (lineSwitch 0) = some st ∧
      (lineSubnet 300 (by decide)).TableOk (lineSwitch 0) st.lft := by
  rintro ⟨st, hrun, hok⟩
  have hlft := line_calculateLft 300
  change (lineState 300 0).calculateLft {} (lineSwitch 0) = some st at hrun
  rw [hrun] at hlft
  have hat : (lineSubnet 300 (by decide)).LidAt (lineSwitch 1) 2 300 :=
    Or.inl ⟨lineHost 1 300 0, by show _ ∈ [_, _, _, _]; simp, rfl, linePort 1 1 2 300 0,
      by rw [lineHost_lids]; exact List.mem_singleton.mpr rfl, rfl, rfl,
      mem_portLids_linePort.mpr rfl⟩
  obtain ⟨port, hport, -⟩ := hok.routed (lineSwitch 1) (line_switches 1 (by decide))
    (Or.inr (Or.inl rfl)) 2 300 hat
  have hnone : st.lft 300 = none := by
    have heq : st.lft = _ := Option.some.inj hlft
    rw [heq]
    rfl
  rw [hport] at hnone
  cases hnone

theorem calculateLft_meets_line :
    ∃ st, (lineSubnet 12 (by decide)).calculateLft {} (lineSwitch 0) = some st ∧
      (lineSubnet 12 (by decide)).TableOk (lineSwitch 0) st.lft := by
  obtain ⟨st, hrun, hiff⟩ := (lineSubnet 12 (by decide)).calculateLft_meets_iff
    (line_singleHomed (by decide) _) (line_switches 0 (by decide)) {}
  refine ⟨st, hrun, hiff.mpr fun S hS hne _ l hl _ => ?_⟩
  rcases lineSwitch_mem hS with rfl | rfl
  · exact absurd rfl hne
  · have hone : (lineSubnet 12 (by decide)).lidsAt (lineSwitch 1) =
        [(linePort 2 3 1 0 0, lineHost 1 12 0, 12)] := rfl
    rw [hone, List.mem_singleton] at hl
    subst hl
    decide

end OpaFm.Dor
