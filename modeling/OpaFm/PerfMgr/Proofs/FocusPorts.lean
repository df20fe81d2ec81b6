import OpaFm.Lib.TopList
import OpaFm.PerfMgr.FocusPorts
import Mathlib.Data.Sym.Sym2

/-!
# The top of the list

What the pool and its links hold is a list, and what a port does to it is done to that list.  The
two ends of a link offer the same value, so that it does not matter which comes first, nor whether
the link has been bumped before the second comes.
-/

namespace OpaFm.PerfMgr

open OpaFm.Lib

/-! ## Links -/

namespace FocusImage

variable (img : FocusImage)

def Has (p : PortRef) : Prop :=
  ∃ lid, 1 ≤ lid ∧ lid ≤ img.maxLid ∧ img.lidMap lid = some p.node ∧ (img.port? p).isSome

def neighbor (p : PortRef) : Option PortRef :=
  if p.portNum = 0 then none else (img.port? p).bind FocusPort.neighbor

/-- Each node is in `LidMap` at its own LID only, and neighbors are symmetric. -/
structure WellFormed : Prop where
  ownLid : ∀ lid node, 1 ≤ lid → lid ≤ img.maxLid → img.lidMap lid = some node →
    (img.node node).lid.toNat = lid
  symmetric : ∀ p q, img.Has p → img.neighbor p = some q → img.Has q ∧ img.neighbor q = some p

def link (p : PortRef) : Sym2 PortRef := s(p, (img.neighbor p).getD p)

def InGroup (groupp : Nat) (p : PortRef) : Prop :=
  img.Has p ∧ ∃ port, img.port? p = some port ∧ img.pmIsPortInGroup port groupp = true

def groupLinks (groupp : Nat) : Finset (Sym2 PortRef) :=
  ((img.groupVisits groupp).map fun v => img.link v.portp).toFinset

variable (select : FocusSelect)

def portValue (p : PortRef) : Nat := ((img.port? p).map select.computeFunc).getD 0

def linkValue : Sym2 PortRef → Nat :=
  Sym2.lift ⟨fun p q => max (img.portValue select p) (img.portValue select q),
    fun _ _ => Nat.max_comm _ _⟩

end FocusImage

def FocusSelect.Better (select : FocusSelect) (v w : Nat) : Prop :=
  if select = .utilLow then v < w else w < v

structure FocusTop (img : FocusImage) (groupp : Nat) (select : FocusSelect) (range : Nat)
    (entries : List SortedValueEntry) : Prop where
  length_le : entries.length ≤ range
  sorted : entries.Pairwise fun a b => ¬select.Better b.sortValue a.sortValue
  entry : ∀ e ∈ entries, img.InGroup groupp e.portp ∧
    e.sortValue = img.linkValue select (img.link e.portp)
  distinct : (entries.map fun e => img.link e.portp).Nodup
  all : (img.groupLinks groupp).card ≤ range →
    ∀ k ∈ img.groupLinks groupp, k ∈ entries.map fun e => img.link e.portp
  best : ∀ k ∈ img.groupLinks groupp, (k ∉ entries.map fun e => img.link e.portp) →
    ∀ e ∈ entries, ¬select.Better (img.linkValue select k) e.sortValue

structure SortInfo.Holds (s : SortInfo) (l : List Nat) : Prop where
  list : s.list.Holds l
  length_eq : l.length = s.numValueEntries
  lt : ∀ i ∈ l, i < s.numValueEntries
  le : s.numValueEntries ≤ s.sortedValueListSize

/-! ## The list in the pool -/

namespace FocusSelect

variable (select : FocusSelect)

/-- The values in one order for all selections: the better one is the larger. -/
def rank (value : Nat) : Int := if select = .utilLow then -value else value

theorem compareFunc_eq (v w : Nat) :
    select.compareFunc v w = decide (select.rank v ≤ select.rank w) := by
  cases select <;> simp [compareFunc, compareGE, compareLE, rank]

theorem candidateFunc_eq (v w : Nat) :
    select.candidateFunc v w = decide (select.rank w ≤ select.rank v) := by
  cases select <;> simp [candidateFunc, compareGE, compareLE, rank]

theorem better_iff (v w : Nat) : select.Better v w ↔ select.rank w < select.rank v := by
  unfold Better rank
  split <;> omega

end FocusSelect

def SortedValueEntry.rank (select : FocusSelect) (e : SortedValueEntry) : Int :=
  select.rank e.sortValue

namespace SortInfo

variable {s : SortInfo} {l : List Nat} {select : FocusSelect} {e : SortedValueEntry} {i : Nat}

theorem Holds.length_le (h : s.Holds l) : l.length ≤ s.sortedValueListSize :=
  h.length_eq.trans_le h.le

theorem map_update (hi : i ∉ l) (pool : Nat → SortedValueEntry) :
    l.map (Function.update pool i e) = l.map pool := by
  apply List.map_congr_left
  intro j hj
  apply Function.update_of_ne
  rintro rfl
  exact hi hj

theorem insertSorted_spec (select : FocusSelect) (e : SortedValueEntry) (h : s.list.Holds l)
    (hne : l ≠ []) (hi : i ∉ l) (hlength : l.length ≤ s.sortedValueListSize) :
    ∃ s' l', s.insertSorted select i e = some s' ∧ s'.list.Holds l' ∧ l'.Perm (i :: l) ∧
      s'.sortedValueListSize = s.sortedValueListSize ∧ s'.poolEntries = s.poolEntries ∧
      s'.numValueEntries = s.numValueEntries ∧
      l'.map s'.pool = insertRanked (SortedValueEntry.rank select) e (l.map s.pool) := by
  have hbehind : (fun j => select.compareFunc e.sortValue
      (Function.update s.pool i e j).sortValue) = (fun e' : SortedValueEntry =>
        decide (e.rank select ≤ e'.rank select)) ∘ Function.update s.pool i e := by
    funext j
    exact select.compareFunc_eq _ _
  have hpass := h.linked.linked.passLinked_eq (fun j => select.compareFunc e.sortValue
    (Function.update s.pool i e j).sortValue) none (Nat.lt_succ_of_le hlength)
  rw [Option.or_none] at hpass
  refine ⟨⟨Function.update s.pool i e, s.poolEntries, _, s.sortedValueListSize,
      s.numValueEntries⟩, _, ?_,
    h.insertAfter_passed hne hi fun j => select.compareFunc e.sortValue
      (Function.update s.pool i e j).sortValue, ?_, rfl, rfl, rfl, ?_⟩
  · unfold insertSorted
    dsimp only
    rw [hpass]
    rfl
  · apply List.perm_middle.trans
    rw [List.takeWhile_append_dropWhile]
  · rw [← map_update (e := e) hi, insertRanked, List.takeWhile_map, List.dropWhile_map, ← hbehind,
      List.map_append, List.map_cons]
    dsimp only
    rw [Function.update_self]

theorem Holds.addFirst (h : s.Holds []) (hpos : 0 < s.sortedValueListSize)
    (hpool : 0 < s.poolEntries) :
    ∃ s' l', s.addEntry select e = some s' ∧ s'.Holds l' ∧
      s'.sortedValueListSize = s.sortedValueListSize ∧ s'.poolEntries = s.poolEntries ∧
      l'.map s'.pool = [e] := by
  have hhead : s.list.head = none := h.list.linked.head
  have hzero : s.numValueEntries = 0 := h.length_eq.symm
  refine ⟨⟨Function.update s.pool 0 e, s.poolEntries,
      ⟨⟨Function.update s.list.links.next 0 none, Function.update s.list.links.prev 0 none⟩,
        some 0, some 0⟩, s.sortedValueListSize, s.numValueEntries + 1⟩, [0], ?_,
    ⟨⟨⟨⟨rfl, ?_⟩, List.isChain_singleton 0, List.nodup_singleton 0⟩, ?_, rfl⟩, ?_, ?_, ?_⟩, rfl,
    rfl, ?_⟩
  · unfold addEntry
    rw [hhead]
    exact if_neg hpool.ne'
  · show Function.update s.list.links.next 0 none 0 = none
    rw [Function.update_self]
  · intro a ha
    cases ha
    show Function.update s.list.links.prev 0 none 0 = none
    rw [Function.update_self]
  · exact congrArg (· + 1) hzero.symm
  · intro j hj
    rw [List.mem_singleton.1 hj]
    exact Nat.succ_pos _
  · show s.numValueEntries + 1 ≤ s.sortedValueListSize
    omega
  · show [Function.update s.pool 0 e 0] = [e]
    rw [Function.update_self]

theorem Holds.addRoom (h : s.Holds l) (hne : l ≠ [])
    (hroom : s.numValueEntries < s.sortedValueListSize)
    (hpool : s.numValueEntries < s.poolEntries) :
    ∃ s' l', s.addEntry select e = some s' ∧ s'.Holds l' ∧
      s'.sortedValueListSize = s.sortedValueListSize ∧ s'.poolEntries = s.poolEntries ∧
      l'.map s'.pool = insertRanked (SortedValueEntry.rank select) e (l.map s.pool) := by
  obtain ⟨head, l, rfl⟩ := List.exists_cons_of_ne_nil hne
  have hhead : s.list.head = some head := h.list.linked.head
  have hnew : s.numValueEntries ∉ head :: l := fun hin => Nat.lt_irrefl _ (h.lt _ hin)
  obtain ⟨s', l', hs', hl', hperm, hsize, hentries, hnum, hmap⟩ := insertSorted_spec
    (s := { s with numValueEntries := s.numValueEntries + 1 }) select e h.list hne hnew h.length_le
  refine ⟨s', l', ?_, ⟨hl', ?_, ?_, ?_⟩, hsize, hentries, hmap⟩
  · unfold addEntry
    rw [hhead]
    dsimp only
    rw [if_pos hroom, if_pos hpool]
    exact hs'
  · rw [hperm.length_eq, List.length_cons, h.length_eq, hnum]
  · intro j hj
    rw [hnum]
    cases List.mem_cons.1 (hperm.mem_iff.1 hj) with
    | inl heq =>
      rw [heq]
      exact Nat.lt_succ_self _
    | inr hin => exact Nat.lt_succ_of_lt (h.lt j hin)
  · rw [hnum, hsize]
    exact hroom

theorem Holds.addBump {last : Nat} (h : s.Holds (l ++ [last]))
    (hfull : ¬s.numValueEntries < s.sortedValueListSize)
    (hbetter : (s.pool last).rank select ≤ e.rank select) :
    ∃ s' l', s.addEntry select e = some s' ∧ s'.Holds l' ∧
      s'.sortedValueListSize = s.sortedValueListSize ∧ s'.poolEntries = s.poolEntries ∧
      l'.map s'.pool = insertRanked (SortedValueEntry.rank select) e (l.map s.pool) := by
  have htail : s.list.tail = some last := by
    rw [h.list.last, List.getLast?_concat]
  have hcandidate : select.candidateFunc e.sortValue (s.pool last).sortValue = true := by
    rw [select.candidateFunc_eq]
    exact decide_eq_true hbetter
  have hlength := h.length_eq
  have hle := h.le
  rw [List.length_append, List.length_singleton] at hlength
  rcases List.eq_nil_or_concat l with rfl | ⟨front, before, rfl⟩
  · have hhead : s.list.head = some last := h.list.linked.head
    rw [List.length_nil] at hlength
    refine ⟨{ s with pool := Function.update s.pool last e }, [last], ?_,
      ⟨h.list, h.length_eq, h.lt, h.le⟩, rfl, rfl, ?_⟩
    · unfold addEntry
      rw [hhead]
      dsimp only
      rw [if_neg hfull, htail]
      dsimp only
      rw [if_pos hcandidate, if_pos (by omega)]
    · show [Function.update s.pool last e last] = [e]
      rw [Function.update_self]
  · rw [List.concat_eq_append] at *
    obtain ⟨head, rest, hcons⟩ := List.exists_cons_of_ne_nil
      (show front ++ [before] ++ [last] ≠ [] from List.append_ne_nil_of_right_ne_nil _ (by simp))
    have hhead : s.list.head = some head := by
      rw [h.list.linked.head, hcons]
      rfl
    rw [List.length_append, List.length_singleton] at hlength
    have hnodup := h.list.linked.nodup
    rw [List.nodup_append] at hnodup
    have hlast : last ∉ front ++ [before] := fun hin =>
      hnodup.2.2 last hin last (List.mem_singleton_self last) rfl
    have hshape : front ++ [before] ++ [last] = front ++ [before, last] := by simp
    obtain ⟨list, hdrop, hlist⟩ :=
      (hshape ▸ h.list : s.list.Holds (front ++ [before, last])).dropTail
    obtain ⟨s', l', hs', hl', hperm, hsize, hentries, hnum, hmap⟩ := insertSorted_spec
      (s := { s with list := list }) select e hlist (by simp) hlast (by
        rw [List.length_append, List.length_singleton]
        show front.length + 1 ≤ s.sortedValueListSize
        omega)
    refine ⟨s', l', ?_, ⟨hl', ?_, ?_, ?_⟩, hsize, hentries, hmap⟩
    · unfold addEntry
      rw [hhead]
      dsimp only
      rw [if_neg hfull, htail]
      dsimp only
      rw [if_pos hcandidate, if_neg (by omega), hdrop]
      exact hs'
    · rw [hperm.length_eq, List.length_cons, List.length_append, List.length_singleton, hnum]
      exact hlength
    · intro j hj
      rw [hnum]
      apply h.lt j
      rw [List.mem_append, List.mem_singleton]
      exact (List.mem_cons.1 (hperm.mem_iff.1 hj)).symm
    · rw [hnum, hsize]
      exact h.le

def HasRoom (s : SortInfo) : Prop :=
  s.numValueEntries < s.sortedValueListSize → s.numValueEntries < s.poolEntries

theorem Holds.addEntry_none (select : FocusSelect) (e : SortedValueEntry) (h : s.Holds l)
    (hpool : ¬s.HasRoom) : s.addEntry select e = none := by
  obtain ⟨hroom, hfull⟩ := Classical.not_imp.1 hpool
  unfold SortInfo.addEntry
  cases l with
  | nil =>
    have hhead : s.list.head = none := h.list.linked.head
    have hzero : s.numValueEntries = 0 := h.length_eq.symm
    rw [hhead]
    exact if_pos (by omega)
  | cons head l =>
    have hhead : s.list.head = some head := h.list.linked.head
    rw [hhead]
    dsimp only
    rw [if_pos hroom, if_neg hfull]

theorem Holds.addEntry (select : FocusSelect) (e : SortedValueEntry) (h : s.Holds l)
    (hpos : 0 < s.sortedValueListSize) (hpool : s.HasRoom) :
    ∃ s' l', s.addEntry select e = some s' ∧ s'.Holds l' ∧
      s'.sortedValueListSize = s.sortedValueListSize ∧ s'.poolEntries = s.poolEntries ∧
      l'.map s'.pool =
        keepBest (SortedValueEntry.rank select) s.sortedValueListSize e (l.map s.pool) := by
  have hlength := h.length_eq
  unfold keepBest
  rw [List.length_map, hlength]
  by_cases hroom : s.numValueEntries < s.sortedValueListSize
  · rw [if_pos hroom]
    cases l with
    | nil =>
      have hzero : s.numValueEntries = 0 := hlength.symm
      exact h.addFirst hpos (hzero ▸ hpool hroom)
    | cons head l => exact h.addRoom (List.cons_ne_nil head l) hroom (hpool hroom)
  · rw [if_neg hroom]
    rcases List.eq_nil_or_concat l with rfl | ⟨front, last, rfl⟩
    · rw [List.length_nil] at hlength
      omega
    · rw [List.concat_eq_append] at h ⊢
      rw [List.map_append, List.map_singleton, List.getLast?_concat, List.dropLast_concat]
      dsimp only
      split
      · rename_i hbetter
        exact h.addBump hroom hbetter
      · rename_i hworse
        refine ⟨s, front ++ [last], ?_, h, rfl, rfl, by simp⟩
        obtain ⟨head, rest, hcons⟩ := List.exists_cons_of_ne_nil
          (show front ++ [last] ≠ [] from List.append_ne_nil_of_right_ne_nil _ (by simp))
        have hhead : s.list.head = some head := by
          rw [h.list.linked.head, hcons]
          rfl
        have htail : s.list.tail = some last := by
          rw [h.list.last, List.getLast?_concat]
        have hcandidate : ¬select.candidateFunc e.sortValue (s.pool last).sortValue = true := by
          rw [select.candidateFunc_eq]
          exact fun hbetter => hworse (of_decide_eq_true hbetter)
        unfold SortInfo.addEntry
        rw [hhead]
        dsimp only
        rw [if_neg hroom, htail]
        dsimp only
        rw [if_neg hcandidate]

theorem Holds.neighborInList_iff (h : s.Holds l) (img : FocusImage) (lid portNum : Nat) :
    s.neighborInList img lid portNum = true ↔
      ∃ e ∈ l.map s.pool, e.leadsTo img lid portNum = true := by
  have hlength := h.length_le
  unfold neighborInList
  rw [h.list.linked.linked.walkLinked_eq, List.take_of_length_le (by omega), List.any_eq_true]
  simp only [List.mem_map, exists_exists_and_eq_and]

theorem holds_empty (range poolEntries : Nat) (pool : Nat → SortedValueEntry)
    (links : Links Nat) : (empty range poolEntries pool links).Holds [] :=
  ⟨⟨.nil, fun _ h => (nomatch h), rfl⟩, rfl, fun _ h => (nomatch h), Nat.zero_le _⟩

end SortInfo

/-! ## The ports of the image -/

namespace FocusImage

variable {img : FocusImage} {groupp : Nat} {v w : FocusVisit} {p q : PortRef} {lid node : Nat}

theorem mem_nodeVisits : v ∈ img.nodeVisits lid node ↔
    v.lid = lid ∧ v.portp.node = node ∧ img.port? v.portp = some v.port := by
  obtain ⟨l, ⟨m, k⟩, port⟩ := v
  unfold nodeVisits port? FocusNode.port?
  dsimp only
  constructor
  · intro h
    split at h
    · rename_i swPorts hle hports
      obtain ⟨⟨o, i⟩, hmem, hvisit⟩ := List.mem_filterMap.1 h
      obtain ⟨port', hport, heq⟩ := Option.map_eq_some_iff.1 hvisit
      rw [List.mk_mem_zipIdx_iff_getElem?] at hmem
      cases heq
      refine ⟨rfl, rfl, ?_⟩
      rw [hports]
      show swPorts[i]?.join = some port
      rw [hmem, show o = some port from hport]
      rfl
    · rename_i portNum port' hports
      cases List.mem_singleton.1 h
      refine ⟨rfl, rfl, ?_⟩
      rw [hports]
      exact if_pos rfl
  · rintro ⟨rfl, rfl, hport⟩
    split
    · rename_i swPorts hle hports
      rw [hports] at hport
      have hmem : swPorts[k]? = some (some port) := Option.join_eq_some_iff.1 hport
      exact List.mem_filterMap.2
        ⟨(some port, k), List.mk_mem_zipIdx_iff_getElem?.2 hmem, rfl⟩
    · rename_i portNum port' hports
      rw [hports] at hport
      dsimp only at hport
      split at hport
      · rename_i heq
        cases hport
        rw [heq]
        exact List.mem_singleton_self _
      · cases hport

theorem mem_lidVisits : v ∈ img.lidVisits lid ↔
    v.lid = lid ∧ img.lidMap lid = some v.portp.node ∧ img.port? v.portp = some v.port := by
  unfold lidVisits
  cases hlid : img.lidMap lid with
  | none => simp
  | some node =>
    rw [Option.map_some, Option.getD_some, mem_nodeVisits, Option.some.injEq]
    exact and_congr_right fun _ => and_congr_left' eq_comm

structure Visits (img : FocusImage) (groupp : Nat) (v : FocusVisit) : Prop where
  pos : 1 ≤ v.lid
  le : v.lid ≤ img.maxLid
  lidMap : img.lidMap v.lid = some v.portp.node
  port : img.port? v.portp = some v.port
  inGroup : img.pmIsPortInGroup v.port groupp = true

theorem mem_groupVisits : v ∈ img.groupVisits groupp ↔ img.Visits groupp v := by
  unfold groupVisits
  rw [List.mem_filter, List.mem_flatMap]
  constructor
  · rintro ⟨⟨lid, hlid, hv⟩, hgroup⟩
    obtain ⟨rfl, hmap, hport⟩ := mem_lidVisits.1 hv
    rw [List.mem_range'_1] at hlid
    exact ⟨hlid.1, by omega, hmap, hport, hgroup⟩
  · intro h
    have hpos := h.pos
    have hle := h.le
    refine ⟨⟨v.lid, ?_, mem_lidVisits.2 ⟨rfl, h.lidMap, h.port⟩⟩, h.inGroup⟩
    rw [List.mem_range'_1]
    omega

theorem Visits.has (h : img.Visits groupp v) : img.Has v.portp :=
  ⟨v.lid, h.pos, h.le, h.lidMap, by rw [h.port]; rfl⟩

theorem inGroup_iff : img.InGroup groupp p ↔ ∃ v, img.Visits groupp v ∧ v.portp = p := by
  constructor
  · rintro ⟨⟨lid, hpos, hle, hmap, _⟩, port, hport, hgroup⟩
    exact ⟨⟨lid, p, port⟩, ⟨hpos, hle, hmap, hport, hgroup⟩, rfl⟩
  · rintro ⟨v, h, rfl⟩
    exact ⟨h.has, v.port, h.port, h.inGroup⟩

theorem nodup_nodeVisits : ((img.nodeVisits lid node).map FocusVisit.portp).Nodup := by
  unfold nodeVisits
  split
  · rename_i swPorts hle hports
    have hindices : (swPorts.zipIdx).Pairwise fun x y => x.2 ≠ y.2 := by
      have hnodup : (swPorts.zipIdx.map Prod.snd).Nodup := by
        rw [List.zipIdx_map_snd]
        exact List.nodup_range'
      exact List.pairwise_map.1 hnodup
    rw [List.Nodup, List.pairwise_map, List.pairwise_filterMap]
    apply hindices.imp
    intro x y hne v hv w hw heq
    obtain ⟨_, _, rfl⟩ := Option.map_eq_some_iff.1 hv
    obtain ⟨_, _, rfl⟩ := Option.map_eq_some_iff.1 hw
    exact hne (congrArg PortRef.portNum heq)
  · exact List.nodup_singleton _

theorem WellFormed.nodup_visits (h : img.WellFormed) (groupp : Nat) :
    ((img.groupVisits groupp).map FocusVisit.portp).Nodup := by
  have hall : (((List.range' 1 img.maxLid).flatMap img.lidVisits).map FocusVisit.portp).Nodup := by
    rw [List.map_flatMap, List.nodup_flatMap]
    constructor
    · intro lid _
      unfold lidVisits
      cases img.lidMap lid with
      | none => exact List.nodup_nil
      | some node => exact nodup_nodeVisits
    · apply (List.nodup_range' (s := 1) (n := img.maxLid)).imp_of_mem
      intro x y hx hy hne
      refine List.disjoint_left.2 ?_
      intro p hpx hpy
      obtain ⟨v, hv, rfl⟩ := List.mem_map.1 hpx
      obtain ⟨w, hw, heq⟩ := List.mem_map.1 hpy
      obtain ⟨_, hmapx, _⟩ := mem_lidVisits.1 hv
      obtain ⟨_, hmapy, _⟩ := mem_lidVisits.1 hw
      rw [List.mem_range'_1] at hx hy
      rw [heq] at hmapy
      exact hne ((h.ownLid x _ hx.1 (by omega) hmapx).symm.trans
        (h.ownLid y _ hy.1 (by omega) hmapy))
  exact hall.sublist (List.filter_sublist.map _)

def entryOf (img : FocusImage) (select : FocusSelect) (v : FocusVisit) : SortedValueEntry :=
  v.entry select (v.nbrPt.bind img.port?)

variable {select : FocusSelect} {k : Sym2 PortRef}

theorem Visits.neighbor (h : img.Visits groupp v) : img.neighbor v.portp = v.nbrPt := by
  unfold FocusImage.neighbor FocusVisit.nbrPt
  rw [h.port]
  rfl

theorem Visits.link (h : img.Visits groupp v) :
    img.link v.portp = s(v.portp, v.nbrPt.getD v.portp) := by
  unfold FocusImage.link
  rw [h.neighbor]

theorem WellFormed.neighbor_port (hwf : img.WellFormed) (h : img.Visits groupp v)
    (hq : v.nbrPt = some q) : ∃ nbr, img.port? q = some nbr := by
  obtain ⟨⟨_, _, _, _, hport⟩, _⟩ := hwf.symmetric v.portp q h.has (h.neighbor.trans hq)
  exact Option.isSome_iff_exists.1 hport

theorem linkValue_mk (p q : PortRef) :
    img.linkValue select s(p, q) = max (img.portValue select p) (img.portValue select q) := rfl

theorem WellFormed.sortValue_entryOf (hwf : img.WellFormed) (h : img.Visits groupp v) :
    (img.entryOf select v).sortValue = img.linkValue select (img.link v.portp) := by
  have hself : img.portValue select v.portp = select.computeFunc v.port := by
    unfold portValue
    rw [h.port]
    rfl
  rw [h.link, linkValue_mk, hself]
  unfold entryOf FocusVisit.entry
  dsimp only
  cases hq : v.nbrPt with
  | none =>
    rw [Option.getD_none, hself, Nat.max_self]
    exact Nat.max_zero _
  | some q =>
    obtain ⟨nbr, hnbr⟩ := hwf.neighbor_port h hq
    rw [Option.getD_some, Option.bind_some, hnbr]
    unfold portValue
    rw [hnbr]

theorem WellFormed.leadsTo_iff (hwf : img.WellFormed) (hw : img.Visits groupp w)
    (hv : img.Visits groupp v) :
    (img.entryOf select w).leadsTo img v.lid v.portp.portNum = true ↔
      w.nbrPt = some v.portp := by
  have hneighbor : (img.entryOf select w).neighborPortp = w.nbrPt := rfl
  unfold SortedValueEntry.leadsTo
  rw [hneighbor]
  cases hq : w.nbrPt with
  | none => simp
  | some q =>
    rw [Option.map_some, Option.getD_some, Bool.and_eq_true, beq_iff_eq, beq_iff_eq,
      Option.some.injEq]
    constructor
    · rintro ⟨hlid, hnum⟩
      obtain ⟨⟨lid, hpos, hle, hmap, _⟩, _⟩ :=
        hwf.symmetric w.portp q hw.has (hw.neighbor.trans hq)
      rw [hwf.ownLid lid _ hpos hle hmap] at hlid
      rw [← hlid, hv.lidMap, Option.some.injEq] at hmap
      obtain ⟨node, num⟩ := q
      obtain ⟨_, ⟨node', num'⟩, _⟩ := v
      exact congrArg₂ PortRef.mk hmap.symm hnum.symm
    · rintro rfl
      exact ⟨(hwf.ownLid v.lid _ hv.pos hv.le hv.lidMap).symm, rfl⟩

theorem WellFormed.link_eq_iff (hwf : img.WellFormed) (hw : img.Visits groupp w)
    (hv : img.Visits groupp v) (hne : w.portp ≠ v.portp) :
    img.link w.portp = img.link v.portp ↔ w.nbrPt = some v.portp := by
  rw [hw.link, hv.link, Sym2.eq_iff]
  constructor
  · rintro (⟨heq, _⟩ | ⟨_, hback⟩)
    · exact absurd heq hne
    · cases hq : w.nbrPt with
      | none =>
        rw [hq] at hback
        exact absurd hback hne
      | some q =>
        rw [hq] at hback
        exact congrArg some hback
  · intro hq
    have hsymm := (hwf.symmetric w.portp v.portp hw.has (hw.neighbor.trans hq)).2
    rw [hv.neighbor] at hsymm
    rw [hq, hsymm]
    exact .inr ⟨rfl, rfl⟩

/-! ## The loop -/

structure Offered (img : FocusImage) (select : FocusSelect) (range : Nat) (done : List FocusVisit)
    (entries : List SortedValueEntry) : Prop where
  ofPort : ∀ e ∈ entries, ∃ w ∈ done, e = img.entryOf select w
  keeps : Keeps (SortedValueEntry.rank select) (fun e => img.link e.portp)
    (fun k => select.rank (img.linkValue select k)) range
    (done.map fun w => img.link w.portp).toFinset entries

variable {range : Nat} {done : List FocusVisit} {entries : List SortedValueEntry} {s : SortInfo}
  {l : List Nat}

theorem offered_nil (img : FocusImage) (select : FocusSelect) (range : Nat) :
    img.Offered select range [] [] := ⟨fun _ h => (nomatch h), Keeps.nil _ _ _ _⟩

theorem toFinset_concat (done : List FocusVisit) (v : FocusVisit) :
    ((done ++ [v]).map fun w => img.link w.portp).toFinset =
      insert (img.link v.portp) (done.map fun w => img.link w.portp).toFinset := by
  ext k
  simp only [List.map_append, List.map_cons, List.map_nil, List.toFinset_append,
    List.toFinset_cons, List.toFinset_nil, Finset.mem_union, Finset.mem_insert, or_comm,
    Finset.notMem_empty, false_or]

theorem Offered.seen (h : img.Offered select range done entries)
    (hlisted : img.link v.portp ∈ entries.map fun e => img.link e.portp) :
    img.Offered select range (done ++ [v]) entries where
  ofPort := by
    intro e he
    obtain ⟨w, hw, heq⟩ := h.ofPort e he
    exact ⟨w, List.mem_append_left _ hw, heq⟩
  keeps := by
    rw [toFinset_concat]
    exact h.keeps.seen hlisted

theorem Offered.new (hwf : img.WellFormed) (h : img.Offered select range done entries)
    (hv : img.Visits groupp v) (hrange : 0 < range)
    (hnew : img.link v.portp ∉ entries.map fun e => img.link e.portp) :
    img.Offered select range (done ++ [v])
      (keepBest (SortedValueEntry.rank select) range (img.entryOf select v) entries) where
  ofPort := by
    intro e he
    cases mem_keepBest he with
    | inl heq => exact ⟨v, List.mem_append_right _ (List.mem_singleton_self v), heq⟩
    | inr hmem =>
      obtain ⟨w, hw, heq⟩ := h.ofPort e hmem
      exact ⟨w, List.mem_append_left _ hw, heq⟩
  keeps := by
    rw [toFinset_concat]
    exact h.keeps.keepBest hrange hnew (congrArg select.rank (hwf.sortValue_entryOf hv))

def needed (img : FocusImage) (range : Nat) (done : List FocusVisit) : Nat :=
  min range (done.map fun w => img.link w.portp).toFinset.card

theorem needed_le_append (img : FocusImage) (range : Nat) (done todo : List FocusVisit) :
    img.needed range done ≤ img.needed range (done ++ todo) := by
  apply min_le_min_left
  apply Finset.card_le_card
  rw [List.map_append, List.toFinset_append]
  exact Finset.subset_union_left

theorem Offered.needed_eq (h : img.Offered select range done entries) :
    img.needed range done = entries.length := by
  have hlength := h.keeps.length_le
  have hsub : (entries.map fun e => img.link e.portp).toFinset ⊆
      (done.map fun w => img.link w.portp).toFinset := by
    intro k hk
    obtain ⟨e, he, rfl⟩ := List.mem_map.1 (List.mem_toFinset.1 hk)
    exact h.keeps.mem e he
  have hcard := Finset.card_le_card hsub
  rw [List.toFinset_card_of_nodup h.keeps.distinct, List.length_map] at hcard
  unfold needed
  by_cases hfull : entries.length = range
  · rw [hfull] at hcard ⊢
    exact Nat.min_eq_left hcard
  · -- nothing has been left out
    have hall : (done.map fun w => img.link w.portp).toFinset ⊆
        (entries.map fun e => img.link e.portp).toFinset := by
      intro k hk
      by_contra hnot
      exact hfull (h.keeps.best k hk fun hin => hnot (List.mem_toFinset.2 hin)).1
    have hback := Finset.card_le_card hall
    rw [List.toFinset_card_of_nodup h.keeps.distinct, List.length_map] at hback
    omega

theorem Offered.needed_new (h : img.Offered select range done entries)
    (hnew : img.link v.portp ∉ entries.map fun e => img.link e.portp) :
    img.needed range (done ++ [v]) = min range (entries.length + 1) := by
  have hneeded := h.needed_eq
  have hlength := h.keeps.length_le
  unfold needed at hneeded ⊢
  rw [toFinset_concat]
  by_cases hin : img.link v.portp ∈ (done.map fun w => img.link w.portp).toFinset
  · have hfull := (h.keeps.best _ hin hnew).1
    rw [Finset.insert_eq_of_mem hin]
    omega
  · rw [Finset.card_insert_of_notMem hin]
    omega

structure Sorted (img : FocusImage) (select : FocusSelect) (range poolEntries : Nat)
    (done : List FocusVisit) (s : SortInfo) (l : List Nat) : Prop where
  holds : s.Holds l
  size : s.sortedValueListSize = range
  entries : s.poolEntries = poolEntries
  offered : img.Offered select range done (l.map s.pool)

variable {poolEntries : Nat}

theorem Sorted.numValueEntries_eq (h : img.Sorted select range poolEntries done s l) :
    s.numValueEntries = img.needed range done := by
  rw [h.offered.needed_eq, List.length_map, h.holds.length_eq]

theorem Sorted.step (hwf : img.WellFormed) (h : img.Sorted select range poolEntries done s l)
    (hrange : 0 < range) (hpool : img.needed range done ≤ poolEntries)
    (hdone : ∀ w ∈ done, img.Visits groupp w ∧ w.portp ≠ v.portp) (hv : img.Visits groupp v) :
    (img.needed range (done ++ [v]) ≤ poolEntries → ∃ s' l',
      processFocusPort img select s v = some s' ∧
        img.Sorted select range poolEntries (done ++ [v]) s' l') ∧
    (¬img.needed range (done ++ [v]) ≤ poolEntries → processFocusPort img select s v = none) := by
  have hoffered := h.offered
  -- the entry that goes into the list, when the link is not there
  have hadd : (img.link v.portp ∉ (l.map s.pool).map fun e => img.link e.portp) →
      processFocusPort img select s v = s.addEntry select (img.entryOf select v) →
      (img.needed range (done ++ [v]) ≤ poolEntries → ∃ s' l',
        processFocusPort img select s v = some s' ∧
          img.Sorted select range poolEntries (done ++ [v]) s' l') ∧
      (¬img.needed range (done ++ [v]) ≤ poolEntries →
        processFocusPort img select s v = none) := by
    intro hnew hprocess
    have hneeded := hoffered.needed_new hnew
    rw [List.length_map, h.holds.length_eq] at hneeded
    have hnum := h.numValueEntries_eq
    have hroom : s.HasRoom ↔ img.needed range (done ++ [v]) ≤ poolEntries := by
      unfold SortInfo.HasRoom
      rw [h.size, h.entries]
      omega
    constructor
    · intro hle
      obtain ⟨s', l', hs', hholds, hsize', hentries, hmap⟩ :=
        h.holds.addEntry select (img.entryOf select v) (h.size ▸ hrange) (hroom.2 hle)
      refine ⟨s', l', hprocess.trans hs', hholds, hsize'.trans h.size,
        hentries.trans h.entries, ?_⟩
      rw [hmap, h.size]
      exact hoffered.new hwf hv hrange hnew
    · intro hnot
      exact hprocess.trans (h.holds.addEntry_none select _ fun hin => hnot (hroom.1 hin))
  have hlisted : (img.link v.portp ∈ (l.map s.pool).map fun e => img.link e.portp) ↔
      ∃ e ∈ l.map s.pool, e.leadsTo img v.lid v.portp.portNum = true := by
    rw [List.mem_map]
    apply exists_congr
    intro e
    apply and_congr_right
    intro he
    obtain ⟨w, hw, rfl⟩ := hoffered.ofPort e he
    obtain ⟨hvisits, hne⟩ := hdone w hw
    rw [hwf.leadsTo_iff hvisits hv]
    exact hwf.link_eq_iff hvisits hv hne
  cases hq : v.nbrPt with
  | none =>
    apply hadd
    · intro hin
      obtain ⟨e, he, heq⟩ := List.mem_map.1 hin
      obtain ⟨w, hw, rfl⟩ := hoffered.ofPort e he
      obtain ⟨hvisits, hne⟩ := hdone w hw
      have hself : img.link w.portp = img.link v.portp := heq
      rw [hvisits.link, hv.link, hq, Option.getD_none, Sym2.eq_iff] at hself
      exact hne (hself.elim And.left And.left)
    · unfold processFocusPort entryOf
      rw [hq]
      rfl
  | some q =>
    obtain ⟨nbr, hnbr⟩ := hwf.neighbor_port hv hq
    have hprocess : processFocusPort img select s v =
        if s.neighborInList img v.lid v.portp.portNum then some s
        else s.addEntry select (img.entryOf select v) := by
      unfold processFocusPort entryOf
      rw [hq]
      dsimp only
      rw [hnbr, Option.bind_some, hnbr]
    by_cases hin : s.neighborInList img v.lid v.portp.portNum = true
    · have hseen := hoffered.seen (hlisted.2 ((h.holds.neighborInList_iff img _ _).1 hin))
      have hsame : img.needed range (done ++ [v]) = img.needed range done := by
        rw [hseen.needed_eq, hoffered.needed_eq]
      refine ⟨fun _ => ⟨s, l, hprocess.trans (if_pos hin), h.holds, h.size, h.entries, hseen⟩,
        fun hnot => absurd (hsame.trans_le hpool) hnot⟩
    · apply hadd
      · exact fun hmem => hin ((h.holds.neighborInList_iff img _ _).2 (hlisted.1 hmem))
      · exact hprocess.trans (if_neg hin)

theorem Sorted.run (h : img.Sorted select range poolEntries done s l) (hwf : img.WellFormed)
    (hrange : 0 < range) (hpool : img.needed range done ≤ poolEntries) (todo : List FocusVisit)
    (hvisits : ∀ w ∈ done ++ todo, img.Visits groupp w)
    (hnodup : ((done ++ todo).map FocusVisit.portp).Nodup) :
    (img.needed range (done ++ todo) ≤ poolEntries → ∃ s' l',
      todo.foldlM (processFocusPort img select) s = some s' ∧
        img.Sorted select range poolEntries (done ++ todo) s' l') ∧
    (¬img.needed range (done ++ todo) ≤ poolEntries →
      todo.foldlM (processFocusPort img select) s = none) := by
  induction todo generalizing done s l with
  | nil =>
    rw [List.append_nil]
    exact ⟨fun _ => ⟨s, l, rfl, h⟩, fun hnot => absurd hpool hnot⟩
  | cons v todo ih =>
    have hdone : ∀ w ∈ done, img.Visits groupp w ∧ w.portp ≠ v.portp := by
      intro w hw
      refine ⟨hvisits w (List.mem_append_left _ hw), ?_⟩
      rw [List.map_append, List.nodup_append] at hnodup
      exact hnodup.2.2 _ (List.mem_map_of_mem hw) _ (List.mem_map_of_mem List.mem_cons_self)
    obtain ⟨hgoes, hstops⟩ := h.step hwf hrange hpool hdone
      (hvisits v (List.mem_append_right _ List.mem_cons_self))
    rw [List.append_cons] at hvisits hnodup ⊢
    rw [List.foldlM_cons]
    by_cases hnext : img.needed range (done ++ [v]) ≤ poolEntries
    · obtain ⟨s', l', hstep, h'⟩ := hgoes hnext
      rw [hstep]
      exact ih h' hnext hvisits hnodup
    · rw [hstops hnext]
      refine ⟨fun hall => absurd ((img.needed_le_append range _ todo).trans hall) hnext, fun _ => rfl⟩

/-! ## The memory -/

theorem length_nodeVisits (lid node : Nat) : (img.nodeVisits lid node).length ≤ 255 := by
  unfold nodeVisits
  split
  next swPorts hle _ =>
    calc
      _ ≤ swPorts.zipIdx.length := List.length_filterMap_le _ _
      _ = swPorts.length := List.length_zipIdx
      _ ≤ 255 := hle
  next => exact Nat.succ_le_succ (Nat.zero_le _)

theorem WellFormed.length_groupVisits (h : img.WellFormed) (groupp : Nat) :
    (img.groupVisits groupp).length ≤ 255 * 65535 := by
  have hlids : ∀ n ≤ img.maxLid,
      ((List.range' 1 n).flatMap img.lidVisits).length ≤ 255 * min n 65535 := by
    intro n
    induction n with
    | zero => exact fun _ => Nat.le_refl 0
    | succ n ih =>
      intro hn
      have hbefore := ih (by omega)
      rw [List.range'_concat, List.flatMap_append, List.length_append, List.flatMap_singleton,
        Nat.one_mul]
      unfold lidVisits at hbefore ⊢
      cases hmap : img.lidMap (1 + n) with
      | none =>
        rw [Option.map_none, Option.getD_none, List.length_nil]
        omega
      | some node =>
        have hlid := h.ownLid (1 + n) node (by omega) (by omega) hmap
        have hlt := (img.node node).lid.isLt
        have hports : (img.nodeVisits (1 + n) node).length ≤ 255 := length_nodeVisits _ _
        rw [Option.map_some, Option.getD_some]
        omega
  calc
    _ ≤ ((List.range' 1 img.maxLid).flatMap img.lidVisits).length := List.length_filter_le _ _
    _ ≤ 255 * min img.maxLid 65535 := hlids _ (Nat.le_refl _)
    _ ≤ 255 * 65535 := Nat.mul_le_mul_left _ (Nat.min_le_right _ _)

theorem Offered.top (hwf : img.WellFormed)
    (h : img.Offered select range (img.groupVisits groupp) entries) :
    FocusTop img groupp select range entries where
  length_le := h.keeps.length_le
  sorted := h.keeps.sorted.imp fun hle hbetter =>
    absurd ((select.better_iff _ _).1 hbetter) (not_lt.2 hle)
  entry := by
    intro e he
    obtain ⟨w, hw, rfl⟩ := h.ofPort e he
    have hvisits := mem_groupVisits.1 hw
    exact ⟨inGroup_iff.2 ⟨w, hvisits, rfl⟩, hwf.sortValue_entryOf hvisits⟩
  distinct := h.keeps.distinct
  all := fun hcard _ hk => h.keeps.mem_of_card_le hcard hk
  best := by
    intro k hk hnot e he hbetter
    have hle := (h.keeps.best k hk hnot).2 e he
    exact absurd ((select.better_iff _ _).1 hbetter) (not_lt.2 hle)

end FocusImage

/-- The list that is built with the memory: after each port the pool holds one list, and at the end
it is the top of the links of the group.  It is the answer, unless the memory for that runs out. -/
def FocusBuilt (img : FocusImage) (groupp : Nat) (select : FocusSelect) (code range : BitVec 32)
    (memory : FocusMemory) : Prop :=
  ∀ start, SortInfo.alloc range.toNat memory.sortedValueListPool = some start →
    (∀ n, ∃ s l, ((img.groupVisits groupp).take n).foldlM (processFocusPort img select) start =
      some s ∧ s.Holds l) ∧
    ∃ s l, img.sortFocusPorts groupp select start = some s ∧ s.Holds l ∧
      FocusTop img groupp select range.toNat (l.map s.pool) ∧
      (paGetFocusPorts img groupp code 0#32 range memory =
          some (.ok ((l.map s.pool).map fun e => e.focusPort img)) ∨
        ((memory.portList = false ∨
            Cs.Pool.vsPoolAlloc (l.length * PmFocusPortEntry.size) = none) ∧
          paGetFocusPorts img groupp code 0#32 range memory =
            some (.error .insufficientMemory)))

/-- The 32 bits that are left of the size of the pool are all of it, or too many for the pool, or
enough for the links of the group. -/
def FocusFits (img : FocusImage) (groupp range : Nat) : Prop :=
  range < 2 ^ 25 ∨ 2 ^ 25 ≤ range % 2 ^ 26 ∨ (img.groupLinks groupp).card ≤ range % 2 ^ 26

theorem alloc_entries {range : Nat} (hpos : 0 < range) (hlt : range < 2 ^ 32)
    (memory : Option ((Nat → SortedValueEntry) × Links Nat)) :
    SortInfo.alloc range memory =
      if 2 ^ 25 ≤ range % 2 ^ 26 then none
      else memory.map fun m => .empty range (range % 2 ^ 26) m.1 m.2 := by
  have hcut : range * 64 % 2 ^ 32 = 64 * (range % 2 ^ 26) := by omega
  unfold SortInfo.alloc SortInfo.entrySize
  rw [Cs.Pool.vsPoolAlloc, if_neg (by omega), hcut]
  split
  next hlarge =>
    rw [Cs.Pool.vsImplpoolAlloc_eq_none (by omega) (by omega)]
    rfl
  next hsmall =>
    rw [Cs.Pool.vsImplpoolAlloc_of_lt (by omega), Option.bind_some,
      Nat.mul_div_cancel_left _ (by decide)]

theorem needed_groupVisits (img : FocusImage) (groupp range : Nat) :
    img.needed range (img.groupVisits groupp) = min range (img.groupLinks groupp).card := rfl

theorem SortInfo.Holds.addSortedPorts {s : SortInfo} {l : List Nat} (h : s.Holds l)
    (img : FocusImage) (memory : Bool) (hlength : l.length ≤ 255 * 65535) :
    s.addSortedPorts img memory = some (.ok ((l.map s.pool).map fun e => e.focusPort img)) ∨
      ((memory = false ∨ Cs.Pool.vsPoolAlloc (l.length * PmFocusPortEntry.size) = none) ∧
        s.addSortedPorts img memory = some (.error .insufficientMemory)) := by
  have hwalk : ((walkLinked s.list.links.next s.numValueEntries s.list.head).map fun i =>
      (s.pool i).focusPort img) = (l.map s.pool).map fun e => e.focusPort img := by
    rw [h.list.linked.linked.walkLinked_eq, ← h.length_eq, List.take_length, List.map_map]
    rfl
  unfold SortInfo.addSortedPorts
  rw [hwalk, ← h.length_eq]
  cases l with
  | nil =>
    have hhead : s.list.head = none := h.list.linked.head
    rw [hhead]
    exact .inl rfl
  | cons head l =>
    have hhead : s.list.head = some head := h.list.linked.head
    have hsize : (head :: l).length * PmFocusPortEntry.size < 2 ^ 32 - 48 := by
      unfold PmFocusPortEntry.size
      omega
    rw [hhead]
    simp only [Option.isNone_some, Bool.false_eq_true, if_false]
    cases hbytes : Cs.Pool.vsPoolAlloc ((head :: l).length * PmFocusPortEntry.size) with
    | none => exact .inr ⟨.inr rfl, rfl⟩
    | some bytes =>
      cases memory with
      | false => exact .inr ⟨.inl rfl, rfl⟩
      | true =>
        left
        have hall : (head :: l).length * PmFocusPortEntry.size ≤ bytes := by
          rcases Cs.Pool.vsPoolAlloc_cases (by omega) hbytes with ⟨heq, -⟩ | ⟨-, hwrap⟩ <;> omega
        exact if_pos hall

/-- Focus ports are the top of the links of the group, whatever the memory, if and only if the
pool that is asked for has the entries. -/
theorem paGetFocusPorts_top_iff {img : FocusImage} (hwf : img.WellFormed) (groupp : Nat)
    {code range : BitVec 32} {select : FocusSelect}
    (hselect : FocusSelect.ofCode code = some select) (hrange : range ≠ 0#32) :
    (∀ memory, FocusBuilt img groupp select code range memory) ↔
      FocusFits img groupp range.toNat := by
  have hpos : 0 < range.toNat := by
    rw [Nat.pos_iff_ne_zero]
    exact fun hzero => hrange (BitVec.eq_of_toNat_eq hzero)
  have hlt := range.isLt
  have hvisits : ∀ w ∈ img.groupVisits groupp, img.Visits groupp w := fun w hw =>
    FocusImage.mem_groupVisits.1 hw
  have hnodup := hwf.nodup_visits groupp
  have hstart : ∀ poolEntries pool links, img.Sorted select range.toNat poolEntries []
      (.empty range.toNat poolEntries pool links) [] := fun poolEntries pool links =>
    ⟨SortInfo.holds_empty range.toNat poolEntries pool links, rfl, rfl, img.offered_nil select _⟩
  have hneeded := needed_groupVisits img groupp range.toNat
  have hnothing : ∀ n, img.needed range.toNat [] ≤ n := fun n =>
    (Nat.min_le_right _ _).trans (Nat.zero_le n)
  constructor
  · intro hbuilt
    by_contra hnot
    rw [FocusFits, not_or, not_or] at hnot
    obtain ⟨hlarge, hsmall, hcard⟩ := hnot
    -- any memory will do
    obtain ⟨pool, links⟩ : (Nat → SortedValueEntry) × Links Nat :=
      (fun _ => ⟨0, 0, .ok, .ok, 0, 0, 0, ⟨0, 0⟩, none⟩, ⟨fun _ => none, fun _ => none⟩)
    obtain ⟨-, s, l, hrun, -⟩ := hbuilt ⟨some (pool, links), true⟩ _
      ((alloc_entries hpos hlt _).trans (if_neg hsmall))
    have hnone := ((hstart (range.toNat % 2 ^ 26) pool links).run hwf hpos (hnothing _)
      (img.groupVisits groupp) hvisits hnodup).2 (by
        rw [List.nil_append, hneeded]
        omega)
    rw [FocusImage.sortFocusPorts] at hrun
    exact Option.some_ne_none s (hrun.symm.trans hnone)
  · rintro hfits ⟨memory, portList⟩ start halloc
    have halloc' := halloc
    rw [alloc_entries hpos hlt] at halloc
    split at halloc
    next => cases halloc
    next hsmall =>
      obtain ⟨⟨pool, links⟩, rfl, rfl⟩ := Option.map_eq_some_iff.1 halloc
      have hroom : img.needed range.toNat (img.groupVisits groupp) ≤ range.toNat % 2 ^ 26 := by
        unfold FocusFits at hfits
        omega
      constructor
      · intro n
        obtain ⟨s, l, hrun, hsorted⟩ := ((hstart (range.toNat % 2 ^ 26) pool links).run hwf hpos
          (hnothing _) ((img.groupVisits groupp).take n)
          (fun w hw => hvisits w (List.mem_of_mem_take hw))
          (hnodup.sublist ((List.take_sublist n _).map _))).1 (by
            refine le_trans ?_ hroom
            rw [List.nil_append]
            nth_rewrite 2 [← List.take_append_drop n (img.groupVisits groupp)]
            exact img.needed_le_append _ _ _)
        exact ⟨s, l, hrun, hsorted.holds⟩
      · obtain ⟨s, l, hrun, hsorted⟩ := ((hstart (range.toNat % 2 ^ 26) pool links).run hwf hpos
          (hnothing _) (img.groupVisits groupp) hvisits hnodup).1 hroom
        refine ⟨s, l, hrun, hsorted.holds, hsorted.offered.top hwf, ?_⟩
        have hlength : l.length ≤ 255 * 65535 := by
          have hcard : (img.groupLinks groupp).card ≤ (img.groupVisits groupp).length :=
            (List.toFinset_card_le _).trans_eq (List.length_map _)
          have hports := hwf.length_groupVisits groupp
          have hnum := hsorted.numValueEntries_eq
          rw [List.nil_append, hneeded, ← hsorted.holds.length_eq] at hnum
          omega
        have hanswer : paGetFocusPorts img groupp code 0#32 range ⟨some (pool, links), portList⟩ =
            s.addSortedPorts img portList := by
          unfold paGetFocusPorts
          rw [if_neg (fun hne => hne rfl), if_neg hrange, hselect]
          dsimp only
          rw [halloc']
          dsimp only
          rw [show img.sortFocusPorts groupp select _ = some s from hrun, Option.bind_some]
        rw [hanswer]
        exact hsorted.holds.addSortedPorts img portList hlength

/-! ## A switch and a host -/

def idlePort (neighbor : Option PortRef) : FocusPort :=
  ⟨false, true, .ok, neighbor, [], ⟨2#2, 8#4⟩, .cleared⟩

def pairPorts : List (Option FocusPort) := [some (idlePort none), some (idlePort (some ⟨1, 1⟩))]

theorem pairPorts_length : pairPorts.length ≤ 255 := by decide

def pairImage : FocusImage where
  maxLid := 2
  lidMap lid := if lid = 1 then some 0 else if lid = 2 then some 1 else none
  node n :=
    if n = 0 then ⟨1#16, .switch pairPorts pairPorts_length⟩
    else ⟨2#16, .ca 1 (idlePort (some ⟨0, 1⟩))⟩
  allPorts := 0

theorem pairImage_wellFormed : pairImage.WellFormed := by
  have hlids : ∀ lid : Nat, 1 ≤ lid → lid ≤ 2 → lid = 1 ∨ lid = 2 := by omega
  constructor
  · intro lid node hpos hle hmap
    rcases hlids lid hpos hle with rfl | rfl
    · cases hmap
      rfl
    · cases hmap
      rfl
  · rintro ⟨node, k⟩ q ⟨lid, hpos, hle, hmap, hport⟩ hq
    rcases hlids lid hpos hle with rfl | rfl
    · cases hmap
      match k with
      | 0 => cases hq
      | 1 =>
        cases hq
        exact ⟨⟨2, by decide, by decide, rfl, rfl⟩, rfl⟩
      | _ + 2 => cases hport
    · cases hmap
      by_cases hk : k = 1
      · subst hk
        cases hq
        exact ⟨⟨1, by decide, by decide, rfl, rfl⟩, rfl⟩
      · have hnone : pairImage.port? ⟨1, k⟩ = none := if_neg hk
        rw [hnone] at hport
        cases hport

/-- The two ports of the link and port 0 offer two entries, of which one fits. -/
theorem pairImage_top :
    FocusFits pairImage 0 1 ∧
      ∀ memory, FocusBuilt pairImage 0 .utilHigh 0x00020001#32 1#32 memory := by
  have hfits : FocusFits pairImage 0 1 := .inl (by decide)
  exact ⟨hfits, (paGetFocusPorts_top_iff pairImage_wellFormed 0 (by decide) (by decide)).mpr hfits⟩

/-- For a range of 2 ^ 26 the pool is asked for 2 ^ 32 bytes, of which 32 bits are zero: it hands
out a buffer without any. -/
theorem not_pairImage_top :
    ¬∀ memory, FocusBuilt pairImage 0 .utilHigh 0x00020001#32 0x04000000#32 memory := by
  intro h
  obtain ⟨-, s, l, hrun, -⟩ := h ⟨some (fun _ => pairImage.entryOf .utilHigh
    ⟨1, ⟨0, 0⟩, idlePort none⟩, ⟨fun _ => none, fun _ => none⟩), true⟩ _ rfl
  cases hrun

end OpaFm.PerfMgr
