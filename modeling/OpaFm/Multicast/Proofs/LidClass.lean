import OpaFm.Multicast.LidPool

/-!
# One lid class

A lid class is right for a count `cnt` of groups per MLID when its heap holds
exactly the MLIDs with a positive count, once each, with that count.  The four
changes the pool makes (append, share, release, remove) are proved here against
the change of `cnt` that they stand for.
-/

namespace OpaFm.Multicast

open OpaFm.Lib BinaryHeap

structure Holds (n : Nat) (a : Nat → LidUsage) (cnt : Nat → Nat) : Prop where
  vacant : ∀ i, n ≤ i → a i = .empty
  distinct : ∀ i j, i < n → j < n → (a i).lid = (a j).lid → i = j
  counts : ∀ i, i < n → (a i).usageCount = cnt (a i).lid
  positive : ∀ i, i < n → 0 < cnt (a i).lid
  covers : ∀ lid, 0 < cnt lid → ∃ i, i < n ∧ (a i).lid = lid

structure LidClass.Tracks (l : LidClass) (cnt : Nat → Nat) : Prop where
  ordered : Ordered LidUsage.usageCount l.lidsUsed l.lids
  holds : Holds l.lidsUsed l.lids cnt
  small : ∀ lid, cnt lid < 65536

/-! ## The slots -/

theorem holds_empty : Holds 0 (fun _ => .empty) (fun _ => 0) where
  vacant _ _ := rfl
  distinct i _ hi := absurd hi (Nat.not_lt_zero i)
  counts i hi := absurd hi (Nat.not_lt_zero i)
  positive i hi := absurd hi (Nat.not_lt_zero i)
  covers _ h := absurd h (Nat.lt_irrefl 0)

theorem Holds.rearranged {n : Nat} {a b : Nat → LidUsage} {cnt : Nat → Nat}
    (h : Holds n a cnt) (hab : Rearranged n a b) : Holds n b cnt := by
  obtain ⟨σ, hb, hσ, hout⟩ := hab.slots
  constructor
  · intro i hi
    rw [hout i hi]
    exact h.vacant i hi
  · intro i j hi hj heq
    rw [hb i, hb j] at heq
    exact σ.injective (h.distinct _ _ ((hσ i).mpr hi) ((hσ j).mpr hj) heq)
  · intro i hi
    rw [hb i]
    exact h.counts _ ((hσ i).mpr hi)
  · intro i hi
    rw [hb i]
    exact h.positive _ ((hσ i).mpr hi)
  · intro lid hlid
    obtain ⟨i, hi, rfl⟩ := h.covers lid hlid
    refine ⟨σ.symm i, (hσ _).mp (by simpa using hi), ?_⟩
    rw [hb, Equiv.apply_symm_apply]

theorem Holds.append {n lid : Nat} {a : Nat → LidUsage} {cnt : Nat → Nat}
    (h : Holds n a cnt) (hlid : cnt lid = 0) :
    Holds (n + 1) (Function.update a n ⟨lid, 1⟩) (Function.update cnt lid 1) := by
  have hne : ∀ i, i < n → (a i).lid ≠ lid := fun i hi heq => by
    have := h.positive i hi
    rw [heq] at this
    omega
  constructor
  · intro i hi
    rw [Function.update_of_ne (by omega)]
    exact h.vacant i (by omega)
  · intro i j hi hj heq
    by_cases hin : i = n <;> by_cases hjn : j = n
    · omega
    · subst hin
      rw [Function.update_self, Function.update_of_ne hjn] at heq
      exact absurd heq.symm (hne j (by omega))
    · subst hjn
      rw [Function.update_self, Function.update_of_ne hin] at heq
      exact absurd heq (hne i (by omega))
    · rw [Function.update_of_ne hin, Function.update_of_ne hjn] at heq
      exact h.distinct i j (by omega) (by omega) heq
  · intro i hi
    by_cases hin : i = n
    · subst hin
      simp
    · rw [Function.update_of_ne hin, Function.update_of_ne (hne i (by omega))]
      exact h.counts i (by omega)
  · intro i hi
    by_cases hin : i = n
    · subst hin
      simp
    · rw [Function.update_of_ne hin, Function.update_of_ne (hne i (by omega))]
      exact h.positive i (by omega)
  · intro l hl
    by_cases hll : l = lid
    · exact ⟨n, by omega, by simp [hll]⟩
    · rw [Function.update_of_ne hll] at hl
      obtain ⟨i, hi, rfl⟩ := h.covers l hl
      exact ⟨i, by omega, by rw [Function.update_of_ne (by omega)]⟩

theorem Holds.recount {n i : Nat} {a : Nat → LidUsage} {cnt : Nat → Nat} (h : Holds n a cnt)
    (hi : i < n) {k : Nat} (hk : 0 < k) :
    Holds n (Function.update a i ⟨(a i).lid, k⟩) (Function.update cnt (a i).lid k) := by
  have hne : ∀ j, j < n → j ≠ i → (a j).lid ≠ (a i).lid :=
    fun j hj hji heq => hji (h.distinct j i hj hi heq)
  have hlid : ∀ j, (Function.update a i (⟨(a i).lid, k⟩ : LidUsage) j).lid = (a j).lid := by
    intro j
    by_cases hji : j = i
    · subst hji
      simp
    · rw [Function.update_of_ne hji]
  constructor
  · intro j hj
    rw [Function.update_of_ne (by omega)]
    exact h.vacant j hj
  · intro j j' hj hj' heq
    rw [hlid, hlid] at heq
    exact h.distinct j j' hj hj' heq
  · intro j hj
    by_cases hji : j = i
    · subst hji
      simp
    · rw [Function.update_of_ne hji, Function.update_of_ne (hne j hj hji)]
      exact h.counts j hj
  · intro j hj
    rw [hlid]
    by_cases hji : j = i
    · subst hji
      simpa using hk
    · rw [Function.update_of_ne (hne j hj hji)]
      exact h.positive j hj
  · intro l hl
    by_cases hll : l = (a i).lid
    · exact ⟨i, hi, by rw [hlid, hll]⟩
    · rw [Function.update_of_ne hll] at hl
      obtain ⟨j, hj, rfl⟩ := h.covers l hl
      exact ⟨j, hj, hlid j⟩

theorem Holds.remove {n i : Nat} {a : Nat → LidUsage} {cnt : Nat → Nat}
    (h : Holds (n + 1) a cnt) (hi : i < n + 1) :
    Holds n (Function.update (Function.update a i (a n)) n .empty)
      (Function.update cnt (a i).lid 0) := by
  have hread : ∀ j, j < n →
      Function.update (Function.update a i (a n)) n LidUsage.empty j =
        if j = i then a n else a j := by
    intro j hj
    rw [Function.update_of_ne (by omega), Function.update_apply]
  -- the slot that `j` now reads is a slot of the old heap other than `i`
  have hold : ∀ j, j < n → ∃ j', j' < n + 1 ∧ j' ≠ i ∧ (if j = i then a n else a j) = a j' ∧
      (j' = n ↔ j = i) := by
    intro j hj
    by_cases hji : j = i
    · exact ⟨n, by omega, by omega, by rw [if_pos hji], by simp [hji]⟩
    · exact ⟨j, by omega, hji, by rw [if_neg hji], by constructor <;> intro <;> omega⟩
  have hne : ∀ j', j' < n + 1 → j' ≠ i → (a j').lid ≠ (a i).lid :=
    fun j' hj' hji heq => hji (h.distinct j' i hj' hi heq)
  constructor
  · intro j hj
    by_cases hjn : j = n
    · subst hjn
      rw [Function.update_self]
    · rw [Function.update_of_ne hjn, Function.update_of_ne (by omega)]
      exact h.vacant j (by omega)
  · intro j k hj hk heq
    rw [hread j hj, hread k hk] at heq
    by_cases hji : j = i <;> by_cases hki : k = i
    · omega
    · rw [if_pos hji, if_neg hki] at heq
      exact absurd (h.distinct n k (by omega) (by omega) heq) (by omega)
    · rw [if_neg hji, if_pos hki] at heq
      exact absurd (h.distinct j n (by omega) (by omega) heq) (by omega)
    · rw [if_neg hji, if_neg hki] at heq
      exact h.distinct j k (by omega) (by omega) heq
  · intro j hj
    rw [hread j hj]
    obtain ⟨j', hj', hji, heq, -⟩ := hold j hj
    rw [heq, Function.update_of_ne (hne j' hj' hji)]
    exact h.counts j' hj'
  · intro j hj
    rw [hread j hj]
    obtain ⟨j', hj', hji, heq, -⟩ := hold j hj
    rw [heq, Function.update_of_ne (hne j' hj' hji)]
    exact h.positive j' hj'
  · intro l hl
    by_cases hll : l = (a i).lid
    · subst hll
      simp at hl
    · rw [Function.update_of_ne hll] at hl
      obtain ⟨j, hj, rfl⟩ := h.covers l hl
      have hji : j ≠ i := fun heq => hll (by rw [heq])
      by_cases hjn : j = n
      · subst hjn
        exact ⟨i, by omega, by rw [hread i (by omega), if_pos rfl]⟩
      · exact ⟨j, by omega, by rw [hread j (by omega), if_neg hji]⟩

theorem Holds.lid_ne_marker {n : Nat} {a : Nat → LidUsage} {cnt : Nat → Nat} (h : Holds n a cnt)
    (hcnt : cnt 0xFFFFFFFF = 0) {i : Nat} (hi : i < n) : (a i).lid ≠ 0xFFFFFFFF := by
  intro heq
  have := h.positive i hi
  rw [heq, hcnt] at this
  exact absurd this (Nat.lt_irrefl 0)

/-! ## The trickles -/

theorem checkHeap_iff (l : LidClass) :
    checkHeap l = true ↔ Ordered LidUsage.usageCount l.lidsUsed l.lids := by
  simp only [checkHeap, List.all_eq_true, List.mem_range'_1, decide_eq_true_eq, Ordered]
  constructor
  · intro h i hi hn
    exact h i ⟨hi, by omega⟩
  · intro h i hi
    exact h i hi.1 (by omega)

theorem heapTrickleDown_spec {l : LidClass} {i : Nat} (hi : i < l.lidsUsed)
    (h : DownOrder LidUsage.usageCount l.lidsUsed l.lids i) :
    ∃ a, heapTrickleDown l i = .ok { l with lids := a } ∧
      Ordered LidUsage.usageCount l.lidsUsed a ∧ Rearranged l.lidsUsed l.lids a := by
  have hord := siftDown_ordered h
  refine ⟨_, ?_, hord, siftDown_rearranged _ l.lids hi⟩
  rw [heapTrickleDown, heapChecked, if_pos ((checkHeap_iff _).mpr hord)]

theorem heapTrickleUp_spec {l : LidClass} {i : Nat} (hi : i < l.lidsUsed)
    (h : UpOrder LidUsage.usageCount l.lidsUsed l.lids i) :
    ∃ a, heapTrickleUp l i = .ok { l with lids := a } ∧
      Ordered LidUsage.usageCount l.lidsUsed a ∧ Rearranged l.lidsUsed l.lids a := by
  have hord := siftUp_ordered h hi (Nat.le_refl i)
  refine ⟨_, ?_, hord, siftUp_rearranged _ _ l.lids hi⟩
  rw [heapTrickleUp, heapChecked, if_pos ((checkHeap_iff _).mpr hord)]

theorem heapTrickleUp_spec_uncounted {l : LidClass}
    (h : UpOrder LidUsage.usageCount (l.lidsUsed + 1) l.lids l.lidsUsed) :
    ∃ a, heapTrickleUp l l.lidsUsed = .ok { l with lids := a } ∧
      Ordered LidUsage.usageCount (l.lidsUsed + 1) a ∧
      Rearranged (l.lidsUsed + 1) l.lids a := by
  have hord := siftUp_ordered h (Nat.lt_succ_self _) (Nat.le_refl _)
  refine ⟨_, ?_, hord, siftUp_rearranged _ _ l.lids (Nat.lt_succ_self _)⟩
  rw [heapTrickleUp, heapChecked,
    if_pos ((checkHeap_iff _).mpr (hord.shrink (Nat.le_succ _)))]

section Vacated

/-! While a slot is being removed, `lidsUsed` still counts the emptied last slot,
whose count of `0xFFFF` no other exceeds. -/

variable {l : LidClass} {n i : Nat} (hused : l.lidsUsed = n + 1) (hi : i < n)
  (hempty : l.lids n = .empty) (hle : ∀ j, (l.lids j).usageCount ≤ 65535)

include hused hempty hle

theorem checkHeap_vacated {a : Nat → LidUsage} (hord : Ordered LidUsage.usageCount n a)
    (hre : Rearranged n l.lids a) : checkHeap { l with lids := a } = true := by
  obtain ⟨-, -, -, hout⟩ := hre.slots
  have hlast : a n = .empty := by rw [hout n (Nat.le_refl n), hempty]
  rw [checkHeap_iff]
  simp only [hused]
  refine hord.sentinel (fun j => ?_)
  rw [hlast]
  exact hre.le_of_le hle j

include hi

theorem heapTrickleDown_vacated (h : DownOrder LidUsage.usageCount n l.lids i) :
    ∃ a, heapTrickleDown l i = .ok { l with lids := a } ∧
      Ordered LidUsage.usageCount n a ∧ Rearranged n l.lids a := by
  have hmax : ∀ j, (l.lids j).usageCount ≤ (l.lids n).usageCount := by
    rw [hempty]
    exact hle
  have hsift : siftDown LidUsage.usageCount l.lidsUsed l.lids i =
      sinkHole LidUsage.usageCount n (l.lids i) (n + 1) l.lids i := by
    rw [hused, siftDown, sinkHole_sentinel hmax (hmax i) hi]
  have hself : Function.update l.lids i (l.lids i) = l.lids := Function.update_eq_self i l.lids
  have hord : Ordered LidUsage.usageCount n
      (sinkHole LidUsage.usageCount n (l.lids i) (n + 1) l.lids i) :=
    sinkHole_ordered (by rw [hself]; exact h) (by omega)
  have hre := sinkHole_rearranged LidUsage.usageCount (n + 1) l.lids (l.lids i) hi
  rw [hself] at hre
  refine ⟨_, ?_, hord, hre⟩
  rw [heapTrickleDown, hsift, heapChecked, if_pos (checkHeap_vacated hused hempty hle hord hre)]

theorem heapTrickleUp_vacated (h : UpOrder LidUsage.usageCount n l.lids i) :
    ∃ a, heapTrickleUp l i = .ok { l with lids := a } ∧
      Ordered LidUsage.usageCount n a ∧ Rearranged n l.lids a := by
  have hord := siftUp_ordered h hi (Nat.le_refl i)
  have hre := siftUp_rearranged LidUsage.usageCount i l.lids hi
  refine ⟨_, ?_, hord, hre⟩
  rw [heapTrickleUp, heapChecked, if_pos (checkHeap_vacated hused hempty hle hord hre)]

end Vacated

/-! ## The operations of the pool on a lid class -/

theorem tracks_new (pKey mtu rate : Nat) :
    (LidClass.new pKey mtu rate).Tracks (fun _ => 0) where
  ordered i _ hi := absurd hi (Nat.not_lt_zero i)
  holds := holds_empty
  small _ := by omega

section Operations

variable {l : LidClass} {cnt : Nat → Nat}

theorem update_lt_65536 (hsmall : ∀ lid, cnt lid < 65536) (lid : Nat) {k : Nat} (hk : k < 65536)
    (x : Nat) : Function.update cnt lid k x < 65536 := by
  rw [Function.update_apply]
  split
  · exact hk
  · exact hsmall x

theorem appendLid_spec {c : McGroupClass} {lid : Nat} (h : l.Tracks cnt) (hlid : cnt lid = 0)
    (hroom : l.lidsUsed < c.maximumLids) (hmax : c.maximumLids < 65536) (countFirst : Bool) :
    ∃ l', appendLid c l lid countFirst = .ok l' ∧
      l'.Tracks (Function.update cnt lid 1) ∧ l'.lidsUsed = l.lidsUsed + 1 := by
  have hslot : (l.lids l.lidsUsed).lid = 0xFFFFFFFF := by
    rw [h.holds.vacant _ (Nat.le_refl _)]
    rfl
  have hinc : inc16 l.lidsUsed = l.lidsUsed + 1 := inc16_of_lt (by omega)
  have hup := h.ordered.append (⟨lid, 1⟩ : LidUsage)
  have hheld := h.holds.append hlid
  have hsmall := fun x => update_lt_65536 h.small lid (k := 1) (by omega) x
  unfold appendLid
  rw [if_neg (by omega), if_neg (by simp [hslot])]
  cases countFirst with
  | true =>
    rw [← hinc] at hup hheld
    obtain ⟨a, ha, hord, hre⟩ := heapTrickleUp_spec
      (l := { l.setSlot l.lidsUsed ⟨lid, 1⟩ with lidsUsed := inc16 l.lidsUsed })
      (by simp [hinc]) hup
    exact ⟨_, ha, ⟨hord, hheld.rearranged hre, hsmall⟩, hinc⟩
  | false =>
    obtain ⟨a, ha, hord, hre⟩ :=
      heapTrickleUp_spec_uncounted (l := l.setSlot l.lidsUsed ⟨lid, 1⟩) hup
    refine ⟨{ l.setSlot l.lidsUsed ⟨lid, 1⟩ with lids := a, lidsUsed := inc16 l.lidsUsed },
      ?_, ⟨?_, ?_, hsmall⟩, hinc⟩
    · have ha' : heapTrickleUp (l.setSlot l.lidsUsed ⟨lid, 1⟩) l.lidsUsed = _ := ha
      simp [ha', Bind.bind, Except.bind, Pure.pure, Except.pure]
    · simpa [hinc] using hord
    · simpa [hinc] using hheld.rearranged hre

theorem bumpUsage_spec {i : Nat} (h : l.Tracks cnt) (hi : i < l.lidsUsed)
    (hroom : (l.lids i).usageCount < 65535) :
    ∃ l', bumpUsage l i = .ok l' ∧
      l'.Tracks (Function.update cnt (l.lids i).lid (cnt (l.lids i).lid + 1)) ∧
      l'.lidsUsed = l.lidsUsed := by
  have hcount := h.holds.counts i hi
  have hinc : inc16 (l.lids i).usageCount = cnt (l.lids i).lid + 1 := by
    rw [inc16_of_lt hroom, hcount]
  have hdown : DownOrder LidUsage.usageCount l.lidsUsed
      (Function.update l.lids i ⟨(l.lids i).lid, inc16 (l.lids i).usageCount⟩) i := by
    refine h.ordered.replace hi (fun hpos => ?_)
    have := h.ordered i hpos hi
    simp only [hinc]
    omega
  obtain ⟨a, ha, hord, hre⟩ := heapTrickleDown_spec
    (l := l.setSlot i ⟨(l.lids i).lid, inc16 (l.lids i).usageCount⟩) hi hdown
  refine ⟨_, ha, ⟨hord, ?_, fun x => update_lt_65536 h.small _ (by omega) x⟩, rfl⟩
  rw [← hinc]
  refine (h.holds.recount hi ?_).rearranged hre
  rw [hinc]
  omega

theorem findLid_some {lid i : Nat} (h : findLid l lid = some i) :
    i < l.lidsUsed ∧ (l.lids i).lid = lid := by
  have hmem := List.mem_of_find?_eq_some h
  have hprop := List.find?_some h
  exact ⟨by simpa using hmem, by simpa using hprop⟩

theorem findLid_eq_some_of_pos {lid : Nat} (h : l.Tracks cnt) (hpos : 0 < cnt lid) :
    ∃ i, findLid l lid = some i := by
  obtain ⟨i, hi, hlid⟩ := h.holds.covers lid hpos
  cases hf : findLid l lid with
  | some j => exact ⟨j, rfl⟩
  | none =>
    have hall := List.find?_eq_none.mp hf i (by simpa using hi)
    simp [hlid] at hall

theorem heapTrickleUp_release {i : Nat} (h : l.Tracks cnt) (hi : i < l.lidsUsed)
    (hmany : 1 < cnt (l.lids i).lid) :
    ∃ l', heapTrickleUp (l.setSlot i ⟨(l.lids i).lid, cnt (l.lids i).lid - 1⟩) i = .ok l' ∧
      l'.Tracks (Function.update cnt (l.lids i).lid (cnt (l.lids i).lid - 1)) ∧
      l'.lidsUsed = l.lidsUsed := by
  have hcount := h.holds.counts i hi
  have hsmall := h.small (l.lids i).lid
  have hup : UpOrder LidUsage.usageCount l.lidsUsed
      (Function.update l.lids i ⟨(l.lids i).lid, cnt (l.lids i).lid - 1⟩) i :=
    h.ordered.decrease hi (by simp only; omega)
  obtain ⟨a, ha, hord, hre⟩ := heapTrickleUp_spec
    (l := l.setSlot i ⟨(l.lids i).lid, cnt (l.lids i).lid - 1⟩) hi hup
  refine ⟨_, ha, ⟨hord, ?_, fun x => update_lt_65536 h.small _ (by omega) x⟩, rfl⟩
  exact (h.holds.recount hi (by omega)).rearranged hre

theorem removeLid_spec {i : Nat} (h : l.Tracks cnt) (hi : i < l.lidsUsed) (u : LidUsage) :
    ∃ l', removeLid (l.setSlot i u) i = .ok l' ∧ l'.lidsUsed = l.lidsUsed ∧
      LidClass.Tracks { l' with lidsUsed := l.lidsUsed - 1 }
        (Function.update cnt (l.lids i).lid 0) := by
  obtain ⟨n, hn⟩ : ∃ n, l.lidsUsed = n + 1 := ⟨l.lidsUsed - 1, by omega⟩
  have hlast : l.lidsUsed - 1 = n := by omega
  have hheld : Holds (n + 1) l.lids cnt := hn ▸ h.holds
  have hgone := hheld.remove (i := i) (by omega)
  have hsmall := fun x => update_lt_65536 h.small (l.lids i).lid (k := 0) (by omega) x
  have hbase := (h.ordered.shrink (m := n) (by omega)).update_beyond LidUsage.empty
  unfold removeLid
  simp only [LidClass.setSlot, hlast]
  by_cases hin : i = n
  · subst hin
    rw [if_pos rfl, Function.update_idem]
    rw [Function.update_idem] at hgone
    exact ⟨_, rfl, rfl, hbase, hgone, hsmall⟩
  · have hni : n ≠ i := fun heq => hin heq.symm
    have hwrite : Function.update (Function.update (Function.update l.lids i u) i
          (Function.update l.lids i u n)) n LidUsage.empty =
        Function.update (Function.update l.lids n LidUsage.empty) i (l.lids n) := by
      rw [Function.update_of_ne hni, Function.update_idem, Function.update_comm hin]
    rw [Function.update_comm hin] at hgone
    rw [if_neg hin, hwrite]
    set a := Function.update (Function.update l.lids n LidUsage.empty) i (l.lids n) with ha
    have hle : ∀ j, (a j).usageCount ≤ 65535 := by
      intro j
      rw [ha, Function.update_apply, Function.update_apply]
      split
      · rw [h.holds.counts n (by omega)]
        have := h.small (l.lids n).lid
        omega
      · split
        · exact Nat.le_refl _
        · by_cases hj : j < l.lidsUsed
          · rw [h.holds.counts j hj]
            have := h.small (l.lids j).lid
            omega
          · rw [h.holds.vacant j (by omega)]
            exact Nat.le_refl _
    have hempty : a n = .empty := by
      rw [ha, Function.update_of_ne hni, Function.update_self]
    have hend : ∀ b, Ordered LidUsage.usageCount n b → Rearranged n a b →
        LidClass.Tracks { l with lids := b, lidsUsed := n }
          (Function.update cnt (l.lids i).lid 0) :=
      fun b hord hre => ⟨hord, hgone.rearranged hre, hsmall⟩
    split
    · rename_i hup
      obtain ⟨b, hb, hord, hre⟩ := heapTrickleUp_vacated (l := { l with lids := a }) hn
        (by omega) hempty hle (hbase.replaceBelow (by omega) (by omega) (by
          have hpi := parentNode_lt (show 0 < i by omega)
          have hlt := hup.2
          rwa [ha, Function.update_self, Function.update_of_ne (by omega)] at hlt))
      exact ⟨_, hb, rfl, hend b hord hre⟩
    · rename_i hdown
      obtain ⟨b, hb, hord, hre⟩ := heapTrickleDown_vacated (l := { l with lids := a }) hn
        (by omega) hempty hle (hbase.replace (by omega) (fun hpos => by
          have hpi := parentNode_lt hpos
          rw [not_and, Nat.not_lt] at hdown
          have hge := hdown (by omega)
          rwa [ha, Function.update_self, Function.update_of_ne (by omega)] at hge))
      exact ⟨_, hb, rfl, hend b hord hre⟩

/-- One group fewer on the MLID of slot `i`: the slot stays with a smaller count,
or it goes and the class has one MLID fewer. -/
theorem releaseLid_spec {i : Nat} (h : l.Tracks cnt) (hi : i < l.lidsUsed)
    (hused : l.lidsUsed < 65536) (c : McGroupClass) (key : LidClassKey) :
    ∃ l', l'.Tracks (Function.update cnt (l.lids i).lid (cnt (l.lids i).lid - 1)) ∧
      (releaseLid c key l i = .ok (c.setLidClass key l') ∧ l'.lidsUsed = l.lidsUsed ∨
        releaseLid c key l i =
            .ok { c.setLidClass key l' with currentLids := dec16 c.currentLids } ∧
          l'.lidsUsed + 1 = l.lidsUsed) := by
  have hcount := h.holds.counts i hi
  have hpos := h.holds.positive i hi
  have hdec : dec16 (l.lids i).usageCount = cnt (l.lids i).lid - 1 := by
    rw [hcount]
    exact dec16_of_pos hpos (h.small _)
  unfold releaseLid
  simp only [hdec]
  rw [if_neg (by omega)]
  by_cases hone : cnt (l.lids i).lid - 1 = 0
  · rw [if_pos hone]
    obtain ⟨l', hl', hsame, htr⟩ := removeLid_spec h hi ⟨(l.lids i).lid, cnt (l.lids i).lid - 1⟩
    have hused' : dec16 l'.lidsUsed = l.lidsUsed - 1 := by
      rw [hsame]
      exact dec16_of_pos (by omega) hused
    refine ⟨{ l' with lidsUsed := l.lidsUsed - 1 }, by rwa [hone], .inr ⟨?_, ?_⟩⟩
    · simp [hl', hused', Bind.bind, Except.bind, Pure.pure, Except.pure]
    · simp only
      omega
  · rw [if_neg hone]
    obtain ⟨l', hl', htr, hsame⟩ := heapTrickleUp_release h hi (by omega)
    refine ⟨l', htr, .inl ⟨?_, hsame⟩⟩
    simp [hl', Bind.bind, Except.bind, Pure.pure, Except.pure]

end Operations

end OpaFm.Multicast
