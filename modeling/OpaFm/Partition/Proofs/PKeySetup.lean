import Mathlib.Data.List.Dedup
import OpaFm.Partition.PKey

/-!
# What a P_Key table holds

While `sm_set_portPkey` goes through the virtual fabrics, the application keys of the port are a
list in which all values differ.  The first is in slot 0 and the others follow the two management
slots, whatever the turn at which the management key comes.
-/

namespace OpaFm.Partition

open OpaFm.Fabric

variable {n : Node} {portIndex : Nat} {s s' : PKeySetup} {apps : List Nat} {mngnt : Bool}
  {pkey i j : Nat} {t : PKeyTable}

/-! ## Keys -/

theorem entry_write_self (hi : i < smPkeys) : (t.write i pkey).entry i = pkey := by
  unfold PKeyTable.entry PKeyTable.write
  simp [hi]

theorem entry_write_of_ne (h : i ≠ j) : (t.write i pkey).entry j = t.entry j := by
  unfold PKeyTable.entry PKeyTable.write
  simp [h]

theorem entry_empty (i : Nat) : PKeyTable.empty.entry i = 0 := by
  unfold PKeyTable.entry PKeyTable.empty
  by_cases hi : i < smPkeys <;> simp [hi]

def addKey (apps : List Nat) (pkey : Nat) : List Nat :=
  if pKeyValue pkey ∈ apps.map pKeyValue then
    apps.map fun a =>
      if pKeyValue a = pKeyValue pkey ∧ ¬pKeyIsFull a ∧ pKeyIsFull pkey then pkey else a
  else apps ++ [pkey]

theorem map_addKey_of_mem (h : pKeyValue pkey ∈ apps.map pKeyValue) :
    (addKey apps pkey).map pKeyValue = apps.map pKeyValue := by
  rw [addKey, if_pos h, List.map_map]
  apply List.map_congr_left
  intro a _
  show pKeyValue (if _ then pkey else a) = pKeyValue a
  split
  · rename_i hsame
    exact hsame.1.symm
  · rfl

theorem map_addKey_of_notMem (h : pKeyValue pkey ∉ apps.map pKeyValue) :
    (addKey apps pkey).map pKeyValue = apps.map pKeyValue ++ [pKeyValue pkey] := by
  rw [addKey, if_neg h, List.map_append]
  rfl

structure Collects (apps keys : List Nat) : Prop where
  nodup : (apps.map pKeyValue).Nodup
  mem : ∀ v, v ∈ apps.map pKeyValue ↔ v ∈ keys.map pKeyValue
  full : ∀ a ∈ apps, pKeyIsFull a = true ↔
    ∃ k ∈ keys, pKeyValue k = pKeyValue a ∧ pKeyIsFull k = true

theorem Collects.nil : Collects [] [] :=
  ⟨List.nodup_nil, fun _ => Iff.rfl, fun _ ha => absurd ha List.not_mem_nil⟩

theorem Collects.snoc {keys : List Nat} (h : Collects apps keys) (pkey : Nat) :
    Collects (addKey apps pkey) (keys ++ [pkey]) := by
  have hsnoc : ∀ v, v ∈ (keys ++ [pkey]).map pKeyValue ↔
      v ∈ apps.map pKeyValue ∨ v = pKeyValue pkey := by
    intro v
    rw [List.map_append, List.mem_append, h.mem]
    simp
  by_cases hin : pKeyValue pkey ∈ apps.map pKeyValue
  · constructor
    · rw [map_addKey_of_mem hin]
      exact h.nodup
    · intro v
      rw [map_addKey_of_mem hin, hsnoc]
      constructor
      · exact Or.inl
      · rintro (hv | rfl)
        · exact hv
        · exact hin
    · intro a ha
      rw [addKey, if_pos hin] at ha
      obtain ⟨b, hb, rfl⟩ := List.mem_map.mp ha
      have hfull := h.full b hb
      simp only [List.mem_append, List.mem_singleton, or_and_right, exists_or, exists_eq_left]
      by_cases hsame : pKeyValue b = pKeyValue pkey ∧ ¬pKeyIsFull b = true ∧ pKeyIsFull pkey = true
      · rw [if_pos hsame]
        exact iff_of_true hsame.2.2 (Or.inr ⟨rfl, hsame.2.2⟩)
      · rw [if_neg hsame, hfull]
        constructor
        · exact Or.inl
        · rintro (hk | ⟨hvalue, hpkey⟩)
          · exact hk
          · by_contra hnone
            exact hsame ⟨hvalue.symm, fun hb' => hnone (hfull.mp hb'), hpkey⟩
  · constructor
    · rw [map_addKey_of_notMem hin, List.nodup_append]
      refine ⟨h.nodup, List.nodup_singleton _, ?_⟩
      intro v hv w hw heq
      rw [List.mem_singleton.mp hw] at heq
      rw [heq] at hv
      exact hin hv
    · intro v
      rw [map_addKey_of_notMem hin, hsnoc, List.mem_append, List.mem_singleton]
    · intro a ha
      rw [addKey, if_neg hin] at ha
      simp only [List.mem_append, List.mem_singleton, or_and_right, exists_or, exists_eq_left]
      rcases List.mem_append.mp ha with ha | ha
      · have hne : pKeyValue pkey ≠ pKeyValue a :=
          fun heq => hin (heq ▸ List.mem_map_of_mem ha)
        rw [h.full a ha]
        exact (or_iff_left fun hk => hne hk.1).symm
      · rw [List.mem_singleton.mp ha]
        constructor
        · exact fun hfull => Or.inr ⟨rfl, hfull⟩
        · rintro (⟨k, hk, hvalue, _⟩ | ⟨_, hfull⟩)
          · exact absurd ((h.mem _).mpr (hvalue ▸ List.mem_map_of_mem hk)) hin
          · exact hfull

/-! ## Slots -/

def slotOf (j : Nat) : Nat := if j = 0 then 0 else j + 2

theorem slotOf_inj (h : slotOf i = slotOf j) : i = j := by
  unfold slotOf at h
  split at h <;> split at h <;> omega

theorem slotOf_ne (j : Nat) : slotOf j ≠ 1 ∧ slotOf j ≠ 2 := by
  unfold slotOf
  split <;> omega

theorem slotOf_lt (h : j < 30) : slotOf j < smPkeys := by
  unfold slotOf smPkeys
  split <;> omega

def EntryAt (k : Nat) (mngnt : Bool) (pkeyEntry : Nat) : Prop :=
  (k = 0 → pkeyEntry = if mngnt then 2 else 0) ∧
    (k = 1 → pkeyEntry = 1 ∨ (pkeyEntry = 3 ∧ mngnt = true)) ∧ (2 ≤ k → pkeyEntry = k + 2)

theorem mem_searchSlots_ne {pkeyEntry : Nat} (h : i ∈ searchSlots pkeyEntry) : i ≠ 1 ∧ i ≠ 2 := by
  unfold searchSlots stlDefaultClientPkeyIdx stlDefaultFmPkeyIdx at h
  split at h
  · rw [List.mem_range] at h
    omega
  · rw [List.mem_cons, List.mem_range'_1] at h
    omega

theorem slotOf_mem_searchSlots {k pkeyEntry : Nat} (h : EntryAt k mngnt pkeyEntry) (hj : j < k) :
    slotOf j ∈ searchSlots pkeyEntry := by
  obtain ⟨_, hone, hmore⟩ := h
  unfold searchSlots stlDefaultClientPkeyIdx stlDefaultFmPkeyIdx
  by_cases hj0 : j = 0
  · subst hj0
    have hpos : 0 < pkeyEntry := by
      by_cases hk : k = 1
      · rcases hone hk with h | ⟨h, _⟩ <;> omega
      · have := hmore (by omega)
        omega
    split
    · exact List.mem_range.mpr hpos
    · exact List.mem_cons_self
  · have hentry := hmore (by omega)
    have hslot : slotOf j = j + 2 := if_neg hj0
    rw [if_neg (by omega), hslot, List.mem_cons, List.mem_range'_1]
    omega

theorem smGetStlPkeyIndex_eq {k pkeyEntry : Nat} (h : EntryAt k mngnt pkeyEntry) :
    smGetStlPkeyIndex (decide (k ≠ 0)) pkeyEntry = (slotOf k, true) := by
  obtain ⟨_, hone, hmore⟩ := h
  unfold smGetStlPkeyIndex slotOf stlDefaultClientPkeyIdx stlDefaultFmPkeyIdx
  by_cases hk : k = 0
  · simp [hk]
  · rw [if_neg (by simp [hk]), if_neg hk]
    by_cases hk1 : k = 1
    · rcases hone hk1 with h | ⟨h, _⟩
      · rw [if_pos (Or.inl h), hk1]
      · rw [if_neg (by omega), h, hk1]
    · rw [if_neg (by have := hmore (by omega); omega), hmore (by omega)]

theorem entryAt_succ (k : Nat) (mngnt : Bool) : EntryAt (k + 1) mngnt (slotOf k + 1) := by
  unfold slotOf
  refine ⟨fun h => by omega, fun h => Or.inl (by split <;> omega), fun h => ?_⟩
  rw [if_neg (by omega)]

/-! ## The table while it is filled -/

structure Filled (apps : List Nat) (mngnt : Bool) (s : PKeySetup) : Prop where
  used : s.isEntryZeroUsed = decide (apps.length ≠ 0)
  defined : s.defaultDefined = mngnt
  cntr : s.pkeyEntryCntr = apps.length + if mngnt then 2 else 0
  entry : EntryAt apps.length mngnt s.pkeyEntry
  app : ∀ j a, apps[j]? = some a → s.pPKey.entry (slotOf j) = a
  rest : ∀ i, i ≠ 1 → i ≠ 2 → (∀ j < apps.length, slotOf j ≠ i) → s.pPKey.entry i = 0
  mngntSlots : ∀ i, i = 1 ∨ i = 2 →
    s.pPKey.entry i = 0 ∨ pKeyValue (s.pPKey.entry i) = defaultPkey
  fits : apps.length ≤ 30
  leftover : apps = [] → s.pkey ≠ stlDefaultAppPkey
  isl : s.isl = false

theorem Filled.of_fields (h : Filled apps mngnt s) (hused : s'.isEntryZeroUsed = s.isEntryZeroUsed)
    (hdefined : s'.defaultDefined = s.defaultDefined) (hcntr : s'.pkeyEntryCntr = s.pkeyEntryCntr)
    (hentry : s'.pkeyEntry = s.pkeyEntry) (htable : s'.pPKey = s.pPKey)
    (hpkey : apps = [] → s'.pkey ≠ stlDefaultAppPkey) (hisl : s'.isl = s.isl) :
    Filled apps mngnt s' where
  used := hused.trans h.used
  defined := hdefined.trans h.defined
  cntr := hcntr.trans h.cntr
  entry := hentry ▸ h.entry
  app := htable ▸ h.app
  rest := htable ▸ h.rest
  mngntSlots := htable ▸ h.mngntSlots
  fits := h.fits
  leftover := hpkey
  isl := hisl.trans h.isl

theorem Filled.exists_app (h : Filled apps mngnt s) (h₁ : i ≠ 1) (h₂ : i ≠ 2)
    (hne : s.pPKey.entry i ≠ 0) :
    ∃ j a, slotOf j = i ∧ apps[j]? = some a ∧ s.pPKey.entry i = a := by
  by_contra hnone
  apply hne
  apply h.rest i h₁ h₂
  intro j hj heq
  exact hnone ⟨j, apps[j], heq, List.getElem?_eq_getElem hj,
    heq ▸ h.app j apps[j] (List.getElem?_eq_getElem hj)⟩

theorem setStlPkey_entry (s : PKeySetup) (key1 key2 i : Nat) :
    (s.setStlPkey key1 key2).pPKey.entry i =
      if i = 1 then key1 else if i = 2 then key2 else s.pPKey.entry i := by
  show ((s.pPKey.write 1 key1).write 2 key2).entry i = _
  by_cases h₁ : i = 1
  · subst h₁
    rw [entry_write_of_ne (by decide), entry_write_self (by decide), if_pos rfl]
  · rw [if_neg h₁]
    by_cases h₂ : i = 2
    · subst h₂
      rw [entry_write_self (by decide), if_pos rfl]
    · rw [if_neg h₂, entry_write_of_ne (Ne.symm h₂), entry_write_of_ne (Ne.symm h₁)]

theorem smSetPortStlMngntPkey_eq (n : Node) (portIndex pkey : Nat) (s : PKeySetup) :
    ∃ key1 key2, smSetPortStlMngntPkey n portIndex pkey s = s.setStlPkey key1 key2 ∧
      (key1 = 0 ∨ key1 = stlDefaultClientPkey) ∧ (key2 = 0 ∨ key2 = stlDefaultFmPkey) := by
  unfold smSetPortStlMngntPkey
  split
  · exact ⟨_, _, rfl, Or.inl rfl, Or.inr rfl⟩
  · split
    · exact ⟨_, _, rfl, Or.inr rfl, Or.inl rfl⟩
    · split
      · exact ⟨_, _, rfl, Or.inr rfl, Or.inr rfl⟩
      · exact ⟨_, _, rfl, Or.inl rfl, Or.inr rfl⟩

theorem smSetPortStlMngntPkey_entry (n : Node) (portIndex pkey : Nat) (s : PKeySetup) (i : Nat) :
    (i ≠ 1 → i ≠ 2 →
      (smSetPortStlMngntPkey n portIndex pkey s).pPKey.entry i = s.pPKey.entry i) ∧
    (i = 1 ∨ i = 2 → (smSetPortStlMngntPkey n portIndex pkey s).pPKey.entry i = 0 ∨
      pKeyValue ((smSetPortStlMngntPkey n portIndex pkey s).pPKey.entry i) = defaultPkey) := by
  obtain ⟨key1, key2, heq, hkey1, hkey2⟩ := smSetPortStlMngntPkey_eq n portIndex pkey s
  rw [heq, setStlPkey_entry]
  constructor
  · intro h₁ h₂
    rw [if_neg h₁, if_neg h₂]
  · rintro (rfl | rfl)
    · rw [if_pos rfl]
      rcases hkey1 with rfl | rfl
      · exact Or.inl rfl
      · exact Or.inr rfl
    · rw [if_neg (by decide), if_pos rfl]
      rcases hkey2 with rfl | rfl
      · exact Or.inl rfl
      · exact Or.inr rfl

theorem smSetPortStlMngntPkey_fields (n : Node) (portIndex pkey : Nat) (s : PKeySetup) :
    smSetPortStlMngntPkey n portIndex pkey s =
      { s with
        pkeyTable := (smSetPortStlMngntPkey n portIndex pkey s).pkeyTable
        pPKey := (smSetPortStlMngntPkey n portIndex pkey s).pPKey } := by
  obtain ⟨key1, key2, heq, _, _⟩ := smSetPortStlMngntPkey_eq n portIndex pkey s
  rw [heq]
  rfl

theorem Filled.addMngntPkey (h : Filled apps mngnt s) (hpkey : pKeyValue pkey = defaultPkey) :
    Filled apps true (addMngntPkey n portIndex pkey s) := by
  unfold Partition.addMngntPkey
  dsimp only
  set t : PKeySetup := if s.defaultDefined = true then { s with pkey := pkey } else _ with ht
  have hfields : t.isEntryZeroUsed = s.isEntryZeroUsed ∧ t.defaultDefined = true ∧
      t.pPKey = s.pPKey ∧ t.pkey = pkey ∧ t.isl = s.isl := by
    rw [ht]
    split
    · exact ⟨rfl, ‹_›, rfl, rfl, rfl⟩
    · exact ⟨rfl, rfl, rfl, rfl, rfl⟩
  obtain ⟨hused, hdefined, htable, hleft, hisl⟩ := hfields
  have hcount : t.pkeyEntryCntr = apps.length + 2 ∧ EntryAt apps.length true t.pkeyEntry := by
    have hcntr := h.cntr
    obtain ⟨hzero, hone, hmore⟩ := h.entry
    have hdef := h.defined
    rw [ht]
    cases mngnt with
    | true =>
      rw [if_pos hdef]
      exact ⟨hcntr, hzero, hone, hmore⟩
    | false =>
      rw [if_neg (by rw [hdef]; decide)]
      refine ⟨?_, ?_, ?_, ?_⟩
      · show s.pkeyEntryCntr + 2 = _
        rw [hcntr]
        rfl
      · intro hk
        show (if s.pkeyEntry ≤ 1 then s.pkeyEntry + 2 else s.pkeyEntry) = 2
        rw [hzero hk]
        rfl
      · intro hk
        right
        show (if s.pkeyEntry ≤ 1 then s.pkeyEntry + 2 else s.pkeyEntry) = 3 ∧ true = true
        have hentry : s.pkeyEntry = 1 := by
          rcases hone hk with h | ⟨_, h⟩
          · exact h
          · cases h
        rw [hentry]
        exact ⟨rfl, rfl⟩
      · intro hk
        have hentry := hmore hk
        show (if s.pkeyEntry ≤ 1 then s.pkeyEntry + 2 else s.pkeyEntry) = _
        rw [if_neg (by omega), hentry]
  have hentries := smSetPortStlMngntPkey_entry n portIndex pkey t
  have hsame := smSetPortStlMngntPkey_fields n portIndex pkey t
  have happ : ∀ i, i ≠ 1 → i ≠ 2 →
      (smSetPortStlMngntPkey n portIndex pkey t).pPKey.entry i = s.pPKey.entry i := by
    intro i h₁ h₂
    rw [(hentries i).1 h₁ h₂, htable]
  constructor
  · rw [hsame]
    exact hused.trans h.used
  · rw [hsame]
    exact hdefined
  · rw [hsame]
    exact hcount.1
  · rw [hsame]
    exact hcount.2
  · intro j a hj
    rw [happ _ (slotOf_ne j).1 (slotOf_ne j).2]
    exact h.app j a hj
  · intro i h₁ h₂ hi
    rw [happ i h₁ h₂]
    exact h.rest i h₁ h₂ hi
  · exact fun i hi => (hentries i).2 hi
  · exact h.fits
  · intro _
    rw [hsame]
    show t.pkey ≠ stlDefaultAppPkey
    rw [hleft]
    rintro rfl
    exact absurd hpkey (by decide)
  · rw [hsame]
    exact hisl.trans h.isl

theorem Filled.append (h : Filled apps mngnt s) (pkey : Nat)
    (hrun : appendPkey pkey s = .ok s') : Filled (apps ++ [pkey]) mngnt s' := by
  unfold appendPkey at hrun
  rw [h.used, smGetStlPkeyIndex_eq h.entry] at hrun
  dsimp only at hrun
  split at hrun
  · rename_i hlt
    injection hrun with hrun
    subst hrun
    have hfits : apps.length < 30 := by
      unfold slotOf smPkeys at hlt
      split at hlt <;> omega
    have hlen : (apps ++ [pkey]).length = apps.length + 1 := by
      rw [List.length_append, List.length_singleton]
    constructor
    · rw [hlen]
      exact (decide_eq_true (Nat.succ_ne_zero _)).symm
    · exact h.defined
    · show s.pkeyEntryCntr + 1 = _
      rw [h.cntr, hlen]
      omega
    · rw [hlen]
      exact entryAt_succ _ _
    · intro j a hj
      show (s.pPKey.write (slotOf apps.length) pkey).entry (slotOf j) = a
      by_cases hlast : j = apps.length
      · subst hlast
        rw [List.getElem?_append_right (Nat.le_refl _), Nat.sub_self] at hj
        injection hj with hj
        rw [entry_write_self hlt]
        exact hj
      · have hjlt := (List.getElem?_eq_some_iff.mp hj).1
        rw [List.getElem?_append_left (by omega)] at hj
        rw [entry_write_of_ne fun heq => hlast (slotOf_inj heq).symm]
        exact h.app j a hj
    · intro i h₁ h₂ hi
      show (s.pPKey.write (slotOf apps.length) pkey).entry i = 0
      rw [entry_write_of_ne (hi apps.length (by omega))]
      exact h.rest i h₁ h₂ fun j hj => hi j (by omega)
    · intro i hi
      have hne : slotOf apps.length ≠ i := by
        have := slotOf_ne apps.length
        omega
      show (s.pPKey.write (slotOf apps.length) pkey).entry i = 0 ∨
        pKeyValue ((s.pPKey.write (slotOf apps.length) pkey).entry i) = defaultPkey
      rw [entry_write_of_ne hne]
      exact h.mngntSlots i hi
    · omega
    · exact fun hnil => absurd hnil (List.append_ne_nil_of_right_ne_nil _ (List.cons_ne_nil _ _))
    · exact h.isl
  · cases hrun

theorem addKey_getElem? (hnodup : (apps.map pKeyValue).Nodup) {a : Nat} (hj : apps[j]? = some a)
    (hvalue : pKeyValue a = pKeyValue pkey) (k : Nat) :
    (addKey apps pkey)[k]? =
      if k = j then some (if ¬pKeyIsFull a ∧ pKeyIsFull pkey then pkey else a) else apps[k]? := by
  have hin : pKeyValue pkey ∈ apps.map pKeyValue := by
    rw [← hvalue]
    exact List.mem_map_of_mem (List.mem_of_getElem? hj)
  rw [addKey, if_pos hin, List.getElem?_map]
  by_cases hk : k = j
  · subst hk
    rw [if_pos rfl, hj, Option.map_some]
    by_cases hup : ¬pKeyIsFull a = true ∧ pKeyIsFull pkey = true
    · rw [if_pos ⟨hvalue, hup⟩, if_pos hup]
    · rw [if_neg fun h => hup h.2, if_neg hup]
  · rw [if_neg hk]
    cases hget : apps[k]? with
    | none => rfl
    | some b =>
      have hne : pKeyValue b ≠ pKeyValue pkey := by
        intro heq
        apply hk
        obtain ⟨hklt, hkb⟩ := List.getElem?_eq_some_iff.mp hget
        obtain ⟨hjlt, hja⟩ := List.getElem?_eq_some_iff.mp hj
        have hkmap : k < (apps.map pKeyValue).length := by rwa [List.length_map]
        have hjmap : j < (apps.map pKeyValue).length := by rwa [List.length_map]
        have hmap : (apps.map pKeyValue)[k] = (apps.map pKeyValue)[j] := by
          rw [List.getElem_map, List.getElem_map, hkb, hja, heq, hvalue]
        exact (List.Nodup.getElem_inj_iff hnodup).mp hmap
      rw [Option.map_some, if_neg fun h => hne h.1]

theorem Filled.addPkey (h : Filled apps mngnt s) (hnodup : (apps.map pKeyValue).Nodup)
    (hzero : pKeyValue pkey ≠ 0) (hrun : addPkey pkey s = .ok s') :
    Filled (addKey apps pkey) mngnt s' := by
  unfold Partition.addPkey at hrun
  dsimp only at hrun
  cases hfind : (searchSlots s.pkeyEntry).find? fun i =>
      pKeyValue (s.pPKey.entry i) = pKeyValue pkey with
  | none =>
    rw [hfind] at hrun
    have hnot : pKeyValue pkey ∉ apps.map pKeyValue := by
      intro hin
      obtain ⟨a, ha, hvalue⟩ := List.mem_map.mp hin
      obtain ⟨j, hj⟩ := List.getElem?_of_mem ha
      have hlt := (List.getElem?_eq_some_iff.mp hj).1
      have hslot := List.find?_eq_none.mp hfind _ (slotOf_mem_searchSlots h.entry hlt)
      rw [h.app j a hj] at hslot
      exact hslot (decide_eq_true hvalue)
    rw [addKey, if_neg hnot]
    exact h.append pkey hrun
  | some i =>
    rw [hfind] at hrun
    have hvalue : pKeyValue (s.pPKey.entry i) = pKeyValue pkey := by
      simpa using List.find?_some hfind
    have hslot := mem_searchSlots_ne (List.mem_of_find?_eq_some hfind)
    have hne : s.pPKey.entry i ≠ 0 := by
      intro hz
      rw [hz] at hvalue
      exact hzero hvalue.symm
    obtain ⟨j, a, rfl, hj, hentry⟩ := h.exists_app hslot.1 hslot.2 hne
    dsimp only at hrun
    rw [hentry] at hvalue hrun
    have hjlt := (List.getElem?_eq_some_iff.mp hj).1
    have hkeys := addKey_getElem? hnodup hj hvalue
    have hlen : (addKey apps pkey).length = apps.length := by
      rw [addKey, if_pos (hvalue ▸ List.mem_map_of_mem (List.mem_of_getElem? hj)),
        List.length_map]
    have hnil : addKey apps pkey ≠ [] := by
      intro hnil
      rw [hnil, List.length_nil] at hlen
      omega
    injection hrun with hrun
    -- the table, with or without the write
    have htable : ∀ k, s'.pPKey.entry k = if k = slotOf j then
        (if ¬pKeyIsFull a = true ∧ pKeyIsFull pkey = true then pkey else a)
        else s.pPKey.entry k := by
      intro k
      by_cases hup : ¬pKeyIsFull a = true ∧ pKeyIsFull pkey = true
      · rw [if_pos hup] at hrun
        rw [← hrun, if_pos hup]
        show (s.pPKey.write (slotOf j) pkey).entry k = _
        by_cases hk : k = slotOf j
        · rw [if_pos hk, hk, entry_write_self (slotOf_lt (Nat.lt_of_lt_of_le hjlt h.fits))]
        · rw [if_neg hk, entry_write_of_ne (Ne.symm hk)]
      · rw [if_neg hup] at hrun
        rw [← hrun, if_neg hup]
        show s.pPKey.entry k = _
        by_cases hk : k = slotOf j
        · rw [if_pos hk, hk, hentry]
        · rw [if_neg hk]
    have hfields : s'.isEntryZeroUsed = s.isEntryZeroUsed ∧
        s'.defaultDefined = s.defaultDefined ∧ s'.pkeyEntryCntr = s.pkeyEntryCntr ∧
        s'.pkeyEntry = s.pkeyEntry ∧ s'.isl = s.isl := by
      rw [← hrun]
      split <;> exact ⟨rfl, rfl, rfl, rfl, rfl⟩
    obtain ⟨hused, hdefined, hcntr, hpkeyEntry, hisl⟩ := hfields
    constructor
    · rw [hused, hlen]
      exact h.used
    · rw [hdefined]
      exact h.defined
    · rw [hcntr, hlen]
      exact h.cntr
    · rw [hpkeyEntry, hlen]
      exact h.entry
    · intro k b hk
      rw [hkeys k] at hk
      rw [htable]
      by_cases hkj : k = j
      · subst hkj
        rw [if_pos rfl] at hk ⊢
        injection hk
      · rw [if_neg hkj] at hk
        rw [if_neg fun heq => hkj (slotOf_inj heq)]
        exact h.app k b hk
    · intro k h₁ h₂ hk
      rw [hlen] at hk
      rw [htable, if_neg fun heq => hk j hjlt heq.symm]
      exact h.rest k h₁ h₂ hk
    · intro k hk
      have hne := slotOf_ne j
      rw [htable, if_neg (by omega)]
      exact h.mngntSlots k hk
    · rw [hlen]
      exact h.fits
    · exact fun hn => absurd hn hnil
    · rw [hisl]
      exact h.isl

/-! ## The virtual fabrics of a port -/

/-- The membership bits that `sm_set_portPkey` reads: those of the port, or of the host at the
other end of a switch port.  Between switches no virtual fabric is looked at. -/
def pkeyMembers (n : Node) (portIndex : Nat) (d : PortData) (linked : Option (Node × PortData)) :
    Option PortData :=
  if n.nodeType = .switch ∧ 0 < portIndex then
    match linked with
    | none => none
    | some (linkedNode, linkedData) =>
      if linkedNode.nodeType = .ca then some linkedData else none
  else some d

def IsMember (m : PortData) (vf : VF) : Prop := vf.index ∈ m.vfMember ∨ vf.index ∈ m.fullPKeyMember

instance (m : PortData) : DecidablePred (IsMember m) := fun vf =>
  inferInstanceAs (Decidable (vf.index ∈ m.vfMember ∨ vf.index ∈ m.fullPKeyMember))

/-- The key of a virtual fabric is one of those that its configuration allows. -/
def KeyAllowed (vf : VF) : Prop := 0 < vf.pkey ∧ vf.pkey < 0x8000

variable {m : PortData} {vf : VF}

theorem vfPkey_ne_zero (h : KeyAllowed vf) : vfPkey m vf ≠ 0 ↔ IsMember m vf := by
  obtain ⟨hpos, hlt⟩ := h
  unfold vfPkey IsMember
  split
  · rename_i hmem
    refine iff_of_true ?_ hmem
    split
    · have hor : vf.pkey ≤ vf.pkey ||| fullMember := Nat.left_le_or
      omega
    · omega
  · rename_i hmem
    exact iff_of_false (fun hne => hne rfl) hmem

theorem vfPkey_of_member (hmem : IsMember m vf) :
    vfPkey m vf = if vf.index ∈ m.fullPKeyMember then vf.pkey ||| fullMember else vf.pkey :=
  if_pos hmem

theorem or_fullMember {k : Nat} (h : k < 0x8000) : k ||| fullMember = k + 0x8000 := by
  have hor : 2 ^ 15 * 1 + k = 2 ^ 15 * 1 ||| k := Nat.two_pow_add_eq_or_of_lt h 1
  calc k ||| fullMember = 2 ^ 15 * 1 ||| k := Nat.or_comm k fullMember
    _ = 2 ^ 15 * 1 + k := hor.symm
    _ = k + 0x8000 := Nat.add_comm _ k

theorem pKeyValue_vfPkey (h : KeyAllowed vf) (hmem : IsMember m vf) :
    pKeyValue (vfPkey m vf) = vf.pkey := by
  rw [vfPkey_of_member hmem]
  split
  · rw [or_fullMember h.2]
    unfold pKeyValue
    have := h.2
    omega
  · exact Nat.mod_eq_of_lt h.2

theorem pKeyIsFull_vfPkey (h : KeyAllowed vf) (hmem : IsMember m vf) :
    pKeyIsFull (vfPkey m vf) = true ↔ vf.index ∈ m.fullPKeyMember := by
  unfold pKeyIsFull
  rw [vfPkey_of_member hmem, decide_eq_true_iff]
  have := h.2
  split
  · rename_i hfull
    rw [or_fullMember h.2]
    refine iff_of_true ?_ hfull
    omega
  · rename_i hfull
    refine iff_of_false ?_ hfull
    omega

def appKeys (m : PortData) (vfs : List VF) : List Nat :=
  (vfs.map (vfPkey m)).filter fun k => k ≠ 0 ∧ pKeyValue k ≠ defaultPkey

def hasMngntKey (m : PortData) (vfs : List VF) : Bool :=
  vfs.any fun vf => IsMember m vf ∧ vf.pkey = defaultPkey

theorem addVfPkey_filled {facesHost : Bool} (hvf : KeyAllowed vf) {keys : List Nat}
    (hkeys : Collects apps keys) (h : Filled apps mngnt s)
    (hrun : addVfPkey n portIndex facesHost m s vf = .ok s') :
    ∃ apps', Collects apps' (keys ++ appKeys m [vf]) ∧
      Filled apps' (mngnt || hasMngntKey m [vf]) s' := by
  unfold addVfPkey at hrun
  dsimp only at hrun
  by_cases hzero : vfPkey m vf = 0
  · rw [if_pos hzero] at hrun
    injection hrun with hrun
    subst hrun
    have hmem : ¬IsMember m vf := fun hmem => (vfPkey_ne_zero hvf).mpr hmem hzero
    refine ⟨apps, ?_, ?_⟩
    · simpa [appKeys, hzero] using hkeys
    · have hkey : (mngnt || hasMngntKey m [vf]) = mngnt := by simp [hasMngntKey, hmem]
      rw [hkey]
      exact h.of_fields rfl rfl rfl rfl rfl (fun _ => Nat.zero_ne_add_one _) rfl
  · rw [if_neg hzero] at hrun
    have hmem : IsMember m vf := (vfPkey_ne_zero hvf).mp hzero
    have hvalue := pKeyValue_vfPkey hvf hmem
    set s₁ := if facesHost = true ∧ vf.security = true then { s with enforcePkey := true } else s
      with hs₁
    set s₂ := if vf.qosEnable = true ∧ vf.priority ≠ 0 then
      { s₁ with vlHighLimit := s₁.vlHighLimit + 1 } else s₁ with hs₂
    have h₁ : Filled apps mngnt s₁ := by
      rw [hs₁]
      split
      · exact h.of_fields rfl rfl rfl rfl rfl h.leftover rfl
      · exact h
    have h₂ : Filled apps mngnt s₂ := by
      rw [hs₂]
      split
      · exact h₁.of_fields rfl rfl rfl rfl rfl h₁.leftover rfl
      · exact h₁
    by_cases hdefault : pKeyValue (vfPkey m vf) = defaultPkey
    · rw [if_pos hdefault] at hrun
      injection hrun with hrun
      subst hrun
      refine ⟨apps, ?_, ?_⟩
      · simpa [appKeys, hdefault] using hkeys
      · have hkey : (mngnt || hasMngntKey m [vf]) = true := by
          simp [hasMngntKey, hmem, ← hvalue, hdefault]
        rw [hkey]
        exact h₂.addMngntPkey hdefault
    · rw [if_neg hdefault] at hrun
      refine ⟨addKey apps (vfPkey m vf), ?_, ?_⟩
      · have hone : appKeys m [vf] = [vfPkey m vf] := by simp [appKeys, hzero, hdefault]
        rw [hone]
        exact hkeys.snoc _
      · have hkey : (mngnt || hasMngntKey m [vf]) = mngnt := by
          simp [hasMngntKey, ← hvalue, hdefault]
        rw [hkey]
        apply h₂.addPkey hkeys.nodup _ hrun
        rw [hvalue]
        exact Nat.ne_of_gt hvf.1

theorem foldlM_addVfPkey_filled {facesHost : Bool} {vfs : List VF} (hvfs : ∀ vf ∈ vfs, KeyAllowed vf)
    {keys : List Nat} (hkeys : Collects apps keys) (h : Filled apps mngnt s)
    (hrun : vfs.foldlM (addVfPkey n portIndex facesHost m) s = .ok s') :
    ∃ apps', Collects apps' (keys ++ appKeys m vfs) ∧
      Filled apps' (mngnt || hasMngntKey m vfs) s' := by
  induction vfs generalizing apps mngnt s keys with
  | nil =>
    injection hrun with hrun
    subst hrun
    refine ⟨apps, ?_, ?_⟩
    · simpa [appKeys] using hkeys
    · simpa [hasMngntKey] using h
  | cons vf vfs ih =>
    rw [List.foldlM_cons] at hrun
    cases hstep : addVfPkey n portIndex facesHost m s vf with
    | error e =>
      rw [hstep] at hrun
      cases hrun
    | ok s₁ =>
      rw [hstep] at hrun
      obtain ⟨apps₁, hkeys₁, h₁⟩ :=
        addVfPkey_filled (hvfs vf List.mem_cons_self) hkeys h hstep
      obtain ⟨apps', hkeys', h'⟩ :=
        ih (fun u hu => hvfs u (List.mem_cons_of_mem vf hu)) hkeys₁ h₁ hrun
      refine ⟨apps', ?_, ?_⟩
      · have hsplit : appKeys m (vf :: vfs) = appKeys m [vf] ++ appKeys m vfs := by
          unfold appKeys
          rw [← List.filter_append, ← List.map_append, List.singleton_append]
        rw [hsplit, ← List.append_assoc]
        exact hkeys'
      · have hsplit : hasMngntKey m (vf :: vfs) =
            (hasMngntKey m [vf] || hasMngntKey m vfs) := by
          simp [hasMngntKey]
        rw [hsplit, ← Bool.or_assoc]
        exact h'

end OpaFm.Partition
