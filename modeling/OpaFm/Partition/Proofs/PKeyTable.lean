import Mathlib.Data.Finset.Image
import OpaFm.Partition.Proofs.PKeySetup

/-!
# P_Key tables of ports

The two ends of `sm_set_portPkey`: the start from an empty table, and the entries that every table
gets.  The last go wrong for a port with the management key alone, and for one with several other
keys and no management key.
-/

namespace OpaFm.Partition

open OpaFm.Fabric

variable {n : Node} {portIndex : Nat} {s : PKeySetup} {apps : List Nat} {mngnt : Bool}
  {i j : Nat} {t : PKeyTable} {m : PortData} {vfs : List VF}

/-! ## What the table is to hold -/

/-- The values of the port's virtual fabrics, without the management key. -/
def appValues (m : PortData) (vfs : List VF) : Finset Nat :=
  ((vfs.filter fun vf => IsMember m vf ∧ vf.pkey ≠ defaultPkey).map VF.pkey).toFinset

def slotsInUse (t : PKeyTable) : Nat :=
  2 + ((Finset.range smPkeys).filter fun i => i ≠ 1 ∧ i ≠ 2 ∧ t.entry i ≠ 0).card

structure PKeyTableMeets (m : PortData) (vfs : List VF) (r : PKeyResult) : Prop where
  member : ∀ v ∈ appValues m vfs,
    ∃! i, i < smPkeys ∧ i ≠ 1 ∧ i ≠ 2 ∧ pKeyValue (r.pPKey.entry i) = v
  full : ∀ i, i ≠ 1 → i ≠ 2 → pKeyValue (r.pPKey.entry i) ∈ appValues m vfs →
    (pKeyIsFull (r.pPKey.entry i) = true ↔
      ∃ vf ∈ vfs, vf.pkey = pKeyValue (r.pPKey.entry i) ∧ vf.index ∈ m.fullPKeyMember)
  mngntSlots : ∀ i, i = 1 ∨ i = 2 →
    r.pPKey.entry i = 0 ∨ pKeyValue (r.pPKey.entry i) = defaultPkey
  entryZero : if (appValues m vfs).Nonempty then pKeyValue (r.pPKey.entry 0) ∈ appValues m vfs
    else r.pPKey.entry 0 = stlDefaultAppPkey
  rest : ∀ i, i ≠ 0 → i ≠ 1 → i ≠ 2 → pKeyValue (r.pPKey.entry i) ∉ appValues m vfs →
    r.pPKey.entry i = 0
  numPkeys : r.numPkeys = slotsInUse r.pPKey

/-- The device has room for the management slots and for all application keys. -/
def CapacitySuffices (n : Node) (portIndex : Nat) (m : PortData) (vfs : List VF) : Prop :=
  ∀ cap, pkeyCap n portIndex = some cap → 2 + max 1 (appValues m vfs).card ≤ cap

/-! ## Keys and values -/

theorem mem_appValues {v : Nat} : v ∈ appValues m vfs ↔
    ∃ vf ∈ vfs, IsMember m vf ∧ vf.pkey ≠ defaultPkey ∧ vf.pkey = v := by
  unfold appValues
  rw [List.mem_toFinset, List.mem_map]
  simp only [List.mem_filter, decide_eq_true_iff]
  constructor
  · rintro ⟨vf, ⟨hvf, hmem, hne⟩, hv⟩
    exact ⟨vf, hvf, hmem, hne, hv⟩
  · rintro ⟨vf, hvf, hmem, hne, hv⟩
    exact ⟨vf, ⟨hvf, hmem, hne⟩, hv⟩

theorem mem_appKeys (hvfs : ∀ vf ∈ vfs, KeyAllowed vf) {k : Nat} : k ∈ appKeys m vfs ↔
    ∃ vf ∈ vfs, IsMember m vf ∧ vf.pkey ≠ defaultPkey ∧ vfPkey m vf = k := by
  unfold appKeys
  rw [List.mem_filter, List.mem_map, decide_eq_true_iff]
  constructor
  · rintro ⟨⟨vf, hvf, rfl⟩, hzero, hne⟩
    have hmem := (vfPkey_ne_zero (hvfs vf hvf)).mp hzero
    rw [pKeyValue_vfPkey (hvfs vf hvf) hmem] at hne
    exact ⟨vf, hvf, hmem, hne, rfl⟩
  · rintro ⟨vf, hvf, hmem, hne, rfl⟩
    refine ⟨⟨vf, hvf, rfl⟩, (vfPkey_ne_zero (hvfs vf hvf)).mpr hmem, ?_⟩
    rw [pKeyValue_vfPkey (hvfs vf hvf) hmem]
    exact hne

variable (hvfs : ∀ vf ∈ vfs, KeyAllowed vf) (hkeys : Collects apps (appKeys m vfs))

include hvfs hkeys

theorem mem_values_iff (v : Nat) : v ∈ apps.map pKeyValue ↔ v ∈ appValues m vfs := by
  rw [hkeys.mem, mem_appValues, List.mem_map]
  constructor
  · rintro ⟨k, hk, rfl⟩
    obtain ⟨vf, hvf, hmem, hne, rfl⟩ := (mem_appKeys hvfs).mp hk
    exact ⟨vf, hvf, hmem, hne, (pKeyValue_vfPkey (hvfs vf hvf) hmem).symm⟩
  · rintro ⟨vf, hvf, hmem, hne, rfl⟩
    exact ⟨vfPkey m vf, (mem_appKeys hvfs).mpr ⟨vf, hvf, hmem, hne, rfl⟩,
      pKeyValue_vfPkey (hvfs vf hvf) hmem⟩

theorem card_appValues : (appValues m vfs).card = apps.length := by
  have heq : appValues m vfs = (apps.map pKeyValue).toFinset := by
    ext v
    rw [List.mem_toFinset, mem_values_iff hvfs hkeys]
  rw [heq, List.toFinset_card_of_nodup hkeys.nodup, List.length_map]

theorem value_mem_appValues {a : Nat} (ha : a ∈ apps) : pKeyValue a ∈ appValues m vfs :=
  (mem_values_iff hvfs hkeys _).mp (List.mem_map_of_mem ha)

theorem appKey_ne_zero {a : Nat} (ha : a ∈ apps) : pKeyValue a ≠ 0 := by
  obtain ⟨vf, hvf, _, _, hvalue⟩ := mem_appValues.mp (value_mem_appValues hvfs hkeys ha)
  rw [← hvalue]
  exact Nat.ne_of_gt (hvfs vf hvf).1

theorem appKey_full {a : Nat} (ha : a ∈ apps) : pKeyIsFull a = true ↔
    ∃ vf ∈ vfs, vf.pkey = pKeyValue a ∧ vf.index ∈ m.fullPKeyMember := by
  rw [hkeys.full a ha]
  constructor
  · rintro ⟨k, hk, hvalue, hfull⟩
    obtain ⟨vf, hvf, hmem, _, rfl⟩ := (mem_appKeys hvfs).mp hk
    rw [pKeyValue_vfPkey (hvfs vf hvf) hmem] at hvalue
    exact ⟨vf, hvf, hvalue, (pKeyIsFull_vfPkey (hvfs vf hvf) hmem).mp hfull⟩
  · rintro ⟨vf, hvf, hvalue, hfull⟩
    have hmem : IsMember m vf := Or.inr hfull
    obtain ⟨_, _, _, hne, hv⟩ := mem_appValues.mp (value_mem_appValues hvfs hkeys ha)
    have hne' : vf.pkey ≠ defaultPkey := by
      rw [hvalue, ← hv]
      exact hne
    refine ⟨vfPkey m vf, (mem_appKeys hvfs).mpr ⟨vf, hvf, hmem, hne', rfl⟩, ?_, ?_⟩
    · rw [pKeyValue_vfPkey (hvfs vf hvf) hmem, hvalue]
    · exact (pKeyIsFull_vfPkey (hvfs vf hvf) hmem).mpr hfull

omit hvfs hkeys

/-! ## A table with its keys -/

structure Holds (apps : List Nat) (t : PKeyTable) : Prop where
  app : ∀ j a, apps[j]? = some a → t.entry (slotOf j) = a
  rest : ∀ i, i ≠ 1 → i ≠ 2 → (∀ j < apps.length, slotOf j ≠ i) → t.entry i = 0
  mngntSlots : ∀ i, i = 1 ∨ i = 2 → t.entry i = 0 ∨ pKeyValue (t.entry i) = defaultPkey
  fits : apps.length ≤ 30

theorem Filled.holds (h : Filled apps mngnt s) : Holds apps s.pPKey :=
  ⟨h.app, h.rest, h.mngntSlots, h.fits⟩

theorem Holds.setMngnt (h : Holds apps s.pPKey) (n : Node) (portIndex pkey : Nat) :
    Holds apps (smSetPortStlMngntPkey n portIndex pkey s).pPKey := by
  have hentries := smSetPortStlMngntPkey_entry n portIndex pkey s
  constructor
  · intro j a hj
    rw [(hentries _).1 (slotOf_ne j).1 (slotOf_ne j).2]
    exact h.app j a hj
  · intro i h₁ h₂ hi
    rw [(hentries i).1 h₁ h₂]
    exact h.rest i h₁ h₂ hi
  · exact fun i hi => (hentries i).2 hi
  · exact h.fits

theorem Holds.entry_of_lt (h : Holds apps t) (hj : j < apps.length) :
    t.entry (slotOf j) = apps[j] :=
  h.app j apps[j] (List.getElem?_eq_getElem hj)

theorem Holds.entry_cases (h : Holds apps t) (h₁ : i ≠ 1) (h₂ : i ≠ 2) :
    t.entry i = 0 ∨ ∃ j, ∃ hj : j < apps.length, slotOf j = i ∧ t.entry i = apps[j] := by
  by_cases hslot : ∃ j, j < apps.length ∧ slotOf j = i
  · obtain ⟨j, hj, rfl⟩ := hslot
    exact Or.inr ⟨j, hj, rfl, h.entry_of_lt hj⟩
  · left
    apply h.rest i h₁ h₂
    intro j hj heq
    exact hslot ⟨j, hj, heq⟩

theorem Holds.slotsInUse_eq (h : Holds apps t) (hne : ∀ a ∈ apps, a ≠ 0) :
    slotsInUse t = 2 + apps.length := by
  have hset : ((Finset.range smPkeys).filter fun i => i ≠ 1 ∧ i ≠ 2 ∧ t.entry i ≠ 0) =
      (Finset.range apps.length).image slotOf := by
    ext i
    rw [Finset.mem_filter, Finset.mem_range, Finset.mem_image]
    constructor
    · rintro ⟨_, h₁, h₂, hentry⟩
      rcases h.entry_cases h₁ h₂ with hzero | ⟨j, hj, hslot, _⟩
      · exact absurd hzero hentry
      · exact ⟨j, Finset.mem_range.mpr hj, hslot⟩
    · rintro ⟨j, hj, rfl⟩
      rw [Finset.mem_range] at hj
      refine ⟨slotOf_lt (Nat.lt_of_lt_of_le hj h.fits), (slotOf_ne j).1, (slotOf_ne j).2, ?_⟩
      rw [h.entry_of_lt hj]
      exact hne _ (List.getElem_mem hj)
  unfold slotsInUse
  rw [hset, Finset.card_image_of_injective _ fun _ _ => slotOf_inj, Finset.card_range]

theorem Holds.meets (hvfs : ∀ vf ∈ vfs, KeyAllowed vf) (hkeys : Collects apps (appKeys m vfs))
    {r : PKeyResult} (h : Holds apps r.pPKey) (hnil : apps ≠ [])
    (hnum : r.numPkeys = 2 + apps.length) : PKeyTableMeets m vfs r := by
  have hpos : 0 < apps.length := List.length_pos_iff.mpr hnil
  have hzero : pKeyValue 0 ∉ appValues m vfs := by
    intro hin
    obtain ⟨a, ha, hvalue⟩ := List.mem_map.mp ((mem_values_iff hvfs hkeys _).mpr hin)
    exact appKey_ne_zero hvfs hkeys ha hvalue
  constructor
  · intro v hv
    obtain ⟨a, ha, rfl⟩ := List.mem_map.mp ((mem_values_iff hvfs hkeys v).mpr hv)
    obtain ⟨j, hj, rfl⟩ := List.getElem_of_mem ha
    refine ⟨slotOf j, ⟨slotOf_lt (Nat.lt_of_lt_of_le hj h.fits), (slotOf_ne j).1,
      (slotOf_ne j).2, by rw [h.entry_of_lt hj]⟩, ?_⟩
    rintro i ⟨_, h₁, h₂, hvalue⟩
    rcases h.entry_cases h₁ h₂ with hempty | ⟨k, hk, rfl, hentry⟩
    · rw [hempty] at hvalue
      exact absurd hvalue.symm (appKey_ne_zero hvfs hkeys ha)
    · rw [hentry] at hvalue
      have hkmap : k < (apps.map pKeyValue).length := by rwa [List.length_map]
      have hjmap : j < (apps.map pKeyValue).length := by rwa [List.length_map]
      have hmap : (apps.map pKeyValue)[k] = (apps.map pKeyValue)[j] := by
        rw [List.getElem_map, List.getElem_map, hvalue]
      rw [(List.Nodup.getElem_inj_iff hkeys.nodup).mp hmap]
  · intro i h₁ h₂ hin
    rcases h.entry_cases h₁ h₂ with hempty | ⟨k, hk, rfl, hentry⟩
    · rw [hempty] at hin
      exact absurd hin hzero
    · rw [hentry]
      exact appKey_full hvfs hkeys (List.getElem_mem hk)
  · exact h.mngntSlots
  · have hentry : r.pPKey.entry 0 = apps[0] := h.entry_of_lt hpos
    have hin : pKeyValue (r.pPKey.entry 0) ∈ appValues m vfs := by
      rw [hentry]
      exact value_mem_appValues hvfs hkeys (List.getElem_mem hpos)
    rw [if_pos ⟨_, hin⟩]
    exact hin
  · intro i _ h₁ h₂ hnot
    rcases h.entry_cases h₁ h₂ with hempty | ⟨k, hk, rfl, hentry⟩
    · exact hempty
    · rw [hentry] at hnot
      exact absurd (value_mem_appValues hvfs hkeys (List.getElem_mem hk)) hnot
  · rw [hnum, h.slotsInUse_eq]
    intro a ha hz
    exact appKey_ne_zero hvfs hkeys ha (by rw [hz]; rfl)

theorem Holds.meets_default {r : PKeyResult} (h : Holds [stlDefaultAppPkey] r.pPKey)
    (hnone : appValues m vfs = ∅) (hnum : r.numPkeys = 3) : PKeyTableMeets m vfs r := by
  constructor
  · rw [hnone]
    exact fun v hv => absurd hv (Finset.notMem_empty v)
  · rw [hnone]
    exact fun i _ _ hi => absurd hi (Finset.notMem_empty _)
  · exact h.mngntSlots
  · rw [if_neg (by rw [hnone]; exact Finset.not_nonempty_empty)]
    exact h.entry_of_lt (j := 0) Nat.one_pos
  · intro i h₀ h₁ h₂ _
    apply h.rest i h₁ h₂
    intro j hj heq
    have hj0 : j = 0 := Nat.lt_one_iff.mp hj
    subst hj0
    exact h₀ heq.symm
  · rw [hnum, h.slotsInUse_eq]
    · rfl
    · intro a ha
      rw [List.mem_singleton.mp ha]
      decide

/-! ## The entries that every table gets -/

section Defaults

variable (n) (portIndex) (h : Filled apps mngnt s)

include h

theorem addDefaultPkeys_mngnt (hmngnt : mngnt = true) (hnil : apps ≠ []) :
    addDefaultPkeys n portIndex s = s := by
  obtain ⟨_, hone, hmore⟩ := h.entry
  have hpos : 0 < apps.length := List.length_pos_iff.mpr hnil
  have hdef : s.defaultDefined = true := h.defined.trans hmngnt
  unfold addDefaultPkeys
  rw [if_neg (by rw [hdef]; decide), if_neg]
  by_cases hk : apps.length = 1
  · rcases hone hk with hentry | ⟨hentry, _⟩ <;> omega
  · have hentry := hmore (by omega)
    omega

theorem addDefaultPkeys_mngntOnly (hmngnt : mngnt = true) (hnil : apps = []) :
    (addDefaultPkeys n portIndex s).pPKey.entry 0 = s.pkey ∧
      (addDefaultPkeys n portIndex s).pkeyEntryCntr = 3 ∧
      (addDefaultPkeys n portIndex s).isl = false := by
  have hdef : s.defaultDefined = true := h.defined.trans hmngnt
  have hused : s.isEntryZeroUsed = false := by
    rw [h.used, hnil]
    rfl
  have hentry : s.pkeyEntry = 2 := by
    rw [h.entry.1 (by rw [hnil]; rfl), hmngnt]
    rfl
  have hcntr : s.pkeyEntryCntr = 2 := by
    rw [h.cntr, hnil, hmngnt]
    rfl
  have happend : appendPkey s.pkey s = .ok { s with
      pkeyTable := s.pkeyTable.write 0 s.pkey
      pPKey := s.pPKey.write 0 s.pkey
      pkeyEntry := 1
      isEntryZeroUsed := true
      pkeyEntryCntr := s.pkeyEntryCntr + 1 } := by
    unfold appendPkey
    rw [hused]
    rfl
  have hdefault : addDefaultPkeys n portIndex s = { s with
      pkeyTable := s.pkeyTable.write 0 s.pkey
      pPKey := s.pPKey.write 0 s.pkey
      pkeyEntry := 1
      isEntryZeroUsed := true
      pkeyEntryCntr := s.pkeyEntryCntr + 1 } := by
    unfold addDefaultPkeys
    rw [if_neg (by rw [hdef]; decide), if_pos hentry, happend]
  rw [hdefault]
  refine ⟨entry_write_self (by decide), ?_, h.isl⟩
  show s.pkeyEntryCntr + 1 = 3
  rw [hcntr]

theorem addDefaultPkeys_none (hmngnt : mngnt = false) (hnil : apps = []) :
    Holds [stlDefaultAppPkey] (addDefaultPkeys n portIndex s).pPKey ∧
      (addDefaultPkeys n portIndex s).pkeyEntryCntr = 3 ∧
      (addDefaultPkeys n portIndex s).isl = false := by
  have hdef : s.defaultDefined = false := h.defined.trans hmngnt
  have hentry : s.pkeyEntry = 0 := by
    rw [h.entry.1 (by rw [hnil]; rfl), hmngnt]
    rfl
  have hcntr : s.pkeyEntryCntr = 0 := by
    rw [h.cntr, hnil, hmngnt]
    rfl
  have hdefault : addDefaultPkeys n portIndex s =
      smSetPortStlMngntPkey n portIndex stlDefaultFmPkey
        { s with
          pkeyEntry := 3
          pkeyEntryCntr := 3
          pPKey := s.pPKey.write 0 stlDefaultAppPkey } := by
    unfold addDefaultPkeys
    rw [if_pos (by rw [hdef]; decide), if_pos hentry]
    dsimp only
    rw [hentry, hcntr]
    rfl
  rw [hdefault]
  refine ⟨?_, ?_, ?_⟩
  · apply Holds.setMngnt
    constructor
    · intro j a hj
      have hj0 : j = 0 := Nat.lt_one_iff.mp (List.getElem?_eq_some_iff.mp hj).1
      subst hj0
      injection hj with hj
      show (s.pPKey.write 0 stlDefaultAppPkey).entry 0 = a
      rw [entry_write_self (by decide), hj]
    · intro i h₁ h₂ hi
      show (s.pPKey.write 0 stlDefaultAppPkey).entry i = 0
      have h₀ : 0 ≠ i := hi 0 Nat.one_pos
      rw [entry_write_of_ne h₀]
      apply h.rest i h₁ h₂
      rw [hnil]
      exact fun j hj => absurd hj (Nat.not_lt_zero j)
    · intro i hi
      show (s.pPKey.write 0 stlDefaultAppPkey).entry i = 0 ∨
        pKeyValue ((s.pPKey.write 0 stlDefaultAppPkey).entry i) = defaultPkey
      rw [entry_write_of_ne (by omega)]
      exact h.mngntSlots i hi
    · decide
  · rw [smSetPortStlMngntPkey_fields]
  · rw [smSetPortStlMngntPkey_fields]
    exact h.isl

theorem addDefaultPkeys_apps (hmngnt : mngnt = false) (hnil : apps ≠ []) :
    Holds apps (addDefaultPkeys n portIndex s).pPKey ∧
      (addDefaultPkeys n portIndex s).pkeyEntryCntr =
        apps.length + (if apps.length = 1 then 2 else 0) ∧
      (addDefaultPkeys n portIndex s).isl = false := by
  obtain ⟨_, hone, hmore⟩ := h.entry
  have hpos : 0 < apps.length := List.length_pos_iff.mpr hnil
  have hdef : s.defaultDefined = false := h.defined.trans hmngnt
  have hcntr : s.pkeyEntryCntr = apps.length := by
    rw [h.cntr, hmngnt]
    rfl
  have hentry : s.pkeyEntry = if apps.length = 1 then 1 else apps.length + 2 := by
    split
    · rename_i hk
      rcases hone hk with hentry | ⟨_, htrue⟩
      · exact hentry
      · rw [hmngnt] at htrue
        cases htrue
    · exact hmore (by omega)
  have hdefault : addDefaultPkeys n portIndex s =
      smSetPortStlMngntPkey n portIndex stlDefaultFmPkey
        (if s.pkeyEntry ≤ 1 then
          { s with pkeyEntry := s.pkeyEntry + 2, pkeyEntryCntr := s.pkeyEntryCntr + 2 }
        else s) := by
    unfold addDefaultPkeys
    rw [if_pos (by rw [hdef]; decide), if_neg (by split at hentry <;> omega)]
    rfl
  rw [hdefault]
  refine ⟨?_, ?_, ?_⟩
  · apply Holds.setMngnt
    split <;> exact h.holds
  · rw [smSetPortStlMngntPkey_fields]
    show (if s.pkeyEntry ≤ 1 then
      { s with pkeyEntry := s.pkeyEntry + 2, pkeyEntryCntr := s.pkeyEntryCntr + 2 }
      else s).pkeyEntryCntr = _
    rw [hentry]
    split
    · rw [if_pos (Nat.le_refl 1)]
      show s.pkeyEntryCntr + 2 = _
      rw [hcntr]
    · rw [if_neg (by omega), hcntr]
      rfl
  · rw [smSetPortStlMngntPkey_fields]
    show (if s.pkeyEntry ≤ 1 then
      { s with pkeyEntry := s.pkeyEntry + 2, pkeyEntryCntr := s.pkeyEntryCntr + 2 }
      else s).isl = false
    split <;> exact h.isl

theorem addDefaultPkeys_bounds :
    (addDefaultPkeys n portIndex s).pkeyEntryCntr ≤ 2 + max 1 apps.length ∧
      (addDefaultPkeys n portIndex s).isl = false := by
  by_cases hnil : apps = []
  · have hlen : apps.length = 0 := by rw [hnil, List.length_nil]
    cases hmngnt : mngnt with
    | true =>
      have hmain := addDefaultPkeys_mngntOnly n portIndex h hmngnt hnil
      exact ⟨by omega, hmain.2.2⟩
    | false =>
      have hmain := addDefaultPkeys_none n portIndex h hmngnt hnil
      exact ⟨by omega, hmain.2.2⟩
  · have hpos : 0 < apps.length := List.length_pos_iff.mpr hnil
    cases hmngnt : mngnt with
    | true =>
      rw [addDefaultPkeys_mngnt n portIndex h hmngnt hnil]
      refine ⟨?_, h.isl⟩
      rw [h.cntr, hmngnt]
      simp only [if_true]
      omega
    | false =>
      obtain ⟨_, hcntr, hisl⟩ := addDefaultPkeys_apps n portIndex h hmngnt hnil
      refine ⟨?_, hisl⟩
      rw [hcntr]
      split <;> omega

end Defaults

/-! ## The whole function -/

variable {d : PortData} {linked : Option (Node × PortData)} {enforcePkey forceAttributeRewrite : Bool}
  {device : Option PKeyTable} {virtualFabrics : VirtualFabrics} {r : PKeyResult}

theorem addVfPkeys_eq (hm : pkeyMembers n portIndex d linked = some m) :
    ∃ facesHost, addVfPkeys virtualFabrics n portIndex d linked s =
      virtualFabrics.vFabric.foldlM (addVfPkey n portIndex facesHost m) s := by
  unfold pkeyMembers at hm
  unfold addVfPkeys
  split at hm
  · rename_i hext
    rw [if_pos hext]
    cases linked with
    | none => cases hm
    | some l =>
      obtain ⟨linkedNode, linkedData⟩ := l
      dsimp only at hm ⊢
      split at hm
      · rename_i hca
        injection hm with hm
        rw [hca, ← hm]
        exact ⟨true, rfl⟩
      · cases hm
  · rename_i hext
    injection hm with hm
    rw [if_neg hext, ← hm]
    exact ⟨false, rfl⟩

theorem start_filled (enforcePkey : Bool) :
    Filled [] false
      { pkeyTable := PKeyTable.default, pPKey := PKeyTable.empty, enforcePkey := enforcePkey } where
  used := rfl
  defined := rfl
  cntr := rfl
  entry := ⟨fun _ => rfl, fun h => absurd h (by decide), fun h => absurd h (by decide)⟩
  app j a hj := by cases hj
  rest i _ _ _ := entry_empty i
  mngntSlots i _ := Or.inl (entry_empty i)
  fits := by decide
  leftover _ := Nat.zero_ne_add_one _
  isl := rfl

theorem smSetPortPkey_ok (hvfs : ∀ vf ∈ virtualFabrics.vFabric, KeyAllowed vf)
    (hm : pkeyMembers n portIndex d linked = some m)
    (hcap : CapacitySuffices n portIndex m virtualFabrics.vFabric)
    (hrun : smSetPortPkey (some virtualFabrics) n portIndex d linked enforcePkey
      forceAttributeRewrite device = .ok r) :
    ∃ apps s, Collects apps (appKeys m virtualFabrics.vFabric) ∧
      Filled apps (hasMngntKey m virtualFabrics.vFabric) s ∧
      r.pPKey = (addDefaultPkeys n portIndex s).pPKey ∧
      r.numPkeys = (addDefaultPkeys n portIndex s).pkeyEntryCntr := by
  unfold smSetPortPkey at hrun
  dsimp only at hrun
  obtain ⟨facesHost, hfold⟩ := addVfPkeys_eq (s := { pkeyTable := PKeyTable.default
                                                     pPKey := PKeyTable.empty
                                                     enforcePkey := enforcePkey }) hm
  rw [hfold] at hrun
  cases hloop : virtualFabrics.vFabric.foldlM (addVfPkey n portIndex facesHost m)
      { pkeyTable := PKeyTable.default, pPKey := PKeyTable.empty, enforcePkey := enforcePkey } with
  | error e =>
    rw [hloop] at hrun
    cases hrun
  | ok s =>
    rw [hloop] at hrun
    dsimp only at hrun
    obtain ⟨apps, hkeys, hfilled⟩ :=
      foldlM_addVfPkey_filled hvfs Collects.nil (start_filled enforcePkey) hloop
    rw [List.nil_append] at hkeys
    rw [Bool.false_or] at hfilled
    refine ⟨apps, s, hkeys, hfilled, ?_⟩
    obtain ⟨hle, hisl⟩ := addDefaultPkeys_bounds n portIndex hfilled
    cases hpcap : pkeyCap n portIndex with
    | none =>
      rw [hpcap] at hrun
      injection hrun with hrun
      rw [← hrun]
      exact ⟨rfl, rfl⟩
    | some cap =>
      have hroom := hcap cap hpcap
      rw [card_appValues hvfs hkeys] at hroom
      have htrunc : truncatePkeys cap (addDefaultPkeys n portIndex s) =
          addDefaultPkeys n portIndex s := by
        unfold truncatePkeys
        exact if_neg (by omega)
      rw [hpcap] at hrun
      dsimp only at hrun
      rw [htrunc] at hrun
      injection hrun with hrun
      rw [← hrun]
      constructor
      · cases device with
        | none => rfl
        | some t => exact if_neg fun h => Bool.noConfusion (hisl.symm.trans h.1)
      · exact Nat.min_eq_right (by omega)

/-- The table is as promised exactly if the port has the management key and another one, or
neither more than one other key nor the management key. -/
theorem smSetPortPkey_meets_iff (hvfs : ∀ vf ∈ virtualFabrics.vFabric, KeyAllowed vf)
    (hm : pkeyMembers n portIndex d linked = some m)
    (hcap : CapacitySuffices n portIndex m virtualFabrics.vFabric)
    (hrun : smSetPortPkey (some virtualFabrics) n portIndex d linked enforcePkey
      forceAttributeRewrite device = .ok r) :
    PKeyTableMeets m virtualFabrics.vFabric r ↔
      if hasMngntKey m virtualFabrics.vFabric then
        (appValues m virtualFabrics.vFabric).Nonempty
      else (appValues m virtualFabrics.vFabric).card ≤ 1 := by
  obtain ⟨apps, s, hkeys, h, htable, hnum⟩ := smSetPortPkey_ok hvfs hm hcap hrun
  have hcard := card_appValues hvfs hkeys
  have hempty : apps = [] → appValues m virtualFabrics.vFabric = ∅ := by
    intro hnil
    rw [hnil, List.length_nil] at hcard
    exact Finset.card_eq_zero.mp hcard
  cases hmngnt : hasMngntKey m virtualFabrics.vFabric with
  | true =>
    rw [if_pos rfl]
    by_cases hnil : apps = []
    · have hnone := hempty hnil
      obtain ⟨hentry, _, _⟩ := addDefaultPkeys_mngntOnly n portIndex h hmngnt hnil
      rw [hnone]
      refine iff_of_false ?_ Finset.not_nonempty_empty
      intro hmeets
      have hzero := hmeets.entryZero
      rw [if_neg (by rw [hnone]; exact Finset.not_nonempty_empty), htable, hentry] at hzero
      exact h.leftover hnil hzero
    · have hsame := addDefaultPkeys_mngnt n portIndex h hmngnt hnil
      rw [hsame] at htable hnum
      have hpos : 0 < apps.length := List.length_pos_iff.mpr hnil
      refine iff_of_true ?_ (Finset.card_pos.mp (by omega))
      apply Holds.meets hvfs hkeys (htable ▸ h.holds) hnil
      rw [hnum, h.cntr, hmngnt]
      exact Nat.add_comm _ 2
  | false =>
    rw [if_neg Bool.false_ne_true]
    by_cases hnil : apps = []
    · obtain ⟨hholds, hcntr, _⟩ := addDefaultPkeys_none n portIndex h hmngnt hnil
      have hnone := hempty hnil
      refine iff_of_true ?_ (by rw [hnone]; decide)
      exact Holds.meets_default (htable ▸ hholds) hnone (hnum.trans hcntr)
    · obtain ⟨hholds, hcntr, _⟩ := addDefaultPkeys_apps n portIndex h hmngnt hnil
      have hpos : 0 < apps.length := List.length_pos_iff.mpr hnil
      by_cases hone : apps.length = 1
      · rw [if_pos hone] at hcntr
        refine iff_of_true ?_ (by omega)
        apply Holds.meets hvfs hkeys (htable ▸ hholds) hnil
        rw [hnum, hcntr]
        exact Nat.add_comm _ 2
      · rw [if_neg hone] at hcntr
        refine iff_of_false ?_ (by omega)
        intro hmeets
        have hcount := hmeets.numPkeys
        rw [hnum, hcntr, htable, hholds.slotsInUse_eq] at hcount
        · omega
        · intro a ha hz
          exact appKey_ne_zero hvfs hkeys ha (by rw [hz]; rfl)

/-! A host that is a full member of the management virtual fabric, and of no other. -/

def adminVfs : VirtualFabrics := { vFabric := [{ index := 0, pkey := 0x7fff }] }

def adminHost : Node := { index := 1, nodeType := .ca, numPorts := 1 }

def adminPort : PortData := { vfMember := {0}, fullPKeyMember := {0} }

def adminResult : PKeyResult :=
  { pPKey := ((PKeyTable.empty.write 1 0x7fff).write 2 0xffff).write 0 0xffff
    numPkeys := 3
    enforcePkey := false
    vlHighLimit := 0 }

theorem adminHost_run :
    smSetPortPkey (some adminVfs) adminHost 1 adminPort none false false none =
      .ok adminResult := rfl

def hostVfs : VirtualFabrics :=
  { vFabric := [{ index := 0, pkey := 0x7fff }, { index := 1, pkey := 1 },
      { index := 2, pkey := 2 }] }

def hostPort : PortData := { vfMember := {0, 1, 2}, fullPKeyMember := {2} }

def hostResult : PKeyResult :=
  { pPKey := (((PKeyTable.empty.write 1 0x7fff).write 2 0).write 0 1).write 3 0x8002
    numPkeys := 4
    enforcePkey := false
    vlHighLimit := 0 }

theorem hostPort_run :
    smSetPortPkey (some hostVfs) adminHost 1 hostPort none false false none = .ok hostResult := rfl

theorem keyAllowed_adminVfs : ∀ vf ∈ adminVfs.vFabric, KeyAllowed vf := by
  unfold KeyAllowed
  decide

theorem keyAllowed_hostVfs : ∀ vf ∈ hostVfs.vFabric, KeyAllowed vf := by
  unfold KeyAllowed
  decide

theorem adminHost_capacity {m : PortData} {vfs : List VF}
    (hfew : 2 + max 1 (appValues m vfs).card ≤ 32) :
    CapacitySuffices adminHost 1 m vfs := by
  intro cap hcap
  obtain rfl : 32 = cap := Option.some.inj hcap
  exact hfew

/-- The management key alone is not enough, with two others the table is as promised. -/
theorem smSetPortPkey_meets_iff_admin :
    (PKeyTableMeets adminPort adminVfs.vFabric adminResult ↔
      if hasMngntKey adminPort adminVfs.vFabric then
        (appValues adminPort adminVfs.vFabric).Nonempty
      else (appValues adminPort adminVfs.vFabric).card ≤ 1) ∧
    PKeyTableMeets hostPort hostVfs.vFabric hostResult := by
  constructor
  · exact smSetPortPkey_meets_iff keyAllowed_adminVfs rfl (adminHost_capacity (by decide))
      adminHost_run
  · apply (smSetPortPkey_meets_iff keyAllowed_hostVfs rfl (adminHost_capacity (by decide))
      hostPort_run).mpr
    decide

/-- Slot 0 gets the management key, which the last virtual fabric has left. -/
theorem smSetPortPkey_misses :
    smSetPortPkey (some adminVfs) adminHost 1 adminPort none false false none =
        .ok adminResult ∧
      ¬PKeyTableMeets adminPort adminVfs.vFabric adminResult := by
  refine ⟨adminHost_run, ?_⟩
  intro h
  have hnone : ¬(appValues adminPort adminVfs.vFabric).Nonempty := by decide
  have hzero := h.entryZero
  rw [if_neg hnone] at hzero
  have hentry : adminResult.pPKey.entry 0 = 0xffff := entry_write_self (by decide)
  rw [hentry] at hzero
  exact absurd hzero (by decide)

end OpaFm.Partition
