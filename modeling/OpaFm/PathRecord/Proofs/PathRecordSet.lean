import OpaFm.Lib.Fold
import OpaFm.Partition.Proofs.ServiceIds
import OpaFm.PathRecord.Proofs.PathLids
import OpaFm.PathRecord.Proofs.VfGroups
import OpaFm.PathRecord.Proofs.Walk

/-!
# What a path query appends

All records of a query agree in the fields that the template compares, so they pass it together or
not at all.  The list of all records is cut at one place, and its entries differ unless the loop
over LIDs repeats a pair.
-/

namespace OpaFm.PathRecord

open OpaFm.Fabric OpaFm.Lib OpaFm.Multicast OpaFm.Partition

variable {f : PathFabric} {env : PathEnv} {q : PathQuery} {src dst : PathEnd f} {p : PathParams}

/-! ## The walk with more fuel -/

theorem hopWalk_mono {w : WalkStart} {fuel fuel' : Nat} (hle : fuel ≤ fuel') {s : HopState}
    {r : Option HopState} (h : hopWalk f w fuel s = some r) : hopWalk f w fuel' s = some r := by
  induction fuel generalizing fuel' s with
  | zero => cases h
  | succ fuel ih =>
    cases fuel' with
    | zero => omega
    | succ fuel' =>
      rw [hopWalk] at h ⊢
      cases hnext : s.nextNodep with
      | none => rwa [hnext] at h
      | some n =>
        rw [hnext] at h
        dsimp only at h ⊢
        split_ifs at h ⊢ with hlast
        · exact h
        · cases hport : w.egress f n with
          | none => rwa [hport] at h
          | some port =>
            rw [hport] at h
            dsimp only at h ⊢
            split_ifs at h ⊢ with hsmall
            · exact h
            · exact ih (by omega) h

theorem pathParams_mono {fuel fuel' : Nat} (hle : fuel ≤ fuel') {r : Option PathParams}
    (h : pathParams fuel src dst = some r) : pathParams fuel' src dst = some r := by
  cases hstart : hopStart src dst with
  | none =>
    rw [← h]
    unfold hopStart at hstart
    unfold pathParams pathWalk
    split_ifs at hstart with hnear
    · rcases hnear with hsame | hdirect
      · rw [if_pos hsame, if_pos hsame]
      · rw [if_pos hdirect, if_pos hdirect]
    · rw [hstart]
  | some w =>
    rw [pathParams_of_hopStart hstart] at h ⊢
    obtain ⟨r', hr', heq⟩ := Option.map_eq_some_iff.mp h
    exact Option.map_eq_some_iff.mpr ⟨r', hopWalk_mono hle hr', heq⟩

theorem pathParams_unique {fuel fuel' : Nat} {r r' : Option PathParams}
    (h : pathParams fuel src dst = some r) (h' : pathParams fuel' src dst = some r') : r = r' := by
  have hmax := pathParams_mono (Nat.le_max_left fuel fuel') h
  rw [pathParams_mono (Nat.le_max_right fuel fuel') h', Option.some.injEq] at hmax
  exact hmax.symm

/-! ## The template -/

def passesTemplate (q : PathQuery) : Bool := saTemplateTestNoinc (createIbMask q.mask) q.record {}

theorem saTemplateTestNoinc_pathRecord (mask : CompMask) (query : IbPathRecord) (hopCount : Nat)
    (x : VfPath × Nat × Nat) :
    saTemplateTestNoinc (createIbMask mask) query (pathRecord env q src dst hopCount x) =
      saTemplateTestNoinc (createIbMask mask) query {} := by
  simp [saTemplateTestNoinc, pathRecordFields, createIbMask, manualComponents, pathRecord,
    List.zipIdx]

/-! ## Filling -/

def recordLimit (env : PathEnv) (numPath : Nat) : Nat :=
  if numPath = 0 then env.saMaxPathRecords else min env.saMaxPathRecords numPath

def room (env : PathEnv) (numPath before : Nat) : Nat := max 1 (recordLimit env numPath - before)

theorem reachedLimit_eq (env : PathEnv) (numPath : Nat) (records : List IbPathRecord) :
    reachedLimit env numPath records = decide (recordLimit env numPath ≤ records.length) := by
  unfold reachedLimit recordLimit
  rw [decide_eq_decide]
  split_ifs with h
  · simp [h]
  · rw [min_le_iff]
    simp [h]

def fillsOf (lids : List (Nat × Nat)) (groups : List VfPath) : List (VfPath × Nat × Nat) :=
  groups.flatMap fun g => lids.map fun l => (g, l)

theorem fillLids_of_pass (h : passesTemplate q = true) (hopCount numPath : Nat) (g : VfPath)
    (lids : List (Nat × Nat)) (records : List IbPathRecord) :
    fillLids env q src dst hopCount numPath g lids records =
      fillUntil (fun n => decide (recordLimit env numPath ≤ n))
        (lids.map fun l => pathRecord env q src dst hopCount (g, l)) records := by
  induction lids generalizing records with
  | nil => rfl
  | cons l lids ih =>
    have hfill : saFillPathRecord env q src dst hopCount (g, l) records =
        records ++ [pathRecord env q src dst hopCount (g, l)] := by
      simp only [saFillPathRecord, saTemplateTestNoinc_pathRecord]
      exact if_pos h
    simp only [fillLids, List.map_cons, fillUntil, hfill, reachedLimit_eq, List.length_append,
      List.length_singleton, ih]

theorem fillLids_of_not_pass (h : passesTemplate q = false) (hopCount numPath : Nat) (g : VfPath)
    (lids : List (Nat × Nat)) (records : List IbPathRecord) :
    (fillLids env q src dst hopCount numPath g lids records).1 = records := by
  induction lids with
  | nil => rfl
  | cons l lids ih =>
    have hfill : saFillPathRecord env q src dst hopCount (g, l) records = records := by
      simp only [saFillPathRecord, saTemplateTestNoinc_pathRecord]
      exact if_neg (by rw [← passesTemplate, h]; exact Bool.false_ne_true)
    simp only [fillLids, hfill]
    split_ifs
    · rfl
    · exact ih

theorem fillVfs_of_pass (h : passesTemplate q = true) (numPath : Nat) (lids : List (Nat × Nat))
    (l : List Nat) (s : Finset Nat) (records : List IbPathRecord) :
    fillVfs env q src dst p numPath lids l s records =
      (fillUntil (fun n => decide (recordLimit env numPath ≤ n))
        ((fillsOf lids (vfGroups env.vfs p l s)).map (pathRecord env q src dst p.hopCount))
        records).1 := by
  induction l generalizing s records with
  | nil => rfl
  | cons vf rest ih =>
    rw [fillVfs, vfGroups]
    by_cases hvf : vf ∈ s
    · rw [if_pos hvf, if_pos hvf]
      cases hv : env.vfs.vFabric[vf]? with
      | none => exact ih s records
      | some v =>
        simp only [fillsOf, List.flatMap_cons, List.map_append, fillUntil_append, List.map_map,
          Function.comp_def, fillLids_of_pass h, ih]
        split_ifs <;> rfl
    · rw [if_neg hvf, if_neg hvf]
      exact ih s records

theorem fillVfs_of_not_pass (h : passesTemplate q = false) (numPath : Nat)
    (lids : List (Nat × Nat)) (l : List Nat) (s : Finset Nat) (records : List IbPathRecord) :
    fillVfs env q src dst p numPath lids l s records = records := by
  induction l generalizing s records with
  | nil => rfl
  | cons vf rest ih =>
    rw [fillVfs]
    by_cases hvf : vf ∈ s
    · rw [if_pos hvf]
      cases hv : env.vfs.vFabric[vf]? with
      | none => exact ih s records
      | some v =>
        simp only [fillLids_of_not_pass h, ih]
        split_ifs <;> rfl
    · rw [if_neg hvf]
      exact ih s records

/-! ## A call -/

theorem selectLids_len_pos (e : EndPort) (lid : Nat) : (selectLids e lid).2 ≠ 0 := by
  have hpos : 0 < 2 ^ e.lmc := Nat.two_pow_pos e.lmc
  have hle : 2 ^ e.lmc ≤ 2 ^ 7 := Nat.pow_le_pow_right (by decide) e.lmc_le
  unfold selectLids
  split_ifs
  · dsimp only
    omega
  · exact Nat.one_ne_zero

def fills (env : PathEnv) (q : PathQuery) (src dst : PathEnd f) (dlid : BitVec 16)
    (p : PathParams) : List (VfPath × Nat × Nat) :=
  fillsOf (pathPairs env.pathSelection src.endPort q.slid.toNat dst.endPort dlid.toNat)
    (vfGroups env.vfs p (List.range maxVfabrics) (selectedVfs env q src dst))

structure Issues (env : PathEnv) (q : PathQuery) (src dst : PathEnd f) (p : PathParams) : Prop where
  bitsetInit : env.bitsetInit dst.addr = true
  path : ∃ fuel, pathParams fuel src dst = some (some p)
  template : passesTemplate q = true

theorem vfGroups_empty (vfs : PathVFs) (p : PathParams) (l : List Nat) :
    vfGroups vfs p l ∅ = [] := by
  induction l with
  | nil => rfl
  | cons vf l ih => rw [vfGroups, if_neg (Finset.notMem_empty vf), ih]

theorem saPathRecordSet_cases {fuel numPath : Nat} {dlid : BitVec 16}
    {records : List IbPathRecord} {r : PathStatus × List IbPathRecord}
    (h : saPathRecordSet env q fuel records numPath src dst dlid = some r) :
    (env.bitsetInit dst.addr = false ∧ r = (.nomem, records)) ∨
    (env.bitsetInit dst.addr = true ∧ selectedVfs env q src dst = ∅ ∧ r = (.ok, records)) ∨
    (env.bitsetInit dst.addr = true ∧ pathParams fuel src dst = some none ∧
      r = (.bad, records)) ∨
    ∃ p, env.bitsetInit dst.addr = true ∧ pathParams fuel src dst = some (some p) ∧
      r = (.ok, fillVfs env q src dst p numPath
        (pathPairs env.pathSelection src.endPort q.slid.toNat dst.endPort dlid.toNat)
        (List.range maxVfabrics) (selectedVfs env q src dst) records) := by
  unfold saPathRecordSet at h
  dsimp only at h
  cases hinit : env.bitsetInit dst.addr with
  | false =>
    rw [if_pos (by simp [hinit])] at h
    exact .inl ⟨rfl, (Option.some.inj h).symm⟩
  | true =>
    rw [if_neg (by simp [hinit])] at h
    by_cases hempty : selectedVfs env q src dst = ∅
    · rw [if_pos hempty] at h
      exact .inr (.inl ⟨rfl, hempty, (Option.some.inj h).symm⟩)
    · rw [if_neg hempty] at h
      obtain ⟨params, hparams, h⟩ := Option.bind_eq_some_iff.mp h
      cases params with
      | none => exact .inr (.inr (.inl ⟨rfl, hparams, (Option.some.inj h).symm⟩))
      | some p =>
        dsimp only at h
        rw [if_neg fun hlens => selectLids_len_pos _ _ hlens.1] at h
        obtain ⟨lids, hlids, h⟩ := Option.map_eq_some_iff.mp h
        have hpairs := pathLids_eq q.slid.isLt dlid.isLt hlids
        exact .inr (.inr (.inr ⟨p, rfl, hparams, hpairs ▸ h.symm⟩))

theorem saPathRecordSet_of_issues (hissues : Issues env q src dst p) {fuel numPath : Nat}
    {dlid : BitVec 16} {records : List IbPathRecord} {r : PathStatus × List IbPathRecord}
    (h : saPathRecordSet env q fuel records numPath src dst dlid = some r) :
    r = (.ok, records ++ ((fills env q src dst dlid p).map
      (pathRecord env q src dst p.hopCount)).take (room env numPath records.length)) := by
  obtain ⟨fuel', hpath⟩ := hissues.path
  rcases saPathRecordSet_cases h with ⟨hinit, -⟩ | ⟨-, hempty, rfl⟩ | ⟨-, hbad, -⟩ |
    ⟨p', -, hpath', rfl⟩
  · rw [hissues.bitsetInit] at hinit
    cases hinit
  · rw [fills, hempty, vfGroups_empty, fillsOf, List.flatMap_nil, List.map_nil, List.take_nil,
      List.append_nil]
  · cases pathParams_unique hpath hbad
  · cases pathParams_unique hpath hpath'
    have hfull : ∀ n, decide (recordLimit env numPath ≤ n) = true ↔ recordLimit env numPath ≤ n :=
      fun n => decide_eq_true_iff
    rw [fillVfs_of_pass hissues.template, fillUntil_eq_take hfull]
    rfl

theorem saPathRecordSet_returns (hissues : Issues env q src dst p) (dlid : BitVec 16) :
    ∃ enough, ∀ fuel, enough ≤ fuel → ∀ records numPath,
      ∃ r, saPathRecordSet env q fuel records numPath src dst dlid = some r := by
  obtain ⟨walk, hwalk⟩ := hissues.path
  obtain ⟨pairs, hpairs⟩ :=
    pathLids_ends env.pathSelection src.endPort dst.endPort q.slid.isLt dlid.isLt
  apply Exists.intro (max walk pairs)
  intro fuel hle records numPath
  have hparams := pathParams_mono ((Nat.le_max_left walk pairs).trans hle) hwalk
  have hlids := pathLids_mono ((Nat.le_max_right walk pairs).trans hle) hpairs
  unfold saPathRecordSet
  rw [if_neg (by simp [hissues.bitsetInit])]
  dsimp only
  by_cases hempty : selectedVfs env q src dst = ∅
  · rw [if_pos hempty]
    exact ⟨_, rfl⟩
  · rw [if_neg hempty, hparams, Option.bind_some]
    dsimp only
    rw [if_neg fun hlens => selectLids_len_pos _ _ hlens.1, hlids]
    exact ⟨_, rfl⟩

theorem saPathRecordSet_of_not_issues (hissues : ∀ p, ¬Issues env q src dst p)
    {fuel numPath : Nat} {dlid : BitVec 16} {records : List IbPathRecord}
    {r : PathStatus × List IbPathRecord}
    (h : saPathRecordSet env q fuel records numPath src dst dlid = some r) : r.2 = records := by
  rcases saPathRecordSet_cases h with ⟨-, rfl⟩ | ⟨-, -, rfl⟩ | ⟨-, -, rfl⟩ |
    ⟨p, hinit, hpath, rfl⟩
  · rfl
  · rfl
  · rfl
  · apply fillVfs_of_not_pass
    rw [← Bool.not_eq_true]
    intro hpass
    exact hissues p ⟨hinit, ⟨fuel, hpath⟩, hpass⟩

/-! ## The list of all records -/

theorem lt_of_getElem?_vFabric {vfs : PathVFs} {k : Nat} {v : PathVF}
    (h : vfs.vFabric[k]? = some v) : k < maxVfabrics :=
  (List.getElem?_eq_some_iff.mp h).1.trans_le vfs.length_le

theorem exists_of_mem_selectedVfs {k : Nat} (h : k ∈ selectedVfs env q src dst) :
    ∃ v, env.vfs.vFabric[k]? = some v := by
  have hposition : ∀ v, env.vfs.services.vFabric[k]? = some v →
      ∃ v, env.vfs.vFabric[k]? = some v := by
    intro v hv
    rw [PathVFs.services, List.getElem?_map, Option.map_eq_some_iff] at hv
    obtain ⟨v', hv', -⟩ := hv
    exact ⟨v', hv'⟩
  unfold selectedVfs at h
  dsimp only at h
  split_ifs at h with hcheck
  · unfold smGetValidatedServiceIDVFs at h
    rw [foldl_sidSearchStep, List.take_of_length_le env.vfs.services.length_le] at h
    split_ifs at h
    · obtain hno | ⟨v, hv, -⟩ := mem_foldl_selectVf.mp h
      · exact absurd hno (Finset.notMem_empty k)
      · exact hposition v (mem_zipIdx_vFabric.mp hv)
    · obtain hno | ⟨v, hv, -⟩ := mem_foldl_selectVf.mp h
      · exact absurd hno (Finset.notMem_empty k)
      · exact hposition v (mem_zipIdx_vFabric.mp hv)
  · obtain ⟨v, hv, -⟩ := mem_smGetValidatedVFs.mp h
    exact hposition v hv

theorem range_eq_range' : List.range maxVfabrics = List.range' 0 maxVfabrics :=
  List.range_eq_range'

theorem exists_of_mem_groups {g : VfPath}
    (hg : g ∈ vfGroups env.vfs p (List.range maxVfabrics) (selectedVfs env q src dst)) :
    ∃ k ∈ selectedVfs env q src dst, ∃ v, env.vfs.vFabric[k]? = some v ∧ g.key = v.key := by
  rw [range_eq_range'] at hg
  obtain ⟨k, -, hk, v, hv, hkey⟩ := exists_of_mem_vfGroups (Nat.zero_add _) hg
  exact ⟨k, hk, v, hv, hkey⟩

theorem groups_eq_nil_iff :
    vfGroups env.vfs p (List.range maxVfabrics) (selectedVfs env q src dst) = [] ↔
      selectedVfs env q src dst = ∅ := by
  constructor
  · intro h
    apply Finset.eq_empty_of_forall_notMem
    intro k hk
    obtain ⟨v, hv⟩ := exists_of_mem_selectedVfs hk
    have hin : k ∈ List.range' 0 maxVfabrics :=
      List.mem_range'_1.mpr ⟨Nat.zero_le k, by simpa using lt_of_getElem?_vFabric hv⟩
    obtain ⟨g, hg, -⟩ := exists_group (p := p) (Nat.zero_add _) hin hk hv
    rw [← range_eq_range', h] at hg
    cases hg
  · intro h
    rw [h, vfGroups_empty]

theorem sl_mod_of_mem_groups {g : VfPath}
    (hg : g ∈ vfGroups env.vfs p (List.range maxVfabrics) (selectedVfs env q src dst)) :
    g.sl % 16 = g.sl := by
  obtain ⟨k, -, v, hv, hkey⟩ := exists_of_mem_groups hg
  have hsl : g.sl = v.baseSl := (Prod.mk.inj hkey).2
  rw [hsl]
  exact Nat.mod_eq_of_lt (env.vfs.baseSl_lt v (List.mem_of_getElem? hv))

def recordKey (env : PathEnv) (q : PathQuery) (src dst : PathEnd f) (hopCount : Nat)
    (x : VfPath × Nat × Nat) : Nat × Nat × Nat × Nat :=
  let record := pathRecord env q src dst hopCount x
  (record.slid, record.dlid, pKeyValue x.1.pkey, record.sl)

theorem nodup_flatMap_map {α β γ δ : Type*} {key : α → β} {as : List α} {ls : List γ}
    {f : α → γ → δ} (hkeys : (as.map key).Nodup)
    (hf : ∀ a ∈ as, ∀ a' ∈ as, ∀ l l', f a l = f a' l' ↔ key a = key a' ∧ l = l') :
    (as.flatMap fun a => ls.map (f a)).Nodup ↔ as = [] ∨ ls.Nodup := by
  rw [List.nodup_flatMap]
  constructor
  · rintro ⟨hall, -⟩
    cases as with
    | nil => exact .inl rfl
    | cons a as => exact .inr (List.Nodup.of_map _ (hall a List.mem_cons_self))
  · rintro (rfl | hls)
    · exact ⟨(fun _ h => nomatch h), .nil⟩
    · constructor
      · intro a ha
        exact List.Nodup.map_on (fun l _ l' _ h => ((hf a ha a ha l l').mp h).2) hls
      · rw [List.Nodup, List.pairwise_map] at hkeys
        refine hkeys.imp_of_mem ?_
        intro a a' ha ha' hne x hx hx'
        obtain ⟨l, -, rfl⟩ := List.mem_map.mp hx
        obtain ⟨l', -, heq⟩ := List.mem_map.mp hx'
        exact hne ((hf a' ha' a ha l' l).mp heq).1.symm

theorem nodup_recordKey_fills (dlid : BitVec 16) :
    ((fills env q src dst dlid p).map (recordKey env q src dst p.hopCount)).Nodup ↔
      selectedVfs env q src dst = ∅ ∨
        PairsHarmless env.pathSelection src.endPort q.slid.toNat dst.endPort dlid.toNat := by
  have hkeys : ((vfGroups env.vfs p (List.range maxVfabrics)
      (selectedVfs env q src dst)).map VfPath.key).Nodup := by
    rw [range_eq_range']
    exact nodup_key_vfGroups (Nat.zero_add _)
  rw [fills, fillsOf, List.map_flatMap]
  simp only [List.map_map]
  rw [nodup_flatMap_map hkeys, groups_eq_nil_iff, pathPairs_nodup_iff]
  intro g hg g' hg' l l'
  have hsl := sl_mod_of_mem_groups hg
  have hsl' := sl_mod_of_mem_groups hg'
  simp only [Function.comp_apply, recordKey, pathRecord, hsl, hsl', VfPath.key, Prod.ext_iff]
  tauto

def selectedSharing (env : PathEnv) (q : PathQuery) (src dst : PathEnd f) (g : VfPath) :
    Set PathVF :=
  {v | ∃ k ∈ selectedVfs env q src dst, env.vfs.vFabric[k]? = some v ∧ g.key = v.key}

theorem sharing_range (g : VfPath) :
    sharing env.vfs (selectedVfs env q src dst) (List.range' 0 maxVfabrics) g =
      selectedSharing env q src dst g := by
  ext v
  rw [mem_sharing]
  constructor
  · rintro ⟨k, -, hk, hv, hkey⟩
    exact ⟨k, hk, hv, hkey⟩
  · rintro ⟨k, hk, hv, hkey⟩
    have hlt := lt_of_getElem?_vFabric hv
    exact ⟨k, List.mem_range'_1.mpr (by omega), hk, hv, hkey⟩

/-- What path queries promise about the records of a source and a destination. -/
structure SetMeets (env : PathEnv) (q : PathQuery) (src dst : PathEnd f) (dlid : BitVec 16)
    (p : PathParams) : Prop where
  distinct : ((fills env q src dst dlid p).map (recordKey env q src dst p.hopCount)).Nodup
  represented : ∀ k ∈ selectedVfs env q src dst, ∀ v, env.vfs.vFabric[k]? = some v →
    ∃ g lids, (g, lids) ∈ fills env q src dst dlid p ∧ g.key = v.key ∧
      Merged p (selectedSharing env q src dst g) g
  cut : ∃ enough, ∀ fuel, enough ≤ fuel → ∀ records numPath,
    saPathRecordSet env q fuel records numPath src dst dlid =
      some (.ok, records ++ ((fills env q src dst dlid p).map
        (pathRecord env q src dst p.hopCount)).take (room env numPath records.length))

theorem exists_fill {dlid : BitVec 16} {k : Nat} (hk : k ∈ selectedVfs env q src dst) {v : PathVF}
    (hv : env.vfs.vFabric[k]? = some v) :
    ∃ g lids, (g, lids) ∈ fills env q src dst dlid p ∧ g.key = v.key ∧
      Merged p (selectedSharing env q src dst g) g := by
  have hlt := lt_of_getElem?_vFabric hv
  obtain ⟨g, hg, hkey, hmerged⟩ :=
    exists_group (p := p) (Nat.zero_add _) (List.mem_range'_1.mpr (by omega)) hk hv
  obtain ⟨lids, hlids⟩ := List.exists_mem_of_ne_nil _
    (pathPairs_ne_nil env.pathSelection src.endPort dst.endPort q.slid.toNat dlid.toNat)
  rw [sharing_range] at hmerged
  rw [← range_eq_range'] at hg
  exact ⟨g, lids, List.mem_flatMap.mpr ⟨g, hg, List.mem_map.mpr ⟨lids, hlids, rfl⟩⟩, hkey, hmerged⟩

/-- A query is answered as promised unless it fixes one LID and phase 1 of the iterator repeats
LIDs of phase 0; a call that issues no records appends none. -/
theorem saPathRecordSet_meets_iff (env : PathEnv) (q : PathQuery) (src dst : PathEnd f)
    (dlid : BitVec 16) :
    ((∀ p, Issues env q src dst p → SetMeets env q src dst dlid p) ↔
      ((∃ p, Issues env q src dst p) → selectedVfs env q src dst ≠ ∅ →
        PairsHarmless env.pathSelection src.endPort q.slid.toNat dst.endPort dlid.toNat)) ∧
    ((∀ p, ¬Issues env q src dst p) → ∀ fuel records numPath r,
      saPathRecordSet env q fuel records numPath src dst dlid = some r → r.2 = records) := by
  refine ⟨⟨?_, ?_⟩, fun hnone fuel records numPath r hr =>
    saPathRecordSet_of_not_issues hnone hr⟩
  · rintro hmeets ⟨p, hissues⟩ hne
    exact ((nodup_recordKey_fills dlid).mp (hmeets p hissues).distinct).resolve_left hne
  · intro hharmless p hissues
    constructor
    · apply (nodup_recordKey_fills dlid).mpr
      by_cases hempty : selectedVfs env q src dst = ∅
      · exact .inl hempty
      · exact .inr (hharmless ⟨p, hissues⟩ hempty)
    · intro k hk v hv
      exact exists_fill hk hv
    · obtain ⟨enough, hreturns⟩ := saPathRecordSet_returns hissues dlid
      apply Exists.intro enough
      intro fuel hle records numPath
      obtain ⟨r, hr⟩ := hreturns fuel hle records numPath
      rw [hr, saPathRecordSet_of_issues hissues hr]

/-! ## Two hosts at one switch -/

def starHost (i numPorts : Nat) (far : Nat → Nat) (portData : Nat → PortData) : Node :=
  { index := i
    nodeType := .ca
    numPorts := numPorts
    port := fun j =>
      { index := j
        state := .active
        nodeno := some 0
        portno := some (far j)
        portData := some (portData j) } }

def starPort (lid lmc : Nat) : PortData :=
  { lid := lid
    lmc := lmc
    maxVlMtu := stlMtu8192
    vfMember := {0}
    fullPKeyMember := {0} }

def starLeft : Node := starHost 1 1 (fun _ => 1) fun _ => starPort 8 1

def starRight : Node :=
  starHost 2 2 (fun j => j + 1) fun j => if j = 2 then starPort 32 0 else starPort 16 2

def starSwitch : Node :=
  { index := 0
    numPorts := 3
    port := fun j =>
      { index := j
        state := .active
        nodeno := if j = 0 then none else some (if j = 1 then 1 else 2)
        portno := if j = 0 then none else some (if j = 3 then 2 else 1)
        portData := some { lid := if j = 0 then 1 else 0, maxVlMtu := stlMtu8192 } } }

def starNodes : List Node := [starSwitch, starLeft, starRight]

theorem starNodes_index_inj :
    ∀ n ∈ starNodes, ∀ m ∈ starNodes, n.index = m.index → n = m := by
  simp [starNodes, starLeft, starRight, starSwitch, starHost]

theorem starNodes_port_index : ∀ n ∈ starNodes, ∀ i, (n.port i).index = i := by
  simp [starNodes, starLeft, starRight, starSwitch, starHost]

theorem starNodes_lids : ∀ n ∈ starNodes, ∀ p ∈ endPorts n, ∀ d, p.portData = some d →
    d.lmc ≤ 7 ∧ 2 ^ d.lmc ∣ d.lid ∧ d.lid + 2 ^ d.lmc ≤ 0xC000 := by
  simp [starNodes, starLeft, starRight, starSwitch, starHost, endPorts, physicalPorts, starPort,
    List.range'_succ]

def starFabric : PathFabric where
  topology := ⟨starNodes, 1⟩
  tables := fun _ => ⟨none, 0⟩
  pPKey := fun _ _ => PKeyTable.empty.write 0 stlDefaultAppPkey
  gid := fun _ _ => 0
  gidPrefix := fun _ _ => 0
  index_inj := starNodes_index_inj
  port_index := starNodes_port_index
  lids := starNodes_lids

theorem starLeft_mem : starLeft ∈ starNodes := by simp [starNodes]

theorem starRight_mem : starRight ∈ starNodes := by simp [starNodes]

theorem starLeft_port_mem : starLeft.port 1 ∈ endPorts starLeft := List.mem_cons_self

theorem starRight_port_mem : starRight.port 1 ∈ endPorts starRight := List.mem_cons_self

def starSource : PathEnd starFabric where
  nodep := starLeft
  node_mem := starLeft_mem
  port := starLeft.port 1
  port_mem := starLeft_port_mem
  portData := starPort 8 1
  valid := rfl

def starDestination : PathEnd starFabric where
  nodep := starRight
  node_mem := starRight_mem
  port := starRight.port 1
  port_mem := starRight_port_mem
  portData := starPort 16 2
  valid := rfl

def starVFs : PathVFs where
  vFabric := [{ index := 0, pkey := 1 }]
  length_le := of_decide_eq_true rfl
  baseSl_lt := List.forall_mem_singleton.mpr (of_decide_eq_true rfl)

def starEnv : PathEnv where
  vfs := starVFs
  pathSelection := .orderall
  saMaxPathRecords := 100
  saDynamicPlt := fun _ => 0
  saPacketLifetimeN2 := 16
  bitsetInit := fun _ => true

def starQuery : PathQuery where
  mask := 0
  record := {}
  slid := 8
  pkey := 0
  serviceId := 0
  serviceIdCheck := false
  sl := 0xFF

/-- From LID 8 the records for LIDs 17 and 19 come twice. -/
theorem saPathRecordSet_repeats :
    ∃ keys,
      (saPathRecordSet starEnv starQuery 10 [] 0 starSource starDestination 0xFFFF).map
          (fun r => r.2.map fun x => (x.slid, x.dlid, pKeyValue x.pKey, x.sl)) = some keys ∧
        ¬keys.Nodup := by
  apply Exists.intro [(8, 16, 1, 0), (8, 17, 1, 0), (8, 18, 1, 0), (8, 19, 1, 0), (8, 17, 1, 0),
    (8, 19, 1, 0)]
  exact ⟨by decide +kernel, by decide⟩

end OpaFm.PathRecord
