import OpaFm.Lib.Fold
import OpaFm.PerfMgr.StandbySync

/-!
# What the base knows after a change of the standby managers

The turn for one SM of the new list writes only its own entry, so the entries after the loop are
those that the turns make.
-/

namespace OpaFm.PerfMgr

open OpaFm.Lib

namespace PmDbsyncSmInfo

variable {c : PmConfig} {numSweeps : BitVec 32} {base new : PmDbsyncSmInfo}

theorem mem_indices {s : PmDbsyncSmInfo} {i : Fin maxNumberSms} :
    i ∈ s.indices ↔ i.val < s.numStandbySms := by
  simp [indices]

theorem indices_sorted (s : PmDbsyncSmInfo) : s.indices.Pairwise (· < ·) :=
  (List.pairwise_lt_finRange maxNumberSms).sublist List.filter_sublist

/-! ## One entry -/

@[simp] theorem setSm_self (s : PmDbsyncSmInfo) (i : Fin maxNumberSms) (sync : SyncState) :
    ((s.setSm i sync).sms i).toSyncState = sync := by
  simp [setSm]

theorem setSm_of_ne (s : PmDbsyncSmInfo) {i k : Fin maxNumberSms} (h : k ≠ i) (sync : SyncState) :
    (s.setSm i sync).sms k = s.sms k := by
  simp [setSm, h]

@[simp] theorem setSm_standbySm (s : PmDbsyncSmInfo) (i k : Fin maxNumberSms) (sync : SyncState) :
    ((s.setSm i sync).sms k).toStandbySm = (s.sms k).toStandbySm := by
  by_cases h : k = i
  · subst h
    simp [setSm]
  · rw [setSm_of_ne s h]

def carried (base : PmDbsyncSmInfo) (newIndex baseIndex : Fin maxNumberSms) : SyncState :=
  { (base.sms baseIndex).toSyncState with
    histImgListFile := (base.sms newIndex).histImgListFile
    histImgFileIndex := (base.sms newIndex).histImgFileIndex }

structure Marked (images : Nat) (sync : SyncState) : Prop where
  rImgPmDbsyncNeeded : sync.rImgPmDbsyncNeeded = true
  numRImagesForSync : sync.numRImagesForSync = images
  histImgFileIndex : sync.histImgFileIndex = 0
  numSweepImagesSent : sync.numSweepImagesSent = 0
  numHistImagesSent : sync.numHistImagesSent = 0
  sweepNumHistImageSent : sync.sweepNumHistImageSent = 0

def ramImages (c : PmConfig) (numSweeps : BitVec 32) : Nat := min numSweeps.toNat c.totalImages

theorem newStandby_marked (new : PmDbsyncSmInfo) (i : Fin maxNumberSms) :
    Marked (ramImages c numSweeps % 0x100) ((new.newStandby c numSweeps i).sms i).toSyncState := by
  have himages : (if numSweeps.toNat < c.totalImages then numSweeps.toNat else c.totalImages) =
      ramImages c numSweeps := by
    unfold ramImages
    split <;> omega
  unfold newStandby
  rw [setSm_self, himages]
  exact ⟨rfl, rfl, rfl, rfl, rfl, rfl⟩

theorem newStandby_of_ne (new : PmDbsyncSmInfo) {i k : Fin maxNumberSms} (h : k ≠ i) :
    (new.newStandby c numSweeps i).sms k = new.sms k :=
  setSm_of_ne _ h _

theorem newStandby_standbySm (new : PmDbsyncSmInfo) (i k : Fin maxNumberSms) :
    ((new.newStandby c numSweeps i).sms k).toStandbySm = (new.sms k).toStandbySm :=
  setSm_standbySm _ i k _

/-! ## The loop over the base -/

def Has (base : PmDbsyncSmInfo) (smLid : Nat) (j : Fin maxNumberSms) : Prop :=
  j ∈ base.indices ∧ (base.sms j).smLid = smLid

structure Listed (s : PmDbsyncSmInfo) : Prop where
  nonzero : ∀ i ∈ s.indices, (s.sms i).smLid ≠ 0
  distinct : ∀ i ∈ s.indices, ∀ j ∈ s.indices, (s.sms i).smLid = (s.sms j).smLid → i = j

theorem baseLoop_found (hbase : base.Listed) {smLid : Nat} {i j : Fin maxNumberSms}
    (hj : base.Has smLid j) {l : List (Fin maxNumberSms)} (hl : ∀ k ∈ l, k ∈ base.indices)
    (hsorted : l.Pairwise (· < ·)) (hjl : j ∈ l) (new : PmDbsyncSmInfo) :
    baseLoop c numSweeps base smLid i l new = base.movedStandby new i j := by
  induction l with
  | nil => cases hjl
  | cons k l ih =>
    have hk := hl k List.mem_cons_self
    unfold baseLoop
    rw [if_neg (hbase.nonzero k hk)]
    by_cases hkj : k = j
    · rw [if_pos (hkj ▸ hj.2.symm), hkj]
    · have hjl' : j ∈ l := (List.mem_cons.mp hjl).resolve_left fun h => hkj h.symm
      have hlid : smLid ≠ (base.sms k).smLid := fun h =>
        hkj (hbase.distinct k hk j hj.1 (h.symm.trans hj.2.symm))
      have hlast : ¬k.val = base.numStandbySms - 1 := by
        have hlt : k.val < j.val := (List.pairwise_cons.mp hsorted).1 j hjl'
        have hjn := mem_indices.mp hj.1
        omega
      rw [if_neg hlid, if_neg hlast]
      exact ih (fun k' hk' => hl k' (List.mem_cons_of_mem k hk'))
        (List.pairwise_cons.mp hsorted).2 hjl'

theorem baseLoop_new (hbase : base.Listed) {smLid : Nat} (i : Fin maxNumberSms)
    (hnew : ∀ j, ¬base.Has smLid j) {l : List (Fin maxNumberSms)}
    (hl : ∀ k ∈ l, k ∈ base.indices) (hsorted : l.Pairwise (· < ·))
    (hlast : ∃ k ∈ l, k.val = base.numStandbySms - 1) (new : PmDbsyncSmInfo) :
    baseLoop c numSweeps base smLid i l new = new.newStandby c numSweeps i := by
  induction l with
  | nil =>
    obtain ⟨k, hk, -⟩ := hlast
    cases hk
  | cons k l ih =>
    have hk := hl k List.mem_cons_self
    obtain ⟨hless, hsorted'⟩ := List.pairwise_cons.mp hsorted
    have hlid : smLid ≠ (base.sms k).smLid := fun h => hnew k ⟨hk, h.symm⟩
    unfold baseLoop
    rw [if_neg (hbase.nonzero k hk), if_neg hlid]
    by_cases hkl : k.val = base.numStandbySms - 1
    · -- nothing comes after the last place
      have hnil : l = [] := by
        refine List.eq_nil_iff_forall_not_mem.mpr fun k' hk' => ?_
        have hlt : k.val < k'.val := hless k' hk'
        have hk'n := mem_indices.mp (hl k' (List.mem_cons_of_mem k hk'))
        omega
      rw [if_pos hkl, hnil]
      rfl
    · rw [if_neg hkl]
      obtain ⟨k', hk', hk'l⟩ := hlast
      have hk'm : k' ∈ l := (List.mem_cons.mp hk').resolve_left fun h => hkl (h ▸ hk'l)
      exact ih (fun k'' h => hl k'' (List.mem_cons_of_mem k h)) hsorted' ⟨k', hk'm, hk'l⟩

theorem exists_last (hne : base.numStandbySms ≠ 0) :
    ∃ k ∈ base.indices, k.val = base.numStandbySms - 1 := by
  have hle := base.numStandbySms_le
  exact ⟨⟨base.numStandbySms - 1, by omega⟩, mem_indices.mpr (by simp only; omega), rfl⟩

/-! ## The loop over the new list -/

structure Turned (c : PmConfig) (numSweeps : BitVec 32) (base new s : PmDbsyncSmInfo)
    (i : Fin maxNumberSms) : Prop where
  moved : ∀ j, base.Has (new.sms i).smLid j → (s.sms i).toSyncState = base.carried i j
  marked : (∀ j, ¬base.Has (new.sms i).smLid j) →
    Marked (ramImages c numSweeps % 0x100) (s.sms i).toSyncState ∧ s.changeinStandbySms = true

def SameList (new s : PmDbsyncSmInfo) : Prop :=
  s.numStandbySms = new.numStandbySms ∧ ∀ k, (s.sms k).toStandbySm = (new.sms k).toStandbySm

theorem turn_spec (hbase : base.Listed) (hne : base.numStandbySms ≠ 0) {s : PmDbsyncSmInfo}
    (hs : new.SameList s) (i : Fin maxNumberSms) :
    new.SameList (baseLoop c numSweeps base (s.sms i).smLid i base.indices s) ∧
      ∀ k, Turned c numSweeps base new s k ∨ i = k →
        Turned c numSweeps base new
          (baseLoop c numSweeps base (s.sms i).smLid i base.indices s) k := by
  have hlid : (s.sms i).smLid = (new.sms i).smLid := congrArg StandbySm.smLid (hs.2 i)
  rw [hlid]
  by_cases hhas : ∃ j, base.Has (new.sms i).smLid j
  · obtain ⟨j, hj⟩ := hhas
    rw [baseLoop_found hbase hj (fun _ h => h) base.indices_sorted hj.1]
    constructor
    · exact ⟨hs.1, fun k => (setSm_standbySm s i k _).trans (hs.2 k)⟩
    · intro k hk
      by_cases hki : k = i
      · subst hki
        constructor
        · intro j' hj'
          have hjj : j' = j := hbase.distinct j' hj'.1 j hj.1 (hj'.2.trans hj.2.symm)
          rw [hjj]
          exact setSm_self s k _
        · exact fun hnone => absurd hj (hnone j)
      · have hkeep : (base.movedStandby s i j).sms k = s.sms k := setSm_of_ne s hki _
        have hold := hk.resolve_right fun h => hki h.symm
        exact ⟨hkeep ▸ hold.moved, hkeep ▸ hold.marked⟩
  · have hnone : ∀ j, ¬base.Has (new.sms i).smLid j := fun j hj => hhas ⟨j, hj⟩
    rw [baseLoop_new hbase i hnone (fun _ h => h) base.indices_sorted (exists_last hne)]
    constructor
    · exact ⟨hs.1, fun k => (newStandby_standbySm s i k).trans (hs.2 k)⟩
    · intro k hk
      by_cases hki : k = i
      · subst hki
        exact ⟨fun j hj => absurd hj (hnone j), fun _ => ⟨newStandby_marked s k, rfl⟩⟩
      · have hkeep : (s.newStandby c numSweeps i).sms k = s.sms k := newStandby_of_ne s hki
        have hold := hk.resolve_right fun h => hki h.symm
        constructor
        · rw [hkeep]
          exact hold.moved
        · intro hk'
          rw [hkeep]
          exact ⟨(hold.marked hk').1, rfl⟩

theorem newLoop_eq_foldl (hbase : base.Listed) (hne : base.numStandbySms ≠ 0)
    {l : List (Fin maxNumberSms)} (hl : ∀ i ∈ l, (new.sms i).smLid ≠ 0) :
    ∀ s, new.SameList s → newLoop c numSweeps base l s =
      l.foldl (fun s i => baseLoop c numSweeps base (s.sms i).smLid i base.indices s) s := by
  induction l with
  | nil => exact fun _ _ => rfl
  | cons i l ih =>
    intro s hs
    have hlid : (s.sms i).smLid = (new.sms i).smLid := congrArg StandbySm.smLid (hs.2 i)
    unfold newLoop
    rw [if_neg (hlid ▸ hl i List.mem_cons_self)]
    exact ih (fun k hk => hl k (List.mem_cons_of_mem i hk)) _ (turn_spec hbase hne hs i).1

theorem newLoop_empty (hempty : base.numStandbySms = 0) (l : List (Fin maxNumberSms))
    (s : PmDbsyncSmInfo) : newLoop c numSweeps base l s = s := by
  have hindices : base.indices = [] := by
    refine List.eq_nil_iff_forall_not_mem.mpr fun k hk => ?_
    have hk := mem_indices.mp hk
    omega
  induction l with
  | nil => rfl
  | cons i l ih =>
    unfold newLoop
    rw [hindices]
    split
    · rfl
    · exact ih

theorem checkForChangesInStandbySMs_turned (c : PmConfig) (numSweeps : BitVec 32)
    (hbase : base.Listed) (hnew : new.Listed)
    (hsingle : base.numStandbySms = 0 → new.numStandbySms ≤ 1) {after : PmDbsyncSmInfo}
    (hafter : checkForChangesInStandbySMs c numSweeps base new = after) :
    after.numStandbySms = new.numStandbySms ∧
      (∀ i ∈ new.indices, (after.sms i).toStandbySm = (new.sms i).toStandbySm) ∧
      ∀ i ∈ new.indices, Turned c numSweeps base new after i := by
  subst hafter
  by_cases hempty : base.numStandbySms = 0
  · have hnone : ∀ lid j, ¬base.Has lid j := fun lid j hj => by
      have hjn := mem_indices.mp hj.1
      omega
    unfold checkForChangesInStandbySMs
    by_cases hzero : new.numStandbySms = 0
    · have hout : ∀ i, i ∉ new.indices := fun i hi => by
        have hin := mem_indices.mp hi
        omega
      rw [if_pos ⟨hzero, hempty⟩]
      exact ⟨hempty.trans hzero.symm, fun i hi => absurd hi (hout i),
        fun i hi => absurd hi (hout i)⟩
    · have hone : new.numStandbySms = 1 := by
        have h := hsingle hempty
        omega
      rw [if_neg fun h => hzero h.1, if_pos ⟨hone, hempty⟩]
      refine ⟨rfl, fun i _ => newStandby_standbySm new _ i, fun i hi => ?_⟩
      have hi0 : i = ⟨0, maxNumberSms_pos⟩ := by
        have hin := mem_indices.mp hi
        exact Fin.ext (by simp only; omega)
      rw [hi0]
      exact ⟨fun j hj => absurd hj (hnone _ j), fun _ => ⟨newStandby_marked new _, rfl⟩⟩
  · have hrun : checkForChangesInStandbySMs c numSweeps base new =
        newLoop c numSweeps base new.indices
          { new with
            sweepNumLastSweepImageSent := base.sweepNumLastSweepImageSent
            changeinStandbySms := base.changeinStandbySms } := by
      unfold checkForChangesInStandbySMs
      rw [if_neg fun h => hempty h.2, if_neg fun h => hempty h.2]
    have hstart : new.SameList
        { new with
          sweepNumLastSweepImageSent := base.sweepNumLastSweepImageSent
          changeinStandbySms := base.changeinStandbySms } := ⟨rfl, fun _ => rfl⟩
    have hstep : ∀ i ∈ new.indices, ∀ s, new.SameList s →
        new.SameList (baseLoop c numSweeps base (s.sms i).smLid i base.indices s) ∧
          ∀ k, Turned c numSweeps base new s k ∨ i = k →
            Turned c numSweeps base new
              (baseLoop c numSweeps base (s.sms i).smLid i base.indices s) k :=
      fun i _ s hs => turn_spec hbase hempty hs i
    rw [hrun, newLoop_eq_foldl hbase hempty hnew.nonzero _ hstart]
    obtain ⟨hsame, hturned⟩ := foldl_establishes hstep _ hstart
    exact ⟨hsame.1, fun i _ => hsame.2 i, fun i hi => hturned i (.inr ⟨i, hi, rfl⟩)⟩

theorem checkForChangesInStandbySMs_of_many (c : PmConfig) (numSweeps : BitVec 32)
    (hempty : base.numStandbySms = 0) (hmany : 1 < new.numStandbySms) :
    (checkForChangesInStandbySMs c numSweeps base new).numStandbySms = new.numStandbySms ∧
      (checkForChangesInStandbySMs c numSweeps base new).sms = new.sms := by
  unfold checkForChangesInStandbySMs
  rw [if_neg fun h => by omega, if_neg fun h => by omega, newLoop_empty hempty]
  exact ⟨rfl, rfl⟩

/-! ## What is wanted -/

def OnlyNew (base new : PmDbsyncSmInfo) (i : Fin maxNumberSms) : Prop :=
  i ∈ new.indices ∧ ∀ j, ¬base.Has (new.sms i).smLid j

/-- The base is the new list, in which each SM of the base has kept its state, and each other one
is marked. -/
structure FollowsStandbys (c : PmConfig) (numSweeps : BitVec 32)
    (base new after : PmDbsyncSmInfo) : Prop where
  count : after.numStandbySms = new.numStandbySms
  list : ∀ i ∈ new.indices, (after.sms i).toStandbySm = (new.sms i).toStandbySm
  kept : ∀ i ∈ new.indices, ∀ j, base.Has (new.sms i).smLid j →
    (after.sms i).toSyncState = (base.sms j).toSyncState
  marked : ∀ i, base.OnlyNew new i → Marked (ramImages c numSweeps) (after.sms i).toSyncState
  change : (∃ i, base.OnlyNew new i) → after.changeinStandbySms = true

/-- When the base follows: not several SMs come at once when there were none, the place of an SM in
the new list held its file and index in the base, and the number of images fits 8 bits. -/
structure CarriesOver (c : PmConfig) (numSweeps : BitVec 32)
    (base new : PmDbsyncSmInfo) : Prop where
  single : base.numStandbySms = 0 → new.numStandbySms ≤ 1
  files : ∀ i ∈ new.indices, ∀ j, base.Has (new.sms i).smLid j →
    (base.sms i).histImgListFile = (base.sms j).histImgListFile ∧
      (base.sms i).histImgFileIndex = (base.sms j).histImgFileIndex
  images : (∃ i, base.OnlyNew new i) → ramImages c numSweeps < 0x100

theorem carried_eq_iff {i j : Fin maxNumberSms} : base.carried i j = (base.sms j).toSyncState ↔
    (base.sms i).histImgListFile = (base.sms j).histImgListFile ∧
      (base.sms i).histImgFileIndex = (base.sms j).histImgFileIndex := by
  constructor
  · intro h
    have hfile : (base.carried i j).histImgListFile = (base.sms j).histImgListFile := by rw [h]
    have hindex : (base.carried i j).histImgFileIndex = (base.sms j).histImgFileIndex := by rw [h]
    exact ⟨hfile, hindex⟩
  · rintro ⟨hfile, hindex⟩
    unfold carried
    rw [hfile, hindex]

theorem Marked.images_eq {m n : Nat} {sync : SyncState} (h : Marked m sync) (h' : Marked n sync) :
    m = n := h.numRImagesForSync.symm.trans h'.numRImagesForSync

/-! ## Snapshots -/

/-- The standby SMs that a snapshot finds: their LIDs are different, and none is zero. -/
structure FoundSms where
  sms : List StandbySm
  nonzero : ∀ sm ∈ sms, sm.smLid ≠ 0
  distinct : (sms.map StandbySm.smLid).Nodup

theorem snapshot_sms (found : List StandbySm) {i : Fin maxNumberSms}
    (hi : i ∈ (snapshot found).indices) :
    ∃ sm, found[i.val]? = some sm ∧ ((snapshot found).sms i).toStandbySm = sm := by
  have hlt : i.val < found.length :=
    Nat.lt_of_lt_of_le (mem_indices.mp hi) (Nat.min_le_left _ _)
  refine ⟨found[i.val], List.getElem?_eq_getElem hlt, ?_⟩
  show found.getD i.val StandbySm.cleared = found[i.val]
  rw [List.getD_eq_getElem?_getD, List.getElem?_eq_getElem hlt]
  rfl

theorem snapshot_listed (f : FoundSms) : (snapshot f.sms).Listed where
  nonzero i hi := by
    obtain ⟨sm, hsm, heq⟩ := snapshot_sms f.sms hi
    rw [heq]
    exact f.nonzero sm (List.mem_of_getElem? hsm)
  distinct i hi j hj hlid := by
    obtain ⟨sm, hsm, heq⟩ := snapshot_sms f.sms hi
    obtain ⟨sm', hsm', heq'⟩ := snapshot_sms f.sms hj
    rw [heq, heq'] at hlid
    have hi' : (f.sms.map StandbySm.smLid)[i.val]? = some sm.smLid := by simp [hsm]
    have hj' : (f.sms.map StandbySm.smLid)[j.val]? = some sm.smLid := by simp [hsm', hlid]
    have hlt := (List.getElem?_eq_some_iff.mp hi').1
    exact Fin.ext ((List.getElem?_inj hlt f.distinct).mp (hi'.trans hj'.symm))

structure Base where
  info : PmDbsyncSmInfo
  listed : info.Listed

/-- After the check the base follows the standby SMs exactly when their states carry over. -/
theorem checkForChangesInStandbySMs_follows_iff (c : PmConfig) (numSweeps : BitVec 32) (base : Base)
    (found : FoundSms) :
    FollowsStandbys c numSweeps base.info (snapshot found.sms)
        (checkForChangesInStandbySMs c numSweeps base.info (snapshot found.sms)) ↔
      CarriesOver c numSweeps base.info (snapshot found.sms) := by
  have hnew := snapshot_listed found
  constructor
  · intro h
    have hsingle : base.info.numStandbySms = 0 → (snapshot found.sms).numStandbySms ≤ 1 := by
      intro hempty
      by_contra hmany
      have hfirst : base.info.OnlyNew (snapshot found.sms) ⟨0, maxNumberSms_pos⟩ := by
        refine ⟨mem_indices.mpr (by simp only; omega), fun j hj => ?_⟩
        have hjn := mem_indices.mp hj.1
        omega
      have hmarked := (h.marked _ hfirst).rImgPmDbsyncNeeded
      rw [(checkForChangesInStandbySMs_of_many c numSweeps hempty (by omega)).2] at hmarked
      exact Bool.false_ne_true hmarked
    obtain ⟨-, -, hturned⟩ :=
      checkForChangesInStandbySMs_turned c numSweeps base.listed hnew hsingle rfl
    constructor
    · exact hsingle
    · intro i hi j hj
      exact carried_eq_iff.mp (((hturned i hi).moved j hj).symm.trans (h.kept i hi j hj))
    · rintro ⟨i, hi⟩
      have himages := ((hturned i hi.1).marked hi.2).1.images_eq (h.marked i hi)
      omega
  · intro h
    obtain ⟨hcount, hlist, hturned⟩ :=
      checkForChangesInStandbySMs_turned c numSweeps base.listed hnew h.single rfl
    constructor
    · exact hcount
    · exact hlist
    · intro i hi j hj
      exact ((hturned i hi).moved j hj).trans (carried_eq_iff.mpr (h.files i hi j hj))
    · intro i hi
      have himages : ramImages c numSweeps % 0x100 = ramImages c numSweeps :=
        Nat.mod_eq_of_lt (h.images ⟨i, hi⟩)
      exact himages ▸ ((hturned i hi.1).marked hi.2).1
    · rintro ⟨i, hi⟩
      exact ((hturned i hi.1).marked hi.2).2

def historySm (lid : Nat) : DbsyncSmInfo where
  toStandbySm := { StandbySm.cleared with smLid := lid }
  toSyncState := if lid = 1 then
      { SyncState.cleared with histImgListFile := "hist_1", histImgFileIndex := 4 }
    else .cleared

theorem one_lt_maxNumberSms : 1 < maxNumberSms := by decide

def historyBase : PmDbsyncSmInfo where
  numStandbySms := 2
  numStandbySms_le := one_lt_maxNumberSms
  changeinStandbySms := false
  sweepNumLastSweepImageSent := 7
  sms i := historySm (if i.val < 2 then i.val + 1 else 0)

theorem historyBase_listed : historyBase.Listed := by
  constructor <;> decide

def swappedSms : List StandbySm := [{ StandbySm.cleared with smLid := 2 },
  { StandbySm.cleared with smLid := 1 }]

theorem swappedSms_found : (∀ sm ∈ swappedSms, sm.smLid ≠ 0) ∧
    (swappedSms.map StandbySm.smLid).Nodup := by
  decide

/-- When two SMs change places, each gets the file and the index of the other. -/
theorem not_checkForChangesInStandbySMs_follows :
    ¬∀ (c : PmConfig) (numSweeps : BitVec 32) (base : Base) (found : FoundSms),
      FollowsStandbys c numSweeps base.info (snapshot found.sms)
        (checkForChangesInStandbySMs c numSweeps base.info (snapshot found.sms)) := by
  intro hall
  have hkept := (hall ⟨3, 1, by decide, by decide⟩ 5 ⟨historyBase, historyBase_listed⟩
    ⟨swappedSms, swappedSms_found.1, swappedSms_found.2⟩).kept ⟨1, one_lt_maxNumberSms⟩ (by decide)
      ⟨0, maxNumberSms_pos⟩ ⟨by decide, by decide⟩
  exact absurd (congrArg SyncState.histImgFileIndex hkept) (by decide)

end PmDbsyncSmInfo

end OpaFm.PerfMgr
