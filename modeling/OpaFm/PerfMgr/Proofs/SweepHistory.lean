import OpaFm.PerfMgr.Proofs.FreezeRuns
import Mathlib.Logic.Relation

/-!
# The history of sweeps

`history` leads from each of the last sweeps to its image, and the sweep number of the image says
whether the image has been used again since.
-/

namespace OpaFm.PerfMgr

variable {c : PmConfig} {α : Type}

/-- The manager with the image of every sweep: the last of `used` is the one that is filled or
will be next.  `returned` has the ids that look-ups have answered with. -/
structure SweepLog (c : PmConfig) (α : Type) where
  run : PmRun c α
  used : List (Fin c.totalImages)
  sweeping : Bool
  returned : List ImageId

namespace SweepLog

def numSweeps (l : SweepLog c α) : Nat := l.used.length - 1

def start (c : PmConfig) (interval : Nat) (contents : α) : SweepLog c α :=
  ⟨PmRun.start c interval contents, [c.wrap 0], false, []⟩

def IsClient : PmCall α → Prop
  | .create _ => True
  | .renew _ => True
  | .release _ _ => True
  | .move _ _ => True
  | .sweepBegin _ _ => False
  | .sweepComplete _ => False

def returnedBy (l : SweepLog c α) : Except PaError (Found c) → List ImageId
  | .ok found => found.retImageId :: l.returned
  | .error _ => l.returned

def Aliased (l : SweepLog c α) (k : Nat) (offset : Int) : Prop :=
  offset.natAbs < c.totalImages ∧ (k : Int) + offset < 0 ∧
    (k : Int) + offset + 4294967296 < l.numSweeps

/-- Sweeps succeed one after the other, and clients make calls that are in order, and look-ups
with ids that they have been given, at any time. -/
inductive Step (l : SweepLog c α) : SweepLog c α → Prop
  | sweepBegin (sweepStart : Nat) (contents : α) (idle : l.sweeping = false) :
      Step l ⟨⟨l.run.pm.sweepBegin sweepStart contents, l.run.outstanding⟩, l.used, true,
        l.returned⟩
  | sweepComplete (sweepDuration : Nat) {s : Pm c α} (busy : l.sweeping = true)
      (complete : l.run.pm.sweepComplete sweepDuration = some s)
      (few : l.numSweeps + 1 < 4294967296) :
      Step l ⟨⟨s, l.run.outstanding⟩, l.used ++ [s.sweepIndex], false, l.returned⟩
  | client (call : PmCall α) (isClient : IsClient call) (ok : l.run.CallOk call) {r : PmRun c α}
      {reply : Except PaError (Option ImageId)} (step : l.run.step call = .ok (r, reply)) :
      Step l ⟨r, l.used, l.sweeping, l.returned⟩
  | lookUp (type : BitVec 2) (imageId : ImageIdData)
      (known : imageId.imageNumber.type = imageIdTypeHistory → imageId.imageNumber ∈ l.returned)
      (inTime : imageId.imageNumber.type = imageIdTypeHistory ∨
        imageId.imageNumber.type = imageIdTypeFreezeFrame →
        ¬l.Aliased imageId.imageNumber.sweepNum.toNat imageId.imageOffset) :
      Step l ⟨⟨(l.run.pm.findImage type imageId).1, l.run.outstanding⟩, l.used, l.sweeping,
        l.returnedBy (l.run.pm.findImage type imageId).2⟩

/-- The states that a run from the start of the manager can reach. -/
def Reached (l : SweepLog c α) : Prop :=
  ∃ interval contents, Relation.ReflTransGen Step (start c interval contents) l

structure Kept (l : SweepLog c α) (m : Nat) (i : Fin c.totalImages) : Prop where
  used : l.used[m]? = some i
  last : ∀ k, m < k → l.used[k]? ≠ some i

structure Recorded (l : SweepLog c α) (m : Nat) (i : Fin c.totalImages) : Prop where
  pos : 1 ≤ m
  lt : m < l.numSweeps
  kept : l.Kept m i

def Available (l : SweepLog c α) (sweep : Int) (i : Fin c.totalImages) : Prop :=
  ∃ m : Nat, (m : Int) = sweep ∧ l.numSweeps ≤ m + c.totalImages ∧ l.Recorded m i

def historyId (c : PmConfig) (m : Nat) : ImageId :=
  ⟨imageIdTypeHistory, 0#6, BitVec.ofNat 32 m, 0#8, BitVec.ofNat 16 (c.wrap (m - 1)).val⟩

inductive HistoryEntry (l : SweepLog c α) (j : Fin c.totalImages) : Prop
  | sweep (m : Nat) (pos : 1 ≤ m) (lt : m < l.numSweeps)
      (recent : l.numSweeps ≤ m + c.totalImages) (index : c.wrap (m - 1) = j)
      (entry : l.run.pm.history j = l.used[m]?)
  | empty (none : l.run.pm.history j = none)
      (unused : ∀ m, 1 ≤ m → m < l.numSweeps → c.wrap (m - 1) ≠ j)

structure SweptImage (m : Nat) (image : PmImage α) (c : PmConfig) : Prop where
  sweepNum : image.sweepNum = BitVec.ofNat 32 m
  valid : image.state = .valid
  historyIndex : 1 ≤ m → image.historyIndex = (c.wrap (m - 1)).val

structure Inv (l : SweepLog c α) : Prop where
  inv : l.run.Inv
  used_ne : l.used ≠ []
  few : l.numSweeps < 4294967296
  numSweeps : l.run.pm.numSweeps = BitVec.ofNat 32 l.numSweeps
  current : l.used[l.numSweeps]? = some l.run.pm.sweepIndex
  first : l.run.pm.firstSweepAsMaster = decide (l.numSweeps = 0)
  lastSweep : l.run.pm.lastSweepIndex = if l.numSweeps ≤ 1 then none else l.used[l.numSweeps - 1]?
  lastHistory : l.run.pm.lastHistoryIndex =
    c.wrap (if l.numSweeps ≤ 1 then c.totalImages - 1 else l.numSweeps - 2)
  history : ∀ j, l.HistoryEntry j
  swept : ∀ m i, m < l.numSweeps → l.Kept m i → SweptImage m (l.run.pm.image i) c
  filling : l.sweeping = true → (l.run.pm.image l.run.pm.sweepIndex).sweepNum = l.run.pm.numSweeps
  returned : ∀ id ∈ l.returned, id.type = imageIdTypeHistory →
    ∃ m, 1 ≤ m ∧ m < l.numSweeps ∧ id = historyId c m
  frozen : ∀ f ∈ l.run.outstanding, ∃ m, l.Recorded m f.imageIndex

variable {l : SweepLog c α} {i j : Fin c.totalImages} {k m n : Nat} {offset : Int}

/-! ## Sweeps and their images -/

theorem exists_kept (h : l.used[m]? = some i) : ∃ n, m ≤ n ∧ l.Kept n i := by
  obtain ⟨d, hd⟩ : ∃ d, d = l.used.length - m := ⟨_, rfl⟩
  induction d using Nat.strong_induction_on generalizing m with
  | _ d ih =>
    by_cases hlater : ∃ n, m < n ∧ l.used[n]? = some i
    · obtain ⟨n, hlt, hn⟩ := hlater
      have hlength := (List.getElem?_eq_some_iff.1 hn).1
      obtain ⟨n', hle, hkept⟩ := ih (l.used.length - n) (by omega) hn rfl
      exact ⟨n', by omega, hkept⟩
    · exact ⟨m, Nat.le_refl m, h, fun n hlt hn => hlater ⟨n, hlt, hn⟩⟩

theorem Inv.length (h : l.Inv) : l.used.length = l.numSweeps + 1 := by
  have hpos := List.length_pos_of_ne_nil h.used_ne
  unfold SweepLog.numSweeps
  omega

theorem Inv.lt_of_valid (h : l.Inv) (hkept : l.Kept m i)
    (hvalid : (l.run.pm.image i).state = .valid) : m < l.numSweeps := by
  have hlength := h.length
  have hlt := (List.getElem?_eq_some_iff.1 hkept.used).1
  by_contra hnot
  have hm : m = l.numSweeps := by omega
  have hused := hkept.used
  rw [hm, h.current, Option.some.injEq] at hused
  exact h.inv.current (hused ▸ hvalid)

theorem Inv.recorded_of_history (h : l.Inv) (hentry : l.run.pm.history j = some i)
    (hvalid : (l.run.pm.image i).state = .valid) :
    ∃ m, l.Recorded m i ∧ l.numSweeps ≤ m + c.totalImages := by
  cases h.history j with
  | sweep m pos lt recent index entry =>
    rw [hentry] at entry
    obtain ⟨n, hle, hkept⟩ := exists_kept entry.symm
    exact ⟨n, ⟨by omega, h.lt_of_valid hkept hvalid, hkept⟩, by omega⟩
  | empty none _ =>
    rw [hentry] at none
    cases none

theorem wrap_inj_of_lt (hm : m < n) (hn : n < m + c.totalImages) : c.wrap m ≠ c.wrap n := by
  intro heq
  have hval : m % c.totalImages = n % c.totalImages := congrArg Fin.val heq
  have hzero := Nat.sub_mod_eq_zero_of_mod_eq hval.symm
  rw [Nat.mod_eq_of_lt (by omega)] at hzero
  omega

theorem Inv.history_eq (h : l.Inv) (hpos : 1 ≤ m) (hlt : m < l.numSweeps)
    (hrecent : l.numSweeps ≤ m + c.totalImages) :
    l.run.pm.history (c.wrap (m - 1)) = l.used[m]? := by
  cases h.history (c.wrap (m - 1)) with
  | sweep n pos lt recent index entry =>
    rw [entry]
    rcases Nat.lt_trichotomy m n with hmn | heq | hnm
    · exact absurd index.symm (wrap_inj_of_lt (by omega) (by omega))
    · rw [heq]
    · exact absurd index (wrap_inj_of_lt (by omega) (by omega))
  | empty _ unused => exact absurd rfl (unused m hpos hlt)

theorem Inv.history_ne_none (h : l.Inv) (hpos : 1 ≤ m) (hlt : m < l.numSweeps) :
    l.run.pm.history (c.wrap (m - 1)) ≠ none := by
  cases h.history (c.wrap (m - 1)) with
  | sweep n pos lt recent index entry =>
    have hlength := h.length
    rw [entry, List.getElem?_eq_getElem (by omega)]
    exact Option.some_ne_none _
  | empty _ unused => exact absurd rfl (unused m hpos hlt)

theorem wrap_offset (hk : 1 ≤ k) (hm : 1 ≤ m) (heq : (m : Int) = k + offset)
    (hoffset : offset.natAbs < c.totalImages) :
    c.wrap (((c.wrap (k - 1)).val + c.totalImages : Int) + offset).toNat = c.wrap (m - 1) := by
  apply Fin.ext
  show (((c.wrap (k - 1)).val + c.totalImages : Int) + offset).toNat % c.totalImages =
    (m - 1) % c.totalImages
  have hdiv := Nat.div_add_mod (k - 1) c.totalImages
  have hwrap : (c.wrap (k - 1)).val = (k - 1) % c.totalImages := rfl
  have hlt := Nat.mod_lt (k - 1) c.totalImages_pos
  rw [hwrap]
  generalize (k - 1) % c.totalImages = r at hdiv hlt
  generalize (k - 1) / c.totalImages = q at hdiv
  have hsum : ((r + c.totalImages : Int) + offset).toNat + c.totalImages * q =
      m - 1 + c.totalImages * 1 := by
    have hcast : ((c.totalImages * q : Nat) : Int) + r = k - 1 := by omega
    omega
  calc ((r + c.totalImages : Int) + offset).toNat % c.totalImages
      = (((r + c.totalImages : Int) + offset).toNat + c.totalImages * q) % c.totalImages :=
        (Nat.add_mul_mod_self_left _ _ _).symm
    _ = (m - 1 + c.totalImages * 1) % c.totalImages := by rw [hsum]
    _ = (m - 1) % c.totalImages := Nat.add_mul_mod_self_left _ _ _

end SweepLog

/-! ## Looking up the history -/

namespace Pm

variable {s : Pm c α} {offset : Int} {baseSweepNum : BitVec 32} {historyIndex : Fin c.totalImages}

def historyAt (historyIndex : Fin c.totalImages) (offset : Int) : Fin c.totalImages :=
  c.wrap ((historyIndex.val + c.totalImages : Int) + offset).toNat

structure HistoryHas (s : Pm c α) (historyIndex : Fin c.totalImages) (offset : Int)
    (baseSweepNum : BitVec 32) (i : Fin c.totalImages) : Prop where
  inUse : s.history historyIndex ≠ none
  small : offset.natAbs < c.totalImages
  swept : offset.natAbs ≤ s.numSweeps.toNat
  entry : s.history (historyAt historyIndex offset) = some i
  sweepNum : (s.image i).sweepNum = baseSweepNum + BitVec.ofInt 32 offset
  valid : (s.image i).state = .valid

theorem computeHistory_eq_ok {found : Found c} :
    s.computeHistory historyIndex offset baseSweepNum = .ok found ↔
      s.HistoryHas historyIndex offset baseSweepNum found.imageIndex ∧
        found =
          ⟨found.imageIndex, s.buildHistoryImageId (historyAt historyIndex offset), none⟩ := by
  unfold computeHistory
  rw [dif_pos historyIndex.isLt]
  constructor
  · intro h
    split at h
    · cases h
    · rename_i hused
      split at h
      · cases h
      · rename_i hbound
        rw [not_or, Nat.not_le, Nat.not_lt] at hbound
        dsimp only at h
        split at h
        · cases h
        · rename_i i hentry
          split at h
          · cases h
          · rename_i htest
            rw [not_or, not_not, not_not] at htest
            cases h
            exact ⟨⟨hused, hbound.1, hbound.2, hentry, htest.1, htest.2⟩, rfl⟩
  · rintro ⟨h, hfound⟩
    have hentry : s.history (c.wrap ((historyIndex.val + c.totalImages : Int) + offset).toNat) =
        some found.imageIndex := h.entry
    rw [if_neg h.inUse, if_neg (by have := h.small; have := h.swept; omega)]
    dsimp only
    rw [hentry]
    dsimp only
    rw [if_neg (by simp [h.sweepNum, h.valid]), hfound]
    rfl

end Pm

namespace SweepLog

variable {l : SweepLog c α} {i j : Fin c.totalImages} {k m n : Nat} {offset : Int}

/-- Sweep numbers have 32 bits.  Equal ones belong to one sweep, unless the number that is looked
for is that of a sweep before the start. -/
theorem eq_of_sweepNum (hm : m < 4294967296)
    (hold : 0 ≤ k + offset ∨ (m : Int) < k + offset + 4294967296)
    (hnew : (k : Int) + offset < m + 4294967296)
    (h : BitVec.ofNat 32 m = BitVec.ofNat 32 k + BitVec.ofInt 32 offset) :
    (m : Int) = k + offset := by
  have hsum : BitVec.ofInt 32 m = BitVec.ofInt 32 (k + offset) := by
    rw [BitVec.ofInt_add, BitVec.ofInt_natCast, BitVec.ofInt_natCast]
    exact h
  have hmod := congrArg BitVec.toNat hsum
  rw [BitVec.toNat_ofInt, BitVec.toNat_ofInt] at hmod
  omega

theorem Inv.buildHistoryImageId (h : l.Inv) (hm : l.Recorded m i)
    (hentry : l.run.pm.history (c.wrap (m - 1)) = some i) :
    l.run.pm.buildHistoryImageId (c.wrap (m - 1)) = historyId c m := by
  unfold Pm.buildHistoryImageId historyId
  rw [hentry, Option.map_some, Option.getD_some, (h.swept m i hm.lt hm.kept).sweepNum]

theorem not_aliased_zero (k : Nat) : ¬l.Aliased k 0 := by
  unfold Aliased
  omega

theorem Inv.not_aliased_last (h : l.Inv) (hlt : 1 < l.numSweeps) (hoffset : offset ≤ 0)
    (hsmall : c.totalImages ≤ 65536) : ¬l.Aliased (l.numSweeps - 1) offset := by
  have hfew := h.few
  unfold Aliased
  omega

/-- What a look-up from sweep `k` answers: the image of the sweep at the offset, and its id. -/
structure Answers (l : SweepLog c α) (x : Except PaError (Found c)) (k : Nat) (offset : Int) :
    Prop where
  some : ∀ i, offset.natAbs < c.totalImages → l.Available (k + offset) i →
    ∃ found, x = .ok found ∧ found.imageIndex = i
  only : ∀ found, x = .ok found → offset.natAbs < c.totalImages ∧
    ∃ m : Nat, (m : Int) = k + offset ∧ l.numSweeps ≤ m + c.totalImages ∧
      l.Recorded m found.imageIndex ∧ found.retImageId = historyId c m

theorem Inv.computeHistory (h : l.Inv) (hsmall : c.totalImages ≤ 65536) (offset : Int)
    (hk : 1 ≤ k) (hlt : k < l.numSweeps)
    (hold : ¬l.Aliased k offset) :
    l.Answers (l.run.pm.computeHistory (c.wrap (k - 1)) offset (BitVec.ofNat 32 k)) k offset := by
  have hfew := h.few
  have hnum : l.run.pm.numSweeps.toNat = l.numSweeps := by
    rw [h.numSweeps, BitVec.toNat_ofNat]
    exact Nat.mod_eq_of_lt hfew
  constructor
  · rintro i hoffset ⟨m, hm, hrecent, hrecorded⟩
    have hswept := h.swept m i hrecorded.lt hrecorded.kept
    have hplace : Pm.historyAt (c.wrap (k - 1)) offset = c.wrap (m - 1) :=
      wrap_offset hk hrecorded.pos hm hoffset
    have hmlt := hrecorded.lt
    have hmpos := hrecorded.pos
    have hentry : l.run.pm.history (Pm.historyAt (c.wrap (k - 1)) offset) = some i := by
      rw [hplace, h.history_eq hrecorded.pos hrecorded.lt hrecent]
      exact hrecorded.kept.used
    have hsum : BitVec.ofNat 32 m = BitVec.ofNat 32 k + BitVec.ofInt 32 offset := by
      rw [← BitVec.ofInt_natCast, ← BitVec.ofInt_natCast, ← BitVec.ofInt_add, hm]
    refine ⟨⟨i, l.run.pm.buildHistoryImageId (Pm.historyAt (c.wrap (k - 1)) offset), none⟩,
      Pm.computeHistory_eq_ok.2 ⟨?_, rfl⟩, rfl⟩
    refine ⟨h.history_ne_none hk hlt, hoffset, ?_, hentry, ?_, hswept.valid⟩
    · rw [hnum]
      omega
    · rw [hswept.sweepNum, hsum]
  · intro found hfound
    obtain ⟨hhas, hid⟩ := Pm.computeHistory_eq_ok.1 hfound
    obtain ⟨m, hrecorded, hrecent⟩ := h.recorded_of_history hhas.entry hhas.valid
    have hswept := h.swept m _ hrecorded.lt hrecorded.kept
    have hmlt := hrecorded.lt
    have hoffset := hhas.small
    have hswept' := hhas.swept
    rw [hnum] at hswept'
    unfold Aliased at hold
    have hm : (m : Int) = k + offset := by
      apply eq_of_sweepNum (by omega) (by omega) (by omega)
      rw [← hswept.sweepNum, hhas.sweepNum]
    have hplace : Pm.historyAt (c.wrap (k - 1)) offset = c.wrap (m - 1) :=
      wrap_offset hk hrecorded.pos hm hoffset
    refine ⟨hoffset, m, hm, hrecent, hrecorded, ?_⟩
    rw [hid, hplace]
    exact h.buildHistoryImageId hrecorded (hplace ▸ hhas.entry)

/-! ## Looking up ids -/

/-- A look-up from sweep `k` finds the image of the sweep at the offset as long as that is
available and nothing else, and the id that it returns leads to the same image. -/
structure Right (l : SweepLog c α) (x : Except PaError (Found c)) (k : Nat) (offset : Int) :
    Prop where
  answers : ∀ i, offset.natAbs < c.totalImages → l.Available (k + offset) i →
    ∃ found, x = .ok found ∧ found.imageIndex = i
  only : ∀ found, x = .ok found →
    offset.natAbs < c.totalImages ∧ l.Available (k + offset) found.imageIndex
  image : ∀ found, x = .ok found → (l.run.pm.image found.imageIndex).state = .valid ∧
    (l.run.pm.image found.imageIndex).sweepNum = BitVec.ofInt 32 (k + offset)
  again : ∀ found type, x = .ok found → type = imageIdTypeAny ∨ type = imageIdTypeHistory →
    ∃ found', (l.run.pm.getIndexFromImageId type found.retImageId 0).2 = .ok found' ∧
      found'.imageIndex = found.imageIndex

theorem ne_freezeFrame {type : BitVec 2}
    (h : type = imageIdTypeAny ∨ type = imageIdTypeHistory) : type ≠ imageIdTypeFreezeFrame := by
  rcases h with rfl | rfl
  · decide
  · decide

theorem Inv.lastImage (h : l.Inv) (hlt : 1 < l.numSweeps) :
    ∃ i, l.run.pm.lastImage = some (i, i) ∧ l.Recorded (l.numSweeps - 1) i ∧
      l.run.pm.history (c.wrap (l.numSweeps - 1 - 1)) = some i ∧
      l.run.pm.lastHistoryIndex = c.wrap (l.numSweeps - 1 - 1) := by
  have hlength := h.length
  have hsweep := h.lastSweep
  have hplace := h.lastHistory
  obtain ⟨i, hi⟩ : ∃ i, l.used[l.numSweeps - 1]? = some i :=
    ⟨_, List.getElem?_eq_getElem (by omega)⟩
  rw [if_neg (by omega), hi] at hsweep
  rw [if_neg (by omega), show l.numSweeps - 2 = l.numSweeps - 1 - 1 by omega] at hplace
  have hlast := h.inv.last _ hsweep
  obtain ⟨n, hle, hkept⟩ := exists_kept hi
  have hn := h.lt_of_valid hkept hlast.2
  have heq : n = l.numSweeps - 1 := by omega
  refine ⟨i, Pm.lastImage_eq_some hsweep hlast.1 hlast.2, ⟨by omega, by omega, heq ▸ hkept⟩, ?_,
    hplace⟩
  rw [← hplace]
  exact hlast.1

theorem historyId_index (hsmall : c.totalImages ≤ 65536) (k : Nat) :
    (historyId c k).index.toNat = (c.wrap (k - 1)).val := by
  show (BitVec.ofNat 16 (c.wrap (k - 1)).val).toNat = _
  rw [BitVec.toNat_ofNat]
  exact Nat.mod_eq_of_lt ((c.wrap (k - 1)).isLt.trans_le hsmall)

theorem historyId_sweepNum (hk : k < 4294967296) : (historyId c k).sweepNum.toNat = k := by
  show (BitVec.ofNat 32 k).toNat = k
  rw [BitVec.toNat_ofNat]
  exact Nat.mod_eq_of_lt hk

theorem Inv.getIndexFromImageId_history (h : l.Inv) (hsmall : c.totalImages ≤ 65536) (hk : 1 ≤ k)
    (hlt : k < l.numSweeps) {type : BitVec 2} (htype : type ≠ imageIdTypeFreezeFrame)
    (offset : Int) :
    l.run.pm.getIndexFromImageId type (historyId c k) offset =
      (l.run.pm, l.run.pm.computeHistory (c.wrap (k - 1)) offset (BitVec.ofNat 32 k)) := by
  obtain ⟨i, hlast, _, _⟩ := h.lastImage (by omega)
  have hmatch : ¬(type ≠ imageIdTypeAny ∧ decide ((historyId c k).type = imageIdTypeFreezeFrame) ≠
      decide (type = imageIdTypeFreezeFrame)) := by
    rw [decide_eq_false htype]
    exact fun hne => hne.2 rfl
  have hlive : historyId c k ≠ imageIdLiveData := by
    intro heq
    exact absurd (congrArg ImageId.type heq) (by decide : ¬(imageIdTypeHistory = 0#2))
  unfold Pm.getIndexFromImageId
  rw [hlast]
  dsimp only
  have hhistory : (historyId c k).type = imageIdTypeHistory := rfl
  rw [if_neg hmatch, if_neg hlive, if_pos hhistory, historyId_index hsmall]
  rfl

theorem Answers.right (h : l.Inv) (hsmall : c.totalImages ≤ 65536)
    {x : Except PaError (Found c)} (hx : l.Answers x k offset) : l.Right x k offset := by
  refine ⟨hx.some, ?_, ?_, ?_⟩
  · intro found hfound
    obtain ⟨hoffset, m, hm, hrecent, hrecorded, _⟩ := hx.only found hfound
    exact ⟨hoffset, m, hm, hrecent, hrecorded⟩
  · intro found hfound
    obtain ⟨_, m, hm, _, hrecorded, _⟩ := hx.only found hfound
    have hswept := h.swept m _ hrecorded.lt hrecorded.kept
    refine ⟨hswept.valid, ?_⟩
    rw [hswept.sweepNum, ← hm, BitVec.ofInt_natCast]
  · intro found type hfound htype
    obtain ⟨_, m, hm, hrecent, hrecorded, hid⟩ := hx.only found hfound
    have hanswers := h.computeHistory hsmall 0 hrecorded.pos hrecorded.lt (not_aliased_zero _)
    rw [hid, h.getIndexFromImageId_history hsmall hrecorded.pos hrecorded.lt
      (ne_freezeFrame htype) 0]
    exact hanswers.some _ c.totalImages_pos ⟨m, by omega, hrecent, hrecorded⟩

theorem Inv.live (h : l.Inv) (hsmall : c.totalImages ≤ 65536) {type : BitVec 2}
    (htype : type ≠ imageIdTypeFreezeFrame) (hoffset : offset ≤ 0) :
    l.Answers (l.run.pm.getIndexFromImageId type imageIdLiveData offset).2 (l.numSweeps - 1)
      offset := by
  have hfew := h.few
  by_cases hlt : 1 < l.numSweeps
  · obtain ⟨i, hlast, hrecorded, hentry, hplace⟩ := h.lastImage hlt
    have hmatch : ¬(type ≠ imageIdTypeAny ∧
        decide (imageIdLiveData.type = imageIdTypeFreezeFrame) ≠
          decide (type = imageIdTypeFreezeFrame)) := by
      rw [decide_eq_false htype]
      exact fun hne => hne.2 rfl
    have hnum := (h.swept _ i hrecorded.lt hrecorded.kept).sweepNum
    unfold Pm.getIndexFromImageId
    rw [hlast]
    dsimp only
    rw [if_neg hmatch, if_pos rfl, if_neg (by omega)]
    split_ifs with hzero
    · subst hzero
      constructor
      · rintro j _ ⟨m, hm, _, hmrec⟩
        have heq : m = l.numSweeps - 1 := by omega
        have hj := (heq ▸ hmrec.kept.used).symm.trans hrecorded.kept.used
        exact ⟨_, rfl, (Option.some.inj hj).symm⟩
      · intro found hfound
        cases hfound
        refine ⟨c.totalImages_pos, l.numSweeps - 1, by omega, ?_, hrecorded, ?_⟩
        · have := c.totalImages_pos
          omega
        · rw [hplace]
          exact h.buildHistoryImageId hrecorded hentry
    · rw [hnum, hplace]
      exact h.computeHistory hsmall offset (by omega) (by omega)
        (h.not_aliased_last hlt hoffset hsmall)
  · have hnone : l.run.pm.lastImage = none := by
      have hsweep := h.lastSweep
      rw [if_pos (by omega)] at hsweep
      unfold Pm.lastImage
      rw [hsweep]
    have herror : (l.run.pm.getIndexFromImageId type imageIdLiveData offset).2 =
        .error ⟨.unavailable, "Sweep Engine not ready"⟩ := by
      unfold Pm.getIndexFromImageId
      rw [hnone]
    rw [herror]
    constructor
    · rintro i _ ⟨m, _, _, hrecorded⟩
      have := hrecorded.pos
      have := hrecorded.lt
      omega
    · intro found hfound
      cases hfound

theorem Inv.freezeFrame (h : l.Inv) (hsmall : c.totalImages ≤ 65536) {f : Frozen c α}
    (hf : f ∈ l.run.outstanding) (hk : l.Recorded k f.imageIndex) (hoffset : offset ≠ 0)
    (hold : ¬l.Aliased k offset) :
    l.Answers (l.run.pm.getIndexFromImageId imageIdTypeAny f.id offset).2 k offset := by
  have hfound := h.inv.found hf
  have hpos := hk.pos
  have hlt := hk.lt
  have hswept := h.swept k f.imageIndex hk.lt hk.kept
  obtain ⟨i, hlast, _, _⟩ := h.lastImage (by omega)
  have hready : l.run.pm.lastImage.isSome := by
    rw [hlast]
    rfl
  obtain ⟨hslot, hlead⟩ := hfound.leads
  rw [Pm.getIndexFromImageId_eq hready (h.inv.types f hf) (Or.inl rfl), dif_pos hslot]
  have hhistory := h.computeHistory hsmall offset hk.pos hk.lt hold
  have hlook : (l.run.pm.getFreezeFrame imageIdTypeAny f.id offset ⟨f.id.index.toNat, hslot⟩).2 =
      (l.run.pm.computeHistory (c.wrap (k - 1)) offset (BitVec.ofNat 32 k)).map fun found =>
        { found with clientId := some f.id.clientId } := by
    unfold Pm.getFreezeFrame
    rw [hlead]
    dsimp only
    rw [if_neg (by simp [hfound.sweepNum, hfound.valid]), if_neg hfound.seen.ne_zero,
      if_neg hfound.seen, if_neg (fun hne => absurd hne.1 (by decide)), if_neg hoffset,
      ← hswept.historyIndex hk.pos, ← hfound.sweepNum, hswept.sweepNum]
  rw [hlook]
  generalize l.run.pm.computeHistory (c.wrap (k - 1)) offset (BitVec.ofNat 32 k) = x at hhistory
  constructor
  · intro i hsmallOffset havailable
    obtain ⟨found, rfl, hi⟩ := hhistory.some i hsmallOffset havailable
    exact ⟨_, rfl, hi⟩
  · intro found hok
    cases x with
    | error e => cases hok
    | ok y =>
      cases hok
      exact hhistory.only y rfl

/-- Every look-up of live data, of an id that has been returned, or of a freeze frame that has not
been released, is right. -/
structure LookUpsRight (l : SweepLog c α) : Prop where
  live : ∀ type offset, type = imageIdTypeAny ∨ type = imageIdTypeHistory → offset ≤ 0 →
    l.Right (l.run.pm.getIndexFromImageId type imageIdLiveData offset).2 (l.numSweeps - 1) offset
  history : ∀ type id offset, type = imageIdTypeAny ∨ type = imageIdTypeHistory →
    id ∈ l.returned → id.type = imageIdTypeHistory → ¬l.Aliased id.sweepNum.toNat offset →
    l.Right (l.run.pm.getIndexFromImageId type id offset).2 id.sweepNum.toNat offset
  freezeFrame : ∀ f ∈ l.run.outstanding, ∀ offset, offset ≠ 0 →
    ¬l.Aliased f.id.sweepNum.toNat offset →
    l.Right (l.run.pm.getIndexFromImageId imageIdTypeAny f.id offset).2 f.id.sweepNum.toNat offset
  frozen : ∀ f ∈ l.run.outstanding, ∀ type,
    type = imageIdTypeAny ∨ type = imageIdTypeFreezeFrame →
    ∃ found, (l.run.pm.getIndexFromImageId type f.id 0).2 = .ok found ∧
      found.imageIndex = f.imageIndex ∧ l.Recorded f.id.sweepNum.toNat f.imageIndex ∧
      (l.run.pm.image f.imageIndex).contents = f.contents

theorem Inv.lookUpsRight (h : l.Inv) (hsmall : c.totalImages ≤ 65536) : l.LookUpsRight := by
  have hfew := h.few
  have hnumber : ∀ f ∈ l.run.outstanding, l.Recorded f.id.sweepNum.toNat f.imageIndex := by
    intro f hf
    obtain ⟨m, hm⟩ := h.frozen f hf
    have hlt := hm.lt
    rw [← (h.inv.found hf).sweepNum, (h.swept m _ hm.lt hm.kept).sweepNum, BitVec.toNat_ofNat,
      Nat.mod_eq_of_lt (by omega)]
    exact hm
  refine ⟨?_, ?_, ?_, ?_⟩
  · intro type offset htype hoffset
    exact (h.live hsmall (ne_freezeFrame htype) hoffset).right h hsmall
  · intro type id offset htype hid hhistory hold
    obtain ⟨m, hpos, hlt, rfl⟩ := h.returned id hid hhistory
    rw [historyId_sweepNum (by omega)] at hold ⊢
    rw [h.getIndexFromImageId_history hsmall hpos hlt (ne_freezeFrame htype)]
    exact (h.computeHistory hsmall offset hpos hlt hold).right h hsmall
  · intro f hf offset hoffset hold
    exact (h.freezeFrame hsmall hf (hnumber f hf) hoffset hold).right h hsmall
  · intro f hf type htype
    have hresolves := h.inv.holds.resolves f hf
    obtain ⟨found, hfound, hi⟩ := hresolves.found type htype
    exact ⟨found, hfound, hi, hnumber f hf, hresolves.contents⟩

end SweepLog

namespace Pm

variable {s : Pm c α} {type : BitVec 2} {id : ImageId} {offset : Int} {found : Found c}

theorem getIndexFromImageId_ok (h : (s.getIndexFromImageId type id offset).2 = .ok found) :
    (id = imageIdLiveData ∧ type ≠ imageIdTypeFreezeFrame ∧ offset ≤ 0) ∨
      (id.type = imageIdTypeHistory ∧
        s.computeHistory id.index.toNat offset id.sweepNum = .ok found) ∨
      (id.type = imageIdTypeFreezeFrame ∧ ∃ slot,
        (s.getFreezeFrame type id offset slot).2 = .ok found) := by
  unfold getIndexFromImageId at h
  split at h
  · cases h
  · split at h
    · cases h
    · rename_i hmatch
      split at h
      · rename_i hlive
        split at h
        · cases h
        · rename_i hoffset
          refine Or.inl ⟨hlive, ?_, by omega⟩
          rintro rfl
          rw [hlive] at hmatch
          exact hmatch ⟨by decide, by decide⟩
      · split at h
        · rename_i htype
          exact Or.inr (Or.inl ⟨htype, h⟩)
        · split at h
          · rename_i htype
            split at h
            · exact Or.inr (Or.inr ⟨htype, _, h⟩)
            · cases h
          · cases h

theorem getFreezeFrame_ok {slot : Fin c.freezeFrameImages}
    (h : (s.getFreezeFrame type id offset slot).2 = .ok found) :
    ∃ i, (s.image i).sweepNum = id.sweepNum ∧ (s.image i).state = .valid ∧
      (s.image i).ffRefCount ≠ 0#64 ∧
      (found = ⟨i, id, some id.clientId⟩ ∨ ∃ y,
        s.computeHistory (s.image i).historyIndex offset id.sweepNum = .ok y ∧
          found = { y with clientId := some id.clientId }) := by
  unfold getFreezeFrame at h
  split at h
  · cases h
  · rename_i i hslot
    split at h
    · cases h
    · rename_i htest
      rw [not_or, not_not, not_not] at htest
      split at h
      · cases h
      · rename_i hcount
        split at h
        · cases h
        · split at h
          · cases h
          · split at h
            · cases h
              exact ⟨i, htest.1, htest.2, hcount, Or.inl rfl⟩
            · refine ⟨i, htest.1, htest.2, hcount, Or.inr ?_⟩
              cases hy : s.computeHistory (s.image i).historyIndex offset id.sweepNum with
              | error e =>
                rw [hy] at h
                cases h
              | ok y =>
                rw [hy] at h
                cases h
                exact ⟨y, rfl, rfl⟩

theorem getIndexFromTime_ok {requestTime : Nat} (h : s.getIndexFromTime requestTime = .ok found) :
    ∃ (i : Nat) (p : Fin c.totalImages × Fin c.totalImages), s.lastImage = some p ∧
      s.computeHistory s.lastHistoryIndex (-(i : Int)) (s.image p.2).sweepNum = .ok found := by
  unfold getIndexFromTime at h
  split at h
  · cases h
  · rename_i p hlast
    dsimp only at h
    split at h
    · cases h
    · rename_i y hsome
      cases h
      obtain ⟨i, _, hi⟩ := List.exists_of_findSome?_eq_some hsome
      split at hi
      · cases hi
      · rename_i y hhistory
        split at hi
        · cases hi
          exact ⟨i, _, hlast, hhistory⟩
        · cases hi

theorem computeHistory_lt {historyIndex : Nat} {base : BitVec 32}
    (h : s.computeHistory historyIndex offset base = .ok found) : historyIndex < c.totalImages := by
  unfold computeHistory at h
  split at h
  · rename_i hlt
    exact hlt
  · cases h

end Pm

namespace SweepLog

variable {l : SweepLog c α} {i j : Fin c.totalImages} {k m n : Nat} {offset : Int}

theorem Inv.recorded_of_computeHistory (h : l.Inv) {historyIndex : Nat} {base : BitVec 32}
    {found : Found c} (hok : l.run.pm.computeHistory historyIndex offset base = .ok found) :
    ∃ m, l.Recorded m found.imageIndex := by
  have hlt := Pm.computeHistory_lt hok
  have hplace : l.run.pm.computeHistory (⟨historyIndex, hlt⟩ : Fin c.totalImages).val offset base =
      .ok found := hok
  have hhas := Pm.computeHistory_eq_ok.1 hplace
  obtain ⟨m, hm, _⟩ := h.recorded_of_history hhas.1.entry hhas.1.valid
  exact ⟨m, hm⟩

theorem Inv.recorded_of_freezeFrame (h : l.Inv) (hcount : (l.run.pm.image i).ffRefCount ≠ 0#64) :
    ∃ m, l.Recorded m i := by
  obtain ⟨f, hf, rfl⟩ := h.inv.frozen hcount
  exact h.frozen f hf

theorem Inv.recorded_of_found (h : l.Inv) (hsmall : c.totalImages ≤ 65536) {type : BitVec 2}
    {imageId : ImageIdData} {found : Found c}
    (hfound : (l.run.pm.findImage type imageId).2 = .ok found) :
    ∃ m, l.Recorded m found.imageIndex := by
  unfold Pm.findImage at hfound
  split at hfound
  · split at hfound
    · cases hfound
    · obtain ⟨_, p, _, hok⟩ := Pm.getIndexFromTime_ok hfound
      exact h.recorded_of_computeHistory hok
  · rcases Pm.getIndexFromImageId_ok hfound with ⟨hlive, htype, hoffset⟩ | ⟨_, hok⟩ | ⟨_, slot, hok⟩
    · rw [hlive] at hfound
      obtain ⟨_, m, _, _, hm, _⟩ := (h.live hsmall htype hoffset).only found hfound
      exact ⟨m, hm⟩
    · exact h.recorded_of_computeHistory hok
    · obtain ⟨i, _, _, hcount, rfl | ⟨y, hy, rfl⟩⟩ := Pm.getFreezeFrame_ok hok
      · exact h.recorded_of_freezeFrame hcount
      · obtain ⟨m, hm⟩ := h.recorded_of_computeHistory hy
        exact ⟨m, hm⟩

theorem Inv.returned_of_found (h : l.Inv) (hsmall : c.totalImages ≤ 65536) {type : BitVec 2}
    {imageId : ImageIdData} {found : Found c}
    (known : imageId.imageNumber.type = imageIdTypeHistory → imageId.imageNumber ∈ l.returned)
    (inTime : imageId.imageNumber.type = imageIdTypeHistory ∨
      imageId.imageNumber.type = imageIdTypeFreezeFrame →
      ¬l.Aliased imageId.imageNumber.sweepNum.toNat imageId.imageOffset)
    (hfound : (l.run.pm.findImage type imageId).2 = .ok found)
    (hhistory : found.retImageId.type = imageIdTypeHistory) :
    ∃ m, 1 ≤ m ∧ m < l.numSweeps ∧ found.retImageId = historyId c m := by
  have hfew := h.few
  have hid : ∀ {x : Except PaError (Found c)} {k : Nat} {offset : Int} {y : Found c},
      l.Answers x k offset → x = .ok y → ∃ m, 1 ≤ m ∧ m < l.numSweeps ∧
        y.retImageId = historyId c m := by
    intro x k offset y hx hy
    obtain ⟨_, m, _, _, hm, hret⟩ := hx.only y hy
    exact ⟨m, hm.pos, hm.lt, hret⟩
  unfold Pm.findImage at hfound
  split at hfound
  · split at hfound
    · cases hfound
    · obtain ⟨i, p, hlast, hok⟩ := Pm.getIndexFromTime_ok hfound
      by_cases hlt : 1 < l.numSweeps
      · obtain ⟨q, hq, hrecorded, _, hplace⟩ := h.lastImage hlt
        rw [hq] at hlast
        cases hlast
        rw [hplace, (h.swept _ q hrecorded.lt hrecorded.kept).sweepNum] at hok
        exact hid (h.computeHistory hsmall (-(i : Int)) (by omega) (by omega)
          (h.not_aliased_last hlt (by omega) hsmall)) hok
      · have hsweep := h.lastSweep
        rw [if_pos (by omega), (Pm.lastImage_valid hlast).1] at hsweep
        cases hsweep
  · rcases Pm.getIndexFromImageId_ok hfound with ⟨hlive, htype, hoffset⟩ | ⟨htype, hok⟩ |
      ⟨htype, slot, hok⟩
    · rw [hlive] at hfound
      exact hid (h.live hsmall htype hoffset) hfound
    · have hlate := inTime (Or.inl htype)
      obtain ⟨k, hpos, hlt, hk⟩ := h.returned _ (known htype) htype
      rw [hk] at hok hlate
      rw [historyId_index hsmall] at hok
      rw [historyId_sweepNum (by omega)] at hlate
      exact hid (h.computeHistory hsmall _ hpos hlt hlate) hok
    · have hlate := inTime (Or.inr htype)
      obtain ⟨i, hnum, _, hcount, rfl | ⟨y, hy, rfl⟩⟩ := Pm.getFreezeFrame_ok hok
      · rw [htype] at hhistory
        exact absurd hhistory (by decide)
      · obtain ⟨k, hk⟩ := h.recorded_of_freezeFrame hcount
        have hswept := h.swept k i hk.lt hk.kept
        have hlt := hk.lt
        rw [hswept.sweepNum] at hnum
        rw [hswept.historyIndex hk.pos, ← hnum] at hy
        have hknum : imageId.imageNumber.sweepNum.toNat = k := by
          rw [← hnum, BitVec.toNat_ofNat]
          exact Nat.mod_eq_of_lt (by omega)
        rw [hknum] at hlate
        have hanswers := h.computeHistory hsmall imageId.imageOffset hk.pos hk.lt hlate
        have hret := hid hanswers hy
        exact hret

/-! ## Runs -/

theorem Inv.of_same (h : l.Inv) {r : PmRun c α} {returned : List ImageId}
    (hsame : Pm.SameSweeps l.run.pm r.pm) (hinv : r.Inv)
    (hreturned : ∀ id ∈ returned, id.type = imageIdTypeHistory →
      ∃ m, 1 ≤ m ∧ m < l.numSweeps ∧ id = historyId c m)
    (hfrozen : ∀ f ∈ r.outstanding, ∃ m, l.Recorded m f.imageIndex) :
    Inv ⟨r, l.used, l.sweeping, returned⟩ where
  inv := hinv
  used_ne := h.used_ne
  few := h.few
  numSweeps := hsame.numSweeps.trans h.numSweeps
  current := h.current.trans (by rw [← hsame.sweepIndex])
  first := hsame.firstSweepAsMaster.trans h.first
  lastSweep := hsame.lastSweepIndex.trans h.lastSweep
  lastHistory := hsame.lastHistoryIndex.trans h.lastHistory
  history := by
    intro j
    have hentry : r.pm.history j = l.run.pm.history j := by rw [hsame.history]
    cases h.history j with
    | sweep m pos lt recent index entry => exact .sweep m pos lt recent index (hentry.trans entry)
    | empty none unused => exact .empty (hentry.trans none) unused
  swept := by
    intro m i hlt hkept
    have hswept := h.swept m i hlt ⟨hkept.used, hkept.last⟩
    exact ⟨(hsame.sweepNum i).trans hswept.sweepNum, (hsame.state i).trans hswept.valid,
      fun hpos => (hsame.historyIndex i).trans (hswept.historyIndex hpos)⟩
  filling := by
    intro hsweeping
    rw [hsame.sweepNum, hsame.sweepIndex, hsame.numSweeps]
    exact h.filling hsweeping
  returned := hreturned
  frozen := by
    intro f hf
    obtain ⟨m, hm⟩ := hfrozen f hf
    exact ⟨m, hm.pos, hm.lt, hm.kept.used, hm.kept.last⟩

theorem mem_froze {s : Pm c α} {imageId : ImageIdData} {id : ImageId} {f : Frozen c α}
    (h : f ∈ PmRun.froze s imageId id) :
    ∃ found, (s.findImage imageIdTypeAny imageId).2 = .ok found ∧
      f.imageIndex = found.imageIndex := by
  unfold PmRun.froze at h
  split at h
  · cases h
  · rename_i found hfound
    rw [List.mem_singleton] at h
    exact ⟨found, hfound, by rw [h]⟩

structure CallLeaves (r r' : PmRun c α) : Prop where
  same : Pm.SameSweeps r.pm r'.pm
  outstanding : ∀ f ∈ r'.outstanding, f ∈ r.outstanding ∨ ∃ imageId found,
    (r.pm.findImage imageIdTypeAny imageId).2 = .ok found ∧ f.imageIndex = found.imageIndex

theorem CallLeaves.cleared {r : PmRun c α} {s' : Pm c α} (h : r.pm.Cleared s') :
    CallLeaves r ⟨s', r.outstanding⟩ := ⟨h.sameSweeps, fun _ hf => Or.inl hf⟩

theorem callLeaves {r r' : PmRun c α} (h : r.Inv) {call : PmCall α} (hclient : IsClient call)
    {reply : Except PaError (Option ImageId)} (hstep : r.step call = .ok (r', reply)) :
    CallLeaves r r' := by
  cases call with
  | create imageId =>
    simp only [PmRun.step] at hstep
    cases htarget : r.createTarget imageId with
    | none =>
      obtain ⟨s', e, hcleared, hcall⟩ := PmRun.create_of_target_none h.last htarget
      rw [hcall] at hstep
      cases hstep
      exact .cleared hcleared
    | some target =>
      obtain ⟨i, slot, k⟩ := target
      have hcreates := PmRun.creates_of_target h.last htarget
      rw [hcreates.reply] at hstep
      cases hstep
      refine ⟨r.pm.sameSweeps_setFreezeFrame slot i k, fun f hf => ?_⟩
      rcases List.mem_append.1 hf with hf | hf
      · exact Or.inr ⟨imageId, mem_froze hf⟩
      · exact Or.inl hf
  | renew imageId =>
    have hcleared := (Pm.findImage_lookedUp h.last imageIdTypeFreezeFrame imageId).cleared
    cases hstep
    exact .cleared hcleared
  | release imageId junk =>
    simp only [PmRun.step] at hstep
    cases htarget : r.releaseTarget imageId junk with
    | none =>
      obtain ⟨s', e, hcleared, hcall⟩ := PmRun.release_of_target_none h.last htarget
      rw [hcall] at hstep
      cases hstep
      exact .cleared hcleared
    | some target =>
      obtain ⟨i, k⟩ := target
      have hreleases := PmRun.releases_of_target h.last htarget
      rw [hreleases.reply] at hstep
      cases hstep
      exact ⟨r.pm.sameSweeps_releaseImage i k, fun f hf => Or.inl (PmRun.mem_without.1 hf).1⟩
  | move ffImageId imageId =>
    simp only [PmRun.step] at hstep
    cases htarget : r.moveTarget ffImageId imageId with
    | none =>
      obtain ⟨s', e, hcleared, hcall⟩ := PmRun.move_of_target_none h.last htarget
      rw [hcall] at hstep
      cases hstep
      exact .cleared hcleared
    | some m =>
      have hmoves := PmRun.moves_of_target h.last htarget
      cases hslot : m.slot with
      | none =>
        rw [hmoves.fault hslot] at hstep
        cases hstep
      | some slot =>
        rw [hmoves.reply slot hslot] at hstep
        cases hstep
        refine ⟨(r.pm.sameSweeps_setFreezeFrame slot m.imageIndex m.clientId).trans
          (Pm.sameSweeps_releaseImage _ m.ffImageIndex m.ffClientId), fun f hf => ?_⟩
        rcases List.mem_append.1 hf with hf | hf
        · exact Or.inr ⟨imageId, mem_froze hf⟩
        · exact Or.inl (PmRun.mem_without.1 hf).1
  | sweepBegin sweepStart contents => exact hclient.elim
  | sweepComplete sweepDuration => exact hclient.elim

theorem inv_start (c : PmConfig) (interval : Nat) (contents : α) :
    (start c interval contents).Inv where
  inv := PmRun.inv_start c interval contents
  used_ne := List.cons_ne_nil _ _
  few := by
    show 0 < 4294967296
    omega
  numSweeps := rfl
  current := rfl
  first := rfl
  lastSweep := rfl
  lastHistory := rfl
  history := fun j => .empty rfl fun m _ hlt => absurd hlt (Nat.not_lt_zero m)
  swept := fun m _ hlt => absurd hlt (Nat.not_lt_zero m)
  filling := fun h => nomatch h
  returned := fun _ h => nomatch h
  frozen := fun _ h => nomatch h

theorem Inv.ne_current (h : l.Inv) (hlt : m < l.numSweeps) (hkept : l.Kept m i) :
    i ≠ l.run.pm.sweepIndex := by
  rintro rfl
  exact hkept.last l.numSweeps hlt h.current

theorem Inv.sweepBegin (h : l.Inv) (sweepStart : Nat) (contents : α) :
    Inv ⟨⟨l.run.pm.sweepBegin sweepStart contents, l.run.outstanding⟩, l.used, true,
      l.returned⟩ where
  inv := h.inv.sweepBegin sweepStart contents
  used_ne := h.used_ne
  few := h.few
  numSweeps := h.numSweeps
  current := h.current
  first := h.first
  lastSweep := h.lastSweep
  lastHistory := h.lastHistory
  history := by
    intro j
    cases h.history j with
    | sweep m pos lt recent index entry => exact .sweep m pos lt recent index entry
    | empty none unused => exact .empty none unused
  swept := by
    intro m i hlt hkept
    have hkept' : l.Kept m i := ⟨hkept.used, hkept.last⟩
    have hsame : (l.run.pm.sweepBegin sweepStart contents).image i = l.run.pm.image i :=
      Pm.setImage_image_of_ne _ (h.ne_current hlt hkept') _
    rw [show (l.run.pm.sweepBegin sweepStart contents).image i = _ from hsame]
    exact h.swept m i hlt hkept'
  filling := by
    intro _
    show ((l.run.pm.sweepBegin sweepStart contents).image l.run.pm.sweepIndex).sweepNum = _
    unfold Pm.sweepBegin
    rw [Pm.setImage_image_self]
    rfl
  returned := h.returned
  frozen := by
    intro f hf
    obtain ⟨m, hm⟩ := h.frozen f hf
    exact ⟨m, hm.pos, hm.lt, hm.kept.used, hm.kept.last⟩

theorem Inv.enterHistory_eq (h : l.Inv) (sweepDuration : Nat) :
    (PmRun.finishSweep l.run.pm sweepDuration).enterHistory =
      if l.numSweeps = 0 then PmRun.finishSweep l.run.pm sweepDuration
      else (PmRun.finishSweep l.run.pm sweepDuration).appendHistory := by
  have hfirst : (PmRun.finishSweep l.run.pm sweepDuration).firstSweepAsMaster =
      decide (l.numSweeps = 0) := h.first
  have hsweep : (PmRun.finishSweep l.run.pm sweepDuration).lastSweepIndex =
      if l.numSweeps ≤ 1 then none else l.used[l.numSweeps - 1]? := h.lastSweep
  unfold Pm.enterHistory Pm.lastSweepValid
  rw [hfirst, hsweep]
  by_cases hzero : l.numSweeps = 0
  · simp [hzero]
  · simp [hzero]

def completed (l : SweepLog c α) (s : Pm c α) (next : Fin c.totalImages) : SweepLog c α :=
  ⟨⟨s, l.run.outstanding⟩, l.used ++ [next], false, l.returned⟩

variable {s : Pm c α} {next : Fin c.totalImages}

theorem Inv.completed_numSweeps (h : l.Inv) : (l.completed s next).numSweeps = l.numSweeps + 1 := by
  have hlength := h.length
  unfold SweepLog.numSweeps completed at *
  rw [List.length_append, List.length_singleton]
  omega

theorem Inv.completed_used (h : l.Inv) (hm : m ≤ l.numSweeps) :
    (l.completed s next).used[m]? = l.used[m]? := by
  have hlength := h.length
  exact List.getElem?_append_left (by omega)

theorem Inv.completed_next (h : l.Inv) :
    (l.completed s next).used[l.numSweeps + 1]? = some next := by
  have hlength := h.length
  show (l.used ++ [next])[l.numSweeps + 1]? = some next
  rw [← hlength]
  exact List.getElem?_concat_length

theorem Inv.completed_kept (h : l.Inv) (hm : m ≤ l.numSweeps) :
    (l.completed s next).Kept m i ↔ l.Kept m i ∧ i ≠ next := by
  have hlength := h.length
  constructor
  · intro hkept
    refine ⟨⟨(h.completed_used hm).symm.trans hkept.used, ?_⟩, ?_⟩
    · intro k hk hused
      have hlt := (List.getElem?_eq_some_iff.1 hused).1
      exact hkept.last k hk ((h.completed_used (by omega)).trans hused)
    · rintro rfl
      exact hkept.last _ (by omega) h.completed_next
  · rintro ⟨hkept, hne⟩
    refine ⟨(h.completed_used hm).trans hkept.used, ?_⟩
    intro k hk hused
    by_cases hle : k ≤ l.numSweeps
    · exact hkept.last k hk ((h.completed_used hle).symm.trans hused)
    · have hlt := (List.getElem?_eq_some_iff.1 hused).1
      have hlen : (l.completed s next).used.length = l.used.length + 1 := List.length_append
      rw [show k = l.numSweeps + 1 by omega, h.completed_next, Option.some.injEq] at hused
      exact hne hused.symm

theorem wrap_wrap_add (i k : Nat) : c.wrap ((c.wrap i).val + k) = c.wrap (i + k) :=
  Fin.ext (Nat.mod_add_mod i c.totalImages k)

theorem wrap_add_totalImages (i : Nat) : c.wrap (i + c.totalImages) = c.wrap i :=
  Fin.ext (Nat.add_mod_right i c.totalImages)

theorem Inv.appendPlace (h : l.Inv) :
    c.wrap (l.run.pm.lastHistoryIndex + 1) = c.wrap (l.numSweeps - 1) := by
  have hpos := c.totalImages_pos
  rw [h.lastHistory, wrap_wrap_add]
  by_cases hone : l.numSweeps ≤ 1
  · rw [if_pos hone, show c.totalImages - 1 + 1 = 0 + c.totalImages by omega, wrap_add_totalImages]
    congr 1
    omega
  · rw [if_neg hone]
    congr 1
    omega

theorem Inv.completed_history (h : l.Inv) (sweepDuration : Nat)
    (hs : s = (PmRun.finishSweep l.run.pm sweepDuration).enterHistory.useImage next)
    (j : Fin c.totalImages) : (l.completed s next).HistoryEntry j := by
  have hnum : (l.completed s next).numSweeps = l.numSweeps + 1 := h.completed_numSweeps
  by_cases hzero : l.numSweeps = 0
  · have hentry : s.history = l.run.pm.history := by
      rw [hs, h.enterHistory_eq, if_pos hzero]
      rfl
    refine .empty ?_ fun m hpos hlt => absurd hlt (by omega)
    show s.history j = none
    rw [hentry]
    cases h.history j with
    | sweep m pos lt _ _ _ => omega
    | empty none _ => exact none
  · have hplace := h.appendPlace
    have hentry : s.history = Function.update l.run.pm.history (c.wrap (l.numSweeps - 1))
        (some l.run.pm.sweepIndex) := by
      rw [hs, h.enterHistory_eq, if_neg hzero, ← hplace]
      rfl
    by_cases hj : j = c.wrap (l.numSweeps - 1)
    · refine .sweep l.numSweeps (by omega) (by omega) ?_ hj.symm ?_
      · have := c.totalImages_pos
        omega
      · rw [h.completed_used (Nat.le_refl _), h.current]
        show s.history j = _
        rw [hentry, hj, Function.update_self]
    · have hsame : s.history j = l.run.pm.history j := by
        rw [hentry, Function.update_of_ne hj]
      cases h.history j with
      | sweep m pos lt recent index entry =>
        refine .sweep m pos (by omega) ?_ index ?_
        · -- a full turn back there would be the entry that is written
          have hturn : l.numSweeps ≠ m + c.totalImages := by
            intro heq
            apply hj
            rw [← index, ← wrap_add_totalImages]
            congr 1
            omega
          show (l.completed s next).numSweeps ≤ m + c.totalImages
          omega
        · rw [h.completed_used (by omega)]
          exact hsame.trans entry
      | empty none unused =>
        refine .empty (hsame.trans none) fun m hpos hlt => ?_
        by_cases hm : m = l.numSweeps
        · rw [hm]
          exact fun heq => hj heq.symm
        · exact unused m hpos (by omega)

theorem completed_image (sweepDuration : Nat)
    (hs : s = (PmRun.finishSweep l.run.pm sweepDuration).enterHistory.useImage next)
    (hnext : i ≠ next) (hcurrent : i ≠ l.run.pm.sweepIndex) :
    s.image i = l.run.pm.image i := by
  have hentered := (PmRun.finishSweep l.run.pm sweepDuration).entered_enterHistory
  rw [hs, Pm.useImage_image_of_ne _ hnext, hentered.image_of_ne i hcurrent,
    PmRun.finishSweep_image_of_ne hcurrent]

theorem Inv.completed_current (h : l.Inv) (sweepDuration : Nat) (hbusy : l.sweeping = true)
    (hs : s = (PmRun.finishSweep l.run.pm sweepDuration).enterHistory.useImage next)
    (hnext : l.run.pm.sweepIndex ≠ next) :
    SweptImage l.numSweeps (s.image l.run.pm.sweepIndex) c := by
  have hfill := h.filling hbusy
  rw [h.numSweeps] at hfill
  rw [hs, Pm.useImage_image_of_ne _ hnext, h.enterHistory_eq]
  by_cases hzero : l.numSweeps = 0
  · rw [if_pos hzero]
    unfold PmRun.finishSweep
    rw [Pm.setImage_image_self]
    exact ⟨hfill, rfl, fun hpos => absurd hpos (by omega)⟩
  · rw [if_neg hzero]
    have hself := (PmRun.finishSweep l.run.pm sweepDuration).appendHistory_image_self
    rw [show (PmRun.finishSweep l.run.pm sweepDuration).sweepIndex = l.run.pm.sweepIndex from rfl]
      at hself
    rw [hself]
    unfold PmRun.finishSweep
    rw [Pm.setImage_image_self]
    exact ⟨hfill, rfl, fun _ => congrArg Fin.val h.appendPlace⟩

theorem Inv.completed_frozen (h : l.Inv) (hzero : (l.run.pm.image next).ffRefCount = 0#64)
    {f : Frozen c α} (hf : f ∈ l.run.outstanding) :
    ∃ m, (l.completed s next).Recorded m f.imageIndex := by
  obtain ⟨m, hm⟩ := h.frozen f hf
  have hne : f.imageIndex ≠ next := by
    intro heq
    apply (h.inv.found hf).seen.ne_zero
    rw [heq]
    exact hzero
  have hlt := hm.lt
  refine ⟨m, hm.pos, ?_, (h.completed_kept (by omega)).2 ⟨hm.kept, hne⟩⟩
  rw [h.completed_numSweeps]
  omega

theorem Inv.completed_last (h : l.Inv) (sweepDuration : Nat)
    (hs : s = (PmRun.finishSweep l.run.pm sweepDuration).enterHistory.useImage next) :
    s.lastSweepIndex = (if l.numSweeps + 1 ≤ 1 then none else l.used[l.numSweeps]?) ∧
      s.lastHistoryIndex =
        c.wrap (if l.numSweeps + 1 ≤ 1 then c.totalImages - 1 else l.numSweeps + 1 - 2) := by
  by_cases hzero : l.numSweeps = 0
  · have hsweep : s.lastSweepIndex = l.run.pm.lastSweepIndex := by
      rw [hs, h.enterHistory_eq, if_pos hzero]
      rfl
    have hplace : s.lastHistoryIndex = l.run.pm.lastHistoryIndex := by
      rw [hs, h.enterHistory_eq, if_pos hzero]
      rfl
    rw [hsweep, hplace, h.lastSweep, h.lastHistory, if_pos (by omega), if_pos (by omega),
      if_pos (by omega), if_pos (by omega)]
    exact ⟨rfl, rfl⟩
  · have hsweep : s.lastSweepIndex = some l.run.pm.sweepIndex := by
      rw [hs, h.enterHistory_eq, if_neg hzero]
      rfl
    have hplace : s.lastHistoryIndex = c.wrap (l.run.pm.lastHistoryIndex + 1) := by
      rw [hs, h.enterHistory_eq, if_neg hzero]
      rfl
    rw [hsweep, hplace, h.appendPlace, if_neg (by omega), if_neg (by omega), h.current]
    exact ⟨rfl, congrArg c.wrap (by omega)⟩

theorem Inv.sweepComplete (h : l.Inv) (hbusy : l.sweeping = true) (sweepDuration : Nat)
    (hcomplete : l.run.pm.sweepComplete sweepDuration = some s)
    (hfew : l.numSweeps + 1 < 4294967296) : (l.completed s s.sweepIndex).Inv := by
  have hinv := h.inv.sweepComplete sweepDuration
  rw [hcomplete, Option.getD_some] at hinv
  obtain ⟨next, hnext, hother, hzero⟩ := h.inv.completes sweepDuration
  have hs : s = (PmRun.finishSweep l.run.pm sweepDuration).enterHistory.useImage next :=
    Option.some.inj (hcomplete.symm.trans hnext)
  have hindex : s.sweepIndex = next := by
    rw [hs]
    rfl
  rw [hindex]
  have hnum : (l.completed s next).numSweeps = l.numSweeps + 1 := h.completed_numSweeps
  have hlast := h.completed_last sweepDuration hs
  constructor
  · exact hinv
  · exact List.concat_ne_nil _ _
  · rw [hnum]
    exact hfew
  · have hcount : s.numSweeps = l.run.pm.numSweeps + 1#32 := by
      rw [hs, h.enterHistory_eq]
      split
      · rfl
      · rfl
    show s.numSweeps = _
    rw [hnum, hcount, h.numSweeps, BitVec.ofNat_add]
  · rw [hnum, h.completed_next]
    exact congrArg some hindex.symm
  · have hfirst : s.firstSweepAsMaster = false := by
      rw [hs]
      rfl
    show s.firstSweepAsMaster = _
    rw [hfirst, hnum]
    exact (decide_eq_false (Nat.succ_ne_zero _)).symm
  · rw [hnum, Nat.add_sub_cancel, h.completed_used (Nat.le_refl _)]
    exact hlast.1
  · rw [hnum]
    exact hlast.2
  · exact h.completed_history sweepDuration hs
  · intro m i hlt hkept
    rw [hnum] at hlt
    have hbefore := (h.completed_kept (by omega)).1 hkept
    show SweptImage m (s.image i) c
    by_cases hm : m = l.numSweeps
    · have hi : l.run.pm.sweepIndex = i := by
        rw [← Option.some.injEq, ← h.current, ← hm]
        exact hbefore.1.used
      rw [hm, ← hi]
      exact h.completed_current sweepDuration hbusy hs fun heq => hother heq.symm
    · have hearlier : m < l.numSweeps := by omega
      rw [completed_image sweepDuration hs hbefore.2 (h.ne_current hearlier hbefore.1)]
      exact h.swept m i hearlier hbefore.1
  · intro hsweeping
    cases hsweeping
  · intro id hid htype
    obtain ⟨m, hpos, hlt, heq⟩ := h.returned id hid htype
    refine ⟨m, hpos, ?_, heq⟩
    rw [hnum]
    omega
  · intro f hf
    exact h.completed_frozen hzero hf

theorem Inv.lookUp (h : l.Inv) (hsmall : c.totalImages ≤ 65536) {type : BitVec 2}
    {imageId : ImageIdData}
    (known : imageId.imageNumber.type = imageIdTypeHistory → imageId.imageNumber ∈ l.returned)
    (inTime : imageId.imageNumber.type = imageIdTypeHistory ∨
      imageId.imageNumber.type = imageIdTypeFreezeFrame →
      ¬l.Aliased imageId.imageNumber.sweepNum.toNat imageId.imageOffset) :
    Inv ⟨⟨(l.run.pm.findImage type imageId).1, l.run.outstanding⟩, l.used, l.sweeping,
      l.returnedBy (l.run.pm.findImage type imageId).2⟩ := by
  have hcleared := (Pm.findImage_lookedUp h.inv.last type imageId).cleared
  apply h.of_same hcleared.sameSweeps (h.inv.cleared hcleared)
  · intro id hid htype
    cases hfound : (l.run.pm.findImage type imageId).2 with
    | error e =>
      rw [hfound] at hid
      exact h.returned id hid htype
    | ok found =>
      rw [hfound] at hid
      cases List.mem_cons.1 hid with
      | inl heq =>
        rw [heq] at htype ⊢
        exact h.returned_of_found hsmall known inTime hfound htype
      | inr hold => exact h.returned id hold htype
  · exact h.frozen

theorem Inv.client (h : l.Inv) (hsmall : c.totalImages ≤ 65536) {call : PmCall α}
    (hclient : IsClient call) (hok : l.run.CallOk call) {r : PmRun c α}
    {reply : Except PaError (Option ImageId)} (hstep : l.run.step call = .ok (r, reply)) :
    Inv ⟨r, l.used, l.sweeping, l.returned⟩ := by
  have hleaves := callLeaves h.inv hclient hstep
  have hinv : r.Inv := by
    obtain ⟨r', hnext, hinv⟩ := (h.inv.stepSpec call).keep hok
    have hr : PmRun.next (.ok l.run) call = .ok r := by
      unfold PmRun.next
      dsimp only
      rw [hstep]
      rfl
    cases hnext.symm.trans hr
    exact hinv
  apply h.of_same hleaves.same hinv h.returned
  intro f hf
  rcases hleaves.outstanding f hf with hold | ⟨imageId, found, hfound, hi⟩
  · exact h.frozen f hold
  · rw [hi]
    exact h.recorded_of_found hsmall hfound

theorem Inv.step (h : l.Inv) (hsmall : c.totalImages ≤ 65536) {l' : SweepLog c α}
    (hstep : l.Step l') : l'.Inv := by
  cases hstep with
  | sweepBegin sweepStart contents idle => exact h.sweepBegin sweepStart contents
  | sweepComplete sweepDuration busy complete few =>
    exact h.sweepComplete busy sweepDuration complete few
  | client call isClient ok step => exact h.client hsmall isClient ok step
  | lookUp type imageId known inTime => exact h.lookUp hsmall known inTime

theorem Reached.inv (h : l.Reached) (hsmall : c.totalImages ≤ 65536) : l.Inv := by
  obtain ⟨interval, contents, hsteps⟩ := h
  induction hsteps with
  | refl => exact inv_start c interval contents
  | tail _ hstep ih => exact ih.step hsmall hstep

/-- In every state that a run reaches, every look-up is right. -/
theorem lookUpsRight_of_reached (h : l.Reached) (hsmall : c.totalImages ≤ 65536) :
    l.LookUpsRight := (h.inv hsmall).lookUpsRight hsmall

/-! ## Runs of whole sweeps -/

def sweep (l : SweepLog c α) (contents : α) : SweepLog c α :=
  let s := l.run.pm.sweepBegin 0 contents
  let s := (s.sweepComplete 0).getD s
  ⟨⟨s, l.run.outstanding⟩, l.used ++ [s.sweepIndex], false, l.returned⟩

def sweeps (l : SweepLog c α) (contents : α) : Nat → SweepLog c α
  | 0 => l
  | n + 1 => (l.sweeps contents n).sweep contents

theorem Reached.sweep (h : l.Reached) (hsmall : c.totalImages ≤ 65536) (hidle : l.sweeping = false)
    (hfew : l.numSweeps + 1 < 4294967296) (contents : α) : (l.sweep contents).Reached := by
  have hbegun := (h.inv hsmall).sweepBegin 0 contents
  obtain ⟨next, hnext, _⟩ := hbegun.inv.completes 0
  obtain ⟨interval, contents₀, hsteps⟩ := h
  refine ⟨interval, contents₀, (hsteps.tail (.sweepBegin 0 contents hidle)).tail ?_⟩
  have hcomplete : (l.run.pm.sweepBegin 0 contents).sweepComplete 0 =
      some (((l.run.pm.sweepBegin 0 contents).sweepComplete 0).getD
        (l.run.pm.sweepBegin 0 contents)) := by
    rw [hnext]
    rfl
  exact .sweepComplete 0 rfl hcomplete hfew

theorem Reached.sweeps (h : l.Reached) (hsmall : c.totalImages ≤ 65536) (contents : α)
    (hidle : l.sweeping = false) (hfew : l.numSweeps + n < 4294967296) :
    (l.sweeps contents n).Reached ∧ (l.sweeps contents n).sweeping = false ∧
      (l.sweeps contents n).numSweeps = l.numSweeps + n := by
  induction n with
  | zero => exact ⟨h, hidle, rfl⟩
  | succ n ih =>
    obtain ⟨hreached, hidle', hnum⟩ := ih (by omega)
    have hinv := hreached.inv hsmall
    refine ⟨hreached.sweep hsmall hidle' (by omega) contents, rfl, ?_⟩
    calc (l.sweeps contents (n + 1)).numSweeps
        = (l.sweeps contents n).numSweeps + 1 := hinv.completed_numSweeps
      _ = l.numSweeps + (n + 1) := by omega

theorem reached_start (c : PmConfig) (interval : Nat) (contents : α) :
    (start c interval contents).Reached := ⟨interval, contents, .refl⟩

/-- Two sweeps, and a client freezes the image of the second one, which is sweep 1. -/
def frozenOnce : SweepLog PmRun.sevenImages Nat :=
  let l := (start PmRun.sevenImages 60 0).sweeps 10 2
  match l.run.step (.create PmRun.liveData) with
  | .ok (r, _) => ⟨r, l.used, l.sweeping, l.returned⟩
  | .error _ => l

theorem reached_frozenOnce : frozenOnce.Reached := by
  obtain ⟨⟨interval, contents, hsteps⟩, _, _⟩ :=
    (reached_start PmRun.sevenImages 60 0).sweeps (n := 2) (by decide) 10 rfl (by decide)
  have htarget : ((start PmRun.sevenImages 60 0).sweeps 10 2).run.createTarget PmRun.liveData =
      some (⟨1, by decide⟩, ⟨0, by decide⟩, 0#6) := by
    decide +kernel
  have hok : ((start PmRun.sevenImages 60 0).sweeps 10 2).run.CallOk (.create PmRun.liveData) := by
    intro i slot k hsome
    rw [htarget] at hsome
    cases hsome
    unfold Seen
    decide +kernel
  unfold frozenOnce
  dsimp only
  split
  · rename_i r reply hstep
    exact ⟨interval, contents, hsteps.tail (.client (.create PmRun.liveData) trivial hok hstep)⟩
  · exact ⟨interval, contents, hsteps⟩

/-- The freeze frame outlives the history: after seven more sweeps its id still answers. -/
theorem not_only_history : ¬∀ l : SweepLog PmRun.sevenImages Nat, l.Reached →
    ∀ f ∈ l.run.outstanding,
      l.Right (l.run.pm.getIndexFromImageId imageIdTypeAny f.id 0).2 f.id.sweepNum.toNat 0 := by
  intro h
  have hidle : frozenOnce.sweeping = false := by decide +kernel
  have hnum : frozenOnce.numSweeps = 2 := by decide +kernel
  obtain ⟨hreached, _, hlater⟩ :=
    reached_frozenOnce.sweeps (n := 7) (by decide) 20 hidle (by omega)
  have hfrozen : ∃ f ∈ (frozenOnce.sweeps 20 7).run.outstanding, f.id.sweepNum.toNat = 1 ∧
      ((frozenOnce.sweeps 20 7).run.pm.getIndexFromImageId imageIdTypeAny f.id 0).2.isOk =
        true := by
    decide +kernel
  obtain ⟨f, hf, hsweep, hok⟩ := hfrozen
  have hright := h _ hreached f hf
  cases hx : ((frozenOnce.sweeps 20 7).run.pm.getIndexFromImageId imageIdTypeAny f.id 0).2 with
  | error e =>
    rw [hx] at hok
    cases hok
  | ok found =>
    obtain ⟨_, m, hm, hrecent, _⟩ := hright.only found hx
    rw [hlater, hnum] at hrecent
    have htotal : PmRun.sevenImages.totalImages = 7 := rfl
    omega

/-- After two sweeps, the second of which is frozen. -/
theorem lookUpsRight_frozenOnce : frozenOnce.LookUpsRight :=
  lookUpsRight_of_reached reached_frozenOnce (by decide)

end SweepLog

end OpaFm.PerfMgr
