import OpaFm.PerfMgr.FreezeFrames
import OpaFm.Lib.WordBits

/-!
# Bits of clients

The bits of `ffRefCount` under the two masks for a client: that of the calls, and that of the
look-up by id.
-/

namespace OpaFm.PerfMgr

open OpaFm.Lib

def clientBit (count : BitVec 64) (clientId : BitVec 6) : Bool := count.getLsbD clientId.toNat

def Seen (count : BitVec 64) (clientId : BitVec 6) : Prop := count &&& intMask clientId ≠ 0#64

theorem and_clientMask_eq_zero {count : BitVec 64} {k : BitVec 6} :
    count &&& clientMask k = 0#64 ↔ clientBit count k = false := by
  have hmask := and_shift_ne_zero (x := count) (show k.toNat < 64 from k.isLt)
  unfold clientMask clientBit
  rw [← Bool.not_eq_true, ← hmask]
  exact not_not.symm

theorem clientMask_bit (k j : BitVec 6) : clientBit (clientMask k) j = decide (j = k) := by
  have hk : k.toNat < 64 := k.isLt
  have hj : j.toNat < 64 := j.isLt
  unfold clientBit clientMask
  rw [BitVec.getLsbD_shiftLeft, BitVec.getLsbD_one]
  by_cases heq : j = k
  · subst heq
    simp [hj]
  · have hne : j.toNat ≠ k.toNat := fun h => heq (BitVec.eq_of_toNat_eq h)
    simp only [heq, decide_false]
    by_cases hlt : j.toNat < k.toNat
    · simp [hlt]
    · have hsub : j.toNat - k.toNat ≠ 0 := by omega
      simp [hsub]

theorem clientBit_or_mask (count : BitVec 64) (k j : BitVec 6) :
    clientBit (count ||| clientMask k) j = (clientBit count j || decide (j = k)) := by
  rw [← clientMask_bit]
  exact BitVec.getLsbD_or

theorem clientBit_and_not_mask (count : BitVec 64) (k j : BitVec 6) :
    clientBit (count &&& ~~~clientMask k) j = (clientBit count j && !decide (j = k)) := by
  have hj : j.toNat < 64 := j.isLt
  rw [← clientMask_bit]
  unfold clientBit
  rw [BitVec.getLsbD_and, BitVec.getLsbD_not]
  simp [hj]

theorem eq_zero_iff_clientBit {count : BitVec 64} :
    count = 0#64 ↔ ∀ k, clientBit count k = false := by
  constructor
  · intro h k
    rw [h]
    exact BitVec.getLsbD_zero
  · intro h
    apply BitVec.eq_of_getLsbD_eq
    intro i hi
    have hbit := h (BitVec.ofNat 6 i)
    unfold clientBit at hbit
    rw [BitVec.toNat_ofNat, Nat.mod_eq_of_lt (by omega)] at hbit
    rw [hbit, BitVec.getLsbD_zero]

theorem Seen.ne_zero {count : BitVec 64} {k : BitVec 6} (h : Seen count k) : count ≠ 0#64 := by
  intro hzero
  apply h
  rw [hzero, BitVec.zero_and]

theorem Seen.or {count : BitVec 64} {k : BitVec 6} (h : Seen count k) (mask : BitVec 64) :
    Seen (count ||| mask) k := by
  intro hzero
  apply h
  apply BitVec.eq_of_getLsbD_eq
  intro i hi
  have hbit := congrArg (fun x => x.getLsbD i) hzero
  simp only [BitVec.getLsbD_and, BitVec.getLsbD_or, BitVec.getLsbD_zero] at hbit ⊢
  cases hcount : count.getLsbD i
  · rfl
  · rw [hcount] at hbit
    simpa using hbit

end OpaFm.PerfMgr

/-!
## What look-ups find

A look-up answers with a valid image or leaves at most one stale slot cleared behind.  The id of
a freeze frame leads to its image through its slot.
-/

namespace OpaFm.PerfMgr.Pm

variable {c : PmConfig} {α : Type} {s s' : Pm c α}

/-! ### Slots -/

def Leads (s : Pm c α) (id : ImageId) (i : Fin c.totalImages) : Prop :=
  ∃ h : id.index.toNat < c.freezeFrameImages, s.freezeFrames ⟨id.index.toNat, h⟩ = some i

def Stale (s : Pm c α) (slot : Fin c.freezeFrameImages) : Prop :=
  ∀ i, s.freezeFrames slot = some i → (s.image i).ffRefCount = 0#64

def Cleared (s s' : Pm c α) : Prop := s' = s ∨ ∃ slot, s.Stale slot ∧ s' = s.clearSlot slot

theorem Leads.eq {id : ImageId} {i j : Fin c.totalImages} (hi : s.Leads id i) (hj : s.Leads id j) :
    i = j := by
  obtain ⟨_, hi⟩ := hi
  obtain ⟨_, hj⟩ := hj
  rw [hi] at hj
  exact Option.some.inj hj

theorem Leads.not_stale {id : ImageId} {i : Fin c.totalImages} (h : s.Leads id i)
    (hcount : (s.image i).ffRefCount ≠ 0#64) {slot : Fin c.freezeFrameImages}
    (hstale : s.Stale slot) : id.index.toNat ≠ slot.val := by
  intro heq
  obtain ⟨_, hslot⟩ := h
  apply hcount
  apply hstale i
  rw [← hslot]
  congr 1
  exact Fin.ext heq.symm

theorem leads_update {id : ImageId} {i : Fin c.totalImages} {slot : Fin c.freezeFrameImages}
    {x : Option (Fin c.totalImages)} (hne : id.index.toNat ≠ slot.val)
    (hframes : s'.freezeFrames = Function.update s.freezeFrames slot x) :
    s'.Leads id i ↔ s.Leads id i := by
  unfold Leads
  rw [hframes]
  apply exists_congr
  intro h
  rw [Function.update_of_ne]
  intro heq
  exact hne (congrArg Fin.val heq)

theorem leads_update_self {id : ImageId} {i j : Fin c.totalImages} {slot : Fin c.freezeFrameImages}
    (heq : id.index.toNat = slot.val)
    (hframes : s'.freezeFrames = Function.update s.freezeFrames slot (some j)) :
    s'.Leads id i ↔ j = i := by
  have hlt : id.index.toNat < c.freezeFrameImages := heq ▸ slot.isLt
  have hslot : (⟨id.index.toNat, hlt⟩ : Fin c.freezeFrameImages) = slot := Fin.ext heq
  unfold Leads
  rw [hframes]
  constructor
  · intro h
    obtain ⟨_, h⟩ := h
    rw [hslot, Function.update_self] at h
    exact Option.some.inj h
  · intro h
    refine ⟨hlt, ?_⟩
    rw [hslot, Function.update_self, h]

/-! ### Images -/

theorem computeHistory_valid {historyIndex : Nat} {offset : Int} {baseSweepNum : BitVec 32}
    {found : Found c} (h : s.computeHistory historyIndex offset baseSweepNum = .ok found) :
    (s.image found.imageIndex).state = .valid := by
  unfold computeHistory at h
  split at h
  · split at h
    · cases h
    · split at h
      · cases h
      · dsimp only at h
        split at h
        · cases h
        · split at h
          · cases h
          · rename_i hok
            cases h
            exact Decidable.of_not_not (not_or.mp hok).2
  · cases h

theorem lastImage_valid {p : Fin c.totalImages × Fin c.totalImages} (h : s.lastImage = some p) :
    s.lastSweepIndex = some p.1 ∧ s.history s.lastHistoryIndex = some p.2 ∧
      (s.image p.2).state = .valid := by
  unfold lastImage at h
  split at h
  · rename_i hsweep hhistory
    split at h
    · rename_i hvalid
      cases h
      exact ⟨hsweep, hhistory, hvalid⟩
    · cases h
  · cases h

theorem lastImage_eq_some {i : Fin c.totalImages} (hsweep : s.lastSweepIndex = some i)
    (hhistory : s.history s.lastHistoryIndex = some i) (hvalid : (s.image i).state = .valid) :
    s.lastImage = some (i, i) := by
  unfold lastImage
  rw [hsweep, hhistory]
  exact if_pos hvalid

theorem getFreezeFrame_cases (s : Pm c α) (type : BitVec 2) (id : ImageId) (offset : Int)
    (slot : Fin c.freezeFrameImages) :
    (∃ e, s.getFreezeFrame type id offset slot = (s, .error e)) ∨
      (∃ e, s.Stale slot ∧ s.getFreezeFrame type id offset slot = (s.clearSlot slot, .error e)) ∨
      ∃ i found, s.freezeFrames slot = some i ∧ (s.image i).sweepNum = id.sweepNum ∧
        (s.image i).state = .valid ∧ Seen (s.image i).ffRefCount id.clientId ∧
        s.getFreezeFrame type id offset slot = (s, .ok found) ∧
        found.clientId = some id.clientId ∧ (s.image found.imageIndex).state = .valid ∧
        (offset = 0 → found = ⟨i, id, some id.clientId⟩) ∧
        (type = imageIdTypeFreezeFrame → offset = 0) := by
  unfold getFreezeFrame
  cases hslot : s.freezeFrames slot with
  | none => exact .inl ⟨_, rfl⟩
  | some i =>
    dsimp only
    split
    · exact .inl ⟨_, rfl⟩
    · rename_i hnum
      have hsweep : (s.image i).sweepNum = id.sweepNum := Decidable.of_not_not (not_or.mp hnum).1
      have hvalid : (s.image i).state = .valid := Decidable.of_not_not (not_or.mp hnum).2
      split
      · rename_i hzero
        right; left
        refine ⟨_, ?_, rfl⟩
        intro j hj
        rw [hslot] at hj
        cases hj
        exact hzero
      · split
        · exact .inl ⟨_, rfl⟩
        · rename_i hseen
          split
          · exact .inl ⟨_, rfl⟩
          · rename_i htype
            have hoffset : type = imageIdTypeFreezeFrame → offset = 0 := fun ht =>
              Decidable.of_not_not fun hne => htype ⟨ht, hne⟩
            split
            · rename_i hzero
              right; right
              exact ⟨i, _, rfl, hsweep, hvalid, hseen, rfl, rfl, hvalid, fun _ => rfl, hoffset⟩
            · rename_i hne
              cases hhistory : s.computeHistory (s.image i).historyIndex offset id.sweepNum with
              | error e => exact .inl ⟨e, rfl⟩
              | ok found =>
                right; right
                have hfound : (s.image found.imageIndex).state = .valid :=
                  computeHistory_valid hhistory
                exact ⟨i, _, rfl, hsweep, hvalid, hseen, rfl, rfl, hfound,
                  fun h => absurd h hne, hoffset⟩

structure LookedUp (s : Pm c α) (r : Pm c α × Except PaError (Found c)) : Prop where
  cleared : s.Cleared r.1
  same : ∀ found, r.2 = .ok found → r.1 = s
  valid : ∀ found, r.2 = .ok found → (s.image found.imageIndex).state = .valid
  ready : ∀ found, r.2 = .ok found → s.lastImage.isSome

theorem lookedUp_error (s : Pm c α) (e : PaError) : s.LookedUp (s, .error e) where
  cleared := .inl rfl
  same := fun _ h => nomatch h
  valid := fun _ h => nomatch h
  ready := fun _ h => nomatch h

theorem lookedUp_of_valid {x : Except PaError (Found c)} (hready : s.lastImage.isSome)
    (hvalid : ∀ found, x = .ok found → (s.image found.imageIndex).state = .valid) :
    s.LookedUp (s, x) where
  cleared := .inl rfl
  same := fun _ _ => rfl
  valid := hvalid
  ready := fun _ _ => hready

theorem getIndexFromTime_valid {requestTime : Nat} {found : Found c}
    (h : s.getIndexFromTime requestTime = .ok found) :
    (s.image found.imageIndex).state = .valid ∧ s.lastImage.isSome := by
  unfold getIndexFromTime at h
  cases hlast : s.lastImage with
  | none =>
    rw [hlast] at h
    cases h
  | some p =>
    rw [hlast] at h
    dsimp only at h
    split at h
    · cases h
    · rename_i x hsome
      cases h
      obtain ⟨i, _, hi⟩ := List.exists_of_findSome?_eq_some hsome
      split at hi
      · cases hi
      · rename_i y hhistory
        split at hi
        · cases hi
          exact ⟨computeHistory_valid hhistory, rfl⟩
        · cases hi

def LastValid (s : Pm c α) : Prop :=
  ∀ i, s.lastSweepIndex = some i →
    s.history s.lastHistoryIndex = some i ∧ (s.image i).state = .valid

theorem getFreezeFrame_lookedUp (hready : s.lastImage.isSome) (type : BitVec 2) (id : ImageId)
    (offset : Int) (slot : Fin c.freezeFrameImages) :
    s.LookedUp (s.getFreezeFrame type id offset slot) := by
  rcases s.getFreezeFrame_cases type id offset slot with
    ⟨e, h⟩ | ⟨e, hstale, h⟩ | ⟨i, found, _, _, _, _, h, _, hvalid, _, _⟩
  · rw [h]
    exact lookedUp_error s e
  · rw [h]
    exact ⟨.inr ⟨slot, hstale, rfl⟩, (fun _ h => nomatch h), (fun _ h => nomatch h),
      (fun _ h => nomatch h)⟩
  · rw [h]
    apply lookedUp_of_valid hready
    intro y hy
    cases hy
    exact hvalid

theorem getIndexFromImageId_lookedUp (hlast : s.LastValid) (type : BitVec 2) (id : ImageId)
    (offset : Int) : s.LookedUp (s.getIndexFromImageId type id offset) := by
  unfold getIndexFromImageId
  cases himage : s.lastImage with
  | none => exact lookedUp_error s _
  | some p =>
    obtain ⟨lastSweepIndex, lastImageIndex⟩ := p
    have hready : s.lastImage.isSome := himage ▸ rfl
    have hhistory : ∀ k o n, s.LookedUp (s, s.computeHistory k o n) := fun _ _ _ =>
      lookedUp_of_valid hready fun _ => computeHistory_valid
    dsimp only
    split
    · exact lookedUp_error s _
    · split
      · split
        · exact lookedUp_error s _
        · split
          · apply lookedUp_of_valid hready
            intro found hfound
            cases hfound
            exact (hlast lastSweepIndex (lastImage_valid himage).1).2
          · exact hhistory _ _ _
      · split
        · exact hhistory _ _ _
        · split
          · split
            · exact getFreezeFrame_lookedUp hready _ _ _ _
            · exact lookedUp_error s _
          · exact lookedUp_error s _

theorem findImage_lookedUp (hlast : s.LastValid) (type : BitVec 2) (imageId : ImageIdData) :
    s.LookedUp (s.findImage type imageId) := by
  unfold findImage
  split
  · split
    · exact lookedUp_error s _
    · cases htime : s.getIndexFromTime imageId.absoluteTime with
      | error e => exact lookedUp_error s e
      | ok found =>
        have hvalid := getIndexFromTime_valid htime
        apply lookedUp_of_valid hvalid.2
        intro y hy
        cases hy
        exact hvalid.1
  · exact getIndexFromImageId_lookedUp hlast _ _ _

theorem findImage_cases (hlast : s.LastValid) (type : BitVec 2) (imageId : ImageIdData) :
    (∃ s' e, s.Cleared s' ∧ s.findImage type imageId = (s', .error e)) ∨
      ∃ found, s.findImage type imageId = (s, .ok found) ∧
        (s.image found.imageIndex).state = .valid ∧ s.lastImage.isSome := by
  have h := findImage_lookedUp hlast type imageId
  cases hfind : s.findImage type imageId with
  | mk s' x =>
    rw [hfind] at h
    cases x with
    | error e => exact .inl ⟨s', e, h.cleared, rfl⟩
    | ok found =>
      have hsame : s' = s := h.same found rfl
      subst hsame
      exact .inr ⟨found, rfl, h.valid found rfl, h.ready found rfl⟩

/-! ### Ids of freeze frames -/

structure FoundBy (s : Pm c α) (id : ImageId) (i : Fin c.totalImages) : Prop where
  leads : s.Leads id i
  sweepNum : (s.image i).sweepNum = id.sweepNum
  valid : (s.image i).state = .valid
  seen : Seen (s.image i).ffRefCount id.clientId

theorem getIndexFromImageId_eq {type : BitVec 2} {id : ImageId} (hready : s.lastImage.isSome)
    (hid : id.type = imageIdTypeFreezeFrame)
    (htype : type = imageIdTypeAny ∨ type = imageIdTypeFreezeFrame) (offset : Int) :
    s.getIndexFromImageId type id offset =
      if h : id.index.toNat < c.freezeFrameImages then
        s.getFreezeFrame type id offset ⟨id.index.toNat, h⟩
      else (s, .error ⟨.invalidParameter, "Invalid Image Id"⟩) := by
  obtain ⟨p, hp⟩ := Option.isSome_iff_exists.mp hready
  have hlive : id ≠ imageIdLiveData := by
    intro h
    rw [h] at hid
    cases hid
  have hhistory : ¬imageIdTypeFreezeFrame = imageIdTypeHistory := by decide
  have hmatch : ¬(type ≠ imageIdTypeAny ∧ decide (id.type = imageIdTypeFreezeFrame) ≠
      decide (type = imageIdTypeFreezeFrame)) := by
    rw [hid]
    rcases htype with h | h
    · exact fun hno => hno.1 h
    · exact fun hno => hno.2 (by rw [h])
  unfold getIndexFromImageId
  rw [hp]
  dsimp only
  rw [if_neg hmatch, if_neg hlive, hid, if_neg hhistory, if_pos rfl]

theorem getIndexFromImageId_eq_ok {type : BitVec 2} {id : ImageId}
    (hid : id.type = imageIdTypeFreezeFrame)
    (htype : type = imageIdTypeAny ∨ type = imageIdTypeFreezeFrame) (i : Fin c.totalImages) :
    (∃ found, (s.getIndexFromImageId type id 0).2 = .ok found ∧ found.imageIndex = i) ↔
      s.lastImage.isSome ∧ s.FoundBy id i := by
  constructor
  · intro h
    obtain ⟨found, hfound, rfl⟩ := h
    have hready : s.lastImage.isSome := by
      cases himage : s.lastImage with
      | none =>
        unfold getIndexFromImageId at hfound
        rw [himage] at hfound
        cases hfound
      | some p => rfl
    rw [getIndexFromImageId_eq hready hid htype] at hfound
    split at hfound
    · rename_i hlt
      rcases s.getFreezeFrame_cases type id 0 ⟨id.index.toNat, hlt⟩ with
        ⟨e, h⟩ | ⟨e, _, h⟩ | ⟨i, y, hslot, hnum, hvalid, hseen, h, _, _, hzero, _⟩
      · rw [h] at hfound
        cases hfound
      · rw [h] at hfound
        cases hfound
      · rw [h] at hfound
        cases hfound
        rw [hzero rfl]
        exact ⟨hready, ⟨hlt, hslot⟩, hnum, hvalid, hseen⟩
    · cases hfound
  · intro h
    obtain ⟨hready, ⟨hlt, hslot⟩, hnum, hvalid, hseen⟩ := h
    rw [getIndexFromImageId_eq hready hid htype, dif_pos hlt]
    refine ⟨⟨i, id, some id.clientId⟩, ?_, rfl⟩
    unfold getFreezeFrame
    rw [hslot]
    dsimp only
    rw [if_neg (by simp [hnum, hvalid]), if_neg hseen.ne_zero, if_neg hseen, if_neg (by simp),
      if_pos rfl]

theorem findImage_freezeFrame {imageId : ImageIdData} {found : Found c}
    (h : s.findImage imageIdTypeFreezeFrame imageId = (s', .ok found))
    (hready : s.lastImage.isSome) (hid : imageId.imageNumber.type = imageIdTypeFreezeFrame) :
    s.Leads imageId.imageNumber found.imageIndex ∧
      found.clientId = some imageId.imageNumber.clientId := by
  have htime : imageId.imageNumber ≠ imageIdAbsoluteTime := by
    intro heq
    rw [heq] at hid
    cases hid
  unfold findImage at h
  rw [if_neg htime, getIndexFromImageId_eq hready hid (.inr rfl)] at h
  split at h
  · rename_i hlt
    rcases s.getFreezeFrame_cases imageIdTypeFreezeFrame imageId.imageNumber imageId.imageOffset
        ⟨imageId.imageNumber.index.toNat, hlt⟩ with
      ⟨e, hf⟩ | ⟨e, _, hf⟩ | ⟨i, y, hslot, _, _, _, hf, _, _, hzero, hoffset⟩
    · rw [hf] at h
      cases h
    · rw [hf] at h
      cases h
    · rw [hf] at h
      cases h
      rw [hzero (hoffset rfl)]
      exact ⟨⟨hlt, hslot⟩, rfl⟩
  · cases h

end OpaFm.PerfMgr.Pm
