import OpaFm.PerfMgr.Proofs.Lookup

/-!
# What calls change

The calls of clients change the tables of freeze frames and the counts of the images, but not
what the sweeps have left.
-/

namespace OpaFm.PerfMgr.Pm

variable {c : PmConfig} {α : Type} {s s' s'' : Pm c α}

structure SameSweeps (s s' : Pm c α) : Prop where
  state : ∀ j, (s'.image j).state = (s.image j).state
  sweepNum : ∀ j, (s'.image j).sweepNum = (s.image j).sweepNum
  contents : ∀ j, (s'.image j).contents = (s.image j).contents
  historyIndex : ∀ j, (s'.image j).historyIndex = (s.image j).historyIndex
  history : s'.history = s.history
  lastSweepIndex : s'.lastSweepIndex = s.lastSweepIndex
  lastHistoryIndex : s'.lastHistoryIndex = s.lastHistoryIndex
  sweepIndex : s'.sweepIndex = s.sweepIndex
  numSweeps : s'.numSweeps = s.numSweeps
  firstSweepAsMaster : s'.firstSweepAsMaster = s.firstSweepAsMaster

theorem SameSweeps.trans (h : SameSweeps s s') (h' : SameSweeps s' s'') : SameSweeps s s'' where
  state j := (h'.state j).trans (h.state j)
  sweepNum j := (h'.sweepNum j).trans (h.sweepNum j)
  contents j := (h'.contents j).trans (h.contents j)
  historyIndex j := (h'.historyIndex j).trans (h.historyIndex j)
  history := h'.history.trans h.history
  lastSweepIndex := h'.lastSweepIndex.trans h.lastSweepIndex
  lastHistoryIndex := h'.lastHistoryIndex.trans h.lastHistoryIndex
  sweepIndex := h'.sweepIndex.trans h.sweepIndex
  numSweeps := h'.numSweeps.trans h.numSweeps
  firstSweepAsMaster := h'.firstSweepAsMaster.trans h.firstSweepAsMaster

theorem SameSweeps.lastValid (h : SameSweeps s s') (hlast : s.LastValid) : s'.LastValid := by
  intro i hi
  rw [h.history, h.lastHistoryIndex, h.state]
  rw [h.lastSweepIndex] at hi
  exact hlast i hi

theorem lastImage_isSome_iff (hlast : s.LastValid) :
    s.lastImage.isSome ↔ s.lastSweepIndex.isSome := by
  constructor
  · intro h
    obtain ⟨p, hp⟩ := Option.isSome_iff_exists.mp h
    rw [(lastImage_valid hp).1]
    rfl
  · intro h
    obtain ⟨i, hi⟩ := Option.isSome_iff_exists.mp h
    rw [lastImage_eq_some hi (hlast i hi).1 (hlast i hi).2]
    rfl

theorem sameSweeps_setImage (s : Pm c α) (i : Fin c.totalImages) {f : PmImage α → PmImage α}
    (hstate : ∀ x, (f x).state = x.state) (hnum : ∀ x, (f x).sweepNum = x.sweepNum)
    (hcontents : ∀ x, (f x).contents = x.contents)
    (hindex : ∀ x, (f x).historyIndex = x.historyIndex) : SameSweeps s (s.setImage i f) := by
  have hfield : ∀ {β : Type} (g : PmImage α → β), (∀ x, g (f x) = g x) → ∀ j,
      g ((s.setImage i f).image j) = g (s.image j) := by
    intro β g hg j
    by_cases hj : j = i
    · subst hj
      rw [setImage_image_self, hg]
    · rw [setImage_image_of_ne s hj]
  exact ⟨hfield _ hstate, hfield _ hnum, hfield _ hcontents, hfield _ hindex, rfl, rfl, rfl, rfl,
    rfl, rfl⟩

theorem sameSweeps_freezeImage (s : Pm c α) (i : Fin c.totalImages) (k : BitVec 6) :
    SameSweeps s (s.freezeImage i k) :=
  s.sameSweeps_setImage i (fun _ => rfl) (fun _ => rfl) (fun _ => rfl) (fun _ => rfl)

theorem sameSweeps_releaseImage (s : Pm c α) (i : Fin c.totalImages) (k : BitVec 6) :
    SameSweeps s (s.releaseImage i k) :=
  s.sameSweeps_setImage i (fun _ => rfl) (fun _ => rfl) (fun _ => rfl) (fun _ => rfl)

theorem sameSweeps_clearSlot (s : Pm c α) (slot : Fin c.freezeFrameImages) :
    SameSweeps s (s.clearSlot slot) :=
  ⟨fun _ => rfl, fun _ => rfl, fun _ => rfl, fun _ => rfl, rfl, rfl, rfl, rfl, rfl, rfl⟩

theorem sameSweeps_setFreezeFrame (s : Pm c α) (slot : Fin c.freezeFrameImages)
    (i : Fin c.totalImages) (k : BitVec 6) : SameSweeps s (s.setFreezeFrame slot i k).1 :=
  have hframes : SameSweeps (s.freezeImage i k) (s.setFreezeFrame slot i k).1 :=
    ⟨fun _ => rfl, fun _ => rfl, fun _ => rfl, fun _ => rfl, rfl, rfl, rfl, rfl, rfl, rfl⟩
  (s.sameSweeps_freezeImage i k).trans hframes

theorem Cleared.sameSweeps (h : s.Cleared s') : SameSweeps s s' := by
  rcases h with rfl | ⟨slot, _, rfl⟩
  · exact ⟨fun _ => rfl, fun _ => rfl, fun _ => rfl, fun _ => rfl, rfl, rfl, rfl, rfl, rfl, rfl⟩
  · exact s.sameSweeps_clearSlot slot

theorem Cleared.image (h : s.Cleared s') : s'.image = s.image := by
  rcases h with rfl | ⟨slot, _, rfl⟩ <;> rfl

/-! ## Counts -/

theorem freezeImage_count (s : Pm c α) (i j : Fin c.totalImages) (k : BitVec 6) :
    ((s.freezeImage i k).image j).ffRefCount =
      if j = i then (s.image j).ffRefCount ||| clientMask k else (s.image j).ffRefCount := by
  unfold freezeImage
  by_cases hj : j = i
  · subst hj
    rw [if_pos rfl, setImage_image_self]
  · rw [if_neg hj, setImage_image_of_ne s hj]

theorem releaseImage_count (s : Pm c α) (i j : Fin c.totalImages) (k : BitVec 6) :
    ((s.releaseImage i k).image j).ffRefCount =
      if j = i then (s.image j).ffRefCount &&& ~~~clientMask k else (s.image j).ffRefCount := by
  unfold releaseImage
  by_cases hj : j = i
  · subst hj
    rw [if_pos rfl, setImage_image_self]
  · rw [if_neg hj, setImage_image_of_ne s hj]

theorem freezeImage_bit (s : Pm c α) (i j : Fin c.totalImages) (k x : BitVec 6) :
    clientBit ((s.freezeImage i k).image j).ffRefCount x = true ↔
      clientBit (s.image j).ffRefCount x = true ∨ j = i ∧ x = k := by
  rw [freezeImage_count]
  by_cases hj : j = i
  · rw [if_pos hj, clientBit_or_mask, Bool.or_eq_true, decide_eq_true_eq]
    simp [hj]
  · simp [hj]

theorem releaseImage_bit (s : Pm c α) (i j : Fin c.totalImages) (k x : BitVec 6) :
    clientBit ((s.releaseImage i k).image j).ffRefCount x = true ↔
      clientBit (s.image j).ffRefCount x = true ∧ ¬(j = i ∧ x = k) := by
  rw [releaseImage_count]
  by_cases hj : j = i
  · rw [if_pos hj, clientBit_and_not_mask, Bool.and_eq_true, Bool.not_eq_true',
      decide_eq_false_iff_not]
    simp [hj]
  · simp [hj]

theorem freezeImage_seen {i j : Fin c.totalImages} {k x : BitVec 6}
    (h : Seen (s.image j).ffRefCount x) : Seen ((s.freezeImage i k).image j).ffRefCount x := by
  rw [freezeImage_count]
  split
  · exact h.or _
  · exact h

/-! ## Slots and clients -/

theorem allocFreezeFrame_cases (s : Pm c α) (i : Fin c.totalImages) :
    (∃ slot, s.freezeFrames slot = some i ∧ s.allocFreezeFrame i = (s, some slot)) ∨
      (∃ slot, s.Stale slot ∧ s.allocFreezeFrame i = (s.clearSlot slot, some slot)) ∨
      s.allocFreezeFrame i = (s, none) := by
  unfold allocFreezeFrame
  dsimp only
  split
  · rename_i slot hown
    split at hown
    · left
      exact ⟨slot, of_decide_eq_true (Fin.eq_true_of_find?_eq_some hown), rfl⟩
    · cases hown
  · split
    · rename_i slot hfree
      right; left
      refine ⟨slot, ?_, rfl⟩
      have htest := Fin.eq_true_of_find?_eq_some hfree
      intro j hj
      rw [hj] at htest
      exact of_decide_eq_true htest
    · exact .inr (.inr rfl)

def SlotFound (s : Pm c α) (r : Pm c α × Option (Fin c.freezeFrameImages)) : Prop :=
  r.1 = s ∨ ∃ slot, s.Stale slot ∧ r = (s.clearSlot slot, some slot)

theorem SlotFound.cleared {r : Pm c α × Option (Fin c.freezeFrameImages)} (h : s.SlotFound r) :
    s.Cleared r.1 := by
  rcases h with h | ⟨slot, hstale, rfl⟩
  · exact .inl h
  · exact .inr ⟨slot, hstale, rfl⟩

theorem SlotFound.setFreezeFrame {r : Pm c α × Option (Fin c.freezeFrameImages)}
    (h : s.SlotFound r) {slot : Fin c.freezeFrameImages} (hslot : r.2 = some slot)
    (i : Fin c.totalImages) (k : BitVec 6) :
    r.1.setFreezeFrame slot i k = s.setFreezeFrame slot i k := by
  rcases h with h | ⟨slot', _, rfl⟩
  · rw [h]
  · cases hslot
    unfold Pm.setFreezeFrame freezeImage setImage clearSlot
    simp only [Function.update_idem]

theorem allocFreezeFrame_slotFound (s : Pm c α) (i : Fin c.totalImages) :
    s.SlotFound (s.allocFreezeFrame i) := by
  rcases s.allocFreezeFrame_cases i with ⟨slot, _, h⟩ | ⟨slot, hstale, h⟩ | h
  · exact .inl (congrArg Prod.fst h)
  · exact .inr ⟨slot, hstale, h⟩
  · exact .inl (congrArg Prod.fst h)

theorem moveSlot_slotFound (s : Pm c α) (ffIndex : Nat) (k : BitVec 6) (i : Fin c.totalImages) :
    s.SlotFound (s.moveSlot ffIndex k i) := by
  unfold moveSlot
  split
  · exact .inl rfl
  · exact s.allocFreezeFrame_slotFound i

theorem SlotFound.nextClient {r : Pm c α × Option (Fin c.freezeFrameImages)} (h : s.SlotFound r)
    (i : Fin c.totalImages) : r.1.nextClient i = s.nextClient i := by
  unfold Pm.nextClient
  rw [h.cleared.image]

theorem nextClient_free {i : Fin c.totalImages} {k : BitVec 6} (h : s.nextClient i = some k) :
    clientBit (s.image i).ffRefCount k = false := by
  have htest := List.find?_some h
  exact and_clientMask_eq_zero.mp (of_decide_eq_true htest)

end OpaFm.PerfMgr.Pm

/-!
## Outstanding ids

What holds of the ids that clients have, which calls keep it, and what those calls find.
-/

namespace OpaFm.PerfMgr

variable {c : PmConfig} {α : Type}

/-! ### What holds of outstanding ids -/

structure Resolves (s : Pm c α) (f : Frozen c α) : Prop where
  found : ∀ type, type = imageIdTypeAny ∨ type = imageIdTypeFreezeFrame →
    ∃ y, (s.getIndexFromImageId type f.id 0).2 = .ok y ∧ y.imageIndex = f.imageIndex
  sweepNum : (s.image f.imageIndex).sweepNum = f.id.sweepNum
  contents : (s.image f.imageIndex).contents = f.contents

namespace PmRun

structure Holds (r : PmRun c α) : Prop where
  resolves : ∀ f ∈ r.outstanding, Resolves r.pm f
  ids_nodup : (r.outstanding.map Frozen.id).Nodup
  bits : ∀ i k, clientBit (r.pm.image i).ffRefCount k = true ↔
    ∃ f ∈ r.outstanding, f.imageIndex = i ∧ f.id.clientId = k
  one_bit : (r.outstanding.map fun f => (f.imageIndex, f.id.clientId)).Nodup

/-! ### Calls that keep it -/

variable (r : PmRun c α)

def createTarget (imageId : ImageIdData) :
    Option (Fin c.totalImages × Fin c.freezeFrameImages × BitVec 6) :=
  match (r.pm.findImage imageIdTypeAny imageId).2 with
  | .error _ => none
  | .ok found =>
    match (r.pm.allocFreezeFrame found.imageIndex).2, r.pm.nextClient found.imageIndex with
    | some slot, some clientId => some (found.imageIndex, slot, clientId)
    | _, _ => none

def CreateOk (imageId : ImageIdData) : Prop :=
  ∀ i slot k, r.createTarget imageId = some (i, slot, k) →
    Seen ((r.pm.image i).ffRefCount ||| clientMask k) k

def releaseTarget (imageId : ImageIdData) (junk : BitVec 6) :
    Option (Fin c.totalImages × BitVec 6) :=
  match (r.pm.findImage imageIdTypeFreezeFrame imageId).2 with
  | .error _ => none
  | .ok found =>
    if clientBit (r.pm.image found.imageIndex).ffRefCount (found.clientId.getD junk) then
      some (found.imageIndex, found.clientId.getD junk)
    else none

def ReleaseOk (imageId : ImageIdData) (junk : BitVec 6) : Prop :=
  ∀ i k, r.releaseTarget imageId junk = some (i, k) →
    (∀ f ∈ r.outstanding, f.imageIndex = i → f.id.clientId = k → f.id = imageId.imageNumber) ∧
      ∀ f ∈ r.without imageId.imageNumber, f.imageIndex = i →
        Seen ((r.pm.image i).ffRefCount &&& ~~~clientMask k) f.id.clientId

structure MoveTarget (c : PmConfig) where
  ffImageIndex : Fin c.totalImages
  ffClientId : BitVec 6
  imageIndex : Fin c.totalImages
  clientId : BitVec 6
  slot : Option (Fin c.freezeFrameImages)

def moveTarget (ffImageId imageId : ImageIdData) : Option (MoveTarget c) :=
  match (r.pm.findImage imageIdTypeFreezeFrame ffImageId).2 with
  | .error _ => none
  | .ok ff =>
    match (r.pm.findImage imageIdTypeAny imageId).2 with
    | .error _ => none
    | .ok found =>
      (r.pm.nextClient found.imageIndex).map fun clientId =>
        { ffImageIndex := ff.imageIndex
          ffClientId := ff.clientId.getD 0#6
          imageIndex := found.imageIndex
          clientId := clientId
          slot := (r.pm.moveSlot ffImageId.imageNumber.index.toNat (ff.clientId.getD 0#6)
            found.imageIndex).2 }

def movedCount (m : MoveTarget c) (i : Fin c.totalImages) : BitVec 64 :=
  (((r.pm.freezeImage m.imageIndex m.clientId).releaseImage m.ffImageIndex m.ffClientId).image
    i).ffRefCount

/-- There is a slot, and no other id that is left uses it for another image; no other id has the
bit that is cleared, which is not the new one either; and the look-up sees those that are left
and the new one. -/
def MoveOk (ffImageId imageId : ImageIdData) : Prop :=
  ∀ m, r.moveTarget ffImageId imageId = some m →
    (∃ slot, m.slot = some slot ∧ ∀ f ∈ r.without ffImageId.imageNumber,
      f.id.index.toNat = slot.val → f.imageIndex = m.imageIndex) ∧
    (∀ f ∈ r.outstanding, f.imageIndex = m.ffImageIndex → f.id.clientId = m.ffClientId →
      f.id = ffImageId.imageNumber) ∧
    ¬(m.imageIndex = m.ffImageIndex ∧ m.clientId = m.ffClientId) ∧
    (∀ f ∈ r.without ffImageId.imageNumber, f.imageIndex = m.ffImageIndex →
      Seen (r.movedCount m m.ffImageIndex) f.id.clientId) ∧
    Seen (r.movedCount m m.imageIndex) m.clientId

def CallOk : PmCall α → Prop
  | .create imageId => r.CreateOk imageId
  | .renew _ => True
  | .release imageId junk => r.ReleaseOk imageId junk
  | .move ffImageId imageId => r.MoveOk ffImageId imageId
  | .sweepBegin _ _ => True
  | .sweepComplete _ => True

/-! ### Targets -/

variable {r}

theorem create_of_target_none (hlast : r.pm.LastValid) {imageId : ImageIdData}
    (h : r.createTarget imageId = none) :
    ∃ s' e, r.pm.Cleared s' ∧ r.pm.paFreezeFrameCreate imageId = (s', .error e) := by
  unfold createTarget at h
  unfold Pm.paFreezeFrameCreate
  rcases r.pm.findImage_cases hlast imageIdTypeAny imageId with
    ⟨s', e, hcleared, hfind⟩ | ⟨found, hfind, _, _⟩
  · rw [hfind]
    exact ⟨s', e, hcleared, rfl⟩
  · rw [hfind] at h ⊢
    have hslot := r.pm.allocFreezeFrame_slotFound found.imageIndex
    dsimp only at h ⊢
    cases halloc : r.pm.allocFreezeFrame found.imageIndex with
    | mk s' slot =>
      rw [halloc] at h hslot
      have hclient : s'.nextClient found.imageIndex = r.pm.nextClient found.imageIndex :=
        hslot.nextClient found.imageIndex
      cases slot with
      | none => exact ⟨s', _, hslot.cleared, rfl⟩
      | some slot =>
        dsimp only at h ⊢
        cases hnext : r.pm.nextClient found.imageIndex with
        | none =>
          rw [hclient, hnext]
          exact ⟨s', _, hslot.cleared, rfl⟩
        | some k =>
          rw [hnext] at h
          cases h

structure Creates (r : PmRun c α) (imageId : ImageIdData) (i : Fin c.totalImages)
    (slot : Fin c.freezeFrameImages) (k : BitVec 6) : Prop where
  reply : r.pm.paFreezeFrameCreate imageId =
    ((r.pm.setFreezeFrame slot i k).1, .ok (r.pm.setFreezeFrame slot i k).2)
  froze : ∀ id, froze r.pm imageId id = [⟨id, i, (r.pm.image i).contents⟩]
  valid : (r.pm.image i).state = .valid
  ready : r.pm.lastImage.isSome
  slot_for : r.pm.freezeFrames slot = some i ∨ r.pm.Stale slot
  client_free : clientBit (r.pm.image i).ffRefCount k = false

theorem creates_of_target (hlast : r.pm.LastValid) {imageId : ImageIdData} {i : Fin c.totalImages}
    {slot : Fin c.freezeFrameImages} {k : BitVec 6}
    (h : r.createTarget imageId = some (i, slot, k)) : r.Creates imageId i slot k := by
  unfold createTarget at h
  rcases r.pm.findImage_cases hlast imageIdTypeAny imageId with
    ⟨s', e, _, hfind⟩ | ⟨found, hfind, hvalid, hready⟩
  · rw [hfind] at h
    cases h
  · rw [hfind] at h
    dsimp only at h
    split at h
    · rename_i slot' k' hslot hclient
      cases h
      have hfound := r.pm.allocFreezeFrame_slotFound found.imageIndex
      have hreply := hfound.setFreezeFrame hslot found.imageIndex k
      refine ⟨?_, ?_, hvalid, hready, ?_, Pm.nextClient_free hclient⟩
      · unfold Pm.paFreezeFrameCreate
        rw [hfind]
        dsimp only
        cases halloc : r.pm.allocFreezeFrame found.imageIndex with
        | mk s' slot' =>
          rw [halloc] at hslot hreply hfound
          cases hslot
          dsimp only
          rw [show s'.nextClient found.imageIndex = some k from
            (hfound.nextClient found.imageIndex).trans hclient]
          dsimp only
          rw [← hreply]
      · intro id
        unfold PmRun.froze
        rw [hfind]
      · rcases r.pm.allocFreezeFrame_cases found.imageIndex with
          ⟨x, hx, halloc⟩ | ⟨x, hx, halloc⟩ | halloc
        · rw [halloc] at hslot
          cases hslot
          exact .inl hx
        · rw [halloc] at hslot
          cases hslot
          exact .inr hx
        · rw [halloc] at hslot
          cases hslot
    · cases h

theorem release_of_target_none (hlast : r.pm.LastValid) {imageId : ImageIdData} {junk : BitVec 6}
    (h : r.releaseTarget imageId junk = none) :
    ∃ s' e, r.pm.Cleared s' ∧ r.pm.paFreezeFrameRelease imageId junk = (s', .error e) := by
  unfold releaseTarget at h
  unfold Pm.paFreezeFrameRelease
  rcases r.pm.findImage_cases hlast imageIdTypeFreezeFrame imageId with
    ⟨s', e, hcleared, hfind⟩ | ⟨found, hfind, _, _⟩
  · rw [hfind]
    exact ⟨s', e, hcleared, rfl⟩
  · rw [hfind] at h ⊢
    dsimp only at h ⊢
    split at h
    · cases h
    · rename_i hbit
      rw [if_pos (and_clientMask_eq_zero.mpr (Bool.eq_false_iff.mpr hbit))]
      exact ⟨r.pm, _, .inl rfl, rfl⟩

structure Releases (r : PmRun c α) (imageId : ImageIdData) (junk : BitVec 6)
    (i : Fin c.totalImages) (k : BitVec 6) : Prop where
  reply : r.pm.paFreezeFrameRelease imageId junk = (r.pm.releaseImage i k, .ok ())
  found : imageId.imageNumber.type = imageIdTypeFreezeFrame →
    r.pm.Leads imageId.imageNumber i ∧ k = imageId.imageNumber.clientId

theorem releases_of_target (hlast : r.pm.LastValid) {imageId : ImageIdData} {junk : BitVec 6}
    {i : Fin c.totalImages} {k : BitVec 6} (h : r.releaseTarget imageId junk = some (i, k)) :
    r.Releases imageId junk i k := by
  unfold releaseTarget at h
  rcases r.pm.findImage_cases hlast imageIdTypeFreezeFrame imageId with
    ⟨s', e, _, hfind⟩ | ⟨found, hfind, _, hready⟩
  · rw [hfind] at h
    cases h
  · rw [hfind] at h
    dsimp only at h
    split at h
    · rename_i hbit
      cases h
      constructor
      · unfold Pm.paFreezeFrameRelease
        rw [hfind]
        dsimp only
        rw [if_neg]
        intro hzero
        rw [and_clientMask_eq_zero.mp hzero] at hbit
        cases hbit
      · intro htype
        obtain ⟨hleads, hclient⟩ := Pm.findImage_freezeFrame hfind hready htype
        rw [hclient]
        exact ⟨hleads, rfl⟩
    · cases h

theorem move_of_target_none (hlast : r.pm.LastValid) {ffImageId imageId : ImageIdData}
    (h : r.moveTarget ffImageId imageId = none) :
    ∃ s' e, r.pm.Cleared s' ∧ r.pm.paFreezeFrameMove ffImageId imageId = .ok (s', .error e) := by
  unfold moveTarget at h
  unfold Pm.paFreezeFrameMove
  rcases r.pm.findImage_cases hlast imageIdTypeFreezeFrame ffImageId with
    ⟨s', e, hcleared, hff⟩ | ⟨ff, hff, _, _⟩
  · rw [hff]
    exact ⟨s', e, hcleared, rfl⟩
  · rw [hff] at h ⊢
    dsimp only at h ⊢
    rcases r.pm.findImage_cases hlast imageIdTypeAny imageId with
      ⟨s', e, hcleared, hfind⟩ | ⟨found, hfind, _, _⟩
    · rw [hfind]
      exact ⟨s', e, hcleared, rfl⟩
    · rw [hfind] at h ⊢
      dsimp only at h ⊢
      have hslot := r.pm.moveSlot_slotFound ffImageId.imageNumber.index.toNat
        (ff.clientId.getD 0#6) found.imageIndex
      rw [hslot.nextClient, Option.map_eq_none_iff.mp h]
      exact ⟨_, _, hslot.cleared, rfl⟩

structure Moves (r : PmRun c α) (ffImageId imageId : ImageIdData) (m : MoveTarget c) : Prop where
  fault : m.slot = none → r.pm.paFreezeFrameMove ffImageId imageId = .error .outOfBounds
  reply : ∀ slot, m.slot = some slot → r.pm.paFreezeFrameMove ffImageId imageId =
    .ok ((r.pm.setFreezeFrame slot m.imageIndex m.clientId).1.releaseImage m.ffImageIndex
      m.ffClientId, .ok (r.pm.setFreezeFrame slot m.imageIndex m.clientId).2)
  froze : ∀ id, froze r.pm imageId id = [⟨id, m.imageIndex, (r.pm.image m.imageIndex).contents⟩]
  valid : (r.pm.image m.imageIndex).state = .valid
  ready : r.pm.lastImage.isSome
  client_free : clientBit (r.pm.image m.imageIndex).ffRefCount m.clientId = false
  found : ffImageId.imageNumber.type = imageIdTypeFreezeFrame →
    r.pm.Leads ffImageId.imageNumber m.ffImageIndex ∧
      m.ffClientId = ffImageId.imageNumber.clientId

theorem moves_of_target (hlast : r.pm.LastValid) {ffImageId imageId : ImageIdData}
    {m : MoveTarget c} (h : r.moveTarget ffImageId imageId = some m) :
    r.Moves ffImageId imageId m := by
  unfold moveTarget at h
  rcases r.pm.findImage_cases hlast imageIdTypeFreezeFrame ffImageId with
    ⟨s', e, _, hff⟩ | ⟨ff, hff, _, _⟩
  · rw [hff] at h
    cases h
  rw [hff] at h
  rcases r.pm.findImage_cases hlast imageIdTypeAny imageId with
    ⟨s', e, _, hfind⟩ | ⟨found, hfind, hvalid, hready⟩
  · rw [hfind] at h
    cases h
  rw [hfind] at h
  dsimp only at h
  obtain ⟨k, hclient, rfl⟩ := Option.map_eq_some_iff.mp h
  have hslot := r.pm.moveSlot_slotFound ffImageId.imageNumber.index.toNat
    (ff.clientId.getD 0#6) found.imageIndex
  refine ⟨?_, ?_, ?_, hvalid, hready, Pm.nextClient_free hclient, ?_⟩
  · intro hnone
    unfold Pm.paFreezeFrameMove
    rw [hff]
    dsimp only
    rw [hfind]
    dsimp only at hnone ⊢
    rw [hslot.nextClient, hclient, hnone]
  · intro slot hsome
    dsimp only at hsome
    unfold Pm.paFreezeFrameMove
    rw [hff]
    dsimp only
    rw [hfind]
    dsimp only
    rw [hslot.nextClient, hclient, hsome]
    dsimp only
    rw [hslot.setFreezeFrame hsome]
  · intro id
    unfold PmRun.froze
    rw [hfind]
  · intro htype
    obtain ⟨hleads, hff⟩ := Pm.findImage_freezeFrame hff hready htype
    dsimp only
    rw [hff]
    exact ⟨hleads, rfl⟩

end PmRun

end OpaFm.PerfMgr
