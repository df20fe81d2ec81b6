import OpaFm.PerfMgr.Proofs.FreezeFrames
import Mathlib.Data.Finset.Card

/-!
# Runs of clients and sweeps

The sweeps leave frozen images alone and always find another image to go on with, since every
frozen image has a slot.
-/

namespace OpaFm.PerfMgr

open OpaFm.Lib

variable {c : PmConfig} {α : Type}

namespace PmRun

variable {r : PmRun c α} {s' : Pm c α}

/-! ## Sweeps -/

theorem Inv.frozen (h : r.Inv) {i : Fin c.totalImages} (hcount : (r.pm.image i).ffRefCount ≠ 0#64) :
    ∃ f ∈ r.outstanding, f.imageIndex = i := by
  by_contra hnone
  apply hcount
  apply eq_zero_iff_clientBit.mpr
  intro k
  rw [Bool.eq_false_iff]
  intro hset
  obtain ⟨f, hf, hi, _⟩ := (h.holds.bits i k).mp hset
  exact hnone ⟨f, hf, hi⟩

theorem Inv.ne_current (h : r.Inv) {f : Frozen c α} (hf : f ∈ r.outstanding) :
    f.imageIndex ≠ r.pm.sweepIndex := by
  intro heq
  apply h.current
  rw [← heq]
  exact (h.found hf).valid

theorem Inv.exists_free (h : r.Inv) :
    ∃ i, i ≠ r.pm.sweepIndex ∧ (r.pm.image i).ffRefCount = 0#64 := by
  by_contra hnone
  have hslot : ∀ i, i ≠ r.pm.sweepIndex → ∃ slot, r.pm.freezeFrames slot = some i := by
    intro i hi
    obtain ⟨f, hf, rfl⟩ := h.frozen fun hzero => hnone ⟨i, hi, hzero⟩
    obtain ⟨_, hlead⟩ := (h.found hf).leads
    exact ⟨_, hlead⟩
  have hsub : (Finset.univ.erase r.pm.sweepIndex).image some ⊆
      Finset.univ.image r.pm.freezeFrames := by
    intro x hx
    obtain ⟨i, hi, rfl⟩ := Finset.mem_image.mp hx
    obtain ⟨slot, hs⟩ := hslot i (Finset.mem_erase.mp hi).1
    exact Finset.mem_image.mpr ⟨slot, Finset.mem_univ _, hs⟩
  have hcard := Finset.card_le_card hsub
  rw [Finset.card_image_of_injective _ (Option.some_injective _),
    Finset.card_erase_of_mem (Finset.mem_univ _), Finset.card_univ, Fintype.card_fin] at hcard
  have himage : (Finset.univ.image r.pm.freezeFrames).card ≤ c.freezeFrameImages := by
    calc (Finset.univ.image r.pm.freezeFrames).card
        ≤ (Finset.univ : Finset (Fin c.freezeFrameImages)).card := Finset.card_image_le
      _ = c.freezeFrameImages := by rw [Finset.card_univ, Fintype.card_fin]
  have hmore := c.totalImages_ge
  omega

theorem Inv.swept (h : r.Inv) (hlast : s'.LastValid)
    (hcurrent : (s'.image s'.sweepIndex).state ≠ .valid)
    (hready : r.pm.lastSweepIndex.isSome → s'.lastSweepIndex.isSome)
    (hframes : s'.freezeFrames = r.pm.freezeFrames)
    (hcount : ∀ i, (s'.image i).ffRefCount = (r.pm.image i).ffRefCount)
    (hkept : ∀ f ∈ r.outstanding, s'.image f.imageIndex = r.pm.image f.imageIndex) :
    Inv ⟨s', r.outstanding⟩ := by
  refine ⟨hlast, hcurrent, h.types, ?_⟩
  apply mk_holds hlast h.types
  · intro f hf
    have hresolves := (resolves_iff h.last (h.types f hf)).mp (h.holds.resolves f hf)
    have hfound := hresolves.2.1
    rw [resolves_iff hlast (h.types f hf), hkept f hf]
    refine ⟨hready hresolves.1, ?_, hresolves.2.2⟩
    constructor
    · obtain ⟨hlt, hlead⟩ := hfound.leads
      exact ⟨hlt, hframes ▸ hlead⟩
    · rw [hkept f hf]
      exact hfound.sweepNum
    · rw [hkept f hf]
      exact hfound.valid
    · rw [hkept f hf]
      exact hfound.seen
  · intro i k
    rw [hcount]
    exact h.holds.bits i k
  · exact h.holds.one_bit

theorem Inv.sweepBegin (h : r.Inv) (sweepStart : Nat) (contents : α) :
    Inv ⟨r.pm.sweepBegin sweepStart contents, r.outstanding⟩ := by
  apply h.swept
  · intro i hi
    have hvalid := h.last i hi
    refine ⟨hvalid.1, ?_⟩
    have hne : i ≠ r.pm.sweepIndex := fun heq => h.current (heq ▸ hvalid.2)
    unfold Pm.sweepBegin
    rw [Pm.setImage_image_of_ne _ hne]
    exact hvalid.2
  · show ((r.pm.sweepBegin sweepStart contents).image r.pm.sweepIndex).state ≠ .valid
    unfold Pm.sweepBegin
    rw [Pm.setImage_image_self]
    exact fun heq => nomatch heq
  · exact id
  · rfl
  · intro i
    unfold Pm.sweepBegin
    by_cases hi : i = r.pm.sweepIndex
    · subst hi
      rw [Pm.setImage_image_self]
    · rw [Pm.setImage_image_of_ne _ hi]
  · intro f hf
    unfold Pm.sweepBegin
    rw [Pm.setImage_image_of_ne _ (h.ne_current hf)]

end PmRun

/-! ## The next image -/

theorem wrap_ne {i : Fin c.totalImages} {k : Nat} (hk : k + 1 < c.totalImages) :
    c.wrap (i + 1 + k) ≠ i := by
  intro heq
  have hval : (i.val + 1 + k) % c.totalImages = i.val := congrArg Fin.val heq
  have hi := i.isLt
  by_cases hlt : i.val + 1 + k < c.totalImages
  · rw [Nat.mod_eq_of_lt hlt] at hval
    omega
  · rw [Nat.mod_eq_sub_mod (by omega), Nat.mod_eq_of_lt (by omega)] at hval
    omega

theorem exists_wrap {i j : Fin c.totalImages} (hne : j ≠ i) :
    ∃ k, k + 1 < c.totalImages ∧ c.wrap (i + 1 + k) = j := by
  have hval : j.val ≠ i.val := fun heq => hne (Fin.ext heq)
  have hi := i.isLt
  have hj := j.isLt
  by_cases hafter : i.val < j.val
  · refine ⟨j.val - i.val - 1, by omega, Fin.ext ?_⟩
    show (i.val + 1 + (j.val - i.val - 1)) % c.totalImages = j.val
    rw [show i.val + 1 + (j.val - i.val - 1) = j.val by omega, Nat.mod_eq_of_lt hj]
  · refine ⟨j.val + c.totalImages - i.val - 1, by omega, Fin.ext ?_⟩
    show (i.val + 1 + (j.val + c.totalImages - i.val - 1)) % c.totalImages = j.val
    rw [show i.val + 1 + (j.val + c.totalImages - i.val - 1) = j.val + c.totalImages by omega,
      Nat.add_mod_right, Nat.mod_eq_of_lt hj]

namespace Pm

variable {s : Pm c α}

theorem nextFree_eq_some (hfree : ∃ i, i ≠ s.sweepIndex ∧ (s.image i).ffRefCount = 0#64) :
    ∃ n, s.nextFree = some n ∧ n ≠ s.sweepIndex ∧ (s.image n).ffRefCount = 0#64 := by
  have hpos := c.totalImages_pos
  have hrange : List.range c.totalImages =
      List.range (c.totalImages - 1) ++ [c.totalImages - 1] := by
    rw [← List.range_succ]
    congr 1
    omega
  have hfound : (((List.range (c.totalImages - 1)).map fun k => c.wrap (s.sweepIndex + 1 + k)).find?
      fun i => decide ((s.image i).ffRefCount = 0#64)).isSome := by
    obtain ⟨i, hi, hzero⟩ := hfree
    obtain ⟨k, hk, rfl⟩ := exists_wrap hi
    rw [List.find?_isSome]
    exact ⟨_, List.mem_map.mpr ⟨k, List.mem_range.mpr (by omega), rfl⟩, decide_eq_true hzero⟩
  obtain ⟨n, hn⟩ := Option.isSome_iff_exists.mp hfound
  refine ⟨n, ?_, ?_, ?_⟩
  · unfold nextFree
    rw [hrange, List.map_append, List.find?_append, hn]
    rfl
  · obtain ⟨k, hk, rfl⟩ := List.mem_map.mp (List.mem_of_find?_eq_some hn)
    have hlt := List.mem_range.mp hk
    exact wrap_ne (by omega)
  · have htest := List.find?_some hn
    exact of_decide_eq_true htest

structure Entered (s s' : Pm c α) : Prop where
  image : ∀ i, (s'.image i).state = (s.image i).state ∧
    (s'.image i).ffRefCount = (s.image i).ffRefCount
  image_of_ne : ∀ i, i ≠ s.sweepIndex → s'.image i = s.image i
  freezeFrames : s'.freezeFrames = s.freezeFrames
  sweepIndex : s'.sweepIndex = s.sweepIndex

theorem entered_enterHistory (s : Pm c α) : Entered s s.enterHistory := by
  unfold enterHistory
  split
  · refine ⟨?_, ?_, rfl, rfl⟩
    · intro i
      by_cases hi : i = s.sweepIndex
      · subst hi
        rw [appendHistory_image_self]
        exact ⟨rfl, rfl⟩
      · rw [appendHistory_image_of_ne s hi]
        exact ⟨rfl, rfl⟩
    · intro i hi
      exact appendHistory_image_of_ne s hi
  · exact ⟨fun _ => ⟨rfl, rfl⟩, fun _ _ => rfl, rfl, rfl⟩

theorem enterHistory_last (hlast : s.LastValid) (hcurrent : (s.image s.sweepIndex).state = .valid) :
    s.enterHistory.LastValid ∧
      (∀ i, s.enterHistory.lastSweepIndex = some i → i = s.sweepIndex) ∧
      (s.lastSweepIndex.isSome → s.enterHistory.lastSweepIndex.isSome) := by
  by_cases henter : (!s.firstSweepAsMaster || s.lastSweepValid) = true
  · have happend : s.enterHistory = s.appendHistory := if_pos henter
    refine ⟨?_, ?_, ?_⟩
    · intro i hi
      rw [(s.entered_enterHistory.image i).1]
      rw [happend] at hi ⊢
      cases hi
      exact ⟨Function.update_self _ _ _, hcurrent⟩
    · intro i hi
      rw [happend] at hi
      exact (Option.some.inj hi).symm
    · intro _
      rw [happend]
      rfl
  · have hsame : s.enterHistory = s := if_neg henter
    have hnone : s.lastSweepIndex = none := by
      cases hsweep : s.lastSweepIndex with
      | none => rfl
      | some i =>
        have hvalid : s.lastSweepValid = true := by
          unfold lastSweepValid
          rw [hsweep]
          exact decide_eq_true (hlast i hsweep).2
        rw [hvalid, Bool.or_true] at henter
        exact absurd rfl henter
    rw [hsame]
    refine ⟨hlast, ?_, id⟩
    intro i hi
    rw [hnone] at hi
    cases hi

end Pm

namespace PmRun

variable {r : PmRun c α}

def finishSweep (s : Pm c α) (sweepDuration : Nat) : Pm c α :=
  s.setImage s.sweepIndex fun image =>
    { image with sweepDuration := sweepDuration, state := .valid }

theorem finishSweep_image_of_ne {s : Pm c α} {sweepDuration : Nat} {i : Fin c.totalImages}
    (hi : i ≠ s.sweepIndex) : (finishSweep s sweepDuration).image i = s.image i :=
  Pm.setImage_image_of_ne _ hi _

theorem finishSweep_ffRefCount (s : Pm c α) (sweepDuration : Nat) (i : Fin c.totalImages) :
    ((finishSweep s sweepDuration).image i).ffRefCount = (s.image i).ffRefCount := by
  by_cases hi : i = s.sweepIndex
  · subst hi
    unfold finishSweep
    rw [Pm.setImage_image_self]
  · rw [finishSweep_image_of_ne hi]

theorem finishSweep_valid (s : Pm c α) (sweepDuration : Nat) :
    ((finishSweep s sweepDuration).image s.sweepIndex).state = .valid := by
  unfold finishSweep
  rw [Pm.setImage_image_self]

theorem Inv.completes (h : r.Inv) (sweepDuration : Nat) :
    ∃ next, r.pm.sweepComplete sweepDuration =
        some ((finishSweep r.pm sweepDuration).enterHistory.useImage next) ∧
      next ≠ r.pm.sweepIndex ∧ (r.pm.image next).ffRefCount = 0#64 := by
  have hentered := (finishSweep r.pm sweepDuration).entered_enterHistory
  have hcount : ∀ i, ((finishSweep r.pm sweepDuration).enterHistory.image i).ffRefCount =
      (r.pm.image i).ffRefCount := by
    intro i
    rw [(hentered.image i).2, finishSweep_ffRefCount]
  -- another image is free, so that the loop does not come back to this one
  have hfree : ∃ i, i ≠ (finishSweep r.pm sweepDuration).enterHistory.sweepIndex ∧
      ((finishSweep r.pm sweepDuration).enterHistory.image i).ffRefCount = 0#64 := by
    obtain ⟨i, hi, hzero⟩ := h.exists_free
    refine ⟨i, ?_, ?_⟩
    · rw [hentered.sweepIndex]
      exact hi
    · rw [hcount]
      exact hzero
  obtain ⟨next, hnext, hother, hzero⟩ := Pm.nextFree_eq_some hfree
  rw [hentered.sweepIndex] at hother
  rw [hcount] at hzero
  refine ⟨next, ?_, hother, hzero⟩
  unfold Pm.sweepComplete
  change (finishSweep r.pm sweepDuration).enterHistory.nextFree.map _ = _
  rw [hnext]
  rfl

theorem Inv.sweepComplete (h : r.Inv) (sweepDuration : Nat) :
    Inv ⟨(r.pm.sweepComplete sweepDuration).getD r.pm, r.outstanding⟩ := by
  obtain ⟨next, hcomplete, hother, hzero⟩ := h.completes sweepDuration
  have hlast₁ : (finishSweep r.pm sweepDuration).LastValid := by
    intro i hi
    have hvalid := h.last i hi
    have hi' : i ≠ r.pm.sweepIndex := fun heq => h.current (heq ▸ hvalid.2)
    rw [finishSweep_image_of_ne hi']
    exact hvalid
  have hentered := (finishSweep r.pm sweepDuration).entered_enterHistory
  obtain ⟨hlast₂, heq₂, hready₂⟩ :=
    Pm.enterHistory_last hlast₁ (finishSweep_valid r.pm sweepDuration)
  rw [hcomplete, Option.getD_some]
  apply h.swept
  · intro i hi
    have hlast := hlast₂ i hi
    have hi' : i ≠ next := by
      intro heq
      apply hother
      rw [← heq, heq₂ i hi]
      rfl
    refine ⟨hlast.1, ?_⟩
    rw [Pm.useImage_image_of_ne _ hi']
    exact hlast.2
  · show (((finishSweep r.pm sweepDuration).enterHistory.useImage next).image next).state ≠ .valid
    rw [Pm.useImage_image_self]
    exact fun heq => nomatch heq
  · exact hready₂
  · exact hentered.freezeFrames
  · intro i
    rw [← finishSweep_ffRefCount r.pm sweepDuration, ← (hentered.image i).2]
    by_cases hi : i = next
    · rw [hi, Pm.useImage_image_self]
    · rw [Pm.useImage_image_of_ne _ hi]
  · intro f hf
    have hne := h.ne_current hf
    have hnext' : f.imageIndex ≠ next := by
      intro heq
      apply (h.found hf).seen.ne_zero
      rw [heq]
      exact hzero
    rw [Pm.useImage_image_of_ne _ hnext', hentered.image_of_ne _ hne, finishSweep_image_of_ne hne]

/-! ## Runs -/

/-- There has been no fault, and the outstanding ids are as they should be. -/
def HoldsIn (x : Except PmFault (PmRun c α)) : Prop := ∃ r, x = .ok r ∧ r.Holds

def InvIn (x : Except PmFault (PmRun c α)) : Prop := ∃ r, x = .ok r ∧ r.Inv

def CallOkIn (x : Except PmFault (PmRun c α)) (call : PmCall α) : Prop :=
  ∀ r, x = .ok r → r.CallOk call

structure StepSpec (r : PmRun c α) (call : PmCall α) : Prop where
  keep : r.CallOk call → ∃ r', next (.ok r) call = .ok r' ∧ r'.Inv
  only : ∀ r', next (.ok r) call = .ok r' → r'.Holds → r.CallOk call

theorem stepSpec_of_inv {call : PmCall α} {r' : PmRun c α} (hok : r.CallOk call)
    (hnext : next (.ok r) call = .ok r') (h : r'.Inv) : r.StepSpec call :=
  ⟨fun _ => ⟨r', hnext, h⟩, fun _ _ _ => hok⟩

theorem stepSpec_of_iff {call : PmCall α} {r' : PmRun c α}
    (hnext : next (.ok r) call = .ok r') (hinv : r'.Holds → r'.Inv)
    (hiff : r'.Holds ↔ r.CallOk call) : r.StepSpec call := by
  refine ⟨fun hok => ⟨r', hnext, hinv (hiff.mpr hok)⟩, ?_⟩
  intro r'' hnext' hholds
  rw [hnext] at hnext'
  cases hnext'
  exact hiff.mp hholds

theorem Inv.create (h : r.Inv) (imageId : ImageIdData) : r.StepSpec (.create imageId) := by
  cases htarget : r.createTarget imageId with
  | none =>
    obtain ⟨s', e, hcleared, hcall⟩ := create_of_target_none h.last htarget
    have hok : r.CreateOk imageId := by
      intro i slot k hsome
      rw [htarget] at hsome
      cases hsome
    have hnext : next (.ok r) (.create imageId) = .ok ⟨s', r.outstanding⟩ := by
      simp only [next, step, hcall]
      rfl
    exact stepSpec_of_inv hok hnext (h.cleared hcleared)
  | some target =>
    obtain ⟨i, slot, k⟩ := target
    have hcreates := creates_of_target h.last htarget
    have hsame := r.pm.sameSweeps_setFreezeFrame slot i k
    apply stepSpec_of_iff
    · simp only [next, step, hcreates.reply, hcreates.froze]
      rfl
    · intro hholds
      apply h.of_same hsame _ hholds
      intro f hf
      rcases List.mem_cons.mp hf with rfl | hf
      · rfl
      · exact h.types f hf
    · refine (create_holds_iff h hcreates).trans ⟨?_, ?_⟩
      · intro hseen j slot' k' hsome
        rw [htarget] at hsome
        cases hsome
        exact hseen
      · intro hok
        exact hok i slot k htarget

theorem Inv.release (h : r.Inv) (imageId : ImageIdData) (junk : BitVec 6) :
    r.StepSpec (.release imageId junk) := by
  cases htarget : r.releaseTarget imageId junk with
  | none =>
    obtain ⟨s', e, hcleared, hcall⟩ := release_of_target_none h.last htarget
    have hok : r.ReleaseOk imageId junk := by
      intro i k hsome
      rw [htarget] at hsome
      cases hsome
    have hnext : next (.ok r) (.release imageId junk) = .ok ⟨s', r.outstanding⟩ := by
      simp only [next, step, hcall]
      rfl
    exact stepSpec_of_inv hok hnext (h.cleared hcleared)
  | some target =>
    obtain ⟨i, k⟩ := target
    have hreleases := releases_of_target h.last htarget
    apply stepSpec_of_iff
    · simp only [next, step, hreleases.reply]
      rfl
    · intro hholds
      apply h.of_same (r.pm.sameSweeps_releaseImage i k) _ hholds
      intro f hf
      exact h.types f (mem_without.mp hf).1
    · refine (release_holds_iff h hreleases).trans ⟨?_, ?_⟩
      · intro hboth j k' hsome
        rw [htarget] at hsome
        cases hsome
        exact hboth
      · intro hok
        exact hok i k htarget

theorem Inv.move (h : r.Inv) (ffImageId imageId : ImageIdData) :
    r.StepSpec (.move ffImageId imageId) := by
  cases htarget : r.moveTarget ffImageId imageId with
  | none =>
    obtain ⟨s', e, hcleared, hcall⟩ := move_of_target_none h.last htarget
    have hok : r.MoveOk ffImageId imageId := by
      intro m hsome
      rw [htarget] at hsome
      cases hsome
    have hnext : next (.ok r) (.move ffImageId imageId) = .ok ⟨s', r.outstanding⟩ := by
      simp only [next, step, hcall]
      rfl
    exact stepSpec_of_inv hok hnext (h.cleared hcleared)
  | some m =>
    have hmoves := moves_of_target h.last htarget
    cases hslot : m.slot with
    | none =>
      have hfault : next (.ok r) (.move ffImageId imageId) = .error .outOfBounds := by
        simp only [next, step, hmoves.fault hslot]
        rfl
      constructor
      · intro hok
        obtain ⟨⟨slot, hsome, _⟩, _⟩ := hok m htarget
        rw [hslot] at hsome
        cases hsome
      · intro r' hnext _
        rw [hfault] at hnext
        cases hnext
    | some slot =>
      have hsame := (r.pm.sameSweeps_setFreezeFrame slot m.imageIndex m.clientId).trans
        (Pm.sameSweeps_releaseImage _ m.ffImageIndex m.ffClientId)
      apply stepSpec_of_iff
      · simp only [next, step, hmoves.reply slot hslot, hmoves.froze]
        rfl
      · intro hholds
        apply h.of_same hsame _ hholds
        intro f hf
        rcases List.mem_cons.mp hf with rfl | hf
        · rfl
        · exact h.types f (mem_without.mp hf).1
      · refine (move_holds_iff h hmoves).trans ⟨?_, ?_⟩
        · intro hall m' hsome
          rw [htarget] at hsome
          cases hsome
          exact ⟨⟨slot, hslot, hall.1⟩, hall.2⟩
        · intro hok
          obtain ⟨⟨slot', hsome, hleft⟩, hrest⟩ := hok m htarget
          rw [hslot] at hsome
          cases hsome
          exact ⟨hleft, hrest⟩

theorem Inv.renew (h : r.Inv) (imageId : ImageIdData) : r.StepSpec (.renew imageId) := by
  have hcleared := (Pm.findImage_lookedUp h.last imageIdTypeFreezeFrame imageId).cleared
  exact stepSpec_of_inv trivial rfl (h.cleared hcleared)

theorem Inv.stepSpec (h : r.Inv) (call : PmCall α) : r.StepSpec call := by
  cases call with
  | create imageId => exact h.create imageId
  | renew imageId => exact h.renew imageId
  | release imageId junk => exact h.release imageId junk
  | move ffImageId imageId => exact h.move ffImageId imageId
  | sweepBegin sweepStart contents =>
    exact stepSpec_of_inv trivial rfl (h.sweepBegin sweepStart contents)
  | sweepComplete sweepDuration =>
    exact stepSpec_of_inv trivial rfl (h.sweepComplete sweepDuration)

theorem inv_start (c : PmConfig) (interval : Nat) (contents : α) :
    (start c interval contents).Inv := by
  refine ⟨(fun _ h => nomatch h), (fun h => nomatch h), (fun _ h => nomatch h), ?_⟩
  refine ⟨(fun _ h => nomatch h), List.nodup_nil, ?_, List.nodup_nil⟩
  intro i k
  constructor
  · intro h
    rw [show clientBit ((start c interval contents).pm.image i).ffRefCount k = false from
      BitVec.getLsbD_zero] at h
    cases h
  · intro h
    obtain ⟨_, hf, _⟩ := h
    cases hf

/-- In a run of clients and sweeps the outstanding ids are as they should be in every state
exactly if every call is in order when it is made. -/
theorem freezeFrames_hold_iff (c : PmConfig) (interval : Nat) (contents : α)
    (calls : List (PmCall α)) :
    AllStates next HoldsIn (.ok (start c interval contents)) calls ↔
      AllSteps next CallOkIn (.ok (start c interval contents)) calls := by
  have hprop : ∀ x : Except PmFault (PmRun c α), InvIn x → HoldsIn x := by
    intro x hx
    obtain ⟨r, rfl, h⟩ := hx
    exact ⟨r, rfl, h.holds⟩
  have hkeep : ∀ (x : Except PmFault (PmRun c α)) call, InvIn x → CallOkIn x call →
      InvIn (next x call) := by
    intro x call hx hok
    obtain ⟨r, rfl, h⟩ := hx
    exact (h.stepSpec call).keep (hok r rfl)
  have hlose : ∀ (x : Except PmFault (PmRun c α)) call, InvIn x → ¬CallOkIn x call →
      ¬HoldsIn (next x call) := by
    intro x call hx hno hholds
    obtain ⟨r, rfl, h⟩ := hx
    obtain ⟨r', hnext, hholds⟩ := hholds
    apply hno
    intro r₁ hr₁
    cases hr₁
    exact (h.stepSpec call).only r' hnext hholds
  exact allStates_iff hprop hkeep hlose calls _ ⟨_, rfl, inv_start c interval contents⟩

/-! ## A slot that is redirected -/

def sevenImages : PmConfig where
  totalImages := 7
  freezeFrameImages := 5
  freezeFrameImages_le := by decide
  totalImages_ge := by decide

def liveData : ImageIdData := ⟨imageIdLiveData, 0, 0⟩

/-- Two clients freeze one image and a third one the next image.  Then the first client, whose
number for the one image is that of the third client for the other, moves on to the next image
and takes its slot along. -/
def slotTaken : List (PmCall Nat) :=
  [.sweepBegin 0 10, .sweepComplete 0, .sweepBegin 60 11, .sweepComplete 0,
    .create liveData, .create liveData, .sweepBegin 120 12, .sweepComplete 0,
    .create liveData, .move ⟨⟨imageIdTypeFreezeFrame, 0#6, 1#32, 0#8, 0#16⟩, 0, 0⟩ liveData]

def lost (r : PmRun c α) : Bool :=
  r.outstanding.any fun f =>
    match (r.pm.getIndexFromImageId imageIdTypeFreezeFrame f.id 0).2 with
    | .error _ => true
    | .ok found => found.imageIndex ≠ f.imageIndex

theorem Holds.not_lost (h : r.Holds) : r.lost = false := by
  unfold lost
  rw [List.any_eq_false]
  intro f hf
  obtain ⟨found, hfound, heq⟩ := (h.resolves f hf).found imageIdTypeFreezeFrame (.inr rfl)
  rw [hfound]
  simp [heq]

/-- The second client's id is lost. -/
theorem slotTaken_lost :
    ¬AllStates next HoldsIn (.ok (start sevenImages 60 0)) slotTaken := by
  intro h
  obtain ⟨r, hr, hholds⟩ := h.last
  have heval : (match slotTaken.foldl next (.ok (start sevenImages 60 0)) with
      | .ok r => r.lost
      | .error _ => false) = true := by
    decide +kernel
  rw [hr] at heval
  dsimp only at heval
  rw [hholds.not_lost] at heval
  cases heval

end PmRun

end OpaFm.PerfMgr
