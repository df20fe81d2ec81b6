import OpaFm.Lib.Run
import OpaFm.PerfMgr.Proofs.Outstanding
import Mathlib.Data.Fintype.Card

/-!
# Freeze frames over runs

Every outstanding id resolves to the image that was frozen and has a bit of its own, for as long
as no call takes the bit of another id or redirects its slot, and no client has a bit that the
look-up does not see.
-/

namespace OpaFm.PerfMgr

open OpaFm.Lib

variable {c : PmConfig} {α : Type}

/-! ## Resolving -/

variable {s s' : Pm c α} {f : Frozen c α}

theorem resolves_iff (hlast : s.LastValid) (htype : f.id.type = imageIdTypeFreezeFrame) :
    Resolves s f ↔ s.lastSweepIndex.isSome ∧ s.FoundBy f.id f.imageIndex ∧
      (s.image f.imageIndex).contents = f.contents := by
  constructor
  · intro h
    have hfound := (Pm.getIndexFromImageId_eq_ok htype (.inl rfl) f.imageIndex).mp (h.found _ (.inl rfl))
    exact ⟨(Pm.lastImage_isSome_iff hlast).mp hfound.1, hfound.2, h.contents⟩
  · intro h
    obtain ⟨hsweep, hfound, hcontents⟩ := h
    have hready := (Pm.lastImage_isSome_iff hlast).mpr hsweep
    refine ⟨?_, hfound.sweepNum, hcontents⟩
    intro type ht
    exact (Pm.getIndexFromImageId_eq_ok htype ht f.imageIndex).mpr ⟨hready, hfound⟩

/-- Where the sweeps have left everything as it was, an id still resolves exactly if its slot
still leads to the image and the look-up still sees its bit. -/
theorem Resolves.same_iff (h : Resolves s f) (hsame : Pm.SameSweeps s s') (hlast : s.LastValid)
    (htype : f.id.type = imageIdTypeFreezeFrame) :
    Resolves s' f ↔ s'.Leads f.id f.imageIndex ∧
      Seen (s'.image f.imageIndex).ffRefCount f.id.clientId := by
  obtain ⟨hsweep, hfound, hcontents⟩ := (resolves_iff hlast htype).mp h
  rw [resolves_iff (hsame.lastValid hlast) htype, hsame.lastSweepIndex, hsame.contents]
  constructor
  · intro h'
    exact ⟨h'.2.1.leads, h'.2.1.seen⟩
  · intro h'
    refine ⟨hsweep, ⟨h'.1, ?_, ?_, h'.2⟩, hcontents⟩
    · rw [hsame.sweepNum]
      exact hfound.sweepNum
    · rw [hsame.state]
      exact hfound.valid

theorem resolves_setFreezeFrame_iff (hsame : Pm.SameSweeps s s') (hlast : s.LastValid)
    (hsweep : s.lastSweepIndex.isSome) {i : Fin c.totalImages} {slot : Fin c.freezeFrameImages}
    {k : BitVec 6} (hvalid : (s.image i).state = .valid)
    (hframes : s'.freezeFrames = Function.update s.freezeFrames slot (some i)) :
    Resolves s' ⟨(s.setFreezeFrame slot i k).2, i, (s.image i).contents⟩ ↔
      Seen (s'.image i).ffRefCount k := by
  have hindex : ((s.setFreezeFrame slot i k).2.index).toNat = slot.val := by
    have hlt := slot.isLt
    have hle := c.freezeFrameImages_le
    show (BitVec.ofNat 16 slot.val).toNat = slot.val
    rw [BitVec.toNat_ofNat, Nat.mod_eq_of_lt (by omega)]
  have hnum : (s.setFreezeFrame slot i k).2.sweepNum = (s.image i).sweepNum := by
    show (((Function.update s.freezeFrames slot (some i)) slot).map fun j =>
      ((s.freezeImage i k).image j).sweepNum).getD 0#32 = (s.image i).sweepNum
    rw [Function.update_self]
    exact (s.sameSweeps_freezeImage i k).sweepNum i
  rw [resolves_iff (hsame.lastValid hlast) rfl]
  constructor
  · intro h
    exact h.2.1.seen
  · intro h
    refine ⟨?_, ⟨(Pm.leads_update_self hindex hframes).mpr rfl, ?_, ?_, h⟩, ?_⟩
    · rw [hsame.lastSweepIndex]
      exact hsweep
    · rw [hsame.sweepNum, hnum]
    · rw [hsame.state]
      exact hvalid
    · rw [hsame.contents]

namespace PmRun

/-! ## The invariant -/

structure Inv (r : PmRun c α) : Prop where
  last : r.pm.LastValid
  current : (r.pm.image r.pm.sweepIndex).state ≠ .valid
  types : ∀ f ∈ r.outstanding, f.id.type = imageIdTypeFreezeFrame
  holds : r.Holds

variable {r : PmRun c α}

theorem ids_nodup_of_leads {out : List (Frozen c α)} (hleads : ∀ f ∈ out, s.Leads f.id f.imageIndex)
    (hone : (out.map fun f => (f.imageIndex, f.id.clientId)).Nodup) : (out.map Frozen.id).Nodup := by
  apply List.Nodup.map_on _ hone.of_map
  intro f hf g hg heq
  apply List.inj_on_of_nodup_map hone hf hg
  have hlead := hleads f hf
  rw [heq] at hlead
  rw [Pm.Leads.eq hlead (hleads g hg), heq]

theorem Inv.found (h : r.Inv) (hf : f ∈ r.outstanding) : r.pm.FoundBy f.id f.imageIndex :=
  ((resolves_iff h.last (h.types f hf)).mp (h.holds.resolves f hf)).2.1

theorem Inv.of_same (h : r.Inv) {r' : PmRun c α} (hsame : Pm.SameSweeps r.pm r'.pm)
    (htypes : ∀ f ∈ r'.outstanding, f.id.type = imageIdTypeFreezeFrame) (hholds : r'.Holds) :
    r'.Inv := by
  refine ⟨hsame.lastValid h.last, ?_, htypes, hholds⟩
  rw [hsame.sweepIndex, hsame.state]
  exact h.current

theorem Inv.cleared (h : r.Inv) (hcleared : r.pm.Cleared s') : Inv ⟨s', r.outstanding⟩ := by
  have hholds : Holds ⟨s', r.outstanding⟩ := by
    refine ⟨?_, h.holds.ids_nodup, ?_, h.holds.one_bit⟩
    · intro f hf
      have hfound := h.found hf
      rw [(h.holds.resolves f hf).same_iff hcleared.sameSweeps h.last (h.types f hf), hcleared.image]
      refine ⟨?_, hfound.seen⟩
      rcases hcleared with rfl | ⟨slot, hstale, rfl⟩
      · exact hfound.leads
      · exact (Pm.leads_update (hfound.leads.not_stale hfound.seen.ne_zero hstale) rfl).mpr
          hfound.leads
    · intro i k
      dsimp only
      rw [hcleared.image]
      exact h.holds.bits i k
  exact h.of_same hcleared.sameSweeps h.types hholds

theorem mk_holds {out : List (Frozen c α)} (hlast : s'.LastValid)
    (htypes : ∀ f ∈ out, f.id.type = imageIdTypeFreezeFrame)
    (hresolves : ∀ f ∈ out, Resolves s' f)
    (hbits : ∀ i k, clientBit (s'.image i).ffRefCount k = true ↔
      ∃ f ∈ out, f.imageIndex = i ∧ f.id.clientId = k)
    (hone : (out.map fun f => (f.imageIndex, f.id.clientId)).Nodup) : Holds ⟨s', out⟩ := by
  have hleads : ∀ f ∈ out, s'.Leads f.id f.imageIndex := fun f hf =>
    ((resolves_iff hlast (htypes f hf)).mp (hresolves f hf)).2.1.leads
  exact ⟨hresolves, ids_nodup_of_leads hleads hone, hbits, hone⟩

/-! ## Create -/

theorem cons_holds {out : List (Frozen c α)} (hlast : s'.LastValid)
    (htypes : ∀ g ∈ f :: out, g.id.type = imageIdTypeFreezeFrame)
    (hresolves : ∀ g ∈ f :: out, Resolves s' g)
    (hbits : ∀ i k, clientBit (s'.image i).ffRefCount k = true ↔
      (∃ g ∈ out, g.imageIndex = i ∧ g.id.clientId = k) ∨ i = f.imageIndex ∧ k = f.id.clientId)
    (hone : (out.map fun g => (g.imageIndex, g.id.clientId)).Nodup)
    (hfree : ∀ g ∈ out, ¬(g.imageIndex = f.imageIndex ∧ g.id.clientId = f.id.clientId)) :
    Holds ⟨s', f :: out⟩ := by
  apply mk_holds hlast htypes hresolves
  · intro i k
    rw [hbits]
    constructor
    · rintro (⟨g, hg, hbit⟩ | ⟨rfl, rfl⟩)
      · exact ⟨g, List.mem_cons_of_mem _ hg, hbit⟩
      · exact ⟨f, List.mem_cons_self, rfl, rfl⟩
    · rintro ⟨g, hg, rfl, rfl⟩
      rcases List.mem_cons.mp hg with rfl | hg
      · exact .inr ⟨rfl, rfl⟩
      · exact .inl ⟨g, hg, rfl, rfl⟩
  · rw [List.map_cons, List.nodup_cons]
    refine ⟨?_, hone⟩
    intro hmem
    obtain ⟨g, hg, heq⟩ := List.mem_map.mp hmem
    exact hfree g hg (Prod.mk.inj heq)

/-- After a call that sets the slot to the image, the ids that are left still lead to theirs
exactly if those that use the slot are ids of this image. -/
theorem leads_set_iff {i : Fin c.totalImages} {slot : Fin c.freezeFrameImages}
    (hframes : s'.freezeFrames = Function.update s.freezeFrames slot (some i))
    (hleads : s.Leads f.id f.imageIndex) :
    s'.Leads f.id f.imageIndex ↔ (f.id.index.toNat = slot.val → f.imageIndex = i) := by
  by_cases hindex : f.id.index.toNat = slot.val
  · rw [Pm.leads_update_self hindex hframes]
    exact ⟨fun h _ => h.symm, fun h => (h hindex).symm⟩
  · rw [Pm.leads_update hindex hframes]
    exact ⟨fun _ h => absurd h hindex, fun _ => hleads⟩

theorem create_holds_iff (h : r.Inv) {imageId : ImageIdData} {i : Fin c.totalImages}
    {slot : Fin c.freezeFrameImages} {k : BitVec 6} (hc : r.Creates imageId i slot k) :
    Holds ⟨(r.pm.setFreezeFrame slot i k).1,
        ⟨(r.pm.setFreezeFrame slot i k).2, i, (r.pm.image i).contents⟩ :: r.outstanding⟩ ↔
      Seen ((r.pm.image i).ffRefCount ||| clientMask k) k := by
  have hsame := r.pm.sameSweeps_setFreezeFrame slot i k
  have hsweep := (Pm.lastImage_isSome_iff h.last).mp hc.ready
  have hcount : ((r.pm.setFreezeFrame slot i k).1.image i).ffRefCount =
      (r.pm.image i).ffRefCount ||| clientMask k := by
    show ((r.pm.freezeImage i k).image i).ffRefCount = _
    rw [Pm.freezeImage_count, if_pos rfl]
  rw [← hcount, ← resolves_setFreezeFrame_iff hsame h.last hsweep hc.valid rfl]
  constructor
  · intro hholds
    exact hholds.resolves _ List.mem_cons_self
  · intro hnew
    have hold : ∀ f ∈ r.outstanding, Resolves (r.pm.setFreezeFrame slot i k).1 f := by
      intro f hf
      have hfound := h.found hf
      rw [(h.holds.resolves f hf).same_iff hsame h.last (h.types f hf),
        leads_set_iff rfl hfound.leads]
      refine ⟨?_, Pm.freezeImage_seen hfound.seen⟩
      intro hindex
      -- the slot is in use, so it leads to the image already
      rcases hc.slot_for with hslot | hstale
      · apply hfound.leads.eq
        refine ⟨hindex ▸ slot.isLt, ?_⟩
        rw [← hslot]
        congr 1
        exact Fin.ext hindex
      · exact absurd hindex (hfound.leads.not_stale hfound.seen.ne_zero hstale)
    apply cons_holds (hsame.lastValid h.last)
    · intro f hf
      rcases List.mem_cons.mp hf with rfl | hf
      · rfl
      · exact h.types f hf
    · intro f hf
      rcases List.mem_cons.mp hf with rfl | hf
      · exact hnew
      · exact hold f hf
    · intro j x
      rw [← h.holds.bits]
      exact r.pm.freezeImage_bit i j k x
    · exact h.holds.one_bit
    · intro f hf hbit
      have hset := (h.holds.bits i k).mpr ⟨f, hf, hbit⟩
      rw [hc.client_free] at hset
      cases hset

/-! ## Release -/

theorem mem_without {id : ImageId} : f ∈ r.without id ↔ f ∈ r.outstanding ∧ f.id ≠ id := by
  unfold without
  rw [List.mem_filter, decide_eq_true_eq]

theorem without_one_bit (h : r.Inv) (id : ImageId) :
    ((r.without id).map fun f => (f.imageIndex, f.id.clientId)).Nodup :=
  h.holds.one_bit.sublist (List.filter_sublist.map _)

theorem bits_without (h : r.Inv) {id : ImageId} {i : Fin c.totalImages} {k : BitVec 6}
    (hfound : id.type = imageIdTypeFreezeFrame → r.pm.Leads id i ∧ k = id.clientId)
    (halias : ∀ f ∈ r.outstanding, f.imageIndex = i → f.id.clientId = k → f.id = id)
    (j : Fin c.totalImages) (x : BitVec 6) :
    (∃ f ∈ r.without id, f.imageIndex = j ∧ f.id.clientId = x) ↔
      clientBit (r.pm.image j).ffRefCount x = true ∧ ¬(j = i ∧ x = k) := by
  rw [h.holds.bits]
  constructor
  · intro hleft
    obtain ⟨f, hf, rfl, rfl⟩ := hleft
    obtain ⟨hf, hne⟩ := mem_without.mp hf
    exact ⟨⟨f, hf, rfl, rfl⟩, fun heq => hne (halias f hf heq.1 heq.2)⟩
  · intro hset
    obtain ⟨⟨f, hf, rfl, rfl⟩, hne⟩ := hset
    refine ⟨f, mem_without.mpr ⟨hf, ?_⟩, rfl, rfl⟩
    intro hid
    obtain ⟨hleads, hk⟩ := hfound (hid ▸ h.types f hf)
    apply hne
    rw [hk, hid]
    refine ⟨?_, rfl⟩
    have hlead := (h.found hf).leads
    rw [hid] at hlead
    exact hlead.eq hleads

theorem release_holds_iff (h : r.Inv) {imageId : ImageIdData} {junk : BitVec 6}
    {i : Fin c.totalImages} {k : BitVec 6} (hr : r.Releases imageId junk i k) :
    Holds ⟨r.pm.releaseImage i k, r.without imageId.imageNumber⟩ ↔
      (∀ f ∈ r.outstanding, f.imageIndex = i → f.id.clientId = k → f.id = imageId.imageNumber) ∧
        ∀ f ∈ r.without imageId.imageNumber, f.imageIndex = i →
          Seen ((r.pm.image i).ffRefCount &&& ~~~clientMask k) f.id.clientId := by
  have hsame := r.pm.sameSweeps_releaseImage i k
  have hresolves : ∀ f ∈ r.without imageId.imageNumber,
      (Resolves (r.pm.releaseImage i k) f ↔ (f.imageIndex = i →
        Seen ((r.pm.image i).ffRefCount &&& ~~~clientMask k) f.id.clientId)) := by
    intro f hf
    have hmem := (mem_without.mp hf).1
    have hfound := h.found hmem
    rw [(h.holds.resolves f hmem).same_iff hsame h.last (h.types f hmem), Pm.releaseImage_count]
    have hleads : (r.pm.releaseImage i k).Leads f.id f.imageIndex := hfound.leads
    by_cases hi : f.imageIndex = i
    · rw [if_pos hi, hi]
      exact ⟨fun hboth _ => hboth.2, fun hseen => ⟨hi ▸ hleads, hseen rfl⟩⟩
    · rw [if_neg hi]
      exact ⟨fun _ heq => absurd heq hi, fun _ => ⟨hleads, hfound.seen⟩⟩
  constructor
  · intro hholds
    constructor
    · intro f hf hi hk
      by_contra hne
      have hset := (hholds.bits i k).mpr ⟨f, mem_without.mpr ⟨hf, hne⟩, hi, hk⟩
      exact ((r.pm.releaseImage_bit i i k k).mp hset).2 ⟨rfl, rfl⟩
    · intro f hf
      exact (hresolves f hf).mp (hholds.resolves f hf)
  · intro hok
    apply mk_holds (hsame.lastValid h.last)
    · intro f hf
      exact h.types f (mem_without.mp hf).1
    · intro f hf
      exact (hresolves f hf).mpr (hok.2 f hf)
    · intro j x
      rw [bits_without h hr.found hok.1]
      exact r.pm.releaseImage_bit i j k x
    · exact without_one_bit h _

/-! ## Move -/

theorem move_holds_iff (h : r.Inv) {ffImageId imageId : ImageIdData} {m : MoveTarget c}
    (hm : r.Moves ffImageId imageId m) {slot : Fin c.freezeFrameImages} :
    Holds ⟨(r.pm.setFreezeFrame slot m.imageIndex m.clientId).1.releaseImage m.ffImageIndex
          m.ffClientId,
        ⟨(r.pm.setFreezeFrame slot m.imageIndex m.clientId).2, m.imageIndex,
          (r.pm.image m.imageIndex).contents⟩ :: r.without ffImageId.imageNumber⟩ ↔
      (∀ f ∈ r.without ffImageId.imageNumber, f.id.index.toNat = slot.val →
        f.imageIndex = m.imageIndex) ∧
      (∀ f ∈ r.outstanding, f.imageIndex = m.ffImageIndex → f.id.clientId = m.ffClientId →
        f.id = ffImageId.imageNumber) ∧
      ¬(m.imageIndex = m.ffImageIndex ∧ m.clientId = m.ffClientId) ∧
      (∀ f ∈ r.without ffImageId.imageNumber, f.imageIndex = m.ffImageIndex →
        Seen (r.movedCount m m.ffImageIndex) f.id.clientId) ∧
      Seen (r.movedCount m m.imageIndex) m.clientId := by
  have hsame := (r.pm.sameSweeps_setFreezeFrame slot m.imageIndex m.clientId).trans
    (Pm.sameSweeps_releaseImage _ m.ffImageIndex m.ffClientId)
  have hsweep := (Pm.lastImage_isSome_iff h.last).mp hm.ready
  generalize hs' : (r.pm.setFreezeFrame slot m.imageIndex m.clientId).1.releaseImage m.ffImageIndex
    m.ffClientId = s' at hsame ⊢
  have hcount : ∀ j, (s'.image j).ffRefCount = r.movedCount m j := by
    intro j
    rw [← hs']
    unfold movedCount
    rw [Pm.releaseImage_count, Pm.releaseImage_count]
    rfl
  have hframes : s'.freezeFrames =
      Function.update r.pm.freezeFrames slot (some m.imageIndex) := by
    rw [← hs']
    rfl
  have hbit : ∀ j x, clientBit (s'.image j).ffRefCount x = true ↔
      (clientBit (r.pm.image j).ffRefCount x = true ∨ j = m.imageIndex ∧ x = m.clientId) ∧
        ¬(j = m.ffImageIndex ∧ x = m.ffClientId) := by
    intro j x
    rw [hcount]
    unfold movedCount
    rw [Pm.releaseImage_bit, Pm.freezeImage_bit]
  have hnew := resolves_setFreezeFrame_iff hsame h.last hsweep hm.valid hframes (k := m.clientId)
  rw [hcount] at hnew
  have hresolves : ∀ f ∈ r.without ffImageId.imageNumber,
      (Resolves s' f ↔ (f.id.index.toNat = slot.val → f.imageIndex = m.imageIndex) ∧
        (f.imageIndex = m.ffImageIndex → Seen (r.movedCount m m.ffImageIndex) f.id.clientId)) := by
    intro f hf
    have hmem := (mem_without.mp hf).1
    have hfound := h.found hmem
    rw [(h.holds.resolves f hmem).same_iff hsame h.last (h.types f hmem),
      leads_set_iff hframes hfound.leads, hcount]
    apply and_congr_right
    intro _
    by_cases hi : f.imageIndex = m.ffImageIndex
    · rw [hi]
      exact ⟨fun hseen _ => hseen, fun hseen => hseen rfl⟩
    · refine ⟨fun _ heq => absurd heq hi, fun _ => ?_⟩
      unfold movedCount
      rw [Pm.releaseImage_count, if_neg hi]
      exact Pm.freezeImage_seen hfound.seen
  constructor
  · intro hholds
    have hleft : ∀ f ∈ r.without ffImageId.imageNumber, Resolves s' f := fun f hf =>
      hholds.resolves f (List.mem_cons_of_mem _ hf)
    refine ⟨fun f hf => ((hresolves f hf).mp (hleft f hf)).1, ?_, ?_,
      fun f hf => ((hresolves f hf).mp (hleft f hf)).2,
      hnew.mp (hholds.resolves _ List.mem_cons_self)⟩
    · intro f hf hi hk
      by_contra hne
      have hset := (hholds.bits m.ffImageIndex m.ffClientId).mpr
        ⟨f, List.mem_cons_of_mem _ (mem_without.mpr ⟨hf, hne⟩), hi, hk⟩
      exact ((hbit _ _).mp hset).2 ⟨rfl, rfl⟩
    · intro heq
      have hset := (hholds.bits m.imageIndex m.clientId).mpr ⟨_, List.mem_cons_self, rfl, rfl⟩
      exact ((hbit _ _).mp hset).2 heq
  · intro hok
    obtain ⟨hslot, halias, hother, hseen, hnewSeen⟩ := hok
    apply cons_holds (hsame.lastValid h.last)
    · intro f hf
      rcases List.mem_cons.mp hf with rfl | hf
      · rfl
      · exact h.types f (mem_without.mp hf).1
    · intro f hf
      rcases List.mem_cons.mp hf with rfl | hf
      · exact hnew.mpr hnewSeen
      · exact (hresolves f hf).mpr ⟨hslot f hf, hseen f hf⟩
    · intro j x
      rw [bits_without h hm.found halias, hbit]
      constructor
      · intro hset
        rcases hset.1 with hbefore | heq
        · exact .inl ⟨hbefore, hset.2⟩
        · exact .inr heq
      · intro hset
        rcases hset with hbefore | ⟨rfl, rfl⟩
        · exact ⟨.inl hbefore.1, hbefore.2⟩
        · exact ⟨.inr ⟨rfl, rfl⟩, hother⟩
    · exact without_one_bit h _
    · intro f hf heq
      have hset := (h.holds.bits m.imageIndex m.clientId).mpr ⟨f, (mem_without.mp hf).1, heq⟩
      rw [hm.client_free] at hset
      cases hset

end PmRun

end OpaFm.PerfMgr
