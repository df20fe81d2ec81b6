import OpaFm.Rmpp.Proofs.ContextPool

/-!
# Runs of the context pool

What lists, counts and keys say in every state of a run, and the calls that end it: a
context is reserved whose key is in the hash table already, or gets one reference more
than the count holds.
-/

namespace OpaFm.Rmpp

open OpaFm.Lib

namespace CntxtPool

variable {n : Nat}

structure Accounts (s : CntxtPool n) (free : List (Fin n))
    (chain : Fin rmppCntxtHashTableDepth → List (Fin n)) : Prop where
  freeList : Linked s.links.next s.freeList free
  chains : ∀ b, Linked s.links.next (s.hash b) (chain b)
  free_or_allocated : ∀ c,
    (free.count c = 1 ∧ (s.cntxt c).ref = 0 ∧ (s.cntxt c).hashed = false) ∨
      (free.count c = 0 ∧ 0 < (s.cntxt c).ref)
  nfree : s.nfree = free.length
  nalloc : s.nalloc = (Finset.univ.filter fun c => c ∉ free).card
  total : s.nfree + s.nalloc = n
  chained : ∀ c b, (chain b).count c =
    if (s.cntxt c).hashed = true ∧ b = cntxtBucket (s.cntxt c).lid then 1 else 0
  unique : ∀ c d, (s.cntxt c).hashed = true → (s.cntxt d).hashed = true →
    (s.cntxt c).lid = (s.cntxt d).lid → (s.cntxt c).tid = (s.cntxt d).tid → c = d

def Consistent (s : CntxtPool n) : Prop := ∃ free chain, s.Accounts free chain

def RefRoom (s : CntxtPool n) (c : Fin n) : Prop := (s.cntxt c).ref ≠ BitVec.allOnes 32

def KeyHashed (s : CntxtPool n) (c : Fin n) : Prop :=
  ∃ d, (s.cntxt d).hashed = true ∧ (s.cntxt d).lid = (s.cntxt c).lid ∧
    (s.cntxt d).tid = (s.cntxt c).tid

/-- The call neither overflows a reference count nor puts a second context with the key of
another one into the hash table. -/
def CallOk (s : CntxtPool n) : PoolCall n → Prop
  | .get _ mad =>
    ∀ c, s.findHashed mad = some c → s.getMultiInProg c = true → s.RefRoom c
  | .find _ mad => ∀ c, s.findHashed mad = some c → s.RefRoom c
  | .reserve _ (some c) =>
    (s.cntxt c).info = true → s.RefRoom c ∧ ((s.cntxt c).hashed = false → ¬s.KeyHashed c)
  | _ => True

variable {s s' : CntxtPool n} {lists : PoolIndex → List (Fin n)} {c : Fin n} {limits : SendLimits}
  {call : PoolCall n} {r : PoolReply n}

theorem Inv.consistent (h : Inv s lists) : s.Consistent := by
  have hcount : ∀ i c, (lists i).count c = if c ∈ lists i then 1 else 0 :=
    fun i c => (h.linked.dlinked i).nodup.count
  refine ⟨lists none, fun b => lists (some b), ?_⟩
  constructor
  · exact (h.linked.dlinked none).linked
  · exact fun b => (h.linked.dlinked (some b)).linked
  · intro c
    rw [hcount]
    by_cases href : (s.cntxt c).ref = 0
    · left
      refine ⟨if_pos ((h.mem_free_iff c).mpr href), href, Bool.eq_false_iff.mpr ?_⟩
      exact fun hhashed => (h.wellFormed c).hashed hhashed href
    · right
      exact ⟨if_neg (h.not_mem_free href), by bv_omega⟩
  · exact h.nfree
  · have hcard : (lists none).toFinset.card = (lists none).length :=
      List.toFinset_card_of_nodup (h.linked.dlinked none).nodup
    have hcompl : (Finset.univ.filter fun c => c ∉ lists none) = (lists none).toFinsetᶜ := by
      ext c
      simp
    rw [hcompl, Finset.card_compl, Fintype.card_fin, hcard]
    have htotal := h.total
    omega
  · rw [h.nfree, Nat.add_comm]
    exact h.total
  · intro c b
    rw [hcount]
    exact if_congr (h.mem_chain_iff c b) rfl rfl
  · exact h.unique

theorem ref_add_one (s : CntxtPool n) (c : Fin n) : s.RefRoom c ↔ (s.cntxt c).ref + 1 ≠ 0 := by
  unfold RefRoom
  rw [ne_eq, ne_eq, not_iff_not]
  constructor
  · intro href
    rw [href]
    decide
  · intro hzero
    have heq : (s.cntxt c).ref = 0 - 1 := by rw [← hzero, BitVec.add_sub_cancel]
    rw [heq]
    decide

theorem Inv.step (h : Inv s lists) (limits : SendLimits) (hok : s.CallOk call) :
    s.step limits call = .error .deadlock ∨
      ∃ s' r lists', s.step limits call = .ok (s', r) ∧ Inv s' lists' := by
  cases call with
  | get now mad =>
    obtain ⟨s', r, lists', hget, hinv⟩ := h.get now mad fun c hfound hmulti =>
      (s.ref_add_one c).mp (hok c hfound hmulti)
    exact .inr ⟨s', _, lists', by simp only [CntxtPool.step, hget]; rfl, hinv⟩
  | find now mad =>
    obtain ⟨s', r, lists', hfind, hinv⟩ := h.find now mad fun c hfound =>
      (s.ref_add_one c).mp (hok c hfound)
    exact .inr ⟨s', _, lists', by simp only [CntxtPool.step, hfind]; rfl, hinv⟩
  | reserve now c =>
    have hroom : ∀ d ∈ c, (s.cntxt d).info = true → (s.cntxt d).ref + 1 ≠ 0 := by
      rintro d ⟨⟩ hinfo
      exact (s.ref_add_one d).mp (hok hinfo).1
    have hnew : ∀ d ∈ c, (s.cntxt d).info = true → (s.cntxt d).hashed = false →
        ∀ e, (s.cntxt e).hashed = true → (s.cntxt e).lid = (s.cntxt d).lid →
          (s.cntxt e).tid ≠ (s.cntxt d).tid := by
      rintro d ⟨⟩ hinfo hhashed e he hlid htid
      exact (hok hinfo).2 hhashed ⟨e, he, hlid, htid⟩
    obtain ⟨lists', hinv⟩ := h.reserve now c hroom hnew
    exact .inr ⟨_, _, lists', rfl, hinv⟩
  | release c =>
    obtain ⟨s', r, lists', hrel, hinv⟩ := h.release c
    exact .inr ⟨s', _, lists', by simp only [CntxtPool.step, hrel]; rfl, hinv⟩
  | fullRelease c =>
    obtain ⟨s', r, lists', hrel, hinv⟩ := h.fullRelease c
    exact .inr ⟨s', _, lists', by simp only [CntxtPool.step, hrel]; rfl, hinv⟩
  | age now sends =>
    rcases h.age limits now sends with hlock | ⟨s', lists', hage, hinv⟩
    · exact .inl (by simp only [CntxtPool.step, hlock]; rfl)
    · exact .inr ⟨s', _, lists', by simp only [CntxtPool.step, hage]; rfl, hinv⟩
  | write c method reqInProg respTimeout xfer =>
    exact .inr ⟨_, _, lists, rfl, h.setCntxt_ref rfl rfl rfl rfl Iff.rfl⟩

theorem inv_of_reach (usrId : Nat)
    (hreach : Reach (step limits) CallOk (CntxtPool.init n usrId) s) : ∃ lists, Inv s lists := by
  apply Reach.invariant (fun s => ∃ lists, Inv s lists) ⟨_, Inv.init n usrId⟩ _ hreach
  rintro s call s' r ⟨lists, h⟩ hok hstep
  rcases h.step limits hok with hlock | ⟨s₁, r₁, lists', hstep', hinv⟩
  · rw [hlock] at hstep
    cases hstep
  · rw [hstep'] at hstep
    cases hstep
    exact ⟨lists', hinv⟩

theorem not_consistent_of_ref (hhashed : (s.cntxt c).hashed = true) (href : (s.cntxt c).ref = 0) :
    ¬s.Consistent := by
  rintro ⟨free, chain, h⟩
  rcases h.free_or_allocated c with ⟨-, -, hfalse⟩ | ⟨-, hpos⟩
  · rw [hhashed] at hfalse
    cases hfalse
  · rw [href] at hpos
    exact absurd hpos (by decide)

theorem Inv.not_consistent (h : Inv s lists) (hok : ¬s.CallOk call)
    (hstep : s.step limits call = .ok (s', r)) : ¬s'.Consistent := by
  have htouch : ∀ now (mad : CntxtMad) c s₁, s.findHashed mad = some c → ¬s.RefRoom c →
      s.touch (cntxtBucket mad.slid) now c = .ok s₁ → ¬s₁.Consistent := by
    intro now mad c s₁ hfound hroom htouch
    obtain ⟨hhashed, -, -, l₁, l₂, hsplit⟩ := h.findHashed_eq mad hfound
    obtain ⟨s₂, lists', hsame, -, heq⟩ := h.touch_eq hsplit now
    rw [heq] at htouch
    cases htouch
    apply not_consistent_of_ref (c := c)
    · simpa [CntxtPool.setCntxt, hsame.cntxt] using hhashed
    · rw [ref_add_one, not_not] at hroom
      simpa only [CntxtPool.setCntxt, Function.update_self, hsame.cntxt] using hroom
  cases call with
  | get now mad =>
    simp only [CallOk, not_forall] at hok
    obtain ⟨c, hfound, hmulti, hroom⟩ := hok
    simp only [CntxtPool.step, cntxtGet, hfound, hmulti, if_true] at hstep
    obtain ⟨a, ha, hret⟩ := bind_eq_ok.mp hstep
    obtain ⟨s₁, hs₁, hret'⟩ := bind_eq_ok.mp ha
    cases hret'
    cases hret
    exact htouch now mad c _ hfound hroom hs₁
  | find now mad =>
    simp only [CallOk, not_forall] at hok
    obtain ⟨c, hfound, hroom⟩ := hok
    simp only [CntxtPool.step, rmppCntxtFind, hfound] at hstep
    obtain ⟨a, ha, hret⟩ := bind_eq_ok.mp hstep
    obtain ⟨s₁, hs₁, hret'⟩ := bind_eq_ok.mp ha
    cases hret'
    cases hret
    exact htouch now mad c _ hfound hroom hs₁
  | reserve now c =>
    cases c with
    | none => exact absurd trivial hok
    | some c =>
      simp only [CallOk, Classical.not_imp, not_and_or, not_not] at hok
      obtain ⟨hinfo, hbad⟩ := hok
      have hs' : (s.rmppCntxtReserve now (some c)).1 = s' :=
        congrArg Prod.fst (Except.ok.inj hstep)
      rw [← hs']
      -- the context is hashed now, with one reference more
      have hself : ((s.rmppCntxtReserve now (some c)).1.cntxt c).hashed = true ∧
          ((s.rmppCntxtReserve now (some c)).1.cntxt c).ref = (s.cntxt c).ref + 1 ∧
          ((s.rmppCntxtReserve now (some c)).1.cntxt c).lid = (s.cntxt c).lid ∧
          ((s.rmppCntxtReserve now (some c)).1.cntxt c).tid = (s.cntxt c).tid := by
        cases hhashed : (s.cntxt c).hashed <;>
          simp [rmppCntxtReserve, hinfo, hhashed, CntxtPool.setCntxt, insertHash]
      rcases hbad with hroom | ⟨hhashed, d, hd, hlid, htid⟩
      · rw [ref_add_one, not_not] at hroom
        exact not_consistent_of_ref hself.1 (hself.2.1.trans hroom)
      · rintro ⟨free, chain, haccounts⟩
        have hdc : d ≠ c := by
          rintro rfl
          rw [hhashed] at hd
          cases hd
        have hother : (s.rmppCntxtReserve now (some c)).1.cntxt d = s.cntxt d := by
          simp [rmppCntxtReserve, hinfo, hhashed, CntxtPool.setCntxt, insertHash, hdc]
        apply hdc
        apply haccounts.unique d c
        · rw [hother]
          exact hd
        · exact hself.1
        · rw [hother, hself.2.2.1, hlid]
        · rw [hother, hself.2.2.2, htid]
  | release c => exact absurd trivial hok
  | fullRelease c => exact absurd trivial hok
  | age now sends => exact absurd trivial hok
  | write c method reqInProg respTimeout xfer => exact absurd trivial hok

/-- The pool is consistent in every state of a run without the two kinds of calls, which
leave it inconsistent. -/
theorem contextPool_consistent (limits : SendLimits) (n usrId : Nat) :
    (∀ s : CntxtPool n, Reach (step limits) CallOk (CntxtPool.init n usrId) s → s.Consistent) ∧
      ∀ (s : CntxtPool n) call s' r, Reach (step limits) CallOk (CntxtPool.init n usrId) s →
        ¬s.CallOk call → s.step limits call = .ok (s', r) → ¬s'.Consistent := by
  constructor
  · intro s hreach
    obtain ⟨lists, h⟩ := inv_of_reach usrId hreach
    exact h.consistent
  · intro s call s' r hreach hok hstep
    obtain ⟨lists, h⟩ := inv_of_reach usrId hreach
    exact h.not_consistent hok hstep

def safeCall (s : CntxtPool n) : PoolCall n → Bool
  | .get _ mad | .find _ mad =>
    (s.findHashed mad).all fun c => (s.cntxt c).ref != BitVec.allOnes 32
  | .reserve _ (some c) =>
    (s.cntxt c).ref != BitVec.allOnes 32 &&
      ((s.cntxt c).hashed || (List.finRange n).all fun d =>
        !((s.cntxt d).hashed && (s.cntxt d).lid == (s.cntxt c).lid &&
          (s.cntxt d).tid == (s.cntxt c).tid))
  | _ => true

theorem callOk_of_safeCall (s : CntxtPool n) (call : PoolCall n) (h : s.safeCall call = true) :
    s.CallOk call := by
  unfold safeCall at h
  split at h
  next mad =>
    intro c hc _
    rw [hc] at h
    exact bne_iff_ne.mp h
  next mad =>
    intro c hc
    rw [hc] at h
    exact bne_iff_ne.mp h
  next c =>
    rw [Bool.and_eq_true, Bool.or_eq_true, List.all_eq_true] at h
    refine fun _ => ⟨bne_iff_ne.mp h.1, fun hfree => ?_⟩
    rintro ⟨d, hd, hlid, htid⟩
    have hother := h.2.resolve_left (Bool.eq_false_iff.mp hfree) d (List.mem_finRange d)
    simp [hd, hlid, htid] at hother
  next hget hfind hreserve =>
    cases call with
    | get now mad => exact absurd rfl (hget now mad)
    | find now mad => exact absurd rfl (hfind now mad)
    | reserve now c =>
      cases c with
      | none => trivial
      | some c => exact absurd rfl (hreserve now c)
    | _ => trivial

def twoRequests : List (PoolCall 2) :=
  [.get 1 ⟨5, 7, rmppCmdGettable⟩, .reserve 2 (some ⟨1, Nat.one_lt_two⟩),
    .find 3 ⟨5, 7, rmppCmdGettable⟩, .release (some ⟨1, Nat.one_lt_two⟩),
    .get 4 ⟨6, 8, rmppCmdGettable⟩,
    .write 1 rmppCmdGettable false 10 ⟨true, false, 3000, 1, 1, 2, 0, 0, 3, false⟩,
    .age 20 fun _ => 1]

theorem contextPool_consistent_get :
    ∃ s : CntxtPool 2, Reach (step ⟨1024, 3⟩) CallOk (CntxtPool.init 2 0) s ∧
      ((s.cntxt 0).ref = 1 ∧ (s.cntxt 1).ref = 2 ∧ (s.cntxt 1).xfer.retries = 1) ∧
      s.Consistent := by
  have hrun : checkedRun (step ⟨1024, 3⟩) safeCall
      (fun s => (s.cntxt 0).ref = 1 ∧ (s.cntxt 1).ref = 2 ∧ (s.cntxt 1).xfer.retries = 1)
      (CntxtPool.init 2 0) twoRequests = true := by
    decide +kernel
  obtain ⟨s, hreach, htest⟩ := exists_reach_of_checkedRun callOk_of_safeCall .start hrun
  exact ⟨s, hreach, of_decide_eq_true htest, (contextPool_consistent ⟨1024, 3⟩ 2 0).1 s hreach⟩

def repeatedRequest : List (PoolCall 2) :=
  [.get 1 ⟨5, 7, rmppCmdGettable⟩, .get 2 ⟨5, 7, rmppCmdGettable⟩, .reserve 3 (some ⟨0, Nat.zero_lt_two⟩),
    .reserve 4 (some ⟨1, Nat.one_lt_two⟩)]

/-- Both contexts of the request are hashed. -/
theorem contextPool_not_consistent :
    ¬∀ (limits : SendLimits) (n usrId : Nat) (s : CntxtPool n),
      Reach (step limits) (fun _ _ => True) (CntxtPool.init n usrId) s → s.Consistent := by
  intro h
  have hrun : holdsAfter (step ⟨1024, 3⟩) (CntxtPool.init 2 0) repeatedRequest
      (fun s => (s.cntxt 0).hashed && (s.cntxt 1).hashed &&
        decide ((s.cntxt 0).lid = (s.cntxt 1).lid) && decide ((s.cntxt 0).tid = (s.cntxt 1).tid)) =
      true := by decide
  obtain ⟨s, hreach, htest⟩ := exists_reach_of_holdsAfter _ _ _ _ hrun
  obtain ⟨free, chain, haccounts⟩ := h _ _ _ s hreach
  simp only [Bool.and_eq_true, decide_eq_true_eq] at htest
  exact absurd (haccounts.unique 0 1 htest.1.1.1 htest.1.1.2 htest.1.2 htest.2) (by decide)

end CntxtPool

end OpaFm.Rmpp
