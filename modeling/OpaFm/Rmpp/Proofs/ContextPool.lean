import OpaFm.Rmpp.ContextPool
import Mathlib.Data.Fintype.Card
import Mathlib.Data.Finset.Card

/-!
# The lists of the context pool

The free list and the hash chains as one family of lists, and which of them a context
belongs to by its fields.
-/

namespace OpaFm.Rmpp

open OpaFm.Lib

abbrev PoolIndex := Option (Fin rmppCntxtHashTableDepth)

namespace RmppCntxt

variable (x : RmppCntxt)

def home : Option PoolIndex :=
  if x.ref = 0 then some none
  else if x.hashed then some (some (cntxtBucket x.lid))
  else none

structure WellFormed : Prop where
  info_iff : x.info = true ↔ x.ref ≠ 0
  hashed : x.hashed = true → x.ref ≠ 0

variable {x}

theorem home_eq_free_iff : x.home = some none ↔ x.ref = 0 := by
  unfold home
  split
  next h => exact iff_of_true rfl h
  next h => split <;> simp only [Option.some.injEq, reduceCtorEq, h]

theorem home_of_hashed (href : x.ref ≠ 0) (h : x.hashed = true) :
    x.home = some (some (cntxtBucket x.lid)) := by
  unfold home
  rw [if_neg href, if_pos h]

theorem home_of_unhashed (href : x.ref ≠ 0) (h : x.hashed = false) : x.home = none := by
  unfold home
  rw [if_neg href, h]
  rfl

theorem WellFormed.home_eq_chain_iff (h : x.WellFormed) (b : Fin rmppCntxtHashTableDepth) :
    x.home = some (some b) ↔ x.hashed = true ∧ b = cntxtBucket x.lid := by
  unfold home
  split
  next h0 =>
    simp only [Option.some.injEq, reduceCtorEq, false_iff]
    exact fun hh => h.hashed hh.1 h0
  next =>
    split
    next hhash => simp [hhash, eq_comm]
    next hhash => simp [hhash]

end RmppCntxt

namespace CntxtPool

variable {n : Nat}

def heads (s : CntxtPool n) : PoolIndex → Option (Fin n)
  | none => s.freeList
  | some b => s.hash b

structure SameData (s s' : CntxtPool n) : Prop where
  cntxt : s'.cntxt = s.cntxt
  nfree : s'.nfree = s.nfree
  nalloc : s'.nalloc = s.nalloc
  usrId : s'.usrId = s.usrId

variable {s : CntxtPool n} {lists : PoolIndex → List (Fin n)} {b : Fin rmppCntxtHashTableDepth}
  {c : Fin n} {l₁ l₂ : List (Fin n)}

theorem heads_hash (links : Links (Fin n)) (p : Option (Fin n)) :
    heads { s with links := links, hash := Function.update s.hash b p } =
      Function.update s.heads (some b) p := by
  ext1 i
  cases i with
  | none => simp [heads]
  | some b' =>
    by_cases hb : b' = b
    · subst hb
      simp [heads]
    · simp [heads, hb]

theorem heads_freeList (links : Links (Fin n)) (p : Option (Fin n)) :
    heads { s with links := links, freeList := p } = Function.update s.heads none p := by
  ext1 i
  cases i with
  | none => simp [heads]
  | some b' => simp [heads]

theorem deleteHash_lists (h : DLists s.links s.heads lists) (hb : lists (some b) = l₁ ++ c :: l₂) :
    ∃ s', s.deleteHash b c = .ok s' ∧ SameData s s' ∧
      DLists s'.links s'.heads (Function.update lists (some b) (l₁ ++ l₂)) := by
  obtain ⟨k, p, hdelete, hlists⟩ := h.delete (some b) hb
  have hstep : s.deleteHash b c = .ok { s with links := k, hash := Function.update s.hash b p } := by
    unfold deleteHash
    rw [show s.hash b = s.heads (some b) from rfl, hdelete]
  refine ⟨_, hstep, ⟨rfl, rfl, rfl, rfl⟩, ?_⟩
  rw [heads_hash]
  exact hlists

theorem deleteFree_lists (h : DLists s.links s.heads lists) (hfree : lists none = l₁ ++ c :: l₂) :
    ∃ s', s.deleteFree c = .ok s' ∧ SameData s s' ∧
      DLists s'.links s'.heads (Function.update lists none (l₁ ++ l₂)) := by
  obtain ⟨k, p, hdelete, hlists⟩ := h.delete none hfree
  have hstep : s.deleteFree c = .ok { s with links := k, freeList := p } := by
    unfold deleteFree
    rw [show s.freeList = s.heads none from rfl, hdelete]
  refine ⟨_, hstep, ⟨rfl, rfl, rfl, rfl⟩, ?_⟩
  rw [heads_freeList]
  exact hlists

theorem insertHash_lists (h : DLists s.links s.heads lists) (hc : ∀ i, c ∉ lists i) :
    DLists (s.insertHash b c).links (s.insertHash b c).heads
      (Function.update lists (some b) (c :: lists (some b))) := by
  unfold insertHash
  rw [heads_hash]
  exact h.insert (some b) hc

theorem insertFree_lists (h : DLists s.links s.heads lists) (hc : ∀ i, c ∉ lists i) :
    DLists (s.insertFree c).links (s.insertFree c).heads
      (Function.update lists none (c :: lists none)) := by
  unfold insertFree
  rw [heads_freeList]
  exact h.insert none hc

theorem not_mem_deleted (h : DLists s.links s.heads lists) (hb : lists (some b) = l₁ ++ c :: l₂)
    (i : PoolIndex) : c ∉ Function.update lists (some b) (l₁ ++ l₂) i := by
  have hin : c ∈ lists (some b) := by simp [hb]
  by_cases hi : i = some b
  · subst hi
    have hchain := h.dlinked (some b)
    rw [hb] at hchain
    rw [Function.update_self]
    exact hchain.not_mem_of_split
  · rw [Function.update_of_ne hi]
    exact fun hc => hi (h.apart hc hin)

theorem moveToHead_lists (h : DLists s.links s.heads lists) (hb : lists (some b) = l₁ ++ c :: l₂) :
    ∃ s', s.moveToHead b c = .ok s' ∧ SameData s s' ∧
      DLists s'.links s'.heads (Function.update lists (some b) (c :: (l₁ ++ l₂))) := by
  obtain ⟨s', hdelete, hsame, hlists⟩ := deleteHash_lists h hb
  have hinsert := insertHash_lists (b := b) hlists (not_mem_deleted h hb)
  rw [Function.update_self, Function.update_idem] at hinsert
  refine ⟨s'.insertHash b c, ?_, ⟨hsame.cntxt, hsame.nfree, hsame.nalloc, hsame.usrId⟩, hinsert⟩
  unfold moveToHead
  rw [hdelete]
  rfl

theorem foldl_insertFree (l : List (Fin n)) (hl : l.Nodup) :
    ∀ (s : CntxtPool n) (lists : PoolIndex → List (Fin n)), DLists s.links s.heads lists →
      (∀ c ∈ l, ∀ i, c ∉ lists i) →
      SameData s (l.foldl insertFree s) ∧
        DLists (l.foldl insertFree s).links (l.foldl insertFree s).heads
          (Function.update lists none (l.reverse ++ lists none)) := by
  induction l with
  | nil =>
    intro s lists h _
    refine ⟨⟨rfl, rfl, rfl, rfl⟩, ?_⟩
    simpa using h
  | cons c l ih =>
    intro s lists h hnew
    obtain ⟨hc, hl⟩ := List.nodup_cons.mp hl
    have hinsert := insertFree_lists h (hnew c List.mem_cons_self)
    have hrest : ∀ d ∈ l, ∀ i, d ∉ Function.update lists none (c :: lists none) i := by
      intro d hd i
      have hold := hnew d (List.mem_cons_of_mem c hd)
      by_cases hi : i = none
      · subst hi
        rw [Function.update_self, List.mem_cons]
        rintro (rfl | hin)
        · exact hc hd
        · exact hold none hin
      · rw [Function.update_of_ne hi]
        exact hold i
    obtain ⟨hsame, hlists⟩ := ih hl (s.insertFree c) _ hinsert hrest
    refine ⟨⟨hsame.cntxt, hsame.nfree, hsame.nalloc, hsame.usrId⟩, ?_⟩
    rw [Function.update_self, Function.update_idem] at hlists
    simpa using hlists

theorem init_lists (n usrId : Nat) :
    SameData (zeroed n usrId) (init n usrId) ∧
      DLists (init n usrId).links (init n usrId).heads
        (Function.update (fun _ => []) none (List.finRange n).reverse) := by
  have hheads : (zeroed n usrId).heads = fun _ => none := by
    ext1 i
    cases i <;> rfl
  have hempty : DLists (zeroed n usrId).links (zeroed n usrId).heads fun _ => [] := by
    rw [hheads]
    exact ⟨fun _ => .nil, fun ha => nomatch ha⟩
  have hloop := foldl_insertFree (List.finRange n) (List.nodup_finRange n) (zeroed n usrId) _ hempty
    fun _ _ _ => List.not_mem_nil
  rw [List.append_nil] at hloop
  exact hloop

end CntxtPool

/-!
## Calls of the context pool

The invariant of the context pool, with one lemma for each of its calls.
-/

namespace CntxtPool

variable {n : Nat}

structure Inv (s : CntxtPool n) (lists : PoolIndex → List (Fin n)) : Prop where
  linked : DLists s.links s.heads lists
  mem : ∀ c i, c ∈ lists i ↔ (s.cntxt c).home = some i
  wellFormed : ∀ c, (s.cntxt c).WellFormed
  nfree : s.nfree = (lists none).length
  total : s.nalloc + (lists none).length = n
  unique : ∀ c d, (s.cntxt c).hashed = true → (s.cntxt d).hashed = true →
    (s.cntxt c).lid = (s.cntxt d).lid → (s.cntxt c).tid = (s.cntxt d).tid → c = d

variable {s s' : CntxtPool n} {lists lists' : PoolIndex → List (Fin n)} {c d : Fin n}
  {b : Fin rmppCntxtHashTableDepth} {l₁ l₂ : List (Fin n)} {x : RmppCntxt}

theorem retire_data (hinfo : (s.cntxt c).info = true) (hroom : s.nfree < n) (hpos : s.nalloc ≠ 0) :
    (s.retire c).cntxt = Function.update s.cntxt c (s.cntxt c).reset ∧
      (s.retire c).nfree = s.nfree + 1 ∧ (s.retire c).nalloc + 1 = s.nalloc ∧
      (s.retire c).links = (s.insertFree c).links ∧ (s.retire c).heads = (s.insertFree c).heads := by
  have heq : s.retire c =
      { s.insertFree c with
        cntxt := Function.update s.cntxt c (s.cntxt c).reset
        nfree := s.nfree + 1
        nalloc := s.nalloc - 1 } := by
    simp [CntxtPool.retire, hinfo, incrNfree, decrNalloc, CntxtPool.setCntxt, insertFree, hroom, hpos]
  rw [heq]
  refine ⟨rfl, rfl, Nat.sub_add_cancel (Nat.pos_of_ne_zero hpos), rfl, ?_⟩
  ext1 i
  cases i <;> rfl

def KeepsBehind (lists lists' : PoolIndex → List (Fin n)) (c : Fin n) : Prop :=
  ∀ b l₁ l₂, lists (some b) = l₁ ++ c :: l₂ → ∃ l₁', lists' (some b) = l₁' ++ l₂

theorem KeepsBehind.refl (lists : PoolIndex → List (Fin n)) (c : Fin n) :
    KeepsBehind lists lists c := fun _ l₁ _ hb => ⟨l₁ ++ [c], by simpa using hb⟩

theorem unhash_lists (hfree : c ∉ lists none)
    (hmem : ∀ b, c ∈ lists (some b) ↔
      (s.cntxt c).hashed = true ∧ b = cntxtBucket (s.cntxt c).lid)
    (hlinked : DLists s.links s.heads lists) :
    ∃ s₁ lists₁, s.unhash c = .ok s₁ ∧ SameData s s₁ ∧ DLists s₁.links s₁.heads lists₁ ∧
      lists₁ none = lists none ∧ (∀ i, c ∉ lists₁ i) ∧
      (∀ d, d ≠ c → ∀ i, d ∈ lists₁ i ↔ d ∈ lists i) ∧ KeepsBehind lists lists₁ c := by
  simp only [CntxtPool.unhash]
  cases hc : (s.cntxt c).hashed with
  | false =>
    have hout : ∀ i, c ∉ lists i := by
      intro i
      cases i with
      | none => exact hfree
      | some b =>
        rw [hmem, hc]
        simp
    exact ⟨_, lists, rfl, ⟨rfl, rfl, rfl, rfl⟩, hlinked.clear hout, rfl, hout, fun _ _ _ => Iff.rfl,
      .refl lists c⟩
  | true =>
    obtain ⟨l₁, l₂, hsplit⟩ := List.append_of_mem ((hmem _).mpr ⟨hc, rfl⟩)
    obtain ⟨s₁, hdelete, hsame, hlists⟩ := deleteHash_lists hlinked hsplit
    have hout := not_mem_deleted hlinked hsplit
    rw [if_pos rfl, hdelete]
    refine ⟨_, _, rfl, ⟨hsame.cntxt, hsame.nfree, hsame.nalloc, hsame.usrId⟩, hlists.clear hout,
      Function.update_of_ne (by simp) _ _, hout, ?_, ?_⟩
    · intro d hd i
      by_cases hi : i = some (cntxtBucket (s.cntxt c).lid)
      · rw [hi, Function.update_self, hsplit]
        simp [hd]
      · rw [Function.update_of_ne hi]
    · intro b m₁ m₂ hb
      have hbucket : b = cntxtBucket (s.cntxt c).lid := ((hmem b).mp (by simp [hb])).2
      have hchain := hlinked.dlinked (some b)
      rw [hb] at hchain
      obtain ⟨hc₁, hc₂⟩ := not_or.mp (List.mem_append.not.mp hchain.not_mem_of_split)
      rw [hbucket, hsplit] at hb
      rw [hbucket, Function.update_self]
      exact ⟨l₁, by rw [((List.append_cons_inj_of_notMem hc₁ hc₂).mp hb.symm).2.2]⟩

theorem findHashed_lists (hlinked : DLists s.links s.heads lists) (mad : CntxtMad)
    (hfound : s.findHashed mad = some c) :
    (s.cntxt c).lid = mad.slid ∧ (s.cntxt c).tid = mad.tid ∧
      ∃ l₁ l₂, lists (some (cntxtBucket mad.slid)) = l₁ ++ c :: l₂ := by
  have hchain := hlinked.dlinked (some (cntxtBucket mad.slid))
  have hlen : (lists (some (cntxtBucket mad.slid))).length < n + 1 := by
    have hcard := hchain.nodup.length_le_card
    rw [Fintype.card_fin] at hcard
    omega
  unfold findHashed at hfound
  rw [← findLink_snd _ _ _ none] at hfound
  rcases findLink_eq (fun c => (s.cntxt c).lid = mad.slid && (s.cntxt c).tid = mad.tid) none
    hchain.linked hlen with ⟨hnone, -⟩ | ⟨l₁, a, l₂, hsplit, htest, -, hlink⟩
  · rw [show s.hash (cntxtBucket mad.slid) = s.heads (some (cntxtBucket mad.slid)) from rfl, hnone]
      at hfound
    cases hfound
  · rw [show s.hash (cntxtBucket mad.slid) = s.heads (some (cntxtBucket mad.slid)) from rfl, hlink]
      at hfound
    cases hfound
    rw [Bool.and_eq_true, decide_eq_true_eq, decide_eq_true_eq] at htest
    exact ⟨htest.1, htest.2, l₁, l₂, hsplit⟩

/-! ### Walks along the chains -/

section

variable {limits : SendLimits} {now : BitVec 64} {sends : Fin n → Nat}
  {J : CntxtPool n → (PoolIndex → List (Fin n)) → Prop}

theorem ageChain_invariant (hlinked : ∀ s lists, J s lists → DLists s.links s.heads lists)
    (hage : ∀ s lists b l₁ c l₂, J s lists → lists (some b) = l₁ ++ c :: l₂ →
      s.ageCntxt limits now (sends c) b c = .error .deadlock ∨
        ∃ s' lists' l₁', s.ageCntxt limits now (sends c) b c = .ok s' ∧ J s' lists' ∧
          lists' (some b) = l₁' ++ l₂)
    {fuel : Nat} {s : CntxtPool n} {lists : PoolIndex → List (Fin n)} {l₁ : List (Fin n)}
    (h : J s lists) (hb : lists (some b) = l₁ ++ l₂) (hfuel : l₂.length ≤ fuel) :
    s.ageChain limits now sends b fuel l₂.head? = .error .deadlock ∨
      ∃ s' lists', s.ageChain limits now sends b fuel l₂.head? = .ok s' ∧ J s' lists' := by
  induction l₂ generalizing fuel s lists l₁ with
  | nil =>
    refine .inr ⟨s, lists, ?_, h⟩
    cases fuel <;> rfl
  | cons c l₂ ih =>
    cases fuel with
    | zero => cases hfuel
    | succ fuel =>
      have hnext : s.links.next c = l₂.head? := by
        have hchain := (hlinked s lists h).dlinked (some b)
        rw [hb] at hchain
        exact hchain.linked.next_eq
      replace hfuel : l₂.length ≤ fuel := Nat.le_of_succ_le_succ hfuel
      rw [List.head?_cons, CntxtPool.ageChain]
      simp only [hnext]
      split
      · rcases hage s lists b l₁ c l₂ h hb with hlock | ⟨s', lists', l₁', hstep, hinv, hl⟩
        · exact .inl (by simp only [Bind.bind, Except.bind, hlock])
        · simp only [Bind.bind, Except.bind, hstep]
          exact ih hinv hl hfuel
      · have hsplit : lists (some b) = (l₁ ++ [c]) ++ l₂ := by simpa using hb
        exact ih h hsplit hfuel

theorem age_invariant (hlinked : ∀ s lists, J s lists → DLists s.links s.heads lists)
    (hage : ∀ s lists b l₁ c l₂, J s lists → lists (some b) = l₁ ++ c :: l₂ →
      s.ageCntxt limits now (sends c) b c = .error .deadlock ∨
        ∃ s' lists' l₁', s.ageCntxt limits now (sends c) b c = .ok s' ∧ J s' lists' ∧
          lists' (some b) = l₁' ++ l₂)
    (h : J s lists) :
    s.rmppCntxtAge limits now sends = .error .deadlock ∨
      ∃ s' lists', s.rmppCntxtAge limits now sends = .ok s' ∧ J s' lists' := by
  unfold rmppCntxtAge
  generalize List.finRange rmppCntxtHashTableDepth = buckets
  induction buckets generalizing s lists with
  | nil => exact .inr ⟨s, lists, rfl, h⟩
  | cons b buckets ih =>
    have hchain := (hlinked s lists h).dlinked (some b)
    have hlen : (lists (some b)).length ≤ n := by
      simpa using hchain.nodup.length_le_card
    have hhead : s.hash b = (lists (some b)).head? := hchain.head
    rw [List.foldlM_cons, hhead]
    have hfront : lists (some b) = [] ++ lists (some b) := rfl
    rcases ageChain_invariant hlinked hage h hfront hlen with hlock | ⟨s', lists', hstep, hinv⟩
    · exact .inl (by simp only [Bind.bind, Except.bind, hlock])
    · simp only [Bind.bind, Except.bind, hstep]
      exact ih hinv

end

namespace Inv

theorem mem_free_iff (h : Inv s lists) (c : Fin n) : c ∈ lists none ↔ (s.cntxt c).ref = 0 := by
  rw [h.mem]
  exact RmppCntxt.home_eq_free_iff

theorem mem_chain_iff (h : Inv s lists) (c : Fin n) (b : Fin rmppCntxtHashTableDepth) :
    c ∈ lists (some b) ↔ (s.cntxt c).hashed = true ∧ b = cntxtBucket (s.cntxt c).lid := by
  rw [h.mem]
  exact (h.wellFormed c).home_eq_chain_iff b

theorem length_lt (h : Inv s lists) (hc : c ∉ lists none) : (lists none).length < n := by
  have hnodup : (c :: lists none).Nodup := List.nodup_cons.mpr ⟨hc, (h.linked.dlinked none).nodup⟩
  have hlen := hnodup.length_le_card
  rw [List.length_cons, Fintype.card_fin] at hlen
  exact hlen

theorem of_same (h : Inv s lists) (hsame : SameData s s') (hlists : DLists s'.links s'.heads lists')
    (hmem : ∀ c i, c ∈ lists' i ↔ c ∈ lists i) (hfree : lists' none = lists none) : Inv s' lists' where
  linked := hlists
  mem := by
    intro c i
    rw [hmem, h.mem, hsame.cntxt]
  wellFormed := by
    rw [hsame.cntxt]
    exact h.wellFormed
  nfree := by rw [hsame.nfree, hfree, h.nfree]
  total := by
    rw [hsame.nalloc, hfree]
    exact h.total
  unique := by
    rw [hsame.cntxt]
    exact h.unique

theorem of_update (h : Inv s lists) (hcntxt : s'.cntxt = Function.update s.cntxt c x)
    (hx : x.WellFormed) (hlists : DLists s'.links s'.heads lists')
    (hmem : ∀ d, d ≠ c → ∀ i, d ∈ lists' i ↔ d ∈ lists i) (hhome : ∀ i, c ∈ lists' i ↔ x.home = some i)
    (hnfree : s'.nfree = (lists' none).length) (htotal : s'.nalloc + (lists' none).length = n)
    (hkey : x.hashed = true → ∀ d, d ≠ c → (s.cntxt d).hashed = true →
      x.lid = (s.cntxt d).lid → x.tid ≠ (s.cntxt d).tid) :
    Inv s' lists' := by
  have hself : s'.cntxt c = x := by rw [hcntxt, Function.update_self]
  have hother : ∀ d, d ≠ c → s'.cntxt d = s.cntxt d := by
    intro d hd
    rw [hcntxt, Function.update_of_ne hd]
  refine ⟨hlists, ?_, ?_, hnfree, htotal, ?_⟩
  · intro d i
    by_cases hd : d = c
    · rw [hd, hself]
      exact hhome i
    · rw [hother d hd, ← h.mem]
      exact hmem d hd i
  · intro d
    by_cases hd : d = c
    · rw [hd, hself]
      exact hx
    · rw [hother d hd]
      exact h.wellFormed d
  · intro d e hd he hlid htid
    by_cases hdc : d = c
    · by_cases hec : e = c
      · rw [hdc, hec]
      · rw [hdc, hself] at hd hlid htid
        rw [hother e hec] at he hlid htid
        exact absurd htid (hkey hd e hec he hlid)
    · by_cases hec : e = c
      · rw [hec, hself] at he hlid htid
        rw [hother d hdc] at hd hlid htid
        exact absurd htid.symm (hkey he d hdc hd hlid.symm)
      · rw [hother d hdc] at hd hlid htid
        rw [hother e hec] at he hlid htid
        exact h.unique d e hd he hlid htid

theorem setCntxt (h : Inv s lists) (hx : x.WellFormed) (hhome : x.home = (s.cntxt c).home)
    (hkey : x.hashed = true →
      (s.cntxt c).hashed = true ∧ x.lid = (s.cntxt c).lid ∧ x.tid = (s.cntxt c).tid) :
    Inv (s.setCntxt c x) lists := by
  have hcntxt : (s.setCntxt c x).cntxt = Function.update s.cntxt c x := rfl
  apply h.of_update hcntxt hx h.linked (fun _ _ _ => Iff.rfl) _ h.nfree h.total
  · intro hhashed d hd hdhashed hlid htid
    obtain ⟨hc, hclid, hctid⟩ := hkey hhashed
    exact hd (h.unique d c hdhashed hc (by rw [← hlid, hclid]) (by rw [← htid, hctid]))
  · intro i
    rw [h.mem, hhome]

theorem setCntxt_ref (h : Inv s lists) (hinfo : x.info = (s.cntxt c).info)
    (hhashed : x.hashed = (s.cntxt c).hashed) (hlid : x.lid = (s.cntxt c).lid)
    (htid : x.tid = (s.cntxt c).tid) (href : x.ref = 0 ↔ (s.cntxt c).ref = 0) :
    Inv (s.setCntxt c x) lists := by
  have hwf := h.wellFormed c
  apply h.setCntxt
  · constructor
    · rw [hinfo, hwf.info_iff, ne_eq, ne_eq, href]
    · rw [hhashed, ne_eq, href]
      exact hwf.hashed
  · unfold RmppCntxt.home
    rw [hhashed, hlid]
    exact if_congr href rfl rfl
  · intro hx
    rw [hhashed] at hx
    exact ⟨hx, hlid, htid⟩

theorem moveToHead (h : Inv s lists) (hb : lists (some b) = l₁ ++ c :: l₂) :
    ∃ s', s.moveToHead b c = .ok s' ∧ SameData s s' ∧
      Inv s' (Function.update lists (some b) (c :: (l₁ ++ l₂))) := by
  obtain ⟨s', hmove, hsame, hlists⟩ := moveToHead_lists h.linked hb
  refine ⟨s', hmove, hsame, h.of_same hsame hlists ?_ ?_⟩
  · intro d i
    by_cases hi : i = some b
    · subst hi
      rw [Function.update_self, hb]
      exact List.perm_middle.symm.mem_iff
    · rw [Function.update_of_ne hi]
  · exact Function.update_of_ne (by simp) _ _

/-! ### Releasing -/

theorem retire (h : Inv s lists) (hc : c ∉ lists none)
    (hcntxt : s'.cntxt = Function.update s.cntxt c x) (hx : x.info = true)
    (hnfree : s'.nfree = s.nfree) (hnalloc : s'.nalloc = s.nalloc)
    (hlists : DLists s'.links s'.heads lists') (hfree : lists' none = lists none)
    (hout : ∀ i, c ∉ lists' i) (hmem : ∀ d, d ≠ c → ∀ i, d ∈ lists' i ↔ d ∈ lists i) :
    Inv (s'.retire c) (Function.update lists' none (c :: lists' none)) := by
  have hlen := h.length_lt hc
  have htotal := h.total
  have hinfo : (s'.cntxt c).info = true := by
    rw [hcntxt, Function.update_self]
    exact hx
  have hroom : s'.nfree < n := by
    rw [hnfree, h.nfree]
    exact hlen
  have hpos : s'.nalloc ≠ 0 := by omega
  obtain ⟨hdata, hfree', halloc', hlinks, hheads⟩ := retire_data hinfo hroom hpos
  rw [hcntxt, Function.update_self, Function.update_idem] at hdata
  apply h.of_update hdata
  · exact ⟨by simp [RmppCntxt.reset], by simp [RmppCntxt.reset]⟩
  · rw [hlinks, hheads]
    exact insertFree_lists hlists hout
  · intro d hd i
    rw [← hmem d hd]
    cases i with
    | none => simp [hd]
    | some b => simp
  · intro i
    cases i with
    | none => simp [RmppCntxt.home, RmppCntxt.reset]
    | some b => simpa [RmppCntxt.home, RmppCntxt.reset] using hout (some b)
  · rw [Function.update_self, List.length_cons, hfree', hnfree, h.nfree, hfree]
  · rw [Function.update_self, List.length_cons, hfree]
    omega
  · intro hhashed
    cases hhashed

theorem not_mem_free (h : Inv s lists) (href : (s.cntxt c).ref ≠ 0) : c ∉ lists none :=
  fun hc => href ((h.mem_free_iff c).mp hc)

theorem unhash (h : Inv s lists) (hfree : c ∉ lists none)
    (hcntxt : s'.cntxt = Function.update s.cntxt c x) (hhashed : x.hashed = (s.cntxt c).hashed)
    (hlid : x.lid = (s.cntxt c).lid) (hlinked : DLists s'.links s'.heads lists) :
    ∃ s₁ lists₁, s'.unhash c = .ok s₁ ∧ SameData s' s₁ ∧ DLists s₁.links s₁.heads lists₁ ∧
      lists₁ none = lists none ∧ (∀ i, c ∉ lists₁ i) ∧
      (∀ d, d ≠ c → ∀ i, d ∈ lists₁ i ↔ d ∈ lists i) ∧ KeepsBehind lists lists₁ c := by
  apply unhash_lists hfree _ hlinked
  intro b
  rw [h.mem_chain_iff, hcntxt, Function.update_self, hhashed, hlid]

theorem dropRef (h : Inv s lists) (c : Fin n) :
    ∃ s' lists', s.dropRef c = .ok s' ∧ Inv s' lists' ∧ KeepsBehind lists lists' c := by
  unfold CntxtPool.dropRef
  by_cases href : (s.cntxt c).ref = 0
  · rw [if_pos href]
    exact ⟨s, lists, rfl, h, .refl lists c⟩
  rw [if_neg href]
  by_cases hlast : (s.cntxt c).ref - 1 = 0
  · have hfree : c ∉ lists none := h.not_mem_free href
    have hinfo : (s.cntxt c).info = true := (h.wellFormed c).info_iff.mpr href
    have hcntxt : (s.setCntxt c { s.cntxt c with ref := (s.cntxt c).ref - 1 }).cntxt =
        Function.update s.cntxt c { s.cntxt c with ref := (s.cntxt c).ref - 1 } := rfl
    obtain ⟨s₁, lists₁, hunhash, hsame, hlists, hnone, hout, hmem, hbehind⟩ :=
      h.unhash hfree hcntxt rfl rfl h.linked
    refine ⟨s₁.retire c, Function.update lists₁ none (c :: lists₁ none), ?_, ?_, ?_⟩
    · rw [if_pos hlast, hunhash]
      rfl
    · exact h.retire hfree (hsame.cntxt.trans hcntxt) hinfo hsame.nfree hsame.nalloc hlists hnone
        hout hmem
    · intro b m₁ m₂ hb
      rw [Function.update_of_ne (by simp)]
      exact hbehind b m₁ m₂ hb
  · refine ⟨_, lists, if_neg hlast, ?_, .refl lists c⟩
    exact h.setCntxt_ref rfl rfl rfl rfl (iff_of_false hlast href)

theorem release (h : Inv s lists) (c : Option (Fin n)) :
    ∃ s' r lists', s.rmppCntxtRelease c = .ok (s', r) ∧ Inv s' lists' := by
  cases c with
  | none => exact ⟨s, false, lists, rfl, h⟩
  | some c =>
    simp only [rmppCntxtRelease]
    split
    next => exact ⟨s, true, lists, rfl, h⟩
    next =>
      split
      next => exact ⟨s, false, lists, rfl, h⟩
      next =>
        obtain ⟨s', lists', hdrop, hinv, -⟩ := h.dropRef c
        rw [hdrop]
        exact ⟨s', true, lists', rfl, hinv⟩

theorem fullRelease (h : Inv s lists) (c : Option (Fin n)) :
    ∃ s' r lists', s.rmppCntxtFullRelease c = .ok (s', r) ∧ Inv s' lists' := by
  cases c with
  | none => exact ⟨s, false, lists, rfl, h⟩
  | some c =>
    simp only [rmppCntxtFullRelease]
    split
    next => exact ⟨s, true, lists, rfl, h⟩
    next =>
      split
      next => exact ⟨s, false, lists, rfl, h⟩
      next =>
        split
        next href =>
          have hne : (s.cntxt c).ref ≠ 0 := by
            rintro heq
            rw [heq] at href
            exact absurd href (by decide)
          have hone : (1 : BitVec 32) ≠ 0 := by decide
          obtain ⟨s', r, lists', hrel, hinv⟩ :=
            (h.setCntxt_ref (c := c) (x := { s.cntxt c with ref := 1 }) rfl rfl rfl rfl
              (iff_of_false hone hne)).release (some c)
          rw [hrel]
          exact ⟨s', true, lists', rfl, hinv⟩
        next =>
          obtain ⟨s', r, lists', hrel, hinv⟩ := h.release (some c)
          rw [hrel]
          exact ⟨s', true, lists', rfl, hinv⟩

/-! ### Reserving and finding -/

theorem reserve (h : Inv s lists) (now : BitVec 64) (c : Option (Fin n))
    (hroom : ∀ d ∈ c, (s.cntxt d).info = true → (s.cntxt d).ref + 1 ≠ 0)
    (hnew : ∀ d ∈ c, (s.cntxt d).info = true → (s.cntxt d).hashed = false →
      ∀ e, (s.cntxt e).hashed = true → (s.cntxt e).lid = (s.cntxt d).lid →
        (s.cntxt e).tid ≠ (s.cntxt d).tid) :
    ∃ lists', Inv (s.rmppCntxtReserve now c).1 lists' := by
  cases c with
  | none => exact ⟨lists, h⟩
  | some c =>
    simp only [rmppCntxtReserve]
    split
    next => exact ⟨lists, h⟩
    next hinfo =>
      replace hinfo : (s.cntxt c).info = true := by simpa using hinfo
      have href : (s.cntxt c).ref ≠ 0 := (h.wellFormed c).info_iff.mp hinfo
      have href' : (s.cntxt c).ref + 1 ≠ 0 := hroom c rfl hinfo
      split
      next hhashed =>
        replace hhashed : (s.cntxt c).hashed = false := by simpa using hhashed
        have hout : ∀ i, c ∉ lists i := by
          intro i
          cases i with
          | none => exact h.not_mem_free href
          | some b =>
            rw [h.mem_chain_iff, hhashed]
            simp
        refine ⟨_, h.of_update (c := c) rfl ?_ (insertHash_lists h.linked hout) ?_ ?_ ?_ ?_ ?_⟩
        · exact ⟨iff_of_true hinfo href', fun _ => href'⟩
        · intro d hd i
          by_cases hi : i = some (cntxtBucket (s.cntxt c).lid)
          · subst hi
            simp [hd]
          · rw [Function.update_of_ne hi]
        · intro i
          rw [RmppCntxt.home_of_hashed href' rfl]
          by_cases hi : i = some (cntxtBucket (s.cntxt c).lid)
          · rw [hi, Function.update_self]
            exact iff_of_true List.mem_cons_self rfl
          · rw [Function.update_of_ne hi]
            exact iff_of_false (hout i) fun heq => hi (Option.some.inj heq).symm
        · rw [Function.update_of_ne (by simp)]
          exact h.nfree
        · rw [Function.update_of_ne (by simp)]
          exact h.total
        · intro _ d _ hd hlid htid
          exact hnew c rfl hinfo hhashed d hd hlid.symm htid.symm
      next =>
        exact ⟨lists, h.setCntxt_ref rfl rfl rfl rfl (iff_of_false href' href)⟩

theorem findHashed_eq (h : Inv s lists) (mad : CntxtMad) (hfound : s.findHashed mad = some c) :
    (s.cntxt c).hashed = true ∧ (s.cntxt c).lid = mad.slid ∧ (s.cntxt c).tid = mad.tid ∧
      ∃ l₁ l₂, lists (some (cntxtBucket mad.slid)) = l₁ ++ c :: l₂ := by
  obtain ⟨hlid, htid, l₁, l₂, hsplit⟩ := findHashed_lists h.linked mad hfound
  exact ⟨((h.mem_chain_iff c (cntxtBucket mad.slid)).mp (by simp [hsplit])).1, hlid, htid, l₁, l₂,
    hsplit⟩

theorem touch_eq (h : Inv s lists) (hb : lists (some b) = l₁ ++ c :: l₂) (now : BitVec 64) :
    ∃ s₁ lists', SameData s s₁ ∧ Inv s₁ lists' ∧
      s.touch b now c =
        .ok (s₁.setCntxt c { s₁.cntxt c with tstamp := now, ref := (s₁.cntxt c).ref + 1 }) := by
  obtain ⟨s₁, hmove, hsame, hinv⟩ := h.moveToHead hb
  refine ⟨s₁, _, hsame, hinv, ?_⟩
  unfold CntxtPool.touch
  rw [hmove]
  rfl

theorem touch (h : Inv s lists) (hb : lists (some b) = l₁ ++ c :: l₂) (now : BitVec 64)
    (hroom : (s.cntxt c).ref + 1 ≠ 0) : ∃ s' lists', s.touch b now c = .ok s' ∧ Inv s' lists' := by
  have hhashed : (s.cntxt c).hashed = true := ((h.mem_chain_iff c b).mp (by simp [hb])).1
  have href : (s.cntxt c).ref ≠ 0 := (h.wellFormed c).hashed hhashed
  obtain ⟨s₁, lists', hsame, hinv, htouch⟩ := h.touch_eq hb now
  refine ⟨_, lists', htouch, hinv.setCntxt_ref rfl rfl rfl rfl ?_⟩
  rw [hsame.cntxt]
  exact iff_of_false hroom href

theorem find (h : Inv s lists) (now : BitVec 64) (mad : CntxtMad)
    (hroom : ∀ c, s.findHashed mad = some c → (s.cntxt c).ref + 1 ≠ 0) :
    ∃ s' r lists', s.rmppCntxtFind now mad = .ok (s', r) ∧ Inv s' lists' := by
  unfold rmppCntxtFind
  cases hfound : s.findHashed mad with
  | none => exact ⟨s, none, lists, rfl, h⟩
  | some c =>
    simp only
    obtain ⟨-, -, -, l₁, l₂, hsplit⟩ := h.findHashed_eq mad hfound
    obtain ⟨s', lists', htouch, hinv⟩ := h.touch hsplit now (hroom c hfound)
    exact ⟨s', some c, lists', by rw [htouch]; rfl, hinv⟩

theorem allocate (h : Inv s lists) (hfree : s.freeList = some c) :
    ∃ s₁ lists', s.deleteFree c = .ok s₁ ∧
      ∀ x : RmppCntxt, x.ref ≠ 0 → x.info = true →
        x.hashed = (((s₁.incrNalloc).decrNfree).cntxt c).hashed →
        Inv (((s₁.incrNalloc).decrNfree).setCntxt c x) lists' := by
  obtain ⟨l, hl⟩ : ∃ l, lists none = c :: l := by
    have hhead := (h.linked.dlinked none).head
    rw [show s.heads none = s.freeList from rfl, hfree] at hhead
    exact List.head?_eq_some_iff.mp hhead.symm
  have hmem : c ∈ lists none := by simp [hl]
  have hc : (s.cntxt c).hashed = false := by
    apply Bool.eq_false_iff.mpr
    intro hc
    exact (h.wellFormed c).hashed hc ((h.mem_free_iff c).mp hmem)
  have htotal := h.total
  have hnfree := h.nfree
  rw [hl, List.length_cons] at htotal hnfree
  have hfront : lists none = [] ++ c :: l := hl
  obtain ⟨s₁, hdelete, hsame, hlists⟩ := deleteFree_lists h.linked hfront
  have halloc : s₁.nalloc < n := by
    rw [hsame.nalloc]
    omega
  have hpos : s₁.nfree ≠ 0 := by
    rw [hsame.nfree]
    omega
  have hcount : ((s₁.incrNalloc).decrNfree) = { s₁ with nalloc := s₁.nalloc + 1, nfree := s₁.nfree - 1 } := by
    simp [incrNalloc, decrNfree, halloc, hpos]
  rw [List.nil_append] at hlists
  refine ⟨s₁, Function.update lists none l, hdelete, fun x hx hinfo hhashed => ?_⟩
  rw [hcount] at hhashed ⊢
  rw [show s₁.cntxt c = s.cntxt c by rw [hsame.cntxt], hc] at hhashed
  apply h.of_update (c := c) (x := x)
  · rw [← hsame.cntxt]
    rfl
  · exact ⟨iff_of_true hinfo hx, fun _ => hx⟩
  · have hheads : heads (({ s₁ with nalloc := s₁.nalloc + 1, nfree := s₁.nfree - 1 }).setCntxt c x) =
        s₁.heads := by
      ext1 i
      cases i <;> rfl
    rw [hheads]
    exact hlists
  · intro d hd i
    by_cases hi : i = none
    · subst hi
      rw [Function.update_self, hl]
      simp [hd]
    · rw [Function.update_of_ne hi]
  · intro i
    have hhome : x.home = none := RmppCntxt.home_of_unhashed hx hhashed
    rw [hhome]
    simp only [reduceCtorEq, iff_false]
    by_cases hi : i = none
    · subst hi
      rw [Function.update_self]
      have hnodup := (h.linked.dlinked none).nodup
      rw [hl] at hnodup
      exact (List.nodup_cons.mp hnodup).1
    · rw [Function.update_of_ne hi]
      exact fun hin => hi (h.linked.apart hin hmem)
  · rw [Function.update_self]
    simp only [CntxtPool.setCntxt, hsame.nfree, hnfree]
    rfl
  · rw [Function.update_self]
    simp only [CntxtPool.setCntxt, hsame.nalloc]
    omega
  · intro hxh
    rw [hhashed] at hxh
    cases hxh

theorem get (h : Inv s lists) (now : BitVec 64) (mad : CntxtMad)
    (hroom : ∀ c, s.findHashed mad = some c → s.getMultiInProg c = true → (s.cntxt c).ref + 1 ≠ 0) :
    ∃ s' r lists', s.cntxtGet now mad = .ok (s', r) ∧ Inv s' lists' := by
  unfold cntxtGet
  cases hfound : s.findHashed mad with
  | some c =>
    simp only
    split
    next hmulti =>
      obtain ⟨-, -, -, l₁, l₂, hsplit⟩ := h.findHashed_eq mad hfound
      obtain ⟨s', lists', htouch, hinv⟩ := h.touch hsplit now (hroom c hfound hmulti)
      exact ⟨s', _, lists', by rw [htouch]; rfl, hinv⟩
    next => exact ⟨s, _, lists, rfl, h⟩
  | none =>
    simp only
    cases hfree : s.freeList with
    | none => exact ⟨s, _, lists, rfl, h⟩
    | some c =>
      obtain ⟨s₁, lists', hdelete, hinv⟩ := h.allocate hfree
      have hone : (1 : BitVec 32) ≠ 0 := by decide
      simp only [hdelete]
      exact ⟨_, _, lists', rfl, hinv _ hone rfl rfl⟩

/-! ### Aging -/

theorem sendMultiLocked_eq (limits : SendLimits) (sends : Nat) (x : RmppCntxt) :
    sendMultiLocked limits sends x = .error .deadlock ∨
      ∃ xfer, sendMultiLocked limits sends x = .ok { x with xfer := xfer } := by
  simp only [sendMultiLocked]
  split
  · exact .inl rfl
  · split
    · exact .inl rfl
    · exact .inr ⟨_, rfl⟩

theorem sendTimeout_eq (limits : SendLimits) (sends : Nat) (x : RmppCntxt) :
    sendTimeout limits sends x = .error .deadlock ∨
      ∃ xfer, sendTimeout limits sends x = .ok { x with xfer := xfer } := by
  unfold sendTimeout
  split
  · exact .inr ⟨x.xfer, rfl⟩
  · split
    · split
      · exact sendMultiLocked_eq limits sends { x with xfer := { x.xfer with len := 0 } }
      · exact sendMultiLocked_eq limits sends x
    · split
      · exact .inr ⟨_, rfl⟩
      · exact .inr ⟨x.xfer, rfl⟩

theorem ageCntxt (h : Inv s lists) (limits : SendLimits) (now : BitVec 64) (sends : Nat)
    (hb : lists (some b) = l₁ ++ c :: l₂) :
    s.ageCntxt limits now sends b c = .error .deadlock ∨
      ∃ s' lists' l₁', s.ageCntxt limits now sends b c = .ok s' ∧ Inv s' lists' ∧
        lists' (some b) = l₁' ++ l₂ := by
  obtain ⟨s₁, hmove, hsame, hinv⟩ := h.moveToHead hb
  unfold CntxtPool.ageCntxt
  rw [hmove]
  rcases sendTimeout_eq limits sends { s₁.cntxt c with tstamp := now } with hlock | ⟨xfer, hsend⟩
  · exact .inl (by simp only [Bind.bind, Except.bind, hlock])
  · right
    simp only [Bind.bind, Except.bind, hsend]
    have hset := hinv.setCntxt_ref (c := c) (x := { s₁.cntxt c with tstamp := now, xfer := xfer })
      rfl rfl rfl rfl Iff.rfl
    have hlist : Function.update lists (some b) (c :: (l₁ ++ l₂)) (some b) = [] ++ c :: (l₁ ++ l₂) := by
      simp
    split
    · unfold rmppLclCntxtRelease
      split
      · exact ⟨_, _, c :: l₁, rfl, hset, by simp⟩
      · obtain ⟨s', lists', hdrop, hinv', hbehind⟩ := hset.dropRef c
        obtain ⟨l₁', hl⟩ := hbehind b [] (l₁ ++ l₂) hlist
        exact ⟨s', lists', l₁' ++ l₁, hdrop, hinv', by rw [hl, List.append_assoc]⟩
    · exact ⟨_, _, c :: l₁, rfl, hset, by simp⟩

theorem age (h : Inv s lists) (limits : SendLimits) (now : BitVec 64) (sends : Fin n → Nat) :
    s.rmppCntxtAge limits now sends = .error .deadlock ∨
      ∃ s' lists', s.rmppCntxtAge limits now sends = .ok s' ∧ Inv s' lists' :=
  age_invariant (fun _ _ h => h.linked)
    (fun _ _ _ _ c _ h hb => h.ageCntxt limits now (sends c) hb) h

theorem init (n usrId : Nat) :
    Inv (CntxtPool.init n usrId) (Function.update (fun _ => []) none (List.finRange n).reverse) := by
  obtain ⟨hsame, hlists⟩ := init_lists n usrId
  have hzero : ∀ c, (CntxtPool.init n usrId).cntxt c = .zero := by
    intro c
    rw [hsame.cntxt]
    rfl
  refine ⟨hlists, ?_, ?_, ?_, ?_, ?_⟩
  · intro c i
    rw [hzero]
    cases i <;> simp [RmppCntxt.home, RmppCntxt.zero]
  · intro c
    rw [hzero]
    exact ⟨by simp [RmppCntxt.zero], by simp [RmppCntxt.zero]⟩
  · rw [hsame.nfree, Function.update_self, List.length_reverse, List.length_finRange]
    rfl
  · rw [hsame.nalloc, Function.update_self, List.length_reverse, List.length_finRange]
    exact Nat.zero_add n
  · intro c d hc
    rw [hzero] at hc
    cases hc

end Inv

end CntxtPool

end OpaFm.Rmpp
