import OpaFm.Cs.Proofs.Hashtable
import OpaFm.Lib.AssocMap

/-!
# Removing entries of a hash table

An entry is taken out of its chain, which is found by following the chain, and out of
the list, where its neighbours are known.
-/

namespace OpaFm.Cs.CsHashtable

open OpaFm.Lib

variable {K V : Type} {fns : HashFns K} {t : CsHashtable K V} {order frees l m : List Nat} {e : Nat}

theorem Lists.order_nodup (h : t.Lists order frees) : order.Nodup := h.nodup.of_append_left

theorem notMem_of_nodup_middle (h : (l ++ e :: m).Nodup) : e ∉ l ++ m :=
  (List.nodup_cons.mp (List.nodup_middle.mp h)).1

theorem Lists.delete (h : t.Lists (l ++ e :: m) frees) :
    (t.csHashentryDelete e).Lists (l ++ m) (e :: frees) := by
  have hnodup := h.order_nodup
  have hout := notMem_of_nodup_middle hnodup
  have hrev : (l ++ e :: m).reverse = m.reverse ++ e :: l.reverse := by simp
  have hback := h.back
  rw [hrev] at hback
  have hbacknodup : (m.reverse ++ e :: l.reverse).Nodup := hrev ▸ List.nodup_reverse.mpr hnodup
  have hprev : t.listPrev e = l.getLast? := by
    rw [hback.next_eq, List.head?_reverse]
  have hnext : t.listNext e = m.reverse.getLast? := by
    rw [h.listing.next_eq, List.getLast?_reverse]
  -- the neighbours are in the list, so they are not in the free list
  have hapart : ∀ b ∈ l.getLast?, b ∉ frees := by
    intro b hb hfree
    have hin : b ∈ l ++ e :: m := List.mem_append_left _ (List.mem_of_getLast? hb)
    exact (List.nodup_append.mp h.nodup).2.2 b hin b hfree rfl
  have hefree : e ∉ frees := by
    intro hfree
    have hin : e ∈ l ++ e :: m := List.mem_append_right _ List.mem_cons_self
    exact (List.nodup_append.mp h.nodup).2.2 e hin e hfree rfl
  have hperm : (l ++ m ++ e :: frees).Perm (l ++ e :: m ++ frees) := by
    rw [List.append_assoc, List.append_assoc]
    exact List.Perm.append_left l List.perm_middle
  unfold csHashentryDelete
  refine ⟨?_, ?_, ?_, hperm.nodup_iff.mpr h.nodup, fun b hb => h.allocated b (hperm.mem_iff.mp hb)⟩
  · show Linked (Function.update ((t.listPrev e).elim _ _) e _) (if t.listHead = some e then _ else _) _
    rw [← unlink_eq, hprev, ← h.listing.unlinkHead_eq hnodup]
    exact (h.listing.unlink hnodup).update hout _
  · show Linked ((t.listNext e).elim _ _) (if t.listTail = some e then _ else _) _
    rw [← unlink_eq, hnext, ← hback.unlinkHead_eq hbacknodup, List.reverse_append]
    exact hback.unlink hbacknodup
  · show Linked (Function.update ((t.listPrev e).elim _ _) e _) (some e) _
    rw [← unlink_eq, hprev]
    exact (h.free.unlink_other e hapart).push hefree

def above (t : CsHashtable K V) (e : Nat) (m : List Nat) : List Nat :=
  (m.filter (t.bucketOf · = t.bucketOf e)).reverse

theorem chain_split (t : CsHashtable K V) (l m : List Nat) (e : Nat) :
    ((l ++ e :: m).filter (t.bucketOf · = t.bucketOf e)).reverse =
      t.above e m ++ e :: (l.filter (t.bucketOf · = t.bucketOf e)).reverse := by
  simp [above, List.filter_append]

theorem Chained.unlink (h : t.Chained (l ++ e :: m)) (hnodup : (l ++ e :: m).Nodup) (i : Nat) :
    Linked (OpaFm.Lib.unlink t.hashNext (t.above e m).getLast? e)
      (Function.update t.table (t.bucketOf e)
        (unlinkHead t.hashNext (t.above e m).getLast? e (t.table (t.bucketOf e))) i)
      ((l ++ m).filter (t.bucketOf · = i)).reverse := by
  have hchain := h i
  by_cases hi : i = t.bucketOf e
  · subst hi
    have hfilter : ((l ++ m).filter (t.bucketOf · = t.bucketOf e)).reverse =
        t.above e m ++ (l.filter (t.bucketOf · = t.bucketOf e)).reverse := by
      rw [List.filter_append, List.reverse_append]
      rfl
    have hsub := hnodup.filter (t.bucketOf · = t.bucketOf e)
    rw [← List.nodup_reverse, chain_split] at hsub
    rw [chain_split] at hchain
    rw [Function.update_self, hfilter]
    exact hchain.unlink hsub
  · have hfilter : (l ++ m).filter (t.bucketOf · = i) = (l ++ e :: m).filter (t.bucketOf · = i) := by
      have hne : ¬t.bucketOf e = i := fun heq => hi heq.symm
      simp [List.filter_append, hne]
    rw [Function.update_of_ne hi, hfilter]
    apply hchain.unlink_other e
    -- the entry before is in the chain of the other bucket
    intro b hb hin
    have habove := List.mem_of_getLast? hb
    rw [above, List.mem_reverse, List.mem_filter, decide_eq_true_iff] at habove
    rw [List.mem_reverse, List.mem_filter, decide_eq_true_iff] at hin
    exact hi (hin.2.symm.trans habove.2)

def unchain (t : CsHashtable K V) (index : Nat) (prev : Option Nat) (e : Nat) : CsHashtable K V :=
  { t with
    hashNext := OpaFm.Lib.unlink t.hashNext prev e
    table := Function.update t.table index (unlinkHead t.hashNext prev e (t.table index)) }

theorem removeFrom_found {index : Nat} {test : Nat → Bool} {prev : Option Nat}
    (h : findLink t.hashNext test (t.allocated + 1) none (t.table index) = some (prev, e)) :
    t.removeFrom index test = ((t.unchain index prev e).csHashentryDelete e, some e) := by
  unfold removeFrom unchain
  rw [h]
  cases prev with
  | none => rfl
  | some p =>
    simp only [unlinkHead, Function.update_eq_self]
    rfl

theorem Rep.find (h : t.Rep fns order frees) (index : Nat) (test : Nat → Bool) :
    (findLink t.hashNext test (t.allocated + 1) none (t.table index) = none ∧
      ∀ b ∈ order, t.bucketOf b = index → test b = false) ∨
    ∃ l e m, order = l ++ e :: m ∧ t.bucketOf e = index ∧ test e = true ∧
      (∀ b ∈ m, t.bucketOf b = index → test b = false) ∧
      findLink t.hashNext test (t.allocated + 1) none (t.table index) =
        some ((t.above e m).getLast?, e) := by
  rcases findLink_eq test none (h.chained index) (chain_length h.lists index) with
    ⟨hnone, hall⟩ | ⟨before, e, after, hchain, he, hbefore, hfound⟩
  · refine .inl ⟨hnone, fun b hb hbucket => hall b ?_⟩
    rw [List.mem_reverse, List.mem_filter]
    exact ⟨hb, decide_eq_true hbucket⟩
  · have hin : e ∈ (order.filter (t.bucketOf · = index)).reverse :=
      hchain ▸ List.mem_append_right before List.mem_cons_self
    rw [List.mem_reverse, List.mem_filter, decide_eq_true_iff] at hin
    have hbucket := hin.2
    subst hbucket
    obtain ⟨l, m, rfl⟩ := List.append_of_mem hin.1
    -- an entry stands once in its chain
    have habove : before = t.above e m := by
      have hsub := h.lists.order_nodup.filter (t.bucketOf · = t.bucketOf e)
      rw [← List.nodup_reverse, hchain] at hsub
      have hout := notMem_of_nodup_middle hsub
      rw [List.mem_append, not_or] at hout
      rw [chain_split] at hchain
      exact ((List.append_cons_inj_of_notMem hout.1 hout.2).mp hchain.symm).1
    rw [Option.or_none, habove] at hfound
    refine .inr ⟨l, e, m, rfl, rfl, he, fun b hb hbucket => hbefore b ?_, hfound⟩
    rw [habove, above, List.mem_reverse, List.mem_filter]
    exact ⟨hb, decide_eq_true hbucket⟩

theorem Rep.delete (h : t.Rep fns (l ++ e :: m) frees) :
    ((t.unchain (t.bucketOf e) (t.above e m).getLast? e).csHashentryDelete e).Rep fns (l ++ m)
      (e :: frees) := by
  have hlists : (t.unchain (t.bucketOf e) (t.above e m).getLast? e).Lists (l ++ e :: m) frees :=
    ⟨h.lists.listing, h.lists.back, h.lists.free, h.lists.nodup, h.lists.allocated⟩
  refine ⟨⟨hlists.delete, h.chained.unlink h.lists.order_nodup, ?_⟩,
    ⟨h.sized.index, h.sized.pos⟩, ?_⟩
  · intro b hb
    apply h.filled b
    rw [List.mem_append] at hb ⊢
    exact hb.imp_right (List.mem_cons_of_mem e)
  · show dec32 t.entrycount = _
    rw [h.count, List.length_append, List.length_cons, ← Nat.add_assoc, dec32_mod, List.length_append]

/-! ## Entries with a key -/

theorem Rep.hits_eq (h : t.Rep fns order frees) (hfns : fns.Consistent) {k : K} (he : e ∈ order) :
    ∃ x, t.data e = some x ∧ t.hits fns k e = fns.eqfn k x.1 ∧
      (fns.eqfn k x.1 = true → t.bucketOf e = t.bucket fns k) := by
  obtain ⟨k', v, hk, hv, hh⟩ := h.filled e he
  refine ⟨(k', v), by simp [data, hk, hv], ?_, ?_⟩
  · unfold hits
    rw [hk, hh]
    cases heq : fns.eqfn k k' with
    | false => simp [heq]
    | true => simp [heq, hfns.hash_eq heq]
  · intro heq
    unfold bucketOf bucket
    rw [hh, hfns.hash_eq heq]

theorem Rep.findKey (h : t.Rep fns order frees) (hfns : fns.Consistent) (k : K) :
    (findLink t.hashNext (t.hits fns k) (t.allocated + 1) none (t.table (t.bucket fns k)) = none ∧
      ∀ x ∈ order.filterMap t.data, fns.eqfn k x.1 = false) ∨
    ∃ l e m x, order = l ++ e :: m ∧ t.data e = some x ∧ fns.eqfn k x.1 = true ∧
      (∀ x ∈ m.filterMap t.data, fns.eqfn k x.1 = false) ∧ t.bucketOf e = t.bucket fns k ∧
      findLink t.hashNext (t.hits fns k) (t.allocated + 1) none (t.table (t.bucket fns k)) =
        some ((t.above e m).getLast?, e) := by
  have hmiss : ∀ m ⊆ order, (∀ b ∈ m, t.bucketOf b = t.bucket fns k → t.hits fns k b = false) →
      ∀ x ∈ m.filterMap t.data, fns.eqfn k x.1 = false := by
    intro m hm hall x hx
    obtain ⟨b, hb, hbx⟩ := List.mem_filterMap.mp hx
    obtain ⟨y, hby, hhits, hbucket⟩ := h.hits_eq hfns (k := k) (hm hb)
    cases hbx.symm.trans hby
    cases heq : fns.eqfn k x.1 with
    | false => rfl
    | true =>
      rw [← heq, ← hhits]
      exact hall b hb (hbucket heq)
  rcases h.find (t.bucket fns k) (t.hits fns k) with ⟨hnone, hall⟩ | ⟨l, e, m, rfl, hb, he, hm, hfound⟩
  · exact .inl ⟨hnone, hmiss order (List.Subset.refl _) hall⟩
  · have hin : e ∈ l ++ e :: m := List.mem_append_right l List.mem_cons_self
    obtain ⟨x, hx, hhits, -⟩ := h.hits_eq hfns (k := k) hin
    refine .inr ⟨l, e, m, x, rfl, hx, hhits.symm.trans he, hmiss m ?_ hm, hb, hfound⟩
    intro b hb
    exact List.mem_append_right l (List.mem_cons_of_mem e hb)

end OpaFm.Cs.CsHashtable

/-!
## Hash tables refine ordered association lists

A table runs beside the list of the pairs that are in it, and after every call the two
agree.
-/

namespace OpaFm.Cs

open OpaFm.Lib

section

variable {K V : Type} {fns : HashFns K}

namespace CsHashtable

variable {t : CsHashtable K V} {order frees l m : List Nat} {e : Nat}

/-! ### What the calls do to the pairs -/

theorem filterMap_split {x : K × V} (hx : t.data e = some x) :
    (l ++ e :: m).filterMap t.data = l.filterMap t.data ++ x :: m.filterMap t.data := by
  rw [List.filterMap_append, List.filterMap_cons_some hx]

theorem Rep.search (h : t.Rep fns order frees) (hfns : fns.Consistent) (k : K) :
    t.csHashtableSearch fns k = latest (fns.eqfn k) (order.filterMap t.data) := by
  unfold csHashtableSearch
  rw [← findLink_snd t.hashNext (t.hits fns k) _ none]
  rcases h.findKey hfns k with ⟨hnone, habsent⟩ | ⟨l, e, m, x, rfl, hx, hkey, habsent, -, hfound⟩
  · rw [hnone, latest_absent habsent]
    rfl
  · rw [hfound, filterMap_split hx, latest_present hkey habsent]
    obtain ⟨k', v, hk, hv, -⟩ := h.filled e (List.mem_append_right l List.mem_cons_self)
    have hdata : t.data e = some (k', v) := by simp [data, hk, hv]
    cases hx.symm.trans hdata
    exact hv

theorem Rep.remove (h : t.Rep fns order frees) (hfns : fns.Consistent) (k : K) :
    ∃ order' frees', (t.csHashtableRemove fns k).1.Rep fns order' frees' ∧
      order'.filterMap (t.csHashtableRemove fns k).1.data =
        eraseLatest (fns.eqfn k) (order.filterMap t.data) ∧
      (t.csHashtableRemove fns k).2 = t.csHashtableSearch fns k := by
  have hsearch := findLink_snd t.hashNext (t.hits fns k) (t.allocated + 1) none
    (t.table (t.bucket fns k))
  unfold csHashtableRemove csHashtableSearch
  rcases h.findKey hfns k with ⟨hnone, habsent⟩ | ⟨l, e, m, x, rfl, hx, hkey, habsent, hb, hfound⟩
  · have hsame : t.removeFrom (t.bucket fns k) (t.hits fns k) = (t, none) := by
      rw [removeFrom, hnone]
    rw [hnone] at hsearch
    rw [hsame, ← hsearch]
    exact ⟨order, frees, h, (eraseLatest_absent habsent).symm, rfl⟩
  · rw [hfound] at hsearch
    rw [removeFrom_found hfound, ← hsearch, ← hb]
    refine ⟨l ++ m, e :: frees, h.delete, ?_, rfl⟩
    rw [filterMap_split hx, eraseLatest_present hkey habsent, ← List.filterMap_append]
    rfl

theorem Rep.change (h : t.Rep fns order frees) (hfns : fns.Consistent) (k : K) (v : V) :
    (t.csHashtableChange fns k v).1.Rep fns order frees ∧
      order.filterMap (t.csHashtableChange fns k v).1.data =
        setLatest (fns.eqfn k) v (order.filterMap t.data) ∧
      (t.csHashtableChange fns k v).2 = (t.csHashtableSearch fns k).isSome := by
  rw [h.search hfns]
  unfold csHashtableChange
  rw [← findLink_snd t.hashNext (t.hits fns k) _ none]
  rcases h.findKey hfns k with ⟨hnone, habsent⟩ | ⟨l, e, m, x, rfl, hx, hkey, habsent, -, hfound⟩
  · rw [hnone, latest_absent habsent]
    exact ⟨h, (setLatest_absent habsent v).symm, rfl⟩
  · rw [hfound, filterMap_split hx, latest_present hkey habsent, setLatest_present hkey habsent]
    have hin : e ∈ l ++ e :: m := List.mem_append_right l List.mem_cons_self
    have hout := notMem_of_nodup_middle h.lists.order_nodup
    rw [List.mem_append, not_or] at hout
    refine ⟨⟨⟨⟨h.lists.listing, h.lists.back, h.lists.free, h.lists.nodup, h.lists.allocated⟩,
      h.chained, ?_⟩, ⟨h.sized.index, h.sized.pos⟩, h.count⟩, ?_, rfl⟩
    · intro b hb
      obtain ⟨k', v', hk, hv, hh⟩ := h.filled b hb
      by_cases hbe : b = e
      · subst hbe
        exact ⟨k', v, hk, Function.update_self .., hh⟩
      · exact ⟨k', v', hk, (Function.update_of_ne hbe ..).trans hv, hh⟩
    · have hsame : ∀ r : List Nat, e ∉ r →
          r.filterMap ({ t with v := Function.update t.v e (some v) } : CsHashtable K V).data =
            r.filterMap t.data := by
        intro r hr
        apply List.filterMap_congr
        intro b hb
        have hne : b ≠ e := fun hbe => hr (hbe ▸ hb)
        simp only [data, Function.update_of_ne hne]
      have hnew : ({ t with v := Function.update t.v e (some v) } : CsHashtable K V).data e =
          some (x.1, v) := by
        obtain ⟨k', v', hk, hv, -⟩ := h.filled e hin
        have hdata : t.data e = some (k', v') := by simp [data, hk, hv]
        cases hx.symm.trans hdata
        simp [data, hk]
      show (l ++ e :: m).filterMap
        ({ t with v := Function.update t.v e (some v) } : CsHashtable K V).data = _
      rw [filterMap_split hnew, hsame l hout.1, hsame m hout.2]

theorem iteratorAt_eq {p : Option Nat} (h : Linked t.listNext p l) (n : Nat) :
    t.iteratorAt n p = l[n]? := by
  induction n generalizing p l with
  | zero =>
    rw [← List.head?_eq_getElem?]
    exact h.head
  | succ n ih =>
    unfold iteratorAt
    cases l with
    | nil =>
      cases h
      exact ih (l := []) rfl
    | cons e l =>
      cases h.1
      exact ih h.2

theorem Rep.length_data (h : t.Rep fns order frees) (hsub : l ⊆ order) :
    (l.filterMap t.data).length = l.length := by
  induction l with
  | nil => rfl
  | cons e l ih =>
    obtain ⟨k, v, hk, hv, -⟩ := h.filled e (hsub List.mem_cons_self)
    have hdata : t.data e = some (k, v) := by simp [data, hk, hv]
    rw [List.filterMap_cons_some hdata, List.length_cons, List.length_cons,
      ih fun b hb => hsub (List.mem_cons_of_mem e hb)]

theorem Rep.iteratorRemove (h : t.Rep fns order frees) (n : Nat) :
    ∃ order' frees', (t.csHashtableIteratorRemove fns n).Rep fns order' frees' ∧
      order'.filterMap (t.csHashtableIteratorRemove fns n).data =
        (order.filterMap t.data).eraseIdx n := by
  have hlength := h.length_data (List.Subset.refl order)
  unfold csHashtableIteratorRemove
  rw [iteratorAt_eq h.lists.listing]
  split
  next hnone =>
    refine ⟨order, frees, h, (List.eraseIdx_of_length_le ?_).symm⟩
    rw [hlength]
    exact List.getElem?_eq_none_iff.mp hnone
  next e hat =>
    have hin : e ∈ order := List.mem_of_getElem? hat
    obtain ⟨k, v, hk, hv, hh⟩ := h.filled e hin
    have hbucket : t.bucket fns k = t.bucketOf e := by
      unfold bucket bucketOf
      rw [hh]
    rw [hk]
    simp only [hbucket]
    rcases h.find (t.bucketOf e) (· == e) with ⟨-, hmiss⟩ | ⟨l, b, m, rfl, hb, hbe, -, hfound⟩
    · exact absurd (hmiss e hin rfl) (by simp)
    · cases beq_iff_eq.mp hbe
      rw [removeFrom_found hfound]
      refine ⟨l ++ m, e :: frees, h.delete, ?_⟩
      -- an entry stands once in the list, so the iterator was advanced past `l`
      have hlen : n = l.length := by
        have hpos : (l ++ e :: m)[l.length]? = some e := by simp
        exact (List.getElem?_inj (List.getElem?_eq_some_iff.mp hat).1 h.lists.order_nodup).mp
          (hat.trans hpos.symm)
      have hdata : t.data e = some (k, v) := by simp [data, hk, hv]
      have hl : (l.filterMap t.data).length = l.length :=
        h.length_data fun b hb => List.mem_append_left _ hb
      rw [filterMap_split hdata, hlen, List.eraseIdx_append_of_length_le (Nat.le_of_eq hl), hl,
        Nat.sub_self, List.eraseIdx_cons_zero, ← List.filterMap_append]
      rfl

end CsHashtable

/-! ### Runs -/

abbrev HashSystem (K V : Type) := CsHashtable K V × List (K × V)

namespace HashSystem

def step (fns : HashFns K) (s : HashSystem K V) : HashCall K V → HashSystem K V
  | .insert k v memTable memEntry =>
    ((s.1.csHashtableInsert fns k v memTable memEntry).1,
      if (s.1.csHashtableInsert fns k v memTable memEntry).2 then s.2 ++ [(k, v)] else s.2)
  | .remove k => ((s.1.csHashtableRemove fns k).1, eraseLatest (fns.eqfn k) s.2)
  | .change k v => ((s.1.csHashtableChange fns k v).1, setLatest (fns.eqfn k) v s.2)
  | .iteratorRemove n => (s.1.csHashtableIteratorRemove fns n, s.2.eraseIdx n)

structure Refines (fns : HashFns K) (s : HashSystem K V) : Prop where
  search : ∀ k, s.1.csHashtableSearch fns k = latest (fns.eqfn k) s.2
  removed : ∀ k, (s.1.csHashtableRemove fns k).2 = latest (fns.eqfn k) s.2
  changed : ∀ k v, (s.1.csHashtableChange fns k v).2 = (latest (fns.eqfn k) s.2).isSome
  count : s.1.entrycount = s.2.length % 2 ^ 32
  entries : s.1.entries = s.2
  tablelength : 0 < s.1.tablelength

def Inv (fns : HashFns K) (s : HashSystem K V) : Prop :=
  ∃ order frees, s.1.Rep fns order frees ∧ order.filterMap s.1.data = s.2

variable {s : HashSystem K V}

theorem Inv.refines (hfns : fns.Consistent) (h : Inv fns s) : Refines fns s := by
  obtain ⟨order, frees, hrep, hdata⟩ := h
  have hsearch : ∀ k, s.1.csHashtableSearch fns k = latest (fns.eqfn k) s.2 := by
    intro k
    rw [hrep.search hfns, hdata]
  refine ⟨hsearch, fun k => ?_, fun k v => ?_, ?_, ?_, hrep.sized.pos⟩
  · obtain ⟨_, _, -, -, hremoved⟩ := hrep.remove hfns k
    rw [hremoved, hsearch]
  · rw [(hrep.change hfns k v).2.2, hsearch]
  · rw [hrep.count, ← hdata, hrep.length_data (List.Subset.refl order)]
  · rw [hrep.entries, hdata]

theorem Inv.step (hfns : fns.Consistent) (h : Inv fns s) (c : HashCall K V) :
    Inv fns (s.step fns c) := by
  obtain ⟨order, frees, hrep, hdata⟩ := h
  cases c with
  | insert k v memTable memEntry =>
    obtain ⟨order', frees', hrep', hdata'⟩ := hrep.insert k v memTable memEntry
    refine ⟨order', frees', hrep', hdata'.trans ?_⟩
    rw [hdata]
    simp only [HashSystem.step]
    cases (s.1.csHashtableInsert fns k v memTable memEntry).2 with
    | true => rfl
    | false => exact List.append_nil s.2
  | remove k =>
    obtain ⟨order', frees', hrep', hdata', -⟩ := hrep.remove hfns k
    exact ⟨order', frees', hrep', hdata'.trans (by rw [hdata]; rfl)⟩
  | change k v =>
    obtain ⟨hrep', hdata', -⟩ := hrep.change hfns k v
    exact ⟨order, frees, hrep', hdata'.trans (by rw [hdata]; rfl)⟩
  | iteratorRemove n =>
    obtain ⟨order', frees', hrep', hdata'⟩ := hrep.iteratorRemove n
    exact ⟨order', frees', hrep', hdata'.trans (by rw [hdata]; rfl)⟩

theorem Inv.create {minsize : Nat} {mem : Bool} {t : CsHashtable K V}
    (h : CsHashtable.csCreateHashtable minsize mem = some t) : Inv fns (t, []) := by
  unfold CsHashtable.csCreateHashtable at h
  split at h
  next => cases h
  next =>
    simp only at h
    generalize hblank : (CsHashtable.blank ((primes.takeWhile (· ≤ minsize)).length - 1) :
      CsHashtable K V) = blank at h
    have hheld : blank.Held fns [] [] := by
      rw [← hblank]
      exact ⟨⟨rfl, rfl, rfl, List.nodup_nil, fun e he => by cases he⟩, fun i => rfl,
        fun e he => by cases he⟩
    have hindex : -1 ≤ blank.primeindex ∧ blank.primeindex ≤ 25 := by
      have hle := (List.takeWhile_prefix (p := fun p => decide (p ≤ minsize)) (l := primes)).length_le
      have hlen : primes.length = 26 := rfl
      rw [← hblank]
      simp only [CsHashtable.blank]
      omega
    have hcount : (blank.csHashtableExpand mem).1.entrycount = 0 := by
      rw [CsHashtable.expand_entrycount, ← hblank]
      rfl
    split at h
    next t' hexpand =>
      cases h
      have hsized := CsHashtable.sized_expand hindex (.inl (congrArg Prod.snd hexpand))
      have hheld' := hheld.expand mem
      rw [hexpand] at hsized hheld' hcount
      exact ⟨[], [], ⟨hheld', hsized, hcount⟩, rfl⟩
    next => cases h

/-- In every state of every run the table answers as the list of the pairs does. -/
theorem allStates_refines_assoc (hfns : fns.Consistent) (minsize : Nat) (mem : Bool)
    (t : CsHashtable K V) (ht : CsHashtable.csCreateHashtable minsize mem = some t)
    (calls : List (HashCall K V)) : AllStates (step fns) (Refines fns) (t, []) calls :=
  allStates_of_invariant (fun _ h => h.refines hfns) (fun _ c h => h.step hfns c) calls _
    (Inv.create ht)

def natFns : HashFns Nat where
  hashfn k := BitVec.ofNat 64 k
  eqfn k k' := k == k'

theorem natFns_consistent : natFns.Consistent := by
  intro k k' heq
  rw [beq_iff_eq.mp heq]

theorem allStates_refines_assoc_nat :
    ∃ t : CsHashtable Nat Nat, CsHashtable.csCreateHashtable 10 true = some t ∧
      AllStates (step natFns) (Refines natFns) (t, [])
        [.insert 1 5 true true, .insert 1 6 true true, .remove 1, .iteratorRemove 0] :=
  ⟨_, rfl, allStates_refines_assoc natFns_consistent 10 true _ rfl _⟩

theorem insert_succeeds (t : CsHashtable K V) (k : K) (v : V) :
    (t.csHashtableInsert fns k v true true).2 = true := by
  unfold CsHashtable.csHashtableInsert
  simp only
  split
  next => rfl
  next => rfl

theorem replicate_insert (fns : HashFns K) (k : K) (v : V) (n : Nat) (s : HashSystem K V) :
    ((List.replicate n (HashCall.insert k v true true)).foldl (step fns) s).2 =
      s.2 ++ List.replicate n (k, v) := by
  induction n generalizing s with
  | zero => exact (List.append_nil s.2).symm
  | succ n ih =>
    have hstep : (step fns s (.insert k v true true)).2 = s.2 ++ [(k, v)] := by
      simp only [step, insert_succeeds, if_true]
    rw [List.replicate_succ, List.foldl_cons, ih, hstep, List.append_assoc]
    rfl

theorem Inv.foldl (hfns : fns.Consistent) (h : Inv fns s) (calls : List (HashCall K V)) :
    Inv fns (calls.foldl (HashSystem.step fns) s) := by
  induction calls generalizing s with
  | nil => exact h
  | cons c calls ih => exact ih (h.step hfns c)

/-- The count wraps: after 2^32 insertions it is zero. -/
theorem entrycount_wraps :
    ∃ (t : CsHashtable Nat Nat) (calls : List (HashCall Nat Nat)),
      CsHashtable.csCreateHashtable 10 true = some t ∧
      (calls.foldl (step natFns) (t, [])).1.entries.length = 2 ^ 32 ∧
      (calls.foldl (step natFns) (t, [])).1.entrycount = 0 := by
  obtain ⟨t, ht⟩ := Option.isSome_iff_exists.mp
    (show (CsHashtable.csCreateHashtable 10 true : Option (CsHashtable Nat Nat)).isSome from rfl)
  have hrefines := ((Inv.create ht).foldl natFns_consistent
    (List.replicate (2 ^ 32) (.insert 0 0 true true))).refines natFns_consistent
  have hpairs := replicate_insert natFns 0 0 (2 ^ 32) (t, [])
  have hlength : ((List.replicate (2 ^ 32) (.insert 0 0 true true)).foldl (step natFns) (t, [])).2.length =
      2 ^ 32 := by
    rw [hpairs, List.nil_append, List.length_replicate]
  refine ⟨t, List.replicate (2 ^ 32) (.insert 0 0 true true), ht, ?_, ?_⟩
  · rw [hrefines.entries, hlength]
  · rw [hrefines.count, hlength, Nat.mod_self]

end HashSystem

end

/-!
## Tables with one entry for each key

A user that looks for a key before it inserts one has at most one entry for each key.  Its table is
a map from what the keys are compared by to the stored key and value.
-/

variable {K V I : Type} [DecidableEq I] {fns : HashFns K} {ident : K → I}

structure HashFns.Keyed (fns : HashFns K) (ident : K → I) : Prop where
  eqfn_iff : ∀ k k', fns.eqfn k k' = true ↔ ident k = ident k'
  hashfn_eq : ∀ k k', ident k = ident k' → fns.hashfn k = fns.hashfn k'

omit [DecidableEq I] in
theorem HashFns.Keyed.consistent (h : fns.Keyed ident) : fns.Consistent :=
  fun k k' heq => h.hashfn_eq k k' ((h.eqfn_iff k k').mp heq)

omit [DecidableEq I] in
theorem HashFns.Keyed.eqfn_false (h : fns.Keyed ident) {k k' : K} (hne : ident k ≠ ident k') :
    fns.eqfn k k' = false :=
  Bool.eq_false_iff.mpr fun heq => hne ((h.eqfn_iff k k').mp heq)

namespace CsHashtable

def entryAt (t : CsHashtable K V) (ident : K → I) (i : I) : Option (K × V) :=
  t.entries.find? fun x => ident x.1 = i

omit [DecidableEq I] in
/-- The table is in order and has no two entries for a key. -/
structure IsMap (fns : HashFns K) (ident : K → I) (t : CsHashtable K V) : Prop where
  inv : HashSystem.Inv fns (t, t.entries)
  nodup : (t.entries.map fun x => ident x.1).Nodup

variable {t : CsHashtable K V} {i : I} {k : K} {v : V} {x : K × V}

/-! ### Lists of pairs -/

theorem find?_none_iff {l : List (K × V)} :
    l.find? (fun x => decide (ident x.1 = i)) = none ↔ ∀ x ∈ l, ident x.1 ≠ i := by
  simp only [List.find?_eq_none, decide_eq_true_eq, ne_eq]

theorem exists_split {l : List (K × V)} (hnodup : (l.map fun x => ident x.1).Nodup)
    (hfound : l.find? (fun x => decide (ident x.1 = i)) = some x) :
    ident x.1 = i ∧ ∃ l₁ l₂, l = l₁ ++ x :: l₂ ∧ ∀ y ∈ l₁ ++ l₂, ident y.1 ≠ i := by
  obtain ⟨hx, l₁, l₂, rfl, -⟩ := List.find?_eq_some_iff_append.mp hfound
  have hi : ident x.1 = i := of_decide_eq_true hx
  refine ⟨hi, l₁, l₂, rfl, fun y hy hyi => ?_⟩
  rw [List.map_append, List.map_cons] at hnodup
  have hout := (List.nodup_middle.mp hnodup).notMem
  apply hout
  rw [← List.map_append, List.mem_map]
  exact ⟨y, hy, hyi.trans hi.symm⟩

theorem find?_split {l₁ l₂ : List (K × V)} (hx : ident x.1 = i)
    (hout : ∀ y ∈ l₁ ++ l₂, ident y.1 ≠ i) (j : I) :
    (l₁ ++ x :: l₂).find? (fun y => decide (ident y.1 = j)) =
      if j = i then some x else (l₁ ++ l₂).find? fun y => decide (ident y.1 = j) := by
  by_cases hj : j = i
  · have hnone : l₁.find? (fun y => decide (ident y.1 = j)) = none := by
      rw [hj, find?_none_iff]
      exact fun y hy => hout y (List.mem_append_left _ hy)
    rw [if_pos hj, List.find?_append, hnone, Option.none_or, List.find?_cons_of_pos]
    exact decide_eq_true (hx.trans hj.symm)
  · have hskip : (x :: l₂).find? (fun y => decide (ident y.1 = j)) =
        l₂.find? fun y => decide (ident y.1 = j) := by
      apply List.find?_cons_of_neg
      rw [decide_eq_true_eq, hx]
      exact Ne.symm hj
    rw [if_neg hj, List.find?_append, List.find?_append, hskip]

/-! ### Searching -/

theorem entries_of_inv {l : List (K × V)} (hfns : fns.Consistent)
    (h : HashSystem.Inv fns (t, l)) : t.entries = l :=
  (h.refines hfns).entries

omit [DecidableEq I] in
theorem IsMap.of_inv {l : List (K × V)} (hfns : fns.Consistent) (h : HashSystem.Inv fns (t, l))
    (hnodup : (l.map fun x => ident x.1).Nodup) : t.IsMap fns ident := by
  have hentries := entries_of_inv hfns h
  rw [← hentries] at h hnodup
  exact ⟨h, hnodup⟩

theorem IsMap.create {minsize : Nat} {mem : Bool} (hfns : fns.Keyed ident)
    (h : csCreateHashtable minsize mem = some t) :
    t.IsMap fns ident ∧ ∀ i, t.entryAt ident i = none := by
  have hinv : HashSystem.Inv fns (t, []) := HashSystem.Inv.create h
  refine ⟨.of_inv hfns.consistent hinv List.nodup_nil, fun i => ?_⟩
  unfold entryAt
  rw [entries_of_inv hfns.consistent hinv]
  rfl

theorem IsMap.search (h : t.IsMap fns ident) (hfns : fns.Keyed ident) (k : K) :
    t.csHashtableSearch fns k = (t.entryAt ident (ident k)).map Prod.snd := by
  have hsearch := (h.inv.refines hfns.consistent).search k
  rw [hsearch]
  unfold entryAt
  cases hfound : t.entries.find? (fun x => decide (ident x.1 = ident k)) with
  | none =>
    apply latest_absent
    intro y hy
    exact hfns.eqfn_false (Ne.symm (find?_none_iff.mp hfound y hy))
  | some x =>
    obtain ⟨hx, l₁, l₂, hsplit, hout⟩ := exists_split h.nodup hfound
    rw [hsplit]
    apply latest_present ((hfns.eqfn_iff _ _).mpr hx.symm)
    intro y hy
    exact hfns.eqfn_false (Ne.symm (hout y (List.mem_append_right _ hy)))

theorem IsMap.entryAt_of_mem (h : t.IsMap fns ident) (hx : x ∈ t.entries) :
    t.entryAt ident (ident x.1) = some x := by
  obtain ⟨l₁, l₂, hsplit⟩ := List.append_of_mem hx
  have hnodup := h.nodup
  rw [hsplit, List.map_append, List.map_cons] at hnodup
  have hout := (List.nodup_middle.mp hnodup).notMem
  unfold entryAt
  rw [hsplit, find?_split rfl _ (ident x.1), if_pos rfl]
  intro y hy heq
  apply hout
  rw [← List.map_append, List.mem_map]
  exact ⟨y, hy, heq⟩

/-! ### Changing -/

structure SameEntries (t t' : CsHashtable K V) : Prop where
  listHead : t'.listHead = t.listHead
  listNext : t'.listNext = t.listNext
  allocated : t'.allocated = t.allocated
  k : t'.k = t.k
  v : t'.v = t.v

theorem SameEntries.trans {t₁ t₂ t₃ : CsHashtable K V} (h : SameEntries t₁ t₂)
    (h' : SameEntries t₂ t₃) : SameEntries t₁ t₃ :=
  ⟨h'.listHead.trans h.listHead, h'.listNext.trans h.listNext, h'.allocated.trans h.allocated,
    h'.k.trans h.k, h'.v.trans h.v⟩

theorem SameEntries.walkList {t t' : CsHashtable K V} (h : SameEntries t t') (fuel : Nat)
    (p : Option Nat) : t'.walkList fuel p = t.walkList fuel p := by
  induction fuel generalizing p with
  | zero => rfl
  | succ fuel ih =>
    cases p with
    | none => rfl
    | some e =>
      show e :: t'.walkList fuel (t'.listNext e) = e :: t.walkList fuel (t.listNext e)
      rw [h.listNext, ih]

theorem SameEntries.entries {t t' : CsHashtable K V} (h : SameEntries t t') :
    t'.entries = t.entries := by
  unfold CsHashtable.entries
  rw [h.walkList, h.listHead, h.allocated, h.k, h.v]

theorem sameEntries_recount (n : Nat) : SameEntries t { t with entrycount := n } :=
  ⟨rfl, rfl, rfl, rfl, rfl⟩

theorem sameEntries_expand (mem : Bool) : SameEntries t (t.csHashtableExpand mem).1 := by
  unfold csHashtableExpand
  split
  next => exact ⟨rfl, rfl, rfl, rfl, rfl⟩
  next => split <;> exact ⟨rfl, rfl, rfl, rfl, rfl⟩

theorem insert_failed {memTable memEntry : Bool}
    (hfail : (t.csHashtableInsert fns k v memTable memEntry).2 = false) :
    (t.csHashtableInsert fns k v memTable memEntry).1.entries = t.entries := by
  have hgrown (c : Prop) [Decidable c] (t' : CsHashtable K V) :
      SameEntries t' (if c then (t'.csHashtableExpand memTable).1 else t') := by
    split
    next => exact sameEntries_expand memTable
    next => exact ⟨rfl, rfl, rfl, rfl, rfl⟩
  unfold csHashtableInsert at hfail ⊢
  simp only at hfail ⊢
  split at hfail
  next hfree =>
    rw [hfree]
    split at hfail
    next hmem =>
      rw [if_pos hmem]
      have h := (sameEntries_recount (t := t) (inc32 t.entrycount)).trans
        (hgrown (inc32 t.entrycount > t.loadlimit) _)
      exact SameEntries.entries ⟨h.listHead, h.listNext, h.allocated, h.k, h.v⟩
    next => nomatch hfail
  next => nomatch hfail

theorem IsMap.insert (h : t.IsMap fns ident) (hfns : fns.Keyed ident)
    (hnew : t.entryAt ident (ident k) = none) (v : V) (memTable memEntry : Bool) :
    (t.csHashtableInsert fns k v memTable memEntry).1.IsMap fns ident ∧
      ∀ i, (t.csHashtableInsert fns k v memTable memEntry).1.entryAt ident i =
        if (t.csHashtableInsert fns k v memTable memEntry).2 = true ∧ i = ident k then some (k, v)
        else t.entryAt ident i := by
  have hstep := h.inv.step hfns.consistent (.insert k v memTable memEntry)
  have hout := find?_none_iff.mp hnew
  simp only [HashSystem.step] at hstep
  have hentries := entries_of_inv hfns.consistent hstep
  cases hmem : (t.csHashtableInsert fns k v memTable memEntry).2 with
  | false =>
    rw [hmem] at hstep hentries
    refine ⟨.of_inv hfns.consistent hstep h.nodup, fun i => ?_⟩
    unfold entryAt
    rw [hentries]
    simp
  | true =>
    rw [hmem] at hstep hentries
    have hnodup : ((t.entries ++ [(k, v)]).map fun x => ident x.1).Nodup := by
      rw [List.map_append, List.map_singleton, ← List.concat_eq_append]
      apply h.nodup.concat
      simp only [List.mem_map, not_exists, not_and]
      exact hout
    refine ⟨.of_inv hfns.consistent hstep hnodup, fun i => ?_⟩
    unfold entryAt
    rw [hentries]
    have hfind : (t.entries ++ (k, v) :: []).find? (fun y => decide (ident y.1 = i)) = _ :=
      find?_split rfl (by simpa using hout) i
    rw [List.append_nil] at hfind
    rw [if_pos rfl, hfind]
    simp

theorem IsMap.change (h : t.IsMap fns ident) (hfns : fns.Keyed ident) (k : K) (v : V) :
    (t.csHashtableChange fns k v).1.IsMap fns ident ∧
      ∀ i, (t.csHashtableChange fns k v).1.entryAt ident i =
        if i = ident k then (t.entryAt ident i).map fun x => (x.1, v) else t.entryAt ident i := by
  have hstep := h.inv.step hfns.consistent (.change k v)
  simp only [HashSystem.step] at hstep
  have hentries := entries_of_inv hfns.consistent hstep
  cases hfound : t.entries.find? (fun x => decide (ident x.1 = ident k)) with
  | none =>
    have hsame : setLatest (fns.eqfn k) v t.entries = t.entries := by
      apply setLatest_absent
      intro y hy
      exact hfns.eqfn_false (Ne.symm (find?_none_iff.mp hfound y hy))
    rw [hsame] at hstep hentries
    refine ⟨.of_inv hfns.consistent hstep h.nodup, fun i => ?_⟩
    unfold entryAt
    rw [hentries]
    by_cases hi : i = ident k
    · rw [if_pos hi, hi, hfound]
      rfl
    · rw [if_neg hi]
  | some x =>
    obtain ⟨hx, l₁, l₂, hsplit, hout⟩ := exists_split h.nodup hfound
    have hset : setLatest (fns.eqfn k) v t.entries = l₁ ++ (x.1, v) :: l₂ := by
      rw [hsplit]
      apply setLatest_present ((hfns.eqfn_iff _ _).mpr hx.symm)
      intro y hy
      exact hfns.eqfn_false (Ne.symm (hout y (List.mem_append_right _ hy)))
    rw [hset] at hstep hentries
    have hnodup : ((l₁ ++ (x.1, v) :: l₂).map fun x => ident x.1).Nodup := by
      have hnodup := h.nodup
      rw [hsplit] at hnodup
      rw [List.map_append, List.map_cons] at hnodup ⊢
      exact hnodup
    refine ⟨.of_inv hfns.consistent hstep hnodup, fun i => ?_⟩
    unfold entryAt
    rw [hentries, hsplit, find?_split hx hout, find?_split (x := (x.1, v)) hx hout]
    by_cases hi : i = ident k
    · simp only [if_pos hi]
      rfl
    · simp only [if_neg hi]

theorem IsMap.remove (h : t.IsMap fns ident) (hfns : fns.Keyed ident) (k : K) :
    (t.csHashtableRemove fns k).1.IsMap fns ident ∧
      (t.csHashtableRemove fns k).2 = (t.entryAt ident (ident k)).map Prod.snd ∧
      ∀ i, (t.csHashtableRemove fns k).1.entryAt ident i =
        if i = ident k then none else t.entryAt ident i := by
  have hstep := h.inv.step hfns.consistent (.remove k)
  have hresult := (h.inv.refines hfns.consistent).removed k
  rw [← (h.inv.refines hfns.consistent).search k, h.search hfns] at hresult
  simp only [HashSystem.step] at hstep
  have hentries := entries_of_inv hfns.consistent hstep
  cases hfound : t.entries.find? (fun x => decide (ident x.1 = ident k)) with
  | none =>
    have hsame : eraseLatest (fns.eqfn k) t.entries = t.entries := by
      apply eraseLatest_absent
      intro y hy
      exact hfns.eqfn_false (Ne.symm (find?_none_iff.mp hfound y hy))
    rw [hsame] at hstep hentries
    refine ⟨.of_inv hfns.consistent hstep h.nodup, hresult, fun i => ?_⟩
    unfold entryAt
    rw [hentries]
    by_cases hi : i = ident k
    · rw [if_pos hi, hi, hfound]
    · rw [if_neg hi]
  | some x =>
    obtain ⟨hx, l₁, l₂, hsplit, hout⟩ := exists_split h.nodup hfound
    have herase : eraseLatest (fns.eqfn k) t.entries = l₁ ++ l₂ := by
      rw [hsplit]
      apply eraseLatest_present ((hfns.eqfn_iff _ _).mpr hx.symm)
      intro y hy
      exact hfns.eqfn_false (Ne.symm (hout y (List.mem_append_right _ hy)))
    rw [herase] at hstep hentries
    have hnodup : ((l₁ ++ l₂).map fun x => ident x.1).Nodup := by
      have hnodup := h.nodup
      rw [hsplit, List.map_append, List.map_cons] at hnodup
      rw [List.map_append]
      exact (List.nodup_middle.mp hnodup).of_cons
    refine ⟨.of_inv hfns.consistent hstep hnodup, hresult, fun i => ?_⟩
    unfold entryAt
    rw [hentries, hsplit, find?_split hx hout]
    by_cases hi : i = ident k
    · rw [if_pos hi, hi, find?_none_iff]
      exact hout
    · rw [if_neg hi, if_neg hi]

/-! ### Iterating -/

theorem filterMap_getElem? {order : List Nat} (h : t.Filled fns order) (n : Nat) :
    (order.filterMap t.data)[n]? = order[n]?.bind t.data := by
  induction order generalizing n with
  | nil => rfl
  | cons e order ih =>
    obtain ⟨k, v, hk, hv, -⟩ := h e List.mem_cons_self
    have hdata : t.data e = some (k, v) := by simp [data, hk, hv]
    rw [List.filterMap_cons_some hdata]
    cases n with
    | zero => exact hdata.symm
    | succ n => exact ih (fun b hb => h b (List.mem_cons_of_mem e hb)) n

omit [DecidableEq I] in
theorem IsMap.exists_rep (h : t.IsMap fns ident) :
    ∃ order frees, t.Rep fns order frees ∧ order.filterMap t.data = t.entries := h.inv

omit [DecidableEq I] in
theorem IsMap.valueAt (h : t.IsMap fns ident) (n : Nat) :
    (t.iteratorAt n t.listHead).bind t.v = t.entries[n]?.map Prod.snd := by
  obtain ⟨order, frees, hrep, hdata⟩ := h.exists_rep
  have hentries : t.entries[n]? = order[n]?.bind t.data := by
    rw [← hdata]
    exact filterMap_getElem? hrep.filled n
  rw [hentries, iteratorAt_eq hrep.lists.listing]
  cases hat : order[n]? with
  | none => rfl
  | some e =>
    obtain ⟨k, v, hk, hv, -⟩ := hrep.filled e (List.mem_of_getElem? hat)
    simp [data, hk, hv]

omit [DecidableEq I] in
theorem IsMap.length_le (h : t.IsMap fns ident) : t.entries.length ≤ t.allocated := by
  obtain ⟨order, frees, hrep, hdata⟩ := h.exists_rep
  have hlength : t.entries.length = order.length := by
    rw [← hdata]
    exact hrep.length_data (List.Subset.refl order)
  rw [hlength]
  exact hrep.lists.length_le

omit [DecidableEq I] in
theorem IsMap.iteratorRemove (h : t.IsMap fns ident) (hfns : fns.Consistent) (n : Nat) :
    (t.csHashtableIteratorRemove fns n).IsMap fns ident ∧
      (t.csHashtableIteratorRemove fns n).entries = t.entries.eraseIdx n := by
  have hstep := h.inv.step hfns (.iteratorRemove n)
  simp only [HashSystem.step] at hstep
  have hsub := (List.eraseIdx_sublist t.entries n).map fun x => ident x.1
  exact ⟨.of_inv hfns hstep (h.nodup.sublist hsub), entries_of_inv hfns hstep⟩

theorem find?_filter {l : List (K × V)} (hnodup : (l.map fun x => ident x.1).Nodup)
    (p : K × V → Bool) (i : I) :
    (l.filter p).find? (fun x => decide (ident x.1 = i)) =
      (l.find? fun x => decide (ident x.1 = i)).filter p := by
  cases hfound : l.find? (fun x => decide (ident x.1 = i)) with
  | none =>
    rw [Option.filter_none, find?_none_iff]
    intro x hx
    exact find?_none_iff.mp hfound x (List.mem_filter.mp hx).1
  | some x =>
    obtain ⟨hx, l₁, l₂, rfl, hout⟩ := exists_split hnodup hfound
    have hnone : ((l₁ ++ l₂).filter p).find? (fun x => decide (ident x.1 = i)) = none := by
      rw [find?_none_iff]
      exact fun y hy => hout y (List.mem_filter.mp hy).1
    rw [List.filter_append] at hnone
    cases hp : p x with
    | false =>
      rw [List.filter_append, List.filter_cons_of_neg (by simp [hp]), hnone,
        Option.filter_some_neg (by simp [hp])]
    | true =>
      have hout' : ∀ y ∈ l₁.filter p ++ l₂.filter p, ident y.1 ≠ i := by
        rw [← List.filter_append]
        exact fun y hy => hout y (List.mem_filter.mp hy).1
      rw [List.filter_append, List.filter_cons_of_pos hp, find?_split hx hout', if_pos rfl,
        Option.filter_some_pos hp]

end CsHashtable

end OpaFm.Cs
