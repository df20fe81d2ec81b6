import OpaFm.Cs.Hashtable
import OpaFm.Lib.Run
import Mathlib.Data.List.Count

/-!
# Hash tables as association lists

The list holds the entries in the order in which they were inserted, and a chain holds
those of its bucket in the opposite order.  So the first entry of a chain with a key is
the one that was inserted last, and expanding keeps it so, because it goes through the
list and puts every entry at the head of its new chain.
-/

namespace OpaFm.Cs

open OpaFm.Lib

variable {K V : Type} {fns : HashFns K}

def HashFns.Consistent (fns : HashFns K) : Prop :=
  ∀ k k', fns.eqfn k k' = true → fns.hashfn k = fns.hashfn k'

theorem HashFns.Consistent.hash_eq (h : fns.Consistent) {k k' : K} (heq : fns.eqfn k k' = true) :
    hash fns k = hash fns k' := by
  unfold hash
  rw [h k k' heq]

namespace CsHashtable

def bucketOf (t : CsHashtable K V) (e : Nat) : Nat := indexFor t.tablelength (t.h e)

def data (t : CsHashtable K V) (e : Nat) : Option (K × V) :=
  (t.k e).bind fun k => (t.v e).map fun v => (k, v)

structure Lists (t : CsHashtable K V) (order frees : List Nat) : Prop where
  listing : Linked t.listNext t.listHead order
  back : Linked t.listPrev t.listTail order.reverse
  free : Linked t.listNext t.freeHead frees
  nodup : (order ++ frees).Nodup
  allocated : ∀ e ∈ order ++ frees, e < t.allocated

def Chained (t : CsHashtable K V) (order : List Nat) : Prop :=
  ∀ i, Linked t.hashNext (t.table i) (order.filter (t.bucketOf · = i)).reverse

def Filled (fns : HashFns K) (t : CsHashtable K V) (order : List Nat) : Prop :=
  ∀ e ∈ order, ∃ k v, t.k e = some k ∧ t.v e = some v ∧ t.h e = hash fns k

structure Sized (t : CsHashtable K V) : Prop where
  index : 0 ≤ t.primeindex ∧ t.primeindex ≤ 25
  pos : 0 < t.tablelength

structure Held (fns : HashFns K) (t : CsHashtable K V) (order frees : List Nat) : Prop where
  lists : t.Lists order frees
  chained : t.Chained order
  filled : t.Filled fns order

structure Rep (fns : HashFns K) (t : CsHashtable K V) (order frees : List Nat) : Prop
    extends Held fns t order frees where
  sized : t.Sized
  count : t.entrycount = order.length % 2 ^ 32

variable {t : CsHashtable K V} {order frees : List Nat}

/-! ## Fuel -/

theorem Lists.length_le (h : t.Lists order frees) : order.length ≤ t.allocated := by
  have hsub : order ⊆ List.range t.allocated := by
    intro e he
    exact List.mem_range.mpr (h.allocated e (List.mem_append_left _ he))
  have hnodup : order.Nodup := h.nodup.of_append_left
  have := (List.subperm_of_subset hnodup hsub).length_le
  rwa [List.length_range] at this

theorem chain_length (h : t.Lists order frees) (i : Nat) :
    (order.filter (t.bucketOf · = i)).reverse.length < t.allocated + 1 := by
  rw [List.length_reverse]
  exact Nat.lt_succ_of_le ((List.length_filter_le _ _).trans h.length_le)

theorem walkList_eq {p : Option Nat} {l : List Nat} (h : Linked t.listNext p l) {fuel : Nat}
    (hfuel : l.length < fuel) : t.walkList fuel p = l := by
  induction l generalizing p fuel with
  | nil =>
    cases h
    cases fuel <;> rfl
  | cons e l ih =>
    obtain ⟨rfl, h⟩ := h
    cases fuel with
    | zero => cases hfuel
    | succ fuel =>
      unfold walkList
      rw [ih h (Nat.lt_of_succ_lt_succ hfuel)]

theorem Rep.entries (h : t.Rep fns order frees) : t.entries = order.filterMap t.data := by
  unfold CsHashtable.entries
  rw [walkList_eq h.lists.listing (Nat.lt_succ_of_le h.lists.length_le)]
  rfl

/-! ## Expanding -/

theorem filter_snoc {f : Nat → Bool} (l : List Nat) (e : Nat) :
    ((l ++ [e]).filter f).reverse = if f e then e :: (l.filter f).reverse else (l.filter f).reverse := by
  rw [List.filter_append, List.reverse_append]
  cases hf : f e <;> simp [hf]

theorem linked_put {index : Nat → Nat} {hashNext table : Nat → Option Nat} {done : List Nat} {e : Nat}
    (h : ∀ i, Linked hashNext (table i) (done.filter (index · = i)).reverse) (he : e ∉ done) :
    ∀ i, Linked (Function.update hashNext e (table (index e)))
      (Function.update table (index e) (some e) i) ((done ++ [e]).filter (index · = i)).reverse := by
  intro i
  have hnot : e ∉ (done.filter (index · = i)).reverse := by
    intro hin
    exact he (List.mem_filter.mp (List.mem_reverse.mp hin)).1
  rw [filter_snoc]
  by_cases hi : index e = i
  · subst hi
    rw [Function.update_self, if_pos (by simp)]
    exact (h (index e)).push hnot
  · rw [Function.update_of_ne (Ne.symm hi), if_neg (by simpa using hi)]
    exact (h i).update hnot _

theorem rehash_spec (newsize : Nat) (l done : List Nat) (links : (Nat → Option Nat) × (Nat → Option Nat))
    {p : Option Nat} (hl : Linked t.listNext p l) {fuel : Nat} (hfuel : l.length < fuel)
    (hnodup : (done ++ l).Nodup)
    (h : ∀ i, Linked links.1 (links.2 i)
      (done.filter (fun e => indexFor newsize (t.h e) = i)).reverse) :
    ∀ i, Linked (t.rehash newsize fuel p links).1 ((t.rehash newsize fuel p links).2 i)
      ((done ++ l).filter (fun e => indexFor newsize (t.h e) = i)).reverse := by
  induction l generalizing p fuel done links with
  | nil =>
    cases hl
    rw [List.append_nil]
    cases fuel <;> exact h
  | cons e l ih =>
    obtain ⟨rfl, hl⟩ := hl
    cases fuel with
    | zero => cases hfuel
    | succ fuel =>
      have he : e ∉ done := by
        intro hin
        exact (List.nodup_append.mp hnodup).2.2 e hin e List.mem_cons_self rfl
      have hsplit : done ++ e :: l = done ++ [e] ++ l := by simp
      rw [hsplit] at hnodup ⊢
      exact ih _ _ hl (Nat.lt_of_succ_lt_succ hfuel) hnodup (linked_put h he)

theorem primes_pos : ∀ i < 26, 0 < primes.getD i 0 := by
  decide

theorem Held.expand (mem : Bool) (h : t.Held fns order frees) :
    (t.csHashtableExpand mem).1.Held fns order frees := by
  have hlists := h.lists
  unfold csHashtableExpand
  split
  next => exact h
  next =>
    split
    next => exact h
    next =>
      refine ⟨⟨hlists.listing, hlists.back, hlists.free, hlists.nodup, hlists.allocated⟩, ?_,
        h.filled⟩
      exact rehash_spec (primes.getD (t.primeindex + 1).toNat 0) order [] (t.hashNext, fun _ => none)
        hlists.listing (Nat.lt_succ_of_le hlists.length_le) hlists.nodup.of_append_left
        fun i => rfl

theorem sized_expand {mem : Bool} (hindex : -1 ≤ t.primeindex ∧ t.primeindex ≤ 25)
    (h : (t.csHashtableExpand mem).2 = true ∨ t.Sized) : (t.csHashtableExpand mem).1.Sized := by
  have hlen : ((primes.length : Int) - 1) = 25 := by decide
  unfold csHashtableExpand at h ⊢
  rw [hlen] at h ⊢
  split
  next hmax =>
    rw [if_pos hmax] at h
    exact h.resolve_left Bool.false_ne_true
  next hmax =>
    rw [if_neg hmax] at h
    split
    next hmem =>
      rw [if_pos hmem] at h
      exact h.resolve_left Bool.false_ne_true
    next => exact ⟨by simp only; omega, primes_pos _ (by omega)⟩

theorem expand_data (mem : Bool) : (t.csHashtableExpand mem).1.data = t.data := by
  unfold csHashtableExpand
  split
  next => rfl
  next => split <;> rfl

theorem expand_entrycount (mem : Bool) : (t.csHashtableExpand mem).1.entrycount = t.entrycount := by
  unfold csHashtableExpand
  split
  next => rfl
  next => split <;> rfl

/-! ## Inserting -/

theorem putEntry_eq (fns : HashFns K) (t : CsHashtable K V) (e : Nat) (k : K) (v : V) :
    ∃ listHead listTail listNext listPrev,
      t.putEntry fns e k v =
        { t with
          k := Function.update t.k e (some k)
          v := Function.update t.v e (some v)
          h := Function.update t.h e (hash fns k)
          hashNext := Function.update t.hashNext e (t.table (t.bucket fns k))
          table := Function.update t.table (t.bucket fns k) (some e)
          listHead := listHead
          listTail := listTail
          listNext := listNext
          listPrev := listPrev } := by
  unfold putEntry
  simp only
  split
  next => exact ⟨_, _, _, _, rfl⟩
  next => exact ⟨_, _, _, _, rfl⟩

theorem putEntry_lists {e : Nat} (k : K) (v : V) (h : t.Lists order frees) (he : e ∉ order)
    (hfree : e ∉ frees) (hlt : e < t.allocated) : (t.putEntry fns e k v).Lists (order ++ [e]) frees := by
  have hnodup : (order ++ [e] ++ frees).Nodup := by
    rw [List.append_assoc, List.singleton_append, List.nodup_middle, List.nodup_cons, List.mem_append,
      not_or]
    exact ⟨⟨he, hfree⟩, h.nodup⟩
  have hallocated : ∀ b ∈ order ++ [e] ++ frees, b < t.allocated := by
    intro b hb
    rw [List.append_assoc, List.singleton_append, List.mem_append, List.mem_cons] at hb
    rcases hb with hb | rfl | hb
    · exact h.allocated b (List.mem_append_left _ hb)
    · exact hlt
    · exact h.allocated b (List.mem_append_right _ hb)
  have hlast : Linked (Function.update t.listNext e none) (some e) [e] :=
    Linked.push (l := []) rfl List.not_mem_nil
  have hback : Linked (Function.update t.listPrev e t.listTail) (some e) (order ++ [e]).reverse := by
    rw [List.reverse_append]
    exact h.back.push fun hin => he (List.mem_reverse.mp hin)
  unfold putEntry
  simp only
  rcases List.eq_nil_or_concat order with rfl | ⟨l, a, rfl⟩
  · -- the list was empty
    have hhead : t.listHead = none := h.listing.head
    have htail : t.listTail = none := h.back.head
    rw [htail] at hback
    rw [hhead]
    exact ⟨hlast, hback, h.free.update hfree _, hnodup, hallocated⟩
  · rw [List.concat_eq_append] at *
    have hsplit : t.listHead = some ((l ++ [a]).head (by simp)) := by
      rw [h.listing.head, List.head?_eq_some_head]
    have htail : t.listTail = some a := by
      rw [h.back.head, List.reverse_append]
      rfl
    have hnodupa := h.nodup
    rw [List.append_assoc, List.singleton_append, List.nodup_middle, List.nodup_cons, List.mem_append,
      not_or] at hnodupa
    have hae : a ∉ [e] := by
      rw [List.mem_singleton]
      rintro rfl
      exact he (List.mem_append_right _ List.mem_cons_self)
    rw [hsplit]
    refine ⟨?_, hback, ?_, hnodup, hallocated⟩
    · simp only [htail, Option.elim_some]
      rw [← hsplit, List.append_assoc]
      exact (h.listing.update he none).appendAt hlast hnodupa.1.1 hae
    · simp only [htail, Option.elim_some]
      exact (h.free.update hfree none).update hnodupa.1.2 _

theorem putEntry_chained {e : Nat} (k : K) (v : V) (h : t.Chained order) (he : e ∉ order) :
    (t.putEntry fns e k v).Chained (order ++ [e]) := by
  obtain ⟨_, _, _, _, heq⟩ := putEntry_eq fns t e k v
  have hbucket : (t.putEntry fns e k v).bucketOf e = t.bucket fns k := by
    rw [heq]
    simp only [bucketOf, Function.update_self]
    rfl
  have hother : ∀ b ∈ order, (t.putEntry fns e k v).bucketOf b = t.bucketOf b := by
    rintro b hb
    have hne : b ≠ e := fun hbe => he (hbe ▸ hb)
    rw [heq]
    simp only [bucketOf, Function.update_of_ne hne]
  have hbefore : ∀ i, Linked t.hashNext (t.table i)
      (order.filter ((t.putEntry fns e k v).bucketOf · = i)).reverse := by
    intro i
    rw [List.filter_congr fun b hb => by rw [hother b hb]]
    exact h i
  intro i
  have hput := linked_put hbefore he i
  rw [hbucket] at hput
  rw [heq] at hput ⊢
  exact hput

theorem putEntry_filled {e : Nat} (k : K) (v : V) (h : t.Filled fns order) (he : e ∉ order) :
    (t.putEntry fns e k v).Filled fns (order ++ [e]) := by
  obtain ⟨_, _, _, _, heq⟩ := putEntry_eq fns t e k v
  rw [heq]
  intro b hb
  rcases List.mem_append.mp hb with hb | hb
  · have hne : b ≠ e := fun hbe => he (hbe ▸ hb)
    simp only [Function.update_of_ne hne]
    exact h b hb
  · rw [List.mem_singleton.mp hb]
    exact ⟨k, v, Function.update_self .., Function.update_self .., Function.update_self ..⟩

theorem putEntry_data {e : Nat} (k : K) (v : V) (he : e ∉ order) :
    (order ++ [e]).filterMap (t.putEntry fns e k v).data = order.filterMap t.data ++ [(k, v)] := by
  obtain ⟨_, _, _, _, heq⟩ := putEntry_eq fns t e k v
  rw [heq, List.filterMap_append]
  congr 1
  · apply List.filterMap_congr
    intro b hb
    have hne : b ≠ e := fun hbe => he (hbe ▸ hb)
    simp only [data, Function.update_of_ne hne]
  · simp [data]

theorem Held.putEntry {e : Nat} (k : K) (v : V) (h : t.Held fns order frees) (he : e ∉ order)
    (hfree : e ∉ frees) (hlt : e < t.allocated) :
    (t.putEntry fns e k v).Held fns (order ++ [e]) frees where
  lists := putEntry_lists k v h.lists he hfree hlt
  chained := putEntry_chained k v h.chained he
  filled := putEntry_filled k v h.filled he

theorem Sized.putEntry {e : Nat} (k : K) (v : V) (h : t.Sized) : (t.putEntry fns e k v).Sized := by
  obtain ⟨_, _, _, _, heq⟩ := putEntry_eq fns t e k v
  rw [heq]
  exact ⟨h.index, h.pos⟩

theorem putEntry_entrycount (e : Nat) (k : K) (v : V) :
    (t.putEntry fns e k v).entrycount = t.entrycount := by
  obtain ⟨_, _, _, _, heq⟩ := putEntry_eq fns t e k v
  rw [heq]

theorem inc32_mod (n : Nat) : inc32 (n % 2 ^ 32) = (n + 1) % 2 ^ 32 := by
  unfold inc32
  omega

theorem dec32_mod (n : Nat) : dec32 ((n + 1) % 2 ^ 32) = n % 2 ^ 32 := by
  unfold dec32
  omega

theorem Held.recount (n : Nat) (h : t.Held fns order frees) :
    ({ t with entrycount := n } : CsHashtable K V).Held fns order frees :=
  ⟨⟨h.lists.listing, h.lists.back, h.lists.free, h.lists.nodup, h.lists.allocated⟩, h.chained, h.filled⟩

theorem Sized.recount (n : Nat) (h : t.Sized) : ({ t with entrycount := n } : CsHashtable K V).Sized :=
  ⟨h.index, h.pos⟩

theorem data_recount (n : Nat) : ({ t with entrycount := n } : CsHashtable K V).data = t.data := rfl

theorem Rep.grow {c : Prop} [Decidable c] (mem : Bool) (h : t.Rep fns order frees) :
    ∃ u, (if c then (({ t with entrycount := inc32 t.entrycount } : CsHashtable K V).csHashtableExpand
        mem).1 else { t with entrycount := inc32 t.entrycount }) = u ∧
      u.Held fns order frees ∧ u.Sized ∧ u.entrycount = (order.length + 1) % 2 ^ 32 ∧
      u.data = t.data := by
  have hcount : inc32 t.entrycount = (order.length + 1) % 2 ^ 32 := by
    rw [h.count, inc32_mod]
  have hheld := h.toHeld.recount (inc32 t.entrycount)
  have hsized := h.sized.recount (inc32 t.entrycount)
  refine ⟨_, rfl, ?_⟩
  split
  · have hindex : -1 ≤ t.primeindex ∧ t.primeindex ≤ 25 := by
      have := h.sized.index
      omega
    refine ⟨hheld.expand mem, sized_expand hindex (.inr hsized), ?_, ?_⟩
    · rw [expand_entrycount]
      exact hcount
    · rw [expand_data]
      rfl
  · exact ⟨hheld, hsized, hcount, rfl⟩

theorem Rep.insert (k : K) (v : V) (memTable memEntry : Bool) (h : t.Rep fns order frees) :
    ∃ order' frees', (t.csHashtableInsert fns k v memTable memEntry).1.Rep fns order' frees' ∧
      order'.filterMap (t.csHashtableInsert fns k v memTable memEntry).1.data =
        order.filterMap t.data ++
          if (t.csHashtableInsert fns k v memTable memEntry).2 then [(k, v)] else [] := by
  unfold csHashtableInsert
  simp only
  obtain ⟨u, hu, hheld, hsized, hcount, hdata⟩ := h.grow (c := inc32 t.entrycount > t.loadlimit) memTable
  rw [hu]
  have hlists := hheld.lists
  split
  next hfree =>
    have hnil : frees = [] := List.head?_eq_none_iff.mp (hlists.free.head.symm.trans hfree)
    subst hnil
    split
    next =>
      refine ⟨order, [], ⟨hheld.recount _, hsized.recount _, ?_⟩, ?_⟩
      · show dec32 u.entrycount = _
        rw [hcount, dec32_mod]
      · rw [data_recount, hdata, if_neg Bool.false_ne_true, List.append_nil]
    next =>
      have hnew : u.allocated ∉ order := by
        intro hin
        exact Nat.lt_irrefl _ (hlists.allocated _ (List.mem_append_left _ hin))
      have hroom : ({ u with allocated := u.allocated + 1 } : CsHashtable K V).Held fns order [] :=
        ⟨⟨hlists.listing, hlists.back, hlists.free, hlists.nodup, fun e he =>
          Nat.lt_succ_of_lt (hlists.allocated e he)⟩, hheld.chained, hheld.filled⟩
      refine ⟨order ++ [u.allocated], [], ⟨hroom.putEntry k v hnew List.not_mem_nil
        (Nat.lt_succ_self _), Sized.putEntry k v ⟨hsized.index, hsized.pos⟩, ?_⟩, ?_⟩
      · rw [putEntry_entrycount, List.length_append]
        exact hcount
      · rw [← hdata]
        exact putEntry_data k v hnew
  next e hfree =>
    cases frees with
    | nil => cases hfree.symm.trans hlists.free.head
    | cons b frees =>
      cases hfree.symm.trans hlists.free.head
      have hnodup := hlists.nodup
      rw [List.nodup_middle, List.nodup_cons, List.mem_append, not_or] at hnodup
      have hroom : ({ u with freeHead := u.listNext e } : CsHashtable K V).Held fns order frees :=
        ⟨⟨hlists.listing, hlists.back, hlists.free.2, hnodup.2, fun b hb =>
          hlists.allocated b (by
            rw [List.mem_append] at hb ⊢
            exact hb.imp_right (List.mem_cons_of_mem e))⟩, hheld.chained, hheld.filled⟩
      have hlt : e < u.allocated :=
        hlists.allocated e (List.mem_append_right _ List.mem_cons_self)
      refine ⟨order ++ [e], frees, ⟨hroom.putEntry k v hnodup.1.1 hnodup.1.2 hlt,
        Sized.putEntry k v ⟨hsized.index, hsized.pos⟩, ?_⟩, ?_⟩
      · rw [putEntry_entrycount, List.length_append]
        exact hcount
      · rw [← hdata]
        exact putEntry_data k v hnodup.1.1

end CsHashtable

end OpaFm.Cs
