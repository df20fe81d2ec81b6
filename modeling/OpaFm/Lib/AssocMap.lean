import Mathlib.Data.List.Nodup
import Mathlib.Algebra.Order.BigOperators.Group.List
import Mathlib.Algebra.Order.Ring.Nat
import Mathlib.Data.List.Basic

/-!
# Association lists as maps

A map with a handful of entries, kept as a list of pairs whose keys are
distinct.  `List.lookup` reads it; `set` overwrites the entry at a key.
-/

namespace OpaFm.Lib.AssocMap

variable {κ ν : Type*} [DecidableEq κ]

/-- Overwrite the value at `k`, if there is one. -/
def set (m : List (κ × ν)) (k : κ) (v : ν) : List (κ × ν) :=
  m.map fun e => if e.1 = k then (e.1, v) else e

theorem mem_of_lookup {m : List (κ × ν)} {k : κ} {v : ν} (h : m.lookup k = some v) :
    (k, v) ∈ m := by
  rw [List.lookup_eq_some_iff] at h
  obtain ⟨l₁, l₂, rfl, -⟩ := h
  simp

theorem lookup_eq_none {m : List (κ × ν)} {k : κ} :
    m.lookup k = none ↔ k ∉ m.map Prod.fst := by
  rw [List.lookup_eq_none_iff]
  simp only [List.mem_map, not_exists, not_and, bne_iff_ne, ne_eq]
  exact ⟨fun h e he hk => h e he hk.symm, fun h e he hk => h e he hk.symm⟩

theorem lookup_of_mem {m : List (κ × ν)} (hnd : (m.map Prod.fst).Nodup) {k : κ} {v : ν}
    (h : (k, v) ∈ m) : m.lookup k = some v := by
  cases hl : m.lookup k with
  | none => exact absurd (List.mem_map_of_mem h) (lookup_eq_none.mp hl)
  | some w =>
    have heq := List.inj_on_of_nodup_map hnd h (mem_of_lookup hl) rfl
    rw [(Prod.mk.inj heq).2]

@[simp] theorem keys_set (m : List (κ × ν)) (k : κ) (v : ν) :
    (set m k v).map Prod.fst = m.map Prod.fst := by
  simp only [set, List.map_map]
  apply List.map_congr_left
  intro e _
  simp only [Function.comp_apply]
  split <;> rfl

theorem mem_set {m : List (κ × ν)} {k k' : κ} {v v' : ν} (h : (k', v') ∈ set m k v) :
    k' = k ∧ v' = v ∨ k' ≠ k ∧ (k', v') ∈ m := by
  simp only [set, List.mem_map] at h
  obtain ⟨e, he, heq⟩ := h
  split at heq
  · rename_i hk
    exact .inl ⟨by rw [← (Prod.mk.inj heq).1, hk], (Prod.mk.inj heq).2.symm⟩
  · rename_i hk
    subst heq
    exact .inr ⟨hk, he⟩

theorem lookup_set_self {m : List (κ × ν)} {k : κ} {v : ν} (h : m.lookup k = some v) (v' : ν) :
    (set m k v').lookup k = some v' := by
  induction m with
  | nil => simp at h
  | cons e m ih =>
    by_cases hk : e.1 = k
    · simp [set, hk]
    · have hne : (k == e.1) = false := beq_false_of_ne (Ne.symm hk)
      have hcons : set (e :: m) k v' = e :: set m k v' := by
        simp [set, hk]
      rw [List.lookup_cons, hne] at h
      rw [hcons, List.lookup_cons, hne]
      exact ih h

theorem set_of_not_mem {m : List (κ × ν)} {k : κ} (h : k ∉ m.map Prod.fst) (v : ν) :
    set m k v = m := by
  refine (List.map_congr_left fun e he => ?_).trans (List.map_id m)
  have hne : e.1 ≠ k := fun hk => h (hk ▸ List.mem_map_of_mem he)
  simp [hne]

/-- Overwriting one entry moves a sum over the values by that entry only. -/
theorem sum_set {m : List (κ × ν)} (hnd : (m.map Prod.fst).Nodup) {k : κ} {v : ν}
    (h : (k, v) ∈ m) (v' : ν) (f : ν → Nat) :
    ((set m k v').map fun e => f e.2).sum + f v = (m.map fun e => f e.2).sum + f v' := by
  induction m with
  | nil => simp at h
  | cons e m ih =>
    rw [List.map_cons, List.nodup_cons] at hnd
    rcases List.mem_cons.mp h with rfl | hm
    · have hrest : set m k v' = m := set_of_not_mem hnd.1 v'
      have hset : set ((k, v) :: m) k v' = (k, v') :: set m k v' := by
        simp [set]
      rw [hset, hrest]
      simp only [List.map_cons, List.sum_cons]
      omega
    · have hne : e.1 ≠ k := fun hk => hnd.1 (hk ▸ List.mem_map_of_mem hm)
      have hset : set (e :: m) k v' = e :: set m k v' := by
        simp [set, hne]
      have := ih hnd.2 hm
      rw [hset]
      simp only [List.map_cons, List.sum_cons]
      omega

omit [DecidableEq κ] in
theorem le_sum_of_mem {m : List (κ × ν)} {k : κ} {v : ν} (h : (k, v) ∈ m) (f : ν → Nat) :
    f v ≤ (m.map fun e => f e.2).sum :=
  List.le_sum_of_mem (List.mem_map.mpr ⟨(k, v), h, rfl⟩)

end OpaFm.Lib.AssocMap

/-!
## Ordered association lists

Pairs in the order in which they were added.  A key may stand in several pairs; the
operations are about the latest pair whose key has a property.
-/

namespace OpaFm.Lib

variable {K V : Type*}

def latest (test : K → Bool) (l : List (K × V)) : Option V :=
  (l.reverse.find? (test ·.1)).map Prod.snd

def eraseLatest (test : K → Bool) (l : List (K × V)) : List (K × V) :=
  (l.reverse.eraseP (test ·.1)).reverse

def setLatest (test : K → Bool) (v : V) (l : List (K × V)) : List (K × V) :=
  (l.reverse.replaceF fun x => if test x.1 then some (x.1, v) else none).reverse

variable {test : K → Bool} {l m : List (K × V)} {x : K × V}

section Absent

variable (h : ∀ x ∈ l, test x.1 = false)
include h

theorem latest_absent : latest test l = none := by
  unfold latest
  rw [Option.map_eq_none_iff, List.find?_eq_none]
  intro x hx
  rw [h x (List.mem_reverse.mp hx)]
  exact Bool.false_ne_true

theorem eraseLatest_absent : eraseLatest test l = l := by
  unfold eraseLatest
  rw [List.eraseP_of_forall_not, List.reverse_reverse]
  intro x hx
  rw [h x (List.mem_reverse.mp hx)]
  exact Bool.false_ne_true

theorem setLatest_absent (v : V) : setLatest test v l = l := by
  unfold setLatest
  rw [List.replaceF_of_forall_none, List.reverse_reverse]
  intro x hx
  rw [h x (List.mem_reverse.mp hx)]
  exact if_neg Bool.false_ne_true

end Absent

section Present

variable (hx : test x.1 = true) (hm : ∀ y ∈ m, test y.1 = false)
include hx hm

theorem latest_present : latest test (l ++ x :: m) = some x.2 := by
  have hnone : m.reverse.find? (test ·.1) = none := by
    rw [List.find?_eq_none]
    intro y hy
    rw [hm y (List.mem_reverse.mp hy)]
    exact Bool.false_ne_true
  unfold latest
  rw [List.reverse_append, List.reverse_cons, List.append_assoc, List.find?_append, hnone]
  simp [hx]

theorem eraseLatest_present : eraseLatest test (l ++ x :: m) = l ++ m := by
  have hnot : ∀ y ∈ m.reverse, ¬test y.1 = true := by
    intro y hy
    rw [hm y (List.mem_reverse.mp hy)]
    exact Bool.false_ne_true
  unfold eraseLatest
  rw [List.reverse_append, List.reverse_cons, List.append_assoc, List.eraseP_append_right _ hnot]
  simp [hx]

theorem setLatest_present (v : V) : setLatest test v (l ++ x :: m) = l ++ (x.1, v) :: m := by
  have hskip : ∀ r : List (K × V), (∀ y ∈ r, test y.1 = false) →
      (r ++ x :: l.reverse).replaceF (fun x => if test x.1 then some (x.1, v) else none) =
        r ++ (x.1, v) :: l.reverse := by
    intro r
    induction r with
    | nil =>
      intro _
      exact List.replaceF_cons_of_some _ (if_pos hx)
    | cons y r ih =>
      intro hr
      have hy : (if test y.1 = true then some (y.1, v) else none) = none := by
        rw [hr y List.mem_cons_self]
        exact if_neg Bool.false_ne_true
      rw [List.cons_append, List.replaceF_cons_of_none _ hy, ih fun z hz => hr z (List.mem_cons_of_mem y hz)]
      rfl
  unfold setLatest
  rw [List.reverse_append, List.reverse_cons, List.append_assoc, List.singleton_append,
    hskip m.reverse fun y hy => hm y (List.mem_reverse.mp hy)]
  simp

end Present

end OpaFm.Lib
