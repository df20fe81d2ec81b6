import Mathlib.Data.Finset.Basic
import Mathlib.Algebra.BigOperators.Group.List.Basic
import Mathlib.Algebra.Order.Group.Nat
import Mathlib.Algebra.GroupWithZero.Nat
import Mathlib.Data.List.Basic

/-!
# Tilings

The items of a list tile a set of cells if they are pairwise disjoint and cover the set.
-/

namespace OpaFm.Lib

section

variable {α β : Type*} [DecidableEq β] {cells : α → Finset β} {l m : List α}
  {s t : Finset β} {a : α}

structure Tiles (cells : α → Finset β) (l : List α) (s : Finset β) : Prop where
  disjoint : l.Pairwise fun a b => Disjoint (cells a) (cells b)
  cover : ∀ c, (∃ a ∈ l, c ∈ cells a) ↔ c ∈ s

namespace Tiles

omit [DecidableEq β] in
theorem nil : Tiles cells [] ∅ := by
  constructor
  · exact List.Pairwise.nil
  · intro c
    simp

omit [DecidableEq β] in
theorem subset (h : Tiles cells l s) (ha : a ∈ l) : cells a ⊆ s := by
  intro c hc
  exact (h.cover c).mp ⟨a, ha, hc⟩

theorem append (hl : Tiles cells l s) (hm : Tiles cells m t) (hst : Disjoint s t) :
    Tiles cells (l ++ m) (s ∪ t) := by
  constructor
  · rw [List.pairwise_append]
    refine ⟨hl.disjoint, hm.disjoint, ?_⟩
    intro a ha b hb
    apply hst.mono
    · exact hl.subset ha
    · exact hm.subset hb
  · intro c
    rw [Finset.mem_union, ← hl.cover, ← hm.cover]
    simp only [List.mem_append]
    constructor
    · rintro ⟨a, ha | ha, hc⟩
      · exact Or.inl ⟨a, ha, hc⟩
      · exact Or.inr ⟨a, ha, hc⟩
    · rintro (⟨a, ha, hc⟩ | ⟨a, ha, hc⟩)
      · exact ⟨a, Or.inl ha, hc⟩
      · exact ⟨a, Or.inr ha, hc⟩

omit [DecidableEq β] in
theorem singleton (a : α) : Tiles cells [a] (cells a) := by
  constructor
  · exact List.pairwise_singleton _ a
  · intro c
    simp

end Tiles

end

/-!
## Cutting a list into pieces

Items are cut in their order into pieces of `m` items, of which the last may be shorter.
A piece is given by the index of its first item and the number of its items.
-/

variable {α : Type*} {m n : Nat}

def chunks (m n : Nat) : List (Nat × Nat) :=
  (List.range ((n + m - 1) / m)).map fun i => (i * m, min m (n - i * m))

theorem lt_ceil_iff (hm : 0 < m) {i : Nat} : i < (n + m - 1) / m ↔ i * m < n := by
  rw [Nat.lt_iff_add_one_le, Nat.le_div_iff_mul_le hm, Nat.add_mul]
  omega

theorem ceil_eq_div_add (hm : 0 < m) :
    (n + m - 1) / m = n / m + if n % m ≠ 0 then 1 else 0 := by
  have hsplit := Nat.div_add_mod n m
  have hlt := Nat.mod_lt n hm
  by_cases hrest : n % m = 0
  · rw [if_neg (not_not.mpr hrest), Nat.add_zero]
    refine Nat.div_eq_of_lt_le ?_ ?_
    · rw [Nat.mul_comm]
      omega
    · rw [Nat.add_mul, Nat.mul_comm]
      omega
  · rw [if_pos hrest]
    refine Nat.div_eq_of_lt_le ?_ ?_
    · rw [Nat.add_mul, Nat.mul_comm]
      omega
    · rw [Nat.add_mul, Nat.add_mul, Nat.mul_comm]
      omega

theorem le_ceil_mul (hm : 0 < m) : n ≤ (n + m - 1) / m * m :=
  Nat.le_of_not_lt fun h => absurd ((lt_ceil_iff hm).mpr h) (Nat.lt_irrefl _)

theorem mem_chunks (hm : 0 < m) {c : Nat × Nat} (hc : c ∈ chunks m n) :
    1 ≤ c.2 ∧ c.2 ≤ m ∧ c.1 + c.2 ≤ n := by
  obtain ⟨i, hi, rfl⟩ := List.mem_map.mp hc
  have hlt : i * m < n := (lt_ceil_iff hm).mp (List.mem_range.mp hi)
  show 1 ≤ min m (n - i * m) ∧ min m (n - i * m) ≤ m ∧ i * m + min m (n - i * m) ≤ n
  omega

theorem flatMap_range_chunk (l : List α) (k : Nat) :
    ((List.range k).flatMap fun i => (l.drop (i * m)).take (min m (l.length - i * m))) =
      l.take (k * m) := by
  induction k with
  | zero => simp
  | succ k ih =>
    have hlast : (l.drop (k * m)).take (min m (l.length - k * m)) = (l.drop (k * m)).take m := by
      rw [← List.length_drop, ← List.take_eq_take_min]
    rw [List.range_succ, List.flatMap_append, ih, Nat.succ_mul, List.take_add]
    simp [hlast]

theorem chunks_flatMap (hm : 0 < m) (l : List α) :
    ((chunks m l.length).flatMap fun c => (l.drop c.1).take c.2) = l := by
  rw [chunks, List.flatMap_map, flatMap_range_chunk, List.take_of_length_le (le_ceil_mul hm)]

theorem range'_eq_take_drop {s c : Nat} (h : s + c ≤ n) :
    List.range' s c = ((List.range n).drop s).take c := by
  apply List.ext_getElem
  · simp
    omega
  · simp

theorem chunks_ports (hm : 0 < m) (n : Nat) :
    ((chunks m n).flatMap fun c => List.range' c.1 c.2) = List.range n := by
  have hpieces := chunks_flatMap hm (List.range n)
  rw [List.length_range] at hpieces
  rw [← hpieces]
  exact List.flatMap_congr fun c hc => range'_eq_take_drop (mem_chunks hm hc).2.2

theorem chunks_sum (hm : 0 < m) (n : Nat) : ((chunks m n).map Prod.snd).sum = n := by
  have hlength := congrArg List.length (chunks_ports hm n)
  simpa [List.length_flatMap, Function.comp_def] using hlength

end OpaFm.Lib
