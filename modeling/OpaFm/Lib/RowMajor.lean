import Mathlib.Data.List.Forall2
import Mathlib.Data.List.Range
import Mathlib.Data.Nat.Basic
import Mathlib.Logic.Function.Basic

/-!
# Square matrices in rows

A matrix with rows of `m` entries is stored row after row.
-/

namespace OpaFm.Lib

variable {α : Type*} {m n : Nat}

def rowMajor (m x y : Nat) : Nat := x * m + y

theorem rowMajor_inj {x y x' y' : Nat} (hy : y < m) (hy' : y' < m) :
    rowMajor m x y = rowMajor m x' y' ↔ x = x' ∧ y = y' := by
  have hpos : 0 < m := by omega
  constructor
  · intro h
    have hdiv : (x * m + y) / m = (x' * m + y') / m := congrArg (· / m) h
    have hmod : (x * m + y) % m = (x' * m + y') % m := congrArg (· % m) h
    rw [Nat.mul_comm, Nat.mul_comm x', Nat.mul_add_div hpos, Nat.mul_add_div hpos,
      Nat.div_eq_of_lt hy, Nat.div_eq_of_lt hy'] at hdiv
    rw [Nat.mul_comm, Nat.mul_comm x', Nat.mul_add_mod, Nat.mul_add_mod, Nat.mod_eq_of_lt hy,
      Nat.mod_eq_of_lt hy'] at hmod
    exact ⟨by omega, hmod⟩
  · rintro ⟨rfl, rfl⟩
    rfl

theorem update_rowMajor (f : Nat → α) {x y i j : Nat} (hy : y < m) (hj : j < m) (a : α) :
    Function.update f (rowMajor m i j) a (rowMajor m x y) =
      if x = i ∧ y = j then a else f (rowMajor m x y) := by
  by_cases h : x = i ∧ y = j
  · rw [if_pos h, h.1, h.2, Function.update_self]
  · rw [if_neg h, Function.update_of_ne fun heq => h ((rowMajor_inj hy hj).mp heq)]

/-- The first `n` entries of the first `n` rows, as a matrix with rows of `n`. -/
def copyRows (m n : Nat) (src dst : Nat → α) : Nat → α :=
  (List.range n).foldl
    (fun dst i k => if i * n ≤ k ∧ k < i * n + n then src (rowMajor m i (k - i * n)) else dst k) dst

theorem copyRows_rowMajor (src dst : Nat → α) {x y : Nat} (hx : x < n) (hy : y < n) :
    copyRows m n src dst (rowMajor n x y) = src (rowMajor m x y) := by
  have hrows : ∀ k, (List.range k).foldl
      (fun dst i k => if i * n ≤ k ∧ k < i * n + n then src (rowMajor m i (k - i * n)) else dst k)
        dst (rowMajor n x y) =
      if x < k then src (rowMajor m x y) else dst (rowMajor n x y) := by
    intro k
    induction k with
    | zero => rfl
    | succ k ih =>
      rw [List.range_succ, List.foldl_append, List.foldl_cons, List.foldl_nil]
      by_cases hrow : x = k
      · have hin : k * n ≤ rowMajor n x y ∧ rowMajor n x y < k * n + n := by
          unfold rowMajor
          rw [hrow]
          omega
        have hsub : rowMajor n x y - k * n = y := by
          unfold rowMajor
          rw [hrow]
          omega
        rw [if_pos hin, hsub, hrow, if_pos (Nat.lt_succ_self k)]
      · have hout : ¬(k * n ≤ rowMajor n x y ∧ rowMajor n x y < k * n + n) := by
          intro hin
          have hplace : rowMajor n x y = rowMajor n k (rowMajor n x y - k * n) := by
            conv_rhs => rw [rowMajor]
            omega
          exact hrow ((rowMajor_inj hy (by omega)).mp hplace).1
        rw [if_neg hout, ih]
        have hiff : x < k ↔ x < k + 1 := by omega
        simp only [hiff]
  rw [copyRows, hrows, if_pos hx]

/-! ## Boxes

A box has a length for each of its dimensions, of which the last varies fastest. -/

def boxVolume : List Nat → Nat
  | [] => 1
  | l :: lengths => l * boxVolume lengths

abbrev InBox (lengths point : List Nat) : Prop := List.Forall₂ (fun l c => c < l) lengths point

def boxPlace : List Nat → List Nat → Nat
  | _ :: lengths, c :: point => rowMajor (boxVolume lengths) c (boxPlace lengths point)
  | _, _ => 0

def boxPoint : List Nat → Nat → List Nat
  | [], _ => []
  | _ :: lengths, k => k / boxVolume lengths :: boxPoint lengths (k % boxVolume lengths)

theorem boxVolume_pos {lengths : List Nat} (h : ∀ l ∈ lengths, 0 < l) : 0 < boxVolume lengths := by
  induction lengths with
  | nil => exact Nat.one_pos
  | cons l lengths ih =>
    exact Nat.mul_pos (h l List.mem_cons_self) (ih fun k hk => h k (List.mem_cons_of_mem l hk))

theorem boxPlace_lt {lengths point : List Nat} (h : InBox lengths point) :
    boxPlace lengths point < boxVolume lengths := by
  induction h with
  | nil => exact Nat.one_pos
  | @cons l c lengths point hc _ ih =>
    calc rowMajor (boxVolume lengths) c (boxPlace lengths point)
        < c * boxVolume lengths + boxVolume lengths := Nat.add_lt_add_left ih _
      _ = (c + 1) * boxVolume lengths := (Nat.succ_mul c _).symm
      _ ≤ l * boxVolume lengths := Nat.mul_le_mul_right _ hc

theorem boxPlace_inj {lengths point point' : List Nat} (h : InBox lengths point)
    (h' : InBox lengths point') (heq : boxPlace lengths point = boxPlace lengths point') :
    point = point' := by
  induction h generalizing point' with
  | nil =>
    cases h'
    rfl
  | cons hc htail ih =>
    cases h' with
    | cons hc' htail' =>
      obtain ⟨hhead, hrest⟩ :=
        (rowMajor_inj (boxPlace_lt htail) (boxPlace_lt htail')).mp heq
      rw [hhead, ih htail' hrest]

theorem boxPoint_inBox {lengths : List Nat} (hpos : ∀ l ∈ lengths, 0 < l) :
    ∀ {k : Nat}, k < boxVolume lengths → InBox lengths (boxPoint lengths k) := by
  induction lengths with
  | nil => exact fun _ => .nil
  | cons l lengths ih =>
    intro k hk
    have hrest : ∀ l ∈ lengths, 0 < l := fun j hj => hpos j (List.mem_cons_of_mem l hj)
    have hvolume := boxVolume_pos hrest
    exact .cons ((Nat.div_lt_iff_lt_mul hvolume).mpr hk) (ih hrest (Nat.mod_lt k hvolume))

theorem boxPlace_boxPoint {lengths : List Nat} (hpos : ∀ l ∈ lengths, 0 < l) :
    ∀ {k : Nat}, k < boxVolume lengths → boxPlace lengths (boxPoint lengths k) = k := by
  induction lengths with
  | nil =>
    intro k hk
    exact (Nat.lt_one_iff.mp hk).symm
  | cons l lengths ih =>
    intro k _
    have hrest : ∀ l ∈ lengths, 0 < l := fun j hj => hpos j (List.mem_cons_of_mem l hj)
    show rowMajor (boxVolume lengths) (k / boxVolume lengths)
      (boxPlace lengths (boxPoint lengths (k % boxVolume lengths))) = k
    rw [ih hrest (Nat.mod_lt k (boxVolume_pos hrest))]
    exact Nat.div_add_mod' k _

theorem boxPoint_boxPlace {lengths point : List Nat} (hpos : ∀ l ∈ lengths, 0 < l)
    (h : InBox lengths point) : boxPoint lengths (boxPlace lengths point) = point :=
  boxPlace_inj (boxPoint_inBox hpos (boxPlace_lt h)) h (boxPlace_boxPoint hpos (boxPlace_lt h))

end OpaFm.Lib
