import OpaFm.Lib.Floyd
import OpaFm.Lib.Fold
import OpaFm.Routing.CostMatrix
import OpaFm.Lib.FirstMatch
import Mathlib.Data.Fintype.Basic
import Mathlib.Data.List.FinRange

/-!
# One round of relaxation

The loops of `sm_routing_func_calc_cost_matrix_floyds` work in place and on half
of the pairs.  A round still has the effect of relaxing all entries at once, as far as
masks are seen through a view that has nothing at the places of a switch and itself.
-/

namespace OpaFm.Routing

open OpaFm.Lib

/-! ## A round -/

def relaxedCost (s : CostMatrix) (k i j : Nat) : Nat := min (s.cost i j) (s.cost i k + s.cost k j)

def relaxedPath (s : CostMatrix) (k i j : Nat) : Finset Nat :=
  if s.cost i k + s.cost k j < s.cost i j then s.path i k
  else if s.cost i k + s.cost k j = s.cost i j then s.path i j ∪ s.path i k
  else s.path i j

structure Kept (s₀ s : CostMatrix) (i j : Nat) : Prop where
  cost : s.cost i j = s₀.cost i j
  path : s.path i j = s₀.path i j
  cost' : s.cost j i = s₀.cost j i
  path' : s.path j i = s₀.path j i

structure Renewed (s₀ : CostMatrix) (k : Nat) (s : CostMatrix) (i j : Nat) : Prop where
  cost : s.cost i j = relaxedCost s₀ k i j
  path : s.path i j = relaxedPath s₀ k i j
  cost' : s.cost j i = relaxedCost s₀ k j i
  path' : s.path j i = relaxedPath s₀ k j i

def Midway (n : Nat) (s₀ : CostMatrix) (k : Nat) (s : CostMatrix) : Prop :=
  ∀ i j, i < n → j < n → Kept s₀ s i j ∨ Renewed s₀ k s i j

structure RoundOk (n : Nat) (s₀ : CostMatrix) : Prop where
  diag : ∀ i < n, s₀.cost i i = 0
  pos : ∀ i < n, ∀ j < n, i ≠ j → 0 < s₀.cost i j
  symm : ∀ i < n, ∀ j < n, s₀.cost i j = s₀.cost j i
  le_inf : ∀ i < n, ∀ j < n, s₀.cost i j ≤ costInfinity

section Round

variable {n : Nat} {s₀ s : CostMatrix} {k : Nat}

theorem Renewed.symm {i j : Nat} (h : Renewed s₀ k s i j) : Renewed s₀ k s j i :=
  ⟨h.cost', h.path', h.cost, h.path⟩

theorem relaxPair_entries (k : Nat) (s : CostMatrix) {i j : Nat} (hij : i ≠ j) :
    let value := (s.cost i k + s.cost k j) % 0x10000
    let s' := relaxPair k i s j
    (s'.cost i j = if value < s.cost i j then value else s.cost i j) ∧
      (s'.cost j i = if value < s.cost i j then value else s.cost j i) ∧
      (s'.path i j = if value < s.cost i j then s.path i k
        else if value = s.cost i j then s.path i j ∪ s.path i k else s.path i j) ∧
      (s'.path j i = if value < s.cost i j then s.path j k
        else if value = s.cost i j then s.path j i ∪ s.path j k else s.path j i) ∧
      ∀ x y, ¬(x = i ∧ y = j) → ¬(x = j ∧ y = i) →
        s'.cost x y = s.cost x y ∧ s'.path x y = s.path x y := by
  intro value s'
  simp only [s', relaxPair]
  split
  · refine ⟨?_, ?_, ?_, ?_, fun x y h h' => ?_⟩
    · simp [setEntry, hij, value]
    · simp [setEntry, value]
    · simp [setEntry, hij]
    · simp [setEntry, hij.symm]
    · simp only [setEntry, h, h', if_false, and_self]
  · split
    · refine ⟨rfl, rfl, ?_, ?_, fun x y h h' => ?_⟩
      · simp [setEntry, hij]
      · simp [setEntry, hij.symm]
      · simp only [setEntry, h, h', if_false, and_self]
    · exact ⟨rfl, rfl, rfl, rfl, fun _ _ _ _ => ⟨rfl, rfl⟩⟩

theorem relaxedPath_union (s₀ : CostMatrix) (k i j : Nat)
    (h : s₀.cost i k + s₀.cost k j = relaxedCost s₀ k i j) :
    relaxedPath s₀ k i j ∪ s₀.path i k = relaxedPath s₀ k i j := by
  unfold relaxedCost at h
  unfold relaxedPath
  split
  · exact Finset.union_self _
  · rw [if_pos (by omega), Finset.union_assoc, Finset.union_self]

variable (hok : RoundOk n s₀) (hk : k < n)

include hok hk

theorem Midway.column (hs : Midway n s₀ k s) {i : Nat} (hi : i < n) :
    s.cost i k = s₀.cost i k ∧ s.cost k i = s₀.cost k i ∧ s.path i k = s₀.path i k := by
  have hdiag := hok.diag k hk
  rcases hs i k hi hk with h | h
  · exact ⟨h.cost, h.cost', h.path⟩
  · refine ⟨?_, ?_, ?_⟩
    · rw [h.cost, relaxedCost, hdiag, Nat.add_zero, min_self]
    · rw [h.cost', relaxedCost, hdiag, Nat.zero_add, min_self]
    · rw [h.path, relaxedPath, hdiag, Nat.add_zero, if_neg (Nat.lt_irrefl _), if_pos rfl,
        Finset.union_self]

theorem Midway.value_eq (hs : Midway n s₀ k s) {i j : Nat} (hi : i < n) (hj : j < n) :
    (s.cost i k + s.cost k j) % 0x10000 = s₀.cost i k + s₀.cost k j := by
  have h₁ := hok.le_inf i hi k hk
  have h₂ := hok.le_inf k hk j hj
  rw [(hs.column hok hk hi).1, (hs.column hok hk hj).2.1]
  unfold costInfinity at h₁ h₂
  omega

theorem relaxPair_spec (hs : Midway n s₀ k s) {i j : Nat} (hi : i < n) (hj : j < n) (hij : i ≠ j) :
    Renewed s₀ k (relaxPair k i s j) i j ∧
      ∀ x y, ¬(x = i ∧ y = j) → ¬(x = j ∧ y = i) →
        (relaxPair k i s j).cost x y = s.cost x y ∧ (relaxPair k i s j).path x y = s.path x y := by
  have hvalue := hs.value_eq hok hk hi hj
  have hpath := (hs.column hok hk hi).2.2
  have hpath' := (hs.column hok hk hj).2.2
  have hsum : s₀.cost j k + s₀.cost k i = s₀.cost i k + s₀.cost k j := by
    rw [hok.symm j hj k hk, hok.symm k hk i hi, Nat.add_comm]
  have hji : s₀.cost j i = s₀.cost i j := hok.symm j hj i hi
  obtain ⟨hc, hc', hp, hp', hrest⟩ := relaxPair_entries k s hij
  rw [hvalue] at hc hc' hp hp'
  rw [hpath] at hp
  rw [hpath'] at hp'
  refine ⟨?_, hrest⟩
  rcases hs i j hi hj with h | h
  · rw [h.cost] at hc hc' hp hp'
    rw [h.cost', hji] at hc'
    rw [h.path] at hp
    rw [h.path'] at hp'
    refine ⟨?_, ?_, ?_, ?_⟩
    · rw [hc, relaxedCost]
      split <;> omega
    · rw [hp, relaxedPath]
    · rw [hc', relaxedCost, hsum, hji]
      split <;> omega
    · rw [hp', relaxedPath, hsum, hji]
  · -- relaxing a pair again does not change it
    have hle : s.cost i j ≤ s₀.cost i k + s₀.cost k j := by
      rw [h.cost]
      exact min_le_right _ _
    rw [if_neg (Nat.not_lt.mpr hle)] at hc hc' hp hp'
    refine ⟨hc.trans h.cost, ?_, hc'.trans h.cost', ?_⟩
    · rw [hp, h.path]
      split
      · rename_i heq
        exact relaxedPath_union s₀ k i j (heq.trans h.cost)
      · rfl
    · rw [hp', h.path']
      split
      · rename_i heq
        have hsame : s₀.cost j k + s₀.cost k i = relaxedCost s₀ k j i := by
          rw [relaxedCost, hsum, hji]
          exact heq.trans h.cost
        exact relaxedPath_union s₀ k j i hsame
      · rfl

theorem Midway.relaxPair (hs : Midway n s₀ k s) {i j : Nat} (hi : i < n) (hj : j < n)
    (hij : i ≠ j) : Midway n s₀ k (relaxPair k i s j) := by
  obtain ⟨hnew, hrest⟩ := relaxPair_spec hok hk hs hi hj hij
  intro x y hx hy
  by_cases hxy : x = i ∧ y = j
  · obtain ⟨rfl, rfl⟩ := hxy
    exact .inr hnew
  · by_cases hyx : x = j ∧ y = i
    · obtain ⟨rfl, rfl⟩ := hyx
      exact .inr hnew.symm
    · obtain ⟨hc, hp⟩ := hrest x y hxy hyx
      obtain ⟨hc', hp'⟩ := hrest y x (fun h => hyx ⟨h.2, h.1⟩) (fun h => hxy ⟨h.2, h.1⟩)
      rcases hs x y hx hy with h | h
      · exact .inl ⟨hc.trans h.cost, hp.trans h.path, hc'.trans h.cost', hp'.trans h.path'⟩
      · exact .inr ⟨hc.trans h.cost, hp.trans h.path, hc'.trans h.cost', hp'.trans h.path'⟩

end Round

/-! ## The effect of a round -/

structure MaskView (α : Type) where
  see : Nat → Finset Nat → Set α
  see_union : ∀ i P Q, see i (P ∪ Q) = see i P ∪ see i Q

def MaskView.table {α : Type} (φ : MaskView α) (n : Nat) (s : CostMatrix) : Floyd.Table (Fin n) α where
  cost i j := s.cost i j
  next i j := φ.see i (s.path i j)

section Rounds

variable {α : Type} {φ : MaskView α} {n : Nat}

def InEffect (φ : MaskView α) (s₀ : CostMatrix) (k : Nat) (s : CostMatrix) (r : Nat × Nat) : Prop :=
  s.cost r.1 r.2 = relaxedCost s₀ k r.1 r.2 ∧
    φ.see r.1 (s.path r.1 r.2) = φ.see r.1 (relaxedPath s₀ k r.1 r.2)

def IsPair (i j : Nat) (r : Nat × Nat) : Prop := r = (i, j) ∨ r = (j, i)

theorem Renewed.inEffect {s₀ s : CostMatrix} {k i j : Nat} (h : Renewed s₀ k s i j)
    {r : Nat × Nat} (hr : IsPair i j r) : InEffect φ s₀ k s r := by
  rcases hr with rfl | rfl
  · exact ⟨h.cost, congrArg _ h.path⟩
  · exact ⟨h.cost', congrArg _ h.path'⟩

variable {s₀ s : CostMatrix} {k : Nat} (hok : RoundOk n s₀) (hk : k < n)
  (hself : φ.see k (s₀.path k k) = ∅)

include hok hk

theorem relaxPair_inEffect (hs : Midway n s₀ k s) {i j : Nat}
    (hi : i < n) (hj : j < n) (hij : i ≠ j) {r : Nat × Nat}
    (hr : InEffect φ s₀ k s r ∨ IsPair i j r) : InEffect φ s₀ k (relaxPair k i s j) r := by
  obtain ⟨hnew, hrest⟩ := relaxPair_spec hok hk hs hi hj hij
  by_cases hpair : IsPair i j r
  · exact hnew.inEffect hpair
  · have hold := hr.resolve_right hpair
    obtain ⟨x, y⟩ := r
    obtain ⟨hc, hp⟩ := hrest x y (fun h => hpair (.inl (by rw [h.1, h.2])))
      (fun h => hpair (.inr (by rw [h.1, h.2])))
    exact ⟨hc.trans hold.1, (congrArg _ hp).trans hold.2⟩

include hself

theorem inEffect_of_infinite (hs : Midway n s₀ k s) {i j : Nat}
    (hi : i < n) (hj : j < n)
    (hinf : s₀.cost i k = costInfinity) {r : Nat × Nat} (hr : IsPair i j r) :
    InEffect φ s₀ k s r := by
  rcases hs i j hi hj with h | h
  · have hle := hok.le_inf i hi j hj
    have hji := hok.symm j hj i hi
    have hki := hok.symm k hk i hi
    have hjk := hok.symm j hj k hk
    -- a tie is only possible with the pivot itself
    have htie : s₀.cost i k + s₀.cost k j = s₀.cost i j → j = k := by
      intro heq
      by_contra hne
      have hpos := hok.pos k hk j hj (Ne.symm hne)
      omega
    rcases hr with rfl | rfl <;> simp only [InEffect]
    · refine ⟨by rw [h.cost, relaxedCost]; omega, ?_⟩
      rw [h.path, relaxedPath, if_neg (by omega)]
      split
      · rename_i heq
        rw [htie heq, Finset.union_self]
      · rfl
    · refine ⟨by rw [h.cost', relaxedCost]; omega, ?_⟩
      rw [h.path', relaxedPath, if_neg (by omega)]
      split
      · rename_i heq
        obtain rfl := htie (by omega)
        rw [φ.see_union, hself, Set.union_empty]
      · rfl
  · exact h.inEffect hr

theorem relaxRow_spec {i : Nat} (hi : i < n) (hs : Midway n s₀ k s) :
    Midway n s₀ k (relaxRow n k s i) ∧
      ∀ r, (InEffect φ s₀ k s r ∨ ∃ j, i < j ∧ j < n ∧ IsPair i j r) →
        InEffect φ s₀ k (relaxRow n k s i) r := by
  unfold relaxRow
  split
  · rename_i hinf
    rw [(hs.column hok hk hi).1] at hinf
    refine ⟨hs, fun r hr => hr.elim id ?_⟩
    rintro ⟨j, -, hj, hpair⟩
    exact inEffect_of_infinite hok hk hself hs hi hj hinf hpair
  · have hfold := foldl_establishes (l := List.range' (i + 1) (n - (i + 1)))
      (fun j hj s (hs : Midway n s₀ k s) =>
        have hlt : i + 1 ≤ j ∧ j < i + 1 + (n - (i + 1)) := List.mem_range'_1.mp hj
        have hij : i ≠ j := by omega
        ⟨hs.relaxPair hok hk hi (by omega) hij,
          fun r (hr : InEffect φ s₀ k s r ∨ IsPair i j r) =>
            relaxPair_inEffect hok hk hs hi (by omega) hij hr⟩) s hs
    refine ⟨hfold.1, fun r hr => hfold.2 r (hr.imp_right ?_)⟩
    rintro ⟨j, hij, hj, hpair⟩
    exact ⟨j, List.mem_range'_1.mpr ⟨by omega, by omega⟩, hpair⟩

theorem relaxRound_spec :
    Midway n s₀ k (relaxRound n s₀ k) ∧
      ∀ i j, i < n → j < n → i ≠ j →
        InEffect φ s₀ k (relaxRound n s₀ k) (i, j) := by
  have hstart : Midway n s₀ k s₀ := fun _ _ _ _ => .inl ⟨rfl, rfl, rfl, rfl⟩
  have hfold := foldl_establishes (l := List.range n)
    (fun i hi s (hs : Midway n s₀ k s) =>
      relaxRow_spec hok hk hself (List.mem_range.mp hi) hs) s₀ hstart
  refine ⟨hfold.1, fun i j hi hj hij => hfold.2 (i, j) (.inr ?_)⟩
  rcases Nat.lt_or_gt_of_ne hij with hlt | hlt
  · exact ⟨i, List.mem_range.mpr hi, j, hlt, hj, .inl rfl⟩
  · exact ⟨j, List.mem_range.mpr hj, i, hlt, hi, .inr rfl⟩

end Rounds

theorem MaskView.round {α : Type} {n : Nat} (φ : MaskView α) {s : CostMatrix} (hok : RoundOk n s) (k : Fin n)
    (hself : φ.see k (s.path k k) = ∅) :
    Floyd.Round k (φ.table n s) (φ.table n (relaxRound n s k)) := by
  obtain ⟨hmid, hall⟩ := relaxRound_spec hok k.isLt hself
  have hdiag : ∀ i : Fin n, (relaxRound n s k).cost i i = s.cost i i ∧
      (relaxRound n s k).path i i = s.path i i := by
    intro i
    rcases hmid i i i.isLt i.isLt with hold | hnew
    · exact ⟨hold.cost, hold.path⟩
    · have h0 := hok.diag i i.isLt
      by_cases hik : i = k
      · subst hik
        rw [hnew.cost, hnew.path, relaxedCost, relaxedPath, h0]
        simp
      · have hpos := hok.pos i i.isLt k k.isLt (Fin.val_ne_of_ne hik)
        rw [hnew.cost, hnew.path, relaxedCost, relaxedPath, h0, if_neg (by omega),
          if_neg (by omega)]
        exact ⟨Nat.zero_min _, rfl⟩
  refine ⟨fun i j => ?_, fun i => ?_, fun i j hij => ?_⟩
  · by_cases hij : i = j
    · subst hij
      have h0 := hok.diag i i.isLt
      simp only [MaskView.table]
      rw [(hdiag i).1, h0, Nat.zero_min]
    · exact (hall i j i.isLt j.isLt (Fin.val_ne_of_ne hij)).1
  · simp only [MaskView.table]
    rw [(hdiag i).2]
  · have hsteps := (hall i j i.isLt j.isLt (Fin.val_ne_of_ne hij)).2
    simp only [relaxedPath] at hsteps
    simp only [MaskView.table, hsteps]
    by_cases hlt : s.cost i k + s.cost k j < s.cost i j
    · simp only [hlt, if_true]
    · by_cases heq : s.cost i k + s.cost k j = s.cost i j
      · simp only [heq, Nat.lt_irrefl, if_true, if_false, φ.see_union]
      · simp only [hlt, heq, if_false]

theorem rounds_induction {n : Nat} {P : Set (Fin n) → CostMatrix → Prop} {s₀ : CostMatrix}
    (hinit : P ∅ s₀) (hround : ∀ K s, P K s → ∀ k : Fin n, P (insert k K) (relaxRound n s k)) :
    P Set.univ (smRoutingFuncCalcCostMatrixFloyds n s₀) := by
  have hrounds : ∀ m ≤ n, P {i | i.val < m} ((List.range m).foldl (relaxRound n) s₀) := by
    intro m
    induction m with
    | zero =>
      intro _
      have hnone : {i : Fin n | i.val < 0} = ∅ := by
        ext i
        simp
      rw [hnone]
      exact hinit
    | succ m ih =>
      intro hm
      have hmore : {i : Fin n | i.val < m + 1} = insert ⟨m, hm⟩ {i | i.val < m} := by
        ext i
        simp only [Set.mem_ofPred_eq, Set.mem_insert_iff, Fin.ext_iff]
        omega
      rw [List.range_succ, List.foldl_append, hmore]
      exact hround _ _ (ih (by omega)) ⟨m, hm⟩
  have hall := hrounds n le_rfl
  have huniv : {i : Fin n | i.val < n} = Set.univ := by
    ext i
    simp
  rwa [huniv] at hall

/-!
## The masks of all shortest paths

From any symmetric matrix of costs up to `Cost_Infinity` the rounds end in the least costs,
and a mask has all ports that start a least path, beside ports that lead back.
-/

/-! ### Sums in 16 bits -/

def relaxPairFits (k i : Nat) (s : CostMatrix) (j : Nat) : Option CostMatrix :=
  if s.cost i k + s.cost k j < 0x10000 then some (relaxPair k i s j) else none

def relaxRowFits (switches k : Nat) (s : CostMatrix) (i : Nat) : Option CostMatrix :=
  if s.cost i k = costInfinity then some s
  else (List.range' (i + 1) (switches - (i + 1))).foldlM (relaxPairFits k i) s

def relaxRoundFits (switches : Nat) (s : CostMatrix) (k : Nat) : Option CostMatrix :=
  (List.range switches).foldlM (relaxRowFits switches k) s

def calcCostMatrixFits (switches : Nat) (s : CostMatrix) : Option CostMatrix :=
  (List.range switches).foldlM (relaxRoundFits switches) s

def Bounded (n : Nat) (s : CostMatrix) : Prop := ∀ i < n, ∀ j < n, s.cost i j ≤ costInfinity

theorem relaxPairFits_eq {n k i j : Nat} (hk : k < n) (hi : i < n) (hj : j < n) (hij : i ≠ j)
    {s : CostMatrix} (hs : Bounded n s) :
    relaxPairFits k i s j = some (relaxPair k i s j) ∧ Bounded n (relaxPair k i s j) := by
  have h₁ := hs i hi k hk
  have h₂ := hs k hk j hj
  constructor
  · unfold costInfinity at h₁ h₂
    exact if_pos (by omega)
  · obtain ⟨hc, hc', -, -, hrest⟩ := relaxPair_entries k s hij
    have hold := hs i hi j hj
    intro x hx y hy
    by_cases hxy : x = i ∧ y = j
    · rw [hxy.1, hxy.2, hc]
      split <;> omega
    · by_cases hyx : x = j ∧ y = i
      · rw [hyx.1, hyx.2, hc']
        split
        · omega
        · exact hs j hj i hi
      · rw [(hrest x y hxy hyx).1]
        exact hs x hx y hy

theorem calcCostMatrixFits_eq {n : Nat} {s : CostMatrix} (hs : Bounded n s) :
    calcCostMatrixFits n s = some (smRoutingFuncCalcCostMatrixFloyds n s) := by
  refine (foldlM_eq_foldl (J := Bounded n) (fun k hk s hs => ?_) s hs).1
  refine foldlM_eq_foldl (J := Bounded n) (fun i hi s hs => ?_) s hs
  unfold relaxRowFits relaxRow
  split
  · exact ⟨rfl, hs⟩
  · refine foldlM_eq_foldl (J := Bounded n) (fun j hj s hs => ?_) s hs
    have hlt := List.mem_range'_1.mp hj
    exact relaxPairFits_eq (List.mem_range.mp hk) (List.mem_range.mp hi) (by omega) (by omega) hs

/-! ### Least costs and all first ports -/

section

variable {n : Nat} (s₀ : CostMatrix)

def DirectLink (i j : Fin n) : Prop := i ≠ j ∧ s₀.cost i j < costInfinity

def directCost (i j : Fin n) : Nat := s₀.cost i j

def DirectPort (i : Fin n) (p : Nat) (j : Fin n) : Prop := p ∈ s₀.path i j ∧ p ∉ s₀.path i i

def forwardView : MaskView Nat where
  see i ports := {p | p ∈ ports ∧ p ∉ s₀.path i i}
  see_union i P Q := by
    ext p
    simp only [Finset.mem_union, Set.mem_ofPred_eq, Set.mem_union, or_and_right]

variable {s₀}

theorem directCost_pos (hok : RoundOk n s₀) {i j : Fin n} (h : DirectLink s₀ i j) :
    0 < directCost s₀ i j := hok.pos i i.isLt j j.isLt (Fin.val_ne_of_ne h.1)

def Shortest (s₀ : CostMatrix) (K : Set (Fin n)) (s : CostMatrix) : Prop :=
  Floyd.Exact (DirectLink s₀) (DirectPort s₀) (directCost s₀) costInfinity K
    ((forwardView s₀).table n s)

theorem shortest_initial (hok : RoundOk n s₀) : Shortest (n := n) s₀ ∅ s₀ := by
  have hself : ∀ i j a, Floyd.Via (DirectLink s₀) (directCost s₀) (∅ : Set (Fin n)) i j a →
      DirectLink s₀ i j ∧ a = directCost s₀ i j := by
    intro i j a h
    cases h with
    | edge he => exact ⟨he, rfl⟩
    | join hm _ _ => exact absurd hm (Set.notMem_empty _)
  constructor
  · constructor
    · exact fun i => hok.diag i i.isLt
    · exact fun i j hij => hok.pos i i.isLt j j.isLt (Fin.val_ne_of_ne hij)
    · exact fun i j => hok.symm i i.isLt j j.isLt
    · exact fun i j => hok.le_inf i i.isLt j j.isLt
    · intro i
      ext p
      exact ⟨fun h => h.2 h.1, fun h => h.elim⟩
  · exact fun i j hij hlt => .edge ⟨hij, hlt⟩
  · intro i j a _ hvia
    exact (hself i j a hvia).2 ▸ le_rfl
  · exact fun i j p hij hlt hp => .edge ⟨hij, hlt⟩ hp
  · intro i j p hij _ hvia
    generalize ((forwardView s₀).table n s₀).cost i j = a at hvia
    cases hvia with
    | edge _ hl => exact hl
    | join hm _ _ => exact absurd hm (Set.notMem_empty _)

theorem Shortest.roundOk {K : Set (Fin n)} {s : CostMatrix} (h : Shortest s₀ K s) : RoundOk n s where
  diag i hi := h.wf.diag ⟨i, hi⟩
  pos i hi j hj hij := h.wf.pos ⟨i, hi⟩ ⟨j, hj⟩ fun heq => hij (congrArg Fin.val heq)
  symm i hi j hj := h.wf.symm ⟨i, hi⟩ ⟨j, hj⟩
  le_inf i hi j hj := h.wf.le_inf ⟨i, hi⟩ ⟨j, hj⟩

theorem shortest_floyds (hok : RoundOk n s₀) :
    Shortest (n := n) s₀ Set.univ (smRoutingFuncCalcCostMatrixFloyds n s₀) := by
  apply rounds_induction (P := Shortest s₀)
  · exact shortest_initial hok
  · intro K s h k
    have hround := (forwardView s₀).round h.roundOk k (h.wf.self k)
    exact Floyd.Exact.round h hround fun i j => directCost_pos hok

end

/-- The costs are those of the least paths, up to `Cost_Infinity`, and a mask below it has the
ports, other than those that lead back, that start some least path. -/
structure ShortestMasks (n : Nat) (s₀ s : CostMatrix) : Prop where
  cost : ∀ i j : Fin n, IsLeast
    ({a | Floyd.Path (DirectLink s₀) (directCost s₀) i j a} ∪ {costInfinity}) (s.cost i j)
  symm : ∀ i < n, ∀ j < n, s.cost i j = s.cost j i
  path : ∀ i j : Fin n, i ≠ j → s.cost i j < costInfinity → ∀ p, p ∉ s₀.path i i →
    (p ∈ s.path i j ↔ ∃ m b, DirectLink s₀ i m ∧ p ∈ s₀.path i m ∧
      Floyd.Path (DirectLink s₀) (directCost s₀) m j b ∧ directCost s₀ i m + b = s.cost i j)

/-- For every symmetric matrix of costs, and whatever the masks are, the loops end in the
shortest paths, and no sum wraps. -/
theorem smRoutingFuncCalcCostMatrixFloyds_exact (n : Nat) (s₀ : CostMatrix) (hok : RoundOk n s₀) :
    calcCostMatrixFits n s₀ = some (smRoutingFuncCalcCostMatrixFloyds n s₀) ∧
      ShortestMasks n s₀ (smRoutingFuncCalcCostMatrixFloyds n s₀) := by
  have h := shortest_floyds (n := n) hok
  refine ⟨calcCostMatrixFits_eq hok.le_inf, fun i j => h.cost_isLeast i j, h.roundOk.symm, ?_⟩
  intro i j hij hlt p hp
  have hiff := h.mem_next_iff (p := p) hij hlt
  constructor
  · intro hmem
    obtain ⟨m, b, hlink, hport, hrest⟩ := hiff.mp ⟨hmem, hp⟩
    exact ⟨m, b, hlink, hport.1, hrest⟩
  · rintro ⟨m, b, hlink, hport, hrest⟩
    exact (hiff.mpr ⟨m, b, hlink, ⟨hport, hp⟩, hrest⟩).1

/-- Three switches in a row: ports 1 and 2 of the middle one lead to the others. -/
def rowMatrix : CostMatrix where
  cost i j := if i = j then 0 else if i = 1 ∨ j = 1 then 24 else costInfinity
  path i j := if i = 1 ∧ j = 0 then {1} else if i = 1 ∧ j = 2 then {2}
    else if j = 1 ∧ i ≠ 1 then {1} else ∅

theorem smRoutingFuncCalcCostMatrixFloyds_row :
    calcCostMatrixFits 3 rowMatrix = some (smRoutingFuncCalcCostMatrixFloyds 3 rowMatrix) ∧
      ShortestMasks 3 rowMatrix (smRoutingFuncCalcCostMatrixFloyds 3 rowMatrix) :=
  smRoutingFuncCalcCostMatrixFloyds_exact 3 rowMatrix
    ⟨by decide, by decide, by decide, by decide⟩

/-!
### The matrices after relaxation

From the masks of the links, the rounds keep what routing needs, up to ports of loopback
links, which are never used.
-/

open OpaFm.Fabric OpaFm.Lib

/-- A discovered fabric whose inter-switch links are up and valid at both ends. -/
structure SwitchFabric where
  topop : Topology
  distinct : (topop.nodes.map Node.index).Nodup
  swIdx_lt : ∀ n ∈ topop.switches, n.swIdx < topop.maxSws
  swIdx_inj : (topop.switches.map Node.swIdx).Nodup
  numPorts_le : ∀ n ∈ topop.switches, n.numPorts ≤ maxStlPorts
  port_index : ∀ n ∈ topop.switches, ∀ i, (n.port i).index = i
  nodeGuid_ne : ∀ n ∈ topop.switches, n.nodeGuid ≠ 0
  linked : ∀ n ∈ topop.switches, ∀ p ∈ physicalPorts n, smValidPort p = true →
    ∀ n', neighborSwitch topop p = some n' →
      ∃ q ∈ physicalPorts n', p.portno = some q.index ∧ smValidPort q = true ∧
        neighborSwitch topop q = some n

namespace SwitchFabric

variable (F : SwitchFabric)

def Leads (i p k : Nat) : Prop :=
  ∃ n ∈ F.topop.switches, n.swIdx = i ∧ ∃ n' ∈ F.topop.switches, n'.swIdx = k ∧
    1 ≤ p ∧ p ≤ n.numPorts ∧ smValidPort (n.port p) = true ∧
      neighborSwitch F.topop (n.port p) = some n'

def Steps (i : Nat) (ports : Finset Nat) : Set Nat := {m | m ≠ i ∧ ∃ p ∈ ports, F.Leads i p m}

def initial : CostMatrix := smRoutingFuncInitCostMatrixFloyds F.topop

def floyds : CostMatrix := smRoutingFuncCalcCostMatrixFloyds F.topop.maxSws F.initial

variable {F}

theorem switch_ext {n n' : Node} (hn : n ∈ F.topop.switches) (hn' : n' ∈ F.topop.switches)
    (h : n.swIdx = n'.swIdx) : n = n' :=
  List.inj_on_of_nodup_map F.swIdx_inj hn hn' h

theorem Leads.functional {i p k k' : Nat} (h : F.Leads i p k) (h' : F.Leads i p k') : k = k' := by
  obtain ⟨n, hn, hi, m, -, hk, -, -, -, hto⟩ := h
  obtain ⟨n', hn', hi', m', -, hk', -, -, -, hto'⟩ := h'
  obtain rfl := switch_ext hn hn' (hi.trans hi'.symm)
  obtain rfl := Option.some.inj (hto.symm.trans hto')
  exact hk.symm.trans hk'

theorem Leads.lt {i p k : Nat} (h : F.Leads i p k) : i < F.topop.maxSws ∧ k < F.topop.maxSws := by
  obtain ⟨n, hn, rfl, n', hn', rfl, -⟩ := h
  exact ⟨F.swIdx_lt n hn, F.swIdx_lt n' hn'⟩

theorem Steps_union (i : Nat) (P Q : Finset Nat) : F.Steps i (P ∪ Q) = F.Steps i P ∪ F.Steps i Q := by
  ext m
  simp only [Steps, Finset.mem_union, Set.mem_ofPred_eq, Set.mem_union, or_and_right, exists_or,
    and_or_left]

theorem neighborSwitch_mem {p : Port} {n : Node} (h : neighborSwitch F.topop p = some n) :
    n ∈ F.topop.switches := by
  unfold neighborSwitch at h
  split at h
  · obtain ⟨hfind, htype⟩ := Option.filter_eq_some_iff.mp h
    obtain ⟨k, -, hfind⟩ := Option.bind_eq_some_iff.mp hfind
    exact List.mem_filter.mpr ⟨List.mem_of_find?_eq_some hfind, htype⟩
  · cases h

end SwitchFabric

/-! ### Initial values -/

def IslData (F : SwitchFabric) (d : PortData) : Prop :=
  ∃ n ∈ F.topop.switches, ∃ p n', (n.port p).portData = some d ∧
    neighborSwitch F.topop (n.port p) = some n'

structure LinksIn (F : SwitchFabric) (s : CostMatrix) : Prop where
  path : ∀ i k p, p ∈ s.path i k → F.Leads i p k
  symm : ∀ i k, s.cost i k = s.cost k i
  cost : ∀ i k, s.cost i k = costInfinity ∨
    (∃ p, F.Leads i p k) ∧ ∃ d, IslData F d ∧ s.cost i k = smGetCost d

def LinkSet (s : CostMatrix) (l : Nat × Nat × Nat) : Prop :=
  l.2.1 ∈ s.path l.1 l.2.2 ∧ s.cost l.1 l.2.2 ≠ costInfinity

section Links

variable {F : SwitchFabric}

theorem smGetCost_ne (d : PortData) : smGetCost d ≠ costInfinity := by
  have h := smGetCost_le d
  unfold costInfinity
  omega

theorem linkIn {s : CostMatrix} (hs : LinksIn F s) {i k p q : Nat} (hp : F.Leads i p k)
    (hq : F.Leads k q i) {d : PortData} (hd : IslData F d) :
    let path := setEntry s.path i k (insert p (s.path i k))
    let s' : CostMatrix :=
      { cost := setEntry (setEntry s.cost k i (smGetCost d)) i k (smGetCost d)
        path := setEntry path k i (insert q (path k i)) }
    LinksIn F s' ∧ (∀ l, LinkSet s l ∨ (i, p, k) = l → LinkSet s' l) := by
  intro path s'
  have hcost : ∀ x y, s'.cost x y =
      if (x = i ∧ y = k) ∨ (x = k ∧ y = i) then smGetCost d else s.cost x y := by
    intro x y
    simp only [s', setEntry]
    split_ifs <;> first | rfl | (exfalso; tauto)
  have hpath : ∀ x y r, r ∈ s'.path x y ↔
      r ∈ s.path x y ∨ (x = i ∧ y = k ∧ r = p) ∨ (x = k ∧ y = i ∧ r = q) := by
    intro x y r
    simp only [s', path, setEntry]
    split_ifs <;> grind
  refine ⟨⟨?_, ?_, ?_⟩, ?_⟩
  · intro x y r hr
    rcases (hpath x y r).mp hr with hr | ⟨rfl, rfl, rfl⟩ | ⟨rfl, rfl, rfl⟩
    · exact hs.path x y r hr
    · exact hp
    · exact hq
  · intro x y
    rw [hcost, hcost, hs.symm x y]
    congr 1
    exact propext (by tauto)
  · intro x y
    rw [hcost]
    split
    · rename_i h
      refine .inr ⟨?_, d, hd, rfl⟩
      rcases h with ⟨rfl, rfl⟩ | ⟨rfl, rfl⟩
      · exact ⟨p, hp⟩
      · exact ⟨q, hq⟩
    · exact hs.cost x y
  · rintro ⟨x, r, y⟩ h
    refine ⟨(hpath x y r).mpr ?_, ?_⟩
    · rcases h with h | h
      · exact .inl h.1
      · obtain ⟨rfl, rfl, rfl⟩ : i = x ∧ p = r ∧ k = y := by simpa using h
        exact .inr (.inl ⟨rfl, rfl, rfl⟩)
    · simp only
      rw [hcost]
      split
      · exact smGetCost_ne d
      · rename_i hother
        rcases h with h | h
        · exact h.2
        · obtain ⟨rfl, rfl, rfl⟩ : i = x ∧ p = r ∧ k = y := by simpa using h
          exact absurd (.inl ⟨rfl, rfl⟩) hother

theorem initPort_spec {n : Node} (hn : n ∈ F.topop.switches) {s : CostMatrix} (hs : LinksIn F s)
    {portp : Port} (hportp : portp ∈ physicalPorts n) :
    LinksIn F (initPort F.topop n s portp) ∧
      ∀ l, (LinkSet s l ∨ (F.Leads l.1 l.2.1 l.2.2 ∧ l.1 = n.swIdx ∧ l.2.1 = portp.index)) →
        LinkSet (initPort F.topop n s portp) l := by
  obtain ⟨x, hx1, hxn, rfl⟩ := mem_physicalPorts.mp hportp
  have hindex := F.port_index n hn x
  -- a link at this port is the one that is looked at
  have hlink : ∀ l : Nat × Nat × Nat, F.Leads l.1 l.2.1 l.2.2 ∧ l.1 = n.swIdx ∧
      l.2.1 = (n.port x).index →
      ∃ n', smValidPort (n.port x) = true ∧ neighborSwitch F.topop (n.port x) = some n' ∧
        l = (n.swIdx, x, n'.swIdx) := by
    rintro ⟨i, p, k⟩ ⟨⟨n₁, hn₁, hi, n', -, hk, -, -, hvalid, hto⟩, heq, hp⟩
    simp only at hi hk heq hp hvalid hto
    obtain rfl := SwitchFabric.switch_ext hn₁ hn (hi.trans heq)
    rw [hindex] at hp
    subst hp
    exact ⟨n', hvalid, hto, by rw [heq, hk]⟩
  unfold initPort
  split
  · rename_i d n' hd hto
    have hvalid : smValidPort (n.port x) = true := by simp [smValidPort, hd]
    have hn' : n' ∈ F.topop.switches := SwitchFabric.neighborSwitch_mem hto
    obtain ⟨q, hq, hportno, hqvalid, hback⟩ := F.linked n hn _ hportp hvalid n' hto
    obtain ⟨y, hy1, hyn, rfl⟩ := mem_physicalPorts.mp hq
    rw [F.port_index n' hn' y] at hportno
    have hfwd : F.Leads n.swIdx x n'.swIdx :=
      ⟨n, hn, rfl, n', hn', rfl, hx1, hxn, hvalid, hto⟩
    have hbwd : F.Leads n'.swIdx y n.swIdx :=
      ⟨n', hn', rfl, n, hn, rfl, hy1, hyn, hqvalid, hback⟩
    have hdata : IslData F d := ⟨n, hn, x, n', hd, hto⟩
    have hstep := linkIn hs hfwd hbwd hdata
    simp only [maskLink, hportno, hindex]
    refine ⟨hstep.1, fun l hl => hstep.2 l (hl.imp_right fun h => ?_)⟩
    obtain ⟨n₂, -, hto₂, rfl⟩ := hlink l (by simpa [hindex] using h)
    obtain rfl := Option.some.inj (hto.symm.trans hto₂)
    rfl
  · rename_i hno
    refine ⟨hs, fun l hl => hl.elim id fun h => ?_⟩
    obtain ⟨n', hvalid, hto, -⟩ := hlink l h
    obtain ⟨d, hd⟩ := Option.isSome_iff_exists.mp hvalid
    exact absurd hto (hno d n' hd)

theorem links_spec :
    let s := F.topop.switches.foldl (initSwitch F.topop)
      { cost := fun _ _ => costInfinity, path := fun _ _ => ∅ }
    LinksIn F s ∧ ∀ i p k, F.Leads i p k → LinkSet s (i, p, k) := by
  have hswitch : ∀ n ∈ F.topop.switches, ∀ s, LinksIn F s → LinksIn F (initSwitch F.topop s n) ∧
      ∀ l, (LinkSet s l ∨ ∃ portp ∈ physicalPorts n,
        F.Leads l.1 l.2.1 l.2.2 ∧ l.1 = n.swIdx ∧ l.2.1 = portp.index) →
        LinkSet (initSwitch F.topop s n) l :=
    fun n hn => foldl_establishes fun portp hportp s hs => initPort_spec hn hs hportp
  have hempty : LinksIn F { cost := fun _ _ => costInfinity, path := fun _ _ => ∅ } :=
    ⟨fun _ _ _ h => absurd h (Finset.notMem_empty _), fun _ _ => rfl, fun _ _ => .inl rfl⟩
  have hall := foldl_establishes hswitch _ hempty
  refine ⟨hall.1, fun i p k h => hall.2 (i, p, k) (.inr ?_)⟩
  obtain ⟨n, hn, hi, -, -, -, hp1, hpn, -, -⟩ := id h
  exact ⟨n, hn, n.port p, mem_physicalPorts.mpr ⟨p, hp1, hpn, rfl⟩, h, hi.symm,
    (F.port_index n hn p).symm⟩

end Links

/-! ### The table -/

namespace SwitchFabric

variable (F : SwitchFabric)

def table (s : CostMatrix) : Floyd.Table (Fin F.topop.maxSws) where
  cost i j := s.cost i j
  next i j := {m | m.val ∈ F.Steps i (s.path i j)}

def stepView : MaskView (Fin F.topop.maxSws) where
  see i P := {m | m.val ∈ F.Steps i P}
  see_union i P Q := by
    rw [Steps_union]
    rfl

def Linked (i k : Fin F.topop.maxSws) : Prop := i ≠ k ∧ ∃ p, F.Leads i p k

def linkCost (i k : Fin F.topop.maxSws) : Nat := F.initial.cost i k

def Relaxed (K : Set (Fin F.topop.maxSws)) (s : CostMatrix) : Prop :=
  Floyd.Inv F.Linked F.linkCost costInfinity K (F.table s)

variable {F}

theorem initial_cost {i j : Nat} (hij : i ≠ j) : F.initial.cost i j = costInfinity ∨
    (∃ p, F.Leads i p j) ∧ ∃ d, IslData F d ∧ F.initial.cost i j = smGetCost d := by
  have h := (links_spec (F := F)).1.cost i j
  simpa [initial, smRoutingFuncInitCostMatrixFloyds, hij] using h

theorem linkCost_pos {i j : Fin F.topop.maxSws} (h : F.Linked i j) : 0 < F.linkCost i j := by
  rcases initial_cost (F := F) (Fin.val_ne_of_ne h.1) with heq | ⟨-, d, -, heq⟩
  · rw [linkCost, heq]
    decide
  · rw [linkCost, heq]
    exact smGetCost_pos d

theorem initial_path_iff {i j p : Nat} : p ∈ F.initial.path i j ↔ F.Leads i p j := by
  obtain ⟨hin, hall⟩ := links_spec (F := F)
  exact ⟨hin.path i j p, fun h => (hall i p j h).1⟩

theorem initial_cost_of_leads {i j p : Nat} (hij : i ≠ j) (h : F.Leads i p j) :
    F.initial.cost i j < costInfinity := by
  have hne := (links_spec (F := F)).2 i p j h
  have hcost : F.initial.cost i j ≠ costInfinity := by
    simpa [initial, smRoutingFuncInitCostMatrixFloyds, hij] using hne.2
  rcases initial_cost (F := F) hij with heq | ⟨-, d, -, heq⟩
  · exact absurd heq hcost
  · have hle := smGetCost_le d
    unfold costInfinity
    omega

theorem initial_next {i j m : Fin F.topop.maxSws} :
    m ∈ (F.table F.initial).next i j ↔ m ≠ i ∧ m = j ∧ ∃ p, F.Leads i p j := by
  constructor
  · rintro ⟨hne, p, hp, hlead⟩
    have hj := initial_path_iff.mp hp
    obtain rfl := Fin.ext (hlead.functional hj)
    exact ⟨fun h => hne (congrArg Fin.val h), rfl, p, hlead⟩
  · rintro ⟨hne, rfl, p, hlead⟩
    exact ⟨Fin.val_ne_of_ne hne, p, initial_path_iff.mpr hlead, hlead⟩

theorem relaxed_initial : F.Relaxed ∅ F.initial where
  wf :=
    { diag := fun i => by simp [table, initial, smRoutingFuncInitCostMatrixFloyds]
      pos := fun i j hij => by
        rcases initial_cost (F := F) (Fin.val_ne_of_ne hij) with heq | ⟨-, d, -, heq⟩
        · simp [table, heq, costInfinity]
        · simpa [table, heq] using smGetCost_pos d
      symm := fun i j => by
        by_cases hij : i = j
        · rw [hij]
        · have hne := Fin.val_ne_of_ne hij
          simpa [table, initial, smRoutingFuncInitCostMatrixFloyds, hne, hne.symm] using
            (links_spec (F := F)).1.symm i j
      le_inf := fun i j => by
        by_cases hij : i = j
        · simp [hij, table, initial, smRoutingFuncInitCostMatrixFloyds]
        · rcases initial_cost (F := F) (Fin.val_ne_of_ne hij) with heq | ⟨-, d, -, heq⟩
          · simp [table, heq]
          · have hle := smGetCost_le d
            simp only [table, heq, costInfinity]
            omega
      self := fun i => by
        ext m
        rw [initial_next]
        simp only [Set.mem_empty_iff_false, iff_false]
        rintro ⟨hne, rfl, -⟩
        exact hne rfl }
  step i j m hij hm := by
    obtain ⟨hne, rfl, p, hlead⟩ := initial_next.mp hm
    refine ⟨⟨hij, p, hlead⟩, ?_⟩
    simp [linkCost, table, initial, smRoutingFuncInitCostMatrixFloyds]
  found i j hij hlt := by
    rcases initial_cost (F := F) (Fin.val_ne_of_ne hij) with heq | ⟨⟨p, hlead⟩, -⟩
    · exact absurd heq (Nat.ne_of_lt hlt)
    · exact ⟨j, initial_next.mpr ⟨hij.symm, rfl, p, hlead⟩⟩
  least i j a hij hvia _ := by
    cases hvia with
    | edge h => exact ⟨le_rfl, j, initial_next.mpr ⟨hij.symm, rfl, h.2⟩⟩
    | join hm _ _ => exact absurd hm (Set.notMem_empty _)

end SwitchFabric

namespace SwitchFabric

variable {F : SwitchFabric}

theorem Relaxed.roundOk {K : Set (Fin F.topop.maxSws)} {s : CostMatrix} (h : F.Relaxed K s) :
    RoundOk F.topop.maxSws s where
  diag i hi := h.wf.diag ⟨i, hi⟩
  pos i hi j hj hij := h.wf.pos ⟨i, hi⟩ ⟨j, hj⟩ (fun heq => hij (congrArg Fin.val heq))
  symm i hi j hj := h.wf.symm ⟨i, hi⟩ ⟨j, hj⟩
  le_inf i hi j hj := h.wf.le_inf ⟨i, hi⟩ ⟨j, hj⟩

theorem Relaxed.steps_self {K : Set (Fin F.topop.maxSws)} {s : CostMatrix} (h : F.Relaxed K s)
    (k : Fin F.topop.maxSws) : F.Steps k (s.path k k) = ∅ := by
  rw [Set.eq_empty_iff_forall_notMem]
  rintro m ⟨hne, p, hp, hlead⟩
  have hmem : (⟨m, hlead.lt.2⟩ : Fin F.topop.maxSws) ∈ (F.table s).next k k := ⟨hne, p, hp, hlead⟩
  rw [h.wf.self] at hmem
  exact hmem

theorem Relaxed.round {K : Set (Fin F.topop.maxSws)} {s : CostMatrix} (h : F.Relaxed K s)
    (k : Fin F.topop.maxSws) :
    Floyd.Round k (F.table s) (F.table (relaxRound F.topop.maxSws s k)) := by
  apply F.stepView.round h.roundOk
  ext m
  show m.val ∈ F.Steps k (s.path k k) ↔ m ∈ (∅ : Set (Fin F.topop.maxSws))
  rw [h.steps_self k]
  rfl

theorem relaxed_floyds : F.Relaxed Set.univ F.floyds :=
  rounds_induction (P := F.Relaxed) relaxed_initial fun _ _ h k => Floyd.Inv.round h (h.round k)

def PathsLead (F : SwitchFabric) (s : CostMatrix) : Prop :=
  ∀ i j, ∀ p ∈ s.path i j, ∃ m, F.Leads i p m

theorem PathsLead.relaxPair {s : CostMatrix} (hs : PathsLead F s) (k : Nat) {i j : Nat}
    (hij : i ≠ j) : PathsLead F (relaxPair k i s j) := by
  intro x y p hp
  obtain ⟨-, -, hpath, hpath', hrest⟩ := relaxPair_entries k s hij
  by_cases hxy : x = i ∧ y = j
  · obtain ⟨rfl, rfl⟩ := hxy
    rw [hpath] at hp
    split_ifs at hp
    · exact hs _ _ p hp
    · exact (Finset.mem_union.mp hp).elim (hs _ _ p) (hs _ _ p)
    · exact hs _ _ p hp
  · by_cases hyx : x = j ∧ y = i
    · obtain ⟨rfl, rfl⟩ := hyx
      rw [hpath'] at hp
      split_ifs at hp
      · exact hs _ _ p hp
      · exact (Finset.mem_union.mp hp).elim (hs _ _ p) (hs _ _ p)
      · exact hs _ _ p hp
    · rw [(hrest x y hxy hyx).2] at hp
      exact hs x y p hp

theorem pathsLead_floyds : PathsLead F F.floyds := by
  have hinitial : PathsLead F F.initial := fun i j p hp => ⟨j, initial_path_iff.mp hp⟩
  refine List.foldlRecOn (motive := PathsLead F) _ _ hinitial fun s hs k _ => ?_
  refine List.foldlRecOn (motive := PathsLead F) _ _ hs fun s hs i _ => ?_
  unfold relaxRow
  split
  · exact hs
  · refine List.foldlRecOn (motive := PathsLead F) _ _ hs fun s hs j hj => hs.relaxPair k ?_
    have hlt := (List.mem_range'_1.mp hj).1
    omega

end SwitchFabric

end OpaFm.Routing
