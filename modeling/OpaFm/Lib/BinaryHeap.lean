import Mathlib.Logic.Equiv.Basic
import Mathlib.Logic.Function.Basic
import Mathlib.Tactic.Ring

/-!
# Binary heaps in an array

A min-heap on a numeric key, laid out in the usual way: the children of slot
`i` are `2 * i + 1` and `2 * i + 2`.  The array is a function from slots, and
only its first `n` slots belong to the heap.  Both sifts take a fuel argument,
so that they run in the kernel; the order lemmas say how much is enough.
-/

namespace OpaFm.Lib.BinaryHeap

variable {α : Type*}

def parentNode (i : Nat) : Nat := (i - 1) / 2
def childLeft (i : Nat) : Nat := 2 * i + 1

def exchange (a : Nat → α) (i j : Nat) : Nat → α := a ∘ Equiv.swap i j

section Sift

variable (key : α → Nat)

/-- Move slot `i` towards the root while its key is below its parent's. -/
def siftUp : Nat → (Nat → α) → Nat → Nat → α
  | 0, a, _ => a
  | fuel + 1, a, i =>
    if 0 < i ∧ key (a i) < key (a (parentNode i)) then
      siftUp fuel (exchange a i (parentNode i)) (parentNode i)
    else a

/-- The child of `i` with the smaller key, the left one on a tie. -/
def smallerChild (n : Nat) (a : Nat → α) (i : Nat) : Nat :=
  if childLeft i + 1 < n ∧ key (a (childLeft i + 1)) < key (a (childLeft i)) then
    childLeft i + 1
  else childLeft i

/-- Walk a hole at `i` towards the leaves, pulling up the smaller child, until
`temp` fits into it. -/
def sinkHole (n : Nat) (temp : α) : Nat → (Nat → α) → Nat → Nat → α
  | 0, a, i => Function.update a i temp
  | fuel + 1, a, i =>
    if childLeft i < n then
      if key temp ≤ key (a (smallerChild key n a i)) then Function.update a i temp
      else
        sinkHole n temp fuel
          (Function.update a i (a (smallerChild key n a i))) (smallerChild key n a i)
    else Function.update a i temp

def siftDown (n : Nat) (a : Nat → α) (i : Nat) : Nat → α := sinkHole key n (a i) n a i

def Ordered (n : Nat) (a : Nat → α) : Prop :=
  ∀ i, 0 < i → i < n → key (a (parentNode i)) ≤ key (a i)

/-- Ordered, but for slot `i` against its parent. -/
structure UpOrder (n : Nat) (a : Nat → α) (i : Nat) : Prop where
  except : ∀ j, 0 < j → j < n → j ≠ i → key (a (parentNode j)) ≤ key (a j)
  grand : 0 < i → ∀ c, 0 < c → c < n → parentNode c = i → key (a (parentNode i)) ≤ key (a c)

/-- Ordered, but for slot `i` against its children. -/
structure DownOrder (n : Nat) (a : Nat → α) (i : Nat) : Prop where
  except : ∀ j, 0 < j → j < n → parentNode j ≠ i → key (a (parentNode j)) ≤ key (a j)
  grand : 0 < i → ∀ c, 0 < c → c < n → parentNode c = i → key (a (parentNode i)) ≤ key (a c)

end Sift

/-- `b` holds the elements of `a`, with the first `n` slots permuted. -/
def Rearranged (n : Nat) (a b : Nat → α) : Prop :=
  ∃ σ : Equiv.Perm Nat, (∀ j, n ≤ j → σ j = j) ∧ b = a ∘ σ

/-! ## Slots -/

theorem parentNode_lt {i : Nat} (hi : 0 < i) : parentNode i < i := by
  unfold parentNode
  omega

theorem child_eq {c i : Nat} (hc : 0 < c) (hp : parentNode c = i) :
    c = childLeft i ∨ c = childLeft i + 1 := by
  unfold parentNode at hp
  unfold childLeft
  omega

@[simp] theorem parentNode_childLeft (i : Nat) : parentNode (childLeft i) = i := by
  unfold parentNode childLeft
  omega

@[simp] theorem parentNode_childLeft_succ (i : Nat) : parentNode (childLeft i + 1) = i := by
  unfold parentNode childLeft
  omega

theorem lt_childLeft (i : Nat) : i < childLeft i := by
  unfold childLeft
  omega

@[simp] theorem exchange_left (a : Nat → α) (i j : Nat) : exchange a i j i = a j := by
  simp [exchange]

@[simp] theorem exchange_right (a : Nat → α) (i j : Nat) : exchange a i j j = a i := by
  simp [exchange]

theorem exchange_other (a : Nat → α) {i j k : Nat} (hi : k ≠ i) (hj : k ≠ j) :
    exchange a i j k = a k := by
  simp [exchange, Equiv.swap_apply_of_ne_of_ne hi hj]

/-! ## Rearrangements -/

theorem Rearranged.refl (n : Nat) (a : Nat → α) : Rearranged n a a :=
  ⟨Equiv.refl _, fun _ _ => rfl, rfl⟩

theorem Rearranged.trans {n : Nat} {a b c : Nat → α} (hab : Rearranged n a b)
    (hbc : Rearranged n b c) : Rearranged n a c := by
  obtain ⟨σ, hσ, rfl⟩ := hab
  obtain ⟨τ, hτ, rfl⟩ := hbc
  refine ⟨τ.trans σ, fun j hj => ?_, rfl⟩
  simp [hτ j hj, hσ j hj]

theorem rearranged_exchange {n i j : Nat} (a : Nat → α) (hi : i < n) (hj : j < n) :
    Rearranged n a (exchange a i j) :=
  ⟨Equiv.swap i j, fun k hk => Equiv.swap_apply_of_ne_of_ne (by omega) (by omega), rfl⟩

/-- A slot of the heap holds after the permutation what some slot of the heap
held before it, and conversely. -/
theorem Rearranged.slots {n : Nat} {a b : Nat → α} (h : Rearranged n a b) :
    ∃ σ : Equiv.Perm Nat, (∀ i, b i = a (σ i)) ∧ (∀ i, σ i < n ↔ i < n) ∧
      ∀ i, n ≤ i → b i = a i := by
  obtain ⟨σ, hσ, rfl⟩ := h
  refine ⟨σ, fun i => rfl, fun i => ?_, fun i hi => by simp [hσ i hi]⟩
  constructor
  · intro hlt
    by_contra hge
    rw [hσ i (by omega)] at hlt
    exact hge hlt
  · intro hlt
    by_contra hge
    have hfix := hσ (σ i) (by omega)
    have heq : σ i = i := σ.injective hfix
    omega

/-! ## Sifting up -/

variable {key : α → Nat}

theorem UpOrder.move {n i : Nat} {a : Nat → α} (h : UpOrder key n a i) (hi : 0 < i)
    (hn : i < n) (hlt : key (a i) < key (a (parentNode i))) :
    UpOrder key n (exchange a i (parentNode i)) (parentNode i) := by
  have hpi := parentNode_lt hi
  constructor
  · intro j hj hjn hjp
    by_cases hji : j = i
    · subst hji
      simp only [exchange_left, exchange_right]
      omega
    · rw [exchange_other a hji hjp]
      by_cases hpj : parentNode j = i
      · rw [hpj, exchange_left]
        exact h.grand hi j hj hjn hpj
      · by_cases hpp : parentNode j = parentNode i
        · rw [hpp, exchange_right]
          have := h.except j hj hjn hji
          rw [hpp] at this
          omega
        · rw [exchange_other a hpj hpp]
          exact h.except j hj hjn hji
  · intro hp c hc hcn hcp
    have hgp := parentNode_lt hp
    have hup := h.except (parentNode i) hp (by omega) (by omega)
    rw [exchange_other a (by omega) (by omega)]
    by_cases hci : c = i
    · rw [hci, exchange_left]
      exact hup
    · rw [exchange_other a hci (by have := parentNode_lt hc; omega)]
      have hcle := h.except c hc hcn hci
      rw [hcp] at hcle
      omega

theorem UpOrder.finish {n i : Nat} {a : Nat → α} (h : UpOrder key n a i)
    (hstop : 0 < i → key (a (parentNode i)) ≤ key (a i)) : Ordered key n a := by
  intro j hj hjn
  by_cases hji : j = i
  · subst hji
    exact hstop hj
  · exact h.except j hj hjn hji

theorem siftUp_ordered {n fuel i : Nat} {a : Nat → α} (h : UpOrder key n a i) (hn : i < n)
    (hfuel : i ≤ fuel) : Ordered key n (siftUp key fuel a i) := by
  induction fuel generalizing a i with
  | zero => exact h.finish (fun hi => by omega)
  | succ fuel ih =>
    rw [siftUp]
    split
    · rename_i hgo
      have hpi := parentNode_lt hgo.1
      exact ih (h.move hgo.1 hn hgo.2) (by omega) (by omega)
    · rename_i hstop
      exact h.finish (fun hi => by
        by_contra hlt
        exact hstop ⟨hi, by omega⟩)

variable (key) in
theorem siftUp_rearranged {n i : Nat} (fuel : Nat) (a : Nat → α) (hn : i < n) :
    Rearranged n a (siftUp key fuel a i) := by
  induction fuel generalizing a i with
  | zero => exact Rearranged.refl n a
  | succ fuel ih =>
    rw [siftUp]
    split
    · rename_i hgo
      have hpi := parentNode_lt hgo.1
      exact (rearranged_exchange a hn (by omega)).trans (ih _ (by omega))
    · exact Rearranged.refl n a

/-! ## Sifting down -/

variable (key) in
/-- The chosen child is a child, and no child has a smaller key. -/
theorem smallerChild_spec (n : Nat) (a : Nat → α) {i : Nat} (hlt : childLeft i < n) :
    smallerChild key n a i < n ∧ i < smallerChild key n a i ∧
      parentNode (smallerChild key n a i) = i ∧
      ∀ c, 0 < c → c < n → parentNode c = i → key (a (smallerChild key n a i)) ≤ key (a c) := by
  have hgt := lt_childLeft i
  unfold smallerChild
  split
  · rename_i hright
    refine ⟨hright.1, by omega, by simp, fun c hc hcn hcp => ?_⟩
    rcases child_eq hc hcp with rfl | rfl
    · omega
    · exact le_refl _
  · rename_i hleft
    refine ⟨hlt, hgt, by simp, fun c hc hcn hcp => ?_⟩
    rcases child_eq hc hcp with rfl | rfl
    · exact le_refl _
    · by_contra hle
      exact hleft ⟨hcn, by omega⟩

theorem DownOrder.move {n i : Nat} {b : Nat → α} (h : DownOrder key n b i)
    (hlt : childLeft i < n) (hgt : key (b (smallerChild key n b i)) < key (b i)) :
    DownOrder key n (exchange b i (smallerChild key n b i)) (smallerChild key n b i) := by
  obtain ⟨hcn, hic, hpc, hmin⟩ := smallerChild_spec key n b hlt
  set c := smallerChild key n b i with hc
  constructor
  · intro j hj hjn hpj
    by_cases hpi : parentNode j = i
    · rw [hpi, exchange_left]
      by_cases hjc : j = c
      · rw [hjc, exchange_right]
        omega
      · rw [exchange_other b (by have := parentNode_lt hj; omega) hjc]
        exact hmin j hj hjn hpi
    · rw [exchange_other b hpi hpj]
      by_cases hji : j = i
      · subst hji
        rw [exchange_left]
        exact h.grand hj c (by omega) hcn hpc
      · rw [exchange_other b hji (by rintro rfl; exact hpi hpc)]
        exact h.except j hj hjn hpi
  · intro _ d hd hdn hpd
    have hcd : c < d := by
      have := parentNode_lt hd
      omega
    rw [hpc, exchange_left, exchange_other b (by omega) (by omega)]
    have hle := h.except d hd hdn (by omega)
    rwa [hpd] at hle

theorem DownOrder.finish {n i : Nat} {b : Nat → α} (h : DownOrder key n b i)
    (hstop : ∀ c, 0 < c → c < n → parentNode c = i → key (b i) ≤ key (b c)) :
    Ordered key n b := by
  intro j hj hjn
  by_cases hpj : parentNode j = i
  · rw [hpj]
    exact hstop j hj hjn hpj
  · exact h.except j hj hjn hpj

/-- Pulling the child up into the hole is an exchange once the hole is read as
holding `temp`. -/
theorem update_update_eq_exchange (a : Nat → α) (temp : α) {i c : Nat} (hic : i ≠ c) :
    Function.update (Function.update a i (a c)) c temp =
      exchange (Function.update a i temp) i c := by
  funext k
  by_cases hk : k = c
  · subst hk
    simp
  · by_cases hki : k = i
    · subst hki
      simp [Function.update_of_ne hic, Function.update_of_ne hic.symm]
    · rw [exchange_other _ hki hk]
      simp [hk, hki]

theorem smallerChild_update (n : Nat) (a : Nat → α) (i : Nat) (temp : α) :
    smallerChild key n (Function.update a i temp) i = smallerChild key n a i := by
  have hgt := lt_childLeft i
  unfold smallerChild
  rw [Function.update_of_ne (by omega), Function.update_of_ne (by omega)]

theorem sinkHole_ordered {n fuel i : Nat} {a : Nat → α} {temp : α}
    (h : DownOrder key n (Function.update a i temp) i) (hfuel : n ≤ i + fuel) :
    Ordered key n (sinkHole key n temp fuel a i) := by
  induction fuel generalizing a i with
  | zero =>
    refine h.finish (fun c hc hcn hcp => ?_)
    have := parentNode_lt hc
    omega
  | succ fuel ih =>
    rw [sinkHole]
    by_cases hlt : childLeft i < n
    · obtain ⟨hcn, hic, hpc, hmin⟩ :=
        smallerChild_spec key n (Function.update a i temp) hlt
      have hstep := h.move hlt
      rw [smallerChild_update] at hcn hic hpc hmin hstep
      rw [Function.update_of_ne (by omega), Function.update_self] at hstep
      rw [if_pos hlt]
      split
      · rename_i hle
        refine h.finish (fun c hc hcn' hcp => ?_)
        have hcmin := hmin c hc hcn' hcp
        rw [Function.update_of_ne (by omega)] at hcmin
        rw [Function.update_self]
        omega
      · rename_i hgt
        refine ih ?_ (by omega)
        rw [update_update_eq_exchange a temp (by omega)]
        exact hstep (by omega)
    · rw [if_neg hlt]
      refine h.finish (fun c hc hcn hcp => ?_)
      rcases child_eq hc hcp with rfl | rfl <;> omega

variable (key) in
theorem sinkHole_rearranged {n i : Nat} (fuel : Nat) (a : Nat → α) (temp : α) (hn : i < n) :
    Rearranged n (Function.update a i temp) (sinkHole key n temp fuel a i) := by
  induction fuel generalizing a i with
  | zero => exact Rearranged.refl n _
  | succ fuel ih =>
    rw [sinkHole]
    by_cases hlt : childLeft i < n
    · obtain ⟨hcn, hic, -, -⟩ := smallerChild_spec key n a hlt
      rw [if_pos hlt]
      split
      · exact Rearranged.refl n _
      · have hrest := ih (Function.update a i (a (smallerChild key n a i))) hcn
        rw [update_update_eq_exchange a temp (by omega)] at hrest
        exact (rearranged_exchange _ hn hcn).trans hrest
    · rw [if_neg hlt]
      exact Rearranged.refl n _

theorem siftDown_ordered {n i : Nat} {a : Nat → α} (h : DownOrder key n a i) :
    Ordered key n (siftDown key n a i) := by
  refine sinkHole_ordered ?_ (by omega)
  rw [Function.update_eq_self]
  exact h

variable (key) in
theorem siftDown_rearranged {n i : Nat} (a : Nat → α) (hn : i < n) :
    Rearranged n a (siftDown key n a i) := by
  have h := sinkHole_rearranged key n a (a i) hn
  rwa [Function.update_eq_self] at h

/-! ## A last slot that no key exceeds -/

theorem smallerChild_sentinel {n i : Nat} {a : Nat → α} (hmax : ∀ j, key (a j) ≤ key (a n)) :
    smallerChild key (n + 1) a i = smallerChild key n a i := by
  have hlast := hmax (childLeft i)
  unfold smallerChild
  by_cases hn : childLeft i + 1 = n
  · rw [if_neg (by rw [hn]; omega), if_neg (by omega)]
  · have : childLeft i + 1 < n + 1 ↔ childLeft i + 1 < n := by omega
    simp only [this]

/-- Counting such a slot in or out makes no difference to a sift. -/
theorem sinkHole_sentinel {n fuel i : Nat} {a : Nat → α} {temp : α}
    (hmax : ∀ j, key (a j) ≤ key (a n)) (htemp : key temp ≤ key (a n)) (hi : i < n) :
    sinkHole key (n + 1) temp fuel a i = sinkHole key n temp fuel a i := by
  induction fuel generalizing a i with
  | zero => rfl
  | succ fuel ih =>
    rw [sinkHole, sinkHole, smallerChild_sentinel hmax]
    by_cases hlt : childLeft i < n
    · obtain ⟨hcn, hic, -, -⟩ := smallerChild_spec key n a hlt
      rw [if_pos (by omega), if_pos hlt]
      split
      · rfl
      · refine ih (fun j => ?_) ?_ hcn
        · rw [Function.update_apply, Function.update_of_ne (by omega)]
          split <;> exact hmax _
        · rw [Function.update_of_ne (by omega)]
          exact htemp
    · rw [if_neg hlt]
      by_cases hn : childLeft i = n
      · have hchild : smallerChild key n a i = n := by
          rw [smallerChild, if_neg (by omega), hn]
        rw [if_pos (by omega), hchild, if_pos htemp]
      · rw [if_neg (by omega)]

theorem Ordered.sentinel {n : Nat} {a : Nat → α} (h : Ordered key n a)
    (hmax : ∀ j, key (a j) ≤ key (a n)) : Ordered key (n + 1) a := by
  intro i hi hin
  by_cases hn : i = n
  · subst hn
    exact hmax _
  · exact h i hi (by omega)

theorem Rearranged.le_of_le {n k : Nat} {a b : Nat → α} (h : Rearranged n a b)
    (hle : ∀ j, key (a j) ≤ k) (j : Nat) : key (b j) ≤ k := by
  obtain ⟨σ, -, rfl⟩ := h
  exact hle _

/-! ## What a change of one slot leaves to be repaired -/

theorem Ordered.append {n : Nat} {a : Nat → α} (h : Ordered key n a) (x : α) :
    UpOrder key (n + 1) (Function.update a n x) n := by
  constructor
  · intro j hj hjn hne
    have hpj := parentNode_lt hj
    rw [Function.update_of_ne (by omega), Function.update_of_ne hne]
    exact h j hj (by omega)
  · intro _ c hc hcn hcp
    have := parentNode_lt hc
    omega

theorem Ordered.decrease {n i : Nat} {a : Nat → α} (h : Ordered key n a) (hn : i < n) {x : α}
    (hx : key x ≤ key (a i)) : UpOrder key n (Function.update a i x) i := by
  constructor
  · intro j hj hjn hne
    rw [Function.update_of_ne hne]
    by_cases hpj : parentNode j = i
    · rw [hpj, Function.update_self]
      have hle := h j hj hjn
      rw [hpj] at hle
      omega
    · rw [Function.update_of_ne hpj]
      exact h j hj hjn
  · intro hi c hc hcn hcp
    have hpi := parentNode_lt hi
    have hpc := parentNode_lt hc
    have h₁ := h c hc hcn
    have h₂ := h i hi hn
    rw [hcp] at h₁
    rw [Function.update_of_ne (by omega), Function.update_of_ne (by omega)]
    omega

/-- A slot at or above its parent can only be out of order with its children. -/
theorem Ordered.replace {n i : Nat} {a : Nat → α} (h : Ordered key n a) (hn : i < n) {x : α}
    (hx : 0 < i → key (a (parentNode i)) ≤ key x) :
    DownOrder key n (Function.update a i x) i := by
  constructor
  · intro j hj hjn hpj
    rw [Function.update_of_ne hpj]
    by_cases hji : j = i
    · subst hji
      rw [Function.update_self]
      exact hx hj
    · rw [Function.update_of_ne hji]
      exact h j hj hjn
  · intro hi c hc hcn hcp
    have hpi := parentNode_lt hi
    have hpc := parentNode_lt hc
    have h₁ := h c hc hcn
    have h₂ := h i hi hn
    rw [hcp] at h₁
    rw [Function.update_of_ne (by omega), Function.update_of_ne (by omega)]
    omega

theorem Ordered.replaceBelow {n i : Nat} {a : Nat → α} (h : Ordered key n a) (hn : i < n)
    (hi : 0 < i) {x : α} (hx : key x < key (a (parentNode i))) :
    UpOrder key n (Function.update a i x) i :=
  h.decrease hn (by have := h i hi hn; omega)

theorem Ordered.update_beyond {n : Nat} {a : Nat → α} (h : Ordered key n a) (x : α) :
    Ordered key n (Function.update a n x) := by
  intro i hi hin
  have hpi := parentNode_lt hi
  rw [Function.update_of_ne (by omega), Function.update_of_ne (by omega)]
  exact h i hi hin

theorem Ordered.shrink {n m : Nat} {a : Nat → α} (h : Ordered key n a) (hm : m ≤ n) :
    Ordered key m a :=
  fun i hi him => h i hi (by omega)

end OpaFm.Lib.BinaryHeap
