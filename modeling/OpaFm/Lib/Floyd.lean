import Mathlib.Data.Set.Insert
import Mathlib.Order.Lattice
import Mathlib.Order.Bounds.Defs

/-!
# Shortest paths with sets of first steps

Floyd's algorithm on a table of costs below a largest cost `inf`, where each
entry also holds the neighbours through which the cost can be reached.  A round
relaxes every entry through one pivot; an entry that ties collects the steps of
both ways.
-/

namespace OpaFm.Lib.Floyd

section

universe u

variable {V α : Type u}

/-- A cost for every pair, and the first steps that lead there: neighbours, or labels of
another kind. -/
structure Table (V : Type u) (α : Type u := V) where
  cost : V → V → Nat
  next : V → V → Set α

/-- Costs of a symmetric table, at most `inf`, in which only a vertex itself is at
cost zero. -/
structure Table.Wf (inf : Nat) (t : Table V α) : Prop where
  diag : ∀ i, t.cost i i = 0
  pos : ∀ i j, i ≠ j → 0 < t.cost i j
  symm : ∀ i j, t.cost i j = t.cost j i
  le_inf : ∀ i j, t.cost i j ≤ inf
  self : ∀ i, t.next i i = ∅

structure Round (k : V) (t t' : Table V α) : Prop where
  cost : ∀ i j, t'.cost i j = min (t.cost i j) (t.cost i k + t.cost k j)
  self : ∀ i, t'.next i i = t.next i i
  next : ∀ i j, i ≠ j → t'.next i j =
    if t.cost i k + t.cost k j < t.cost i j then t.next i k
    else if t.cost i k + t.cost k j = t.cost i j then t.next i j ∪ t.next i k
    else t.next i j

theorem Table.Wf.round {inf : Nat} {k : V} {t t' : Table V α} (h : t.Wf inf) (hr : Round k t t') :
    t'.Wf inf where
  diag i := by
    rw [hr.cost, h.diag, Nat.zero_min]
  pos i j hij := by
    have hold := h.pos i j hij
    have hsum : 0 < t.cost i k + t.cost k j := by
      by_cases hik : i = k
      · have hkj := h.pos k j (hik ▸ hij)
        omega
      · have hik' := h.pos i k hik
        omega
    rw [hr.cost]
    omega
  symm i j := by
    rw [hr.cost, hr.cost, h.symm i j, h.symm i k, h.symm k j, Nat.add_comm]
  le_inf i j := by
    rw [hr.cost]
    exact (min_le_left _ _).trans (h.le_inf i j)
  self i := by rw [hr.self, h.self]

/-! ## Ways through pivots -/

section

variable (edge : V → V → Prop) (weight : V → V → Nat)

/-- A way of this weight from one vertex to another, with pivots of `K` between. -/
inductive Via (K : Set V) : V → V → Nat → Prop
  | edge {i j : V} : edge i j → Via K i j (weight i j)
  | join {i j m : V} {a b : Nat} : m ∈ K → Via K i m a → Via K m j b → Via K i j (a + b)

inductive Walk : V → V → Nat → Prop
  | edge {i j : V} : edge i j → Walk i j (weight i j)
  | cons {i j m : V} {a : Nat} : edge i m → Walk m j a → Walk i j (weight i m + a)

end

variable {edge : V → V → Prop} {weight : V → V → Nat} {inf : Nat}

theorem Walk.via {i j : V} {a : Nat} (h : Walk edge weight i j a) :
    Via edge weight Set.univ i j a := by
  induction h with
  | edge he => exact .edge he
  | cons he _ ih => exact .join (Set.mem_univ _) (.edge he) ih

/-- With one more pivot, a way avoids it or is cut at its first and last visit. -/
theorem Via.split {K : Set V} {k i j : V} {a : Nat} (h : Via edge weight (insert k K) i j a) :
    (∃ a' ≤ a, Via edge weight K i j a') ∨
      ∃ b c, Via edge weight K i k b ∧ Via edge weight K k j c ∧ b + c ≤ a := by
  induction h with
  | edge he => exact .inl ⟨_, le_rfl, .edge he⟩
  | @join i j m a b hm _ _ iha ihb =>
    rcases hm with rfl | hm
    · obtain ⟨b', hb', hfirst⟩ : ∃ b' ≤ a, Via edge weight K i m b' := by
        rcases iha with h | ⟨b', c', h, -, hle⟩
        · exact h
        · exact ⟨b', by omega, h⟩
      obtain ⟨c', hc', hlast⟩ : ∃ c' ≤ b, Via edge weight K m j c' := by
        rcases ihb with h | ⟨b', c', -, h, hle⟩
        · exact h
        · exact ⟨c', by omega, h⟩
      exact .inr ⟨b', c', hfirst, hlast, by omega⟩
    · rcases iha with ⟨a', ha', hi⟩ | ⟨a₁, a₂, hi, hi', ha'⟩
      · rcases ihb with ⟨b', hb', hj⟩ | ⟨b₁, b₂, hj, hj', hb'⟩
        · exact .inl ⟨a' + b', by omega, .join hm hi hj⟩
        · exact .inr ⟨a' + b₁, b₂, .join hm hi hj, hj', by omega⟩
      · rcases ihb with ⟨b', hb', hj⟩ | ⟨b₁, b₂, hj, hj', hb'⟩
        · exact .inr ⟨a₁, a₂ + b', hi, .join hm hi' hj, by omega⟩
        · exact .inr ⟨a₁, b₂, hi, hj', by omega⟩

/-! ## The invariant -/

/-- What holds once the pivots of `K` have had their round: a first step is an edge
after which the rest still fits the cost, an entry below `inf` has one, and no
way through `K` of weight at most `inf` is missed. -/
structure Inv (edge : V → V → Prop) (weight : V → V → Nat) (inf : Nat) (K : Set V) (t : Table V) :
    Prop where
  wf : t.Wf inf
  step : ∀ i j m, i ≠ j → m ∈ t.next i j → edge i m ∧ weight i m + t.cost m j ≤ t.cost i j
  found : ∀ i j, i ≠ j → t.cost i j < inf → (t.next i j).Nonempty
  least : ∀ i j a, i ≠ j → Via edge weight K i j a → a ≤ inf →
    t.cost i j ≤ a ∧ (t.next i j).Nonempty

section Round

variable {K : Set V} {k : V} {t t' : Table V} (h : Inv edge weight inf K t) (hr : Round k t t')

include h hr

theorem Inv.round_step {i j m : V} (hij : i ≠ j) (hm : m ∈ t'.next i j) :
    edge i m ∧ weight i m + t'.cost m j ≤ t'.cost i j := by
  have hle : t'.cost m j ≤ t.cost m j := by
    rw [hr.cost]
    exact min_le_left _ _
  -- a step towards the pivot goes on from the pivot
  have hpivot : m ∈ t.next i k →
      edge i m ∧ weight i m + t'.cost m j ≤ t.cost i k + t.cost k j := by
    intro hmk
    have hik : i ≠ k := by
      rintro rfl
      rw [h.wf.self] at hmk
      exact hmk
    obtain ⟨hedge, hfits⟩ := h.step i k m hik hmk
    have hmj : t'.cost m j ≤ t.cost m k + t.cost k j := by
      rw [hr.cost]
      exact min_le_right _ _
    exact ⟨hedge, by omega⟩
  rw [hr.next i j hij] at hm
  have hcost := hr.cost i j
  split at hm
  · rename_i hlt
    rw [min_eq_right hlt.le] at hcost
    rw [hcost]
    exact hpivot hm
  · rename_i hnot
    rw [min_eq_left (by omega)] at hcost
    rw [hcost]
    have hold : m ∈ t.next i j → edge i m ∧ weight i m + t'.cost m j ≤ t.cost i j := by
      intro hmem
      obtain ⟨hedge, hfits⟩ := h.step i j m hij hmem
      exact ⟨hedge, by omega⟩
    split at hm
    · rename_i heq
      rcases hm with hm | hm
      · exact hold hm
      · exact heq ▸ hpivot hm
    · exact hold hm

theorem Inv.round_found {i j : V} (hij : i ≠ j) (hlt : t'.cost i j < inf) :
    (t'.next i j).Nonempty := by
  rw [hr.cost] at hlt
  rw [hr.next i j hij]
  split
  · rename_i hless
    rw [min_eq_right hless.le] at hlt
    have hik : i ≠ k := by
      rintro rfl
      rw [h.wf.diag] at hless
      omega
    exact h.found i k hik (by omega)
  · rename_i hnot
    rw [min_eq_left (by omega)] at hlt
    split
    · exact (h.found i j hij hlt).mono Set.subset_union_left
    · exact h.found i j hij hlt

theorem Inv.round_least {i j : V} {a : Nat} (hij : i ≠ j)
    (hvia : Via edge weight (insert k K) i j a) (ha : a ≤ inf) :
    t'.cost i j ≤ a ∧ (t'.next i j).Nonempty := by
  have hmin : t'.cost i j ≤ t.cost i j := by
    rw [hr.cost]
    exact min_le_left _ _
  -- what the table knew already, the round keeps
  have hold : t.cost i j ≤ a → (t.next i j).Nonempty →
      t'.cost i j ≤ a ∧ (t'.next i j).Nonempty := by
    intro hle hne
    refine ⟨hmin.trans hle, ?_⟩
    by_cases hlt : t'.cost i j < inf
    · exact h.round_found hr hij hlt
    · have hnot : ¬t.cost i k + t.cost k j < t.cost i j := by
        rw [hr.cost] at hlt
        omega
      rw [hr.next i j hij, if_neg hnot]
      split
      · exact hne.mono Set.subset_union_left
      · exact hne
  rcases hvia.split with ⟨a', ha', hdirect⟩ | ⟨b, c, hfirst, hlast, hsum⟩
  · obtain ⟨hle, hne⟩ := h.least i j a' hij hdirect (by omega)
    exact hold (by omega) hne
  · by_cases hik : i = k
    · subst hik
      obtain ⟨hle, hne⟩ := h.least i j c hij hlast (by omega)
      exact hold (by omega) hne
    · by_cases hkj : k = j
      · subst hkj
        obtain ⟨hle, hne⟩ := h.least i k b hij hfirst (by omega)
        exact hold (by omega) hne
      · obtain ⟨hle, hne⟩ := h.least i k b hik hfirst (by omega)
        obtain ⟨hle', -⟩ := h.least k j c hkj hlast (by omega)
        have hpivot : t'.cost i j ≤ t.cost i k + t.cost k j := by
          rw [hr.cost]
          exact min_le_right _ _
        refine ⟨by omega, ?_⟩
        rw [hr.next i j hij]
        split
        · exact hne
        · split
          · exact hne.mono Set.subset_union_right
          · have hinf := h.wf.le_inf i j
            exact h.found i j hij (by omega)

theorem Inv.round : Inv edge weight inf (insert k K) t' where
  wf := h.wf.round hr
  step _ _ _ hij hm := h.round_step hr hij hm
  found _ _ hij hlt := h.round_found hr hij hlt
  least _ _ _ hij hvia ha := h.round_least hr hij hvia ha

end Round

/-! ## The finished table -/

section Finished

variable {t : Table V} (h : Inv edge weight inf Set.univ t) (hpos : ∀ i j, edge i j → 0 < weight i j)

include h hpos

theorem Inv.cost_lt {i j m : V} (hij : i ≠ j) (hm : m ∈ t.next i j) :
    t.cost m j < t.cost i j := by
  obtain ⟨hedge, hfits⟩ := h.step i j m hij hm
  have hw := hpos i m hedge
  omega

theorem Inv.exists_walk {i j : V} (hij : i ≠ j) (hne : (t.next i j).Nonempty) :
    ∃ a ≤ t.cost i j, Walk edge weight i j a := by
  -- on the cost, which the first step lowers
  induction hc : t.cost i j using Nat.strong_induction_on generalizing i with
  | _ c ih =>
    obtain ⟨m, hm⟩ := hne
    obtain ⟨hedge, hfits⟩ := h.step i j m hij hm
    by_cases hmj : m = j
    · subst hmj
      exact ⟨_, by omega, .edge hedge⟩
    · have hlt := h.cost_lt hpos hij hm
      have hinf := h.wf.le_inf i j
      obtain ⟨a, ha, hwalk⟩ :=
        ih (t.cost m j) (by omega) hmj (h.found m j hmj (by omega)) rfl
      exact ⟨weight i m + a, by omega, .cons hedge hwalk⟩

/-- There is a first step exactly when a chain of weight at most `inf` leads to the
target. -/
theorem Inv.next_nonempty_iff {i j : V} (hij : i ≠ j) :
    (t.next i j).Nonempty ↔ ∃ a ≤ inf, Walk edge weight i j a := by
  constructor
  · intro hne
    obtain ⟨a, ha, hwalk⟩ := h.exists_walk hpos hij hne
    exact ⟨a, ha.trans (h.wf.le_inf i j), hwalk⟩
  · rintro ⟨a, ha, hwalk⟩
    exact (h.least i j a hij hwalk.via ha).2

theorem Inv.arrives {j : V} (route : Nat → V)
    (hroute : ∀ n, route n ≠ j → route (n + 1) ∈ t.next (route n) j) :
    ∃ n ≤ t.cost (route 0) j, route n = j := by
  induction hc : t.cost (route 0) j using Nat.strong_induction_on generalizing route with
  | _ c ih =>
    by_cases h0 : route 0 = j
    · exact ⟨0, Nat.zero_le _, h0⟩
    · have hlt : t.cost (route 1) j < t.cost (route 0) j := h.cost_lt hpos h0 (hroute 0 h0)
      obtain ⟨n, hn, harrived⟩ := ih (t.cost (route 1) j) (by omega) (fun n => route (n + 1))
        (fun n => hroute (n + 1)) rfl
      exact ⟨n + 1, by omega, harrived⟩

end Finished

end

/-!
## Shortest paths with all first steps

When every cost of the starting table is that of an edge, or `inf`, and labels name first
edges, the finished table has the least costs below `inf`, and at each entry the labels of
all least ways.
-/

universe u

variable {V α : Type u}

section

variable (edge : V → V → Prop) (leads : V → α → V → Prop) (weight : V → V → Nat)

/-- A way through pivots of `K` whose first edge has the label `p`. -/
inductive ViaBy (K : Set V) : V → α → V → Nat → Prop
  | edge {i j : V} {p : α} : edge i j → leads i p j → ViaBy K i p j (weight i j)
  | join {i j m : V} {p : α} {a b : Nat} :
      m ∈ K → ViaBy K i p m a → Via edge weight K m j b → ViaBy K i p j (a + b)

inductive Path : V → V → Nat → Prop
  | nil {i : V} : Path i i 0
  | cons {i j m : V} {a : Nat} : edge i m → Path m j a → Path i j (weight i m + a)

end

variable {edge : V → V → Prop} {leads : V → α → V → Prop} {weight : V → V → Nat} {inf : Nat}
  {K : Set V} {k i j m : V} {p : α} {a b : Nat}

/-! ### Ways -/

theorem Via.mono {L : Set V} (hsub : K ⊆ L) (h : Via edge weight K i j a) :
    Via edge weight L i j a := by
  induction h with
  | edge he => exact .edge he
  | join hm _ _ iha ihb => exact .join (hsub hm) iha ihb

theorem ViaBy.mono {L : Set V} (hsub : K ⊆ L) (h : ViaBy edge leads weight K i p j a) :
    ViaBy edge leads weight L i p j a := by
  induction h with
  | edge he hl => exact .edge he hl
  | join hm _ hb iha => exact .join (hsub hm) iha (hb.mono hsub)

theorem ViaBy.via (h : ViaBy edge leads weight K i p j a) : Via edge weight K i j a := by
  induction h with
  | edge he _ => exact .edge he
  | join hm _ hb iha => exact .join hm iha hb

theorem Via.pos (hpos : ∀ i j, edge i j → 0 < weight i j) (h : Via edge weight K i j a) : 0 < a := by
  induction h with
  | edge he => exact hpos _ _ he
  | join _ _ _ iha _ => exact Nat.add_pos_left iha _

/-- With one more pivot, a way avoids it or is cut at its first and last visit; it keeps its
first edge. -/
theorem ViaBy.split (h : ViaBy edge leads weight (insert k K) i p j a) :
    (∃ a' ≤ a, ViaBy edge leads weight K i p j a') ∨
      ∃ b c, ViaBy edge leads weight K i p k b ∧ Via edge weight K k j c ∧ b + c ≤ a := by
  induction h with
  | edge he hl => exact .inl ⟨_, le_rfl, .edge he hl⟩
  | @join j m p a b hm _ hb iha =>
    rcases hm with rfl | hm
    · obtain ⟨b', hb', hfirst⟩ : ∃ b' ≤ a, ViaBy edge leads weight K i p m b' := by
        rcases iha with h | ⟨b', c', h, -, hle⟩
        · exact h
        · exact ⟨b', by omega, h⟩
      obtain ⟨c', hc', hlast⟩ : ∃ c' ≤ b, Via edge weight K m j c' := by
        rcases hb.split with h | ⟨b', c', -, h, hle⟩
        · exact h
        · exact ⟨c', by omega, h⟩
      exact .inr ⟨b', c', hfirst, hlast, by omega⟩
    · rcases iha with ⟨a', ha', hi⟩ | ⟨a₁, a₂, hi, hi', ha'⟩
      · rcases hb.split with ⟨b', hb', hj⟩ | ⟨b₁, b₂, hj, hj', hb'⟩
        · exact .inl ⟨a' + b', by omega, .join hm hi hj⟩
        · exact .inr ⟨a' + b₁, b₂, .join hm hi hj, hj', by omega⟩
      · rcases hb.split with ⟨b', hb', hj⟩ | ⟨b₁, b₂, hj, hj', hb'⟩
        · exact .inr ⟨a₁, a₂ + b', hi, .join hm hi' hj, by omega⟩
        · exact .inr ⟨a₁, b₂, hi, hj', by omega⟩

/-! ### The invariant -/

/-- What holds once the pivots of `K` have had their round: the costs below `inf` are those of
the least ways through `K`, and the labels are those of all their first edges. -/
structure Exact (edge : V → V → Prop) (leads : V → α → V → Prop) (weight : V → V → Nat) (inf : Nat)
    (K : Set V) (t : Table V α) : Prop where
  wf : t.Wf inf
  attained : ∀ i j, i ≠ j → t.cost i j < inf → Via edge weight K i j (t.cost i j)
  least : ∀ i j a, i ≠ j → Via edge weight K i j a → t.cost i j ≤ a
  sound : ∀ i j p, i ≠ j → t.cost i j < inf → p ∈ t.next i j →
    ViaBy edge leads weight K i p j (t.cost i j)
  complete : ∀ i j p, i ≠ j → t.cost i j < inf →
    ViaBy edge leads weight K i p j (t.cost i j) → p ∈ t.next i j

section Round

variable {t t' : Table V α} (h : Exact edge leads weight inf K t) (hr : Round k t t')

include h hr

theorem Exact.round_attained (hij : i ≠ j) (hlt : t'.cost i j < inf) :
    Via edge weight (insert k K) i j (t'.cost i j) := by
  have hsub := Set.subset_insert k K
  rw [hr.cost] at hlt ⊢
  by_cases hless : t.cost i k + t.cost k j < t.cost i j
  · rw [min_eq_right hless.le] at hlt ⊢
    have hik : i ≠ k := by
      rintro rfl
      rw [h.wf.diag] at hless
      omega
    have hkj : k ≠ j := by
      rintro rfl
      rw [h.wf.diag] at hless
      omega
    apply Via.join (Set.mem_insert k K)
    · exact (h.attained i k hik (by omega)).mono hsub
    · exact (h.attained k j hkj (by omega)).mono hsub
  · rw [min_eq_left (by omega)] at hlt ⊢
    exact (h.attained i j hij hlt).mono hsub

theorem Exact.round_least (hij : i ≠ j) (hvia : Via edge weight (insert k K) i j a) :
    t'.cost i j ≤ a := by
  rw [hr.cost]
  rcases hvia.split with ⟨a', ha', hdirect⟩ | ⟨b, c, hfirst, hlast, hsum⟩
  · have := h.least i j a' hij hdirect
    omega
  · by_cases hik : i = k
    · subst hik
      have := h.least i j c hij hlast
      omega
    · have hb := h.least i k b hik hfirst
      by_cases hkj : k = j
      · subst hkj
        omega
      · have hc := h.least k j c hkj hlast
        omega

theorem Exact.round_sound (hij : i ≠ j) (hlt : t'.cost i j < inf) (hp : p ∈ t'.next i j) :
    ViaBy edge leads weight (insert k K) i p j (t'.cost i j) := by
  have hsub := Set.subset_insert k K
  -- a label towards the pivot goes on from the pivot
  have hpivot : p ∈ t.next i k → t.cost i k + t.cost k j < inf →
      ViaBy edge leads weight (insert k K) i p j (t.cost i k + t.cost k j) := by
    intro hpk hsum
    have hik : i ≠ k := by
      rintro rfl
      rw [h.wf.self] at hpk
      exact hpk
    have hfirst := (h.sound i k p hik (by omega) hpk).mono hsub
    by_cases hkj : k = j
    · subst hkj
      rwa [h.wf.diag, Nat.add_zero]
    · exact .join (Set.mem_insert k K) hfirst ((h.attained k j hkj (by omega)).mono hsub)
  have hold : p ∈ t.next i j → t.cost i j < inf →
      ViaBy edge leads weight (insert k K) i p j (t.cost i j) :=
    fun hpj hcost => (h.sound i j p hij hcost hpj).mono hsub
  rw [hr.next i j hij] at hp
  rw [hr.cost] at hlt ⊢
  split at hp
  next hless =>
    rw [min_eq_right hless.le] at hlt ⊢
    exact hpivot hp hlt
  next hnot =>
    rw [min_eq_left (by omega)] at hlt ⊢
    split at hp
    next heq =>
      rcases hp with hp | hp
      · exact hold hp hlt
      · exact heq ▸ hpivot hp (by omega)
    next => exact hold hp hlt

theorem Exact.round_complete (hpos : ∀ i j, edge i j → 0 < weight i j) (hij : i ≠ j)
    (hlt : t'.cost i j < inf)
    (hvia : ViaBy edge leads weight (insert k K) i p j (t'.cost i j)) : p ∈ t'.next i j := by
  rw [hr.next i j hij]
  rw [hr.cost] at hlt hvia
  -- a way that avoids the pivot is not longer than the old cost
  have hdirect : ∀ a, ViaBy edge leads weight K i p j a →
      a ≤ min (t.cost i j) (t.cost i k + t.cost k j) →
      p ∈ t.next i j ∧ ¬t.cost i k + t.cost k j < t.cost i j := by
    intro a ha hle
    have hleast := h.least i j a hij ha.via
    have heq : a = t.cost i j := by omega
    exact ⟨h.complete i j p hij (by omega) (heq ▸ ha), by omega⟩
  have hkeep : p ∈ t.next i j ∧ ¬t.cost i k + t.cost k j < t.cost i j →
      p ∈ (if t.cost i k + t.cost k j < t.cost i j then t.next i k
        else if t.cost i k + t.cost k j = t.cost i j then t.next i j ∪ t.next i k
        else t.next i j) := by
    rintro ⟨hp, hnot⟩
    rw [if_neg hnot]
    split
    · exact .inl hp
    · exact hp
  rcases hvia.split with ⟨a', ha', hway⟩ | ⟨b, c, hfirst, hlast, hsum⟩
  · exact hkeep (hdirect a' hway ha')
  · by_cases hkj : k = j
    · subst hkj
      exact hkeep (hdirect b hfirst (by omega))
    · have hc := h.least k j c hkj hlast
      by_cases hik : i = k
      · -- a circle to begin with makes a way longer
        subst hik
        have hb := hfirst.via.pos hpos
        omega
      · have hb := h.least i k b hik hfirst.via
        have heq : b = t.cost i k := by omega
        have hp : p ∈ t.next i k := h.complete i k p hik (by omega) (heq ▸ hfirst)
        split
        · exact hp
        · rw [if_pos (by omega)]
          exact .inr hp

theorem Exact.round (hpos : ∀ i j, edge i j → 0 < weight i j) :
    Exact edge leads weight inf (insert k K) t' where
  wf := h.wf.round hr
  attained _ _ hij hlt := h.round_attained hr hij hlt
  least _ _ _ hij hvia := h.round_least hr hij hvia
  sound _ _ _ hij hlt hp := h.round_sound hr hij hlt hp
  complete _ _ _ hij hlt hvia := h.round_complete hr hpos hij hlt hvia

end Round

/-! ### The finished table -/

theorem Path.append (h : Path edge weight i m a) (h' : Path edge weight m j b) :
    Path edge weight i j (a + b) := by
  induction h with
  | nil => rwa [Nat.zero_add]
  | cons he _ ih =>
    rw [Nat.add_assoc]
    exact .cons he (ih h')

theorem Via.path (h : Via edge weight K i j a) : Path edge weight i j a := by
  induction h with
  | @edge i j he => exact (Nat.add_zero (weight i j)) ▸ Path.cons he .nil
  | join _ _ _ iha ihb => exact iha.append ihb

theorem Path.via (h : Path edge weight i j a) : i = j ∧ a = 0 ∨ Via edge weight Set.univ i j a := by
  induction h with
  | nil => exact .inl ⟨rfl, rfl⟩
  | cons he _ ih =>
    right
    rcases ih with ⟨rfl, rfl⟩ | hvia
    · exact .edge he
    · exact .join (Set.mem_univ _) (.edge he) hvia

theorem ViaBy.head (h : ViaBy edge leads weight K i p j a) :
    ∃ m b, edge i m ∧ leads i p m ∧ Path edge weight m j b ∧ a = weight i m + b := by
  induction h with
  | edge he hl => exact ⟨_, 0, he, hl, .nil, rfl⟩
  | join _ _ hb iha =>
    obtain ⟨m, c, he, hl, hrest, rfl⟩ := iha
    exact ⟨m, c + _, he, hl, hrest.append hb.path, Nat.add_assoc _ _ _⟩

theorem ViaBy.of_head (he : edge i m) (hl : leads i p m) (hrest : Path edge weight m j b) :
    ViaBy edge leads weight Set.univ i p j (weight i m + b) := by
  rcases hrest.via with ⟨rfl, rfl⟩ | hvia
  · exact .edge he hl
  · exact .join (Set.mem_univ _) (.edge he hl) hvia

section Finished

variable {t : Table V α} (h : Exact edge leads weight inf Set.univ t)

include h

theorem Exact.cost_isLeast (i j : V) :
    IsLeast ({a | Path edge weight i j a} ∪ {inf}) (t.cost i j) := by
  by_cases hij : i = j
  · subst hij
    rw [h.wf.diag]
    exact ⟨.inl .nil, fun _ _ => Nat.zero_le _⟩
  · constructor
    · rcases Nat.lt_or_eq_of_le (h.wf.le_inf i j) with hlt | heq
      · exact .inl (h.attained i j hij hlt).path
      · exact .inr heq
    · rintro a (hpath | rfl)
      · rcases Path.via hpath with ⟨rfl, -⟩ | hvia
        · exact absurd rfl hij
        · exact h.least i j a hij hvia
      · exact h.wf.le_inf i j

theorem Exact.mem_next_iff (hij : i ≠ j) (hlt : t.cost i j < inf) :
    p ∈ t.next i j ↔
      ∃ m b, edge i m ∧ leads i p m ∧ Path edge weight m j b ∧ weight i m + b = t.cost i j := by
  constructor
  · intro hp
    obtain ⟨m, b, he, hl, hrest, heq⟩ := (h.sound i j p hij hlt hp).head
    exact ⟨m, b, he, hl, hrest, heq.symm⟩
  · rintro ⟨m, b, he, hl, hrest, heq⟩
    exact h.complete i j p hij hlt (heq ▸ .of_head he hl hrest)

end Finished

end OpaFm.Lib.Floyd
