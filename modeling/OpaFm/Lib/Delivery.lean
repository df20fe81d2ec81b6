import Mathlib.Logic.Relation
import Mathlib.Order.Basic
import Mathlib.Data.List.Chain
import Mathlib.Data.List.Nodup

/-!
# Dependency graphs without cycles

A relation whose steps go up in some order has no cycle.
-/

namespace OpaFm.Lib

section

variable {α β : Type*}

def Acyclic (r : α → α → Prop) : Prop := ∀ a, ¬Relation.TransGen r a a

theorem Acyclic.of_rank [Preorder β] {r : α → α → Prop} (rank : α → β)
    (hstep : ∀ a b, r a b → rank a < rank b) : Acyclic r := by
  have hpath : ∀ a b, Relation.TransGen r a b → rank a < rank b := by
    intro a b hab
    induction hab with
    | single h => exact hstep a _ h
    | tail _ h ih => exact ih.trans (hstep _ _ h)
  exact fun a ha => lt_irrefl _ (hpath a a ha)

end

/-!
## Hop by hop delivery

A packet that is passed on along a relation, with a free choice at every place, is
delivered when no choice leads to a dead end or around a loop.
-/

variable {α : Type*}

/-- Wherever the hops from `s` lead, no place is visited twice, there are at most `m` hops,
and they only end in `d`. -/
def Delivers (hop : α → α → Prop) (d : α) (m : Nat) (s : α) : Prop :=
  ∀ l t, (s :: l).IsChain hop → (s :: l).getLast? = some t →
    (s :: l).Nodup ∧ l.length ≤ m ∧ (t = d ∨ ∃ u, hop t u)

variable {hop : α → α → Prop} {d s : α} {P : α → Prop} {μ : α → Nat}

theorem forall_of_isChain (hstep : ∀ x y, P x → hop x y → P y) {s : α} {l : List α} (hs : P s)
    (hchain : (s :: l).IsChain hop) : ∀ x ∈ s :: l, P x := by
  induction l generalizing s with
  | nil =>
    intro x hx
    rw [List.mem_singleton.mp hx]
    exact hs
  | cons a l ih =>
    obtain ⟨hhop, hrest⟩ := List.isChain_cons_cons.mp hchain
    intro x hx
    rcases List.mem_cons.mp hx with rfl | hx
    · exact hs
    · exact ih (hstep s a hs hhop) hrest x hx

/-- A measure that decreases along a path of places with `P`. -/
theorem measure_of_isChain (hstep : ∀ x y, P x → hop x y → P y ∧ μ y < μ x) {s : α} {l : List α}
    (hs : P s) (hchain : (s :: l).IsChain hop) :
    (s :: l).Nodup ∧ l.length ≤ μ s ∧ ∀ x ∈ l, μ x < μ s := by
  induction l generalizing s with
  | nil => exact ⟨List.nodup_singleton s, Nat.zero_le _, fun x hx => nomatch hx⟩
  | cons a l ih =>
    obtain ⟨hhop, hrest⟩ := List.isChain_cons_cons.mp hchain
    obtain ⟨ha, hlt⟩ := hstep s a hs hhop
    obtain ⟨hnodup, hlen, hless⟩ := ih ha hrest
    have hall : ∀ x ∈ a :: l, μ x < μ s := by
      intro x hx
      rcases List.mem_cons.mp hx with rfl | hx
      · exact hlt
      · exact (hless x hx).trans hlt
    refine ⟨List.nodup_cons.mpr ⟨fun hin => ?_, hnodup⟩, ?_, hall⟩
    · exact Nat.lt_irrefl _ (hall s hin)
    · rw [List.length_cons]
      omega

theorem Delivers.of_measure (hstep : ∀ x y, P x → hop x y → P y ∧ μ y < μ x)
    (hgo : ∀ x, P x → x = d ∨ ∃ y, hop x y) (hs : P s) : Delivers hop d (μ s) s := by
  intro l t hchain hlast
  obtain ⟨hnodup, hlen, -⟩ := measure_of_isChain hstep hs hchain
  have hall := forall_of_isChain (fun x y hx hxy => (hstep x y hx hxy).1) hs hchain
  exact ⟨hnodup, hlen, hgo t (hall t (List.mem_of_getLast? hlast))⟩

theorem Delivers.mono {m m' : Nat} (h : Delivers hop d m s) (hle : m ≤ m') : Delivers hop d m' s := by
  intro l t hchain hlast
  obtain ⟨hnodup, hlen, hend⟩ := h l t hchain hlast
  exact ⟨hnodup, hlen.trans hle, hend⟩

end OpaFm.Lib
