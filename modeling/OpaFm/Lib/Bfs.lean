import Mathlib.Data.Finset.Card
import Mathlib.Data.List.Nodup

/-!
# Breadth-first order

`bfs next` visits what a queue holds, first in first out, and puts behind it what
is neither visited nor waiting.  It runs out of fuel only on an unbounded graph.
-/

namespace OpaFm.Lib

variable {α : Type*} [DecidableEq α]

def enqueueNew (done queue : List α) (x : α) : List α :=
  if x ∈ done ∨ x ∈ queue then queue else queue ++ [x]

/-- The order in which `queue` and all behind it is visited, after `done`. -/
def bfs (next : α → List α) : Nat → List α → List α → Option (List α)
  | _, [], done => some done
  | 0, _ :: _, _ => none
  | fuel + 1, a :: queue, done =>
    bfs next fuel ((next a).foldl (enqueueNew (done ++ [a])) queue) (done ++ [a])

/-- The visited and the waiting are distinct elements of `S`. -/
structure BfsOk (S : Finset α) (done queue : List α) : Prop where
  nodup : (done ++ queue).Nodup
  subset : ∀ x ∈ done ++ queue, x ∈ S

theorem BfsOk.enqueueNew {S : Finset α} {done queue : List α} (h : BfsOk S done queue) {x : α}
    (hx : x ∈ S) : BfsOk S done (enqueueNew done queue x) := by
  unfold Lib.enqueueNew
  split
  · exact h
  · rename_i hnew
    rw [not_or] at hnew
    constructor
    · rw [← List.append_assoc]
      apply h.nodup.append (List.nodup_singleton x)
      rw [List.disjoint_singleton, List.mem_append]
      tauto
    · intro y hy
      rw [← List.append_assoc, List.mem_append, List.mem_singleton] at hy
      rcases hy with hy | rfl
      · exact h.subset y hy
      · exact hx

theorem BfsOk.foldl {S : Finset α} {done queue : List α} (h : BfsOk S done queue) {l : List α}
    (hl : ∀ x ∈ l, x ∈ S) : BfsOk S done (l.foldl (Lib.enqueueNew done) queue) := by
  induction l generalizing queue with
  | nil => exact h
  | cons x l ih =>
    exact ih (h.enqueueNew (hl x List.mem_cons_self)) fun y hy => hl y (List.mem_cons_of_mem _ hy)

theorem BfsOk.length_le {S : Finset α} {done queue : List α} (h : BfsOk S done queue) :
    done.length + queue.length ≤ S.card := by
  rw [← List.length_append, ← List.toFinset_card_of_nodup h.nodup]
  exact Finset.card_le_card fun x hx => h.subset x (List.mem_toFinset.mp hx)

theorem BfsOk.next {S : Finset α} {next : α → List α} (hclosed : ∀ a ∈ S, ∀ x ∈ next a, x ∈ S)
    {done queue : List α} {a : α} (h : BfsOk S done (a :: queue)) :
    BfsOk S (done ++ [a]) ((next a).foldl (Lib.enqueueNew (done ++ [a])) queue) := by
  have ha : a ∈ S := h.subset a (List.mem_append_right _ List.mem_cons_self)
  have hmove : BfsOk S (done ++ [a]) queue := by
    constructor
    · rw [List.append_assoc]
      exact h.nodup
    · intro x hx
      rw [List.append_assoc] at hx
      exact h.subset x hx
  exact hmove.foldl (hclosed a ha)

/-- With as much fuel as there are elements left, the search ends; it visits
elements of `S` and begins with what was visited before. -/
theorem exists_bfs {S : Finset α} {next : α → List α} (hclosed : ∀ a ∈ S, ∀ x ∈ next a, x ∈ S)
    (fuel : Nat) {done queue : List α} (h : BfsOk S done queue)
    (hfuel : S.card ≤ fuel + done.length) :
    ∃ order, bfs next fuel queue done = some order ∧ ∀ x ∈ order, x ∈ S := by
  induction fuel generalizing done queue with
  | zero =>
    cases queue with
    | nil => exact ⟨done, rfl, fun x hx => h.subset x (List.mem_append_left _ hx)⟩
    | cons a queue =>
      have hlen := h.length_le
      simp only [List.length_cons] at hlen
      omega
  | succ fuel ih =>
    cases queue with
    | nil => exact ⟨done, rfl, fun x hx => h.subset x (List.mem_append_left _ hx)⟩
    | cons a queue =>
      apply ih (h.next hclosed)
      simp only [List.length_append, List.length_singleton]
      omega

end OpaFm.Lib
