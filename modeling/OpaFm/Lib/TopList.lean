import Mathlib.Data.Finset.Card
import Mathlib.Data.List.Basic

/-!
# Lists of the best

A sorted list has room for `n` entries, which are offered one after another.  A new entry goes
behind those that are at least as good, and once the list is full it takes the place of the last
one.  An entry that is offered a second time is known only while it is listed.
-/

namespace OpaFm.Lib

variable {α κ β : Type*} [LinearOrder β]

def insertRanked (rank : α → β) (a : α) (l : List α) : List α :=
  l.takeWhile (fun b => decide (rank a ≤ rank b)) ++
    a :: l.dropWhile (fun b => decide (rank a ≤ rank b))

def keepBest (rank : α → β) (n : Nat) (a : α) (l : List α) : List α :=
  if l.length < n then insertRanked rank a l
  else
    match l.getLast? with
    | none => l
    | some worst => if rank worst ≤ rank a then insertRanked rank a l.dropLast else l

section

variable {rank : α → β} {a b : α} {l : List α}

theorem insertRanked_perm (rank : α → β) (a : α) (l : List α) :
    (insertRanked rank a l).Perm (a :: l) := by
  unfold insertRanked
  apply List.perm_middle.trans
  rw [List.takeWhile_append_dropWhile]

theorem mem_insertRanked : b ∈ insertRanked rank a l ↔ b = a ∨ b ∈ l := by
  rw [(insertRanked_perm rank a l).mem_iff, List.mem_cons]

theorem length_insertRanked (rank : α → β) (a : α) (l : List α) :
    (insertRanked rank a l).length = l.length + 1 := (insertRanked_perm rank a l).length_eq

theorem lt_of_mem_dropWhile (h : l.Pairwise fun a b => rank b ≤ rank a)
    (hb : b ∈ l.dropWhile fun c => decide (rank a ≤ rank c)) : rank b < rank a := by
  induction l with
  | nil => cases hb
  | cons c l ih =>
    rw [List.pairwise_cons] at h
    rw [List.dropWhile_cons] at hb
    split at hb
    · exact ih h.2 hb
    · rename_i hc
      have hlt : rank c < rank a := by
        rw [← not_le]
        exact fun hle => hc (decide_eq_true hle)
      cases List.mem_cons.1 hb with
      | inl heq => rwa [heq]
      | inr hmem => exact (h.1 b hmem).trans_lt hlt

theorem le_of_mem_takeWhile (hb : b ∈ l.takeWhile fun c => decide (rank a ≤ rank c)) :
    rank a ≤ rank b := of_decide_eq_true (List.all_eq_true.1 List.all_takeWhile b hb)

theorem pairwise_insertRanked (h : l.Pairwise fun a b => rank b ≤ rank a) :
    (insertRanked rank a l).Pairwise fun a b => rank b ≤ rank a := by
  have hsplit := h
  rw [← List.takeWhile_append_dropWhile (p := fun b => decide (rank a ≤ rank b)) (l := l),
    List.pairwise_append] at hsplit
  obtain ⟨hfront, hback, hacross⟩ := hsplit
  unfold insertRanked
  rw [List.pairwise_append]
  refine ⟨hfront, ?_, ?_⟩
  · rw [List.pairwise_cons]
    exact ⟨fun b hb => (lt_of_mem_dropWhile h hb).le, hback⟩
  · intro b hb c hc
    cases List.mem_cons.1 hc with
    | inl heq =>
      rw [heq]
      exact le_of_mem_takeWhile hb
    | inr hmem => exact hacross b hb c hmem

theorem le_of_getLast? {worst : α} (h : l.Pairwise fun a b => rank b ≤ rank a)
    (hlast : l.getLast? = some worst) (hb : b ∈ l) : rank worst ≤ rank b := by
  rw [List.getLast?_eq_some_iff] at hlast
  obtain ⟨front, rfl⟩ := hlast
  cases List.mem_append.1 hb with
  | inl hfront =>
    rw [List.pairwise_append] at h
    exact h.2.2 b hfront worst (List.mem_singleton_self worst)
  | inr hself => rw [List.mem_singleton.1 hself]

theorem mem_keepBest {n : Nat} (h : b ∈ keepBest rank n a l) : b = a ∨ b ∈ l := by
  unfold keepBest at h
  split at h
  · exact mem_insertRanked.1 h
  · split at h
    · exact Or.inr h
    · split at h
      · exact (mem_insertRanked.1 h).imp id List.mem_of_mem_dropLast
      · exact Or.inr h

end

/-- What holds of the list when the keys in `offered` have been offered: it has the best of them,
each once. -/
structure Keeps (rank : α → β) (key : α → κ) (value : κ → β) (n : Nat) (offered : Finset κ)
    (l : List α) : Prop where
  length_le : l.length ≤ n
  sorted : l.Pairwise fun a b => rank b ≤ rank a
  distinct : (l.map key).Nodup
  mem : ∀ a ∈ l, key a ∈ offered
  rank_eq : ∀ a ∈ l, rank a = value (key a)
  best : ∀ x ∈ offered, x ∉ l.map key → l.length = n ∧ ∀ a ∈ l, value x ≤ rank a

namespace Keeps

variable {rank : α → β} {key : α → κ} {value : κ → β} {n : Nat} {offered : Finset κ} {l : List α}
  {a : α} {x : κ}

theorem nil (rank : α → β) (key : α → κ) (value : κ → β) (n : Nat) :
    Keeps rank key value n ∅ [] where
  length_le := Nat.zero_le n
  sorted := List.Pairwise.nil
  distinct := List.nodup_nil
  mem := fun _ h => nomatch h
  rank_eq := fun _ h => nomatch h
  best := fun _ h => absurd h (Finset.notMem_empty _)

variable [DecidableEq κ]

theorem seen (h : Keeps rank key value n offered l) (hx : x ∈ l.map key) :
    Keeps rank key value n (insert x offered) l where
  length_le := h.length_le
  sorted := h.sorted
  distinct := h.distinct
  mem := fun a ha => Finset.mem_insert_of_mem (h.mem a ha)
  rank_eq := h.rank_eq
  best := by
    intro y hy hnot
    cases Finset.mem_insert.1 hy with
    | inl heq => exact absurd (heq ▸ hx) hnot
    | inr hmem => exact h.best y hmem hnot

theorem room (h : Keeps rank key value n offered l) (hroom : l.length < n)
    (hnew : key a ∉ l.map key) (ha : rank a = value (key a)) :
    Keeps rank key value n (insert (key a) offered) (insertRanked rank a l) where
  length_le := by
    rw [length_insertRanked]
    exact hroom
  sorted := pairwise_insertRanked h.sorted
  distinct := by
    rw [((insertRanked_perm rank a l).map key).nodup_iff, List.map_cons, List.nodup_cons]
    exact ⟨hnew, h.distinct⟩
  mem := by
    intro b hb
    cases mem_insertRanked.1 hb with
    | inl heq => exact heq ▸ Finset.mem_insert_self _ _
    | inr hmem => exact Finset.mem_insert_of_mem (h.mem b hmem)
  rank_eq := by
    intro b hb
    cases mem_insertRanked.1 hb with
    | inl heq => rw [heq, ha]
    | inr hmem => exact h.rank_eq b hmem
  best := by
    intro y hy hnot
    rw [((insertRanked_perm rank a l).map key).mem_iff, List.map_cons, List.mem_cons, not_or]
      at hnot
    -- nothing has been left out while there is room
    cases Finset.mem_insert.1 hy with
    | inl heq => exact absurd heq hnot.1
    | inr hmem => exact absurd (h.best y hmem hnot.2).1 hroom.ne

/-- A new entry that is good enough takes the place of the last one. -/
theorem bump {worst : α} (h : Keeps rank key value n offered l) (hfull : ¬l.length < n)
    (hlast : l.getLast? = some worst) (hworst : rank worst ≤ rank a) (hnew : key a ∉ l.map key)
    (ha : rank a = value (key a)) :
    Keeps rank key value n (insert (key a) offered) (insertRanked rank a l.dropLast) := by
  obtain ⟨front, rfl⟩ := List.getLast?_eq_some_iff.1 hlast
  have hlength := h.length_le
  have hsorted := h.sorted
  have hleast : ∀ b ∈ front, rank worst ≤ rank b := fun b hb =>
    le_of_getLast? hsorted hlast (List.mem_append_left _ hb)
  have hdistinct := h.distinct
  rw [List.map_append, List.map_singleton] at hnew hdistinct
  rw [List.length_append, List.length_singleton] at hfull hlength
  rw [List.mem_append, not_or] at hnew
  rw [List.dropLast_concat]
  have hperm := insertRanked_perm rank a front
  constructor
  · rw [length_insertRanked]
    exact hlength
  · exact pairwise_insertRanked (List.pairwise_append.1 hsorted).1
  · rw [(hperm.map key).nodup_iff, List.map_cons, List.nodup_cons]
    exact ⟨hnew.1, (List.nodup_append.1 hdistinct).1⟩
  · intro b hb
    cases mem_insertRanked.1 hb with
    | inl heq => exact heq ▸ Finset.mem_insert_self _ _
    | inr hmem => exact Finset.mem_insert_of_mem (h.mem b (List.mem_append_left _ hmem))
  · intro b hb
    cases mem_insertRanked.1 hb with
    | inl heq => rw [heq, ha]
    | inr hmem => exact h.rank_eq b (List.mem_append_left _ hmem)
  · intro y hy hnot
    rw [(hperm.map key).mem_iff, List.map_cons, List.mem_cons, not_or] at hnot
    have hy' : y ∈ offered := by
      cases Finset.mem_insert.1 hy with
      | inl heq => exact absurd heq hnot.1
      | inr hmem => exact hmem
    -- what is left out is no better than the entry that has been last
    have hvalue : value y ≤ rank worst := by
      by_cases heq : y = key worst
      · rw [heq, h.rank_eq worst (List.mem_append_right _ (List.mem_singleton_self worst))]
      · apply (h.best y hy' ?_).2 worst (List.mem_append_right _ (List.mem_singleton_self worst))
        rw [List.map_append, List.map_singleton, List.mem_append, List.mem_singleton, not_or]
        exact ⟨hnot.2, heq⟩
    refine ⟨?_, ?_⟩
    · rw [length_insertRanked]
      omega
    · intro b hb
      cases mem_insertRanked.1 hb with
      | inl heq => exact heq ▸ hvalue.trans hworst
      | inr hmem => exact hvalue.trans (hleast b hmem)

theorem leftOut {worst : α} (h : Keeps rank key value n offered l) (hfull : ¬l.length < n)
    (hlast : l.getLast? = some worst) (hworst : ¬rank worst ≤ rank a)
    (ha : rank a = value (key a)) : Keeps rank key value n (insert (key a) offered) l where
  length_le := h.length_le
  sorted := h.sorted
  distinct := h.distinct
  mem := fun b hb => Finset.mem_insert_of_mem (h.mem b hb)
  rank_eq := h.rank_eq
  best := by
    intro y hy hnot
    cases Finset.mem_insert.1 hy with
    | inl heq =>
      have hlength := h.length_le
      refine ⟨by omega, fun b hb => ?_⟩
      rw [heq, ← ha]
      exact (not_le.1 hworst).le.trans (le_of_getLast? h.sorted hlast hb)
    | inr hmem => exact h.best y hmem hnot

theorem keepBest (h : Keeps rank key value n offered l) (hpos : 0 < n) (hnew : key a ∉ l.map key)
    (ha : rank a = value (key a)) :
    Keeps rank key value n (insert (key a) offered) (Lib.keepBest rank n a l) := by
  unfold Lib.keepBest
  split
  · rename_i hroom
    exact h.room hroom hnew ha
  · rename_i hfull
    split
    · rename_i hnil
      rw [List.getLast?_eq_none_iff] at hnil
      rw [hnil] at hfull
      exact absurd hpos hfull
    · rename_i worst hlast
      split
      · rename_i hworst
        exact h.bump hfull hlast hworst hnew ha
      · rename_i hworst
        exact h.leftOut hfull hlast hworst ha

theorem mem_of_card_le (h : Keeps rank key value n offered l) (hcard : offered.card ≤ n)
    (hx : x ∈ offered) : x ∈ l.map key := by
  by_contra hnot
  have hfull := (h.best x hx hnot).1
  have hsub : (l.map key).toFinset ⊆ offered.erase x := by
    intro y hy
    rw [List.mem_toFinset] at hy
    obtain ⟨a, ha, rfl⟩ := List.mem_map.1 hy
    exact Finset.mem_erase.2 ⟨fun heq => hnot (heq ▸ hy), h.mem a ha⟩
  have hcount := Finset.card_le_card hsub
  rw [List.toFinset_card_of_nodup h.distinct, List.length_map, hfull,
    Finset.card_erase_of_mem hx] at hcount
  have hpos : 0 < offered.card := Finset.card_pos.2 ⟨x, hx⟩
  omega

end Keeps

end OpaFm.Lib
