import Mathlib.Data.Finset.Card
import Mathlib.Data.Finset.Insert
import Mathlib.Data.Finset.Filter
import Mathlib.Data.List.Forall2
import Mathlib.Logic.Function.Basic

/-!
# Logs of assignments

A table that assignments are made to one after another holds the last value for each key.  The
number of assignments of a value is the number of keys that hold it exactly when no assignment of
that value is made good by a later one.
-/

namespace OpaFm.Lib

variable {α β : Type*} [DecidableEq α]

def table (log : List (α × β)) : α → Option β :=
  log.foldl (fun (f : α → Option β) w => Function.update f w.1 (some w.2)) fun _ => none

def Lasting (v : β) (log : List (α × β)) : Prop := log.Pairwise fun a b => a.2 = v → a.1 ≠ b.1

theorem foldl_update_eq (log : List (α × β)) (f : α → Option β) (k : α) :
    log.foldl (fun (f : α → Option β) w => Function.update f w.1 (some w.2)) f k =
      (table log k).or (f k) := by
  unfold table
  induction log using List.reverseRec with
  | nil => rfl
  | append_singleton log w ih =>
    rw [List.foldl_append, List.foldl_append, List.foldl_cons, List.foldl_nil, List.foldl_cons,
      List.foldl_nil]
    by_cases hk : k = w.1
    · rw [hk, Function.update_self, Function.update_self]
      rfl
    · rw [Function.update_of_ne hk, Function.update_of_ne hk]
      exact ih

theorem table_append (l l' : List (α × β)) (k : α) :
    table (l ++ l') k = (table l' k).or (table l k) := by
  rw [← foldl_update_eq l' (table l) k]
  unfold table
  rw [List.foldl_append]

theorem table_singleton (w : α × β) (k : α) :
    table [w] k = if k = w.1 then some w.2 else none := by
  show Function.update (fun _ => none) w.1 (some w.2) k = _
  by_cases hk : k = w.1
  · rw [hk, Function.update_self, if_pos rfl]
  · rw [Function.update_of_ne hk, if_neg hk]

theorem table_cons (w : α × β) (log : List (α × β)) (k : α) :
    table (w :: log) k = (table log k).or (if k = w.1 then some w.2 else none) := by
  rw [← List.singleton_append, table_append, table_singleton]

theorem table_eq_none_iff {log : List (α × β)} {k : α} :
    table log k = none ↔ ∀ w ∈ log, w.1 ≠ k := by
  induction log with
  | nil => exact iff_of_true rfl fun w hw => absurd hw List.not_mem_nil
  | cons w rest ih =>
    rw [table_cons, Option.or_eq_none_iff, ih, List.forall_mem_cons]
    by_cases hk : k = w.1
    · rw [if_pos hk]
      exact iff_of_false (fun h => Option.some_ne_none _ h.2) fun h => h.1 hk.symm
    · rw [if_neg hk]
      exact ⟨fun h => ⟨Ne.symm hk, h.1⟩, fun h => ⟨h.2, rfl⟩⟩

theorem mem_of_table {log : List (α × β)} {k : α} {v : β} (h : table log k = some v) :
    (k, v) ∈ log := by
  induction log with
  | nil => cases h
  | cons w rest ih =>
    rw [table_cons] at h
    cases hrest : table rest k with
    | some u =>
      rw [hrest, Option.some_or] at h
      exact List.mem_cons_of_mem _ (ih (hrest.trans h))
    | none =>
      rw [hrest, Option.none_or] at h
      by_cases hk : k = w.1
      · rw [if_pos hk] at h
        rw [hk, ← Option.some.inj h]
        exact List.mem_cons_self
      · rw [if_neg hk] at h
        cases h

theorem table_of_agree {log : List (α × β)} {f : α → β} (hval : ∀ w ∈ log, w.2 = f w.1) {k : α}
    (hkey : ∃ w ∈ log, w.1 = k) : table log k = some (f k) := by
  cases htable : table log k with
  | none =>
    obtain ⟨w, hw, hk⟩ := hkey
    exact absurd hk (table_eq_none_iff.mp htable w hw)
  | some v => exact congrArg some (hval (k, v) (mem_of_table htable))

theorem lasting_cons {v : β} {w : α × β} {log : List (α × β)} :
    Lasting v (w :: log) ↔ (w.2 = v → table log w.1 = none) ∧ Lasting v log := by
  unfold Lasting
  rw [List.pairwise_cons, table_eq_none_iff]
  apply and_congr_left'
  exact ⟨fun h hv u hu => Ne.symm (h u hu hv), fun h u hu hv => Ne.symm (h hv u hu)⟩

section

variable [DecidableEq β] (keys : Finset α) (v : β)

def holders (log : List (α × β)) : Finset α := keys.filter fun k => table log k = some v

variable {keys v}

theorem holders_cons_old {w : α × β} {log : List (α × β)} (h : table log w.1 ≠ none) :
    holders keys v (w :: log) = holders keys v log := by
  unfold holders
  apply Finset.filter_congr
  intro k _
  rw [table_cons]
  by_cases hk : k = w.1
  · obtain ⟨u, hu⟩ := Option.ne_none_iff_exists'.mp h
    rw [hk, hu, Option.some_or]
  · rw [if_neg hk, Option.or_none]

theorem holders_cons_new {w : α × β} {log : List (α × β)} (hw : w.1 ∈ keys)
    (h : table log w.1 = none) :
    holders keys v (w :: log) =
      if w.2 = v then insert w.1 (holders keys v log) else holders keys v log := by
  unfold holders
  ext k
  have hmem : k ∈ keys.filter (fun k => table (w :: log) k = some v) ↔
      (k = w.1 ∧ w.2 = v) ∨ k ∈ keys.filter fun k => table log k = some v := by
    rw [Finset.mem_filter, Finset.mem_filter, table_cons]
    by_cases hk : k = w.1
    · rw [hk, h, if_pos rfl, Option.none_or, Option.some_inj]
      exact ⟨fun hv => Or.inl ⟨rfl, hv.2⟩, fun hv => ⟨hw, hv.elim And.right fun ⟨_, hn⟩ => by cases hn⟩⟩
    · rw [if_neg hk, Option.or_none]
      exact ⟨Or.inr, fun hv => hv.resolve_left fun hkv => hk hkv.1⟩
  rw [hmem]
  by_cases hv : w.2 = v
  · rw [if_pos hv, Finset.mem_insert]
    exact or_congr_left ⟨And.left, fun hk => ⟨hk, hv⟩⟩
  · rw [if_neg hv]
    exact or_iff_right fun hkv => hv hkv.2

theorem notMem_holders {w : α × β} {log : List (α × β)} (h : table log w.1 = none) :
    w.1 ∉ holders keys v log := by
  intro hmem
  have hv := (Finset.mem_filter.mp hmem).2
  rw [h] at hv
  cases hv

/-- A value is held by no more keys than it is assigned to, and by as many exactly when its
assignments last. -/
theorem card_holders {log : List (α × β)} (hkeys : ∀ w ∈ log, w.1 ∈ keys) :
    (holders keys v log).card ≤ log.countP (fun w => w.2 = v) ∧
      ((holders keys v log).card = log.countP (fun w => w.2 = v) ↔ Lasting v log) := by
  induction log with
  | nil =>
    have hnone : holders keys v [] = ∅ := Finset.filter_false_of_mem fun k _ hk => by cases hk
    rw [hnone]
    exact ⟨Nat.le_refl 0, iff_of_true rfl List.Pairwise.nil⟩
  | cons w rest ih =>
    obtain ⟨hle, heq⟩ := ih fun u hu => hkeys u (List.mem_cons_of_mem _ hu)
    rw [List.countP_cons, lasting_cons]
    by_cases hold : table rest w.1 = none
    · rw [holders_cons_new (hkeys w List.mem_cons_self) hold]
      by_cases hv : w.2 = v
      · rw [if_pos hv, if_pos (decide_eq_true hv), Finset.card_insert_of_notMem
          (notMem_holders hold), Nat.add_right_cancel_iff, heq]
        exact ⟨Nat.add_le_add_right hle 1, ⟨fun h => ⟨fun _ => hold, h⟩, And.right⟩⟩
      · rw [if_neg hv, if_neg (by simpa using hv), Nat.add_zero, heq]
        exact ⟨hle, ⟨fun h => ⟨fun hw => absurd hw hv, h⟩, And.right⟩⟩
    · rw [holders_cons_old hold]
      by_cases hv : w.2 = v
      · rw [if_pos (decide_eq_true hv)]
        refine ⟨by omega, iff_of_false (by omega) ?_⟩
        exact fun h => hold (h.1 hv)
      · rw [if_neg (by simpa using hv), Nat.add_zero, heq]
        exact ⟨hle, ⟨fun h => ⟨fun hw => absurd hw hv, h⟩, And.right⟩⟩

end

end OpaFm.Lib
