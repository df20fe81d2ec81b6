import OpaFm.Qmap.QuickMap

/-!
# The order of the keys

The default order and every comparison function put the keys in a row, where different keys
may share a place.
-/

namespace OpaFm.Qmap

section

open Qmaps

variable {kc : Option KeyCompare} {k₁ k₂ k₃ : Nat}

def KeyBefore (kc : Option KeyCompare) (k₁ k₂ : Nat) : Prop := compareKey kc k₁ k₂ < 0

def SameKey (kc : Option KeyCompare) (k₁ k₂ : Nat) : Prop := compareKey kc k₁ k₂ = 0

instance : DecidableRel (KeyBefore kc) := fun k₁ k₂ => inferInstanceAs (Decidable (compareKey kc k₁ k₂ < 0))

instance : DecidableRel (SameKey kc) := fun k₁ k₂ => inferInstanceAs (Decidable (compareKey kc k₁ k₂ = 0))

def KeyCompare.default : KeyCompare where
  compare := compareKey none
  swap key1 key2 := by
    unfold compareKey
    grind
  trans key1 key2 key3 := by
    unfold compareKey
    grind

theorem exists_compare (kc : Option KeyCompare) : ∃ c : KeyCompare, compareKey kc = c.compare := by
  cases kc with
  | none => exact ⟨KeyCompare.default, rfl⟩
  | some c => exact ⟨c, rfl⟩

theorem compareKey_swap : 0 < compareKey kc k₁ k₂ ↔ KeyBefore kc k₂ k₁ := by
  obtain ⟨c, hc⟩ := exists_compare kc
  unfold KeyBefore
  rw [hc]
  exact c.swap k₁ k₂

theorem SameKey.symm (h : SameKey kc k₁ k₂) : SameKey kc k₂ k₁ := by
  have h₁₂ := @compareKey_swap kc k₁ k₂
  have h₂₁ := @compareKey_swap kc k₂ k₁
  unfold KeyBefore at h₁₂ h₂₁
  unfold SameKey at h ⊢
  omega

theorem SameKey.refl (k : Nat) : SameKey kc k k := by
  have h := @compareKey_swap kc k k
  unfold KeyBefore at h
  unfold SameKey
  omega

theorem key_cases (kc : Option KeyCompare) (k₁ k₂ : Nat) :
    KeyBefore kc k₁ k₂ ∨ SameKey kc k₁ k₂ ∨ KeyBefore kc k₂ k₁ := by
  rw [← @compareKey_swap kc k₁ k₂]
  unfold KeyBefore SameKey
  omega

theorem search_cases (kc : Option KeyCompare) (k₁ k₂ : Nat) :
    (KeyBefore kc k₁ k₂ ∧ compareKey kc k₁ k₂ ≠ 0 ∧ ¬compareKey kc k₁ k₂ > 0) ∨
      (SameKey kc k₁ k₂ ∧ compareKey kc k₁ k₂ = 0) ∨
        (KeyBefore kc k₂ k₁ ∧ compareKey kc k₁ k₂ ≠ 0 ∧ compareKey kc k₁ k₂ > 0) := by
  rw [← @compareKey_swap kc k₁ k₂]
  unfold KeyBefore SameKey
  omega

theorem KeyBefore.not_same (h : KeyBefore kc k₁ k₂) : ¬SameKey kc k₁ k₂ := by
  intro hsame
  have hlt : compareKey kc k₁ k₂ < 0 := h
  have heq : compareKey kc k₁ k₂ = 0 := hsame
  omega

theorem KeyBefore.not_before (h : KeyBefore kc k₁ k₂) : ¬KeyBefore kc k₂ k₁ := by
  intro hlt
  have hpos := compareKey_swap.mpr hlt
  unfold KeyBefore at h
  omega

theorem compareKey_trans (h₁₂ : ¬KeyBefore kc k₂ k₁) (h₂₃ : ¬KeyBefore kc k₃ k₂) :
    ¬KeyBefore kc k₃ k₁ := by
  rw [← compareKey_swap] at h₁₂ h₂₃ ⊢
  obtain ⟨c, hc⟩ := exists_compare kc
  rw [hc] at h₁₂ h₂₃ ⊢
  have := c.trans k₁ k₂ k₃ (by omega) (by omega)
  omega

theorem KeyBefore.trans_not (h₁₂ : KeyBefore kc k₁ k₂) (h₂₃ : ¬KeyBefore kc k₃ k₂) :
    KeyBefore kc k₁ k₃ := by
  by_contra h₁₃
  exact compareKey_trans h₂₃ h₁₃ h₁₂

theorem KeyBefore.trans (h₁₂ : KeyBefore kc k₁ k₂) (h₂₃ : KeyBefore kc k₂ k₃) : KeyBefore kc k₁ k₃ :=
  h₁₂.trans_not h₂₃.not_before

theorem not_before_trans (h₁₂ : ¬KeyBefore kc k₂ k₁) (h₂₃ : KeyBefore kc k₂ k₃) :
    KeyBefore kc k₁ k₃ := by
  by_contra h₁₃
  exact compareKey_trans h₁₃ h₁₂ h₂₃

theorem SameKey.not_before (h : SameKey kc k₁ k₂) : ¬KeyBefore kc k₁ k₂ := fun hlt => hlt.not_same h

theorem SameKey.before_left (h : SameKey kc k₁ k₂) : KeyBefore kc k₁ k₃ ↔ KeyBefore kc k₂ k₃ :=
  ⟨not_before_trans h.not_before, not_before_trans h.symm.not_before⟩

theorem SameKey.before_right (h : SameKey kc k₁ k₂) : KeyBefore kc k₃ k₁ ↔ KeyBefore kc k₃ k₂ :=
  ⟨fun hlt => hlt.trans_not h.symm.not_before, fun hlt => hlt.trans_not h.not_before⟩

theorem SameKey.trans (h₁₂ : SameKey kc k₁ k₂) (h₂₃ : SameKey kc k₂ k₃) : SameKey kc k₁ k₃ := by
  rcases key_cases kc k₁ k₃ with h | h | h
  · exact absurd (h₁₂.before_left.mp h) h₂₃.not_before
  · exact h
  · exact absurd (h₁₂.before_right.mp h) h₂₃.symm.not_before

end

/-!
## Ordered maps

What a quick map is for: items in the order of their keys, at most one for each key.
-/

/-- A finite map, listed in the order of its keys. -/
structure OrderedMap (kc : Option KeyCompare) (ι : Type) where
  entries : List (Nat × ι)
  sorted : entries.Pairwise fun e e' => KeyBefore kc e.1 e'.1

/-- The calls on one map; `none` stands for the end of the map. -/
inductive Call (ι : Type) where
  | insert (key : Nat) (item : ι)
  | get (key : Nat)
  | remove (key : Nat)
  | removeItem (item : Option ι)

namespace OrderedMap

variable {kc : Option KeyCompare} {ι : Type}

@[ext] theorem ext_entries {M M' : OrderedMap kc ι} (h : M.entries = M'.entries) : M = M' := by
  cases M
  cases M'
  congr

def empty (kc : Option KeyCompare) (ι : Type) : OrderedMap kc ι := ⟨[], .nil⟩

def items (M : OrderedMap kc ι) : List ι := M.entries.map Prod.snd

def get (M : OrderedMap kc ι) (key : Nat) : Option ι :=
  (M.entries.find? fun e => SameKey kc e.1 key).map Prod.snd

def put (M : OrderedMap kc ι) (key : Nat) (item : ι) : OrderedMap kc ι where
  entries := M.entries.filter (fun e => KeyBefore kc e.1 key) ++
    (key, item) :: M.entries.filter fun e => KeyBefore kc key e.1
  sorted := by
    apply List.pairwise_append.mpr
    refine ⟨M.sorted.filter _, List.pairwise_cons.mpr ⟨?_, M.sorted.filter _⟩, ?_⟩
    · intro e he
      exact of_decide_eq_true (List.mem_filter.mp he).2
    · intro e he e' he'
      have hlt : KeyBefore kc e.1 key := of_decide_eq_true (List.mem_filter.mp he).2
      rcases List.mem_cons.mp he' with rfl | he'
      · exact hlt
      · exact hlt.trans (of_decide_eq_true (List.mem_filter.mp he').2)

def filter (p : Nat × ι → Bool) (M : OrderedMap kc ι) : OrderedMap kc ι where
  entries := M.entries.filter p
  sorted := M.sorted.filter p

def step [DecidableEq ι] (M : OrderedMap kc ι) : Call ι → OrderedMap kc ι × Option (Option ι)
  | .insert key item =>
    match M.get key with
    | some present => (M, some (some present))
    | none => (M.put key item, some (some item))
  | .get key => (M, some (M.get key))
  | .remove key => (M.filter fun e => ¬SameKey kc e.1 key, some (M.get key))
  | .removeItem none => (M, none)
  | .removeItem (some item) => (M.filter fun e => e.2 ≠ item, none)

/-- What a caller has to keep: a new item is not in the map under another key, and an item that is
removed is in the map. -/
def Allowed (M : OrderedMap kc ι) : Call ι → Prop
  | .insert key item => M.get key = none → item ∉ M.items
  | .removeItem (some item) => item ∈ M.items
  | _ => True

instance [DecidableEq ι] (M : OrderedMap kc ι) (c : Call ι) : Decidable (M.Allowed c) :=
  match c with
  | .insert key item => inferInstanceAs (Decidable (M.get key = none → item ∉ M.items))
  | .get _ => isTrue trivial
  | .remove _ => isTrue trivial
  | .removeItem none => isTrue trivial
  | .removeItem (some item) => inferInstanceAs (Decidable (item ∈ M.items))

def run [DecidableEq ι] (M : OrderedMap kc ι) : List (Call ι) → OrderedMap kc ι × List (Option (Option ι))
  | [] => (M, [])
  | c :: calls => ((run (M.step c).1 calls).1, (M.step c).2 :: (run (M.step c).1 calls).2)

def AllowedRun [DecidableEq ι] (M : OrderedMap kc ι) : List (Call ι) → Prop
  | [] => True
  | c :: calls => M.Allowed c ∧ AllowedRun (M.step c).1 calls

end OrderedMap

end OpaFm.Qmap
