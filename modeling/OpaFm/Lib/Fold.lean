import Mathlib.Data.List.Basic

/-!
# Folds that establish facts

A loop keeps an invariant, each of its steps makes some facts true, and no step
makes a true one false again.
-/

namespace OpaFm.Lib

section

variable {σ α β : Type*}

/-- What every step keeps, and what some step establishes, holds after the loop. -/
theorem foldl_establishes {f : σ → α → σ} {Inv : σ → Prop} {Fact : σ → β → Prop}
    {Makes : α → β → Prop} {l : List α}
    (hstep : ∀ a ∈ l, ∀ s, Inv s → Inv (f s a) ∧ ∀ b, Fact s b ∨ Makes a b → Fact (f s a) b) :
    ∀ s, Inv s → Inv (l.foldl f s) ∧
      ∀ b, (Fact s b ∨ ∃ a ∈ l, Makes a b) → Fact (l.foldl f s) b := by
  induction l with
  | nil =>
    intro s hs
    exact ⟨hs, fun b hb => hb.resolve_right (by simp)⟩
  | cons a l ih =>
    intro s hs
    obtain ⟨hinv, hfact⟩ := hstep a List.mem_cons_self s hs
    obtain ⟨hinv', hfact'⟩ :=
      ih (fun a' ha' => hstep a' (List.mem_cons_of_mem _ ha')) (f s a) hinv
    refine ⟨hinv', fun b hb => hfact' b ?_⟩
    rcases hb with hb | ⟨a', ha', hb⟩
    · exact .inl (hfact b (.inl hb))
    · rcases List.mem_cons.mp ha' with rfl | hmem
      · exact .inl (hfact b (.inr hb))
      · exact .inr ⟨a', hmem, hb⟩

/-! ## Loops that may fail -/

/-- Every turn of the loop meets `P` in the state it starts from. -/
def FoldMeets (f : σ → α → Option σ) (P : σ → α → Prop) : σ → List α → Prop
  | _, [] => True
  | s, a :: l => P s a ∧ ∀ s', f s a = some s' → FoldMeets f P s' l

theorem FoldMeets.of_forall {f : σ → α → Option σ} {P : σ → α → Prop} (h : ∀ s a, P s a) :
    ∀ (l : List α) (s : σ), FoldMeets f P s l := by
  intro l
  induction l with
  | nil => exact fun _ => trivial
  | cons a l ih => exact fun s => ⟨h s a, fun s' _ => ih s'⟩

/-- A loop ends, and keeps what every turn that meets `P` keeps.  The invariant may
speak of the part of the list that is done. -/
theorem foldlM_invariant {f : σ → α → Option σ} {P : σ → α → Prop} {J : List α → σ → Prop}
    {l : List α} {s : σ} (hmeets : FoldMeets f P s l) (hinit : J [] s)
    (hstep : ∀ done a, a ∈ l → ∀ s, J done s → P s a → ∃ s', f s a = some s' ∧ J (done ++ [a]) s') :
    ∃ s', l.foldlM f s = some s' ∧ J l s' := by
  have hgen : ∀ (todo done : List α), (∀ a ∈ todo, a ∈ l) → ∀ s, FoldMeets f P s todo → J done s →
      ∃ s', todo.foldlM f s = some s' ∧ J (done ++ todo) s' := by
    intro todo
    induction todo with
    | nil =>
      intro done _ s _ hs
      exact ⟨s, rfl, by simpa using hs⟩
    | cons a todo ih =>
      intro done hmem s hm hs
      obtain ⟨s₁, hf, hs₁⟩ := hstep done a (hmem a (.head _)) s hs hm.1
      obtain ⟨s', hfold, hs'⟩ :=
        ih (done ++ [a]) (fun a' h => hmem a' (.tail _ h)) s₁ (hm.2 s₁ hf) hs₁
      refine ⟨s', ?_, by simpa using hs'⟩
      rw [List.foldlM_cons, hf]
      exact hfold
  simpa using hgen l [] (fun _ h => h) s hmeets hinit

/-- A loop keeps what its turns keep, unless one of them fails for the reason `E`. -/
theorem foldlM_invariant_or {f : σ → α → Option σ} {J : List α → σ → Prop} {E : Prop} {l : List α}
    {s : σ} (hinit : J [] s)
    (hstep : ∀ done a s, J done s → f s a = none ∧ E ∨ ∃ s', f s a = some s' ∧ J (done ++ [a]) s') :
    l.foldlM f s = none ∧ E ∨ ∃ s', l.foldlM f s = some s' ∧ J l s' := by
  have hgen : ∀ (todo done : List α) (s : σ), J done s → todo.foldlM f s = none ∧ E ∨
      ∃ s', todo.foldlM f s = some s' ∧ J (done ++ todo) s' := by
    intro todo
    induction todo with
    | nil => exact fun done s hs => .inr ⟨s, rfl, by rwa [List.append_nil]⟩
    | cons a todo ih =>
      intro done s hs
      rw [List.foldlM_cons]
      obtain ⟨hnone, hE⟩ | ⟨s₁, hf, hs₁⟩ := hstep done a s hs
      · rw [hnone]
        exact .inl ⟨rfl, hE⟩
      · rw [hf, List.append_cons]
        exact ih (done ++ [a]) s₁ hs₁
  exact hgen l [] s hinit

theorem foldlM_eq_foldl {f : σ → α → Option σ} {g : σ → α → σ} {J : σ → Prop} {l : List α}
    (hstep : ∀ a ∈ l, ∀ s, J s → f s a = some (g s a) ∧ J (g s a)) :
    ∀ s, J s → l.foldlM f s = some (l.foldl g s) ∧ J (l.foldl g s) := by
  induction l with
  | nil => exact fun s hs => ⟨rfl, hs⟩
  | cons a l ih =>
    intro s hs
    obtain ⟨hf, hg⟩ := hstep a List.mem_cons_self s hs
    rw [List.foldlM_cons, hf, List.foldl_cons]
    exact ih (fun b hb => hstep b (List.mem_cons_of_mem _ hb)) _ hg

theorem foldlM_keeps {f : σ → α → Option σ} {J : σ → Prop} {l : List α} {s s' : σ}
    (h : l.foldlM f s = some s') (hs : J s)
    (hstep : ∀ a ∈ l, ∀ s s', J s → f s a = some s' → J s') : J s' := by
  induction l generalizing s with
  | nil =>
    cases h
    exact hs
  | cons a l ih =>
    rw [List.foldlM_cons] at h
    obtain ⟨s₁, hf, hrest⟩ := Option.bind_eq_some_iff.mp h
    exact ih hrest (hstep a (.head _) s s₁ hs hf) fun a' ha' => hstep a' (.tail _ ha')

end

/-!
## Filling up to a limit

Elements are appended one by one, and after each it is seen whether there are enough.  So one
element is appended even where there were enough before.
-/

variable {α β : Type*} {full : Nat → Bool}

def fillUntil (full : Nat → Bool) : List α → List α → List α × Bool
  | [], filled => (filled, false)
  | a :: rest, filled =>
    if full (filled.length + 1) then (filled ++ [a], true)
    else fillUntil full rest (filled ++ [a])

theorem fillUntil_append (l l' filled : List α) :
    fillUntil full (l ++ l') filled =
      if (fillUntil full l filled).2 then fillUntil full l filled
      else fillUntil full l' (fillUntil full l filled).1 := by
  induction l generalizing filled with
  | nil => simp [fillUntil]
  | cons a l ih =>
    rw [List.cons_append, fillUntil, fillUntil]
    by_cases h : full (filled.length + 1) = true
    · simp only [h, if_true]
    · rw [if_neg h, if_neg h]
      exact ih (filled ++ [a])

/-- With a limit on the length, at least one element is appended and no more than there is room
for. -/
theorem fillUntil_eq_take {limit : Nat} (hfull : ∀ n, full n = true ↔ limit ≤ n)
    (l filled : List α) :
    (fillUntil full l filled).1 = filled ++ l.take (max 1 (limit - filled.length)) := by
  induction l generalizing filled with
  | nil => simp [fillUntil]
  | cons a l ih =>
    rw [fillUntil]
    by_cases h : full (filled.length + 1) = true
    · have hroom : max 1 (limit - filled.length) = 1 := by
        have := (hfull _).mp h
        omega
      rw [if_pos h, hroom]
      rfl
    · have hmore : ¬limit ≤ filled.length + 1 := mt (hfull _).mpr h
      have hroom : max 1 (limit - filled.length) =
          max 1 (limit - (filled ++ [a]).length) + 1 := by
        rw [List.length_append, List.length_singleton]
        omega
      rw [if_neg h, ih, hroom, List.take_succ_cons, List.append_assoc]
      rfl

end OpaFm.Lib
