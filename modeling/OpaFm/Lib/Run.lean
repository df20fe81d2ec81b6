import Mathlib.Logic.Basic

/-!
# Runs of a faulting state machine

A machine takes one input at a time and either answers, with its next state,
or faults.  `Reach` collects the states of the runs whose steps all satisfy a
side condition, which is where a caller's obligations are stated.
-/

namespace OpaFm.Lib

variable {σ ι ε ο : Type*}

theorem bind_eq_ok {α β : Type} {x : Except ε α} {f : α → Except ε β} {b : β} :
    x >>= f = .ok b ↔ ∃ a, x = .ok a ∧ f a = .ok b := by
  cases x with
  | error e => simp [Bind.bind, Except.bind]
  | ok a => simp [Bind.bind, Except.bind]

/-- The states of the runs of `step` from `init` in which every step meets
`ok` and none faults. -/
inductive Reach (step : σ → ι → Except ε (σ × ο)) (ok : σ → ι → Prop) (init : σ) : σ → Prop
  | start : Reach step ok init init
  | next {s s' : σ} {i : ι} {o : ο} :
      Reach step ok init s → ok s i → step s i = .ok (s', o) → Reach step ok init s'

def run (step : σ → ι → Except ε (σ × ο)) : σ → List ι → Except ε σ
  | s, [] => .ok s
  | s, i :: is =>
    match step s i with
    | .error e => .error e
    | .ok (s', _) => run step s' is

variable {step : σ → ι → Except ε (σ × ο)} {ok : σ → ι → Prop} {init s : σ}

/-- The invariant rule: what holds at the start and is kept by every allowed
step holds in every reachable state. -/
theorem Reach.invariant (Inv : σ → Prop) (hinit : Inv init)
    (hstep : ∀ s i s' o, Inv s → ok s i → step s i = .ok (s', o) → Inv s')
    (hreach : Reach step ok init s) : Inv s := by
  induction hreach with
  | start => exact hinit
  | next _ hok hs ih => exact hstep _ _ _ _ ih hok hs

theorem reach_of_run {is : List ι} {s' : σ} (hok : ∀ s i, ok s i)
    (hreach : Reach step ok init s) (hrun : run step s is = .ok s') :
    Reach step ok init s' := by
  induction is generalizing s with
  | nil =>
    cases hrun
    exact hreach
  | cons i is ih =>
    simp only [run] at hrun
    split at hrun
    · cases hrun
    · rename_i s₁ o hs
      exact ih (hreach.next (hok s i) hs) hrun

/-- The run of `is` goes through and the input `i` after it faults. -/
def faultsAfter (step : σ → ι → Except ε (σ × ο)) (s : σ) (is : List ι) (i : ι) : Bool :=
  match run step s is with
  | .error _ => false
  | .ok s' => !(step s' i).toBool

theorem exists_reach_of_faultsAfter (step : σ → ι → Except ε (σ × ο)) (init : σ) (is : List ι)
    (i : ι) (h : faultsAfter step init is i = true) :
    ∃ s, Reach step (fun _ _ => True) init s ∧ ∃ e, step s i = .error e := by
  unfold faultsAfter at h
  split at h
  · cases h
  · rename_i s' hrun
    refine ⟨s', reach_of_run (fun _ _ => trivial) .start hrun, ?_⟩
    cases hs : step s' i with
    | error e => exact ⟨e, rfl⟩
    | ok r => simp [hs, Except.toBool] at h

/-- The run of `is` goes through and ends in a state that passes a test. -/
def holdsAfter (step : σ → ι → Except ε (σ × ο)) (s : σ) (is : List ι) (test : σ → Bool) : Bool :=
  match run step s is with
  | .error _ => false
  | .ok s' => test s'

theorem exists_reach_of_holdsAfter (step : σ → ι → Except ε (σ × ο)) (init : σ) (is : List ι)
    (test : σ → Bool) (h : holdsAfter step init is test = true) :
    ∃ s, Reach step (fun _ _ => True) init s ∧ test s = true := by
  unfold holdsAfter at h
  split at h
  · cases h
  · rename_i s' hrun
    exact ⟨s', reach_of_run (fun _ _ => trivial) .start hrun, h⟩

/-- The inputs of a run pass a check, and the run ends in a state that passes a test. -/
def checkedRun (step : σ → ι → Except ε (σ × ο)) (check : σ → ι → Bool) (test : σ → Bool) :
    σ → List ι → Bool
  | s, [] => test s
  | s, i :: is =>
    check s i && match step s i with
      | .error _ => false
      | .ok (s', _) => checkedRun step check test s' is

theorem exists_reach_of_checkedRun {check : σ → ι → Bool} {test : σ → Bool} {is : List ι}
    (hcheck : ∀ s i, check s i = true → ok s i) (hreach : Reach step ok init s)
    (h : checkedRun step check test s is = true) : ∃ s', Reach step ok init s' ∧ test s' = true := by
  induction is generalizing s with
  | nil => exact ⟨s, hreach, h⟩
  | cons i is ih =>
    unfold checkedRun at h
    rw [Bool.and_eq_true] at h
    obtain ⟨hi, hrest⟩ := h
    split at hrest
    next => cases hrest
    next s' o hs => exact ih (hreach.next (hcheck s i hi) hs) hrest

def stepsTo (step : σ → ι → Except ε (σ × ο)) (s : σ) (i : ι) (test : σ → Bool) : Bool :=
  match step s i with
  | .error _ => false
  | .ok (s', _) => test s'

theorem exists_of_stepsTo (step : σ → ι → Except ε (σ × ο)) (s : σ) (i : ι) (test : σ → Bool)
    (h : stepsTo step s i test = true) : ∃ s' o, step s i = .ok (s', o) ∧ test s' = true := by
  unfold stepsTo at h
  split at h
  · cases h
  · rename_i s' o hs
    exact ⟨s', o, hs, h⟩

/-! ## Runs that cannot fault -/

def AllStates (f : σ → ι → σ) (P : σ → Prop) : σ → List ι → Prop
  | s, [] => P s
  | s, i :: is => P s ∧ AllStates f P (f s i) is

def AllSteps (f : σ → ι → σ) (ok : σ → ι → Prop) : σ → List ι → Prop
  | _, [] => True
  | s, i :: is => ok s i ∧ AllSteps f ok (f s i) is

theorem AllStates.last {f : σ → ι → σ} {P : σ → Prop} {is : List ι} {s : σ}
    (h : AllStates f P s is) : P (is.foldl f s) := by
  induction is generalizing s with
  | nil => exact h
  | cons i is ih => exact ih h.2

theorem allStates_of_invariant {f : σ → ι → σ} {P Inv : σ → Prop} (hprop : ∀ s, Inv s → P s)
    (hkeep : ∀ s i, Inv s → Inv (f s i)) (is : List ι) : ∀ s, Inv s → AllStates f P s is := by
  induction is with
  | nil => exact hprop
  | cons i is ih => exact fun s hs => ⟨hprop s hs, ih _ (hkeep s i hs)⟩

theorem allStates_of_inputs {f : σ → ι → σ} {P Inv : σ → Prop} {ok : ι → Prop}
    (hprop : ∀ s, Inv s → P s) (hkeep : ∀ s i, Inv s → ok i → Inv (f s i)) (is : List ι) :
    ∀ s, Inv s → (∀ i ∈ is, ok i) → AllStates f P s is := by
  induction is with
  | nil => exact fun s hs _ => hprop s hs
  | cons i is ih =>
    intro s hs hok
    have hhead := hok i List.mem_cons_self
    exact ⟨hprop s hs, ih _ (hkeep s i hs hhead) fun j hj => hok j (List.mem_cons_of_mem i hj)⟩

/-- The runs all of whose states have a property are those whose steps meet `ok`, when a
step that meets it keeps the invariant behind the property and any other step loses the
property at once. -/
theorem allStates_iff {f : σ → ι → σ} {P Inv : σ → Prop} {ok : σ → ι → Prop}
    (hprop : ∀ s, Inv s → P s) (hkeep : ∀ s i, Inv s → ok s i → Inv (f s i))
    (hlose : ∀ s i, Inv s → ¬ok s i → ¬P (f s i)) (is : List ι) :
    ∀ s, Inv s → (AllStates f P s is ↔ AllSteps f ok s is) := by
  have hhead : ∀ s (is : List ι), AllStates f P s is → P s := by
    intro s is h
    cases is with
    | nil => exact h
    | cons i is => exact h.1
  induction is with
  | nil => exact fun s hs => ⟨fun _ => trivial, fun _ => hprop s hs⟩
  | cons i is ih =>
    intro s hs
    constructor
    · intro h
      have hok : ok s i :=
        Classical.byContradiction fun hno => hlose s i hs hno (hhead _ _ h.2)
      exact ⟨hok, (ih _ (hkeep s i hs hok)).mp h.2⟩
    · intro h
      exact ⟨hprop s hs, (ih _ (hkeep s i hs h.1)).mpr h.2⟩

end OpaFm.Lib
