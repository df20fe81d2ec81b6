import Mathlib.Data.List.Basic
import Mathlib.Logic.Basic
import Mathlib.Order.Basic
import Mathlib.Tactic.SplitIfs

/-!
# Bounded first-in first-out queues

The calls of a queue that holds at most `capacity` elements, what each of them answers,
and what a sequence of calls puts in and takes out.
-/

namespace OpaFm.Lib

section

variable {α : Type*}

inductive FifoCall (α : Type*) where
  | put (x : α)
  | peek
  | drop
  | take

inductive FifoReply (α : Type*) where
  | accepted (b : Bool)
  | element (x : α)
  | done

/-- One call; `nothing` is the element that an empty queue answers with. -/
def fifoStep (capacity : Nat) (nothing : α) (xs : List α) : FifoCall α → List α × FifoReply α
  | .put x => if xs.length = capacity then (xs, .accepted false) else (xs ++ [x], .accepted true)
  | .peek => (xs, .element (xs.headD nothing))
  | .drop => (xs.tail, .done)
  | .take => (xs.tail, .element (xs.headD nothing))

def fifoRun (capacity : Nat) (nothing : α) :
    List α → List (FifoCall α) → List α × List (FifoReply α)
  | xs, [] => (xs, [])
  | xs, c :: cs =>
    let s := fifoStep capacity nothing xs c
    let r := fifoRun capacity nothing s.1 cs
    (r.1, s.2 :: r.2)

def fifoEnters (capacity : Nat) (xs : List α) : FifoCall α → List α
  | .put x => if xs.length = capacity then [] else [x]
  | _ => []

def fifoLeaves (xs : List α) : FifoCall α → List α
  | .drop | .take => xs.take 1
  | _ => []

def fifoEntered (capacity : Nat) (nothing : α) : List α → List (FifoCall α) → List α
  | _, [] => []
  | xs, c :: cs =>
    fifoEnters capacity xs c ++
      fifoEntered capacity nothing (fifoStep capacity nothing xs c).1 cs

def fifoLeft (capacity : Nat) (nothing : α) : List α → List (FifoCall α) → List α
  | _, [] => []
  | xs, c :: cs =>
    fifoLeaves xs c ++ fifoLeft capacity nothing (fifoStep capacity nothing xs c).1 cs

variable (capacity : Nat) (nothing : α)

theorem fifoStep_length (xs : List α) (c : FifoCall α) (h : xs.length ≤ capacity) :
    (fifoStep capacity nothing xs c).1.length ≤ capacity := by
  cases c with
  | put x =>
    simp only [fifoStep]
    split
    · exact h
    · rw [List.length_append, List.length_singleton]
      omega
  | peek => exact h
  | drop | take =>
    simp only [fifoStep, List.length_tail]
    omega

theorem fifoRun_length (cs : List (FifoCall α)) :
    ∀ xs : List α, xs.length ≤ capacity → (fifoRun capacity nothing xs cs).1.length ≤ capacity := by
  induction cs with
  | nil => exact fun _ h => h
  | cons c cs ih => exact fun xs h => ih _ (fifoStep_length capacity nothing xs c h)

theorem fifoLeaves_append_step (xs : List α) (c : FifoCall α) :
    fifoLeaves xs c ++ (fifoStep capacity nothing xs c).1 = xs ++ fifoEnters capacity xs c := by
  cases c with
  | put x =>
    simp only [fifoLeaves, fifoStep, fifoEnters]
    split <;> simp
  | peek => simp [fifoLeaves, fifoStep, fifoEnters]
  | drop | take => cases xs <;> simp [fifoLeaves, fifoStep, fifoEnters]

theorem fifoLeft_append_run (cs : List (FifoCall α)) :
    ∀ xs : List α, fifoLeft capacity nothing xs cs ++ (fifoRun capacity nothing xs cs).1 =
      xs ++ fifoEntered capacity nothing xs cs := by
  induction cs with
  | nil => exact fun xs => by simp [fifoLeft, fifoRun, fifoEntered]
  | cons c cs ih =>
    intro xs
    calc fifoLeaves xs c ++ fifoLeft capacity nothing (fifoStep capacity nothing xs c).1 cs ++
          (fifoRun capacity nothing (fifoStep capacity nothing xs c).1 cs).1
        = fifoLeaves xs c ++ (fifoStep capacity nothing xs c).1 ++
            fifoEntered capacity nothing (fifoStep capacity nothing xs c).1 cs := by
          rw [List.append_assoc, ih, List.append_assoc]
      _ = xs ++ (fifoEnters capacity xs c ++
            fifoEntered capacity nothing (fifoStep capacity nothing xs c).1 cs) := by
          rw [fifoLeaves_append_step capacity nothing, List.append_assoc]

end

/-!
## Positions on a ring

`ahead L p q` is how many steps forward lead from position `p` to position `q` of a ring
of `L` positions.
-/

def ahead (L p q : Nat) : Nat := if p ≤ q then q - p else q + L - p

def after (L p : Nat) : Nat := if p + 1 = L then 0 else p + 1

variable {L p q r : Nat}

@[simp] theorem ahead_self (L p : Nat) : ahead L p p = 0 := by simp [ahead]

theorem ahead_lt (hp : p < L) (hq : q < L) : ahead L p q < L := by
  unfold ahead
  split <;> omega

theorem ahead_eq_zero_iff (hp : p < L) : ahead L p q = 0 ↔ p = q := by
  unfold ahead
  split <;> omega

theorem ahead_add_ahead (hne : p ≠ q) (hp : p < L) (hq : q < L) :
    ahead L p q + ahead L q p = L := by
  unfold ahead
  split <;> split <;> omega

theorem after_lt (hp : p < L) : after L p < L := by
  unfold after
  split <;> omega

theorem ahead_after (hne : p ≠ q) (hp : p < L) (hq : q < L) :
    ahead L (after L p) q + 1 = ahead L p q := by
  unfold ahead after
  split_ifs <;> omega

theorem ahead_to_after (hne : after L p ≠ q) (hq : q < L) :
    ahead L q (after L p) = ahead L q p + 1 := by
  unfold ahead
  unfold after at *
  split_ifs at * <;> omega

/-! ### Places counted from a position -/

/-- The position `i` steps after `p`, for at most `L` steps. -/
def onward (L p i : Nat) : Nat := if p + i < L then p + i else p + i - L

@[simp] theorem onward_zero (hp : p < L) : onward L p 0 = p := by simp [onward, hp]

theorem onward_lt {i : Nat} (hp : p < L) (hi : i ≤ L) : onward L p i < L := by
  unfold onward
  split <;> omega

theorem onward_ne {i j : Nat} (hij : i < j) (hj : j < L) :
    onward L p i ≠ onward L p j := by
  unfold onward
  split <;> split <;> omega

theorem after_onward {i : Nat} (hp : p < L) (hi : i < L) :
    after L (onward L p i) = onward L p (i + 1) := by
  unfold after onward
  split_ifs <;> omega

theorem onward_after {i : Nat} (hi : i < L) :
    onward L (after L p) i = onward L p (i + 1) := by
  unfold after onward
  split_ifs <;> omega

end OpaFm.Lib
