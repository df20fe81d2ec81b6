import Mathlib.Order.Basic

/-!
# Meters

A meter counts up.  A reader takes its value from time to time and works out how much it has
grown since, and the meter may be cleared in between.
-/

namespace OpaFm

/-- A meter, with what it has grown by since the count began, what it had grown by when it was
last read, and whether it has been cleared since. -/
structure Meter where
  value : Nat := 0
  grown : Nat := 0
  atRead : Nat := 0
  cleared : Bool := false

namespace Meter

variable (m : Meter)

def grow (value : Nat) : Meter :=
  { m with value := value, grown := m.grown + (value - m.value) }

def restart : Meter := { m with grown := 0, atRead := 0, cleared := false }

def read : Meter := { m with atRead := m.grown, cleared := false }

def clear : Meter := { m with value := 0, cleared := true }

@[simp] theorem grow_value (v : Nat) : (m.grow v).value = v := rfl

@[simp] theorem grow_atRead (v : Nat) : (m.grow v).atRead = m.atRead := rfl

@[simp] theorem grow_cleared (v : Nat) : (m.grow v).cleared = m.cleared := rfl

@[simp] theorem restart_value : m.restart.value = m.value := rfl

@[simp] theorem restart_atRead : m.restart.atRead = 0 := rfl

@[simp] theorem read_atRead : m.read.atRead = m.grown := rfl

@[simp] theorem clear_atRead : m.clear.atRead = m.atRead := rfl

/-- What the reader holds of the meter: the value that it counts from, and whether it knows that
the meter has been cleared. -/
structure Based (base : Nat) (known : Bool) : Prop where
  atRead_le : m.atRead ≤ m.grown
  cleared_of_known : known = true → m.cleared = true
  value_eq : m.value = (if m.cleared = true then 0 else base) + (m.grown - m.atRead)

variable {m} {base : Nat} {known : Bool}

theorem Based.grow (h : m.Based base known) {v : Nat} (hv : m.value ≤ v) :
    (m.grow v).Based base known where
  atRead_le := Nat.le_add_right_of_le h.atRead_le
  cleared_of_known := h.cleared_of_known
  value_eq := by
    have hvalue := h.value_eq
    have hle := h.atRead_le
    show v = (if m.cleared = true then 0 else base) + (m.grown + (v - m.value) - m.atRead)
    omega

theorem based_restart (m : Meter) : m.restart.Based m.value false where
  atRead_le := Nat.le_refl 0
  cleared_of_known := fun hknown => nomatch hknown
  value_eq := rfl

theorem based_read (m : Meter) : m.read.Based m.value false where
  atRead_le := Nat.le_refl m.grown
  cleared_of_known := fun hknown => nomatch hknown
  value_eq := by
    show m.value = m.value + (m.grown - m.grown)
    omega

theorem based_clear (hread : m.grown = m.atRead) (base : Nat) (known : Bool) :
    m.clear.Based base known where
  atRead_le := Nat.le_of_eq hread.symm
  cleared_of_known := fun _ => rfl
  value_eq := by
    show 0 = 0 + (m.grown - m.atRead)
    omega

theorem Based.forget (h : m.Based base known) : m.Based base false where
  atRead_le := h.atRead_le
  cleared_of_known := fun hknown => nomatch hknown
  value_eq := h.value_eq

/-- What the reader works out is what is left unread, unless a clear has gone unnoticed. -/
theorem Based.unread_eq (h : m.Based base known)
    (hnoticed : m.cleared = true → known = true ∨ m.value < base ∨ base = 0) :
    (if m.value < base ∨ known = true then m.value else m.value - base) = m.grown - m.atRead := by
  have hvalue := h.value_eq
  cases hcleared : m.cleared with
  | false =>
    have hknown : known ≠ true := by
      intro hknown
      rw [h.cleared_of_known hknown] at hcleared
      contradiction
    rw [hcleared, if_neg Bool.false_ne_true] at hvalue
    have hnot : ¬(m.value < base ∨ known = true) := by
      rintro (hlt | hk)
      · omega
      · exact hknown hk
    rw [if_neg hnot]
    omega
  | true =>
    rw [hcleared, if_pos rfl, Nat.zero_add] at hvalue
    rw [← hvalue]
    split
    · rfl
    · rename_i hnot
      rcases hnoticed hcleared with hknown | hlt | hbase
      · exact absurd (.inr hknown) hnot
      · exact absurd (.inl hlt) hnot
      · rw [hbase, Nat.sub_zero]

end Meter

end OpaFm
