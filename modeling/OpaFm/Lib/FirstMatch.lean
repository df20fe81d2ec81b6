import Mathlib.Data.List.Nodup
import Mathlib.Data.List.Induction
import Mathlib.Logic.Relation
import Mathlib.Data.List.Forall2

/-!
# The first match in a list

Linked lists are searched for the first element that passes a test, and that
element is then changed or unlinked in place.
-/

namespace OpaFm.Lib

section

variable {α : Type*}

def modifyFirst (test : α → Bool) (f : α → α) : List α → List α
  | [] => []
  | a :: as => if test a then f a :: as else a :: modifyFirst test f as

/-- A found element splits the list, and both changes happen at the split. -/
theorem find?_split {test : α → Bool} {l : List α} {a : α} (h : l.find? test = some a) :
    ∃ l₁ l₂, l = l₁ ++ a :: l₂ ∧ (∀ f, modifyFirst test f l = l₁ ++ f a :: l₂) ∧
      l.eraseP test = l₁ ++ l₂ := by
  induction l with
  | nil => cases h
  | cons b l ih =>
    cases hb : test b with
    | true =>
      rw [List.find?_cons_of_pos hb] at h
      obtain rfl := Option.some.inj h
      exact ⟨[], l, rfl, fun f => by simp [modifyFirst, hb], by simp [hb]⟩
    | false =>
      rw [List.find?_cons_of_neg (by simp [hb])] at h
      obtain ⟨l₁, l₂, rfl, hmod, herase⟩ := ih h
      refine ⟨b :: l₁, l₂, rfl, fun f => ?_, ?_⟩
      · simp [modifyFirst, hb, hmod f]
      · simp [hb, herase]

theorem find?_key_iff {κ : Type*} [DecidableEq κ] {key : α → κ} {l : List α}
    (hdistinct : (l.map key).Nodup) {k : κ} {a : α} :
    l.find? (fun x => key x = k) = some a ↔ a ∈ l ∧ key a = k := by
  constructor
  · intro h
    exact ⟨List.mem_of_find?_eq_some h, by simpa using List.find?_some h⟩
  · rintro ⟨hmem, rfl⟩
    cases hfind : l.find? (fun x => key x = key a) with
    | none => exact absurd (List.find?_eq_none.mp hfind a hmem) (by simp)
    | some b =>
      have hkey : key b = key a := by simpa using List.find?_some hfind
      rw [List.inj_on_of_nodup_map hdistinct (List.mem_of_find?_eq_some hfind) hmem hkey]

end

/-!
## Tables of the first distinct values

A table with a limited number of places that takes in every new value while there is
room holds the first distinct values of what it was given.
-/

section

variable {α : Type*} [DecidableEq α]

def firstDistinct (cap : Nat) (l : List α) : List α := l.eraseDups.take cap

variable {cap : Nat} {l : List α} {a : α}

theorem length_firstDistinct_le : (firstDistinct cap l).length ≤ cap :=
  List.length_take_le cap _

theorem mem_of_mem_firstDistinct (h : a ∈ firstDistinct cap l) : a ∈ l :=
  List.mem_eraseDups.mp (List.mem_of_mem_take h)

theorem eraseDups_snoc (l : List α) (a : α) :
    (l ++ [a]).eraseDups = if a ∈ l then l.eraseDups else l.eraseDups ++ [a] := by
  rw [List.eraseDups_append]
  split
  next h => simp [List.removeAll, h]
  next h => simp [List.removeAll, h, List.eraseDups_cons]

theorem mem_firstDistinct_of_lt (hroom : (firstDistinct cap l).length < cap) (h : a ∈ l) :
    a ∈ firstDistinct cap l := by
  unfold firstDistinct at hroom ⊢
  rw [List.length_take] at hroom
  rw [List.take_of_length_le (by omega)]
  exact List.mem_eraseDups.mpr h

theorem firstDistinct_snoc_old (h : a ∈ firstDistinct cap l ∨ ¬(firstDistinct cap l).length < cap) :
    firstDistinct cap (l ++ [a]) = firstDistinct cap l := by
  unfold firstDistinct at h ⊢
  rw [eraseDups_snoc]
  split
  next => rfl
  next hnew =>
    rcases h with hin | hfull
    · exact absurd (mem_of_mem_firstDistinct hin) hnew
    · rw [List.length_take] at hfull
      exact List.take_append_of_le_length (by omega)

theorem firstDistinct_snoc_new (hnew : a ∉ firstDistinct cap l)
    (hroom : (firstDistinct cap l).length < cap) :
    firstDistinct cap (l ++ [a]) = firstDistinct cap l ++ [a] := by
  have hout : a ∉ l := fun hin => hnew (mem_firstDistinct_of_lt hroom hin)
  unfold firstDistinct at hroom ⊢
  rw [List.length_take] at hroom
  rw [eraseDups_snoc, if_neg hout, List.take_of_length_le, List.take_of_length_le (by omega)]
  rw [List.length_append, List.length_singleton]
  omega

theorem nodup_firstDistinct (cap : Nat) (l : List α) : (firstDistinct cap l).Nodup := by
  induction l using List.reverseRecOn with
  | nil => simp [firstDistinct]
  | append_singleton l a ih =>
    by_cases hold : a ∈ firstDistinct cap l ∨ ¬(firstDistinct cap l).length < cap
    · rw [firstDistinct_snoc_old hold]
      exact ih
    · rw [not_or, not_not] at hold
      rw [firstDistinct_snoc_new hold.1 hold.2, List.nodup_append]
      refine ⟨ih, List.nodup_singleton a, fun b hb c hc => ?_⟩
      rw [List.mem_singleton.mp hc]
      rintro rfl
      exact hold.1 hb

end

/-!
## Depth-first search without memory

`Scan own inc l b` says that a search through `l`, which looks at each element
itself and then through what it includes, ends with the answer `b`.  It has no
derivation where the search runs forever.
-/

section

variable {α : Type*} (own : α → Bool) (inc : α → List α)

inductive Scan : List α → Bool → Prop
  | nil : Scan [] false
  | here {a : α} {l : List α} (hown : own a = true) : Scan (a :: l) true
  | inside {a : α} {l : List α} (hown : own a = false) (hinc : Scan (inc a) true) :
      Scan (a :: l) true
  | past {a : α} {l : List α} {b : Bool} (hown : own a = false) (hinc : Scan (inc a) false)
      (hrest : Scan l b) : Scan (a :: l) b

end

variable {α : Type*} {own : α → Bool} {inc : α → List α}

theorem Scan.functional {l : List α} {b b' : Bool} (h : Scan own inc l b)
    (h' : Scan own inc l b') : b = b' := by
  induction h generalizing b' with
  | nil =>
    cases h'
    rfl
  | here hown =>
    cases h' with
    | here => rfl
    | inside => rfl
    | past hown' => rw [hown] at hown'; cases hown'
  | inside hown _ ih =>
    cases h' with
    | here => rfl
    | inside => rfl
    | past _ hinc' => exact absurd (ih hinc') (by decide)
  | past hown _ _ ih₁ ih₂ =>
    cases h' with
    | here hown' => rw [hown] at hown'; cases hown'
    | inside _ hinc' => exact absurd (ih₁ hinc') (by decide)
    | past _ _ hrest' => exact ih₂ hrest'

theorem Scan.single_false {a : α} (hown : own a = false) (hinc : Scan own inc (inc a) false) :
    Scan own inc [a] false :=
  .past hown hinc .nil

theorem Scan.cons_true {a : α} (l : List α) (h : Scan own inc [a] true) :
    Scan own inc (a :: l) true := by
  cases h with
  | here hown => exact .here hown
  | inside hown hinc => exact .inside hown hinc
  | past _ _ hrest => cases hrest

theorem Scan.cons_false {a : α} {l : List α} {b : Bool} (h : Scan own inc [a] false)
    (hl : Scan own inc l b) : Scan own inc (a :: l) b := by
  cases h with
  | past hown hinc _ => exact .past hown hinc hl

theorem Scan.own_eq_false {l : List α} {b : Bool} (h : Scan own inc l b) (hb : b = false) :
    ∀ a ∈ l, ∀ c, Relation.ReflTransGen (fun x y => y ∈ inc x) a c → own c = false := by
  induction h with
  | nil =>
    intro a ha
    cases ha
  | here => cases hb
  | inside => cases hb
  | past hown _ _ ih₁ ih₂ =>
    intro x hx c hc
    rcases List.mem_cons.mp hx with rfl | hx
    · rcases Relation.ReflTransGen.cases_head_iff.mp hc with rfl | ⟨y, hy, hyc⟩
      · exact hown
      · exact ih₁ rfl y hy c hyc
    · exact ih₂ hb x hx c hc

theorem Scan.transport {β : Type*} {own' : β → Bool} {inc' : β → List β} {R : α → β → Prop}
    (hown : ∀ a x, R a x → own' x = own a)
    (hinc : ∀ a x, R a x → List.Forall₂ R (inc a) (inc' x)) {l : List α} {l' : List β}
    {b : Bool} (hl : List.Forall₂ R l l') (h : Scan own inc l b) : Scan own' inc' l' b := by
  induction h generalizing l' with
  | nil =>
    cases hl
    exact .nil
  | here ho =>
    cases hl with
    | cons hx _ => exact .here ((hown _ _ hx).trans ho)
  | inside ho _ ih =>
    cases hl with
    | cons hx _ => exact .inside ((hown _ _ hx).trans ho) (ih (hinc _ _ hx))
  | past ho _ _ ih₁ ih₂ =>
    cases hl with
    | cons hx hrest => exact .past ((hown _ _ hx).trans ho) (ih₁ (hinc _ _ hx)) (ih₂ hrest)

end OpaFm.Lib
