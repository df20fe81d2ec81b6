import Mathlib.Data.List.Basic
import Mathlib.Data.List.Nodup
import Mathlib.Logic.Function.Basic
import Mathlib.Data.List.Chain

/-!
# Linked lists in memory

A link field is a function from addresses to pointers.  `Linked next p l` says that
the pointers from `p` on lead through the addresses of `l` and end.
-/

namespace OpaFm.Lib

section

variable {α : Type*}

def Linked (next : α → Option α) : Option α → List α → Prop
  | p, [] => p = none
  | p, a :: l => p = some a ∧ Linked next (next a) l

def findLinked (next : α → Option α) (test : α → Bool) : Nat → Option α → Option α
  | 0, _ => none
  | _ + 1, none => none
  | fuel + 1, some a => if test a then some a else findLinked next test fuel (next a)

def findLink (next : α → Option α) (test : α → Bool) :
    Nat → Option α → Option α → Option (Option α × α)
  | 0, _, _ => none
  | _ + 1, _, none => none
  | fuel + 1, prev, some a =>
    if test a then some (prev, a) else findLink next test fuel (some a) (next a)

variable {next next' : α → Option α} {p q : Option α} {l m : List α} {a : α}

namespace Linked

theorem head (h : Linked next p l) : p = l.head? := by
  cases l with
  | nil => exact h
  | cons a l => exact h.1

theorem congr (h : Linked next p l) (heq : ∀ a ∈ l, next' a = next a) : Linked next' p l := by
  induction l generalizing p with
  | nil => exact h
  | cons a l ih =>
    refine ⟨h.1, ?_⟩
    rw [heq a List.mem_cons_self]
    exact ih h.2 fun b hb => heq b (List.mem_cons_of_mem a hb)

theorem tail (h : Linked next p (l ++ a :: m)) : Linked next (next a) m := by
  induction l generalizing p with
  | nil => exact h.2
  | cons b l ih => exact ih h.2

theorem next_eq (h : Linked next p (l ++ a :: m)) : next a = m.head? := h.tail.head

variable [DecidableEq α]

theorem update (h : Linked next p l) (ha : a ∉ l) (q : Option α) :
    Linked (Function.update next a q) p l := by
  apply h.congr
  intro b hb
  apply Function.update_of_ne
  rintro rfl
  exact ha hb

theorem push (h : Linked next p l) (ha : a ∉ l) : Linked (Function.update next a p) (some a) (a :: l) := by
  refine ⟨rfl, ?_⟩
  rw [Function.update_self]
  exact h.update ha p

theorem appendAt (h : Linked next p (l ++ [a])) (hm : Linked next q m) (hal : a ∉ l) (ham : a ∉ m) :
    Linked (Function.update next a q) p (l ++ a :: m) := by
  induction l generalizing p with
  | nil =>
    refine ⟨h.1, ?_⟩
    rw [Function.update_self]
    exact hm.update ham q
  | cons b l ih =>
    have hne : b ≠ a := fun hba => hal (hba ▸ List.mem_cons_self)
    refine ⟨h.1, ?_⟩
    rw [Function.update_of_ne hne]
    exact ih h.2 fun hin => hal (List.mem_cons_of_mem b hin)

end Linked

/-! ## Taking an address out -/

/-- What the links become when `a`, which follows `prev`, is left out. -/
def unlink [DecidableEq α] (next : α → Option α) (prev : Option α) (a : α) : α → Option α :=
  match prev with
  | none => next
  | some b => Function.update next b (next a)

def unlinkHead (next : α → Option α) (prev : Option α) (a : α) (p : Option α) : Option α :=
  match prev with
  | none => next a
  | some _ => p

theorem Linked.unlink [DecidableEq α] (h : Linked next p (l ++ a :: m)) (hnodup : (l ++ a :: m).Nodup) :
    Linked (OpaFm.Lib.unlink next l.getLast? a) (unlinkHead next l.getLast? a p) (l ++ m) := by
  rcases List.eq_nil_or_concat l with rfl | ⟨l', b, rfl⟩
  · exact h.2
  · rw [List.concat_eq_append] at *
    rw [List.getLast?_concat]
    have htail := h.tail
    -- the links of the list before `a` lead to `b` and on to `a`
    have hfront : ∀ (l : List α) (p : Option α), Linked next p (l ++ b :: a :: m) → b ∉ l → b ∉ m →
        Linked (Function.update next b (next a)) p (l ++ b :: m) := by
      intro l
      induction l with
      | nil =>
        intro p hp _ hbm
        refine ⟨hp.1, ?_⟩
        rw [Function.update_self]
        exact htail.update hbm _
      | cons c l ih =>
        intro p hp hbl hbm
        have hne : c ≠ b := fun hcb => hbl (hcb ▸ List.mem_cons_self)
        refine ⟨hp.1, ?_⟩
        rw [Function.update_of_ne hne]
        exact ih _ hp.2 (fun hin => hbl (List.mem_cons_of_mem c hin)) hbm
    rw [List.append_assoc] at h hnodup ⊢
    have hb := List.nodup_middle.mp hnodup
    rw [List.nodup_cons, List.mem_append, not_or] at hb
    exact hfront l' p h hb.1.1 fun hin => hb.1.2 (List.mem_cons_of_mem a hin)

theorem unlink_eq [DecidableEq α] (next : α → Option α) (prev : Option α) (a : α) :
    unlink next prev a = prev.elim next fun b => Function.update next b (next a) := by
  cases prev <;> rfl

theorem Linked.unlinkHead_eq [DecidableEq α] (h : Linked next p (l ++ a :: m))
    (hnodup : (l ++ a :: m).Nodup) :
    unlinkHead next l.getLast? a p = if p = some a then next a else p := by
  cases l with
  | nil => exact (if_pos h.1).symm
  | cons b l =>
    have hne : p ≠ some a := by
      rw [h.1]
      rintro ⟨⟩
      exact (List.nodup_cons.mp hnodup).1 (List.mem_append_right l List.mem_cons_self)
    rw [if_neg hne, List.getLast?_cons]
    rfl

theorem Linked.unlink_other [DecidableEq α] {prev : Option α} (h : Linked next p l) (a : α)
    (hprev : ∀ b ∈ prev, b ∉ l) : Linked (OpaFm.Lib.unlink next prev a) p l := by
  cases prev with
  | none => exact h
  | some b => exact h.update (hprev b rfl) _

/-! ## Searching -/

theorem findLink_snd (next : α → Option α) (test : α → Bool) (fuel : Nat) (prev p : Option α) :
    (findLink next test fuel prev p).map Prod.snd = findLinked next test fuel p := by
  induction fuel generalizing prev p with
  | zero => rfl
  | succ fuel ih =>
    cases p with
    | none => rfl
    | some a =>
      unfold findLink findLinked
      split
      next => rfl
      next => exact ih (some a) (next a)

theorem findLink_eq (test : α → Bool) {fuel : Nat} (prev : Option α) (h : Linked next p l)
    (hfuel : l.length < fuel) :
    (findLink next test fuel prev p = none ∧ ∀ b ∈ l, test b = false) ∨
    ∃ before a after, l = before ++ a :: after ∧ test a = true ∧ (∀ b ∈ before, test b = false) ∧
      findLink next test fuel prev p = some (before.getLast?.or prev, a) := by
  induction l generalizing p fuel prev with
  | nil =>
    cases h
    refine .inl ⟨?_, fun b hb => by cases hb⟩
    cases fuel <;> rfl
  | cons a l ih =>
    obtain ⟨rfl, h⟩ := h
    cases fuel with
    | zero => cases hfuel
    | succ fuel =>
      unfold findLink
      cases ht : test a with
      | true => exact .inr ⟨[], a, l, rfl, ht, by simp, rfl⟩
      | false =>
        simp only [Bool.false_eq_true, if_false]
        rcases ih (some a) h (Nat.lt_of_succ_lt_succ hfuel) with
          ⟨hnone, hall⟩ | ⟨before, b, after, rfl, hb, hbefore, hfound⟩
        · refine .inl ⟨hnone, fun b hb => ?_⟩
          rcases List.mem_cons.mp hb with rfl | hb
          · exact ht
          · exact hall b hb
        · refine .inr ⟨a :: before, b, after, rfl, hb, fun c hc => ?_, ?_⟩
          · rcases List.mem_cons.mp hc with rfl | hc
            · exact ht
            · exact hbefore c hc
          · rw [hfound]
            cases before with
            | nil => rfl
            | cons c before => simp [List.getLast?_cons]

end

/-!
## Doubly linked lists in memory

Records with a link in each direction, of which every list holds some.  Only the back
pointers behind the head count: taking the head out leaves the one of the new head as it
is.
-/

section

structure Links (α : Type*) where
  next : α → Option α
  prev : α → Option α

variable {α : Type*}

namespace Links

variable [DecidableEq α]

/-- Taking a record out of the list that `list` points to; `none` when it is neither the
head nor has a back pointer. -/
def deleteEntry (k : Links α) (list : Option α) (entry : α) : Option (Links α × Option α) :=
  if list = some entry then
    some
      ({ next := Function.update k.next entry none
         prev := Function.update k.prev entry none },
        k.next entry)
  else
    match k.prev entry with
    | none => none
    | some before =>
      let next := Function.update k.next before (k.next entry)
      let prev :=
        match next entry with
        | none => k.prev
        | some after => Function.update k.prev after (some before)
      some
        ({ next := Function.update next entry none
           prev := Function.update prev entry none },
          list)

def insertHead (k : Links α) (list : Option α) (entry : α) : Links α :=
  let prev :=
    match list with
    | none => k.prev
    | some head => Function.update k.prev head (some entry)
  { next := Function.update k.next entry list
    prev := Function.update prev entry none }

end Links

/-- The links from `p` on lead through `l`, forth and back. -/
structure DLinked (k : Links α) (p : Option α) (l : List α) : Prop where
  linked : Linked k.next p l
  back : l.IsChain fun a b => k.prev b = some a
  nodup : l.Nodup

namespace DLinked

variable {k k' : Links α} {p : Option α} {l l₁ l₂ : List α} {a e : α}

theorem nil : DLinked k none [] := ⟨rfl, List.isChain_nil, List.nodup_nil⟩

theorem congr (h : DLinked k p l) (hnext : ∀ a ∈ l, k'.next a = k.next a)
    (hprev : ∀ a ∈ l, k'.prev a = k.prev a) : DLinked k' p l where
  linked := h.linked.congr hnext
  back := by
    apply h.back.imp_of_mem_imp
    intro a b _ hb hab
    rw [hprev b hb]
    exact hab
  nodup := h.nodup

theorem head (h : DLinked k p l) : p = l.head? := h.linked.head

theorem not_mem_of_split (h : DLinked k p (l₁ ++ e :: l₂)) : e ∉ l₁ ++ l₂ :=
  (List.nodup_cons.mp (List.nodup_middle.mp h.nodup)).1

theorem prev_eq (h : DLinked k p (l₁ ++ a :: e :: l₂)) : k.prev e = some a :=
  (List.isChain_append_cons_cons.mp h.back).2.1

theorem head_ne (h : DLinked k p (l₁ ++ a :: e :: l₂)) : p ≠ some e := by
  have hmem : e ∉ l₁ ++ a :: l₂ := by
    have hsplit : DLinked k p ((l₁ ++ [a]) ++ e :: l₂) := by simpa using h
    simpa using hsplit.not_mem_of_split
  rw [h.head]
  cases l₁ with
  | nil =>
    intro heq
    apply hmem
    rw [← Option.some.inj heq]
    exact List.mem_cons_self
  | cons b l₁ =>
    intro heq
    apply hmem
    rw [← Option.some.inj heq]
    exact List.mem_cons_self

variable [DecidableEq α]

private theorem delete_head (h : DLinked k p (e :: l)) :
    ∃ k' p', k.deleteEntry p e = some (k', p') ∧ DLinked k' p' l ∧
      ∀ a ∉ e :: l, k'.next a = k.next a ∧ k'.prev a = k.prev a := by
  have hp : p = some e := h.head
  have he : e ∉ l := (List.nodup_cons.mp h.nodup).1
  have hne : ∀ a ∈ l, a ≠ e := fun a ha hae => he (hae ▸ ha)
  have htail : DLinked k (k.next e) l :=
    ⟨h.linked.2, h.back.tail, (List.nodup_cons.mp h.nodup).2⟩
  refine ⟨_, _, if_pos hp, ?_, ?_⟩
  · apply htail.congr
    · intro a ha
      exact Function.update_of_ne (hne a ha) _ _
    · intro a ha
      exact Function.update_of_ne (hne a ha) _ _
  · intro a ha
    have hae : a ≠ e := fun hae => ha (hae ▸ List.mem_cons_self)
    exact ⟨Function.update_of_ne hae _ _, Function.update_of_ne hae _ _⟩

private theorem delete_behind (h : DLinked k p (l₁ ++ a :: e :: l₂)) :
    ∃ k' p', k.deleteEntry p e = some (k', p') ∧ DLinked k' p' (l₁ ++ a :: l₂) ∧
      ∀ b ∉ l₁ ++ a :: e :: l₂, k'.next b = k.next b ∧ k'.prev b = k.prev b := by
  have hsplit : DLinked k p ((l₁ ++ [a]) ++ e :: l₂) := by simpa using h
  have he : e ∉ l₁ ++ a :: l₂ := by simpa using hsplit.not_mem_of_split
  have hea : e ≠ a := fun hea => he (by simp [hea])
  have hnext : k.next e = l₂.head? := hsplit.linked.next_eq
  -- the links forth, as for a list without back pointers
  have hlinked : Linked (Function.update k.next a (k.next e)) p (l₁ ++ a :: l₂) := by
    have hout := hsplit.linked.unlink hsplit.nodup
    rw [hsplit.linked.unlinkHead_eq hsplit.nodup, if_neg h.head_ne, List.getLast?_concat] at hout
    simpa [unlink] using hout
  obtain ⟨hfront, -, hrest⟩ := List.isChain_append_cons_cons.mp h.back
  have hnodup : (l₁ ++ a :: l₂).Nodup := by
    simpa using (List.nodup_cons.mp (List.nodup_middle.mp hsplit.nodup)).2
  unfold Links.deleteEntry
  rw [if_neg h.head_ne, h.prev_eq]
  simp only [Function.update_of_ne hea, hnext]
  cases l₂ with
  | nil =>
    refine ⟨_, _, rfl, ⟨?_, ?_, hnodup⟩, ?_⟩
    · rw [hnext] at hlinked
      exact hlinked.update he none
    · apply hfront.imp_of_mem_imp
      intro b c _ hc hbc
      have hce : c ≠ e := fun hce => he (hce ▸ hc)
      simp [Function.update_of_ne, hce, hbc]
    · intro b hb
      have hbe : b ≠ e := fun hbe => hb (by simp [hbe])
      have hba : b ≠ a := fun hba => hb (by simp [hba])
      exact ⟨by simp [Function.update_of_ne, hbe, hba], by simp [Function.update_of_ne, hbe]⟩
  | cons d l₂ =>
    have hd : d ∉ l₁ ++ [a] := by
      intro hd
      have hdisj := List.nodup_append.mp (by simpa using hnodup : ((l₁ ++ [a]) ++ d :: l₂).Nodup)
      exact hdisj.2.2 d hd d List.mem_cons_self rfl
    have hdl : d ∉ l₂ := by
      have hall : (d :: l₂).Nodup :=
        (List.nodup_append.mp (by simpa using hnodup : ((l₁ ++ [a]) ++ d :: l₂).Nodup)).2.1
      exact (List.nodup_cons.mp hall).1
    have hed : e ≠ d := fun hed => he (by simp [hed])
    refine ⟨_, _, rfl, ⟨?_, ?_, hnodup⟩, ?_⟩
    · rw [hnext] at hlinked
      exact hlinked.update he none
    · apply List.isChain_append_cons_cons.mpr
      refine ⟨?_, ?_, ?_⟩
      · apply hfront.imp_of_mem_imp
        intro b c _ hc hbc
        have hce : c ≠ e := fun hce => he (by
          rw [← hce]
          simp only [List.mem_append, List.mem_cons, List.not_mem_nil, or_false] at hc ⊢
          exact hc.imp id .inl)
        have hcd : c ≠ d := fun hcd => hd (hcd ▸ hc)
        simp [Function.update_of_ne, hce, hcd, hbc]
      · simp [Function.update_of_ne, hed.symm]
      · apply (List.isChain_cons_cons.mp hrest).2.imp_of_mem_tail_imp
        intro b c _ hc hbc
        have hce : c ≠ e := fun hce => he (by simp [← hce, show c ∈ l₂ from hc])
        have hcd : c ≠ d := fun hcd => hdl (hcd ▸ hc)
        simp [Function.update_of_ne, hce, hcd, hbc]
    · intro b hb
      have hbe : b ≠ e := fun hbe => hb (by simp [hbe])
      have hba : b ≠ a := fun hba => hb (by simp [hba])
      have hbd : b ≠ d := fun hbd => hb (by simp [hbd])
      exact ⟨by simp [Function.update_of_ne, hbe, hba],
        by simp [Function.update_of_ne, hbe, hbd]⟩

theorem delete (h : DLinked k p (l₁ ++ e :: l₂)) :
    ∃ k' p', k.deleteEntry p e = some (k', p') ∧ DLinked k' p' (l₁ ++ l₂) ∧
      ∀ a ∉ l₁ ++ e :: l₂, k'.next a = k.next a ∧ k'.prev a = k.prev a := by
  rcases List.eq_nil_or_concat l₁ with rfl | ⟨l₁, b, rfl⟩
  · exact h.delete_head
  · simp only [List.concat_eq_append, List.append_assoc, List.singleton_append] at h ⊢
    exact h.delete_behind

theorem insert (h : DLinked k p l) (he : e ∉ l) : DLinked (k.insertHead p e) (some e) (e :: l) where
  linked := h.linked.push he
  back := by
    have hp := h.head
    cases l with
    | nil => exact List.isChain_singleton e
    | cons d l =>
      rw [List.head?_cons] at hp
      subst hp
      have hde : d ≠ e := fun hde => he (hde ▸ List.mem_cons_self)
      apply List.isChain_cons_cons.mpr
      constructor
      · simp [Links.insertHead, Function.update_of_ne, hde]
      · apply h.back.imp_of_mem_tail_imp
        intro b c _ hc hbc
        have hce : c ≠ e := fun hce => he (hce ▸ List.mem_cons_of_mem d hc)
        have hcd : c ≠ d := fun hcd => (List.nodup_cons.mp h.nodup).1 (hcd ▸ hc)
        simp [Links.insertHead, Function.update_of_ne, hce, hcd, hbc]
  nodup := List.nodup_cons.mpr ⟨he, h.nodup⟩

theorem insert_other (h : DLinked k p l) (ha : a ∉ e :: l) :
    (k.insertHead p e).next a = k.next a ∧ (k.insertHead p e).prev a = k.prev a := by
  have hae : a ≠ e := fun hae => ha (hae ▸ List.mem_cons_self)
  have hp := h.head
  cases l with
  | nil =>
    subst hp
    simp [Links.insertHead, Function.update_of_ne, hae]
  | cons d l =>
    have had : a ≠ d := fun had => ha (by simp [had])
    subst hp
    simp [Links.insertHead, Function.update_of_ne, hae, had]

end DLinked

/-! ### Several lists over one pool -/

/-- The lists that start at `heads`, none of which shares a record with another. -/
structure DLists {ι : Type*} (k : Links α) (heads : ι → Option α) (lists : ι → List α) : Prop where
  dlinked : ∀ i, DLinked k (heads i) (lists i)
  apart : ∀ {i j a}, a ∈ lists i → a ∈ lists j → i = j

namespace DLists

variable {ι : Type*} [DecidableEq ι] [DecidableEq α] {k : Links α} {heads : ι → Option α}
  {lists : ι → List α} {l₁ l₂ : List α} {e : α}

theorem delete (h : DLists k heads lists) (i : ι) (hi : lists i = l₁ ++ e :: l₂) :
    ∃ k' p', k.deleteEntry (heads i) e = some (k', p') ∧
      DLists k' (Function.update heads i p') (Function.update lists i (l₁ ++ l₂)) := by
  have hlist := h.dlinked i
  rw [hi] at hlist
  obtain ⟨k', p', hdelete, hout, hother⟩ := hlist.delete
  have hsub : ∀ j a, a ∈ Function.update lists i (l₁ ++ l₂) j → a ∈ lists j := by
    intro j a ha
    by_cases hj : j = i
    · subst hj
      rw [Function.update_self, List.mem_append] at ha
      rw [hi, List.mem_append]
      exact ha.imp id (List.mem_cons_of_mem e)
    · rwa [Function.update_of_ne hj] at ha
  refine ⟨k', p', hdelete, ?_, fun ha hb => h.apart (hsub _ _ ha) (hsub _ _ hb)⟩
  intro j
  by_cases hj : j = i
  · subst hj
    simpa using hout
  · rw [Function.update_of_ne hj, Function.update_of_ne hj]
    have hne : ∀ a ∈ lists j, a ∉ l₁ ++ e :: l₂ := by
      intro a ha hin
      rw [← hi] at hin
      exact hj (h.apart ha hin)
    exact (h.dlinked j).congr (fun a ha => (hother a (hne a ha)).1) fun a ha =>
      (hother a (hne a ha)).2

theorem insert (h : DLists k heads lists) (i : ι) (he : ∀ j, e ∉ lists j) :
    DLists (k.insertHead (heads i) e) (Function.update heads i (some e))
      (Function.update lists i (e :: lists i)) := by
  have hmem : ∀ j a, a ∈ Function.update lists i (e :: lists i) j ↔ (a = e ∧ j = i) ∨ a ∈ lists j := by
    intro j a
    by_cases hj : j = i
    · subst hj
      simp
    · simp [hj]
  constructor
  · intro j
    by_cases hj : j = i
    · subst hj
      simpa using (h.dlinked j).insert (he j)
    · rw [Function.update_of_ne hj, Function.update_of_ne hj]
      have hne : ∀ a ∈ lists j, a ∉ e :: lists i := by
        intro a ha hin
        rcases List.mem_cons.mp hin with rfl | hin
        · exact he j ha
        · exact hj (h.apart ha hin)
      exact (h.dlinked j).congr (fun a ha => ((h.dlinked i).insert_other (hne a ha)).1) fun a ha =>
        ((h.dlinked i).insert_other (hne a ha)).2
  · intro j₁ j₂ a ha hb
    rw [hmem] at ha hb
    rcases ha with ⟨rfl, rfl⟩ | ha
    · rcases hb with ⟨-, rfl⟩ | hb
      · rfl
      · exact absurd hb (he j₂)
    · rcases hb with ⟨rfl, -⟩ | hb
      · exact absurd ha (he j₁)
      · exact h.apart ha hb

omit [DecidableEq ι] in
theorem clear (h : DLists k heads lists) (he : ∀ j, e ∉ lists j) :
    DLists { next := Function.update k.next e none, prev := Function.update k.prev e none } heads
      lists := by
  refine ⟨fun j => ?_, h.apart⟩
  have hne : ∀ a ∈ lists j, a ≠ e := fun a ha hae => he j (hae ▸ ha)
  exact (h.dlinked j).congr (fun a ha => Function.update_of_ne (hne a ha) _ _) fun a ha =>
    Function.update_of_ne (hne a ha) _ _

end DLists

end

/-!
## Circular lists in memory

Records linked in both directions around a sentinel, which is no member of the list.  A record
is put in front of another one, or of the sentinel.
-/

section

structure CircularLinks (α : Type*) where
  next : α → α
  prev : α → α

variable {α : Type*}

namespace CircularLinks

variable [DecidableEq α]

def insertBefore (k : CircularLinks α) (place new : α) : CircularLinks α where
  next := Function.update (Function.update k.next new place) (k.prev place) new
  prev := Function.update (Function.update k.prev new (k.prev place)) place new

def remove (k : CircularLinks α) (a : α) : CircularLinks α :=
  let prev := Function.update k.prev (k.next a) (k.prev a)
  { next := Function.update k.next (prev a) (k.next a), prev := prev }

end CircularLinks

def Follows (k : CircularLinks α) (a b : α) : Prop := k.next a = b ∧ k.prev b = a

/-- The links from the sentinel `s` lead through `l` and back. -/
structure Circular (k : CircularLinks α) (s : α) (l : List α) : Prop where
  nodup : (s :: l).Nodup
  chain : (s :: (l ++ [s])).IsChain (Follows k)

theorem isChain_imp_ends {R S : α → α → Prop} {l : List α}
    (himp : ∀ a b, a ∈ l.dropLast → b ∈ l.tail → R a b → S a b) (h : l.IsChain R) : l.IsChain S := by
  rw [List.isChain_iff_forall_rel_of_append_cons_cons] at h ⊢
  intro a b l₁ l₂ heq
  apply himp a b _ _ (h heq)
  · rw [heq, List.dropLast_append_cons]
    simp
  · rw [heq]
    cases l₁ <;> simp

theorem chain_of_agree {k k' : CircularLinks α} {l : List α} (h : l.IsChain (Follows k))
    (hnext : ∀ a ∈ l.dropLast, k'.next a = k.next a) (hprev : ∀ a ∈ l.tail, k'.prev a = k.prev a) :
    l.IsChain (Follows k') := by
  apply isChain_imp_ends _ h
  rintro a b ha hb ⟨hn, hp⟩
  exact ⟨(hnext a ha).trans hn, (hprev b hb).trans hp⟩

namespace Circular

variable {k k' : CircularLinks α} {s a : α} {l l₁ l₂ : List α}

theorem exists_gap (s : α) (l₁ l₂ : List α) :
    ∃ p y x q, s :: l₁ = p ++ [y] ∧ l₂ ++ [s] = x :: q := by
  obtain ⟨p, y, hp⟩ := (List.eq_nil_or_concat (s :: l₁)).resolve_left (List.cons_ne_nil _ _)
  obtain ⟨x, q, hq⟩ := List.exists_cons_of_ne_nil (l := l₂ ++ [s]) (by simp)
  exact ⟨p, y, x, q, hp.trans List.concat_eq_append, hq⟩

theorem next_eq (h : Circular k s (l₁ ++ a :: l₂)) : k.next a = (l₂ ++ [s]).head (by simp) := by
  have hchain := h.chain
  obtain ⟨x, q, hq⟩ := List.exists_cons_of_ne_nil (l := l₂ ++ [s]) (by simp)
  have heq : s :: (l₁ ++ a :: l₂ ++ [s]) = (s :: l₁) ++ a :: x :: q := by simp [hq]
  rw [heq, List.isChain_append_cons_cons] at hchain
  simp only [hq, List.head_cons]
  exact hchain.2.1.1

theorem next_sentinel (h : Circular k s l) : k.next s = (l ++ [s]).head (by simp) := by
  have hchain := h.chain
  obtain ⟨x, q, hq⟩ := List.exists_cons_of_ne_nil (l := l ++ [s]) (by simp)
  simp only [hq] at hchain ⊢
  exact (List.isChain_cons_cons.mp hchain).1.1

variable [DecidableEq α]

theorem insert (h : Circular k s (l₁ ++ l₂)) (ha : a ∉ s :: (l₁ ++ l₂)) :
    Circular (k.insertBefore ((l₂ ++ [s]).head (by simp)) a) s (l₁ ++ a :: l₂) ∧
      ∀ b ∉ s :: (l₁ ++ a :: l₂), (k.insertBefore ((l₂ ++ [s]).head (by simp)) a).next b = k.next b ∧
        (k.insertBefore ((l₂ ++ [s]).head (by simp)) a).prev b = k.prev b := by
  obtain ⟨p, y, x, q, hp, hq⟩ := exists_gap s l₁ l₂
  have hchain := h.chain
  have heq : s :: (l₁ ++ l₂ ++ [s]) = p ++ y :: x :: q := by
    rw [List.append_assoc, ← List.cons_append, hp, hq, List.append_assoc, List.singleton_append]
  rw [heq, List.isChain_append_cons_cons] at hchain
  obtain ⟨hfront, ⟨hnext, hprev⟩, hback⟩ := hchain
  simp only [hq, List.head_cons]
  have hnodup := h.nodup
  have hmem : ∀ b, b ∈ s :: l₁ ↔ b ∈ p ∨ b = y := by
    intro b
    rw [hp, List.mem_append, List.mem_singleton]
  have hmem' : ∀ b, b ∈ l₂ ∨ b = s ↔ b = x ∨ b ∈ q := by
    intro b
    rw [← List.mem_cons, ← hq, List.mem_append, List.mem_singleton]
  have hxa : x ≠ a := by grind
  have hya : y ≠ a := by grind
  unfold CircularLinks.insertBefore
  rw [hprev]
  constructor
  · constructor
    · rw [← List.cons_append] at hnodup ha ⊢
      exact List.nodup_middle.mpr (List.nodup_cons.mpr ⟨ha, hnodup⟩)
    · have heq' : s :: (l₁ ++ a :: l₂ ++ [s]) = p ++ y :: a :: x :: q := by
        rw [List.append_assoc, ← List.cons_append, hp, List.cons_append, hq, List.append_assoc,
          List.singleton_append]
      rw [heq', List.isChain_append_cons_cons, List.isChain_cons_cons]
      refine ⟨?_, ?_, ?_, ?_⟩
      · apply chain_of_agree hfront
        · rw [List.dropLast_concat]
          intro b hb
          have hby : b ≠ y := by grind
          have hba : b ≠ a := by grind
          simp [Function.update_of_ne, hby, hba]
        · rw [← hp]
          intro c hc
          have hcx : c ≠ x := by grind
          have hca : c ≠ a := by grind
          simp [Function.update_of_ne, hcx, hca]
      · exact ⟨by simp, by simp [Function.update_of_ne, Ne.symm hxa]⟩
      · exact ⟨by simp [Function.update_of_ne, Ne.symm hya], by simp⟩
      · apply chain_of_agree hback
        · rw [← hq, List.dropLast_concat]
          intro b hb
          have hby : b ≠ y := by grind
          have hba : b ≠ a := by grind
          simp [Function.update_of_ne, hby, hba]
        · intro c hc
          have hcx : c ≠ x := by
            rintro rfl
            have hend : (l₂ ++ [s]).Nodup := by grind
            rw [hq] at hend
            grind
          have hca : c ≠ a := by grind
          simp [Function.update_of_ne, hcx, hca]
  · intro b hb
    have hbne : b ≠ y := by grind
    have hba : b ≠ a := by grind
    have hbx : b ≠ x := by grind
    exact ⟨by simp [Function.update_of_ne, hbne, hba], by simp [Function.update_of_ne, hbx, hba]⟩

theorem remove (h : Circular k s (l₁ ++ a :: l₂)) :
    Circular (k.remove a) s (l₁ ++ l₂) ∧
      ∀ b ∉ s :: (l₁ ++ l₂), (k.remove a).next b = k.next b ∧ (k.remove a).prev b = k.prev b := by
  obtain ⟨p, y, x, q, hp, hq⟩ := exists_gap s l₁ l₂
  have hchain := h.chain
  have heq : s :: (l₁ ++ a :: l₂ ++ [s]) = p ++ y :: a :: x :: q := by
    rw [List.append_assoc, ← List.cons_append, hp, List.cons_append, hq, List.append_assoc,
      List.singleton_append]
  rw [heq, List.isChain_append_cons_cons, List.isChain_cons_cons] at hchain
  obtain ⟨hfront, ⟨-, hprev⟩, ⟨hnext, -⟩, hback⟩ := hchain
  have hnodup := h.nodup
  rw [← List.cons_append] at hnodup
  obtain ⟨ha, hnodup⟩ := List.nodup_cons.mp (List.nodup_middle.mp hnodup)
  have hmem : ∀ b, b ∈ s :: l₁ ↔ b ∈ p ∨ b = y := by
    intro b
    rw [hp, List.mem_append, List.mem_singleton]
  have hmem' : ∀ b, b ∈ l₂ ∨ b = s ↔ b = x ∨ b ∈ q := by
    intro b
    rw [← List.mem_cons, ← hq, List.mem_append, List.mem_singleton]
  have hax : a ≠ x := by grind
  have hay : a ≠ y := by grind
  unfold CircularLinks.remove
  rw [hnext, hprev]
  simp only [Function.update_of_ne hax, hprev]
  constructor
  · constructor
    · exact hnodup
    · have heq' : s :: (l₁ ++ l₂ ++ [s]) = p ++ y :: x :: q := by
        rw [List.append_assoc, ← List.cons_append, hp, hq, List.append_assoc, List.singleton_append]
      rw [heq', List.isChain_append_cons_cons]
      refine ⟨?_, ?_, ?_⟩
      · apply chain_of_agree hfront
        · rw [List.dropLast_concat]
          intro b hb
          have hby : b ≠ y := by grind
          simp [Function.update_of_ne, hby]
        · rw [← hp]
          intro c hc
          have hcx : c ≠ x := by grind
          simp [Function.update_of_ne, hcx]
      · exact ⟨by simp, by simp⟩
      · apply chain_of_agree hback
        · rw [← hq, List.dropLast_concat]
          intro b hb
          have hby : b ≠ y := by grind
          simp [Function.update_of_ne, hby]
        · intro c hc
          have hcx : c ≠ x := by
            rintro rfl
            have hend : (l₂ ++ [s]).Nodup := by grind
            rw [hq] at hend
            grind
          simp [Function.update_of_ne, hcx]
  · intro b hb
    have hby : b ≠ y := by grind
    have hbx : b ≠ x := by grind
    exact ⟨by simp [Function.update_of_ne, hby], by simp [Function.update_of_ne, hbx]⟩

end Circular

end

/-!
## Lists with both ends

A list with pointers to its head and its tail, into which records are put at a place in the middle
and out of which the last one is taken.
-/

variable {α : Type*}

/-- The loop over the records with a property, which keeps the last one that it has passed. -/
def passLinked (next : α → Option α) (test : α → Bool) :
    Nat → Option α → Option α → Option (Option α)
  | 0, _, _ => none
  | _ + 1, prev, none => some prev
  | fuel + 1, prev, some a =>
    if test a then passLinked next test fuel (some a) (next a) else some prev

def walkLinked (next : α → Option α) : Nat → Option α → List α
  | 0, _ => []
  | _ + 1, none => []
  | n + 1, some a => a :: walkLinked next n (next a)

structure ListEnds (α : Type*) where
  links : Links α
  head : Option α
  tail : Option α

namespace ListEnds

variable [DecidableEq α] (s : ListEnds α)

def insertAfter (prev : Option α) (new : α) : ListEnds α :=
  match prev with
  | none => { s with links := s.links.insertHead s.head new, head := some new }
  | some before =>
    let next := Function.update s.links.next new (s.links.next before)
    let back := Function.update s.links.prev new (some before)
    let back :=
      match s.links.next before with
      | none => back
      | some after => Function.update back after (some new)
    { links := ⟨Function.update next before (some new), back⟩
      head := s.head
      tail := if s.links.next before = none then some new else s.tail }

/-- The last record is taken out; `none` where there is none in front of it. -/
def dropTail : Option (ListEnds α) :=
  match s.tail with
  | none => none
  | some last =>
    match s.links.prev last with
    | none => none
    | some before =>
      some
        { links := { s.links with next := Function.update s.links.next before none }
          head := s.head
          tail := some before }

end ListEnds

variable {next : α → Option α} {p : Option α} {l l₁ l₂ : List α} {a b : α}

theorem Linked.passLinked_eq (test : α → Bool) {fuel : Nat} (prev : Option α)
    (h : Linked next p l) (hfuel : l.length < fuel) :
    passLinked next test fuel prev p = some ((l.takeWhile test).getLast?.or prev) := by
  induction l generalizing p prev fuel with
  | nil =>
    obtain ⟨fuel, rfl⟩ : ∃ f, fuel = f + 1 := ⟨fuel - 1, by omega⟩
    rw [show p = none from h]
    rfl
  | cons a l ih =>
    obtain ⟨fuel, rfl⟩ : ∃ f, fuel = f + 1 := ⟨fuel - 1, by omega⟩
    rw [List.length_cons] at hfuel
    rw [h.1, passLinked, List.takeWhile_cons]
    split
    · rw [ih (some a) h.2 (by omega), List.getLast?_cons]
      cases (l.takeWhile test).getLast? with
      | none => rfl
      | some b => rfl
    · rfl

theorem Linked.walkLinked_eq (h : Linked next p l) (n : Nat) : walkLinked next n p = l.take n := by
  induction n generalizing p l with
  | zero => rfl
  | succ n ih =>
    cases l with
    | nil =>
      rw [show p = none from h]
      rfl
    | cons a l =>
      rw [h.1, walkLinked, ih h.2]
      rfl

theorem Linked.redirect [DecidableEq α] {q : Option α} (h : Linked next p (l ++ a :: l₁))
    (hq : Linked next q l₂) (hl : a ∉ l) (ha : a ∉ l₂) :
    Linked (Function.update next a q) p (l ++ a :: l₂) := by
  induction l generalizing p with
  | nil =>
    refine ⟨h.1, ?_⟩
    rw [Function.update_self]
    exact hq.update ha q
  | cons b l ih =>
    have hne : b ≠ a := fun hba => hl (hba ▸ List.mem_cons_self)
    refine ⟨h.1, ?_⟩
    rw [Function.update_of_ne hne]
    exact ih h.2 fun hin => hl (List.mem_cons_of_mem b hin)

/-- The list can be followed in both directions, and these are its ends. -/
structure ListEnds.Holds (s : ListEnds α) (l : List α) : Prop where
  linked : DLinked s.links s.head l
  first : ∀ a, s.head = some a → s.links.prev a = none
  last : s.tail = l.getLast?

namespace ListEnds.Holds

variable [DecidableEq α] {s : ListEnds α}

theorem insertHead (h : s.Holds l) (hne : l ≠ []) (ha : a ∉ l) :
    (s.insertAfter none a).Holds (a :: l) where
  linked := h.linked.insert ha
  first := by
    intro b hb
    cases hb
    exact Function.update_self _ _ _
  last := by
    show s.tail = (a :: l).getLast?
    rw [h.last, List.getLast?_cons, List.getLast?_eq_some_getLast hne]
    rfl

theorem insertBehind (h : s.Holds (l₁ ++ b :: l₂)) (ha : a ∉ l₁ ++ b :: l₂) :
    (s.insertAfter (some b) a).Holds (l₁ ++ b :: a :: l₂) := by
  have hnodup := h.linked.nodup
  have hb := List.nodup_middle.1 hnodup
  rw [List.nodup_cons, List.mem_append, not_or] at hb
  have hab : a ≠ b := fun hab => ha (hab ▸ List.mem_append_right _ List.mem_cons_self)
  have hal₂ : a ∉ l₂ := fun hin => ha (List.mem_append_right _ (List.mem_cons_of_mem b hin))
  have hnext : s.links.next b = l₂.head? := h.linked.linked.next_eq
  -- from `a` on as from `b` before, and from `b` to `a`
  have hlinked : Linked (Function.update (Function.update s.links.next a (s.links.next b)) b
      (some a)) s.head (l₁ ++ b :: a :: l₂) := by
    have hold := h.linked.linked.update ha (s.links.next b)
    apply hold.redirect (h.linked.linked.tail.push hal₂) hb.1.1
    rw [List.mem_cons, not_or]
    exact ⟨hab.symm, hb.1.2⟩
  have hsplit : ∀ l : List α, l₁ ++ b :: l = (l₁ ++ [b]) ++ l := fun l => by simp
  have hnodup' : (l₁ ++ b :: a :: l₂).Nodup := by
    rw [hsplit, List.nodup_middle, ← hsplit, List.nodup_cons]
    exact ⟨ha, hnodup⟩
  have hfirst : ∀ c, s.head = some c → c ≠ a ∧ s.links.prev c = none := by
    intro c hc
    refine ⟨?_, h.first c hc⟩
    rintro rfl
    rw [h.linked.head] at hc
    exact ha (List.mem_of_mem_head? hc)
  cases l₂ with
  | nil =>
    rw [List.head?_nil] at hnext
    have hend : s.insertAfter (some b) a =
        ⟨⟨Function.update (Function.update s.links.next a (s.links.next b)) b (some a),
          Function.update s.links.prev a (some b)⟩, s.head, some a⟩ := by
      simp only [insertAfter, hnext, if_true]
    rw [hend]
    refine ⟨⟨hlinked, ?_, hnodup'⟩, ?_, ?_⟩
    · apply List.isChain_append_cons_cons.2
      refine ⟨?_, Function.update_self _ _ _, List.isChain_singleton a⟩
      apply h.linked.back.imp_of_mem_imp
      intro x y _ hy hxy
      have hya : y ≠ a := fun hya => ha (hya ▸ hy)
      show Function.update s.links.prev a (some b) y = some x
      rw [Function.update_of_ne hya]
      exact hxy
    · intro c hc
      obtain ⟨hca, hprev⟩ := hfirst c hc
      show Function.update s.links.prev a (some b) c = none
      rw [Function.update_of_ne hca]
      exact hprev
    · simp
  | cons d l₂ =>
    rw [List.head?_cons] at hnext
    have hbetween : s.insertAfter (some b) a = ⟨⟨Function.update (Function.update s.links.next a
        (s.links.next b)) b (some a), Function.update (Function.update s.links.prev a (some b)) d
        (some a)⟩, s.head, s.tail⟩ := by
      simp only [insertAfter, hnext]
      rfl
    obtain ⟨hfront, -, hrest⟩ := List.isChain_append_cons_cons.1 h.linked.back
    have hda : d ≠ a := fun hda => hal₂ (hda ▸ List.mem_cons_self)
    have hd : d ∉ l₁ ++ [b] := by
      intro hin
      have hdisjoint := List.nodup_append.1 (hsplit (d :: l₂) ▸ hnodup)
      exact hdisjoint.2.2 d hin d List.mem_cons_self rfl
    have hdl₂ : d ∉ l₂ :=
      (List.nodup_cons.1 (List.nodup_append.1 (hsplit (d :: l₂) ▸ hnodup)).2.1).1
    rw [hbetween]
    refine ⟨⟨hlinked, ?_, hnodup'⟩, ?_, ?_⟩
    · apply List.isChain_append_cons_cons.2
      refine ⟨?_, ?_, List.isChain_cons_cons.2 ⟨Function.update_self _ _ _, ?_⟩⟩
      · apply hfront.imp_of_mem_imp
        intro x y _ hy hxy
        have hya : y ≠ a := fun hya => ha (hsplit _ ▸ List.mem_append_left _ (hya ▸ hy))
        have hyd : y ≠ d := fun hyd => hd (hyd ▸ hy)
        show Function.update (Function.update s.links.prev a (some b)) d (some a) y = some x
        rw [Function.update_of_ne hyd, Function.update_of_ne hya]
        exact hxy
      · show Function.update (Function.update s.links.prev a (some b)) d (some a) a = some b
        rw [Function.update_of_ne hda.symm, Function.update_self]
      · apply hrest.imp_of_mem_tail_imp
        intro x y _ hy hxy
        have hya : y ≠ a := fun hya => hal₂ (hya ▸ List.mem_cons_of_mem d hy)
        have hyd : y ≠ d := fun hyd => hdl₂ (hyd ▸ hy)
        show Function.update (Function.update s.links.prev a (some b)) d (some a) y = some x
        rw [Function.update_of_ne hyd, Function.update_of_ne hya]
        exact hxy
    · intro c hc
      obtain ⟨hca, hprev⟩ := hfirst c hc
      have hcd : c ≠ d := by
        rintro rfl
        exact h.linked.head_ne hc
      show Function.update (Function.update s.links.prev a (some b)) d (some a) c = none
      rw [Function.update_of_ne hcd, Function.update_of_ne hca]
      exact hprev
    · show s.tail = (l₁ ++ b :: a :: d :: l₂).getLast?
      rw [h.last]
      simp [List.getLast?_append, List.getLast?_cons]

theorem insertAfter_passed (h : s.Holds l) (hne : l ≠ []) (ha : a ∉ l) (test : α → Bool) :
    (s.insertAfter (l.takeWhile test).getLast? a).Holds
      (l.takeWhile test ++ a :: l.dropWhile test) := by
  have hsplit := List.takeWhile_append_dropWhile (p := test) (l := l)
  rcases List.eq_nil_or_concat (l.takeWhile test) with hnil | ⟨front, b, hfront⟩
  · rw [hnil, List.nil_append] at hsplit ⊢
    rw [hsplit]
    exact h.insertHead hne ha
  · rw [List.concat_eq_append] at hfront
    rw [hfront, List.append_assoc, List.singleton_append] at hsplit
    rw [hfront, List.getLast?_concat, List.append_assoc, List.singleton_append]
    rw [← hsplit] at h ha
    exact h.insertBehind ha

theorem dropTail (h : s.Holds (l ++ [b, a])) :
    ∃ s' : ListEnds α, s.dropTail = some s' ∧ s'.Holds (l ++ [b]) := by
  have hsplit : l ++ [b, a] = (l ++ [b]) ++ [a] := by simp
  have hlast : s.tail = some a := by
    rw [h.last, hsplit, List.getLast?_concat]
  have hprev : s.links.prev a = some b := h.linked.prev_eq
  have hnodup := h.linked.nodup
  rw [hsplit] at hnodup
  have hfront := (List.nodup_append.1 hnodup).1
  have hb : b ∉ l := by
    have hmiddle := List.nodup_middle.1 hfront
    rw [List.append_nil] at hmiddle
    exact (List.nodup_cons.1 hmiddle).1
  refine ⟨⟨{ s.links with next := Function.update s.links.next b none }, s.head, some b⟩, ?_,
    ⟨?_, ?_, hfront⟩, h.first, ?_⟩
  · unfold ListEnds.dropTail
    rw [hlast]
    dsimp only
    rw [hprev]
  · have hall : Linked s.links.next s.head (l ++ b :: [a]) := h.linked.linked
    exact hall.redirect (show Linked s.links.next none [] from rfl) hb List.not_mem_nil
  · exact (List.isChain_append_cons_cons.1 h.linked.back).1
  · rw [List.getLast?_concat]

end ListEnds.Holds

end OpaFm.Lib
