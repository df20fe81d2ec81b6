import OpaFm.Lib.FirstMatch
import OpaFm.Partition.DeviceGroup

/-!
# The recursion through included groups

`smEvaluatePortDG` is a depth-first search that remembers what it has evaluated
in two bit sets.  A recursion that ends, on bits that came from port criteria
alone, has the answer of the search without memory; and where that search ends,
the recursion does, on bits of any origin.
-/

namespace OpaFm.Partition

open OpaFm.Fabric OpaFm.Lib

section Evaluation

variable {own : Nat → Bool} {included : Nat → List Nat}

theorem evaluateIncluded_mono {eval eval' : Nat → DgBits → Option (Bool × DgBits)}
    (hmono : ∀ i s r, eval i s = some r → eval' i s = some r) {g : Nat} {l : List Nat}
    {s : DgBits} {r : Bool × DgBits} (h : evaluateIncluded eval g l s = some r) :
    evaluateIncluded eval' g l s = some r := by
  induction l generalizing s with
  | nil => exact h
  | cons a l ih =>
    rw [evaluateIncluded] at h ⊢
    split
    · rename_i hev
      rw [if_pos hev] at h
      cases he : eval a s with
      | none =>
        rw [he] at h
        cases h
      | some q =>
        rw [he] at h
        rw [hmono a s q he]
        obtain ⟨b, s'⟩ := q
        cases b with
        | true => exact h
        | false => exact ih h
    · rename_i hev
      rw [if_neg hev] at h
      split
      · rename_i hmem
        rw [if_pos hmem] at h
        exact h
      · rename_i hmem
        rw [if_neg hmem] at h
        exact ih h

theorem evaluatePortDG_succ {fuel i : Nat} {s : DgBits} {r : Bool × DgBits}
    (h : evaluatePortDG own included fuel i s = some r) :
    evaluatePortDG own included (fuel + 1) i s = some r := by
  induction fuel generalizing i s r with
  | zero => cases h
  | succ fuel ih =>
    rw [evaluatePortDG] at h ⊢
    by_cases hev : i ∉ s.dgsEvaluated
    · rw [if_pos hev] at h ⊢
      by_cases hown : own i = true
      · rw [if_pos hown] at h ⊢
        exact h
      · rw [if_neg hown] at h ⊢
        obtain ⟨q, hq, rfl⟩ := Option.map_eq_some_iff.mp h
        rw [evaluateIncluded_mono (fun _ _ _ => ih) hq]
        rfl
    · rw [if_neg hev] at h ⊢
      exact h

theorem evaluatePortDG_mono {fuel fuel' i : Nat} {s : DgBits} {r : Bool × DgBits}
    (hle : fuel ≤ fuel') (h : evaluatePortDG own included fuel i s = some r) :
    evaluatePortDG own included fuel' i s = some r := by
  induction hle with
  | refl => exact h
  | step _ ih => exact evaluatePortDG_succ ih

structure DgBits.Le (s s' : DgBits) : Prop where
  member : s.dgMember ⊆ s'.dgMember
  evaluated : s.dgsEvaluated ⊆ s'.dgsEvaluated
  settled : ∀ i ∈ s.dgsEvaluated, i ∈ s'.dgMember → i ∈ s.dgMember

theorem DgBits.Le.refl (s : DgBits) : s.Le s :=
  ⟨Finset.Subset.refl _, Finset.Subset.refl _, fun _ _ h => h⟩

theorem DgBits.Le.trans {s₁ s₂ s₃ : DgBits} (h : s₁.Le s₂) (h' : s₂.Le s₃) : s₁.Le s₃ where
  member := h.member.trans h'.member
  evaluated := h.evaluated.trans h'.evaluated
  settled i hi hm := h.settled i hi (h'.settled i (h.evaluated hi) hm)

theorem DgBits.le_setEvaluated (s : DgBits) (i : Nat) : s.Le (s.setEvaluated i) where
  member := Finset.Subset.refl _
  evaluated := Finset.subset_insert _ _
  settled _ _ h := h

theorem DgBits.le_setMember {s : DgBits} {i : Nat} (hi : i ∉ s.dgsEvaluated) :
    s.Le (s.setMember i) where
  member := Finset.subset_insert _ _
  evaluated := Finset.Subset.refl _
  settled j hj hm := by
    rcases Finset.mem_insert.mp hm with rfl | hm
    · exact absurd hj hi
    · exact hm

theorem DgBits.Le.setMember {s s' : DgBits} (h : s.Le s') {i : Nat} (hi : i ∉ s.dgsEvaluated) :
    s.Le (s'.setMember i) where
  member := h.member.trans (Finset.subset_insert _ _)
  evaluated := h.evaluated
  settled j hj hm := by
    rcases Finset.mem_insert.mp hm with rfl | hm
    · exact absurd hj hi
    · exact h.settled j hj hm

theorem evaluateIncluded_le {eval : Nat → DgBits → Option (Bool × DgBits)}
    (heval : ∀ i s b s', eval i s = some (b, s') → s.Le s') {g : Nat} {s₀ : DgBits}
    (hg : g ∉ s₀.dgsEvaluated) {l : List Nat} {s s' : DgBits} {b : Bool} (hle : s₀.Le s)
    (h : evaluateIncluded eval g l s = some (b, s')) : s₀.Le s' := by
  induction l generalizing s with
  | nil =>
    cases h
    exact hle
  | cons a l ih =>
    rw [evaluateIncluded] at h
    split at h
    · rename_i hev
      have ha : a ∉ s₀.dgsEvaluated := fun hin => hev (hle.evaluated hin)
      cases he : eval a s with
      | none =>
        rw [he] at h
        cases h
      | some q =>
        obtain ⟨b₁, s₁⟩ := q
        have hle₁ : s₀.Le s₁ := hle.trans (heval a s b₁ s₁ he)
        rw [he] at h
        cases b₁ with
        | true =>
          obtain ⟨rfl, rfl⟩ := Prod.mk.inj (Option.some.inj h)
          exact (hle₁.setMember hg).setMember ha
        | false => exact ih hle₁ h
    · split at h
      · obtain ⟨rfl, rfl⟩ := Prod.mk.inj (Option.some.inj h)
        exact hle
      · exact ih hle h

theorem evaluatePortDG_le {fuel i : Nat} {s s' : DgBits} {b : Bool}
    (h : evaluatePortDG own included fuel i s = some (b, s')) : s.Le s' := by
  induction fuel generalizing i s s' b with
  | zero => cases h
  | succ fuel ih =>
    rw [evaluatePortDG] at h
    split at h
    · rename_i hev
      split at h
      · obtain ⟨rfl, rfl⟩ := Prod.mk.inj (Option.some.inj h)
        exact (DgBits.le_setMember hev).trans (DgBits.le_setEvaluated _ _)
      · obtain ⟨⟨b₁, s₁⟩, hq, heq⟩ := Option.map_eq_some_iff.mp h
        obtain ⟨rfl, rfl⟩ := Prod.mk.inj heq
        exact (evaluateIncluded_le (fun _ _ _ _ => ih) hev (DgBits.Le.refl s) hq).trans
          (DgBits.le_setEvaluated _ _)
    · obtain ⟨rfl, rfl⟩ := Prod.mk.inj (Option.some.inj h)
      exact DgBits.le_setEvaluated _ _

theorem evaluatePortDG_evaluated {fuel i : Nat} {s s' : DgBits} {b : Bool}
    (h : evaluatePortDG own included fuel i s = some (b, s')) : i ∈ s'.dgsEvaluated := by
  cases fuel with
  | zero => cases h
  | succ fuel =>
    rw [evaluatePortDG] at h
    split at h
    · split at h
      · obtain ⟨rfl, rfl⟩ := Prod.mk.inj (Option.some.inj h)
        exact Finset.mem_insert_self _ _
      · obtain ⟨q, -, heq⟩ := Option.map_eq_some_iff.mp h
        obtain ⟨rfl, rfl⟩ := Prod.mk.inj heq
        exact Finset.mem_insert_self _ _
    · obtain ⟨rfl, rfl⟩ := Prod.mk.inj (Option.some.inj h)
      exact Finset.mem_insert_self _ _

/-! ## What a recursion that ends has found -/

def DgBits.settle (s : DgBits) (i : Nat) (b : Bool) : DgBits := if b then s.setMember i else s

structure PortOnly (own : Nat → Bool) (included : Nat → List Nat) (s : DgBits) : Prop where
  member : ∀ i ∈ s.dgMember, Scan own included [i] true
  evaluated : ∀ i ∈ s.dgsEvaluated, i ∉ s.dgMember → Scan own included [i] false

theorem PortOnly.setMember {s : DgBits} (h : PortOnly own included s) {i : Nat}
    (hi : Scan own included [i] true) : PortOnly own included (s.setMember i) where
  member j hj := by
    rcases Finset.mem_insert.mp hj with rfl | hj
    · exact hi
    · exact h.member j hj
  evaluated j hj hm := h.evaluated j hj fun hin => hm (Finset.mem_insert_of_mem hin)

theorem PortOnly.setEvaluated_settle {s : DgBits} (h : PortOnly own included s) {i : Nat}
    {b : Bool} (hi : Scan own included [i] b) :
    PortOnly own included ((s.setEvaluated i).settle i b) := by
  cases b with
  | true =>
    constructor
    · exact (h.setMember hi).member
    · intro j hj hm
      have hne : j ≠ i := fun heq => hm (Finset.mem_insert.mpr (.inl heq))
      apply h.evaluated j ((Finset.mem_insert.mp hj).resolve_left hne)
      intro hin
      exact hm (Finset.mem_insert_of_mem hin)
  | false =>
    constructor
    · exact h.member
    · intro j hj hm
      rcases Finset.mem_insert.mp hj with rfl | hj
      · exact hi
      · exact h.evaluated j hj hm

theorem evaluateIncluded_scan {eval : Nat → DgBits → Option (Bool × DgBits)}
    (heval : ∀ i s b s', PortOnly own included s → eval i s = some (b, s') →
      Scan own included [i] b ∧ PortOnly own included (s'.settle i b))
    {g : Nat} {l : List Nat} (hg : Scan own included l true → Scan own included [g] true)
    {s s' : DgBits} {b : Bool} (hs : PortOnly own included s)
    (h : evaluateIncluded eval g l s = some (b, s')) :
    Scan own included l b ∧ PortOnly own included s' := by
  induction l generalizing s with
  | nil =>
    obtain ⟨rfl, rfl⟩ := Prod.mk.inj (Option.some.inj h)
    exact ⟨.nil, hs⟩
  | cons a l ih =>
    -- the answer for `a` decides whether the rest of the list is searched
    have hskip : Scan own included [a] false → Scan own included l true →
        Scan own included [g] true :=
      fun ha hl => hg (ha.cons_false hl)
    rw [evaluateIncluded] at h
    split at h
    · cases he : eval a s with
      | none =>
        rw [he] at h
        cases h
      | some q =>
        obtain ⟨b₁, s₁⟩ := q
        obtain ⟨hscan, hport⟩ := heval a s b₁ s₁ hs he
        rw [he] at h
        cases b₁ with
        | true =>
          obtain ⟨rfl, rfl⟩ := Prod.mk.inj (Option.some.inj h)
          have hl : Scan own included (a :: l) true := hscan.cons_true l
          refine ⟨hl, ?_⟩
          have hcomm : (s₁.setMember g).setMember a = (s₁.setMember a).setMember g := by
            simp only [DgBits.setMember, Finset.insert_comm]
          rw [hcomm]
          exact PortOnly.setMember hport (hg hl)
        | false =>
          obtain ⟨hrest, hport'⟩ := ih (hskip hscan) hport h
          exact ⟨hscan.cons_false hrest, hport'⟩
    · rename_i hev
      have hin : a ∈ s.dgsEvaluated := not_not.mp hev
      split at h
      · rename_i hmem
        obtain ⟨rfl, rfl⟩ := Prod.mk.inj (Option.some.inj h)
        exact ⟨(hs.member a hmem).cons_true l, hs⟩
      · rename_i hmem
        have hscan := hs.evaluated a hin hmem
        obtain ⟨hrest, hport'⟩ := ih (hskip hscan) hs h
        exact ⟨hscan.cons_false hrest, hport'⟩

theorem evaluatePortDG_scan {fuel i : Nat} {s s' : DgBits} {b : Bool}
    (hs : PortOnly own included s) (h : evaluatePortDG own included fuel i s = some (b, s')) :
    Scan own included [i] b ∧ PortOnly own included (s'.settle i b) := by
  induction fuel generalizing i s s' b with
  | zero => cases h
  | succ fuel ih =>
    rw [evaluatePortDG] at h
    split at h
    · split at h
      · rename_i hown
        obtain ⟨rfl, rfl⟩ := Prod.mk.inj (Option.some.inj h)
        have hscan : Scan own included [i] true := .here hown
        exact ⟨hscan, (hs.setMember hscan).setEvaluated_settle hscan⟩
      · rename_i hown
        have hown : own i = false := Bool.eq_false_iff.mpr hown
        obtain ⟨⟨b₁, s₁⟩, hq, heq⟩ := Option.map_eq_some_iff.mp h
        obtain ⟨rfl, rfl⟩ := Prod.mk.inj heq
        obtain ⟨hscan, hport⟩ :=
          evaluateIncluded_scan (fun _ _ _ _ => ih) (fun hl => .inside hown hl) hs hq
        have hi : Scan own included [i] b₁ := by
          cases b₁ with
          | true => exact .inside hown hscan
          | false => exact .single_false hown hscan
        exact ⟨hi, hport.setEvaluated_settle hi⟩
    · rename_i hev
      have hin : i ∈ s.dgsEvaluated := not_not.mp hev
      obtain ⟨rfl, rfl⟩ := Prod.mk.inj (Option.some.inj h)
      have hi : Scan own included [i] (decide (i ∈ s.dgMember)) := by
        by_cases hmem : i ∈ s.dgMember
        · rw [decide_eq_true hmem]
          exact hs.member i hmem
        · rw [decide_eq_false hmem]
          exact hs.evaluated i hin hmem
      exact ⟨hi, hs.setEvaluated_settle hi⟩

/-! ## Searches that end give recursions that end -/

section Closure

variable {C : Nat → Prop}

structure Between (own : Nat → Bool) (included : Nat → List Nat) (C : Nat → Prop) (s : DgBits) :
    Prop where
  member : ∀ i ∈ s.dgMember, C i
  evaluated : ∀ i ∈ s.dgsEvaluated, Scan own included [i] true → i ∈ s.dgMember

theorem Between.setMember {s : DgBits} (h : Between own included C s) {i : Nat} (hi : C i) :
    Between own included C (s.setMember i) where
  member j hj := by
    rcases Finset.mem_insert.mp hj with rfl | hj
    · exact hi
    · exact h.member j hj
  evaluated j hj hscan := Finset.mem_insert_of_mem (h.evaluated j hj hscan)

theorem Between.setEvaluated {s : DgBits} (h : Between own included C s) {i : Nat}
    (hi : Scan own included [i] true → i ∈ s.dgMember) :
    Between own included C (s.setEvaluated i) where
  member := h.member
  evaluated j hj hscan := by
    rcases Finset.mem_insert.mp hj with rfl | hj
    · exact hi hscan
    · exact h.evaluated j hj hscan

theorem Between.setMember_setEvaluated {s : DgBits} (h : Between own included C s) {i : Nat}
    (hi : C i) : Between own included C ((s.setMember i).setEvaluated i) :=
  (h.setMember hi).setEvaluated fun _ => Finset.mem_insert_self _ _

theorem Between.found_included {s : DgBits} (h : Between own included C s) {a g : Nat}
    (ha : C a) (hg : C g) :
    Between own included C (((s.setEvaluated a).setMember g).setMember a) := by
  have hcomm : ((s.setEvaluated a).setMember g).setMember a =
      ((s.setMember a).setEvaluated a).setMember g := by
    simp only [DgBits.setMember, DgBits.setEvaluated, Finset.insert_comm]
  rw [hcomm]
  exact (h.setMember_setEvaluated ha).setMember hg

structure Ended (own : Nat → Bool) (included : Nat → List Nat) (C : Nat → Prop) (g : Nat)
    (b b' : Bool) (s' : DgBits) : Prop where
  found : b = true → b' = true
  sound : b' = true → C g
  between : Between own included C s'

variable (hown : ∀ i, own i = true → C i) (hinc : ∀ i, ∀ j ∈ included i, C j → C i)

include hown hinc

theorem evaluateIncluded_of_scan {l : List Nat} {b : Bool} (hscan : Scan own included l b)
    {g : Nat} (hg : ∀ j ∈ l, C j → C g) {s : DgBits} (hs : Between own included C s) :
    ∃ fuel b' s', evaluateIncluded (evaluatePortDG own included fuel) g l s = some (b', s') ∧
      Ended own included C g b b' s' := by
  induction hscan generalizing g s with
  | nil => exact ⟨0, false, s, rfl, id, fun h => (by cases h), hs⟩
  | @here a l ho =>
    have hCg : C g := hg a List.mem_cons_self (hown a ho)
    by_cases hev : a ∈ s.dgsEvaluated
    · have hmem := hs.evaluated a hev (.here ho)
      refine ⟨0, true, s, ?_, fun _ => rfl, fun _ => hCg, hs⟩
      rw [evaluateIncluded, if_neg (not_not.mpr hev), if_pos hmem]
    · refine ⟨1, true, (((s.setMember a).setEvaluated a).setMember g).setMember a, ?_,
        fun _ => rfl, fun _ => hCg, ?_⟩
      · rw [evaluateIncluded, if_pos hev, evaluatePortDG, if_pos hev, if_pos ho]
      · exact ((hs.setMember_setEvaluated (hown a ho)).setMember hCg).setMember (hown a ho)
  | @inside a l ho hin ih =>
    by_cases hev : a ∈ s.dgsEvaluated
    · have hmem := hs.evaluated a hev (.inside ho hin)
      refine ⟨0, true, s, ?_, fun _ => rfl,
        fun _ => hg a List.mem_cons_self (hs.member a hmem), hs⟩
      rw [evaluateIncluded, if_neg (not_not.mpr hev), if_pos hmem]
    · obtain ⟨fuel, b₁, s₁, hrun, hend⟩ := ih (hinc a) hs
      obtain rfl := hend.found rfl
      have hCa : C a := hend.sound rfl
      have hCg : C g := hg a List.mem_cons_self hCa
      refine ⟨fuel + 1, true, ((s₁.setEvaluated a).setMember g).setMember a, ?_,
        fun _ => rfl, fun _ => hCg, ?_⟩
      · rw [evaluateIncluded, if_pos hev, evaluatePortDG, if_pos hev, if_neg (by simp [ho]), hrun]
        rfl
      · exact hend.between.found_included hCa hCg
  | @past a l b ho hin _ ih₁ ih₂ =>
    have hrest : ∀ j ∈ l, C j → C g := fun j hj => hg j (List.mem_cons_of_mem _ hj)
    by_cases hev : a ∈ s.dgsEvaluated
    · by_cases hmem : a ∈ s.dgMember
      · refine ⟨0, true, s, ?_, fun _ => rfl,
          fun _ => hg a List.mem_cons_self (hs.member a hmem), hs⟩
        rw [evaluateIncluded, if_neg (not_not.mpr hev), if_pos hmem]
      · obtain ⟨fuel, b₂, s₂, hrun, hend⟩ := ih₂ hrest hs
        refine ⟨fuel, b₂, s₂, ?_, hend⟩
        rw [evaluateIncluded, if_neg (not_not.mpr hev), if_neg hmem]
        exact hrun
    · obtain ⟨fuel₁, b₁, s₁, hrun₁, hend₁⟩ := ih₁ (hinc a) hs
      have hcall : evaluatePortDG own included (fuel₁ + 1) a s =
          some (b₁, s₁.setEvaluated a) := by
        rw [evaluatePortDG, if_pos hev, if_neg (by simp [ho]), hrun₁]
        rfl
      cases b₁ with
      | true =>
        have hCa : C a := hend₁.sound rfl
        have hCg : C g := hg a List.mem_cons_self hCa
        refine ⟨fuel₁ + 1, true, ((s₁.setEvaluated a).setMember g).setMember a, ?_,
          fun _ => rfl, fun _ => hCg, ?_⟩
        · rw [evaluateIncluded, if_pos hev, hcall]
        · exact hend₁.between.found_included hCa hCg
      | false =>
        have hbetween : Between own included C (s₁.setEvaluated a) :=
          hend₁.between.setEvaluated fun htrue =>
            absurd (htrue.functional (.single_false ho hin)) (by decide)
        obtain ⟨fuel₂, b₂, s₂, hrun₂, hend₂⟩ := ih₂ hrest hbetween
        refine ⟨max (fuel₁ + 1) fuel₂, b₂, s₂, ?_, hend₂⟩
        rw [evaluateIncluded, if_pos hev, evaluatePortDG_mono (Nat.le_max_left _ _) hcall]
        exact evaluateIncluded_mono
          (fun _ _ _ => evaluatePortDG_mono (Nat.le_max_right (fuel₁ + 1) fuel₂)) hrun₂

theorem evaluatePortDG_of_scan {i : Nat} {b : Bool} (hscan : Scan own included [i] b)
    {s : DgBits} (hs : Between own included C s) :
    ∃ fuel b' s', evaluatePortDG own included fuel i s = some (b', s') ∧
      Ended own included C i b b' (s'.settle i b') := by
  by_cases hev : i ∈ s.dgsEvaluated
  · refine ⟨1, decide (i ∈ s.dgMember), s.setEvaluated i, ?_, ?_, ?_, ?_⟩
    · rw [evaluatePortDG, if_neg (not_not.mpr hev)]
    · rintro rfl
      exact decide_eq_true (hs.evaluated i hev hscan)
    · intro h
      exact hs.member i (of_decide_eq_true h)
    · have hset : Between own included C (s.setEvaluated i) :=
        hs.setEvaluated (hs.evaluated i hev)
      unfold DgBits.settle
      split
      · rename_i hmem
        exact hset.setMember (hs.member i (of_decide_eq_true hmem))
      · exact hset
  · by_cases ho : own i = true
    · refine ⟨1, true, (s.setMember i).setEvaluated i, ?_, fun _ => rfl, fun _ => hown i ho, ?_⟩
      · rw [evaluatePortDG, if_pos hev, if_pos ho]
      · exact (hs.setMember_setEvaluated (hown i ho)).setMember (hown i ho)
    · have ho : own i = false := Bool.eq_false_iff.mpr ho
      obtain ⟨fuel, b₁, s₁, hrun, hend⟩ :
          ∃ fuel b₁ s₁, evaluateIncluded (evaluatePortDG own included fuel) i (included i) s =
            some (b₁, s₁) ∧ Ended own included C i b b₁ s₁ := by
        cases hscan with
        | here hown' => rw [ho] at hown'; cases hown'
        | inside _ hin => exact evaluateIncluded_of_scan hown hinc hin (hinc i) hs
        | past _ hin hnil =>
          cases hnil
          exact evaluateIncluded_of_scan hown hinc hin (hinc i) hs
      refine ⟨fuel + 1, b₁, s₁.setEvaluated i, ?_, hend.found, hend.sound, ?_⟩
      · rw [evaluatePortDG, if_pos hev, if_neg (by simp [ho]), hrun]
        rfl
      · cases b₁ with
        | true =>
          change Between own included C ((s₁.setMember i).setEvaluated i)
          exact hend.between.setMember_setEvaluated (hend.sound rfl)
        | false =>
          apply hend.between.setEvaluated
          intro htrue
          have hb : b = false := Bool.eq_false_iff.mpr fun h => by cases hend.found h
          exact absurd (htrue.functional hscan) (by rw [hb]; decide)

end Closure

end Evaluation

end OpaFm.Partition
