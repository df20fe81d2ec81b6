import OpaFm.Dor.Closure
import Mathlib.Data.List.Basic
import Mathlib.Data.List.Nodup
import Mathlib.Data.Option.Basic

/-!
# What a renaming leaves in the bit maps

A move of a bit within its word to another place clears that place instead of the old one.  The
old bit then stays set to the end.
-/

namespace OpaFm.Dor.DorBitmap

variable {m : Nat} {b : DorBitmap m}

/-! ## Single bits -/

theorem ijTest_eq (ij : Nat) : b.ijTest ij = Lib.bitAt b.words ij := by
  have h := Lib.and_shift_ne_zero (x := b.words.getD (ij / 32) 0) (Nat.mod_lt ij (by decide : 0 < 32))
  unfold ijTest word Lib.bitAt
  rw [Bool.eq_iff_iff, decide_eq_true_iff]
  exact h

theorem div_lt_length {ij : Nat} (hij : ij < m * m) : ij / 32 < b.words.length := by
  have := b.size
  omega

theorem getLsbD_mask {j k : Nat} (hj : j < 32) (hk : k < 32) :
    (1#32 <<< j).getLsbD k = decide (k = j) := by
  by_cases h : k = j
  · subst h
    simp [hk]
  · by_cases hlt : k < j
    · simp [h, hlt]
    · have : k - j ≠ 0 := by omega
      simp [h, this]

theorem ijTest_ijSet {ij : Nat} (hij : ij < m * m) (k : Nat) :
    (b.ijSet ij).ijTest k = if k = ij then true else b.ijTest k := by
  rw [ijTest_eq, ijTest_eq]
  apply Lib.bitAt_set_bit (div_lt_length hij) _ (by decide)
  intro j hj
  rw [BitVec.getLsbD_or, getLsbD_mask (Nat.mod_lt ij (by decide)) hj]
  by_cases h : j = ij % 32
  · simp [h]
  · simp [h, word]

theorem ijTest_clearAt {w j : Nat} (hw : w < b.words.length) (hj : j < 32) (k : Nat) :
    (b.clearAt w j).ijTest k = if k = w * 32 + j then false else b.ijTest k := by
  have hdiv : (w * 32 + j) / 32 = w := by omega
  have hmod : (w * 32 + j) % 32 = j := by omega
  rw [ijTest_eq, ijTest_eq]
  unfold clearAt setWord
  have h : Lib.bitAt (b.words.set ((w * 32 + j) / 32) (b.word w &&& ~~~(1#32 <<< j))) k =
      if k = w * 32 + j then false else Lib.bitAt b.words k := by
    apply Lib.bitAt_set_bit (by omega) _ (by decide)
    intro i hi
    rw [BitVec.getLsbD_and, BitVec.getLsbD_not, getLsbD_mask hj hi, hmod, hdiv]
    by_cases h : i = j
    · simp [h]
    · simp [h, hi, word]
  rw [hdiv] at h
  exact h

theorem ijTest_ijClear {ij : Nat} (hij : ij < m * m) (k : Nat) :
    (b.ijClear ij).ijTest k = if k = ij then false else b.ijTest k := by
  unfold ijClear
  rw [ijTest_clearAt (div_lt_length hij) (Nat.mod_lt _ (by decide))]
  have : ij / 32 * 32 + ij % 32 = ij := by omega
  rw [this]

def Aligned (p : Nat × Nat) : Prop := p.1 % 32 = p.2 % 32

theorem ijTest_moveBit {o n : Nat} (ho : o < m * m) (hn : n < m * m) (k : Nat) :
    (b.moveBit o n).ijTest k =
      if b.ijTest o then
        if k = o / 32 * 32 + n % 32 then false else if k = n then true else b.ijTest k
      else if k = n then false else b.ijTest k := by
  unfold moveBit
  by_cases h : b.ijTest o = true
  · have hlen : o / 32 < (b.ijSet n).words.length := div_lt_length ho
    rw [if_pos h, if_pos h, ijTest_clearAt hlen (Nat.mod_lt _ (by decide)), ijTest_ijSet hn]
  · rw [if_neg h, if_neg h, ijTest_ijClear hn]

variable {o n : Nat} (ho : o < m * m) (hn : n < m * m)
include ho hn

theorem moveBit_other {k : Nat} (hal : b.ijTest o = true → Aligned (o, n)) (hko : k ≠ o)
    (hkn : k ≠ n) : (b.moveBit o n).ijTest k = b.ijTest k := by
  rw [ijTest_moveBit ho hn]
  by_cases h : b.ijTest o = true
  · have hmod : o % 32 = n % 32 := hal h
    rw [if_pos h, if_neg (by omega), if_neg hkn]
  · rw [if_neg h, if_neg hkn]

theorem moveBit_target (hal : b.ijTest o = true → Aligned (o, n)) (hne : o ≠ n) :
    (b.moveBit o n).ijTest n = b.ijTest o := by
  rw [ijTest_moveBit ho hn]
  by_cases h : b.ijTest o = true
  · have hmod : o % 32 = n % 32 := hal h
    rw [if_pos h, if_neg (by omega), if_pos rfl, h]
  · rw [if_neg h, if_pos rfl, Bool.eq_false_of_not_eq_true h]

theorem moveBit_source (hal : b.ijTest o = true → Aligned (o, n)) (hne : o ≠ n) :
    (b.moveBit o n).ijTest o = false := by
  rw [ijTest_moveBit ho hn]
  by_cases h : b.ijTest o = true
  · have hmod : o % 32 = n % 32 := hal h
    rw [if_pos h, if_pos (by omega)]
  · rw [if_neg h, if_neg hne, Bool.eq_false_of_not_eq_true h]

theorem moveBit_left (hal : ¬Aligned (o, n)) (h : b.ijTest o = true) (hne : o ≠ n) :
    (b.moveBit o n).ijTest o = true := by
  have hmod : o % 32 ≠ n % 32 := hal
  rw [ijTest_moveBit ho hn, if_pos h, if_neg (by omega), if_neg hne, h]

omit ho hn

/-! ## Runs of moves -/

def moveAll (b : DorBitmap m) (ps : List (Nat × Nat)) : DorBitmap m :=
  ps.foldl (fun b p => b.moveBit p.1 p.2) b

theorem moveAll_cons (p : Nat × Nat) (ps : List (Nat × Nat)) :
    b.moveAll (p :: ps) = (b.moveBit p.1 p.2).moveAll ps := rfl

theorem moveAll_append (ps qs : List (Nat × Nat)) :
    b.moveAll (ps ++ qs) = (b.moveAll ps).moveAll qs := List.foldl_append

def Proper (b : DorBitmap m) : List (Nat × Nat) → Prop
  | [] => True
  | p :: ps => (b.ijTest p.1 = true → Aligned p) ∧ Proper (b.moveBit p.1 p.2) ps

theorem proper_append {ps qs : List (Nat × Nat)} :
    b.Proper (ps ++ qs) ↔ b.Proper ps ∧ (b.moveAll ps).Proper qs := by
  induction ps generalizing b with
  | nil => simp [Proper, moveAll]
  | cons p ps ih =>
    show _ ∧ Proper _ (ps ++ qs) ↔ (_ ∧ Proper _ ps) ∧ _
    rw [ih, and_assoc]
    rfl

structure Apart (m : Nat) (ps : List (Nat × Nat)) : Prop where
  source_lt : ∀ p ∈ ps, p.1 < m * m
  target_lt : ∀ p ∈ ps, p.2 < m * m
  source_ne : ∀ p ∈ ps, ∀ q ∈ ps, p.1 ≠ q.2
  source_inj : ∀ p ∈ ps, ∀ q ∈ ps, p.1 = q.1 → p = q
  target_inj : ∀ p ∈ ps, ∀ q ∈ ps, p.2 = q.2 → p = q

theorem Apart.mono {ps qs : List (Nat × Nat)} (h : Apart m ps) (hsub : qs ⊆ ps) : Apart m qs where
  source_lt p hp := h.source_lt p (hsub hp)
  target_lt p hp := h.target_lt p (hsub hp)
  source_ne p hp q hq := h.source_ne p (hsub hp) q (hsub hq)
  source_inj p hp q hq := h.source_inj p (hsub hp) q (hsub hq)
  target_inj p hp q hq := h.target_inj p (hsub hp) q (hsub hq)

theorem Apart.tail {p : Nat × Nat} {ps : List (Nat × Nat)} (h : Apart m (p :: ps)) : Apart m ps :=
  h.mono (List.subset_cons_self p ps)

section

variable {ps : List (Nat × Nat)} {p : Nat × Nat}

theorem moveAll_absent (h : Apart m ps) (hp : b.Proper ps) {k : Nat}
    (hk : ∀ q ∈ ps, k ≠ q.1 ∧ k ≠ q.2) : (b.moveAll ps).ijTest k = b.ijTest k := by
  induction ps generalizing b with
  | nil => rfl
  | cons q ps ih =>
    have hq : q ∈ q :: ps := List.mem_cons_self
    rw [moveAll_cons, ih h.tail hp.2 fun r hr => hk r (List.mem_cons_of_mem q hr)]
    exact moveBit_other (h.source_lt q hq) (h.target_lt q hq) hp.1 (hk q hq).1 (hk q hq).2

theorem moveAll_stays (h : Apart m ps) (hp : b.Proper ps) {o : Nat} (ho : b.ijTest o = true)
    (hstay : ∀ q ∈ ps, o ≠ q.2 ∧ (q.1 = o → ¬Aligned q)) : (b.moveAll ps).ijTest o = true := by
  induction ps generalizing b with
  | nil => exact ho
  | cons q ps ih =>
    have hq : q ∈ q :: ps := List.mem_cons_self
    have hne : o ≠ q.1 := by
      rintro rfl
      exact (hstay q hq).2 rfl (hp.1 ho)
    rw [moveAll_cons]
    apply ih h.tail hp.2 _ fun r hr => hstay r (List.mem_cons_of_mem q hr)
    rw [moveBit_other (h.source_lt q hq) (h.target_lt q hq) hp.1 hne (hstay q hq).1]
    exact ho

theorem moveAll_stays_clear (h : Apart m ps) (hp : b.Proper ps) {k : Nat}
    (hk : b.ijTest k = false) (hstay : ∀ q ∈ ps, k ≠ q.2) : (b.moveAll ps).ijTest k = false := by
  induction ps generalizing b with
  | nil => exact hk
  | cons q ps ih =>
    have hq : q ∈ q :: ps := List.mem_cons_self
    rw [moveAll_cons]
    apply ih h.tail hp.2 _ fun r hr => hstay r (List.mem_cons_of_mem q hr)
    by_cases hkq : k = q.1
    · subst hkq
      exact moveBit_source (h.source_lt q hq) (h.target_lt q hq) hp.1 (hstay q hq)
    · rw [moveBit_other (h.source_lt q hq) (h.target_lt q hq) hp.1 hkq (hstay q hq)]
      exact hk

theorem moveAll_source (h : Apart m ps) (hp : b.Proper ps) (hmem : p ∈ ps) :
    (b.moveAll ps).ijTest p.1 = false := by
  induction ps generalizing b with
  | nil => exact absurd hmem List.not_mem_nil
  | cons q ps ih =>
    rw [moveAll_cons]
    rcases List.mem_cons.mp hmem with rfl | hmem
    · apply moveAll_stays_clear h.tail hp.2
      · exact moveBit_source (h.source_lt p List.mem_cons_self) (h.target_lt p List.mem_cons_self)
          hp.1 (h.source_ne p List.mem_cons_self p List.mem_cons_self)
      · exact fun r hr => h.source_ne p List.mem_cons_self r (List.mem_cons_of_mem p hr)
    · exact ih h.tail hp.2 hmem

theorem moveAll_target_clear (h : Apart m ps) (hp : b.Proper ps) (hmem : p ∈ ps)
    (hclear : b.ijTest p.1 = false) : (b.moveAll ps).ijTest p.2 = false := by
  -- once the target is clear, the rest of the moves keep it so
  have hkeep : ∀ qs ⊆ ps, ∀ c : DorBitmap m, c.Proper qs → c.ijTest p.1 = false →
      c.ijTest p.2 = false → (c.moveAll qs).ijTest p.2 = false := by
    intro qs
    induction qs with
    | nil => exact fun _ _ _ _ h2 => h2
    | cons q qs ih =>
      intro hsub c hc h1 h2
      have hq : q ∈ ps := hsub List.mem_cons_self
      have hq1 := h.source_lt q hq
      have hq2 := h.target_lt q hq
      rw [moveAll_cons]
      by_cases hpq : p = q
      · subst hpq
        apply ih (List.subset_of_cons_subset hsub) _ hc.2
        · exact moveBit_source hq1 hq2 hc.1 (h.source_ne p hmem p hmem)
        · rw [moveBit_target hq1 hq2 hc.1 (h.source_ne p hmem p hmem)]
          exact h1
      · have hne1 : p.1 ≠ q.1 := fun heq => hpq (h.source_inj p hmem q hq heq)
        have hne2 : p.2 ≠ q.2 := fun heq => hpq (h.target_inj p hmem q hq heq)
        apply ih (List.subset_of_cons_subset hsub) _ hc.2
        · rw [moveBit_other hq1 hq2 hc.1 hne1 (h.source_ne p hmem q hq)]
          exact h1
        · rw [moveBit_other hq1 hq2 hc.1 (h.source_ne q hq p hmem).symm hne2]
          exact h2
  obtain ⟨qs, rs, rfl⟩ := List.append_of_mem hmem
  obtain ⟨hqs, hps⟩ := proper_append.mp hp
  have hsubq : qs ⊆ qs ++ p :: rs := List.subset_append_left qs (p :: rs)
  have hsubr : rs ⊆ qs ++ p :: rs :=
    fun r hr => List.mem_append_right qs (List.mem_cons_of_mem p hr)
  have hclear' : (b.moveAll qs).ijTest p.1 = false :=
    moveAll_stays_clear (h.mono hsubq) hqs hclear fun q hq => h.source_ne p hmem q (hsubq hq)
  have hp1 := h.source_lt p hmem
  have hp2 := h.target_lt p hmem
  rw [moveAll_append, moveAll_cons]
  apply hkeep rs hsubr _ hps.2
  · exact moveBit_source hp1 hp2 hps.1 (h.source_ne p hmem p hmem)
  · rw [moveBit_target hp1 hp2 hps.1 (h.source_ne p hmem p hmem)]
    exact hclear'

theorem moveAll_target {qs rs : List (Nat × Nat)} (h : Apart m (qs ++ p :: rs))
    (hp : b.Proper (qs ++ p :: rs)) (hqs : p ∉ qs) (hrs : p ∉ rs) :
    (b.moveAll (qs ++ p :: rs)).ijTest p.2 = b.ijTest p.1 := by
  have hmem : p ∈ qs ++ p :: rs := List.mem_append_right qs List.mem_cons_self
  have hsubq : qs ⊆ qs ++ p :: rs := List.subset_append_left qs (p :: rs)
  have hsubr : rs ⊆ qs ++ p :: rs :=
    fun r hr => List.mem_append_right qs (List.mem_cons_of_mem p hr)
  obtain ⟨hq, hps⟩ := proper_append.mp hp
  rw [moveAll_append, moveAll_cons, moveAll_absent (h.mono hsubr) hps.2,
    moveBit_target (h.source_lt p hmem) (h.target_lt p hmem) hps.1 (h.source_ne p hmem p hmem),
    moveAll_absent (h.mono hsubq) hq]
  · intro q hqm
    refine ⟨fun heq => hqs ?_, h.source_ne p hmem q (hsubq hqm)⟩
    rw [h.source_inj p hmem q (hsubq hqm) heq]
    exact hqm
  · intro r hr
    refine ⟨(h.source_ne r (hsubr hr) p hmem).symm, fun heq => hrs ?_⟩
    rw [h.target_inj p hmem r (hsubr hr) heq]
    exact hr

/-- When all sources are clear in the end, no move cleared a wrong bit: the last that did
would have left its own source set. -/
theorem proper_of_cleared (h : Apart m ps) (hc : ∀ p ∈ ps, (b.moveAll ps).ijTest p.1 = false) :
    b.Proper ps := by
  induction ps generalizing b with
  | nil => trivial
  | cons q ps ih =>
    have hq : q ∈ q :: ps := List.mem_cons_self
    have htail : (b.moveBit q.1 q.2).Proper ps :=
      ih h.tail fun p hp => hc p (List.mem_cons_of_mem q hp)
    refine ⟨fun hset => ?_, htail⟩
    by_contra hal
    have hleft := moveBit_left (h.source_lt q hq) (h.target_lt q hq) hal hset
      (h.source_ne q hq q hq)
    have hstays := moveAll_stays h.tail htail hleft fun r hr =>
      ⟨h.source_ne q hq r (List.mem_cons_of_mem q hr), fun heq => by
        rw [h.source_inj r (List.mem_cons_of_mem q hr) q hq heq]
        exact hal⟩
    rw [← moveAll_cons, hc q hq] at hstays
    cases hstays

theorem proper_of_aligned (h : Apart m ps) (hal : ∀ p ∈ ps, b.ijTest p.1 = true → Aligned p) :
    b.Proper ps := by
  induction ps generalizing b with
  | nil => trivial
  | cons q ps ih =>
    have hq : q ∈ q :: ps := List.mem_cons_self
    refine ⟨hal q hq, ih h.tail fun p hp hset => hal p (List.mem_cons_of_mem q hp) ?_⟩
    have hpm : p ∈ q :: ps := List.mem_cons_of_mem q hp
    by_cases hpq : p.1 = q.1
    · rw [hpq, moveBit_source (h.source_lt q hq) (h.target_lt q hq) (hal q hq)
        (h.source_ne q hq q hq)] at hset
      cases hset
    · rw [moveBit_other (h.source_lt q hq) (h.target_lt q hq) (hal q hq) hpq
        (h.source_ne p hpm q hq)] at hset
      exact hset

end

/-! ## The moves of a renaming -/

variable {oldIdx newIdx : Nat}

def renamingMove (m oldIdx newIdx x y : Nat) : Nat × Nat :=
  (dorBitMapsIndex m (formerIdx oldIdx newIdx x) (formerIdx oldIdx newIdx y),
    dorBitMapsIndex m x y)

def roundMoves (m oldIdx newIdx i : Nat) : List (Nat × Nat) :=
  [renamingMove m oldIdx newIdx i newIdx, renamingMove m oldIdx newIdx newIdx i]

def renamingMoves (m oldIdx newIdx : Nat) : List (Nat × Nat) :=
  (List.range oldIdx).flatMap (roundMoves m oldIdx newIdx)

theorem moveEntry_eq (i : Nat) :
    b.moveEntry oldIdx newIdx i = b.moveAll (roundMoves m oldIdx newIdx i) := by
  unfold moveEntry roundMoves renamingMove moveAll formerIdx
  by_cases h : i = newIdx
  · simp [h]
  · simp [h]

theorem rounds_eq (l : List Nat) :
    l.foldl (fun b i => b.moveEntry oldIdx newIdx i) b =
      b.moveAll (l.flatMap (roundMoves m oldIdx newIdx)) := by
  induction l generalizing b with
  | nil => rfl
  | cons i l ih => rw [List.foldl_cons, ih, moveEntry_eq, List.flatMap_cons, moveAll_append]

theorem dorBitMapsIndex_inj {x y x' y' : Nat} (hy : y < m) (hy' : y' < m)
    (h : dorBitMapsIndex m x y = dorBitMapsIndex m x' y') : x = x' ∧ y = y' := by
  have hpos : 0 < m := Nat.zero_lt_of_lt hy
  unfold dorBitMapsIndex at h
  have hx : x = x' := by
    calc x = (x * m + y) / m := by
            rw [Nat.mul_comm, Nat.mul_add_div hpos, Nat.div_eq_of_lt hy, Nat.add_zero]
      _ = (x' * m + y') / m := by rw [h]
      _ = x' := by
            rw [Nat.mul_comm, Nat.mul_add_div hpos, Nat.div_eq_of_lt hy', Nat.add_zero]
  subst hx
  exact ⟨rfl, Nat.add_left_cancel h⟩

theorem dorBitMapsIndex_lt {x y : Nat} (hx : x < m) (hy : y < m) :
    dorBitMapsIndex m x y < m * m := by
  unfold dorBitMapsIndex
  calc x * m + y < x * m + m := Nat.add_lt_add_left hy _
    _ = (x + 1) * m := (Nat.succ_mul x m).symm
    _ ≤ m * m := Nat.mul_le_mul_right m hx

def Filled (oldIdx newIdx x y : Nat) : Prop :=
  x < oldIdx ∧ y < oldIdx ∧ (x = newIdx ∨ y = newIdx)

section

variable (hnew : newIdx < oldIdx) (hold : oldIdx < m)
include hnew

theorem mem_renamingMoves {p : Nat × Nat} :
    p ∈ renamingMoves m oldIdx newIdx ↔
      ∃ x y, Filled oldIdx newIdx x y ∧ p = renamingMove m oldIdx newIdx x y := by
  unfold renamingMoves roundMoves
  rw [List.mem_flatMap]
  constructor
  · rintro ⟨i, hi, hp⟩
    have hi := List.mem_range.mp hi
    rcases List.mem_pair.mp hp with rfl | rfl
    · exact ⟨i, newIdx, ⟨hi, hnew, Or.inr rfl⟩, rfl⟩
    · exact ⟨newIdx, i, ⟨hnew, hi, Or.inl rfl⟩, rfl⟩
  · rintro ⟨x, y, ⟨hx, hy, rfl | rfl⟩, rfl⟩
    · exact ⟨y, List.mem_range.mpr hy, List.mem_pair.mpr (Or.inr rfl)⟩
    · exact ⟨x, List.mem_range.mpr hx, List.mem_pair.mpr (Or.inl rfl)⟩

omit hnew in
theorem formerIdx_lt {x : Nat} (hold : oldIdx < m) (hx : x < oldIdx) :
    formerIdx oldIdx newIdx x < m := by
  unfold formerIdx
  split <;> omega

omit hnew in
theorem formerIdx_inj {x y : Nat} (hx : x < oldIdx) (hy : y < oldIdx)
    (h : formerIdx oldIdx newIdx x = formerIdx oldIdx newIdx y) : x = y := by
  unfold formerIdx at h
  split at h <;> split at h <;> omega

omit hnew in
theorem renamingMove_inj {x y x' y' : Nat} (hold : oldIdx < m) (hx : x < oldIdx) (hy : y < oldIdx)
    (hx' : x' < oldIdx) (hy' : y' < oldIdx)
    (h : (renamingMove m oldIdx newIdx x y).1 = (renamingMove m oldIdx newIdx x' y').1) :
    x = x' ∧ y = y' := by
  obtain ⟨h1, h2⟩ := dorBitMapsIndex_inj (formerIdx_lt hold hy) (formerIdx_lt hold hy') h
  exact ⟨formerIdx_inj hx hx' h1, formerIdx_inj hy hy' h2⟩

include hold

theorem apart_renamingMoves : Apart m (renamingMoves m oldIdx newIdx) where
  source_lt p hp := by
    obtain ⟨x, y, ⟨hx, hy, -⟩, rfl⟩ := (mem_renamingMoves hnew).mp hp
    exact dorBitMapsIndex_lt (formerIdx_lt hold hx) (formerIdx_lt hold hy)
  target_lt p hp := by
    obtain ⟨x, y, ⟨hx, hy, -⟩, rfl⟩ := (mem_renamingMoves hnew).mp hp
    exact dorBitMapsIndex_lt (by omega) (by omega)
  source_ne p hp q hq heq := by
    obtain ⟨x, y, ⟨hx, hy, hxy⟩, rfl⟩ := (mem_renamingMoves hnew).mp hp
    obtain ⟨x', y', ⟨hx', hy', -⟩, rfl⟩ := (mem_renamingMoves hnew).mp hq
    obtain ⟨h1, h2⟩ := dorBitMapsIndex_inj (formerIdx_lt hold hy) (by omega) heq
    unfold formerIdx at h1 h2
    rcases hxy with rfl | rfl
    · rw [if_pos rfl] at h1
      omega
    · rw [if_pos rfl] at h2
      omega
  source_inj p hp q hq heq := by
    obtain ⟨x, y, ⟨hx, hy, -⟩, rfl⟩ := (mem_renamingMoves hnew).mp hp
    obtain ⟨x', y', ⟨hx', hy', -⟩, rfl⟩ := (mem_renamingMoves hnew).mp hq
    obtain ⟨rfl, rfl⟩ := renamingMove_inj hold hx hy hx' hy' heq
    rfl
  target_inj p hp q hq heq := by
    obtain ⟨x, y, ⟨hx, hy, -⟩, rfl⟩ := (mem_renamingMoves hnew).mp hp
    obtain ⟨x', y', ⟨hx', hy', -⟩, rfl⟩ := (mem_renamingMoves hnew).mp hq
    obtain ⟨rfl, rfl⟩ := dorBitMapsIndex_inj (Nat.lt_trans hy hold) (Nat.lt_trans hy' hold) heq
    rfl

theorem renamingMoves_split {i : Nat} (hi : i < oldIdx) :
    ∃ qs rs, renamingMoves m oldIdx newIdx = qs ++ roundMoves m oldIdx newIdx i ++ rs ∧
      ∀ p ∈ roundMoves m oldIdx newIdx i, p ∉ qs ∧ p ∉ rs := by
  obtain ⟨s, t, hst⟩ := List.append_of_mem (List.mem_range.mpr hi)
  have hnodup : (i :: (s ++ t)).Nodup := by
    rw [← List.nodup_middle, ← hst]
    exact List.nodup_range
  have hlt : ∀ j ∈ s ++ t, j < oldIdx := by
    intro j hj
    apply List.mem_range.mp
    rw [hst]
    rcases List.mem_append.mp hj with hj | hj
    · exact List.mem_append_left _ hj
    · exact List.mem_append_right _ (List.mem_cons_of_mem i hj)
  -- a move belongs to one round
  have hround : ∀ j < oldIdx, ∀ p, p ∈ roundMoves m oldIdx newIdx i →
      p ∈ roundMoves m oldIdx newIdx j → i = j := by
    intro j hj p hpi hpj
    unfold roundMoves at hpi hpj
    rcases List.mem_pair.mp hpi with rfl | rfl <;> rcases List.mem_pair.mp hpj with h | h
    · exact (renamingMove_inj hold hi hnew hj hnew (congrArg Prod.fst h)).1
    · obtain ⟨h1, h2⟩ := renamingMove_inj hold hi hnew hnew hj (congrArg Prod.fst h)
      omega
    · obtain ⟨h1, h2⟩ := renamingMove_inj hold hnew hi hj hnew (congrArg Prod.fst h)
      omega
    · exact (renamingMove_inj hold hnew hi hnew hj (congrArg Prod.fst h)).2
  have hnot : ∀ l ⊆ s ++ t, ∀ p ∈ roundMoves m oldIdx newIdx i,
      p ∉ l.flatMap (roundMoves m oldIdx newIdx) := by
    intro l hl p hp hmem
    obtain ⟨j, hj, hpj⟩ := List.mem_flatMap.mp hmem
    have hij := hround j (hlt j (hl hj)) p hp hpj
    exact (List.nodup_cons.mp hnodup).1 (hij ▸ hl hj)
  refine ⟨s.flatMap (roundMoves m oldIdx newIdx), t.flatMap (roundMoves m oldIdx newIdx), ?_,
    fun p hp => ⟨hnot s (List.subset_append_left s t) p hp,
      hnot t (List.subset_append_right s t) p hp⟩⟩
  unfold renamingMoves
  rw [hst, List.flatMap_append, List.flatMap_cons, List.append_assoc]

variable (hp : b.Proper (renamingMoves m oldIdx newIdx))
include hp

theorem moved_bit {x y : Nat} (hf : Filled oldIdx newIdx x y) (hxy : x ≠ newIdx ∨ y ≠ newIdx) :
    (b.moveAll (renamingMoves m oldIdx newIdx)).bit x y =
      b.bit (formerIdx oldIdx newIdx x) (formerIdx oldIdx newIdx y) := by
  have hap := apart_renamingMoves hnew hold
  have hne : ∀ i < oldIdx, i ≠ newIdx →
      renamingMove m oldIdx newIdx i newIdx ≠ renamingMove m oldIdx newIdx newIdx i :=
    fun i hi hin heq => hin (renamingMove_inj hold hi hnew hnew hi (congrArg Prod.fst heq)).1
  obtain ⟨hx, hy, rfl | rfl⟩ := hf
  · have hyx : y ≠ x := by
      rcases hxy with h | h
      · exact absurd rfl h
      · exact h
    obtain ⟨qs, rs, heq, hnot⟩ := renamingMoves_split hnew hold hy
    have hsplit : renamingMoves m oldIdx x =
        (qs ++ [renamingMove m oldIdx x y x]) ++ renamingMove m oldIdx x x y :: rs := by
      rw [heq]
      simp [roundMoves]
    have hmem : renamingMove m oldIdx x x y ∈ roundMoves m oldIdx x y :=
      List.mem_pair.mpr (Or.inr rfl)
    rw [hsplit] at hap hp ⊢
    apply moveAll_target hap hp _ (hnot _ hmem).2
    intro h
    rcases List.mem_append.mp h with h | h
    · exact (hnot _ hmem).1 h
    · exact hne y hy hyx (List.mem_singleton.mp h).symm
  · have hyx : x ≠ y := by
      rcases hxy with h | h
      · exact h
      · exact absurd rfl h
    obtain ⟨qs, rs, heq, hnot⟩ := renamingMoves_split hnew hold hx
    have hsplit : renamingMoves m oldIdx y =
        qs ++ renamingMove m oldIdx y x y :: (renamingMove m oldIdx y y x :: rs) := by
      rw [heq]
      simp [roundMoves]
    have hmem : renamingMove m oldIdx y x y ∈ roundMoves m oldIdx y x :=
      List.mem_pair.mpr (Or.inl rfl)
    rw [hsplit] at hap hp ⊢
    apply moveAll_target hap hp (hnot _ hmem).1
    intro h
    rcases List.mem_cons.mp h with h | h
    · exact hne x hx hyx h
    · exact (hnot _ hmem).2 h

theorem cleared_bit {x y : Nat} (hf : Filled oldIdx newIdx x y) :
    (b.moveAll (renamingMoves m oldIdx newIdx)).bit (formerIdx oldIdx newIdx x)
      (formerIdx oldIdx newIdx y) = false :=
  moveAll_source (apart_renamingMoves hnew hold) hp ((mem_renamingMoves hnew).mpr ⟨x, y, hf, rfl⟩)

theorem kept_bit {k : Nat} (hk : ∀ x y, Filled oldIdx newIdx x y → k ≠ dorBitMapsIndex m x y ∧
    k ≠ dorBitMapsIndex m (formerIdx oldIdx newIdx x) (formerIdx oldIdx newIdx y)) :
    (b.moveAll (renamingMoves m oldIdx newIdx)).ijTest k = b.ijTest k := by
  apply moveAll_absent (apart_renamingMoves hnew hold) hp
  intro q hq
  obtain ⟨x, y, hf, rfl⟩ := (mem_renamingMoves hnew).mp hq
  exact (hk x y hf).symm

theorem diagonal_bit : (b.moveAll (renamingMoves m oldIdx newIdx)).bit newIdx newIdx = false := by
  have hap := apart_renamingMoves hnew hold
  obtain ⟨qs, rs, heq, -⟩ := renamingMoves_split hnew hold hnew
  have hsplit : renamingMoves m oldIdx newIdx =
      (qs ++ [renamingMove m oldIdx newIdx newIdx newIdx]) ++
        renamingMove m oldIdx newIdx newIdx newIdx :: rs := by
    rw [heq]
    simp [roundMoves]
  rw [hsplit] at hap hp ⊢
  obtain ⟨hp1, hp2⟩ := proper_append.mp hp
  rw [moveAll_append]
  exact moveAll_target_clear (hap.mono (List.subset_append_right _ _)) hp2 List.mem_cons_self
    (moveAll_source (hap.mono (List.subset_append_left _ _)) hp1
      (List.mem_append_right qs List.mem_cons_self))

end

/-! ## One map -/

section

variable {used : Nat → Prop} (hnew : newIdx < oldIdx) (hold : oldIdx < m)
include hnew hold

theorem stale_absent {i : Nat} (hi : i < m) (h : i = newIdx ∨ oldIdx < i) {x y : Nat}
    (hf : Filled oldIdx newIdx x y) :
    (dorBitMapsIndex m i oldIdx ≠ dorBitMapsIndex m x y ∧ dorBitMapsIndex m i oldIdx ≠
      dorBitMapsIndex m (formerIdx oldIdx newIdx x) (formerIdx oldIdx newIdx y)) ∧
    (dorBitMapsIndex m oldIdx i ≠ dorBitMapsIndex m x y ∧ dorBitMapsIndex m oldIdx i ≠
      dorBitMapsIndex m (formerIdx oldIdx newIdx x) (formerIdx oldIdx newIdx y)) := by
  obtain ⟨hx, hy, hxy⟩ := hf
  have hx' : formerIdx oldIdx newIdx x < m := formerIdx_lt hold hx
  have hy' : formerIdx oldIdx newIdx y < m := formerIdx_lt hold hy
  refine ⟨⟨fun heq => ?_, fun heq => ?_⟩, ⟨fun heq => ?_, fun heq => ?_⟩⟩
  · have := dorBitMapsIndex_inj hold (by omega) heq
    omega
  · have := dorBitMapsIndex_inj hold hy' heq
    unfold formerIdx at this
    split at this <;> split at this <;> omega
  · have := dorBitMapsIndex_inj hi (by omega) heq
    omega
  · have := dorBitMapsIndex_inj hi hy' heq
    unfold formerIdx at this
    split at this <;> split at this <;> omega

theorem aligned_of_proper (hp : b.Proper (renamingMoves m oldIdx newIdx)) {x y : Nat}
    (hf : Filled oldIdx newIdx x y)
    (hset : b.bit (formerIdx oldIdx newIdx x) (formerIdx oldIdx newIdx y) = true) :
    Aligned (renamingMove m oldIdx newIdx x y) := by
  have hap := apart_renamingMoves hnew hold
  have hmem := (mem_renamingMoves hnew (m := m)).mpr ⟨x, y, hf, rfl⟩
  -- at the first occurrence the bit is still as it was
  obtain ⟨qs, rs, hsplit, hnot⟩ := List.eq_append_cons_of_mem hmem
  rw [hsplit] at hap hp
  obtain ⟨hq, hps⟩ := proper_append.mp hp
  have hself : renamingMove m oldIdx newIdx x y ∈ qs ++ renamingMove m oldIdx newIdx x y :: rs :=
    List.mem_append_right qs List.mem_cons_self
  apply hps.1
  rw [moveAll_absent (hap.mono (List.subset_append_left qs _)) hq]
  · exact hset
  · intro q hqm
    have hqm' := List.subset_append_left qs (renamingMove m oldIdx newIdx x y :: rs) hqm
    refine ⟨fun heq => hnot ?_, hap.source_ne _ hself q hqm'⟩
    rw [hap.source_inj _ hself q hqm' heq]
    exact hqm

omit hold in
theorem aligned_column {i : Nat} (hi : i ≠ newIdx) :
    Aligned (renamingMove m oldIdx newIdx i newIdx) ↔ (oldIdx - newIdx) % 32 = 0 := by
  unfold Aligned renamingMove dorBitMapsIndex formerIdx
  rw [if_neg hi, if_pos rfl]
  show (i * m + oldIdx) % 32 = (i * m + newIdx) % 32 ↔ _
  omega

omit hold in
theorem aligned_row {i : Nat} (hi : i ≠ newIdx) :
    Aligned (renamingMove m oldIdx newIdx newIdx i) ↔ (oldIdx - newIdx) * m % 32 = 0 := by
  have hle : newIdx * m ≤ oldIdx * m := Nat.mul_le_mul_right m (Nat.le_of_lt hnew)
  unfold Aligned renamingMove dorBitMapsIndex formerIdx
  rw [if_neg hi, if_pos rfl, Nat.sub_mul]
  show (oldIdx * m + i) % 32 = (newIdx * m + i) % 32 ↔ _
  omega

theorem Renamed.movable
    (h : Renamed used oldIdx newIdx b (b.moveAll (renamingMoves m oldIdx newIdx))) :
    Movable used oldIdx newIdx b := by
  have hp : b.Proper (renamingMoves m oldIdx newIdx) := by
    apply proper_of_cleared (apart_renamingMoves hnew hold)
    intro p hp
    obtain ⟨x, y, ⟨hx, hy, hxy⟩, rfl⟩ := (mem_renamingMoves hnew).mp hp
    show (b.moveAll _).bit (formerIdx oldIdx newIdx x) (formerIdx oldIdx newIdx y) = false
    rcases hxy with rfl | rfl
    · rw [show formerIdx oldIdx x x = oldIdx from if_pos rfl]
      exact (h.cleared _ (formerIdx_lt hold hy)).1
    · rw [show formerIdx oldIdx y y = oldIdx from if_pos rfl]
      exact (h.cleared _ (formerIdx_lt hold hx)).2
  have hformer : formerIdx oldIdx newIdx newIdx = oldIdx := if_pos rfl
  have hother : ∀ i, i ≠ newIdx → formerIdx oldIdx newIdx i = i := fun i hi => if_neg hi
  refine ⟨?_, ?_, ?_, ?_, ?_⟩
  · by_cases hal : (oldIdx - newIdx) % 32 = 0
    · exact Or.inl hal
    · refine Or.inr fun i hi hin => Bool.eq_false_of_not_eq_true fun hset => hal ?_
      apply (aligned_column hnew hin (m := m)).mp
      apply aligned_of_proper hnew hold hp ⟨hi, hnew, Or.inr rfl⟩
      rw [hformer, hother i hin]
      exact hset
  · by_cases hal : (oldIdx - newIdx) * m % 32 = 0
    · exact Or.inl hal
    · refine Or.inr fun i hi hin => Bool.eq_false_of_not_eq_true fun hset => hal ?_
      apply (aligned_row hnew hin).mp
      apply aligned_of_proper hnew hold hp ⟨hnew, hi, Or.inl rfl⟩
      rw [hformer, hother i hin]
      exact hset
  · have := h.moved newIdx newIdx (Or.inl rfl) (Or.inl rfl)
    rw [hformer, diagonal_bit hnew hold hp] at this
    exact this.symm
  · intro i hi hstale
    have hc := h.cleared i hi
    unfold bit at hc ⊢
    rw [kept_bit hnew hold hp fun x y hf => (stale_absent hnew hold hi hstale hf).2,
      kept_bit hnew hold hp fun x y hf => (stale_absent hnew hold hi hstale hf).1] at hc
    exact hc.symm
  · intro i hi hin hun
    have hsurv : ¬Survives used oldIdx newIdx i := fun hs => by
      rcases hs with hs | hs
      · exact hin hs
      · exact hun hs.1
    have hcol := moved_bit hnew hold hp ⟨hi, hnew, Or.inr rfl⟩ (Or.inl hin)
    have hrow := moved_bit hnew hold hp ⟨hnew, hi, Or.inl rfl⟩ (Or.inr hin)
    rw [hformer, hother i hin] at hcol hrow
    constructor
    · rw [← hcol]
      apply h.kept
      intro x hx y hy heq
      obtain ⟨rfl, rfl⟩ := dorBitMapsIndex_inj (by omega) hy heq
      exact ⟨by omega, by omega, fun hs => hsurv hs.1⟩
    · rw [← hrow]
      apply h.kept
      intro x hx y hy heq
      obtain ⟨rfl, rfl⟩ := dorBitMapsIndex_inj (by omega) hy heq
      exact ⟨by omega, by omega, fun hs => hsurv hs.2⟩

theorem Movable.proper (h : Movable used oldIdx newIdx b) :
    b.Proper (renamingMoves m oldIdx newIdx) := by
  apply proper_of_aligned (apart_renamingMoves hnew hold)
  intro p hp hset
  obtain ⟨x, y, ⟨hx, hy, hxy⟩, rfl⟩ := (mem_renamingMoves hnew).mp hp
  change b.bit (formerIdx oldIdx newIdx x) (formerIdx oldIdx newIdx y) = true at hset
  by_cases hdiag : x = newIdx ∧ y = newIdx
  · rw [hdiag.1, hdiag.2, show formerIdx oldIdx newIdx newIdx = oldIdx from if_pos rfl,
      h.diagonal] at hset
    cases hset
  · rcases hxy with rfl | rfl
    · have hyx : y ≠ x := fun hyx => hdiag ⟨rfl, hyx⟩
      rw [show formerIdx oldIdx x x = oldIdx from if_pos rfl,
        show formerIdx oldIdx x y = y from if_neg hyx] at hset
      rcases h.row with hal | hclear
      · exact (aligned_row hnew hyx).mpr hal
      · rw [hclear y hy hyx] at hset
        cases hset
    · have hxy' : x ≠ y := fun hxy => hdiag ⟨hxy, rfl⟩
      rw [show formerIdx oldIdx y y = oldIdx from if_pos rfl,
        show formerIdx oldIdx y x = x from if_neg hxy'] at hset
      rcases h.column with hal | hclear
      · exact (aligned_column hnew hxy').mpr hal
      · rw [hclear x hx hxy'] at hset
        cases hset

theorem Movable.renamed (hlast : ∀ x, used x → x ≤ oldIdx) (h : Movable used oldIdx newIdx b) :
    Renamed used oldIdx newIdx b (b.moveAll (renamingMoves m oldIdx newIdx)) := by
  have hp := h.proper hnew hold
  have hformer : formerIdx oldIdx newIdx newIdx = oldIdx := if_pos rfl
  have hother : ∀ i, i ≠ newIdx → formerIdx oldIdx newIdx i = i := fun i hi => if_neg hi
  have hsurv : ∀ x, Survives used oldIdx newIdx x → x < oldIdx := by
    intro x hx
    rcases hx with rfl | ⟨hx, hne⟩
    · exact hnew
    · exact Nat.lt_of_le_of_ne (hlast x hx) hne
  have hfilled : ∀ x y, Filled oldIdx newIdx x y →
      (b.moveAll (renamingMoves m oldIdx newIdx)).bit x y =
        b.bit (formerIdx oldIdx newIdx x) (formerIdx oldIdx newIdx y) := by
    intro x y hf
    by_cases hdiag : x = newIdx ∧ y = newIdx
    · rw [hdiag.1, hdiag.2, hformer, h.diagonal]
      exact diagonal_bit hnew hold hp
    · apply moved_bit hnew hold hp hf
      exact not_and_or.mp hdiag
  refine ⟨?_, ?_, ?_⟩
  · intro x y hx hy
    have hx' := hsurv x hx
    have hy' := hsurv y hy
    by_cases hxy : x = newIdx ∨ y = newIdx
    · exact hfilled x y ⟨hx', hy', hxy⟩
    · have hxn := fun h => hxy (Or.inl h)
      have hyn := fun h => hxy (Or.inr h)
      rw [hother x hxn, hother y hyn]
      apply kept_bit hnew hold hp
      intro x' y' hf
      obtain ⟨hfx, hfy, hfxy⟩ := hf
      refine ⟨fun heq => ?_, fun heq => ?_⟩
      · obtain ⟨rfl, rfl⟩ := dorBitMapsIndex_inj (by omega) (by omega) heq
        exact hxy hfxy
      · obtain ⟨h1, h2⟩ := dorBitMapsIndex_inj (by omega) (formerIdx_lt hold hfy) heq
        rcases hfxy with rfl | rfl
        · rw [hformer] at h1
          omega
        · rw [hformer] at h2
          omega
  · intro x hx
    by_cases hstale : x = newIdx ∨ oldIdx < x
    · unfold bit
      rw [kept_bit hnew hold hp fun x' y' hf => (stale_absent hnew hold hx hstale hf).2,
        kept_bit hnew hold hp fun x' y' hf => (stale_absent hnew hold hx hstale hf).1]
      exact (h.stale x hx hstale).symm
    · by_cases hself : x = oldIdx
      · subst hself
        have := cleared_bit hnew hold hp ⟨hnew, hnew, Or.inl rfl⟩
        rw [hformer] at this
        exact ⟨this, this⟩
      · have hxn := fun h => hstale (Or.inl h)
        have hlt : x < oldIdx := by omega
        have hrow := cleared_bit hnew hold hp ⟨hnew, hlt, Or.inl rfl⟩
        have hcol := cleared_bit hnew hold hp ⟨hlt, hnew, Or.inr rfl⟩
        rw [hformer, hother x hxn] at hrow hcol
        exact ⟨hrow, hcol⟩
  · intro ij hij
    by_cases htarget : ∃ x y, Filled oldIdx newIdx x y ∧ ij = dorBitMapsIndex m x y
    · obtain ⟨x, y, hf, rfl⟩ := htarget
      obtain ⟨-, -, hns⟩ := hij x (Nat.lt_trans hf.1 hold) y (Nat.lt_trans hf.2.1 hold) rfl
      show (b.moveAll _).bit x y = b.bit x y
      rw [hfilled x y hf]
      -- one of the two is the new index, the other is not in use
      obtain ⟨hx, hy, rfl | rfl⟩ := hf
      · have hyx : y ≠ x := fun heq => hns ⟨Or.inl rfl, Or.inl heq⟩
        have hun : ¬used y := fun hu => hns ⟨Or.inl rfl, Or.inr ⟨hu, by omega⟩⟩
        rw [hformer, hother y hyx]
        exact (h.unused y hy hyx hun).2
      · have hxy : x ≠ y := fun heq => hns ⟨Or.inl heq, Or.inl rfl⟩
        have hun : ¬used x := fun hu => hns ⟨Or.inr ⟨hu, by omega⟩, Or.inl rfl⟩
        rw [hformer, hother x hxy]
        exact (h.unused x hx hxy hun).1
    · apply kept_bit hnew hold hp
      intro x y hf
      refine ⟨fun heq => htarget ⟨x, y, hf, heq⟩, fun heq => ?_⟩
      obtain ⟨hx, hy, hxy⟩ := hf
      obtain ⟨h1, h2, -⟩ := hij _ (formerIdx_lt hold hx) _ (formerIdx_lt hold hy) heq
      rcases hxy with rfl | rfl
      · exact h1 hformer
      · exact h2 hformer

end

end OpaFm.Dor.DorBitmap

/-! ## All maps -/

namespace OpaFm.Dor.DorBitmaps

variable {m : Nat} {maps : DorBitmaps m} {used : Nat → Prop} {oldIdx newIdx : Nat}

theorem ext_maps {maps' : DorBitmaps m} (hl : maps.dorLeft = maps'.dorLeft)
    (hr : maps.dorRight = maps'.dorRight) (hb : maps.dorBroken = maps'.dorBroken) :
    maps = maps' := by
  cases maps
  cases maps'
  cases hl
  cases hr
  cases hb
  rfl

theorem mapEach_foldl (f : DorBitmap m → Nat → DorBitmap m) (l : List Nat) :
    l.foldl (fun maps i => maps.mapEach fun b => f b i) maps =
      maps.mapEach fun b => l.foldl f b := by
  induction l generalizing maps with
  | nil => exact ext_maps Option.map_id'.symm Option.map_id'.symm Option.map_id'.symm
  | cons i l ih =>
    rw [List.foldl_cons, ih]
    apply ext_maps <;> exact Option.map_map _ _ _

theorem processSwIdxChange_eq : maps.processSwIdxChange oldIdx newIdx oldIdx =
    maps.mapEach fun b => b.moveAll (DorBitmap.renamingMoves m oldIdx newIdx) := by
  unfold processSwIdxChange
  by_cases h : (maps.dorLeft.isNone && maps.dorRight.isNone) = true
  · rw [if_pos h]
    rw [Bool.and_eq_true, Option.isNone_iff_eq_none, Option.isNone_iff_eq_none] at h
    apply ext_maps
    · rw [h.1]
      exact congrArg (Option.map _) h.1.symm
    · rw [h.2]
      exact congrArg (Option.map _) h.2.symm
    · rw [maps.allocated h.1]
      exact congrArg (Option.map _) (maps.allocated h.1).symm
  · rw [if_neg h, mapEach_foldl]
    congr 1
    funext b
    exact DorBitmap.rounds_eq _

theorem rel_map_iff {α : Type} {R : α → α → Prop} {f : α → α} {o : Option α} :
    Option.Rel R o (o.map f) ↔ ∀ a ∈ o, R a (f a) := by
  cases o with
  | none => exact ⟨fun _ a ha => absurd ha (Option.not_mem_none a), fun _ => Option.Rel.none⟩
  | some a =>
    constructor
    · intro h a' ha'
      cases h with
      | some h =>
        cases Option.mem_some_iff.mp ha'
        exact h
    · exact fun h => Option.Rel.some (h a rfl)

/-- The renaming is right exactly when no set bit is moved to another place of its word, none is
on the diagonal, and none belongs to an index not in use. -/
theorem processSwIdxChange_meets_iff (hnew : newIdx < oldIdx) (hold : oldIdx < m)
    (hlast : ∀ x, used x → x ≤ oldIdx) :
    maps.Renamed used oldIdx newIdx (maps.processSwIdxChange oldIdx newIdx oldIdx) ↔
      ∀ b ∈ maps.all, b.Movable used oldIdx newIdx := by
  have hone : ∀ b : DorBitmap m, b.Renamed used oldIdx newIdx
      (b.moveAll (DorBitmap.renamingMoves m oldIdx newIdx)) ↔ b.Movable used oldIdx newIdx :=
    fun b => ⟨fun h => h.movable hnew hold, fun h => h.renamed hnew hold hlast⟩
  have hmap : ∀ o : Option (DorBitmap m), Option.Rel (DorBitmap.Renamed used oldIdx newIdx) o
      (o.map fun b => b.moveAll (DorBitmap.renamingMoves m oldIdx newIdx)) ↔
        ∀ b ∈ o.toList, b.Movable used oldIdx newIdx := by
    intro o
    rw [rel_map_iff]
    exact forall_congr' fun b => imp_congr Option.mem_toList.symm (hone b)
  rw [processSwIdxChange_eq]
  unfold Renamed all
  rw [List.forall_mem_append, List.forall_mem_append, and_assoc]
  exact and_congr (hmap _) (and_congr (hmap _) (hmap _))

/-! ## Two switches in a line -/

theorem blank_size {m n : Nat} (h : m * m ≤ 32 * n) :
    m * m ≤ 32 * (List.replicate n (0 : BitVec 32)).length := by
  rw [List.length_replicate]
  exact h

def blank {m : Nat} (n : Nat) (h : m * m ≤ 32 * n) : DorBitmap m :=
  ⟨List.replicate n 0, blank_size h⟩

theorem line_allocated {m : Nat} {b b' : DorBitmap m} (h : some b = none) : some b' = none :=
  nomatch h

/-- Two neighbours in a line with the indices 0 and `k`, each routed towards the other. -/
def lineMaps {m : Nat} (n k : Nat) (h : m * m ≤ 32 * n) : DorBitmaps m where
  dorLeft := some ((blank n h).ijSet (dorBitMapsIndex m k 0))
  dorRight := some ((blank n h).ijSet (dorBitMapsIndex m 0 k))
  dorBroken := some (blank n h)
  allocated := line_allocated

/-- The switch with index 2 gets index 1: the bit of the way to it is set and cleared again, as
both places are in one word. -/
theorem processSwIdxChange_loses_route :
    ¬(lineMaps 1 2 (by decide) : DorBitmaps 3).Renamed (fun x => x = 0 ∨ x = 2) 2 1
      ((lineMaps 1 2 (by decide)).processSwIdxChange 2 1 2) := by
  intro h
  obtain ⟨-, h, -⟩ := h
  cases h with
  | some h =>
    have := h.moved 0 1 (Or.inr ⟨Or.inl rfl, by decide⟩) (Or.inl rfl)
    revert this
    decide

/-- The switch with index 33 gets index 1: the places of the bits are 32 and 34 words apart. -/
theorem processSwIdxChange_meets_line :
    (lineMaps 37 33 (by decide) : DorBitmaps 34).Renamed (fun x => x = 0 ∨ x = 33) 33 1
      ((lineMaps 37 33 (by decide)).processSwIdxChange 33 1 33) := by
  apply (processSwIdxChange_meets_iff (by decide) (by decide) _).mpr
  · intro b hb
    have hcases : b = (blank 37 (by decide)).ijSet (dorBitMapsIndex 34 33 0) ∨
        b = (blank 37 (by decide)).ijSet (dorBitMapsIndex 34 0 33) ∨
        b = blank 37 (by decide) := by
      simpa [all, lineMaps] using hb
    rcases hcases with rfl | rfl | rfl
    · exact ⟨Or.inl rfl, Or.inl rfl, by decide, by decide, by decide⟩
    · exact ⟨Or.inl rfl, Or.inl rfl, by decide, by decide, by decide⟩
    · exact ⟨Or.inl rfl, Or.inl rfl, by decide, by decide, by decide⟩
  · rintro x (rfl | rfl) <;> decide

end OpaFm.Dor.DorBitmaps
