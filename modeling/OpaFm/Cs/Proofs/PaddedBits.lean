import OpaFm.Cs.Proofs.Bitset

/-!
# Bit sets of part of a word

After `bitset_set_all` the bits above `nbits_m` are set, and stay so.  A search can end at one of
them, but no test or change of a single bit sees them.
-/

namespace OpaFm.Cs

open OpaFm.Lib

variable {b : Bitset} {s : Finset Nat} {k : Nat}

/-- A bit set that stands for a set, with all of its bits above `nbits` set. -/
structure Padded (b : Bitset) (s : Finset Nat) : Prop where
  length : b.bits.length = b.nwords
  words : b.nwords = wordsFor b.nbits
  small : b.nbits ≤ 2 ^ 30
  bits : ∀ k < 32 * b.nwords, bitAt b.bits k = true ↔ k ∈ s ∨ b.nbits ≤ k
  lt : ∀ k ∈ s, k < b.nbits

namespace Padded

theorem size (h : Padded b s) : b.nbits ≤ 32 * b.nwords ∧ 32 * b.nwords < b.nbits + 32 := by
  rw [h.words]
  exact wordsFor_mul b.nbits

theorem bitsetTest_iff (h : Padded b s) (k : Nat) : b.bitsetTest k = true ↔ k ∈ s := by
  unfold Bitset.bitsetTest
  rw [decide_eq_true_iff, b.word_mask_ne_zero]
  constructor
  · rintro ⟨hk, hbit⟩
    have hsize := h.size
    exact ((h.bits k (by omega)).mp hbit).resolve_right (by omega)
  · intro hin
    have hk := h.lt k hin
    have hsize := h.size
    exact ⟨hk, (h.bits k (by omega)).mpr (Or.inl hin)⟩

theorem bitsetClear (h : Padded b s) (bit : Nat) : Padded (b.bitsetClear bit) (s.erase bit) := by
  unfold Bitset.bitsetClear
  by_cases hset : bit < b.nbits ∧ (b.word (bit / 32) &&& bitMask bit) ≠ 0
  · rw [if_pos hset]
    have hsize := h.size
    have hlen : bit / 32 < b.bits.length := by
      have := h.length
      omega
    have hone : bitAt b.bits bit = true := (b.word_mask_ne_zero bit).mp hset.2
    have hchange : ∀ k, bitAt (b.bits.set (bit / 32) (b.word (bit / 32) ^^^ bitMask bit)) k =
        if k = bit then false else bitAt b.bits k := by
      intro k
      apply bitAt_set_bit hlen _ (by decide)
      intro j hj
      rw [BitVec.getLsbD_xor, Bitset.getLsbD_bitMask hj]
      by_cases hj' : j = bit % 32
      · subst hj'
        have hword : (b.word (bit / 32)).getLsbD (bit % 32) = true := hone
        rw [hword, if_pos rfl, decide_eq_true rfl]
        rfl
      · rw [if_neg hj', decide_eq_false hj', Bool.xor_false]
        rfl
    constructor
    · exact List.length_set.trans h.length
    · exact h.words
    · exact h.small
    · intro k hk
      show bitAt (b.bits.set _ _) k = true ↔ k ∈ s.erase bit ∨ b.nbits ≤ k
      rw [hchange, Finset.mem_erase]
      by_cases hkb : k = bit
      · rw [if_pos hkb]
        constructor
        · exact fun hfalse => absurd hfalse Bool.false_ne_true
        · rintro (hne | hle)
          · exact absurd hkb hne.1
          · omega
      · rw [if_neg hkb, h.bits k hk]
        exact or_congr_left (and_iff_right hkb).symm
    · intro k hk
      exact h.lt k (Finset.mem_of_mem_erase hk)
  · rw [if_neg hset]
    have hout : bit ∉ s := by
      intro hin
      apply hset
      have htest := (h.bitsetTest_iff bit).mpr hin
      exact of_decide_eq_true htest
    rw [Finset.erase_eq_of_notMem hout]
    exact h

theorem bitsetFindNextOne (h : Padded b s) (bit : Nat) :
    (∃ v ∈ s, bit ≤ v ∧ (∀ w ∈ s, bit ≤ w → v ≤ w) ∧ b.bitsetFindNextOne bit = (v : Int)) ∨
      ((∀ w ∈ s, w < bit) ∧
        (b.bitsetFindNextOne bit = -1 ∨
          ∃ p : Nat, b.nbits ≤ p ∧ b.bitsetFindNextOne bit = (p : Int))) := by
  unfold Bitset.bitsetFindNextOne Bitset.findNext
  by_cases hbit : bit < b.nbits
  · rw [if_pos hbit]
    have hsize := h.size
    have hspec := Bitset.nextLoop_spec (b := b) true (b.nwords - bit / 32) (bit / 32) (bit % 32)
      (Nat.le_of_lt (Nat.mod_lt bit (by decide)))
    have hlo : bit / 32 * 32 + bit % 32 = bit := Nat.div_add_mod' bit 32
    have hhi : (bit / 32 + (b.nwords - bit / 32)) * 32 = 32 * b.nwords := by omega
    rw [hlo, hhi] at hspec
    cases hfound : b.nextLoop true (List.range' (bit / 32) (b.nwords - bit / 32)) (bit % 32) with
    | none =>
      rw [hfound] at hspec
      right
      refine ⟨?_, Or.inl rfl⟩
      intro w hw
      by_contra hge
      have hlt := h.lt w hw
      exact hspec w (by omega) (by omega) ((h.bits w (by omega)).mpr (Or.inl hw))
    | some v =>
      rw [hfound] at hspec
      obtain ⟨hle, hlt, hone, hfirst⟩ := hspec
      have hsmall := h.small
      have hint : ((some v).map asInt).getD (-1) = (v : Int) := asInt_of_lt (by omega)
      rw [hint]
      have hleast : ∀ w ∈ s, bit ≤ w → v ≤ w := by
        intro w hw hbw
        by_contra hvw
        have hwlt := h.lt w hw
        exact hfirst w hbw (by omega) ((h.bits w (by omega)).mpr (Or.inl hw))
      rcases (h.bits v hlt).mp hone with hin | hpad
      · exact Or.inl ⟨v, hin, hle, hleast, rfl⟩
      · right
        refine ⟨?_, Or.inr ⟨v, hpad, rfl⟩⟩
        intro w hw
        by_contra hge
        have hvw := hleast w hw (by omega)
        have hwlt := h.lt w hw
        omega
  · rw [if_neg hbit]
    right
    refine ⟨?_, Or.inl rfl⟩
    intro w hw
    have hwlt := h.lt w hw
    omega

theorem bitsetSetAll (hwords : b.nwords = wordsFor b.nbits)
    (hsmall : b.nbits ≤ 2 ^ 30) : Padded b.bitsetSetAll (Finset.range b.nbits) := by
  constructor
  · exact List.length_replicate
  · exact hwords
  · exact hsmall
  · intro k hk
    change k < 32 * b.nwords at hk
    have hone : bitAt (List.replicate b.nwords (0xffffffff : BitVec 32)) k = true := by
      have hword : k / 32 < b.nwords := by omega
      have hones : (0xffffffff : BitVec 32) = BitVec.allOnes 32 := rfl
      unfold bitAt
      rw [List.getD_replicate _ hword, hones, BitVec.getLsbD_allOnes]
      exact decide_eq_true (Nat.mod_lt k (by decide))
    show bitAt (List.replicate b.nwords (0xffffffff : BitVec 32)) k = true ↔
      k ∈ Finset.range b.nbits ∨ b.nbits ≤ k
    rw [hone, Finset.mem_range]
    exact ⟨fun _ => Nat.lt_or_ge k b.nbits, fun _ => rfl⟩
  · intro k hk
    exact Finset.mem_range.mp hk

end Padded

/-! ## Bits above the size that are clear -/

def Bitset.widen (b : Bitset) : Bitset := { b with nbits := 32 * b.nwords }

structure Tidy (b : Bitset) (s : Finset Nat) : Prop where
  good : b.widen.Good ⟨32 * b.nwords, s⟩
  le : b.nbits ≤ 32 * b.nwords
  lt : ∀ k ∈ s, k < b.nbits

namespace Tidy

theorem nset (h : Tidy b s) : b.nset = s.card := h.good.nset

theorem lastOneLoop_widen (b : Bitset) (n : Nat) : b.widen.lastOneLoop n = b.lastOneLoop n := by
  induction n with
  | zero => rfl
  | succ n ih =>
    unfold Bitset.lastOneLoop
    rw [ih]
    rfl

theorem bitsetFindLastOne (h : Tidy b s) :
    Returns (LastBelow (· ∈ s) (32 * b.nwords)) b.bitsetFindLastOne := by
  have hlast := h.good.correct.lastOne
  unfold Bitset.bitsetFindLastOne at *
  rwa [lastOneLoop_widen] at hlast

theorem nextLoop_widen (b : Bitset) (value : Bool) (l : List Nat) :
    ∀ iBit, b.widen.nextLoop value l iBit = b.nextLoop value l iBit := by
  induction l with
  | nil => exact fun _ => rfl
  | cons i l ih =>
    intro iBit
    unfold Bitset.nextLoop
    rw [ih 0]
    rfl

theorem bitsetFindNextZero (h : Tidy b s) {bit : Nat} (hbit : bit < b.nbits) :
    Returns (FirstFrom (· ∉ s) bit (32 * b.nwords)) (b.bitsetFindNextZero bit) := by
  have hnext := h.good.correct.nextZero bit
  have hwide : bit < b.widen.nbits := Nat.lt_of_lt_of_le hbit h.le
  unfold Bitset.bitsetFindNextZero Bitset.findNext at *
  rw [if_pos hwide, nextLoop_widen] at hnext
  rwa [if_pos hbit]

theorem bitsetFindNextZero_end (b : Bitset) {bit : Nat} (hbit : b.nbits ≤ bit) :
    b.bitsetFindNextZero bit = -1 :=
  if_neg (Nat.not_lt.mpr hbit)

theorem widen_bitsetSet (hle : b.nbits ≤ 32 * b.nwords) {bit : Nat} (hbit : bit < b.nbits) :
    (b.bitsetSet bit).widen = b.widen.bitsetSet bit ∧ (b.bitsetSet bit).nwords = b.nwords ∧
      (b.bitsetSet bit).nbits = b.nbits := by
  have hwide : bit < b.widen.nbits := Nat.lt_of_lt_of_le hbit hle
  unfold Bitset.bitsetSet
  by_cases hclear : (b.word (bit / 32) &&& bitMask bit) = 0
  · have hclear' : (b.widen.word (bit / 32) &&& bitMask bit) = 0 := hclear
    rw [if_pos ⟨hbit, hclear⟩, if_pos ⟨hwide, hclear'⟩]
    exact ⟨rfl, rfl, rfl⟩
  · have hclear' : ¬(b.widen.word (bit / 32) &&& bitMask bit) = 0 := hclear
    rw [if_neg fun h => hclear h.2, if_neg fun h => hclear' h.2]
    exact ⟨rfl, rfl, rfl⟩

theorem widen_bitsetClear (hle : b.nbits ≤ 32 * b.nwords) {bit : Nat} (hbit : bit < b.nbits) :
    (b.bitsetClear bit).widen = b.widen.bitsetClear bit ∧ (b.bitsetClear bit).nwords = b.nwords ∧
      (b.bitsetClear bit).nbits = b.nbits := by
  have hwide : bit < b.widen.nbits := Nat.lt_of_lt_of_le hbit hle
  unfold Bitset.bitsetClear
  by_cases hset : (b.word (bit / 32) &&& bitMask bit) ≠ 0
  · have hset' : (b.widen.word (bit / 32) &&& bitMask bit) ≠ 0 := hset
    rw [if_pos ⟨hbit, hset⟩, if_pos ⟨hwide, hset'⟩]
    exact ⟨rfl, rfl, rfl⟩
  · have hset' : ¬(b.widen.word (bit / 32) &&& bitMask bit) ≠ 0 := hset
    rw [if_neg fun h => hset h.2, if_neg fun h => hset' h.2]
    exact ⟨rfl, rfl, rfl⟩

theorem bitsetSet (h : Tidy b s) {bit : Nat} (hbit : bit < b.nbits) :
    Tidy (b.bitsetSet bit) (insert bit s) := by
  obtain ⟨hwiden, hnwords, hnbits⟩ := widen_bitsetSet h.le hbit
  have hset := h.good.bitsetSet bit
  rw [if_pos (show bit < 32 * b.nwords from Nat.lt_of_lt_of_le hbit h.le)] at hset
  constructor
  · rw [hwiden, hnwords]
    exact hset
  · rw [hnwords, hnbits]
    exact h.le
  · intro k hk
    rw [hnbits]
    rcases Finset.mem_insert.mp hk with rfl | hk
    · exact hbit
    · exact h.lt k hk

theorem bitsetClear (h : Tidy b s) {bit : Nat} (hbit : bit < b.nbits) :
    Tidy (b.bitsetClear bit) (s.erase bit) := by
  obtain ⟨hwiden, hnwords, hnbits⟩ := widen_bitsetClear h.le hbit
  constructor
  · rw [hwiden, hnwords]
    exact h.good.bitsetClear bit
  · rw [hnwords, hnbits]
    exact h.le
  · intro k hk
    rw [hnbits]
    exact h.lt k (Finset.mem_of_mem_erase hk)

end Tidy

end OpaFm.Cs
