import OpaFm.Cs.Bitset
import OpaFm.Lib.Run
import OpaFm.Lib.WordBits

/-!
# Bit sets as sets

With whole words there are no bits above `nbits_m`, and every function does what its
name says.  With a part of a word, the first bit that does not count is either set, and
then `bitset_find_last_one` finds one there, or clear, and then `bitset_find_last_zero`
does.
-/

namespace OpaFm.Cs

open OpaFm.Lib

@[ext] structure BoundedSet where
  nbits : Nat
  members : Finset Nat
  deriving DecidableEq

def Returns (spec : Option Nat → Prop) (r : Int) : Prop :=
  ∃ found, spec found ∧ r = (found.map Nat.cast).getD (-1)

/-- What a bit set says about the set it stands for. -/
structure Bitset.Correct (b : Bitset) (s : BoundedSet) : Prop where
  nbits : b.nbits = s.nbits
  nset : b.nset = s.members.card
  test : ∀ k, b.bitsetTest k = true ↔ k ∈ s.members
  firstOne : Returns (FirstFrom (· ∈ s.members) 0 s.nbits) b.bitsetFindFirstOne
  nextOne : ∀ bit, Returns (FirstFrom (· ∈ s.members) bit s.nbits) (b.bitsetFindNextOne bit)
  lastOne : Returns (LastBelow (· ∈ s.members) s.nbits) b.bitsetFindLastOne
  firstZero : Returns (FirstFrom (· ∉ s.members) 0 s.nbits) b.bitsetFindFirstZero
  nextZero : ∀ bit, Returns (FirstFrom (· ∉ s.members) bit s.nbits) (b.bitsetFindNextZero bit)
  lastZero : Returns (LastBelow (· ∉ s.members) s.nbits) b.bitsetFindLastZero

/-! ## Runs -/

abbrev BitsetSystem := Nat → Option (Bitset × BoundedSet)

namespace BitsetSystem

def update (sys : BitsetSystem) (i : Nat) (f : Bitset → Bitset) (g : BoundedSet → BoundedSet) :
    BitsetSystem :=
  Function.update sys i ((sys i).map fun p => (f p.1, g p.2))

def step (sys : BitsetSystem) : BitsetCall → BitsetSystem
  | .init i nbits alloc =>
    Function.update sys i ((bitsetInit alloc nbits).map fun b => (b, ⟨nbits, ∅⟩))
  | .set i bit =>
    sys.update i (·.bitsetSet bit) fun s =>
      if bit < s.nbits then { s with members := insert bit s.members } else s
  | .clear i bit => sys.update i (·.bitsetClear bit) fun s => { s with members := s.members.erase bit }
  | .setAll i => sys.update i Bitset.bitsetSetAll fun s => { s with members := Finset.range s.nbits }
  | .clearAll i => sys.update i Bitset.bitsetClearAll fun s => { s with members := ∅ }
  | .copy i j alloc =>
    match sys j with
    | none => sys
    | some (c, t) => sys.update i (·.bitsetCopy c alloc) fun _ => t
  | .resize i n alloc =>
    match sys i with
    | none => sys
    | some (b, s) =>
      -- a resize that returns 0 has left the set alone
      let (b', ok) := b.bitsetResize n alloc
      Function.update sys i
        (some (b', if ok then ⟨n, s.members.filter (· < n)⟩ else s))

/-- Every bit set stands for its set, and equality of bit sets is that of the sets. -/
structure Refines (sys : BitsetSystem) : Prop where
  correct : ∀ i b s, sys i = some (b, s) → b.Correct s
  equal : ∀ i j b s c t, sys i = some (b, s) → sys j = some (c, t) →
    (b.bitsetEqual c = true ↔ s = t)

def SizeOk (n : Nat) : Prop := n % 32 = 0 ∧ n ≤ 2 ^ 31

/-- What a call must meet: the sizes that are made are whole words, and a copy gets the
memory it needs. -/
def Fits (sys : BitsetSystem) : BitsetCall → Prop
  | .init _ nbits alloc => alloc = true → nbits ≠ 0 → SizeOk nbits
  | .resize i n alloc => ∀ b s, sys i = some (b, s) → b.hasPool = true → alloc = true → n ≠ 0 →
      SizeOk n
  | .copy i j alloc => ∀ b s c t, sys i = some (b, s) → sys j = some (c, t) → b.nbits ≠ c.nbits →
      b.hasPool = true ∧ alloc = true
  | .set _ _ | .clear _ _ | .setAll _ | .clearAll _ => True

end BitsetSystem

/-! ## Words and indices -/

theorem asInt_of_lt {n : Nat} (h : n < 2 ^ 31) : asInt n = n := by
  unfold asInt
  rw [BitVec.toInt_eq_toNat_of_lt]
  · rw [BitVec.toNat_ofNat, Nat.mod_eq_of_lt (by omega)]
  · rw [BitVec.toNat_ofNat, Nat.mod_eq_of_lt (by omega)]
    omega

theorem asInt_lt (n : Nat) : asInt n < 2 ^ 31 := by
  unfold asInt
  exact BitVec.toInt_lt

theorem wordsFor_mul (n : Nat) : n ≤ 32 * wordsFor n ∧ 32 * wordsFor n < n + 32 := by
  unfold wordsFor
  split <;> omega

theorem wordsFor_of_mod {n : Nat} (h : n % 32 = 0) : n = 32 * wordsFor n := by
  unfold wordsFor
  rw [if_neg (not_not.mpr h)]
  omega

theorem wordsFor_eq_zero {n : Nat} : wordsFor n = 0 ↔ n = 0 := by
  have := wordsFor_mul n
  omega

namespace Bitset

variable {b : Bitset}

theorem word_mask_ne_zero (b : Bitset) (k : Nat) :
    (b.word (k / 32) &&& bitMask k) ≠ 0 ↔ bitAt b.bits k = true :=
  and_shift_ne_zero (Nat.mod_lt k (by decide))

theorem hasValue_iff {value : Bool} {i k : Nat} (hk : k < 32) :
    b.hasValue value i k = true ↔ bitAt b.bits (i * 32 + k) = value := by
  have hmask : (b.word i &&& bitMask k) ≠ 0 ↔ bitAt b.bits (i * 32 + k) = true := by
    rw [bitAt_word _ hk]
    unfold bitMask
    rw [Nat.mod_eq_of_lt hk]
    exact and_shift_ne_zero hk
  unfold hasValue
  cases hbit : bitAt b.bits (i * 32 + k) with
  | true =>
    have hne : ¬(b.word i &&& bitMask k) = 0#32 := hmask.mpr hbit
    simp [hne]
  | false =>
    have hzero : (b.word i &&& bitMask k) = 0#32 := by
      by_contra hne
      rw [hmask.mp hne] at hbit
      cases hbit
    simp [hzero]

/-! ## Searching -/

theorem skipWord_none {value : Bool} {i k : Nat} (hk : k < 32) (h : b.word i = skipWord value) :
    bitAt b.bits (i * 32 + k) ≠ value := by
  rw [bitAt_word _ hk]
  have hword : b.bits.getD i 0 = skipWord value := h
  rw [hword]
  cases value with
  | true => simp [skipWord]
  | false =>
    have hones : skipWord false = BitVec.allOnes 32 := rfl
    rw [hones, BitVec.getLsbD_allOnes]
    simp [hk]

theorem nextLoop_spec (value : Bool) (m : Nat) : ∀ i iBit, iBit ≤ 32 →
    FirstFrom (fun k => bitAt b.bits k = value) (i * 32 + iBit) ((i + m) * 32)
      (b.nextLoop value (List.range' i m) iBit) := by
  induction m with
  | zero =>
    intro i iBit _ k hlo hk
    omega
  | succ m ih =>
    intro i iBit hle
    rw [List.range'_succ]
    unfold nextLoop
    -- the search in this word
    have hfound : FirstFrom (fun k => bitAt b.bits k = value) (i * 32 + iBit) (i * 32 + 32)
        ((if b.word i ≠ skipWord value then
            (List.range' iBit (32 - iBit)).find? (b.hasValue value i)
          else none).map (i * 32 + ·)) := by
      split
      next =>
        have hfind := firstFrom_find? (b.hasValue value i) iBit (32 - iBit)
        rw [Nat.add_sub_cancel' hle] at hfind
        exact hfind.shift fun k hk => (hasValue_iff hk).symm
      next hskip =>
        intro k hlo hk
        have hk' : i * 32 + (k - i * 32) = k := by omega
        rw [← hk']
        exact skipWord_none (by omega) (not_not.mp hskip)
    simp only
    generalize (if b.word i ≠ skipWord value then
      (List.range' iBit (32 - iBit)).find? (b.hasValue value i) else none) = found at hfound
    cases found with
    | some k => exact hfound.extend (by omega)
    | none =>
      have hrest := ih (i + 1) 0 (by omega)
      have hend : (i + (m + 1)) * 32 = (i + 1 + m) * 32 := by omega
      rw [hend]
      apply hfound.append _ (by omega)
      have hstart : (i + 1) * 32 + 0 = i * 32 + 32 := by omega
      rw [hstart] at hrest
      exact hrest

theorem lastInWord_spec (value : Bool) (i : Nat) :
    match b.lastInWord value i with
    | some k => i * 32 ≤ k ∧ k < i * 32 + 32 ∧ bitAt b.bits k = value ∧
        ∀ j, k < j → j < i * 32 + 32 → bitAt b.bits j ≠ value
    | none => ∀ j, i * 32 ≤ j → j < i * 32 + 32 → bitAt b.bits j ≠ value := by
  have hfind := lastBelow_find? (b.hasValue value i) 32
  have hbit : ∀ j, i * 32 ≤ j → j < i * 32 + 32 →
      (bitAt b.bits j = value ↔ b.hasValue value i (j - i * 32) = true) := by
    intro j hlo hhi
    have hj : i * 32 + (j - i * 32) = j := by omega
    rw [hasValue_iff (by omega), hj]
  unfold lastInWord
  cases hres : (List.range 32).reverse.find? (b.hasValue value i) with
  | some k =>
    rw [hres] at hfind
    obtain ⟨hk, hval, hafter⟩ := hfind
    show i * 32 ≤ i * 32 + k ∧ i * 32 + k < i * 32 + 32 ∧ bitAt b.bits (i * 32 + k) = value ∧
      ∀ j, i * 32 + k < j → j < i * 32 + 32 → bitAt b.bits j ≠ value
    refine ⟨by omega, by omega, (hasValue_iff hk).mp hval, fun j hj hjhi => ?_⟩
    rw [Ne, hbit j (by omega) hjhi]
    exact hafter _ (by omega) (by omega)
  | none =>
    rw [hres] at hfind
    intro j hlo hhi
    rw [Ne, hbit j hlo hhi]
    exact hfind _ (by omega)

theorem lastLoop_spec {value : Bool} {loop : Nat → Option Nat} (hzero : loop 0 = none)
    (hsucc : ∀ i,
      (∃ k, loop (i + 1) = some k ∧ i * 32 ≤ k ∧ k < i * 32 + 32 ∧ bitAt b.bits k = value ∧
        ∀ j, k < j → j < i * 32 + 32 → bitAt b.bits j ≠ value) ∨
      (loop (i + 1) = loop i ∧ ∀ j, i * 32 ≤ j → j < i * 32 + 32 → bitAt b.bits j ≠ value))
    (n : Nat) : LastBelow (fun k => bitAt b.bits k = value) (n * 32) (loop n) := by
  induction n with
  | zero =>
    rw [hzero]
    intro k hk
    omega
  | succ n ih =>
    have hend : (n + 1) * 32 = n * 32 + 32 := by omega
    rw [hend]
    rcases hsucc n with ⟨k, hk, hlo, hhi, hval, hafter⟩ | ⟨hloop, hnone⟩
    · rw [hk]
      exact ⟨hhi, hval, hafter⟩
    · rw [hloop]
      exact LastBelow.append hnone ih (by omega)

theorem lastOneLoop_spec (n : Nat) :
    LastBelow (fun k => bitAt b.bits k = true) (n * 32) (b.lastOneLoop n) := by
  apply lastLoop_spec rfl
  intro i
  have hword := lastInWord_spec (b := b) true i
  have hloop : b.lastOneLoop (i + 1) = if b.word i = 0 then b.lastOneLoop i else
      match b.lastInWord true i with
      | some k => some k
      | none => b.lastOneLoop i := rfl
  rw [hloop]
  split
  next hskip =>
    refine .inr ⟨rfl, fun j hlo hhi => ?_⟩
    have hj : i * 32 + (j - i * 32) = j := by omega
    rw [← hj]
    exact skipWord_none (by omega) hskip
  next =>
    cases hlast : b.lastInWord true i with
    | some k =>
      rw [hlast] at hword
      exact .inl ⟨k, rfl, hword⟩
    | none =>
      rw [hlast] at hword
      exact .inr ⟨rfl, hword⟩

theorem lastZeroLoop_spec (n : Nat) :
    LastBelow (fun k => bitAt b.bits k = false) (n * 32) (b.lastZeroLoop n) := by
  apply lastLoop_spec rfl
  intro i
  have hword := lastInWord_spec (b := b) false i
  have hloop : b.lastZeroLoop (i + 1) = if b.word i = 0 then some (i * 32 + 31) else
      match b.lastInWord false i with
      | some k => some k
      | none => b.lastZeroLoop i := rfl
  rw [hloop]
  split
  next hempty =>
    refine .inl ⟨i * 32 + 31, rfl, by omega, by omega, ?_, fun j hj hhi => by omega⟩
    rw [bitAt_word _ (by decide)]
    have : b.bits.getD i 0 = 0 := hempty
    rw [this]
    rfl
  next =>
    cases hlast : b.lastInWord false i with
    | some k =>
      rw [hlast] at hword
      exact .inl ⟨k, rfl, hword⟩
    | none =>
      rw [hlast] at hword
      exact .inr ⟨rfl, hword⟩

/-! ## Whole words -/

structure Good (b : Bitset) (s : BoundedSet) : Prop where
  length : b.bits.length = b.nwords
  size : b.nbits = 32 * b.nwords
  pos : 0 < b.nbits
  small : b.nbits ≤ 2 ^ 31
  nbits : s.nbits = b.nbits
  members : s.members = onesBelow b.bits b.nbits
  nset : b.nset = s.members.card

variable {s : BoundedSet}

theorem Good.mem (h : b.Good s) {k : Nat} (hk : k < s.nbits) :
    k ∈ s.members ↔ bitAt b.bits k = true := by
  rw [h.members, mem_onesBelow, ← h.nbits]
  exact and_iff_right hk

theorem Good.lt (h : b.Good s) {k : Nat} (hk : k ∈ s.members) : k < b.nbits := by
  rw [h.members, mem_onesBelow] at hk
  exact hk.1

theorem returns_of_spec {spec : Option Nat → Prop} {found : Option Nat} (h : spec found)
    (hsmall : ∀ k, found = some k → k < 2 ^ 31) : Returns spec ((found.map asInt).getD (-1)) := by
  refine ⟨found, h, ?_⟩
  cases found with
  | none => rfl
  | some k => exact asInt_of_lt (hsmall k rfl)

theorem Good.findNext (h : b.Good s) {p : Nat → Prop} {value : Bool}
    (hp : ∀ k, k < s.nbits → (bitAt b.bits k = value ↔ p k)) (bit : Nat) :
    Returns (FirstFrom p bit s.nbits) (b.findNext value bit) := by
  unfold Bitset.findNext
  split
  next hbit =>
    have hspec := nextLoop_spec (b := b) value (b.nwords - bit / 32) (bit / 32) (bit % 32)
      (Nat.le_of_lt (Nat.mod_lt bit (by decide)))
    have hlo : bit / 32 * 32 + bit % 32 = bit := Nat.div_add_mod' bit 32
    have hhi : (bit / 32 + (b.nwords - bit / 32)) * 32 = s.nbits := by
      have := h.size
      have := h.nbits
      omega
    rw [hlo, hhi] at hspec
    have hsearch := hspec.congr hp
    apply returns_of_spec hsearch
    intro k hk
    rw [hk] at hsearch
    have := hsearch.2.1
    have := h.nbits
    have := h.small
    omega
  next hbit =>
    refine ⟨none, fun k hlo hk => ?_, rfl⟩
    have := h.nbits
    omega

theorem Good.findLast (h : b.Good s) {p : Nat → Prop} {value : Bool} {found : Option Nat}
    (hfound : LastBelow (fun k => bitAt b.bits k = value) (b.nwords * 32) found)
    (hp : ∀ k, k < s.nbits → (bitAt b.bits k = value ↔ p k)) :
    Returns (LastBelow p s.nbits) ((found.map asInt).getD (-1)) := by
  have hhi : b.nwords * 32 = s.nbits := by
    have := h.size
    have := h.nbits
    omega
  rw [hhi] at hfound
  have hsearch := hfound.congr hp
  apply returns_of_spec hsearch
  intro k hk
  rw [hk] at hsearch
  have := hsearch.1
  have := h.nbits
  have := h.small
  omega

theorem Good.correct (h : b.Good s) : b.Correct s := by
  have hone : ∀ k, k < s.nbits → (bitAt b.bits k = true ↔ k ∈ s.members) :=
    fun k hk => (h.mem hk).symm
  have hzero : ∀ k, k < s.nbits → (bitAt b.bits k = false ↔ k ∉ s.members) := by
    intro k hk
    rw [h.mem hk, Bool.not_eq_true]
  exact
    { nbits := h.nbits.symm
      nset := h.nset
      test := fun k => by
        unfold bitsetTest
        rw [decide_eq_true_eq, word_mask_ne_zero, h.members, mem_onesBelow]
      firstOne := h.findNext hone 0
      nextOne := h.findNext hone
      lastOne := h.findLast (lastOneLoop_spec b.nwords) hone
      firstZero := h.findNext hzero 0
      nextZero := h.findNext hzero
      lastZero := h.findLast (lastZeroLoop_spec b.nwords) hzero }

theorem Good.equal {c : Bitset} {t : BoundedSet} (h : b.Good s) (h' : c.Good t) :
    b.bitsetEqual c = true ↔ s = t := by
  unfold bitsetEqual
  rw [decide_eq_true_eq]
  constructor
  · rintro ⟨hnbits, -, hnwords, hwords⟩
    have hbits : b.bits = c.bits := by
      apply List.ext_getElem
      · rw [h.length, h'.length, hnwords]
      · intro i hi hi'
        have := hwords i (by rw [← h.length]; exact hi)
        unfold word at this
        rw [List.getD_eq_getElem _ _ hi, List.getD_eq_getElem _ _ hi'] at this
        exact this
    ext k
    · rw [h.nbits, h'.nbits, hnbits]
    · rw [h.members, h'.members, hbits, hnbits]
  · rintro rfl
    have hnbits : b.nbits = c.nbits := h.nbits.symm.trans h'.nbits
    have hnwords : b.nwords = c.nwords := by
      have := h.size
      have := h'.size
      omega
    refine ⟨hnbits, h.nset.trans h'.nset.symm, hnwords, fun i _ => ?_⟩
    have hbits : b.bits = c.bits := by
      apply words_ext
      · rw [h.length, h'.length, hnwords]
      · intro k hk
        rw [h.length, ← h.size, ← h.nbits] at hk
        rw [Bool.eq_iff_iff, ← h.mem hk, ← h'.mem hk]
    unfold word
    rw [hbits]

/-! ## Calls -/

theorem bitsetInit_some {alloc : Bool} {n : Nat} {b : Bitset} (h : bitsetInit alloc n = some b) :
    n ≠ 0 ∧ b = ⟨true, wordsFor n, n, 0, List.replicate (wordsFor n) 0⟩ := by
  unfold bitsetInit at h
  split at h
  next hok =>
    cases h
    exact ⟨fun hn => hok.2 (wordsFor_eq_zero.mpr hn), rfl⟩
  next => cases h

theorem onesBelow_zero (n m : Nat) : onesBelow (List.replicate n (0 : BitVec 32)) m = ∅ := by
  ext k
  rw [mem_onesBelow, bitAt_replicate_zero]
  simp

theorem good_init {alloc : Bool} {n : Nat} {b : Bitset} (h : bitsetInit alloc n = some b)
    (hn : BitsetSystem.SizeOk n) : b.Good ⟨n, ∅⟩ := by
  obtain ⟨hpos, rfl⟩ := bitsetInit_some h
  exact
    { length := List.length_replicate
      size := wordsFor_of_mod hn.1
      pos := Nat.pos_of_ne_zero hpos
      small := hn.2
      nbits := rfl
      members := (onesBelow_zero _ _).symm
      nset := rfl }

theorem Good.replace (h : b.Good s) {bits : List (BitVec 32)} {nset : Nat} {members : Finset Nat}
    (hlength : bits.length = b.bits.length) (hmembers : members = onesBelow bits b.nbits)
    (hnset : nset = members.card) :
    Good { b with bits := bits, nset := nset } { s with members := members } where
  length := hlength.trans h.length
  size := h.size
  pos := h.pos
  small := h.small
  nbits := h.nbits
  members := hmembers
  nset := hnset

theorem Good.card_le (h : b.Good s) : s.members.card ≤ 2 ^ 31 := by
  have hsub : s.members ⊆ Finset.range b.nbits := fun k hk => Finset.mem_range.mpr (h.lt hk)
  have := Finset.card_le_card hsub
  rw [Finset.card_range] at this
  exact this.trans h.small

theorem Good.changeBit (h : b.Good s) {bit : Nat} (hbit : bit < b.nbits) {x : BitVec 32} {v : Bool}
    (hx : ∀ j < 32, x.getLsbD j = if j = bit % 32 then v else (b.word (bit / 32)).getLsbD j) (k : Nat) :
    bitAt (b.bits.set (bit / 32) x) k = if k = bit then v else bitAt b.bits k := by
  apply bitAt_set_bit _ hx (by decide)
  rw [h.length]
  have := h.size
  omega

theorem getLsbD_bitMask {bit j : Nat} (hj : j < 32) :
    (bitMask bit).getLsbD j = decide (j = bit % 32) := by
  have hlt : bit % 32 < 32 := Nat.mod_lt bit (by decide)
  unfold bitMask
  by_cases h : j = bit % 32
  · subst h
    simp [hlt]
  · by_cases hjlt : j < bit % 32
    · simp [h, hjlt]
    · have hsub : j - bit % 32 ≠ 0 := by omega
      simp [h, hsub]

theorem Good.bitsetSet (h : b.Good s) (bit : Nat) :
    (b.bitsetSet bit).Good
      (if bit < s.nbits then { s with members := insert bit s.members } else s) := by
  unfold Bitset.bitsetSet
  by_cases hbit : bit < b.nbits
  · have hbit' : bit < s.nbits := by
      rw [h.nbits]
      exact hbit
    have hmem := h.mem hbit'
    by_cases hclear : (b.word (bit / 32) &&& bitMask bit) = 0
    · rw [if_pos ⟨hbit, hclear⟩, if_pos hbit']
      have hnot : bit ∉ s.members := fun hin => (b.word_mask_ne_zero bit).mpr (hmem.mp hin) hclear
      apply h.replace (List.length_set)
      · ext k
        have hx := h.changeBit (x := b.word (bit / 32) ||| bitMask bit) (v := true) hbit
          (fun j hj => by
            rw [BitVec.getLsbD_or, getLsbD_bitMask hj]
            split <;> simp_all) k
        rw [mem_onesBelow, hx, Finset.mem_insert, h.members, mem_onesBelow]
        split
        next hk => simp [hk, hbit]
        next hk => simp [hk]
      · have hcard := h.card_le
        rw [Finset.card_insert_of_notMem hnot, h.nset]
        unfold incSize
        omega
    · have hin : bit ∈ s.members := hmem.mpr ((b.word_mask_ne_zero bit).mp hclear)
      rw [if_neg fun hno => hclear hno.2, if_pos hbit', Finset.insert_eq_of_mem hin]
      exact h
  · rw [if_neg fun hno => hbit hno.1, if_neg (fun hno => hbit (h.nbits ▸ hno))]
    exact h

theorem Good.bitsetClear (h : b.Good s) (bit : Nat) :
    (b.bitsetClear bit).Good { s with members := s.members.erase bit } := by
  unfold Bitset.bitsetClear
  by_cases hset : bit < b.nbits ∧ (b.word (bit / 32) &&& bitMask bit) ≠ 0
  · rw [if_pos hset]
    have hone := (b.word_mask_ne_zero bit).mp hset.2
    have hin : bit ∈ s.members := (h.mem (h.nbits.symm ▸ hset.1)).mpr hone
    apply h.replace (List.length_set)
    · ext k
      have hx := h.changeBit (x := b.word (bit / 32) ^^^ bitMask bit) (v := false) hset.1
        (fun j hj => by
          rw [BitVec.getLsbD_xor, getLsbD_bitMask hj]
          split
          next hj' =>
            subst hj'
            have hword : (b.word (bit / 32)).getLsbD (bit % 32) = true := hone
            simp [hword]
          next hj' => simp [hj']) k
      rw [mem_onesBelow, hx, Finset.mem_erase, h.members, mem_onesBelow]
      split
      next hk => simp [hk]
      next hk => simp [hk]
    · have hpos := Finset.card_pos.mpr ⟨bit, hin⟩
      have hcard := h.card_le
      rw [Finset.card_erase_of_mem hin, h.nset]
      unfold decSize
      omega
  · rw [if_neg hset]
    have hout : bit ∉ s.members := by
      intro hin
      apply hset
      refine ⟨h.lt hin, (b.word_mask_ne_zero bit).mpr ?_⟩
      exact (h.mem (h.nbits.symm ▸ h.lt hin)).mp hin
    rw [Finset.erase_eq_of_notMem hout]
    exact h

theorem Good.bitsetClearAll (h : b.Good s) : b.bitsetClearAll.Good { s with members := ∅ } := by
  apply h.replace
  · rw [List.length_replicate, h.length]
  · exact (onesBelow_zero _ _).symm
  · rfl

theorem Good.bitsetSetAll (h : b.Good s) :
    b.bitsetSetAll.Good { s with members := Finset.range s.nbits } := by
  apply h.replace
  · rw [List.length_replicate, h.length]
  · ext k
    rw [Finset.mem_range, mem_onesBelow, h.nbits]
    refine ⟨fun hk => ⟨hk, ?_⟩, fun hk => hk.1⟩
    have hword : k / 32 < b.nwords := by
      have := h.size
      omega
    have hones : (0xffffffff : BitVec 32) = BitVec.allOnes 32 := rfl
    unfold bitAt
    rw [List.getD_replicate _ hword, hones, BitVec.getLsbD_allOnes]
    simpa using Nat.mod_lt k (by decide)
  · rw [Finset.card_range, h.nbits]

theorem countNset_eq (b : Bitset) (h : b.nbits ≤ 32 * b.nwords) :
    b.countNset = (onesBelow b.bits b.nbits).card := by
  have htake : ∀ n m, n ≤ m → (List.range m).takeWhile (· < n) = List.range n := by
    intro n m hnm
    obtain ⟨d, rfl⟩ := Nat.exists_eq_add_of_le hnm
    rw [List.range_add, List.takeWhile_append_of_pos]
    · have hnil : ((List.range d).map (n + ·)).takeWhile (· < n) = [] := by
        cases d with
        | zero => rfl
        | succ d => simp [List.range_succ_eq_map]
      rw [hnil, List.append_nil]
    · intro k hk
      simpa using hk
  have hcount : ∀ n, (List.range n).countP (fun k => decide ((b.word (k / 32) &&& bitMask k) ≠ 0)) =
      (onesBelow b.bits n).card := by
    intro n
    induction n with
    | zero => rfl
    | succ n ih =>
      rw [List.range_succ, List.countP_append, ih]
      unfold onesBelow
      rw [Finset.range_add_one, Finset.filter_insert, List.countP_singleton]
      by_cases hbit : bitAt b.bits n = true
      · have hne := (b.word_mask_ne_zero n).mpr hbit
        rw [if_pos (by simpa using hne), if_pos hbit, Finset.card_insert_of_notMem (by simp)]
      · have hzero := mt (b.word_mask_ne_zero n).mp hbit
        rw [if_neg (by simpa using hzero), if_neg hbit, Nat.add_zero]
  unfold countNset
  rw [htake _ _ (by omega), hcount]

theorem memcpyWords_grow (bits : List (BitVec 32)) (n : Nat) :
    memcpyWords (List.replicate n 0) bits bits.length =
      bits ++ List.replicate (n - bits.length) 0 := by
  unfold memcpyWords
  rw [List.take_length, List.drop_replicate]

theorem memcpyWords_full (dst src : List (BitVec 32)) {n : Nat} (h : dst.length ≤ n) :
    memcpyWords dst src n = src.take n := by
  unfold memcpyWords
  rw [List.drop_of_length_le h, List.append_nil]

theorem Good.bitsetResize (h : b.Good s) {n : Nat} {alloc : Bool}
    (hn : b.hasPool = true → alloc = true → n ≠ 0 → BitsetSystem.SizeOk n) :
    (b.bitsetResize n alloc).1.Good
      (if (b.bitsetResize n alloc).2 then ⟨n, s.members.filter (· < n)⟩ else s) := by
  have hfilter : b.nbits ≤ n → s.members.filter (· < n) = s.members := by
    intro hle
    apply Finset.filter_true_of_mem
    intro k hk
    exact Nat.lt_of_lt_of_le (h.lt hk) hle
  unfold Bitset.bitsetResize
  by_cases hsame : n = b.nbits
  · rw [if_pos hsame]
    simp only [if_true]
    rw [hfilter (Nat.le_of_eq hsame.symm), hsame, ← h.nbits]
    exact h
  · rw [if_neg hsame]
    cases hinit : bitsetInit (b.hasPool && alloc) n with
    | none => exact ⟨h.length, h.size, h.pos, h.small, h.nbits, h.members, h.nset⟩
    | some b' =>
      have halloc : b.hasPool = true ∧ alloc = true := by
        unfold bitsetInit at hinit
        split at hinit
        next hok => simpa using hok.1
        next => cases hinit
      obtain ⟨hne, hb'⟩ := bitsetInit_some hinit
      have hok := hn halloc.1 halloc.2 hne
      have hgood := good_init hinit hok
      have hwords := wordsFor_of_mod hok.1
      have hsize := h.size
      have hlen := h.length
      subst hb'
      by_cases hgrow : n > b.nbits
      · simp only [hgrow, if_true]
        have hcopy := memcpyWords_grow b.bits (wordsFor n)
        rw [hlen] at hcopy
        rw [hcopy]
        refine ⟨?_, hgood.size, hgood.pos, hgood.small, rfl, ?_, ?_⟩
        · rw [List.length_append, List.length_replicate]
          simp only
          omega
        · ext k
          rw [hfilter (Nat.le_of_lt hgrow), h.members, mem_onesBelow, mem_onesBelow,
            bitAt_append_zero]
          simp only
          refine ⟨fun hk => ⟨by omega, hk.2⟩, fun hk => ⟨?_, hk.2⟩⟩
          by_contra hge
          have hfalse : bitAt b.bits k = false := by
            apply bitAt_of_le (by decide)
            rw [hlen]
            omega
          rw [hk.2] at hfalse
          cases hfalse
        · rw [hfilter (Nat.le_of_lt hgrow)]
          exact h.nset
      · simp only [hgrow, if_false, if_true]
        have hcopy : memcpyWords (List.replicate (wordsFor n) 0) b.bits (wordsFor n) =
            b.bits.take (wordsFor n) :=
          memcpyWords_full _ _ (by rw [List.length_replicate])
        have hmembers : s.members.filter (· < n) = onesBelow (b.bits.take (wordsFor n)) n := by
          ext k
          rw [Finset.mem_filter, h.members, mem_onesBelow, mem_onesBelow,
            bitAt_take _ (by decide), Bool.and_eq_true, decide_eq_true_eq]
          refine ⟨fun hk => ⟨hk.2, by omega, hk.1.2⟩, fun hk => ⟨⟨by omega, hk.2.2⟩, hk.1⟩⟩
        rw [hcopy]
        refine ⟨?_, hgood.size, hgood.pos, hgood.small, rfl, hmembers, ?_⟩
        · rw [List.length_take]
          simp only
          omega
        · rw [countNset_eq _ (Nat.le_of_eq hwords), hmembers]

theorem bitsetResize_form (hlen : b.bits.length = b.nwords) (hnw : b.nwords = wordsFor b.nbits)
    (hpool : b.hasPool = true) {n : Nat} (hn : n ≠ 0) (hne : n ≠ b.nbits) :
    (b.bitsetResize n true).2 = true ∧ (b.bitsetResize n true).1.nbits = n ∧
      (b.bitsetResize n true).1.nwords = wordsFor n ∧
      (b.bitsetResize n true).1.bits.length = wordsFor n := by
  have hwords : wordsFor n ≠ 0 := mt wordsFor_eq_zero.mp hn
  have h₁ := wordsFor_mul n
  have h₂ := wordsFor_mul b.nbits
  have hinit : bitsetInit (b.hasPool && true) n =
      some ⟨true, wordsFor n, n, 0, List.replicate (wordsFor n) 0⟩ := by
    unfold bitsetInit
    rw [if_pos ⟨by simp [hpool], hwords⟩]
  unfold Bitset.bitsetResize
  rw [if_neg hne, hinit]
  by_cases hgrow : n > b.nbits
  · simp only [hgrow, if_true, true_and]
    have hcopy := memcpyWords_grow b.bits (wordsFor n)
    rw [hlen] at hcopy
    rw [hcopy, List.length_append, List.length_replicate]
    omega
  · simp only [hgrow, if_false, true_and]
    rw [memcpyWords_full _ _ (Nat.le_of_eq List.length_replicate), List.length_take]
    omega

theorem Good.words (h : b.Good s) : b.nwords = wordsFor b.nbits := by
  have := wordsFor_of_mod (n := b.nbits) (by rw [h.size]; omega)
  have := h.size
  omega

theorem Good.sizeOk (h : b.Good s) : BitsetSystem.SizeOk b.nbits :=
  ⟨by rw [h.size]; omega, h.small⟩

theorem Good.copyWords {c : Bitset} {t : BoundedSet} (hlen : b.bits.length = b.nwords)
    (hnw : b.nwords = wordsFor b.nbits) (h' : c.Good t) (hnbits : b.nbits = c.nbits) :
    Good { b with bits := memcpyWords b.bits c.bits b.nwords, nset := c.nset } t := by
  have hnwords : b.nwords = c.nwords := by
    rw [hnw, h'.words, hnbits]
  have hbits : memcpyWords b.bits c.bits b.nwords = c.bits := by
    rw [memcpyWords_full _ _ (Nat.le_of_eq hlen), hnwords, ← h'.length, List.take_length]
  rw [hbits]
  exact
    { length := h'.length.trans hnwords.symm
      size := by
        simp only [hnbits, hnwords]
        exact h'.size
      pos := hnbits ▸ h'.pos
      small := hnbits ▸ h'.small
      nbits := h'.nbits.trans hnbits.symm
      members := by
        simp only [hnbits]
        exact h'.members
      nset := h'.nset }

theorem Good.bitsetCopy {c : Bitset} {t : BoundedSet} (h : b.Good s) (h' : c.Good t) {alloc : Bool}
    (hfit : b.nbits ≠ c.nbits → b.hasPool = true ∧ alloc = true) :
    (b.bitsetCopy c alloc).Good t := by
  unfold Bitset.bitsetCopy
  by_cases hsame : b.nbits = c.nbits
  · rw [if_neg (not_not.mpr hsame)]
    simp only
    rw [if_neg (not_not.mpr hsame)]
    exact Good.copyWords h.length h.words h' hsame
  · obtain ⟨hpool, rfl⟩ := hfit hsame
    obtain ⟨-, hnbits, hnwords, hlen⟩ :=
      bitsetResize_form h.length h.words hpool (Nat.ne_of_gt h'.pos) (Ne.symm hsame)
    rw [if_pos hsame]
    simp only
    rw [if_neg (not_not.mpr hnbits)]
    apply Good.copyWords _ _ h' hnbits
    · rw [hlen, hnwords]
    · rw [hnwords, hnbits]

/-! ## Parts of words -/

theorem lastBelow_eq {p : Nat → Prop} {n : Nat} {found : Option Nat} (h : LastBelow p (n + 1) found)
    (hn : p n) : found = some n := by
  cases found with
  | none => exact absurd hn (h n (Nat.lt_succ_self n))
  | some k =>
    obtain ⟨hk, -, hafter⟩ := h
    have hkn : k = n := by
      by_contra hne
      exact hafter n (by omega) (Nat.lt_succ_self n) hn
    rw [hkn]

theorem not_returns {p : Nat → Prop} {n k : Nat} (hk : n ≤ k) :
    ¬Returns (LastBelow p n) (k : Int) := by
  rintro ⟨found, hfound, hr⟩
  cases found with
  | none => simp at hr
  | some j =>
    have hj := hfound.1
    simp only [Option.map_some, Option.getD_some, Nat.cast_inj] at hr
    omega

theorem not_correct_of_part (hnw : b.nwords = wordsFor b.nbits) (hpart : b.nbits % 32 ≠ 0)
    (hsmall : b.nbits ≤ 2 ^ 31) : ¬b.Correct s := by
  intro hcorrect
  have hmul := wordsFor_mul b.nbits
  -- the last bit of the last word is not one of the set
  obtain ⟨top, htop⟩ : ∃ top, b.nwords * 32 = top + 1 := ⟨b.nwords * 32 - 1, by omega⟩
  have hle : s.nbits ≤ top := by
    rw [← hcorrect.nbits]
    omega
  have hint : asInt top = top := asInt_of_lt (by omega)
  cases hbit : bitAt b.bits top with
  | true =>
    have hspec := lastOneLoop_spec (b := b) b.nwords
    rw [htop] at hspec
    have hlast := hcorrect.lastOne
    unfold bitsetFindLastOne at hlast
    rw [lastBelow_eq hspec hbit, Option.map_some, Option.getD_some, hint] at hlast
    exact not_returns hle hlast
  | false =>
    have hspec := lastZeroLoop_spec (b := b) b.nwords
    rw [htop] at hspec
    have hlast := hcorrect.lastZero
    unfold bitsetFindLastZero at hlast
    rw [lastBelow_eq hspec hbit, Option.map_some, Option.getD_some, hint] at hlast
    exact not_returns hle hlast

theorem not_correct_of_large (hlarge : 2 ^ 31 < b.nbits) (hnot : b.nbits - 1 ∉ s.members) :
    ¬b.Correct s := by
  intro hcorrect
  obtain ⟨found, hfound, hr⟩ := hcorrect.lastZero
  rw [← hcorrect.nbits] at hfound
  obtain ⟨n, hn⟩ : ∃ n, b.nbits = n + 1 := ⟨b.nbits - 1, by omega⟩
  rw [hn] at hfound hnot
  rw [lastBelow_eq hfound hnot] at hr
  have hlt : b.bitsetFindLastZero < 2 ^ 31 := by
    unfold bitsetFindLastZero
    cases b.lastZeroLoop b.nwords with
    | none => decide
    | some k => exact asInt_lt k
  rw [hr] at hlt
  simp only [Option.map_some, Option.getD_some] at hlt
  omega

theorem not_correct_of_size (hnw : b.nwords = wordsFor b.nbits)
    (hsize : ¬BitsetSystem.SizeOk b.nbits)
    (hnot : 2 ^ 31 < b.nbits → b.nbits - 1 ∉ s.members) : ¬b.Correct s := by
  by_cases hlarge : 2 ^ 31 < b.nbits
  · exact not_correct_of_large hlarge (hnot hlarge)
  · apply not_correct_of_part hnw _ (by omega)
    intro hmod
    exact hsize ⟨hmod, by omega⟩

end Bitset

namespace BitsetSystem

def Inv (sys : BitsetSystem) : Prop := ∀ i b s, sys i = some (b, s) → b.Good s

variable {sys : BitsetSystem}

theorem Inv.refines (h : Inv sys) : Refines sys where
  correct i b s hi := (h i b s hi).correct
  equal i j b s c t hi hj := (h i b s hi).equal (h j c t hj)

theorem Inv.put (h : Inv sys) {i : Nat} {entry : Option (Bitset × BoundedSet)}
    (hentry : ∀ b s, entry = some (b, s) → b.Good s) : Inv (Function.update sys i entry) := by
  intro j b s hj
  by_cases heq : j = i
  · subst heq
    rw [Function.update_self] at hj
    exact hentry b s hj
  · rw [Function.update_of_ne heq] at hj
    exact h j b s hj

theorem Inv.update (h : Inv sys) {i : Nat} {f : Bitset → Bitset} {g : BoundedSet → BoundedSet}
    (hfg : ∀ b s, sys i = some (b, s) → (f b).Good (g s)) : Inv (sys.update i f g) := by
  apply h.put
  intro b s hentry
  obtain ⟨⟨b₀, s₀⟩, hi, heq⟩ := Option.map_eq_some_iff.mp hentry
  cases heq
  exact hfg b₀ s₀ hi

theorem step_inv (h : Inv sys) {call : BitsetCall} (hfit : sys.Fits call) :
    Inv (sys.step call) := by
  cases call with
  | init i nbits alloc =>
    apply h.put
    intro b s hentry
    obtain ⟨b₀, hinit, heq⟩ := Option.map_eq_some_iff.mp hentry
    cases heq
    have halloc : alloc = true := by
      unfold bitsetInit at hinit
      split at hinit
      next hok => exact hok.1
      next => cases hinit
    exact Bitset.good_init hinit (hfit halloc (Bitset.bitsetInit_some hinit).1)
  | set i bit => exact h.update fun b s hi => (h i b s hi).bitsetSet bit
  | clear i bit => exact h.update fun b s hi => (h i b s hi).bitsetClear bit
  | setAll i => exact h.update fun b s hi => (h i b s hi).bitsetSetAll
  | clearAll i => exact h.update fun b s hi => (h i b s hi).bitsetClearAll
  | copy i j alloc =>
    cases hj : sys j with
    | none =>
      simp only [step, hj]
      exact h
    | some p =>
      obtain ⟨c, t⟩ := p
      simp only [step, hj]
      apply h.update
      intro b s hi
      exact (h i b s hi).bitsetCopy (h j c t hj) (hfit b s c t hi hj)
  | resize i n alloc =>
    cases hi : sys i with
    | none =>
      simp only [step, hi]
      exact h
    | some p =>
      obtain ⟨b, s⟩ := p
      simp only [step, hi]
      apply h.put
      intro b' s' hentry
      cases hentry
      exact (h i b s hi).bitsetResize (hfit b s hi)

theorem step_not_refines (h : Inv sys) {call : BitsetCall} (hfit : ¬sys.Fits call) :
    ¬Refines (sys.step call) := by
  intro hrefines
  cases call with
  | init i nbits alloc =>
    simp only [Fits, Classical.not_imp] at hfit
    obtain ⟨rfl, hne, hsize⟩ := hfit
    have hinit : bitsetInit true nbits =
        some ⟨true, wordsFor nbits, nbits, 0, List.replicate (wordsFor nbits) 0⟩ :=
      if_pos ⟨rfl, mt wordsFor_eq_zero.mp hne⟩
    have hentry : sys.step (.init i nbits true) i =
        some (⟨true, wordsFor nbits, nbits, 0, List.replicate (wordsFor nbits) 0⟩, ⟨nbits, ∅⟩) := by
      simp only [step, hinit, Option.map_some, Function.update_self]
    exact Bitset.not_correct_of_size rfl hsize (fun _ => by simp) (hrefines.correct i _ _ hentry)
  | resize i n alloc =>
    simp only [Fits, not_forall] at hfit
    obtain ⟨b, s, hi, hpool, rfl, hne, hsize⟩ := hfit
    have hgood := h i b s hi
    have hdiff : n ≠ b.nbits := by
      rintro rfl
      exact hsize hgood.sizeOk
    obtain ⟨hok, hnbits, hnwords, -⟩ :=
      Bitset.bitsetResize_form hgood.length hgood.words hpool hne hdiff
    have hentry : sys.step (.resize i n true) i =
        some ((b.bitsetResize n true).1, ⟨n, s.members.filter (· < n)⟩) := by
      simp only [step, hi, Function.update_self, hok, if_true]
    apply Bitset.not_correct_of_size _ _ _ (hrefines.correct i _ _ hentry)
    · rw [hnwords, hnbits]
    · rw [hnbits]
      exact hsize
    · intro hlarge hmem
      rw [hnbits] at hlarge hmem
      have := hgood.lt (Finset.mem_filter.mp hmem).1
      have := hgood.small
      omega
  | copy i j alloc =>
    simp only [Fits, not_forall] at hfit
    obtain ⟨b, s, c, t, hi, hj, hdiff, halloc⟩ := hfit
    have hinit : bitsetInit (b.hasPool && alloc) c.nbits = none := by
      apply if_neg
      rintro ⟨hok, -⟩
      exact halloc (by simpa using hok)
    have hentry : sys.step (.copy i j alloc) i = some ({ b with hasPool := false }, t) := by
      simp only [step, hj, BitsetSystem.update, hi, Option.map_some, Function.update_self,
        Bitset.bitsetCopy, Bitset.bitsetResize, ne_eq, hdiff, not_false_eq_true, if_true,
        Ne.symm hdiff, if_false, hinit]
    have hnbits := (hrefines.correct i _ _ hentry).nbits
    exact hdiff (hnbits.trans (h j c t hj).nbits)
  | set i bit => exact hfit trivial
  | clear i bit => exact hfit trivial
  | setAll i => exact hfit trivial
  | clearAll i => exact hfit trivial

/-- In exactly those runs whose calls fit, every bit set stands for its set in every
state. -/
theorem allStates_refines_iff (calls : List BitsetCall) :
    AllStates step Refines (fun _ => none) calls ↔ AllSteps step Fits (fun _ => none) calls :=
  allStates_iff (fun _ h => h.refines) (fun _ _ h hfit => step_inv h hfit)
    (fun _ _ h hfit => step_not_refines h hfit) calls _ fun _ _ _ h => by cases h

/-- A bit set of five bits. -/
theorem not_refines_five_bits : ¬AllStates step Refines (fun _ => none) [.init 0 5 true] := by
  intro h
  have hlast := (h.2.correct 0 ⟨true, 1, 5, 0, [0]⟩ ⟨5, ∅⟩ rfl).lastZero
  have hzero : Bitset.bitsetFindLastZero ⟨true, 1, 5, 0, [0]⟩ = ((31 : Nat) : Int) := by decide
  rw [hzero] at hlast
  exact Bitset.not_returns (by decide) hlast

end BitsetSystem

/-! ## Failed resizes -/

namespace PooledBitset

variable {π : Type} {gives : π → Nat → Bool} {takes : π → Bool} {b : PooledBitset π} {n : Nat}

theorem bitsetInit_of_fail {pool : Option π}
    (hfail : vsPoolAlloc gives pool (4 * wordsFor n) = false) :
    bitsetInit gives pool n = (cleared, false) :=
  if_pos (by rw [hfail]; rfl)

theorem bitsetResize_of_fail (hne : n ≠ b.nbits)
    (hfail : vsPoolAlloc gives b.pool (4 * wordsFor n) = false) :
    b.bitsetResize gives n = ({ b with pool := none }, false) := by
  unfold bitsetResize
  rw [if_neg hne]
  dsimp only
  rw [bitsetInit_of_fail hfail]
  rfl

/-- A resize that fails leaves the set as it was, to be resized and freed like before, exactly when
the set had no pool. -/
theorem bitsetResize_fail_iff (gives : π → Nat → Bool) (b : PooledBitset π) (n : Nat)
    (hne : n ≠ b.nbits) (hfail : vsPoolAlloc gives b.pool (4 * wordsFor n) = false) :
    ((b.bitsetResize gives n).2 = false ∧ (b.bitsetResize gives n).1 = b ∧
        (∀ takes : π → Bool, (b.bitsetFree takes).2 = true →
          ((b.bitsetResize gives n).1.bitsetFree takes).2 = true) ∧
        ∀ (gives' : π → Nat → Bool) (m : Nat), (b.bitsetResize gives' m).2 = true →
          ((b.bitsetResize gives n).1.bitsetResize gives' m).2 = true) ↔
      b.pool = none := by
  rw [bitsetResize_of_fail hne hfail]
  constructor
  · rintro ⟨-, hsame, -, -⟩
    exact (congrArg PooledBitset.pool hsame).symm
  · intro hpool
    have hsame : { b with pool := none } = b := by rw [← hpool]
    rw [hsame]
    exact ⟨rfl, rfl, fun _ => id, fun _ _ => id⟩

/-- A set of no bits, as `bitset_free` leaves it. -/
theorem bitsetResize_fail_iff_cleared :
    ((cleared : PooledBitset Unit).bitsetResize (fun _ _ => false) 64).1 = cleared :=
  ((bitsetResize_fail_iff (fun _ _ => false) cleared 64 (by decide) (by decide)).mpr rfl).2.1

def fullWord : PooledBitset Unit := ⟨some (), 1, 32, 0, some [0]⟩

/-- A set that could not grow has lost its pool. -/
theorem not_bitsetResize_fail :
    ¬∀ (gives : Unit → Nat → Bool) (b : PooledBitset Unit) (n : Nat),
      (b.bitsetResize gives n).2 = false → (b.bitsetResize gives n).1 = b := by
  intro h
  have hpool := congrArg PooledBitset.pool (h (fun _ _ => false) fullWord 64 rfl)
  exact absurd hpool (by decide)

end PooledBitset

end OpaFm.Cs
