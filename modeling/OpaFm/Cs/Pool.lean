import Mathlib.Algebra.GroupWithZero.Nat

/-!
# Buffers of a pool

`vs_pool_alloc` takes a `size_t`, of which `vs_implpool_alloc` keeps 32 bits.  It puts a header in
front of the buffer and pads it, and has the sum of the three in an `int32_t` when it asks for the
memory.
-/

namespace OpaFm.Cs.Pool

def pBufferSize : Nat := 40

def padding : Nat := 8

/-- `vs_implpool_alloc`: how many of the bytes asked for are there behind the header, or `none`
for a negative number of bytes, which is more than `malloc` ever has as a `size_t`. -/
def vsImplpoolAlloc (reqSize : Nat) : Option Nat :=
  let bytes := (pBufferSize + reqSize + padding) % 2 ^ 32
  if 2 ^ 31 ≤ bytes then none else some (min reqSize (bytes - pBufferSize))

/-- `vs_pool_alloc`, as long as there is memory. -/
def vsPoolAlloc (length : Nat) : Option Nat :=
  if length = 0 then none else vsImplpoolAlloc (length % 2 ^ 32)

theorem vsImplpoolAlloc_of_lt {reqSize : Nat} (h : reqSize < 2 ^ 31 - 48) :
    vsImplpoolAlloc reqSize = some reqSize := by
  have hbytes : (pBufferSize + reqSize + padding) % 2 ^ 32 = reqSize + 48 := by
    unfold pBufferSize padding
    omega
  rw [vsImplpoolAlloc, hbytes, if_neg (by omega), pBufferSize, Nat.min_eq_left (by omega)]

theorem vsPoolAlloc_of_lt {length : Nat} (hpos : 0 < length) (h : length < 2 ^ 31 - 48) :
    vsPoolAlloc length = some length := by
  rw [vsPoolAlloc, if_neg (by omega), Nat.mod_eq_of_lt (by omega), vsImplpoolAlloc_of_lt h]

theorem vsImplpoolAlloc_eq_none {reqSize : Nat} (hlow : 2 ^ 31 - 48 ≤ reqSize)
    (hhigh : reqSize < 2 ^ 32 - 48) : vsImplpoolAlloc reqSize = none := by
  have hbytes : (pBufferSize + reqSize + padding) % 2 ^ 32 = reqSize + 48 := by
    unfold pBufferSize padding
    omega
  rw [vsImplpoolAlloc, hbytes, if_pos (by omega)]

theorem vsImplpoolAlloc_wraps {reqSize : Nat} (hlow : 2 ^ 32 - 48 ≤ reqSize)
    (hhigh : reqSize < 2 ^ 32) : vsImplpoolAlloc reqSize = some (reqSize - (2 ^ 32 - 8)) := by
  have hbytes : (pBufferSize + reqSize + padding) % 2 ^ 32 = reqSize - (2 ^ 32 - 48) := by
    unfold pBufferSize padding
    omega
  have hleft : reqSize - (2 ^ 32 - 48) - 40 = reqSize - (2 ^ 32 - 8) := by omega
  rw [vsImplpoolAlloc, hbytes, if_neg (by omega), pBufferSize, hleft,
    Nat.min_eq_right (Nat.sub_le _ _)]

/-- What the pool hands out is either all that was asked for, or at most the padding. -/
theorem vsPoolAlloc_cases {length n : Nat} (hlt : length < 2 ^ 32)
    (h : vsPoolAlloc length = some n) :
    (n = length ∧ length < 2 ^ 31 - 48) ∨ (n ≤ 7 ∧ 2 ^ 32 - 48 ≤ length) := by
  unfold vsPoolAlloc at h
  split at h
  next => cases h
  next =>
    rw [Nat.mod_eq_of_lt hlt] at h
    by_cases hsmall : length < 2 ^ 31 - 48
    · rw [vsImplpoolAlloc_of_lt hsmall] at h
      exact .inl ⟨(Option.some.inj h).symm, hsmall⟩
    · by_cases hmid : length < 2 ^ 32 - 48
      · rw [vsImplpoolAlloc_eq_none (by omega) hmid] at h
        cases h
      · rw [vsImplpoolAlloc_wraps (by omega) hlt] at h
        have hn := Option.some.inj h
        exact .inr ⟨by omega, by omega⟩

end OpaFm.Cs.Pool
