import Mathlib.Data.BitVec

/-!
# Bit sets

`bits_m` holds 32 bits to a word, so that the last word may have bits above `nbits_m`.
Allocation fails for an empty block, without a pool, and when memory runs out; a resize
that fails loses the pool.
-/

namespace OpaFm.Cs

structure Bitset where
  hasPool : Bool
  nwords : Nat
  nbits : Nat
  nset : Nat
  bits : List (BitVec 32)
  deriving DecidableEq

/-- An index as it is returned, in an `int`. -/
def asInt (n : Nat) : Int := (BitVec.ofNat 32 n).toInt

def incSize (n : Nat) : Nat := (n + 1) % 2 ^ 64
def decSize (n : Nat) : Nat := (n + (2 ^ 64 - 1)) % 2 ^ 64

def wordsFor (nbits : Nat) : Nat := nbits / 32 + if nbits % 32 ≠ 0 then 1 else 0

def bitMask (bit : Nat) : BitVec 32 := 1#32 <<< (bit % 32)

def memcpyWords (dst src : List (BitVec 32)) (n : Nat) : List (BitVec 32) :=
  src.take n ++ dst.drop n

/-- `bitset_init`.  `alloc` tells whether there is a pool with memory. -/
def bitsetInit (alloc : Bool) (nbits : Nat) : Option Bitset :=
  if alloc ∧ wordsFor nbits ≠ 0 then
    some
      { hasPool := true
        nwords := wordsFor nbits
        nbits := nbits
        nset := 0
        bits := List.replicate (wordsFor nbits) 0 }
  else none

namespace Bitset

variable (b : Bitset)

def word (i : Nat) : BitVec 32 := b.bits.getD i 0

def countNset : Nat :=
  ((List.range (32 * (b.nwords + 1))).takeWhile (· < b.nbits)).countP fun k =>
    (b.word (k / 32) &&& bitMask k) ≠ 0

def bitsetResize (n : Nat) (alloc : Bool) : Bitset × Bool :=
  if n = b.nbits then (b, true)
  else
    match bitsetInit (b.hasPool && alloc) n with
    | none => ({ b with hasPool := false }, false)
    | some b' =>
      if n > b.nbits then
        ({ b' with bits := memcpyWords b'.bits b.bits b.nwords, nset := b.nset }, true)
      else
        let b' := { b' with bits := memcpyWords b'.bits b.bits b'.nwords }
        ({ b' with nset := b'.countNset }, true)

def bitsetClearAll : Bitset := { b with bits := List.replicate b.nwords 0, nset := 0 }

def bitsetSetAll : Bitset :=
  { b with bits := List.replicate b.nwords 0xffffffff, nset := b.nbits }

def bitsetCopy (b₂ : Bitset) (alloc : Bool) : Bitset :=
  let b₁ := if b.nbits ≠ b₂.nbits then (b.bitsetResize b₂.nbits alloc).1 else b
  if b₁.nbits ≠ b₂.nbits then b₁
  else { b₁ with bits := memcpyWords b₁.bits b₂.bits b₁.nwords, nset := b₂.nset }

def bitsetClear (bit : Nat) : Bitset :=
  if bit < b.nbits ∧ (b.word (bit / 32) &&& bitMask bit) ≠ 0 then
    { b with
      bits := b.bits.set (bit / 32) (b.word (bit / 32) ^^^ bitMask bit)
      nset := decSize b.nset }
  else b

def bitsetSet (bit : Nat) : Bitset :=
  if bit < b.nbits ∧ (b.word (bit / 32) &&& bitMask bit) = 0 then
    { b with
      bits := b.bits.set (bit / 32) (b.word (bit / 32) ||| bitMask bit)
      nset := incSize b.nset }
  else b

def bitsetTest (bit : Nat) : Bool := bit < b.nbits ∧ (b.word (bit / 32) &&& bitMask bit) ≠ 0

def bitsetEqual (b₂ : Bitset) : Bool :=
  b.nbits = b₂.nbits ∧ b.nset = b₂.nset ∧ b.nwords = b₂.nwords ∧
    ∀ i < b.nwords, b.word i = b₂.word i

/-! ## Searching -/

def skipWord (value : Bool) : BitVec 32 := if value then 0 else 0xffffffff

def hasValue (value : Bool) (i iBit : Nat) : Bool :=
  decide ((b.word i &&& bitMask iBit) ≠ 0) == value

/-- The loops of `bitset_find_next_one` and `bitset_find_next_zero`. -/
def nextLoop (value : Bool) : List Nat → Nat → Option Nat
  | [], _ => none
  | i :: rest, iBit =>
    let found :=
      if b.word i ≠ skipWord value then
        (List.range' iBit (32 - iBit)).find? (b.hasValue value i)
      else none
    match found with
    | some k => some (i * 32 + k)
    | none => nextLoop value rest 0

def findNext (value : Bool) (bit : Nat) : Int :=
  if bit < b.nbits then
    ((b.nextLoop value (List.range' (bit / 32) (b.nwords - bit / 32)) (bit % 32)).map asInt).getD (-1)
  else -1

def bitsetFindNextOne (bit : Nat) : Int := b.findNext true bit
def bitsetFindFirstOne : Int := b.bitsetFindNextOne 0
def bitsetFindNextZero (bit : Nat) : Int := b.findNext false bit
def bitsetFindFirstZero : Int := b.bitsetFindNextZero 0

def lastInWord (value : Bool) (i : Nat) : Option Nat :=
  ((List.range 32).reverse.find? (b.hasValue value i)).map (i * 32 + ·)

/-- The loop of `bitset_find_last_one` over the first `n` words, from the last. -/
def lastOneLoop : Nat → Option Nat
  | 0 => none
  | i + 1 =>
    if b.word i = 0 then lastOneLoop i
    else
      match b.lastInWord true i with
      | some k => some k
      | none => lastOneLoop i

def lastZeroLoop : Nat → Option Nat
  | 0 => none
  | i + 1 =>
    if b.word i = 0 then some (i * 32 + 31)
    else
      match b.lastInWord false i with
      | some k => some k
      | none => lastZeroLoop i

def bitsetFindLastOne : Int := ((b.lastOneLoop b.nwords).map asInt).getD (-1)
def bitsetFindLastZero : Int := ((b.lastZeroLoop b.nwords).map asInt).getD (-1)

end Bitset

/-! ## Pools -/

/-- `bitset_t` with its pool, whose `bits_m` may be null. -/
structure PooledBitset (π : Type) where
  pool : Option π
  nwords : Nat
  nbits : Nat
  nset : Nat
  bits : Option (List (BitVec 32))

def vsPoolAlloc {π : Type} (gives : π → Nat → Bool) (pool : Option π) (length : Nat) : Bool :=
  match pool with
  | none => false
  | some p => if length = 0 then false else gives p length

def vsPoolFree {π : Type} (takes : π → Bool) (pool : Option π) : Bool :=
  match pool with
  | none => false
  | some p => takes p

namespace PooledBitset

variable {π : Type}

def cleared : PooledBitset π := ⟨none, 0, 0, 0, none⟩

def bitsetInit (gives : π → Nat → Bool) (pool : Option π) (nbits : Nat) : PooledBitset π × Bool :=
  if !vsPoolAlloc gives pool (4 * wordsFor nbits) then (cleared, false)
  else
    (⟨pool, wordsFor nbits, nbits, 0, some (List.replicate (wordsFor nbits) 0)⟩, true)

def view (b : PooledBitset π) : Option Bitset :=
  b.bits.map fun bits => ⟨b.pool.isSome, b.nwords, b.nbits, b.nset, bits⟩

def countNset (b : PooledBitset π) : Nat := (b.view.map Bitset.countNset).getD 0

def copyWords (b : PooledBitset π) (src : List (BitVec 32)) (n : Nat) : PooledBitset π :=
  { b with bits := b.bits.map fun dst => memcpyWords dst src n }

def bitsetResize (gives : π → Nat → Bool) (b : PooledBitset π) (n : Nat) : PooledBitset π × Bool :=
  if n = b.nbits then (b, true)
  else
    let init := bitsetInit gives b.pool n
    if !init.2 then
      ({ init.1 with nbits := b.nbits, nset := b.nset, nwords := b.nwords, bits := b.bits }, false)
    else
      match b.bits with
      | none => (init.1, true)
      | some orig =>
        if n > b.nbits then
          ({ init.1.copyWords orig b.nwords with nset := b.nset }, true)
        else
          let b' := init.1.copyWords orig init.1.nwords
          ({ b' with nset := b'.countNset }, true)

/-- `bitset_free`, and whether the words have been given back. -/
def bitsetFree (takes : π → Bool) (b : PooledBitset π) : PooledBitset π × Bool :=
  (cleared, if b.bits.isSome then vsPoolFree takes b.pool else true)

end PooledBitset

/-! ## Runs -/

inductive BitsetCall where
  | init (i nbits : Nat) (alloc : Bool)
  | set (i bit : Nat)
  | clear (i bit : Nat)
  | setAll (i : Nat)
  | clearAll (i : Nat)
  | copy (i j : Nat) (alloc : Bool)
  | resize (i n : Nat) (alloc : Bool)

end OpaFm.Cs
